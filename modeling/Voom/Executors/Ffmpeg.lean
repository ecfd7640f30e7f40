-- SUMMARY: The FFmpeg executor as the bus sees it: which plans it takes, and its answers to events.
import Voom.Executors.Mkvtoolnix

/-!
# The FFmpeg executor

Which plans the executor takes is modelled in full; what an execution comes back with is a
parameter of the handler.
-/

namespace Voom.Executors.Ffmpeg

/-- What `init` probed: codecs and muxers, absent without a probe. -/
structure Config where
  available : Bool
  encoders : Option (List String)
  decoders : Option (List String)
  formats : Option (List String)
  deriving Repr, Inhabited

variable (config : Config)

/-- The source track of a transcode has a decoder, as far as is known. -/
def hasDecoderForTrack (plan : Plan) (action : PlannedAction) : Bool :=
  match config.decoders, action.trackIndex with
  | some decoders, some idx =>
    match plan.file.tracks[idx]? with
    | some track => decoders.contains track.codec
    | none => true
  | _, _ => true

/-- Nothing is known of the encoder, or it is there. -/
def hasEncoder (codec : String) : Bool := config.encoders.all (·.contains codec)

def canHandleProbed (plan : Plan) : Bool :=
  plan.actions.all fun action =>
    match action.operation, action.parameters with
    | .transcodeVideo, .transcode codec _ | .transcodeAudio, .transcode codec _ =>
      hasEncoder config codec && hasDecoderForTrack config plan action
    | .synthesizeAudio, .synthesize params => params.codec.all (hasEncoder config)
    | .convertContainer, .container container =>
      config.formats.all fun formats => container.ffmpegFormatName.all formats.contains
    | _, _ => true

def canHandle (plan : Plan) : Bool :=
  if !config.available || plan.isEmpty || plan.isSkipped then false
  else
    let has (ops : List OperationType) := plan.actions.any fun a => ops.contains a.operation
    if has [.transcodeVideo, .transcodeAudio, .synthesizeAudio] || has [.convertContainer] then
      canHandleProbed config plan
    else if has [.muxSubtitle] then plan.file.container ≠ .mkv
    else plan.file.container ≠ .mkv && plan.actions.all (·.operation.isMetadataOp)

def pluginName : String := "ffmpeg-executor"

/-- `handle_plan_created`, given what an execution of the plan returns. -/
def handlePlanCreated (execute : Plan → Except VoomError (List ActionResult)) (plan : Plan) :
    Option EventResult :=
  if plan.isEmpty || plan.isSkipped || !canHandle config plan then none
  else some (EventResult.fromPlanExecution pluginName (execute plan))

/-- MKV files are left to the other executor. -/
def handleSubtitleGenerated (evt : SubtitleGeneratedEvent) (fileId planId : Uuid) :
    Except VoomError (Option EventResult) :=
  if !config.available || Mkvtoolnix.containerOf evt.path = .mkv then .ok none
  else do
    Mkvtoolnix.checkSubtitle (.plugin pluginName) evt
    return some (Mkvtoolnix.startMux pluginName (Mkvtoolnix.containerOf evt.path) evt fileId planId)

end Voom.Executors.Ffmpeg

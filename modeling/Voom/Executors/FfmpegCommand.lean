-- SUMMARY: The command line that the FFmpeg executor builds for the actions of a plan.
import Voom.Executors.Ffmpeg

/-!
# FFmpeg commands

A command is put together from parts, one for each call of the builder, and rendered to
arguments at the end. Decimals, lower case outside ASCII and quoted texts are left to an
environment; the measured values that a second pass of loudness normalization adds to its
filter are left out.
-/

namespace Voom.Executors.Ffmpeg

/-- What the standard library renders. -/
structure CommandEnv where
  /-- A number with one decimal. -/
  formatTenths : F64 → String
  /-- `str::to_lowercase` -/
  toLowercase : String → String
  /-- A text in quotes, with its escapes. -/
  debugText : String → String

def toolError (message : String) : VoomError := .toolExecution "ffmpeg" message

/-! ## Hardware -/

inductive HwAccelBackend where
  | nvenc | qsv | vaapi | videotoolbox
  deriving DecidableEq, Repr, Inhabited

structure HwAccelConfig where
  backend : Option HwAccelBackend := none
  validatedEncoders : Option (List String) := none
  hwDecoders : List String := []
  hwDecodeEnabled : Bool := true
  device : Option String := none
  deriving DecidableEq, Repr, Inhabited

def canonicalVideoCodec : String → String
  | "h265" => "hevc"
  | "avc" => "h264"
  | "mpeg2video" => "mpeg2"
  | other => other

def softwareEncoder : String → String
  | "hevc" | "h265" => "libx265"
  | "h264" | "avc" => "libx264"
  | "av1" => "libsvtav1"
  | "vp9" => "libvpx-vp9"
  | "opus" => "libopus"
  | other => other

def hwEncoderForBackend (backend : HwAccelBackend) (codec : String) : Option String :=
  let (suffix, supportedCodecs) :=
    match backend with
    | .nvenc => ("_nvenc", ["hevc", "h264", "av1"])
    | .qsv => ("_qsv", ["hevc", "h264", "av1", "vp9"])
    | .vaapi => ("_vaapi", ["hevc", "h264", "av1", "vp9"])
    | .videotoolbox => ("_videotoolbox", ["hevc", "h264"])
  let canonical := canonicalVideoCodec codec
  if supportedCodecs.contains canonical then some (canonical ++ suffix) else none

def hwDecoderForBackend (backend : HwAccelBackend) (codec : String) : Option String :=
  match backend with
  | .nvenc => some (canonicalVideoCodec codec ++ "_cuvid")
  | .qsv => some (canonicalVideoCodec codec ++ "_qsv")
  | .vaapi => some (canonicalVideoCodec codec ++ "_vaapi")
  | .videotoolbox => none

namespace HwAccelConfig

def enabled (config : HwAccelConfig) : Bool := config.backend.isSome

def deviceArgs (config : HwAccelConfig) : List String :=
  match config.backend, config.device with
  | some .vaapi, some path => ["-vaapi_device", path]
  | some .qsv, some path => ["-qsv_device", path]
  | _, _ => []

/-- The hardware encoder for a codec, if it passed validation or there was none. -/
def hwEncoder (config : HwAccelConfig) (codec : String) : Option String :=
  (config.backend.bind (hwEncoderForBackend · codec)).filter fun name =>
    config.validatedEncoders.all (·.contains name)

def encoderName (config : HwAccelConfig) (codec : String) : String :=
  (config.hwEncoder codec).getD (softwareEncoder codec)

def hasHwEncoder (config : HwAccelConfig) (codec : String) : Bool := (config.hwEncoder codec).isSome

def decoderInputArgs (config : HwAccelConfig) (sourceCodec : String) : List String :=
  if !config.hwDecodeEnabled then []
  else
    match config.backend with
    | none => []
    | some backend =>
      match hwDecoderForBackend backend sourceCodec with
      | none => []
      | some decoder =>
        if !config.hwDecoders.contains decoder then []
        else
          match backend with
          | .nvenc => ["-hwaccel", "cuda", "-hwaccel_output_format", "cuda"]
          | .qsv => ["-hwaccel", "qsv", "-hwaccel_output_format", "qsv"]
          | .vaapi => ["-hwaccel", "vaapi", "-hwaccel_output_format", "vaapi"]
          | .videotoolbox => []

end HwAccelConfig

def configFromBackendName (name : String) : HwAccelConfig :=
  { backend :=
      match name with
      | "nvenc" => some .nvenc
      | "qsv" => some .qsv
      | "vaapi" => some .vaapi
      | "videotoolbox" => some .videotoolbox
      | _ => none }

/-- An override takes what the system knows of its own backend. -/
def configFromBackendWithSystem (name : String) (system : Option HwAccelConfig) : HwAccelConfig :=
  let config := configFromBackendName name
  match config.backend, system with
  | some override, some sys => if sys.backend = some override then sys else config
  | _, _ => config

def resolveEffectiveHw (settings : TranscodeSettings) (hwAccel : Option HwAccelConfig) :
    Option HwAccelConfig :=
  match settings.hw with
  | some "none" => none
  | some backend =>
    let config := configFromBackendWithSystem backend hwAccel
    if config.enabled then some config else hwAccel
  | none => hwAccel

/-! ## Parts -/

/-- A part of a command: what one method of the builder pushes. -/
inductive Part where
  | arg (text : String)
  | input (path : Path)
  | mapAll
  | mapTrack (index : Nat)
  | mapMetadata (inputIndex : Nat)
  | mapChapters (inputIndex : Nat)
  | codecCopy
  | videoCodec (codec : String)
  | audioCodec (codec : String)
  | videoCodecForTrack (stream : Nat) (codec : String)
  | audioCodecForTrack (stream : Nat) (codec : String)
  | option (name value : String)
  | metadata (stream : Option Nat) (key value : String)
  | disposition (stream : Nat) (value : String)
  | output (path : Path)
  deriving DecidableEq, Repr

def Part.render : Part → List String
  | .arg text => [text]
  | .input path => ["-i", path.display]
  | .mapAll => ["-map", "0"]
  | .mapTrack index => ["-map", s!"0:{index}"]
  | .mapMetadata inputIndex => ["-map_metadata", toString inputIndex]
  | .mapChapters inputIndex => ["-map_chapters", toString inputIndex]
  | .codecCopy => ["-c", "copy"]
  | .videoCodec codec => ["-c:v", codec]
  | .audioCodec codec => ["-c:a", codec]
  | .videoCodecForTrack stream codec => [s!"-c:v:{stream}", codec]
  | .audioCodecForTrack stream codec => [s!"-c:a:{stream}", codec]
  | .option name value => [name, value]
  | .metadata (some stream) key value => [s!"-metadata:s:{stream}", key ++ "=" ++ value]
  | .metadata none key value => ["-metadata", key ++ "=" ++ value]
  | .disposition stream value => [s!"-disposition:{stream}", value]
  | .output path => [path.display]

/-- `build`. -/
def render (parts : List Part) : List String := parts.flatMap Part.render

def clearMetadata (key : String) : Part := .metadata none key ""

def mapNonAttachmentTracks (file : MediaFile) : List Part :=
  let mapped := (file.tracks.filter (·.trackType ≠ .attachment)).map fun t => Part.mapTrack t.index
  if mapped = [] then [.mapAll] else mapped

/-! ## Audio -/

section

variable (env : CommandEnv)

def loudnormFilter (settings : LoudnessNormalization) : String :=
  let lra := settings.lraMax.getD (.finite 99)
  "loudnorm=I=" ++ env.formatTenths settings.targetLufs ++ ":TP=" ++
    env.formatTenths settings.truePeakDb ++ ":LRA=" ++ env.formatTenths lra

def applyAudioCodecArgs (stream : Option Nat) (encoder : String) (bitrate : Option String)
    (channels : Option Nat) (loudness : Option LoudnessNormalization) : List Part :=
  let codec :=
    match stream with
    | some stream => Part.audioCodecForTrack stream encoder
    | none => .audioCodec encoder
  let filterName :=
    match stream with
    | some stream => s!"-filter:a:{stream}"
    | none => "-af"
  [codec] ++ (bitrate.map (Part.option "-b:a")).toList ++
    (channels.map fun n => Part.option "-ac" (toString n)).toList ++
    (loudness.map fun settings => Part.option filterName (loudnormFilter env settings)).toList

def applyTranscodeAudio (action : PlannedAction) : List Part :=
  match action.parameters with
  | .transcode codec settings =>
    applyAudioCodecArgs env action.trackIndex (softwareEncoder codec) settings.bitrate
      (settings.channels.bind TranscodeChannels.toCount) settings.loudness
  | _ => []

def applySynthesizeAudio (action : PlannedAction) : List Part :=
  match action.parameters with
  | .synthesize params =>
    applyAudioCodecArgs env action.trackIndex (softwareEncoder (params.codec.getD "aac"))
      params.bitrate params.channels params.loudness
  | _ => []

/-! ## Video -/

def applyQuality (encoder : String) (crf : Nat) : List Part :=
  if endsWith encoder "_nvenc" then [.option "-cq" (toString crf)]
  else if endsWith encoder "_qsv" then [.option "-global_quality" (toString crf)]
  else if endsWith encoder "_vaapi" then [.option "-rc_mode" "CQP", .option "-qp" (toString crf)]
  else if endsWith encoder "_videotoolbox" then [.option "-q:v" (toString crf)]
  else [.option "-crf" (toString crf)]

def applyPreset (encoder preset : String) : List Part :=
  if endsWith encoder "_vaapi" then [] else [.option "-preset" preset]

def applyTune (encoder tune : String) : List Part :=
  if endsWith encoder "_nvenc" || endsWith encoder "_qsv" || endsWith encoder "_vaapi" ||
      endsWith encoder "_videotoolbox" then []
  else [.option "-tune" tune]

def encoderSupportsHdr (codec : String) : Bool := ["hevc", "h265", "av1", "h264"].contains codec

def parseMaxHeight (spec : String) : Option Nat :=
  match env.toLowercase spec with
  | "4k" => some 2160
  | "8k" => some 4320
  | s =>
    if endsWith s "p" then parseUnsigned 32 (String.ofList s.toList.dropLast) else none

def shouldTonemap (settings : TranscodeSettings) : Bool :=
  settings.hdrMode = some "tonemap" || settings.preserveHdr = some false || settings.tonemap.isSome

def shouldPreserveHdr (sourceTrack : Track) (settings : TranscodeSettings) : Bool :=
  sourceTrack.isHdr && !shouldTonemap settings && settings.preserveHdr.getD true

def toneMapFilter (algorithm : String) : String :=
  "zscale=t=linear:npl=100,format=gbrpf32le,zscale=p=bt709,tonemap=tonemap=" ++ algorithm ++
    ":desat=0,zscale=t=bt709:m=bt709:r=tv,format=yuv420p"

variable (file : MediaFile)

def sourceVideoTrack (action : PlannedAction) : Option Track :=
  action.trackIndex.bind fun index =>
    file.tracks.find? fun t => t.index = index && t.trackType = .video

/-- `checked_sub`. -/
def checkedSub (a b : Nat) : Option Nat := if b ≤ a then some (a - b) else none

def cropFilter (action : PlannedAction) (settings : TranscodeSettings) : Option String := do
  let _ ← settings.crop
  let rect ← file.cropDetection
  if rect.left = 0 && rect.right = 0 && rect.top = 0 && rect.bottom = 0 then none
  let track ← sourceVideoTrack file action
  let sourceWidth ← track.width
  let sourceHeight ← track.height
  let width ← checkedSub (← checkedSub sourceWidth rect.left) rect.right
  let height ← checkedSub (← checkedSub sourceHeight rect.top) rect.bottom
  let width := width - width % 2
  let height := height - height % 2
  if width = 0 || height = 0 then none
  return s!"crop={width}:{height}:{rect.left}:{rect.top}"

def collectVideoFilters (action : PlannedAction) (settings : TranscodeSettings) : List String :=
  let scale :=
    settings.maxResolution.bind fun maxRes =>
      (parseMaxHeight env maxRes).map fun maxHeight =>
        "scale=-2:'min(ih," ++ toString maxHeight ++ ")':flags=" ++
          settings.scaleAlgorithm.getD "lanczos"
  let sourceIsHdr := (sourceVideoTrack file action).any (·.isHdr)
  let tonemap :=
    if shouldTonemap settings && (settings.hdrMode = some "tonemap" || sourceIsHdr) then
      some (toneMapFilter (settings.tonemap.getD "bt2390"))
    else none
  (cropFilter file action settings).toList ++ scale.toList ++ tonemap.toList

def requiresSoftwareVideoFilters (settings : TranscodeSettings) : Bool :=
  (settings.maxResolution.bind (parseMaxHeight env)).isSome || shouldTonemap settings ||
    settings.crop.isSome

def hdrColorPrimaries (track : Track) : String := track.colorPrimaries.getD "bt2020"
def hdrColorTransfer (track : Track) : String := track.colorTransfer.getD "smpte2084"
def hdrColorMatrix (track : Track) : String := track.colorMatrix.getD "bt2020nc"

def videoColorMetadata (primaries transfer matrix : String) : List Part :=
  [.option "-color_primaries" primaries, .option "-color_trc" transfer, .option "-colorspace" matrix]

def x265HdrParams (track : Track) : String :=
  let light :=
    match track.maxCll, track.maxFall with
    | some maxCll, some maxFall => [s!"max-cll={maxCll},{maxFall}"]
    | _, _ => []
  ":".intercalate (
    ["colorprim=" ++ hdrColorPrimaries track, "transfer=" ++ hdrColorTransfer track,
      "colormatrix=" ++ hdrColorMatrix track] ++
    (track.masterDisplay.map ("master-display=" ++ ·)).toList ++ light)

def applyHdrPreservation (encoder codec : String) (sourceTrack : Track) :
    Except VoomError (List Part) :=
  if !encoderSupportsHdr codec then
    .error (toolError ("cannot preserve " ++ sourceTrack.hdrFormat.getD "source" ++
      " HDR metadata while transcoding to " ++ codec ++
      "; choose hevc or av1, or set preserve_hdr: false to tone-map to SDR"))
  else
    let color := videoColorMetadata (hdrColorPrimaries sourceTrack) (hdrColorTransfer sourceTrack)
      (hdrColorMatrix sourceTrack)
    let depth :=
      if codec = "hevc" || containsText encoder "265" || containsText encoder "hevc" then
        let pixFmt :=
          if endsWith encoder "_vaapi" || endsWith encoder "_qsv" || endsWith encoder "_nvenc" then
            "p010le"
          else "yuv420p10le"
        [Part.option "-pix_fmt" pixFmt] ++
          (if encoder = "libx265" then [.option "-x265-params" (x265HdrParams sourceTrack)] else [])
      else []
    .ok (color ++ depth)

/-- Without a fallback the hardware encoder has to be there. -/
def checkHwFallback (codec : String) (settings : TranscodeSettings)
    (effectiveHw : Option HwAccelConfig) : Except VoomError Unit :=
  if settings.hw.any (· ≠ "none") && settings.hwFallback = some false then
    match effectiveHw with
    | some config =>
      if config.hasHwEncoder codec then .ok ()
      else
        .error (toolError ("HW encoder for " ++ codec ++
          " not available on this device and hw_fallback is disabled"))
    | none =>
      .error (toolError ("no HW acceleration backend available for " ++ codec ++
        " and hw_fallback is disabled"))
  else .ok ()

/-- The color metadata of an encode from an HDR track. -/
def applyHdr (action : PlannedAction) (encoder codec : String) (settings : TranscodeSettings) :
    Except VoomError (List Part) :=
  match sourceVideoTrack file action with
  | none => .ok []
  | some sourceTrack =>
    if shouldPreserveHdr sourceTrack settings then applyHdrPreservation encoder codec sourceTrack
    else if sourceTrack.isHdr && shouldTonemap settings then
      .ok (videoColorMetadata "bt709" "bt709" "bt709")
    else .ok []

variable (hwAccel : Option HwAccelConfig)

/-- The encoder of a video transcode. -/
def videoEncoder (codec : String) (settings : TranscodeSettings) : String :=
  match resolveEffectiveHw settings hwAccel with
  | some config => config.encoderName codec
  | none => softwareEncoder codec

def applyTranscodeVideo (action : PlannedAction) : Except VoomError (List Part) :=
  match action.parameters with
  | .transcode codec settings => do
    checkHwFallback codec settings (resolveEffectiveHw settings hwAccel)
    let encoder := videoEncoder hwAccel codec settings
    let codecPart :=
      match action.trackIndex with
      | some stream => Part.videoCodecForTrack stream encoder
      | none => .videoCodec encoder
    let hdr ← applyHdr file action encoder codec settings
    let filters := collectVideoFilters env file action settings
    return [codecPart] ++ (settings.crf.map (applyQuality encoder)).getD [] ++
      (settings.preset.map (applyPreset encoder)).getD [] ++
      (settings.tune.map (applyTune encoder)).getD [] ++
      (settings.bitrate.map (Part.option "-b:v")).toList ++ hdr ++
      (if filters = [] then [] else [.option "-vf" (",".intercalate filters)])
  | _ => .ok []

def pixelFormatAllowsDirectHwDecode (pixelFormat : Option String) : Bool :=
  pixelFormat.all fun format =>
    let lower := toAsciiLowercase format
    !(["alpha", "yuva", "rgba", "bgra", "gbr", "rgb"].any (containsText lower ·))

def actionAllowsDirectHwDecode (action : PlannedAction) (config : HwAccelConfig) : List String :=
  match action.parameters with
  | .transcode codec settings =>
    if !config.hasHwEncoder codec || requiresSoftwareVideoFilters env settings then []
    else
      match sourceVideoTrack file action with
      | none => []
      | some track =>
        if pixelFormatAllowsDirectHwDecode track.pixelFormat then config.decoderInputArgs track.codec
        else []
  | _ => []

/-- Hardware decoding is asked for by the first video transcode that allows it. -/
def hwDecodeArgs (actions : List PlannedAction) : List String :=
  ((actions.filter (·.operation = .transcodeVideo)).findSome? fun action =>
    match action.parameters with
    | .transcode _ settings =>
      (resolveEffectiveHw settings hwAccel).bind fun config =>
        let args := actionAllowsDirectHwDecode env file action config
        if args = [] then none else some args
    | _ => none).getD []

/-! ## Streams -/

/-- What is written for a stream of the output. -/
structure OutputTrackMetadata where
  outputIndex : Nat
  inputIndex : Nat
  language : String
  title : String
  isDefault : Bool
  isForced : Bool
  deriving DecidableEq, Repr

def OutputTrackMetadata.fromTrack (outputIndex : Nat) (track : Track) : OutputTrackMetadata :=
  { outputIndex, inputIndex := track.index, language := track.language, title := track.title
    isDefault := track.isDefault, isForced := track.isForced }

def OutputTrackMetadata.dispositionValue (stream : OutputTrackMetadata) : String :=
  match stream.isDefault, stream.isForced with
  | true, true => "default+forced"
  | true, false => "default"
  | false, true => "forced"
  | false, false => "0"

/-- The tracks that are mapped. -/
def outputTracks (excludeAttachments : Bool) : List Track :=
  file.tracks.filter fun t => !(excludeAttachments && t.trackType = .attachment)

def outputTrackMetadata (excludeAttachments : Bool) : List OutputTrackMetadata :=
  (outputTracks file excludeAttachments).mapIdx OutputTrackMetadata.fromTrack

/-- One action on its stream. -/
def applyTrackMetadataAction (action : PlannedAction) (stream : OutputTrackMetadata) :
    Except VoomError OutputTrackMetadata :=
  match action.operation, action.parameters with
  | .setDefault, _ => .ok { stream with isDefault := true }
  | .clearDefault, _ => .ok { stream with isDefault := false }
  | .setForced, _ => .ok { stream with isForced := true }
  | .clearForced, _ => .ok { stream with isForced := false }
  | .setTitle, .title title => (validateMetadataValue title).map fun _ => { stream with title }
  | .setLanguage, .language language =>
    (validateMetadataValue language).map fun _ => { stream with language }
  | _, _ => .ok stream

/-- The first stream from a track. -/
def onStream (index : Nat) (f : OutputTrackMetadata → Except VoomError OutputTrackMetadata) :
    List OutputTrackMetadata → Except VoomError (List OutputTrackMetadata)
  | [] => .ok []
  | stream :: rest =>
    if stream.inputIndex = index then (f stream).map (· :: rest)
    else (onStream index f rest).map (stream :: ·)

def applyTrackMetadataActions :
    List PlannedAction → List OutputTrackMetadata → Except VoomError (List OutputTrackMetadata)
  | [], streams => .ok streams
  | action :: rest, streams => do
    let streams ←
      match action.trackIndex with
      | some index => onStream index (applyTrackMetadataAction action) streams
      | none => .ok streams
    applyTrackMetadataActions rest streams

def streamParts (stream : OutputTrackMetadata) : Except VoomError (List Part) := do
  validateMetadataValue stream.language
  validateMetadataValue stream.title
  return [.metadata (some stream.outputIndex) "language" stream.language,
    .metadata (some stream.outputIndex) "title" stream.title,
    .disposition stream.outputIndex stream.dispositionValue]

def applyPreservedStreamMetadata (excludeAttachments : Bool) (actions : List PlannedAction) :
    Except VoomError (List Part) :=
  let streams := outputTrackMetadata file excludeAttachments
  if streams = [] then .ok []
  else do
    let streams ← applyTrackMetadataActions actions streams
    let parts ← streams.mapM streamParts
    return [.mapMetadata 0, .mapChapters 0] ++ parts.flatten

/-! ## Commands -/

def validateMetadataKey (key : String) : Except VoomError Unit := do
  if key = "" then .error (.validation "metadata key cannot be empty")
  validateMetadataValue key
  if containsText key "=" then
    .error (.validation ("metadata key contains '=' which would corrupt key=value parsing: " ++
      env.debugText key))

/-- What one action adds. Edits of tracks are applied at the end, and operations that are not
for FFmpeg add nothing. -/
def actionParts (action : PlannedAction) : Except VoomError (List Part) :=
  match action.operation, action.parameters with
  | .transcodeVideo, _ => applyTranscodeVideo env file hwAccel action
  | .transcodeAudio, _ => .ok (applyTranscodeAudio env action)
  | .synthesizeAudio, _ => .ok (applySynthesizeAudio env action)
  | .setContainerTag, .setTag tag value => do
    validateMetadataKey env tag
    validateMetadataValue value
    return [.metadata none tag value]
  | .clearContainerTags, .clearTags tags =>
    tags.mapM fun tag => (validateMetadataKey env tag).map fun _ => clearMetadata tag
  | .deleteContainerTag, .deleteTag tag => do
    validateMetadataKey env tag
    return [clearMetadata tag]
  | _, _ => .ok []

def excludesAttachments (actions : List PlannedAction) : Bool :=
  actions.any (·.operation = .transcodeVideo)

def mapParts (actions : List PlannedAction) : List Part :=
  if excludesAttachments actions then mapNonAttachmentTracks file else [.mapAll]

def buildFfmpegCommand (actions : List PlannedAction) (outputPath : Path) :
    Except VoomError (List Part) := do
  let device := (hwAccel.map HwAccelConfig.deviceArgs).getD []
  let processed ← actions.mapM (actionParts env file hwAccel)
  let preserved ← applyPreservedStreamMetadata file (excludesAttachments actions) actions
  return [.arg "-y", .arg "-hide_banner"] ++ device.map .arg ++
    (hwDecodeArgs env file hwAccel actions).map .arg ++ [.input file.path] ++
    mapParts file actions ++ [.codecCopy] ++ processed.flatten ++ preserved ++ [.output outputPath]

/-- The first conversion tells the extension, and without one the container, or the path if it is
none that is known. -/
def outputExtension (actions : List PlannedAction) : String :=
  let target := actions.findSome? fun action =>
    match action.operation, action.parameters with
    | .convertContainer, .container container => some container.asStr
    | _, _ => none
  target.getD (
    if file.container = .other then file.path.extension.getD "mkv" else file.container.asStr)

end

end Voom.Executors.Ffmpeg

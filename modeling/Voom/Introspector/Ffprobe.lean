-- SUMMARY: The parser of ffprobe's JSON: from a probe to a media file.
import Voom.Domain.Codecs
import Voom.Domain.Media
import Voom.Domain.Text

/-!
# Parsing ffprobe's output

The parser never fails: what it does not understand is left out. The parsing and the
arithmetic of doubles and Unicode lower case are parameters.
-/

namespace Voom.Introspector

structure ProbeEnv where
  parseF64 : String → Option F64
  toLowercase : String → String
  sub : F64 → F64 → F64
  div : F64 → F64 → F64

inductive AnimationDetectionMode where
  | off | metadataOnly | heuristic
  deriving DecidableEq, Repr

section

variable (env : ProbeEnv)

/-! ## Format -/

/-- The text under a key. -/
def textAt (json : Json) (key : String) : Option String := (json.get key).bind Json.asStr

def parseDuration (format : Json) : F64 :=
  ((textAt format "duration").bind env.parseF64).getD (.finite 0)

def parseBitrate (format : Json) : Option Nat :=
  (textAt format "bit_rate").bind (parseUnsigned 32)

/-- Insertion into the map of tags, where a later value replaces an earlier one. -/
def insertTag (tags : List (String × String)) (key value : String) : List (String × String) :=
  tags.filter (·.1 ≠ key) ++ [(key, value)]

def parseFormatTags (format : Json) : List (String × String) :=
  (((format.get "tags").bind Json.asObject).getD []).foldl
    (fun tags field =>
      match field.2.asStr with
      | some value => insertTag tags (env.toLowercase field.1) value
      | none => tags) []

/-! ## Cover art -/

def imageOnlyCodecs : List String := ["mjpeg", "png", "bmp", "gif", "webp"]

/-- An image codec without evidence of motion: at most one frame, or no frame count and no
duration. -/
def isLikelyCoverArtStream (codec : String) (stream : Json) : Bool :=
  if !imageOnlyCodecs.contains codec then false
  else
    match (textAt stream "nb_frames").bind (parseUnsigned 64) with
    | some frames => decide (frames ≤ 1)
    | none =>
      let duration := ((textAt stream "duration").filter (· ≠ "N/A")).bind env.parseF64
      (duration.getD (.finite 0)).le (.finite 0)

/-! ## Video fields -/

/-- `parse_fraction`: a fraction with a positive denominator, or a plain number. -/
def parseFraction (s : String) : Option F64 :=
  let chars := s.toList
  if '/' ∈ chars then
    let num := String.ofList (chars.takeWhile (· ≠ '/'))
    let den := String.ofList ((chars.dropWhile (· ≠ '/')).drop 1)
    match env.parseF64 num, env.parseF64 den with
    | some num, some den =>
      if (F64.finite 0).lt den then some (env.div num den) else env.parseF64 s
    | _, _ => none
  else env.parseF64 s

def parseFrameRate (stream : Json) : Option F64 :=
  (textAt stream "r_frame_rate").bind (parseFraction env)

/-- The double nearest to one hundredth. -/
def onePercent : F64 := .finite (5764607523034235 / 576460752303423488)

/-- Two rates that differ by more than one percent. -/
def detectVfr (stream : Json) : Bool :=
  match (textAt stream "r_frame_rate").bind (parseFraction env),
    (textAt stream "avg_frame_rate").bind (parseFraction env) with
  | some r, some avg =>
    (F64.finite 0).lt r && (F64.finite 0).lt avg && onePercent.lt (env.div (env.sub r avg).abs r)
  | _, _ => false

def streamString (stream : Json) (key : String) : Option String :=
  (textAt stream key).filter fun value => value ≠ "" && value ≠ "unknown"

def sideDataList (stream : Json) : List Json :=
  ((stream.get "side_data_list").bind Json.asArray).getD []

def sideDataType (sideData : Json) : String := (textAt sideData "side_data_type").getD ""

def jsonU64OrStr (value : Json) : Option Nat :=
  value.asU64.or (value.asStr.bind (parseUnsigned 64))

def sideDataU32 (sideData : Json) (keys : List String) : Option Nat :=
  keys.findSome? fun key => ((sideData.get key).bind jsonU64OrStr).filter (· < 2 ^ 32)

def sideDataU8 (sideData : Json) (keys : List String) : Option Nat :=
  (sideDataU32 sideData keys).filter (· < 2 ^ 8)

def isDolbyVisionSideData (sideType : String) : Bool :=
  containsText sideType "DOVI" || containsText sideType "Dolby Vision"

/-- The text before the first slash. -/
def normalizeHdrRatio (value : String) : String :=
  String.ofList (value.toList.takeWhile (· ≠ '/'))

/-- `hdr_coord`, which is `hdr_luminance` as well. -/
def hdrCoord (value : Json) : Option String :=
  ((jsonU64OrStr value).map toString).or (value.asStr.map normalizeHdrRatio)

def formatMasterDisplay (sideData : Json) : Option String :=
  match sideData.get "red_x", sideData.get "red_y", sideData.get "green_x", sideData.get "green_y",
    sideData.get "blue_x", sideData.get "blue_y", sideData.get "white_point_x",
    sideData.get "white_point_y", sideData.get "min_luminance", sideData.get "max_luminance" with
  | some rx, some ry, some gx, some gy, some bx, some bY, some wx, some wy, some min, some max => do
    let gx ← hdrCoord gx
    let gy ← hdrCoord gy
    let bx ← hdrCoord bx
    let bY ← hdrCoord bY
    let rx ← hdrCoord rx
    let ry ← hdrCoord ry
    let wx ← hdrCoord wx
    let wy ← hdrCoord wy
    let max ← hdrCoord max
    let min ← hdrCoord min
    some s!"G({gx},{gy})B({bx},{bY})R({rx},{ry})WP({wx},{wy})L({max},{min})"
  | _, _, _, _, _, _, _, _, _, _ => textAt sideData "master_display"

structure HdrMetadata where
  colorPrimaries : Option String := none
  colorTransfer : Option String := none
  colorMatrix : Option String := none
  maxCll : Option Nat := none
  maxFall : Option Nat := none
  masterDisplay : Option String := none
  dolbyVisionProfile : Option Nat := none
  deriving DecidableEq, Repr

def parseHdrMetadata (stream : Json) : HdrMetadata :=
  (sideDataList stream).foldl
    (fun metadata sd =>
      let sideType := sideDataType sd
      if containsText sideType "Content light level" then
        { metadata with
          maxCll := sideDataU32 sd ["max_content", "max_cll"]
          maxFall := sideDataU32 sd ["max_average", "max_fall"] }
      else if containsText sideType "Mastering display" then
        { metadata with masterDisplay := formatMasterDisplay sd }
      else if isDolbyVisionSideData sideType then
        { metadata with dolbyVisionProfile := sideDataU8 sd ["dv_profile", "profile"] }
      else metadata)
    { colorPrimaries := streamString stream "color_primaries"
      colorTransfer := streamString stream "color_transfer"
      colorMatrix := streamString stream "color_space" }

/-- The kinds of HDR side data, as the loop of `detect_hdr` tells them apart. -/
def isHdr10PlusSideData (sideType : String) : Bool :=
  !isDolbyVisionSideData sideType &&
    (containsText sideType "HDR10+" || containsText sideType "Dynamic HDR")

def isHdrSideData (sideType : String) : Bool :=
  isDolbyVisionSideData sideType || isHdr10PlusSideData sideType ||
    containsText sideType "Mastering display" || containsText sideType "Content light level"

def detectHdr (stream : Json) : Bool × Option String :=
  let transfer := (textAt stream "color_transfer").getD ""
  let sideTypes := (sideDataList stream).map sideDataType
  let isHdrTransfer :=
    ["smpte2084", "arib-std-b67", "smpte428", "bt2020-10", "bt2020-12"].contains transfer
  let hasHdrSideData := sideTypes.any isHdrSideData
  let hdrFormat :=
    if sideTypes.any isDolbyVisionSideData then
      match (parseHdrMetadata stream).dolbyVisionProfile with
      | none => some "Dolby Vision"
      | some profile => some s!"Dolby Vision Profile {profile}"
    else if sideTypes.any isHdr10PlusSideData then some "HDR10+"
    else if transfer = "smpte2084" then some "HDR10"
    else if transfer = "arib-std-b67" then some "HLG"
    else if hasHdrSideData then some "HDR10"
    else none
  (isHdrTransfer || hasHdrSideData, hdrFormat)

/-! ## Animation -/

/-- The tag of a stream under a key, ASCII case ignored. -/
def streamTag (stream : Json) (key : String) : Option String :=
  (((stream.get "tags").bind Json.asObject).bind fun fields =>
    fields.find? fun field => toAsciiLowercase field.1 = toAsciiLowercase key).bind
      fun field => field.2.asStr

/-- What a tag says about animation, if anything. -/
def animationVerdict (value : String) : Option Bool :=
  let value := toAsciiLowercase value
  if containsText value "animation" || containsText value "anime" then some true
  else if containsText value "live action" || containsText value "live-action" then some false
  else none

def explicitAnimationTag (stream : Json) : Option Bool :=
  ["genre", "content_type", "CONTENT_TYPE"].findSome? fun key =>
    (streamTag stream key).bind animationVerdict

def heuristicAnimation (stream : Json) : Option Bool :=
  let colorSpace := (textAt stream "color_space").getD ""
  let pixelFormat := (textAt stream "pix_fmt").getD ""
  if (detectHdr stream).1 || containsText colorSpace "bt2020" then some false
  else
    let hasDenseCuts :=
      match (textAt stream "nb_frames").bind env.parseF64,
        (textAt stream "duration").bind env.parseF64 with
      | some frames, some duration =>
        (F64.finite 0).lt duration && (F64.finite 20).le (env.div frames duration)
      | _, _ => false
    if ["pal8", "rgb4", "rgb8", "bgr4", "bgr8"].contains pixelFormat &&
        (colorSpace = "" || colorSpace = "bt709") && hasDenseCuts then some true
    else none

def detectAnimation (stream : Json) : AnimationDetectionMode → Option Bool
  | .off => none
  | .metadataOnly => explicitAnimationTag stream
  | .heuristic => (explicitAnimationTag stream).or (heuristicAnimation env stream)

/-! ## Track types -/

def classifyAudioTrack (title : String) (isDefault isCommentary : Bool) : TrackType :=
  let title := env.toLowercase title
  if isCommentary || containsText title "commentary" || containsText title "comment" then
    .audioCommentary
  else if containsText title "music" || containsText title "soundtrack" then .audioMusic
  else if containsText title "effect" || containsText title "sfx" then .audioSfx
  else if isDefault then .audioMain
  else .audioAlternate

def classifySubtitleTrack (title : String) (isCommentary isForced : Bool) : TrackType :=
  let title := env.toLowercase title
  if isForced then .subtitleForced
  else if isCommentary || containsText title "commentary" || containsText title "comment" then
    .subtitleCommentary
  else .subtitleMain

/-! ## Streams -/

/-- The canonical codec name, or the name in lower case. -/
def streamCodec (stream : Json) : String :=
  let name := (textAt stream "codec_name").getD "unknown"
  (normalizeCodec name).getD (env.toLowercase name)

/-- A flag of the `disposition` object. -/
def dispFlag (stream : Json) (key : String) : Bool :=
  (((stream.get "disposition").getD .null).get key).bind Json.asI64 = some 1

def streamTagText (stream : Json) (key : String) : Option String :=
  ((stream.get "tags").bind (Json.get key)).bind Json.asStr

/-- `u32::try_from(..).unwrap_or(u32::MAX)`. -/
def saturateU32 (n : Nat) : Nat := min n (2 ^ 32 - 1)

/-- The fields all tracks have. -/
def commonTrack (index : Nat) (stream : Json) : Track :=
  { index, trackType := .video, codec := streamCodec env stream
    language := ((streamTagText stream "language").bind normalizeLanguage).getD "und"
    title := (streamTagText stream "title").getD ""
    isDefault := dispFlag stream "default"
    isForced := dispFlag stream "forced" }

/-- A stream of type video that is no attached picture and no cover art. -/
def videoTrack (common : Track) (stream : Json) (mode : AnimationDetectionMode) : Track :=
  let hdr := parseHdrMetadata stream
  { common with
    trackType := .video
    width := ((stream.get "width").bind Json.asU64).map saturateU32
    height := ((stream.get "height").bind Json.asU64).map saturateU32
    frameRate := parseFrameRate env stream
    isVfr := detectVfr env stream
    isHdr := (detectHdr stream).1
    hdrFormat := (detectHdr stream).2
    pixelFormat := textAt stream "pix_fmt"
    colorPrimaries := hdr.colorPrimaries
    colorTransfer := hdr.colorTransfer
    colorMatrix := hdr.colorMatrix
    maxCll := hdr.maxCll
    maxFall := hdr.maxFall
    masterDisplay := hdr.masterDisplay
    dolbyVisionProfile := hdr.dolbyVisionProfile
    isAnimation := detectAnimation env stream mode }

def audioTrack (common : Track) (stream : Json) : Track :=
  { common with
    trackType := classifyAudioTrack env common.title common.isDefault (dispFlag stream "comment")
    channels := ((stream.get "channels").bind Json.asU64).map saturateU32
    channelLayout := textAt stream "channel_layout"
    sampleRate := (textAt stream "sample_rate").bind (parseUnsigned 32)
    bitDepth := (textAt stream "bits_per_raw_sample").bind (parseUnsigned 32) }

def parseStream (index : Nat) (stream : Json) (mode : AnimationDetectionMode) : Option Track :=
  let common := commonTrack env index stream
  match textAt stream "codec_type" with
  | some "video" =>
    if dispFlag stream "attached_pic" then some { common with trackType := .attachment }
    else if isLikelyCoverArtStream env common.codec stream then
      some { common with trackType := .attachment }
    else some (videoTrack env common stream mode)
  | some "audio" => some (audioTrack env common stream)
  | some "subtitle" =>
    some { common with
      trackType :=
        classifySubtitleTrack env common.title (dispFlag stream "comment") common.isForced }
  | some "attachment" =>
    some { common with trackType := .attachment, isDefault := false, isForced := false }
  | _ => none

/-- Each stream under its position. -/
def parseStreams (mode : AnimationDetectionMode) : List Json → Nat → List Track
  | [], _ => []
  | stream :: rest, position =>
    (parseStream env (saturateU32 position) stream mode).toList ++
      parseStreams mode rest (position + 1)

/-- The `streams` of a probe. -/
def streams (json : Json) : List Json := ((json.get "streams").bind Json.asArray).getD []

/-- `parse_ffprobe_output_with_animation_detection`. The identifier and the time of the new
media file are arguments. -/
def parseFfprobeOutput (json : Json) (path : Path) (size : Nat) (contentHash : Option Hash)
    (mode : AnimationDetectionMode) (id : Uuid) (now : Time) : MediaFile :=
  let format := (json.get "format").getD .null
  { id, path, size, contentHash
    container := path.extension.elim .other Container.fromExtension
    duration := parseDuration env format
    bitrate := parseBitrate format
    tracks := parseStreams env mode (streams json) 0
    tags := parseFormatTags env format
    introspectedAt := now }

/-! ## The video tracks of a probe -/

/-- A stream that becomes a video track: of type video, no attached picture and no cover
art. -/
def isMotionVideo (stream : Json) : Bool :=
  textAt stream "codec_type" = some "video" && !dispFlag stream "attached_pic" &&
    !isLikelyCoverArtStream env (streamCodec env stream) stream

theorem classifyAudioTrack_ne_video (title : String) (isDefault isCommentary : Bool) :
    classifyAudioTrack env title isDefault isCommentary ≠ .video := by
  unfold classifyAudioTrack
  dsimp only
  repeat' split
  all_goals simp

theorem classifySubtitleTrack_ne_video (title : String) (isCommentary isForced : Bool) :
    classifySubtitleTrack env title isCommentary isForced ≠ .video := by
  unfold classifySubtitleTrack
  dsimp only
  repeat' split
  all_goals simp

/-- The codecs of the video tracks that a stream gives. -/
theorem videoCodecs_parseStream (index : Nat) (stream : Json) (mode : AnimationDetectionMode) :
    ((parseStream env index stream mode).toList.filter (·.trackType = .video)).map Track.codec =
      if isMotionVideo env stream then [streamCodec env stream] else [] := by
  unfold parseStream isMotionVideo
  dsimp only
  split
  next htype =>
    by_cases hpic : dispFlag stream "attached_pic" = true
    · simp [hpic, htype]
    · by_cases hcover :
        isLikelyCoverArtStream env (commonTrack env index stream).codec stream = true
      · have hcover' : isLikelyCoverArtStream env (streamCodec env stream) stream = true := hcover
        simp [hpic, hcover, hcover', htype]
      · have hcover' : ¬ isLikelyCoverArtStream env (streamCodec env stream) stream = true := hcover
        simp [hpic, hcover', htype, videoTrack, commonTrack]
  next htype =>
    simp [htype, audioTrack, classifyAudioTrack_ne_video]
  next htype =>
    simp [htype, classifySubtitleTrack_ne_video]
  next htype =>
    simp [htype]
  next hvideo _ _ _ =>
    have hne : textAt stream "codec_type" ≠ some "video" := fun h => hvideo h
    simp [hne]

theorem videoCodecs_parseStreams (mode : AnimationDetectionMode) (items : List Json)
    (position : Nat) :
    ((parseStreams env mode items position).filter (·.trackType = .video)).map Track.codec =
      (items.filter (isMotionVideo env)).map (streamCodec env) := by
  induction items generalizing position with
  | nil => rfl
  | cons stream rest ih =>
    rw [parseStreams, List.filter_append, List.map_append, videoCodecs_parseStream, ih,
      List.filter_cons]
    split
    · rfl
    · rfl

end

end Voom.Introspector

-- SUMMARY: The codec and language names the program knows, with the lookups over them.
import Mathlib.Data.List.Basic

namespace Voom

/-- `to_ascii_lowercase`. -/
def toAsciiLowercase (s : String) : String := String.ofList (s.toList.map Char.toLower)

/-! ## Edit distance -/

/-- One row of the Levenshtein table, from the row above it and the cell to its left. -/
def editRow {α : Type} [DecidableEq α] (a : α) : List Nat → List α → Nat → List Nat
  | diagonal :: above :: rest, b :: bs, left =>
    let cell := min (min (above + 1) (left + 1)) (diagonal + if a = b then 0 else 1)
    cell :: editRow a (above :: rest) bs cell
  | _, _, _ => []

def editRows {α : Type} [DecidableEq α] (bs : List α) : List α → Nat → List Nat → List Nat
  | [], _, row => row
  | a :: as, i, row => editRows bs as (i + 1) ((i + 1) :: editRow a row bs (i + 1))

def editDistance {α : Type} [DecidableEq α] (as bs : List α) : Nat :=
  (editRows bs as 0 (List.range (bs.length + 1))).getLast?.getD 0

/-- The known value nearest to an input, of those at distance three or less; of several the
first. -/
def suggestNearest (distance : String → Nat) (known : List (String × String)) : Option String :=
  (known.foldl
    (fun best candidate =>
      let d := distance candidate.1
      if d ≤ 3 ∧ best.all (fun b => d < b.2) then some (candidate.2, d) else best)
    (none : Option (String × Nat))).map (·.1)

/-! ## Codecs -/

/-- Video codec names with their canonical forms. -/
def videoCodecs : List (String × String) :=
  [("h264", "h264"), ("avc", "h264"), ("avc1", "h264"), ("x264", "h264"), ("h265", "hevc"),
   ("hevc", "hevc"), ("x265", "hevc"), ("hev1", "hevc"), ("av1", "av1"), ("av01", "av1"),
   ("vp9", "vp9"), ("vp09", "vp9"), ("vp8", "vp8"), ("mpeg2", "mpeg2video"),
   ("mpeg2video", "mpeg2video"), ("m2v", "mpeg2video"), ("vc1", "vc1"), ("vc-1", "vc1"),
   ("wmv3", "vc1")]

/-- Audio codec names. -/
def audioCodecs : List (String × String) :=
  [("aac", "aac"), ("aac-lc", "aac"), ("mp4a", "aac"), ("ac3", "ac3"), ("ac-3", "ac3"),
   ("a_ac3", "ac3"), ("eac3", "eac3"), ("e-ac-3", "eac3"), ("a_eac3", "eac3"),
   ("truehd", "truehd"), ("mlp", "truehd"), ("a_truehd", "truehd"), ("dts", "dts"),
   ("a_dts", "dts"), ("dts_hd", "dts_hd_ma"), ("dts-hd", "dts_hd_ma"),
   ("dts-hd ma", "dts_hd_ma"), ("dts_hd_ma", "dts_hd_ma"), ("flac", "flac"), ("a_flac", "flac"),
   ("opus", "opus"), ("a_opus", "opus"), ("vorbis", "vorbis"), ("a_vorbis", "vorbis"),
   ("mp3", "mp3"), ("mp2", "mp2"), ("pcm", "pcm"), ("pcm_s16le", "pcm"), ("pcm_s24le", "pcm")]

/-- Subtitle codec names. -/
def subtitleCodecs : List (String × String) :=
  [("srt", "subrip"), ("subrip", "subrip"), ("s_text/utf8", "subrip"), ("ass", "ass"),
   ("ssa", "ass"), ("s_text/ass", "ass"), ("pgs", "hdmv_pgs_subtitle"),
   ("hdmv_pgs_subtitle", "hdmv_pgs_subtitle"), ("s_hdmv/pgs", "hdmv_pgs_subtitle"),
   ("vobsub", "dvd_subtitle"), ("dvd_subtitle", "dvd_subtitle"), ("s_vobsub", "dvd_subtitle"),
   ("dvb_subtitle", "dvb_subtitle"), ("webvtt", "webvtt")]

/-- The canonical name of a codec, absent when it is not known. -/
def normalizeCodec (name : String) : Option String :=
  let lower := toAsciiLowercase name
  (videoCodecs.lookup lower).or ((audioCodecs.lookup lower).or (subtitleCodecs.lookup lower))

/-- The canonical names, in alphabetical order. -/
def allCodecNames : List String :=
  ((videoCodecs ++ audioCodecs ++ subtitleCodecs).map (·.2)).eraseDups.mergeSort
    (fun a b => decide (a ≤ b))

/-- The canonical name closest to an unknown one, itself or by an alias. Ties between aliases
go by table order here and by hash order in the program. -/
def suggestCodec (name : String) : Option String :=
  let lower := (toAsciiLowercase name).toUTF8.toList
  suggestNearest (fun candidate => editDistance lower candidate.toUTF8.toList)
    (allCodecNames.map (fun c => (c, c)) ++ videoCodecs ++ audioCodecs ++ subtitleCodecs)

inductive CodecType where
  | video | audio | subtitle
  deriving DecidableEq, Repr, Inhabited

def codecType (name : String) : Option CodecType :=
  let lower := toAsciiLowercase name
  if (videoCodecs.lookup lower).isSome then some .video
  else if (audioCodecs.lookup lower).isSome then some .audio
  else if (subtitleCodecs.lookup lower).isSome then some .subtitle
  else none

/-! ## Languages -/

/-- Language codes with their canonical three-letter forms. -/
def languageCodes : List (String × String) :=
  [("en", "eng"), ("eng", "eng"), ("fr", "fre"), ("fra", "fre"), ("fre", "fre"), ("de", "ger"),
   ("deu", "ger"), ("ger", "ger"), ("es", "spa"), ("spa", "spa"), ("it", "ita"), ("ita", "ita"),
   ("pt", "por"), ("por", "por"), ("ru", "rus"), ("rus", "rus"), ("ja", "jpn"), ("jpn", "jpn"),
   ("zh", "chi"), ("zho", "chi"), ("chi", "chi"), ("ko", "kor"), ("kor", "kor"), ("ar", "ara"),
   ("ara", "ara"), ("hi", "hin"), ("hin", "hin"), ("nl", "dut"), ("nld", "dut"), ("dut", "dut"),
   ("sv", "swe"), ("swe", "swe"), ("no", "nor"), ("nor", "nor"), ("da", "dan"), ("dan", "dan"),
   ("fi", "fin"), ("fin", "fin"), ("pl", "pol"), ("pol", "pol"), ("cs", "cze"), ("ces", "cze"),
   ("cze", "cze"), ("hu", "hun"), ("hun", "hun"), ("ro", "rum"), ("ron", "rum"), ("rum", "rum"),
   ("el", "gre"), ("ell", "gre"), ("gre", "gre"), ("tr", "tur"), ("tur", "tur"), ("he", "heb"),
   ("heb", "heb"), ("th", "tha"), ("tha", "tha"), ("vi", "vie"), ("vie", "vie"), ("uk", "ukr"),
   ("ukr", "ukr"), ("und", "und"), ("zxx", "zxx"), ("mul", "mul")]

/-- The canonical three-letter form of a code, absent when it is not known. -/
def normalizeLanguage (code : String) : Option String :=
  languageCodes.lookup (toAsciiLowercase code)

/-- The code is one of the known two- or three-letter codes. -/
def isValidLanguage (code : String) : Bool :=
  (languageCodes.lookup (toAsciiLowercase code)).isSome

end Voom

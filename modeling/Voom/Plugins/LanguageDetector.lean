-- SUMMARY: The audio language detector: samples of tracks, what is made of them, and its cache.
import Mathlib.Data.List.Sort
import Mathlib.Data.Rat.Floor
import Voom.Domain.Media
import Voom.Domain.Text
import Voom.Lib.Run

/-!
# Language detector

For each audio track of an introspected file the plugin cuts samples with
ffmpeg, has whisper name their languages and makes one detection of them, which
it keeps in its cache. ffmpeg is asked for the audio stream of the track's index,
counted among the audio streams alone.
-/

namespace Voom.Plugins

/-! ## What whisper says -/

/-- The two-letter codes of `LANGUAGE_CODES`, up to ASCII case. -/
def fromIso6391 (code : String) : Option String :=
  match String.ofList (code.toList.map Char.toLower) with
  | "en" => some "eng"
  | "fr" => some "fre"
  | "de" => some "ger"
  | "es" => some "spa"
  | "it" => some "ita"
  | "pt" => some "por"
  | "ru" => some "rus"
  | "ja" => some "jpn"
  | "zh" => some "chi"
  | "ko" => some "kor"
  | "ar" => some "ara"
  | "hi" => some "hin"
  | "nl" => some "dut"
  | "sv" => some "swe"
  | "no" => some "nor"
  | "da" => some "dan"
  | "fi" => some "fin"
  | "pl" => some "pol"
  | "cs" => some "cze"
  | "hu" => some "hun"
  | "ro" => some "rum"
  | "el" => some "gre"
  | "tr" => some "tur"
  | "he" => some "heb"
  | "th" => some "tha"
  | "vi" => some "vie"
  | "uk" => some "ukr"
  | _ => none

structure SampleResult where
  language : String
  noSpeechProb : Rat
  deriving DecidableEq, Repr

/-- The fields of whisper's output that are read. -/
def SampleResult.ofJson (json : Json) : SampleResult where
  language := ((json.get "language").bind Json.asStr).getD "und"
  noSpeechProb := ((json.get "no_speech_prob").bind Json.asF64).getD 0

structure LanguageScore where
  code : String
  confidence : Rat
  deriving DecidableEq, Repr

structure TrackDetection where
  trackIndex : Nat
  detectedLanguage : String
  confidence : Rat
  isSpeech : Bool
  samplesAnalyzed : Nat
  detectedLanguages : List LanguageScore
  deriving DecidableEq, Repr

/-- An entry of `lang_counts`. -/
structure LanguageCount where
  code : String
  count : Nat
  confSum : Rat
  deriving DecidableEq, Repr

def countLanguage (counts : List LanguageCount) (s : SampleResult) : List LanguageCount :=
  let iso3 := (fromIso6391 s.language).getD s.language
  if counts.any (·.code = iso3) then
    counts.map fun c =>
      if c.code = iso3 then ⟨iso3, c.count + 1, c.confSum + (1 - s.noSpeechProb)⟩ else c
  else counts ++ [⟨iso3, 1, 1 - s.noSpeechProb⟩]

/-- The order in which a hash map lists its entries. -/
structure IterationOrder where
  list : List LanguageCount → List LanguageCount
  perm : ∀ entries, (list entries).Perm entries

def aggregateSamples (order : IterationOrder) (trackIndex : Nat) (samples : List SampleResult) :
    TrackDetection :=
  let samplesAnalyzed : Nat := samples.length % 2 ^ 32
  if samples.all (·.noSpeechProb > 9 / 10) then
    let avgProb := (samples.map (·.noSpeechProb)).sum / samplesAnalyzed
    { trackIndex, detectedLanguage := "zxx", confidence := avgProb, isSpeech := false,
      samplesAnalyzed, detectedLanguages := [⟨"zxx", avgProb⟩] }
  else
    let speechSamples := samples.filter (·.noSpeechProb ≤ 9 / 10)
    let langCounts := speechSamples.foldl countLanguage []
    let totalSpeech : Rat := speechSamples.length
    let scored := ((order.list langCounts).map fun c =>
      ⟨c.code, c.confSum / c.count * (c.count / totalSpeech)⟩).insertionSort
        fun (a b : LanguageScore) => b.confidence ≤ a.confidence
    let highConf := langCounts.filter fun c => c.count / totalSpeech > 7 / 10
    if highConf.length > 1 then
      { trackIndex, detectedLanguage := "mul",
        confidence := (scored.head?.map (·.confidence)).getD 0, isSpeech := true,
        samplesAnalyzed, detectedLanguages := scored }
    else
      let top := scored.head?.getD ⟨"und", 0⟩
      { trackIndex, detectedLanguage := top.code, confidence := top.confidence, isSpeech := true,
        samplesAnalyzed, detectedLanguages := scored }

@[simp] theorem aggregateSamples_trackIndex (order : IterationOrder) (trackIndex : Nat)
    (samples : List SampleResult) :
    (aggregateSamples order trackIndex samples).trackIndex = trackIndex := by
  unfold aggregateSamples
  simp only
  split
  · rfl
  split
  · rfl
  · rfl

/-! ## Events -/

structure DetectorConfig where
  whisperBinary : String := "whisper-cli"
  model : String := "base"
  sampleCount : Nat := 8
  sampleDurationSecs : Nat := 30
  skipPercent : Rat := 1 / 20

/-- The kinds of the streams of a file, `none` for those that are no tracks. -/
abbrev Streams := List (Option TrackType)

/-- An event, with what the plugin finds when it handles it: the streams of the file on disk, the
configuration, the cache as far as the host lets it read and write, and the tools. -/
structure Introspection (Audio : Type) where
  file : MediaFile
  streams : Streams
  config : Except String (Option DetectorConfig)
  readable : Nat → Bool
  writable : Nat → Bool
  /-- What is cut from the stream at a position, from an offset on, in seconds. -/
  cut : Nat → F64 → Nat → Option Audio
  /-- The output of a whisper binary with a model. -/
  whisper : String → String → Audio → Option Json
  order : Nat → IterationOrder

/-- The positions of the audio streams. -/
def audioStreams (streams : Streams) : List Nat :=
  (List.range streams.length).filter fun i => streams[i]?.join.any TrackType.isAudio

/-- The stream that ffmpeg selects for `0:a:k`. -/
def selected (streams : Streams) (k : Nat) : Option Nat := (audioStreams streams)[k]?

/-! ## Sampling -/

/-- `as u32` of a quotient and its floor. -/
def floorU32 (divisor : Nat) : F64 → Nat
  | .finite x =>
    if divisor = 0 then (if x > 0 then 2 ^ 32 - 1 else 0)
    else min ⌊x / divisor⌋₊ (2 ^ 32 - 1)
  | .infinity false => 2 ^ 32 - 1
  | .infinity true | .nan => 0

def effectiveDuration (duration : F64) (skipPct : Rat) : F64 := duration.scale (1 - 2 * skipPct)

/-- Fewer samples are taken of a short track. -/
def sampleCountFor (cfg : DetectorConfig) (duration : F64) : Nat :=
  let maxSamples := floorU32 cfg.sampleDurationSecs (effectiveDuration duration cfg.skipPercent)
  max (min cfg.sampleCount maxSamples) 1

/-- A quotient of doubles, the second of them a count. -/
def overCount (x : F64) (n : Nat) : F64 :=
  match x with
  | .finite a => if n ≠ 0 then .finite (a / n) else if a = 0 then .nan else .infinity (a < 0)
  | x => x

def sampleOffset (cfg : DetectorConfig) (duration : F64) (i : Nat) : F64 :=
  let interval := overCount (effectiveDuration duration cfg.skipPercent)
    ((sampleCountFor cfg duration + 1) % 2 ^ 32)
  (duration.scale cfg.skipPercent).add (interval.scale i)

variable {Audio : Type}

/-- A sample of a track: ffmpeg cuts it and whisper reads it, if neither fails. -/
def takeSample (e : Introspection Audio) (cfg : DetectorConfig) (trackIndex i : Nat) :
    Option SampleResult := do
  let position ← selected e.streams trackIndex
  let audio ← e.cut position (sampleOffset cfg e.file.duration i) cfg.sampleDurationSecs
  let json ← e.whisper cfg.whisperBinary cfg.model audio
  return .ofJson json

def detectTrackLanguage (e : Introspection Audio) (cfg : DetectorConfig) (trackIndex : Nat) :
    Option TrackDetection :=
  if e.file.duration.le (.finite 0) then none
  else
    let samples := (List.range' 1 (sampleCountFor cfg e.file.duration)).filterMap
      (takeSample e cfg trackIndex)
    if samples.isEmpty then none
    else some (aggregateSamples (e.order trackIndex) trackIndex samples)

/-! ## The cache -/

/-- What the plugin keeps at the host, the latest first. -/
abbrev LanguageCache := List (String × TrackDetection)

section Cache

variable (pathHash : String → String)

def hashStr (file : MediaFile) : String := file.contentHash.getD (pathHash file.path.display)

def cacheKey (hash : String) (trackIndex : Nat) : String := s!"lang:{hash}:{trackIndex}"

/-- One round of the loop of `on_event`. -/
def detectTrack (e : Introspection Audio) (cfg : DetectorConfig)
    (state : LanguageCache × List TrackDetection) (track : Track) :
    LanguageCache × List TrackDetection :=
  let (cache, detections) := state
  let key := cacheKey (hashStr pathHash e.file) track.index
  match if e.readable track.index then cache.lookup key else none with
  | some cached => (cache, detections ++ [cached])
  | none =>
    match detectTrackLanguage e cfg track.index with
    | some detection =>
      (if e.writable track.index then (key, detection) :: cache else cache,
        detections ++ [detection])
    | none => (cache, detections)

/-- The cache behind an event, and the detections reported for it. -/
def onEvent (cache : LanguageCache) (e : Introspection Audio) :
    LanguageCache × Option (List TrackDetection) :=
  if e.file.audioTracks.isEmpty then (cache, none)
  else
    match e.config with
    | .error _ => (cache, none)
    | .ok config =>
      let (cache, detections) :=
        e.file.audioTracks.foldl (detectTrack pathHash e (config.getD {})) (cache, [])
      (cache, if detections.isEmpty then none else some detections)

/-- The cache that a run leaves. -/
def cacheAfter (run : List (Introspection Audio)) : LanguageCache :=
  run.foldl (fun cache e => (onEvent pathHash cache e).1) []

end Cache

/-! ## Streams -/

/-- The track at a position is among the streams counted as the track's index says, unless no stream
is: all streams in front of it are audio, or there are no more audio streams than its index. -/
def SelectsItself (streams : Streams) (i : Nat) : Prop :=
  (∀ j < i, streams[j]?.join.any TrackType.isAudio = true) ∨ (audioStreams streams).length ≤ i

instance (streams : Streams) (i : Nat) : Decidable (SelectsItself streams i) :=
  inferInstanceAs (Decidable (_ ∨ _))

theorem audioStreams_nodup (streams : Streams) : (audioStreams streams).Nodup :=
  List.nodup_range.filter _

/-- Two tracks never select the same stream. -/
theorem selected_ne {streams : Streams} {i j position : Nat} (hne : i ≠ j)
    (h : selected streams i = some position) : selected streams j ≠ some position := by
  intro h'
  have hi := (List.getElem?_eq_some_iff.mp h).1
  exact hne ((List.getElem?_inj hi (audioStreams_nodup streams)).mp (h.trans h'.symm))

theorem selected_of_selectsItself {streams : Streams} {i position : Nat}
    (haudio : streams[i]?.join.any TrackType.isAudio = true) (h : SelectsItself streams i)
    (hselected : selected streams i = some position) : position = i := by
  obtain hfront | hfew := h
  · -- The streams up to this one are audio, so this one is counted as its position.
    have hlt : i < streams.length := by
      by_contra hge
      rw [List.getElem?_eq_none (Nat.le_of_not_lt hge)] at haudio
      cases haudio
    have hrange : List.range streams.length =
        List.range (i + 1) ++ (List.range (streams.length - (i + 1))).map (i + 1 + ·) := by
      rw [← List.range_add, Nat.add_sub_cancel' hlt]
    have hkept : (List.range (i + 1)).filter
        (fun j => streams[j]?.join.any TrackType.isAudio) = List.range (i + 1) := by
      apply List.filter_eq_self.mpr
      intro j hj
      obtain hj | rfl := Nat.lt_succ_iff_lt_or_eq.mp (List.mem_range.mp hj)
      · exact hfront j hj
      · exact haudio
    unfold selected audioStreams at hselected
    rw [hrange, List.filter_append, hkept, List.getElem?_append_left (by simp),
      List.getElem?_range (Nat.lt_succ_self i), Option.some.injEq] at hselected
    exact hselected.symm
  · unfold selected at hselected
    rw [List.getElem?_eq_none hfew] at hselected
    cases hselected

/-! ## Where detections come from -/

variable {Audio : Type}

/-- A sample was cut from the stream at a position. -/
def TakenFrom (e : Introspection Audio) (position : Nat) (sample : SampleResult) : Prop :=
  ∃ offset secs audio binary model json, e.cut position offset secs = some audio ∧
    e.whisper binary model audio = some json ∧ sample = .ofJson json

/-- A detection is what is made of samples from the stream at its position. -/
def Heard (e : Introspection Audio) (position : Nat) (detection : TrackDetection) : Prop :=
  ∃ order samples, samples ≠ [] ∧ (∀ sample ∈ samples, TakenFrom e position sample) ∧
    detection = aggregateSamples order position samples

/-- The indices of the tracks are positions of their streams. -/
def Introspection.PositionsAgree (e : Introspection Audio) : Prop :=
  ∀ track ∈ e.file.tracks, e.streams[track.index]? = some (some track.trackType)

/-- Its audio tracks select themselves. -/
def Introspection.Aligned (e : Introspection Audio) : Prop :=
  ∀ track ∈ e.file.audioTracks, SelectsItself e.streams track.index

theorem takenFrom_of_takeSample {e : Introspection Audio} {cfg : DetectorConfig}
    {trackIndex i : Nat} {sample : SampleResult}
    (h : takeSample e cfg trackIndex i = some sample) :
    ∃ position, selected e.streams trackIndex = some position ∧ TakenFrom e position sample := by
  simp only [takeSample, Option.bind_eq_bind, Option.bind_eq_some_iff, Option.pure_def,
    Option.some.injEq] at h
  obtain ⟨position, hselected, audio, haudio, json, hjson, rfl⟩ := h
  exact ⟨position, hselected, _, _, audio, _, _, json, haudio, hjson, rfl⟩

/-- What is detected of a track that selects itself is heard there. -/
theorem heard_of_detectTrackLanguage {e : Introspection Audio} {cfg : DetectorConfig}
    {trackIndex : Nat} {detection : TrackDetection}
    (hself : ∀ position, selected e.streams trackIndex = some position → position = trackIndex)
    (h : detectTrackLanguage e cfg trackIndex = some detection) :
    Heard e trackIndex detection := by
  unfold detectTrackLanguage at h
  split at h
  · cases h
  simp only at h
  split at h
  · cases h
  next hne =>
    cases h
    refine ⟨e.order trackIndex, _, fun hnil => hne (List.isEmpty_iff.mpr hnil), ?_, rfl⟩
    intro sample hsample
    obtain ⟨i, -, hi⟩ := List.mem_filterMap.mp hsample
    obtain ⟨position, hselected, htaken⟩ := takenFrom_of_takeSample hi
    rwa [hself position hselected] at htaken

/-! ## Runs -/

theorem cacheKey_toList (hash : String) (i : Nat) :
    (cacheKey hash i).toList = "lang:".toList ++ hash.toList ++ ':' :: Nat.toDigits 10 i := by
  rw [show cacheKey hash i = "lang:" ++ hash ++ ":" ++ toString i from rfl]
  simp

/-- The digits behind the last colon are the index. -/
theorem digits_of_cacheKey (hash : String) (i : Nat) :
    (cacheKey hash i).toList.reverse.takeWhile Char.isDigit = (Nat.toDigits 10 i).reverse := by
  have hdigits : ∀ c ∈ (Nat.toDigits 10 i).reverse, c.isDigit = true := by
    intro c hc
    exact Nat.isDigit_of_mem_toDigits (by decide) (by decide) (List.mem_reverse.mp hc)
  rw [cacheKey_toList, List.reverse_append, List.reverse_cons, List.append_assoc,
    List.takeWhile_append_of_pos hdigits, List.singleton_append,
    List.takeWhile_cons_of_neg (by decide), List.append_nil]

theorem cacheKey_inj {hash hash' : String} {i i' : Nat} (h : cacheKey hash i = cacheKey hash' i') :
    hash = hash' ∧ i = i' := by
  have hdigits : Nat.toDigits 10 i = Nat.toDigits 10 i' := by
    apply List.reverse_inj.mp
    rw [← digits_of_cacheKey hash, ← digits_of_cacheKey hash', h]
  have hlist := congrArg String.toList h
  rw [cacheKey_toList, cacheKey_toList, hdigits] at hlist
  have hhash := List.append_cancel_left (List.append_cancel_right hlist)
  have hvalue := congrArg digitsValue hdigits
  rw [digitsValue_toDigits, digitsValue_toDigits] at hvalue
  exact ⟨String.toList_inj.mp hhash, Option.some.inj hvalue⟩

/-- A detection under a key was heard in a file of the run with the hash and the index of the key. -/
def CacheHeard (pathHash : String → String) (run : List (Introspection Audio))
    (cache : LanguageCache) : Prop :=
  ∀ entry ∈ cache, ∃ e ∈ run, ∃ i, entry.1 = cacheKey (hashStr pathHash e.file) i ∧
    Heard e i entry.2

/-- No path hash that stands in for a content hash is a content hash itself. -/
def HashesApart (pathHash : String → String) (run : List (Introspection Audio)) : Prop :=
  ∀ e ∈ run, ∀ g ∈ run, e.file.contentHash = none →
    g.file.contentHash ≠ some (pathHash e.file.path.display)

/-- What the detections reported for an event are. -/
def Reported (pathHash : String → String) (run : List (Introspection Audio))
    (e : Introspection Audio) (detection : TrackDetection) : Prop :=
  ∃ track ∈ e.file.audioTracks, detection.trackIndex = track.index ∧
    ∃ g ∈ run, hashStr pathHash g.file = hashStr pathHash e.file ∧ Heard g track.index detection

theorem contentHash_eq_of_hashStr_eq {pathHash : String → String}
    {run : List (Introspection Audio)} (happart : HashesApart pathHash run)
    {e g : Introspection Audio} (he : e ∈ run) (hg : g ∈ run)
    (h : hashStr pathHash g.file = hashStr pathHash e.file) :
    g.file.contentHash = e.file.contentHash := by
  unfold hashStr at h
  cases hgh : g.file.contentHash with
  | none =>
    cases heh : e.file.contentHash with
    | none => rfl
    | some hash =>
      rw [hgh, heh] at h
      exact absurd (heh.trans (congrArg some h.symm)) (happart g hg e he hgh)
  | some hash =>
    cases heh : e.file.contentHash with
    | none =>
      rw [hgh, heh] at h
      exact absurd (hgh.trans (congrArg some h)) (happart e he g hg heh)
    | some hash' =>
      rw [hgh, heh] at h
      exact congrArg some h

theorem mem_of_lookup {cache : LanguageCache} {key : String} {detection : TrackDetection}
    (h : cache.lookup key = some detection) : (key, detection) ∈ cache := by
  induction cache with
  | nil => cases h
  | cons entry cache ih =>
    obtain ⟨key', detection'⟩ := entry
    rw [List.lookup_cons] at h
    split at h
    next heq =>
      cases h
      rw [beq_iff_eq.mp heq]
      exact List.mem_cons_self
    · exact List.mem_cons_of_mem _ (ih h)

theorem Heard.trackIndex {e : Introspection Audio} {position : Nat} {detection : TrackDetection}
    (h : Heard e position detection) : detection.trackIndex = position := by
  obtain ⟨order, samples, -, -, rfl⟩ := h
  exact aggregateSamples_trackIndex order position samples

section Run

variable {pathHash : String → String} {run : List (Introspection Audio)}
  {e : Introspection Audio}

theorem heard_of_aligned (hpositions : e.PositionsAgree) (haligned : e.Aligned) {track : Track}
    (htrack : track ∈ e.file.audioTracks) {cfg : DetectorConfig} {detection : TrackDetection}
    (h : detectTrackLanguage e cfg track.index = some detection) :
    Heard e track.index detection := by
  obtain ⟨htrack', haudio⟩ := List.mem_filter.mp htrack
  apply heard_of_detectTrackLanguage _ h
  intro position hselected
  apply selected_of_selectsItself _ (haligned track htrack) hselected
  rw [hpositions track htrack']
  exact haudio

/-- A detection found in the cache was heard in a file with the hash. -/
theorem reported_of_lookup {track : Track} (htrack : track ∈ e.file.audioTracks)
    {cache : LanguageCache} (hcache : CacheHeard pathHash run cache) {detection : TrackDetection}
    (h : cache.lookup (cacheKey (hashStr pathHash e.file) track.index) = some detection) :
    Reported pathHash run e detection := by
  obtain ⟨g, hg, i, hkey, hheard⟩ := hcache _ (mem_of_lookup h)
  obtain ⟨hhash, hindex⟩ := cacheKey_inj hkey
  refine ⟨track, htrack, ?_, g, hg, hhash.symm, ?_⟩
  · rw [hheard.trackIndex, hindex]
  · rw [hindex]
    exact hheard

/-- The invariant of the loop over the tracks. -/
structure LoopHeard (pathHash : String → String) (run : List (Introspection Audio))
    (e : Introspection Audio) (state : LanguageCache × List TrackDetection) : Prop where
  cache : CacheHeard pathHash run state.1
  reported : ∀ detection ∈ state.2, Reported pathHash run e detection

/-- One track: what it reports is heard, and so is what it writes into the cache. -/
theorem detectTrack_heard (he : e ∈ run) (hpositions : e.PositionsAgree) (haligned : e.Aligned)
    {cfg : DetectorConfig} {track : Track} (htrack : track ∈ e.file.audioTracks)
    {state : LanguageCache × List TrackDetection} (h : LoopHeard pathHash run e state) :
    LoopHeard pathHash run e (detectTrack pathHash e cfg state track) := by
  have hadd : ∀ detection, Reported pathHash run e detection →
      ∀ d ∈ state.2 ++ [detection], Reported pathHash run e d := by
    intro detection hdetection d hd
    obtain hd | hd := List.mem_append.mp hd
    · exact h.reported d hd
    · rw [List.mem_singleton.mp hd]
      exact hdetection
  unfold detectTrack
  simp only
  split
  next cached hlookup =>
    rw [Option.ite_none_right_eq_some] at hlookup
    exact ⟨h.cache, hadd _ (reported_of_lookup htrack h.cache hlookup.2)⟩
  · split
    next detection hdetect =>
      have hheard := heard_of_aligned hpositions haligned htrack hdetect
      refine ⟨?_, hadd _ ⟨track, htrack, hheard.trackIndex, e, he, rfl, hheard⟩⟩
      split
      · intro entry hentry
        obtain rfl | hentry := List.mem_cons.mp hentry
        · exact ⟨e, he, track.index, rfl, hheard⟩
        · exact h.cache entry hentry
      · exact h.cache
    · exact h

/-- One event: by its tracks. -/
theorem onEvent_heard (he : e ∈ run) (hpositions : e.PositionsAgree) (haligned : e.Aligned)
    {cache : LanguageCache} (hcache : CacheHeard pathHash run cache) :
    CacheHeard pathHash run (onEvent pathHash cache e).1 ∧
      ∀ detections, (onEvent pathHash cache e).2 = some detections →
        ∀ detection ∈ detections, Reported pathHash run e detection := by
  unfold onEvent
  split
  · exact ⟨hcache, fun _ h => nomatch h⟩
  split
  · exact ⟨hcache, fun _ h => nomatch h⟩
  next config _ =>
    have htracks : Lib.Along (detectTrack pathHash e (config.getD {}))
        (fun _ track => track ∈ e.file.audioTracks) (cache, []) e.file.audioTracks :=
      Lib.Along.of_forall_mem (fun track htrack _ => htrack) _
    have hloop : LoopHeard pathHash run e
        (e.file.audioTracks.foldl (detectTrack pathHash e (config.getD {})) (cache, [])) := by
      apply htracks.invariant
      · intro state track hstate htrack
        exact detectTrack_heard he hpositions haligned htrack hstate
      · exact ⟨hcache, List.forall_mem_nil _⟩
    refine ⟨hloop.cache, ?_⟩
    intro detections hdetections
    simp only at hdetections
    split at hdetections
    · cases hdetections
    · cases hdetections
      exact hloop.reported

/-- A run: by its events. -/
theorem cacheAfter_heard {before : List (Introspection Audio)} (hbefore : ∀ e ∈ before, e ∈ run)
    (hrun : ∀ e ∈ run, e.PositionsAgree ∧ e.Aligned) :
    CacheHeard pathHash run (cacheAfter pathHash before) := by
  have hevents : Lib.Along (fun cache e => (onEvent pathHash cache e).1) (fun _ e => e ∈ run) []
      before := Lib.Along.of_forall_mem (fun e he _ => hbefore e he) _
  unfold cacheAfter
  apply hevents.invariant
  · intro cache e hcache he
    exact (onEvent_heard he (hrun e he).1 (hrun e he).2 hcache).1
  · exact List.forall_mem_nil _

end Run

/-- In a run over files whose audio tracks select themselves, each detection reported for an event is
what is made of samples of the stream of its track, in a file with the content hash; and two audio
tracks select two streams. -/
theorem detections_heard (pathHash : String → String) (before : List (Introspection Audio))
    (e : Introspection Audio)
    (hrun : ∀ g ∈ before ++ [e], g.PositionsAgree ∧ g.Aligned)
    (happart : HashesApart pathHash (before ++ [e])) :
    (∀ detections, (onEvent pathHash (cacheAfter pathHash before) e).2 = some detections →
      ∀ detection ∈ detections, ∃ track ∈ e.file.audioTracks,
        detection.trackIndex = track.index ∧
          ∃ g ∈ before ++ [e], g.file.contentHash = e.file.contentHash ∧
            hashStr pathHash g.file = hashStr pathHash e.file ∧ Heard g track.index detection) ∧
    ∀ track ∈ e.file.audioTracks, ∀ other ∈ e.file.audioTracks, track.index ≠ other.index →
      ∀ position, selected e.streams track.index = some position →
        selected e.streams other.index ≠ some position := by
  have he : e ∈ before ++ [e] := by simp
  constructor
  · intro detections hdetections detection hdetection
    have hcache : CacheHeard pathHash (before ++ [e]) (cacheAfter pathHash before) :=
      cacheAfter_heard (fun _ hg => List.mem_append_left [e] hg) hrun
    obtain ⟨track, htrack, hindex, g, hg, hhash, hheard⟩ :=
      (onEvent_heard he (hrun e he).1 (hrun e he).2 hcache).2 _ hdetections _ hdetection
    exact ⟨track, htrack, hindex, g, hg, contentHash_eq_of_hashStr_eq happart he hg hhash, hhash,
      hheard⟩
  · intro track _ other _ hne position h
    exact selected_ne hne h

/-- A film with such streams: the third one is spoken in German, the others are silent. -/
def film (streams : List TrackType) : Introspection Nat where
  file :=
    { id := 0, path := ⟨["film.mkv"]⟩, contentHash := some "c0ffee", duration := .finite 600
      tracks := streams.zipIdx.map fun (trackType, index) => { index, trackType, codec := "" } }
  streams := streams.map some
  config := .ok none
  readable _ := true
  writable _ := true
  cut position _ _ := some position
  whisper _ _ position := some (.object [("language", .string "de"),
    ("no_speech_prob", .number (.int (if position = 2 then 0 else 1)))])
  order _ := ⟨id, fun _ => .refl _⟩

def audioFirst : Introspection Nat :=
  film [.audioMain, .audioAlternate, .audioCommentary, .video]

def videoFirst : Introspection Nat := film [.video, .audioMain, .audioAlternate]

/-- With the audio streams in front, a second scan reports the German track as it was heard. -/
theorem audioFirst_heard :
    (onEvent id (cacheAfter id [audioFirst]) audioFirst).2 =
        some [⟨0, "zxx", 1, false, 8, [⟨"zxx", 1⟩]⟩, ⟨1, "zxx", 1, false, 8, [⟨"zxx", 1⟩]⟩,
          ⟨2, "ger", 1, true, 8, [⟨"ger", 1⟩]⟩] ∧
      ∃ g ∈ [audioFirst] ++ [audioFirst], Heard g 2 ⟨2, "ger", 1, true, 8, [⟨"ger", 1⟩]⟩ := by
  have hreported : (onEvent id (cacheAfter id [audioFirst]) audioFirst).2 =
      some [⟨0, "zxx", 1, false, 8, [⟨"zxx", 1⟩]⟩, ⟨1, "zxx", 1, false, 8, [⟨"zxx", 1⟩]⟩,
        ⟨2, "ger", 1, true, 8, [⟨"ger", 1⟩]⟩] := by
    decide +kernel
  refine ⟨hreported, ?_⟩
  have hheard := (detections_heard id [audioFirst] audioFirst ?_ ?_).1 _ hreported
    ⟨2, "ger", 1, true, 8, [⟨"ger", 1⟩]⟩ (by simp)
  · obtain ⟨track, -, hindex, g, hg, -, -, hheard⟩ := hheard
    change 2 = track.index at hindex
    rw [← hindex] at hheard
    exact ⟨g, hg, hheard⟩
  · intro g hg
    obtain rfl : g = audioFirst := by simpa using hg
    constructor
    · unfold Introspection.PositionsAgree
      decide
    · unfold Introspection.Aligned
      decide
  · intro e he g hg hnone
    obtain rfl : e = audioFirst := by simpa using he
    cases hnone

/-- Behind a video stream the track at 1 is taken for the spoken one, which is the next; the cache
keeps the mistake. -/
theorem videoFirst_misheard :
    ∃ detections, (onEvent id (cacheAfter id [videoFirst]) videoFirst).2 = some detections ∧
      ∃ detection ∈ detections, detection.trackIndex = 1 ∧
        ¬ ∃ g ∈ [videoFirst] ++ [videoFirst], Heard g 1 detection := by
  have hreported : (onEvent id (cacheAfter id [videoFirst]) videoFirst).2 =
      some [⟨1, "ger", 1, true, 8, [⟨"ger", 1⟩]⟩] := by
    decide +kernel
  refine ⟨_, hreported, _, List.mem_singleton_self _, rfl, ?_⟩
  rintro ⟨g, hg, order, samples, -, htaken, hdetection⟩
  obtain rfl : g = videoFirst := by simpa using hg
  -- All samples of the stream at 1 are silent.
  have hsilent : samples.all (·.noSpeechProb > 9 / 10) = true := by
    apply List.all_eq_true.mpr
    intro sample hsample
    obtain ⟨offset, secs, audio, binary, model, json, hcut, hjson, rfl⟩ := htaken sample hsample
    cases hcut
    cases hjson
    decide +kernel
  have hspeech := congrArg TrackDetection.isSpeech hdetection
  simp only [aggregateSamples, hsilent, if_true] at hspeech
  cases hspeech

end Voom.Plugins

-- SUMMARY: The introspection cache: when the stored tracks of a cache hit are those of the file on disk.
import Voom.Lib.Run
import Voom.Storage.Rows

/-!
# The introspection cache

`process_single_file` skips the introspection of a file whose row matches the
discovered size and hash. The four writers of a row update different columns, so
the tracks of a row and its two hashes can come from different contents.
-/

namespace Voom.Process

open Lib Storage

/-! ## The cache check -/

/-- The payload of a process job. -/
structure DiscoveredFilePayload where
  path : Path
  size : Nat
  contentHash : Option Hash
  needsReintrospect : Bool
  deriving DecidableEq, Repr

/-- `matches_discovery`. -/
def matchesDiscovery (stored : MediaFile) (discoveredSize : Nat) (discoveredHash : Option Hash) :
    Bool :=
  let hashMatch := match stored.contentHash, discoveredHash with
    | some s, some d => decide (s = d)
    | _, _ => false
  stored.status = .active && stored.size = discoveredSize && hashMatch && !stored.tracks.isEmpty

/-- The cache check of `process_single_file`: the stored file, on a hit. -/
def cacheHit (forceRescan : Bool) (payload : DiscoveredFilePayload) (s : Store) : Option MediaFile :=
  if forceRescan || payload.needsReintrospect then none
  else (fileByPath s payload.path).filter fun stored =>
    matchesDiscovery stored payload.size payload.contentHash

/-! ## The library -/

/-- A content on disk, by its hash. -/
structure DiskFile where
  hash : Hash
  size : Nat
  deriving DecidableEq, Repr

structure Library where
  store : Store := {}
  disk : Path → Option DiskFile

/-- What an introspection draws: an identifier and clock readings. -/
structure Probe where
  id : Uuid
  introspectedAt : Time
  now : Time
  deriving DecidableEq, Repr

inductive LibraryAct where
  | beginScan (roots : List Path) (session : SessionId) (now : Time)
  | ingest (session : SessionId) (i : Ingest)
  | finishScan (session : SessionId) (now : Time)
  | cancelScan (session : SessionId) (now : Time)
  /-- An introspection of the discovered file, as `voom scan` does. -/
  | introspect (payload : DiscoveredFilePayload) (probe : Probe)
  /-- A process job up to the evaluation of the policy. -/
  | process (forceRescan : Bool) (payload : DiscoveredFilePayload) (probe : Probe)
  /-- A plan has been executed and is recorded. -/
  | execute (disk : Path → Option DiskFile) (newPath : Option Path) (newExpectedHash : Option Hash)
      (transition : FileTransition)
  | external (disk : Path → Option DiskFile)

/-- An operation that fails is rolled back. -/
def orKeep (s : Store) (result : Except VoomError Store) : Store :=
  match result with
  | .ok s' => s'
  | .error _ => s

section Cache

variable (tracksOf : Hash → List Track)

/-- Introspect the file on disk and upsert it, with the hash and size of the payload. -/
def introspectFile (payload : DiscoveredFilePayload) (probe : Probe) (l : Library) : Library :=
  match l.disk payload.path with
  | none => l
  | some d =>
    let file : MediaFile :=
      { id := probe.id, path := payload.path, size := payload.size,
        contentHash := payload.contentHash, tracks := tracksOf d.hash,
        introspectedAt := probe.introspectedAt }
    { l with store := orKeep l.store (upsertFile file probe.now l.store) }

def libraryStep (l : Library) : LibraryAct → Library
  | .beginScan roots session now =>
    { l with store := orKeep l.store (beginScanSession roots session now l.store) }
  | .ingest session i =>
    let ingested := ingestDiscoveredFile (i.ctx session) l.store
    { l with store := orKeep l.store (ingested.map (·.1)) }
  | .finishScan session now =>
    { l with store := orKeep l.store ((finishScanSession session now l.store).map (·.1)) }
  | .cancelScan session now => { l with store := cancelScanSession session now l.store }
  | .introspect payload probe => introspectFile tracksOf payload probe l
  | .process forceRescan payload probe =>
    match cacheHit forceRescan payload l.store with
    | some _ => l
    | none => introspectFile tracksOf payload probe l
  | .execute disk newPath newExpectedHash transition =>
    let recorded := recordPostExecution newPath newExpectedHash transition l.store
    { disk, store := orKeep l.store recorded }
  | .external disk => { l with disk }

/-- A cache hit evaluates the tracks of the content on disk. -/
def EvaluatesCurrentTracks (l : Library) : LibraryAct → Prop
  | .process forceRescan payload _ => ∀ stored, cacheHit forceRescan payload l.store = some stored →
      ∀ d, l.disk payload.path = some d → stored.tracks = tracksOf d.hash
  | _ => True

/-- An introspection whose content introspects like the hashes its row will carry. -/
def ProbesKnownContent (l : Library) (payload : DiscoveredFilePayload) : Prop :=
  ∀ d, l.disk payload.path = some d →
    (∀ h, payload.contentHash = some h → tracksOf h = tracksOf d.hash) ∧
    ∀ r, l.store.fileAt payload.path = some r → ∀ h, r.expectedHash = some h →
      tracksOf h = tracksOf d.hash

/-- The condition on a step: a row without expected hash is only found with the
content it was introspected with, an executed plan leaves what introspection
sees, and an introspection or a cache hit meets the content that was hashed. -/
def TracksKept (l : Library) : LibraryAct → Prop
  | .ingest _ i =>
    (∀ r ∈ l.store.files, r.id ≠ i.newId) ∧ i.file.contentHash ≠ "" ∧
      ∀ r, l.store.fileAt i.file.path = some r → r.expectedHash = none →
        r.tracks = [] ∨ r.contentHash = i.file.contentHash
  | .introspect payload _ => ProbesKnownContent tracksOf l payload
  | .process forceRescan payload _ =>
    match cacheHit forceRescan payload l.store with
    | some _ => ∀ d, l.disk payload.path = some d →
        ∀ h, payload.contentHash = some h → tracksOf d.hash = tracksOf h
    | none => ProbesKnownContent tracksOf l payload
  | .execute _ _ newExpectedHash transition => ∀ r ∈ l.store.files, r.id = transition.fileId →
      ∀ h, newExpectedHash = some h →
        r.tracks = [] ∨ (r.contentHash ≠ "" ∧ tracksOf h = tracksOf r.contentHash)
  | _ => True

/-! ## The invariant -/

/-- The tracks of a row are those of each hash it carries. -/
def TracksFit (r : FileRow) : Prop :=
  r.tracks = [] ∨ ((r.contentHash ≠ "" → r.tracks = tracksOf r.contentHash) ∧
    ∀ h, r.expectedHash = some h → r.tracks = tracksOf h)

structure CacheInv (s : Store) : Prop where
  wf : s.WellFormed
  fit : ∀ r ∈ s.files, TracksFit tracksOf r

variable {tracksOf} {s s' : Store}

/-- A row that takes the content hash it expected fits. -/
theorem TracksFit.of_expected {r r' : FileRow} {h : Hash} (hfit : TracksFit tracksOf r)
    (hexpected : r.expectedHash = some h) (htracks : r'.tracks = r.tracks)
    (hcontent : r'.contentHash = h) (hexpected' : r'.expectedHash = some h) :
    TracksFit tracksOf r' := by
  unfold TracksFit
  rw [htracks, hcontent, hexpected']
  rcases hfit with hnil | ⟨-, hfit⟩
  · exact .inl hnil
  · refine .inr ⟨fun _ => hfit h hexpected, fun h' hh' => ?_⟩
    cases hh'
    exact hfit h hexpected

theorem CacheInv.ingest (hinv : CacheInv tracksOf s) {session : SessionId} {i : Ingest}
    (hid : ∀ r ∈ s.files, r.id ≠ i.newId) (hhash : i.file.contentHash ≠ "")
    (hnull : ∀ r, s.fileAt i.file.path = some r → r.expectedHash = none →
      r.tracks = [] ∨ r.contentHash = i.file.contentHash) {decision : IngestDecision}
    (h : ingestDiscoveredFile (i.ctx session) s = .ok (s', decision)) : CacheInv tracksOf s' where
  wf := ingest_wellFormed hinv.wf hid h
  fit := by
    intro r' hr'
    cases ingest_row hinv.wf h hr' with
    | kept r hr link => exact hinv.fit r hr
    | inserted _ => exact .inl rfl
    | unchanged e _ hat hexpected =>
      have he := hinv.fit e (fileAt_some hat).1
      rcases hexpected with hnone | hsome
      · -- The row learns its expected hash from the content found.
        rcases hnull e hat hnone with hnil | hcontent
        · exact .inl hnil
        · rcases he with hnil | ⟨hfit, -⟩
          · exact .inl hnil
          · rw [hcontent] at hfit
            refine .inr ⟨fun _ => hfit hhash, fun h' hh' => ?_⟩
            cases hh'
            exact hfit hhash
      · exact he.of_expected hsome rfl rfl rfl
    | moved m p _ hm hexpected link => exact (hinv.fit m hm).of_expected hexpected rfl rfl hexpected
    | superseded e hat => exact hinv.fit e (fileAt_some hat).1

theorem CacheInv.finish (hinv : CacheInv tracksOf s) {session : SessionId} {now : Time}
    {outcome : ScanFinishOutcome} (h : finishScanSession session now s = .ok (s', outcome)) :
    CacheInv tracksOf s' where
  wf := finish_wellFormed hinv.wf h
  fit := by
    intro r' hr'
    obtain ⟨r, status, hform, rfl⟩ := finish_row hinv.wf h hr'
    have hfit : TracksFit tracksOf r := by
      cases hform with
      | kept _ hr => exact hinv.fit r hr
      | promoted c target hash hc _ hexpected _ _ _ =>
        exact (hinv.fit c hc).of_expected hexpected rfl rfl hexpected
    exact hfit

theorem CacheInv.congr (hinv : CacheInv tracksOf s) (hfiles : s'.files = s.files)
    (hout : s'.transcodeOutcomes = s.transcodeOutcomes) : CacheInv tracksOf s' where
  wf := wellFormed_congr hinv.wf hfiles hout
  fit := hfiles ▸ hinv.fit

theorem CacheInv.introspectFile {l : Library} (hinv : CacheInv tracksOf l.store)
    {payload : DiscoveredFilePayload} {probe : Probe} (hknown : ProbesKnownContent tracksOf l payload) :
    CacheInv tracksOf (introspectFile tracksOf payload probe l).store := by
  unfold Process.introspectFile
  cases hd : l.disk payload.path with
  | none => exact hinv
  | some d =>
    obtain ⟨hpayload, hexpected⟩ := hknown d hd
    dsimp only
    cases hup : upsertFile
        { id := probe.id, path := payload.path, size := payload.size,
          contentHash := payload.contentHash, tracks := tracksOf d.hash,
          introspectedAt := probe.introspectedAt } probe.now l.store with
    | error e => exact hinv
    | ok s' =>
      have hcontent : payload.contentHash.getD "" ≠ "" →
          tracksOf d.hash = tracksOf (payload.contentHash.getD "") := by
        intro hne
        cases hp : payload.contentHash with
        | none => rw [hp] at hne; exact absurd rfl hne
        | some h => exact (hpayload h hp).symm
      refine ⟨upsert_wellFormed hinv.wf hup, fun r' hr' => ?_⟩
      rcases upsert_row hinv.wf hup hr' with hr | ⟨r, hat, rfl⟩ | rfl
      · exact hinv.fit r' hr
      · refine .inr ⟨hcontent, fun h hh => ?_⟩
        exact (hexpected r hat h hh).symm
      · exact .inr ⟨hcontent, nofun⟩

theorem CacheInv.execute (hinv : CacheInv tracksOf s) {newPath : Option Path}
    {newExpectedHash : Option Hash} {transition : FileTransition}
    (hkept : ∀ r ∈ s.files, r.id = transition.fileId → ∀ h, newExpectedHash = some h →
      r.tracks = [] ∨ (r.contentHash ≠ "" ∧ tracksOf h = tracksOf r.contentHash))
    (h : recordPostExecution newPath newExpectedHash transition s = .ok s') :
    CacheInv tracksOf s' where
  wf := record_wellFormed hinv.wf h
  fit := by
    intro r' hr'
    rcases record_row h hr' with hr | ⟨r, hr, hid, path, expected, hexpected, rfl⟩
    · exact hinv.fit r' hr
    · rcases hinv.fit r hr with hnil | ⟨hcontent, hfit⟩
      · exact .inl hnil
      · rcases hexpected with rfl | rfl
        · exact .inr ⟨hcontent, hfit⟩
        · by_cases hnil : r.tracks = []
          · exact .inl hnil
          · refine .inr ⟨hcontent, fun h hh => ?_⟩
            rcases hkept r hr hid h hh with hnil' | ⟨hne, heq⟩
            · exact absurd hnil' hnil
            · rw [heq]
              exact hcontent hne

/-! ## Runs -/

/-- Step: every operation that meets the condition keeps the invariant. -/
theorem libraryStep_inv {l : Library} {act : LibraryAct} (hinv : CacheInv tracksOf l.store)
    (hkept : TracksKept tracksOf l act) : CacheInv tracksOf (libraryStep tracksOf l act).store := by
  cases act with
  | beginScan roots session now =>
    simp only [libraryStep]
    cases hbegin : beginScanSession roots session now l.store with
    | error e => exact hinv
    | ok s' =>
      unfold beginScanSession at hbegin
      split at hbegin
      · cases hbegin
      · cases hbegin
        exact hinv.congr rfl rfl
  | ingest session i =>
    simp only [libraryStep]
    cases hok : ingestDiscoveredFile (i.ctx session) l.store with
    | error e => exact hinv
    | ok result => exact hinv.ingest hkept.1 hkept.2.1 hkept.2.2 hok
  | finishScan session now =>
    simp only [libraryStep]
    cases hok : finishScanSession session now l.store with
    | error e => exact hinv
    | ok result => exact hinv.finish hok
  | cancelScan session now => exact hinv.congr rfl rfl
  | introspect payload probe => exact hinv.introspectFile hkept
  | process forceRescan payload probe =>
    simp only [libraryStep]
    simp only [TracksKept] at hkept
    cases hhit : cacheHit forceRescan payload l.store with
    | some stored => exact hinv
    | none =>
      rw [hhit] at hkept
      exact hinv.introspectFile hkept
  | execute disk newPath newExpectedHash transition =>
    simp only [libraryStep]
    cases hok : recordPostExecution newPath newExpectedHash transition l.store with
    | error e => exact hinv
    | ok s' => exact hinv.execute hkept hok
  | external disk => exact hinv

/-- What a cache hit says about the row. -/
theorem cacheHit_row {forceRescan : Bool} {payload : DiscoveredFilePayload} {stored : MediaFile}
    (h : cacheHit forceRescan payload s = some stored) :
    ∃ r ∈ s.files, stored.tracks = r.tracks ∧ r.tracks ≠ [] ∧ r.contentHash ≠ "" ∧
      payload.contentHash = some r.contentHash := by
  unfold cacheHit at h
  split at h
  · cases h
  · rw [Option.filter_eq_some_iff] at h
    obtain ⟨hstored, hmatch⟩ := h
    unfold fileByPath at hstored
    rw [Option.map_eq_some_iff] at hstored
    obtain ⟨r, hat, rfl⟩ := hstored
    simp only [matchesDiscovery, Bool.and_eq_true, Bool.not_eq_true', decide_eq_true_eq] at hmatch
    obtain ⟨⟨-, hhash⟩, htracks⟩ := hmatch
    refine ⟨r, (fileAt_some hat).1, rfl, ?_, ?_⟩
    · intro hnil
      rw [hnil] at htracks
      cases htracks
    · by_cases hempty : r.contentHash = ""
      · simp [hempty] at hhash
      · rw [if_neg hempty] at hhash
        cases hp : payload.contentHash with
        | none => simp [hp] at hhash
        | some h =>
          simp only [hp, decide_eq_true_eq] at hhash
          exact ⟨hempty, congrArg some hhash.symm⟩

/-- Local: a cache hit on fitting rows evaluates the tracks on disk. -/
theorem evaluates_of_inv {l : Library} {act : LibraryAct} (hinv : CacheInv tracksOf l.store)
    (hkept : TracksKept tracksOf l act) : EvaluatesCurrentTracks tracksOf l act := by
  cases act with
  | process forceRescan payload probe =>
    intro stored hhit d hd
    simp only [TracksKept, hhit] at hkept
    obtain ⟨r, hr, htracks, hnil, hne, hpayload⟩ := cacheHit_row hhit
    rcases hinv.fit r hr with hnil' | ⟨hcontent, -⟩
    · exact absurd hnil' hnil
    · rw [htracks, hcontent hne]
      exact (hkept d hd _ hpayload).symm
  | _ => trivial

/-- From an empty store, in every run whose steps meet the condition, every cache
hit evaluates the tracks of the content on disk. -/
theorem cache_hits_evaluate_current_tracks (disk : Path → Option DiskFile) (acts : List LibraryAct)
    (hrun : Along (libraryStep tracksOf) (TracksKept tracksOf) { disk } acts) :
    Along (libraryStep tracksOf) (EvaluatesCurrentTracks tracksOf) { disk } acts := by
  have hstep : ∀ l act, CacheInv tracksOf l.store → TracksKept tracksOf l act →
      CacheInv tracksOf (libraryStep tracksOf l act).store :=
    fun l act hinv hkept => libraryStep_inv hinv hkept
  refine Along.of_invariant hstep (fun l act hinv hkept => evaluates_of_inv hinv hkept) ?_ hrun
  exact ⟨⟨List.nodup_nil, nofun, nofun⟩, nofun⟩

end Cache

namespace Remux

def path : Path := ⟨["m", "a.mkv"]⟩

/-- The remuxed content has lost its subtitle. -/
def tracksOf (h : Hash) : List Track :=
  let video : Track := { index := 0, trackType := .video, codec := "h264" }
  if h = "remuxed" then [video]
  else [video, { index := 1, trackType := .subtitleMain, codec := "srt" }]

def disk (h : Hash) : Path → Option DiskFile := fun p => if p = path then some ⟨h, 5⟩ else none

/-- A run over the file: begin, ingest, process. -/
def run (session : SessionId) (now : Time) (h : Hash) (needsReintrospect : Bool) : List LibraryAct :=
  [.beginScan [⟨["m"]⟩] session now, .ingest session ⟨⟨path, 5, h⟩, now + 1, session⟩,
   .process false ⟨path, 5, some h, needsReintrospect⟩ ⟨session + 100, now + 2, now + 2⟩]

def twoRuns : List LibraryAct :=
  run 50 10 "original" true ++ [.finishScan 50 14] ++ run 51 20 "original" false

/-- The second run remuxes the file; the third finds it as VOOM left it. -/
def beforeHit : List LibraryAct :=
  twoRuns ++
    [.execute (disk "remuxed") none (some "remuxed")
      { fileId := 50, path, toHash := "remuxed", toSize := 5, source := .voom },
     .finishScan 51 24, .beginScan [⟨["m"]⟩] 52 30, .ingest 52 ⟨⟨path, 5, "remuxed"⟩, 31, 52⟩]

def hit : LibraryAct := .process false ⟨path, 5, some "remuxed", false⟩ ⟨152, 32, 32⟩

theorem disk_some {h : Hash} {p : Path} {d : DiskFile} (hd : disk h p = some d) : d.hash = h := by
  unfold disk at hd
  split at hd
  · cases hd
    rfl
  · cases hd

end Remux

/-- Two runs over a file that does not change: the second one hits the cache. -/
theorem second_run_hits_cache :
    Along (libraryStep Remux.tracksOf) (EvaluatesCurrentTracks Remux.tracksOf)
      { disk := Remux.disk "original" } Remux.twoRuns := by
  have hprobe : ∀ (s : Store) (b : Bool), (∀ r ∈ s.files, r.expectedHash = some "original") →
      ProbesKnownContent Remux.tracksOf ⟨s, Remux.disk "original"⟩
        ⟨Remux.path, 5, some "original", b⟩ := by
    intro s b hs d hd
    have hd' : Remux.disk "original" Remux.path = some d := hd
    rw [Remux.disk_some hd']
    refine ⟨fun h hh => ?_, fun r hat h hh => ?_⟩
    · cases hh
      rfl
    · rw [hs r (fileAt_some hat).1] at hh
      cases hh
      rfl
  refine cache_hits_evaluate_current_tracks _ _
    ⟨trivial, ⟨by decide, by decide, by decide⟩, ?_, trivial, trivial,
      ⟨by decide, by decide, by decide⟩, ?_, trivial⟩
  · exact hprobe _ _ (by decide)
  · intro d hd h hh
    have hd' : Remux.disk "original" Remux.path = some d := hd
    rw [Remux.disk_some hd']
    cases hh
    rfl

/-- After VOOM itself remuxed the file in place, the next run evaluates the
tracks from before. -/
theorem remux_leaves_stale_tracks :
    ¬ Along (libraryStep Remux.tracksOf) (EvaluatesCurrentTracks Remux.tracksOf)
        { disk := Remux.disk "original" } (Remux.beforeHit ++ [Remux.hit]) := by
  intro hrun
  have hstored : (cacheHit false ⟨Remux.path, 5, some "remuxed", false⟩
      (Remux.beforeHit.foldl (libraryStep Remux.tracksOf) { disk := Remux.disk "original" }).store).map
      (·.tracks) = some (Remux.tracksOf "original") := by
    decide
  obtain ⟨stored, hhit, htracks⟩ := Option.map_eq_some_iff.mp hstored
  have hcurrent := hrun.last stored hhit ⟨"remuxed", 5⟩ (by decide)
  rw [htracks] at hcurrent
  exact absurd hcurrent (by decide)

end Voom.Process

-- SUMMARY: Hash reuse during discovery: when a reused hash is the hash of the content on disk.
import Voom.Lib.Run
import Voom.Storage.Rows

/-!
# Hash reuse

Discovery reuses the stored hash of a file whose size is unchanged and whose
`mtime` is no later than the timestamp of the row. The size is taken during the
walk, the hash is computed later and the timestamp later still, by the ingest or
by the introspection; contents may change in between. Every step takes a reading
of a strictly increasing clock, and a content change sets the `mtime` to it.
-/

namespace Voom.Discovery

open Lib Storage

/-! ## Discovery -/

/-- A file on disk: its content by its hash, its size and when it last changed. -/
structure StampedFile where
  hash : Hash
  size : Nat
  mtime : Time
  deriving DecidableEq, Repr

/-- `reuse_cached_hash`; a file whose metadata cannot be read is not reused. -/
def reuseCachedHash (disk : Path → Option StampedFile) (s : Store) (path : Path) (walkSize : Nat) :
    Option Hash :=
  match fileFingerprintByPath s path with
  | none => none
  | some stored =>
    if stored.size ≠ walkSize then none
    else
      match disk path with
      | none => none
      | some d => if stored.lastSeen < d.mtime then none else some stored.contentHash

/-- A `FileDiscovered` event, with the moment its hash was computed or reused. -/
structure Discovered where
  path : Path
  size : Nat
  contentHash : Hash
  hashedAt : Time
  deriving DecidableEq, Repr

def Discovered.file (e : Discovered) : DiscoveredFile := ⟨e.path, e.size, e.contentHash⟩

/-- `build_event` with hashing on: reuse the cached hash or compute one. -/
def buildEvent (disk : Path → Option StampedFile) (s : Store) (path : Path) (walkSize : Nat)
    (now : Time) : Option Discovered :=
  match reuseCachedHash disk s path walkSize with
  | some cached => some ⟨path, walkSize, cached, now⟩
  | none => (disk path).map fun d => ⟨path, walkSize, d.hash, now⟩

/-- An introspection in flight: what it read and when. -/
structure Introspected where
  event : Discovered
  id : Uuid
  tracks : List Track
  introspectedAt : Time
  deriving DecidableEq, Repr

def Introspected.mediaFile (f : Introspected) : MediaFile :=
  { id := f.id, path := f.event.path, size := f.event.size,
    contentHash := some f.event.contentHash, tracks := f.tracks, introspectedAt := f.introspectedAt }

/-! ## The system -/

/-- Disk and store, with the walks, events and introspections under way. -/
structure System where
  clock : Time
  disk : Path → Option StampedFile
  store : Store := {}
  walked : List (Path × Nat) := []
  events : List Discovered := []
  introspected : List Introspected := []

inductive Act where
  /-- Another content at a path, or none: by a user or by an executor. -/
  | change (path : Path) (content : Option (Hash × Nat))
  | walk (path : Path)
  | build (path : Path) (walkSize : Nat)
  | beginScan (roots : List Path) (session : SessionId)
  | ingest (session : SessionId) (event : Discovered) (newId : Uuid)
  | finishScan (session : SessionId)
  | cancelScan (session : SessionId)
  | introspect (event : Discovered) (id : Uuid) (tracks : List Track)
  | upsert (file : Introspected)

def ingestCtx (sys : System) (session : SessionId) (event : Discovered) (newId : Uuid) : IngestCtx :=
  { now := sys.clock, session, file := event.file, newId }

def setDisk (disk : Path → Option StampedFile) (path : Path) (file : Option StampedFile) :
    Path → Option StampedFile :=
  fun p => if p = path then file else disk p

/-- The store after an operation; one that fails is rolled back. -/
def System.write (sys : System) (result : Except VoomError Store) : System :=
  match result with
  | .ok store => { sys with store }
  | .error _ => sys

/-- What an act does, apart from the clock. -/
def act (sys : System) : Act → System
  | .change path content =>
    let file := content.map fun (hash, size) => ⟨hash, size, sys.clock⟩
    { sys with disk := setDisk sys.disk path file }
  | .walk path =>
    match sys.disk path with
    | none => sys
    | some d => { sys with walked := (path, d.size) :: sys.walked }
  | .build path walkSize =>
    if (path, walkSize) ∈ sys.walked then
      match buildEvent sys.disk sys.store path walkSize sys.clock with
      | some event => { sys with events := event :: sys.events }
      | none => sys
    else sys
  | .beginScan roots session => sys.write (beginScanSession roots session sys.clock sys.store)
  | .ingest session event newId =>
    if event ∈ sys.events then
      sys.write ((ingestDiscoveredFile (ingestCtx sys session event newId) sys.store).map (·.1))
    else sys
  | .finishScan session => sys.write ((finishScanSession session sys.clock sys.store).map (·.1))
  | .cancelScan session => sys.write (.ok (cancelScanSession session sys.clock sys.store))
  | .introspect event id tracks =>
    if event ∈ sys.events then
      { sys with introspected := ⟨event, id, tracks, sys.clock⟩ :: sys.introspected }
    else sys
  | .upsert file =>
    if file ∈ sys.introspected then
      sys.write (upsertFile file.mediaFile sys.clock sys.store)
    else sys

/-- A step: the act, and the clock goes on. -/
def step (sys : System) (a : Act) : System :=
  { act sys a with clock := sys.clock + 1 }

/-! ## The law and its condition -/

/-- A reused hash is the hash of the content at the path. -/
def ReusesCurrentHash (sys : System) : Act → Prop
  | .build path walkSize => (path, walkSize) ∈ sys.walked →
      ∀ h, reuseCachedHash sys.disk sys.store path walkSize = some h →
        ∃ d, sys.disk path = some d ∧ d.hash = h
  | _ => True

/-- No change to a content of that size falls between the moment a hash was
computed and a timestamp. -/
def Undisturbed (sys : System) (path : Path) (size : Nat) (hashedAt stamp : Time) : Prop :=
  ∀ d, sys.disk path = some d → d.size = size → d.mtime ≤ stamp → d.mtime ≤ hashedAt

/-- The timestamp of the row an ingest leaves: its own for a new row, the old one
for a row that is kept. -/
def ingestStamp (sys : System) (session : SessionId) (event : Discovered) (newId : Uuid) :
    Option Time :=
  match ingestDiscoveredFile (ingestCtx sys session event newId) sys.store with
  | .error _ => none
  | .ok (_, .new _ _) | .ok (_, .externallyChanged _ _) => some sys.clock
  | .ok (_, .unchanged id) | .ok (_, .moved id _) =>
    (sys.store.files.find? fun r => r.id = id).map (·.introspectedAt)
  | .ok (_, .duplicate _) => none

/-- The condition on a step: what a row is stamped with is no later than a change
that its hash does not know, and a reused row has the size on disk. -/
def StampedInTime (sys : System) : Act → Prop
  | .build path walkSize => ∀ d r, sys.disk path = some d → sys.store.fileAt path = some r →
      r.size = walkSize → d.mtime ≤ r.introspectedAt → d.size = walkSize
  | .ingest session event newId =>
    (∀ r ∈ sys.store.files, r.id ≠ newId) ∧
      ∀ stamp, ingestStamp sys session event newId = some stamp →
        Undisturbed sys event.path event.size event.hashedAt stamp
  | .finishScan session => ∀ c ∈ sys.store.files, ∀ target ∈ sys.store.files,
      c.lastSeenSession ≠ some session → target.lastSeenSession = some session →
      c.expectedHash = some target.contentHash →
      ∀ p, target.path = some p →
        Undisturbed sys p target.size target.introspectedAt c.introspectedAt
  | .upsert file => Undisturbed sys file.event.path file.event.size file.event.hashedAt
      file.introspectedAt
  | _ => True

/-! ## The invariant -/

/-- A row whose timestamp is as late as the content on disk, of the same size,
has the hash of that content. -/
def SoundRow (disk : Path → Option StampedFile) (r : FileRow) : Prop :=
  ∀ p d, r.path = some p → disk p = some d → d.size = r.size → d.mtime ≤ r.introspectedAt →
    d.hash = r.contentHash

/-- An event is right about a content that has not changed since. -/
def SoundEvent (disk : Path → Option StampedFile) (e : Discovered) : Prop :=
  ∀ d, disk e.path = some d → d.mtime ≤ e.hashedAt → d.hash = e.contentHash

structure ReuseInv (sys : System) : Prop where
  wf : sys.store.WellFormed
  rows : ∀ r ∈ sys.store.files, SoundRow sys.disk r
  stamps : ∀ r ∈ sys.store.files, r.introspectedAt < sys.clock
  events : ∀ e ∈ sys.events, SoundEvent sys.disk e
  hashed : ∀ e ∈ sys.events, e.hashedAt < sys.clock
  introspected : ∀ f ∈ sys.introspected, f.event ∈ sys.events ∧ f.introspectedAt < sys.clock

/-! ## Preservation -/

section Preservation

variable {sys : System}

/-- A write of the store that leaves sound rows with past timestamps. -/
theorem ReuseInv.write (hinv : ReuseInv sys) {store : Store} (hwf : store.WellFormed)
    (hrows : ∀ r ∈ store.files, SoundRow sys.disk r ∧ r.introspectedAt ≤ sys.clock) :
    ReuseInv { sys with store, clock := sys.clock + 1 } where
  wf := hwf
  rows := fun r hr => (hrows r hr).1
  stamps := fun r hr => Nat.lt_succ_of_le (hrows r hr).2
  events := hinv.events
  hashed := fun e he => Nat.lt_succ_of_lt (hinv.hashed e he)
  introspected := fun f hf => (hinv.introspected f hf).imp_right Nat.lt_succ_of_lt

/-- A row of the store, as a row after a write. -/
theorem ReuseInv.old (hinv : ReuseInv sys) {r : FileRow} (hr : r ∈ sys.store.files) :
    SoundRow sys.disk r ∧ r.introspectedAt ≤ sys.clock :=
  ⟨hinv.rows r hr, Nat.le_of_lt (hinv.stamps r hr)⟩

/-- The clock alone. -/
theorem ReuseInv.tick (hinv : ReuseInv sys) : ReuseInv { sys with clock := sys.clock + 1 } :=
  hinv.write hinv.wf fun _ hr => hinv.old hr

/-- A row stamped while its content was undisturbed is sound. -/
theorem SoundRow.of_event {e : Discovered} (hevent : SoundEvent sys.disk e) {r : FileRow}
    (hpath : r.path = some e.path) (hsize : r.size = e.size) (hhash : r.contentHash = e.contentHash)
    (hundisturbed : Undisturbed sys e.path e.size e.hashedAt r.introspectedAt) :
    SoundRow sys.disk r := by
  intro p d hp hd hds hdm
  rw [hpath] at hp
  cases hp
  rw [hhash]
  apply hevent d hd
  exact hundisturbed d hd (hds.trans hsize) hdm

theorem ReuseInv.change (hinv : ReuseInv sys) (path : Path) (content : Option (Hash × Nat)) :
    ReuseInv (step sys (.change path content)) := by
  -- A content changed now is newer than every timestamp and every hash.
  have hnew : ∀ {p : Path} {d : StampedFile},
      setDisk sys.disk path (content.map fun (hash, size) => ⟨hash, size, sys.clock⟩) p = some d →
      sys.disk p = some d ∨ d.mtime = sys.clock := by
    intro p d hd
    unfold setDisk at hd
    split at hd
    · obtain ⟨c, -, rfl⟩ := Option.map_eq_some_iff.mp hd
      exact .inr rfl
    · exact .inl hd
  refine ⟨hinv.wf, ?_, ?_, ?_, ?_, ?_⟩
  · intro r hr p d hp hd hds hdm
    rcases hnew hd with hold | htime
    · exact hinv.rows r hr p d hp hold hds hdm
    · have hlt := hinv.stamps r hr
      rw [htime] at hdm
      exact absurd hdm (Nat.not_le_of_lt hlt)
  · exact fun r hr => Nat.lt_succ_of_lt (hinv.stamps r hr)
  · intro e he d hd hdm
    rcases hnew hd with hold | htime
    · exact hinv.events e he d hold hdm
    · have hlt := hinv.hashed e he
      rw [htime] at hdm
      exact absurd hdm (Nat.not_le_of_lt hlt)
  · exact fun e he => Nat.lt_succ_of_lt (hinv.hashed e he)
  · exact fun f hf => (hinv.introspected f hf).imp_right Nat.lt_succ_of_lt

/-- What a reuse says about row and disk. -/
theorem reuseCachedHash_some {disk : Path → Option StampedFile} {s : Store} {path : Path}
    {walkSize : Nat} {h : Hash} (hreuse : reuseCachedHash disk s path walkSize = some h) :
    ∃ r d, s.fileAt path = some r ∧ disk path = some d ∧ r.size = walkSize ∧
      d.mtime ≤ r.introspectedAt ∧ r.contentHash = h := by
  unfold reuseCachedHash fileFingerprintByPath at hreuse
  cases hat : s.fileAt path with
  | none => simp [hat] at hreuse
  | some r =>
    rw [hat] at hreuse
    by_cases hempty : r.contentHash = ""
    · simp [hempty] at hreuse
    · simp only [hempty, if_false] at hreuse
      split at hreuse
      · cases hreuse
      · rename_i hsize
        split at hreuse
        · cases hreuse
        · rename_i d hd
          split at hreuse
          · cases hreuse
          · rename_i hmtime
            cases hreuse
            exact ⟨r, d, rfl, hd, not_not.mp hsize, Nat.not_lt.mp hmtime, rfl⟩

/-- Local: a reuse on sound rows returns the hash on disk. -/
theorem ReuseInv.reuse (hinv : ReuseInv sys) {path : Path} {walkSize : Nat}
    (hcond : StampedInTime sys (.build path walkSize)) {h : Hash}
    (hreuse : reuseCachedHash sys.disk sys.store path walkSize = some h) :
    ∃ d, sys.disk path = some d ∧ d.hash = h := by
  obtain ⟨r, d, hat, hd, hsize, hmtime, rfl⟩ := reuseCachedHash_some hreuse
  obtain ⟨hr, hp⟩ := fileAt_some hat
  have hds : d.size = walkSize := hcond d r hd hat hsize hmtime
  exact ⟨d, hd, hinv.rows r hr path d hp hd (hds.trans hsize.symm) hmtime⟩

/-- A built event is right about the content on disk. -/
theorem ReuseInv.build (hinv : ReuseInv sys) {path : Path} {walkSize : Nat}
    (hcond : StampedInTime sys (.build path walkSize)) :
    ReuseInv (step sys (.build path walkSize)) := by
  unfold step
  simp only [act]
  split
  · split
    · rename_i event hbuild
      have hevent : SoundEvent sys.disk event ∧ event.hashedAt = sys.clock := by
        unfold buildEvent at hbuild
        split at hbuild
        · rename_i cached hreuse
          cases hbuild
          refine ⟨fun d hd _ => ?_, rfl⟩
          obtain ⟨d', hd', hhash⟩ := hinv.reuse hcond hreuse
          have hsame : some d = some d' := hd.symm.trans hd'
          cases hsame
          exact hhash
        · obtain ⟨d, hd, rfl⟩ := Option.map_eq_some_iff.mp hbuild
          refine ⟨fun d' hd' _ => ?_, rfl⟩
          have hsame : some d = some d' := hd.symm.trans hd'
          cases hsame
          rfl
      have htick := hinv.tick
      refine ⟨htick.wf, htick.rows, htick.stamps, ?_, ?_, ?_⟩
      · intro e he
        rcases List.mem_cons.mp he with rfl | he
        · exact hevent.1
        · exact hinv.events e he
      · intro e he
        rcases List.mem_cons.mp he with rfl | he
        · rw [hevent.2]
          exact Nat.lt_succ_self _
        · exact htick.hashed e he
      · intro f hf
        exact (htick.introspected f hf).imp_left (List.mem_cons_of_mem _)
    · exact hinv.tick
  · exact hinv.tick

/-- The row of an ingest decision, found again by its id. -/
theorem find_id {s : Store} (hwf : s.WellFormed) {r : FileRow} (hr : r ∈ s.files) :
    s.files.find? (fun x => x.id = r.id) = some r := by
  cases hfind : s.files.find? fun x => x.id = r.id with
  | none =>
    rw [List.find?_eq_none] at hfind
    exact absurd (by simp) (hfind r hr)
  | some x =>
    have hid : x.id = r.id := by simpa using List.find?_some hfind
    rw [hwf.ids.eq_of_key (List.mem_of_find?_eq_some hfind) hr hid]

theorem ReuseInv.ingest (hinv : ReuseInv sys) {session : SessionId} {event : Discovered}
    {newId : Uuid} (hcond : StampedInTime sys (.ingest session event newId)) :
    ReuseInv (step sys (.ingest session event newId)) := by
  obtain ⟨hid, hstamp⟩ := hcond
  unfold step
  simp only [act]
  split
  · rename_i hevent
    cases hok : ingestDiscoveredFile (ingestCtx sys session event newId) sys.store with
    | error e => exact hinv.tick
    | ok result =>
      obtain ⟨s', decision⟩ := result
      refine hinv.write (ingest_wellFormed hinv.wf hid hok) fun r' hr' => ?_
      have hsound := hinv.events event hevent
      have hat_stamp : ∀ stamp, ingestStamp sys session event newId = some stamp →
          Undisturbed sys event.path event.size event.hashedAt stamp := hstamp
      simp only [ingestStamp, hok] at hat_stamp
      cases ingest_row hinv.wf hok hr' with
      | kept r hr link => exact ⟨(hinv.old hr).1, (hinv.old hr).2⟩
      | inserted hdecision =>
        refine ⟨SoundRow.of_event hsound rfl rfl rfl ?_, Nat.le_refl _⟩
        rcases hdecision with rfl | ⟨old, rfl⟩
        · exact hat_stamp _ rfl
        · exact hat_stamp _ rfl
      | unchanged e hdecision hat _ =>
        obtain ⟨he, hep⟩ := fileAt_some hat
        subst hdecision
        refine ⟨SoundRow.of_event hsound hep rfl rfl ?_, (hinv.old he).2⟩
        exact hat_stamp _ (by simp [find_id hinv.wf he])
      | moved m p hdecision hm _ link =>
        subst hdecision
        refine ⟨SoundRow.of_event hsound rfl rfl rfl ?_, (hinv.old hm).2⟩
        exact hat_stamp _ (by simp [find_id hinv.wf hm])
      | superseded e hat => exact ⟨nofun, (hinv.old (fileAt_some hat).1).2⟩
  · exact hinv.tick

theorem ReuseInv.finish (hinv : ReuseInv sys) {session : SessionId}
    (hcond : StampedInTime sys (.finishScan session)) :
    ReuseInv (step sys (.finishScan session)) := by
  unfold step
  simp only [act]
  cases hok : finishScanSession session sys.clock sys.store with
  | error e => exact hinv.tick
  | ok result =>
    obtain ⟨s', outcome⟩ := result
    refine hinv.write (finish_wellFormed hinv.wf hok) fun r' hr' => ?_
    obtain ⟨r, status, hform, rfl⟩ := finish_row hinv.wf hok hr'
    have hr : SoundRow sys.disk r ∧ r.introspectedAt ≤ sys.clock := by
      cases hform with
      | kept _ hr => exact hinv.old hr
      | promoted c target hash hc hunseen hexpected htarget hseen hhash =>
        subst hhash
        refine ⟨fun p d hp hd hds hdm => ?_, (hinv.old hc).2⟩
        have hmtime := hcond c hc target htarget hunseen hseen hexpected p hp d hd hds hdm
        exact hinv.rows target htarget p d hp hd hds hmtime
    exact hr

theorem ReuseInv.upsert (hinv : ReuseInv sys) {file : Introspected}
    (hcond : StampedInTime sys (.upsert file)) : ReuseInv (step sys (.upsert file)) := by
  unfold step
  simp only [act]
  split
  · rename_i hfile
    obtain ⟨hevent, hstamp⟩ := hinv.introspected file hfile
    cases hok : upsertFile file.mediaFile sys.clock sys.store with
    | error e => exact hinv.tick
    | ok s' =>
      refine hinv.write (upsert_wellFormed hinv.wf hok) fun r' hr' => ?_
      have hsound := hinv.events _ hevent
      rcases upsert_row hinv.wf hok hr' with hr | ⟨r, hat, rfl⟩ | rfl
      · exact hinv.old hr
      · obtain ⟨-, hp⟩ := fileAt_some hat
        exact ⟨SoundRow.of_event hsound hp rfl rfl hcond, Nat.le_of_lt hstamp⟩
      · exact ⟨SoundRow.of_event hsound rfl rfl rfl hcond, Nat.le_of_lt hstamp⟩
  · exact hinv.tick

theorem ReuseInv.introspect (hinv : ReuseInv sys) (event : Discovered) (id : Uuid)
    (tracks : List Track) : ReuseInv (step sys (.introspect event id tracks)) := by
  unfold step
  simp only [act]
  have htick := hinv.tick
  split
  · rename_i hevent
    refine ⟨htick.wf, htick.rows, htick.stamps, htick.events, htick.hashed, fun f hf => ?_⟩
    rcases List.mem_cons.mp hf with rfl | hf
    · exact ⟨hevent, Nat.lt_succ_self _⟩
    · exact htick.introspected f hf
  · exact htick

/-- Step: every act that meets the condition keeps the invariant. -/
theorem step_inv (hinv : ReuseInv sys) {a : Act} (hcond : StampedInTime sys a) :
    ReuseInv (step sys a) := by
  cases a with
  | change path content => exact hinv.change path content
  | walk path =>
    unfold step
    simp only [act]
    split
    · exact hinv.tick
    · have htick := hinv.tick
      exact ⟨htick.wf, htick.rows, htick.stamps, htick.events, htick.hashed, htick.introspected⟩
  | build path walkSize => exact hinv.build hcond
  | beginScan roots session =>
    unfold step
    simp only [act]
    cases hok : beginScanSession roots session sys.clock sys.store with
    | error e => exact hinv.tick
    | ok s' =>
      unfold beginScanSession at hok
      split at hok
      · cases hok
      · cases hok
        exact hinv.write (wellFormed_congr hinv.wf rfl rfl) fun r hr => hinv.old hr
  | ingest session event newId => exact hinv.ingest hcond
  | finishScan session => exact hinv.finish hcond
  | cancelScan session =>
    exact hinv.write (wellFormed_congr hinv.wf rfl rfl) fun r hr => hinv.old hr
  | introspect event id tracks => exact hinv.introspect event id tracks
  | upsert file => exact hinv.upsert hcond

/-- From an empty store, in every run whose steps meet the condition, a reused hash
is the hash of the content on disk at that moment. -/
theorem reused_hashes_are_current (clock : Time) (disk : Path → Option StampedFile)
    (acts : List Act) (hrun : Along step StampedInTime { clock, disk } acts) :
    Along step ReusesCurrentHash { clock, disk } acts := by
  refine Along.of_invariant (fun s a hinv hcond => step_inv hinv hcond) ?_ ?_ hrun
  · intro s a hinv hcond
    cases a with
    | build path walkSize => exact fun _ h hreuse => hinv.reuse hcond hreuse
    | _ => trivial
  · exact ⟨⟨List.nodup_nil, nofun, nofun⟩, nofun, nofun, nofun, nofun, nofun⟩

end Preservation

namespace OneFile

def path : Path := ⟨["m", "a.mkv"]⟩

def start : System :=
  { clock := 10, disk := fun p => if p = path then some ⟨"x", 5, 3⟩ else none }

def event : Discovered := ⟨path, 5, "x", 11⟩

/-- The file is walked, hashed and ingested. -/
def scan : List Act := [.walk path, .build path 5, .beginScan [⟨["m"]⟩] 50, .ingest 50 event 1]

/-- The same, with a change to a content of the same size after the hashing. -/
def disturbedScan : List Act :=
  [.walk path, .build path 5, .change path (some ("y", 5)), .beginScan [⟨["m"]⟩] 50,
   .ingest 50 event 1, .walk path]

end OneFile

/-- A file that is left alone: the next scan reuses its hash. -/
theorem untouched_file_reuses_hash :
    Along step ReusesCurrentHash OneFile.start
      (OneFile.scan ++ [.walk OneFile.path, .build OneFile.path 5]) := by
  refine reused_hashes_are_current _ _ _
    ⟨trivial, ?_, trivial, ⟨by decide, ?_⟩, trivial, ?_, trivial⟩
  · intro d r hd hat
    cases hat
  · intro stamp hstamp d hd _ _
    cases hd
    decide
  · intro d r hd hat _ _
    cases hd
    rfl

/-- The row is stamped after a change that its hash does not know, and the next
scan reuses the old hash. -/
theorem disturbed_file_reuses_stale_hash :
    ¬ Along step ReusesCurrentHash OneFile.start (OneFile.disturbedScan ++ [.build OneFile.path 5]) := by
  intro hrun
  obtain ⟨d, hd, hhash⟩ := hrun.last (by decide) "x" (by decide)
  have hy : (OneFile.disturbedScan.foldl step OneFile.start).disk OneFile.path =
      some ⟨"y", 5, 12⟩ := by decide
  rw [hy] at hd
  cases hd
  exact absurd hhash (by decide)

end Voom.Discovery

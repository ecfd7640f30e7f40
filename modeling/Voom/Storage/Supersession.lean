-- SUMMARY: Supersession chains over whole histories: they end, never fork backwards, and break only at purges and stub recoveries.
import Voom.Storage.Library
import Voom.Storage.Mutations
import Voom.Lib.Chain

/-!
# Supersession chains

A file that was changed from outside gives up its path to a new row and points
to it (`superseded_by`). What the operations do to these pointers is said once,
as steps on the table of rows (`TableStep`); each invariant is then a case
analysis over the steps. A purge may delete the target of a pointer and a stub
recovery may take the pointer from a row without a path, so that every pointer
names a row, and every row without a path is superseded, only along histories
without such a purge and such a recovery.
-/

namespace Voom.Storage

open Lib

/-! ## Steps on the table -/

/-- A change of other columns: a row without a path does not become active. -/
structure Mild (r r' : FileRow) : Prop where
  id : r'.id = r.id
  link : r'.supersededBy = r.supersededBy
  path : r'.path = none → r.path = none ∧ (r.status = .missing → r'.status = .missing)

theorem Mild.refl (r : FileRow) : Mild r r := ⟨rfl, rfl, fun h => ⟨h, fun h => h⟩⟩

/-- What an operation can do to the rows, one statement at a time. `cuts` and
`orphans` say whether a deletion may hit the target of a pointer, and whether
the pointer of a row without a path may be cleared. -/
inductive TableStep (cuts orphans : Prop) : List FileRow → List FileRow → Prop where
  | edit {rows : List FileRow} (f : FileRow → FileRow) (hmild : ∀ r ∈ rows, Mild r (f r)) :
      TableStep cuts orphans rows (rows.map f)
  | insert {rows : List FileRow} (r : FileRow) (hlink : r.supersededBy = none)
      (hpath : r.path ≠ none) : TableStep cuts orphans rows (rows ++ [r])
  | supersede {rows : List FileRow} (id : Uuid) (r : FileRow) (hlink : r.supersededBy = none)
      (hpath : r.path ≠ none) (hfresh : ∀ x ∈ rows, x.id ≠ r.id) :
      TableStep cuts orphans rows
        (Table.modify FileRow.id id (fun x =>
          { x with path := none, status := .missing, supersededBy := some r.id }) rows ++ [r])
  | delete {rows : List FileRow} (keep : FileRow → Bool)
      (hcut : cuts ∨ ∀ r ∈ rows, keep r = true → ∀ r' ∈ rows, keep r' = false →
        r.supersededBy ≠ some r'.id) : TableStep cuts orphans rows (rows.filter keep)
  | unlink {rows : List FileRow} (id : Uuid)
      (horphan : orphans ∨ ∀ r ∈ rows, r.path = none → r.supersededBy ≠ some id) :
      TableStep cuts orphans rows (rows.map (clearLink [id]))

abbrev TableSteps (cuts orphans : Prop) := Relation.ReflTransGen (TableStep cuts orphans)

abbrev Forward := Chain.Forward FileRow.id FileRow.supersededBy

/-- Every `superseded_by` names a row. -/
abbrev Linked := Chain.Linked FileRow.id FileRow.supersededBy

def NullPathMissing (rows : List FileRow) : Prop :=
  ∀ r ∈ rows, r.path = none → r.status = .missing

def NullPathSuperseded (rows : List FileRow) : Prop :=
  ∀ r ∈ rows, r.path = none → r.supersededBy ≠ none

section Steps

variable {cuts orphans : Prop} {rows rows' : List FileRow}

theorem clearLink_link (id : Uuid) (r : FileRow) :
    (clearLink [id] r).supersededBy = r.supersededBy ∧ r.supersededBy ≠ some id ∨
      (clearLink [id] r).supersededBy = none := by
  unfold clearLink
  split
  · exact .inr rfl
  · rename_i h
    exact .inl ⟨rfl, fun heq => h ⟨id, List.mem_singleton_self id, heq⟩⟩

theorem TableStep.forward (h : TableStep cuts orphans rows rows') (hf : Forward rows) :
    Forward rows' := by
  cases h with
  | edit f hmild => exact hf.map (fun r hr => (hmild r hr).id) fun r hr => .inl (hmild r hr).link
  | insert r hlink _ => exact hf.append hlink
  | supersede id r hlink _ hfresh =>
    exact hf.supersede (fun _ => rfl) (fun _ => rfl) hlink hfresh
  | delete keep _ => exact hf.sublist List.filter_sublist
  | unlink id _ =>
    exact hf.map (fun _ _ => clearLink_id) fun r _ => (clearLink_link id r).imp_left And.left

/-- A row without a path was one before, or was superseded in this step. -/
theorem TableStep.nullPath (h : TableStep cuts orphans rows rows') {x : FileRow} (hx : x ∈ rows')
    (hpath : x.path = none) :
    (∃ r ∈ rows, r.path = none ∧ (r.status = .missing → x.status = .missing) ∧
      (¬ orphans → x.supersededBy = r.supersededBy)) ∨
    x.status = .missing ∧ x.supersededBy ≠ none := by
  cases h with
  | edit f hmild =>
    obtain ⟨r, hr, rfl⟩ := List.mem_map.mp hx
    obtain ⟨hrpath, hstatus⟩ := (hmild r hr).path hpath
    exact .inl ⟨r, hr, hrpath, hstatus, fun _ => (hmild r hr).link⟩
  | insert r _ hr =>
    rcases List.mem_append.mp hx with hx | hx
    · exact .inl ⟨x, hx, hpath, fun h => h, fun _ => rfl⟩
    · exact absurd (List.mem_singleton.mp hx ▸ hpath) hr
  | supersede id r _ hr _ =>
    rcases List.mem_append.mp hx with hx | hx
    · obtain ⟨y, hy, rfl⟩ := Table.mem_modify.mp hx
      by_cases hid : y.id = id
      · rw [if_pos hid]
        exact .inr ⟨rfl, nofun⟩
      · rw [if_neg hid] at hpath ⊢
        exact .inl ⟨y, hy, hpath, fun h => h, fun _ => rfl⟩
    · exact absurd (List.mem_singleton.mp hx ▸ hpath) hr
  | delete keep _ => exact .inl ⟨x, (List.mem_filter.mp hx).1, hpath, fun h => h, fun _ => rfl⟩
  | unlink id horphan =>
    obtain ⟨r, hr, rfl⟩ := List.mem_map.mp hx
    rw [clearLink_path] at hpath
    rw [clearLink_status]
    refine .inl ⟨r, hr, hpath, fun h => h, fun horphans => ?_⟩
    have hne := horphan.resolve_left horphans r hr hpath
    rw [clearLink_of_none fun y hy => by rw [List.mem_singleton.mp hy]; exact hne]

theorem TableStep.nullPathMissing (h : TableStep cuts orphans rows rows')
    (hm : NullPathMissing rows) : NullPathMissing rows' := by
  intro x hx hpath
  rcases h.nullPath hx hpath with ⟨r, hr, hrpath, hstatus, -⟩ | ⟨hstatus, -⟩
  · exact hstatus (hm r hr hrpath)
  · exact hstatus

theorem TableStep.nullPathSuperseded (h : TableStep cuts False rows rows')
    (hs : NullPathSuperseded rows) : NullPathSuperseded rows' := by
  intro x hx hpath
  rcases h.nullPath hx hpath with ⟨r, hr, hrpath, -, hlink⟩ | ⟨-, hlink⟩
  · rw [hlink not_false]
    exact hs r hr hrpath
  · exact hlink

theorem TableStep.linked (h : TableStep False orphans rows rows') (hl : Linked rows) :
    Linked rows' := by
  cases h with
  | edit f hmild => exact hl.map (fun r hr => (hmild r hr).id) fun r hr => .inl (hmild r hr).link
  | insert r hlink _ => exact hl.append hlink
  | supersede id r hlink _ _ => exact hl.supersede (fun _ => rfl) (fun _ => rfl) hlink
  | delete keep hcut => exact hl.filter (hcut.resolve_left not_false)
  | unlink id _ =>
    exact hl.map (fun _ _ => clearLink_id) fun r _ => (clearLink_link id r).imp_left And.left

/-- What each step keeps, any number of steps keep. -/
theorem TableSteps.keeps {P : List FileRow → Prop}
    (hstep : ∀ {rows rows'}, TableStep cuts orphans rows rows' → P rows → P rows')
    (h : TableSteps cuts orphans rows rows') (hP : P rows) : P rows' := by
  induction h with
  | refl => exact hP
  | tail _ hlast ih => exact hstep hlast ih

end Steps

/-! ## What an operation does to the table -/

section Effects

variable {cuts orphans : Prop} {l : Library} {s s' t t' : Store}

/-- Changing the row of an id, mildly. -/
theorem TableStep.modify {rows : List FileRow} {id : Uuid} {f : FileRow → FileRow}
    (h : ∀ r ∈ rows, r.id = id → Mild r (f r)) :
    TableStep cuts orphans rows (Table.modify FileRow.id id f rows) := by
  refine .edit _ fun r hr => ?_
  split
  · rename_i hid
    exact h r hr hid
  · exact .refl r

/-- A row that has a path, or gets one, may change in everything but its key
and its pointer. -/
theorem Mild.of_path {r r' : FileRow} (hid : r'.id = r.id) (hlink : r'.supersededBy = r.supersededBy)
    (hpath : r'.path ≠ none) : Mild r r' := ⟨hid, hlink, fun h => absurd h hpath⟩

/-- An ingest recovers a stub that superseded a row without a path. -/
def RecoversSuccessor (ctx : IngestCtx) (s : Store) : Prop :=
  ∃ e, s.fileAt ctx.file.path = some e ∧ e.lastSeenSession ≠ some ctx.session ∧
    ∃ r ∈ s.files, r.path = none ∧ r.supersededBy = some e.id

theorem Vacated.steps {ctx : IngestCtx} {base : Store} (h : Vacated ctx s base)
    (horphan : orphans ∨ ¬ RecoversSuccessor ctx s) :
    TableSteps cuts orphans s.files base.files := by
  cases h with
  | free _ => exact .refl
  | recovered e hat hlast _ =>
    have hunlink : TableStep cuts orphans s.files (s.files.map (clearLink [e.id])) := by
      refine .unlink e.id (horphan.imp_right fun hno r hr hpath hlink => ?_)
      exact hno ⟨e, hat, hlast, r, hr, hpath, hlink⟩
    have hdelete : TableStep cuts orphans (s.files.map (clearLink [e.id]))
        ((s.files.map (clearLink [e.id])).filter fun r => r.id ∉ [e.id]) := by
      refine .delete _ (.inr fun x hx _ y _ hgone => ?_)
      obtain ⟨r, -, rfl⟩ := List.mem_map.mp hx
      have hy : y.id = e.id := by simpa using hgone
      rw [hy]
      -- The pointers to the stub have just been cleared.
      rcases clearLink_link e.id r with ⟨heq, hne⟩ | heq <;> rw [heq]
      · exact hne
      · exact nofun
    have hfiles : (strip [e.id] s.sessions s).files =
        (s.files.map (clearLink [e.id])).filter fun r => r.id ∉ [e.id] := by
      simp only [strip, List.filter_map, Function.comp_def, clearLink_id]
    rw [hfiles]
    exact .tail (.single hunlink) hdelete

theorem ingest_steps {ctx : IngestCtx} {decision : IngestDecision}
    (hids : Table.Keyed FileRow.id s.files) (hids' : Table.Keyed FileRow.id s'.files)
    (h : ingestDiscoveredFile ctx s = .ok (s', decision))
    (horphan : orphans ∨ ¬ (RecoversSuccessor ctx s)) :
    TableSteps cuts orphans s.files s'.files := by
  rcases ingest_cases h with ⟨rfl, -⟩ | ⟨base, hbase, rfl, -⟩ | ⟨e, hat, -, -, ⟨rfl, -⟩ | ⟨rfl, -⟩⟩
  · exact .refl
  · refine (hbase.steps horphan).tail ?_
    rcases ingestNoRow_cases ctx base with ⟨r, p, -, heq⟩ | ⟨-, heq⟩
    · rw [heq]
      exact .modify fun x _ _ => .of_path rfl rfl nofun
    · rw [heq]
      exact .insert _ rfl nofun
  · obtain ⟨he, hepath⟩ := fileAt_some hat
    refine .single (.modify fun x hx hid => ?_)
    rw [hids.eq_of_key hx he hid]
    refine .of_path rfl rfl ?_
    change e.path ≠ none
    rw [hepath]
    exact nofun
  · have hfiles : (ingestExternallyChanged ctx e s).files =
        Table.modify FileRow.id e.id (fun r =>
          { r with path := none, status := .missing, supersededBy := some ctx.newId }) s.files ++
        [newRow ctx.session ⟨ctx.file, ctx.now, ctx.newId⟩] := rfl
    rw [hfiles] at hids' ⊢
    refine .single (.supersede e.id (newRow ctx.session ⟨ctx.file, ctx.now, ctx.newId⟩) rfl
      nofun fun x hx hid => ?_)
    -- The new row has the key alone: the table after the insert is keyed.
    have hkeys : (Table.modify FileRow.id e.id (fun r =>
        { r with path := none, status := .missing, supersededBy := some ctx.newId }) s.files).map
          FileRow.id = s.files.map FileRow.id := Table.map_key_modify fun _ _ _ => rfl
    unfold Table.Keyed at hids'
    rw [List.map_append, hkeys, List.nodup_append] at hids'
    exact hids'.2.2 x.id (List.mem_map_of_mem hx) _ (List.mem_singleton_self _) hid

theorem tryPromoteOneMove_steps {c : MissingCandidate} {session : SessionId} {startedAt : Time}
    {done : Bool} (h : tryPromoteOneMove c session startedAt t = .ok (t', done)) :
    TableSteps cuts orphans t.files t'.files := by
  rcases tryPromoteOneMove_spec h with
    rfl | ⟨target, -, -, -, -, hpath, -, hlinks, -, hfiles⟩
  · exact .refl
  · rw [hfiles]
    have hdelete : TableStep cuts orphans t.files (Table.delete FileRow.id target.id t.files) := by
      refine .delete _ (.inr fun x hx _ y _ hgone => ?_)
      have hy : y.id = target.id := by simpa using hgone
      rw [hy]
      exact hlinks x hx
    refine .tail (.single hdelete) (.modify fun x _ _ => .of_path rfl rfl ?_)
    exact Option.isSome_iff_ne_none.mp hpath

theorem promoteMoves_steps {candidates : List MissingCandidate} {session : SessionId}
    {startedAt : Time} {n : Nat} (h : promoteMoves session startedAt candidates t = .ok (t', n)) :
    TableSteps cuts orphans t.files t'.files := by
  induction candidates generalizing t n with
  | nil =>
    cases h
    exact .refl
  | cons c candidates ih =>
    unfold promoteMoves at h
    split at h
    · cases h
    · rename_i t₁ done hstep
      split at h
      · cases h
      · rename_i t₂ n₂ hrest
        cases h
        exact (tryPromoteOneMove_steps hstep).trans (ih hrest)

theorem finish_steps {session : SessionId} {now : Time} {outcome : ScanFinishOutcome}
    (h : finishScanSession session now s = .ok (s', outcome)) :
    TableSteps cuts orphans s.files s'.files := by
  obtain ⟨⟨p, hp, -⟩, -⟩ := finishScanSession_ok_sessions h
  obtain ⟨t₁, n, hpromote, hfiles⟩ := finish_cases hp h
  rw [hfiles]
  refine (promoteMoves_steps hpromote).tail (.edit _ fun r _ => ?_)
  split
  · exact ⟨rfl, rfl, fun hpath => ⟨hpath, fun _ => rfl⟩⟩
  · exact .refl r

theorem upsertFile_steps {file : MediaFile} {now : Time} (hids : Table.Keyed FileRow.id s.files)
    (h : upsertFile file now s = .ok s') : TableSteps cuts orphans s.files s'.files := by
  unfold upsertFile at h
  split at h
  · cases h
  split at h
  · rename_i e hat
    cases h
    obtain ⟨he, hepath⟩ := fileAt_some hat
    refine .single (.modify fun x hx hid => ?_)
    rw [hids.eq_of_key hx he hid]
    refine .of_path rfl rfl ?_
    change e.path ≠ none
    rw [hepath]
    exact nofun
  · split at h
    · cases h
    · cases h
      exact .single (.insert _ rfl nofun)

end Effects

/-! ## What an operation does to the library -/

section Operations

open Library

variable {cuts orphans : Prop} {l : Library}

/-- A purge deletes a row to which one that it keeps points. -/
def CutsLink (olderThan : Time) (l : Library) : Prop :=
  ∃ r ∈ l.store.files, l.purgeable olderThan r = false ∧
    ∃ r' ∈ l.store.files, l.purgeable olderThan r' = true ∧ r.supersededBy = some r'.id

/-- The operation is a purge that cuts a chain. -/
def LibraryOp.Cuts (l : Library) : LibraryOp → Prop
  | .purgeMissing olderThan => CutsLink olderThan l
  | _ => False

/-- The operation is an ingest that recovers the successor of a row. -/
def LibraryOp.Orphans (l : Library) : LibraryOp → Prop
  | .session (.ingest ctx) => RecoversSuccessor ctx l.store
  | _ => False

theorem keeping_cases (l : Library) (s : Store) (since : Uuid → Option Time) :
    (l.keeping s since = { l with store := s, missingSince := since } ∧ Unique s) ∨
      l.keeping s since = l := by
  unfold keeping
  split
  · rename_i h
    exact .inl ⟨rfl, h⟩
  · exact .inr rfl

/-- An operation, as steps on the rows and as keeping the unique columns. -/
structure Effect (cuts orphans : Prop) (s s' : Store) : Prop where
  steps : TableSteps cuts orphans s.files s'.files
  unique : Unique s'

theorem Effect.unchanged {s : Store} (h : Unique s) : Effect cuts orphans s s := ⟨.refl, h⟩

theorem Effect.trans {s s' s'' : Store} (h : Effect cuts orphans s s')
    (h' : Effect cuts orphans s' s'') : Effect cuts orphans s s'' :=
  ⟨h.steps.trans h'.steps, h'.unique⟩

/-- A change that keeps apart what was apart. -/
theorem distinct_map {β : Type} {column : FileRow → Option β} {rows : List FileRow}
    (h : Distinct column rows) {f : FileRow → FileRow}
    (hf : ∀ r ∈ rows, column (f r) = column r) : Distinct column (rows.map f) := by
  intro x hx y hy heq hne
  obtain ⟨r, hr, rfl⟩ := List.mem_map.mp hx
  obtain ⟨r', hr', rfl⟩ := List.mem_map.mp hy
  rw [hf r hr] at heq hne
  rw [hf r' hr'] at heq
  rw [h r hr r' hr' heq hne]

/-- A change of other columns than the unique ones. -/
theorem unique_modify {s : Store} (h : Unique s) {id : Uuid} {f : FileRow → FileRow}
    (hid : ∀ r, (f r).id = r.id) (hpath : ∀ r, (f r).path = r.path)
    (hlink : ∀ r, (f r).supersededBy = r.supersededBy) : Unique (s.modifyFile id f) where
  ids := h.ids.modify fun r _ _ => hid r
  paths := distinct_map h.paths fun r _ => by
    split
    · exact hpath r
    · rfl
  links := distinct_map h.links fun r _ => by
    split
    · exact hlink r
    · rfl

/-- A rename to a path that no other row has. -/
theorem unique_rename {s : Store} (h : Unique s) {id : Uuid} {path : Path}
    (hfree : ∀ r ∈ s.files, r.id ≠ id → r.path ≠ some path) :
    Unique (s.modifyFile id fun r => { r with path := some path }) where
  ids := h.ids.modify fun _ _ _ => rfl
  paths := by
    intro x hx y hy heq hne
    obtain ⟨r, hr, rfl⟩ := Table.mem_modify.mp hx
    obtain ⟨r', hr', rfl⟩ := Table.mem_modify.mp hy
    by_cases hid : r.id = id
    · by_cases hid' : r'.id = id
      · rw [h.ids.eq_of_key hr hr' (hid.trans hid'.symm)]
      · rw [if_pos hid, if_neg hid'] at heq
        exact absurd heq.symm (hfree r' hr' hid')
    · rw [if_neg hid] at heq hne ⊢
      by_cases hid' : r'.id = id
      · rw [if_pos hid'] at heq
        exact absurd heq (hfree r hr hid)
      · rw [if_neg hid'] at heq ⊢
        exact h.paths r hr r' hr' heq hne
  links := distinct_map h.links fun r _ => by split <;> rfl

theorem unique_filter {s : Store} (h : Unique s) (keep : FileRow → Bool) :
    Unique { s with files := s.files.filter keep } where
  ids := List.Nodup.sublist (List.filter_sublist.map FileRow.id) h.ids
  paths := fun r hr r' hr' => h.paths r (List.mem_filter.mp hr).1 r' (List.mem_filter.mp hr').1
  links := fun r hr r' hr' => h.links r (List.mem_filter.mp hr).1 r' (List.mem_filter.mp hr').1

/-- The calls that do not write files leave the rows alone. -/
theorem SessionCall.step_files (s : Store) {c : SessionCall} (hc : c.writesFiles = false) :
    (c.step s).files = s.files := by
  unfold SessionCall.step SessionCall.run
  cases c with
  | begin roots id now =>
    dsimp only
    rw [Tx.commit_discard, commit_beginScanSessionTx]
    cases hbegin : beginScanSession roots id now s with
    | error e => rfl
    | ok s' =>
      dsimp only
      split
      · rfl
      · rw [(beginScanSession_ok hbegin).1]
  | ingest ctx => cases hc
  | finish session now => cases hc
  | cancel session now => rfl
  | heartbeat session now => rfl

theorem unique_congr {s s' : Store} (h : Unique s) (hfiles : s'.files = s.files) : Unique s' := by
  constructor <;> rw [hfiles]
  · exact h.ids
  · exact h.paths
  · exact h.links

theorem Effect.of_files {s s' : Store} (h : Unique s) (hfiles : s'.files = s.files) :
    Effect cuts orphans s s' := by
  refine ⟨?_, unique_congr h hfiles⟩
  rw [hfiles]

/-- An operation whose result the unique columns are checked on. -/
theorem keeping_effect {s : Store} {since : Uuid → Option Time} (hu : Unique l.store)
    (hsteps : Unique s → TableSteps cuts orphans l.store.files s.files) :
    Effect cuts orphans l.store (l.keeping s since).store := by
  rcases keeping_cases l s since with ⟨heq, hs⟩ | heq
  · rw [heq]
    exact ⟨hsteps hs, hs⟩
  · rw [heq]
    exact .unchanged hu

theorem sessionCall_effect (hu : Unique l.store) {c : SessionCall}
    (horphan : orphans ∨ ¬ LibraryOp.Orphans l (.session c)) :
    Effect cuts orphans l.store (l.sessionCall c).store := by
  unfold sessionCall
  cases c with
  | ingest ctx =>
    dsimp only
    cases hingest : ingestDiscoveredFile ctx l.store with
    | error e => exact .unchanged hu
    | ok result =>
      exact keeping_effect hu fun hs => ingest_steps hu.ids hs.ids hingest horphan
  | finish session now =>
    dsimp only
    cases hfinish : finishScanSession session now l.store with
    | error e => exact .unchanged hu
    | ok result => exact keeping_effect hu fun _ => finish_steps hfinish
  | begin roots id now => exact .of_files hu (SessionCall.step_files _ rfl)
  | cancel session now => exact .of_files hu (SessionCall.step_files _ rfl)
  | heartbeat session now => exact .of_files hu (SessionCall.step_files _ rfl)

theorem upsertFile_effect (hu : Unique l.store) (file : MediaFile) (now : Time) :
    Effect cuts orphans l.store (l.upsertFile file now).store := by
  unfold Library.upsertFile
  cases hupsert : Storage.upsertFile file now l.store with
  | error e => exact .unchanged hu
  | ok s => exact keeping_effect hu fun _ => upsertFile_steps hu.ids hupsert

theorem recordPostExecution_effect (hu : Unique l.store) (newPath : Option Path)
    (newExpectedHash : Option Hash) (transition : FileTransition) (idTaken : Bool) :
    Effect cuts orphans l.store
      ((recordPostExecutionTx newPath newExpectedHash transition idTaken).commit l).2.store := by
  rw [commit_recordPostExecutionTx]
  cases hrecord : Storage.recordPostExecution newPath newExpectedHash transition l.store with
  | error e => exact .unchanged hu
  | ok s =>
    obtain ⟨s₁, hrename, hexpect⟩ := record_cases hrecord
    have hrenamed : Effect cuts orphans l.store s₁ := by
      rcases hrename with rfl | ⟨path, hfree, rfl⟩
      · exact .unchanged hu
      · exact ⟨.single (.modify fun _ _ _ => .of_path rfl rfl nofun), unique_rename hu hfree⟩
    have hexpected : Effect cuts orphans s₁ s := by
      rcases hexpect with rfl | ⟨hash, -, rfl⟩
      · exact .of_files hrenamed.unique rfl
      · have hu₁ : Unique (s₁.addTransition transition) := unique_congr hrenamed.unique rfl
        refine ⟨.single (.modify fun r _ _ => ⟨rfl, rfl, fun h => ⟨h, fun h => h⟩⟩), ?_⟩
        exact unique_modify hu₁ (fun _ => rfl) (fun _ => rfl) fun _ => rfl
    cases idTaken with
    | true => exact .unchanged hu
    | false => exact hrenamed.trans hexpected

theorem markMissing_effect (hu : Unique l.store) (id : Uuid) (now : Time) :
    Effect cuts orphans l.store (l.markMissing id now).store := by
  refine ⟨.single (.modify fun r _ _ => ?_), unique_modify hu ?_ ?_ ?_⟩
  · split
    · exact ⟨rfl, rfl, fun h => ⟨h, fun _ => rfl⟩⟩
    · exact .refl r
  all_goals
    intro r
    split <;> rfl

theorem purgeMissing_effect (hu : Unique l.store) {olderThan : Time}
    (hcut : cuts ∨ ¬ CutsLink olderThan l) :
    Effect cuts orphans l.store (l.purgeMissing olderThan).store := by
  unfold purgeMissing
  dsimp only
  split
  · exact .of_files hu rfl
  · refine ⟨.single (.delete _ (hcut.imp_right fun hno r hr hkeep r' hr' hgone hlink => ?_)),
      unique_congr (unique_filter hu _) rfl⟩
    exact hno ⟨r, hr, by simpa using hkeep, r', hr', by simpa using hgone, hlink⟩

/-- Every operation, by the steps it takes. -/
theorem LibraryOp.effect (hu : Unique l.store) (op : LibraryOp) (hcut : cuts ∨ ¬ op.Cuts l)
    (horphan : orphans ∨ ¬ op.Orphans l) :
    Effect cuts orphans l.store (LibraryOp.step l op).store := by
  cases op with
  | session call => exact sessionCall_effect hu horphan
  | upsertFile file now => exact upsertFile_effect hu file now
  | fileIntrospected file now =>
    change Effect cuts orphans l.store (l.fileIntrospected file now).store
    unfold Library.fileIntrospected
    cases Storage.upsertFile file now l.store with
    | error e => exact .unchanged hu
    | ok s => exact upsertFile_effect hu file now
  | upsertBadFile path =>
    change Effect cuts orphans l.store (l.upsertBadFile path).store
    unfold Library.upsertBadFile
    split <;> exact .unchanged hu
  | recordPostExecution newPath newExpectedHash transition idTaken =>
    exact recordPostExecution_effect hu newPath newExpectedHash transition idTaken
  | markMissing id now => exact markMissing_effect hu id now
  | reactivateFile id newPath =>
    exact keeping_effect hu fun _ => .single (.modify fun _ _ _ => .of_path rfl rfl nofun)
  | purgeMissing olderThan => exact purgeMissing_effect hu hcut

end Operations

/-! ## Every history -/

section Histories

open Library

/-- What no history breaks. -/
structure ChainInvariant (l : Library) : Prop where
  unique : Unique l.store
  forward : Forward l.store.files
  missing : NullPathMissing l.store.files

theorem ChainInvariant.step {l : Library} (h : ChainInvariant l) (op : LibraryOp) :
    ChainInvariant (LibraryOp.step l op) := by
  have heffect := op.effect h.unique (.inl trivial) (.inl trivial)
  exact ⟨heffect.unique, heffect.steps.keeps TableStep.forward h.forward,
    heffect.steps.keeps TableStep.nullPathMissing h.missing⟩

theorem ChainInvariant.empty : ChainInvariant {} where
  unique := ⟨List.nodup_nil, nofun, nofun⟩
  forward := .nil
  missing := nofun

theorem chainInvariant_run (ops : List LibraryOp) : ChainInvariant (runLibrary ops) := by
  have hrun : Along LibraryOp.step (fun _ _ => True) ({} : Library) ops := by
    generalize ({} : Library) = l
    induction ops generalizing l with
    | nil => trivial
    | cons op ops ih => exact ⟨trivial, ih _⟩
  exact Along.invariant (fun l op h _ => h.step op) .empty hrun

/-- What the steps of a history keep beside the invariant holds after it. -/
theorem kept_run {P : List FileRow → Prop} {Allowed : Library → LibraryOp → Prop}
    (hempty : P [])
    (hstep : ∀ l op, ChainInvariant l → Allowed l op → P l.store.files →
      P (LibraryOp.step l op).store.files)
    {ops : List LibraryOp} (h : Along LibraryOp.step Allowed {} ops) :
    P (runLibrary ops).store.files := by
  have hrun : ∀ l op, ChainInvariant l ∧ P l.store.files → Allowed l op →
      ChainInvariant (LibraryOp.step l op) ∧ P (LibraryOp.step l op).store.files :=
    fun l op h hop => ⟨h.1.step op, hstep l op h.1 hop h.2⟩
  exact (Along.invariant hrun ⟨.empty, hempty⟩ h).2

/-- A history without a purge that cuts a chain keeps every pointer. -/
theorem linked_run {ops : List LibraryOp}
    (h : Along LibraryOp.step (fun l op => ¬ op.Cuts l) {} ops) :
    Linked (runLibrary ops).store.files := by
  refine kept_run nofun (fun l op hinv hcut hlinked => ?_) h
  exact (op.effect hinv.unique (.inr hcut) (.inl trivial)).steps.keeps TableStep.linked hlinked

/-- A history without a recovery of a successor keeps rows without a path superseded. -/
theorem nullPathSuperseded_run {ops : List LibraryOp}
    (h : Along LibraryOp.step (fun l op => ¬ op.Orphans l) {} ops) :
    NullPathSuperseded (runLibrary ops).store.files := by
  refine kept_run nofun (fun l op hinv horphan hnull => ?_) h
  exact (op.effect hinv.unique (.inl trivial) (.inr horphan)).steps.keeps
    TableStep.nullPathSuperseded hnull

/-- Well-formed chains, in full. -/
structure ChainsWellFormed (rows : List FileRow) : Prop where
  named : Linked rows
  ends : ∀ r ∈ rows, ∃ n, Chain.follow FileRow.id FileRow.supersededBy rows n r = none
  single : ∀ r ∈ rows, ∀ r' ∈ rows, ∀ id, r.supersededBy = some id → r'.supersededBy = some id →
    r = r'
  nullPath : ∀ r ∈ rows, r.path = none → r.status = .missing ∧ r.supersededBy ≠ none

/-- The chains after a history: they end, no row has two predecessors, and a
row without a path is missing. The other two parts hold up to the operations
that give them up. -/
structure ChainsKept (ops : List LibraryOp) (rows : List FileRow) : Prop where
  ends : ∀ r ∈ rows, ∃ n, Chain.follow FileRow.id FileRow.supersededBy rows n r = none
  single : ∀ r ∈ rows, ∀ r' ∈ rows, ∀ id, r.supersededBy = some id → r'.supersededBy = some id →
    r = r'
  missing : NullPathMissing rows
  named : Along LibraryOp.step (fun l op => ¬ op.Cuts l) {} ops → Linked rows
  superseded : Along LibraryOp.step (fun l op => ¬ op.Orphans l) {} ops → NullPathSuperseded rows

theorem supersession_chains (ops : List LibraryOp) :
    ChainsKept ops (runLibrary ops).store.files := by
  have hinv := chainInvariant_run ops
  refine ⟨fun r hr => ⟨_, hinv.forward.follow_ends hr⟩, ?_, hinv.missing, linked_run,
    nullPathSuperseded_run⟩
  intro r hr r' hr' id hlink hlink'
  refine hinv.unique.links r hr r' hr' (hlink.trans hlink'.symm) ?_
  rw [hlink]
  exact nofun

end Histories

/-! ## Chains that break -/

namespace BrokenChain

def root : Path := ⟨["r"]⟩

/-- A scan of one file, with the way its session ends. -/
def scan (session : SessionId) (start : Time) (contentHash : Hash) (newId : Uuid)
    (ending : SessionId → Time → SessionCall) : List LibraryOp :=
  [.session (.begin [root] session start),
   .session (.ingest ⟨start + 1, session, ⟨⟨["r", "a"]⟩, 5, contentHash⟩, newId⟩),
   .session (ending session (start + 2))]

/-- A change from outside seen by a scan that is cancelled, and seen again. -/
def stubRecovered : List LibraryOp :=
  scan 1 0 "x" 10 .finish ++ scan 2 10 "y" 11 .cancel ++ scan 3 20 "y" 12 .finish

/-- A superseded row that is reactivated, then outlives its successor. -/
def successorPurged : List LibraryOp :=
  scan 1 0 "x" 10 .finish ++ scan 2 10 "y" 11 .finish ++
    [.reactivateFile 10 ⟨["r", "b"]⟩, .markMissing 11 100, .markMissing 10 200, .purgeMissing 150]

/-- The recovery leaves a row without a path and without a successor, the purge
a pointer to a row that is gone. -/
theorem chains_break :
    ¬ ChainsWellFormed (runLibrary stubRecovered).store.files ∧
      ¬ ChainsWellFormed (runLibrary successorPurged).store.files := by
  have hnull : ∃ r ∈ (runLibrary stubRecovered).store.files,
      r.path = none ∧ r.supersededBy = none := by decide
  have hdangling : ∃ r ∈ (runLibrary successorPurged).store.files,
      r.supersededBy = some 11 ∧ ∀ r' ∈ (runLibrary successorPurged).store.files, r'.id ≠ 11 := by
    decide
  constructor
  · intro h
    obtain ⟨r, hr, hpath, hlink⟩ := hnull
    exact (h.nullPath r hr hpath).2 hlink
  · intro h
    obtain ⟨r, hr, hlink, hgone⟩ := hdangling
    obtain ⟨r', hr', hid⟩ := h.named r hr 11 hlink
    exact hgone r' hr' hid

end BrokenChain

end Voom.Storage

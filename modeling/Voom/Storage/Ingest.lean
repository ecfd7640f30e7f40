-- SUMMARY: What one ingest can do to the files table, and that it keeps the constraints of the schema.
import Voom.Storage.Scan

/-!
# Ingests

Every ingest repeats a path, keeps or supersedes the row at its path, or takes
the no-row path after the path has been vacated (`ingest_cases`). Recovering a
stub is stripping a row and everything that refers to it.
-/

namespace Voom.Storage

open Lib

/-! ## Stripping rows -/

/-- Clear a supersession pointer to one of the given rows. -/
def clearLink (X : List Uuid) (r : FileRow) : FileRow :=
  if ∃ x ∈ X, r.supersededBy = some x then { r with supersededBy := none } else r

/-- The store without the given rows, their transitions and the pointers to
them, and with other sessions. -/
def strip (X : List Uuid) (sessions : List ScanSession) (s : Store) : Store :=
  { s with files := (s.files.filter fun r => r.id ∉ X).map (clearLink X)
           transitions := s.transitions.filter fun t => t.fileId ∉ X
           sessions }

section ClearLink

variable {X : List Uuid} {r : FileRow}

@[simp] theorem clearLink_id : (clearLink X r).id = r.id := by
  unfold clearLink
  split <;> rfl

@[simp] theorem clearLink_path : (clearLink X r).path = r.path := by
  unfold clearLink
  split <;> rfl

@[simp] theorem clearLink_status : (clearLink X r).status = r.status := by
  unfold clearLink
  split <;> rfl

@[simp] theorem clearLink_expectedHash : (clearLink X r).expectedHash = r.expectedHash := by
  unfold clearLink
  split <;> rfl

@[simp] theorem clearLink_size : (clearLink X r).size = r.size := by
  unfold clearLink
  split <;> rfl

@[simp] theorem clearLink_lastSeenSession :
    (clearLink X r).lastSeenSession = r.lastSeenSession := by
  unfold clearLink
  split <;> rfl

theorem clearLink_of_none (h : ∀ x ∈ X, r.supersededBy ≠ some x) : clearLink X r = r := by
  unfold clearLink
  rw [if_neg]
  rintro ⟨x, hx, hr⟩
  exact h x hx hr

/-- Clearing more links afterwards is clearing all of them. -/
theorem clearLink_clearLink (X Y : List Uuid) (r : FileRow) :
    clearLink X (clearLink Y r) = clearLink (X ++ Y) r := by
  unfold clearLink
  by_cases hY : ∃ y ∈ Y, r.supersededBy = some y
  · have hXY : ∃ x ∈ X ++ Y, r.supersededBy = some x := by
      obtain ⟨y, hy, hr⟩ := hY
      exact ⟨y, List.mem_append_right _ hy, hr⟩
    rw [if_pos hY, if_pos hXY, if_neg]
    rintro ⟨x, -, hx⟩
    cases hx
  · have hXY : (∃ x ∈ X ++ Y, r.supersededBy = some x) ↔ ∃ x ∈ X, r.supersededBy = some x := by
      constructor
      · rintro ⟨x, hx, hr⟩
        rcases List.mem_append.mp hx with hx | hx
        · exact ⟨x, hx, hr⟩
        · exact absurd ⟨x, hx, hr⟩ hY
      · rintro ⟨x, hx, hr⟩
        exact ⟨x, List.mem_append_left _ hx, hr⟩
    rw [if_neg hY]
    simp only [hXY]

theorem clearLink_congr {X Y : List Uuid} (h : ∀ x, x ∈ X ↔ x ∈ Y) (r : FileRow) :
    clearLink X r = clearLink Y r := by
  unfold clearLink
  simp only [h]

/-- A change that does not look at the supersession commutes with clearing. -/
theorem clearLink_comm {f : FileRow → FileRow} (hkeep : ∀ r, (f r).supersededBy = r.supersededBy)
    (hset : ∀ r, f { r with supersededBy := none } = { f r with supersededBy := none })
    (r : FileRow) : clearLink X (f r) = f (clearLink X r) := by
  unfold clearLink
  rw [hkeep]
  split
  · rw [hset]
  · rfl

end ClearLink

section Strip

variable {X Y : List Uuid} {ss : List ScanSession} {s : Store}

theorem mem_strip {r : FileRow} :
    r ∈ (strip X ss s).files ↔ ∃ r₀ ∈ s.files, r₀.id ∉ X ∧ clearLink X r₀ = r := by
  simp only [strip, List.mem_map, List.mem_filter, decide_eq_true_eq, and_assoc]

/-- Stripping twice is stripping both sets. -/
theorem strip_strip (ss' : List ScanSession) (s : Store) :
    strip X ss (strip Y ss' s) = strip (X ++ Y) ss s := by
  have hfiles : (strip X ss (strip Y ss' s)).files = (strip (X ++ Y) ss s).files := by
    simp only [strip, List.filter_map, List.map_map, List.filter_filter]
    have hp : (fun r : FileRow => ((fun r => decide (r.id ∉ X)) ∘ clearLink Y) r && decide (r.id ∉ Y)) =
        fun r => decide (r.id ∉ X ++ Y) := by
      funext r
      simp [Function.comp, not_or]
    rw [hp]
    exact List.map_congr_left fun r _ => clearLink_clearLink X Y r
  have htrans : (strip X ss (strip Y ss' s)).transitions = (strip (X ++ Y) ss s).transitions := by
    simp only [strip, List.filter_filter]
    congr 1
    funext t
    simp [not_or]
  unfold strip at *
  simp only [Store.mk.injEq, and_self, and_true]
  exact ⟨hfiles, htrans⟩

theorem strip_congr (h : ∀ x, x ∈ X ↔ x ∈ Y) (s : Store) : strip X ss s = strip Y ss s := by
  unfold strip
  have hclear : clearLink X = clearLink Y := funext (clearLink_congr h)
  simp only [h, hclear]

/-- Nothing is stripped where nothing mentions the rows. -/
theorem strip_of_unmentioned (hrows : ∀ r ∈ s.files, r.id ∉ X ∧ ∀ x ∈ X, r.supersededBy ≠ some x)
    (htrans : ∀ t ∈ s.transitions, t.fileId ∉ X) :
    strip X ss s = { s with sessions := ss } := by
  have hfilter : (s.files.filter fun r => r.id ∉ X) = s.files := by
    refine List.filter_eq_self.mpr fun r hr => ?_
    simpa using (hrows r hr).1
  have hmap : s.files.map (clearLink X) = s.files := by
    conv_rhs => rw [← List.map_id s.files]
    exact List.map_congr_left fun r hr => clearLink_of_none (hrows r hr).2
  have htransitions : (s.transitions.filter fun t => t.fileId ∉ X) = s.transitions := by
    refine List.filter_eq_self.mpr fun t ht => ?_
    simpa using htrans t ht
  simp only [strip, hfilter, hmap, htransitions]

/-- Stripping commutes with a change of a row that stays. -/
theorem strip_modifyFile {id : Uuid} {f : FileRow → FileRow} (hid : ∀ r, (f r).id = r.id)
    (hclear : ∀ r, clearLink X (f r) = f (clearLink X r)) (s : Store) :
    strip X ss (s.modifyFile id f) = (strip X ss s).modifyFile id f := by
  have hfiles : (strip X ss (s.modifyFile id f)).files =
      ((strip X ss s).modifyFile id f).files := by
    simp only [strip, Store.modifyFile, Table.modify, List.filter_map, List.map_map]
    have hp : ((fun r : FileRow => decide (r.id ∉ X)) ∘ fun r => if r.id = id then f r else r) =
        fun r => decide (r.id ∉ X) := by
      funext r
      simp only [Function.comp]
      split
      · rw [hid]
      · rfl
    rw [hp]
    refine List.map_congr_left fun r _ => ?_
    simp only [Function.comp, clearLink_id]
    split
    · exact hclear r
    · rfl
  unfold strip Store.modifyFile at *
  simp only [Store.mk.injEq, and_self, and_true]
  exact hfiles

theorem strip_addTransition {t : FileTransition} (ht : t.fileId ∉ X) (s : Store) :
    strip X ss (s.addTransition t) = (strip X ss s).addTransition t := by
  simp [strip, Store.addTransition, List.filter_append, ht]

theorem strip_insertActiveFile {ctx : IngestCtx} (hid : ctx.newId ∉ X) (s : Store) :
    strip X ss (insertActiveFile ctx s) = insertActiveFile ctx (strip X ss s) := by
  simp [strip, insertActiveFile, List.filter_append, hid, clearLink]

end Strip

/-! ## Well-formed tables -/

theorem fileAt_of_mem {s : Store} (hwf : s.WellFormed) {r : FileRow} {p : Path} (hr : r ∈ s.files)
    (hp : r.path = some p) : s.fileAt p = some r := by
  cases hat : s.fileAt p with
  | none => exact absurd hp (fileAt_none hat r hr)
  | some r' =>
    obtain ⟨hr', hp'⟩ := fileAt_some hat
    rw [hwf.paths r' hr' r hr (hp'.trans hp.symm) (by simp [hp'])]

theorem strip_wellFormed {X : List Uuid} {ss : List ScanSession} {s : Store} (hwf : s.WellFormed)
    (hout : ∀ x ∈ X, x ∉ s.transcodeOutcomes) : (strip X ss s).WellFormed where
  ids := by
    have hids : (strip X ss s).files.map FileRow.id =
        (s.files.filter fun r => r.id ∉ X).map FileRow.id := by
      simp only [strip, List.map_map]
      exact List.map_congr_left fun r _ => clearLink_id
    unfold Table.Keyed
    rw [hids]
    exact List.Nodup.sublist (List.filter_sublist.map _) hwf.ids
  paths := by
    intro x hx y hy hp hsome
    obtain ⟨r, hr, -, rfl⟩ := mem_strip.mp hx
    obtain ⟨r', hr', -, rfl⟩ := mem_strip.mp hy
    rw [clearLink_path, clearLink_path] at hp
    rw [clearLink_path] at hsome
    rw [hwf.paths r hr r' hr' hp hsome]
  outcomes := by
    intro id hid
    obtain ⟨r, hr, rfl⟩ := hwf.outcomes id hid
    exact ⟨_, mem_strip.mpr ⟨r, hr, fun hx => hout _ hx hid, rfl⟩, clearLink_id⟩

/-- A recovery that succeeds strips the row. -/
theorem recoverStub_eq (s : Store) (id : Uuid) :
    recoverStub s id =
      if s.transcodeOutcomes.contains id ∧ s.files.any (·.id = id) then
        .error (.storage .constraintViolation
          ("failed to delete stub file row" ++ ": FOREIGN KEY constraint failed"))
      else .ok (strip [id] s.sessions s) := by
  have hfiles : (s.files.map fun r =>
      if r.supersededBy = some id then { r with supersededBy := none } else r) =
      s.files.map (clearLink [id]) := by
    refine List.map_congr_left fun r _ => ?_
    simp [clearLink]
  have hany : (s.files.map (clearLink [id])).any (·.id = id) = s.files.any (·.id = id) := by
    rw [List.any_map]
    congr 1
    funext r
    simp
  unfold recoverStub Store.deleteFile Store.deleteTransitions
  simp only [hfiles, hany]
  split
  · rfl
  · simp [strip, Table.delete, List.filter_map, Function.comp_def]

/-! ## What an ingest can do -/

section Cases

variable {ctx : IngestCtx} {s s' : Store} {decision : IngestDecision}

/-- The path of an ingest is free, or was freed by a recovery. -/
inductive Vacated (ctx : IngestCtx) (s : Store) : Store → Prop where
  | free (hat : s.fileAt ctx.file.path = none) : Vacated ctx s s
  | recovered (e : FileRow) (hat : s.fileAt ctx.file.path = some e)
      (hlast : e.lastSeenSession ≠ some ctx.session)
      (hout : ¬ (s.transcodeOutcomes.contains e.id ∧ s.files.any (·.id = e.id))) :
      Vacated ctx s (strip [e.id] s.sessions s)

theorem ingest_cases (h : ingestDiscoveredFile ctx s = .ok (s', decision)) :
    (s' = s ∧ ∃ e, s.fileAt ctx.file.path = some e ∧ e.lastSeenSession = some ctx.session) ∨
      (∃ base, Vacated ctx s base ∧ s' = (ingestNoRow ctx base).1 ∧
        decision = (ingestNoRow ctx base).2) ∨
      ∃ e, s.fileAt ctx.file.path = some e ∧ e.lastSeenSession ≠ some ctx.session ∧
        priorSessionNeedsRecovery s e.lastSeenSession = false ∧
        ((s' = ingestUnchanged ctx e s ∧ decision = .unchanged e.id ∧
            (e.expectedHash = none ∨ e.expectedHash = some ctx.file.contentHash)) ∨
          (s' = ingestExternallyChanged ctx e s ∧
            decision = .externallyChanged ctx.newId e.id)) := by
  unfold ingestDiscoveredFile at h
  split at h
  · cases h
  split at h
  · rename_i hat
    exact .inr (.inl ⟨s, .free hat, (congrArg Prod.fst (Except.ok.inj h)).symm,
      (congrArg Prod.snd (Except.ok.inj h)).symm⟩)
  · rename_i e hat
    by_cases hlast : e.lastSeenSession = some ctx.session
    · rw [if_pos hlast] at h
      cases h
      exact .inl ⟨rfl, e, hat, hlast⟩
    rw [if_neg hlast] at h
    by_cases hprior : priorSessionNeedsRecovery s e.lastSeenSession = true
    · rw [if_pos hprior, recoverStub_eq] at h
      by_cases hout : s.transcodeOutcomes.contains e.id ∧ s.files.any (·.id = e.id)
      · rw [if_pos hout] at h
        cases h
      · rw [if_neg hout] at h
        exact .inr (.inl ⟨_, .recovered e hat hlast hout,
          (congrArg Prod.fst (Except.ok.inj h)).symm, (congrArg Prod.snd (Except.ok.inj h)).symm⟩)
    rw [if_neg hprior] at h
    have hprior' := Bool.eq_false_iff.mpr hprior
    split at h
    · rename_i hhash
      cases h
      exact .inr (.inr ⟨e, hat, hlast, hprior', .inl ⟨rfl, rfl, hhash⟩⟩)
    · cases h
      exact .inr (.inr ⟨e, hat, hlast, hprior', .inr ⟨rfl, rfl⟩⟩)

theorem Vacated.sessions {base : Store} (h : Vacated ctx s base) : base.sessions = s.sessions := by
  cases h <;> rfl

/-- No row stands at a vacated path. -/
theorem Vacated.free_path {base : Store} (h : Vacated ctx s base) (hwf : s.WellFormed) :
    ∀ r ∈ base.files, r.path ≠ some ctx.file.path := by
  cases h with
  | free hat => exact fileAt_none hat
  | recovered e hat hlast hout =>
    intro r hr hp
    obtain ⟨he, hep⟩ := fileAt_some hat
    obtain ⟨r₀, hr₀, hid, rfl⟩ := mem_strip.mp hr
    rw [clearLink_path] at hp
    rw [hwf.paths r₀ hr₀ e he (hp.trans hep.symm) (by simp [hp])] at hid
    simp at hid

theorem Vacated.wellFormed {base : Store} (h : Vacated ctx s base) (hwf : s.WellFormed) :
    base.WellFormed := by
  cases h with
  | free _ => exact hwf
  | recovered e hat hlast hout =>
    refine strip_wellFormed hwf ?_
    intro x hx hmem
    rw [List.mem_singleton] at hx
    subst hx
    refine hout ⟨by simpa using hmem, ?_⟩
    simpa using ⟨e, (fileAt_some hat).1, rfl⟩

/-- The rows of a vacated table are old ones, with links cleared. -/
theorem Vacated.mem {base : Store} (h : Vacated ctx s base) {r : FileRow} (hr : r ∈ base.files) :
    ∃ r₀ ∈ s.files, r.id = r₀.id ∧ r.lastSeenSession = r₀.lastSeenSession := by
  cases h with
  | free _ => exact ⟨r, hr, rfl, rfl⟩
  | recovered e hat hlast hout =>
    obtain ⟨r₀, hr₀, -, rfl⟩ := mem_strip.mp hr
    exact ⟨r₀, hr₀, clearLink_id, clearLink_lastSeenSession⟩

/-- A change of one row keeps the constraints, if its new path is its own. -/
theorem modifyFile_wellFormed (hwf : s.WellFormed) {e : FileRow} (he : e ∈ s.files)
    {f : FileRow → FileRow} (hid : ∀ r, (f r).id = r.id)
    (hpath : ∀ r ∈ s.files, r ≠ e → r.path = (f e).path → r.path = none) :
    (s.modifyFile e.id f).WellFormed where
  ids := hwf.ids.modify fun r _ _ => hid r
  paths := by
    have hrow : ∀ x ∈ (s.modifyFile e.id f).files, x = f e ∨ (x ∈ s.files ∧ x ≠ e) := by
      intro x hx
      obtain ⟨r, hr, rfl⟩ := Table.mem_modify.mp hx
      split
      · rename_i hk
        rw [hwf.ids.eq_of_key hr he hk]
        exact .inl rfl
      · rename_i hk
        exact .inr ⟨hr, fun heq => hk (congrArg FileRow.id heq)⟩
    intro x hx y hy hp hsome
    rcases hrow x hx with rfl | ⟨hx', hxe⟩
    · rcases hrow y hy with rfl | ⟨hy', hye⟩
      · rfl
      · rw [hp, hpath y hy' hye hp.symm] at hsome
        cases hsome
    · rcases hrow y hy with rfl | ⟨hy', hye⟩
      · rw [hpath x hx' hxe hp] at hsome
        cases hsome
      · exact hwf.paths x hx' y hy' hp hsome
  outcomes := by
    intro id hmem
    obtain ⟨r, hr, rfl⟩ := hwf.outcomes id hmem
    by_cases hk : r.id = e.id
    · exact ⟨_, Table.mem_modify_self hr hk, hid r⟩
    · exact ⟨r, Table.mem_modify_of_ne hr hk, rfl⟩

theorem insertActiveFile_wellFormed (hwf : s.WellFormed)
    (hfree : ∀ r ∈ s.files, r.path ≠ some ctx.file.path) (hid : ∀ r ∈ s.files, r.id ≠ ctx.newId) :
    (insertActiveFile ctx s).WellFormed where
  ids := hwf.ids.append hid
  paths := by
    intro x hx y hy hp hsome
    simp only [insertActiveFile, List.mem_append, List.mem_singleton] at hx hy
    rcases hx with hx | rfl
    · rcases hy with hy | rfl
      · exact hwf.paths x hx y hy hp hsome
      · exact absurd hp (hfree x hx)
    · rcases hy with hy | rfl
      · exact absurd hp.symm (hfree y hy)
      · rfl
  outcomes := by
    intro id hmem
    obtain ⟨r, hr, rfl⟩ := hwf.outcomes id hmem
    exact ⟨r, List.mem_append_left _ hr, rfl⟩

theorem addTransition_wellFormed (hwf : s.WellFormed) (t : FileTransition) :
    (s.addTransition t).WellFormed :=
  ⟨hwf.ids, hwf.paths, hwf.outcomes⟩

/-- A move or a new row: the two ways out of the no-row path. -/
theorem ingestNoRow_cases (ctx : IngestCtx) (s : Store) :
    (∃ r p, findMoveCandidate s ctx.session ctx.file.contentHash = some (r, p) ∧
      ingestNoRow ctx s = (ingestMoved ctx r p s, .moved r.id p)) ∨
    (findMoveCandidate s ctx.session ctx.file.contentHash = none ∧
      ingestNoRow ctx s = (ingestNew ctx s, .new ctx.newId true)) := by
  unfold ingestNoRow
  cases hmove : findMoveCandidate s ctx.session ctx.file.contentHash with
  | none => exact .inr ⟨rfl, rfl⟩
  | some candidate =>
    obtain ⟨r, p⟩ := candidate
    exact .inl ⟨r, p, rfl, rfl⟩

/-- Step: an ingest keeps the constraints of the schema. -/
theorem ingest_wellFormed (hwf : s.WellFormed) (hid : ∀ r ∈ s.files, r.id ≠ ctx.newId)
    (h : ingestDiscoveredFile ctx s = .ok (s', decision)) : s'.WellFormed := by
  rcases ingest_cases h with ⟨rfl, -⟩ | ⟨base, hbase, rfl, -⟩ | ⟨e, hat, -, -, ⟨rfl, -⟩ | ⟨rfl, -⟩⟩
  · exact hwf
  · have hfree := hbase.free_path hwf
    have hwf' := hbase.wellFormed hwf
    rcases ingestNoRow_cases ctx base with ⟨r, p, hmove, heq⟩ | ⟨-, heq⟩
    · obtain ⟨hr, -⟩ := findMoveCandidate_some hmove
      rw [heq]
      unfold ingestMoved
      apply addTransition_wellFormed
      apply modifyFile_wellFormed hwf' hr
      · exact fun _ => rfl
      · exact fun r' hr' _ hp => absurd hp (hfree r' hr')
    · rw [heq]
      refine addTransition_wellFormed (insertActiveFile_wellFormed hwf' hfree ?_) _
      intro r hr
      obtain ⟨r₀, hr₀, hids, -⟩ := hbase.mem hr
      rw [hids]
      exact hid r₀ hr₀
  · obtain ⟨he, hep⟩ := fileAt_some hat
    refine modifyFile_wellFormed hwf he (fun _ => rfl) fun r hr hne hp => ?_
    cases hrp : r.path with
    | none => rfl
    | some _ => exact absurd (hwf.paths r hr e he hp (by simp [hrp])) hne
  · obtain ⟨he, hep⟩ := fileAt_some hat
    refine addTransition_wellFormed (insertActiveFile_wellFormed ?_ ?_ ?_) _
    · exact modifyFile_wellFormed (addTransition_wellFormed hwf _) he (fun _ => rfl)
        fun r _ _ hp => hp
    · intro x hx hp
      obtain ⟨r, hr, rfl⟩ := Table.mem_modify.mp hx
      split at hp
      · cases hp
      · rename_i hk
        refine hk (congrArg FileRow.id (hwf.paths r hr e he (hp.trans hep.symm) (by simp [hp])))
    · intro x hx
      obtain ⟨r, hr, rfl⟩ := Table.mem_modify.mp hx
      split <;> exact hid r hr

/-- An ingest leaves the sessions alone. -/
theorem ingest_sessions (h : ingestDiscoveredFile ctx s = .ok (s', decision)) :
    s'.sessions = s.sessions := by
  rcases ingest_cases h with ⟨rfl, -⟩ | ⟨base, hbase, rfl, -⟩ | ⟨e, -, -, -, ⟨rfl, -⟩ | ⟨rfl, -⟩⟩
  · rfl
  · rw [← hbase.sessions]
    rcases ingestNoRow_cases ctx base with ⟨r, p, -, heq⟩ | ⟨-, heq⟩ <;> rw [heq] <;> rfl
  · rfl
  · rfl

theorem ingest_outcomes (h : ingestDiscoveredFile ctx s = .ok (s', decision)) :
    s'.transcodeOutcomes = s.transcodeOutcomes := by
  rcases ingest_cases h with ⟨rfl, -⟩ | ⟨base, hbase, rfl, -⟩ | ⟨e, -, -, -, ⟨rfl, -⟩ | ⟨rfl, -⟩⟩
  · rfl
  · have hout : base.transcodeOutcomes = s.transcodeOutcomes := by
      cases hbase <;> rfl
    rw [← hout]
    rcases ingestNoRow_cases ctx base with ⟨r, p, -, heq⟩ | ⟨-, heq⟩ <;> rw [heq] <;> rfl
  · rfl
  · rfl

/-- An active row at another path keeps its path, status and session. -/
theorem ingest_keeps_active (hwf : s.WellFormed)
    (h : ingestDiscoveredFile ctx s = .ok (s', decision)) {r : FileRow} (hr : r ∈ s.files)
    (hactive : r.status = .active) (hpath : r.path ≠ some ctx.file.path) :
    ∃ r' ∈ s'.files, r'.id = r.id ∧ r'.path = r.path ∧ r'.status = .active ∧
      r'.lastSeenSession = r.lastSeenSession := by
  have hother : ∀ e, s.fileAt ctx.file.path = some e → r.id ≠ e.id := by
    intro e hat hid
    obtain ⟨he, hep⟩ := fileAt_some hat
    rw [hwf.ids.eq_of_key hr he hid] at hpath
    exact hpath hep
  rcases ingest_cases h with ⟨rfl, -⟩ | ⟨base, hbase, rfl, -⟩ | ⟨e, hat, -, -, ⟨rfl, -⟩ | ⟨rfl, -⟩⟩
  · exact ⟨r, hr, rfl, rfl, hactive, rfl⟩
  · have hold : ∃ r' ∈ base.files, r'.id = r.id ∧ r'.path = r.path ∧ r'.status = .active ∧
        r'.lastSeenSession = r.lastSeenSession := by
      cases hbase with
      | free _ => exact ⟨r, hr, rfl, rfl, hactive, rfl⟩
      | recovered e hat hlast hout =>
        exact ⟨_, mem_strip.mpr ⟨r, hr, by simpa using hother e hat, rfl⟩, clearLink_id,
          clearLink_path, clearLink_status.trans hactive, clearLink_lastSeenSession⟩
    obtain ⟨r', hr', hid, hp, hact, hlast⟩ := hold
    rcases ingestNoRow_cases ctx base with ⟨m, p, hmove, heq⟩ | ⟨-, heq⟩
    · obtain ⟨hm, -, -, hmissing, -⟩ := findMoveCandidate_some hmove
      refine ⟨r', ?_, hid, hp, hact, hlast⟩
      rw [heq]
      refine Table.mem_modify_of_ne hr' fun hk => ?_
      rw [(hbase.wellFormed hwf).ids.eq_of_key hr' hm hk, hmissing] at hact
      cases hact
    · refine ⟨r', ?_, hid, hp, hact, hlast⟩
      rw [heq]
      exact List.mem_append_left _ hr'
  · exact ⟨r, Table.mem_modify_of_ne hr (hother e hat), rfl, rfl, hactive, rfl⟩
  · exact ⟨r, List.mem_append_left _ (Table.mem_modify_of_ne hr (hother e hat)), rfl, rfl,
      hactive, rfl⟩

/-- Where the rows of an ingested table come from. -/
theorem ingest_rows (h : ingestDiscoveredFile ctx s = .ok (s', decision)) {r' : FileRow}
    (hr' : r' ∈ s'.files) :
    (r'.id = ctx.newId ∧ r'.lastSeenSession = some ctx.session) ∨
      ∃ r ∈ s.files, r'.id = r.id ∧
        (r'.lastSeenSession = r.lastSeenSession ∨ r'.lastSeenSession = some ctx.session) := by
  have hmod : ∀ {t : Store} {id : Uuid} {f : FileRow → FileRow}, r' ∈ (t.modifyFile id f).files →
      (∀ r, (f r).id = r.id) → (∀ r, (f r).lastSeenSession = r.lastSeenSession ∨
        (f r).lastSeenSession = some ctx.session) →
      ∃ r ∈ t.files, r'.id = r.id ∧
        (r'.lastSeenSession = r.lastSeenSession ∨ r'.lastSeenSession = some ctx.session) := by
    intro t id f hmem hid hlast
    obtain ⟨r, hr, rfl⟩ := Table.mem_modify.mp hmem
    refine ⟨r, hr, ?_⟩
    split
    · exact ⟨hid r, hlast r⟩
    · exact ⟨rfl, .inl rfl⟩
  have hins : ∀ {t : Store}, r' ∈ (insertActiveFile ctx t).files →
      r' ∈ t.files ∨ (r'.id = ctx.newId ∧ r'.lastSeenSession = some ctx.session) := by
    intro t hmem
    rcases List.mem_append.mp hmem with hmem | hmem
    · exact .inl hmem
    · rw [List.mem_singleton] at hmem
      subst hmem
      exact .inr ⟨rfl, rfl⟩
  rcases ingest_cases h with ⟨rfl, -⟩ | ⟨base, hbase, rfl, -⟩ | ⟨e, -, -, -, ⟨rfl, -⟩ | ⟨rfl, -⟩⟩
  · exact .inr ⟨r', hr', rfl, .inl rfl⟩
  · rcases ingestNoRow_cases ctx base with ⟨m, p, -, heq⟩ | ⟨-, heq⟩
    · rw [heq] at hr'
      obtain ⟨r, hr, hid, hlast⟩ := hmod hr' (fun _ => rfl) (fun _ => .inr rfl)
      obtain ⟨r₀, hr₀, hid₀, hlast₀⟩ := hbase.mem hr
      exact .inr ⟨r₀, hr₀, hid.trans hid₀, hlast.imp_left fun hl => hl.trans hlast₀⟩
    · rw [heq] at hr'
      rcases hins hr' with hr | hnew
      · obtain ⟨r₀, hr₀, hid₀, hlast₀⟩ := hbase.mem hr
        exact .inr ⟨r₀, hr₀, hid₀, .inl hlast₀⟩
      · exact .inl hnew
  · exact .inr (hmod hr' (fun _ => rfl) (fun _ => .inr rfl))
  · rcases hins hr' with hr | hnew
    · exact .inr (hmod hr (fun _ => rfl) (fun _ => .inl rfl))
    · exact .inl hnew

end Cases

end Voom.Storage

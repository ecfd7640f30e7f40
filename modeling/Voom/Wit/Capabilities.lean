-- SUMMARY: The capability strings of plugins, and which of them come back from a second crossing.
import Mathlib.Data.List.DropRight
import Voom.Domain.Capabilities
import Voom.Domain.Events
import Voom.Domain.Text
import Voom.Lib.Outcome

/-!
# Capability strings

A capability crosses the plugin boundary as a kind and its parameters, separated
by colons; lists are separated by commas and their items are trimmed. A list of
one blank item is written like the empty list, and only this list is not read
back.
-/

namespace Voom

/-! ## Splitting texts -/

/-- `split_once`. -/
def splitOnce (sep : Char) (s : String) : Option (String × String) :=
  if sep ∈ s.toList then
    some (String.ofList (s.toList.takeWhile (· ≠ sep)),
      String.ofList (s.toList.dropWhile (· ≠ sep)).tail)
  else none

theorem splitOnce_of_notMem {sep : Char} {s : String} (h : sep ∉ s.toList) :
    splitOnce sep s = none := if_neg h

theorem splitOnce_append {sep : Char} {s : String} (h : sep ∉ s.toList) (t : String) :
    splitOnce sep (s ++ String.ofList [sep] ++ t) = some (s, t) := by
  have hchars : (s ++ String.ofList [sep] ++ t).toList = s.toList ++ sep :: t.toList := by simp
  have hbefore : ∀ c ∈ s.toList, decide (c ≠ sep) = true := fun c hc =>
    decide_eq_true fun heq => h (heq ▸ hc)
  unfold splitOnce
  rw [hchars, if_pos (by simp), List.takeWhile_append_of_pos hbefore,
    List.dropWhile_append_of_pos hbefore]
  simp

/-- `str::split` at a character. -/
def splitText (sep : Char) (s : String) : List String := (s.toList.splitOn sep).map String.ofList

theorem splitText_intercalate {sep : Char} {items : List String} (hne : items ≠ [])
    (h : ∀ s ∈ items, sep ∉ s.toList) :
    splitText sep ((String.ofList [sep]).intercalate items) = items := by
  have hnone : ∀ chars ∈ items.map String.toList, sep ∉ chars := by
    intro chars hmem
    obtain ⟨s, hs, rfl⟩ := List.mem_map.mp hmem
    exact h s hs
  unfold splitText
  rw [String.toList_intercalate, String.toList_ofList,
    List.splitOn_intercalate _ hnone (by simpa using hne), List.map_map]
  simp [Function.comp_def]

theorem notMem_of_mem_splitOn {α : Type} [DecidableEq α] {sep : α} {l chunk : List α}
    (h : chunk ∈ l.splitOn sep) : sep ∉ chunk := by
  induction l generalizing chunk with
  | nil =>
    rw [List.splitOn_nil, List.mem_singleton] at h
    rw [h]
    exact List.not_mem_nil
  | cons a l ih =>
    rw [List.splitOn_cons_eq_if_modifyHead] at h
    split at h
    · obtain rfl | h := List.mem_cons.mp h
      · exact List.not_mem_nil
      · exact ih h
    · rename_i hne
      cases hsplit : l.splitOn sep with
      | nil => exact absurd hsplit (List.splitOn_ne_nil sep l)
      | cons first rest =>
        rw [hsplit] at h ih
        obtain rfl | h := List.mem_cons.mp h
        · rw [List.mem_cons, not_or]
          exact ⟨fun heq => hne (by simp [heq]), ih List.mem_cons_self⟩
        · exact ih (List.mem_cons_of_mem _ h)

theorem notMem_of_mem_splitText {sep : Char} {s t : String} (h : t ∈ splitText sep s) :
    sep ∉ t.toList := by
  obtain ⟨chunk, hchunk, rfl⟩ := List.mem_map.mp h
  rw [String.toList_ofList]
  exact notMem_of_mem_splitOn hchunk

/-! ## Trimming -/

theorem trim_subset (s : String) : (trim s).toList ⊆ s.toList := by
  unfold trim
  rw [String.toList_ofList]
  intro c hc
  rw [List.mem_reverse] at hc
  have hc := List.mem_reverse.mp ((List.dropWhile_sublist _).subset hc)
  exact (List.dropWhile_sublist _).subset hc

theorem trim_trim (s : String) : trim (trim s) = trim s := by
  have hdrop : trim s = String.ofList ((s.toList.dropWhile isWhitespace).rdropWhile isWhitespace) :=
    rfl
  rw [hdrop]
  unfold trim
  rw [String.toList_ofList]
  -- What is left starts like the text without its leading blanks.
  have hstart : ((s.toList.dropWhile isWhitespace).rdropWhile isWhitespace).dropWhile isWhitespace =
      (s.toList.dropWhile isWhitespace).rdropWhile isWhitespace := by
    rw [List.dropWhile_eq_self_iff]
    intro hlength
    have hstarts := List.rdropWhile_prefix isWhitespace (s.toList.dropWhile isWhitespace)
    rw [hstarts.getElem hlength]
    exact List.dropWhile_get_zero_not isWhitespace s.toList (hlength.trans_le hstarts.length_le)
  rw [hstart]
  exact congrArg String.ofList (List.rdropWhile_idempotent isWhitespace _)

/-! ## Kinds of operations and verifications -/

namespace OperationType

def asStr : OperationType → String
  | .setDefault => "set_default"
  | .clearDefault => "clear_default"
  | .setForced => "set_forced"
  | .clearForced => "clear_forced"
  | .setTitle => "set_title"
  | .setLanguage => "set_language"
  | .removeTrack => "remove_track"
  | .reorderTracks => "reorder_tracks"
  | .convertContainer => "convert_container"
  | .transcodeVideo => "transcode_video"
  | .transcodeAudio => "transcode_audio"
  | .synthesizeAudio => "synthesize_audio"
  | .setContainerTag => "set_container_tag"
  | .clearContainerTags => "clear_container_tags"
  | .deleteContainerTag => "delete_container_tag"
  | .muxSubtitle => "mux_subtitle"
  | .verifyMedia => "verify_media"
  | .quarantine => "quarantine"

def parse : String → Option OperationType
  | "set_default" => some .setDefault
  | "clear_default" => some .clearDefault
  | "set_forced" => some .setForced
  | "clear_forced" => some .clearForced
  | "set_title" => some .setTitle
  | "set_language" => some .setLanguage
  | "remove_track" => some .removeTrack
  | "reorder_tracks" => some .reorderTracks
  | "convert_container" => some .convertContainer
  | "transcode_video" => some .transcodeVideo
  | "transcode_audio" => some .transcodeAudio
  | "synthesize_audio" => some .synthesizeAudio
  | "set_container_tag" => some .setContainerTag
  | "clear_container_tags" => some .clearContainerTags
  | "delete_container_tag" => some .deleteContainerTag
  | "mux_subtitle" => some .muxSubtitle
  | "verify_media" => some .verifyMedia
  | "quarantine" => some .quarantine
  | _ => none

@[simp] theorem parse_asStr (op : OperationType) : parse op.asStr = some op := by
  cases op <;> rfl

end OperationType

namespace VerificationMode

def parse : String → Option VerificationMode
  | "quick" => some .quick
  | "thorough" => some .thorough
  | "hash" => some .hash
  | _ => none

@[simp] theorem parse_asStr (mode : VerificationMode) : parse mode.asStr = some mode := by
  cases mode <;> rfl

end VerificationMode

namespace Wit

/-! ## Reading and writing capabilities -/

/-- The items of a list, all parsed. -/
def parseItems {α : Type} (sep : Char) (parse : String → Option α) (unknown : String)
    (params : String) : Except VoomError (List α) :=
  if params = "" then .ok []
  else (splitText sep params).mapM fun value =>
    match parse (trim value) with
    | some item => .ok item
    | none => .error (.wasm (unknown ++ trim value))

def parseExecuteOperations (params : String) : Except VoomError (List OperationType) :=
  parseItems '+' OperationType.parse "unknown execute operation in capability: " params

def parseVerifyModes (params : String) : Except VoomError (List VerificationMode) :=
  parseItems ',' VerificationMode.parse "unknown verify mode in capability: " params

def splitCommaList (s : String) : List String :=
  if s = "" then [] else (splitText ',' s).map trim

def capabilityOfParts (kind params : String) : Except VoomError (Option Capability) :=
  match kind with
  | "discover" => .ok (some (.discover (splitCommaList params)))
  | "introspect" => .ok (some (.introspect (splitCommaList params)))
  | "evaluate_policy" => .ok (some .evaluatePolicy)
  | "execute" =>
    let (opsPart, fmtsPart) := (splitOnce ':' params).getD (params, "")
    (parseExecuteOperations opsPart).map fun operations =>
      some (.execute operations (splitCommaList fmtsPart))
  | "store" => .ok (some (.store params))
  | "detect_tools" => .ok (some .detectTools)
  | "manage_jobs" => .ok (some .manageJobs)
  | "serve_http" => .ok (some .serveHttp)
  | "orchestrate_phases" => .ok (some .orchestratePhases)
  | "backup" => .ok (some .backup)
  | "enrich_metadata" | "enrich-metadata" => .ok (some (.enrichMetadata params))
  | "transcribe" => .ok (some .transcribe)
  | "synthesize" => .ok (some .synthesize)
  | "generate_subtitle" => .ok (some .generateSubtitle)
  | "health_check" => .ok (some .healthCheck)
  | "verify" => (parseVerifyModes params).map fun modes => some (.verify modes)
  | _ => .ok none

/-- The kind of a capability string and its parameters. -/
def capabilityParts (capStr : String) : String × String := (splitOnce ':' capStr).getD (capStr, "")

def capabilityFromWit (capStr : String) : Except VoomError (Option Capability) :=
  capabilityOfParts (capabilityParts capStr).1 (capabilityParts capStr).2

/-- A kind with a list behind it, if it is not empty. -/
def withList (kind sep : String) (items : List String) : String :=
  if items = [] then kind else kind ++ ":" ++ sep.intercalate items

def capabilityToWit : Capability → String
  | .discover schemes => withList "discover" "," schemes
  | .introspect formats => withList "introspect" "," formats
  | .execute operations formats =>
    let ops := "+".intercalate (operations.map OperationType.asStr)
    let fmts := ",".intercalate formats
    if ops = "" ∧ fmts = "" then "execute"
    else if fmts = "" then "execute" ++ ":" ++ ops
    else "execute" ++ ":" ++ (ops ++ ":" ++ fmts)
  | .store backend => "store" ++ ":" ++ backend
  | .enrichMetadata source => "enrich_metadata" ++ ":" ++ source
  | .verify modes => withList "verify" "," (modes.map VerificationMode.asStr)
  | cap => cap.kind

/-! ## Reading back -/

theorem capabilityParts_kind {kind : String} (h : ':' ∉ kind.toList) :
    capabilityParts kind = (kind, "") := by
  unfold capabilityParts
  rw [splitOnce_of_notMem h]
  rfl

theorem capabilityParts_params {kind : String} (h : ':' ∉ kind.toList) (params : String) :
    capabilityParts (kind ++ ":" ++ params) = (kind, params) := by
  unfold capabilityParts
  rw [splitOnce_append h]
  rfl

/-- Joined items are empty when there are none, or only an empty one. -/
theorem intercalate_eq_empty {sep : Char} {items : List String}
    (h : (String.ofList [sep]).intercalate items = "") : items = [] ∨ items = [""] := by
  match items with
  | [] => exact .inl rfl
  | [s] => exact .inr (by simpa using h)
  | s :: t :: rest =>
    have hchars := congrArg String.toList h
    rw [String.toList_intercalate] at hchars
    simp at hchars

theorem notMem_intercalate {c : Char} {sep : String} {items : List String} (hsep : c ∉ sep.toList)
    (hitems : ∀ s ∈ items, c ∉ s.toList) : c ∉ (sep.intercalate items).toList := by
  rw [String.toList_intercalate]
  induction items with
  | nil => exact List.not_mem_nil
  | cons s rest ih =>
    obtain ⟨hs, hrest⟩ := List.forall_mem_cons.mp hitems
    cases rest with
    | nil => simpa using hs
    | cons t rest =>
      have ih := ih hrest
      simp only [List.map_cons, List.intercalate_cons_cons, List.mem_append, not_or] at ih ⊢
      exact ⟨⟨hs, hsep⟩, ih⟩

/-- The lists that are read back. -/
def ListReads (items : List String) : Prop :=
  items ≠ [""] ∧ ∀ s ∈ items, trim s = s ∧ ',' ∉ s.toList

theorem splitCommaList_intercalate {items : List String} (h : ListReads items) :
    splitCommaList (",".intercalate items) = items := by
  obtain ⟨hblank, hitems⟩ := h
  unfold splitCommaList
  split
  · rename_i hempty
    exact ((intercalate_eq_empty hempty).resolve_right hblank).symm
  · rename_i hne
    have hsome : items ≠ [] := by
      rintro rfl
      exact hne rfl
    have hsplit := splitText_intercalate hsome fun s hs => (hitems s hs).2
    rw [show (",".intercalate items) = (String.ofList [',']).intercalate items from rfl, hsplit]
    rw [List.map_congr_left fun s hs => (hitems s hs).1, List.map_id']

/-- What a list was split into is read back unless it is one blank item. -/
theorem listReads_splitCommaList (s : String) :
    ListReads (splitCommaList s) ↔ splitCommaList s ≠ [""] := by
  refine ⟨And.left, fun h => ⟨h, ?_⟩⟩
  unfold splitCommaList
  split
  · exact List.forall_mem_nil _
  · intro t ht
    obtain ⟨part, hpart, rfl⟩ := List.mem_map.mp ht
    exact ⟨trim_trim part, fun hmem => notMem_of_mem_splitText hpart (trim_subset part hmem)⟩

theorem parseItems_intercalate {α : Type} {sep : Char} {parse : String → Option α}
    {asStr : α → String} (hparse : ∀ a, parse (asStr a) = some a)
    (hstr : ∀ a, trim (asStr a) = asStr a ∧ asStr a ≠ "" ∧ sep ∉ (asStr a).toList)
    (unknown : String) (items : List α) :
    parseItems sep parse unknown ((String.ofList [sep]).intercalate (items.map asStr)) =
      .ok items := by
  unfold parseItems
  cases items with
  | nil => rfl
  | cons first rest =>
    have hne : (String.ofList [sep]).intercalate ((first :: rest).map asStr) ≠ "" := by
      intro hempty
      have hone := (intercalate_eq_empty hempty).resolve_left (by simp)
      rw [List.map_cons] at hone
      exact (hstr first).2.1 (List.cons.inj hone).1
    have hsep : ∀ s ∈ (first :: rest).map asStr, sep ∉ s.toList := by
      intro s hs
      obtain ⟨a, -, rfl⟩ := List.mem_map.mp hs
      exact (hstr a).2.2
    rw [if_neg hne, splitText_intercalate (by simp) hsep, List.mapM_map]
    have hround : ∀ a ∈ first :: rest, (match parse (trim (asStr a)) with
        | some item => (.ok item : Except VoomError α)
        | none => .error (.wasm (unknown ++ trim (asStr a)))) = .ok (id a) := by
      intro a _
      rw [(hstr a).1, hparse]
      rfl
    exact (Lib.mapM_eq_ok_map hround).trans (by rw [List.map_id])

theorem parseExecuteOperations_intercalate (operations : List OperationType) :
    parseExecuteOperations ("+".intercalate (operations.map OperationType.asStr)) =
      .ok operations := by
  refine parseItems_intercalate OperationType.parse_asStr (fun op => ?_) _ operations
  cases op <;> decide

theorem parseVerifyModes_intercalate (modes : List VerificationMode) :
    parseVerifyModes (",".intercalate (modes.map VerificationMode.asStr)) = .ok modes := by
  refine parseItems_intercalate VerificationMode.parse_asStr (fun mode => ?_) _ modes
  cases mode <;> decide

/-- A list behind a kind is read back from its joined items. -/
theorem capabilityFromWit_withList {kind : String} (hkind : ':' ∉ kind.toList)
    (items : List String) :
    capabilityFromWit (withList kind "," items) =
      capabilityOfParts kind (",".intercalate items) := by
  unfold capabilityFromWit withList
  split
  · rename_i hnone
    rw [hnone, capabilityParts_kind hkind]
    rfl
  · rw [capabilityParts_params hkind]

theorem capabilityFromWit_params {kind : String} (hkind : ':' ∉ kind.toList) (params : String) :
    capabilityFromWit (kind ++ ":" ++ params) = capabilityOfParts kind params := by
  unfold capabilityFromWit
  rw [capabilityParts_params hkind]

/-- The operations and formats of an execution. -/
theorem capabilityFromWit_execute (operations : List OperationType) (formats : List String) :
    capabilityFromWit (capabilityToWit (.execute operations formats)) =
      .ok (some (.execute operations (splitCommaList (",".intercalate formats)))) := by
  have hops := parseExecuteOperations_intercalate operations
  have hcolon : ':' ∉ ("+".intercalate (operations.map OperationType.asStr)).toList := by
    refine notMem_intercalate (by decide) fun s hs => ?_
    obtain ⟨op, -, rfl⟩ := List.mem_map.mp hs
    cases op <;> decide
  unfold capabilityToWit
  simp only
  split_ifs with hboth hfmts
  · rw [hboth.2]
    rw [hboth.1] at hops
    obtain rfl : [] = operations := Except.ok.inj hops
    rfl
  · rw [capabilityFromWit_params (by decide), hfmts]
    simp only [capabilityOfParts, splitOnce_of_notMem hcolon, Option.getD_none, hops]
    rfl
  · rw [capabilityFromWit_params (by decide)]
    have hsplit := splitOnce_append hcolon (",".intercalate formats)
    rw [show String.ofList [':'] = ":" from rfl] at hsplit
    simp only [capabilityOfParts, hsplit, Option.getD_some, hops]
    rfl

/-- The lists of a capability are read back. -/
def Reads : Capability → Prop
  | .discover items | .introspect items | .execute _ items => ListReads items
  | _ => True

theorem capabilityFromWit_toWit {cap : Capability} (h : Reads cap) :
    capabilityFromWit (capabilityToWit cap) = .ok (some cap) := by
  cases cap with
  | discover schemes =>
    unfold capabilityToWit
    rw [capabilityFromWit_withList (by decide)]
    simp only [capabilityOfParts, splitCommaList_intercalate h]
  | introspect formats =>
    unfold capabilityToWit
    rw [capabilityFromWit_withList (by decide)]
    simp only [capabilityOfParts, splitCommaList_intercalate h]
  | execute operations formats =>
    rw [capabilityFromWit_execute, splitCommaList_intercalate h]
  | store backend => exact capabilityFromWit_params (by decide) backend
  | enrichMetadata source => exact capabilityFromWit_params (by decide) source
  | verify modes =>
    unfold capabilityToWit
    rw [capabilityFromWit_withList (by decide)]
    simp only [capabilityOfParts, parseVerifyModes_intercalate]
    rfl
  | evaluatePolicy | detectTools | manageJobs | serveHttp | orchestratePhases | backup
  | transcribe | synthesize | generateSubtitle | healthCheck => decide

/-- A list that is read back has been split. -/
theorem listReads_of_eq {items : List String} (h : splitCommaList (",".intercalate items) = items) :
    ListReads items := by
  have hne : splitCommaList (",".intercalate items) ≠ [""] := by
    intro hblank
    have hitems : items = [""] := h.symm.trans hblank
    rw [hitems] at hblank
    exact absurd hblank (by decide)
  rw [← h]
  exact (listReads_splitCommaList _).mpr hne

/-- Exactly these capabilities are read back. -/
theorem capabilityFromWit_toWit_iff (cap : Capability) :
    capabilityFromWit (capabilityToWit cap) = .ok (some cap) ↔ Reads cap := by
  refine ⟨fun h => ?_, capabilityFromWit_toWit⟩
  cases cap with
  | discover schemes =>
    unfold capabilityToWit at h
    rw [capabilityFromWit_withList (by decide)] at h
    exact listReads_of_eq (by simpa [capabilityOfParts] using h)
  | introspect formats =>
    unfold capabilityToWit at h
    rw [capabilityFromWit_withList (by decide)] at h
    exact listReads_of_eq (by simpa [capabilityOfParts] using h)
  | execute operations formats =>
    rw [capabilityFromWit_execute] at h
    exact listReads_of_eq (by simpa using h)
  | _ => trivial

/-! ## Blank lists -/

theorem trim_eq_empty {s : String} : trim s = "" ↔ ∀ c ∈ s.toList, isWhitespace c = true := by
  have hdrop : trim s = String.ofList ((s.toList.dropWhile isWhitespace).rdropWhile isWhitespace) :=
    rfl
  have hempty : trim s = "" ↔
      (s.toList.dropWhile isWhitespace).rdropWhile isWhitespace = [] := by
    rw [hdrop, ← String.toList_inj, String.toList_ofList]
    rfl
  rw [hempty, List.rdropWhile_eq_nil_iff]
  constructor
  · intro h c hc
    rw [← List.takeWhile_append_dropWhile (p := isWhitespace) (l := s.toList)] at hc
    obtain hc | hc := List.mem_append.mp hc
    · exact List.mem_takeWhile_imp hc
    · exact h c hc
  · exact fun h c hc => h c (List.dropWhile_subset _ hc)

theorem splitCommaList_eq_blank {s : String} :
    splitCommaList s = [""] ↔ s ≠ "" ∧ trim s = "" := by
  unfold splitCommaList
  split
  · rename_i hempty
    simp [hempty]
  · rename_i hne
    refine ⟨fun h => ⟨hne, ?_⟩, fun ⟨_, hblank⟩ => ?_⟩
    · -- There is one part, so it is all of the text.
      obtain ⟨part, hpart, hblank⟩ := List.map_eq_singleton_iff.mp h
      obtain ⟨chunk, hchunk, rfl⟩ := List.map_eq_singleton_iff.mp hpart
      have hwhole : [','].intercalate (s.toList.splitOn ',') = s.toList :=
        List.intercalate_splitOn ','
      rw [hchunk, List.intercalate_singleton] at hwhole
      rwa [hwhole, String.ofList_toList] at hblank
    · have hnone : ',' ∉ s.toList := fun hmem =>
        absurd (trim_eq_empty.mp hblank ',' hmem) (by decide)
      unfold splitText
      rw [List.splitOn_eq_singleton hnone]
      simp [hblank]

/-- The list of a discovery, introspection or execution is one blank item. -/
def listIsBlank (capStr : String) : Bool :=
  let (kind, params) := capabilityParts capStr
  let list := if kind = "execute" then ((splitOnce ':' params).getD (params, "")).2 else params
  kind ∈ ["discover", "introspect", "execute"] && list ≠ "" && trim list = ""

/-- The items and parameters of a capability are trimmed, and the items are separate. -/
def Trimmed : Capability → Prop
  | .discover items | .introspect items | .execute _ items =>
    ∀ s ∈ items, trim s = s ∧ s ≠ "" ∧ ',' ∉ s.toList
  | .store param | .enrichMetadata param => trim param = param
  | _ => True

theorem reads_of_trimmed {cap : Capability} (h : Trimmed cap) : Reads cap := by
  have hlist : ∀ items : List String, (∀ s ∈ items, trim s = s ∧ s ≠ "" ∧ ',' ∉ s.toList) →
      ListReads items := by
    intro items hitems
    refine ⟨?_, fun s hs => ⟨(hitems s hs).1, (hitems s hs).2.2⟩⟩
    rintro rfl
    exact (hitems "" List.mem_cons_self).2.1 rfl
  cases cap with
  | discover items => exact hlist items h
  | introspect items => exact hlist items h
  | execute operations items => exact hlist items h
  | _ => trivial

/-- An accepted string gives a capability whose lists are read back, unless one is blank. -/
theorem reads_iff_of_accepted {capStr : String} {cap : Capability}
    (h : capabilityFromWit capStr = .ok (some cap)) : Reads cap ↔ listIsBlank capStr = false := by
  have hlist : ∀ list : String, ListReads (splitCommaList list) ↔
      ¬(list ≠ "" ∧ trim list = "") := fun list => by
    rw [listReads_splitCommaList, ne_eq, splitCommaList_eq_blank]
  unfold capabilityFromWit capabilityOfParts at h
  unfold listIsBlank
  generalize hparts : capabilityParts capStr = parts at h ⊢
  obtain ⟨kind, params⟩ := parts
  simp only at h ⊢
  split at h
  case h_1 | h_2 =>
    cases h
    simp [Reads, hlist]
  case h_4 =>
    obtain ⟨operations, -, h⟩ := Lib.map_eq_ok.mp h
    cases h
    simp [Reads, hlist]
  case h_17 =>
    obtain ⟨modes, -, h⟩ := Lib.map_eq_ok.mp h
    cases h
    simp [Reads]
  all_goals
    cases h
    try simp [Reads]

/-- Trimmed capabilities come back, and of those that strings are read as exactly the ones without
a blank list do. -/
theorem capabilities_read_back (cap : Capability) :
    (Trimmed cap → capabilityFromWit (capabilityToWit cap) = .ok (some cap)) ∧
      ∀ capStr, capabilityFromWit capStr = .ok (some cap) →
        (capabilityFromWit (capabilityToWit cap) = .ok (some cap) ↔ listIsBlank capStr = false) :=
  ⟨fun htrimmed => capabilityFromWit_toWit (reads_of_trimmed htrimmed),
    fun _ h => (capabilityFromWit_toWit_iff cap).trans (reads_iff_of_accepted h)⟩

theorem execute_reads_back :
    capabilityFromWit (capabilityToWit (.execute [.transcodeVideo, .setTitle] ["mkv", "mp4"])) =
        .ok (some (.execute [.transcodeVideo, .setTitle] ["mkv", "mp4"])) ∧
      capabilityFromWit (capabilityToWit (.discover ["file", "smb"])) =
        .ok (some (.discover ["file", "smb"])) :=
  ⟨(capabilities_read_back _).1
      (show ∀ s ∈ ["mkv", "mp4"], trim s = s ∧ s ≠ "" ∧ ',' ∉ s.toList by decide),
    ((capabilities_read_back _).2 "discover: file ,smb" (by decide)).mpr (by decide)⟩

/-- One blank item is lost. -/
theorem blank_item_lost :
    capabilityFromWit "discover: " = .ok (some (.discover [""])) ∧
      capabilityFromWit (capabilityToWit (.discover [""])) = .ok (some (.discover [])) ∧
      capabilityFromWit "execute:set_title: " = .ok (some (.execute [.setTitle] [""])) ∧
      capabilityFromWit (capabilityToWit (.execute [.setTitle] [""])) =
        .ok (some (.execute [.setTitle] [])) := by
  decide

end Wit

end Voom

-- SUMMARY: Documents that a redactor reads alike are redacted alike, and documents that are not.
import Voom.Cli.TwinDocuments
import Voom.Lib.Sorting

/-!
# What a redactor hides

Two runs of the redactor, on a document and its twin, are compared. They have
registered the texts of the same pairs with the same placeholders. A text that is
cut into such pairs is put out alike, in whatever order the lengths of the
originals put them.
-/

namespace Voom.Cli.BugReport

open Voom.Lib (Piece render OnlyAt partly partly_congr Replaces replaceAll)

/-! ## Pairs -/

theorem Matching.of_subset {pairs pairs' : List Pair} (h : Matching pairs) (hsub : pairs' ⊆ pairs) :
    Matching pairs' := fun p hp q hq => h p (hsub hp) q (hsub hq)

theorem Matching.eq_of_side {pairs : List Pair} (h : Matching pairs) {side : Pair → Text}
    (hside : side ∈ sides) {p q : Pair} (hp : p ∈ pairs) (hq : q ∈ pairs) (heq : side p = side q) :
    p = q := by
  have hiff := h p hp q hq
  obtain rfl | rfl : side = Prod.fst ∨ side = Prod.snd := by simpa [sides] using hside
  · exact Prod.ext heq (hiff.mp heq)
  · exact Prod.ext (hiff.mpr heq) heq

/-- What is the same in both documents is so on all sides. -/
theorem side_eq_of_same {p : Pair} (hsame : p.1 = p.2) {side side' : Pair → Text}
    (hside : side ∈ sides) (hside' : side' ∈ sides) : side p = side' p := by
  obtain rfl | rfl : side = Prod.fst ∨ side = Prod.snd := by simpa [sides] using hside
  all_goals
    obtain rfl | rfl : side' = Prod.fst ∨ side' = Prod.snd := by simpa [sides] using hside'
    all_goals simp [hsame]

/-- What is replaced no later than an early pair is early. -/
theorem Early.of_before {pairs : List Pair} {p q : Pair} (hq : Early pairs q) (hp : p ∈ pairs)
    (hq' : q ∈ pairs) {side : Pair → Text} (hside : side ∈ sides)
    (hbefore : Redactor.before (side p) (side q)) : Early pairs p := by
  by_cases hpsame : p.1 = p.2
  · by_cases hqsame : q.1 = q.2
    · -- Both are the same on all sides, and so is their order.
      obtain ⟨d, hd, hdiffer, side', hside', hle⟩ := hq
      rw [side_eq_of_same hpsame hside hside', side_eq_of_same hqsame hside hside'] at hbefore
      exact ⟨d, hd, hdiffer, side', hside', Redactor.before_trans hbefore hle⟩
    · exact ⟨q, hq', hqsame, side, hside, hbefore⟩
  · exact ⟨p, hp, hpsame, side, hside, Redactor.before_refl _⟩

/-! ## What two redactors have registered -/

/-- The mappings of some pairs on one side. -/
def registered (side : Pair → Text) (names : List Pair) (target : Pair → Text)
    (kind : Pair → RedactionKind) : List Mapping :=
  names.map fun p => ⟨side p, target p, kind p⟩

/-- Two redactors have registered these pairs with the same placeholders. -/
structure LinkedBy (names : List Pair) (target : Pair → Text) (kind : Pair → RedactionKind)
    (r₁ r₂ : Redactor) : Prop where
  nodup : names.Nodup
  placeholder : ∀ p, IsPlaceholder (target p)
  left : r₁.replacements = registered Prod.fst names target kind
  right : r₂.replacements = registered Prod.snd names target kind
  videoCount : r₁.videoCount = r₂.videoCount
  apiKeyCount : r₁.apiKeyCount = r₂.apiKeyCount
  tokenCount : r₁.tokenCount = r₂.tokenCount
  secretCount : r₁.secretCount = r₂.secretCount

/-- They have registered what has been found so far. -/
def Linked (sofar : List Pair) (r₁ r₂ : Redactor) : Prop :=
  ∃ names target kind, LinkedBy names target kind r₁ r₂ ∧ ∀ p, p ∈ names ↔ p ∈ sofar

theorem linked_fresh : Linked [] {} {} := by
  obtain ⟨new, hnew⟩ : ∃ new, IsPlaceholder new := ⟨_, .secret 0⟩
  refine ⟨[], fun _ => new, fun _ => .secret, ?_, fun p => Iff.rfl⟩
  exact
    { nodup := List.nodup_nil
      placeholder := fun _ => hnew
      left := rfl
      right := rfl
      videoCount := rfl
      apiKeyCount := rfl
      tokenCount := rfl
      secretCount := rfl }

theorem replacement?_registered {r : Redactor} {side : Pair → Text} {names : List Pair}
    {target : Pair → Text} {kind : Pair → RedactionKind}
    (hr : r.replacements = registered side names target kind) {p : Pair}
    (hside : ∀ q ∈ names, side q = side p → q = p) :
    r.replacement? (side p) = if p ∈ names then some (target p) else none := by
  unfold Redactor.replacement?
  rw [hr, registered, List.find?_map]
  split
  · rename_i hmem
    cases hfind : names.find? fun q => decide (side q = side p) with
    | none =>
      have := List.find?_eq_none.mp hfind p hmem
      simp at this
    | some q =>
      have hq : q = p := by
        refine hside q (List.mem_of_find?_eq_some hfind) ?_
        simpa using List.find?_some hfind
      subst hq
      simp only [Function.comp_def, hfind, Option.map_some]
  · rename_i hmem
    have hnone : (names.find? fun q => decide (side q = side p)) = none := by
      rw [List.find?_eq_none]
      intro q hq heq
      exact hmem (hside q hq (by simpa using heq) ▸ hq)
    simp only [Function.comp_def, hnone, Option.map_none]

namespace Linked

variable {sofar : List Pair} {r₁ r₂ : Redactor}

/-- The same is registered in both. -/
theorem replacement? (h : Linked sofar r₁ r₂) {p : Pair} (hmatch : Matching (sofar ++ [p])) :
    r₁.replacement? p.1 = r₂.replacement? p.2 ∧
      ∀ new, r₁.replacement? p.1 = some new → IsPlaceholder new := by
  obtain ⟨names, target, kind, hlinked, hnames⟩ := h
  have hp : p ∈ sofar ++ [p] := List.mem_append_right _ List.mem_cons_self
  have hq : ∀ q ∈ names, q ∈ sofar ++ [p] := fun q hq => List.mem_append_left _ ((hnames q).mp hq)
  have hleft := replacement?_registered hlinked.left fun q hmem heq =>
    hmatch.eq_of_side (by simp [sides]) (hq q hmem) hp heq
  have hright := replacement?_registered hlinked.right fun q hmem heq =>
    hmatch.eq_of_side (by simp [sides]) (hq q hmem) hp heq
  refine ⟨hleft.trans hright.symm, fun new hnew => ?_⟩
  rw [hleft] at hnew
  split at hnew
  · exact Option.some.inj hnew ▸ hlinked.placeholder p
  · exact nomatch hnew

/-- A pair registered with the same placeholder in both. -/
theorem register (h : Linked sofar r₁ r₂) {p : Pair} (hmatch : Matching (sofar ++ [p])) {new : Text}
    (hnew : IsPlaceholder new) (kind : RedactionKind) :
    Linked (sofar ++ [p]) (r₁.registerReplacement p.1 new kind)
      (r₂.registerReplacement p.2 new kind) := by
  have hsame := (h.replacement? hmatch).1
  obtain ⟨names, target, kinds, hlinked, hnames⟩ := h
  have hp : p ∈ sofar ++ [p] := List.mem_append_right _ List.mem_cons_self
  have hleft := replacement?_registered hlinked.left fun q hmem heq =>
    hmatch.eq_of_side (by simp [sides]) (List.mem_append_left _ ((hnames q).mp hmem)) hp heq
  unfold Redactor.registerReplacement
  rw [← hsame, hleft]
  by_cases hmem : p ∈ names
  · refine ⟨names, target, kinds, ?_, fun q => ?_⟩
    · simpa [hmem] using hlinked
    · rw [hnames, List.mem_append, List.mem_singleton]
      exact ⟨.inl, fun hq => hq.elim id fun hq => hq ▸ (hnames p).mp hmem⟩
  · have hother : ∀ q ∈ names, q ≠ p := fun q hq heq => hmem (heq ▸ hq)
    have hold : ∀ side, registered side names (Function.update target p new)
        (Function.update kinds p kind) = registered side names target kinds := by
      intro side
      refine List.map_congr_left fun q hq => ?_
      rw [Function.update_of_ne (hother q hq), Function.update_of_ne (hother q hq)]
    have hadd : ∀ side, registered side (names ++ [p]) (Function.update target p new)
        (Function.update kinds p kind) = registered side names target kinds ++
          [⟨side p, new, kind⟩] := by
      intro side
      rw [← hold side]
      simp [registered]
    rw [if_neg hmem]
    refine ⟨names ++ [p], Function.update target p new, Function.update kinds p kind, ?_, fun q => ?_⟩
    · exact
        { hlinked with
          nodup := by
            rw [List.nodup_append]
            exact ⟨hlinked.nodup, List.nodup_singleton p, fun q hq q' hq' => by
              rw [List.mem_singleton.mp hq']
              exact hother q hq⟩
          placeholder := fun q => by
            by_cases hq : q = p
            · subst hq
              rwa [Function.update_self]
            · rw [Function.update_of_ne hq]
              exact hlinked.placeholder q
          left := by simp [hadd, hlinked.left]
          right := by simp [hadd, hlinked.right] }
    · rw [List.mem_append, List.mem_append, hnames]

/-- The counters move alike. -/
theorem secretReplacementForKey (h : Linked sofar r₁ r₂) {key₁ key₂ : Text}
    (hcategory : secretCategory key₁ = secretCategory key₂) :
    (r₁.secretReplacementForKey key₁).1 = (r₂.secretReplacementForKey key₂).1 ∧
      Linked sofar (r₁.secretReplacementForKey key₁).2 (r₂.secretReplacementForKey key₂).2 := by
  obtain ⟨names, target, kind, hlinked, hnames⟩ := h
  unfold Redactor.secretReplacementForKey
  rw [← hcategory]
  cases secretCategory key₁ with
  | apiKey =>
    refine ⟨by rw [hlinked.apiKeyCount], names, target, kind, ?_, hnames⟩
    exact { hlinked with apiKeyCount := congrArg (· + 1) hlinked.apiKeyCount }
  | token =>
    refine ⟨by rw [hlinked.tokenCount], names, target, kind, ?_, hnames⟩
    exact { hlinked with tokenCount := congrArg (· + 1) hlinked.tokenCount }
  | secret =>
    refine ⟨by rw [hlinked.secretCount], names, target, kind, ?_, hnames⟩
    exact { hlinked with secretCount := congrArg (· + 1) hlinked.secretCount }

theorem videoReplacement (h : Linked sofar r₁ r₂) (ext : Text) :
    r₁.videoReplacement ext = r₂.videoReplacement ext := by
  obtain ⟨names, target, kind, hlinked, -⟩ := h
  unfold Redactor.videoReplacement
  rw [hlinked.videoCount]

theorem countVideo (h : Linked sofar r₁ r₂) :
    Linked sofar { r₁ with videoCount := r₁.videoCount + 1 }
      { r₂ with videoCount := r₂.videoCount + 1 } := by
  obtain ⟨names, target, kind, hlinked, hnames⟩ := h
  refine ⟨names, target, kind, ?_, hnames⟩
  exact { hlinked with videoCount := congrArg (· + 1) hlinked.videoCount }

end Linked

/-! ## Reading a text -/

theorem isPlaceholder_secret (r : Redactor) (key : Text) :
    IsPlaceholder (r.secretReplacementForKey key).1 := by
  unfold Redactor.secretReplacementForKey
  cases secretCategory key with
  | apiKey => exact .apiKey _
  | token => exact .token _
  | secret => exact .secret _

theorem isPlaceholder_video (r : Redactor) {ext : Text} (hext : ext ∈ videoExtensions) :
    IsPlaceholder (r.videoReplacement ext) := .video _ hext

theorem extension_of_isVideoFilename {name : Text} (h : isVideoFilename name = true) :
    ∃ ext ∈ videoExtensions, extension name = some ext := by
  unfold isVideoFilename at h
  cases hext : extension name with
  | none => simp [hext] at h
  | some ext => exact ⟨ext, by simpa [hext] using h, rfl⟩

/-- The registration of an assignment. -/
def registerAssignment (r : Redactor) (found : Text × Text) : Redactor :=
  (r.secretReplacementForKey found.1).2.registerReplacement found.2
    (r.secretReplacementForKey found.1).1 .secret

theorem registerSecretAssignments_eq (r : Redactor) (input : Text) :
    r.registerSecretAssignments input = (assignments input).foldl registerAssignment r := by
  unfold Redactor.registerSecretAssignments assignments
  rw [List.foldl_filterMap]
  refine List.foldl_ext _ _ r fun r token _ => ?_
  cases splitSecretAssignment token with
  | none => rfl
  | some found =>
    by_cases hvalue : found.2 = []
    · simp [Option.filter, hvalue]
    · simp [Option.filter, hvalue, registerAssignment]

/-- The registration of the name of a video file. -/
def registerVideo (r : Redactor) (name : Text) : Redactor :=
  if (r.replacement? name).isSome then r
  else { r with videoCount := r.videoCount + 1 }.registerReplacement name
    (r.videoReplacement ((extension name).getD [])) .fileName

theorem registerVideoFilenames_eq (isUppercase : Char → Bool) (r : Redactor) (input : Text) :
    r.registerVideoFilenames isUppercase input =
      (videoNames isUppercase input).foldl registerVideo r := by
  unfold Redactor.registerVideoFilenames videoNames
  rw [List.foldl_filter]
  refine List.foldl_ext _ _ r fun r candidate _ => ?_
  cases isVideoFilename candidate with
  | false => rfl
  | true => rfl

namespace Linked

variable {sofar : List Pair} {r₁ r₂ : Redactor}

theorem registerAssignments (h : Linked sofar r₁ r₂) {found₁ found₂ : List (Text × Text)}
    (hcategories : found₁.map (fun found => secretCategory found.1) =
      found₂.map fun found => secretCategory found.1)
    (hmatch : Matching (sofar ++ (found₁.map (·.2)).zip (found₂.map (·.2)))) :
    Linked (sofar ++ (found₁.map (·.2)).zip (found₂.map (·.2)))
      (found₁.foldl registerAssignment r₁) (found₂.foldl registerAssignment r₂) := by
  induction found₁ generalizing sofar r₁ r₂ found₂ with
  | nil =>
    cases found₂ with
    | nil => simpa using h
    | cons _ _ => exact nomatch hcategories
  | cons f₁ found₁ ih =>
    cases found₂ with
    | nil => exact nomatch hcategories
    | cons f₂ found₂ =>
      obtain ⟨hcategory, hrest⟩ := List.cons.inj hcategories
      rw [List.map_cons, List.map_cons, List.zip_cons_cons, List.append_cons] at hmatch ⊢
      obtain ⟨hnew, hlinked⟩ := h.secretReplacementForKey hcategory
      refine ih ?_ hrest hmatch
      unfold registerAssignment
      rw [← hnew]
      refine hlinked.register (p := (f₁.2, f₂.2)) ?_ (isPlaceholder_secret r₁ f₁.1) .secret
      exact hmatch.of_subset (List.subset_append_left _ _)

theorem registerVideo (h : Linked sofar r₁ r₂) {name₁ name₂ : Text}
    (hvideo : isVideoFilename name₁ = true) (hext : extension name₁ = extension name₂)
    (hmatch : Matching (sofar ++ [(name₁, name₂)])) :
    Linked (sofar ++ [(name₁, name₂)]) (registerVideo r₁ name₁) (registerVideo r₂ name₂) := by
  obtain ⟨ext, hmem, hsome⟩ := extension_of_isVideoFilename hvideo
  have hsame := (h.replacement? hmatch).1
  unfold BugReport.registerVideo
  rw [← hsame, ← hext, ← h.videoReplacement, hsome, Option.getD_some]
  split
  · rename_i hknown
    -- What is registered is registered again without effect.
    have hagain := h.register hmatch (isPlaceholder_video r₁ hmem) .fileName
    unfold Redactor.registerReplacement at hagain
    rwa [← hsame, if_pos hknown, if_pos hknown] at hagain
  · exact h.countVideo.register hmatch (isPlaceholder_video r₁ hmem) .fileName

theorem registerVideos (h : Linked sofar r₁ r₂) {names₁ names₂ : List Text}
    (hvideo : ∀ name ∈ names₁, isVideoFilename name = true)
    (hext : names₁.map extension = names₂.map extension)
    (hmatch : Matching (sofar ++ names₁.zip names₂)) :
    Linked (sofar ++ names₁.zip names₂) (names₁.foldl BugReport.registerVideo r₁)
      (names₂.foldl BugReport.registerVideo r₂) := by
  induction names₁ generalizing sofar r₁ r₂ names₂ with
  | nil =>
    cases names₂ with
    | nil => simpa using h
    | cons _ _ => exact nomatch hext
  | cons name₁ names₁ ih =>
    cases names₂ with
    | nil => exact nomatch hext
    | cons name₂ names₂ =>
      obtain ⟨hhead, hrest⟩ := List.cons.inj hext
      rw [List.zip_cons_cons, List.append_cons] at hmatch ⊢
      refine ih ?_ (fun name hname => hvideo name (List.mem_cons_of_mem _ hname)) hrest hmatch
      refine h.registerVideo (hvideo name₁ List.mem_cons_self) hhead ?_
      exact hmatch.of_subset (List.subset_append_left _ _)

end Linked

/-! ## Replacing in a text -/

/-- The order in which pairs are replaced on a side. -/
def replaceOrder (side : Pair → Text) (names : List Pair) : List Pair :=
  names.insertionSort fun p q => Redactor.before (side p) (side q)

theorem perm_replaceOrder (side : Pair → Text) (names : List Pair) :
    (replaceOrder side names).Perm names := List.perm_insertionSort _ _

theorem pairwise_replaceOrder (side : Pair → Text) (names : List Pair) :
    (replaceOrder side names).Pairwise fun p q => Redactor.before (side p) (side q) := by
  have : Std.Total fun p q : Pair => Redactor.before (side p) (side q) :=
    ⟨fun _ _ => Redactor.before_total _ _⟩
  have : IsTrans Pair fun p q => Redactor.before (side p) (side q) :=
    ⟨fun _ _ _ => Redactor.before_trans⟩
  exact List.pairwise_insertionSort _ names

theorem applyReplacements_registered {r : Redactor} {side : Pair → Text} {names : List Pair}
    {target : Pair → Text} {kind : Pair → RedactionKind}
    (hr : r.replacements = registered side names target kind) (input : Text) :
    r.applyReplacements input =
      (replaceOrder side names).foldl (fun s p => replaceAll (side p) (target p) s) input := by
  unfold Redactor.applyReplacements replaceOrder
  rw [hr, registered, ← List.map_insertionSort (fun p q => Redactor.before (side p) (side q)),
    List.foldl_map]
  exact fun p _ q _ => Iff.rfl

theorem render_eq_side {pieces : TwinText} {side : Pair → Text} (hside : side ∈ sides) :
    render side pieces = side pieces.pair := by
  obtain rfl | rfl : side = Prod.fst ∨ side = Prod.snd := by simpa [sides] using hside
  · rfl
  · rfl

instance (pairs : List Pair) : DecidablePred (Early pairs) := fun _ =>
  inferInstanceAs (Decidable (∃ d ∈ pairs, _))

section

variable {pairs names : List Pair} {target : Pair → Text} {side : Pair → Text} {pieces : TwinText}

/-- The pairs in their order, those that are early and those that are not. -/
def earlyOrder (side : Pair → Text) (pairs names : List Pair) : List Pair :=
  (replaceOrder side names).filter fun p => decide (Early pairs p)

def lateOrder (side : Pair → Text) (pairs names : List Pair) : List Pair :=
  (replaceOrder side names).filter fun p => !decide (Early pairs p)

theorem mem_lateOrder {p : Pair} :
    p ∈ lateOrder side pairs names ↔ p ∈ names ∧ ¬Early pairs p := by
  rw [lateOrder, List.mem_filter, (perm_replaceOrder side names).mem_iff, Bool.not_eq_true',
    decide_eq_false_iff_not]

/-- The early pairs come first on every side. -/
theorem earlyOrder_append_lateOrder (hside : side ∈ sides) (hnames : ∀ p, p ∈ names ↔ p ∈ pairs) :
    earlyOrder side pairs names ++ lateOrder side pairs names = replaceOrder side names := by
  have hmem : ∀ p, p ∈ replaceOrder side names ↔ p ∈ pairs := fun p =>
    (perm_replaceOrder side names).mem_iff.trans (hnames p)
  have hsorted : (replaceOrder side names).Pairwise fun p q =>
      decide (Redactor.before (side p) (side q)) = true := by
    simpa using pairwise_replaceOrder side names
  refine Lib.filter_append_filter_of_pairwise hsorted ?_
  · intro p hp q hq hbefore hearly
    have hearly : Early pairs q := by simpa using hearly
    apply decide_eq_true
    exact hearly.of_before ((hmem p).mp hp) ((hmem q).mp hq) hside (by simpa using hbefore)

/-- The early pairs are replaced undisturbed. -/
theorem replaces_earlyOrder (hside : side ∈ sides) (hmatch : Matching pairs) (hnodup : names.Nodup)
    (hnames : ∀ p, p ∈ names ↔ p ∈ pairs)
    (hkeys : ∀ p, .key p ∈ pieces → p ∈ pairs ∧ Early pairs p)
    (hnonempty : ∀ p ∈ pairs, Early pairs p → side p ≠ [])
    (honly : ∀ p ∈ pairs, Early pairs p →
      OnlyAt p (side p) (partly side target (Before side p)) pieces) :
    Replaces side target (earlyOrder side pairs names) pieces ∧
      ∀ p, .key p ∈ pieces → p ∈ earlyOrder side pairs names := by
  have hmem : ∀ p, p ∈ earlyOrder side pairs names ↔ p ∈ pairs ∧ Early pairs p := by
    intro p
    rw [earlyOrder, List.mem_filter, (perm_replaceOrder side names).mem_iff, hnames,
      decide_eq_true_eq]
  have hnodup : (earlyOrder side pairs names).Nodup :=
    ((perm_replaceOrder side names).nodup_iff.mpr hnodup).filter _
  have hsorted : (earlyOrder side pairs names).Pairwise fun p q =>
      Redactor.before (side p) (side q) := (pairwise_replaceOrder side names).filter _
  refine ⟨⟨hnodup, ?_, ?_⟩, fun p hp => (hmem p).mpr (hkeys p hp)⟩
  · intro p hp
    exact hnonempty p ((hmem p).mp hp).1 ((hmem p).mp hp).2
  · intro front p back heq
    rw [heq] at hnodup hsorted
    have hp := (hmem p).mp (by rw [heq]; simp)
    refine (honly p hp.1 hp.2).congr fun q hq => partly_congr ?_
    -- Those replaced before it are those in front of it.
    have hq' := (hmem q).mpr (hkeys q hq)
    rw [heq, List.mem_append, List.mem_cons] at hq'
    have hsplit := List.pairwise_append.mp hsorted
    constructor
    · rintro ⟨hne, hbefore⟩
      obtain hq' | rfl | hq' := hq'
      · exact hq'
      · exact absurd rfl hne
      · have hafter := (List.pairwise_cons.mp hsplit.2.1).1 q hq'
        exact absurd (Redactor.before_antisymm hbefore hafter) hne
    · intro hfront
      refine ⟨fun hsame => ?_, hsplit.2.2 q hfront p List.mem_cons_self⟩
      have heq := hmatch.eq_of_side hside (hkeys q hq).1 hp.1 hsame
      subst heq
      exact (List.nodup_append.mp hnodup).2.2 q hfront q List.mem_cons_self rfl

/-- What is not early is the same in both documents. -/
theorem same_of_mem_lateOrder (hnames : ∀ p, p ∈ names ↔ p ∈ pairs) {p : Pair}
    (hp : p ∈ lateOrder side pairs names) : p.1 = p.2 := by
  obtain ⟨hmem, hlate⟩ := mem_lateOrder.mp hp
  by_contra hdiffer
  apply hlate
  exact ⟨p, (hnames p).mp hmem, hdiffer, Prod.fst, List.mem_cons_self, Redactor.before_refl _⟩

/-- It is replaced in one order on all sides. -/
theorem lateOrder_eq (hnames : ∀ p, p ∈ names ↔ p ∈ pairs) :
    lateOrder Prod.fst pairs names = lateOrder Prod.snd pairs names := by
  have hperm : (lateOrder Prod.fst pairs names).Perm (lateOrder Prod.snd pairs names) :=
    ((perm_replaceOrder Prod.fst names).trans (perm_replaceOrder Prod.snd names).symm).filter _
  have hfirst : (lateOrder Prod.fst pairs names).Pairwise fun p q => Redactor.before p.1 q.1 :=
    (pairwise_replaceOrder Prod.fst names).filter _
  have hsecond : (lateOrder Prod.snd pairs names).Pairwise fun p q => Redactor.before p.1 q.1 := by
    refine ((pairwise_replaceOrder Prod.snd names).filter _).imp_of_mem fun hp hq hbefore => ?_
    rwa [same_of_mem_lateOrder hnames hp, same_of_mem_lateOrder hnames hq]
  refine List.Perm.eq_of_pairwise (fun p q hp hq hpq hqp => ?_) hfirst hsecond hperm
  have heq := Redactor.before_antisymm hpq hqp
  refine Prod.ext heq ?_
  rw [← same_of_mem_lateOrder hnames hp, ← same_of_mem_lateOrder hnames hq, heq]

end

/-- A text is put out like its twin. -/
theorem applyReplacements_agree {sofar : List Pair} {r₁ r₂ : Redactor} {s : Pair}
    (h : Linked sofar r₁ r₂) (hmatch : Matching sofar) (hcut : CutAlike sofar s) :
    r₁.applyReplacements s.1 = r₂.applyReplacements s.2 := by
  obtain ⟨names, target, kind, hlinked, hnames⟩ := h
  obtain ⟨pieces, rfl, hkeys, hclean⟩ := hcut
  have hearly : ∀ side ∈ sides, (earlyOrder side sofar names).foldl
      (fun s p => replaceAll (side p) (target p) s) (side pieces.pair) = render target pieces := by
    intro side hside
    obtain ⟨hreplaces, hall⟩ := replaces_earlyOrder hside hmatch hlinked.nodup hnames hkeys
      (fun p hp hearly => (hclean side hside p hp hearly).1)
      fun p hp hearly => (hclean side hside p hp hearly).2 target hlinked.placeholder
    rw [← render_eq_side hside]
    exact hreplaces.foldl_all hall
  have hfirst := hearly Prod.fst (by simp [sides])
  have hsecond := hearly Prod.snd (by simp [sides])
  rw [applyReplacements_registered hlinked.left, applyReplacements_registered hlinked.right,
    ← earlyOrder_append_lateOrder (by simp [sides]) hnames,
    ← earlyOrder_append_lateOrder (by simp [sides]) hnames, List.foldl_append, List.foldl_append,
    hfirst, hsecond, ← lateOrder_eq hnames]
  -- What is left to replace is the same in both documents.
  refine List.foldl_ext _ _ _ fun s p hp => ?_
  rw [same_of_mem_lateOrder hnames hp]

section

variable {isUppercase : Char → Bool} {sofar : List Pair} {r₁ r₂ : Redactor}

theorem redactText_agree (h : Linked sofar r₁ r₂) {s : Pair} (hread : ReadAlike isUppercase s)
    (hmatch : Matching (sofar ++ foundInText isUppercase s))
    (hcut : CutAlike (sofar ++ foundInText isUppercase s) s) :
    (r₁.redactText isUppercase s.1).1 = (r₂.redactText isUppercase s.2).1 ∧
      Linked (sofar ++ foundInText isUppercase s) (r₁.redactText isUppercase s.1).2
        (r₂.redactText isUppercase s.2).2 := by
  obtain ⟨hcategories, hext⟩ := hread
  have hlinked : Linked (sofar ++ foundInText isUppercase s) (r₁.redactText isUppercase s.1).2
      (r₂.redactText isUppercase s.2).2 := by
    unfold foundInText at hmatch ⊢
    rw [← List.append_assoc] at hmatch ⊢
    unfold Redactor.redactText
    simp only [registerSecretAssignments_eq, registerVideoFilenames_eq]
    refine (h.registerAssignments hcategories ?_).registerVideos ?_ hext hmatch
    · exact hmatch.of_subset (List.subset_append_left _ _)
    · exact fun name hname => (List.mem_filter.mp hname).2
  exact ⟨applyReplacements_agree hlinked hmatch hcut, hlinked⟩

/-! ## Objects -/

/-- What is known stands in the context, as placeholders. -/
structure Known.Describes (known : Known) (context : RedactionContext) : Prop where
  file : known.file = context.file.isSome
  comment : known.comment = context.trackComment.isSome
  filePlaceholder : ∀ text, context.file = some text → IsPlaceholder text
  commentPlaceholder : ∀ text, context.trackComment = some text → IsPlaceholder text

theorem fileContextFromMap_of_none {map : Json} (hname : videoFileName map = none) (r : Redactor) :
    r.fileContextFromMap map = (none, r) := by
  unfold Redactor.fileContextFromMap
  unfold videoFileName at hname
  cases hsource : fileSource map with
  | none => rfl
  | some source =>
    have hnot : isVideoFilename (afterLast (· ∈ ['/', '\\']) source.toList) = false := by
      simpa [hsource] using hname
    simp only [Redactor.filePlaceholderForSource, hnot]
    rfl

theorem fileContextFromMap_of_some {map : Json} {name ext : Text}
    (hname : videoFileName map = some name) (hext : extension name = some ext) (r : Redactor) :
    r.fileContextFromMap map =
      (some ((r.replacement? name).getD (r.videoReplacement ext)), registerVideo r name) := by
  unfold Redactor.fileContextFromMap
  unfold videoFileName at hname
  cases hsource : fileSource map with
  | none => simp [hsource] at hname
  | some source =>
    obtain ⟨rfl, hvideo⟩ : afterLast (· ∈ ['/', '\\']) source.toList = name ∧
        isVideoFilename name = true := by
      have := Option.filter_eq_some_iff.mp hname
      simp only [hsource, Option.map_some, Option.some.injEq] at this
      exact this
    unfold Redactor.filePlaceholderForSource registerVideo
    simp only [hvideo, hext]
    cases r.replacement? (afterLast (· ∈ ['/', '\\']) source.toList) with
    | none => rfl
    | some replacement => rfl

theorem fileContextFromMap_agree (h : Linked sofar r₁ r₂) {fields : List (String × Twin)}
    (hobject : Twin.ObjectAlike fields) (hmatch : Matching (sofar ++ Twin.foundInObject fields)) :
    (r₁.fileContextFromMap (Twin.view Prod.fst (.object fields))).1 =
        (r₂.fileContextFromMap (Twin.view Prod.snd (.object fields))).1 ∧
      Linked (sofar ++ Twin.foundInObject fields)
        (r₁.fileContextFromMap (Twin.view Prod.fst (.object fields))).2
        (r₂.fileContextFromMap (Twin.view Prod.snd (.object fields))).2 ∧
      (videoFileName (Twin.view Prod.fst (.object fields))).isSome =
        (r₁.fileContextFromMap (Twin.view Prod.fst (.object fields))).1.isSome ∧
      ∀ text, (r₁.fileContextFromMap (Twin.view Prod.fst (.object fields))).1 = some text →
        IsPlaceholder text := by
  have hnames := hobject.1
  unfold Twin.foundInObject at hmatch ⊢
  cases hfirst : videoFileName (Twin.view Prod.fst (.object fields)) with
  | none =>
    have hsecond : videoFileName (Twin.view Prod.snd (.object fields)) = none := by
      simpa [hfirst] using hnames.symm
    rw [fileContextFromMap_of_none hfirst, fileContextFromMap_of_none hsecond]
    refine ⟨rfl, ?_, rfl, fun text htext => nomatch htext⟩
    simpa using h
  | some name₁ =>
    cases hsecond : videoFileName (Twin.view Prod.snd (.object fields)) with
    | none => simp [hfirst, hsecond] at hnames
    | some name₂ =>
      have hsame : extension name₁ = extension name₂ := by
        simpa [hfirst, hsecond] using hnames
      have hvideo : isVideoFilename name₁ = true := (Option.filter_eq_some_iff.mp hfirst).2
      obtain ⟨ext, hmem, hext⟩ := extension_of_isVideoFilename hvideo
      rw [hfirst, hsecond] at hmatch
      have hmatch : Matching (sofar ++ [(name₁, name₂)]) := hmatch
      obtain ⟨hknown, hplaceholder⟩ := h.replacement? hmatch
      rw [fileContextFromMap_of_some hfirst hext, fileContextFromMap_of_some hsecond (hsame ▸ hext)]
      refine ⟨?_, h.registerVideo hvideo hsame hmatch, rfl, ?_⟩
      · rw [h.videoReplacement, hknown]
      · rintro text ⟨⟩
        cases hold : r₁.replacement? name₁ with
        | none => exact isPlaceholder_video r₁ hmem
        | some old => exact hplaceholder old hold

theorem normalizedTrackKind_mem {trackType : Text} {kind : String}
    (h : normalizedTrackKind trackType = some kind) :
    kind ∈ ["video", "audio", "subtitle", "attachment"] := by
  unfold normalizedTrackKind at h
  simp only at h
  split_ifs at h <;> cases h <;> decide

theorem isPlaceholder_trackComment {file : Text} (hfile : IsPlaceholder file) {track : Json}
    {text : Text} (h : trackCommentReplacement file track = some text) : IsPlaceholder text := by
  unfold trackCommentReplacement at h
  obtain ⟨⟨kind, index⟩, htrack, rfl⟩ := Option.map_eq_some_iff.mp h
  refine .comment hfile ?_ index
  unfold trackOf at htrack
  simp only [Option.bind_eq_bind, Option.bind_eq_some_iff, Option.pure_def, Option.some.injEq,
    Prod.mk.injEq] at htrack
  obtain ⟨trackType, -, s, -, kind', hkind, track', -, index', -, rfl, rfl⟩ := htrack
  exact normalizedTrackKind_mem hkind

theorem objectContext_agree (h : Linked sofar r₁ r₂) {fields : List (String × Twin)}
    (hobject : Twin.ObjectAlike fields) (hmatch : Matching (sofar ++ Twin.foundInObject fields))
    {known : Known} {context : RedactionContext} (hknown : known.Describes context) :
    (r₁.objectContext context (Twin.view Prod.fst (.object fields))).1 =
        (r₂.objectContext context (Twin.view Prod.snd (.object fields))).1 ∧
      Linked (sofar ++ Twin.foundInObject fields)
        (r₁.objectContext context (Twin.view Prod.fst (.object fields))).2
        (r₂.objectContext context (Twin.view Prod.snd (.object fields))).2 ∧
      (known.within (Twin.view Prod.fst (.object fields))).Describes
        (r₁.objectContext context (Twin.view Prod.fst (.object fields))).1 := by
  obtain ⟨hsame, hlinked, hsome, hplaceholder⟩ := fileContextFromMap_agree h hobject hmatch
  unfold Redactor.objectContext
  simp only [← hsame]
  have htrack : ∀ file, trackCommentReplacement file (Twin.view Prod.fst (.object fields)) =
      trackCommentReplacement file (Twin.view Prod.snd (.object fields)) := by
    intro file
    unfold trackCommentReplacement
    rw [hobject.2]
  refine ⟨by simp only [htrack], hlinked, ?_⟩
  have hfile : ∀ text, ((r₁.fileContextFromMap (Twin.view Prod.fst (.object fields))).1.or
      context.file) = some text → IsPlaceholder text := by
    intro text htext
    obtain htext | ⟨-, htext⟩ := Option.or_eq_some_iff.mp htext
    · exact hplaceholder text htext
    · exact hknown.filePlaceholder text htext
  refine ⟨?_, ?_, hfile, ?_⟩
  · unfold Known.within
    rw [Option.isSome_or, hsome, hknown.file]
  · unfold Known.within
    rw [Option.isSome_or, hsome, hknown.file, hknown.comment, ← Option.isSome_or]
    cases (r₁.fileContextFromMap (Twin.view Prod.fst (.object fields))).1.or context.file with
    | none => rfl
    | some file => simp [trackCommentReplacement]
  · intro text htext
    obtain htext | ⟨-, htext⟩ := Option.or_eq_some_iff.mp htext
    · obtain ⟨file, hsome, htext⟩ := Option.bind_eq_some_iff.mp htext
      exact isPlaceholder_trackComment (hfile file hsome) htext
    · exact hknown.commentPlaceholder text htext

/-! ## Documents -/

variable (isUppercase) in
/-- The redaction of a value with the key it has, if it stands in an object. -/
def redactValue (context : RedactionContext) (r : Redactor) : Option String → Json → Json × Redactor
  | none, value => Redactor.redactJsonWithContext isUppercase context r value
  | some key, value => Redactor.redactObjectValue isUppercase context r key value

theorem redactValue_object (context : RedactionContext) (r : Redactor) (key : Option String)
    (map : List (String × Json)) :
    redactValue isUppercase context r key (.object map) =
      let inner := r.objectContext context (.object map)
      let redacted := Redactor.redactFields isUppercase inner.1 inner.2 map
      (.object redacted.1, redacted.2) := by
  cases key with
  | none => simp [redactValue, Redactor.redactJsonWithContext]
  | some key => simp [redactValue, Redactor.redactObjectValue]

theorem redactValue_array (context : RedactionContext) (r : Redactor) (key : Option String)
    (values : List Json) :
    redactValue isUppercase context r key (.array values) =
      let redacted := Redactor.redactItems isUppercase context r values
      (.array redacted.1, redacted.2) := by
  cases key with
  | none => simp [redactValue, Redactor.redactJsonWithContext]
  | some key => simp [redactValue, Redactor.redactObjectValue]

/-- Two results are the same, and what they have registered is linked. -/
def Agree {β : Type} (sofar : List Pair) (result₁ result₂ : β × Redactor) : Prop :=
  result₁.1 = result₂.1 ∧ Linked sofar result₁.2 result₂.2

theorem redactStringValue_agree (h : Linked sofar r₁ r₂) {known : Known}
    {context : RedactionContext} (hknown : known.Describes context) {key : String} {s : TwinText}
    (halike : Twin.StringAlike isUppercase sofar known (some key) s)
    (hmatch : Matching (sofar ++ Twin.foundInString isUppercase known (some key) s)) :
    Agree (sofar ++ Twin.foundInString isUppercase known (some key) s)
      (Redactor.redactStringValue isUppercase context r₁ key s.pair.1)
      (Redactor.redactStringValue isUppercase context r₂ key s.pair.2) := by
  unfold Twin.StringAlike at halike
  unfold Twin.foundInString at hmatch ⊢
  unfold Redactor.redactStringValue
  unfold Known.replacesWhole at halike hmatch ⊢
  rw [Option.any_some] at halike hmatch ⊢
  cases hsecret : isSecretKey key.toList with
  | true =>
    simp only [hsecret, Bool.true_or, if_true] at hmatch ⊢
    obtain ⟨hnew, hlinked⟩ := h.secretReplacementForKey (rfl : secretCategory key.toList = _)
    refine ⟨hnew, ?_⟩
    rw [← hnew]
    exact hlinked.register hmatch (isPlaceholder_secret r₁ key.toList) .secret
  | false =>
    simp only [hsecret, Bool.false_or, Bool.false_eq_true, if_false, hknown.comment] at halike hmatch ⊢
    cases hcomment : context.trackComment with
    | none =>
      simp only [hcomment, Option.isSome_none, Bool.false_and, Bool.false_eq_true, if_false,
        false_or] at halike hmatch ⊢
      exact redactText_agree h halike.1 hmatch halike.2
    | some new =>
      simp only [hcomment, Option.isSome_some, Bool.true_and, decide_eq_true_eq] at halike hmatch ⊢
      by_cases hkey : key.toList.map Char.toLower = "comment".toList
      · simp only [if_pos hkey] at hmatch ⊢
        exact ⟨rfl, h.register hmatch (hknown.commentPlaceholder new hcomment) .trackComment⟩
      · simp only [if_neg hkey] at hmatch ⊢
        obtain ⟨hread, hcut⟩ := halike.resolve_left hkey
        exact redactText_agree h hread hmatch hcut

theorem redactValue_string_agree (h : Linked sofar r₁ r₂) {known : Known}
    {context : RedactionContext} (hknown : known.Describes context) {key : Option String}
    {s : TwinText} (halike : Twin.StringAlike isUppercase sofar known key s)
    (hmatch : Matching (sofar ++ Twin.foundInString isUppercase known key s)) :
    Agree (sofar ++ Twin.foundInString isUppercase known key s)
      (redactValue isUppercase context r₁ key (Twin.view Prod.fst (.string s)))
      (redactValue isUppercase context r₂ key (Twin.view Prod.snd (.string s))) := by
  cases key with
  | none =>
    have hagree := redactText_agree h (halike.resolve_left nofun).1 hmatch
      (halike.resolve_left nofun).2
    simp only [redactValue, Twin.view, Redactor.redactJsonWithContext, String.toList_ofList]
    exact ⟨by rw [hagree.1], hagree.2⟩
  | some key =>
    have hagree := redactStringValue_agree h hknown halike hmatch
    simp only [redactValue, Twin.view, Redactor.redactObjectValue, String.toList_ofList]
    exact ⟨by rw [hagree.1], hagree.2⟩

end

section

variable {isUppercase : Char → Bool}

mutual

/-- Documents that are read alike are redacted alike, and what is registered stays linked. -/
theorem redactValue_agree {sofar : List Pair} {r₁ r₂ : Redactor} (h : Linked sofar r₁ r₂)
    {known : Known} {context : RedactionContext} (hknown : known.Describes context)
    (key : Option String) : (t : Twin) → t.Alike isUppercase sofar known key →
      Matching (sofar ++ t.found isUppercase known key) →
        Agree (sofar ++ t.found isUppercase known key)
          (redactValue isUppercase context r₁ key (t.view Prod.fst))
          (redactValue isUppercase context r₂ key (t.view Prod.snd))
  | .null, _, _ => by
    cases key with
    | none => simpa [Twin.found, Twin.view, redactValue, Redactor.redactJsonWithContext, Agree] using h
    | some key => simpa [Twin.found, Twin.view, redactValue, Redactor.redactObjectValue, Agree] using h
  | .bool b, _, _ => by
    cases key with
    | none => simpa [Twin.found, Twin.view, redactValue, Redactor.redactJsonWithContext, Agree] using h
    | some key => simpa [Twin.found, Twin.view, redactValue, Redactor.redactObjectValue, Agree] using h
  | .number n, _, _ => by
    cases key with
    | none => simpa [Twin.found, Twin.view, redactValue, Redactor.redactJsonWithContext, Agree] using h
    | some key => simpa [Twin.found, Twin.view, redactValue, Redactor.redactObjectValue, Agree] using h
  | .string s, halike, hmatch => redactValue_string_agree h hknown halike hmatch
  | .array items, halike, hmatch => by
    have hagree := redactItems_agree h hknown items halike hmatch
    simp only [Twin.view, redactValue_array]
    exact ⟨by rw [hagree.1], hagree.2⟩
  | .object fields, halike, hmatch => by
    obtain ⟨hobject, halike⟩ := halike
    simp only [Twin.found, ← List.append_assoc] at hmatch ⊢
    obtain ⟨hcontext, hlinked, hwithin⟩ := objectContext_agree h hobject
      (hmatch.of_subset (List.subset_append_left _ _)) hknown
    have hagree := redactFields_agree hlinked hwithin fields halike hmatch
    simp only [Twin.view, redactValue_object] at hcontext hagree ⊢
    rw [← hcontext]
    exact ⟨by rw [hagree.1], hagree.2⟩

theorem redactItems_agree {sofar : List Pair} {r₁ r₂ : Redactor} (h : Linked sofar r₁ r₂)
    {known : Known} {context : RedactionContext} (hknown : known.Describes context) :
    (items : List Twin) → Twin.AlikeItems isUppercase sofar known items →
      Matching (sofar ++ Twin.foundInItems isUppercase known items) →
        Agree (sofar ++ Twin.foundInItems isUppercase known items)
          (Redactor.redactItems isUppercase context r₁ (Twin.viewItems Prod.fst items))
          (Redactor.redactItems isUppercase context r₂ (Twin.viewItems Prod.snd items))
  | [], _, _ => by
    simpa [Twin.foundInItems, Twin.viewItems, Redactor.redactItems, Agree] using h
  | t :: rest, halike, hmatch => by
    simp only [Twin.foundInItems, ← List.append_assoc] at hmatch ⊢
    have hfirst := redactValue_agree h hknown none t halike.1
      (hmatch.of_subset (List.subset_append_left _ _))
    have hrest := redactItems_agree hfirst.2 hknown rest halike.2 hmatch
    simp only [Twin.viewItems, Redactor.redactItems]
    exact ⟨congrArg₂ List.cons hfirst.1 hrest.1, hrest.2⟩

theorem redactFields_agree {sofar : List Pair} {r₁ r₂ : Redactor} (h : Linked sofar r₁ r₂)
    {known : Known} {context : RedactionContext} (hknown : known.Describes context) :
    (fields : List (String × Twin)) → Twin.AlikeFields isUppercase sofar known fields →
      Matching (sofar ++ Twin.foundInFields isUppercase known fields) →
        Agree (sofar ++ Twin.foundInFields isUppercase known fields)
          (Redactor.redactFields isUppercase context r₁ (Twin.viewFields Prod.fst fields))
          (Redactor.redactFields isUppercase context r₂ (Twin.viewFields Prod.snd fields))
  | [], _, _ => by
    simpa [Twin.foundInFields, Twin.viewFields, Redactor.redactFields, Agree] using h
  | (key, t) :: rest, halike, hmatch => by
    simp only [Twin.foundInFields, ← List.append_assoc] at hmatch ⊢
    have hfirst := redactValue_agree h hknown (some key) t halike.1
      (hmatch.of_subset (List.subset_append_left _ _))
    have hrest := redactFields_agree hfirst.2 hknown rest halike.2 hmatch
    simp only [Twin.viewFields, Redactor.redactFields]
    exact ⟨congrArg₂ (fun value map => (key, value) :: map) hfirst.1 hrest.1, hrest.2⟩

end

variable (isUppercase) in
/-- A document and its twin are put out alike if a fresh redactor reads them alike: it registers the
same in both, and what differs in a text stands in what is registered by then. -/
theorem redactJson_agree (t : Twin) (h : t.ReadsAlike isUppercase) :
    (Redactor.redactJson isUppercase {} (t.view Prod.fst)).1 =
      (Redactor.redactJson isUppercase {} (t.view Prod.snd)).1 := by
  have hknown : Known.Describes {} {} :=
    { file := rfl
      comment := rfl
      filePlaceholder := nofun
      commentPlaceholder := nofun }
  exact (redactValue_agree linked_fresh hknown none t h.alike h.matching).1

/-- A text is cut alike where one thing is found, and stands nowhere else. -/
theorem cutAlike_of_one {pairs : List Pair} {p : Pair} {pieces : TwinText}
    (hpairs : ∀ q ∈ pairs, q = p) (hmem : p ∈ pairs) (hdiffer : p.1 ≠ p.2)
    (hkeys : ∀ q ∈ pieces.hidden, q = p) (hnonempty : ∀ side ∈ sides, side p ≠ [])
    (honly : ∀ side ∈ sides, OnlyAt p (side p) side pieces) : CutAlike pairs pieces.pair := by
  have hkeys : ∀ q, .key q ∈ pieces → q = p := fun q hq =>
    hkeys q (List.mem_filterMap.mpr ⟨.key q, hq, rfl⟩)
  have hearly : Early pairs p :=
    ⟨p, hmem, hdiffer, Prod.fst, List.mem_cons_self, Redactor.before_refl _⟩
  refine ⟨pieces, rfl, fun q hq => ?_, fun side hside q hq _ => ?_⟩
  · rw [hkeys q hq]
    exact ⟨hmem, hearly⟩
  · rw [hpairs q hq]
    refine ⟨hnonempty side hside, fun target _ => (honly side hside).congr fun q hq => ?_⟩
    -- It is not replaced before itself.
    rw [hkeys q hq]
    exact (if_neg fun hbefore => hbefore.1 rfl).symm

namespace SampleDocuments

/-- A piece with two values. -/
def hidden (a b : String) : Piece Char Pair := .key (a.toList, b.toList)

/-- A file, a secret and a text that names the file. -/
def failedFile : Twin :=
  .object [("message", .string [hidden "Movie" "Film", .plain ".mkv failed".toList]),
    ("path", .string [.plain "/media/".toList, hidden "Movie" "Film", .plain ".mkv".toList]),
    ("token", .string [hidden "Hunter22" "Swordfish"])]

end SampleDocuments

open SampleDocuments in
theorem failedFile_agree :
    (Redactor.redactJson Char.isUpper {} (failedFile.view Prod.fst)).1 =
      (Redactor.redactJson Char.isUpper {} (failedFile.view Prod.snd)).1 := by
  have hmessage : TwinText.pair [hidden "Movie" "Film", .plain ".mkv failed".toList] =
      TwinText.pair [hidden "Movie.mkv" "Film.mkv", .plain " failed".toList] := by decide
  have hpath : TwinText.pair [.plain "/media/".toList, hidden "Movie" "Film", .plain ".mkv".toList] =
      TwinText.pair [.plain "/media/".toList, hidden "Movie.mkv" "Film.mkv"] := by decide
  refine redactJson_agree Char.isUpper failedFile ⟨by decide, by decide, ?_⟩
  refine ⟨.inr ⟨by decide, ?_⟩, .inr ⟨by decide, ?_⟩, .inl (by decide),
    trivial⟩
  · rw [hmessage]
    apply cutAlike_of_one (p := ("Movie.mkv".toList, "Film.mkv".toList))
    all_goals decide
  · rw [hpath]
    apply cutAlike_of_one (p := ("Movie.mkv".toList, "Film.mkv".toList))
    all_goals decide

/-! ## Documents that are not read alike -/

theorem not_isUpper_of_isDigit {c : Char} (h : c.isDigit = true) : c.isUpper = false := by
  simp only [Char.isDigit, Bool.and_eq_true, decide_eq_true_eq, ge_iff_le,
    UInt32.le_iff_toNat_le] at h
  rw [Bool.eq_false_iff]
  intro hupper
  have hletter : 'A'.val ≤ c.val := (of_decide_eq_true hupper).1
  exact absurd ((UInt32.le_iff_toNat_le.mp hletter).trans h.2) (by decide)

theorem not_isUpper_of_mem_toDigits {n : Nat} {c : Char} (h : c ∈ Nat.toDigits 10 n) :
    c.isUpper = false :=
  not_isUpper_of_isDigit (Nat.isDigit_of_mem_toDigits (by decide) (by decide) h)

theorem not_isUpper_of_mem_threeDigits {n : Nat} {c : Char} (h : c ∈ threeDigits n) :
    c.isUpper = false := by
  unfold threeDigits List.leftpad at h
  obtain h | h := List.mem_append.mp h
  · rw [List.eq_of_mem_replicate h]
    rfl
  · exact not_isUpper_of_mem_toDigits h

/-- Placeholders have no uppercase letters. -/
theorem IsPlaceholder.not_isUpper {text : Text} (h : IsPlaceholder text) :
    ∀ c ∈ text, c.isUpper = false := by
  have hdigits : ∀ n, ∀ c ∈ threeDigits n, c.isUpper = false := fun n c =>
    not_isUpper_of_mem_threeDigits
  induction h with
  | apiKey n | token n | secret n =>
    simp only [List.forall_mem_append]
    exact ⟨⟨by simp, hdigits n⟩, by simp⟩
  | video n hext =>
    have hletters : ∀ ext ∈ videoExtensions, ∀ c ∈ '.' :: ext, c.isUpper = false := by
      simp [videoExtensions]
    simp only [List.forall_mem_append]
    exact ⟨⟨by simp, hdigits n⟩, hletters _ hext⟩
  | comment hfile hkind index ih =>
    have hletters : ∀ kind ∈ ["video", "audio", "subtitle", "attachment"],
        ∀ c ∈ ' ' :: kind.toList, c.isUpper = false := by simp
    simp only [List.forall_mem_append]
    exact ⟨⟨⟨⟨by simp, ih⟩, hletters _ hkind⟩, by simp⟩, fun c => not_isUpper_of_mem_toDigits⟩

/-- Strings with an uppercase letter stand in no placeholder. -/
theorem hides_of_isUpper {t : Twin} (hproperly : ∀ x ∈ t.texts false, hidesProperly x = true)
    (hmatching : Matching ((t.texts false).flatMap fun x => TwinText.hidden x.2))
    (hnowhereElse : ∀ x ∈ t.texts false, ∀ y ∈ t.texts false, ∀ p ∈ TwinText.hidden x.2,
      ∀ side ∈ sides, OnlyAt p (side p) side y.2)
    (hupper : ∀ x ∈ t.texts false, ∀ p ∈ TwinText.hidden x.2, ∀ side ∈ sides,
      (side p).any Char.isUpper = true) : t.Hides := by
  refine ⟨hproperly, hmatching, hnowhereElse, fun x hx p hp side hside text htext hoccurs => ?_⟩
  obtain ⟨c, hc, hletter⟩ := List.any_eq_true.mp (hupper x hx p hp side hside)
  have hlower := htext.not_isUpper c (hoccurs.subset hc)
  simp [hlower] at hletter

namespace SampleDocuments

/-- The document and its twin, redacted. -/
def redacted (t : Twin) : Json × Json :=
  ((Redactor.redactJson Char.isUpper {} (t.view Prod.fst)).1,
    (Redactor.redactJson Char.isUpper {} (t.view Prod.snd)).1)

/-- A secret in a list. -/
def secretList : Twin :=
  .object [("token", .array [.string [hidden "Hunter22" "Swordfish"]])]

/-- An audio file, whose extension the redactor does not know. -/
def audioFile : Twin :=
  .object [("path", .string [.plain "/media/".toList, hidden "Song" "Tune", .plain ".mka".toList])]

/-- A file whose extension is in uppercase letters. -/
def uppercaseExtension : Twin :=
  .object [("path", .string [.plain "/media/".toList, hidden "Movie" "Film", .plain ".MKV".toList])]

/-- A name of two words in a sentence. -/
def twoWords : Twin :=
  .object [("message", .string [.plain "lost ".toList, hidden "Movie" "Big Film",
    .plain ".mkv today".toList])]

end SampleDocuments

open SampleDocuments in
theorem documents_leak :
    (secretList.Hides ∧ (redacted secretList).1 ≠ (redacted secretList).2) ∧
      (audioFile.Hides ∧ (redacted audioFile).1 ≠ (redacted audioFile).2) ∧
      (uppercaseExtension.Hides ∧
        (redacted uppercaseExtension).1 ≠ (redacted uppercaseExtension).2) ∧
      (twoWords.Hides ∧ (redacted twoWords).1 ≠ (redacted twoWords).2) := by
  refine ⟨⟨?_, by decide +kernel⟩, ⟨?_, by decide +kernel⟩, ⟨?_, by decide +kernel⟩, ?_,
    by decide +kernel⟩
  all_goals
    apply hides_of_isUpper
    all_goals decide +kernel

end

end Voom.Cli.BugReport

-- SUMMARY: The hosts a plugin may contact, and how the host of a URL is found.
import Mathlib.Data.List.Basic
import Mathlib.Data.List.Count
import Mathlib.Data.List.TakeWhile
import Mathlib.Tactic.Common

/-!
# Hosts of URLs

The host function for HTTP requests looks for the host of a URL and lets the
request through if it is among the allowed domains. It takes the first `@` of
all that stands behind the scheme for the end of the userinfo, which is the last
one of the authority. So it decides about the host that is contacted where no
other `@` stands.
-/

namespace Voom.Kernel

/-! ## Texts -/

/-- `find("://")`: the text up to its end, and what stands behind it. -/
def splitScheme : List Char → Option (List Char × List Char)
  | [] => none
  | c :: rest =>
    if [':', '/', '/'].isPrefixOf (c :: rest) then some ([':', '/', '/'], rest.drop 2)
    else (splitScheme rest).map fun (front, behind) => (c :: front, behind)

/-- What stands behind the first such character, if there is one. -/
def behindFirst (sep : Char) (text : List Char) : List Char :=
  if sep ∈ text then (text.dropWhile (· ≠ sep)).tail else text

/-- What stands behind the last one. -/
def behindLast (sep : Char) (text : List Char) : List Char :=
  (text.reverse.takeWhile (· ≠ sep)).reverse

/-- What stands before the last one. -/
def beforeLast (sep : Char) (text : List Char) : List Char :=
  if sep ∈ text then (text.reverse.dropWhile (· ≠ sep)).tail.reverse else text

def inAuthority (c : Char) : Bool := c ∉ ['/', '?', '#']

/-- The host of an authority without userinfo: what stands in brackets, or before the port. -/
def hostPart (authority : List Char) : List Char :=
  if authority.head? = some '[' then
    if ']' ∈ authority then authority.takeWhile (· ≠ ']') ++ [']'] else authority
  else beforeLast ':' authority

/-! ## The check -/

/-- What is looked up behind the scheme. -/
def hostBehindScheme (afterScheme : List Char) : List Char :=
  let afterUserinfo := behindFirst '@' afterScheme
  let authority := afterUserinfo.takeWhile inAuthority
  hostPart authority

def extractUrlHost (url : String) : Except String String :=
  match splitScheme url.toList with
  | none => .error ("invalid URL '" ++ url ++ "': missing scheme")
  | some (_, afterScheme) =>
    let host := hostBehindScheme afterScheme
    if host = [] then .error ("URL '" ++ url ++ "' has no host") else .ok (String.ofList host)

/-- The host state of a plugin, as far as requests look into it. -/
structure HttpHost where
  pluginName : String
  allowedHttpDomains : List String
  deriving DecidableEq, Repr

namespace HttpHost

/-- The empty list allows nothing. -/
def checkHttpDomain (state : HttpHost) (url : String) : Except String Unit :=
  if state.allowedHttpDomains = [] then
    .error ("HTTP access not enabled for plugin '" ++ state.pluginName ++ "' (no allowed domains)")
  else
    match extractUrlHost url with
    | .error e => .error e
    | .ok domain =>
      if domain ∈ state.allowedHttpDomains then .ok ()
      else
        .error ("domain '" ++ domain ++ "' is not in the allowed list for plugin '" ++
          state.pluginName ++ "'")

end HttpHost

/-! ## The host that is contacted -/

/-- The host as URLs are read: the userinfo ends at the last `@` of the authority. -/
def contactedHost (afterScheme : List Char) : List Char :=
  hostPart (behindLast '@' (afterScheme.takeWhile inAuthority))

def urlHost (url : String) : Option String :=
  (splitScheme url.toList).map fun (_, afterScheme) => String.ofList (contactedHost afterScheme)

/-- The URL without path, query and fragment. -/
def withoutPath (url : String) : String :=
  match splitScheme url.toList with
  | none => url
  | some (front, afterScheme) => String.ofList (front ++ afterScheme.takeWhile inAuthority)

/-- Whatever is allowed, the check decides about the contacted host: it lets only allowed hosts
through, and refuses none because of what follows the authority. -/
def Decides (url : String) : Prop :=
  ∀ state : HttpHost,
    (state.checkHttpDomain url = .ok () →
      ∃ host, urlHost url = some host ∧ host ∈ state.allowedHttpDomains) ∧
    ∀ host, urlHost url = some host → host ∈ state.allowedHttpDomains →
      state.checkHttpDomain (withoutPath url) = .ok () → state.checkHttpDomain url = .ok ()

/-- Behind the scheme no `@` stands but the one that ends the userinfo. -/
def noStrayAt (url : String) : Bool :=
  match splitScheme url.toList with
  | none => true
  | some (_, afterScheme) =>
    '@' ∉ afterScheme.dropWhile inAuthority && (afterScheme.takeWhile inAuthority).count '@' ≤ 1

/-- A stray `@` does no harm: the first one is followed by the same host again, or it ends a
userinfo and no host follows. -/
def harmlessAt (url : String) : Bool :=
  match splitScheme url.toList with
  | none => true
  | some (_, afterScheme) =>
    let again := hostPart ((behindFirst '@' afterScheme).takeWhile inAuthority)
    again = contactedHost afterScheme || again = [] && '@' ∈ afterScheme.takeWhile inAuthority

/-! ## Reading URLs -/

theorem splitScheme_append {text front behind : List Char}
    (h : splitScheme text = some (front, behind)) :
    text = front ++ behind ∧ [':', '/', '/'] <:+ front ∧
      ∀ other, splitScheme (front ++ other) = some (front, other) := by
  induction text generalizing front behind with
  | nil => exact nomatch h
  | cons c rest ih =>
    rw [splitScheme] at h
    split at h
    · rename_i hstart
      obtain ⟨rfl, rfl⟩ := Prod.mk.inj (Option.some.inj h)
      obtain ⟨behind, hbehind⟩ := List.isPrefixOf_iff_prefix.mp hstart
      rw [← hbehind] at hstart ⊢
      obtain ⟨rfl, rfl⟩ := List.cons.inj hbehind
      exact ⟨rfl, List.suffix_rfl, fun other => rfl⟩
    · rename_i hnot
      obtain ⟨⟨front', behind'⟩, hrest, h⟩ := Option.map_eq_some_iff.mp h
      obtain ⟨rfl, rfl⟩ := Prod.mk.inj h
      obtain ⟨rfl, hsuffix, hother⟩ := ih hrest
      refine ⟨rfl, hsuffix.trans (List.suffix_cons c front'), fun other => ?_⟩
      -- Whether the scheme ends here can be seen before what stands behind it.
      have hlength : 3 ≤ front'.length := hsuffix.length_le
      have hstart : ∀ other, [':', '/', '/'].isPrefixOf (c :: (front' ++ other)) =
          [':', '/', '/'].isPrefixOf (c :: front') := by
        intro other
        match front', hlength with
        | d :: e :: _, _ => rfl
      rw [List.cons_append, splitScheme, hstart, ← hstart behind', if_neg hnot, hother]
      rfl

/-- What is cut off the authority starts with what ends it. -/
theorem takeWhile_append_dropWhile {p : Char → Bool} {front text : List Char}
    (h : ∀ c ∈ front, p c = true) : (front ++ text.dropWhile p).takeWhile p = front := by
  rw [List.takeWhile_append_of_pos h]
  have hnone : (text.dropWhile p).takeWhile p = [] := by
    induction text with
    | nil => rfl
    | cons c text ih =>
      cases hc : p c with
      | true => rwa [List.dropWhile_cons_of_pos hc]
      | false =>
        rw [List.dropWhile_cons_of_neg (by simp [hc]), List.takeWhile_cons_of_neg (by simp [hc])]
  rw [hnone, List.append_nil]

theorem behindFirst_append {sep : Char} {text : List Char} (h : sep ∈ text) (other : List Char) :
    behindFirst sep (text ++ other) = behindFirst sep text ++ other := by
  unfold behindFirst
  rw [if_pos (List.mem_append_left _ h), if_pos h]
  induction text with
  | nil => exact absurd h List.not_mem_nil
  | cons c text ih =>
    by_cases hc : c = sep
    · rw [List.cons_append, List.dropWhile_cons_of_neg (by simp [hc]),
        List.dropWhile_cons_of_neg (by simp [hc])]
      rfl
    · rw [List.cons_append, List.dropWhile_cons_of_pos (by simp [hc]),
        List.dropWhile_cons_of_pos (by simp [hc])]
      exact ih ((List.mem_cons.mp h).resolve_left (Ne.symm hc))

theorem behindFirst_subset (sep : Char) (text : List Char) : behindFirst sep text ⊆ text := by
  unfold behindFirst
  split
  · exact fun c hc => List.dropWhile_subset _ (List.mem_of_mem_tail hc)
  · exact List.Subset.refl text

/-- With an `@` in the authority only the authority is looked at. -/
theorem hostBehindScheme_of_mem {afterScheme : List Char}
    (h : '@' ∈ afterScheme.takeWhile inAuthority) :
    hostBehindScheme afterScheme =
      hostPart (behindFirst '@' (afterScheme.takeWhile inAuthority)) := by
  have hsplit := List.takeWhile_append_dropWhile (p := inAuthority) (l := afterScheme)
  have hauthority : ∀ c ∈ behindFirst '@' (afterScheme.takeWhile inAuthority),
      inAuthority c = true := fun c hc => List.mem_takeWhile_imp (behindFirst_subset _ _ hc)
  have hcut : (behindFirst '@' afterScheme).takeWhile inAuthority =
      behindFirst '@' (afterScheme.takeWhile inAuthority) := by
    conv_lhs => rw [← hsplit, behindFirst_append h]
    exact takeWhile_append_dropWhile hauthority
  exact congrArg hostPart hcut

theorem hostBehindScheme_of_notMem {afterScheme : List Char} (h : '@' ∉ afterScheme) :
    hostBehindScheme afterScheme = hostPart (afterScheme.takeWhile inAuthority) := by
  unfold hostBehindScheme behindFirst
  rw [if_neg h]

/-- Without path the authority is looked at. -/
theorem hostBehindScheme_authority (afterScheme : List Char) :
    hostBehindScheme (afterScheme.takeWhile inAuthority) =
      if '@' ∈ afterScheme.takeWhile inAuthority then hostBehindScheme afterScheme
      else hostPart (afterScheme.takeWhile inAuthority) := by
  split
  · rename_i h
    rw [hostBehindScheme_of_mem h, hostBehindScheme_of_mem (by rwa [List.takeWhile_idem]),
      List.takeWhile_idem]
  · rename_i h
    rw [hostBehindScheme_of_notMem h, List.takeWhile_idem]

theorem behindLast_of_notMem {sep : Char} {text : List Char} (h : sep ∉ text) :
    behindLast sep text = text := by
  unfold behindLast
  rw [List.takeWhile_eq_self_iff.mpr, List.reverse_reverse]
  intro c hc
  exact decide_eq_true fun heq => h (heq ▸ List.mem_reverse.mp hc)

/-- The only `@` is the first and the last one. -/
theorem behindFirst_eq_behindLast {sep : Char} {text : List Char} (h : text.count sep ≤ 1) :
    behindFirst sep text = behindLast sep text := by
  by_cases hmem : sep ∈ text
  · obtain ⟨front, behind, rfl⟩ := List.append_of_mem hmem
    rw [List.count_append, List.count_cons_self] at h
    have hfront : sep ∉ front := List.count_eq_zero.mp (by omega)
    have hbehind : sep ∉ behind := List.count_eq_zero.mp (by omega)
    have hdrop : ∀ c ∈ front, decide (c ≠ sep) = true := fun c hc =>
      decide_eq_true fun heq => hfront (heq ▸ hc)
    have htake : ∀ c ∈ behind.reverse, decide (c ≠ sep) = true := fun c hc =>
      decide_eq_true fun heq => hbehind (heq ▸ List.mem_reverse.mp hc)
    unfold behindFirst behindLast
    rw [if_pos hmem, List.dropWhile_append_of_pos hdrop, List.reverse_append, List.reverse_cons,
      List.append_assoc, List.takeWhile_append_of_pos htake]
    simp
  · rw [behindLast_of_notMem hmem]
    exact if_neg hmem

theorem host_eq_of_noStrayAt {afterScheme : List Char}
    (htail : '@' ∉ afterScheme.dropWhile inAuthority)
    (hcount : (afterScheme.takeWhile inAuthority).count '@' ≤ 1) :
    hostBehindScheme afterScheme = contactedHost afterScheme := by
  unfold contactedHost
  by_cases hmem : '@' ∈ afterScheme.takeWhile inAuthority
  · rw [hostBehindScheme_of_mem hmem, behindFirst_eq_behindLast hcount]
  · have hnone : '@' ∉ afterScheme := by
      rw [← List.takeWhile_append_dropWhile (p := inAuthority) (l := afterScheme), List.mem_append]
      exact not_or.mpr ⟨hmem, htail⟩
    rw [hostBehindScheme_of_notMem hnone, behindLast_of_notMem hmem]

/-! ## What the check decides about -/

theorem checkHttpDomain_eq_ok {state : HttpHost} {url : String} :
    state.checkHttpDomain url = .ok () ↔
      ∃ front afterScheme, splitScheme url.toList = some (front, afterScheme) ∧
        hostBehindScheme afterScheme ≠ [] ∧
        String.ofList (hostBehindScheme afterScheme) ∈ state.allowedHttpDomains := by
  unfold HttpHost.checkHttpDomain extractUrlHost
  split
  · rename_i hnone
    simp [hnone]
  · cases hscheme : splitScheme url.toList with
    | none => simp
    | some parts =>
      obtain ⟨front, afterScheme⟩ := parts
      simp only [Option.some.injEq, Prod.mk.injEq]
      by_cases hempty : hostBehindScheme afterScheme = []
      · simp [hempty]
      · by_cases hmem : String.ofList (hostBehindScheme afterScheme) ∈ state.allowedHttpDomains
        · simp [hempty, hmem]
        · simp [hempty, hmem]

section

variable {url : String} {front afterScheme : List Char}
  (hscheme : splitScheme url.toList = some (front, afterScheme))

include hscheme

theorem checkHttpDomain_eq_ok_iff {state : HttpHost} :
    state.checkHttpDomain url = .ok () ↔ hostBehindScheme afterScheme ≠ [] ∧
      String.ofList (hostBehindScheme afterScheme) ∈ state.allowedHttpDomains := by
  rw [checkHttpDomain_eq_ok, hscheme]
  constructor
  · rintro ⟨_, _, ⟨⟩, hok⟩
    exact hok
  · exact fun hok => ⟨front, afterScheme, rfl, hok⟩

theorem splitScheme_withoutPath :
    splitScheme (withoutPath url).toList = some (front, afterScheme.takeWhile inAuthority) := by
  unfold withoutPath
  rw [hscheme]
  simp only [String.toList_ofList]
  exact (splitScheme_append hscheme).2.2 _

theorem urlHost_eq : urlHost url = some (String.ofList (contactedHost afterScheme)) := by
  unfold urlHost
  rw [hscheme]
  rfl

/-- It decides about the contacted host where it looks up that host, or none whatever the path. -/
theorem decides_iff_host :
    Decides url ↔ hostBehindScheme afterScheme = contactedHost afterScheme ∨
      hostBehindScheme afterScheme = [] ∧ '@' ∈ afterScheme.takeWhile inAuthority := by
  have hpath := splitScheme_withoutPath hscheme
  constructor
  · intro h
    by_cases hempty : hostBehindScheme afterScheme = []
    · by_cases hat : '@' ∈ afterScheme.takeWhile inAuthority
      · exact .inr ⟨hempty, hat⟩
      · -- Without path the contacted host is found, so it must be none.
        left
        by_contra hne
        have hcontacted : contactedHost afterScheme =
            hostBehindScheme (afterScheme.takeWhile inAuthority) := by
          rw [hostBehindScheme_authority, if_neg hat, contactedHost, behindLast_of_notMem hat]
        have hrefused := (h ⟨"", [String.ofList (contactedHost afterScheme)]⟩).2 _
          (urlHost_eq hscheme) List.mem_cons_self
        rw [checkHttpDomain_eq_ok_iff hpath, checkHttpDomain_eq_ok_iff hscheme, ← hcontacted]
          at hrefused
        have hnone : contactedHost afterScheme ≠ [] := fun hnil => hne (hempty.trans hnil.symm)
        exact (hrefused ⟨hnone, List.mem_cons_self⟩).1 hempty
    · -- Only the host that is looked up is allowed.
      left
      have hlooked := (h ⟨"", [String.ofList (hostBehindScheme afterScheme)]⟩).1
        ((checkHttpDomain_eq_ok_iff hscheme).mpr ⟨hempty, List.mem_cons_self⟩)
      obtain ⟨host, hhost, hmem⟩ := hlooked
      rw [urlHost_eq hscheme] at hhost
      obtain rfl := Option.some.inj hhost
      exact (String.ofList_inj.mp (List.mem_singleton.mp hmem)).symm
  · intro h state
    rw [checkHttpDomain_eq_ok_iff hscheme, checkHttpDomain_eq_ok_iff hpath, urlHost_eq hscheme]
    obtain hsame | ⟨hempty, hat⟩ := h
    · refine ⟨fun hok => ⟨_, rfl, hsame ▸ hok.2⟩, ?_⟩
      rintro host ⟨⟩ hmem ⟨hfound, -⟩
      refine ⟨fun hnil => hfound ?_, hsame ▸ hmem⟩
      rw [hostBehindScheme_authority]
      split
      · exact hnil
      · rename_i hat
        rw [← hnil, hsame, contactedHost, behindLast_of_notMem hat]
    · refine ⟨fun hok => absurd hempty hok.1, fun host _ _ hok => absurd ?_ hok.1⟩
      rw [hostBehindScheme_authority, if_pos hat, hempty]

end

/-- The check decides about the contacted host exactly where no `@` but that of the userinfo stands
behind the scheme, or where the stray one does no harm. -/
theorem decides_iff (url : String) : Decides url ↔ noStrayAt url = true ∨ harmlessAt url = true := by
  unfold noStrayAt harmlessAt
  cases hscheme : splitScheme url.toList with
  | none =>
    simp only [or_self, iff_true]
    intro state
    refine ⟨fun hok => ?_, fun host hhost => ?_⟩
    · obtain ⟨front, afterScheme, hparts, -⟩ := checkHttpDomain_eq_ok.mp hok
      exact nomatch hscheme.symm.trans hparts
    · simp [urlHost, hscheme] at hhost
  | some parts =>
    obtain ⟨front, afterScheme⟩ := parts
    have hharmless : (hostPart ((behindFirst '@' afterScheme).takeWhile inAuthority) =
        contactedHost afterScheme ||
          hostPart ((behindFirst '@' afterScheme).takeWhile inAuthority) = [] &&
            '@' ∈ afterScheme.takeWhile inAuthority) = true ↔ Decides url := by
      rw [decides_iff_host hscheme]
      simp [hostBehindScheme]
    simp only [hharmless]
    refine ⟨.inr, fun h => h.elim (fun hstray => ?_) id⟩
    rw [Bool.and_eq_true, decide_eq_true_eq, decide_eq_true_eq] at hstray
    exact (decides_iff_host hscheme).mpr (.inl (host_eq_of_noStrayAt hstray.1 hstray.2))

/-- With a stray `@` in the path or the userinfo a request is let through to a host that is not
allowed, or refused although its host is allowed. -/
theorem stray_at_misread :
    (HttpHost.mk "p" ["good.org"]).checkHttpDomain "http://evil.org/@good.org/" = .ok () ∧
      urlHost "http://evil.org/@good.org/" = some "evil.org" ∧
      (HttpHost.mk "p" ["good.org"]).checkHttpDomain "http://u@good.org:x@evil.org/" = .ok () ∧
      urlHost "http://u@good.org:x@evil.org/" = some "evil.org" ∧
      (HttpHost.mk "p" ["good.org"]).checkHttpDomain "http://good.org/users/@me" ≠ .ok () ∧
      urlHost "http://good.org/users/@me" = some "good.org" ∧
      (HttpHost.mk "p" ["good.org"]).checkHttpDomain (withoutPath "http://good.org/users/@me") =
        .ok () := by
  decide

end Voom.Kernel

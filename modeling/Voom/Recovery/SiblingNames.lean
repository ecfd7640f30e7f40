-- SUMMARY: Which sibling backups recovery takes back to their originals, and which of them collide.
import Mathlib.Data.List.Forall2
import Voom.Domain.OsPath
import Voom.Domain.Rfc3339
import Voom.Recovery.Orphans

/-!
# Names of sibling backups

A sibling backup is named after the text of the file name, with some characters
replaced, and after the second it is made in. Recovery reads the original path
off that name. Here names are bytes and instants have all the years of the
calendar, so that everything the name leaves out can be told: what is no UTF-8,
the replaced characters, and the fraction of the second.
-/

namespace Voom

open Rfc3339

namespace BackupManager

/-! ## Timestamps -/

/-- `now.format("%Y%m%d%H%M%S")` -/
def formatTimestamp (now : DateTime) : List Char :=
  yearText now.year ++ (digits 2 now.month ++ (digits 2 now.day ++
    (digits 2 now.hour ++ (digits 2 now.minute ++ digits 2 now.second))))

/-- The instants differ in the fraction of their second at most. -/
def SameSecond (t u : DateTime) : Prop :=
  t.year = u.year ∧ t.month = u.month ∧ t.day = u.day ∧ t.hour = u.hour ∧ t.minute = u.minute ∧
    t.second = u.second

/-- The year has four digits. -/
def FourDigitYear (t : DateTime) : Prop := 0 ≤ t.year ∧ t.year ≤ 9999

instance (t : DateTime) : Decidable (FourDigitYear t) := inferInstanceAs (Decidable (_ ∧ _))

/-- The text tells the second. -/
theorem formatTimestamp_inj {t u : DateTime} :
    formatTimestamp t = formatTimestamp u ↔ SameSecond t u := by
  constructor
  · intro h
    unfold formatTimestamp at h
    obtain ⟨hyear, h⟩ := List.append_inj' h (by simp [digits_length])
    obtain ⟨hmonth, h⟩ := List.append_inj h (by simp [digits_length])
    obtain ⟨hday, h⟩ := List.append_inj h (by simp [digits_length])
    obtain ⟨hhour, h⟩ := List.append_inj h (by simp [digits_length])
    obtain ⟨hminute, hsecond⟩ := List.append_inj h (by simp [digits_length])
    have := t.month_range
    have := u.month_range
    have := t.hour_lt
    have := u.hour_lt
    have := t.minute_lt
    have := u.minute_lt
    have := t.second_le
    have := u.second_le
    exact ⟨yearText_inj hyear, digits_inj (by omega) (by omega) hmonth,
      digits_inj t.day_lt u.day_lt hday, digits_inj (by omega) (by omega) hhour,
      digits_inj (by omega) (by omega) hminute, digits_inj (by omega) (by omega) hsecond⟩
  · rintro ⟨hyear, hmonth, hday, hhour, hminute, hsecond⟩
    unfold formatTimestamp
    rw [hyear, hmonth, hday, hhour, hminute, hsecond]

theorem dot_not_mem_formatTimestamp (t : DateTime) : '.' ∉ formatTimestamp t := by
  have hdigits (width n : Nat) : '.' ∉ digits width n := by
    intro hmem
    exact absurd (isDigit_digits width n '.' hmem) (by decide)
  have hyear : '.' ∉ yearText t.year := by
    by_cases hfour : 0 ≤ t.year ∧ t.year ≤ 9999
    · unfold yearText
      rw [if_pos hfour]
      exact hdigits _ _
    · obtain ⟨sign, rest, hsign, -, heq, -, hrest⟩ := yearText_signed hfour
      rw [heq]
      rintro (_ | ⟨_, hmem⟩)
      · rcases hsign with ⟨hcontra, -⟩ | ⟨hcontra, -⟩
        · exact absurd hcontra (by decide)
        · exact absurd hcontra (by decide)
      · exact absurd (hrest '.' hmem) (by decide)
  unfold formatTimestamp
  simp only [List.mem_append, not_or]
  exact ⟨hyear, hdigits _ _, hdigits _ _, hdigits _ _, hdigits _ _, hdigits _ _⟩

/-- The text has fourteen digits exactly if the year has four. -/
theorem fourteen_iff (t : DateTime) :
    ((formatTimestamp t).length = 14 ∧ (formatTimestamp t).all Char.isDigit = true) ↔
      FourDigitYear t := by
  constructor
  · rintro ⟨-, hall⟩
    by_contra hnot
    obtain ⟨sign, rest, hsign, -, heq, -⟩ := yearText_signed hnot
    have hmem : sign ∈ formatTimestamp t := by
      unfold formatTimestamp
      rw [heq]
      exact List.mem_append_left _ List.mem_cons_self
    have hdigit := List.all_eq_true.mp hall sign hmem
    rcases hsign with ⟨rfl, -⟩ | ⟨rfl, -⟩
    · exact absurd hdigit (by decide)
    · exact absurd hdigit (by decide)
  · intro h
    have hyear : yearText t.year = digits 4 t.year.toNat := if_pos h
    unfold formatTimestamp
    rw [hyear]
    refine ⟨by simp [digits_length], ?_⟩
    simp only [List.all_append, Bool.and_eq_true, List.all_eq_true]
    exact ⟨isDigit_digits _ _, isDigit_digits _ _, isDigit_digits _ _, isDigit_digits _ _,
      isDigit_digits _ _, isDigit_digits _ _⟩

/-! ## Names -/

/-- The characters that are replaced in the name of a backup. -/
def replacedChars : List Char := ['/', '\\', '\x00']

/-- The texts are one but for the replaced characters and what replaces them. -/
def Alike (a b : String) : Prop :=
  List.Forall₂ (fun c d => c = d ∨ c ∈ '_' :: replacedChars ∧ d ∈ '_' :: replacedChars)
    a.toList b.toList

theorem sanitizeName_eq_self_iff {s : String} :
    sanitizeName s = s ↔ ∀ c ∈ s.toList, c ∉ replacedChars := by
  unfold sanitizeName
  conv_lhs => rhs; rw [← String.ofList_toList (s := s), ← List.map_id s.toList]
  rw [String.ofList_inj, List.map_inj_left]
  refine forall₂_congr fun c _ => ?_
  simp only [replacedChars, List.mem_cons, List.not_mem_nil, or_false, id]
  split
  · rename_i hc
    refine iff_of_false (fun heq => ?_) (not_not_intro hc)
    subst heq
    revert hc
    decide
  · rename_i hc
    exact iff_of_true rfl hc

theorem sanitizeName_inj {a b : String} : sanitizeName a = sanitizeName b ↔ Alike a b := by
  unfold sanitizeName Alike
  rw [String.ofList_inj, ← List.forall₂_eq_eq_eq, List.forall₂_map_left_iff,
    List.forall₂_map_right_iff]
  suffices hchar : ∀ c d : Char, ((if c = '/' ∨ c = '\\' ∨ c = '\x00' then '_' else c) =
      if d = '/' ∨ d = '\\' ∨ d = '\x00' then '_' else d) ↔
        (c = d ∨ c ∈ '_' :: replacedChars ∧ d ∈ '_' :: replacedChars) by
    simp only [hchar]
  intro c d
  simp only [replacedChars, List.mem_cons, List.not_mem_nil, or_false]
  grind

/-- A name is kept: it is the text of its backup's name. -/
def Kept (name : OsString) : Prop :=
  ∃ text : String, name = text.toByteArray ∧ ∀ c ∈ text.toList, c ∉ replacedChars

theorem sanitize_eq_iff {name : OsString} :
    (sanitizeName (toStringLossy name)).toByteArray = name ↔ Kept name := by
  constructor
  · intro h
    have htext := toStringLossy_text (sanitizeName (toStringLossy name))
    rw [h] at htext
    rw [← htext] at h
    exact ⟨toStringLossy name, h.symm, sanitizeName_eq_self_iff.mp htext.symm⟩
  · rintro ⟨text, rfl, htext⟩
    rw [toStringLossy_text, sanitizeName_eq_self_iff.mpr htext]

/-! ## Backups of paths of bytes -/

namespace Os

/-- `backup_path_for` -/
def backupPathFor (config : BackupConfig) (path : OsPath) (uniqueId : Uuid) (now : DateTime) :
    OsPath :=
  let fileName := (path.fileName.map fun name => sanitizeName (toStringLossy name)).getD "unknown"
  let sibling :=
    ((path.parent.getD ⟨[".".toByteArray]⟩).join ".voom-backup").join
      (String.ofList (fileName.toList ++ '.' :: formatTimestamp now ++ ".vbak".toList))
  if config.useGlobalDir then
    match config.backupDir with
    | some dir => dir.toOs.join (String.ofList (uuidText uniqueId ++ '_' :: fileName.toList))
    | none => sibling
  else sibling

/-- On the paths of texts it is what it was. -/
theorem backupPathFor_toOs (config : BackupConfig) (path : Path) (uniqueId : Uuid) {t : DateTime}
    {now : Timestamp} (h : formatTimestamp t = now.render) :
    backupPathFor config path.toOs uniqueId t =
      (BackupManager.backupPathFor config path uniqueId now).toOs := by
  have hname : (path.toOs.fileName.map fun name => sanitizeName (toStringLossy name)) =
      path.fileName.map sanitizeName := by
    rw [Path.fileName_toOs, Option.map_map]
    refine congrArg (Option.map · path.fileName) ?_
    funext name
    simp
  have hdir : path.toOs.parent.getD ⟨[".".toByteArray]⟩ = (path.parent.getD ⟨["."]⟩).toOs := by
    rw [Path.parent_toOs]
    cases path.parent <;> rfl
  unfold backupPathFor BackupManager.backupPathFor
  simp only [hname, hdir, h]
  cases config.useGlobalDir with
  | false => simp
  | true =>
    cases config.backupDir with
    | none => simp
    | some dir => simp

/-- Backups go to the directory beside the original. -/
def SiblingMode (config : BackupConfig) : Prop :=
  config.useGlobalDir = false ∨ config.backupDir = none

/-- The text of the name. -/
def nameText (path : OsPath) : String := (path.fileName.map toStringLossy).getD "unknown"

/-- The directory of the original. -/
def originalDir (path : OsPath) : OsPath := path.parent.getD ⟨[".".toByteArray]⟩

section

variable {config : BackupConfig} (hsibling : SiblingMode config)

include hsibling in
theorem backupPathFor_sibling (path : OsPath) (uniqueId : Uuid) (now : DateTime) :
    backupPathFor config path uniqueId now = ((originalDir path).join ".voom-backup").join
      (String.ofList ((sanitizeName (nameText path)).toList ++ '.' :: formatTimestamp now ++
        ".vbak".toList)) := by
  have hname : (path.fileName.map fun name => sanitizeName (toStringLossy name)).getD "unknown" =
      sanitizeName (nameText path) := by
    unfold nameText
    cases path.fileName with
    | none => rfl
    | some name => rfl
  unfold backupPathFor
  simp only [hname]
  rcases hsibling with hglobal | hdir
  · rw [hglobal]
    rfl
  · rw [hdir]
    split <;> rfl

/-- The last dot is where the name ends. -/
theorem append_dot_inj {a b s t : List Char} (hs : '.' ∉ s) (ht : '.' ∉ t) :
    a ++ '.' :: s = b ++ '.' :: t ↔ a = b ∧ s = t := by
  constructor
  · intro h
    have hback := congrArg (fun l => l.reverse.takeWhile (· ≠ '.')) h
    rw [Recovery.takeWhile_reverse_append a fun c hc heq => hs (heq ▸ hc),
      Recovery.takeWhile_reverse_append b fun c hc heq => ht (heq ▸ hc)] at hback
    obtain rfl := List.reverse_inj.mp hback
    exact ⟨List.append_cancel_right h, rfl⟩
  · rintro ⟨rfl, rfl⟩
    rfl

/-- Two requests have one path for their backups. -/
def Collide (p q : OsPath) (t u : DateTime) : Prop :=
  originalDir p = originalDir q ∧ Alike (nameText p) (nameText q) ∧ SameSecond t u

include hsibling in
theorem backupPathFor_eq_iff {p q : OsPath} {id id' : Uuid} {t u : DateTime} :
    backupPathFor config p id t = backupPathFor config q id' u ↔ Collide p q t u := by
  have hname {a b : List Char} : String.ofList (a ++ '.' :: formatTimestamp t ++ ".vbak".toList) =
      String.ofList (b ++ '.' :: formatTimestamp u ++ ".vbak".toList) ↔ a = b ∧ SameSecond t u := by
    rw [String.ofList_inj, List.append_cancel_right_eq,
      append_dot_inj (dot_not_mem_formatTimestamp t) (dot_not_mem_formatTimestamp u),
      formatTimestamp_inj]
  rw [backupPathFor_sibling hsibling, backupPathFor_sibling hsibling, OsPath.join_inj,
    OsPath.join_inj, hname, String.toList_inj, sanitizeName_inj, and_iff_left rfl]
  rfl

end

end Os

end BackupManager

namespace Recovery.Os

open BackupManager BackupManager.Os

/-! ## Originals of paths of bytes -/

/-- `infer_original_path` -/
def inferOriginalPath (normalizePath : OsPath → OsPath) (backupPath : OsPath) : Option OsPath :=
  backupPath.parent.bind fun backupDir =>
    backupDir.parent.bind fun originalDir =>
      backupPath.fileName.bind fun backupFilename =>
        (stripSuffix ".vbak".toList (toStringLossy backupFilename).toList).bind fun withoutExt =>
          (stripTimestampSuffix withoutExt).map fun originalFilename =>
            (normalizePath originalDir).join (String.ofList originalFilename)

/-- On the paths of texts it is what it was. -/
theorem inferOriginalPath_toOs {normalizePath : OsPath → OsPath} {normalize : Path → Path}
    (h : ∀ dir : Path, normalizePath dir.toOs = (normalize dir).toOs) (backupPath : Path) :
    inferOriginalPath normalizePath backupPath.toOs =
      (Recovery.inferOriginalPath normalize backupPath).map Path.toOs := by
  unfold inferOriginalPath Recovery.inferOriginalPath
  rw [Path.parent_toOs, Path.fileName_toOs]
  cases backupPath.parent with
  | none => rfl
  | some backupDir =>
    simp only [Option.map_some, Option.bind_some, Path.parent_toOs]
    cases backupDir.parent with
    | none => rfl
    | some originalDir =>
      cases backupPath.fileName with
      | none => rfl
      | some backupFilename =>
        simp only [Option.map_some, Option.bind_some, toStringLossy_text, Option.map_bind,
          Option.map_map, Function.comp_def, h, Path.toOs_join]

theorem stripTimestampSuffix_eq {name stamp : List Char} (h : '.' ∉ stamp) :
    stripTimestampSuffix (name ++ '.' :: stamp) =
      if stamp.length = 14 ∧ stamp.all Char.isDigit then some name else none := by
  have hback := takeWhile_reverse_append name fun c hc heq => h (heq ▸ hc)
  have hne : ¬stamp.length = (name ++ '.' :: stamp).length := by
    rw [List.length_append, List.length_cons]
    omega
  have hfront : (name ++ '.' :: stamp).take ((name ++ '.' :: stamp).length - stamp.length - 1) =
      name := by
    have hlength : (name ++ '.' :: stamp).length - stamp.length - 1 = name.length := by
      rw [List.length_append, List.length_cons]
      omega
    rw [hlength, List.take_left]
  unfold stripTimestampSuffix
  simp only [hback, List.reverse_reverse]
  rw [if_neg hne, hfront]

section

variable {normalizePath : OsPath → OsPath} {config : BackupConfig} (hsibling : SiblingMode config)

include hsibling in
/-- The name of the original as the name of its backup has it, if the timestamp is recognised. -/
theorem infer_backup (path : OsPath) (id : Uuid) (t : DateTime) :
    inferOriginalPath normalizePath (backupPathFor config path id t) =
      if FourDigitYear t then
        some ((normalizePath (originalDir path)).join (sanitizeName (nameText path)))
      else none := by
  rw [backupPathFor_sibling hsibling]
  unfold inferOriginalPath
  simp only [OsPath.parent_join, OsPath.fileName_join, Option.bind_some, toStringLossy_text,
    String.toList_ofList, stripSuffix_append,
    stripTimestampSuffix_eq (dot_not_mem_formatTimestamp t), fourteen_iff]
  split
  · rw [Option.map_some, String.ofList_toList]
  · rfl

include hsibling in
/-- The original is inferred exactly if its name is kept and the year has four digits. -/
theorem infer_backup_iff {path : OsPath}
    (hnormal : ∀ dir, path.parent = some dir → normalizePath dir = dir) (id : Uuid) (t : DateTime) :
    inferOriginalPath normalizePath (backupPathFor config path id t) = some path ↔
      (∃ name, path.fileName = some name ∧ Kept name) ∧ FourDigitYear t := by
  rw [infer_backup hsibling]
  by_cases hyear : FourDigitYear t
  · rw [if_pos hyear, and_iff_left hyear, Option.some_inj]
    cases hname : path.fileName with
    | none =>
      -- the root is no file in a directory
      refine iff_of_false (fun heq => ?_) (fun ⟨name, hsome, _⟩ => nomatch hsome)
      rw [← heq, OsPath.fileName_join] at hname
      cases hname
    | some name =>
      obtain ⟨dir, hdir, hpath⟩ := OsPath.split_of_fileName hname
      have htext : nameText path = toStringLossy name := by
        unfold nameText
        rw [hname]
        rfl
      have hnormal : normalizePath (originalDir path) = dir := by
        unfold originalDir
        rw [hdir]
        exact hnormal dir hdir
      rw [hnormal, htext]
      constructor
      · intro heq
        refine ⟨name, rfl, sanitize_eq_iff.mp ?_⟩
        rw [← heq, OsPath.fileName_join] at hname
        exact Option.some.inj hname
      · rintro ⟨name', hsame, hkept⟩
        obtain rfl := Option.some.inj hsame
        rw [hpath]
        unfold OsPath.join
        rw [sanitize_eq_iff.mpr hkept]
  · rw [if_neg hyear]
    exact iff_of_false nofun fun h => hyear h.2

end

/-! ## Backups on disk -/

/-- A call of `backup_file` that copies its file. -/
structure Request where
  path : OsPath
  id : Uuid
  now : DateTime

/-- Where its copy goes. -/
def Request.backup (config : BackupConfig) (r : Request) : OsPath :=
  backupPathFor config r.path r.id r.now

/-- One `fs::copy` after the other. -/
def backUp (config : BackupConfig) (disk : OsPath → Option Content) (requests : List Request) :
    OsPath → Option Content :=
  requests.foldl (fun disk r => Function.update disk (r.backup config) (disk r.path)) disk

section

variable {config : BackupConfig} {disk : OsPath → Option Content} {requests : List Request}

theorem backUp_of_ne {path : OsPath} (h : ∀ r ∈ requests, path ≠ r.backup config) :
    backUp config disk requests path = disk path := by
  induction requests generalizing disk with
  | nil => rfl
  | cons r requests ih =>
    rw [List.forall_mem_cons] at h
    exact (ih h.2).trans (Function.update_of_ne h.1 _ _)

/-- A backup that no later copy goes to holds what its original held. -/
theorem backUp_keeps {front back : List Request} {r : Request}
    (h : ∀ r' ∈ back, r.backup config ≠ r'.backup config) :
    backUp config disk (front ++ r :: back) (r.backup config) = backUp config disk front r.path := by
  have hsplit : backUp config disk (front ++ r :: back) = backUp config
      (Function.update (backUp config disk front) (r.backup config)
        (backUp config disk front r.path)) back := List.foldl_append
  rw [hsplit, backUp_of_ne h, Function.update_self]

end

/-- In the sibling mode an original is inferred exactly if its name is a text without replaced
characters and the year has four digits; two backups have one path exactly if their originals
lie in one directory, their names are alike, and both are made in one second; and while no two
backups collide, each holds what its original held. -/
theorem sibling_backups_exact_iff {config : BackupConfig} (hsibling : SiblingMode config)
    (normalizePath : OsPath → OsPath) :
    (∀ (path : OsPath) id t, (∀ dir, path.parent = some dir → normalizePath dir = dir) →
      (inferOriginalPath normalizePath (backupPathFor config path id t) = some path ↔
        (∃ name, path.fileName = some name ∧ Kept name) ∧ FourDigitYear t)) ∧
    (∀ (p q : OsPath) id id' t u,
      backupPathFor config p id t ≠ backupPathFor config q id' u ↔ ¬Collide p q t u) ∧
    ∀ disk requests, (requests.Pairwise fun r r' => ¬Collide r.path r'.path r.now r'.now) →
      ∀ front r back, requests = front ++ r :: back →
        backUp config disk requests (r.backup config) = backUp config disk front r.path := by
  refine ⟨fun path id t hnormal => infer_backup_iff hsibling hnormal id t,
    fun p q id id' t u => not_congr (backupPathFor_eq_iff hsibling), ?_⟩
  rintro disk _ hpairwise front r back rfl
  refine backUp_keeps fun r' hr' => (not_congr (backupPathFor_eq_iff hsibling)).mpr ?_
  have hback := (List.pairwise_append.mp hpairwise).2.1
  exact (List.pairwise_cons.mp hback).1 r' hr'

namespace SampleFilms

/-- A name with a backslash, which is no separator. -/
def film : OsPath := (Path.mk ["films", "a\\b.mkv"]).toOs

def twin : OsPath := (Path.mk ["films", "a_b.mkv"]).toOs

/-- The beginning of 2024, and half a second later. -/
def newYear (nanosecond : Nat) (h : nanosecond < 1000000000) : DateTime where
  year := 2024
  month := 1
  day := 1
  hour := 0
  minute := 0
  second := 0
  nanosecond := nanosecond
  month_range := by decide
  day_range := by decide
  hour_lt := by decide
  minute_lt := by decide
  second_le := by decide
  nanosecond_lt := h

def midnight : DateTime := newYear 0 (by decide)

def later : DateTime := newYear 500000000 (by decide)

theorem sibling_default : SiblingMode {} := .inl rfl

theorem kept_twin : Kept "a_b.mkv".toByteArray :=
  ⟨"a_b.mkv", rfl, by simp [replacedChars]⟩

/-- The twin is inferred, and its backups of different seconds lie side by side. -/
theorem twin_recovered :
    inferOriginalPath id (backupPathFor {} twin 0 midnight) = some twin ∧
      ∀ q t, ¬Collide twin q midnight t →
        backupPathFor {} twin 0 midnight ≠ backupPathFor {} q 0 t := by
  obtain ⟨hinfer, hpaths, -⟩ := sibling_backups_exact_iff sibling_default id
  refine ⟨(hinfer twin 0 midnight fun _ _ => rfl).mpr ⟨⟨_, rfl, kept_twin⟩, by decide⟩, ?_⟩
  exact fun q t h => (hpaths twin q 0 0 midnight t).mpr h

/-- The film is taken for its twin, whose backup has the same path, and so has a second backup of
the film in the same second. -/
theorem film_lost :
    inferOriginalPath id (backupPathFor {} film 0 midnight) = some twin ∧ film ≠ twin ∧
      backupPathFor {} film 0 midnight = backupPathFor {} twin 1 midnight ∧
      midnight ≠ later ∧
      backupPathFor {} film 0 midnight = backupPathFor {} film 1 later := by
  have hfilm : nameText film = "a\\b.mkv" := toStringLossy_text "a\\b.mkv"
  have htwin : nameText twin = "a_b.mkv" := toStringLossy_text "a_b.mkv"
  have hsame : sanitizeName "a\\b.mkv" = "a_b.mkv" := by decide
  have halike : Alike (nameText film) (nameText twin) := by
    rw [← sanitizeName_inj, hfilm, htwin]
    decide
  have hself : Alike (nameText film) (nameText film) := sanitizeName_inj.mp rfl
  refine ⟨?_, fun heq => ?_, ?_, ?_, ?_⟩
  · rw [infer_backup sibling_default, if_pos (by decide), hfilm, hsame]
    rfl
  · have hbytes := Option.some.inj (congrArg OsPath.fileName heq)
    exact absurd (String.toByteArray_inj.mp hbytes) (by decide)
  · exact (backupPathFor_eq_iff sibling_default).mpr
      ⟨rfl, halike, rfl, rfl, rfl, rfl, rfl, rfl⟩
  · exact fun heq => absurd (congrArg DateTime.nanosecond heq) (by decide)
  · exact (backupPathFor_eq_iff sibling_default).mpr ⟨rfl, hself, rfl, rfl, rfl, rfl, rfl, rfl⟩

end SampleFilms

end Recovery.Os

end Voom

-- SUMMARY: How a shell reads a simple command: words, quotes and what is left to the shell.
import Mathlib.Data.List.Basic

/-!
# Words of a shell

A command line is read into words: blanks separate them, a backslash, single
quotes and double quotes take away the meaning of characters and are removed.
Where the line asks the shell for anything else (an operator, an expansion, a
pattern, a comment, a second command) nothing is read.
-/

namespace Voom.Lib.Shell

/-- How the next character is read. -/
inductive Mode where
  | plain
  | escaped
  | single
  | double
  | doubleEscaped
  deriving DecidableEq, Repr

def blanks : List Char := [' ', '\t']

/-- Operators, expansions and patterns. The tilde counts wherever it stands. -/
def specials : List Char :=
  ['|', '&', ';', '<', '>', '(', ')', '$', '\x60', '*', '?', '[', '~', '\n']

/-- What has its own meaning outside quotes. -/
def meaningful : List Char := blanks ++ specials ++ ['\\', '\'', '"', '#']

/-- The word with one character more. -/
def push (word : Option (List Char)) (c : Char) : Option (List Char) := some (word.getD [] ++ [c])

/-- The words from here on, the one that is being read first. -/
def read : Mode → Option (List Char) → List Char → Option (List (List Char))
  | .plain, word, [] => some word.toList
  | .escaped, _, [] | .single, _, [] | .double, _, [] | .doubleEscaped, _, [] => none
  | .plain, word, c :: rest =>
    if c ∈ blanks then (read .plain none rest).map (word.toList ++ ·)
    else if c ∈ specials then none
    else if c = '\\' then read .escaped word rest
    else if c = '\'' then read .single (some (word.getD [])) rest
    else if c = '"' then read .double (some (word.getD [])) rest
    -- A comment starts where a word could.
    else if c = '#' ∧ word = none then none
    else read .plain (push word c) rest
  | .escaped, word, c :: rest =>
    -- An escaped line end joins the lines.
    if c = '\n' then read .plain word rest else read .plain (push word c) rest
  | .single, word, c :: rest =>
    if c = '\'' then read .plain word rest else read .single (push word c) rest
  | .double, word, c :: rest =>
    if c = '"' then read .plain word rest
    else if c = '$' ∨ c = '\x60' then none
    else if c = '\\' then read .doubleEscaped word rest
    else read .double (push word c) rest
  | .doubleEscaped, word, c :: rest =>
    if c = '\n' then read .double word rest
    else if c ∈ ['$', '\x60', '"', '\\'] then read .double (push word c) rest
    else read .double (push (push word '\\') c) rest

/-- Words that start a compound command where a command starts. -/
def reservedWords : List (List Char) :=
  ["!", "\x7b", "\x7d", "case", "do", "done", "elif", "else", "esac", "fi", "for", "if", "in", "then",
    "until", "while"].map String.toList

theorem words_lawful : LawfulBEq (List Char) := inferInstance

attribute [local instance] words_lawful

/-- The words of a simple command: it does not start with a reserved word or an assignment, in
quotes or not. -/
def command (line : List Char) : Option (List (List Char)) :=
  (read .plain none line).filter fun words =>
    !words.head?.any fun first => first ∈ reservedWords || '=' ∈ first

/-! ## Reading texts -/

theorem notMem_meaningful {c : Char} (h : c ∉ meaningful) :
    c ∉ blanks ∧ c ∉ specials ∧ c ≠ '\\' ∧ c ≠ '\'' ∧ c ≠ '"' ∧ c ≠ '#' := by
  simp only [meaningful, List.mem_append, List.mem_cons, List.not_mem_nil, or_false, not_or] at h
  obtain ⟨⟨hblank, hspecial⟩, hescape, hsingle, hdouble, hcomment⟩ := h
  exact ⟨hblank, hspecial, hescape, hsingle, hdouble, hcomment⟩

/-- Characters without a meaning are read as they are. -/
theorem read_plain_append {text : List Char} (h : ∀ c ∈ text, c ∉ meaningful) (word : List Char)
    (rest : List Char) :
    read .plain (some word) (text ++ rest) = read .plain (some (word ++ text)) rest := by
  induction text generalizing word with
  | nil => rw [List.append_nil, List.nil_append]
  | cons c text ih =>
    obtain ⟨hc, htext⟩ := List.forall_mem_cons.mp h
    obtain ⟨hblank, hspecial, hescape, hsingle, hdouble, -⟩ := notMem_meaningful hc
    rw [List.cons_append, read, if_neg hblank, if_neg hspecial, if_neg hescape, if_neg hsingle,
      if_neg hdouble, if_neg (by simp), push, Option.getD_some,
      ih htext, List.append_assoc, List.singleton_append]

/-- A word without a meaning is read as it is. -/
theorem read_plain_word {text : List Char} (h : ∀ c ∈ text, c ∉ meaningful) (hne : text ≠ [])
    (rest : List Char) : read .plain none (text ++ rest) = read .plain (some text) rest := by
  cases text with
  | nil => exact absurd rfl hne
  | cons c text =>
    obtain ⟨hc, htext⟩ := List.forall_mem_cons.mp h
    obtain ⟨hblank, hspecial, hescape, hsingle, hdouble, hcomment⟩ := notMem_meaningful hc
    rw [List.cons_append, read, if_neg hblank, if_neg hspecial, if_neg hescape, if_neg hsingle,
      if_neg hdouble, if_neg fun hboth => hcomment hboth.1, push,
      read_plain_append htext]
    rfl

/-- In single quotes every character is read as it is, and each quote is written outside. -/
def quoteEscape (text : List Char) : List Char :=
  text.flatMap fun c => if c = '\'' then ['\'', '\\', '\'', '\''] else [c]

theorem read_single_append (text word rest : List Char) :
    read .single (some word) (quoteEscape text ++ '\'' :: rest) =
      read .plain (some (word ++ text)) rest := by
  induction text generalizing word with
  | nil =>
    rw [List.append_nil]
    rfl
  | cons c text ih =>
    by_cases hquote : c = '\''
    · -- The quotes end, the quote stands escaped between them, and they start again.
      subst hquote
      have hword := ih (word ++ ['\''])
      rw [List.append_assoc, List.singleton_append] at hword
      exact hword
    · have hescape : quoteEscape (c :: text) = c :: quoteEscape text := by
        simp [quoteEscape, hquote]
      rw [hescape, List.cons_append, read, if_neg hquote, push, Option.getD_some, ih,
        List.append_assoc, List.singleton_append]

/-- A text in single quotes is one word. -/
theorem read_singleQuoted (text rest : List Char) :
    read .plain none ('\'' :: (quoteEscape text ++ '\'' :: rest)) = read .plain (some text) rest :=
  read_single_append text [] rest

/-- A blank ends a word. -/
theorem read_blank (word rest : List Char) :
    read .plain (some word) (' ' :: rest) = (read .plain none rest).map (word :: ·) := rfl

end Voom.Lib.Shell

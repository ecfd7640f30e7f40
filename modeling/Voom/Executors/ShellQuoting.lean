-- SUMMARY: A recorded command line is read by a shell as the command that was run.
import Voom.Executors.Tools
import Voom.Lib.Shell

/-!
# Recorded command lines

Words are put in single quotes when they have a character in them that a shell
does not read as itself, so the shell reads each as the word it was made of.
-/

namespace Voom.Executors

open Lib

/-- Every character with a meaning asks for quotes. -/
theorem notMem_meaningful_of_not_needsQuotes {s : String} (h : needsQuotes s = false) :
    ∀ c ∈ s.toList, c ∉ Shell.meaningful := by
  have hquoted : ∀ c ∈ Shell.meaningful, (isWhitespace c ||
      "\"'\\$`!#&|;()\x7b\x7d[]<>?*~".toList.contains c) = true :=
    List.all_eq_true.mp (by decide)
  intro c hc hmeaning
  exact List.any_eq_false.mp h c hc (hquoted c hmeaning)

theorem singleQuoted_toList (s : String) :
    (singleQuoted s).toList = '\'' :: (Shell.quoteEscape s.toList ++ ['\'']) := by
  have hescape : (s.toList.flatMap fun c => if c.toNat = 39 then "'\\''".toList else [c]) =
      Shell.quoteEscape s.toList := by
    unfold Shell.quoteEscape
    refine List.flatMap_congr fun c _ => ?_
    have hquote : c.toNat = 39 ↔ c = '\'' :=
      ⟨fun h => Char.toNat_inj.mp (h.trans (by decide)), fun h => by rw [h]; decide⟩
    simp only [hquote]
    rfl
  unfold singleQuoted
  rw [hescape]
  simp

/-- A word as it is recorded. -/
def quotedWord (s : String) : String := if s = "" || needsQuotes s then singleQuoted s else s

theorem read_quotedWord (s : String) (rest : List Char) :
    Shell.read .plain none ((quotedWord s).toList ++ rest) =
      Shell.read .plain (some s.toList) rest := by
  unfold quotedWord
  split
  · rw [singleQuoted_toList, List.cons_append, List.append_assoc]
    exact Shell.read_singleQuoted s.toList rest
  · rename_i hplain
    rw [Bool.or_eq_true, not_or, decide_eq_true_eq, Bool.not_eq_true] at hplain
    refine Shell.read_plain_word (notMem_meaningful_of_not_needsQuotes hplain.2) ?_ rest
    exact fun hempty => hplain.1 (String.toList_eq_nil_iff.mp hempty)

/-- Recorded words are read one after the other. -/
theorem read_quotedWords (first : String) (args : List String) :
    Shell.read .plain none (" ".intercalate ((first :: args).map quotedWord)).toList =
      some ((first :: args).map String.toList) := by
  induction args generalizing first with
  | nil =>
    have hread := read_quotedWord first []
    rw [List.append_nil] at hread
    rw [List.map_singleton, String.intercalate_singleton, hread]
    rfl
  | cons arg args ih =>
    have hjoin : (" ".intercalate ((first :: arg :: args).map quotedWord)).toList =
        (quotedWord first).toList ++
          ' ' :: (" ".intercalate ((arg :: args).map quotedWord)).toList := by
      simp [String.toList_intercalate]
    rw [hjoin, read_quotedWord, Shell.read_blank, ih]
    rfl

theorem shellQuoteArgs_eq {tool : String} (h : tool ≠ "") (args : List String) :
    shellQuoteArgs tool args = " ".intercalate ((tool :: args).map quotedWord) := by
  have htool : quotedWord tool = if needsQuotes tool then singleQuoted tool else tool := by
    simp [quotedWord, h]
  unfold shellQuoteArgs
  rw [List.map_cons, htool]
  rfl

/-- The shell reads a recorded command line as the tool and its arguments. -/
theorem shellQuoteArgs_command (tool : String) (args : List String) (hempty : tool ≠ "")
    (hequals : '=' ∉ tool.toList) (hreserved : tool.toList ∉ Shell.reservedWords) :
    Shell.command (shellQuoteArgs tool args).toList = some ((tool :: args).map String.toList) := by
  unfold Shell.command
  rw [shellQuoteArgs_eq hempty, read_quotedWords]
  simp [Option.filter, hequals, hreserved]

theorem ffmpeg_command :
    Shell.command (shellQuoteArgs "/opt/my tools/ffmpeg"
        ["-i", "It's a film; really.mkv", "", "-metadata", "title=a\nb"]).toList =
      some (["/opt/my tools/ffmpeg", "-i", "It's a film; really.mkv", "", "-metadata",
        "title=a\nb"].map String.toList) :=
  shellQuoteArgs_command _ _ (by decide) (by decide) (by decide)

end Voom.Executors

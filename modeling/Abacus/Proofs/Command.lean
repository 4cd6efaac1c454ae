import Abacus.Command
import Abacus.Proofs.Letters
/-!
What lines at the prompt are commands.
-/

namespace Abacus
namespace Command

theorem ofLine_eq_exit_iff {line : List Char} :
    ofLine line = exit ↔ sameLetters (trim line) "exit".toList = true := by
  constructor
  · intro h
    simp only [ofLine] at h
    split_ifs at h with _ hexit
    · exact hexit
    · split at h
      · split_ifs at h
      · contradiction
  · intro h
    have hne : (trim line).isEmpty ≠ true := by
      intro hempty
      rw [List.isEmpty_iff.mp hempty] at h
      contradiction
    simp only [ofLine]
    rw [if_neg hne, if_pos h]

/-- What is evaluated is the line without its outer blanks. -/
theorem eq_trim_of_ofLine_eq_evaluate {line expression : List Char}
    (h : ofLine line = evaluate expression) : expression = trim line := by
  simp only [ofLine] at h
  split_ifs at h
  split at h
  · split_ifs at h
    exact (Command.evaluate.inj h).symm
  · exact (Command.evaluate.inj h).symm

/-- The text is a keyword, or the keyword for a file and a space stand at its beginning. -/
def isCommand (text : List Char) : Bool :=
  sameLetters text "exit".toList || sameLetters text "history".toList ||
    sameLetters text "help".toList || sameLetters text "file".toList ||
    sameLetters (text.take 5) "file ".toList

/-- A line that is no command is evaluated, unless it is blank. -/
theorem ofLine_of_not_isCommand {line : List Char} (h : isCommand (trim line) = false) :
    ofLine line = if (trim line).isEmpty then blank else evaluate (trim line) := by
  simp only [isCommand, Bool.or_eq_false_iff] at h
  obtain ⟨⟨⟨⟨hexit, hhistory⟩, hhelp⟩, hfile⟩, hpath⟩ := h
  by_cases hempty : (trim line).isEmpty = true
  · simp only [ofLine]
    rw [if_pos hempty, if_pos hempty]
  rw [if_neg hempty]
  simp only [ofLine, hempty, hexit, hhistory, hhelp, hfile, Bool.false_eq_true, if_false]
  split
  · next keyword rest hsplit =>
    -- Five bytes that spell the keyword are five characters.
    have hkeyword : sameLetters keyword "file ".toList ≠ true := by
      intro hsame
      have hlength : keyword.length = 5 := by
        simpa using congrArg List.length (sameLetters_iff.mp hsame)
      obtain ⟨happend, -⟩ := eq_append_of_splitAtByte? hsplit
      rw [happend, ← hlength, List.take_left, hsame] at hpath
      contradiction
    rw [if_neg hkeyword]
  · rfl

end Command
end Abacus

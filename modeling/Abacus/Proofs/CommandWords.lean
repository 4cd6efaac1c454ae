import Abacus.Proofs.Command
import Abacus.Proofs.DrawnRange
import Abacus.Proofs.StreamedLines
/-!
Which command a line is, by the bytes of the line without its outer blanks.

The words of the commands are made of characters of one byte. So bytes that spell a word are whole
characters, and a text whose first five bytes spell `file` and a space can be cut behind them,
whatever characters follow. What follows is not blank, because no blank ends the text.
-/

namespace Abacus

/-! ## Blanks around a text -/

theorem trim_append_of_blank (text : List Char) {after : List Char}
    (h : ∀ c ∈ after, isBlank c = true) : trim (text ++ after) = trim text := by
  induction after using List.reverseRecOn with
  | nil => rw [List.append_nil]
  | append_singleton after c ih =>
    rw [← List.append_assoc, trim_concat_of_isBlank (h c (by simp))]
    exact ih fun d hd => h d (List.mem_append_left _ hd)

theorem trim_blank_append {before : List Char} (h : ∀ c ∈ before, isBlank c = true)
    (text : List Char) : trim (before ++ text) = trim text := by
  rw [trim, trim, List.dropWhile_append_of_pos h]

theorem length_trim_le (text : List Char) : (trim text).length ≤ text.length := by
  rw [trim, trimEnd_eq_rdropWhile]
  exact (List.rdropWhile_prefix _ _).length_le.trans (List.dropWhile_suffix _).length_le

/-! ## Bytes that spell a word -/

theorem length_utf8 (text : List Char) : (utf8 text).length = byteLength text := by
  induction text with
  | nil => rfl
  | cons c text ih =>
    rw [utf8_cons, List.length_append, String.length_utf8EncodeChar, ih, byteLength_cons]

/-- The bytes are those of the word, with some of its letters as capitals. -/
def BytesSpell (word : List Char) (bytes : List UInt8) : Prop :=
  List.Forall₂ (fun c b => b.toNat = c.toNat ∨ b.toNat = c.toUpper.toNat) word bytes

/-- The character is no capital, and it takes one byte, also as a capital. -/
structure IsPlain (c : Char) : Prop where
  toLower : c.toLower = c
  lt : c.toNat < 128
  toUpper_lt : c.toUpper.toNat < 128

instance (c : Char) : Decidable (IsPlain c) :=
  decidable_of_iff (c.toLower = c ∧ c.toNat < 128 ∧ c.toUpper.toNat < 128)
    ⟨fun ⟨hlower, hlt, hupper⟩ => ⟨hlower, hlt, hupper⟩, fun h => ⟨h.toLower, h.lt, h.toUpper_lt⟩⟩

namespace IsPlain

variable {c : Char} (h : IsPlain c)

include h

theorem toLower_eq_iff {d : Char} : d.toLower = c ↔ d = c ∨ d = c.toUpper := by
  constructor
  · intro hd
    by_cases hcapital : d.isUpper = true
    · refine .inr ?_
      rw [← hd, Char.toUpper_toLower_eq_toUpper]
      exact (Char.toUpper_eq_of_not_isLower (Char.not_isLower_of_isUpper hcapital)).symm
    · exact .inl ((Char.toLower_eq_of_not_isUpper hcapital).symm.trans hd)
  · rintro (rfl | rfl)
    · exact h.toLower
    · rw [Char.toLower_toUpper_eq_toLower, h.toLower]

/-- The byte of the character or its capital is a whole character. -/
theorem utf8EncodeChar_of_mem {d : Char} {b : UInt8}
    (hb : b.toNat = c.toNat ∨ b.toNat = c.toUpper.toNat) (hmem : b ∈ String.utf8EncodeChar d) :
    d.toLower = c ∧ String.utf8EncodeChar d = [b] := by
  have hlt : b.toNat < 128 := by
    rcases hb with hb | hb <;> rw [hb]
    · exact h.lt
    · exact h.toUpper_lt
  have hd : d.toNat = b.toNat := toNat_eq_of_mem_utf8EncodeChar hlt hmem
  refine ⟨h.toLower_eq_iff.mpr ?_, ?_⟩
  · rcases hb with hb | hb
    · exact .inl (Char.toNat_inj.mp (hd.trans hb))
    · exact .inr (Char.toNat_inj.mp (hd.trans hb))
  · have hsize : d.utf8Size = 1 :=
      Char.utf8Size_eq_one_iff.mpr (Nat.le_of_lt_succ (hd.trans_lt hlt))
    rw [String.utf8EncodeChar_eq_singleton hsize, List.mem_singleton] at hmem
    rw [String.utf8EncodeChar_eq_singleton hsize, hmem]

theorem utf8EncodeChar_of_toLower {d : Char} (hd : d.toLower = c) :
    ∃ b : UInt8, String.utf8EncodeChar d = [b] ∧
      (b.toNat = c.toNat ∨ b.toNat = c.toUpper.toNat) := by
  have hcases := h.toLower_eq_iff.mp hd
  have hlt : d.toNat < 128 := by
    rcases hcases with rfl | rfl
    · exact h.lt
    · exact h.toUpper_lt
  have hbyte : d.val.toUInt8.toNat = d.toNat := by
    show d.toNat % 2 ^ 8 = d.toNat
    omega
  refine ⟨d.val.toUInt8, String.utf8EncodeChar_eq_singleton
    (Char.utf8Size_eq_one_iff.mpr (Nat.le_of_lt_succ hlt)), ?_⟩
  rw [hbyte]
  exact hcases.imp (congrArg Char.toNat) (congrArg Char.toNat)

end IsPlain

section

variable {word : List Char} (hword : ∀ c ∈ word, IsPlain c)

include hword

theorem bytesSpell_of_sameLetters {text : List Char} (h : sameLetters text word = true) :
    BytesSpell word (utf8 text) := by
  induction word generalizing text with
  | nil =>
    rw [sameLetters_iff] at h
    rw [List.map_eq_nil_iff.mp h]
    exact .nil
  | cons c word ih =>
    obtain ⟨d, rest, rfl, hd, hrest⟩ := exists_of_sameLetters_cons h
    have hplain := hword c List.mem_cons_self
    obtain ⟨b, hencoded, hb⟩ := hplain.utf8EncodeChar_of_toLower (hd.trans hplain.toLower)
    rw [utf8_cons, hencoded]
    exact .cons hb (ih (fun e he => hword e (List.mem_cons_of_mem c he)) hrest)

/-- A text can be cut behind bytes that spell a word. -/
theorem exists_append_of_bytesSpell {text : List Char} {first second : List UInt8}
    (htext : utf8 text = first ++ second) (h : BytesSpell word first) :
    ∃ front rest, text = front ++ rest ∧ sameLetters front word = true ∧
      utf8 front = first ∧ utf8 rest = second := by
  induction h generalizing text with
  | nil => exact ⟨[], text, rfl, sameLetters_refl [], rfl, htext⟩
  | @cons c b word first hb _ ih =>
    cases text with
    | nil => contradiction
    | cons d text =>
      have hplain := hword c List.mem_cons_self
      have hmem : b ∈ String.utf8EncodeChar d := by
        obtain ⟨e, es, hes⟩ := List.exists_cons_of_ne_nil (utf8EncodeChar_ne_nil d)
        rw [utf8_cons, hes, List.cons_append, List.cons_append] at htext
        rw [hes, (List.cons.inj htext).1]
        exact List.mem_cons_self
      obtain ⟨hd, hencoded⟩ := hplain.utf8EncodeChar_of_mem hb hmem
      rw [utf8_cons, hencoded, List.singleton_append, List.cons_append] at htext
      obtain ⟨front, rest, rfl, hsame, hfront, hrest⟩ :=
        ih (fun e he => hword e (List.mem_cons_of_mem c he)) (List.cons.inj htext).2
      refine ⟨d :: front, rest, rfl, ?_, ?_, hrest⟩
      · rw [sameLetters_iff] at hsame ⊢
        rw [List.map_cons, List.map_cons, hsame, hd, hplain.toLower]
      · rw [utf8_cons, hencoded, hfront, List.singleton_append]

theorem sameLetters_iff_bytesSpell {text : List Char} :
    sameLetters text word = true ↔ BytesSpell word (utf8 text) := by
  refine ⟨bytesSpell_of_sameLetters hword, fun h => ?_⟩
  obtain ⟨front, rest, rfl, hsame, -, hrest⟩ :=
    exists_append_of_bytesSpell hword (List.append_nil _).symm h
  have hnil : rest = [] := by
    by_contra hne
    exact utf8_ne_nil hne hrest
  rwa [hnil, List.append_nil]

/-- The text starts with the word exactly if its first bytes spell the word. -/
theorem exists_splitAtByte?_iff_bytesSpell {text : List Char} {count : Nat}
    (hcount : word.length = count) :
    (∃ front rest, splitAtByte? text count = some (front, rest) ∧
        sameLetters front word = true) ↔
      BytesSpell word ((utf8 text).take count) := by
  constructor
  · rintro ⟨front, rest, hsplit, hsame⟩
    obtain ⟨rfl, hlength⟩ := eq_append_of_splitAtByte? hsplit
    rw [utf8_append, ← hlength, ← length_utf8, List.take_left]
    exact bytesSpell_of_sameLetters hword hsame
  · intro h
    obtain ⟨front, rest, rfl, hsame, hfront, -⟩ :=
      exists_append_of_bytesSpell hword (List.take_append_drop _ _).symm h
    have hlength : byteLength front = count := by
      rw [← length_utf8, hfront, ← h.length_eq, hcount]
    exact ⟨front, rest, hlength ▸ splitAtByte?_append front rest, hsame⟩

end

/-! ## Words that are commands -/

namespace Command

/-- The word that is the command by itself. -/
def word? : Command → Option (List Char)
  | exit => some "exit".toList
  | history => some "history".toList
  | help => some "help".toList
  | fileMissingPath => some "file".toList
  | blank | file _ | evaluate _ => none

theorem isPlain_of_word? {command : Command} {word : List Char} (h : command.word? = some word) :
    ∀ c ∈ word, IsPlain c := by
  cases command <;> cases h <;> exact forall_mem_of_all (by decide)

variable {line : List Char}

theorem ofLine_eq_blank_iff : ofLine line = blank ↔ trim line = [] := by
  constructor
  · intro h
    simp only [ofLine] at h
    split_ifs at h with hempty
    · exact List.isEmpty_iff.mp hempty
    · split at h
      · split_ifs at h
      · contradiction
  · intro h
    simp only [ofLine]
    rw [if_pos (List.isEmpty_iff.mpr h)]

/-- A word is recognised before anything else is looked at. -/
theorem ofLine_of_word? {command : Command} {word : List Char} (hword : command.word? = some word)
    (h : sameLetters (trim line) word = true) : ofLine line = command := by
  have hsame : ∀ other, sameLetters (trim line) other = sameLetters word other := by
    intro other
    rw [sameLetters, sameLetters, sameLetters_iff.mp h]
  have hempty : (trim line).isEmpty = word.isEmpty := by
    rw [← List.isEmpty_map, sameLetters_iff.mp h, List.isEmpty_map]
  simp only [ofLine, hsame, hempty]
  cases command <;> cases hword <;> rfl

theorem sameLetters_of_word? {word : List Char} (hword : (ofLine line).word? = some word) :
    sameLetters (trim line) word = true := by
  simp only [ofLine] at hword
  split_ifs at hword with hempty hexit hhistory hhelp hfile
  · contradiction
  · cases hword
    exact hexit
  · cases hword
    exact hhistory
  · cases hword
    exact hhelp
  · cases hword
    exact hfile
  · split at hword
    · split_ifs at hword <;> contradiction
    · contradiction

theorem ofLine_eq_iff_bytesSpell {command : Command} {word : List Char}
    (hword : command.word? = some word) :
    ofLine line = command ↔ BytesSpell word (utf8 (trim line)) := by
  rw [← sameLetters_iff_bytesSpell (isPlain_of_word? hword)]
  refine ⟨?_, ofLine_of_word? hword⟩
  rintro rfl
  exact sameLetters_of_word? hword

/-! ## The path of a file -/

theorem ofLine_of_splitAtByte? {keyword rest : List Char}
    (hsplit : splitAtByte? (trim line) 5 = some (keyword, rest))
    (h : sameLetters keyword "file ".toList = true) : ofLine line = file (trim rest) := by
  obtain ⟨htext, -⟩ := eq_append_of_splitAtByte? hsplit
  have hletters : (trim line).map Char.toLower = "file ".toList ++ rest.map Char.toLower := by
    rw [htext, List.map_append, sameLetters_iff.mp h]
    rfl
  -- None of the words goes on with a space.
  have hword : ∀ word, word = "exit".toList ∨ word = "history".toList ∨ word = "help".toList ∨
      word = "file".toList → sameLetters (trim line) word = false := by
    intro word hword
    rw [sameLetters, hletters]
    rcases hword with rfl | rfl | rfl | rfl <;> rfl
  have hempty : (trim line).isEmpty = false := by
    rw [← List.isEmpty_map, hletters]
    rfl
  simp only [ofLine, hempty, hword _ (.inl rfl), hword _ (.inr (.inl rfl)),
    hword _ (.inr (.inr (.inl rfl))), hword _ (.inr (.inr (.inr rfl))), hsplit, h,
    Bool.false_eq_true, if_false, if_true]

theorem exists_of_ofLine_eq_file {path : List Char} (h : ofLine line = file path) :
    ∃ keyword rest, splitAtByte? (trim line) 5 = some (keyword, rest) ∧
      sameLetters keyword "file ".toList = true ∧ path = trim rest := by
  simp only [ofLine] at h
  split_ifs at h
  split at h
  · next keyword rest hsplit =>
    split_ifs at h with hkeyword
    exact ⟨keyword, rest, hsplit, hkeyword, (Command.file.inj h).symm⟩
  · contradiction

/-- The word before the path ends with a space, so a blank path would end the text with it. -/
theorem trim_ne_nil_of_file {keyword rest : List Char} (htext : trim line = keyword ++ rest)
    (h : sameLetters keyword "file ".toList = true) : trim rest ≠ [] := by
  intro hnil
  have hblank := trim_eq_nil_iff.mp hnil
  have hletters : "file ".toList = "file".toList ++ [' '] := by decide
  rw [hletters] at h
  obtain ⟨word, space, rfl, -, hspace⟩ := exists_of_sameLetters_append h
  have hnoLetter : ∀ c ∈ [' '], c.isAlpha = false := forall_mem_of_all (by decide)
  obtain rfl := eq_of_sameLetters hspace hnoLetter
  have htrim : trim line = trim word :=
    calc trim line = trim (word ++ ([' '] ++ rest)) := by
          rw [← List.append_assoc, ← htext, trim_trim]
      _ = trim word := trim_append_of_blank word fun c hc => by
          rcases List.mem_append.mp hc with hc | hc
          · rw [List.mem_singleton.mp hc]
            decide
          · exact hblank c hc
  have hlength := length_trim_le word
  rw [← htrim, htext, List.length_append, List.length_append, List.length_singleton] at hlength
  omega

theorem exists_ofLine_eq_file_iff :
    (∃ path, ofLine line = file path) ↔ BytesSpell "file ".toList ((utf8 (trim line)).take 5) := by
  have hplain : ∀ c ∈ "file ".toList, IsPlain c := forall_mem_of_all (by decide)
  rw [← exists_splitAtByte?_iff_bytesSpell hplain (by decide)]
  constructor
  · rintro ⟨path, h⟩
    obtain ⟨keyword, rest, hsplit, hkeyword, -⟩ := exists_of_ofLine_eq_file h
    exact ⟨keyword, rest, hsplit, hkeyword⟩
  · rintro ⟨keyword, rest, hsplit, hkeyword⟩
    exact ⟨trim rest, ofLine_of_splitAtByte? hsplit hkeyword⟩

/-! ## Every line -/

/-- The command is the one that the text asks for. -/
structure IsAskedBy (command : Command) (text : List Char) : Prop where
  blank_iff : command = blank ↔ text = []
  exit_iff : command = exit ↔ BytesSpell "exit".toList (utf8 text)
  history_iff : command = history ↔ BytesSpell "history".toList (utf8 text)
  help_iff : command = help ↔ BytesSpell "help".toList (utf8 text)
  fileMissingPath_iff : command = fileMissingPath ↔ BytesSpell "file".toList (utf8 text)
  file_iff : (∃ path, command = file path) ↔ BytesSpell "file ".toList ((utf8 text).take 5)
  /-- The text can be cut behind the five bytes, and something is left when the rest is trimmed. -/
  path : ∀ path, command = file path → IsBoundary text 5 ∧ path ≠ [] ∧
    ∃ rest, utf8 rest = (utf8 text).drop 5 ∧ path = trim rest
  evaluate_iff : ∀ expression, command = evaluate expression ↔
    expression = text ∧ text ≠ [] ∧ ¬ BytesSpell "exit".toList (utf8 text) ∧
      ¬ BytesSpell "history".toList (utf8 text) ∧ ¬ BytesSpell "help".toList (utf8 text) ∧
      ¬ BytesSpell "file".toList (utf8 text) ∧ ¬ BytesSpell "file ".toList ((utf8 text).take 5)

theorem path_of_ofLine_eq_file {path : List Char} (h : ofLine line = file path) :
    IsBoundary (trim line) 5 ∧ path ≠ [] ∧
      ∃ rest, utf8 rest = (utf8 (trim line)).drop 5 ∧ path = trim rest := by
  obtain ⟨keyword, rest, hsplit, hkeyword, rfl⟩ := exists_of_ofLine_eq_file h
  obtain ⟨htext, hlength⟩ := eq_append_of_splitAtByte? hsplit
  refine ⟨⟨keyword, rest, htext, hlength⟩, trim_ne_nil_of_file htext hkeyword, rest, ?_, rfl⟩
  rw [htext, utf8_append, ← hlength, ← length_utf8, List.drop_left]

/-- What is left for evaluation is what no other command asks for. -/
theorem ofLine_eq_evaluate_iff {expression : List Char} :
    ofLine line = evaluate expression ↔ expression = trim line ∧ ofLine line ≠ blank ∧
      ofLine line ≠ exit ∧ ofLine line ≠ history ∧ ofLine line ≠ help ∧
      ofLine line ≠ fileMissingPath ∧ ¬ ∃ path, ofLine line = file path := by
  constructor
  · intro h
    refine ⟨eq_trim_of_ofLine_eq_evaluate h, ?_⟩
    simp [h]
  · rintro ⟨rfl, hblank, hexit, hhistory, hhelp, hmissing, hfile⟩
    cases h : ofLine line with
    | blank | exit | history | help | fileMissingPath => contradiction
    | file path => exact absurd ⟨path, h⟩ hfile
    | evaluate expression => rw [eq_trim_of_ofLine_eq_evaluate h]

theorem ofLine_append_of_blank {before after : List Char} (hbefore : ∀ c ∈ before, isBlank c = true)
    (hafter : ∀ c ∈ after, isBlank c = true) (line : List Char) :
    ofLine (before ++ line ++ after) = ofLine line := by
  simp only [ofLine, trim_append_of_blank _ hafter, trim_blank_append hbefore]

/--
Every line is the command that its bytes without the outer blanks ask for, and blanks around the
line make no difference. A path is never empty, and the place where it is cut off lies between two
characters.
-/
theorem ofLine_isAskedBy (line : List Char) :
    (ofLine line).IsAskedBy (trim line) ∧
      ∀ before after, (∀ c ∈ before, isBlank c = true) → (∀ c ∈ after, isBlank c = true) →
        ofLine (before ++ line ++ after) = ofLine line := by
  refine ⟨?_, fun before after hbefore hafter => ofLine_append_of_blank hbefore hafter line⟩
  have hexit : ofLine line = exit ↔ BytesSpell "exit".toList (utf8 (trim line)) :=
    ofLine_eq_iff_bytesSpell rfl
  have hhistory : ofLine line = history ↔ BytesSpell "history".toList (utf8 (trim line)) :=
    ofLine_eq_iff_bytesSpell rfl
  have hhelp : ofLine line = help ↔ BytesSpell "help".toList (utf8 (trim line)) :=
    ofLine_eq_iff_bytesSpell rfl
  have hmissing : ofLine line = fileMissingPath ↔ BytesSpell "file".toList (utf8 (trim line)) :=
    ofLine_eq_iff_bytesSpell rfl
  refine ⟨ofLine_eq_blank_iff, hexit, hhistory, hhelp, hmissing, exists_ofLine_eq_file_iff,
    fun path => path_of_ofLine_eq_file, fun expression => ?_⟩
  rw [← hexit, ← hhistory, ← hhelp, ← hmissing, ← exists_ofLine_eq_file_iff, ne_eq,
    ← ofLine_eq_blank_iff]
  exact ofLine_eq_evaluate_iff

/-- Blanks around a path are no part of it, and the fifth byte may lie inside a character. -/
theorem ofLine_isAskedBy_of_wide_path :
    ofLine (['\u3000'] ++ "FiLe \u3000é.txt".toList ++ [' ', '\t']) = file "é.txt".toList ∧
      (ofLine "FiLe \u3000é.txt".toList).IsAskedBy "FiLe \u3000é.txt".toList ∧
      ofLine "fileé".toList = evaluate "fileé".toList := by
  refine ⟨?_, (ofLine_isAskedBy _).1, ?_⟩
  · rw [(ofLine_isAskedBy "FiLe \u3000é.txt".toList).2 ['\u3000'] [' ', '\t']
      (forall_mem_of_all (by decide)) (forall_mem_of_all (by decide))]
    decide
  · decide

end Command
end Abacus

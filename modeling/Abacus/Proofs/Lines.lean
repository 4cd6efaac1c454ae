import Abacus.Proofs.Batch
/-!
The lines of a stream are the lines of the text that its bytes spell.

A line feed and a carriage return are bytes of their own in UTF-8 and part of no other character, so
it makes no difference whether the bytes or the characters are cut into lines.
-/

namespace Abacus

/-- The bytes of the text in UTF-8. -/
def utf8 (text : List Char) : List UInt8 :=
  text.flatMap String.utf8EncodeChar

@[simp] theorem utf8_nil : utf8 [] = [] := rfl

@[simp] theorem utf8_cons (c : Char) (text : List Char) :
    utf8 (c :: text) = String.utf8EncodeChar c ++ utf8 text := List.flatMap_cons

@[simp] theorem utf8_append (a b : List Char) : utf8 (a ++ b) = utf8 a ++ utf8 b :=
  List.flatMap_append

theorem utf8EncodeChar_ne_nil (c : Char) : String.utf8EncodeChar c ≠ [] := by
  rw [← List.length_pos_iff, String.length_utf8EncodeChar]
  exact c.utf8Size_pos

theorem utf8_ne_nil {text : List Char} (h : text ≠ []) : utf8 text ≠ [] := by
  cases text with
  | nil => contradiction
  | cons c text =>
    rw [utf8_cons]
    exact List.append_ne_nil_of_left_ne_nil (utf8EncodeChar_ne_nil c) _

theorem decodeUtf8?_eq_some_iff {bytes : List UInt8} {text : List Char} :
    decodeUtf8? bytes = some text ↔ bytes = utf8 text := by
  have hbytes : (⟨bytes.toArray⟩ : ByteArray) = bytes.toByteArray :=
    ByteArray.ext List.data_toByteArray.symm
  rw [decodeUtf8?, hbytes]
  constructor
  · intro h
    obtain ⟨chars, hchars, rfl⟩ := Option.map_eq_some_iff.mp h
    have hencoded := ByteArray.utf8Encode_get_utf8Decode? (b := bytes.toByteArray)
      (h := by rw [hchars]; rfl)
    simp only [hchars, Option.get_some] at hencoded
    have := congrArg (fun b : ByteArray => b.data.toList) hencoded
    simpa [List.utf8Encode, utf8] using this.symm
  · rintro rfl
    have hdecode := List.utf8Decode?_utf8Encode (l := text)
    rw [List.utf8Encode] at hdecode
    rw [utf8, hdecode]
    rfl

/-- A byte below 128 stands for the character of that number. -/
theorem toNat_eq_of_mem_utf8EncodeChar {c : Char} {b : UInt8} (hb : b.toNat < 128)
    (h : b ∈ String.utf8EncodeChar c) : c.toNat = b.toNat := by
  have hc : c.val.toNat = c.toNat := rfl
  rw [String.utf8EncodeChar, hc] at h
  split at h
  · rw [List.mem_singleton] at h
    subst h
    rw [UInt8.toNat_ofNat']
    omega
  · -- The bytes of a longer form are all 128 or more.
    have hlong : 128 ≤ b.toNat := by
      split at h
      · simp only [List.mem_cons, List.not_mem_nil, or_false] at h
        rcases h with rfl | rfl <;> rw [UInt8.toNat_ofNat'] <;> omega
      · split at h <;> simp only [List.mem_cons, List.not_mem_nil, or_false] at h
        · rcases h with rfl | rfl | rfl <;> rw [UInt8.toNat_ofNat'] <;> omega
        · rcases h with rfl | rfl | rfl | rfl <;> rw [UInt8.toNat_ofNat'] <;> omega
    omega

theorem eq_lineFeed_of_mem {c : Char} (h : 0x0A ∈ String.utf8EncodeChar c) : c = '\n' :=
  Char.toNat_inj.mp (toNat_eq_of_mem_utf8EncodeChar (by decide) h)

theorem eq_return_of_mem {c : Char} (h : 0x0D ∈ String.utf8EncodeChar c) : c = '\r' :=
  Char.toNat_inj.mp (toNat_eq_of_mem_utf8EncodeChar (by decide) h)

theorem lineFeed_not_mem_utf8 {text : List Char} (h : '\n' ∉ text) : 0x0A ∉ utf8 text := by
  intro hmem
  obtain ⟨c, hc, hbyte⟩ := List.mem_flatMap.mp hmem
  exact h (eq_lineFeed_of_mem hbyte ▸ hc)

namespace Lines

/-- What comes before the first separator, and what comes after it, until there is none. -/
theorem induct_pieces {α : Type} (separator : α) {motive : List α → Prop}
    (last : ∀ piece, separator ∉ piece → motive piece)
    (step : ∀ piece rest, separator ∉ piece → motive rest → motive (piece ++ separator :: rest))
    (xs : List α) : motive xs := by
  induction h : xs.length using Nat.strong_induction_on generalizing xs with
  | _ n ih =>
    by_cases hmem : separator ∈ xs
    · obtain ⟨piece, rest, rfl, hpiece⟩ := List.eq_append_cons_of_mem hmem
      have hlength : rest.length < n := by
        rw [← h, List.length_append, List.length_cons]
        omega
      exact step piece rest hpiece (ih _ hlength rest rfl)
    · exact last xs hmem

theorem splitOn_piece {α : Type} [DecidableEq α] {separator : α} {piece : List α}
    (h : separator ∉ piece) (rest : List α) :
    (piece ++ separator :: rest).splitOn separator = piece :: rest.splitOn separator := by
  refine List.splitOnP_append_cons_of_forall_mem (fun x hx => ?_) separator (by simp) rest
  simpa using ne_of_mem_of_not_mem hx h

/-! ## Lines of bytes -/

theorem split_of_not_mem {bytes : List UInt8} (h : 0x0A ∉ bytes) (hne : bytes ≠ []) :
    split bytes = [bytes] := by
  induction bytes with
  | nil => contradiction
  | cons b rest ih =>
    rw [List.mem_cons, not_or] at h
    rw [split, if_neg (Ne.symm h.1)]
    cases rest with
    | nil => rfl
    | cons b' rest => rw [ih h.2 (List.cons_ne_nil b' rest)]

theorem split_line {line : List UInt8} (h : 0x0A ∉ line) (rest : List UInt8) :
    split (line ++ 0x0A :: rest) = (line ++ [0x0A]) :: split rest := by
  induction line with
  | nil => rw [List.nil_append, split, if_pos rfl, List.nil_append]
  | cons b line ih =>
    rw [List.mem_cons, not_or] at h
    rw [List.cons_append, split, if_neg (Ne.symm h.1), ih h.2]
    rfl

/-- The list without its last element if that is `a`. -/
def withoutLast {α : Type} [DecidableEq α] (a : α) (xs : List α) : List α :=
  if xs.getLast? = some a then xs.dropLast else xs

theorem withoutLast_concat {α : Type} [DecidableEq α] (a b : α) (xs : List α) :
    withoutLast a (xs ++ [b]) = if b = a then xs else xs ++ [b] := by
  simp [withoutLast]

theorem dropEnding_line (line : List UInt8) :
    dropEnding (line ++ [0x0A]) = withoutLast 0x0D line := by
  rcases List.eq_nil_or_concat line with rfl | ⟨front, b, rfl⟩
  · rfl
  · rw [List.concat_eq_append, withoutLast_concat, dropEnding, List.reverse_append,
      List.reverse_append]
    by_cases hb : b = 0x0D
    · subst hb
      simp
    · rw [if_neg hb]
      simp [hb]

theorem dropEnding_of_not_mem {line : List UInt8} (h : 0x0A ∉ line) : dropEnding line = line := by
  have hreverse : 0x0A ∉ line.reverse := fun hmem => h (List.mem_reverse.mp hmem)
  rw [dropEnding]
  split
  · next heq => simp [heq] at hreverse
  · next heq => simp [heq] at hreverse
  · rfl

theorem ofBytes_of_not_mem {bytes : List UInt8} (h : 0x0A ∉ bytes) (hne : bytes ≠ []) :
    ofBytes bytes = [decode bytes] := by
  rw [ofBytes, split_of_not_mem h hne]
  rfl

theorem ofBytes_line {line : List UInt8} (h : 0x0A ∉ line) (rest : List UInt8) :
    ofBytes (line ++ 0x0A :: rest) = decode (line ++ [0x0A]) :: ofBytes rest := by
  rw [ofBytes, split_line h]
  rfl

theorem decode_of_dropEnding {line : List UInt8} {text : List Char}
    (h : dropEnding line = utf8 text) : decode line = .ok text := by
  rw [decode, decodeUtf8?_eq_some_iff.mpr h]

theorem dropEnding_of_decode {line : List UInt8} {text : List Char} (h : decode line = .ok text) :
    dropEnding line = utf8 text := by
  rw [decode] at h
  split at h
  · next heq =>
    cases h
    exact decodeUtf8?_eq_some_iff.mp heq
  · contradiction

/-! ## Lines of a text -/

/--
The lines of a text: what line feeds separate, each without one carriage return before the line
feed. An empty piece after the last line feed is not a line.
-/
def ofText (text : List Char) : List (List Char) :=
  let pieces := text.splitOn '\n'
  pieces.dropLast.map (withoutLast '\r') ++
    (pieces.getLast?.filter fun piece => !piece.isEmpty).toList

theorem ofText_nil : ofText [] = [] := rfl

theorem ofText_of_not_mem {text : List Char} (h : '\n' ∉ text) (hne : text ≠ []) :
    ofText text = [text] := by
  simp [ofText, List.splitOn_eq_singleton h, hne]

theorem ofText_line {line : List Char} (h : '\n' ∉ line) (rest : List Char) :
    ofText (line ++ '\n' :: rest) = withoutLast '\r' line :: ofText rest := by
  have hsplit : (line ++ '\n' :: rest).splitOn '\n' = line :: rest.splitOn '\n' :=
    splitOn_piece h rest
  have hne : rest.splitOn '\n' ≠ [] := List.splitOnP_ne_nil _ rest
  obtain ⟨piece, pieces, hpieces⟩ := List.exists_cons_of_ne_nil hne
  simp only [ofText, hsplit, hpieces]
  rw [List.dropLast_cons_cons, List.map_cons, List.cons_append, List.getLast?_cons_cons]

theorem utf8_lineFeed : String.utf8EncodeChar '\n' = [0x0A] := by decide

theorem utf8_return : String.utf8EncodeChar '\r' = [0x0D] := by decide

theorem utf8_withoutLast (line : List Char) :
    utf8 (withoutLast '\r' line) = withoutLast 0x0D (utf8 line) := by
  rcases List.eq_nil_or_concat line with rfl | ⟨front, c, rfl⟩
  · rfl
  rw [List.concat_eq_append, withoutLast_concat, utf8_append, utf8_cons, utf8_nil, List.append_nil]
  by_cases hc : c = '\r'
  · subst hc
    rw [if_pos rfl, utf8_return, withoutLast_concat, if_pos rfl]
  · -- The last byte of another character is no carriage return.
    have hlast : (utf8 front ++ String.utf8EncodeChar c).getLast? ≠ some 0x0D := by
      intro h
      rw [List.getLast?_append_of_ne_nil _ (utf8EncodeChar_ne_nil c)] at h
      exact hc (eq_return_of_mem (List.mem_of_getLast? h))
    rw [if_neg hc, withoutLast, if_neg hlast, utf8_append, utf8_cons, utf8_nil, List.append_nil]

/-- A carriage return that is dropped spells a character by itself. -/
theorem exists_utf8_of_withoutLast {bytes : List UInt8} {text : List Char}
    (h : withoutLast 0x0D bytes = utf8 text) : ∃ front, bytes = utf8 front := by
  rcases List.eq_nil_or_concat' bytes with rfl | ⟨front, b, rfl⟩
  · exact ⟨[], rfl⟩
  · rw [withoutLast_concat] at h
    by_cases hb : b = 0x0D
    · rw [if_pos hb] at h
      exact ⟨text ++ ['\r'], by rw [h, hb, utf8_append, utf8_cons, utf8_return]; rfl⟩
    · rw [if_neg hb] at h
      exact ⟨text, h⟩

/-- The bytes of a text are read as its lines. -/
theorem ofBytes_utf8 (text : List Char) : ofBytes (utf8 text) = (ofText text).map .ok := by
  induction text using induct_pieces '\n' with
  | last text h =>
    by_cases hne : text = []
    · subst hne
      rfl
    · have hfeed := lineFeed_not_mem_utf8 h
      rw [ofBytes_of_not_mem hfeed (utf8_ne_nil hne), ofText_of_not_mem h hne,
        decode_of_dropEnding (dropEnding_of_not_mem hfeed), List.map_singleton]
  | step line rest h ih =>
    rw [utf8_append, utf8_cons, utf8_lineFeed, List.singleton_append,
      ofBytes_line (lineFeed_not_mem_utf8 h), ih, ofText_line h, List.map_cons]
    congr 1
    exact decode_of_dropEnding ((dropEnding_line _).trans (utf8_withoutLast line).symm)

/-- Where every line spells a text, the bytes as a whole do. -/
theorem exists_utf8_of_ofBytes {bytes : List UInt8} {texts : List (List Char)}
    (h : ofBytes bytes = texts.map .ok) : ∃ text, bytes = utf8 text := by
  induction bytes using induct_pieces (0x0A : UInt8) generalizing texts with
  | last bytes hfeed =>
    by_cases hne : bytes = []
    · exact ⟨[], hne⟩
    · rw [ofBytes_of_not_mem hfeed hne] at h
      obtain ⟨text, _, _, hdecode, _⟩ := List.map_eq_cons_iff.mp h.symm
      have hbytes := dropEnding_of_decode hdecode.symm
      rw [dropEnding_of_not_mem hfeed] at hbytes
      exact ⟨text, hbytes⟩
  | step line rest hfeed ih =>
    rw [ofBytes_line hfeed] at h
    obtain ⟨text, texts, rfl, hdecode, hrest⟩ := List.map_eq_cons_iff.mp h.symm
    obtain ⟨after, rfl⟩ := ih hrest.symm
    have hline := dropEnding_of_decode hdecode.symm
    rw [dropEnding_line] at hline
    obtain ⟨front, rfl⟩ := exists_utf8_of_withoutLast hline
    exact ⟨front ++ '\n' :: after, by rw [utf8_append, utf8_cons, utf8_lineFeed]; rfl⟩

/-! ## Failures to read -/

theorem readable_map_ok (texts : List (List Char)) : readable (texts.map .ok) = texts := by
  induction texts with
  | nil => rfl
  | cons text texts ih => rw [List.map_cons, readable, ih]

theorem failure?_map_ok (texts : List (List Char)) : failure? (texts.map .ok) = none := by
  induction texts with
  | nil => rfl
  | cons text texts ih => rw [List.map_cons, failure?, ih]

theorem eq_map_ok_of_failure? {lines : List Line} (h : failure? lines = none) :
    lines = (readable lines).map .ok := by
  induction lines with
  | nil => rfl
  | cons line lines ih =>
    cases line with
    | error e => contradiction
    | ok line => rw [readable, List.map_cons, ← ih h]

/-- The bytes are read to their end exactly if they spell a text. -/
theorem failure?_ofBytes_eq_none_iff {bytes : List UInt8} :
    failure? (ofBytes bytes) = none ↔ ∃ text, decodeUtf8? bytes = some text := by
  simp only [decodeUtf8?_eq_some_iff]
  constructor
  · intro h
    exact exists_utf8_of_ofBytes (eq_map_ok_of_failure? h)
  · rintro ⟨text, rfl⟩
    rw [ofBytes_utf8, failure?_map_ok]

end Lines

/-! ## Files -/

/-- The lines of a file. One that cannot be opened fails at its first line. -/
def Files.lines (files : Files) (path : List Char) : List Line :=
  match files.read path with
  | .ok bytes => Lines.ofBytes bytes
  | .error e => [.error e]

theorem Files.lines_eq_of_text {files : Files} {path : List Char} {bytes : List UInt8}
    {text : List Char} (hread : files.read path = .ok bytes)
    (htext : decodeUtf8? bytes = some text) :
    files.lines path = (Lines.ofText text).map .ok := by
  rw [lines, hread, decodeUtf8?_eq_some_iff.mp htext]
  exact Lines.ofBytes_utf8 text

/-- A file is read to its end exactly if it can be opened and its bytes spell a text. -/
theorem Files.failure?_lines_eq_none_iff {files : Files} {path : List Char} :
    Lines.failure? (files.lines path) = none ↔
      ∃ bytes text, files.read path = .ok bytes ∧ decodeUtf8? bytes = some text := by
  rw [lines]
  cases files.read path with
  | ok bytes => simp [Lines.failure?_ofBytes_eq_none_iff]
  | error e => simp [Lines.failure?]

theorem Batch.runFile_eq_run (files : Files) (session : Session) (path : List Char) :
    runFile files session path = run session (files.lines path) := by
  rw [runFile, Files.lines]
  cases files.read path <;> rfl

end Abacus

import Abacus.Proofs.Lines
/-!
A run over a stream is a run over what stands between its line feeds.

Whether a carriage return before a line feed and an empty piece after the last line feed belong to
the lines makes no difference to a run: each line is trimmed, and blank lines are passed over. So
the bytes of lines with any line endings are run as the lines, and a piece that is not UTF-8 ends
the run after the lines before it.
-/

namespace Abacus

theorem trim_concat_of_isBlank {c : Char} (h : isBlank c = true) (text : List Char) :
    trim (text ++ [c]) = trim text := by
  have hend : ∀ front, trimEnd (front ++ [c]) = trimEnd front := by
    intro front
    rw [trimEnd, trimEnd, List.reverse_append, List.reverse_singleton, List.singleton_append,
      List.dropWhile_cons_of_pos h]
  rw [trim, trim, List.dropWhile_append]
  by_cases hblank : (text.dropWhile isBlank).isEmpty = true
  · rw [if_pos hblank, List.isEmpty_iff.mp hblank, List.dropWhile_cons_of_pos h, List.dropWhile_nil]
  · rw [if_neg hblank, hend]

namespace Lines

theorem trim_withoutLast_return (line : List Char) : trim (withoutLast '\r' line) = trim line := by
  rcases List.eq_nil_or_concat' line with rfl | ⟨front, c, rfl⟩
  · rfl
  · rw [withoutLast_concat]
    split
    · next hc => rw [hc, trim_concat_of_isBlank (by decide)]
    · rfl

/-- It makes no difference whether a carriage return is dropped as a byte or as a character. -/
theorem decodeUtf8?_withoutLast (bytes : List UInt8) :
    decodeUtf8? (withoutLast 0x0D bytes) = (decodeUtf8? bytes).map (withoutLast '\r') := by
  cases htext : decodeUtf8? bytes with
  | some text =>
    rw [decodeUtf8?_eq_some_iff.mp htext, ← utf8_withoutLast]
    exact decodeUtf8?_eq_some_iff.mpr rfl
  | none =>
    by_contra hsome
    obtain ⟨text, hfront⟩ := Option.ne_none_iff_exists'.mp hsome
    obtain ⟨whole, rfl⟩ := exists_utf8_of_withoutLast (decodeUtf8?_eq_some_iff.mp hfront)
    rw [decodeUtf8?_eq_some_iff.mpr rfl] at htext
    contradiction

/-- The line that bytes without a line feed spell. -/
def ofPiece (bytes : List UInt8) : Line :=
  match decodeUtf8? bytes with
  | some text => .ok text
  | none => .error .notUtf8

/-- What stands between the line feeds, as lines. -/
def ofPieces (bytes : List UInt8) : List Line :=
  (bytes.splitOn 0x0A).map ofPiece

theorem ofPiece_utf8 (text : List Char) : ofPiece (utf8 text) = .ok text := by
  rw [ofPiece, decodeUtf8?_eq_some_iff.mpr rfl]

theorem ofPieces_of_not_mem {bytes : List UInt8} (h : 0x0A ∉ bytes) :
    ofPieces bytes = [ofPiece bytes] := by
  rw [ofPieces, List.splitOn_eq_singleton h]
  rfl

theorem ofPieces_line {line : List UInt8} (h : 0x0A ∉ line) (rest : List UInt8) :
    ofPieces (line ++ 0x0A :: rest) = ofPiece line :: ofPieces rest := by
  rw [ofPieces, splitOn_piece h]
  rfl

theorem map_trim_ofPiece_withoutLast (bytes : List UInt8) :
    (ofPiece (withoutLast 0x0D bytes)).map trim = (ofPiece bytes).map trim := by
  rw [ofPiece, ofPiece, decodeUtf8?_withoutLast]
  cases decodeUtf8? bytes with
  | none => rfl
  | some text => exact congrArg Except.ok (trim_withoutLast_return text)

/-! ## Lines that no run can tell apart -/

/-- A run over the first lines is the same as one over the second, wherever it starts. -/
def RunAlike (a b : List Line) : Prop :=
  ∀ number summary session,
    Batch.runFrom number summary session a = Batch.runFrom number summary session b

theorem RunAlike.run_eq {a b : List Line} (h : RunAlike a b) (session : Session) :
    Batch.run session a = Batch.run session b :=
  h 1 {} session

/-- A run sees a line without the blanks at its ends. -/
theorem RunAlike.cons {line line' : Line} {a b : List Line} (hline : line.map trim = line'.map trim)
    (h : RunAlike a b) : RunAlike (line :: a) (line' :: b) := by
  intro number summary session
  cases line with
  | error e =>
    cases line' with
    | error e' =>
      cases hline
      rfl
    | ok text' => contradiction
  | ok text =>
    cases line' with
    | error e' => contradiction
    | ok text' =>
      have htrim : trim text = trim text' := Except.ok.inj hline
      simp only [Batch.runFrom, htrim, h (number + 1)]

/-- A blank line at the end is as good as none. -/
theorem runAlike_blank : RunAlike [] [.ok []] :=
  fun _ _ _ => rfl

theorem RunAlike.refl (a : List Line) : RunAlike a a :=
  fun _ _ _ => rfl

theorem RunAlike.symm {a b : List Line} (h : RunAlike a b) : RunAlike b a :=
  fun number summary session => (h number summary session).symm

theorem RunAlike.trans {a b c : List Line} (hab : RunAlike a b) (hbc : RunAlike b c) :
    RunAlike a c :=
  fun number summary session => (hab number summary session).trans (hbc number summary session)

/-- The lines of a stream are run as what stands between its line feeds. -/
theorem runAlike_ofPieces (bytes : List UInt8) : RunAlike (ofBytes bytes) (ofPieces bytes) := by
  induction bytes using induct_pieces (0x0A : UInt8) with
  | last piece h =>
    rw [ofPieces_of_not_mem h]
    by_cases hne : piece = []
    · subst hne
      exact runAlike_blank
    · rw [ofBytes_of_not_mem h hne, decode, dropEnding_of_not_mem h]
      exact RunAlike.refl _
  | step piece rest h ih =>
    rw [ofBytes_line h, ofPieces_line h, decode, dropEnding_line]
    exact ih.cons (map_trim_ofPiece_withoutLast piece)

/-! ## Line endings -/

/-- What ends a line: a line feed, alone or after a carriage return. -/
inductive Ending where
  | feed
  | returnFeed
deriving DecidableEq, Repr

def Ending.text : Ending → List Char
  | feed => ['\n']
  | returnFeed => ['\r', '\n']

/-- The lines one after another with their endings, and then a last line without one, if any. -/
def written (lines : List (List Char × Ending)) (last : Option (List Char)) : List Char :=
  (lines.flatMap fun (line, ending) => line ++ ending.text) ++ last.getD []

theorem written_cons (line : List Char) (ending : Ending) (lines : List (List Char × Ending))
    (last : Option (List Char)) :
    written ((line, ending) :: lines) last = line ++ ending.text ++ written lines last := by
  rw [written, List.flatMap_cons, List.append_assoc]
  rfl

/-- What stands before the line feed is the line, apart from blanks at its end. -/
theorem exists_piece_of_ending {line : List Char} (h : '\n' ∉ line) (ending : Ending) :
    ∃ piece, line ++ ending.text = piece ++ ['\n'] ∧ '\n' ∉ piece ∧ trim piece = trim line := by
  cases ending with
  | feed => exact ⟨line, rfl, h, rfl⟩
  | returnFeed =>
    refine ⟨line ++ ['\r'], by simp [Ending.text], by simp [h], ?_⟩
    exact trim_concat_of_isBlank (by decide) line

theorem runAlike_written {lines : List (List Char × Ending)} {last : Option (List Char)}
    (h : ∀ line ∈ lines.map Prod.fst ++ last.toList, '\n' ∉ line) :
    RunAlike (ofPieces (utf8 (written lines last)))
      ((lines.map Prod.fst ++ last.toList).map .ok) := by
  induction lines with
  | nil =>
    cases last with
    | none => exact runAlike_blank.symm
    | some line =>
      show RunAlike (ofPieces (utf8 line)) [.ok line]
      rw [ofPieces_of_not_mem (lineFeed_not_mem_utf8 (h line (by simp))), ofPiece_utf8]
      exact RunAlike.refl _
  | cons p lines ih =>
    obtain ⟨line, ending⟩ := p
    obtain ⟨hline, hlines⟩ := List.forall_mem_cons.mp h
    obtain ⟨piece, htext, hpiece, htrim⟩ := exists_piece_of_ending hline ending
    have hwritten :
        written ((line, ending) :: lines) last = piece ++ '\n' :: written lines last := by
      rw [written_cons, htext, List.append_assoc, List.singleton_append]
    rw [hwritten, utf8_append, utf8_cons, utf8_lineFeed, List.singleton_append,
      ofPieces_line (lineFeed_not_mem_utf8 hpiece), ofPiece_utf8]
    exact (ih hlines).cons (congrArg Except.ok htrim)

/-! ## Pieces that are not UTF-8 -/

theorem readable_map_ofPiece (pieces : List (List UInt8)) :
    readable (pieces.map ofPiece) =
      (pieces.takeWhile fun piece => (decodeUtf8? piece).isSome).filterMap decodeUtf8? := by
  induction pieces with
  | nil => rfl
  | cons piece pieces ih =>
    rw [List.map_cons, ofPiece, List.takeWhile_cons]
    cases htext : decodeUtf8? piece with
    | none => rfl
    | some text =>
      show text :: readable (pieces.map ofPiece) = _
      rw [ih, if_pos (by rfl), List.filterMap_cons_some htext]

theorem failure?_map_ofPiece {pieces : List (List UInt8)}
    (h : ∃ piece ∈ pieces, decodeUtf8? piece = none) :
    failure? (pieces.map ofPiece) = some .notUtf8 := by
  induction pieces with
  | nil => simp at h
  | cons piece pieces ih =>
    rw [List.map_cons, ofPiece]
    cases htext : decodeUtf8? piece with
    | none => rfl
    | some text =>
      obtain ⟨invalid, hmem, hinvalid⟩ := h
      have hne : invalid ≠ piece := by
        rintro rfl
        rw [htext] at hinvalid
        contradiction
      exact ih ⟨invalid, List.mem_of_ne_of_mem hne hmem, hinvalid⟩

end Lines

namespace Batch

/-- A run that breaks off has done what a run over the lines before does. -/
theorem run_of_failure {lines : List Line} {e : ReadError} (h : Lines.failure? lines = some e)
    (session : Session) :
    run session lines =
      { run session ((Lines.readable lines).map .ok) with summary := .error e } := by
  simp only [run, runFrom_eq, Lines.readable_map_ok, h, Option.elim_some]

/--
A stream that holds lines with any line endings is run as those lines, whether or not the last one
has an ending. If what stands between two line feeds of a stream is not UTF-8, the run does what it
does over the lines before the first such piece, whatever follows, and then fails.
-/
theorem runBytes_as_lines (session : Session) :
    (∀ (lines : List (List Char × Lines.Ending)) (last : Option (List Char)),
      (∀ line ∈ lines.map Prod.fst ++ last.toList, '\n' ∉ line) →
        runBytes session (utf8 (Lines.written lines last)) =
          run session ((lines.map Prod.fst ++ last.toList).map .ok)) ∧
      ∀ bytes : List UInt8, let pieces := bytes.splitOn 0x0A
        (∃ piece ∈ pieces, decodeUtf8? piece = none) →
          let readable := pieces.takeWhile fun piece => (decodeUtf8? piece).isSome
          let before := readable.filterMap decodeUtf8?
          runBytes session bytes =
            { run session (before.map .ok) with summary := .error .notUtf8 } := by
  constructor
  · intro lines last h
    have halike := (Lines.runAlike_ofPieces _).trans (Lines.runAlike_written h)
    exact halike.run_eq session
  · intro bytes pieces h readable before
    have hpieces : runBytes session bytes = run session (Lines.ofPieces bytes) :=
      (Lines.runAlike_ofPieces bytes).run_eq session
    have hfailure : Lines.failure? (Lines.ofPieces bytes) = some .notUtf8 :=
      Lines.failure?_map_ofPiece h
    have hbefore : Lines.readable (Lines.ofPieces bytes) = before :=
      Lines.readable_map_ofPiece pieces
    rw [hpieces, run_of_failure hfailure, hbefore]

/-- Mixed endings, a blank line, a line that ends in a carriage return; a byte that is no text. -/
theorem runBytes_as_lines_of_mixed_endings :
    let session : Session := ⟨[⟨['5'], ['5']⟩]⟩
    let lines := ["1/4".toList, [], "6*7\r".toList, "5%0\t".toList]
    let broken := utf8 "1+1\n2".toList ++ 0xFF :: utf8 "\n3\n".toList
    (∀ line ∈ lines, '\n' ∉ line) ∧
      runBytes session (utf8 "1/4\r\n\n6*7\r\n5%0\t".toList) = run session (lines.map .ok) ∧
      (run session (lines.map .ok)).outcomes.map Outcome.line = [1, 3, 4] ∧
      (run session (lines.map .ok)).summary = .ok ⟨3, 1⟩ ∧
      (∃ piece ∈ broken.splitOn 0x0A, decodeUtf8? piece = none) ∧
      runBytes session broken =
        { run session [.ok "1+1".toList] with summary := .error .notUtf8 } ∧
      (runBytes session broken).session = ⟨[⟨['5'], ['5']⟩, ⟨"1+1".toList, ['2']⟩]⟩ := by
  intro session lines broken
  have hfeeds : ∀ line ∈ lines, '\n' ∉ line := by decide
  have hinvalid : ∃ piece ∈ broken.splitOn 0x0A, decodeUtf8? piece = none := by decide +kernel
  obtain ⟨hwritten, hbroken⟩ := runBytes_as_lines session
  have hlines := hwritten [("1/4".toList, .returnFeed), ([], .feed), ("6*7\r".toList, .feed)]
    (some "5%0\t".toList) hfeeds
  have htexts : ((broken.splitOn 0x0A).takeWhile fun piece =>
      (decodeUtf8? piece).isSome).filterMap decodeUtf8? = ["1+1".toList] := by decide +kernel
  have hbefore := hbroken broken hinvalid
  simp only [htexts] at hbefore
  refine ⟨hfeeds, hlines, by decide +kernel, by decide +kernel, hinvalid, hbefore, ?_⟩
  rw [hbefore]
  decide +kernel

end Batch

end Abacus

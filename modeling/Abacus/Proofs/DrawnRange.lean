import Abacus.Proofs.TypedRanges
import Abacus.Proofs.VisibleSpan
/-!
What is drawn for any range at all.

A range written by hand may be reversed, lie past the text or cut a character in two. What is drawn
for it are whole characters of the text, and always at least one. `visibleSpan?` searches for the
boundaries byte by byte and gives up when an index leaves the text, which never happens.
-/

namespace Abacus

/-! ## Boundaries next to an index -/

theorem isBoundary_zero (text : List Char) : IsBoundary text 0 :=
  ⟨[], text, rfl, rfl⟩

theorem isBoundary_byteLength (text : List Char) : IsBoundary text (byteLength text) :=
  ⟨text, [], (List.append_nil text).symm, rfl⟩

theorem IsBoundary.le_byteLength {text : List Char} {index : Nat} (h : IsBoundary text index) :
    index ≤ byteLength text := by
  obtain ⟨before, after, rfl, rfl⟩ := h
  exact byteLength_le_of_isPrefix ⟨after, rfl⟩

/-- A boundary is the start of the text or a boundary behind its first character. -/
theorem isBoundary_cons_iff {c : Char} {text : List Char} {index : Nat} :
    IsBoundary (c :: text) index ↔
      index = 0 ∨ ∃ rest, IsBoundary text rest ∧ index = c.utf8Size + rest := by
  constructor
  · rintro ⟨before, after, htext, rfl⟩
    cases before with
    | nil => exact .inl rfl
    | cons d before =>
      obtain ⟨rfl, hrest⟩ := List.cons.inj htext
      exact .inr ⟨byteLength before, ⟨before, after, hrest, rfl⟩, rfl⟩
  · rintro (rfl | ⟨rest, ⟨before, after, rfl, rfl⟩, rfl⟩)
    · exact isBoundary_zero _
    · exact ⟨c :: before, after, rfl, rfl⟩

/-- No boundary lies inside a character. -/
theorem IsBoundary.le_or_le {before after : List Char} {c : Char} {index : Nat}
    (h : IsBoundary (before ++ c :: after) index) :
    index ≤ byteLength before ∨ byteLength (before ++ [c]) ≤ index := by
  induction before generalizing index with
  | nil =>
    rcases isBoundary_cons_iff.mp h with rfl | ⟨rest, -, rfl⟩
    · exact .inl (Nat.le_refl 0)
    · exact .inr (Nat.le_add_right _ _)
  | cons d before ih =>
    rcases isBoundary_cons_iff.mp h with rfl | ⟨rest, hrest, rfl⟩
    · exact .inl (Nat.zero_le _)
    · have := ih hrest
      simp only [List.cons_append, byteLength_cons]
      omega

theorem isGreatest_boundaryBefore (text : List Char) (index : Nat) :
    IsGreatest {i | IsBoundary text i ∧ i ≤ index} (boundaryBefore text index) := by
  induction text generalizing index with
  | nil =>
    refine ⟨⟨isBoundary_zero [], Nat.zero_le index⟩, fun i hi => ?_⟩
    exact hi.1.le_byteLength
  | cons c text ih =>
    rw [boundaryBefore]
    by_cases hc : c.utf8Size ≤ index
    · obtain ⟨⟨hboundary, hle⟩, hgreatest⟩ := ih (index - c.utf8Size)
      rw [if_pos hc]
      refine ⟨⟨isBoundary_cons_iff.mpr (.inr ⟨_, hboundary, rfl⟩), by omega⟩, ?_⟩
      rintro i ⟨hi, hindex⟩
      rcases isBoundary_cons_iff.mp hi with rfl | ⟨rest, hrest, rfl⟩
      · exact Nat.zero_le _
      · have := hgreatest ⟨hrest, by omega⟩
        omega
    · rw [if_neg hc]
      refine ⟨⟨isBoundary_zero _, Nat.zero_le index⟩, ?_⟩
      rintro i ⟨hi, hindex⟩
      rcases isBoundary_cons_iff.mp hi with rfl | ⟨rest, -, rfl⟩
      · exact Nat.le_refl 0
      · omega

theorem isLeast_boundaryAfter {text : List Char} {index : Nat} (h : index ≤ byteLength text) :
    IsLeast {i | IsBoundary text i ∧ index ≤ i} (boundaryAfter text index) := by
  induction text generalizing index with
  | nil =>
    refine ⟨⟨isBoundary_zero [], h⟩, fun i _ => Nat.zero_le i⟩
  | cons c text ih =>
    cases index with
    | zero => exact ⟨⟨isBoundary_zero _, Nat.le_refl 0⟩, fun i _ => Nat.zero_le i⟩
    | succ index =>
      rw [byteLength_cons] at h
      have hrest : index + 1 - c.utf8Size ≤ byteLength text := by omega
      obtain ⟨⟨hboundary, hle⟩, hleast⟩ := ih hrest
      show IsLeast _ (c.utf8Size + boundaryAfter text (index + 1 - c.utf8Size))
      refine ⟨⟨isBoundary_cons_iff.mpr (.inr ⟨_, hboundary, rfl⟩), by omega⟩, ?_⟩
      rintro i ⟨hi, hindex⟩
      rcases isBoundary_cons_iff.mp hi with rfl | ⟨rest, hrest, rfl⟩
      · omega
      · have := hleast ⟨hrest, by omega⟩
        omega

/-- Every byte belongs to a character. -/
theorem exists_char_at {text : List Char} {index : Nat} (h : index < byteLength text) :
    ∃ before c after, text = before ++ c :: after ∧ byteLength before ≤ index ∧
      index < byteLength (before ++ [c]) := by
  induction text generalizing index with
  | nil => exact absurd h (Nat.not_lt_zero index)
  | cons c text ih =>
    by_cases hc : index < c.utf8Size
    · exact ⟨[], c, text, rfl, Nat.zero_le index, hc⟩
    · rw [byteLength_cons] at h
      have hrest : index - c.utf8Size < byteLength text := by omega
      obtain ⟨before, d, after, rfl, hstart, hstop⟩ := ih hrest
      refine ⟨c :: before, d, after, rfl, ?_, ?_⟩
      · rw [byteLength_cons]
        omega
      · rw [List.cons_append, byteLength_cons]
        omega

section Character

variable {before after : List Char} {c : Char} {index : Nat}

theorem boundaryBefore_of_char (hstart : byteLength before ≤ index)
    (hstop : index < byteLength (before ++ [c])) :
    boundaryBefore (before ++ c :: after) index = byteLength before := by
  refine (isGreatest_boundaryBefore _ index).unique ⟨⟨⟨before, _, rfl, rfl⟩, hstart⟩, ?_⟩
  rintro i ⟨hi, hindex⟩
  rcases hi.le_or_le with hle | hle <;> omega

theorem boundaryAfter_of_char (hstart : byteLength before < index)
    (hstop : index ≤ byteLength (before ++ [c])) :
    boundaryAfter (before ++ c :: after) index = byteLength (before ++ [c]) := by
  have hboundary : IsBoundary (before ++ c :: after) (byteLength (before ++ [c])) :=
    ⟨before ++ [c], after, by simp, rfl⟩
  refine (isLeast_boundaryAfter (hstop.trans hboundary.le_byteLength)).unique
    ⟨⟨hboundary, hstop⟩, ?_⟩
  rintro i ⟨hi, hindex⟩
  rcases hi.le_or_le with hle | hle <;> omega

end Character

/-! ## The range that is drawn -/

/-- A range of at least one byte is widened to the characters it touches. -/
theorem visibleSpan_of_lt {span : Span} {source : List Char}
    (h : (span.clamp (byteLength source)).start < (span.clamp (byteLength source)).stop) :
    visibleSpan span source = ⟨boundaryBefore source (span.clamp (byteLength source)).start,
      boundaryAfter source (span.clamp (byteLength source)).stop⟩ := by
  have hstart := (isGreatest_boundaryBefore source (span.clamp (byteLength source)).start).1.2
  have hstop := (isLeast_boundaryAfter (span.clamp_stop_le (byteLength source))).1.2
  rw [visibleSpan, if_pos (by omega)]

/-- A place inside the text is drawn as the character that holds it. -/
theorem visibleSpan_of_char {span : Span} {before after : List Char} {c : Char}
    (hempty : (span.clamp (byteLength (before ++ c :: after))).start =
      (span.clamp (byteLength (before ++ c :: after))).stop)
    (hstart : byteLength before ≤ (span.clamp (byteLength (before ++ c :: after))).start)
    (hstop : (span.clamp (byteLength (before ++ c :: after))).start < byteLength (before ++ [c])) :
    visibleSpan span (before ++ c :: after) = ⟨byteLength before, byteLength (before ++ [c])⟩ := by
  have hlength : byteLength before < byteLength (before ++ c :: after) := by
    have := c.utf8Size_pos
    rw [byteLength_append, byteLength_cons]
    omega
  rw [visibleSpan, ← hempty, boundaryBefore_of_char hstart hstop]
  rcases Nat.eq_or_lt_of_le hstart with heq | hlt
  · -- At the start of the character neither search moves.
    have hafter := boundaryAfter_append before (c :: after)
    rw [← heq, hafter, if_neg (Nat.lt_irrefl _), if_pos hlength,
      boundaryAfter_of_char (Nat.lt_succ_self _) (by omega)]
  · rw [boundaryAfter_of_char hlt (Nat.le_of_lt hstop), if_pos (by omega)]

section Source

variable {source : List Char} {span : Span}

/-- A range of at least one byte is drawn as the fewest whole characters that hold it. -/
theorem inside_visibleSpan
    (h : (span.clamp (byteLength source)).start < (span.clamp (byteLength source)).stop) :
    (span.clamp (byteLength source)).Inside (visibleSpan span source) ∧
      ∀ wider : Span, IsBoundary source wider.start → IsBoundary source wider.stop →
        (span.clamp (byteLength source)).Inside wider → (visibleSpan span source).Inside wider := by
  obtain ⟨⟨-, hstart⟩, hgreatest⟩ :=
    isGreatest_boundaryBefore source (span.clamp (byteLength source)).start
  obtain ⟨⟨-, hstop⟩, hleast⟩ := isLeast_boundaryAfter (span.clamp_stop_le (byteLength source))
  rw [visibleSpan_of_lt h]
  refine ⟨⟨hstart, hstop⟩, fun wider hfirst hlast hinside => ⟨?_, ?_⟩⟩
  · exact hgreatest ⟨hfirst, hinside.1⟩
  · exact hleast ⟨hlast, hinside.2⟩

/-- A range without bytes is drawn as one character. -/
theorem exists_char_visibleSpan (hne : source ≠ [])
    (h : (span.clamp (byteLength source)).start = (span.clamp (byteLength source)).stop) :
    ∃ before c after, source = before ++ c :: after ∧
      visibleSpan span source = ⟨byteLength before, byteLength (before ++ [c])⟩ ∧
      ((span.clamp (byteLength source)).start < byteLength source →
        byteLength before ≤ (span.clamp (byteLength source)).start ∧
          (span.clamp (byteLength source)).start < byteLength (before ++ [c])) ∧
      ((span.clamp (byteLength source)).start = byteLength source → after = []) := by
  have hle : (span.clamp (byteLength source)).start ≤ byteLength source := Nat.min_le_right _ _
  rcases Nat.lt_or_eq_of_le hle with hlt | hend
  · obtain ⟨before, c, after, rfl, hstart, hstop⟩ := exists_char_at hlt
    exact ⟨before, c, after, rfl, visibleSpan_of_char h hstart hstop, fun _ => ⟨hstart, hstop⟩,
      fun hend => absurd hend (Nat.ne_of_lt hlt)⟩
  · obtain ⟨front, c, rfl⟩ := (List.eq_nil_or_concat' source).resolve_left hne
    exact ⟨front, c, [], rfl, visibleSpan_of_end hend, fun hlt => absurd hend (Nat.ne_of_lt hlt),
      fun _ => rfl⟩

theorem visibleSpan_bounds (span : Span) (hne : source ≠ []) :
    (visibleSpan span source).start < (visibleSpan span source).stop ∧
      IsBoundary source (visibleSpan span source).start ∧
      IsBoundary source (visibleSpan span source).stop := by
  rcases Nat.lt_or_eq_of_le (span.clamp_start_le (byteLength source)) with hlt | hempty
  · obtain ⟨⟨hstart, hstop⟩, -⟩ := inside_visibleSpan hlt
    refine ⟨by omega, ?_⟩
    rw [visibleSpan_of_lt hlt]
    exact ⟨(isGreatest_boundaryBefore source _).1.1,
      (isLeast_boundaryAfter (span.clamp_stop_le _)).1.1⟩
  · obtain ⟨before, c, after, rfl, hdrawn, -⟩ := exists_char_visibleSpan hne hempty
    have := c.utf8Size_pos
    rw [hdrawn]
    refine ⟨?_, ⟨before, c :: after, rfl, rfl⟩, ⟨before ++ [c], after, by simp, rfl⟩⟩
    simp only [byteLength_append, byteLength_cons]
    omega

/-- A range of whole characters is drawn as it is. -/
theorem visibleSpan_eq_self (hlt : span.start < span.stop) (hstart : IsBoundary source span.start)
    (hstop : IsBoundary source span.stop) : visibleSpan span source = span := by
  obtain ⟨front, part, back, rfl, hpart, hfront, hend⟩ := exists_part_of_isBoundary hstart hstop hlt
  have hspan : span = ⟨byteLength front, byteLength (front ++ part)⟩ := by
    rw [hfront, hend]
  rw [hspan]
  exact visibleSpan_part front back hpart

end Source

/-! ## The search for the boundaries -/

theorem splitAtByte?_append (before after : List Char) :
    splitAtByte? (before ++ after) (byteLength before) = some (before, after) := by
  induction before with
  | nil => rw [List.nil_append, byteLength_nil, splitAtByte?]
  | cons c before ih =>
    obtain ⟨n, hn⟩ : ∃ n, byteLength (c :: before) = n + 1 := by
      have := c.utf8Size_pos
      exact ⟨c.utf8Size + byteLength before - 1, by rw [byteLength_cons]; omega⟩
    have hrest : n + 1 - c.utf8Size = byteLength before := by
      rw [← hn, byteLength_cons, Nat.add_sub_cancel_left]
    have hle : c.utf8Size ≤ n + 1 := by
      rw [← hn, byteLength_cons]
      exact Nat.le_add_right _ _
    rw [hn, List.cons_append, splitAtByte?, if_pos hle, hrest, ih]
    rfl

theorem isBoundary_iff_splitAtByte? {text : List Char} {index : Nat} :
    IsBoundary text index ↔ (splitAtByte? text index).isSome = true := by
  rw [Option.isSome_iff_exists]
  constructor
  · rintro ⟨before, after, rfl, rfl⟩
    exact ⟨(before, after), splitAtByte?_append before after⟩
  · rintro ⟨⟨before, after⟩, h⟩
    obtain ⟨htext, hlength⟩ := eq_append_of_splitAtByte? h
    exact ⟨before, after, htext, hlength⟩

instance (text : List Char) (index : Nat) : Decidable (IsBoundary text index) :=
  decidable_of_iff _ isBoundary_iff_splitAtByte?.symm

/-- The first boundary among `index`, `index - 1` and so on; none if an index leaves the text. -/
def searchBack? (text : List Char) : Nat → Option Nat
  | 0 => if IsBoundary text 0 then some 0 else none
  | index + 1 =>
      if byteLength text < index + 1 then none
      else if IsBoundary text (index + 1) then some (index + 1)
      else searchBack? text index

/-- The first boundary among `index`, `index + 1` and so on; none if an index leaves the text. -/
def searchOn? (text : List Char) (index : Nat) : Option Nat :=
  if byteLength text < index then none
  else if IsBoundary text index then some index
  else searchOn? text (index + 1)
termination_by byteLength text + 1 - index

/-- The position moved between two others; none if those are in the wrong order. -/
def moveBetween? (low high position : Nat) : Option Nat :=
  if low ≤ high then some (max low (min position high)) else none

/-- The range that is drawn, found byte by byte with a check of every index. -/
def visibleSpan? (span : Span) (source : List Char) : Option Span := do
  let length := byteLength source
  let first := min span.start length
  let last ← moveBetween? first length span.stop
  let start ← searchBack? source first
  let stop ← searchOn? source last
  if start < stop then some ⟨start, stop⟩
  else if start < length then
    let stop ← searchOn? source (start + 1)
    some ⟨start, stop⟩
  else some ⟨lastStart source, length⟩

theorem searchBack?_eq {text : List Char} {index : Nat} (h : index ≤ byteLength text) :
    searchBack? text index = some (boundaryBefore text index) := by
  induction index with
  | zero =>
    have := (isGreatest_boundaryBefore text 0).1.2
    rw [searchBack?, if_pos (isBoundary_zero text)]
    congr 1
    omega
  | succ index ih =>
    obtain ⟨⟨hboundary, hle⟩, hgreatest⟩ := isGreatest_boundaryBefore text (index + 1)
    rw [searchBack?, if_neg (by omega)]
    by_cases hhere : IsBoundary text (index + 1)
    · have := hgreatest ⟨hhere, Nat.le_refl _⟩
      rw [if_pos hhere]
      congr 1
      omega
    · rw [if_neg hhere, ih (by omega)]
      congr 1
      -- The boundary is no later than `index`, as there is none at `index + 1`.
      have hne : boundaryBefore text (index + 1) ≠ index + 1 := fun heq => hhere (heq ▸ hboundary)
      refine (isGreatest_boundaryBefore text index).unique ⟨⟨hboundary, by omega⟩, ?_⟩
      rintro i ⟨hi, hindex⟩
      exact hgreatest ⟨hi, by omega⟩

theorem searchOn?_eq {text : List Char} {index : Nat} (h : index ≤ byteLength text) :
    searchOn? text index = some (boundaryAfter text index) := by
  fun_induction searchOn? text index with
  | case1 index hpast => omega
  | case2 index hpast hhere =>
    congr 1
    refine ((isLeast_boundaryAfter h).unique ⟨⟨hhere, Nat.le_refl _⟩, ?_⟩).symm
    exact fun i hi => hi.2
  | case3 index hpast hhere ih =>
    have hend : index ≠ byteLength text := fun heq => hhere (heq ▸ isBoundary_byteLength text)
    obtain ⟨⟨hboundary, hle⟩, hleast⟩ := isLeast_boundaryAfter h
    have hne : boundaryAfter text index ≠ index := fun heq => hhere (heq ▸ hboundary)
    rw [ih (by omega)]
    congr 1
    refine (isLeast_boundaryAfter (by omega)).unique ⟨⟨hboundary, by omega⟩, ?_⟩
    rintro i ⟨hi, hindex⟩
    exact hleast ⟨hi, by omega⟩

/-- No index leaves the text on the way, and the range is the one that is drawn. -/
theorem visibleSpan?_eq (span : Span) (source : List Char) :
    visibleSpan? span source = some (visibleSpan span source) := by
  have hfirst : min span.start (byteLength source) ≤ byteLength source := Nat.min_le_right _ _
  have hlast : max (min span.start (byteLength source)) (min span.stop (byteLength source)) ≤
      byteLength source := span.clamp_stop_le _
  rw [visibleSpan?]
  simp only [moveBetween?, if_pos hfirst, Option.bind_eq_bind, Option.bind_some,
    searchBack?_eq hfirst, searchOn?_eq hlast]
  rw [visibleSpan, Span.clamp]
  dsimp only
  split
  · rfl
  split
  · rw [searchOn?_eq (by omega)]
    rfl
  · rfl

/--
What is drawn for a range are whole characters of the text, at least one: the fewest that hold the
part of the range that lies in the text, and for an empty part the character at its place or, at the
end of the text, the last one. What is drawn for this range is the range itself. The search for it
looks at no index outside of the text, and the ends between which it moves the range are in order.
-/
theorem visibleSpan_whole_characters (span : Span) {source : List Char} (h : source ≠ []) :
    let inside := span.clamp (byteLength source)
    let drawn := visibleSpan span source
    (drawn.start < drawn.stop ∧ drawn.stop ≤ byteLength source ∧
        IsBoundary source drawn.start ∧ IsBoundary source drawn.stop) ∧
      (inside.start < inside.stop → inside.Inside drawn ∧
        ∀ wider : Span, IsBoundary source wider.start → IsBoundary source wider.stop →
          inside.Inside wider → drawn.Inside wider) ∧
      (inside.start = inside.stop → ∃ before c after, source = before ++ c :: after ∧
        drawn = ⟨byteLength before, byteLength (before ++ [c])⟩ ∧
        (inside.start < byteLength source →
          drawn.start ≤ inside.start ∧ inside.start < drawn.stop) ∧
        (inside.start = byteLength source → after = [])) ∧
      visibleSpan drawn source = drawn ∧
      visibleSpan? span source = some drawn := by
  intro inside drawn
  obtain ⟨hlt, hstart, hstop⟩ := visibleSpan_bounds span h
  refine ⟨⟨hlt, hstop.le_byteLength, hstart, hstop⟩, inside_visibleSpan, fun hempty => ?_,
    visibleSpan_eq_self hlt hstart hstop, visibleSpan?_eq span source⟩
  obtain ⟨before, c, after, hsource, hdrawn, hwithin, hend⟩ := exists_char_visibleSpan h hempty
  refine ⟨before, c, after, hsource, hdrawn, fun hinside => ?_, hend⟩
  have hchar : drawn = ⟨byteLength before, byteLength (before ++ [c])⟩ := hdrawn
  rw [hchar]
  exact hwithin hinside

/-- A reversed range inside a character of two bytes, and one behind the text. -/
theorem visibleSpan_whole_characters_of_reversed :
    let source := "2+é√".toList
    source ≠ [] ∧ visibleSpan ⟨3, 1⟩ source = ⟨2, 4⟩ ∧ visibleSpan ⟨2, 4⟩ source = ⟨2, 4⟩ ∧
      visibleSpan? ⟨3, 1⟩ source = some ⟨2, 4⟩ ∧ visibleSpan ⟨1, 5⟩ source = ⟨1, 7⟩ ∧
      (∀ wider : Span, IsBoundary source wider.start → IsBoundary source wider.stop →
        (⟨1, 5⟩ : Span).Inside wider → (⟨1, 7⟩ : Span).Inside wider) ∧
      visibleSpan ⟨9, 8⟩ source = ⟨4, 7⟩ := by
  intro source
  have hne : source ≠ [] := by decide
  have hreversed : visibleSpan ⟨3, 1⟩ source = ⟨2, 4⟩ := by decide
  have hwide : visibleSpan ⟨1, 5⟩ source = ⟨1, 7⟩ := by decide
  obtain ⟨-, -, -, hagain, hsearch⟩ := visibleSpan_whole_characters ⟨3, 1⟩ hne
  obtain ⟨-, hfewest, -⟩ := visibleSpan_whole_characters ⟨1, 5⟩ hne
  rw [hreversed] at hagain hsearch
  rw [hwide] at hfewest
  exact ⟨hne, hreversed, hagain, hsearch, hwide, (hfewest (by decide)).2, by decide⟩

end Abacus

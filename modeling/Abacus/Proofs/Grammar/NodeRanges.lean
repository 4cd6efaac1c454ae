import Abacus.Proofs.NodeText
import Abacus.Proofs.TypedRanges
/-!
The ranges of the nodes of a tree.

The range of a node lies in the range of the tree, and a node that has the range of the whole tree is
the tree: a derivation is told by its lexemes, and a node with fewer lexemes has a shorter range.
-/

namespace Abacus

namespace Expr

theorem sizeOf_lt_of_mem_children {child e : Expr} (h : child ∈ e.children) :
    sizeOf child < sizeOf e := by
  cases e with
  | number value span => simp [children] at h
  | negate operand span =>
    rw [children, List.mem_singleton] at h
    subst h
    simp only [negate.sizeOf_spec]
    omega
  | binary op left right span =>
    rw [children, List.mem_cons, List.mem_singleton] at h
    simp only [binary.sizeOf_spec]
    rcases h with h | h
    · subst h
      omega
    · subst h
      omega
  | call function arguments span =>
    rw [children] at h
    have hlt := List.sizeOf_lt_of_mem h
    simp only [call.sizeOf_spec]
    omega

theorem sizeOf_le_of_isNode {n e : Expr} (h : n.IsNode e) : sizeOf n ≤ sizeOf e := by
  induction h with
  | root => exact Nat.le_refl _
  | under hchild _ ih =>
    have hlt := sizeOf_lt_of_mem_children hchild
    omega

/-- No tree is a node of one of its children. -/
theorem not_isNode_child {child e : Expr} (h : child ∈ e.children) : ¬ e.IsNode child := by
  intro hnode
  have hle := sizeOf_le_of_isNode hnode
  have hlt := sizeOf_lt_of_mem_children h
  omega

end Expr

namespace Token

variable {start stop : Nat} {lexemes part : List Lexeme}

theorem Between.of_infix (h : Between stop start lexemes) (hpart : part <:+: lexemes) :
    ∃ first last, Between last first part ∧ start ≤ first ∧ last ≤ stop := by
  obtain ⟨front, back, hlexemes⟩ := hpart
  subst hlexemes
  obtain ⟨last, hinit, hback⟩ := h.append
  obtain ⟨first, hfront, hpart⟩ := hinit.append
  exact ⟨first, last, hpart, hfront.start_le_stop, hback.start_le_stop⟩

/-- Lexemes stand between the start of the first and the end of the last. -/
theorem Between.tight (h : Between stop start lexemes) (hne : lexemes ≠ []) :
    Between (lexemes.getLast hne).span.stop (lexemes.head hne).span.start lexemes := by
  induction lexemes generalizing start with
  | nil => exact absurd rfl hne
  | cons l rest ih =>
    obtain ⟨_, hlt, hrest⟩ := h
    rw [List.head_cons]
    refine ⟨Nat.le_refl _, hlt, ?_⟩
    by_cases hnil : rest = []
    · subst hnil
      exact Nat.le_refl _
    · have htight := ih hrest hnil
      have hhead := (hrest.of_mem (List.head_mem hnil)).1
      rw [List.getLast_cons hnil]
      cases rest with
      | nil => exact absurd rfl hnil
      | cons m rest =>
        obtain ⟨_, hm, hafter⟩ := htight
        exact ⟨hhead, hm, hafter⟩

end Token

namespace Grammar

open Token (Between)

section

variable {k : Nonterminal} (d : Derivation k) {start stop : Nat} {n : Expr}
include d

theorem Derivation.between_span (h : Between stop start d.lexemes) :
    Between d.expr.span.stop d.expr.span.start d.lexemes := by
  rw [d.span_expr]
  exact h.tight d.lexemes_ne_nil

theorem Derivation.isNode_bounds (h : Between stop start d.lexemes) (hn : n.IsNode d.expr) :
    start ≤ n.span.start ∧ n.span.start < n.span.stop ∧ n.span.stop ≤ stop := by
  obtain ⟨d', hexpr, hinfix⟩ := d.exists_of_isNode hn
  obtain ⟨first, last, hpart, hfirst, hlast⟩ := h.of_infix hinfix
  obtain ⟨hstart, hlt, hstop⟩ := d'.span_bounds hpart
  rw [← hexpr]
  exact ⟨hfirst.trans hstart, hlt, hstop.trans hlast⟩

theorem Derivation.inside_of_isNode (h : Between stop start d.lexemes) (hn : n.IsNode d.expr) :
    n.span.Inside d.expr.span := by
  obtain ⟨hstart, _, hstop⟩ := d.isNode_bounds (d.between_span h) hn
  exact ⟨hstart, hstop⟩

/-- Only the tree itself has the range of the whole tree. -/
theorem Derivation.eq_of_isNode (h : Between stop start d.lexemes) (hn : n.IsNode d.expr)
    (hinside : d.expr.span.Inside n.span) : n = d.expr := by
  obtain ⟨d', hexpr, front, back, hlexemes⟩ := d.exists_of_isNode hn
  have htight := d.between_span h
  rw [← hlexemes] at htight
  obtain ⟨last, hinit, hback⟩ := htight.append
  obtain ⟨first, hfront, hpart⟩ := hinit.append
  obtain ⟨hstart, _, hstop⟩ := d'.span_bounds hpart
  rw [hexpr] at hstart hstop
  have hle : n.span.start ≤ d.expr.span.start := hinside.1
  have hge : d.expr.span.stop ≤ n.span.stop := hinside.2
  -- A lexeme before or after those of the node would make the range of the tree longer.
  have hfrontNil : front = [] := by
    by_contra hne
    have := hfront.of_mem (List.head_mem hne)
    omega
  have hbackNil : back = [] := by
    by_contra hne
    have := hback.of_mem (List.head_mem hne)
    omega
  rw [hfrontNil, hbackNil, List.nil_append, List.append_nil, ← d.lexemes_toSum] at hlexemes
  rw [← hexpr, Derivation.eq_of_lexemes_eq hlexemes, d.expr_toSum]

end

theorem Arguments.isNode_bounds (arguments : Arguments) {start stop : Nat}
    (h : Between stop start arguments.lexemes) {argument n : Expr}
    (ha : argument ∈ arguments.exprs) (hn : n.IsNode argument) :
    start ≤ n.span.start ∧ n.span.start < n.span.stop ∧ n.span.stop ≤ stop := by
  obtain ⟨d, hexpr, hinfix⟩ := arguments.exists_of_isNode ha hn
  obtain ⟨first, last, hpart, hfirst, hlast⟩ := h.of_infix hinfix
  obtain ⟨hstart, hlt, hstop⟩ := d.span_bounds hpart
  rw [← hexpr]
  exact ⟨hfirst.trans hstart, hlt, hstop.trans hlast⟩

end Grammar
end Abacus

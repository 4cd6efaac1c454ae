import Abacus.Proofs.Expr.ArityChecks
import Abacus.Proofs.Positions
import Abacus.Proofs.Spacing
/-!
Tokens of the normal form, read at the places where they were typed.

The way back moves the start of a range and its stop each on its own, as long as the range is not
empty. The ranges of tokens, of nodes and in failures are never empty, so it makes no difference
whether the tokens are moved before they are parsed, or the tree or the failure afterwards.
-/

namespace Abacus

def SyntaxError.mapSpan (f : Span → Span) : SyntaxError → SyntaxError
  | .parse error => .parse (error.mapSpan f)
  | .arity error => .arity (error.mapSpan f)

def SyntaxError.span? : SyntaxError → Option Span
  | .parse error => error.span?
  | .arity error => some error.span

theorem SyntaxError.mapSpan_congr {f g : Span → Span} {error : SyntaxError}
    (h : ∀ span ∈ error.span?, f span = g span) : error.mapSpan f = error.mapSpan g := by
  cases error with
  | parse p =>
    cases p with
    | emptyExpression => rfl
    | unexpected found span | missingOperand span =>
      rw [mapSpan, mapSpan, ParseError.mapSpan, ParseError.mapSpan, h span rfl]
  | arity a => rw [mapSpan, mapSpan, ArityError.mapSpan, ArityError.mapSpan, h a.span rfl]

theorem Lexeme.map_mapSpan_congr {f g : Span → Span} {lexemes : List Lexeme}
    (h : ∀ l ∈ lexemes, f l.span = g l.span) :
    lexemes.map (Lexeme.mapSpan f) = lexemes.map (Lexeme.mapSpan g) :=
  List.map_congr_left fun l hl => by rw [Lexeme.mapSpan, Lexeme.mapSpan, h l hl]

/-- Two maps that agree on the ranges of all nodes move the tree to the same place. -/
theorem Expr.mapSpan_congr {f g : Span → Span} {e : Expr}
    (h : ∀ n, IsNode n e → f n.span = g n.span) : e.mapSpan f = e.mapSpan g := by
  induction e using Expr.induct with
  | number value span =>
    have hroot : f span = g span := h _ .root
    rw [mapSpan, mapSpan, hroot]
  | negate operand span ih =>
    have hroot : f span = g span := h _ .root
    rw [mapSpan, mapSpan, hroot, ih fun n hn => h n (.under (by simp [children]) hn)]
  | binary op left right span ihl ihr =>
    have hroot : f span = g span := h _ .root
    rw [mapSpan, mapSpan, hroot, ihl fun n hn => h n (.under (by simp [children]) hn),
      ihr fun n hn => h n (.under (by simp [children]) hn)]
  | call function arguments span ih =>
    have hroot : f span = g span := h _ .root
    have harguments : mapSpans f arguments = mapSpans g arguments := by
      rw [mapSpans_eq_map, mapSpans_eq_map]
      exact List.map_congr_left fun a ha => ih a ha fun n hn => h n (.under ha hn)
    rw [mapSpan, mapSpan, hroot, harguments]

namespace Parser

/-- Moved tokens give the moved tree, or the failure at the moved place. -/
theorem parse_relocate {r : Relocation} (hr : StrictMono r.start) {length length' : Nat}
    (hend : r.span (.endOf length) = .endOf length') (lexemes : List Lexeme) :
    parse (lexemes.map (Lexeme.mapSpan r.span)) length' =
      ((parse lexemes length).map (Expr.mapSpan r.span)).mapError (SyntaxError.mapSpan r.span) := by
  rw [parse, parse, tree_relocate hr hend]
  cases tree lexemes length with
  | error p => rfl
  | ok e =>
    dsimp only [Except.map, Except.mapError]
    rw [Expr.checkArity_mapSpan]
    cases e.checkArity <;> rfl

end Parser

namespace Evaluation

open Grammar

variable {text : List Char} {lexemes : List Lexeme}

theorem start_lt_stop_of_parse_ok {e n : Expr} (hlex : Token.lex text = .ok lexemes)
    (h : Parser.parse lexemes (byteLength text) = .ok e) (hn : n.IsNode e) :
    n.span.start < n.span.stop := by
  obtain ⟨d, rfl, rfl⟩ := exists_derivation_of_tree_ok (Parser.parse_eq_ok_iff.mp h).1
  exact (isPartOf_of_isNode hlex hn).start_lt_stop

theorem start_lt_stop_of_parse_error {error : SyntaxError} {span : Span}
    (hlex : Token.lex text = .ok lexemes)
    (h : Parser.parse lexemes (byteLength text) = .error error) (hspan : error.span? = some span) :
    span.start < span.stop := by
  rw [Parser.parse] at h
  cases htree : Parser.tree lexemes (byteLength text) with
  | error p =>
    rw [htree] at h
    cases h
    rcases Parser.span_of_tree_error htree hspan with rfl | ⟨l, hl, rfl⟩
    · exact Nat.lt_succ_self _
    · exact (isPartOf_of_mem hlex hl).start_lt_stop
  | ok e =>
    rw [htree] at h
    obtain ⟨d, rfl, rfl⟩ := exists_derivation_of_tree_ok htree
    dsimp only at h
    cases hcheck : d.expr.checkArity with
    | ok _ =>
      rw [hcheck] at h
      contradiction
    | error a =>
      rw [hcheck] at h
      cases h
      obtain ⟨n, hn, _, hnode⟩ := Expr.exists_isNode_of_checkArity_error hcheck
      rw [← Option.some.inj hspan, hnode]
      exact (isPartOf_of_isNode hlex hn).start_lt_stop

end Evaluation

namespace Normalized

/--
The tokens of the normal form are moved to where they were typed and then parsed, or parsed and then
the tree is moved. Both ways give the same tree, or the same failure at the same place.
-/
theorem parse_toTyped {typed : List Char} {lexemes : List Lexeme}
    (hlex : Token.lex (ofText typed).text = .ok lexemes) :
    Parser.parse (lexemes.map (Lexeme.mapSpan (ofText typed).toTyped)) (byteLength typed) =
      ((Parser.parse lexemes (byteLength (ofText typed).text)).map
        (Expr.mapSpan (ofText typed).toTyped)).mapError
          (SyntaxError.mapSpan (ofText typed).toTyped) := by
  have htokens : lexemes.map (Lexeme.mapSpan (ofText typed).toTyped) =
      lexemes.map (Lexeme.mapSpan (ofText typed).relocation.span) :=
    Lexeme.map_mapSpan_congr fun l hl =>
      toTyped_eq_relocation typed (Evaluation.isPartOf_of_mem hlex hl).start_lt_stop
  rw [htokens, Parser.parse_relocate (strictMono_origin typed) (relocation_end typed)]
  cases hparse : Parser.parse lexemes (byteLength (ofText typed).text) with
  | ok e =>
    refine congrArg Except.ok (Expr.mapSpan_congr fun n hn => ?_)
    exact (toTyped_eq_relocation typed
      (Evaluation.start_lt_stop_of_parse_ok hlex hparse hn)).symm
  | error error =>
    refine congrArg Except.error (SyntaxError.mapSpan_congr fun span hspan => ?_)
    exact (toTyped_eq_relocation typed
      (Evaluation.start_lt_stop_of_parse_error hlex hparse hspan)).symm

/-- A call with one argument too many and blanks in it, and an operand missing before wide blanks. -/
theorem parse_toTyped_of_wrongArity_and_missingOperand :
    let call := [⟨.number ['1'], ⟨0, 1⟩⟩, ⟨.operator .add, ⟨1, 2⟩⟩, ⟨.function .sqrt, ⟨2, 6⟩⟩,
      ⟨.openBracket, ⟨6, 7⟩⟩, ⟨.number ['4'], ⟨7, 8⟩⟩, ⟨.comma, ⟨8, 9⟩⟩, ⟨.number ['5'], ⟨9, 10⟩⟩,
      ⟨.closeBracket, ⟨10, 11⟩⟩]
    let half := [⟨.number ['2'], ⟨0, 1⟩⟩, ⟨.operator .mul, ⟨1, 2⟩⟩]
    Parser.parse (call.map (Lexeme.mapSpan (ofText "1 + SQRT( 4 ,5 )".toList).toTyped)) 16 =
        .error (.arity ⟨.sqrt, 2, ⟨4, 16⟩⟩) ∧
      Parser.parse (half.map (Lexeme.mapSpan (ofText ['2', ' ', '*', '\u3000']).toTyped)) 6 =
        .error (.parse (.missingOperand ⟨6, 7⟩)) := by
  intro call half
  have hcall : Token.lex (ofText "1 + SQRT( 4 ,5 )".toList).text = .ok call := by decide +kernel
  have hhalf : Token.lex (ofText ['2', ' ', '*', '\u3000']).text = .ok half := by decide +kernel
  have hcallError : Parser.parse call 11 = .error (.arity ⟨.sqrt, 2, ⟨2, 11⟩⟩) := rfl
  have hhalfError : Parser.parse half 2 = .error (.parse (.missingOperand ⟨2, 3⟩)) := rfl
  refine ⟨(parse_toTyped hcall).trans ?_, (parse_toTyped hhalf).trans ?_⟩
  · rw [show byteLength (ofText "1 + SQRT( 4 ,5 )".toList).text = 11 by decide +kernel, hcallError]
    exact congrArg Except.error (by decide +kernel)
  · rw [show byteLength (ofText ['2', ' ', '*', '\u3000']).text = 2 by decide +kernel, hhalfError]
    exact congrArg Except.error (by decide +kernel)

end Normalized
end Abacus

import Stencil.Proofs.Expr.Grammar

/-! What an expression says, in the order of reading: all that its tokens say but for parentheses and
commas. -/
namespace Stencil

/-- What stands at one place of an expression. -/
inductive Part where
  | literal (l : Literal)
  | attribute (name : String)
  | lexeme (x : Lexeme)
  deriving DecidableEq

namespace Expr

mutual

/-- The literals, names, operators and marks of an expression from left to right, without the marks that
only group. -/
def parts : Expr → List Part
  | literal l => [.literal l]
  | name n => [.lexeme (.name n)]
  | unary sign operand => .lexeme sign.lexeme :: parts operand
  | binary op left right => parts left ++ .lexeme (.operator op) :: parts right
  | member object n => parts object ++ [.lexeme (.mark .dot), .attribute n]
  | subscript object key =>
    parts object ++ .lexeme (.mark .openBracket) :: (parts key ++ [.lexeme (.mark .closeBracket)])
  | call callee args => parts callee ++ partsAll args
  | list items => .lexeme (.mark .openBracket) :: (partsAll items ++ [.lexeme (.mark .closeBracket)])
  | dict pairs => .lexeme (.mark .openBrace) :: (partsPairs pairs ++ [.lexeme (.mark .closeBrace)])

def partsAll : List Expr → List Part
  | [] => []
  | e :: es => parts e ++ partsAll es

def partsPairs : List (Expr × Expr) → List Part
  | [] => []
  | (key, value) :: pairs =>
    parts key ++ .lexeme (.mark .colon) :: (parts value ++ partsPairs pairs)

end

end Expr

/-- Parentheses and commas. -/
def Lexeme.grouping : Lexeme → Bool
  | .mark .openParen | .mark .closeParen | .mark .comma => true
  | _ => false

/-- Lexemes that say one part. Whole numbers say their value; only the least int has a sign of its own. -/
inductive Says : List Lexeme → Part → Prop
  | int {digits : String} {n : Int64} : (Decimal.digitsValue digits.toList : Int) = n.toInt →
      Says [.integer digits] (.literal (.int n))
  | least {digits : String} : Decimal.digitsValue digits.toList = Decimal.leastMagnitude →
      Says [.operator .sub, .integer digits] (.literal (.int Int64.minValue))
  | decimal (x : Float) : Says [.decimal x] (.literal (.float x))
  | string (s : String) : Says [.string s] (.literal (.string s))
  | constant (c : Constant) (capital : Bool) :
      Says [.constant c capital] (.literal (Parser.constantLiteral c))
  | attribute {x : Lexeme} {name : String} : Grammar.Attribute x name → Says [x] (.attribute name)
  | lexeme (x : Lexeme) : Says [x] (.lexeme x)

/-- The whole number that lexemes write, with or without a minus. -/
def Lexeme.wholeNumber? : List Lexeme → Option Int
  | [.integer digits] => some (Decimal.digitsValue digits.toList)
  | [.operator .sub, .integer digits] => some (-Decimal.digitsValue digits.toList)
  | _ => none

theorem Says.wholeNumber {xs : List Lexeme} {n : Int64} (h : Says xs (.literal (.int n))) :
    Lexeme.wholeNumber? xs = some n.toInt := by
  generalize hp : Part.literal (.int n) = p at h
  cases h with
  | int hdigits =>
    cases hp
    exact congrArg some hdigits
  | least hdigits =>
    cases hp
    rw [Lexeme.wholeNumber?, hdigits]
    rfl
  | constant c => cases c <;> cases hp
  | _ => cases hp

/-- Without their parentheses and commas, the lexemes say the parts one after the other. -/
def Tells (xs : List Lexeme) (ps : List Part) : Prop :=
  ∃ pieces : List (List Lexeme),
    pieces.flatten = xs.filter (fun x => !x.grouping) ∧ List.Forall₂ Says pieces ps

section
variable {x : Lexeme} {xs ys : List Lexeme} {p : Part} {ps qs : List Part}

theorem Tells.of_piece (h : Says xs p) (hxs : ∀ x ∈ xs, x.grouping = false) : Tells xs [p] := by
  refine ⟨[xs], ?_, .cons h .nil⟩
  rw [List.flatten_singleton, List.filter_eq_self.2 fun x hx => by simp [hxs x hx]]

theorem Tells.one (h : Says [x] p) (hx : x.grouping = false) : Tells [x] [p] :=
  .of_piece h (List.forall_mem_singleton.2 hx)

theorem Tells.lexeme (hx : x.grouping = false) : Tells [x] [.lexeme x] := .one (.lexeme x) hx

theorem Tells.grouping (hx : x.grouping = true) : Tells [x] [] :=
  ⟨[], by simp [hx], .nil⟩

theorem Tells.append (hxs : Tells xs ps) (hys : Tells ys qs) : Tells (xs ++ ys) (ps ++ qs) := by
  obtain ⟨pieces, hpieces, hps⟩ := hxs
  obtain ⟨pieces', hpieces', hqs⟩ := hys
  refine ⟨pieces ++ pieces', ?_, List.rel_append hps hqs⟩
  rw [List.flatten_append, hpieces, hpieces', List.filter_append]

theorem Tells.cons (hx : x.grouping = false) (hys : Tells ys qs) : Tells (x :: ys) (.lexeme x :: qs) :=
  (Tells.lexeme hx).append hys

theorem Tells.skip (hx : x.grouping = true) (hys : Tells ys qs) : Tells (x :: ys) qs :=
  (Tells.grouping hx).append hys

theorem Tells.concat (hxs : Tells xs ps) (hx : x.grouping = false) : Tells (xs ++ [x]) (ps ++ [.lexeme x]) :=
  hxs.append (.lexeme hx)

theorem Tells.piece (h : Tells xs ps) (hp : p ∈ ps) :
    ∃ piece, piece <:+: xs.filter (fun x => !x.grouping) ∧ Says piece p := by
  obtain ⟨pieces, hpieces, hsays⟩ := h
  obtain ⟨hlength, hget⟩ := List.forall₂_iff_get.1 hsays
  obtain ⟨i, hi, rfl⟩ := List.getElem_of_mem hp
  have hmem : pieces.get ⟨i, hlength ▸ hi⟩ ∈ pieces := List.get_mem ..
  exact ⟨_, hpieces ▸ List.infix_of_mem_flatten hmem, hget i (hlength ▸ hi) hi⟩

end

theorem int_of_intLiteral {digits : String} {l : Literal} (h : Parser.intLiteral digits = .ok l) :
    ∃ n : Int64, l = .int n ∧ (Decimal.digitsValue digits.toList : Int) = n.toInt := by
  simp only [Parser.intLiteral] at h
  split at h
  · next hlt =>
    obtain rfl := Except.ok.inj h
    exact ⟨_, rfl, (Int64.toInt_ofNat_of_lt hlt).symm⟩
  · cases h

namespace Grammar

open Stencil.Expr

theorem Attribute.tells {x : Lexeme} {name : String} (h : Attribute x name) :
    Tells [x] [.attribute name] :=
  .one (.attribute h) (by cases h <;> rfl)

mutual

theorem Phrase.tells : ∀ {xs : List Lexeme} {e : Expr}, Phrase xs e → Tells xs e.parts
  | _, _, .integer h => by
    obtain ⟨n, rfl, hn⟩ := int_of_intLiteral h
    exact .one (.int hn) rfl
  | _, _, .least h => .of_piece (.least h) (by simp [Lexeme.grouping])
  | _, _, .decimal x => .one (.decimal x) rfl
  | _, _, .string s => .one (.string s) rfl
  | _, _, .constant c capital => .one (.constant c capital) rfl
  | _, _, .name _ => .lexeme rfl
  | _, _, .unary sign h => .cons (by cases sign <;> rfl) h.tells
  | _, _, .binary _ hl hr => hl.tells.append (.cons rfl hr.tells)
  | _, _, .member ho hx => ho.tells.append (.cons rfl hx.tells)
  | _, _, .subscript ho hk => ho.tells.append (.cons rfl (hk.tells.concat rfl))
  | _, _, .call hc ha => by
    have hargs := ha.tells (.grouping rfl)
    rw [List.append_nil] at hargs
    exact hc.tells.append (.skip rfl hargs)
  | _, _, .enclosed h => by
    have hclosed := h.tells.append (.grouping (x := .mark .closeParen) rfl)
    rw [List.append_nil] at hclosed
    exact .skip rfl hclosed
  | _, _, .list h => .cons rfl (h.tells (.lexeme rfl))
  | _, _, .dict h => .cons rfl h.tells

/-- The mark that closes a sequence says a part only if it does not group. -/
theorem Listed.tells {close : Mark} {ps : List Part} (hclose : Tells [.mark close] ps) :
    ∀ {xs : List Lexeme} {es : List Expr}, Listed close xs es → Tells xs (partsAll es ++ ps)
  | _, _, .nil _ => hclose
  | _, _, .last h => by
    rw [partsAll, partsAll, List.append_nil]
    exact h.tells.append hclose
  | _, _, .cons h hes => by
    rw [partsAll, List.append_assoc]
    exact h.tells.append (.skip rfl (hes.tells hclose))

theorem Paired.tells : ∀ {xs : List Lexeme} {pairs : List (Expr × Expr)}, Paired xs pairs →
    Tells xs (partsPairs pairs ++ [.lexeme (.mark .closeBrace)])
  | _, _, .nil => .lexeme rfl
  | _, _, .last hk hv => by
    simp only [partsPairs, List.append_nil, List.append_assoc, List.cons_append]
    exact hk.tells.append (.cons rfl (hv.tells.concat rfl))
  | _, _, .cons hk hv hpairs => by
    simp only [partsPairs, List.append_assoc, List.cons_append]
    exact hk.tells.append (.cons rfl (hv.tells.append (.skip rfl hpairs.tells)))

end

end Grammar

namespace Expr

/-- An expression says what its tokens say and in their order, parentheses and commas apart. In particular
its ints are the whole numbers that stand among the tokens. -/
theorem tells_of_ofTokens {ts : List Token} {e : Expr} (h : ofTokens ts = .ok e) :
    Tells (ts.map Token.lexeme) e.parts ∧
      ∀ n : Int64, .literal (.int n) ∈ e.parts →
        ∃ xs, xs <:+: (ts.map Token.lexeme).filter (fun x => !x.grouping) ∧
          Lexeme.wholeNumber? xs = some n.toInt := by
  obtain ⟨us, hus, hphrase⟩ := Parser.takes_expression (ofTokens_eq_ok_iff.1 h)
  rw [List.append_nil] at hus
  obtain rfl := hus
  refine ⟨hphrase.tells, fun n hn => ?_⟩
  obtain ⟨xs, hxs, hsays⟩ := hphrase.tells.piece hn
  exact ⟨xs, hxs, hsays.wholeNumber⟩

theorem tells_of_ofTokens_signed :
    let xs : List Lexeme := [.mark .openParen, .mark .openBracket, .operator .sub, .integer "9223372036854775808",
      .mark .comma, .operator .sub, .not, .mark .openParen, .mark .openParen, .name "a", .mark .closeParen,
      .mark .dot, .integer "007", .mark .closeParen, .operator .pow, .integer "007", .mark .comma,
      .mark .closeBracket, .mark .closeParen]
    let ts : List Token := xs.map (⟨·, 0⟩)
    ∃ e, ofTokens ts = .ok e ∧
      e.parts = [.lexeme (.mark .openBracket), .literal (.int Int64.minValue), .lexeme (.operator .sub),
        .lexeme .not, .lexeme (.name "a"), .lexeme (.mark .dot), .attribute "007", .lexeme (.operator .pow),
        .literal (.int 7), .lexeme (.mark .closeBracket)] ∧
      Tells (ts.map Token.lexeme) e.parts ∧ ∀ n : Int64, .literal (.int n) ∈ e.parts →
        ∃ ys, ys <:+: (ts.map Token.lexeme).filter (fun x => !x.grouping) ∧
          Lexeme.wholeNumber? ys = some n.toInt := by
  intro xs ts
  have hparts : (ofTokens ts).toOption.map parts = some [.lexeme (.mark .openBracket),
      .literal (.int Int64.minValue), .lexeme (.operator .sub), .lexeme .not, .lexeme (.name "a"),
      .lexeme (.mark .dot), .attribute "007", .lexeme (.operator .pow), .literal (.int 7),
      .lexeme (.mark .closeBracket)] := by
    decide +kernel
  cases h : ofTokens ts with
  | error => rw [h] at hparts; cases hparts
  | ok e =>
    rw [h] at hparts
    exact ⟨e, rfl, Option.some.inj hparts, tells_of_ofTokens h⟩

end Expr

end Stencil

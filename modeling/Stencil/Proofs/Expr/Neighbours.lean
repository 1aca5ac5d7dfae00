import Mathlib.Data.List.Chain
import Stencil.Proofs.Expr.Grammar

/-! Which lexemes stand side by side in expressions: a percent sign never stands right inside a brace. -/
namespace Stencil

/-- Not an opening brace before a percent sign, nor a percent sign before a closing brace. -/
def Apart (x y : Lexeme) : Prop :=
  ¬ (x = .mark .openBrace ∧ y = .operator .mod) ∧ ¬ (x = .operator .mod ∧ y = .mark .closeBrace)

/-- A lexeme that is apart from every lexeme before it. -/
def ApartBefore (x : Lexeme) : Prop := x ≠ .operator .mod ∧ x ≠ .mark .closeBrace

/-- A lexeme that is apart from every lexeme after it. -/
def ApartAfter (x : Lexeme) : Prop := x ≠ .operator .mod ∧ x ≠ .mark .openBrace

theorem ApartBefore.apart {x : Lexeme} (h : ApartBefore x) (a : Lexeme) : Apart a x :=
  ⟨fun ⟨_, hx⟩ => h.1 hx, fun ⟨_, hx⟩ => h.2 hx⟩

theorem ApartAfter.apart {x : Lexeme} (h : ApartAfter x) (b : Lexeme) : Apart x b :=
  ⟨fun ⟨hx, _⟩ => h.2 hx, fun ⟨hx, _⟩ => h.1 hx⟩

/-- Neighbours are apart in `xs` whatever stands before and behind it. -/
def Framed (xs : List Lexeme) : Prop := ∀ a b, (a :: (xs ++ [b])).IsChain Apart

section
variable {x : Lexeme} {xs ys : List Lexeme}

theorem Framed.one (hbefore : ApartBefore x) (hafter : ApartAfter x) : Framed [x] := by
  intro a b
  exact .cons_cons (hbefore.apart a) (.cons_cons (hafter.apart b) (.singleton b))

theorem Framed.cons (hx : ApartBefore x) (h : ∀ b, (x :: (xs ++ [b])).IsChain Apart) :
    Framed (x :: xs) := by
  intro a b
  exact .cons_cons (hx.apart a) (h b)

/-- Whatever stands between framed lexemes is framed with them. -/
theorem Framed.append (hxs : Framed xs) (x : Lexeme) (hys : ∀ b, (x :: (ys ++ [b])).IsChain Apart) :
    Framed (xs ++ x :: ys) := by
  intro a b
  have hsplit : a :: (xs ++ x :: ys ++ [b]) = (a :: xs) ++ x :: (ys ++ [b]) := by simp
  rw [hsplit, List.isChain_split]
  exact ⟨hxs a x, hys b⟩

theorem Framed.concat (hxs : Framed xs) (hx : ApartAfter x) : Framed (xs ++ [x]) :=
  hxs.append x fun b => .cons_cons (hx.apart b) (.singleton b)

end

namespace Grammar

theorem Attribute.framed {x : Lexeme} {name : String} (h : Attribute x name) : Framed [x] := by
  cases h <;> exact .one (by simp [ApartBefore]) (by simp [ApartAfter])

mutual

theorem Phrase.framed : ∀ {xs : List Lexeme} {e : Expr}, Phrase xs e → Framed xs
  | _, _, .integer _ | _, _, .decimal _ | _, _, .string _ | _, _, .constant _ _ | _, _, .name _ =>
    .one (by simp [ApartBefore]) (by simp [ApartAfter])
  | _, _, @Phrase.least digits _ => by
    have hmagnitude : Framed [.integer digits] := .one (by simp [ApartBefore]) (by simp [ApartAfter])
    exact .cons (by simp [ApartBefore]) (hmagnitude (.operator .sub))
  | _, _, .unary sign h => by
    have hsign : ApartBefore sign.lexeme := by cases sign <;> simp [ApartBefore, Sign.lexeme]
    exact .cons hsign (h.framed sign.lexeme)
  | _, _, .binary op hl hr => hl.framed.append (.operator op) (hr.framed (.operator op))
  | _, _, .member ho hx => ho.framed.append (.mark .dot) (hx.framed (.mark .dot))
  | _, _, .subscript ho hk => by
    have hkey := hk.framed.concat (x := .mark .closeBracket) (by simp [ApartAfter])
    exact ho.framed.append (.mark .openBracket) (hkey (.mark .openBracket))
  | _, _, .call hc ha => by
    have hargs := ha.framed (by decide) (by decide)
    exact hc.framed.append (.mark .openParen) (hargs (.mark .openParen))
  | _, _, .enclosed h => by
    have hin := h.framed.concat (x := .mark .closeParen) (by simp [ApartAfter])
    exact .cons (by simp [ApartBefore]) (hin (.mark .openParen))
  | _, _, .list h => by
    have hitems := h.framed (by decide) (by decide)
    exact .cons (by simp [ApartBefore]) (hitems (.mark .openBracket))
  | _, _, .dict h => .cons (by simp [ApartBefore]) (h.isChain (by simp))

theorem Listed.framed : ∀ {close : Mark} {xs : List Lexeme} {es : List Expr}, Listed close xs es →
    close ≠ .openBrace → close ≠ .closeBrace → Framed xs
  | _, _, _, .nil _, hopen, hclose => .one (by simp [ApartBefore, hclose]) (by simp [ApartAfter, hopen])
  | _, _, _, .last he, hopen, _ => he.framed.concat (by simp [ApartAfter, hopen])
  | _, _, _, .cons he hes, hopen, hclose =>
    he.framed.append (.mark .comma) (hes.framed hopen hclose (.mark .comma))

/-- The pairs of a dict begin with its closing brace if there are none. -/
theorem Paired.isChain : ∀ {xs : List Lexeme} {ps : List (Expr × Expr)}, Paired xs ps →
    ∀ {a : Lexeme}, a ≠ .operator .mod → ∀ b, (a :: (xs ++ [b])).IsChain Apart
  | _, _, .nil, a, ha, b => by
    have hbrace : ApartAfter (.mark .closeBrace) := by simp [ApartAfter]
    exact .cons_cons (by simp [Apart, ha]) (.cons_cons (hbrace.apart b) (.singleton b))
  | _, _, .last hk hv, a, _, b => by
    have hvalue := hv.framed.concat (x := .mark .closeBrace) (by simp [ApartAfter])
    exact hk.framed.append (.mark .colon) (hvalue (.mark .colon)) a b
  | _, _, .cons hk hv hps, a, _, b => by
    have hvalue := hv.framed.append (.mark .comma) (hps.isChain (by simp))
    exact hk.framed.append (.mark .colon) (hvalue (.mark .colon)) a b

end

/-- Behind an expression the filters begin with a bar. -/
theorem Filtered.isChain {xs ys : List Lexeme} {fs : List FilterCall} (h : Filtered ys fs)
    (hxs : Framed xs) : (xs ++ ys).IsChain Apart := by
  induction h generalizing xs with
  | nil =>
    rw [List.append_nil]
    exact ((hxs (.mark .pipe) (.mark .pipe)).tail).left_of_append
  | bare name hys ih =>
    have hname : Framed [.name name] := .one (by simp [ApartBefore]) (by simp [ApartAfter])
    have hcall := hxs.append (.mark .pipe) (hname (.mark .pipe))
    simpa using ih hcall
  | applied name hargs hys ih =>
    have hname : Framed [.name name] := .one (by simp [ApartBefore]) (by simp [ApartAfter])
    have hargs := hargs.framed (by decide) (by decide)
    have hcall := hname.append (.mark .openParen) (hargs (.mark .openParen))
    simpa using ih (hxs.append (.mark .pipe) (hcall (.mark .pipe)))

end Grammar

/-- In the tokens of a pipeline neighbours are apart. -/
theorem Pipeline.isChain_of_ofTokens {ts : List Token} {p : Pipeline} (h : ofTokens ts = .ok p) :
    (ts.map Token.lexeme).IsChain Apart := by
  rcases phrase_of_ofTokens h with rfl | ⟨xs, ys, hts, hxs, hys⟩
  · exact .nil
  · rw [hts]
    exact hys.isChain hxs.framed

end Stencil

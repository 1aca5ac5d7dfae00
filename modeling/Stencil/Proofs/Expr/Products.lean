import Stencil.Proofs.Expr.Spelling

/-! How chains of multiplications and divisions are grouped when their operands carry signs. -/
namespace Stencil

open Stencil.Parser

namespace Product

/-- Operands without parts: variables, and ints that need no sign. -/
inductive Atom where
  | name (n : String)
  | integer (digits : String) (small : Decimal.digitsValue digits.toList < Decimal.leastMagnitude)

namespace Atom

def lexeme : Atom → Lexeme
  | name n => .name n
  | integer digits _ => .integer digits

def expr : Atom → Expr
  | name n => .name n
  | integer digits _ => .literal (.int (Int64.ofNat (Decimal.digitsValue digits.toList)))

theorem expr_ne_binary (a : Atom) (op : Operator) (left right : Expr) :
    a.expr ≠ .binary op left right := by
  cases a <;> exact Expr.noConfusion

theorem yields_operand {a : Atom} {p : Nat} {rest : List Token} (h : HeadAll NoTrailer rest) :
    Yields (operand (⟨a.lexeme, p⟩ :: rest)) a.expr rest := by
  refine operand_primary ?_ (trailers_stop h)
  cases a with
  | name n => exact primary_name
  | integer digits small => exact primary_integer (if_pos small)

end Atom

/-- An operator of a product and its right operand, with the sign before the operand if there is one. -/
structure Factor where
  op : Operator
  sign : Option Sign
  atom : Atom
  multiplies : op ∈ [.mul, .div, .floorDiv, .mod]

namespace Factor

def lexemes (f : Factor) : List Lexeme :=
  .operator f.op :: ((f.sign.map Sign.lexeme).toList ++ [f.atom.lexeme])

/-- The operator between `left` and its own operand alone. -/
def applied (left : Expr) (f : Factor) : Expr :=
  .binary f.op left (f.sign.elim f.atom.expr (.unary · f.atom.expr))

theorem level (f : Factor) : f.op.level = Operator.mul.level := by
  have h := f.multiplies
  simp only [List.mem_cons, List.not_mem_nil, or_false] at h
  rcases h with h | h | h | h <;> rw [h] <;> rfl

theorem below_rightLevel (f g : Factor) : Below f.op.rightLevel (.operator g.op) := by
  rintro op ⟨⟩
  have hpow : f.op ≠ .pow := by
    intro h
    have hlevel := f.level
    rw [h] at hlevel
    cases hlevel
  rw [Operator.rightLevel, if_neg hpow, f.level, g.level]
  exact Nat.lt_succ_self _

end Factor

/-- The product as it is read: to the left up to the first sign, which applies to the whole rest. -/
def grouped (left : Expr) : List Factor → Expr
  | [] => left
  | f :: fs =>
    match f.sign with
    | none => grouped (.binary f.op left f.atom.expr) fs
    | some s => .binary f.op left (.unary s (grouped f.atom.expr fs))

section
variable {f : Factor} {fs : List Factor} {ts : List Token} {left : Expr}

theorem grouped_unsigned (h : f.sign = none) :
    grouped left (f :: fs) = grouped (.binary f.op left f.atom.expr) fs := by
  rw [grouped, h]

theorem grouped_signed {s : Sign} (h : f.sign = some s) :
    grouped left (f :: fs) = .binary f.op left (.unary s (grouped f.atom.expr fs)) := by
  rw [grouped, h]

/-- Behind a factor comes an operator or nothing. -/
theorem headAll_of_lexemes {p : Lexeme → Prop} (hp : ∀ g : Factor, p (.operator g.op))
    (hts : ts.map Token.lexeme = fs.flatMap Factor.lexemes) : HeadAll p ts := by
  cases fs with
  | nil =>
    obtain rfl := List.map_eq_nil_iff.1 hts
    exact headAll_nil
  | cons g fs =>
    rw [List.flatMap_cons, Factor.lexemes, List.cons_append] at hts
    obtain ⟨q, us, rfl, -⟩ := lexemes_cons hts
    exact headAll_cons.2 (hp g)

theorem noTrailer_of_lexemes (hts : ts.map Token.lexeme = fs.flatMap Factor.lexemes) :
    HeadAll NoTrailer ts :=
  headAll_of_lexemes (fun _ => by simp [NoTrailer]) hts

theorem yields_climb {min : Nat} (hmin : min ≤ Operator.mul.level)
    (hts : ts.map Token.lexeme = fs.flatMap Factor.lexemes) :
    Yields (climb min left ts) (grouped left fs) [] := by
  induction fs generalizing min left ts with
  | nil =>
    obtain rfl := List.map_eq_nil_iff.1 hts
    exact climb_stop headAll_nil
  | cons f fs ih =>
    rw [List.flatMap_cons, Factor.lexemes, List.cons_append, List.append_assoc] at hts
    obtain ⟨p, us, rfl, hus⟩ := lexemes_cons hts
    have hlevel : min ≤ f.op.level := f.level ▸ hmin
    cases hsign : f.sign with
    | none =>
      rw [hsign] at hus
      obtain ⟨q, vs, rfl, hvs⟩ := lexemes_cons hus
      have hright : Yields (expression f.op.rightLevel (⟨f.atom.lexeme, q⟩ :: vs)) f.atom.expr vs :=
        expression_of (Atom.yields_operand (noTrailer_of_lexemes hvs))
          (climb_stop (headAll_of_lexemes f.below_rightLevel hvs))
      rw [grouped_unsigned hsign]
      exact climb_operator hlevel hright (ih hmin hvs)
    | some s =>
      rw [hsign] at hus
      obtain ⟨q, vs, rfl, hvs⟩ := lexemes_cons hus
      obtain ⟨r, ws, rfl, hws⟩ := lexemes_cons hvs
      -- the operand of a sign goes on with all operators that bind tighter than the sign
      have hs : s.level + 1 ≤ Operator.mul.level := by cases s <;> decide
      have hunder : Yields (expression (s.level + 1) (⟨f.atom.lexeme, r⟩ :: ws))
          (grouped f.atom.expr fs) [] :=
        expression_of (Atom.yields_operand (noTrailer_of_lexemes hws)) (ih hs hws)
      rw [grouped_signed hsign]
      exact climb_operator hlevel (expression_of (operand_sign hunder) (climb_stop headAll_nil))
        (climb_stop headAll_nil)

theorem grouped_cons_binary : ∃ op l r, grouped left (f :: fs) = .binary op l r := by
  induction fs generalizing f left with
  | nil =>
    cases hsign : f.sign with
    | none => exact ⟨_, _, _, grouped_unsigned hsign⟩
    | some s => exact ⟨_, _, _, grouped_signed hsign⟩
  | cons g fs ih =>
    cases hsign : f.sign with
    | none => exact grouped_unsigned hsign ▸ ih
    | some s => exact ⟨_, _, _, grouped_signed hsign⟩

/-- No sign applies to a product when the operands are taken one by one. -/
theorem foldl_applied_ne (hfs : fs ≠ []) {op op' : Operator} {s : Sign} {l l' r' : Expr} :
    fs.foldl Factor.applied left ≠ .binary op l (.unary s (.binary op' l' r')) := by
  rw [← List.dropLast_append_getLast hfs, List.foldl_concat, Factor.applied]
  intro h
  obtain ⟨-, -, hright⟩ := Expr.binary.inj h
  cases hsign : (fs.getLast hfs).sign with
  | none =>
    rw [hsign] at hright
    cases hatom : (fs.getLast hfs).atom <;> rw [hatom] at hright <;> cases hright
  | some t =>
    rw [hsign] at hright
    exact Atom.expr_ne_binary _ _ _ _ (Expr.unary.inj hright).2

theorem grouped_eq_foldl_iff :
    grouped left fs = fs.foldl Factor.applied left ↔ ∀ f ∈ fs.dropLast, f.sign = none := by
  induction fs generalizing left with
  | nil => simp [grouped]
  | cons f fs ih =>
    rw [List.foldl_cons]
    cases hsign : f.sign with
    | none =>
      rw [grouped_unsigned hsign, Factor.applied, hsign, Option.elim_none, ih]
      cases fs with
      | nil => simp
      | cons g fs => simp [hsign]
    | some s =>
      cases fs with
      | nil => simp [grouped, Factor.applied, hsign]
      | cons g fs =>
        obtain ⟨op, l, r, hbinary⟩ : ∃ op l r, grouped f.atom.expr (g :: fs) = .binary op l r :=
          grouped_cons_binary
        rw [grouped_signed hsign, hbinary]
        refine iff_of_false (foldl_applied_ne (List.cons_ne_nil g fs)).symm fun h => ?_
        have hnone : f.sign = none := h f (by simp)
        rw [hsign] at hnone
        cases hnone

end

end Product

namespace Expr

open Product

theorem ofTokens_eq_grouped {a : Atom} {fs : List Factor} {ts : List Token}
    (hts : ts.map Token.lexeme = a.lexeme :: fs.flatMap Factor.lexemes) :
    ofTokens ts = .ok (grouped a.expr fs) := by
  obtain ⟨p, us, rfl, hus⟩ := lexemes_cons hts
  exact ofTokens_eq_ok_iff.2 (expression_of (Atom.yields_operand (noTrailer_of_lexemes hus))
    (yields_climb (Nat.zero_le _) hus))

/-- A sign inside a product applies to the whole rest of it. So the operands are taken one by one exactly if
none before the last has a sign. -/
theorem ofTokens_product {a : Atom} {fs : List Factor} {ts : List Token}
    (hts : ts.map Token.lexeme = a.lexeme :: fs.flatMap Factor.lexemes) :
    ofTokens ts = .ok (grouped a.expr fs) ∧
      (ofTokens ts = .ok (fs.foldl Factor.applied a.expr) ↔ ∀ f ∈ fs.dropLast, f.sign = none) := by
  have h := ofTokens_eq_grouped hts
  exact ⟨h, by rw [h, Except.ok.injEq, grouped_eq_foldl_iff]⟩

theorem ofTokens_product_signed :
    let a : Atom := .name "a"
    let divisor : Factor := ⟨.div, some .minus, .integer "2" (by decide), by decide⟩
    let fs : List Factor := [⟨.mul, none, .name "b", by decide⟩, divisor, ⟨.mod, some .plus, .name "n", by decide⟩]
    let ts : List Token := (a.lexeme :: fs.flatMap Factor.lexemes).map (⟨·, 0⟩)
    ofTokens ts = .ok (.binary .div (.binary .mul (.name "a") (.name "b"))
        (.unary .minus (.binary .mod (.literal (.int 2)) (.unary .plus (.name "n"))))) ∧
      ¬ ofTokens ts = .ok (fs.foldl Factor.applied a.expr) := by
  intro a divisor fs ts
  have hts : ts.map Token.lexeme = a.lexeme :: fs.flatMap Factor.lexemes := by
    rw [List.map_map]
    exact List.map_id _
  obtain ⟨hgrouped, hfold⟩ := ofTokens_product hts
  refine ⟨hgrouped, fun h => ?_⟩
  have hunsigned : divisor.sign = none := hfold.1 h divisor (.tail _ (.head _))
  cases hunsigned

/-- A sign before the last operand keeps the product from being grouped to the left. -/
theorem parse_signed_divisor :
    parse "6 / -2 * 3" = .ok (.binary .div (.literal (.int 6))
        (.unary .minus (.binary .mul (.literal (.int 2)) (.literal (.int 3))))) ∧
      parse "6 / -2 * 3" ≠ .ok (.binary .mul
        (.binary .div (.literal (.int 6)) (.unary .minus (.literal (.int 2)))) (.literal (.int 3))) := by
  have h : parse "6 / -2 * 3" = .ok (.binary .div (.literal (.int 6))
      (.unary .minus (.binary .mul (.literal (.int 2)) (.literal (.int 3))))) := by
    have hlex : lex "6 / -2 * 3" = .ok [⟨.integer "6", 0⟩, ⟨.operator .div, 2⟩, ⟨.operator .sub, 4⟩,
        ⟨.integer "2", 5⟩, ⟨.operator .mul, 7⟩, ⟨.integer "3", 9⟩] := by decide +kernel
    rw [parse, hlex]
    exact @ofTokens_eq_grouped (.integer "6" (by decide))
      [⟨.div, some .minus, .integer "2" (by decide), by decide⟩, ⟨.mul, none, .integer "3" (by decide), by decide⟩]
      _ rfl
  refine ⟨h, ?_⟩
  rw [h]
  intro heq
  cases heq

end Expr

end Stencil

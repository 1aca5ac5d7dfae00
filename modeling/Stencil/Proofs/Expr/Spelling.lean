import Mathlib.Data.List.Forall2
import Stencil.Proofs.Expr.Reading

/-! Spelling expressions with as few parentheses as the levels of the operators allow, and reading them
back. -/
namespace Stencil

/-- How a literal is written. Whole numbers are written without a sign. -/
def Literal.lexeme : Literal → Lexeme
  | null => .constant .none true
  | bool b => .constant (if b then .true else .false) true
  | int n => .integer (toString n.toInt.toNat)
  | float x => .decimal x
  | string s => .string s

/-- Null, booleans, strings, and ints that need no sign. -/
def Literal.unsigned : Literal → Bool
  | null | bool _ | string _ => true
  | int n => 0 ≤ n.toInt
  | float _ => false

def Sign.lexeme : Sign → Lexeme
  | not => .not
  | minus => .operator .sub
  | plus => .operator .add

namespace Expr

/-- How the name of an attribute is written. Digits are a whole number as a lexeme, not a name. -/
def attributeLexeme (n : String) : Lexeme :=
  if n ≠ "" ∧ n.toList.all Char.isDigit then .integer n else .name n

/-- Whether the object of an attribute, a subscript or a call has to be enclosed. -/
def enclosedObject : Expr → Bool
  | unary .. | binary .. => true
  | _ => false

/-- Whether the left operand of an operator has to be enclosed. -/
def enclosedLeft (op : Operator) : Expr → Bool
  | unary .. => true
  | binary inner _ _ => if op = .pow then inner.level ≤ op.level else inner.level < op.level
  | _ => false

/-- Whether the right operand of an operator has to be enclosed. -/
def enclosedRight (op : Operator) : Expr → Bool
  | unary .. => true
  | binary inner _ _ => if op = .pow then inner.level < op.level else inner.level ≤ op.level
  | _ => false

/-- Whether the operand of a sign has to be enclosed. -/
def enclosedUnder (sign : Sign) : Expr → Bool
  | binary inner _ _ => inner.level ≤ sign.level
  | _ => false

def enclose (enclosed : Bool) (xs : List Lexeme) : List Lexeme :=
  if enclosed then .mark .openParen :: (xs ++ [.mark .closeParen]) else xs

mutual

/-- The lexemes of an expression in their order. -/
def spell : Expr → List Lexeme
  | literal l => [l.lexeme]
  | name n => [.name n]
  | unary sign operand => sign.lexeme :: enclose (operand.enclosedUnder sign) (spell operand)
  | binary op left right =>
    enclose (left.enclosedLeft op) (spell left) ++
      .operator op :: enclose (right.enclosedRight op) (spell right)
  | member object n => enclose object.enclosedObject (spell object) ++ [.mark .dot, attributeLexeme n]
  | subscript object key =>
    enclose object.enclosedObject (spell object) ++
      .mark .openBracket :: (spell key ++ [.mark .closeBracket])
  | call callee args =>
    enclose callee.enclosedObject (spell callee) ++
      .mark .openParen :: ([.mark .comma].intercalate (spellAll args) ++ [.mark .closeParen])
  | list items =>
    .mark .openBracket :: ([.mark .comma].intercalate (spellAll items) ++ [.mark .closeBracket])
  | dict pairs =>
    .mark .openBrace :: ([.mark .comma].intercalate (spellPairs pairs) ++ [.mark .closeBrace])

def spellAll : List Expr → List (List Lexeme)
  | [] => []
  | e :: es => spell e :: spellAll es

def spellPairs : List (Expr × Expr) → List (List Lexeme)
  | [] => []
  | (key, value) :: pairs => (spell key ++ .mark .colon :: spell value) :: spellPairs pairs

end

mutual

/-- Whether all literals of an expression can be written without a sign or a point. -/
def unsigned : Expr → Bool
  | literal l => l.unsigned
  | name _ => true
  | unary _ operand => unsigned operand
  | binary _ left right => unsigned left && unsigned right
  | member object _ => unsigned object
  | subscript object key => unsigned object && unsigned key
  | call callee args => unsigned callee && unsignedAll args
  | list items => unsignedAll items
  | dict pairs => unsignedPairs pairs

def unsignedAll : List Expr → Bool
  | [] => true
  | e :: es => unsigned e && unsignedAll es

def unsignedPairs : List (Expr × Expr) → Bool
  | [] => true
  | (key, value) :: pairs => unsigned key && unsigned value && unsignedPairs pairs

end

end Expr

namespace Parser

open Stencil.Expr

/-- A mark that begins no attribute, subscript or call: it ends the expression before it. -/
def Ending (x : Lexeme) : Prop :=
  ∃ m : Mark, x = .mark m ∧ m ≠ .dot ∧ m ≠ .openBracket ∧ m ≠ .openParen

/-- What may come behind an expression without being taken for a part of it. -/
def Follows : Expr → Lexeme → Prop
  | .unary .., x => NoTrailer x ∧ ∀ level, Below level x
  | .binary op _ _, x => NoTrailer x ∧ Below op.rightLevel x
  | _, x => NoTrailer x

/-- The level that an expression has as an operand. -/
def Fits (min : Nat) : Expr → Prop
  | .binary op _ _ => min ≤ op.level
  | _ => True

/-- Tokens with these lexemes are read as `e` where the expression has to end behind them. -/
def Spells (xs : List Lexeme) (e : Expr) : Prop :=
  ∀ ts rest, ts.map Token.lexeme = xs → HeadAll Ending rest → Yields (expression 0 (ts ++ rest)) e rest

/-- Tokens with these lexemes are read as the operand `e`, whatever is read behind it. -/
def SpellsOperand (xs : List Lexeme) (e : Expr) : Prop :=
  ∀ ts rest a out, ts.map Token.lexeme = xs → Yields (trailers e rest) a out →
    Yields (operand (ts ++ rest)) a out

/-- Tokens with these lexemes are read as the left operand `e` of what follows. -/
def SpellsLeft (xs : List Lexeme) (e : Expr) : Prop :=
  ∀ min ts rest a out, ts.map Token.lexeme = xs → Fits min e → HeadAll (Follows e) rest →
    Yields (climb min e rest) a out → Yields (expression min (ts ++ rest)) a out

theorem HeadAll.mono {p q : Lexeme → Prop} {ts : List Token} (h : HeadAll p ts)
    (hpq : ∀ x, p x → q x) : HeadAll q ts := fun t ht => hpq _ (h t ht)

theorem Ending.noTrailer {x : Lexeme} (h : Ending x) : NoTrailer x := by
  obtain ⟨m, rfl, h⟩ := h
  simpa [NoTrailer] using h

theorem Ending.below {x : Lexeme} (h : Ending x) (level : Nat) : Below level x := by
  obtain ⟨m, rfl, -⟩ := h
  exact fun op h => nomatch h

theorem follows_of_below {x : Lexeme} (ht : NoTrailer x) (hb : ∀ level, Below level x) (e : Expr) :
    Follows e x := by
  cases e <;> first | exact ht | exact ⟨ht, hb⟩ | exact ⟨ht, hb _⟩

theorem Ending.follows {x : Lexeme} (h : Ending x) (e : Expr) : Follows e x :=
  follows_of_below h.noTrailer h.below e

theorem Follows.noTrailer {e : Expr} {x : Lexeme} (h : Follows e x) : NoTrailer x := by
  cases e <;> first | exact h | exact h.1

theorem SpellsLeft.spells {xs : List Lexeme} {e : Expr} (h : SpellsLeft xs e) : Spells xs e := by
  intro ts rest hts hrest
  have hfits : Fits 0 e := by cases e <;> simp [Fits]
  exact h 0 ts rest e rest hts hfits (hrest.mono fun x hx => hx.follows e)
    (climb_stop (hrest.mono fun x hx => hx.below 0))

theorem lexemes_cons {ts : List Token} {x : Lexeme} {xs : List Lexeme}
    (h : ts.map Token.lexeme = x :: xs) :
    ∃ p ts', ts = ⟨x, p⟩ :: ts' ∧ ts'.map Token.lexeme = xs := by
  obtain ⟨⟨y, p⟩, ts', rfl, rfl, hts'⟩ := List.map_eq_cons_iff.1 h
  exact ⟨p, ts', rfl, hts'⟩

theorem lexemes_concat {ts : List Token} {x : Lexeme} {xs : List Lexeme}
    (h : ts.map Token.lexeme = xs ++ [x]) :
    ∃ p ts', ts = ts' ++ [⟨x, p⟩] ∧ ts'.map Token.lexeme = xs := by
  obtain ⟨ts', last, rfl, hts', hlast⟩ := List.map_eq_append_iff.1 h
  obtain ⟨⟨y, p⟩, rfl, rfl⟩ := List.map_eq_singleton_iff.1 hlast
  exact ⟨p, ts', rfl, hts'⟩

/-- An expression in parentheses is an operand. -/
theorem Spells.enclosed {xs : List Lexeme} {e : Expr} (h : Spells xs e) :
    SpellsOperand (.mark .openParen :: (xs ++ [.mark .closeParen])) e := by
  intro ts rest a out hts ht
  obtain ⟨p, inner, rfl, hinner⟩ := lexemes_cons hts
  obtain ⟨q, us, rfl, hus⟩ := lexemes_concat hinner
  have hin := h us (⟨.mark .closeParen, q⟩ :: rest) hus
    (headAll_cons.2 ⟨.closeParen, rfl, by decide⟩)
  rw [List.cons_append, List.append_assoc]
  exact operand_primary (primary_paren hin) ht

/-- An operand that needs no parentheses is also a left operand. -/
theorem SpellsOperand.spellsLeft {xs : List Lexeme} {e : Expr} (h : SpellsOperand xs e) :
    SpellsLeft xs e := by
  intro min ts rest a out hts _ hrest hc
  have hstop := trailers_stop (e := e) (hrest.mono fun x hx => hx.noTrailer)
  exact expression_of (h ts rest e rest hts hstop) hc

/-- An operand, enclosed if it has to be, with what is read behind it. -/
theorem SpellsLeft.enclose {xs : List Lexeme} {e : Expr} (h : SpellsLeft xs e) {enclosed : Bool}
    {min : Nat} {ts rest out : List Token} {a : Expr} (hts : ts.map Token.lexeme = enclose enclosed xs)
    (hopen : enclosed = false → Fits min e ∧ HeadAll (Follows e) rest)
    (hrest : HeadAll NoTrailer rest) (hc : Yields (climb min e rest) a out) :
    Yields (expression min (ts ++ rest)) a out := by
  cases enclosed with
  | false => exact h min ts rest a out hts (hopen rfl).1 (hopen rfl).2 hc
  | true => exact expression_of (h.spells.enclosed ts rest e rest hts (trailers_stop hrest)) hc

/-- The lexemes of `e` are read as `e`, as an operand and as the object of a trailer. -/
structure Readable (e : Expr) : Prop where
  left : SpellsLeft e.spell e
  object : SpellsOperand (enclose e.enclosedObject e.spell) e

theorem Readable.of_operand {e : Expr} (he : e.enclosedObject = false)
    (h : SpellsOperand e.spell e) : Readable e :=
  ⟨h.spellsLeft, by rwa [he]⟩

theorem Readable.of_left {e : Expr} (he : e.enclosedObject = true) (h : SpellsLeft e.spell e) :
    Readable e :=
  ⟨h, by rw [he]; exact h.spells.enclosed⟩

theorem Readable.spells {e : Expr} (h : Readable e) : Spells e.spell e := h.left.spells

theorem intLiteral_toString {n : Int64} (hn : 0 ≤ n.toInt) :
    intLiteral (toString n.toInt.toNat) = .ok (.int n) := by
  have hlt := n.toInt_lt
  have hnat : Int64.ofNat n.toInt.toNat = n := by
    rw [← Int64.ofInt_eq_ofNat, Int.toNat_of_nonneg hn, Int64.ofInt_toInt]
  simp only [intLiteral, Decimal.digitsValue_toString, hnat, Decimal.leastMagnitude]
  exact if_pos (by omega)

theorem readable_literal {l : Literal} (hl : l.unsigned) : Readable (.literal l) := by
  refine .of_operand rfl fun ts rest a out hts ht => ?_
  obtain ⟨p, us, rfl, hus⟩ := lexemes_cons hts
  obtain rfl := List.map_eq_nil_iff.1 hus
  refine operand_primary ?_ ht
  cases l with
  | null => exact primary_constant
  | bool b => cases b <;> exact primary_constant
  | int n => exact primary_integer (intLiteral_toString (by simpa [Literal.unsigned] using hl))
  | float x => cases hl
  | string s => exact primary_string

theorem readable_name (n : String) : Readable (.name n) := by
  refine .of_operand rfl fun ts rest a out hts ht => ?_
  obtain ⟨p, us, rfl, hus⟩ := lexemes_cons hts
  obtain rfl := List.map_eq_nil_iff.1 hus
  exact operand_primary primary_name ht

theorem operand_sign {sign : Sign} {position : Nat} {ts rest : List Token} {e : Expr}
    (h : Yields (expression (sign.level + 1) ts) e rest) :
    Yields (operand (⟨sign.lexeme, position⟩ :: ts)) (.unary sign e) rest := by
  cases sign with
  | not => exact operand_not h
  | minus => exact operand_minus h
  | plus => exact operand_plus h

theorem readable_unary {sign : Sign} {e : Expr} (h : Readable e) : Readable (.unary sign e) := by
  refine .of_left rfl fun min ts rest a out hts _ hrest hc => ?_
  obtain ⟨p, us, rfl, hus⟩ := lexemes_cons hts
  have hfits (he : e.enclosedUnder sign = false) : Fits (sign.level + 1) e := by
    cases e with
    | binary op left right => simpa [enclosedUnder, Fits, Nat.succ_le_iff] using he
    | _ => trivial
  have hin : Yields (expression (sign.level + 1) (us ++ rest)) e rest :=
    h.left.enclose hus
      (fun he => ⟨hfits he, hrest.mono fun x hx => follows_of_below hx.1 hx.2 e⟩)
      (hrest.mono fun x hx => hx.1) (climb_stop (hrest.mono fun x hx => hx.2 _))
  exact expression_of (operand_sign hin) hc

theorem level_le_rightLevel (op : Operator) : op.level ≤ op.rightLevel := by
  cases op <;> decide

theorem fits_of_right {op : Operator} {e : Expr} (he : e.enclosedRight op = false) :
    Fits op.rightLevel e := by
  cases e with
  | binary inner left right =>
    simp only [enclosedRight, Operator.rightLevel, Fits] at he ⊢
    split at he
    · next hpow =>
      rw [if_pos hpow]
      simpa using he
    · next hpow =>
      rw [if_neg hpow]
      simpa [Nat.succ_le_iff] using he
  | _ => trivial

/-- What may follow an operator's right operand does not bind tighter than anything inside it. -/
theorem follows_of_right {op : Operator} {e : Expr} (he : e.enclosedRight op = false) {x : Lexeme}
    (ht : NoTrailer x) (hb : Below op.rightLevel x) : Follows e x := by
  have hfits := fits_of_right he
  cases e with
  | unary => cases he
  | binary inner left right =>
    refine ⟨ht, fun after hx => ?_⟩
    have := hb after hx
    have := level_le_rightLevel inner
    simp only [Fits] at hfits
    omega
  | _ => exact ht

theorem fits_of_left {op : Operator} {e : Expr} (he : e.enclosedLeft op = false) {min : Nat}
    (hmin : min ≤ op.level) : Fits min e := by
  cases e with
  | binary inner left right =>
    simp only [enclosedLeft, Fits] at he ⊢
    split at he <;> simp at he <;> omega
  | _ => trivial

theorem level_lt_pow {op : Operator} (h : op ≠ .pow) : op.level < Operator.pow.level := by
  cases op <;> first | decide | exact absurd rfl h

/-- An operator takes its left operand whole. -/
theorem follows_of_left {op : Operator} {e : Expr} (he : e.enclosedLeft op = false) :
    Follows e (.operator op) := by
  have ht : NoTrailer (.operator op) := by simp [NoTrailer]
  cases e with
  | unary => cases he
  | binary inner left right =>
    refine ⟨ht, fun after hx => ?_⟩
    obtain rfl := Lexeme.operator.inj hx
    simp only [enclosedLeft] at he
    by_cases hop : op = .pow
    · -- no operator binds tighter than a power
      subst hop
      have hinner : inner.level ≤ Operator.pow.level := by cases inner <;> decide
      simp [hinner] at he
    · rw [if_neg hop, decide_eq_false_iff_not, Nat.not_lt] at he
      rw [Operator.rightLevel]
      split
      · next hinner => exact hinner ▸ level_lt_pow hop
      · exact Nat.lt_succ_of_le he
  | _ => exact ht

theorem readable_binary {op : Operator} {l r : Expr} (hl : Readable l) (hr : Readable r) :
    Readable (.binary op l r) := by
  refine .of_left rfl fun min ts rest a out hts hmin hrest hc => ?_
  obtain ⟨ls, os, rfl, hls, hos⟩ := List.map_eq_append_iff.1 hts
  obtain ⟨p, rs, rfl, hrs⟩ := lexemes_cons hos
  have hright : Yields (expression op.rightLevel (rs ++ rest)) r rest :=
    hr.left.enclose hrs
      (fun he => ⟨fits_of_right he, hrest.mono fun x hx => follows_of_right he hx.1 hx.2⟩)
      (hrest.mono fun x hx => hx.1) (climb_stop (hrest.mono fun x hx => hx.2))
  rw [List.append_assoc, List.cons_append]
  exact hl.left.enclose hls
    (fun he => ⟨fits_of_left he hmin, headAll_cons.2 (follows_of_left he)⟩)
    (headAll_cons.2 (by simp [NoTrailer])) (climb_operator hmin hright hc)

theorem attribute_attributeLexeme (n : String) : Grammar.Attribute (attributeLexeme n) n := by
  rw [attributeLexeme]
  split
  · exact .integer n
  · exact .name n

theorem readable_member {object : Expr} (n : String) (h : Readable object) :
    Readable (.member object n) := by
  refine .of_operand rfl fun ts rest a out hts ht => ?_
  obtain ⟨us, tail, rfl, hus, htail⟩ := List.map_eq_append_iff.1 hts
  obtain ⟨p, vs, rfl, hvs⟩ := lexemes_cons htail
  obtain ⟨q, ws, rfl, hws⟩ := lexemes_cons hvs
  obtain rfl := List.map_eq_nil_iff.1 hws
  rw [List.append_assoc]
  exact h.object us _ a out hus (trailers_attribute (attribute_attributeLexeme n) ht)

theorem readable_subscript {object key : Expr} (ho : Readable object) (hk : Readable key) :
    Readable (.subscript object key) := by
  refine .of_operand rfl fun ts rest a out hts ht => ?_
  obtain ⟨us, tail, rfl, hus, htail⟩ := List.map_eq_append_iff.1 hts
  obtain ⟨p, vs, rfl, hvs⟩ := lexemes_cons htail
  obtain ⟨q, ks, rfl, hks⟩ := lexemes_concat hvs
  have hkey := hk.spells ks (⟨.mark .closeBracket, q⟩ :: rest) hks
    (headAll_cons.2 ⟨.closeBracket, rfl, by decide⟩)
  rw [List.append_assoc, List.cons_append, List.append_assoc]
  exact ho.object us _ a out hus (trailers_subscript hkey ht)

/-- Expressions with commas between them are read up to the closing mark. -/
theorem sequence_of_spells {m : Mark} (hm : Closing m) {xss : List (List Lexeme)} {es : List Expr}
    (h : List.Forall₂ Spells xss es) {ts : List Token} (rest : List Token)
    (hts : ts.map Token.lexeme = [.mark .comma].intercalate xss ++ [.mark m]) :
    Yields (sequence m (ts ++ rest)) es rest := by
  obtain ⟨q, us, rfl, hus⟩ := lexemes_concat hts
  have hending : Ending (.mark m) := ⟨m, rfl, by rcases hm with rfl | rfl | rfl <;> decide⟩
  clear hts
  rw [List.append_assoc]
  induction h generalizing us with
  | nil =>
    obtain rfl := List.map_eq_nil_iff.1 hus
    exact sequence_nil
  | @cons xs e xss es he hes ih =>
    cases hes with
    | nil =>
      rw [List.intercalate_singleton] at hus
      exact sequence_last hm (he us _ hus (headAll_cons.2 hending))
    | @cons ys d yss ds hd hds =>
      rw [List.intercalate_cons_cons, List.append_assoc] at hus
      obtain ⟨vs, tail, rfl, hvs, htail⟩ := List.map_eq_append_iff.1 hus
      obtain ⟨p, ws, rfl, hws⟩ := lexemes_cons htail
      rw [List.append_assoc]
      exact sequence_cons hm (he vs _ hvs (headAll_cons.2 ⟨.comma, rfl, by decide⟩)) (ih ws hws)

/-- The lexemes of a pair of a key and a value. -/
def SpellsPair (xs : List Lexeme) (p : Expr × Expr) : Prop :=
  ∃ ks vs, xs = ks ++ .mark .colon :: vs ∧ Spells ks p.1 ∧ Spells vs p.2

theorem pairs_of_spells {xss : List (List Lexeme)} {ps : List (Expr × Expr)}
    (h : List.Forall₂ SpellsPair xss ps) {ts : List Token} (rest : List Token)
    (hts : ts.map Token.lexeme = [.mark .comma].intercalate xss ++ [.mark .closeBrace]) :
    Yields (pairs (ts ++ rest)) ps rest := by
  obtain ⟨q, us, rfl, hus⟩ := lexemes_concat hts
  clear hts
  have hcolon (r : Nat) (ts : List Token) : HeadAll Ending (⟨.mark .colon, r⟩ :: ts) :=
    headAll_cons.2 ⟨.colon, rfl, by decide⟩
  rw [List.append_assoc]
  induction h generalizing us with
  | nil =>
    obtain rfl := List.map_eq_nil_iff.1 hus
    exact pairs_nil
  | @cons xs e xss es he hes ih =>
    obtain ⟨ks, vs, rfl, hk, hv⟩ := he
    cases hes with
    | nil =>
      rw [List.intercalate_singleton] at hus
      obtain ⟨kts, tail, rfl, hkts, htail⟩ := List.map_eq_append_iff.1 hus
      obtain ⟨r, vts, rfl, hvts⟩ := lexemes_cons htail
      rw [List.append_assoc]
      exact pairs_last (hk kts _ hkts (hcolon r _))
        (hv vts _ hvts (headAll_cons.2 ⟨.closeBrace, rfl, by decide⟩))
    | @cons ys d yss ds hd hds =>
      rw [List.intercalate_cons_cons, List.append_assoc, List.append_assoc] at hus
      obtain ⟨kts, tail, rfl, hkts, htail⟩ := List.map_eq_append_iff.1 hus
      obtain ⟨r, us', rfl, hus'⟩ := lexemes_cons htail
      obtain ⟨vts, tail', rfl, hvts, htail'⟩ := List.map_eq_append_iff.1 hus'
      obtain ⟨p, ws, rfl, hws⟩ := lexemes_cons htail'
      rw [List.append_assoc, List.cons_append, List.append_assoc]
      exact pairs_cons (hk kts _ hkts (hcolon r _))
        (hv vts _ hvts (headAll_cons.2 ⟨.comma, rfl, by decide⟩)) (ih ws hws)

theorem readable_call {callee : Expr} {args : List Expr} (h : Readable callee)
    (hargs : List.Forall₂ Spells (spellAll args) args) : Readable (.call callee args) := by
  refine .of_operand rfl fun ts rest a out hts ht => ?_
  obtain ⟨us, tail, rfl, hus, htail⟩ := List.map_eq_append_iff.1 hts
  obtain ⟨p, vs, rfl, hvs⟩ := lexemes_cons htail
  rw [List.append_assoc]
  exact h.object us _ a out hus (trailers_call (sequence_of_spells (.inl rfl) hargs rest hvs) ht)

theorem spellsOperand_list {xss : List (List Lexeme)} {items : List Expr}
    (h : List.Forall₂ Spells xss items) : SpellsOperand
      (.mark .openBracket :: ([.mark .comma].intercalate xss ++ [.mark .closeBracket]))
      (.list items) := by
  intro ts rest a out hts ht
  obtain ⟨p, us, rfl, hus⟩ := lexemes_cons hts
  exact operand_primary (primary_list (sequence_of_spells (.inr (.inl rfl)) h rest hus)) ht

theorem spellsOperand_dict {xss : List (List Lexeme)} {ps : List (Expr × Expr)}
    (h : List.Forall₂ SpellsPair xss ps) : SpellsOperand
      (.mark .openBrace :: ([.mark .comma].intercalate xss ++ [.mark .closeBrace])) (.dict ps) := by
  intro ts rest a out hts ht
  obtain ⟨p, us, rfl, hus⟩ := lexemes_cons hts
  exact operand_primary (primary_dict (pairs_of_spells h rest hus)) ht

theorem beginsWithPower_eq_false {ts : List Token} (h : HeadAll Ending ts) :
    beginsWithPower ts = false := by
  unfold beginsWithPower
  split
  · obtain ⟨m, hm, -⟩ := h _ rfl
    cases hm
  · rfl

theorem spells_least :
    Spells [.operator .sub, .integer (toString Decimal.leastMagnitude)] (.literal (.int Int64.minValue)) := by
  intro ts rest hts hrest
  obtain ⟨p, us, rfl, hus⟩ := lexemes_cons hts
  obtain ⟨q, vs, rfl, hvs⟩ := lexemes_cons hus
  obtain rfl := List.map_eq_nil_iff.1 hvs
  exact expression_of
    (operand_least (Decimal.digitsValue_toString _) (beginsWithPower_eq_false hrest))
    (climb_stop (hrest.mono fun x hx => hx.below 0))

mutual

theorem readable : ∀ e : Expr, e.unsigned = true → Readable e
  | .literal l, h => readable_literal h
  | .name n, _ => readable_name n
  | .unary _ e, h => readable_unary (readable e h)
  | .binary _ l r, h => by
    obtain ⟨hl, hr⟩ := Bool.and_eq_true_iff.1 h
    exact readable_binary (readable l hl) (readable r hr)
  | .member object n, h => readable_member n (readable object h)
  | .subscript object key, h => by
    obtain ⟨ho, hk⟩ := Bool.and_eq_true_iff.1 h
    exact readable_subscript (readable object ho) (readable key hk)
  | .call callee args, h => by
    obtain ⟨hc, ha⟩ := Bool.and_eq_true_iff.1 h
    exact readable_call (readable callee hc) (spells_all args ha)
  | .list items, h => .of_operand rfl (spellsOperand_list (spells_all items h))
  | .dict ps, h => .of_operand rfl (spellsOperand_dict (spells_pairs ps h))

theorem spells_all : ∀ es : List Expr, unsignedAll es = true →
    List.Forall₂ Spells (spellAll es) es
  | [], _ => .nil
  | e :: es, h => by
    obtain ⟨he, hes⟩ := Bool.and_eq_true_iff.1 h
    exact .cons (readable e he).spells (spells_all es hes)

theorem spells_pairs : ∀ ps : List (Expr × Expr), unsignedPairs ps = true →
    List.Forall₂ SpellsPair (spellPairs ps) ps
  | [], _ => .nil
  | (key, value) :: ps, h => by
    obtain ⟨hkv, hps⟩ := Bool.and_eq_true_iff.1 h
    obtain ⟨hk, hv⟩ := Bool.and_eq_true_iff.1 hkv
    exact .cons ⟨_, _, rfl, (readable key hk).spells, (readable value hv).spells⟩
      (spells_pairs ps hps)

end

theorem Spells.expression {xs : List Lexeme} {e : Expr} (h : Spells xs e) {ts : List Token}
    (hts : ts.map Token.lexeme = xs) : Yields (expression 0 ts) e [] := by
  have hread := h ts [] hts nofun
  rwa [List.append_nil] at hread

end Parser

/-- An expression alone is a pipeline without filters. -/
theorem Pipeline.ofTokens_of_spells {xs : List Lexeme} {e : Expr} (h : Parser.Spells xs e)
    {ts : List Token} (hts : ts.map Token.lexeme = xs) : ofTokens ts = .ok ⟨e, []⟩ :=
  ofTokens_of_yields (h.expression hts) Parser.filterCalls_nil

namespace Expr

/-- Reading the spelling of an expression gives the expression. -/
theorem ofTokens_spell {e : Expr} (he : e.unsigned = true) {ts : List Token}
    (hts : ts.map Token.lexeme = e.spell) : ofTokens ts = .ok e := by
  obtain ⟨h, hread⟩ := (Parser.readable e he).spells.expression hts
  rw [ofTokens, hread]

theorem ofTokens_spell_nested :
    let e : Expr := .unary .not (.binary .pow (.unary .minus (.literal (.int 2)))
      (.binary .pow (.subscript (.binary .add (.name "a") (.name "b")) (.literal (.string "k")))
        (.call (.member (.member (.name "c") "0") "d") [.dict [(.literal .null, .list [])], .literal (.bool true)])))
    e.unsigned = true ∧ ofTokens (e.spell.map (⟨·, 0⟩)) = .ok e := by
  refine ⟨rfl, ofTokens_spell rfl ?_⟩
  rw [List.map_map]
  exact List.map_id _

end Expr

end Stencil

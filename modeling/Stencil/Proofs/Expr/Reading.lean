import Stencil.Expr.Parser

/-! What the readers of expressions make of tokens, as rules that lead from the parts of an expression to
the whole. -/
namespace Stencil

/-- What may follow the dot of an attribute: a name, or digits as they are written. -/
inductive Grammar.Attribute : Lexeme → String → Prop
  | name (text : String) : Grammar.Attribute (.name text) text
  | integer (digits : String) : Grammar.Attribute (.integer digits) digits

namespace Parser

/-- A reader makes `a` of its tokens and leaves `rest`. -/
def Yields {α : Type} {p : List Token → Prop} (r : Result (α × { rest : List Token // p rest }))
    (a : α) (rest : List Token) : Prop :=
  ∃ h, r = .ok (a, ⟨rest, h⟩)

theorem yields_ok {α : Type} {p : List Token → Prop} {a : α} {rest : List Token} (h : p rest) :
    Yields (.ok (a, ⟨rest, h⟩) : Result (α × { rest : List Token // p rest })) a rest := ⟨h, rfl⟩

theorem not_yields_error {α : Type} {p : List Token → Prop} {e : Error} {a : α}
    {rest : List Token} : ¬ Yields (.error e : Result (α × { rest : List Token // p rest })) a rest :=
  fun ⟨_, h⟩ => nomatch h

/-- The token that comes first satisfies `p` if there is one. -/
def HeadAll (p : Lexeme → Prop) (ts : List Token) : Prop := ∀ t ∈ ts.head?, p t.lexeme

/-- Not the beginning of an attribute, a subscript or a call. -/
def NoTrailer (x : Lexeme) : Prop := x ≠ .mark .dot ∧ x ≠ .mark .openBracket ∧ x ≠ .mark .openParen

/-- Not an operator of at least this level. -/
def Below (level : Nat) (x : Lexeme) : Prop := ∀ op : Operator, x = .operator op → op.level < level

theorem headAll_nil {p : Lexeme → Prop} : HeadAll p [] := by simp [HeadAll]

theorem headAll_cons {p : Lexeme → Prop} {t : Token} {ts : List Token} :
    HeadAll p (t :: ts) ↔ p t.lexeme := by
  simp [HeadAll]

variable {ts rest out : List Token} {min position : Nat} {left right e : Expr}

theorem expression_of (ho : Yields (operand ts) left rest) (hc : Yields (climb min left rest) e out) :
    Yields (expression min ts) e out := by
  obtain ⟨h, ho⟩ := ho
  obtain ⟨h', hc⟩ := hc
  rw [expression]
  simp only [ho, hc]
  exact yields_ok _

theorem operand_of_expression (h : Yields (expression min ts) e out) :
    ∃ left rest, Yields (operand ts) left rest := by
  rw [expression] at h
  split at h
  · exact absurd h not_yields_error
  · next left rest hrest ho => exact ⟨left, rest, hrest, ho⟩

theorem climb_stop (h : HeadAll (Below min) ts) : Yields (climb min left ts) left ts := by
  cases ts with
  | nil =>
    rw [climb]
    exact yields_ok _
  | cons t rest =>
    rw [climb]
    split
    · next op hop =>
      rw [if_pos (h t rfl op hop)]
      exact yields_ok _
    · exact yields_ok _

theorem climb_operator {op : Operator} (hmin : min ≤ op.level)
    (hr : Yields (expression op.rightLevel ts) right rest)
    (hc : Yields (climb min (.binary op left right) rest) e out) :
    Yields (climb min left (⟨.operator op, position⟩ :: ts)) e out := by
  obtain ⟨h, hr⟩ := hr
  obtain ⟨h', hc⟩ := hc
  rw [climb]
  simp only [if_neg (Nat.not_lt.2 hmin), hr, hc]
  exact yields_ok _

theorem operand_not (h : Yields (expression (Sign.not.level + 1) ts) e rest) :
    Yields (operand (⟨.not, position⟩ :: ts)) (.unary .not e) rest := by
  obtain ⟨h, he⟩ := h
  rw [operand]
  simp only [he]
  exact yields_ok _

theorem operand_plus (h : Yields (expression (Sign.plus.level + 1) ts) e rest) :
    Yields (operand (⟨.operator .add, position⟩ :: ts)) (.unary .plus e) rest := by
  obtain ⟨h, he⟩ := h
  rw [operand]
  simp only [he]
  exact yields_ok _

theorem operand_primary {object : Expr} (hp : Yields (primary ts) object rest)
    (ht : Yields (trailers object rest) e out) : Yields (operand ts) e out := by
  obtain ⟨h, hp⟩ := hp
  obtain ⟨h', ht⟩ := ht
  rw [operand]
  · simp only [hp, ht]
    exact yields_ok _
  all_goals
    rintro position rest rfl
    rw [primary] at hp
    cases hp

/-- The magnitude of the least int alone is no expression. -/
theorem afterLeastInt?_eq_none (h : Yields (expression min ts) e rest) : afterLeastInt? ts = none := by
  obtain ⟨left, rest', ho⟩ := operand_of_expression h
  unfold afterLeastInt?
  split
  · next digits position ts' =>
    split
    · next hd =>
      rw [operand] at ho
      · rw [primary] at ho
        simp only [intLiteral, hd.1, Nat.lt_irrefl, if_false] at ho
        exact absurd ho not_yields_error
      all_goals
        intro _ _ heq
        cases heq
    · rfl
  · rfl

theorem operand_minus (h : Yields (expression (Sign.minus.level + 1) ts) e rest) :
    Yields (operand (⟨.operator .sub, position⟩ :: ts)) (.unary .minus e) rest := by
  have hleast := afterLeastInt?_eq_none h
  obtain ⟨h, he⟩ := h
  rw [operand]
  simp only [hleast, he]
  exact yields_ok _

/-- A minus before the magnitude of the least int is read together with it. -/
theorem operand_least {digits : String} {q : Nat} (hd : Decimal.digitsValue digits.toList = Decimal.leastMagnitude)
    (hp : beginsWithPower rest = false) :
    Yields (operand (⟨.operator .sub, position⟩ :: ⟨.integer digits, q⟩ :: rest))
      (.literal (.int Int64.minValue)) rest := by
  have hleast : afterLeastInt? (⟨.integer digits, q⟩ :: rest) = some ⟨rest, Nat.lt_succ_self _⟩ := by
    rw [afterLeastInt?, if_pos ⟨hd, by simp [hp]⟩]
  rw [operand]
  simp only [hleast]
  exact yields_ok _

theorem trailers_stop (h : HeadAll NoTrailer ts) : Yields (trailers e ts) e ts := by
  cases ts with
  | nil =>
    rw [trailers]
    exact yields_ok _
  | cons t rest =>
    have ht := h t rfl
    rw [trailers]
    split
    · next heq => exact absurd heq ht.1
    · next heq => exact absurd heq ht.2.1
    · next heq => exact absurd heq ht.2.2
    · exact yields_ok _

theorem trailers_attribute {object : Expr} {x : Lexeme} {name : String} {q : Nat}
    (hx : Grammar.Attribute x name) (h : Yields (trailers (.member object name) rest) e out) :
    Yields (trailers object (⟨.mark .dot, position⟩ :: ⟨x, q⟩ :: rest)) e out := by
  obtain ⟨h, he⟩ := h
  rw [trailers]
  cases hx <;>
    simp only [attributeName, he] <;>
    exact yields_ok _

theorem trailers_subscript {object key : Expr} {q : Nat}
    (hk : Yields (expression 0 ts) key (⟨.mark .closeBracket, q⟩ :: rest))
    (h : Yields (trailers (.subscript object key) rest) e out) :
    Yields (trailers object (⟨.mark .openBracket, position⟩ :: ts)) e out := by
  obtain ⟨h, he⟩ := h
  obtain ⟨h', hk⟩ := hk
  rw [trailers]
  simp only [hk, expect, if_true, he]
  exact yields_ok _

theorem trailers_call {callee : Expr} {args : List Expr}
    (ha : Yields (sequence .closeParen ts) args rest)
    (h : Yields (trailers (.call callee args) rest) e out) :
    Yields (trailers callee (⟨.mark .openParen, position⟩ :: ts)) e out := by
  obtain ⟨h, he⟩ := h
  obtain ⟨h', ha⟩ := ha
  rw [trailers]
  simp only [ha, he]
  exact yields_ok _

theorem primary_integer {digits : String} {l : Literal} (h : intLiteral digits = .ok l) :
    Yields (primary (⟨.integer digits, position⟩ :: rest)) (.literal l) rest := by
  rw [primary]
  simp only [h]
  exact yields_ok _

theorem primary_decimal {x : Float} :
    Yields (primary (⟨.decimal x, position⟩ :: rest)) (.literal (.float x)) rest := by
  rw [primary]
  exact yields_ok _

theorem primary_string {content : String} :
    Yields (primary (⟨.string content, position⟩ :: rest)) (.literal (.string content)) rest := by
  rw [primary]
  exact yields_ok _

/-- The literal that a name of a fixed value stands for. -/
def constantLiteral : Constant → Literal
  | .true => .bool true
  | .false => .bool false
  | .none => .null

theorem primary_constant {c : Constant} {capital : Bool} :
    Yields (primary (⟨.constant c capital, position⟩ :: rest)) (.literal (constantLiteral c))
      rest := by
  rw [primary]
  cases c <;> exact yields_ok _

theorem primary_name {n : String} : Yields (primary (⟨.name n, position⟩ :: rest)) (.name n) rest := by
  rw [primary]
  exact yields_ok _

theorem primary_paren {q : Nat} (h : Yields (expression 0 ts) e (⟨.mark .closeParen, q⟩ :: rest)) :
    Yields (primary (⟨.mark .openParen, position⟩ :: ts)) e rest := by
  obtain ⟨h, he⟩ := h
  rw [primary]
  simp only [he, expect, if_true]
  exact yields_ok _

theorem primary_list {items : List Expr} (h : Yields (sequence .closeBracket ts) items rest) :
    Yields (primary (⟨.mark .openBracket, position⟩ :: ts)) (.list items) rest := by
  obtain ⟨h, hs⟩ := h
  rw [primary]
  simp only [hs]
  exact yields_ok _

theorem primary_dict {ps : List (Expr × Expr)} (h : Yields (pairs ts) ps rest) :
    Yields (primary (⟨.mark .openBrace, position⟩ :: ts)) (.dict ps) rest := by
  obtain ⟨h, hs⟩ := h
  rw [primary]
  simp only [hs]
  exact yields_ok _

theorem eat_mark (m : Mark) :
    eat m (⟨.mark m, position⟩ :: rest) = some ⟨rest, Nat.lt_succ_self _⟩ := if_pos rfl

/-- The marks that end a sequence of expressions. -/
def Closing (m : Mark) : Prop := m = .closeParen ∨ m = .closeBracket ∨ m = .closeBrace

/-- No expression begins with a mark that ends a sequence. -/
theorem eat_eq_none {m : Mark} (hm : Closing m) (h : Yields (expression min ts) e rest) :
    eat m ts = none := by
  obtain ⟨left, rest', ho⟩ := operand_of_expression h
  unfold eat
  split
  · rfl
  · next t ts' =>
    split
    · next ht =>
      obtain ⟨lexeme, position⟩ := t
      obtain rfl : lexeme = .mark m := ht
      rw [operand] at ho
      · rw [primary] at ho
        rcases hm with rfl | rfl | rfl <;> exact absurd ho not_yields_error
      all_goals
        intro _ _ heq
        cases heq
    · rfl

theorem sequence_nil {m : Mark} : Yields (sequence m (⟨.mark m, position⟩ :: rest)) [] rest := by
  rw [sequence]
  simp only [eat_mark]
  exact yields_ok _

theorem sequence_last {m : Mark} {q : Nat} (hm : Closing m)
    (he : Yields (expression 0 ts) e (⟨.mark m, q⟩ :: rest)) :
    Yields (sequence m ts) [e] rest := by
  have hnone := eat_eq_none hm he
  obtain ⟨h, he⟩ := he
  have hcomma : eat .comma (⟨.mark m, q⟩ :: rest) = none := by
    rcases hm with rfl | rfl | rfl <;> rfl
  rw [sequence]
  simp only [hnone, he, hcomma, expect, if_true]
  exact yields_ok _

theorem sequence_cons {m : Mark} {q : Nat} {es : List Expr} (hm : Closing m)
    (he : Yields (expression 0 ts) e (⟨.mark .comma, q⟩ :: rest))
    (hes : Yields (sequence m rest) es out) : Yields (sequence m ts) (e :: es) out := by
  have hnone := eat_eq_none hm he
  obtain ⟨h, he⟩ := he
  obtain ⟨h', hes⟩ := hes
  rw [sequence]
  simp only [hnone, he, eat_mark, hes]
  exact yields_ok _

theorem pairs_nil : Yields (pairs (⟨.mark .closeBrace, position⟩ :: rest)) [] rest := by
  rw [pairs]
  simp only [eat_mark]
  exact yields_ok _

section
variable {key value : Expr} {vs : List Token} {q r : Nat}
  (hk : Yields (expression 0 ts) key (⟨.mark .colon, q⟩ :: vs))
include hk

theorem pairs_last (hv : Yields (expression 0 vs) value (⟨.mark .closeBrace, r⟩ :: rest)) :
    Yields (pairs ts) [(key, value)] rest := by
  have hnone := eat_eq_none (m := .closeBrace) (.inr (.inr rfl)) hk
  obtain ⟨h, hk⟩ := hk
  obtain ⟨h', hv⟩ := hv
  rw [pairs]
  simp only [hnone, hk, expect, if_true, hv]
  exact yields_ok _

theorem pairs_cons {ps : List (Expr × Expr)}
    (hv : Yields (expression 0 vs) value (⟨.mark .comma, r⟩ :: rest))
    (hps : Yields (pairs rest) ps out) : Yields (pairs ts) ((key, value) :: ps) out := by
  have hnone := eat_eq_none (m := .closeBrace) (.inr (.inr rfl)) hk
  obtain ⟨h, hk⟩ := hk
  obtain ⟨h', hv⟩ := hv
  obtain ⟨h'', hps⟩ := hps
  rw [pairs]
  simp only [hnone, hk, expect, if_true, hv, eat_mark, hps]
  exact yields_ok _

end

theorem filterCall_bare {name : String} (h : eat .openParen ts = none) :
    Yields (filterCall (⟨.name name, position⟩ :: ts)) ⟨name, []⟩ ts := by
  unfold filterCall
  simp only [h]
  exact yields_ok _

theorem filterCall_applied {name : String} {q : Nat} {args : List Expr}
    (h : Yields (sequence .closeParen ts) args rest) :
    Yields (filterCall (⟨.name name, position⟩ :: ⟨.mark .openParen, q⟩ :: ts)) ⟨name, args⟩ rest := by
  obtain ⟨h, hs⟩ := h
  unfold filterCall
  simp only [eat_mark, hs]
  exact yields_ok _

theorem filterCalls_nil : filterCalls [] = .ok [] := by
  rw [filterCalls]
  rfl

theorem filterCalls_cons {f : FilterCall} {fs : List FilterCall} (hf : Yields (filterCall ts) f rest)
    (hfs : filterCalls rest = .ok fs) : filterCalls (⟨.mark .pipe, position⟩ :: ts) = .ok (f :: fs) := by
  obtain ⟨h, hf⟩ := hf
  rw [filterCalls]
  simp only [eat_mark, hf, hfs]

end Parser

theorem Expr.ofTokens_eq_ok_iff {ts : List Token} {e : Expr} :
    ofTokens ts = .ok e ↔ Parser.Yields (Parser.expression 0 ts) e [] := by
  constructor
  · intro h
    unfold ofTokens at h
    split at h
    · cases h
    · next e' hlt he =>
      obtain rfl := Except.ok.inj h
      exact ⟨hlt, he⟩
    · cases h
  · rintro ⟨hlt, he⟩
    rw [ofTokens, he]

/-- A pipeline is an expression and the filters behind it. -/
theorem Pipeline.ofTokens_of_yields {ts rest : List Token} {base : Expr} {fs : List FilterCall}
    (he : Parser.Yields (Parser.expression 0 ts) base rest) (hfs : Parser.filterCalls rest = .ok fs) :
    ofTokens ts = .ok ⟨base, fs⟩ := by
  obtain ⟨hlt, he⟩ := he
  cases ts with
  | nil => exact absurd hlt (Nat.not_lt_zero _)
  | cons t ts =>
    simp only [ofTokens, he, hfs]
    rfl

/-- A pipeline that begins with a variable and what is appended to it. -/
theorem Pipeline.ofTokens_of_trailers {ts rest : List Token} {x : String} {position : Nat} {base : Expr}
    {fs : List FilterCall} (ht : Parser.Yields (Parser.trailers (.name x) ts) base rest)
    (hstop : Parser.HeadAll (Parser.Below 0) rest) (hfs : Parser.filterCalls rest = .ok fs) :
    ofTokens (⟨.name x, position⟩ :: ts) = .ok ⟨base, fs⟩ := by
  have ho : Parser.Yields (Parser.operand (⟨.name x, position⟩ :: ts)) base rest :=
    Parser.operand_primary Parser.primary_name ht
  exact ofTokens_of_yields (Parser.expression_of ho (Parser.climb_stop hstop)) hfs

end Stencil

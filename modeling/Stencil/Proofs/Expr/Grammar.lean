import Stencil.Proofs.Expr.Spelling

/-! The grammar of expressions without the levels of operators, and the readers as its acceptors: what a
reader takes from its tokens is a phrase of the grammar. -/
namespace Stencil

namespace Grammar

mutual

/-- Lexemes that form an expression. -/
inductive Phrase : List Lexeme → Expr → Prop
  | integer {digits : String} {l : Literal} : Parser.intLiteral digits = .ok l →
      Phrase [.integer digits] (.literal l)
  | least {digits : String} : Decimal.digitsValue digits.toList = Decimal.leastMagnitude →
      Phrase [.operator .sub, .integer digits] (.literal (.int Int64.minValue))
  | decimal (x : Float) : Phrase [.decimal x] (.literal (.float x))
  | string (s : String) : Phrase [.string s] (.literal (.string s))
  | constant (c : Constant) (capital : Bool) :
      Phrase [.constant c capital] (.literal (Parser.constantLiteral c))
  | name (n : String) : Phrase [.name n] (.name n)
  | unary (sign : Sign) {xs : List Lexeme} {e : Expr} : Phrase xs e →
      Phrase (sign.lexeme :: xs) (.unary sign e)
  | binary (op : Operator) {xs ys : List Lexeme} {left right : Expr} : Phrase xs left →
      Phrase ys right → Phrase (xs ++ .operator op :: ys) (.binary op left right)
  | member {xs : List Lexeme} {object : Expr} {x : Lexeme} {name : String} : Phrase xs object →
      Attribute x name → Phrase (xs ++ [.mark .dot, x]) (.member object name)
  | subscript {xs ys : List Lexeme} {object key : Expr} : Phrase xs object → Phrase ys key →
      Phrase (xs ++ .mark .openBracket :: (ys ++ [.mark .closeBracket])) (.subscript object key)
  | call {xs ys : List Lexeme} {callee : Expr} {args : List Expr} : Phrase xs callee →
      Listed .closeParen ys args → Phrase (xs ++ .mark .openParen :: ys) (.call callee args)
  | enclosed {xs : List Lexeme} {e : Expr} : Phrase xs e →
      Phrase (.mark .openParen :: (xs ++ [.mark .closeParen])) e
  | list {xs : List Lexeme} {items : List Expr} : Listed .closeBracket xs items →
      Phrase (.mark .openBracket :: xs) (.list items)
  | dict {xs : List Lexeme} {pairs : List (Expr × Expr)} : Paired xs pairs →
      Phrase (.mark .openBrace :: xs) (.dict pairs)

/-- Phrases with commas between them and the mark that closes them. -/
inductive Listed : Mark → List Lexeme → List Expr → Prop
  | nil (close : Mark) : Listed close [.mark close] []
  | last {close : Mark} {xs : List Lexeme} {e : Expr} : Phrase xs e →
      Listed close (xs ++ [.mark close]) [e]
  | cons {close : Mark} {xs ys : List Lexeme} {e : Expr} {es : List Expr} : Phrase xs e →
      Listed close ys es → Listed close (xs ++ .mark .comma :: ys) (e :: es)

/-- Pairs of phrases with commas between them and the brace that closes them. -/
inductive Paired : List Lexeme → List (Expr × Expr) → Prop
  | nil : Paired [.mark .closeBrace] []
  | last {xs ys : List Lexeme} {key value : Expr} : Phrase xs key → Phrase ys value →
      Paired (xs ++ .mark .colon :: (ys ++ [.mark .closeBrace])) [(key, value)]
  | cons {xs ys zs : List Lexeme} {key value : Expr} {pairs : List (Expr × Expr)} :
      Phrase xs key → Phrase ys value → Paired zs pairs →
      Paired (xs ++ .mark .colon :: (ys ++ .mark .comma :: zs)) ((key, value) :: pairs)

end

/-- The calls of filters behind an expression, each after its bar. -/
inductive Filtered : List Lexeme → List FilterCall → Prop
  | nil : Filtered [] []
  | bare (name : String) {xs : List Lexeme} {fs : List FilterCall} : Filtered xs fs →
      Filtered (.mark .pipe :: .name name :: xs) (⟨name, []⟩ :: fs)
  | applied (name : String) {xs ys : List Lexeme} {args : List Expr} {fs : List FilterCall} :
      Listed .closeParen xs args → Filtered ys fs →
      Filtered (.mark .pipe :: .name name :: .mark .openParen :: (xs ++ ys)) (⟨name, args⟩ :: fs)

end Grammar

namespace Parser

open Grammar

variable {ts rest out : List Token} {min : Nat} {left e : Expr}

theorem eq_of_yields {α : Type} {p : List Token → Prop} {a b : α} {r : { rest : List Token // p rest }}
    (h : Yields (.ok (a, r)) b out) : a = b ∧ r.1 = out := by
  obtain ⟨hout, heq⟩ := h
  obtain ⟨rfl, rfl⟩ := Prod.mk.inj (Except.ok.inj heq)
  exact ⟨rfl, rfl⟩

theorem expression_parts (h : Yields (expression min ts) e out) :
    ∃ left rest, Yields (operand ts) left rest ∧ Yields (climb min left rest) e out := by
  rw [expression] at h
  split at h
  · exact absurd h not_yields_error
  · next left rest hrest ho =>
    split at h
    · exact absurd h not_yields_error
    · next hlt hc =>
      obtain ⟨rfl, rfl⟩ := eq_of_yields h
      exact ⟨left, rest, ⟨hrest, ho⟩, ⟨hlt, hc⟩⟩

theorem climb_cases (h : Yields (climb min left ts) e out) :
    (e = left ∧ out = ts ∧ HeadAll (Below min) ts) ∨
      ∃ op position ts' right rest, ts = ⟨.operator op, position⟩ :: ts' ∧ min ≤ op.level ∧
        Yields (expression op.rightLevel ts') right rest ∧
        Yields (climb min (.binary op left right) rest) e out := by
  cases ts with
  | nil =>
    rw [climb] at h
    obtain ⟨rfl, rfl⟩ := eq_of_yields h
    exact .inl ⟨rfl, rfl, headAll_nil⟩
  | cons t ts' =>
    obtain ⟨x, position⟩ := t
    rw [climb] at h
    split at h
    · next op hop =>
      obtain rfl : x = .operator op := hop
      split at h
      · next hlevel =>
        obtain ⟨rfl, rfl⟩ := eq_of_yields h
        refine .inl ⟨rfl, rfl, headAll_cons.2 fun op' hop' => ?_⟩
        obtain rfl := Lexeme.operator.inj hop'
        exact hlevel
      · next hlevel =>
        split at h
        · exact absurd h not_yields_error
        · next right rest hrest hr =>
          split at h
          · exact absurd h not_yields_error
          · next hle hc =>
            obtain ⟨rfl, rfl⟩ := eq_of_yields h
            exact .inr ⟨op, position, ts', right, rest, rfl, Nat.not_lt.1 hlevel, ⟨hrest, hr⟩, ⟨hle, hc⟩⟩
    · next hnot =>
      obtain ⟨rfl, rfl⟩ := eq_of_yields h
      exact .inl ⟨rfl, rfl, headAll_cons.2 fun op hop => absurd hop (hnot op)⟩

theorem integer_of_afterLeastInt? {hlt : rest.length < ts.length}
    (h : afterLeastInt? ts = some ⟨rest, hlt⟩) : ∃ digits q, ts = ⟨.integer digits, q⟩ :: rest ∧
      Decimal.digitsValue digits.toList = Decimal.leastMagnitude ∧ beginsWithPower rest = false := by
  unfold afterLeastInt? at h
  split at h
  · next digits q rest =>
    split at h
    · next hd =>
      obtain rfl := congrArg Subtype.val (Option.some.inj h)
      exact ⟨digits, q, rfl, hd.1, Bool.not_eq_true _ ▸ hd.2⟩
    · cases h
  · cases h

theorem operand_cases (h : Yields (operand ts) e out) :
    (∃ sign position ts' inner, ts = ⟨Sign.lexeme sign, position⟩ :: ts' ∧ e = .unary sign inner ∧
      Yields (expression (sign.level + 1) ts') inner out) ∨
    (∃ digits p q, ts = ⟨.operator .sub, p⟩ :: ⟨.integer digits, q⟩ :: out ∧
      Decimal.digitsValue digits.toList = Decimal.leastMagnitude ∧ beginsWithPower out = false ∧
      e = .literal (.int Int64.minValue)) ∨
    ∃ object rest, Yields (primary ts) object rest ∧ Yields (trailers object rest) e out := by
  rw [operand.eq_def] at h
  split at h
  · next position rest =>
    split at h
    · exact absurd h not_yields_error
    · next inner _ hlt he =>
      obtain ⟨rfl, rfl⟩ := eq_of_yields h
      exact .inl ⟨.not, position, rest, inner, rfl, rfl, ⟨hlt, he⟩⟩
  · next position rest =>
    split at h
    · next hleast =>
      obtain ⟨rfl, rfl⟩ := eq_of_yields h
      obtain ⟨digits, q, rfl, hdigits, hpower⟩ := integer_of_afterLeastInt? hleast
      exact .inr (.inl ⟨digits, position, q, rfl, hdigits, hpower, rfl⟩)
    · split at h
      · exact absurd h not_yields_error
      · next inner _ hlt he =>
        obtain ⟨rfl, rfl⟩ := eq_of_yields h
        exact .inl ⟨.minus, position, rest, inner, rfl, rfl, ⟨hlt, he⟩⟩
  · next position rest =>
    split at h
    · exact absurd h not_yields_error
    · next inner _ hlt he =>
      obtain ⟨rfl, rfl⟩ := eq_of_yields h
      exact .inl ⟨.plus, position, rest, inner, rfl, rfl, ⟨hlt, he⟩⟩
  · split at h
    · exact absurd h not_yields_error
    · next object rest hlt hp =>
      split at h
      · exact absurd h not_yields_error
      · next hle ht =>
        obtain ⟨rfl, rfl⟩ := eq_of_yields h
        exact .inr (.inr ⟨object, rest, ⟨hlt, hp⟩, ⟨hle, ht⟩⟩)

theorem attributeName_cases {name : String} (h : Yields (attributeName ts) name out) :
    ∃ x q, ts = ⟨x, q⟩ :: out ∧ Attribute x name := by
  unfold attributeName at h
  split at h
  · exact absurd h not_yields_error
  · next t rest =>
    obtain ⟨x, q⟩ := t
    split at h
    · next text hx =>
      obtain rfl : x = .name text := hx
      obtain ⟨rfl, rfl⟩ := eq_of_yields h
      exact ⟨_, q, rfl, .name text⟩
    · next digits hx =>
      obtain rfl : x = .integer digits := hx
      obtain ⟨rfl, rfl⟩ := eq_of_yields h
      exact ⟨_, q, rfl, .integer digits⟩
    · exact absurd h not_yields_error

theorem mark_of_expect {m : Mark} {what : String} {u : Unit} (h : Yields (expect m what ts) u out) :
    ∃ q, ts = ⟨.mark m, q⟩ :: out := by
  unfold expect at h
  split at h
  · exact absurd h not_yields_error
  · next t rest =>
    obtain ⟨x, q⟩ := t
    split at h
    · next hx =>
      obtain rfl : x = .mark m := hx
      obtain ⟨-, rfl⟩ := eq_of_yields h
      exact ⟨q, rfl⟩
    · exact absurd h not_yields_error

theorem mark_of_eat {m : Mark} {hlt : rest.length < ts.length} (h : eat m ts = some ⟨rest, hlt⟩) :
    ∃ q, ts = ⟨.mark m, q⟩ :: rest := by
  unfold eat at h
  split at h
  · cases h
  · next t rest =>
    obtain ⟨x, q⟩ := t
    split at h
    · next hx =>
      obtain rfl : x = .mark m := hx
      obtain rfl := congrArg Subtype.val (Option.some.inj h)
      exact ⟨q, rfl⟩
    · cases h

theorem trailers_cases {object : Expr} (h : Yields (trailers object ts) e out) :
    (e = object ∧ out = ts ∧ HeadAll NoTrailer ts) ∨
    (∃ name x p q rest, ts = ⟨.mark .dot, p⟩ :: ⟨x, q⟩ :: rest ∧ Attribute x name ∧
      Yields (trailers (.member object name) rest) e out) ∨
    (∃ key p q ts' rest, ts = ⟨.mark .openBracket, p⟩ :: ts' ∧
      Yields (expression 0 ts') key (⟨.mark .closeBracket, q⟩ :: rest) ∧
      Yields (trailers (.subscript object key) rest) e out) ∨
    ∃ args p ts' rest, ts = ⟨.mark .openParen, p⟩ :: ts' ∧
      Yields (sequence .closeParen ts') args rest ∧
      Yields (trailers (.call object args) rest) e out := by
  cases ts with
  | nil =>
    rw [trailers] at h
    obtain ⟨rfl, rfl⟩ := eq_of_yields h
    exact .inl ⟨rfl, rfl, headAll_nil⟩
  | cons t rest =>
    obtain ⟨x, p⟩ := t
    rw [trailers] at h
    split at h
    · next hx =>
      obtain rfl : x = .mark .dot := hx
      split at h
      · exact absurd h not_yields_error
      · next name rest' hlt hn =>
        split at h
        · exact absurd h not_yields_error
        · next hle ht =>
          obtain ⟨rfl, rfl⟩ := eq_of_yields h
          obtain ⟨x, q, rfl, hx⟩ := attributeName_cases ⟨hlt, hn⟩
          exact .inr (.inl ⟨name, x, p, q, rest', rfl, hx, ⟨hle, ht⟩⟩)
    · next hx =>
      obtain rfl : x = .mark .openBracket := hx
      split at h
      · exact absurd h not_yields_error
      · next key rest' hlt hk =>
        split at h
        · exact absurd h not_yields_error
        · next rest'' hlt' hclose =>
          split at h
          · exact absurd h not_yields_error
          · next hle ht =>
            obtain ⟨rfl, rfl⟩ := eq_of_yields h
            obtain ⟨q, rfl⟩ := mark_of_expect ⟨hlt', hclose⟩
            exact .inr (.inr (.inl ⟨key, p, q, rest, rest'', rfl, ⟨hlt, hk⟩, ⟨hle, ht⟩⟩))
    · next hx =>
      obtain rfl : x = .mark .openParen := hx
      split at h
      · exact absurd h not_yields_error
      · next args rest' hlt ha =>
        split at h
        · exact absurd h not_yields_error
        · next hle ht =>
          obtain ⟨rfl, rfl⟩ := eq_of_yields h
          exact .inr (.inr (.inr ⟨args, p, rest, rest', rfl, ⟨hlt, ha⟩, ⟨hle, ht⟩⟩))
    · next hdot hbracket hparen =>
      obtain ⟨rfl, rfl⟩ := eq_of_yields h
      exact .inl ⟨rfl, rfl, headAll_cons.2 ⟨hdot, hbracket, hparen⟩⟩

theorem primary_cases (h : Yields (primary ts) e out) :
    (∃ x p, ts = ⟨x, p⟩ :: out ∧ Phrase [x] e ∧
      ∀ q rest, Yields (primary (⟨x, q⟩ :: rest)) e rest) ∨
    (∃ p q ts', ts = ⟨.mark .openParen, p⟩ :: ts' ∧
      Yields (expression 0 ts') e (⟨.mark .closeParen, q⟩ :: out)) ∨
    (∃ items p ts', ts = ⟨.mark .openBracket, p⟩ :: ts' ∧ e = .list items ∧
      Yields (sequence .closeBracket ts') items out) ∨
    ∃ ps p ts', ts = ⟨.mark .openBrace, p⟩ :: ts' ∧ e = .dict ps ∧ Yields (pairs ts') ps out := by
  cases ts with
  | nil =>
    rw [primary] at h
    exact absurd h not_yields_error
  | cons t rest =>
    obtain ⟨x, p⟩ := t
    rw [primary] at h
    split at h
    · next digits hx =>
      obtain rfl : x = .integer digits := hx
      split at h
      · exact absurd h not_yields_error
      · next l hl =>
        obtain ⟨rfl, rfl⟩ := eq_of_yields h
        exact .inl ⟨_, p, rfl, .integer hl, fun _ _ => primary_integer hl⟩
    · next d hx =>
      obtain rfl : x = .decimal d := hx
      obtain ⟨rfl, rfl⟩ := eq_of_yields h
      exact .inl ⟨_, p, rfl, .decimal d, fun _ _ => primary_decimal⟩
    · next s hx =>
      obtain rfl : x = .string s := hx
      obtain ⟨rfl, rfl⟩ := eq_of_yields h
      exact .inl ⟨_, p, rfl, .string s, fun _ _ => primary_string⟩
    · next capital hx =>
      obtain rfl : x = .constant .true capital := hx
      obtain ⟨rfl, rfl⟩ := eq_of_yields h
      exact .inl ⟨_, p, rfl, .constant .true capital, fun _ _ => primary_constant⟩
    · next capital hx =>
      obtain rfl : x = .constant .false capital := hx
      obtain ⟨rfl, rfl⟩ := eq_of_yields h
      exact .inl ⟨_, p, rfl, .constant .false capital, fun _ _ => primary_constant⟩
    · next capital hx =>
      obtain rfl : x = .constant .none capital := hx
      obtain ⟨rfl, rfl⟩ := eq_of_yields h
      exact .inl ⟨_, p, rfl, .constant .none capital, fun _ _ => primary_constant⟩
    · next n hx =>
      obtain rfl : x = .name n := hx
      obtain ⟨rfl, rfl⟩ := eq_of_yields h
      exact .inl ⟨_, p, rfl, .name n, fun _ _ => primary_name⟩
    · next hx =>
      obtain rfl : x = .mark .openParen := hx
      split at h
      · exact absurd h not_yields_error
      · next hlt he =>
        split at h
        · exact absurd h not_yields_error
        · next hlt' hclose =>
          obtain ⟨rfl, rfl⟩ := eq_of_yields h
          obtain ⟨q, rfl⟩ := mark_of_expect ⟨hlt', hclose⟩
          exact .inr (.inl ⟨p, q, rest, rfl, ⟨hlt, he⟩⟩)
    · next hx =>
      obtain rfl : x = .mark .openBracket := hx
      split at h
      · exact absurd h not_yields_error
      · next items _ hlt hs =>
        obtain ⟨rfl, rfl⟩ := eq_of_yields h
        exact .inr (.inr (.inl ⟨items, p, rest, rfl, rfl, ⟨hlt, hs⟩⟩))
    · next hx =>
      obtain rfl : x = .mark .openBrace := hx
      split at h
      · exact absurd h not_yields_error
      · next ps _ hlt hs =>
        obtain ⟨rfl, rfl⟩ := eq_of_yields h
        exact .inr (.inr (.inr ⟨ps, p, rest, rfl, rfl, ⟨hlt, hs⟩⟩))
    · exact absurd h not_yields_error

theorem sequence_cases {close : Mark} {es : List Expr} (h : Yields (sequence close ts) es out) :
    (∃ p, ts = ⟨.mark close, p⟩ :: out ∧ es = []) ∨
    (∃ e q, es = [e] ∧ Yields (expression 0 ts) e (⟨.mark close, q⟩ :: out)) ∨
    ∃ e es' q rest, es = e :: es' ∧ Yields (expression 0 ts) e (⟨.mark .comma, q⟩ :: rest) ∧
      Yields (sequence close rest) es' out := by
  rw [sequence] at h
  split at h
  · next hclose =>
    obtain ⟨rfl, rfl⟩ := eq_of_yields h
    obtain ⟨p, hts⟩ := mark_of_eat hclose
    exact .inl ⟨p, hts, rfl⟩
  · split at h
    · exact absurd h not_yields_error
    · next e rest hlt he =>
      split at h
      · next rest' _ hcomma =>
        split at h
        · exact absurd h not_yields_error
        · next es' _ hlt' hs =>
          obtain ⟨rfl, rfl⟩ := eq_of_yields h
          obtain ⟨q, rfl⟩ := mark_of_eat hcomma
          exact .inr (.inr ⟨e, es', q, rest', rfl, ⟨hlt, he⟩, ⟨hlt', hs⟩⟩)
      · split at h
        · exact absurd h not_yields_error
        · next hlt' hclose =>
          obtain ⟨rfl, rfl⟩ := eq_of_yields h
          obtain ⟨q, rfl⟩ := mark_of_expect ⟨hlt', hclose⟩
          exact .inr (.inl ⟨e, q, rfl, ⟨hlt, he⟩⟩)

theorem pairs_cases {ps : List (Expr × Expr)} (h : Yields (pairs ts) ps out) :
    (∃ p, ts = ⟨.mark .closeBrace, p⟩ :: out ∧ ps = []) ∨
    ∃ key value q ts', Yields (expression 0 ts) key (⟨.mark .colon, q⟩ :: ts') ∧
      ((∃ r, ps = [(key, value)] ∧ Yields (expression 0 ts') value (⟨.mark .closeBrace, r⟩ :: out)) ∨
        ∃ ps' r rest, ps = (key, value) :: ps' ∧
          Yields (expression 0 ts') value (⟨.mark .comma, r⟩ :: rest) ∧
          Yields (pairs rest) ps' out) := by
  rw [pairs] at h
  split at h
  · next hclose =>
    obtain ⟨rfl, rfl⟩ := eq_of_yields h
    obtain ⟨p, hts⟩ := mark_of_eat hclose
    exact .inl ⟨p, hts, rfl⟩
  · split at h
    · exact absurd h not_yields_error
    · next key _ hlt hk =>
      split at h
      · exact absurd h not_yields_error
      · next ts' hlt' hcolon =>
        split at h
        · exact absurd h not_yields_error
        · next value _ hlt'' hv =>
          obtain ⟨q, rfl⟩ := mark_of_expect ⟨hlt', hcolon⟩
          refine .inr ⟨key, value, q, ts', ⟨hlt, hk⟩, ?_⟩
          split at h
          · next rest _ hcomma =>
            split at h
            · exact absurd h not_yields_error
            · next ps' _ hlt₃ hs =>
              obtain ⟨rfl, rfl⟩ := eq_of_yields h
              obtain ⟨r, rfl⟩ := mark_of_eat hcomma
              exact .inr ⟨ps', r, rest, rfl, ⟨hlt'', hv⟩, ⟨hlt₃, hs⟩⟩
          · split at h
            · exact absurd h not_yields_error
            · next hlt₃ hclose =>
              obtain ⟨rfl, rfl⟩ := eq_of_yields h
              obtain ⟨r, rfl⟩ := mark_of_expect ⟨hlt₃, hclose⟩
              exact .inl ⟨r, rfl, ⟨hlt'', hv⟩⟩

/-- The lexemes of the tokens before `rest` satisfy `p`. -/
def Takes (p : List Lexeme → Prop) (ts rest : List Token) : Prop :=
  ∃ us, ts = us ++ rest ∧ p (us.map Token.lexeme)

theorem Takes.cons {p q : List Lexeme → Prop} {x : Lexeme} {position : Nat} (h : Takes p ts rest)
    (hpq : ∀ xs, p xs → q (x :: xs)) : Takes q (⟨x, position⟩ :: ts) rest := by
  obtain ⟨us, rfl, hus⟩ := h
  exact ⟨⟨x, position⟩ :: us, rfl, hpq _ hus⟩

-- Readers call each other on fewer tokens, or on the same ones; the summand at the end of a measure ranks
-- those that do so before they take a token.
mutual

/-- The tokens that are read as an expression are a phrase. -/
theorem takes_expression {ts out : List Token} {min : Nat} {e : Expr}
    (h : Yields (expression min ts) e out) : Takes (Phrase · e) ts out := by
  obtain ⟨left, rest, ho, hc⟩ := expression_parts h
  have hlt := ho.1
  obtain ⟨us, rfl, hus⟩ := takes_operand ho
  obtain ⟨vs, rfl, hvs⟩ := takes_climb hus hc
  exact ⟨us ++ vs, by simp, by simpa using hvs⟩
termination_by 5 * ts.length + 3

/-- What is read behind a left operand makes one phrase together with it. -/
theorem takes_climb {ts out : List Token} {min : Nat} {left e : Expr} {xs : List Lexeme}
    (hleft : Phrase xs left) (h : Yields (climb min left ts) e out) :
    Takes (fun ys => Phrase (xs ++ ys) e) ts out := by
  rcases climb_cases h with ⟨rfl, rfl, -⟩ | ⟨op, position, ts', right, rest, rfl, -, hr, hc⟩
  · exact ⟨[], rfl, by simpa using hleft⟩
  · have hlt := hr.1
    obtain ⟨us, rfl, hus⟩ := takes_expression hr
    obtain ⟨vs, rfl, hvs⟩ := takes_climb (.binary op hleft hus) hc
    exact ⟨⟨.operator op, position⟩ :: (us ++ vs), by simp, by simpa using hvs⟩
termination_by 5 * ts.length
decreasing_by
  · subst_vars
    simp only [List.length_cons]
    omega
  · subst_vars
    simp only [List.length_cons] at *
    omega

theorem takes_operand {ts out : List Token} {e : Expr} (h : Yields (operand ts) e out) :
    Takes (Phrase · e) ts out := by
  rcases operand_cases h with ⟨sign, position, ts', inner, rfl, rfl, hin⟩ |
    ⟨digits, p, q, rfl, hdigits, -, rfl⟩ | ⟨object, rest, hp, ht⟩
  · exact (takes_expression hin).cons fun xs hxs => .unary sign hxs
  · exact ⟨[⟨.operator .sub, p⟩, ⟨.integer digits, q⟩], rfl, .least hdigits⟩
  · have hlt := hp.1
    obtain ⟨us, rfl, hus⟩ := takes_primary hp
    obtain ⟨vs, rfl, hvs⟩ := takes_trailers hus ht
    exact ⟨us ++ vs, by simp, by simpa using hvs⟩
termination_by 5 * ts.length + 2

theorem takes_trailers {ts out : List Token} {object e : Expr} {xs : List Lexeme}
    (hobject : Phrase xs object) (h : Yields (trailers object ts) e out) :
    Takes (fun ys => Phrase (xs ++ ys) e) ts out := by
  rcases trailers_cases h with ⟨rfl, rfl, -⟩ | ⟨name, x, p, q, rest, rfl, hx, ht⟩ |
    ⟨key, p, q, ts', rest, rfl, hk, ht⟩ | ⟨args, p, ts', rest, rfl, ha, ht⟩
  · exact ⟨[], rfl, by simpa using hobject⟩
  · obtain ⟨us, rfl, hus⟩ := takes_trailers (.member hobject hx) ht
    exact ⟨⟨.mark .dot, p⟩ :: ⟨x, q⟩ :: us, rfl, by simpa using hus⟩
  · have hlt := hk.1
    obtain ⟨us, rfl, hus⟩ := takes_expression hk
    obtain ⟨vs, rfl, hvs⟩ := takes_trailers (.subscript hobject hus) ht
    exact ⟨⟨.mark .openBracket, p⟩ :: (us ++ ⟨.mark .closeBracket, q⟩ :: vs), by simp,
      by simpa using hvs⟩
  · have hlt := ha.1
    obtain ⟨us, rfl, hus⟩ := takes_sequence ha
    obtain ⟨vs, rfl, hvs⟩ := takes_trailers (.call hobject hus) ht
    exact ⟨⟨.mark .openParen, p⟩ :: (us ++ vs), by simp, by simpa using hvs⟩
termination_by 5 * ts.length
decreasing_by
  all_goals
    subst_vars
    simp only [List.length_cons, List.length_append] at *
    omega

theorem takes_primary {ts out : List Token} {e : Expr} (h : Yields (primary ts) e out) :
    Takes (Phrase · e) ts out := by
  rcases primary_cases h with ⟨x, p, rfl, hx, -⟩ | ⟨p, q, ts', rfl, he⟩ |
    ⟨items, p, ts', rfl, rfl, hs⟩ | ⟨ps, p, ts', rfl, rfl, hs⟩
  · exact ⟨[⟨x, p⟩], rfl, hx⟩
  · obtain ⟨us, rfl, hus⟩ := takes_expression he
    exact ⟨⟨.mark .openParen, p⟩ :: (us ++ [⟨.mark .closeParen, q⟩]), by simp,
      by simpa using Phrase.enclosed hus⟩
  · exact (takes_sequence hs).cons fun xs hxs => .list hxs
  · exact (takes_pairs hs).cons fun xs hxs => .dict hxs
termination_by 5 * ts.length + 1
decreasing_by
  all_goals
    subst_vars
    simp only [List.length_cons]
    omega

theorem takes_sequence {close : Mark} {ts out : List Token} {es : List Expr}
    (h : Yields (sequence close ts) es out) : Takes (Listed close · es) ts out := by
  rcases sequence_cases h with ⟨p, rfl, rfl⟩ | ⟨e, q, rfl, he⟩ | ⟨e, es', q, rest, rfl, he, hs⟩
  · exact ⟨[⟨.mark close, p⟩], rfl, .nil close⟩
  · obtain ⟨us, rfl, hus⟩ := takes_expression he
    exact ⟨us ++ [⟨.mark close, q⟩], by simp, by simpa using Listed.last hus⟩
  · have hlt := he.1
    obtain ⟨us, rfl, hus⟩ := takes_expression he
    obtain ⟨vs, rfl, hvs⟩ := takes_sequence hs
    exact ⟨us ++ ⟨.mark .comma, q⟩ :: vs, by simp, by simpa using Listed.cons hus hvs⟩
termination_by 5 * ts.length + 4

theorem takes_pairs {ts out : List Token} {ps : List (Expr × Expr)}
    (h : Yields (pairs ts) ps out) : Takes (Paired · ps) ts out := by
  rcases pairs_cases h with ⟨p, rfl, rfl⟩ | ⟨key, value, q, ts', hk, hrest⟩
  · exact ⟨[⟨.mark .closeBrace, p⟩], rfl, .nil⟩
  · have hlt := hk.1
    obtain ⟨us, rfl, hus⟩ := takes_expression hk
    rcases hrest with ⟨r, rfl, hv⟩ | ⟨ps', r, rest, rfl, hv, hs⟩
    · obtain ⟨vs, rfl, hvs⟩ := takes_expression hv
      exact ⟨us ++ ⟨.mark .colon, q⟩ :: (vs ++ [⟨.mark .closeBrace, r⟩]), by simp,
        by simpa using Paired.last hus hvs⟩
    · have hlt' := hv.1
      obtain ⟨vs, rfl, hvs⟩ := takes_expression hv
      obtain ⟨ws, rfl, hws⟩ := takes_pairs hs
      exact ⟨us ++ ⟨.mark .colon, q⟩ :: (vs ++ ⟨.mark .comma, r⟩ :: ws), by simp,
        by simpa using Paired.cons hus hvs hws⟩
termination_by 5 * ts.length + 4

end

theorem filterCall_cases {f : FilterCall} (h : Yields (filterCall ts) f out) :
    ∃ name p ts', ts = ⟨.name name, p⟩ :: ts' ∧
      ((f = ⟨name, []⟩ ∧ out = ts' ∧ eat .openParen ts' = none) ∨
        ∃ args q ts'', ts' = ⟨.mark .openParen, q⟩ :: ts'' ∧ f = ⟨name, args⟩ ∧
          Yields (sequence .closeParen ts'') args out) := by
  unfold filterCall at h
  dsimp only at h
  split at h
  · exact absurd h not_yields_error
  · next t ts' =>
    obtain ⟨x, p⟩ := t
    split at h
    · next name hx =>
      obtain rfl : x = .name name := hx
      refine ⟨name, p, ts', rfl, ?_⟩
      split at h
      · next hopen =>
        obtain ⟨rfl, rfl⟩ := eq_of_yields h
        exact .inl ⟨rfl, rfl, hopen⟩
      · next ts'' _ hopen =>
        split at h
        · exact absurd h not_yields_error
        · next args _ hlt hs =>
          obtain ⟨rfl, rfl⟩ := eq_of_yields h
          obtain ⟨q, rfl⟩ := mark_of_eat hopen
          exact .inr ⟨args, q, ts'', rfl, rfl, ⟨hlt, hs⟩⟩
    · exact absurd h not_yields_error

theorem filterCalls_cases {fs : List FilterCall} (h : filterCalls ts = .ok fs) :
    (ts = [] ∧ fs = []) ∨ ∃ p ts' f rest fs', ts = ⟨.mark .pipe, p⟩ :: ts' ∧ fs = f :: fs' ∧
      Yields (filterCall ts') f rest ∧ filterCalls rest = .ok fs' := by
  rw [filterCalls.eq_def] at h
  split at h
  · next ts' _ hpipe =>
    obtain ⟨p, rfl⟩ := mark_of_eat hpipe
    split at h
    · cases h
    · next f rest hlt hf =>
      split at h
      · cases h
      · next fs' hfs =>
        obtain rfl := Except.ok.inj h
        exact .inr ⟨p, ts', f, rest, fs', rfl, rfl, ⟨hlt, hf⟩, hfs⟩
  · split at h
    · obtain rfl := Except.ok.inj h
      exact .inl ⟨rfl, rfl⟩
    · cases h

theorem filtered_of_filterCalls {ts : List Token} {fs : List FilterCall}
    (h : filterCalls ts = .ok fs) : Filtered (ts.map Token.lexeme) fs := by
  rcases filterCalls_cases h with ⟨rfl, rfl⟩ | ⟨p, ts', f, rest, fs', rfl, rfl, hf, hfs⟩
  · exact .nil
  · have hlt := hf.1
    have hrest := filtered_of_filterCalls hfs
    obtain ⟨name, q, ts'', rfl, ⟨rfl, rfl, -⟩ | ⟨args, r, inner, rfl, rfl, hs⟩⟩ := filterCall_cases hf
    · exact .bare name hrest
    · obtain ⟨us, rfl, hus⟩ := takes_sequence hs
      simpa using Filtered.applied name hus hrest
termination_by ts.length
decreasing_by
  subst_vars
  simp only [List.length_cons] at *
  omega

end Parser

theorem Pipeline.ofTokens_cases {ts : List Token} {p : Pipeline} (h : ofTokens ts = .ok p) :
    (ts = [] ∧ p = ⟨.name "", []⟩) ∨ ∃ rest, Parser.Yields (Parser.expression 0 ts) p.base rest ∧
      Parser.filterCalls rest = .ok p.filters := by
  unfold ofTokens at h
  split at h
  · obtain rfl := Except.ok.inj h
    exact .inl ⟨rfl, rfl⟩
  · split at h
    · cases h
    · next base rest hlt he =>
      obtain ⟨fs, hfs, rfl⟩ := Result.map_eq_ok h
      exact .inr ⟨rest, ⟨hlt, he⟩, hfs⟩

/-- The tokens of a pipeline are a phrase with filters behind it, or none at all. -/
theorem Pipeline.phrase_of_ofTokens {ts : List Token} {p : Pipeline} (h : ofTokens ts = .ok p) :
    ts = [] ∨ ∃ xs ys, ts.map Token.lexeme = xs ++ ys ∧ Grammar.Phrase xs p.base ∧
      Grammar.Filtered ys p.filters := by
  rcases ofTokens_cases h with ⟨rfl, -⟩ | ⟨rest, he, hfs⟩
  · exact .inl rfl
  · obtain ⟨us, hts, hus⟩ := Parser.takes_expression he
    exact .inr ⟨us.map Token.lexeme, rest.map Token.lexeme, by rw [hts, List.map_append], hus,
      Parser.filtered_of_filterCalls hfs⟩

end Stencil

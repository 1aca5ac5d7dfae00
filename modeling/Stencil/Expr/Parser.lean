import Stencil.Expr.Basic
import Stencil.Expr.Lexer

/-! Reading expressions from tokens. Operators of a higher level bind tighter; those of one level group
to the left, except for powers. Every reader returns the tokens that it leaves, with a proof that it
used up at least one. -/
namespace Stencil.Parser

/-- What a reader makes of `ts`. -/
abbrev Parsed (α : Type) (ts : List Token) :=
  Result (α × { rest : List Token // rest.length < ts.length })

/-- What a reader that may leave everything makes of `ts`. -/
abbrev Continued (α : Type) (ts : List Token) :=
  Result (α × { rest : List Token // rest.length ≤ ts.length })

def eat (m : Mark) (ts : List Token) : Option { rest : List Token // rest.length < ts.length } :=
  match ts with
  | [] => none
  | t :: rest => if t.lexeme = .mark m then some ⟨rest, Nat.lt_succ_self _⟩ else none

def found (t : Token) : Found := (t.text, t.position)

def expect (m : Mark) (what : String) (ts : List Token) : Parsed Unit ts :=
  match ts with
  | [] => .error (.syntactic (.expected what none))
  | t :: rest =>
    if t.lexeme = .mark m then .ok ((), ⟨rest, Nat.lt_succ_self _⟩)
    else .error (.syntactic (.expected what (some (found t))))

def quotedMark (m : Mark) : String := "'" ++ m.text ++ "'"

def intLiteral (digits : String) : Result Literal :=
  let n := Decimal.digitsValue digits.toList
  if n < Decimal.leastMagnitude then .ok (.int (Int64.ofNat n)) else .error (.syntactic (.invalidInteger digits))

def beginsWithPower : List Token → Bool
  | ⟨.operator .pow, _⟩ :: _ => true
  | _ => false

/-- The tokens after the magnitude of the least int, unless they begin with a power. -/
def afterLeastInt? (ts : List Token) : Option { rest : List Token // rest.length < ts.length } :=
  match ts with
  | ⟨.integer digits, _⟩ :: rest =>
    if Decimal.digitsValue digits.toList = Decimal.leastMagnitude ∧ ¬ beginsWithPower rest then
      some ⟨rest, Nat.lt_succ_self _⟩
    else none
  | _ => none

/-- The name of an attribute, after its dot. -/
def attributeName (ts : List Token) : Parsed String ts :=
  match ts with
  | [] => .error (.syntactic (.noAttributeName none))
  | t :: rest =>
    match t.lexeme with
    | .name text => .ok (text, ⟨rest, Nat.lt_succ_self _⟩)
    | .integer digits => .ok (digits, ⟨rest, Nat.lt_succ_self _⟩)
    | _ => .error (.syntactic (.noAttributeName (some (found t))))

mutual

/-- An expression whose operators outside of brackets have at least the level `min`. -/
def expression (min : Nat) (ts : List Token) : Parsed Expr ts :=
  match operand ts with
  | .error e => .error e
  | .ok (left, ⟨rest, h⟩) =>
    match climb min left rest with
    | .error e => .error e
    | .ok (e, ⟨rest', h'⟩) => .ok (e, ⟨rest', by omega⟩)
termination_by 5 * ts.length + 3

/-- Goes on from the left operand `left` as long as operators of at least the level `min` follow. -/
def climb (min : Nat) (left : Expr) (ts : List Token) : Continued Expr ts :=
  match ts with
  | [] => .ok (left, ⟨[], Nat.le_refl _⟩)
  | t :: rest =>
    match t.lexeme with
    | .operator op =>
      if op.level < min then .ok (left, ⟨t :: rest, Nat.le_refl _⟩)
      else
        match expression op.rightLevel rest with
        | .error e => .error e
        | .ok (right, ⟨rest', h⟩) =>
          match climb min (.binary op left right) rest' with
          | .error e => .error e
          | .ok (e, ⟨rest'', h'⟩) => .ok (e, ⟨rest'', by simp only [List.length_cons]; omega⟩)
    | _ => .ok (left, ⟨t :: rest, Nat.le_refl _⟩)
termination_by 5 * ts.length

/-- A sign with its operand, or an expression in which nothing stands in front. -/
def operand (ts : List Token) : Parsed Expr ts :=
  match ts with
  | ⟨.not, _⟩ :: rest =>
    match expression (Sign.not.level + 1) rest with
    | .error e => .error e
    | .ok (e, ⟨rest', h⟩) => .ok (.unary .not e, ⟨rest', Nat.lt_succ_of_lt h⟩)
  | ⟨.operator .sub, _⟩ :: rest =>
    match afterLeastInt? rest with
    | some ⟨rest', h⟩ => .ok (.literal (.int Int64.minValue), ⟨rest', Nat.lt_succ_of_lt h⟩)
    | none =>
      match expression (Sign.minus.level + 1) rest with
      | .error e => .error e
      | .ok (e, ⟨rest', h⟩) => .ok (.unary .minus e, ⟨rest', Nat.lt_succ_of_lt h⟩)
  | ⟨.operator .add, _⟩ :: rest =>
    match expression (Sign.plus.level + 1) rest with
    | .error e => .error e
    | .ok (e, ⟨rest', h⟩) => .ok (.unary .plus e, ⟨rest', Nat.lt_succ_of_lt h⟩)
  | ts =>
    match primary ts with
    | .error e => .error e
    | .ok (e, ⟨rest, h⟩) =>
      match trailers e rest with
      | .error e => .error e
      | .ok (e', ⟨rest', h'⟩) => .ok (e', ⟨rest', by omega⟩)
termination_by 5 * ts.length + 2

/-- Goes on from `object` as long as attributes, subscripts or calls follow. -/
def trailers (object : Expr) (ts : List Token) : Continued Expr ts :=
  match ts with
  | [] => .ok (object, ⟨[], Nat.le_refl _⟩)
  | t :: rest =>
    match t.lexeme with
    | .mark .dot =>
      match attributeName rest with
      | .error e => .error e
      | .ok (name, ⟨rest', h⟩) =>
        match trailers (.member object name) rest' with
        | .error e => .error e
        | .ok (e, ⟨rest'', h'⟩) => .ok (e, ⟨rest'', by simp only [List.length_cons]; omega⟩)
    | .mark .openBracket =>
      match expression 0 rest with
      | .error e => .error e
      | .ok (key, ⟨rest', h⟩) =>
        match expect .closeBracket (quotedMark .closeBracket) rest' with
        | .error e => .error e
        | .ok (_, ⟨rest'', h'⟩) =>
          match trailers (.subscript object key) rest'' with
          | .error e => .error e
          | .ok (e, ⟨rest₃, h''⟩) => .ok (e, ⟨rest₃, by simp only [List.length_cons]; omega⟩)
    | .mark .openParen =>
      match sequence .closeParen rest with
      | .error e => .error e
      | .ok (args, ⟨rest', h⟩) =>
        match trailers (.call object args) rest' with
        | .error e => .error e
        | .ok (e, ⟨rest'', h'⟩) => .ok (e, ⟨rest'', by simp only [List.length_cons]; omega⟩)
    | _ => .ok (object, ⟨t :: rest, Nat.le_refl _⟩)
termination_by 5 * ts.length

/-- A literal, a name, or something in brackets. -/
def primary (ts : List Token) : Parsed Expr ts :=
  match ts with
  | [] => .error (.syntactic .unexpectedEnd)
  | t :: rest =>
    let done (e : Expr) : Parsed Expr (t :: rest) := .ok (e, ⟨rest, Nat.lt_succ_self _⟩)
    match t.lexeme with
    | .integer digits =>
      match intLiteral digits with
      | .error e => .error e
      | .ok l => done (.literal l)
    | .decimal x => done (.literal (.float x))
    | .string content => done (.literal (.string content))
    | .constant .true _ => done (.literal (.bool true))
    | .constant .false _ => done (.literal (.bool false))
    | .constant .none _ => done (.literal .null)
    | .name n => done (.name n)
    | .mark .openParen =>
      match expression 0 rest with
      | .error e => .error e
      | .ok (e, ⟨rest', h⟩) =>
        match expect .closeParen (quotedMark .closeParen) rest' with
        | .error e => .error e
        | .ok (_, ⟨rest'', h'⟩) => .ok (e, ⟨rest'', by simp only [List.length_cons]; omega⟩)
    | .mark .openBracket =>
      match sequence .closeBracket rest with
      | .error e => .error e
      | .ok (items, ⟨rest', h⟩) => .ok (.list items, ⟨rest', Nat.lt_succ_of_lt h⟩)
    | .mark .openBrace =>
      match pairs rest with
      | .error e => .error e
      | .ok (ps, ⟨rest', h⟩) => .ok (.dict ps, ⟨rest', Nat.lt_succ_of_lt h⟩)
    | _ => .error (.syntactic (.unexpected (found t)))
termination_by 5 * ts.length + 1

/-- Expressions with commas between them, up to and with the mark `close`. A last comma may follow. -/
def sequence (close : Mark) (ts : List Token) : Parsed (List Expr) ts :=
  match eat close ts with
  | some rest => .ok ([], rest)
  | none =>
    match expression 0 ts with
    | .error e => .error e
    | .ok (e, ⟨rest, h⟩) =>
      match eat .comma rest with
      | some ⟨rest', h'⟩ =>
        match sequence close rest' with
        | .error e => .error e
        | .ok (es, ⟨rest'', h''⟩) => .ok (e :: es, ⟨rest'', by omega⟩)
      | none =>
        match expect close (quotedMark close) rest with
        | .error e => .error e
        | .ok (_, ⟨rest', h'⟩) => .ok ([e], ⟨rest', by omega⟩)
termination_by 5 * ts.length + 4

/-- Pairs of a key and a value with commas between them, up to and with the closing brace. -/
def pairs (ts : List Token) : Parsed (List (Expr × Expr)) ts :=
  match eat .closeBrace ts with
  | some rest => .ok ([], rest)
  | none =>
    match expression 0 ts with
    | .error e => .error e
    | .ok (key, ⟨rest, h⟩) =>
      match expect .colon (quotedMark .colon ++ " after dict key") rest with
      | .error e => .error e
      | .ok (_, ⟨rest', h'⟩) =>
        match expression 0 rest' with
        | .error e => .error e
        | .ok (value, ⟨rest'', h''⟩) =>
          match eat .comma rest'' with
          | some ⟨rest₃, h₃⟩ =>
            match pairs rest₃ with
            | .error e => .error e
            | .ok (ps, ⟨rest₄, h₄⟩) => .ok ((key, value) :: ps, ⟨rest₄, by omega⟩)
          | none =>
            match expect .closeBrace (quotedMark .closeBrace) rest'' with
            | .error e => .error e
            | .ok (_, ⟨rest₃, h₃⟩) => .ok ([(key, value)], ⟨rest₃, by omega⟩)
termination_by 5 * ts.length + 4

end

/-- The call of a filter, after its bar. -/
def filterCall (ts : List Token) : Parsed FilterCall ts :=
  let what := "filter name after '" ++ Mark.pipe.text ++ "'"
  match ts with
  | [] => .error (.syntactic (.expected what none))
  | t :: rest =>
    match t.lexeme with
    | .name name =>
      match eat .openParen rest with
      | none => .ok (⟨name, []⟩, ⟨rest, Nat.lt_succ_self _⟩)
      | some ⟨rest', h⟩ =>
        match sequence .closeParen rest' with
        | .error e => .error e
        | .ok (args, ⟨rest'', h'⟩) =>
          .ok (⟨name, args⟩, ⟨rest'', by simp only [List.length_cons]; omega⟩)
    | _ => .error (.syntactic (.expected what (some (found t))))

/-- The filters of a pipeline, up to the end of the tokens. -/
def filterCalls (ts : List Token) : Result (List FilterCall) :=
  match eat .pipe ts with
  | some ⟨rest, _h⟩ =>
    match filterCall rest with
    | .error e => .error e
    | .ok (f, ⟨rest', _h'⟩) =>
      match filterCalls rest' with
      | .error e => .error e
      | .ok fs => .ok (f :: fs)
  | none =>
    match ts with
    | [] => .ok []
    | t :: _ => .error (.syntactic (.trailing (found t)))
termination_by ts.length

end Parser

namespace Expr

/-- The expression that all of the tokens spell. -/
def ofTokens (ts : List Token) : Result Expr :=
  match Parser.expression 0 ts with
  | .error e => .error e
  | .ok (e, ⟨[], _⟩) => .ok e
  | .ok (_, ⟨t :: _, _⟩) => .error (.syntactic (.trailing (Parser.found t)))

def parse (source : String) : Result Expr := lex source >>= ofTokens

end Expr

namespace Pipeline

/-- The pipeline that all of the tokens spell. No tokens at all spell the variable without a name. -/
def ofTokens : List Token → Result Pipeline
  | [] => .ok ⟨.name "", []⟩
  | ts =>
    match Parser.expression 0 ts with
    | .error e => .error e
    | .ok (base, ⟨rest, _⟩) => (Parser.filterCalls rest).map fun filters => ⟨base, filters⟩

def parse (source : String) : Result Pipeline := lex source >>= ofTokens

end Pipeline

end Stencil

import Stencil.Decimal.Notation
import Stencil.Expr.Operator

/-! The tokens of expressions. -/
namespace Stencil

/-- The names that stand for fixed values. -/
inductive Constant where
  | true | false | none
  deriving DecidableEq, Repr

inductive Mark where
  | openParen | closeParen | openBracket | closeBracket | openBrace | closeBrace
  | comma | dot | colon | pipe
  deriving DecidableEq, Repr

/-- What a token says. Whole numbers keep their digits, and strings have their escapes resolved. -/
inductive Lexeme where
  | integer (digits : String)
  | decimal (x : Float)
  | string (content : String)
  | constant (c : Constant) (capital : Bool)
  | name (text : String)
  | operator (op : Operator)
  | not
  | mark (m : Mark)
  deriving DecidableEq

/-- A lexeme and the byte at which it begins. -/
structure Token where
  lexeme : Lexeme
  position : Nat
  deriving DecidableEq

def Constant.text (capital : Bool) : Constant → String
  | .true => if capital then "True" else "true"
  | .false => if capital then "False" else "false"
  | .none => if capital then "None" else "none"

def Mark.text : Mark → String
  | .openParen => "("
  | .closeParen => ")"
  | .openBracket => "["
  | .closeBracket => "]"
  | .openBrace => "\x7b"
  | .closeBrace => "\x7d"
  | .comma => ","
  | .dot => "."
  | .colon => ":"
  | .pipe => "|"

/-- The text of a lexeme in messages. -/
def Lexeme.text : Lexeme → String
  | .integer digits => digits
  | .decimal x => Decimal.floatText x
  | .string content => content
  | .constant c capital => c.text capital
  | .name text => text
  | .operator op => op.symbol
  | .not => Sign.not.symbol
  | .mark m => m.text

def Token.text (t : Token) : String := t.lexeme.text

end Stencil

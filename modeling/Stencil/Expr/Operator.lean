/-! The operators of expressions: how they are written and how tightly they bind. -/
namespace Stencil

/-- Operators between two operands. -/
inductive Operator where
  | or | and
  | eq | ne | lt | le | gt | ge | isIn | notIn | is | isNot
  | add | sub | mul | div | floorDiv | mod | pow
  deriving DecidableEq, Repr

/-- Operators in front of one operand. -/
inductive Sign where
  | not | minus | plus
  deriving DecidableEq, Repr

namespace Operator

def all : List Operator :=
  [or, and, eq, ne, lt, le, gt, ge, isIn, notIn, is, isNot, add, sub, mul, div, floorDiv, mod, pow]

def symbol : Operator → String
  | or => "or" | and => "and"
  | eq => "==" | ne => "!=" | lt => "<" | le => "<=" | gt => ">" | ge => ">="
  | isIn => "in" | notIn => "not in" | is => "is" | isNot => "is not"
  | add => "+" | sub => "-" | mul => "*" | div => "/" | floorDiv => "//" | mod => "%" | pow => "**"

def ofSymbol? (s : String) : Option Operator := all.find? fun op => op.symbol == s

/-- The higher the level, the tighter the operator binds. -/
def level : Operator → Nat
  | or => 10
  | and => 20
  | eq | ne | lt | le | gt | ge | isIn | notIn | is | isNot => 40
  | add | sub => 50
  | mul | div | floorDiv | mod => 60
  | pow => 70

/-- The least level of an operator inside the right operand: only powers group to the right. -/
def rightLevel (op : Operator) : Nat := if op = pow then op.level else op.level + 1

end Operator

namespace Sign

def symbol : Sign → String
  | not => "not"
  | minus => "-"
  | plus => "+"

/-- The level of the operators that a sign binds looser than is above this. -/
def level : Sign → Nat
  | not => 30
  | minus | plus => 50

end Sign

end Stencil

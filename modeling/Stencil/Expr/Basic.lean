import Stencil.Value.Basic
import Stencil.Expr.Operator

/-! Expressions, and the filter chains that follow them. -/
namespace Stencil

inductive Literal where
  | null
  | bool (b : Bool)
  | int (n : Int64)
  | float (x : Float)
  | string (s : String)
  deriving DecidableEq

def Literal.value : Literal → Value
  | null => .null
  | bool b => .bool b
  | int n => .int n
  | float x => .float x
  | string s => .string s

inductive Expr where
  | literal (l : Literal)
  | name (n : String)
  | unary (sign : Sign) (operand : Expr)
  | binary (op : Operator) (left right : Expr)
  | member (object : Expr) (name : String)
  | subscript (object key : Expr)
  | call (callee : Expr) (args : List Expr)
  | list (items : List Expr)
  | dict (pairs : List (Expr × Expr))

instance : Inhabited Expr := ⟨.literal .null⟩

/-- A name followed by attributes and subscripts only. -/
def Expr.isPath : Expr → Bool
  | .name _ => true
  | .member object _ | .subscript object _ => object.isPath
  | _ => false

structure FilterCall where
  name : String
  args : List Expr

/-- An expression and the filters that its value goes through, from left to right. -/
structure Pipeline where
  base : Expr
  filters : List FilterCall

end Stencil

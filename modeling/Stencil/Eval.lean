import Stencil.Expr.Basic
import Stencil.Filter
import Stencil.Operation
import Stencil.Routine
import Stencil.Scope

/-! The values of expressions and pipelines. -/
namespace Stencil

/-- Everything that the value of an expression depends on. -/
structure Env where
  host : Host
  functions : Functions
  filters : Filters
  scope : Scope

namespace Env

/-- A variable, or else a function. -/
def lookup (env : Env) (name : String) : Result Value :=
  match env.scope.get? name with
  | some v => .ok v
  | none =>
    match env.functions.get? name with
    | some f => .ok (.function f)
    | none => .error (.undefinedVariable name)

/-- The position in a sequence of `length` items that a key selects. Negative keys count from the end. -/
def position (key : Value) (length : Nat) : Result Nat :=
  match key.asIndex? with
  | none => .error (.type (.index key.typeName))
  | some raw =>
    let i := if raw < 0 then raw.toInt + length else raw.toInt
    if 0 ≤ i ∧ i < length then .ok i.toNat else .error (.index (.outOfRange raw.toInt length))

def subscript (env : Env) (object key : Value) : Result Value :=
  match object with
  | .map entries =>
    match Entries.get? key.key entries with
    | some v => .ok v
    | none => .error (.attributeNotFound (.key key.key))
  | .list items => (position key items.length).map fun i => items.getD i .null
  | .string s => (position key s.length).map fun i => ((s.toList[i]?).map Value.ofChar).getD .null
  | .object o =>
    match env.host.item? o key with
    | some v => .ok v
    | none => .error (.attributeNotFound (.item key.key o.typeName))
  | v => .error (.type (.subscript v.typeName))

def sameIgnoringCase (a b : String) : Bool := a.toList.map Char.toLower == b.toList.map Char.toLower

/-- An attribute of a host object, by its name or by the first name that differs only in the case of
ASCII letters. -/
def objectAttribute? (env : Env) (o : Object) (name : String) : Option Value :=
  match env.host.attribute? o name with
  | some v => some v
  | none =>
    ((env.host.attributeNames o).find? (sameIgnoringCase name)).bind (env.host.attribute? o)

/-- The method of this name, bound to its receiver at a site. -/
def method (env : Env) (site : Site) (receiver : Value) (name : String) : Result Value :=
  match env.functions.method? receiver name with
  | some f => .ok (.method f receiver site)
  | none => .error (.attributeNotFound (.attribute receiver.typeName name))

/-- Map entries and attributes of objects come before methods; digits are a subscript of a list. -/
def member (env : Env) (site : Site) (object : Value) (name : String) : Result Value :=
  match object with
  | .map entries =>
    match Entries.get? name entries with
    | some v => .ok v
    | none => env.method site object name
  | .list _ =>
    if name.toList.all Char.isDigit then env.subscript object (.string name)
    else env.method site object name
  | .object o =>
    match env.objectAttribute? o name with
    | some v => .ok v
    | none => env.method site object name
  | _ => env.method site object name

def call (env : Env) (callee : Value) (args : List Value) : Result Value :=
  match callee with
  | .function f => f.call env.host args
  | .method f receiver _ => f.call env.host (receiver :: args)
  | .object o =>
    if o.callable then env.host.callObject o args
    else .error (.notCallable (.object o.typeName))
  | v => .error (.notCallable (.object v.typeName))

mutual

/-- The value of an expression, evaluated at a site. Operands are evaluated from left to right, and the
connectives stop at the operand that decides them. -/
def eval (env : Env) (site : Site) : Expr → Result Value
  | .literal l => .ok l.value
  | .name n => env.lookup n
  | .unary sign operand => do
    let v ← eval env (site.child 0) operand
    sign.apply v
  | .binary .and left right => do
    let v ← eval env (site.child 0) left
    if v.truthy then eval env (site.child 1) right else .ok v
  | .binary .or left right => do
    let v ← eval env (site.child 0) left
    if v.truthy then .ok v else eval env (site.child 1) right
  | .binary op left right => do
    let v ← eval env (site.child 0) left
    let w ← eval env (site.child 1) right
    op.apply env.host v w
  | .member object name => do
    let v ← eval env (site.child 0) object
    env.member site v name
  | .subscript object key => do
    let v ← eval env (site.child 0) object
    let k ← eval env (site.child 1) key
    env.subscript v k
  | .call callee args => do
    let f ← eval env (site.child 0) callee
    let vs ← evalAll env site 1 args
    env.call f vs
  | .list items => do
    let vs ← evalAll env site 0 items
    .ok (.list vs)
  | .dict pairs => do
    let es ← evalPairs env site 0 pairs
    .ok (.map (Entries.ofList es))

/-- The values of expressions that are children of one site, counted from `i`. -/
def evalAll (env : Env) (site : Site) (i : Nat) : List Expr → Result (List Value)
  | [] => .ok []
  | e :: es => do
    let v ← eval env (site.child i) e
    let vs ← evalAll env site (i + 1) es
    .ok (v :: vs)

/-- The keys and values of a dict literal. -/
def evalPairs (env : Env) (site : Site) (i : Nat) : List (Expr × Expr) → Result (List (String × Value))
  | [] => .ok []
  | (k, e) :: ps => do
    let key ← eval env (site.child i) k
    let v ← eval env (site.child (i + 1)) e
    let rest ← evalPairs env site (i + 2) ps
    .ok ((key.key, v) :: rest)

end

end Env

/-- What a pipeline comes to. A path that leads nowhere is undefined, unless a filter rescues it. -/
inductive Outcome where
  | defined (v : Value)
  | undefined (cause : Error)
  | rescued (v : Value)

/-- The value, or the failure of a path that is still undefined. -/
def Outcome.value : Outcome → Result Value
  | defined v | rescued v => .ok v
  | undefined cause => .error cause

namespace Env

/-- Applies a filter to an outcome. Undefined outcomes pass by the filters that do not accept them. -/
def filterOutcome (f : Filter) (args : List Value) : Outcome → Result Outcome
  | .defined v => (f.apply v args).map .defined
  | .rescued v => (f.apply v args).map .rescued
  | .undefined cause =>
    if f.acceptsUndefined then (f.apply .null args).map .rescued else .ok (.undefined cause)

/-- Sends an outcome through filters. The arguments of the first one are children of a child of the site, and
another child of it is the site of the rest. -/
def evalFilters (env : Env) (site : Site) (o : Outcome) : List FilterCall → Result Outcome
  | [] => .ok o
  | c :: cs =>
    match Entries.get? c.name env.filters with
    | none => .error (.unknownFilter c.name)
    | some f => do
      let args ← env.evalAll (site.child 0) 0 c.args
      let o' ← filterOutcome f args o
      evalFilters env (site.child 1) o' cs

/-- The outcome of the base of a pipeline: only a path can be undefined. -/
def evalBase (env : Env) (site : Site) (base : Expr) : Result Outcome :=
  match env.eval (site.child 0) base with
  | .ok v => .ok (.defined v)
  | .error e => if e.isUndefined && base.isPath then .ok (.undefined e) else .error e

/-- The outcome of a pipeline that is evaluated at a site. -/
def evalPipeline (env : Env) (site : Site) (p : Pipeline) : Result Outcome := do
  let o ← env.evalBase site p.base
  env.evalFilters (site.child 1) o p.filters

/-- The value of a pipeline that has to be defined. -/
def evalStrict (env : Env) (site : Site) (p : Pipeline) : Result Value := do
  let o ← env.evalPipeline site p
  o.value

end Env

end Stencil

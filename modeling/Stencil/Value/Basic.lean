import Stencil.Entries

/-! The values that expressions denote. -/
namespace Stencil

/-- The code behind a function: built in, or supplied by the host under a number. -/
inductive Routine where
  | lookup
  | mapGet | mapKeys | mapValues | mapItems
  | upper | lower | strip | startsWith | endsWith | split | replace
  | host (number : Nat)
  deriving DecidableEq, Repr

/-- A function that a name stands for. -/
structure Function where
  name : String
  routine : Routine
  deriving DecidableEq, Repr

/-- The place of a step of an evaluation: how deep in blocks the evaluation runs, and the way from
the whole pipeline to the step. What a rendering keeps from an evaluation while others run, it keeps
for deeper blocks, so that of the values that it has in use at one time no two come from one site.
Evaluations at the same depth use the same sites again: a host that keeps values from two of them may
hold two that come from one site. -/
structure Site where
  depth : Nat
  path : List Nat
  deriving DecidableEq, Repr

def Site.child (s : Site) (i : Nat) : Site := ⟨s.depth, i :: s.path⟩

/-- A host object. The number is its identity; the host knows its attributes and items. -/
structure Object where
  number : Nat
  typeName : String
  rendering : String
  callable : Bool
  deriving DecidableEq, Repr

/-- A value. A method is a function bound to a receiver; each evaluation binds it anew, and `site`
tells these apart. -/
inductive Value where
  | null
  | bool (b : Bool)
  | int (n : Int64)
  | float (x : Float)
  | string (s : String)
  | list (items : List Value)
  | map (entries : Entries Value)
  | function (f : Function)
  | method (f : Function) (receiver : Value) (site : Site)
  | object (o : Object)

instance : Inhabited Value := ⟨.null⟩

namespace Value

/-- Induction that goes into the items of lists and the values of maps. -/
@[elab_as_elim]
theorem byParts {P : Value → Prop} (null : P null) (bool : ∀ b, P (bool b)) (int : ∀ n, P (int n))
    (float : ∀ x, P (float x)) (string : ∀ s, P (string s))
    (list : ∀ items, (∀ v ∈ items, P v) → P (list items))
    (map : ∀ entries : Entries Value, (∀ k v, Entries.get? k entries = some v → P v) → P (map entries))
    (function : ∀ f, P (function f)) (method : ∀ f receiver site, P (method f receiver site))
    (object : ∀ o, P (object o)) (v : Value) : P v := by
  refine @Value.rec P (fun items => ∀ v ∈ items, P v)
    (fun entries => ∀ k v, Entries.get? k entries = some v → P v)
    null bool int float string list map function (fun f r s _ => method f r s) object ?_ ?_ ?_ v
  · simp
  · intro v vs hv hvs
    exact List.forall_mem_cons.2 ⟨hv, hvs⟩
  · intro names distinct value ih
    exact Entries.forall_get?.2 ih

def typeName : Value → String
  | null => "none"
  | bool _ => "bool"
  | int _ => "int"
  | float _ => "float"
  | string _ => "string"
  | list _ => "list"
  | map _ => "map"
  | function _ | method .. => "callable"
  | object o => o.typeName

/-- Null, false, zero and whatever is empty count as false. -/
def truthy : Value → Bool
  | null => false
  | bool b => b
  | int n => n != 0
  | float x => x != 0
  | string s => s != ""
  | list items => !items.isEmpty
  | map entries => !entries.isEmpty
  | function _ | method .. | object _ => true

def isNull : Value → Bool
  | null => true
  | _ => false

/-- The number of characters, items or entries. -/
def length? : Value → Option Nat
  | string s => some s.length
  | list items => some items.length
  | map entries => some entries.length
  | _ => none

def string? : Value → Option String
  | string s => some s
  | _ => none

def ofChars (cs : List Char) : Value := string (String.ofList cs)

def ofChar (c : Char) : Value := ofChars [c]

end Value

/-- Whether a whole number is in the range of `Value.int`. -/
def fitsInt (i : Int) : Bool := Int64.minValue.toInt ≤ i && i ≤ Int64.maxValue.toInt

theorem fitsInt_toInt (n : Int64) : fitsInt n.toInt = true := by
  rw [fitsInt, Bool.and_eq_true, decide_eq_true_iff, decide_eq_true_iff]
  exact ⟨n.minValue_le_toInt, n.toInt_le⟩

/-- The exact number as an int if it is in range, else the nearest float. -/
def Value.ofInt (i : Int) : Value := if fitsInt i then .int (Int64.ofInt i) else .float (Float.ofInt i)

def Value.ofNat (n : Nat) : Value := .ofInt n

end Stencil

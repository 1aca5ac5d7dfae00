import Stencil.Entries
import Stencil.Value.Basic

/-! Layered bindings of names. -/
namespace Stencil

/-- Frames of bindings, the innermost first. Inner bindings hide outer ones. -/
structure Scope where
  frames : List (Entries Value)

namespace Scope

def empty : Scope := ⟨[]⟩

def ofEntries (bindings : Entries Value) : Scope := ⟨[bindings]⟩

def get? (s : Scope) (name : String) : Option Value := s.frames.findSome? (Entries.get? name)

def contains (s : Scope) (name : String) : Bool := (s.get? name).isSome

/-- Binds a name in the innermost frame. -/
def insert (s : Scope) (name : String) (v : Value) : Scope :=
  match s.frames with
  | [] => ⟨[Entries.empty.insert name v]⟩
  | f :: fs => ⟨f.insert name v :: fs⟩

/-- Lays bindings over a scope. -/
def child (s : Scope) (bindings : Entries Value) : Scope := ⟨bindings :: s.frames⟩

/-- Lays bindings under a scope. -/
def withFallback (s : Scope) (bindings : Entries Value) : Scope :=
  if bindings.isEmpty then s else ⟨s.frames ++ [bindings]⟩

end Scope

/-- Where an iteration stands in its loop. -/
structure Iteration where
  index0 : Nat
  length : Nat

/-- What the name `loop` stands for in the body of a loop. -/
def Iteration.value (i : Iteration) : Value :=
  .map (Entries.ofList
    [("index", .ofNat (i.index0 + 1)), ("index0", .ofNat i.index0),
      ("first", .bool (i.index0 == 0)), ("last", .bool (i.index0 + 1 == i.length)),
      ("length", .ofNat i.length), ("revindex", .ofNat (i.length - i.index0)),
      ("revindex0", .ofNat (i.length - i.index0 - 1))])

end Stencil

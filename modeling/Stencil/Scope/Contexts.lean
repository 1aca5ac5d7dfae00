import Stencil.Scope

/-! Contexts that a host keeps by name and derives from each other. They share their frames: each frame is
held by address, and one with several holders is copied before it is changed. -/
namespace Stencil

/-- What a host does with named contexts, and with bindings that it keeps by name as a base of contexts. The
result of a derivation goes to the context `dest`. -/
inductive ContextAction where
  | empty (ctx : String)
  | new (ctx : String) (bindings : Entries Value)
  | insert (ctx name : String) (v : Value)
  | child (dest ctx : String) (bindings : Entries Value)
  | withFallback (dest ctx : String) (bindings : Entries Value)
  | keep (base : String) (bindings : Entries Value)
  | withBase (dest ctx base : String)
  | clone (dest ctx : String)

/-- What holds frames: a context, or the host that keeps a base. -/
inductive Holder where
  | context (name : String)
  | base (name : String)
  deriving DecidableEq, Repr

/-- The holder that an action sets. -/
def ContextAction.target : ContextAction → Holder
  | empty ctx | new ctx _ | insert ctx _ _ => .context ctx
  | child dest _ _ | withFallback dest _ _ | withBase dest _ _ | clone dest _ => .context dest
  | keep base _ => .base base

/-- Frames of bindings by address, with the number of holders of each. Addresses from `next` on are free. -/
structure Frames where
  bindings : Nat → Entries Value
  holders : Nat → Nat
  next : Nat

namespace Frames

def empty : Frames := ⟨fun _ => .empty, fun _ => 0, 0⟩

/-- Puts bindings into a new frame, which has one holder. -/
def alloc (fs : Frames) (es : Entries Value) : Frames where
  bindings a := if a = fs.next then es else fs.bindings a
  holders a := if a = fs.next then 1 else fs.holders a
  next := fs.next + 1

/-- Counts one holder more for each of the addresses. -/
def retain (fs : Frames) (as : List Nat) : Frames :=
  { fs with holders := fun a => fs.holders a + as.count a }

/-- Counts one holder less for each of the addresses. -/
def release (fs : Frames) (as : List Nat) : Frames :=
  { fs with holders := fun a => fs.holders a - as.count a }

/-- Changes a frame in place. -/
def write (fs : Frames) (a : Nat) (es : Entries Value) : Frames :=
  { fs with bindings := fun b => if b = a then es else fs.bindings b }

end Frames

/-- The addresses of the frames that each holder holds, the innermost first. -/
structure Contexts where
  frames : Frames
  held : Holder → List Nat

namespace Contexts

def start : Contexts := ⟨Frames.empty, fun _ => []⟩

/-- What a name stands for in a context: the innermost frame that binds it decides. -/
def get? (s : Contexts) (ctx name : String) : Option Value :=
  (s.held (.context ctx)).findSome? fun a => Entries.get? name (s.frames.bindings a)

/-- Lets a holder go over to the addresses `as`, which `fs` counts for it already. -/
def assign (s : Contexts) (h : Holder) (fs : Frames) (as : List Nat) : Contexts where
  frames := fs.release (s.held h)
  held h' := if h' = h then as else s.held h'

/-- Lets a holder hold one new frame. -/
def create (s : Contexts) (h : Holder) (es : Entries Value) : Contexts :=
  s.assign h (s.frames.alloc es) [s.frames.next]

/-- Changes the innermost frame of a holder: in place if nothing else holds it, and in a copy otherwise. -/
def modify (s : Contexts) (h : Holder) (f : Entries Value → Entries Value) : Contexts :=
  match s.held h with
  | [] => s
  | a :: as =>
    let es := f (s.frames.bindings a)
    if s.frames.holders a = 1 then { s with frames := s.frames.write a es }
    else s.assign h ((s.frames.alloc es).retain as) (s.frames.next :: as)

/-- Binds a name in the innermost frame; a context without frames gets its first one. -/
def insert (s : Contexts) (ctx name : String) (v : Value) : Contexts :=
  let s' := if (s.held (.context ctx)).isEmpty then s.create (.context ctx) .empty else s
  s'.modify (.context ctx) (Entries.insert name v)

def clone (s : Contexts) (dest ctx : String) : Contexts :=
  let as := s.held (.context ctx)
  s.assign (.context dest) (s.frames.retain as) as

/-- Lays a new frame over the frames of a context. -/
def child (s : Contexts) (dest ctx : String) (bindings : Entries Value) : Contexts :=
  let as := s.held (.context ctx)
  s.assign (.context dest) ((s.frames.alloc bindings).retain as) (s.frames.next :: as)

/-- Lays a new frame under the frames of a context, unless it would be empty. -/
def withFallback (s : Contexts) (dest ctx : String) (bindings : Entries Value) : Contexts :=
  let as := s.held (.context ctx)
  if bindings.isEmpty then s.clone dest ctx
  else s.assign (.context dest) ((s.frames.alloc bindings).retain as) (as ++ [s.frames.next])

/-- Lays the frame of a base under the frames of a context, which share it from then on. -/
def withBase (s : Contexts) (dest ctx base : String) : Contexts :=
  let as := s.held (.context ctx)
  let bs := s.held (.base base)
  if bs.all fun b => (s.frames.bindings b).isEmpty then s.clone dest ctx
  else s.assign (.context dest) (s.frames.retain (as ++ bs)) (as ++ bs)

def step (s : Contexts) : ContextAction → Contexts
  | .empty ctx => s.assign (.context ctx) s.frames []
  | .new ctx bindings => s.create (.context ctx) bindings
  | .insert ctx name v => s.insert ctx name v
  | .child dest ctx bindings => s.child dest ctx bindings
  | .withFallback dest ctx bindings => s.withFallback dest ctx bindings
  | .keep base bindings => s.create (.base base) bindings
  | .withBase dest ctx base => s.withBase dest ctx base
  | .clone dest ctx => s.clone dest ctx

/-- What actions one after the other make of no contexts at all. -/
def run (actions : List ContextAction) : Contexts := actions.foldl step start

end Contexts

end Stencil

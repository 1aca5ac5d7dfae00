import Stencil.Entries
import Stencil.Host
import Stencil.Text.Blank
import Stencil.Text.Case
import Stencil.Text.Search
import Stencil.Value.Text

/-! The functions and methods that are built in, and the tables in which names find them. -/
namespace Stencil

namespace Routine

def failure {α : Type} (name : String) (fault : CallFault) : Result α := .error (.call name fault)

def stringArg (name : String) (args : List Value) (i : Nat) : Result String :=
  match args[i]? with
  | some (.string s) => .ok s
  | some v => failure name (.argumentNotString i v.typeName)
  | none => failure name (.missingArgument i)

def receiverMap (name : String) (args : List Value) : Result (Entries Value) :=
  match args.head? with
  | some (.map entries) => .ok entries
  | _ => failure name .receiverNotMap

def receiverString (name : String) (args : List Value) : Result String :=
  match args.head? with
  | some (.string s) => .ok s
  | _ => failure name .receiverNotString

/-- Reads a file or an environment variable; a variable that is not set is empty. -/
def runLookup (host : Host) (args : List Value) : Result Value :=
  match args.head? with
  | none => failure "lookup" .noLookupType
  | some (.string kind) => do
    let target ← stringArg "lookup" args 1
    match kind with
    | "file" =>
      match host.fileText target with
      | .ok text => .ok (.string text)
      | .error reason => failure "lookup" (.unreadable target reason)
    | "env" => .ok (.string ((host.envVar? target).getD ""))
    | kind => failure "lookup" (.unsupportedLookup kind)
  | some v => failure "lookup" (.notString "lookup type" v.typeName)

/-- The entry under a key, else the second argument, else null. -/
def runGet (args : List Value) : Result Value := do
  let entries ← receiverMap "get" args
  match (args[1]? : Option Value) with
  | none => failure "get" .noKey
  | some k => .ok ((Entries.get? k.key entries).getD (args[2]?.getD .null))

/-- Cuts blanks off both ends, or the characters of the argument if it is a string. -/
def runStrip (args : List Value) : Result Value := do
  let s ← receiverString "strip" args
  match (args[1]? : Option Value) with
  | some (.string cut) =>
    .ok (.string (Text.mapChars (Text.trimWhere fun c => cut.toList.contains c) s))
  | _ => .ok (.string (Text.mapChars Text.trim s))

def runSplit (args : List Value) : Result Value := do
  let s ← receiverString "split" args
  match (args[1]? : Option Value) with
  | some (.string separator) =>
    if separator = "" then failure "split" .emptySeparator
    else .ok (.list ((Text.split separator.toList s.toList).map Value.ofChars))
  | _ => .ok (.list ((Text.words s.toList).map Value.ofChars))

def runReplace (args : List Value) : Result Value := do
  let s ← receiverString "replace" args
  let old ← stringArg "replace" args 1
  let new ← stringArg "replace" args 2
  .ok (.ofChars (Text.replace old.toList new.toList s.toList))

def entryPair (e : String × Value) : Value := .list [.string e.1, e.2]

/-- Runs the code behind a function. Methods take their receiver as the first argument. -/
def run (around : Host) (routine : Routine) (args : List Value) : Result Value :=
  match routine with
  | lookup => runLookup around args
  | mapGet => runGet args
  | mapKeys => (receiverMap "keys" args).map fun es => .list (es.sorted.map fun e => .string e.1)
  | mapValues => (receiverMap "values" args).map fun es => .list (es.sorted.map Prod.snd)
  | mapItems => (receiverMap "items" args).map fun es => .list (es.sorted.map entryPair)
  | upper => (receiverString "upper" args).map fun s => .string (Text.mapChars Text.upper s)
  | lower => (receiverString "lower" args).map fun s => .string (Text.mapChars Text.lower s)
  | strip => runStrip args
  | startsWith => do
    let s ← receiverString "startswith" args
    let part ← stringArg "startswith" args 1
    .ok (.bool (Text.after? part.toList s.toList).isSome)
  | endsWith => do
    let s ← receiverString "endswith" args
    let part ← stringArg "endswith" args 1
    .ok (.bool (Text.after? part.toList.reverse s.toList.reverse).isSome)
  | split => runSplit args
  | replace => runReplace args
  | .host number => around.call number args

end Routine

def Function.call (host : Host) (f : Function) (args : List Value) : Result Value :=
  f.routine.run host args

/-- The functions that names stand for, and the methods of each type. -/
structure Functions where
  free : Entries Function
  methods : Entries (Entries Function)

namespace Functions

def empty : Functions := ⟨.empty, .empty⟩

def register (fs : Functions) (name : String) (routine : Routine) : Functions :=
  { fs with free := fs.free.insert name ⟨name, routine⟩ }

def registerMethod (fs : Functions) (type name : String) (routine : Routine) : Functions :=
  let known := (Entries.get? type fs.methods).getD .empty
  { fs with methods := fs.methods.insert type (known.insert name ⟨name, routine⟩) }

def get? (fs : Functions) (name : String) : Option Function := Entries.get? name fs.free

/-- The method of this name for values of the type of the receiver. -/
def method? (fs : Functions) (receiver : Value) (name : String) : Option Function :=
  (Entries.get? receiver.typeName fs.methods).bind (Entries.get? name)

def builtin : Functions where
  free := .ofList [("lookup", ⟨"lookup", .lookup⟩)]
  methods := .ofList
    [("map", table [("get", .mapGet), ("keys", .mapKeys), ("values", .mapValues),
      ("items", .mapItems)]),
     ("string", table [("upper", .upper), ("lower", .lower), ("strip", .strip),
      ("startswith", .startsWith), ("endswith", .endsWith), ("split", .split),
      ("replace", .replace)])]
where
  table (routines : List (String × Routine)) : Entries Function :=
    .ofList (routines.map fun (name, routine) => (name, ⟨name, routine⟩))

end Functions

end Stencil

import Stencil.Json.Basic

/-! Tables of a TOML document while it is read, and which definitions they admit. -/
namespace Stencil.Toml

/-- How a table came to be: by its own header, as a parent in the header of another table, or as a
parent in a dotted key. -/
inductive Origin where
  | header | implied | dotted
  deriving DecidableEq, Repr

inductive Item where
  | leaf (j : Json)
  | table (origin : Origin) (items : Entries Item)
  | tables (members : List (Entries Item))

/-- The contents of a table. -/
abbrev Items := Entries Item

mutual

def Item.json : Item → Json
  | .leaf j => j
  | .table _ items => .object (jsonItems items)
  | .tables members => .array (jsonTables members)

def jsonItems : Entries Item → Entries Json
  | ⟨names, distinct, item⟩ => ⟨names, distinct, fun k h => (item k h).json⟩

def jsonTables : List (Entries Item) → List Json
  | [] => []
  | t :: ts => .object (jsonItems t) :: jsonTables ts

end

/-- Applies a change to the last table of a list. -/
def onLast (f : Items → Option Items) : List Items → Option (List Items)
  | [] => none
  | [t] => (f t).map fun t' => [t']
  | t :: ts => (onLast f ts).map fun ts' => t :: ts'

/-- Applies a change to the table under a path of a header. Tables on the way come to be; of a list of
tables the last one counts. -/
def onTable (f : Items → Option Items) : List String → Items → Option Items
  | [], items => f items
  | k :: ks, items =>
    match Entries.get? k items with
    | none => (onTable f ks .empty).map fun sub => items.insert k (.table .implied sub)
    | some (.leaf _) => none
    | some (.table origin sub) =>
      (onTable f ks sub).map fun sub' => items.insert k (.table origin sub')
    | some (.tables ts) => (onLast (onTable f ks) ts).map fun ts' => items.insert k (.tables ts')

/-- The header of a table. A table has one header at most, and none if dotted keys made it. -/
def openTable (path : List String) (key : String) : Items → Option Items :=
  onTable (fun items =>
    match Entries.get? key items with
    | none => some (items.insert key (.table .header .empty))
    | some (.table .implied sub) => some (items.insert key (.table .header sub))
    | some _ => none) path

/-- The header of a new table in a list of tables. -/
def openMember (path : List String) (key : String) : Items → Option Items :=
  onTable (fun items =>
    match Entries.get? key items with
    | none => some (items.insert key (.tables [.empty]))
    | some (.tables ts) => some (items.insert key (.tables (ts ++ [.empty])))
    | some _ => none) path

/-- Binds a dotted key. Its parents may not have headers of their own, and the last one has to come from
dotted keys as well. -/
def bind (j : Json) : List String → Items → Option Items
  | [], _ => none
  | [key], items => if items.contains key then none else some (items.insert key (.leaf j))
  | k :: key :: ks, items =>
    match Entries.get? k items with
    | none => (bind j (key :: ks) .empty).map fun sub => items.insert k (.table .dotted sub)
    | some (.leaf _) | some (.table .header _) => none
    | some (.table .dotted sub) =>
      (bind j (key :: ks) sub).map fun sub' => items.insert k (.table .dotted sub')
    | some (.table .implied sub) =>
      if ks = [] then none
      else (bind j (key :: ks) sub).map fun sub' => items.insert k (.table .implied sub')
    | some (.tables ts) =>
      if ks = [] then none
      else (onLast (bind j (key :: ks)) ts).map fun ts' => items.insert k (.tables ts')

end Stencil.Toml

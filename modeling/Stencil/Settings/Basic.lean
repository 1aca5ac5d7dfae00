import Stencil.Json.Basic

/-! What can be set about an engine, and how documents hold it. -/
namespace Stencil

structure Settings where
  debug : Bool := false
  logLevel : String := "info"
  cacheTemplates : Bool := true
  /-- How deep blocks may nest; no bound if absent. -/
  maxRenderDepth : Option Nat := some 256
  strictUndefined : Bool := false
  globals : Entries Json := .empty

namespace Settings

def json (s : Settings) : Json :=
  .object (Entries.ofList
    [("debug", .bool s.debug), ("log_level", .string s.logLevel),
      ("cache_templates", .bool s.cacheTemplates),
      ("max_render_depth", (s.maxRenderDepth.map fun n => Json.int n).getD .null),
      ("strict_undefined", .bool s.strictUndefined), ("globals", .object s.globals)])

private def flag? : Json → Option Bool
  | .bool b => some b
  | _ => none

private def text? : Json → Option String
  | .string s => some s
  | _ => none

private def depth? : Json → Option (Option Nat)
  | .null => some none
  | .int n => if 0 ≤ n ∧ n < UInt64.size then some (some n.toNat) else none
  | _ => none

private def names? : Json → Option (Entries Json)
  | .object entries => some entries
  | _ => none

/-- The fields in the order in which a list gives them. -/
def fields : List String :=
  ["debug", "log_level", "cache_templates", "max_render_depth", "strict_undefined", "globals"]

/-- Sets the field of this name to what a document holds for it. Unknown names are passed over. -/
def set? (s : Settings) (field : String) (j : Json) : Option Settings :=
  match field with
  | "debug" => (flag? j).map fun b => { s with debug := b }
  | "log_level" => (text? j).map fun t => { s with logLevel := t }
  | "cache_templates" => (flag? j).map fun b => { s with cacheTemplates := b }
  | "max_render_depth" => (depth? j).map fun d => { s with maxRenderDepth := d }
  | "strict_undefined" => (flag? j).map fun b => { s with strictUndefined := b }
  | "globals" => (names? j).map fun es => { s with globals := es }
  | _ => some s

private def setAll? (pairs : List (String × Json)) : Option Settings :=
  pairs.foldlM (fun s p => s.set? p.1 p.2) {}

/-- The settings of a document: an object with fields, or a list of fields that may stop early. -/
def ofJson? : Json → Option Settings
  | .object entries => setAll? entries.toList
  | .array items => if items.length ≤ fields.length then setAll? (fields.zip items) else none
  | _ => none

end Settings

end Stencil

import Stencil.Decimal.Notation
import Stencil.Host
import Stencil.Json.Reader
import Stencil.Settings.Basic
import Stencil.Text.Blank
import Stencil.Text.Case
import Stencil.Toml.Reader

/-! Settings from documents, files and environment variables. -/
namespace Stencil

/-- The formats of documents. -/
inductive Format where
  | toml | json
  deriving DecidableEq, Repr

namespace Format

def name : Format → String
  | toml => "TOML"
  | json => "JSON"

def parse? : Format → String → Option Json
  | toml => Toml.parse?
  | json => Json.parse?

end Format

namespace Settings

/-- The settings of a text: the defaults, overlaid with the document in it. -/
def ofText (format : Format) (text : String) : Result Settings :=
  match format.parse? text with
  | none => .error (.configuration (.malformed format.name))
  | some document =>
    match ofJson? (Json.merge (json {}) document) with
    | none => .error (.configuration (.unsuitable format.name))
    | some s => .ok s

def ofFile (host : Host) (format : Format) (path : String) : Result Settings :=
  match host.fileText path with
  | .ok text => ofText format text
  | .error reason => .error (.configuration (.unreadable format.name path reason))

/-- What the text of a variable says about a flag. -/
def readFlag (text : String) : Bool :=
  String.ofList (Text.lower (Text.trim text.toList)) ∈ ["true", "1", "yes"]

/-- The number of decimal digits after an optional plus sign, if it is below `2 ^ 64`. -/
def readDepth? (cs : List Char) : Option Nat :=
  let digits := match cs with
    | '+' :: cs => cs
    | cs => cs
  if digits ≠ [] ∧ digits.all Char.isDigit then
    (some (Decimal.digitsValue digits)).filter (· < UInt64.size)
  else none

/-- The bound that the text of a variable sets. A text that is no number leaves the old one. -/
def overrideDepth (old : Option Nat) (text : String) : Option Nat :=
  let cs := Text.trim text.toList
  if cs.map Char.toLower = "none".toList ∨ cs = ['0'] then none
  else match readDepth? cs with
    | some n => some n
    | none => old

/-- Overrides settings by the environment variables that are set. -/
def override (host : Host) (s : Settings) : Settings :=
  let set? (name : String) := host.envVar? ("AJINJA_" ++ name)
  { debug := ((set? "DEBUG").map readFlag).getD s.debug
    logLevel := (set? "LOG_LEVEL").getD s.logLevel
    cacheTemplates := ((set? "CACHE_TEMPLATES").map readFlag).getD s.cacheTemplates
    maxRenderDepth :=
      ((set? "MAX_RENDER_DEPTH").map (overrideDepth s.maxRenderDepth)).getD s.maxRenderDepth
    strictUndefined := ((set? "STRICT_UNDEFINED").map readFlag).getD s.strictUndefined
    globals := s.globals }

def ofVariables (host : Host) : Settings := override host {}

/-- The settings of a file, overridden by environment variables. -/
def ofFileAndVariables (host : Host) (format : Format) (path : String) : Result Settings :=
  (ofFile host format path).map (override host)

end Settings

end Stencil

import Stencil.Cache
import Stencil.Settings.Basic
import Stencil.Template.Render

/-! Engines: registries, names known everywhere and settings, with a cache of templates. -/
namespace Stencil

structure Engine where
  filters : Filters
  functions : Functions
  globals : Entries Value
  settings : Settings
  /-- Absent if the settings turn it off. -/
  cache : Option Cache

namespace Engine

/-- An engine with these filters and functions, and an empty cache if the settings ask for one. -/
def ofRegistries (filters : Filters) (functions : Functions) (settings : Settings) : Engine where
  filters := filters
  functions := functions
  globals := Json.valueEntries settings.globals
  settings := settings
  cache := if settings.cacheTemplates then some Cache.empty else none

/-- An engine with the filters and functions that are built in. -/
def ofSettings (settings : Settings) : Engine :=
  ofRegistries Filters.builtin Functions.builtin settings

def new : Engine := ofSettings {}

/-- An engine without filters and functions. -/
def empty : Engine := ofRegistries Filters.empty Functions.empty {}

def withFilter (e : Engine) (f : Filter) : Engine := { e with filters := Filters.register e.filters f }

def withFunction (e : Engine) (name : String) (routine : Routine) : Engine :=
  { e with functions := e.functions.register name routine }

def withMethod (e : Engine) (type name : String) (routine : Routine) : Engine :=
  { e with functions := e.functions.registerMethod type name routine }

def withGlobal (e : Engine) (name : String) (v : Value) : Engine :=
  { e with globals := e.globals.insert name v }

def clearCache (e : Engine) : Engine := { e with cache := e.cache.map fun _ => Cache.empty }

/-- The pieces of a template, from the cache if there is one. -/
def parse (e : Engine) (template : String) : List Node × Engine :=
  match e.cache with
  | none => (Node.ofTemplate template, e)
  | some c =>
    let (nodes, c') := c.getOrParse template
    (nodes, { e with cache := some c' })

def rules (e : Engine) : Rules := ⟨e.settings.maxRenderDepth, e.settings.strictUndefined⟩

/-- What names mean in a scope: the globals lie under it. -/
def env (e : Engine) (host : Host) (scope : Scope) : Env :=
  ⟨host, e.functions, e.filters, scope.withFallback e.globals⟩

/-- The text of nodes, where loops go through maps in the given orders. -/
def renderNodes (e : Engine) (host : Host) (order : MapOrder) (scope : Scope) (nodes : List Node) :
    Result String :=
  Render.nodes e.rules order (e.env host scope) 0 nodes

/-- The text of a template, and the engine with the template in its cache. -/
def render (e : Engine) (host : Host) (order : MapOrder) (scope : Scope) (template : String) :
    Result String × Engine :=
  let (nodes, e') := e.parse template
  (e.renderNodes host order scope nodes, e')

/-- The value of a bare expression with its filters, which has to be defined. -/
def evaluate (e : Engine) (host : Host) (scope : Scope) (expr : String) : Result Value := do
  let p ← Pipeline.parse expr
  (e.env host scope).evalStrict ⟨0, []⟩ p

end Engine

end Stencil

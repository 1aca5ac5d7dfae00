import Mathlib.Data.List.Dedup
import Stencil.Engine

/-! Engines in use: with and without a cache of templates, they answer the same requests alike, as long as their
loops go through maps in the same orders. -/
namespace Stencil

/-- What can be asked of an engine. Host and scope are those at the time of the request. -/
inductive Request where
  | withFilter (f : Filter)
  | withFunction (name : String) (routine : Routine)
  | withMethod (type name : String) (routine : Routine)
  | withGlobal (name : String) (v : Value)
  | parse (template : String)
  | render (host : Host) (scope : Scope) (template : String)
  | renderNodes (host : Host) (scope : Scope) (nodes : List Node)
  | evaluate (host : Host) (scope : Scope) (source : String)
  | clearCache

inductive Answer where
  | done
  | nodes (ns : List Node)
  | text (result : Result String)
  | value (result : Result Value)

namespace Engine

/-- The answer to a request, and the engine after it. Renderings go through maps in the given orders. -/
def serve (e : Engine) (order : MapOrder) : Request → Answer × Engine
  | .withFilter f => (.done, e.withFilter f)
  | .withFunction name routine => (.done, e.withFunction name routine)
  | .withMethod type name routine => (.done, e.withMethod type name routine)
  | .withGlobal name v => (.done, e.withGlobal name v)
  | .parse template => (.nodes (e.parse template).1, (e.parse template).2)
  | .render host scope template =>
    (.text (e.render host order scope template).1, (e.render host order scope template).2)
  | .renderNodes host scope nodes => (.text (e.renderNodes host order scope nodes), e)
  | .evaluate host scope source => (.value (e.evaluate host scope source), e)
  | .clearCache => (.done, e.clearCache)

/-- The answers to requests one after the other, and the engine after the last. The orders in which a rendering
goes through maps are those under the number of its request. -/
def serveAll (e : Engine) (orders : Nat → MapOrder) : List Request → List Answer × Engine
  | [] => ([], e)
  | r :: rs =>
    let (answer, e') := e.serve (orders 0) r
    let (answers, last) := serveAll e' (fun step => orders (step + 1)) rs
    (answer :: answers, last)

end Engine

/-- The templates that a request cuts or has cut before it, where clearing begins anew. -/
def Request.templates (seen : List String) : Request → List String
  | .parse template | .render _ _ template => template :: seen
  | .clearCache => []
  | _ => seen

/-- The templates in requests since the last one that clears, the latest first. -/
def templatesSince (rs : List Request) : List String := rs.foldl Request.templates []

namespace Cache

/-- The cache holds the pieces of the templates seen. -/
structure Holds (c : Cache) (seen : List String) : Prop where
  pieces : ∀ template nodes, Entries.get? template c = some nodes → nodes = Node.ofTemplate template
  mem_names : ∀ template, template ∈ c.names ↔ template ∈ seen

variable {c : Cache} {seen : List String}

theorem holds_empty : Holds empty [] where
  pieces _ _ h := by cases h
  mem_names _ := Iff.rfl

theorem Holds.length_eq (h : c.Holds seen) : c.length = seen.dedup.length := by
  have hperm : c.names.Perm seen.dedup := by
    refine (List.perm_ext_iff_of_nodup c.distinct seen.nodup_dedup).2 fun template => ?_
    rw [List.mem_dedup, h.mem_names]
  exact hperm.length_eq

theorem Holds.insert (h : c.Holds seen) (template : String) :
    Holds (Entries.insert template (Node.ofTemplate template) c) (template :: seen) where
  pieces other nodes hget := by
    rw [Entries.get?_insert] at hget
    split at hget
    · next heq => rw [← Option.some.inj hget, heq]
    · exact h.pieces other nodes hget
  mem_names other := by
    rw [List.mem_cons, ← h.mem_names]
    exact Entries.mem_namesWith

theorem Holds.seen_again (h : c.Holds seen) {template : String} (hmem : template ∈ seen) :
    c.Holds (template :: seen) where
  pieces := h.pieces
  mem_names other := by
    rw [h.mem_names, List.mem_cons]
    constructor
    · exact .inr
    · rintro (rfl | hother)
      · exact hmem
      · exact hother

/-- The cache gives the pieces of a template and holds them from then on. -/
theorem Holds.getOrParse (h : c.Holds seen) (template : String) :
    (c.getOrParse template).1 = Node.ofTemplate template ∧
      (c.getOrParse template).2.Holds (template :: seen) := by
  rw [Cache.getOrParse]
  split
  · next nodes hget =>
    have hmem := (h.mem_names template).1 (Entries.mem_of_get? hget)
    exact ⟨h.pieces template nodes hget, h.seen_again hmem⟩
  · exact ⟨rfl, h.insert template⟩

end Cache

namespace Engine

/-- An engine with a cache of the templates seen and one without a cache that are alike otherwise. -/
structure Alike (seen : List String) (cached plain : Engine) : Prop where
  filters : cached.filters = plain.filters
  functions : cached.functions = plain.functions
  globals : cached.globals = plain.globals
  rules : cached.rules = plain.rules
  holds : ∃ c, cached.cache = some c ∧ c.Holds seen
  uncached : plain.cache = none

variable {seen : List String} {cached plain : Engine}

theorem alike_ofRegistries (filters : Filters) (functions : Functions) (settings : Settings) :
    Alike [] (ofRegistries filters functions { settings with cacheTemplates := true })
      (ofRegistries filters functions { settings with cacheTemplates := false }) where
  filters := rfl
  functions := rfl
  globals := rfl
  rules := rfl
  holds := ⟨Cache.empty, rfl, Cache.holds_empty⟩
  uncached := rfl

section
variable (h : Alike seen cached plain)
include h

theorem Alike.env (host : Host) (scope : Scope) : cached.env host scope = plain.env host scope := by
  rw [Engine.env, Engine.env, h.filters, h.functions, h.globals]

theorem Alike.renderNodes (host : Host) (order : MapOrder) (scope : Scope) (nodes : List Node) :
    cached.renderNodes host order scope nodes = plain.renderNodes host order scope nodes := by
  rw [Engine.renderNodes, Engine.renderNodes, h.rules, h.env]

theorem Alike.parse (template : String) : (cached.parse template).1 = (plain.parse template).1 ∧
    Alike (template :: seen) (cached.parse template).2 (plain.parse template).2 := by
  obtain ⟨c, hc, hholds⟩ := h.holds
  obtain ⟨hnodes, hnext⟩ := hholds.getOrParse template
  have hplain : plain.parse template = (Node.ofTemplate template, plain) := by
    rw [Engine.parse, h.uncached]
  have hcached : cached.parse template =
      ((c.getOrParse template).1, { cached with cache := some (c.getOrParse template).2 }) := by
    rw [Engine.parse, hc]
  rw [hplain, hcached]
  exact ⟨hnodes, ⟨h.filters, h.functions, h.globals, h.rules, ⟨_, rfl, hnext⟩, h.uncached⟩⟩

/-- One request is answered alike, and leaves the engines alike. -/
theorem Alike.serve (order : MapOrder) (r : Request) :
    (cached.serve order r).1 = (plain.serve order r).1 ∧
      Alike (r.templates seen) (cached.serve order r).2 (plain.serve order r).2 := by
  cases r with
  | withFilter f =>
    refine ⟨rfl, ⟨?_, h.functions, h.globals, h.rules, h.holds, h.uncached⟩⟩
    exact congrArg (Filters.register · f) h.filters
  | withFunction name routine =>
    refine ⟨rfl, ⟨h.filters, ?_, h.globals, h.rules, h.holds, h.uncached⟩⟩
    exact congrArg (Functions.register · name routine) h.functions
  | withMethod type name routine =>
    refine ⟨rfl, ⟨h.filters, ?_, h.globals, h.rules, h.holds, h.uncached⟩⟩
    exact congrArg (Functions.registerMethod · type name routine) h.functions
  | withGlobal name v =>
    refine ⟨rfl, ⟨h.filters, h.functions, ?_, h.rules, h.holds, h.uncached⟩⟩
    exact congrArg (Entries.insert name v) h.globals
  | parse template =>
    obtain ⟨hnodes, hnext⟩ := h.parse template
    exact ⟨congrArg Answer.nodes hnodes, hnext⟩
  | render host scope template =>
    obtain ⟨hnodes, hnext⟩ := h.parse template
    refine ⟨congrArg Answer.text ?_, hnext⟩
    show cached.renderNodes host order scope (cached.parse template).1 =
      plain.renderNodes host order scope (plain.parse template).1
    rw [hnodes, h.renderNodes]
  | renderNodes host scope nodes => exact ⟨congrArg Answer.text (h.renderNodes host order scope nodes), h⟩
  | evaluate host scope source =>
    refine ⟨congrArg Answer.value ?_, h⟩
    rw [Engine.evaluate, Engine.evaluate, h.env]
  | clearCache =>
    obtain ⟨c, hc, -⟩ := h.holds
    refine ⟨rfl, ⟨h.filters, h.functions, h.globals, h.rules, ⟨Cache.empty, ?_, Cache.holds_empty⟩, ?_⟩⟩
    · exact congrArg (Option.map fun _ => Cache.empty) hc
    · exact congrArg (Option.map fun _ => Cache.empty) h.uncached

end

theorem Alike.serveAll (h : Alike seen cached plain) (orders : Nat → MapOrder) (rs : List Request) :
    (cached.serveAll orders rs).1 = (plain.serveAll orders rs).1 ∧
      Alike (rs.foldl Request.templates seen) (cached.serveAll orders rs).2 (plain.serveAll orders rs).2 := by
  induction rs generalizing seen cached plain orders with
  | nil => exact ⟨rfl, h⟩
  | cons r rs ih =>
    obtain ⟨hanswer, hnext⟩ := h.serve (orders 0) r
    obtain ⟨hanswers, hlast⟩ := ih hnext fun step => orders (step + 1)
    exact ⟨congrArg₂ List.cons hanswer hanswers, hlast⟩

theorem Alike.parse_eq (h : Alike seen cached plain) (template : String) :
    (cached.parse template).1 = Node.ofTemplate template ∧
      (plain.parse template).1 = Node.ofTemplate template := by
  have hplain : (plain.parse template).1 = Node.ofTemplate template := by
    rw [Engine.parse, h.uncached]
  exact ⟨(h.parse template).1.trans hplain, hplain⟩

/-- An engine that has served requests cuts templates as a new one does. -/
theorem parse_serveAll (filters : Filters) (functions : Functions) (settings : Settings)
    (orders : Nat → MapOrder) (rs : List Request) (template : String) :
    (((ofRegistries filters functions settings).serveAll orders rs).2.parse template).1 =
      Node.ofTemplate template := by
  obtain ⟨hcached, hplain⟩ :=
    ((alike_ofRegistries filters functions settings).serveAll orders rs).2.parse_eq template
  cases hcache : settings.cacheTemplates with
  | true =>
    rw [← hcache] at hcached
    exact hcached
  | false =>
    rw [← hcache] at hplain
    exact hplain

theorem settings_serve (e : Engine) (order : MapOrder) (r : Request) :
    (e.serve order r).2.settings = e.settings := by
  have hparse (template : String) : (e.parse template).2.settings = e.settings := by
    unfold Engine.parse
    split <;> rfl
  cases r with
  | parse template => exact hparse template
  | render host scope template => exact hparse template
  | withFilter | withFunction | withMethod | withGlobal | renderNodes | evaluate | clearCache => rfl

theorem settings_serveAll (e : Engine) (orders : Nat → MapOrder) (rs : List Request) :
    (e.serveAll orders rs).2.settings = e.settings := by
  induction rs generalizing e orders with
  | nil => rfl
  | cons r rs ih => exact (ih _ _).trans (settings_serve e (orders 0) r)

/-- Whatever is asked of them, an engine with a cache and one without give the same answers, as long as loops go
through maps in the same orders at every request; and the cache holds the pieces of exactly the templates used
since it was cleared. -/
theorem serveAll_cached (filters : Filters) (functions : Functions) (settings : Settings)
    (rs : List Request) {orders orders' : Nat → MapOrder}
    (hshared : ∀ step place, orders step place = orders' step place) :
    let cached := ofRegistries filters functions { settings with cacheTemplates := true }
    let plain := ofRegistries filters functions { settings with cacheTemplates := false }
    (cached.serveAll orders rs).1 = (plain.serveAll orders' rs).1 ∧
      ∃ c, (cached.serveAll orders rs).2.cache = some c ∧
        (∀ template nodes, Entries.get? template c = some nodes → nodes = Node.ofTemplate template) ∧
        c.length = (templatesSince rs).dedup.length := by
  obtain rfl : orders = orders' := funext fun step => funext (hshared step)
  obtain ⟨hanswers, hlast⟩ := (alike_ofRegistries filters functions settings).serveAll orders rs
  obtain ⟨c, hc, hholds⟩ := hlast.holds
  exact ⟨hanswers, c, hc, hholds.pieces, hholds.length_eq⟩

/-- A loop over a global map, rendered twice, the second time from the last entry to the first. -/
theorem serveAll_cached_reversed :
    let orders (step : Nat) : MapOrder :=
      if step = 2 then fun _ => ⟨List.reverse, List.reverse_perm⟩ else fun _ => .stored
    let loop := "\x7b% for k, v in m %\x7d\x7b\x7b k \x7d\x7d\x7b% endfor %\x7d"
    let rs : List Request := [.withGlobal "m" (.map (.ofList [("a", .int 1), ("b", .int 2)])),
      .render .bare .empty loop, .render .bare .empty loop, .parse "x"]
    let cached := (ofSettings { cacheTemplates := true }).serveAll orders rs
    let plain := (ofSettings { cacheTemplates := false }).serveAll orders rs
    cached.1 = plain.1 ∧ ∃ c, cached.2.cache = some c ∧ c.length = 2 := by
  intro orders loop rs cached plain
  have hshared (step : Nat) (place : List Nat) : orders step place = orders step place := rfl
  obtain ⟨hanswers, c, hc, -, hlength⟩ := serveAll_cached .builtin .builtin {} rs hshared
  exact ⟨hanswers, c, hc, hlength.trans (by decide +kernel)⟩

end Engine

end Stencil

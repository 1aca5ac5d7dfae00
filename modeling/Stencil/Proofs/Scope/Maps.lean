import Mathlib.Data.Finmap
import Stencil.Proofs.Entries
import Stencil.Proofs.Expr.Names
import Stencil.Proofs.Scope.Sharing

/-! Contexts as finite maps. Whatever a host does with its contexts, they give the values that finite maps
would give, and an action changes one of them only. -/
namespace Stencil

/-- The operations on contexts of some kind. -/
structure ContextOps (α : Type) where
  empty : α
  ofEntries : Entries Value → α
  insert : α → String → Value → α
  child : α → Entries Value → α
  withFallback : α → Entries Value → α

/-- Contexts by name, each a value of its own, and the bases that a host keeps. -/
structure Named (α : Type) where
  contexts : String → α
  bases : String → Entries Value

def Named.set {α : Type} (n : Named α) (ctx : String) (c : α) : Named α :=
  { n with contexts := Function.update n.contexts ctx c }

theorem Named.contexts_set_self {α : Type} (n : Named α) (ctx : String) (c : α) :
    (n.set ctx c).contexts ctx = c := Function.update_self ..

theorem Named.contexts_set_of_ne {α : Type} (n : Named α) {ctx other : String} (h : other ≠ ctx) (c : α) :
    (n.set ctx c).contexts other = n.contexts other := Function.update_of_ne h ..

namespace ContextOps

variable {α β : Type}

def step (k : ContextOps α) (n : Named α) : ContextAction → Named α
  | .empty ctx => n.set ctx k.empty
  | .new ctx bindings => n.set ctx (k.ofEntries bindings)
  | .insert ctx name v => n.set ctx (k.insert (n.contexts ctx) name v)
  | .child dest ctx bindings => n.set dest (k.child (n.contexts ctx) bindings)
  | .withFallback dest ctx bindings => n.set dest (k.withFallback (n.contexts ctx) bindings)
  | .keep base bindings => { n with bases := Function.update n.bases base bindings }
  | .withBase dest ctx base => n.set dest (k.withFallback (n.contexts ctx) (n.bases base))
  | .clone dest ctx => n.set dest (n.contexts ctx)

/-- What actions one after the other make of empty contexts. -/
def run (k : ContextOps α) (actions : List ContextAction) : Named α :=
  actions.foldl k.step ⟨fun _ => k.empty, fun _ => .empty⟩

/-- Scopes, each with frames of its own. -/
def scopes : ContextOps Scope where
  empty := Scope.empty
  ofEntries := Scope.ofEntries
  insert := Scope.insert
  child := Scope.child
  withFallback := Scope.withFallback

/-- The finite map of bindings. -/
def mapOf (bindings : Entries Value) : Finmap fun _ : String => Value :=
  (bindings.toList.map Prod.toSigma).toFinmap

/-- Finite maps: bindings laid over a map count before it, and bindings laid under it behind it. -/
def maps : ContextOps (Finmap fun _ : String => Value) where
  empty := ∅
  ofEntries := mapOf
  insert m name v := m.insert name v
  child m bindings := mapOf bindings ∪ m
  withFallback m bindings := m ∪ mapOf bindings

/-- A relation between contexts of two kinds that all operations keep. -/
structure Simulates (k : ContextOps α) (k' : ContextOps β) (r : α → β → Prop) : Prop where
  empty : r k.empty k'.empty
  ofEntries : ∀ bindings, r (k.ofEntries bindings) (k'.ofEntries bindings)
  insert : ∀ a b, r a b → ∀ name v, r (k.insert a name v) (k'.insert b name v)
  child : ∀ a b, r a b → ∀ bindings, r (k.child a bindings) (k'.child b bindings)
  withFallback : ∀ a b, r a b → ∀ bindings, r (k.withFallback a bindings) (k'.withFallback b bindings)

/-- Contexts of two kinds that are related name by name, over the same bases. -/
structure Related (r : α → β → Prop) (n : Named α) (n' : Named β) : Prop where
  contexts : ∀ ctx, r (n.contexts ctx) (n'.contexts ctx)
  bases : n.bases = n'.bases

section
variable {k : ContextOps α} {k' : ContextOps β} {r : α → β → Prop} {n : Named α} {n' : Named β}

theorem Related.set (h : Related r n n') {a : α} {b : β} (hab : r a b) (ctx : String) :
    Related r (n.set ctx a) (n'.set ctx b) where
  contexts c := by
    by_cases hc : c = ctx
    · subst hc
      rwa [Named.contexts_set_self, Named.contexts_set_self]
    · rw [Named.contexts_set_of_ne _ hc, Named.contexts_set_of_ne _ hc]
      exact h.contexts c
  bases := h.bases

theorem Simulates.step (hk : Simulates k k' r) (h : Related r n n') (action : ContextAction) :
    Related r (k.step n action) (k'.step n' action) := by
  cases action with
  | empty ctx => exact h.set hk.empty ctx
  | new ctx bindings => exact h.set (hk.ofEntries bindings) ctx
  | insert ctx name v => exact h.set (hk.insert _ _ (h.contexts ctx) name v) ctx
  | child dest ctx bindings => exact h.set (hk.child _ _ (h.contexts ctx) bindings) dest
  | withFallback dest ctx bindings => exact h.set (hk.withFallback _ _ (h.contexts ctx) bindings) dest
  | keep base bindings => exact ⟨h.contexts, by simp only [ContextOps.step, h.bases]⟩
  | withBase dest ctx base =>
    have hwith := hk.withFallback _ _ (h.contexts ctx) (n.bases base)
    rw [h.bases] at hwith
    simp only [ContextOps.step, h.bases]
    exact h.set hwith dest
  | clone dest ctx => exact h.set (h.contexts ctx) dest

theorem Simulates.run (hk : Simulates k k' r) (actions : List ContextAction) :
    Related r (k.run actions) (k'.run actions) := by
  have hall : ∀ n n', Related r n n' → Related r (actions.foldl k.step n) (actions.foldl k'.step n') := by
    induction actions with
    | nil => exact fun _ _ h => h
    | cons action actions ih => exact fun n n' h => ih _ _ (hk.step h action)
  exact hall _ _ ⟨fun _ => hk.empty, rfl⟩

end

theorem lookup_mapOf (bindings : Entries Value) (name : String) :
    (mapOf bindings).lookup name = Entries.get? name bindings := by
  have hkeys : (bindings.toList.map Prod.toSigma).keys = bindings.names := by
    rw [List.keys, List.map_map, Prod.fst_comp_toSigma, Entries.fst_toList]
  have hdistinct : (bindings.toList.map Prod.toSigma).NodupKeys := by
    rw [List.NodupKeys, hkeys]
    exact bindings.distinct
  ext v
  rw [mapOf, Finmap.dlookup_list_toFinmap, ← Option.mem_def, List.mem_dlookup_iff hdistinct,
    ← Entries.mem_toList, ← Prod.toSigma_mk, List.mem_map_of_injective Prod.toSigma_injective]

theorem lookup_union (m m' : Finmap fun _ : String => Value) (name : String) :
    (m ∪ m').lookup name = (m.lookup name).or (m'.lookup name) := by
  by_cases hname : name ∈ m
  · obtain ⟨v, hv⟩ := Finmap.mem_iff.1 hname
    rw [Finmap.lookup_union_left hname, hv]
    rfl
  · rw [Finmap.lookup_union_right hname, Finmap.lookup_eq_none.2 hname]
    rfl

end ContextOps

theorem Scope.get?_insert (s : Scope) (name other : String) (v : Value) :
    (s.insert name v).get? other = if other = name then some v else s.get? other := by
  obtain ⟨frames⟩ := s
  by_cases hname : other = name
  · subst hname
    rw [if_pos rfl]
    cases frames <;> simp only [insert, get?, List.findSome?_cons, Entries.get?_insert_self]
  · rw [if_neg hname]
    cases frames <;> simp only [insert, get?, List.findSome?_cons, Entries.get?_insert_of_ne hname]
    rfl

/-- A scope gives the same values as a finite map. -/
def Scope.Gives (s : Scope) (m : Finmap fun _ : String => Value) : Prop :=
  ∀ name, s.get? name = m.lookup name

open ContextOps in
theorem Scope.simulates_maps : Simulates scopes maps Scope.Gives where
  empty name := by
    show Scope.empty.get? name = (∅ : Finmap fun _ : String => Value).lookup name
    rw [Finmap.lookup_empty, Scope.get?, Scope.empty, List.findSome?_nil]
  ofEntries bindings name := by
    show (Scope.ofEntries bindings).get? name = (mapOf bindings).lookup name
    rw [lookup_mapOf, Scope.get?, Scope.ofEntries, List.findSome?_cons, List.findSome?_nil]
    cases Entries.get? name bindings <;> rfl
  insert s m h name v other := by
    show (s.insert name v).get? other = (m.insert name v).lookup other
    rw [Scope.get?_insert]
    split
    · next heq => rw [heq, Finmap.lookup_insert]
    · next hne => rw [Finmap.lookup_insert_of_ne _ hne, h other]
  child s m h bindings name := by
    show (s.child bindings).get? name = (mapOf bindings ∪ m).lookup name
    rw [Scope.get?_child, lookup_union, lookup_mapOf, h name]
  withFallback s m h bindings name := by
    show (s.withFallback bindings).get? name = (m ∪ mapOf bindings).lookup name
    rw [Scope.get?_withFallback, lookup_union, lookup_mapOf, h name]

namespace Contexts

/-- Contexts with shared frames show the frames of scopes that share nothing. -/
structure Shows (s : Contexts) (n : Named Scope) : Prop where
  sound : s.Sound
  contexts : ∀ ctx, s.view (.context ctx) = (n.contexts ctx).frames
  bases : ∀ base, s.view (.base base) = [n.bases base] ∨ s.view (.base base) = [] ∧ n.bases base = .empty

variable {s s' : Contexts} {n : Named Scope}

theorem shows_start : start.Shows ⟨fun _ => Scope.empty, fun _ => .empty⟩ where
  sound := sound_start
  contexts _ := rfl
  bases _ := .inr ⟨rfl, rfl⟩

theorem Shows.set (h : s.Shows n) {dest : String} {c : Scope} (hsets : Sets s s' (.context dest) c.frames) :
    s'.Shows (n.set dest c) where
  sound := hsets.sound
  contexts ctx := by
    by_cases hctx : ctx = dest
    · subst hctx
      rw [Named.contexts_set_self, hsets.self]
    · have hne : Holder.context ctx ≠ .context dest := fun heq => hctx (Holder.context.inj heq)
      rw [hsets.others _ hne, Named.contexts_set_of_ne _ hctx, h.contexts ctx]
  bases base := by
    rw [hsets.others _ (by simp)]
    exact h.bases base

theorem Shows.keep (h : s.Shows n) {base : String} {bindings : Entries Value}
    (hsets : Sets s s' (.base base) [bindings]) :
    s'.Shows { n with bases := Function.update n.bases base bindings } where
  sound := hsets.sound
  contexts ctx := by
    rw [hsets.others _ (by simp)]
    exact h.contexts ctx
  bases other := by
    by_cases hother : other = base
    · subst hother
      left
      simpa using hsets.self
    · have hne : Holder.base other ≠ .base base := fun heq => hother (Holder.base.inj heq)
      rw [hsets.others _ hne]
      simpa [hother] using h.bases other

theorem Shows.insert (h : s.Shows n) (ctx name : String) (v : Value) :
    (s.insert ctx name v).Shows (n.set ctx ((n.contexts ctx).insert name v)) := by
  have hview := h.contexts ctx
  apply h.set
  obtain ⟨frames, hframes⟩ : ∃ frames, (n.contexts ctx).frames = frames := ⟨_, rfl⟩
  rw [hframes] at hview
  rw [Scope.insert, hframes, Contexts.insert]
  cases frames with
  | nil =>
    have hheld : s.held (.context ctx) = [] := List.map_eq_nil_iff.1 hview
    have hcreate : Sets s (s.create (.context ctx) .empty) (.context ctx) [.empty] :=
      h.sound.sets_create
    rw [hheld]
    exact hcreate.trans (hcreate.sound.sets_modify hcreate.self)
  | cons f fs =>
    have hheld : (s.held (.context ctx)).isEmpty = false := by
      rw [view] at hview
      cases hs : s.held (.context ctx) with
      | nil => simp [hs] at hview
      | cons a as => rfl
    rw [hheld]
    exact h.sound.sets_modify hview

theorem Shows.clone (h : s.Shows n) (dest ctx : String) :
    (s.clone dest ctx).Shows (n.set dest (n.contexts ctx)) := by
  apply h.set
  rw [← h.contexts ctx]
  exact h.sound.sets_copy

theorem Shows.child (h : s.Shows n) (dest ctx : String) (bindings : Entries Value) :
    (s.child dest ctx bindings).Shows (n.set dest ((n.contexts ctx).child bindings)) := by
  apply h.set
  rw [Scope.child, ← h.contexts ctx]
  exact h.sound.sets_over

theorem Shows.withFallback (h : s.Shows n) (dest ctx : String) (bindings : Entries Value) :
    (s.withFallback dest ctx bindings).Shows
      (n.set dest ((n.contexts ctx).withFallback bindings)) := by
  rw [Contexts.withFallback, Scope.withFallback]
  by_cases hempty : bindings.isEmpty = true
  · rw [if_pos hempty, if_pos hempty]
    exact h.clone dest ctx
  · rw [if_neg hempty, if_neg hempty]
    apply h.set
    rw [← h.contexts ctx]
    exact h.sound.sets_under

theorem Shows.withBase (h : s.Shows n) (dest ctx base : String) :
    (s.withBase dest ctx base).Shows
      (n.set dest ((n.contexts ctx).withFallback (n.bases base))) := by
  have hall : ((s.held (.base base)).all fun b => (s.frames.bindings b).isEmpty) =
      (n.bases base).isEmpty := by
    have hmap : ((s.held (.base base)).all fun b => (s.frames.bindings b).isEmpty) =
        (s.view (.base base)).all Entries.isEmpty := by
      rw [view, List.all_map]
      rfl
    rw [hmap]
    rcases h.bases base with hone | ⟨hnone, hempty⟩
    · rw [hone, List.all_cons, List.all_nil, Bool.and_true]
    · rw [hnone, hempty]
      rfl
  rw [Contexts.withBase, Scope.withFallback, hall]
  by_cases hempty : (n.bases base).isEmpty = true
  · rw [if_pos hempty, if_pos hempty]
    exact h.clone dest ctx
  · rw [if_neg hempty, if_neg hempty]
    apply h.set
    rcases h.bases base with hone | ⟨-, hnil⟩
    · rw [← h.contexts ctx, ← hone]
      exact h.sound.sets_both
    · rw [hnil] at hempty
      exact absurd rfl hempty

theorem Shows.step (h : s.Shows n) (action : ContextAction) :
    (s.step action).Shows (ContextOps.scopes.step n action) := by
  cases action with
  | empty ctx => exact h.set (h.sound.sets_assign extends_refl)
  | new ctx bindings => exact h.set h.sound.sets_create
  | insert ctx name v => exact h.insert ctx name v
  | child dest ctx bindings => exact h.child dest ctx bindings
  | withFallback dest ctx bindings => exact h.withFallback dest ctx bindings
  | keep base bindings => exact h.keep h.sound.sets_create
  | withBase dest ctx base => exact h.withBase dest ctx base
  | clone dest ctx => exact h.clone dest ctx

theorem shows_run (actions : List ContextAction) : (run actions).Shows (ContextOps.scopes.run actions) := by
  have hall : ∀ s n, s.Shows n →
      (actions.foldl step s).Shows (actions.foldl ContextOps.scopes.step n) := by
    induction actions with
    | nil => exact fun _ _ h => h
    | cons action actions ih => exact fun s n h => ih _ _ (h.step action)
  exact hall _ _ shows_start

theorem Shows.get?_eq (h : s.Shows n) (ctx name : String) :
    s.get? ctx name = (n.contexts ctx).get? name := by
  rw [Scope.get?, ← h.contexts ctx, view, List.findSome?_map]
  rfl

theorem contexts_step_of_ne (n : Named Scope) {action : ContextAction} {ctx : String}
    (hne : action.target ≠ .context ctx) :
    (ContextOps.scopes.step n action).contexts ctx = n.contexts ctx := by
  have hset : ∀ other c, Holder.context other ≠ .context ctx → (n.set other c).contexts ctx = n.contexts ctx := by
    intro other c hother
    have hctx : ctx ≠ other := by
      rintro rfl
      exact hother rfl
    exact n.contexts_set_of_ne hctx c
  cases action with
  | keep base bindings => rfl
  | _ => exact hset _ _ hne

/-- Contexts are finite maps. Whatever a host does, each context shows the frames that it would have if none
were shared, and gives to every name the value that a finite map would give. A name that is inserted stands for
the new value, and no action changes what a name stands for in a context that it does not set. -/
theorem lookup_run (actions : List ContextAction) :
    (∀ ctx, (run actions).view (.context ctx) = ((ContextOps.scopes.run actions).contexts ctx).frames) ∧
    (∀ ctx name, (run actions).get? ctx name = ((ContextOps.maps.run actions).contexts ctx).lookup name) ∧
    (∀ ctx name v, ((run actions).step (.insert ctx name v)).get? ctx name = some v) ∧
    ∀ action ctx, action.target ≠ .context ctx →
      ∀ name, ((run actions).step action).get? ctx name = (run actions).get? ctx name := by
  have hshows := shows_run actions
  refine ⟨hshows.contexts, ?_, ?_, ?_⟩
  · intro ctx name
    rw [hshows.get?_eq]
    exact (Scope.simulates_maps.run actions).contexts ctx name
  · intro ctx name v
    rw [(hshows.step _).get?_eq]
    rw [ContextOps.step, Named.contexts_set_self]
    exact (Scope.get?_insert ..).trans (if_pos rfl)
  · intro action ctx hne name
    rw [(hshows.step action).get?_eq, hshows.get?_eq, contexts_step_of_ne _ hne]

/-- Two contexts over one base, of which one binds a name of the base anew. -/
theorem lookup_run_sharedBase :
    let s := run [.keep "site" (.ofList [("region", .string "eu")]), .withBase "a" "none" "site",
      .withBase "b" "none" "site"]
    let action := ContextAction.insert "a" "region" (.string "us")
    action.target ≠ .context "b" ∧ (s.step action).get? "a" "region" = some (.string "us") ∧
      (s.step action).get? "b" "region" = some (.string "eu") := by
  intro s action
  obtain ⟨-, -, hinsert, hothers⟩ := lookup_run [.keep "site" (.ofList [("region", .string "eu")]),
    .withBase "a" "none" "site", .withBase "b" "none" "site"]
  have hne : action.target ≠ .context "b" := by decide
  exact ⟨hne, hinsert "a" "region" _, (hothers action "b" hne "region").trans rfl⟩

end Contexts

end Stencil

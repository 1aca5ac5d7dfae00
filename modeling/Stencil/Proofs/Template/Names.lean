import Stencil.Engine
import Stencil.Proofs.Expr.Names
import Stencil.Proofs.Template.Coupling

/-! The names that occur in templates. A rendering depends on the scope through them only. -/
namespace Stencil

open Block

/-- The names in what a node asks for: in an expression, a condition or the collection of a loop. -/
def Node.names : Node → List String
  | .expression source => Pipeline.sourceNames source
  | .tag t =>
    match t.directive with
    | .ifTag condition | .elifTag condition => Pipeline.sourceNames condition
    | .forTag clause =>
      match LoopClause.parse clause with
      | .ok c => Pipeline.sourceNames c.collection
      | .error _ => []
    | _ => []
  | _ => []

/-- The names in a sequence of nodes. -/
def Node.namesAll (ns : List Node) : List String := ns.flatMap names

namespace Block

/-- The branches of a conditional begin at its opener and at tags for further branches. -/
theorem kind_of_branch {ns : List Node} {start i : Nat} {c : Chain} (h : chainFrom ns start i = .ok c) :
    ∀ b ∈ c.branches, b.tag = i ∨ kindAt? ns b.tag = some .elifTag ∨ kindAt? ns b.tag = some .elseTag := by
  fun_induction chainFrom ns start i generalizing c with
  | case1 => cases h
  | case2 i stop =>
    obtain rfl := Except.ok.inj h
    intro b hb
    obtain rfl := List.mem_singleton.1 hb
    exact .inl rfl
  | case3 i stop _ _ hkind ih =>
    obtain ⟨c', hc, rfl⟩ := Result.map_eq_ok h
    intro b hb
    rcases List.mem_cons.1 hb with rfl | hb
    · exact .inl rfl
    · rcases ih hc b hb with heq | hlater
      · exact .inr (heq ▸ hkind)
      · exact .inr hlater
  | case4 => cases h

theorem directive_of_branch {ns : List Node} {i : Nat} {t : Tag} {condition : String} {c : Chain}
    {b : Branch} (ht : ns[i]? = some (.tag t)) (hd : t.directive = .ifTag condition)
    (hc : chain ns i = .ok c) (hb : b ∈ c.branches) : ∃ u : Tag, ns[b.tag]? = some (.tag u) ∧
      (u.directive = .elseTag ∨ u.directive = .ifTag u.expression ∨ u.directive = .elifTag u.expression) := by
  rcases kind_of_branch hc b hb with heq | hkind
  · refine ⟨t, heq ▸ ht, .inr (.inl ?_)⟩
    rw [Tag.expression, hd]
  · cases hn : ns[b.tag]? with
    | none => simp [kindAt?, hn] at hkind
    | some n =>
      cases n with
      | text | expression | comment => simp [kindAt?, hn, Node.kind?, Node.tag?] at hkind
      | tag u =>
        refine ⟨u, rfl, ?_⟩
        cases hu : u.directive <;>
          simp [kindAt?, hn, Node.kind?, Node.tag?, Tag.kind, Tag.expression, hu] at hkind ⊢

end Block

namespace Env

variable {env env' : Env} {ns : List Node} {depth : Nat}

theorem Alike.body (h : Alike (Node.namesAll ns) env env') (start stop : Nat) :
    Alike (Node.namesAll (body ns start stop)) env env' :=
  h.mono fun _ hname => by
    obtain ⟨n, hn, hname⟩ := List.mem_flatMap.1 hname
    exact List.mem_flatMap.2 ⟨n, body_subset ns start stop hn, hname⟩

theorem Alike.node {n : Node} (h : Alike (Node.namesAll ns) env env') (hn : n ∈ ns) :
    Alike n.names env env' := h.mono fun _ hname => List.mem_flatMap.2 ⟨n, hn, hname⟩

/-- An iteration hides the same names in both scopes. -/
theorem Alike.iterationEnv {names : List String} (h : Alike names env env') (i : Iteration)
    (bound : List (String × Value)) :
    Alike names (Render.iterationEnv env i bound) (Render.iterationEnv env' i bound) where
  host := h.host
  functions := h.functions
  filters := h.filters
  scope n hn := by
    rw [Render.iterationEnv, Render.iterationEnv, Scope.get?_child, Scope.get?_child, h.scope n hn]

theorem Alike.clauseValue {source : String} (h : Alike (Pipeline.sourceNames source) env env') :
    Render.clauseValue env depth source = Render.clauseValue env' depth source :=
  h.evalSource _ Outcome.value

theorem Alike.interpolate {rules : Rules} {source : String}
    (h : Alike (Pipeline.sourceNames source) env env') :
    Render.interpolate rules env depth source = Render.interpolate rules env' depth source :=
  h.evalSource _ _

theorem Alike.holds {i : Nat} {t : Tag} {condition : String} {c : Chain} {b : Branch}
    (h : Alike (Node.namesAll ns) env env') (ht : ns[i]? = some (.tag t))
    (hd : t.directive = .ifTag condition) (hc : chain ns i = .ok c) (hb : b ∈ c.branches) :
    Render.holds env depth ns b = Render.holds env' depth ns b := by
  obtain ⟨u, hu, hdirective⟩ := directive_of_branch ht hd hc hb
  have hnames := h.node (List.mem_of_getElem? hu)
  simp only [Render.holds, hu, Option.bind_some, Node.tag?]
  rcases hdirective with helse | hif | helif
  · rw [helse]
  · rw [Node.names, hif] at hnames
    rw [hif, Alike.clauseValue hnames]
  · rw [Node.names, helif] at hnames
    rw [helif, Alike.clauseValue hnames]

theorem Alike.iterations {t : Tag} {clause : String} (h : Alike (Node.names (.tag t)) env env')
    (hd : t.directive = .forTag clause) (a : Arrangement) :
    Render.iterations a env depth clause = Render.iterations a env' depth clause := by
  rw [Render.iterations, Render.iterations]
  cases hclause : LoopClause.parse clause with
  | error e => rfl
  | ok c =>
    simp only [Node.names, hd, hclause] at h
    simp only [bind, Except.bind, h.clauseValue]

end Env

namespace Render

/-- Environments in which the names of the nodes stand for the same. -/
theorem coupling_names (rules : Rules) : Coupling (fun _ => False) rules rules
    fun env env' _ ns _ => env.Alike (Node.namesAll ns) env' where
  entry _ := .refl _
  expression h hn := .of_eq (by rw [(h.node (List.mem_of_getElem? hn)).interpolate])
  conditional h ht hd hc b hb := ⟨h.holds ht hd hc hb, h.body b.tag b.stop⟩
  loop {_ _ _ _ i _ _ stop} h ht hd _ :=
    ⟨(h.node (List.mem_of_getElem? ht)).iterations hd, fun _ _ => (h.body i stop).iterationEnv _ _⟩
  next h _ := h

end Render

/-- In scopes where the names that occur stand for the same, however the scopes are layered, nodes render to
the same text or fail alike as long as loops go through maps in the same orders, and a source has the same value
or fails alike. -/
theorem Scope.congr_names (s s' : Scope) (rules : Rules) (host : Host) (functions : Functions)
    (filters : Filters) {order order' : MapOrder} (hshared : ∀ place, order place = order' place) :
    (∀ ns : List Node, (∀ n ∈ Node.namesAll ns, s.get? n = s'.get? n) →
      Render.nodes rules order ⟨host, functions, filters, s⟩ 0 ns =
        Render.nodes rules order' ⟨host, functions, filters, s'⟩ 0 ns) ∧
      ∀ (e : Engine) (source : String), (∀ n ∈ Pipeline.sourceNames source, s.get? n = s'.get? n) →
        e.evaluate host s source = e.evaluate host s' source := by
  obtain rfl : order = order' := funext hshared
  refine ⟨fun ns h => ?_, fun e source h => ?_⟩
  · have halike : Env.Alike (Node.namesAll ns) ⟨host, functions, filters, s⟩
        ⟨host, functions, filters, s'⟩ := ⟨rfl, rfl, rfl, h⟩
    exact ((Render.coupling_names rules).nodes halike).eq_of_never
  · have halike : Env.Alike (Pipeline.sourceNames source) (e.env host s) (e.env host s') := by
      refine ⟨rfl, rfl, rfl, fun n hn => ?_⟩
      rw [Engine.env, Engine.env, Scope.get?_withFallback, Scope.get?_withFallback, h n hn]
    exact halike.evalSource _ Outcome.value

/-- A map under a name that is hidden further out, gone through from its last entry to its first. -/
theorem Scope.congr_names_layered :
    let ns := Node.ofTemplate "\x7b% for k, v in x %\x7d\x7b\x7b k | default(v) \x7d\x7d\x7b% endfor %\x7d"
    let order : MapOrder := fun _ => ⟨List.reverse, List.reverse_perm⟩
    let x : Entries Value := .ofList [("x", .map (.ofList [("a", .int 1), ("b", .int 2)]))]
    let s : Scope := ⟨[x]⟩
    let s' : Scope := ⟨[.ofList [("y", .null)], x, .ofList [("x", .null)]]⟩
    Node.namesAll ns = ["x", "k", "v"] ∧
      (∀ rules : Rules, Render.nodes rules order ⟨.bare, .builtin, .builtin, s⟩ 0 ns =
        Render.nodes rules order ⟨.bare, .builtin, .builtin, s'⟩ 0 ns) ∧
      Engine.new.evaluate .bare s "x" = Engine.new.evaluate .bare s' "x" := by
  intro ns order x s s'
  have hshared (place : List Nat) : order place = order place := rfl
  have hnodes : Node.namesAll ns = ["x", "k", "v"] := by decide +kernel
  have hsource : Pipeline.sourceNames "x" = ["x"] := by decide +kernel
  have hx : s.get? "x" = s'.get? "x" := rfl
  have hk : s.get? "k" = s'.get? "k" := rfl
  have hv : s.get? "v" = s'.get? "v" := rfl
  refine ⟨hnodes, fun rules => ?_, ?_⟩
  · exact (Scope.congr_names s s' rules .bare .builtin .builtin hshared).1 ns (by simp [hnodes, hx, hk, hv])
  · exact (Scope.congr_names s s' ⟨none, false⟩ .bare .builtin .builtin hshared).2 .new "x"
      (by simp [hsource, hx])

end Stencil

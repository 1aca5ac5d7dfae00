import Stencil.Eval

/-! Undefined pipelines: paths that lead nowhere and that no filter rescues. -/
namespace Stencil

/-- The site of the rest of a pipeline behind its first `n` filters. -/
def Site.behind (site : Site) : Nat → Site
  | 0 => site
  | n + 1 => (site.child 1).behind n

theorem Site.child_behind (site : Site) (n : Nat) : (site.behind n).child 1 = (site.child 1).behind n := by
  induction n generalizing site with
  | zero => rfl
  | succ n ih => exact ih (site.child 1)

namespace Env

/-- Every one of the filters is known, does not accept undefined, and has arguments with values. -/
def AllPass (env : Env) (site : Site) (cs : List FilterCall) : Prop :=
  ∀ before c after, cs = before ++ c :: after → ∃ f, Entries.get? c.name env.filters = some f ∧
    f.acceptsUndefined = false ∧
      ∃ args, env.evalAll ((site.behind before.length).child 0) 0 c.args = .ok args

/-- The base is a path that leads nowhere, and all filters leave it undefined. -/
structure LeftUndefined (env : Env) (site : Site) (p : Pipeline) (cause : Error) : Prop where
  isPath : p.base.isPath = true
  fails : env.eval (site.child 0) p.base = .error cause
  isUndefined : cause.isUndefined = true
  pass : env.AllPass (site.child 1) p.filters

variable {env : Env} {site : Site} {p : Pipeline} {c : FilterCall} {cs : List FilterCall}
  {f : Filter} {args : List Value} {cause : Error}

theorem allPass_nil : env.AllPass site [] := fun _ _ _ h => by simp at h

theorem allPass_cons : env.AllPass site (c :: cs) ↔ (∃ f, Entries.get? c.name env.filters = some f ∧
    f.acceptsUndefined = false ∧ ∃ args, env.evalAll (site.child 0) 0 c.args = .ok args) ∧
    env.AllPass (site.child 1) cs := by
  constructor
  · intro h
    exact ⟨h [] c cs rfl, fun before d after hcs => h (c :: before) d after (by rw [hcs]; rfl)⟩
  · rintro ⟨hc, hcs⟩ before d after h
    cases before with
    | nil =>
      obtain ⟨rfl, rfl⟩ := List.cons.inj h
      exact hc
    | cons b before =>
      obtain ⟨rfl, rfl⟩ := List.cons.inj h
      exact hcs before d after rfl

/-- A filter passes on an undefined outcome that it does not accept, and never gives one itself. -/
theorem filterOutcome_undefined {o : Outcome} : filterOutcome f args o = .ok (.undefined cause) ↔
    o = .undefined cause ∧ f.acceptsUndefined = false := by
  cases o with
  | defined v => cases h : f.apply v args <;> simp [filterOutcome, h, Except.map]
  | rescued v => cases h : f.apply v args <;> simp [filterOutcome, h, Except.map]
  | undefined cause' =>
    cases hf : f.acceptsUndefined with
    | true => cases h : f.apply .null args <;> simp [filterOutcome, hf, h, Except.map]
    | false => simp [filterOutcome, hf]

theorem evalFilters_cons {o : Outcome} (hf : Entries.get? c.name env.filters = some f)
    (hargs : env.evalAll (site.child 0) 0 c.args = .ok args) :
    env.evalFilters site o (c :: cs) =
      filterOutcome f args o >>= fun o' => env.evalFilters (site.child 1) o' cs := by
  rw [evalFilters, hf]
  simp only [hargs]
  rfl

theorem evalFilters_undefined {o : Outcome} : env.evalFilters site o cs = .ok (.undefined cause) ↔
    o = .undefined cause ∧ env.AllPass site cs := by
  induction cs generalizing site o with
  | nil => simp [evalFilters, allPass_nil]
  | cons c cs ih =>
    rw [allPass_cons]
    cases hf : Entries.get? c.name env.filters with
    | none => simp [evalFilters, hf]
    | some f =>
      cases hargs : env.evalAll (site.child 0) 0 c.args with
      | error e => simp [evalFilters, hf, hargs, bind, Except.bind]
      | ok args =>
        rw [evalFilters_cons hf hargs]
        constructor
        · intro h
          obtain ⟨o', ho', hrest⟩ := Result.bind_eq_ok h
          obtain ⟨rfl, hpass⟩ := ih.1 hrest
          obtain ⟨rfl, haccepts⟩ := filterOutcome_undefined.1 ho'
          exact ⟨rfl, ⟨f, rfl, haccepts, args, rfl⟩, hpass⟩
        · rintro ⟨rfl, ⟨f', hf', haccepts, -⟩, hpass⟩
          obtain rfl := Option.some.inj hf'
          rw [filterOutcome_undefined.2 ⟨rfl, haccepts⟩]
          exact ih.2 ⟨rfl, hpass⟩

theorem evalBase_undefined {base : Expr} : env.evalBase site base = .ok (.undefined cause) ↔
    base.isPath = true ∧ env.eval (site.child 0) base = .error cause ∧ cause.isUndefined = true := by
  rw [evalBase]
  cases env.eval (site.child 0) base with
  | ok v => simp
  | error e =>
    dsimp only
    split
    · next h =>
      obtain ⟨he, hbase⟩ := Bool.and_eq_true_iff.1 h
      constructor
      · intro heq
        obtain rfl := Outcome.undefined.inj (Except.ok.inj heq)
        exact ⟨hbase, rfl, he⟩
      · rintro ⟨-, heq, -⟩
        rw [Except.error.inj heq]
    · next h =>
      constructor
      · intro heq
        cases heq
      · rintro ⟨hbase, heq, he⟩
        obtain rfl := Except.error.inj heq
        exact absurd (Bool.and_eq_true_iff.2 ⟨he, hbase⟩) h

/-- The undefined pipelines are those whose base is left undefined by all filters. -/
theorem evalPipeline_undefined : env.evalPipeline site p = .ok (.undefined cause) ↔
    env.LeftUndefined site p cause := by
  rw [evalPipeline]
  constructor
  · intro h
    obtain ⟨o, ho, hfilters⟩ := Result.bind_eq_ok h
    obtain ⟨rfl, hpass⟩ := evalFilters_undefined.1 hfilters
    obtain ⟨hpath, hfails, hundefined⟩ := evalBase_undefined.1 ho
    exact ⟨hpath, hfails, hundefined, hpass⟩
  · rintro ⟨hpath, hfails, hundefined, hpass⟩
    rw [evalBase_undefined.2 ⟨hpath, hfails, hundefined⟩]
    exact evalFilters_undefined.2 ⟨rfl, hpass⟩

end Env

end Stencil

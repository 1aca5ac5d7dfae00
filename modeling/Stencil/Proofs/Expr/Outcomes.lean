import Stencil.Proofs.Expr.Undefined

/-! What pipelines come to, from the value or the failure of the base: a value stays defined, an undefined
path stays undefined up to the first filter that accepts it and is rescued there, and every other failure is
final. -/
namespace Stencil.Env

/-- The filter of a call and the values of its arguments, at the site of the call. The name comes before the
arguments. -/
def callee (env : Env) (site : Site) (c : FilterCall) : Result (Filter × List Value) :=
  match Entries.get? c.name env.filters with
  | none => .error (.unknownFilter c.name)
  | some f => (env.evalAll (site.child 0) 0 c.args).map fun args => (f, args)

/-- Sends a value through filters from left to right, up to the first failure. -/
def applied (env : Env) (site : Site) (v : Value) : List FilterCall → Result Value
  | [] => .ok v
  | c :: cs => do
    let r ← env.callee site c
    let w ← r.1.apply v r.2
    applied env (site.child 1) w cs

/-- Whether the filter of a call is known and accepts undefined. -/
def accepts (env : Env) (c : FilterCall) : Bool :=
  (Entries.get? c.name env.filters).any Filter.acceptsUndefined

/-- Every one of the filters is known and has arguments with values. -/
def AllCalled (env : Env) (site : Site) (cs : List FilterCall) : Prop :=
  ∀ before c after, cs = before ++ c :: after → ∃ r, env.callee (site.behind before.length) c = .ok r

variable {env : Env} {site : Site} {c : FilterCall} {cs skipped rest : List FilterCall}
  {f : Filter} {args : List Value} {v : Value} {cause : Error}

theorem evalFilters_eq (o : Outcome) : env.evalFilters site o (c :: cs) =
    env.callee site c >>= fun r => filterOutcome r.1 r.2 o >>= fun o' =>
      env.evalFilters (site.child 1) o' cs := by
  rw [evalFilters, callee]
  cases Entries.get? c.name env.filters with
  | none => rfl
  | some f => cases env.evalAll (site.child 0) 0 c.args <;> rfl

/-- An outcome that has a value and keeps its state goes through filters as the value does. -/
theorem evalFilters_value {state : Value → Outcome}
    (hstate : ∀ f args v, filterOutcome f args (state v) = (f.apply v args).map state) :
    env.evalFilters site (state v) cs = (env.applied site v cs).map state := by
  induction cs generalizing site v with
  | nil => rfl
  | cons c cs ih =>
    rw [evalFilters_eq, applied]
    cases env.callee site c with
    | error e => rfl
    | ok r =>
      show (filterOutcome r.1 r.2 (state v) >>= fun o' => env.evalFilters (site.child 1) o' cs) =
        (r.1.apply v r.2 >>= fun w => env.applied (site.child 1) w cs).map state
      rw [hstate]
      cases r.1.apply v r.2 with
      | error e => rfl
      | ok w => exact ih

theorem evalFilters_defined : env.evalFilters site (.defined v) cs = (env.applied site v cs).map .defined :=
  evalFilters_value fun _ _ _ => rfl

theorem evalFilters_rescued : env.evalFilters site (.rescued v) cs = (env.applied site v cs).map .rescued :=
  evalFilters_value fun _ _ _ => rfl

theorem callee_ok (h : env.callee site c = .ok (f, args)) : Entries.get? c.name env.filters = some f := by
  rw [callee] at h
  split at h
  · cases h
  · next f' hf =>
    obtain ⟨args', -, heq⟩ := Result.map_eq_ok h
    obtain ⟨rfl, -⟩ := Prod.mk.inj heq
    exact hf

/-- A filter that is known but does not accept undefined lets it pass. -/
theorem evalFilters_skip {r : Filter × List Value} (hr : env.callee site c = .ok r)
    (hc : env.accepts c = false) :
    env.evalFilters site (.undefined cause) (c :: cs) =
      env.evalFilters (site.child 1) (.undefined cause) cs := by
  have haccepts : r.1.acceptsUndefined = false := by
    rwa [accepts, callee_ok hr, Option.any_some] at hc
  rw [evalFilters_eq, hr]
  show (filterOutcome r.1 r.2 (.undefined cause) >>= fun o' => env.evalFilters (site.child 1) o' cs) = _
  rw [filterOutcome_undefined.2 ⟨rfl, haccepts⟩]
  rfl

/-- A filter that accepts undefined goes on as it does with null. -/
theorem evalFilters_accepts (hc : env.accepts c = true) : env.evalFilters site (.undefined cause) (c :: cs) =
    (env.applied site .null (c :: cs)).map .rescued := by
  rw [evalFilters_eq, applied]
  cases hr : env.callee site c with
  | error e => rfl
  | ok r =>
    obtain ⟨f, args⟩ := r
    rw [accepts, callee_ok hr, Option.any_some] at hc
    have houtcome : filterOutcome f args (.undefined cause) = (f.apply .null args).map .rescued :=
      if_pos hc
    show (filterOutcome f args (.undefined cause) >>= fun o' => env.evalFilters (site.child 1) o' cs) =
      (f.apply .null args >>= fun w => env.applied (site.child 1) w cs).map .rescued
    rw [houtcome]
    cases f.apply .null args with
    | error e => rfl
    | ok w => exact evalFilters_rescued

theorem allCalled_cons : env.AllCalled site (c :: cs) ↔
    (∃ r, env.callee site c = .ok r) ∧ env.AllCalled (site.child 1) cs := by
  constructor
  · intro h
    exact ⟨h [] c cs rfl, fun before d after hcs => h (c :: before) d after (congrArg (c :: ·) hcs)⟩
  · rintro ⟨hc, hcs⟩ before d after h
    cases before with
    | nil =>
      obtain ⟨rfl, rfl⟩ := List.cons.inj h
      exact hc
    | cons b before =>
      obtain ⟨rfl, rfl⟩ := List.cons.inj h
      exact hcs before d after rfl

/-- Unless all filters can be called, there is a first one that cannot. -/
theorem exists_notCalled (h : ¬ env.AllCalled site cs) : ∃ before c after e,
    cs = before ++ c :: after ∧ env.AllCalled site before ∧
      env.callee (site.behind before.length) c = .error e := by
  induction cs generalizing site with
  | nil => exact absurd (fun _ _ _ heq => by simp at heq) h
  | cons c cs ih =>
    cases hc : env.callee site c with
    | error e => exact ⟨[], c, cs, e, rfl, fun _ _ _ heq => by simp at heq, hc⟩
    | ok r =>
      obtain ⟨before, d, after, e, rfl, hbefore, hd⟩ :=
        ih fun hcs => h (allCalled_cons.2 ⟨⟨r, hc⟩, hcs⟩)
      exact ⟨c :: before, d, after, e, rfl, allCalled_cons.2 ⟨⟨r, hc⟩, hbefore⟩, hd⟩

theorem evalFilters_skips (hskipped : ∀ c ∈ skipped, env.accepts c = false)
    (hcalled : env.AllCalled site skipped) : env.evalFilters site (.undefined cause) (skipped ++ rest) =
      env.evalFilters (site.behind skipped.length) (.undefined cause) rest := by
  induction skipped generalizing site with
  | nil => rfl
  | cons c skipped ih =>
    obtain ⟨hc, hskipped⟩ := List.forall_mem_cons.1 hskipped
    obtain ⟨⟨r, hr⟩, hcalled⟩ := allCalled_cons.1 hcalled
    rw [List.cons_append, evalFilters_skip hr hc, ih hskipped hcalled]
    rfl

/-- A pipeline that begins with null applies its filters to null. -/
theorem evalStrict_null :
    env.evalStrict site ⟨.literal .null, cs⟩ = env.applied (site.child 1) .null cs := by
  have hbase : env.evalBase site (.literal .null) = .ok (.defined .null) := by
    rw [evalBase, eval]
    rfl
  rw [evalStrict, evalPipeline]
  dsimp only
  rw [hbase]
  show env.evalFilters (site.child 1) (.defined .null) cs >>= Outcome.value = _
  rw [evalFilters_defined]
  cases env.applied (site.child 1) .null cs <;> rfl

theorem evalPipeline_of_base {base : Expr} {o : Outcome} (h : env.evalBase site base = .ok o) :
    env.evalPipeline site ⟨base, cs⟩ = env.evalFilters (site.child 1) o cs := by
  rw [evalPipeline]
  dsimp only
  rw [h]
  rfl

/-- A base with a value, an undefined path, and any other failure. The filters in front of the first one
that accepts undefined are passed by, but they have to be known and their arguments to have values. From that
one on, the pipeline goes on at its site as one that begins with null. -/
theorem evalPipeline_outcome (env : Env) (site : Site) (base : Expr) (filters : List FilterCall) :
    let k := filters.findIdx env.accepts
    let skipped := filters.take k
    let rest := filters.drop k
    (∀ v, env.eval (site.child 0) base = .ok v →
      env.evalPipeline site ⟨base, filters⟩ = (env.applied (site.child 1) v filters).map .defined) ∧
    (∀ cause, env.eval (site.child 0) base = .error cause → base.isPath = true ∧ cause.isUndefined = true →
      (env.AllCalled (site.child 1) skipped → env.evalPipeline site ⟨base, filters⟩ =
        if k = filters.length then .ok (.undefined cause)
        else (env.evalStrict (site.behind k) ⟨.literal .null, rest⟩).map .rescued) ∧
      (¬ env.AllCalled (site.child 1) skipped → ∃ before c after e, skipped = before ++ c :: after ∧
        env.AllCalled (site.child 1) before ∧
        env.callee ((site.child 1).behind before.length) c = .error e ∧
        env.evalPipeline site ⟨base, filters⟩ = .error e)) ∧
    ∀ cause, env.eval (site.child 0) base = .error cause →
      ¬ (base.isPath = true ∧ cause.isUndefined = true) →
      env.evalPipeline site ⟨base, filters⟩ = .error cause := by
  intro k skipped rest
  have hfilters : skipped ++ rest = filters := List.take_append_drop k filters
  have hskipped : ∀ c ∈ skipped, env.accepts c = false := by
    intro c hc
    obtain ⟨i, hi, rfl⟩ := List.mem_take_iff_getElem.1 hc
    simpa using List.not_of_lt_findIdx (Nat.lt_of_lt_of_le hi (Nat.min_le_left ..))
  have hlength : skipped.length = k := List.length_take_of_le List.findIdx_le_length
  refine ⟨fun v hv => ?_, ?_, fun cause hcause hnot => ?_⟩
  · have hbase : env.evalBase site base = .ok (.defined v) := by rw [evalBase, hv]
    rw [evalPipeline_of_base hbase, evalFilters_defined]
  · rintro cause hcause ⟨hpath, hundefined⟩
    have hbase : env.evalBase site base = .ok (.undefined cause) :=
      evalBase_undefined.2 ⟨hpath, hcause, hundefined⟩
    rw [evalPipeline_of_base hbase]
    refine ⟨fun hcalled => ?_, fun hnot => ?_⟩
    · rw [← hfilters, evalFilters_skips hskipped hcalled, hfilters, hlength]
      split
      · next hk =>
        have hrest : rest = [] := List.drop_eq_nil_of_le (Nat.le_of_eq hk.symm)
        rw [hrest]
        rfl
      · next hk =>
        have hlt : k < filters.length := Nat.lt_of_le_of_ne List.findIdx_le_length hk
        have hrest : rest = filters[k] :: filters.drop (k + 1) := List.drop_eq_getElem_cons hlt
        rw [evalStrict_null, Site.child_behind, hrest, evalFilters_accepts List.findIdx_getElem]
    · obtain ⟨before, c, after, e, hsplit, hbefore, hfails⟩ := exists_notCalled hnot
      refine ⟨before, c, after, e, hsplit, hbefore, hfails, ?_⟩
      have hpassed : ∀ d ∈ before, env.accepts d = false := fun d hd =>
        hskipped d (hsplit ▸ List.mem_append_left _ hd)
      rw [← hfilters, hsplit, List.append_assoc, evalFilters_skips hpassed hbefore,
        List.cons_append, evalFilters_eq, hfails]
      rfl
  · have hbase : env.evalBase site base = .error cause := by
      rw [evalBase, hcause]
      exact if_neg fun h => hnot (Bool.and_eq_true_iff.1 h).symm
    rw [evalPipeline]
    dsimp only
    rw [hbase]
    rfl

/-- A missing attribute: a filter rescues it, but not behind one that is unknown. -/
theorem evalPipeline_outcome_rescued :
    let shown : Filter := ⟨"show", false, fun v _ => .ok v⟩
    let fallback : Filter := ⟨"fallback", true, fun _ args => .ok (args.headD .null)⟩
    let env : Env := ⟨.bare, .empty, .ofList [("fallback", fallback), ("show", shown)],
      .ofEntries (.ofList [("user", .map .empty)])⟩
    let base : Expr := .member (.name "user") "city"
    let otherwise : FilterCall := ⟨"fallback", [.literal (.string "n/a")]⟩
    env.evalPipeline ⟨0, []⟩ ⟨base, [⟨"show", []⟩, otherwise, ⟨"show", []⟩]⟩ =
        .ok (.rescued (.string "n/a")) ∧
      env.evalPipeline ⟨0, []⟩ ⟨base, [⟨"shout", [.name "x"]⟩, otherwise]⟩ = .error (.unknownFilter "shout") := by
  intro shown fallback env base otherwise
  have hbase : env.eval ⟨0, [0]⟩ base = .error (.attributeNotFound (.attribute "map" "city")) := rfl
  have hpath : base.isPath = true ∧
      (Error.attributeNotFound (.attribute "map" "city")).isUndefined = true := ⟨rfl, rfl⟩
  constructor
  · obtain ⟨-, hundefined, -⟩ :=
      evalPipeline_outcome env ⟨0, []⟩ base [⟨"show", []⟩, otherwise, ⟨"show", []⟩]
    have hall : env.AllCalled ⟨0, [1]⟩ [⟨"show", []⟩] :=
      allCalled_cons.2 ⟨⟨(shown, []), rfl⟩, fun _ _ _ h => by simp at h⟩
    rw [(hundefined _ hbase hpath).1 hall]
    rfl
  · obtain ⟨-, hundefined, -⟩ := evalPipeline_outcome env ⟨0, []⟩ base [⟨"shout", [.name "x"]⟩, otherwise]
    have hnot : ¬ env.AllCalled ⟨0, [1]⟩ [⟨"shout", [.name "x"]⟩] := by
      intro hall
      obtain ⟨⟨r, hr⟩, -⟩ := allCalled_cons.1 hall
      cases hr
    obtain ⟨before, c, after, e, hsplit, -, hfails, heq⟩ := (hundefined _ hbase hpath).2 hnot
    have hsplit' : [⟨"shout", [.name "x"]⟩] = before ++ c :: after := hsplit
    obtain ⟨rfl, hc⟩ := List.append_eq_singleton_iff.1 hsplit'.symm |>.resolve_right (by simp)
    obtain ⟨rfl, rfl⟩ := List.cons.inj hc
    have hname : Except.error e = Except.error (.unknownFilter "shout") := hfails.symm
    rw [heq, Except.error.inj hname]

end Stencil.Env

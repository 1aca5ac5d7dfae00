import Stencil.Proofs.Expr.Outcomes

/-! Keys that fail on a path. The failure is taken for that of the path, whatever the key is, so that a failed
lookup inside a key is rescued like one on the path itself; every other failure of a key is final. -/
namespace Stencil

namespace Result

variable {α β : Type} {r : Result α} {e : Error}

/-- If this fails, then not because a variable, an attribute or a key is missing. -/
def Definite (r : Result α) : Prop := ∀ e, r = .error e → e.isUndefined = false

theorem definite_ok {a : α} : Definite (.ok a) := fun _ h => by cases h

theorem definite_error (he : e.isUndefined = false) : Definite (.error e : Result α) := fun e' h => by
  obtain rfl := Except.error.inj h
  exact he

theorem Definite.bind {f : α → Result β} (hr : Definite r) (hf : ∀ a, Definite (f a)) :
    Definite (r >>= f) := by
  intro e h
  rcases bind_eq_error h with he | ⟨a, -, he⟩
  · exact hr e he
  · exact hf a e he

theorem Definite.map (f : α → β) (hr : Definite r) : Definite (r.map f) := by
  cases r with
  | ok a => exact definite_ok
  | error e => exact definite_error (hr e rfl)

end Result

open Result

theorem Sign.definite_apply {sign : Sign} {v : Value} : Definite (sign.apply v) := by
  rw [Sign.apply.eq_def]
  split <;> first | exact definite_ok | exact definite_error rfl

namespace Arithmetic

variable {op : Operator} {left right : Value}

theorem definite_onNumbers {exact : Int → Int → Int} {approximate : Float → Float → Float} :
    Definite (onNumbers op exact approximate left right) := by
  rw [onNumbers]
  split
  · exact definite_ok
  · exact definite_ok
  · exact definite_error rfl

theorem definite_dividends : Definite (dividends op left right) := by
  rw [dividends]
  split
  · split
    · exact definite_error rfl
    · exact definite_ok
  · exact definite_error rfl

theorem definite_copies {kind : String} {length : Nat} {count : Int64} : Definite (copies kind length count) := by
  rw [copies]
  split
  · exact definite_ok
  · split
    · exact definite_ok
    · exact definite_error rfl

theorem definite_add : Definite (add left right) := by
  rw [add.eq_def]
  split
  · exact definite_ok
  · exact definite_ok
  · exact definite_onNumbers

theorem definite_mul : Definite (mul left right) := by
  rw [mul.eq_def]
  split <;> first | exact (definite_copies).map _ | exact definite_onNumbers

theorem definite_pow : Definite (pow left right) := by
  rw [pow]
  split
  · dsimp only
    split
    · split
      · split <;> exact definite_ok
      · exact definite_ok
    · exact definite_ok
  · exact definite_error rfl

end Arithmetic

namespace Operation

theorem definite_compare {op : Operator} {left right : Value} : Definite (compare op left right) := by
  rw [compare]
  split
  · split
    · exact definite_ok
    · exact definite_error rfl
  · exact definite_error rfl

theorem definite_contains {host : Host} {container item : Value} : Definite (contains host container item) := by
  rw [contains.eq_def]
  split
  · split
    · exact definite_ok
    · exact definite_error rfl
  · exact definite_ok
  · exact definite_ok
  · exact definite_ok
  · exact definite_error rfl

end Operation

open Operation Arithmetic in
/-- No operator looks anything up. -/
theorem Operator.definite_apply {host : Host} {op : Operator} {left right : Value} :
    Definite (op.apply host left right) := by
  cases op with
  | eq | is | ne | isNot => exact definite_ok
  | lt | le | gt | ge => exact (definite_compare).map _
  | isIn | notIn => exact (definite_contains).map _
  | add => exact definite_add
  | sub => exact definite_onNumbers
  | mul => exact definite_mul
  | div | floorDiv | mod => exact (definite_dividends).map _
  | pow => exact definite_pow
  | and | or => exact definite_error rfl

namespace Expr

mutual

/-- Whether there are names, attributes, subscripts or calls in an expression. -/
def looksUp : Expr → Bool
  | .literal _ => false
  | .name _ | .member _ _ | .subscript _ _ | .call _ _ => true
  | .unary _ operand => looksUp operand
  | .binary _ left right => looksUp left || looksUp right
  | .list items => looksUpAny items
  | .dict pairs => looksUpPairs pairs

def looksUpAny : List Expr → Bool
  | [] => false
  | e :: es => looksUp e || looksUpAny es

def looksUpPairs : List (Expr × Expr) → Bool
  | [] => false
  | (key, value) :: ps => looksUp key || (looksUp value || looksUpPairs ps)

end

/-- A subscript of `object` by `key`, to be evaluated at the site `inner`, on the way of the path `e` that is
evaluated at a site. -/
inductive SubscriptStep : Site → Expr → Site → Expr → Expr → Prop
  | here {site : Site} {object key : Expr} : SubscriptStep site (.subscript object key) site object key
  | member {site inner : Site} {e object key : Expr} {name : String} :
      SubscriptStep (site.child 0) e inner object key →
      SubscriptStep site (.member e name) inner object key
  | subscript {site inner : Site} {e object key outer : Expr} :
      SubscriptStep (site.child 0) e inner object key →
      SubscriptStep site (.subscript e outer) inner object key

end Expr

namespace Env

open Stencil.Expr

variable {env : Env}

mutual

/-- Operators and literals by themselves do not fail to find anything. -/
theorem definite_eval {site : Site} : ∀ {e : Expr}, e.looksUp = false → Definite (env.eval site e)
  | .literal _, _ => by
    rw [eval]
    exact definite_ok
  | .unary sign operand, h => by
    rw [eval]
    exact (definite_eval (e := operand) h).bind fun _ => Sign.definite_apply
  | .binary op left right, h => by
    obtain ⟨hleft, hright⟩ := Bool.or_eq_false_iff.1 h
    have hl : Definite (env.eval (site.child 0) left) := definite_eval hleft
    have hr : Definite (env.eval (site.child 1) right) := definite_eval hright
    cases op with
    | and | or =>
      rw [eval]
      refine hl.bind fun v => ?_
      split
      · first | exact hr | exact definite_ok
      · first | exact hr | exact definite_ok
    | _ =>
      simp only [eval]
      exact hl.bind fun v => hr.bind fun w => Operator.definite_apply
  | .list _, h => by
    rw [eval]
    exact (definite_evalAll h).bind fun _ => definite_ok
  | .dict _, h => by
    rw [eval]
    exact (definite_evalPairs h).bind fun _ => definite_ok

theorem definite_evalAll {site : Site} {i : Nat} : ∀ {es : List Expr}, looksUpAny es = false →
    Definite (env.evalAll site i es)
  | [], _ => by
    rw [evalAll]
    exact definite_ok
  | _ :: _, h => by
    obtain ⟨he, hes⟩ := Bool.or_eq_false_iff.1 h
    rw [evalAll]
    exact (definite_eval he).bind fun _ => (definite_evalAll hes).bind fun _ => definite_ok

theorem definite_evalPairs {site : Site} {i : Nat} : ∀ {ps : List (Expr × Expr)},
    looksUpPairs ps = false → Definite (env.evalPairs site i ps)
  | [], _ => by
    rw [evalPairs]
    exact definite_ok
  | (_, _) :: _, h => by
    obtain ⟨hkey, h⟩ := Bool.or_eq_false_iff.1 h
    obtain ⟨hvalue, hps⟩ := Bool.or_eq_false_iff.1 h
    rw [evalPairs]
    exact (definite_eval hkey).bind fun _ => (definite_eval hvalue).bind fun _ =>
      (definite_evalPairs hps).bind fun _ => definite_ok

end

variable {site inner : Site} {base object key : Expr} {v : Value} {cause : Error}

/-- A path fails as the first key does that fails on its way. -/
theorem eval_failingKey (hstep : SubscriptStep site base inner object key)
    (hobject : env.eval (inner.child 0) object = .ok v) (hkey : env.eval (inner.child 1) key = .error cause) :
    env.eval site base = .error cause := by
  induction hstep with
  | here =>
    rw [eval, hobject, hkey]
    rfl
  | member _ ih =>
    rw [eval, ih hobject hkey]
    rfl
  | subscript _ ih =>
    rw [eval, ih hobject hkey]
    rfl

/-- A key that fails on a path is final under all filters just if it fails for another reason than a lookup;
keys that look nothing up do. A failed lookup inside the key leaves the path undefined, although the same key
by itself would be final. -/
theorem evalPipeline_failingKey (hpath : base.isPath = true)
    (hstep : SubscriptStep (site.child 0) base inner object key)
    (hobject : env.eval (inner.child 0) object = .ok v) (hkey : env.eval (inner.child 1) key = .error cause)
    (hnot : key.isPath = false) :
    ((∀ filters, env.evalPipeline site ⟨base, filters⟩ = .error cause) ↔ cause.isUndefined = false) ∧
      (key.looksUp = false → cause.isUndefined = false) ∧
      (cause.isUndefined = true → ∀ filters, env.evalPipeline site ⟨base, filters⟩ =
        env.evalFilters (site.child 1) (.undefined cause) filters) ∧
      ∀ cause', env.eval (site.child 0) key = .error cause' →
        ∀ filters, env.evalPipeline site ⟨key, filters⟩ = .error cause' := by
  have hbase : env.eval (site.child 0) base = .error cause := eval_failingKey hstep hobject hkey
  have hfinal (e : Expr) (cause' : Error) (he : env.eval (site.child 0) e = .error cause')
      (hdefinite : ¬ (e.isPath = true ∧ cause'.isUndefined = true)) (filters : List FilterCall) :
      env.evalPipeline site ⟨e, filters⟩ = .error cause' :=
    (evalPipeline_outcome env site e filters).2.2 cause' he hdefinite
  have hlost (hundefined : cause.isUndefined = true) (filters : List FilterCall) :
      env.evalPipeline site ⟨base, filters⟩ = env.evalFilters (site.child 1) (.undefined cause) filters :=
    evalPipeline_of_base (evalBase_undefined.2 ⟨hpath, hbase, hundefined⟩)
  refine ⟨⟨fun h => ?_, fun h => hfinal base cause hbase (by simp [h])⟩, fun h => definite_eval h _ hkey,
    hlost, fun cause' h => hfinal key cause' h (by simp [hnot])⟩
  cases hundefined : cause.isUndefined with
  | false => rfl
  | true =>
    have hempty : env.evalPipeline site ⟨base, []⟩ = .ok (.undefined cause) := hlost hundefined []
    rw [h []] at hempty
    cases hempty

/-- A key that divides by zero, in the middle of a path. -/
theorem evalPipeline_failingKey_division :
    let env : Env := ⟨.bare, .empty, .builtin, .ofEntries (.ofList [("a", .map .empty)])⟩
    let key : Expr := .binary .floorDiv (.literal (.int 1)) (.literal (.int 0))
    let base : Expr := .member (.subscript (.name "a") key) "b"
    let cause : Error := .divisionByZero (.division "1")
    (∀ filters, env.evalPipeline ⟨0, []⟩ ⟨base, filters⟩ = .error cause) ∧
      ∀ filters, env.evalPipeline ⟨0, []⟩ ⟨key, filters⟩ = .error cause := by
  intro env key base cause
  have hobject : env.eval ⟨0, [0, 0, 0]⟩ (.name "a") = .ok (.map .empty) := rfl
  have hkey (path : List Nat) : env.eval ⟨0, path⟩ key = .error cause := rfl
  have hstep : SubscriptStep (Site.child ⟨0, []⟩ 0) base ⟨0, [0, 0]⟩ (.name "a") key := .member .here
  obtain ⟨hfinal, hplain, -, halone⟩ := evalPipeline_failingKey rfl hstep hobject (hkey _) rfl
  exact ⟨hfinal.2 (hplain rfl), halone cause (hkey _)⟩

/-- A sum with a missing operand fails by itself, but as the key of a subscript it makes the path undefined. -/
theorem evalPipeline_missingInKey :
    let env : Env := ⟨.bare, .empty, .builtin, .ofEntries (.ofList [("a", .list [.int 1])])⟩
    let key : Expr := .binary .add (.name "x") (.literal (.int 1))
    let base : Expr := .subscript (.name "a") key
    let cause : Error := .undefinedVariable "x"
    SubscriptStep ⟨0, [0]⟩ base ⟨0, [0]⟩ (.name "a") key ∧ key.isPath = false ∧
      env.eval ⟨0, [0, 0]⟩ (.name "a") = .ok (.list [.int 1]) ∧
      env.eval ⟨0, [0, 1]⟩ key = .error cause ∧
      env.evalPipeline ⟨0, []⟩ ⟨key, []⟩ = .error cause ∧
      env.evalPipeline ⟨0, []⟩ ⟨base, []⟩ = .ok (.undefined cause) ∧
      env.evalPipeline ⟨0, []⟩ ⟨base, []⟩ ≠ .error cause := by
  intro env key base cause
  have hundefined : env.evalPipeline ⟨0, []⟩ ⟨base, []⟩ = .ok (.undefined cause) := rfl
  refine ⟨.here, rfl, rfl, rfl, rfl, hundefined, fun h => ?_⟩
  rw [h] at hundefined
  cases hundefined

end Env

end Stencil

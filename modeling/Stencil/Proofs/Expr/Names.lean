import Stencil.Eval
import Stencil.Expr.Parser

/-! The names that occur in expressions and pipelines. Evaluation depends on the scope through them only. -/
namespace Stencil

namespace Expr

mutual

/-- The names in an expression that stand for variables or functions. -/
def names : Expr → List String
  | .literal _ => []
  | .name n => [n]
  | .unary _ operand => names operand
  | .binary _ left right => names left ++ names right
  | .member object _ => names object
  | .subscript object key => names object ++ names key
  | .call callee args => names callee ++ namesAll args
  | .list items => namesAll items
  | .dict pairs => namesPairs pairs

def namesAll : List Expr → List String
  | [] => []
  | e :: es => names e ++ namesAll es

def namesPairs : List (Expr × Expr) → List String
  | [] => []
  | (key, value) :: ps => names key ++ (names value ++ namesPairs ps)

end

end Expr

namespace Pipeline

/-- The names in the base and in the arguments of the filters. -/
def names (p : Pipeline) : List String :=
  p.base.names ++ p.filters.flatMap fun c => Expr.namesAll c.args

/-- The names in the pipeline that a source spells. -/
def sourceNames (source : String) : List String :=
  match parse source with
  | .ok p => p.names
  | .error _ => []

theorem sourceNames_of_parse {source : String} {p : Pipeline} (h : parse source = .ok p) :
    sourceNames source = p.names := by
  rw [sourceNames, h]

end Pipeline

namespace Scope

theorem get?_child (s : Scope) (bindings : Entries Value) (name : String) :
    (s.child bindings).get? name = (Entries.get? name bindings).or (s.get? name) := by
  rw [get?, child, List.findSome?_cons]
  cases Entries.get? name bindings <;> rfl

theorem get?_withFallback (s : Scope) (bindings : Entries Value) (name : String) :
    (s.withFallback bindings).get? name = (s.get? name).or (Entries.get? name bindings) := by
  rw [withFallback]
  split
  · next hempty =>
    obtain rfl := Entries.isEmpty_iff.1 hempty
    exact Option.or_none.symm
  · simp [get?, List.findSome?_append]

end Scope

namespace Env

/-- Environments that are alike up to their scopes, in which these names stand for the same. -/
structure Alike (names : List String) (env env' : Env) : Prop where
  host : env.host = env'.host
  functions : env.functions = env'.functions
  filters : env.filters = env'.filters
  scope : ∀ n ∈ names, env.scope.get? n = env'.scope.get? n

variable {names names' : List String} {env env' : Env}

theorem Alike.mono (h : Alike names env env') (hsub : names' ⊆ names) : Alike names' env env' :=
  ⟨h.host, h.functions, h.filters, fun n hn => h.scope n (hsub hn)⟩

theorem Alike.left (h : Alike (names ++ names') env env') : Alike names env env' :=
  h.mono (List.subset_append_left ..)

theorem Alike.right (h : Alike (names ++ names') env env') : Alike names' env env' :=
  h.mono (List.subset_append_right ..)

theorem Alike.lookup {n : String} (h : Alike [n] env env') : env.lookup n = env'.lookup n := by
  rw [Env.lookup, Env.lookup, h.scope n (List.mem_singleton_self n), h.functions]

section
variable (h : Alike names env env')
include h

theorem Alike.member : env.member = env'.member := by
  obtain ⟨host, functions, filters, scope⟩ := env
  obtain ⟨host', functions', filters', scope'⟩ := env'
  obtain rfl : host = host' := h.host
  obtain rfl : functions = functions' := h.functions
  rfl

theorem Alike.subscript : env.subscript = env'.subscript := by
  obtain ⟨host, functions, filters, scope⟩ := env
  obtain ⟨host', functions', filters', scope'⟩ := env'
  obtain rfl : host = host' := h.host
  rfl

theorem Alike.call : env.call = env'.call := by
  obtain ⟨host, functions, filters, scope⟩ := env
  obtain ⟨host', functions', filters', scope'⟩ := env'
  obtain rfl : host = host' := h.host
  rfl

end

mutual

theorem Alike.eval {site : Site} : ∀ {e : Expr}, Alike e.names env env' →
    env.eval site e = env'.eval site e
  | .literal _, _ => by rw [Env.eval, Env.eval]
  | .name n, h => by rw [Env.eval, Env.eval, h.lookup]
  | .unary _ operand, h => by rw [Env.eval, Env.eval, Alike.eval (e := operand) h]
  | .binary op left right, h => by
    have hleft : env.eval (site.child 0) left = env'.eval (site.child 0) left := Alike.eval h.left
    have hright : env.eval (site.child 1) right = env'.eval (site.child 1) right := Alike.eval h.right
    cases op <;> simp only [Env.eval, hleft, hright, h.host]
  | .member object _, h => by rw [Env.eval, Env.eval, Alike.eval (e := object) h, h.member]
  | .subscript _ _, h => by
    rw [Env.eval, Env.eval, Alike.eval h.left, Alike.eval h.right, h.subscript]
  | .call _ _, h => by
    rw [Env.eval, Env.eval, Alike.eval h.left, Alike.evalAll h.right, h.call]
  | .list _, h => by rw [Env.eval, Env.eval, Alike.evalAll h]
  | .dict _, h => by rw [Env.eval, Env.eval, Alike.evalPairs h]

theorem Alike.evalAll {site : Site} {i : Nat} : ∀ {es : List Expr}, Alike (Expr.namesAll es) env env' →
    env.evalAll site i es = env'.evalAll site i es
  | [], _ => by rw [Env.evalAll, Env.evalAll]
  | _ :: _, h => by rw [Env.evalAll, Env.evalAll, Alike.eval h.left, Alike.evalAll h.right]

theorem Alike.evalPairs {site : Site} {i : Nat} : ∀ {ps : List (Expr × Expr)},
    Alike (Expr.namesPairs ps) env env' → env.evalPairs site i ps = env'.evalPairs site i ps
  | [], _ => by rw [Env.evalPairs, Env.evalPairs]
  | (_, _) :: _, h => by
    rw [Env.evalPairs, Env.evalPairs, Alike.eval h.left, Alike.eval h.right.left,
      Alike.evalPairs h.right.right]

end

theorem Alike.evalFilters {site : Site} {o : Outcome} {cs : List FilterCall}
    (h : Alike (cs.flatMap fun c => Expr.namesAll c.args) env env') :
    env.evalFilters site o cs = env'.evalFilters site o cs := by
  induction cs generalizing site o with
  | nil => rfl
  | cons c cs ih =>
    rw [List.flatMap_cons] at h
    rw [Env.evalFilters, Env.evalFilters, h.filters]
    split
    · rfl
    · simp only [h.left.evalAll, ih h.right]

theorem Alike.evalPipeline {site : Site} {p : Pipeline} (h : Alike p.names env env') :
    env.evalPipeline site p = env'.evalPipeline site p := by
  rw [Env.evalPipeline, Env.evalPipeline, Env.evalBase, Env.evalBase, h.left.eval]
  simp only [h.right.evalFilters]

/-- A source can be evaluated only after it is read, and then only its own names matter. -/
theorem Alike.evalSource {α : Type} {source : String} (h : Alike (Pipeline.sourceNames source) env env')
    (site : Site) (f : Outcome → Result α) :
    (Pipeline.parse source >>= fun p => env.evalPipeline site p >>= f) =
      Pipeline.parse source >>= fun p => env'.evalPipeline site p >>= f := by
  cases hp : Pipeline.parse source with
  | error e => rfl
  | ok p =>
    rw [Pipeline.sourceNames_of_parse hp] at h
    show env.evalPipeline site p >>= f = env'.evalPipeline site p >>= f
    rw [h.evalPipeline]

end Env

end Stencil

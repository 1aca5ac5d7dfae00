import Mathlib.Data.List.Dedup
import Stencil.Proofs.Expr.Undefined
import Stencil.Proofs.Template.Coupling

/-! Strict rendering beside lenient rendering: strictness only adds failures, for undefined expressions. -/
namespace Stencil.Render

/-- The failure of an expression among the nodes because a variable, an attribute or a key is missing. -/
def Missing (ns : List Node) (e : Error) : Prop :=
  ∃ source cause, .expression source ∈ ns ∧ cause.isUndefined = true ∧
    e = .inTag ("\x7b\x7b " ++ source ++ " \x7d\x7d") cause

/-- Strict and lenient rules make the same of an expression unless it is undefined. -/
theorem interpolate_strict (maxDepth : Option Nat) (env : Env) (depth : Nat) (source : String) :
    interpolate ⟨maxDepth, true⟩ env depth source = interpolate ⟨maxDepth, false⟩ env depth source ∨
      ∃ cause, cause.isUndefined = true ∧
        interpolate ⟨maxDepth, true⟩ env depth source = .error cause := by
  rw [interpolate, interpolate]
  cases Pipeline.parse source with
  | error e => exact .inl rfl
  | ok p =>
    simp only [bind, Except.bind]
    cases ho : env.evalPipeline ⟨depth, []⟩ p with
    | error e => exact .inl rfl
    | ok o =>
      cases o with
      | defined v => exact .inl rfl
      | rescued v => exact .inl rfl
      | undefined cause => exact .inr ⟨cause, (Env.evalPipeline_undefined.1 ho).isUndefined, rfl⟩

/-- Strict and lenient rendering in the same environment, within nodes that hold all expressions. -/
theorem coupling_strict (maxDepth : Option Nat) (ns : List Node) :
    Coupling (Missing ns) ⟨maxDepth, true⟩ ⟨maxDepth, false⟩
      fun env env' _ ms _ => env = env' ∧ ms ⊆ ns where
  entry _ := .refl _
  expression := by
    rintro env _ depth ms i source ⟨rfl, hsub⟩ hn
    rcases interpolate_strict maxDepth env depth source with heq | ⟨cause, hcause, heq⟩
    · exact .of_eq (by rw [heq])
    · refine .inr ⟨_, ?_, source, cause, hsub (List.mem_of_getElem? hn), hcause, rfl⟩
      rw [heq]
      rfl
  conditional := by
    rintro env _ depth ms i t condition c ⟨rfl, hsub⟩ - - - b -
    exact ⟨rfl, rfl, List.Subset.trans (Block.body_subset ..) hsub⟩
  loop := by
    rintro env _ depth ms i t clause stop ⟨rfl, hsub⟩ - - -
    exact ⟨fun _ => rfl, fun _ _ => ⟨rfl, List.Subset.trans (Block.body_subset ..) hsub⟩⟩
  next h _ := h

/-- Strict rendering gives what lenient rendering gives, or fails at an expression for something that is
missing, as long as both go through maps in the same orders. -/
theorem nodes_strict (maxDepth : Option Nat) (env : Env) (ns : List Node) {order order' : MapOrder}
    (hshared : ∀ place, order place = order' place) :
    let strict := nodes ⟨maxDepth, true⟩ order env 0 ns
    let lenient := nodes ⟨maxDepth, false⟩ order' env 0 ns
    (strict = lenient ∨ ∃ e, strict = .error e ∧ Missing ns e) ∧
      (∀ s, strict = .ok s → lenient = .ok s) ∧
      ∀ e, lenient = .error e → ∃ e', strict = .error e' := by
  intro strict lenient
  obtain rfl : order = order' := funext hshared
  have hagrees : strict = lenient ∨ ∃ e, strict = .error e ∧ Missing ns e :=
    (coupling_strict maxDepth ns).nodes ⟨rfl, List.Subset.refl ns⟩
  refine ⟨hagrees, fun s hs => ?_, fun e he => ?_⟩
  · rcases hagrees with heq | ⟨e, he, -⟩
    · exact heq ▸ hs
    · rw [hs] at he
      cases he
  · rcases hagrees with heq | ⟨e', he', -⟩
    · exact ⟨e, heq.trans he⟩
    · exact ⟨e', he'⟩

/-- A variable that is missing behind a text, and the text alone. -/
theorem nodes_strict_undefined :
    let env : Env := ⟨.bare, .empty, .empty, .empty⟩
    let order : MapOrder := fun _ => .stored
    let ns : List Node := [.text "a", .expression "x"]
    nodes ⟨none, false⟩ order env 0 ns = .ok "a" ∧
      nodes ⟨none, true⟩ order env 0 ns =
        .error (.inTag "\x7b\x7b x \x7d\x7d" (.undefinedVariable "x")) ∧
      Missing ns (.inTag "\x7b\x7b x \x7d\x7d" (.undefinedVariable "x")) ∧
      nodes ⟨none, true⟩ order env 0 [.text "a"] = .ok "a" ∧
      nodes ⟨none, false⟩ order env 0 [.text "a"] = .ok "a" := by
  intro env order ns
  have hshared (place : List Nat) : order place = order place := rfl
  have hlenient : nodes ⟨none, false⟩ order env 0 ns = .ok "a" := by decide +kernel
  have hstrict : nodes ⟨none, true⟩ order env 0 ns =
      .error (.inTag "\x7b\x7b x \x7d\x7d" (.undefinedVariable "x")) := by decide +kernel
  have htext : nodes ⟨none, true⟩ order env 0 [.text "a"] = .ok "a" :=
    nodes_text ⟨none, true⟩ order env "a"
  refine ⟨hlenient, hstrict, ?_, htext, (nodes_strict none env [.text "a"] hshared).2.1 "a" htext⟩
  rcases (nodes_strict none env ns hshared).1 with heq | ⟨e, he, hmissing⟩
  · rw [hstrict, hlenient] at heq
    cases heq
  · obtain rfl := Except.error.inj (hstrict.symm.trans he)
    exact hmissing

end Stencil.Render

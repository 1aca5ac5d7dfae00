import Stencil.Proofs.Engine.Session
import Stencil.Proofs.Expr.Padding
import Stencil.Proofs.Expr.Undefined
import Stencil.Proofs.Template.Appending
import Stencil.Proofs.Template.Tagging

/-! One expression as a condition, between double braces and by itself: the three make the same of it,
except for paths that stay undefined. -/
namespace Stencil

open Text Block

namespace Render

variable {rules : Rules} {order : MapOrder} {env : Env}

/-- The nodes of a conditional with two branches of plain text. -/
def twoBranches (condition content a b : String) : List Node :=
  [.tag ⟨.ifTag condition, content⟩, .text a, .tag ⟨.elseTag, "else"⟩, .text b, .tag ⟨.endIf, "endif"⟩]

theorem chain_twoBranches (condition content a b : String) :
    chain (twoBranches condition content a b) 0 = .ok ⟨[⟨0, 2⟩, ⟨2, 4⟩], 4⟩ := by
  have hlast : chainFrom (twoBranches condition content a b) 0 2 = .ok ⟨[⟨2, 4⟩], 4⟩ := by
    rw [chainFrom_eq]
    rfl
  rw [chain, chainFrom_eq]
  show (chainFrom (twoBranches condition content a b) 0 2).map _ = _
  rw [hlast]
  rfl

/-- A conditional renders the one branch or the other as its condition is true or false. -/
theorem nodes_twoBranches (hdepth : ∀ limit ∈ rules.maxDepth, 0 < limit) (condition content a b : String) :
    nodes rules order env 0 (twoBranches condition content a b) =
      (locate (Tag.source ⟨.ifTag condition, content⟩) (clauseValue env 0 condition)).map fun v =>
        if v.truthy then a else b := by
  let ns := twoBranches condition content a b
  have hend : nodesFrom rules order env 0 ns (4 + 1) = .ok "" := nodesFrom_end (Nat.le_refl _)
  have hbodies : body ns 0 2 = [.text a] ∧ body ns 2 4 = [.text b] := ⟨rfl, rfl⟩
  have hplain (order : MapOrder) (s : String) : nodes rules order env 1 [.text s] = .ok s :=
    (nodes_within hdepth).trans (nodesFrom_textOnly s)
  have hif : holds env 0 ns ⟨0, 2⟩ =
      (locate (Tag.source ⟨.ifTag condition, content⟩) (clauseValue env 0 condition)).map Value.truthy := rfl
  have helse : holds env 0 ns ⟨2, 4⟩ = .ok true := rfl
  have htext : branchText rules order env 0 ns [⟨0, 2⟩, ⟨2, 4⟩] =
      (locate (Tag.source ⟨.ifTag condition, content⟩) (clauseValue env 0 condition)).map fun v =>
        if v.truthy then a else b := by
    rw [branchText, branchText, hif, helse, hbodies.1, hbodies.2, Nat.zero_add,
      hplain, hplain]
    cases locate (Tag.source ⟨.ifTag condition, content⟩) (clauseValue env 0 condition) with
    | error e => rfl
    | ok v => cases hv : v.truthy <;> simp [Except.map, bind, Except.bind, hv]
  rw [nodes_outermost, nodesFrom_if rfl rfl, chain_twoBranches]
  dsimp only
  rw [htext, hend]
  cases locate (Tag.source ⟨.ifTag condition, content⟩) (clauseValue env 0 condition) with
  | error e => rfl
  | ok v => simp [Except.map, bind, Except.bind]

/-- The text of a pipeline is its value's, or none for a path that stays undefined. -/
theorem interpolate_lenient (env : Env) (maxDepth : Option Nat) (depth : Nat) {source : String} {p : Pipeline}
    (hp : Pipeline.parse source = .ok p) :
    (∀ v, env.evalStrict ⟨depth, []⟩ p = .ok v → interpolate ⟨maxDepth, false⟩ env depth source = .ok v.display) ∧
      ∀ cause, env.evalStrict ⟨depth, []⟩ p = .error cause →
        ((∃ missing, env.LeftUndefined ⟨depth, []⟩ p missing) →
          interpolate ⟨maxDepth, false⟩ env depth source = .ok "") ∧
        ((¬ ∃ missing, env.LeftUndefined ⟨depth, []⟩ p missing) →
          interpolate ⟨maxDepth, false⟩ env depth source = .error cause) := by
  simp only [interpolate, hp, Env.evalStrict, ← Env.evalPipeline_undefined, bind, Except.bind]
  cases env.evalPipeline ⟨depth, []⟩ p with
  | error e =>
    refine ⟨fun v hv => (by cases hv), fun cause hcause => ⟨?_, fun _ => ?_⟩⟩
    · rintro ⟨missing, hmissing⟩
      cases hmissing
    · obtain rfl := Except.error.inj hcause
      rfl
  | ok o =>
    cases o with
    | defined v | rescued v =>
      refine ⟨fun v' hv => ?_, fun cause hcause => (by cases hcause)⟩
      obtain rfl := Except.ok.inj hv
      rfl
    | undefined cause =>
      exact ⟨fun v hv => (by cases hv), fun _ _ => ⟨fun _ => rfl, fun hnot => absurd ⟨cause, rfl⟩ hnot⟩⟩

end Render

namespace Node

variable {e : String} {p : Pipeline}

theorem ofTemplate_twoBranches (hp : Pipeline.parse e = .ok p) (he : ∃ c ∈ e.toList, isBlank c = false) :
    ∃ content, ofTemplate ("\x7b% if " ++ e ++ " %\x7dA\x7b% else %\x7dB\x7b% endif %\x7d") =
      Render.twoBranches (String.ofList (trim e.toList)) content "A" "B" := by
  have hword : AsciiName ['i', 'f'] := ⟨⟨'i', rfl, rfl⟩, List.all_eq_true.1 rfl⟩
  obtain ⟨⟨directive, content⟩, hseg, ht⟩ :=
    segment_condition hp he ['i', 'f'] hword rfl fun _ hrest => if_neg hrest
  obtain rfl : directive = .ifTag (String.ofList (trim e.toList)) := ht
  obtain ⟨m, c, hc, hcs, hnode⟩ := eq_enclose_of_segment (by simp) hseg
  have hrest : segment "A\x7b% else %\x7dB\x7b% endif %\x7d".toList =
      [.text "A", .tag ⟨.elseTag, "else"⟩, .text "B", .tag ⟨.endIf, "endif"⟩] := by decide +kernel
  have happend := segment_append m hc "A\x7b% else %\x7dB\x7b% endif %\x7d".toList
  rw [← hcs, ← hnode, hrest] at happend
  refine ⟨content, ?_⟩
  rw [Render.twoBranches, ← happend]
  simp [ofTemplate]

/-- Where an expression between double braces is one node, the node holds the trimmed source. -/
theorem source_of_ofTemplate {source : String} (he : ∃ c ∈ e.toList, isBlank c = false)
    (h : ofTemplate ("\x7b\x7b " ++ e ++ " \x7d\x7d") = [.expression source]) :
    source = String.ofList (trim e.toList) := by
  obtain ⟨m, c, -, hcs, hnode⟩ := eq_enclose_of_segment (by simp) h
  have hspelled : Marker.expression.enclose (' ' :: (e.toList ++ [' '])) = m.enclose c := by
    rw [← hcs]
    simp [Marker.enclose, Marker.opening, Marker.closing]
  obtain ⟨rfl, rfl⟩ := enclose_injective hspelled
  rw [← trim_spaced he]
  exact expression.inj hnode

end Node

namespace Engine

/-- A choice between two texts by the value of a condition. -/
theorem choice_iff {location : String} {value : Result Value} {chosen : Result String}
    (h : chosen = (locate location value).map fun v => if v.truthy then "A" else "B") :
    (chosen = .ok "A" ↔ ∃ v, value = .ok v ∧ v.truthy = true) ∧
      (chosen = .ok "B" ↔ ∃ v, value = .ok v ∧ v.truthy = false) ∧
      ∀ root, (∃ e', chosen = .error e' ∧ e'.root = root) ↔
        ∃ e', value = .error e' ∧ e'.root = root := by
  subst h
  cases value with
  | error cause => simp [locate, Except.map, Error.root]
  | ok v => cases hv : v.truthy <;> simp [locate, Except.map, hv]

/-- A condition, an interpolation and a bare expression come to the same, but for paths that stay
undefined: these are no failures between double braces. -/
theorem evaluate_render (filters : Filters) (functions : Functions) {settings : Settings}
    (hdepth : settings.maxRenderDepth = ({} : Settings).maxRenderDepth)
    (hstrict : settings.strictUndefined = false) (orders : Nat → MapOrder) (rs : List Request)
    (order order' : MapOrder) (host : Host) (scope : Scope) {e : String} {p : Pipeline}
    (hp : Pipeline.parse e = .ok p) (he : ∃ c ∈ e.toList, isBlank c = false) :
    let engine := ((ofRegistries filters functions settings).serveAll orders rs).2
    let value := engine.evaluate host scope e
    let chosen := (engine.render host order scope
      ("\x7b% if " ++ e ++ " %\x7dA\x7b% else %\x7dB\x7b% endif %\x7d")).1
    let shown := (engine.render host order' scope ("\x7b\x7b " ++ e ++ " \x7d\x7d")).1
    (chosen = .ok "A" ↔ ∃ v, value = .ok v ∧ v.truthy = true) ∧
      (chosen = .ok "B" ↔ ∃ v, value = .ok v ∧ v.truthy = false) ∧
      (∀ root, (∃ e', chosen = .error e' ∧ e'.root = root) ↔ ∃ e', value = .error e' ∧ e'.root = root) ∧
      ((∃ source, Node.ofTemplate ("\x7b\x7b " ++ e ++ " \x7d\x7d") = [.expression source]) →
        (∀ v, value = .ok v → shown = .ok v.display) ∧
        ∀ cause, value = .error cause →
          ((∃ missing, (engine.env host scope).LeftUndefined ⟨0, []⟩ p missing) → shown = .ok "") ∧
          ((¬ ∃ missing, (engine.env host scope).LeftUndefined ⟨0, []⟩ p missing) →
            ∃ e', shown = .error e' ∧ e'.root = cause.root)) := by
  intro engine value chosen shown
  have htrim := Pipeline.parse_trim hp he
  have hsettings : engine.settings = settings := settings_serveAll _ orders rs
  have hrules : engine.rules = ⟨some 256, false⟩ := by
    rw [rules, hsettings, hdepth, hstrict]
  have hvalue : value = (engine.env host scope).evalStrict ⟨0, []⟩ p := by
    simp only [value, evaluate, hp]
    rfl
  have hrender (order : MapOrder) (template : String) : (engine.render host order scope template).1 =
      Render.nodes ⟨some 256, false⟩ order (engine.env host scope) 0 (Node.ofTemplate template) := by
    show engine.renderNodes host order scope (engine.parse template).1 = _
    rw [parse_serveAll filters functions settings orders rs template, renderNodes, hrules]
  have hbound : ∀ limit ∈ (⟨some 256, false⟩ : Rules).maxDepth, 0 < limit := by simp
  obtain ⟨content, htemplate⟩ := Node.ofTemplate_twoBranches hp he
  have hchosen : chosen = (locate (Tag.source ⟨.ifTag (String.ofList (trim e.toList)), content⟩) value).map
      fun v => if v.truthy then "A" else "B" := by
    have hcondition : Render.clauseValue (engine.env host scope) 0 (String.ofList (trim e.toList)) = value := by
      rw [hvalue, Render.clauseValue, htrim]
      rfl
    rw [← hcondition, ← Render.nodes_twoBranches hbound, ← htemplate]
    exact hrender order _
  obtain ⟨htrue, hfalse, hfails⟩ := choice_iff hchosen
  refine ⟨htrue, hfalse, hfails, ?_⟩
  rintro ⟨source, hsource⟩
  obtain rfl := Node.source_of_ofTemplate he hsource
  obtain ⟨hdisplay, hundefined⟩ := Render.interpolate_lenient (engine.env host scope) (some 256) 0 htrim
  have hshown : shown = _ := hrender order' _
  rw [hsource, Render.nodes_expression] at hshown
  rw [hshown, hvalue]
  refine ⟨fun v hv => ?_, fun cause hcause => ⟨fun hmissing => ?_, fun hnot => ?_⟩⟩
  · rw [hdisplay v hv]
    rfl
  · rw [(hundefined cause hcause).1 hmissing]
    rfl
  · rw [(hundefined cause hcause).2 hnot]
    exact ⟨_, rfl, rfl⟩

/-- A condition that holds by a global name, and a variable that is missing. -/
theorem evaluate_render_global :
    let order : MapOrder := fun _ => .stored
    let engine := ((ofRegistries .empty .empty {}).serveAll (fun _ => order) [.withGlobal "n" (.int 3)]).2
    let render (template : String) := (engine.render .bare order .empty template).1
    render ("\x7b% if " ++ " n > 2 " ++ " %\x7dA\x7b% else %\x7dB\x7b% endif %\x7d") = .ok "A" ∧
      render ("\x7b\x7b " ++ " n > 2 " ++ " \x7d\x7d") = .ok "true" ∧
      (∃ e', render ("\x7b% if " ++ "x" ++ " %\x7dA\x7b% else %\x7dB\x7b% endif %\x7d") = .error e' ∧
        e'.root = .undefinedVariable "x") ∧
      render ("\x7b\x7b " ++ "x" ++ " \x7d\x7d") = .ok "" := by
  intro order engine render
  have hdefault : ({} : Settings).maxRenderDepth = ({} : Settings).maxRenderDepth := rfl
  obtain ⟨p, hp⟩ := Pipeline.exists_of_isSome
    (by decide +kernel : (Pipeline.parse " n > 2 ").toOption.isSome = true)
  obtain ⟨q, hq⟩ := Pipeline.exists_of_isSome
    (by decide +kernel : (Pipeline.parse "x").toOption.isSome = true)
  obtain ⟨htrue, -, -, hshown⟩ := evaluate_render .empty .empty hdefault rfl (fun _ => order)
    [.withGlobal "n" (.int 3)] order order .bare .empty hp ⟨'n', by decide, by decide⟩
  obtain ⟨-, -, hfails, hmissing⟩ := evaluate_render .empty .empty hdefault rfl (fun _ => order)
    [.withGlobal "n" (.int 3)] order order .bare .empty hq ⟨'x', by decide, by decide⟩
  have hnodes : Node.ofTemplate ("\x7b\x7b " ++ " n > 2 " ++ " \x7d\x7d") = [.expression "n > 2"] ∧
      Node.ofTemplate ("\x7b\x7b " ++ "x" ++ " \x7d\x7d") = [.expression "x"] := by decide +kernel
  have hholds : ((engine.evaluate .bare .empty " n > 2 ").map fun v => (v.truthy, v.display)) =
      .ok (true, "true") := by decide +kernel
  obtain ⟨v, hvalue, hpair⟩ := Result.map_eq_ok hholds
  obtain ⟨htruthy, hdisplay⟩ := Prod.mk.inj hpair
  -- The pipeline has an outcome, but no value, so the outcome is undefined.
  have houtcome : (((Pipeline.parse "x").bind fun q => (engine.env .bare .empty).evalPipeline ⟨0, []⟩ q).map
      Outcome.value).map (Except.map fun _ => ()) = .ok (.error (.undefinedVariable "x")) := by decide +kernel
  rw [hq] at houtcome
  obtain ⟨r, hr, hlost⟩ := Result.map_eq_ok houtcome
  obtain ⟨o, ho, rfl⟩ := Result.map_eq_ok hr
  have hpipeline : (engine.env .bare .empty).evalPipeline ⟨0, []⟩ q = .ok o := ho
  cases o with
  | defined v | rescued v => cases hlost
  | undefined cause =>
    obtain rfl : cause = .undefinedVariable "x" := Except.error.inj hlost
    have hundefined : engine.evaluate .bare .empty "x" = .error (.undefinedVariable "x") := by
      simp only [evaluate, hq, Env.evalStrict, hpipeline, bind, Except.bind]
      rfl
    refine ⟨htrue.2 ⟨v, hvalue, htruthy⟩, ?_, (hfails _).2 ⟨_, hundefined, rfl⟩, ?_⟩
    · rw [← hdisplay]
      exact (hshown ⟨_, hnodes.1⟩).1 v hvalue
    · exact ((hmissing ⟨_, hnodes.2⟩).2 _ hundefined).1 ⟨_, Env.evalPipeline_undefined.1 hpipeline⟩

end Engine

end Stencil

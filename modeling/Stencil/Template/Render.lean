import Stencil.Eval
import Stencil.Expr.Parser
import Stencil.Template.Block
import Stencil.Template.MapOrder

/-! Rendering sequences of nodes. -/
namespace Stencil

/-- How far rendering goes: how deep blocks may nest, and whether undefined variables fail. -/
structure Rules where
  maxDepth : Option Nat
  strict : Bool
  deriving DecidableEq, Repr

namespace Render

/-- The text of an expression tag. Undefined variables leave no text unless the rules are strict. -/
def interpolate (rules : Rules) (env : Env) (depth : Nat) (source : String) : Result String := do
  let p ← Pipeline.parse source
  match ← env.evalPipeline ⟨depth, []⟩ p with
  | .defined v | .rescued v => .ok v.display
  | .undefined cause => if rules.strict then .error cause else .ok ""

/-- The value of a condition or of a collection, which has to be defined. -/
def clauseValue (env : Env) (depth : Nat) (source : String) : Result Value := do
  let p ← Pipeline.parse source
  env.evalStrict ⟨depth, []⟩ p

/-- The two values that an item of a list is unpacked into. -/
def unpack (key value : String) (position : Nat) : Value → Result (List (String × Value))
  | .list [a, b] => .ok [(key, a), (value, b)]
  | v => .error (.type (.unpack v.typeName position))

/-- The names that each iteration of a loop binds. Maps are gone through in the order of an arrangement. -/
def bindings (a : Arrangement) (target : LoopTarget) (collection : Value) :
    Result (List (List (String × Value))) :=
  match target, collection with
  | _, .null => .ok []
  | .single name, .list items => .ok (items.map fun v => [(name, v)])
  | .single name, .string s => .ok (s.toList.map fun c => [(name, .ofChar c)])
  | .single name, .map entries =>
    .ok ((entries.along (a.arrange entries.names)).map fun e => [(name, e.2)])
  | .pair key value, .map entries =>
    .ok ((entries.along (a.arrange entries.names)).map fun e => [(key, .string e.1), (value, e.2)])
  | .pair key value, .list items =>
    items.zipIdx.mapM fun (v, position) => unpack key value position v
  | .pair .., .string _ => .error (.type .unpackCharacters)
  | _, v => .error (.notIterable (.object v.typeName))

/-- What a loop goes through. -/
def iterations (a : Arrangement) (env : Env) (depth : Nat) (clause : String) :
    Result (List (List (String × Value))) := do
  let c ← LoopClause.parse clause
  let v ← clauseValue env depth c.collection
  bindings a c.target v

/-- The environment of an iteration: `loop` and the names of the target over the rest. -/
def iterationEnv (env : Env) (i : Iteration) (bound : List (String × Value)) : Env :=
  { env with scope := env.scope.child ((Entries.empty.insert "loop" i.value).insertAll bound) }

/-- Whether a branch is taken as far as its own tag goes: an `else` always is. -/
def holds (env : Env) (depth : Nat) (nodes : List Node) (b : Branch) : Result Bool :=
  match nodes[b.tag]?.bind Node.tag? with
  | none => .ok false
  | some t =>
    match t.directive with
    | .elseTag => .ok true
    | _ => (locate t.source (clauseValue env depth t.expression)).map Value.truthy

/-- The first branch whose condition holds. Later conditions are not evaluated. -/
def choose (env : Env) (depth : Nat) (nodes : List Node) :
    (branches : List Branch) → Result (Option { b : Branch // b ∈ branches })
  | [] => .ok none
  | b :: bs =>
    match holds env depth nodes b with
    | .error e => .error e
    | .ok true => .ok (some ⟨b, .head _⟩)
    | .ok false => (choose env depth nodes bs).map fun o => o.map fun c => ⟨c.1, .tail _ c.2⟩

mutual

/-- The text of a sequence of nodes. -/
def nodes (rules : Rules) (order : MapOrder) (env : Env) (depth : Nat) (ns : List Node) :
    Result String :=
  match rules.maxDepth with
  | none => nodesFrom rules order env depth ns 0
  | some limit =>
    if limit < depth then .error (.depthLimit limit) else nodesFrom rules order env depth ns 0
termination_by 2 * ns.length + 1

/-- The text of the nodes from index `i` on. -/
def nodesFrom (rules : Rules) (order : MapOrder) (env : Env) (depth : Nat) (ns : List Node)
    (i : Nat) : Result String :=
  if hi : i < ns.length then
    match ns[i] with
    | .text s => do
      let rest ← nodesFrom rules order env depth ns (i + 1)
      .ok (s ++ rest)
    | .comment _ => nodesFrom rules order env depth ns (i + 1)
    | .expression source => do
      let s ← locate ("\x7b\x7b " ++ source ++ " \x7d\x7d") (interpolate rules env depth source)
      let rest ← nodesFrom rules order env depth ns (i + 1)
      .ok (s ++ rest)
    | .tag t =>
      match t.directive with
      | .ifTag _ =>
        match hc : Block.chain ns i with
        | .error e => .error (.inTag t.source e)
        | .ok chain =>
          match choose env depth ns chain.branches with
          | .error e => .error e
          | .ok none => nodesFrom rules order env depth ns (chain.stop + 1)
          | .ok (some ⟨b, hb⟩) => do
            let s ← nodes rules (order.inside b.tag 0) env (depth + 1) (Block.body ns b.tag b.stop)
            let rest ← nodesFrom rules order env depth ns (chain.stop + 1)
            .ok (s ++ rest)
      | .forTag clause =>
        match hs : Block.loopEnd ns i with
        | .error e => .error (.inTag t.source e)
        | .ok stop =>
          match locate t.source (iterations (order [i]) env depth clause) with
          | .error e => .error e
          | .ok rounds => do
            let length := rounds.length
            let texts ← rounds.zipIdx.mapM fun (bound, index0) =>
              nodes rules (order.inside i index0) (iterationEnv env ⟨index0, length⟩ bound)
                (depth + 1) (Block.body ns i stop)
            let rest ← nodesFrom rules order env depth ns (stop + 1)
            .ok (String.join texts ++ rest)
      | .unknown diagnostic => .error (.inTag t.source (.malformedTag (.unknown diagnostic)))
      | _ => .error (.inTag t.source (.malformedTag (.stray t.kind.keyword)))
  else .ok ""
termination_by 2 * (ns.length - i)
decreasing_by
  · omega
  · omega
  · omega
  · have := (Block.chainFrom_bounds hc).2
    omega
  · have := Block.length_body_lt b.stop hi ((Block.chainFrom_bounds hc).1 b hb)
    omega
  · have := (Block.chainFrom_bounds hc).2
    omega
  · have := Block.length_body_lt stop hi (Nat.le_refl i)
    omega
  · have := (Block.loopEnd_bounds hs).1
    omega

end

end Render

end Stencil

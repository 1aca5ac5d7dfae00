import Stencil.Proofs.Template.Nesting
import Stencil.Proofs.Template.Rendering
import Stencil.Proofs.Value.Repr

/-! The text of a flattened template tree is the text that recursion over the tree gives. -/
namespace Stencil.Item

open Render

variable {strict : Bool} {order : MapOrder} {env : Env} {depth : Nat}

/-! ### Values and texts of sources -/

theorem clauseValue_eq (source : String) : clauseValue env depth source = valueOf env depth source := by
  rw [clauseValue, valueOf]
  refine congrArg (Pipeline.parse source >>= ·) (funext fun p => ?_)
  rw [Env.evalStrict]
  cases env.evalPipeline ⟨depth, []⟩ p with
  | error e => rfl
  | ok o => cases o <;> rfl

theorem interpolate_eq (source : String) :
    interpolate ⟨none, strict⟩ env depth source = textOf strict env depth source := by
  rw [interpolate, textOf]
  refine congrArg (Pipeline.parse source >>= ·) (funext fun p => ?_)
  cases env.evalPipeline ⟨depth, []⟩ p with
  | error e => rfl
  | ok o => cases o <;> cases strict <;> rfl

/-! ### Rounds -/

/-- Items that get their names for themselves get them together. -/
theorem namesFrom_map {β : Type} {target : LoopTarget} {f : β → Value} {g : β → List (String × Value)}
    (h : ∀ b position, names position target (f b) = .ok (g b)) (bs : List β) (position : Nat) :
    namesFrom target position (bs.map f) = .ok (bs.map g) := by
  induction bs generalizing position with
  | nil => rfl
  | cons b bs ih =>
    rw [List.map_cons, namesFrom, h, ih]
    rfl

theorem namesFrom_pair (first second : String) (items : List Value) (position : Nat) :
    namesFrom (.pair first second) position items =
      (items.zipIdx position).mapM fun (v, position) => unpack first second position v := by
  induction items generalizing position with
  | nil => rfl
  | cons item items ih =>
    have hnames : names position (.pair first second) item = unpack first second position item := by
      rw [names.eq_def, unpack.eq_def]
      cases item with
      | list parts => rcases parts with _ | ⟨v, _ | ⟨w, _ | _⟩⟩ <;> rfl
      | null | bool | int | float | string | map | function | method | object => rfl
    rw [List.zipIdx_cons, List.mapM_cons, namesFrom, hnames, ih]
    rfl

/-- What a loop binds in its rounds is its items under its names. -/
theorem bindings_eq (a : Arrangement) (target : LoopTarget) (v : Value) :
    bindings a target v = items a target v >>= namesFrom target 0 := by
  cases target with
  | single name =>
    have hnames {β : Type} (f : β → Value) (bs : List β) :
        namesFrom (.single name) 0 (bs.map f) = .ok (bs.map fun b => [(name, f b)]) :=
      namesFrom_map (fun _ _ => rfl) bs 0
    cases v with
    | null | bool | int | float | function | method | object => rfl
    | list items => exact (List.map_id items ▸ hnames id items).symm
    | string s => exact (hnames (fun c => .string (String.singleton c)) s.toList).symm
    | map entries => exact (hnames Prod.snd (entries.along (a.arrange entries.names))).symm
  | pair first second =>
    cases v with
    | null | bool | int | float | string | function | method | object => rfl
    | list items => exact (namesFrom_pair first second items 0).symm
    | map entries => exact (namesFrom_map (fun _ _ => rfl) (entries.along (a.arrange entries.names)) 0).symm

theorem rounds_eq (a : Arrangement) (head : LoopHead) :
    rounds a env depth head = locate head.tag.source (iterations a env depth head.clause) := by
  rw [rounds, iterations, head.parse_clause]
  simp only [← clauseValue_eq, ← bindings_eq]
  rfl

theorem loopValue_eq (before behind : Nat) :
    Iteration.value ⟨before, before + 1 + behind⟩ = loopValue before behind := by
  have hlast : (before + 1 == before + 1 + behind) = (behind == 0) := by
    rw [Bool.eq_iff_iff, beq_iff_eq, beq_iff_eq]
    omega
  have hleft : before + 1 + behind - before = behind + 1 := by omega
  rw [Iteration.value, loopValue]
  simp only [hlast, hleft, Nat.add_sub_cancel]

theorem iterationEnv_eq (before behind : Nat) (bound : List (String × Value)) :
    iterationEnv env ⟨before, before + 1 + behind⟩ bound = roundEnv env before behind bound := by
  rw [iterationEnv, loopValue_eq]
  rfl

/-- Rounds that are numbered on from `before` are rendered one after the other. -/
theorem join_rounds (body : Nat → Env → Result String) {rounds : List (List (String × Value))}
    {before length : Nat} (hlength : before + rounds.length = length) :
    ((rounds.zipIdx before).mapM fun r => body r.2 (iterationEnv env ⟨r.2, length⟩ r.1)).map String.join =
      roundsText body env before rounds := by
  induction rounds generalizing before with
  | nil => rfl
  | cons bound later ih =>
    have hround : before + 1 + later.length = length := by
      rw [← hlength, List.length_cons]
      omega
    rw [List.zipIdx_cons, List.mapM_cons, roundsText, ← ih hround, ← hround, iterationEnv_eq]
    cases body before (roundEnv env before later.length bound) with
    | error e => rfl
    | ok s =>
      simp only [bind, Except.bind]
      cases (later.zipIdx (before + 1)).mapM fun r =>
          body r.2 (iterationEnv env ⟨r.2, before + 1 + later.length⟩ r.1) with
      | error e => rfl
      | ok texts => simp [Except.map, pure, Except.pure]

theorem loopText_eq (i : Nat) (body : List Node) (rounds : List (List (String × Value))) :
    loopText ⟨none, strict⟩ order env depth i body rounds =
      roundsText (fun round env => nodes ⟨none, strict⟩ (order.inside i round) env (depth + 1) body)
        env 0 rounds := by
  have hjoin (texts : Result (List String)) :
      (texts >>= fun texts => .ok (String.join texts)) = texts.map String.join := by
    cases texts <;> rfl
  rw [← join_rounds _ (Nat.zero_add rounds.length)]
  exact hjoin _

/-! ### Blocks -/

/-- What the renderer of nodes gives for the body of a block, in every environment. -/
def Agrees (strict : Bool) (items : List Item) : Prop :=
  ∀ order env depth, nodes ⟨none, strict⟩ order env depth (flattenAll items) =
    renderAll true strict order env depth 0 items

/-- Whether a branch is taken: the condition of its tag holds, or it is an `else`. -/
def armHolds (env : Env) (depth : Nat) (t : Tag) : Result Bool :=
  match t.directive with
  | .elseTag => .ok true
  | _ => guardHolds env depth t

/-- The text of the first branch that is taken, where the tag of the first one has the index `i`. -/
def armsText (strict : Bool) (order : MapOrder) (env : Env) (depth i : Nat) : List Arm → Result String
  | [] => .ok ""
  | a :: arms => do
    if ← armHolds env depth a.1 then renderAll true strict (order.inside i 0) env (depth + 1) 0 a.2
    else armsText strict order env depth (i + 1 + (flattenAll a.2).length) arms

theorem armsText_laterArms (i : Nat) (elifs : List (Guard × List Item))
    (otherwise : Option (String × List Item)) :
    armsText strict order env depth i (laterArms elifs otherwise) =
      renderElifs true strict order env depth
        (fun j => renderElse true strict order env depth j otherwise) i elifs := by
  induction elifs generalizing i with
  | nil =>
    cases otherwise with
    | none => rfl
    | some last => simp [laterArms, armsText, armHolds, elseTag, renderElifs, renderElse, bind, Except.bind]
  | cons branch elifs ih =>
    simp only [laterArms, armsText, armHolds, Guard.elifTag, renderElifs, ih]

theorem body_behind (pre ms post : List Node) (n : Node) :
    Block.body (pre ++ n :: (ms ++ post)) pre.length (pre.length + 1 + ms.length) = ms := by
  have hsplit : pre ++ n :: (ms ++ post) = (pre ++ [n]) ++ ms ++ post := by simp
  have htake : pre.length + 1 + ms.length = ((pre ++ [n]) ++ ms).length := by
    simp [Nat.add_assoc, Nat.add_comm 1]
  rw [Block.body, hsplit, htake, List.take_left]
  exact List.drop_left' (by simp)

theorem holds_tag {ns : List Node} {b : Branch} {t : Tag} (h : ns[b.tag]? = some (.tag t)) :
    holds env depth ns b = armHolds env depth t := by
  rw [holds, armHolds, h]
  simp only [Option.bind_some, Node.tag?]
  cases t.directive <;> simp only [guardHolds, clauseValue_eq]

/-- Of the branches where they are written, the one is taken that the tree says. -/
theorem branchText_spans (arms : List Arm) (harms : ∀ a ∈ arms, Agrees strict a.2)
    (pre post : List Node) :
    branchText ⟨none, strict⟩ order env depth (pre ++ flattenArms arms ++ post)
      (spans pre.length arms) = armsText strict order env depth pre.length arms := by
  induction arms generalizing pre with
  | nil => rfl
  | cons a arms ih =>
    have hnodes : pre ++ flattenArms (a :: arms) ++ post =
        pre ++ .tag a.1 :: (flattenAll a.2 ++ (flattenArms arms ++ post)) := by
      simp [flattenArms_cons]
    have hrest := ih (fun b hb => harms b (.tail _ hb)) (pre ++ .tag a.1 :: flattenAll a.2)
    have hlen : (pre ++ .tag a.1 :: flattenAll a.2).length =
        pre.length + 1 + (flattenAll a.2).length := by
      simp [Nat.add_assoc, Nat.add_comm 1]
    have hsame : pre ++ .tag a.1 :: flattenAll a.2 ++ flattenArms arms ++ post =
        pre ++ .tag a.1 :: (flattenAll a.2 ++ (flattenArms arms ++ post)) := by
      simp
    rw [hsame, hlen] at hrest
    rw [hnodes, spans, branchText, armsText, hrest, holds_tag (t := a.1) (by simp)]
    simp only [body_behind, harms a (.head _) _ env (depth + 1)]

/-- The renderer goes through an item as the tree says and goes on behind it. -/
def Renders (strict : Bool) (item : Item) : Prop :=
  ∀ order env depth pre post,
    nodesFrom ⟨none, strict⟩ order env depth (pre ++ (item.flatten ++ post)) pre.length = (do
      let s ← render true strict order env depth pre.length item
      let rest ← nodesFrom ⟨none, strict⟩ order env depth (pre ++ (item.flatten ++ post))
        (pre.length + item.flatten.length)
      .ok (s ++ rest))

theorem renders_conditional (guard : Guard) (body : List Item) (elifs : List (Guard × List Item))
    (otherwise : Option (String × List Item)) (closing : String)
    (harms : ∀ a ∈ arms guard body elifs otherwise, Agrees strict a.2) :
    Renders strict (conditional guard body elifs otherwise closing) := by
  intro order env depth pre post
  have hnodes : pre ++ ((conditional guard body elifs otherwise closing).flatten ++ post) =
      pre ++ flattenArms (arms guard body elifs otherwise) ++ .tag (endIfTag closing) :: post := by
    simp [flatten_conditional]
  have hat : (pre ++ flattenArms (arms guard body elifs otherwise) ++
      .tag (endIfTag closing) :: post)[pre.length]? = some (.tag guard.ifTag) := by
    simp [arms, flattenArms_cons]
  have hlen : pre.length + (conditional guard body elifs otherwise closing).flatten.length =
      pre.length + (flattenArms (arms guard body elifs otherwise)).length + 1 := by
    simp [flatten_conditional, Nat.add_assoc]
  rw [hnodes, hlen, nodesFrom_if hat rfl, Block.chain,
    chainFrom_arms (branchOrder_arms guard body elifs otherwise), render, refusal?]
  cases firstUnknown? ((arms guard body elifs otherwise).flatMap Prod.snd) with
  | some t => rfl
  | none =>
    simp only [branchText_spans _ harms]
    simp only [arms, armsText, armsText_laterArms]
    rfl

theorem renders_loop (head : LoopHead) (body : List Item) (closing : String)
    (hbody : Agrees strict body) : Renders strict (loop head body closing) := by
  intro order env depth pre post
  have hnodes : pre ++ ((loop head body closing).flatten ++ post) =
      pre ++ .tag head.tag :: (flattenAll body ++ .tag (endForTag closing) :: post) := by
    simp [flatten]
  have hlen : pre.length + (loop head body closing).flatten.length =
      pre.length + 1 + (flattenAll body).length + 1 := by
    simp only [flatten, List.length_append, List.length_cons, List.length_nil]
    omega
  have hend := loopEnd_loop pre post head body closing
  rw [List.append_assoc, hnodes] at hend
  rw [hnodes, hlen, nodesFrom_for (t := head.tag) (by simp) rfl, hend, render, refusal?]
  cases firstUnknown? body with
  | some t => rfl
  | none =>
    have hbodies : (fun round env => nodes ⟨none, strict⟩ (order.inside pre.length round) env (depth + 1)
        (flattenAll body)) =
        fun round env => renderAll true strict (order.inside pre.length round) env (depth + 1) 0 body :=
      funext fun round => funext fun env => hbody (order.inside pre.length round) env (depth + 1)
    simp only [body_behind, rounds_eq, loopText_eq, hbodies]
    cases locate head.tag.source (iterations (order [pre.length]) env depth head.clause) <;> rfl

theorem agrees_arms {guard : Guard} {body : List Item} {elifs : List (Guard × List Item)}
    {otherwise : Option (String × List Item)} (hbody : Agrees strict body)
    (helifs : ∀ branch ∈ elifs, Agrees strict branch.2)
    (hlast : ∀ last ∈ otherwise, Agrees strict last.2) :
    ∀ a ∈ arms guard body elifs otherwise, Agrees strict a.2 := by
  have hlater : ∀ a ∈ laterArms elifs otherwise, Agrees strict a.2 := by
    induction elifs with
    | nil =>
      cases otherwise with
      | none => simp [laterArms]
      | some last => simpa [laterArms] using hlast last rfl
    | cons branch elifs ih =>
      intro a ha
      rcases List.mem_cons.1 ha with rfl | ha
      · exact helifs branch (.head _)
      · exact ih (fun b hb => helifs b (.tail _ hb)) a ha
  intro a ha
  rcases List.mem_cons.1 ha with rfl | ha
  · exact hbody
  · exact hlater a ha

mutual

theorem renders (strict : Bool) : ∀ item : Item, Renders strict item
  | text s => fun order env depth pre post => by
    rw [nodesFrom_text (s := s) (by simp [flatten])]
    rfl
  | comment s => fun order env depth pre post => by
    rw [nodesFrom_comment (s := s) (by simp [flatten])]
    simp only [flatten, render, List.length_singleton, bind, Except.bind, String.empty_append]
    cases nodesFrom ⟨none, strict⟩ order env depth (pre ++ ([.comment s] ++ post)) (pre.length + 1) <;> rfl
  | expression source => fun order env depth pre post => by
    have hat : (pre ++ ((expression source).flatten ++ post))[pre.length]? =
        some (.expression source) := by
      simp [flatten]
    rw [nodesFrom_expression hat, interpolate_eq]
    rfl
  | unknown diagnostic content => fun order env depth pre post => by
    have hat : (pre ++ ((unknown diagnostic content).flatten ++ post))[pre.length]? =
        some (.tag ⟨.unknown diagnostic, content⟩) := by
      simp [flatten]
    rw [nodesFrom_unknown hat rfl]
    rfl
  | conditional guard body elifs otherwise closing =>
    renders_conditional guard body elifs otherwise closing
      (agrees_arms (agrees strict body) (agrees_elifs strict elifs) (agrees_else strict otherwise))
  | loop head body closing => renders_loop head body closing (agrees strict body)

theorem nodesFrom_flattenAll (strict : Bool) (order : MapOrder) (env : Env) (depth : Nat) :
    ∀ (items : List Item) (pre : List Node),
      nodesFrom ⟨none, strict⟩ order env depth (pre ++ flattenAll items) pre.length =
        renderAll true strict order env depth pre.length items
  | [], pre => by
    rw [flattenAll, List.append_nil, nodesFrom_end (Nat.le_refl _), renderAll]
  | item :: items, pre => by
    have hrest := nodesFrom_flattenAll strict order env depth items (pre ++ item.flatten)
    rw [List.append_assoc, List.length_append] at hrest
    rw [flattenAll, renders strict item, hrest, renderAll]

theorem agrees (strict : Bool) (items : List Item) : Agrees strict items := by
  intro order env depth
  rw [nodes_unbounded]
  exact nodesFrom_flattenAll strict order env depth items []

theorem agrees_elifs (strict : Bool) : ∀ elifs : List (Guard × List Item),
    ∀ branch ∈ elifs, Agrees strict branch.2
  | (guard, body) :: elifs, branch, h => by
    rcases List.mem_cons.1 h with rfl | h
    · exact agrees strict body
    · exact agrees_elifs strict elifs branch h

theorem agrees_else (strict : Bool) : ∀ otherwise : Option (String × List Item),
    ∀ last ∈ otherwise, Agrees strict last.2
  | some (content, body), last, h => by
    obtain rfl := Option.some.inj h
    exact agrees strict body

end

/-- Rendering the nodes that a tree is written as gives the text, or the failure, of the tree, in whatever orders
loops go through maps. A block that holds an unknown tag of its own fails as soon as it is reached. -/
theorem nodes_flattenAll (strict : Bool) (order : MapOrder) (env : Env) (items : List Item) :
    nodes ⟨none, strict⟩ order env 0 (flattenAll items) = renderAll true strict order env 0 0 items :=
  agrees strict items order env 0

/-- A conditional that is not taken, with an unknown tag in its body. -/
def untakenUnknown : List Item :=
  [conditional ⟨"0", "if 0"⟩ [unknown "foo" "foo"] [] none "endif"]

/-- The unknown tag fails although nothing of the body is rendered. -/
theorem untakenUnknown_fails :
    let order : MapOrder := fun _ => .stored
    let env : Env := ⟨.bare, .empty, .empty, .empty⟩
    nodes ⟨none, false⟩ order env 0 (flattenAll untakenUnknown) ≠
      renderAll false false order env 0 0 untakenUnknown := by
  intro order env
  have hzero : valueOf env 0 "0" = .ok (.int 0) := by
    rw [← clauseValue_eq]
    exact clauseValue_of_denotes _ 0 (denotes_int 0)
  have hplain : renderAll false false order env 0 0 untakenUnknown = .ok "" := by
    simp only [untakenUnknown, renderAll, render, guardHolds, Guard.ifTag, Tag.expression, hzero]
    rfl
  have hvetted : renderAll true false order env 0 0 untakenUnknown =
      .error (.inTag "\x7b% if 0 %\x7d"
        (.malformedTag (.unknownInBlock "\x7b% foo %\x7d" .branching "foo"))) := by
    rfl
  rw [agrees, hplain, hvetted]
  intro h
  cases h

end Stencil.Item

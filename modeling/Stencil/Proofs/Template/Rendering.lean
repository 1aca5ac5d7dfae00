import Stencil.Template.Render

/-! What one node contributes to the text of a sequence of nodes. -/
namespace Stencil.Render

variable {rules : Rules} {order : MapOrder} {env : Env} {depth : Nat} {ns : List Node} {i : Nat}

/-- The text of the first branch that is taken; none is taken if no condition holds. -/
def branchText (rules : Rules) (order : MapOrder) (env : Env) (depth : Nat) (ns : List Node) :
    List Branch → Result String
  | [] => .ok ""
  | b :: bs => do
    if ← holds env depth ns b then
      nodes rules (order.inside b.tag 0) env (depth + 1) (Block.body ns b.tag b.stop)
    else branchText rules order env depth ns bs

/-- The texts of a body in all rounds of the loop that the tag at index `i` opens. -/
def loopText (rules : Rules) (order : MapOrder) (env : Env) (depth i : Nat) (body : List Node)
    (rounds : List (List (String × Value))) : Result String := do
  let texts ← rounds.zipIdx.mapM fun (bound, index0) =>
    nodes rules (order.inside i index0) (iterationEnv env ⟨index0, rounds.length⟩ bound) (depth + 1) body
  .ok (String.join texts)

theorem choose_eq (bs : List Branch) :
    (match choose env depth ns bs with
      | .error e => .error e
      | .ok none => .ok ""
      | .ok (some ⟨b, _⟩) =>
        nodes rules (order.inside b.tag 0) env (depth + 1) (Block.body ns b.tag b.stop)) =
      branchText rules order env depth ns bs := by
  induction bs with
  | nil => rfl
  | cons b bs ih =>
    rw [choose, branchText, ← ih]
    cases holds env depth ns b with
    | error e => rfl
    | ok taken =>
      cases taken with
      | true => rfl
      | false =>
        cases choose env depth ns bs with
        | error e => rfl
        | ok o => cases o <;> rfl

theorem nodesFrom_end (h : ns.length ≤ i) : nodesFrom rules order env depth ns i = .ok "" := by
  rw [nodesFrom, dif_neg (Nat.not_lt.2 h)]

theorem nodesFrom_text {s : String} (h : ns[i]? = some (.text s)) :
    nodesFrom rules order env depth ns i = (do
      let rest ← nodesFrom rules order env depth ns (i + 1)
      .ok (s ++ rest)) := by
  obtain ⟨hi, hn⟩ := List.getElem?_eq_some_iff.1 h
  rw [nodesFrom, dif_pos hi]
  simp only [hn]

theorem nodesFrom_comment {s : String} (h : ns[i]? = some (.comment s)) :
    nodesFrom rules order env depth ns i = nodesFrom rules order env depth ns (i + 1) := by
  obtain ⟨hi, hn⟩ := List.getElem?_eq_some_iff.1 h
  rw [nodesFrom, dif_pos hi]
  simp only [hn]

theorem nodesFrom_expression {source : String} (h : ns[i]? = some (.expression source)) :
    nodesFrom rules order env depth ns i = (do
      let s ← locate ("\x7b\x7b " ++ source ++ " \x7d\x7d") (interpolate rules env depth source)
      let rest ← nodesFrom rules order env depth ns (i + 1)
      .ok (s ++ rest)) := by
  obtain ⟨hi, hn⟩ := List.getElem?_eq_some_iff.1 h
  rw [nodesFrom, dif_pos hi]
  simp only [hn]

theorem nodesFrom_if {t : Tag} {condition : String} (h : ns[i]? = some (.tag t))
    (ht : t.directive = .ifTag condition) :
    nodesFrom rules order env depth ns i =
      (match Block.chain ns i with
      | .error e => .error (.inTag t.source e)
      | .ok chain => do
        let s ← branchText rules order env depth ns chain.branches
        let rest ← nodesFrom rules order env depth ns (chain.stop + 1)
        .ok (s ++ rest)) := by
  obtain ⟨hi, hn⟩ := List.getElem?_eq_some_iff.1 h
  rw [nodesFrom, dif_pos hi]
  simp only [hn, ht]
  split
  · next e he => rw [he]
  · next chain hc =>
    rw [hc]
    simp only [← choose_eq]
    cases choose env depth ns chain.branches with
    | error e => rfl
    | ok o =>
      cases o with
      | none =>
        simp only [bind, Except.bind]
        cases nodesFrom rules order env depth ns (chain.stop + 1) <;> simp
      | some b => rfl

theorem nodesFrom_for {t : Tag} {clause : String} (h : ns[i]? = some (.tag t))
    (ht : t.directive = .forTag clause) :
    nodesFrom rules order env depth ns i =
      (match Block.loopEnd ns i with
      | .error e => .error (.inTag t.source e)
      | .ok stop => do
        let rounds ← locate t.source (iterations (order [i]) env depth clause)
        let s ← loopText rules order env depth i (Block.body ns i stop) rounds
        let rest ← nodesFrom rules order env depth ns (stop + 1)
        .ok (s ++ rest)) := by
  obtain ⟨hi, hn⟩ := List.getElem?_eq_some_iff.1 h
  rw [nodesFrom, dif_pos hi]
  simp only [hn, ht]
  split
  · next e he => rw [he]
  · next stop hs =>
    rw [hs]
    cases locate t.source (iterations (order [i]) env depth clause) with
    | error e => rfl
    | ok rounds =>
      simp only [loopText, bind_assoc]
      rfl

theorem nodesFrom_unknown {t : Tag} {diagnostic : String} (h : ns[i]? = some (.tag t))
    (ht : t.directive = .unknown diagnostic) :
    nodesFrom rules order env depth ns i =
      .error (.inTag t.source (.malformedTag (.unknown diagnostic))) := by
  obtain ⟨hi, hn⟩ := List.getElem?_eq_some_iff.1 h
  rw [nodesFrom, dif_pos hi]
  simp only [hn, ht]

/-- A tag that belongs into a block and stands in none. -/
theorem nodesFrom_stray {t : Tag} (h : ns[i]? = some (.tag t)) (ho : t.kind.opens? = none)
    (hu : t.kind ≠ .unknown) :
    nodesFrom rules order env depth ns i =
      .error (.inTag t.source (.malformedTag (.stray t.kind.keyword))) := by
  obtain ⟨hi, hn⟩ := List.getElem?_eq_some_iff.1 h
  rw [nodesFrom, dif_pos hi]
  simp only [hn]
  cases ht : t.directive with
  | ifTag | forTag => simp [Tag.kind, ht, TagKind.opens?] at ho
  | unknown => simp [Tag.kind, ht] at hu
  | elifTag | elseTag | endIf | endFor => rfl

/-- Whether blocks may nest this deep. -/
def entry (rules : Rules) (depth : Nat) : Result Unit :=
  match rules.maxDepth with
  | none => .ok ()
  | some limit => if limit < depth then .error (.depthLimit limit) else .ok ()

theorem entry_within (h : ∀ limit ∈ rules.maxDepth, depth ≤ limit) : entry rules depth = .ok () := by
  rw [entry]
  split
  · rfl
  · next limit hlimit => exact if_neg (Nat.not_lt.2 (h limit hlimit))

/-- Rendering asks once whether it may begin and then goes through the nodes. -/
theorem nodes_eq_entry : nodes rules order env depth ns = (do
    entry rules depth
    nodesFrom rules order env depth ns 0) := by
  rw [nodes, entry]
  cases rules.maxDepth with
  | none => rfl
  | some limit =>
    dsimp only
    split <;> rfl

theorem nodes_of_entry (h : entry rules depth = .ok ()) :
    nodes rules order env depth ns = nodesFrom rules order env depth ns 0 := by
  rw [nodes_eq_entry, h]
  rfl

theorem nodes_within (h : ∀ limit ∈ rules.maxDepth, depth ≤ limit) :
    nodes rules order env depth ns = nodesFrom rules order env depth ns 0 :=
  nodes_of_entry (entry_within h)

/-- At the outermost level no bound is exceeded. -/
theorem nodes_outermost : nodes rules order env 0 ns = nodesFrom rules order env 0 ns 0 :=
  nodes_within fun _ _ => Nat.zero_le _

theorem nodes_unbounded {strict : Bool} :
    nodes ⟨none, strict⟩ order env depth ns = nodesFrom ⟨none, strict⟩ order env depth ns 0 :=
  nodes_within fun _ h => by cases h

theorem nodesFrom_textOnly (s : String) : nodesFrom rules order env depth [.text s] 0 = .ok s := by
  have hend : nodesFrom rules order env depth [.text s] (0 + 1) = .ok "" := nodesFrom_end (Nat.le_refl _)
  rw [nodesFrom_text rfl, hend]
  exact congrArg Except.ok String.append_empty

theorem nodes_text (rules : Rules) (order : MapOrder) (env : Env) (s : String) :
    nodes rules order env 0 [.text s] = .ok s :=
  nodes_outermost.trans (nodesFrom_textOnly s)

theorem nodes_expression (source : String) : nodes rules order env 0 [.expression source] =
    locate ("\x7b\x7b " ++ source ++ " \x7d\x7d") (interpolate rules env 0 source) := by
  have hend : nodesFrom rules order env 0 [.expression source] (0 + 1) = .ok "" :=
    nodesFrom_end (Nat.le_refl _)
  rw [nodes_outermost, nodesFrom_expression rfl, hend]
  cases locate ("\x7b\x7b " ++ source ++ " \x7d\x7d") (interpolate rules env 0 source) with
  | error e => rfl
  | ok s => exact congrArg Except.ok String.append_empty

end Stencil.Render

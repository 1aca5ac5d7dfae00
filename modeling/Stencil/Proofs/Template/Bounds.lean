import Mathlib.Data.List.Dedup
import Stencil.Proofs.Template.Depth
import Stencil.Proofs.Template.Failures

/-! Bounds on the depth of blocks: a bound only cuts renderings off, and those of nodes that nest no
deeper not at all. Any other failure names a tag. -/
namespace Stencil.Render

open Block

section
variable {rules : Rules} {order : MapOrder} {env : Env} {depth limit : Nat} {ns : List Node} {i k : Nat}
  {r : Result String} {t : Tag}

theorem nests_of_opener {block : Family} (hn : ns[i]? = some (.tag t))
    (ho : t.kind.opens? = some block) (h : nests limit [] (ns.drop i) = true) :
    0 < limit ∧ nests limit [block] (ns.drop (i + 1)) = true := by
  obtain ⟨hi, hn⟩ := List.getElem?_eq_some_iff.1 hn
  rw [List.drop_eq_getElem_cons hi, hn] at h
  exact (nests_opener (n := .tag t) ho).1 h

theorem chain_nests {condition : String} {c : Chain} (hn : ns[i]? = some (.tag t))
    (ht : t.directive = .ifTag condition) (hc : chain ns i = .ok c)
    (h : nests limit [] (ns.drop i) = true) :
    0 < limit ∧ (∀ b ∈ c.branches, nests (limit - 1) [] (body ns b.tag b.stop) = true) ∧
      nests limit [] (ns.drop (c.stop + 1)) = true := by
  have ho : t.kind.opens? = some .branching := by
    rw [Tag.kind, ht]
    rfl
  obtain ⟨hlimit, hinside⟩ := nests_of_opener hn ho h
  exact ⟨hlimit, chainFrom_nests hinside hc⟩

theorem loop_nests {clause : String} {stop : Nat} (hn : ns[i]? = some (.tag t))
    (ht : t.directive = .forTag clause) (hstop : loopEnd ns i = .ok stop)
    (h : nests limit [] (ns.drop i) = true) :
    0 < limit ∧ nests (limit - 1) [] (body ns i stop) = true ∧
      nests limit [] (ns.drop (stop + 1)) = true := by
  have ho : t.kind.opens? = some .looping := by
    rw [Tag.kind, ht]
    rfl
  obtain ⟨hlimit, hinside⟩ := nests_of_opener hn ho h
  exact ⟨hlimit, loopEnd_nests hinside hstop⟩

/-- What comes behind a node or block nests no deeper. -/
theorem Gives.nests (hgives : Gives rules order env depth ns i r k)
    (h : nests limit [] (ns.drop i) = true) :
    nests limit [] (ns.drop k) = true := by
  have still {n : Node} (hn : ns[i]? = some n) (hkind : n.kind? = none) :
      Block.nests limit [] (ns.drop (i + 1)) = true := by
    obtain ⟨hi, rfl⟩ := List.getElem?_eq_some_iff.1 hn
    rw [List.drop_eq_getElem_cons hi,
      nests_still (by rw [Node.opens?, hkind]; rfl) (by rw [Node.closes?, hkind]; rfl)] at h
    exact h
  cases hgives with
  | text hn | comment hn | expression hn => exact still hn rfl
  | conditional hn ht hc => exact (chain_nests hn ht hc h).2.2
  | loop hn ht hstop => exact (loop_nests hn ht hstop h).2.2

end

/-- A rendering under a bound and one in the same environment under a bound that is no lower, or under
none. -/
theorem coupling_bound {d : Nat} {bound : Option Nat} (strict : Bool) (h : ∀ limit ∈ bound, d ≤ limit) :
    Coupling (· = .depthLimit d) ⟨some d, strict⟩ ⟨bound, strict⟩ fun env env' _ _ _ => env = env' where
  entry {_ _ depth _} _ := by
    by_cases hd : d < depth
    · exact .inr ⟨_, if_pos hd, rfl⟩
    · -- What one bound lets in, no higher one keeps out.
      have hle : depth ≤ d := Nat.not_lt.1 hd
      have hlower : entry ⟨some d, strict⟩ depth = .ok () := entry_within (by simpa using hle)
      have hhigher : entry ⟨bound, strict⟩ depth = .ok () :=
        entry_within fun limit hlimit => Nat.le_trans hle (h limit hlimit)
      exact .of_eq (hlower.trans hhigher.symm)
  expression := by
    rintro env _ depth ns i source rfl -
    exact .refl _
  conditional := by
    rintro env _ depth ns i t condition c rfl - - - b -
    exact ⟨rfl, rfl⟩
  loop := by
    rintro env _ depth ns i t clause stop rfl - - -
    exact ⟨fun _ => rfl, fun _ _ => rfl⟩
  next h _ := h

/-- A rendering under a bound and one under none, of nodes that nest no deeper than the bound leaves
room for. -/
theorem coupling_nests (limit : Nat) (strict : Bool) :
    Coupling (fun _ => False) ⟨some limit, strict⟩ ⟨none, strict⟩ fun env env' depth ns i =>
      env = env' ∧ ∃ d, depth + d ≤ limit ∧ nests d [] (ns.drop i) = true where
  entry {_ _ depth _} h := by
    obtain ⟨-, d, hd, -⟩ := h
    have hdepth : depth ≤ limit := by omega
    exact .of_eq (entry_within (by simpa using hdepth))
  expression := by
    rintro env _ depth ns i source ⟨rfl, -⟩ -
    exact .refl _
  conditional := by
    rintro env _ depth ns i t condition c ⟨rfl, d, hd, hnests⟩ hn ht hc b hb
    obtain ⟨hpos, hbranches, -⟩ := chain_nests hn ht hc hnests
    exact ⟨rfl, rfl, d - 1, by omega, hbranches b hb⟩
  loop := by
    rintro env _ depth ns i t clause stop ⟨rfl, d, hd, hnests⟩ hn ht hstop
    obtain ⟨hpos, hbody, -⟩ := loop_nests hn ht hstop hnests
    exact ⟨fun _ => rfl, fun _ _ => ⟨rfl, d - 1, by omega, hbody⟩⟩
  next := by
    rintro order env env' depth ns i k r ⟨henv, d, hd, hnests⟩ hgives
    exact ⟨henv, d, hd, hgives.nests hnests⟩

/-- Under a bound that the nesting keeps, rendering is the same as under none. -/
theorem nodes_of_nests {limit : Nat} (strict : Bool) (order : MapOrder) (env : Env) {ns : List Node}
    (h : nests limit [] ns = true) :
    nodes ⟨some limit, strict⟩ order env 0 ns = nodes ⟨none, strict⟩ order env 0 ns :=
  ((coupling_nests limit strict).nodes ⟨rfl, limit, by omega, h⟩).eq_of_never

/-- Rendering under a bound gives what rendering without a bound or under a higher one gives, or fails
because of the bound; and it does not where blocks nest no deeper. Under all bounds, loops go through maps in
the same orders. -/
theorem nodes_depthLimit (strict : Bool) (env : Env) (ns : List Node) (d : Nat)
    {orders : Option Nat → MapOrder}
    (hshared : ∀ bound bound' place, orders bound place = orders bound' place) :
    let bounded (bound : Option Nat) := nodes ⟨bound, strict⟩ (orders bound) env 0 ns
    (bounded (some d) = bounded none ∨ bounded (some d) = .error (.depthLimit d)) ∧
      (∀ d', d ≤ d' → bounded (some d) ≠ .error (.depthLimit d) →
        bounded (some d') = bounded (some d)) ∧
      (nests d [] ns = true → bounded (some d) = bounded none ∧
        ∀ limit, bounded (some d) ≠ .error (.depthLimit limit)) := by
  intro bounded
  have horders (bound : Option Nat) : orders bound = orders none := funext (hshared bound none)
  have hagrees (bound : Option Nat) (h : ∀ limit ∈ bound, d ≤ limit) :
      bounded (some d) = bounded bound ∨ bounded (some d) = .error (.depthLimit d) := by
    dsimp only [bounded]
    rw [horders (some d), horders bound]
    rcases (coupling_bound strict h).nodes rfl with heq | ⟨e, he, rfl⟩
    · exact .inl heq
    · exact .inr he
  refine ⟨hagrees none (fun limit h => by cases h), fun d' hd hnot => ?_, fun hnests => ?_⟩
  · rcases hagrees (some d') (fun limit h => by cases h; exact hd) with heq | hfails
    · exact heq.symm
    · exact absurd hfails hnot
  · have heq : bounded (some d) = bounded none := by
      dsimp only [bounded]
      rw [horders (some d), nodes_of_nests strict (orders none) env hnests]
    refine ⟨heq, fun limit hfails => ?_⟩
    rw [heq] at hfails
    cases nodes_failure hfails with
    | tooDeep hbound => cases hbound

/-- Two blocks, one in the other. -/
theorem nodes_depthLimit_nested :
    let opener : Tag := ⟨.ifTag "true", "if true"⟩
    let closer : Tag := ⟨.endIf, "endif"⟩
    let ns : List Node := [.tag opener, .tag opener, .text "deep", .tag closer, .tag closer]
    let order : MapOrder := fun _ => .stored
    let env : Env := ⟨.bare, .empty, .empty, .empty⟩
    nodes ⟨some 1, false⟩ order env 0 ns = .error (.depthLimit 1) ∧
      nodes ⟨some 2, false⟩ order env 0 ns = .ok "deep" ∧
      nodes ⟨some 5, false⟩ order env 0 ns = .ok "deep" := by
  intro opener closer ns order env
  have hdeep : nodes ⟨none, false⟩ order env 0 ns = .ok "deep" := by decide +kernel
  have hshared (_ _ : Option Nat) (place : List Nat) : order place = order place := rfl
  obtain ⟨-, hhigher, hnests⟩ := nodes_depthLimit false env ns 2 hshared
  obtain ⟨hbound, hnot⟩ := hnests (by decide)
  exact ⟨by decide +kernel, hbound.trans hdeep,
    (hhigher 5 (by decide) (hnot 2)).trans (hbound.trans hdeep)⟩

/-- A failure names a tag unless it is the bound that fails, which names none. The failures that name a tag
are those of rendering without a bound in the same orders; where blocks nest no deeper than the bound there
are no others. -/
theorem nodes_error_located {rules : Rules} {order : MapOrder} {env : Env} {ns : List Node} {e : Error}
    (h : nodes rules order env 0 ns = .error e) :
    (Located ns e ∨ ∃ limit, rules.maxDepth = some limit ∧ e = .depthLimit limit) ∧
      (Located ns e ↔ nodes ⟨none, rules.strict⟩ order env 0 ns = .error e) ∧
      ((∀ limit ∈ rules.maxDepth, nests limit [] ns = true) → Located ns e) := by
  obtain ⟨bound, strict⟩ := rules
  have hlocated : Located ns e ↔ nodes ⟨none, strict⟩ order env 0 ns = .error e := by
    constructor
    · intro hlocated
      cases bound with
      | none => exact h
      | some d =>
        have hnone : ∀ limit ∈ (none : Option Nat), d ≤ limit := fun limit hlimit => by cases hlimit
        rcases (coupling_bound strict hnone).nodes rfl with heq | ⟨e', he', rfl⟩
        · exact heq.symm.trans h
        · rw [h] at he'
          cases he'
          exact absurd hlocated not_located_depthLimit
    · intro hunbounded
      rcases (nodes_failure hunbounded).located with hlocated | ⟨limit, hlimit, -⟩
      · exact hlocated
      · cases hlimit
  refine ⟨(nodes_failure h).located, hlocated, fun hnests => hlocated.2 ?_⟩
  cases bound with
  | none => exact h
  | some d => rwa [← nodes_of_nests strict order env (hnests d rfl)]

/-- A condition that fails inside of another block. -/
theorem nodes_error_located_nested :
    let outer : Tag := ⟨.ifTag "true", "if true"⟩
    let inner : Tag := ⟨.ifTag "missing", "if missing"⟩
    let closer : Tag := ⟨.endIf, "endif"⟩
    let ns : List Node := [.tag outer, .tag inner, .text "x", .tag closer, .tag closer]
    let order : MapOrder := fun _ => .stored
    let env : Env := ⟨.bare, .empty, .empty, .empty⟩
    let e : Error := .inTag "\x7b% if missing %\x7d" (.undefinedVariable "missing")
    nodes ⟨some 2, false⟩ order env 0 ns = .error e ∧ Located ns e := by
  intro outer inner closer ns order env e
  have h : nodes ⟨some 2, false⟩ order env 0 ns = .error e := by decide +kernel
  refine ⟨h, (nodes_error_located h).2.2 fun limit hlimit => ?_⟩
  cases hlimit
  decide

/-- One block under a bound that admits none. -/
theorem nodes_depthLimit_unlocated :
    let opener : Tag := ⟨.ifTag "true", "if true"⟩
    let closer : Tag := ⟨.endIf, "endif"⟩
    let ns : List Node := [.tag opener, .text "x", .tag closer]
    let order : MapOrder := fun _ => .stored
    let env : Env := ⟨.bare, .empty, .empty, .empty⟩
    nodes ⟨some 0, false⟩ order env 0 ns = .error (.depthLimit 0) ∧ ¬ Located ns (.depthLimit 0) :=
  ⟨by decide +kernel, not_located_depthLimit⟩

end Stencil.Render

import Stencil.Proofs.Template.Coupling

/-! How deep blocks nest, and bounds on the depth: a bound only cuts renderings off, and those of nodes
that nest no deeper not at all. -/
namespace Stencil

/-- The family of the block that a node opens. -/
def Node.opens? (n : Node) : Option Family := n.kind?.bind TagKind.opens?

/-- The family of the block that a node closes. -/
def Node.closes? (n : Node) : Option Family := n.kind?.bind TagKind.closes?

namespace Block

/-- Whether the nodes close the blocks `opened`, the innermost of them first, and open and close blocks
like brackets on the way, with never more than `limit` blocks open. -/
def nests (limit : Nat) : List Family → List Node → Bool
  | opened, [] => opened.isEmpty
  | opened, n :: ns =>
    match n.opens?, n.closes? with
    | some block, _ => decide (opened.length < limit) && nests limit (block :: opened) ns
    | none, some block => opened.head? == some block && nests limit opened.tail ns
    | none, none => nests limit opened ns

section
variable {limit : Nat} {opened : List Family} {block : Family} {n : Node} {ns : List Node}

theorem nests_opener (ho : n.opens? = some block) : nests limit opened (n :: ns) = true ↔
    opened.length < limit ∧ nests limit (block :: opened) ns = true := by
  simp [nests, ho]

theorem nests_closer (ho : n.opens? = none) (hc : n.closes? = some block) :
    nests limit opened (n :: ns) = true ↔
      ∃ outer, opened = block :: outer ∧ nests limit outer ns = true := by
  cases opened with
  | nil => simp [nests, ho, hc]
  | cons b outer => simp [nests, ho, hc, and_assoc]

theorem nests_still (ho : n.opens? = none) (hc : n.closes? = none) :
    nests limit opened (n :: ns) = nests limit opened ns := by
  simp [nests, ho, hc]

end

section
variable {family block : Family} {kind : TagKind}

/-- The change of depth at an opener is that of the number of open blocks. -/
theorem count_opener (family : Family) (opened : List Family) (h : kind.opens? = some block) :
    ((block :: opened).count family : Int) = opened.count family + step family kind := by
  have hcloses : kind.closes? = none := closes?_of_opens h
  simp only [List.count_cons, step, h, hcloses, beq_iff_eq, Option.some.injEq, reduceCtorEq, if_false]
  split <;> omega

theorem count_closer (family : Family) (opened : List Family) (h : kind.closes? = some block) :
    (opened.count family : Int) = (block :: opened).count family + step family kind := by
  have hopens : kind.opens? = none := opens?_of_closes h
  simp only [List.count_cons, step, h, hopens, beq_iff_eq, Option.some.injEq, reduceCtorEq, if_false]
  split <;> omega

theorem step_still (ho : kind.opens? = none) (hc : kind.closes? = none) : step family kind = 0 := by
  simp [step, ho, hc]

theorem eq_nil_of_count {opened : List Family} (h : opened.count family = 0)
    (h' : opened.count (otherFamily family) = 0) :
    opened = [] := by
  cases opened with
  | nil => rfl
  | cons b opened => cases b <;> cases family <;> simp [otherFamily] at h h'

end

section
variable {limit : Nat} {family : Family} {stoppers : List TagKind} {ns : List Node} {stop : Nat}

/-- A scan inside a block passes over nodes that close every block that they open, and then the block goes
on. The depths that the scan counts are the numbers of the blocks inside this one. -/
theorem nests_of_scan (opened : List Family) {i : Nat} (h : nests limit (opened ++ [family]) ns = true)
    (hscan : scan family stoppers i (opened.count family + 1) (opened.count (otherFamily family)) ns =
      some stop) :
    ∃ passed rest, ns = passed ++ rest ∧ stop = i + passed.length ∧
      nests (limit - 1) opened passed = true ∧ nests limit [family] rest = true := by
  -- The block itself is the last of the open ones; the scan counts it too, so it starts at one.
  induction ns generalizing opened i with
  | nil => cases hscan
  | cons n ns ih =>
    have here (hopened : opened = []) (hi : some i = some stop) : ∃ passed rest,
        n :: ns = passed ++ rest ∧ stop = i + passed.length ∧ nests (limit - 1) opened passed = true ∧
          nests limit [family] rest = true := by
      subst hopened
      exact ⟨[], n :: ns, rfl, (Option.some.inj hi).symm, rfl, h⟩
    have later (inner : List Family) (hns : nests limit (inner ++ [family]) ns = true)
        (hn : ∀ passed, nests (limit - 1) inner passed = true →
          nests (limit - 1) opened (n :: passed) = true)
        (hnext : scan family stoppers (i + 1) (inner.count family + 1)
          (inner.count (otherFamily family)) ns = some stop) : ∃ passed rest,
        n :: ns = passed ++ rest ∧ stop = i + passed.length ∧ nests (limit - 1) opened passed = true ∧
          nests limit [family] rest = true := by
      obtain ⟨passed, rest, rfl, rfl, hpassed, hrest⟩ := ih inner hns hnext
      refine ⟨n :: passed, rest, rfl, ?_, hn passed hpassed, hrest⟩
      rw [List.length_cons]
      omega
    rw [scan] at hscan
    cases hk : n.kind? with
    | none =>
      have ho : n.opens? = none := by rw [Node.opens?, hk]; rfl
      have hc : n.closes? = none := by rw [Node.closes?, hk]; rfl
      rw [hk] at hscan
      rw [nests_still ho hc] at h
      exact later opened h (fun passed hpassed => by rwa [nests_still ho hc]) hscan
    | some kind =>
      have ho : n.opens? = kind.opens? := by rw [Node.opens?, hk]; rfl
      have hc : n.closes? = kind.closes? := by rw [Node.closes?, hk]; rfl
      rw [hk] at hscan
      dsimp only at hscan
      split at hscan
      · next hstop =>
        have hown : opened.count family = 0 := by omega
        have hother : opened.count (otherFamily family) = 0 := by omega
        exact here (eq_nil_of_count hown hother) hscan
      · cases hopens : kind.opens? with
        | some block =>
          rw [hopens] at ho
          have hcloses : kind.closes? = none := closes?_of_opens hopens
          rw [if_neg (by simp [hcloses])] at hscan
          obtain ⟨hlength, hns⟩ := (nests_opener ho).1 h
          rw [List.length_append, List.length_singleton] at hlength
          refine later (block :: opened) hns
            (fun passed hpassed => (nests_opener ho).2 ⟨by omega, hpassed⟩) ?_
          rw [count_opener family opened hopens, count_opener (otherFamily family) opened hopens]
          rwa [Int.add_right_comm]
        | none =>
          rw [hopens] at ho
          cases hcloses : kind.closes? with
          | none =>
            rw [hcloses] at hc
            rw [if_neg (by simp [hcloses]), step_still hopens hcloses, step_still hopens hcloses,
              Int.add_zero, Int.add_zero] at hscan
            rw [nests_still ho hc] at h
            exact later opened h (fun passed hpassed => by rwa [nests_still ho hc]) hscan
          | some block =>
            rw [hcloses] at hc
            obtain ⟨outer, houter, hns⟩ := (nests_closer ho hc).1 h
            -- A closer ends the segment where no inner block is open; else it closes the innermost one.
            cases opened with
            | nil =>
              obtain ⟨rfl, -⟩ := List.cons.inj houter
              rw [if_pos ⟨hcloses, by simp [step, hopens, hcloses]⟩] at hscan
              exact here rfl hscan
            | cons b inner =>
              obtain ⟨rfl, rfl⟩ := List.cons.inj houter
              have hown := count_closer family inner hcloses
              have hother := count_closer (otherFamily family) inner hcloses
              rw [if_neg (by omega), Int.add_right_comm, ← hown, ← hother] at hscan
              exact later inner hns (fun passed hpassed => (nests_closer ho hc).2 ⟨inner, rfl, hpassed⟩) hscan

/-- A segment of a block nests one level less deep than the block, and the block goes on behind it. -/
theorem nests_of_find {start : Nat} {closer : TagKind} (hc : closer.closes? = some family)
    (h : nests limit [family] (ns.drop (start + 1)) = true)
    (hfind : find ns start closer stoppers = .ok stop) :
    nests (limit - 1) [] (body ns start stop) = true ∧ nests limit [family] (ns.drop stop) = true := by
  rw [find_eq_ok hc] at hfind
  obtain ⟨passed, rest, hns, rfl, hpassed, hrest⟩ := nests_of_scan [] h hfind
  have hbody : body ns start (start + 1 + passed.length) = passed := by
    rw [body, List.drop_take, hns, Nat.add_sub_cancel_left, List.take_left]
  have hdrop : ns.drop (start + 1 + passed.length) = rest := by
    rw [← List.drop_drop, hns, List.drop_left]
  rw [hbody, hdrop]
  exact ⟨hpassed, hrest⟩

theorem drop_of_kindAt? {i : Nat} {kind : TagKind} (h : kindAt? ns i = some kind) :
    ∃ n, n.kind? = some kind ∧ ns.drop i = n :: ns.drop (i + 1) := by
  obtain ⟨n, hn, hkind⟩ := Option.bind_eq_some_iff.1 h
  obtain ⟨hi, rfl⟩ := List.getElem?_eq_some_iff.1 hn
  exact ⟨ns[i], hkind, List.drop_eq_getElem_cons hi⟩

/-- The tag that closes a block ends its level. -/
theorem nests_closed {kind : TagKind} (hkind : kindAt? ns stop = some kind)
    (hc : kind.closes? = some family) (h : nests limit [family] (ns.drop stop) = true) :
    nests limit [] (ns.drop (stop + 1)) = true := by
  obtain ⟨n, hn, hdrop⟩ := drop_of_kindAt? hkind
  have ho' : n.opens? = none := by
    rw [Node.opens?, hn]
    exact opens?_of_closes hc
  have hc' : n.closes? = some family := by
    rw [Node.closes?, hn]
    exact hc
  rw [hdrop, nests_closer ho' hc'] at h
  obtain ⟨outer, houter, h⟩ := h
  obtain ⟨-, rfl⟩ := List.cons.inj houter
  exact h

theorem loopEnd_nests {start : Nat} (h : nests limit [.looping] (ns.drop (start + 1)) = true)
    (hstop : loopEnd ns start = .ok stop) :
    nests (limit - 1) [] (body ns start stop) = true ∧ nests limit [] (ns.drop (stop + 1)) = true := by
  rw [loopEnd_eq] at hstop
  split at hstop
  · cases hstop
  · next stop' hfind =>
    split at hstop
    · next hkind =>
      obtain rfl := Except.ok.inj hstop
      obtain ⟨hbody, hrest⟩ := nests_of_find rfl h hfind
      exact ⟨hbody, nests_closed hkind rfl hrest⟩
    · cases hstop

theorem chainFrom_nests {start i : Nat} {c : Chain}
    (h : nests limit [.branching] (ns.drop (i + 1)) = true) (hc : chainFrom ns start i = .ok c) :
    (∀ b ∈ c.branches, nests (limit - 1) [] (body ns b.tag b.stop) = true) ∧
      nests limit [] (ns.drop (c.stop + 1)) = true := by
  fun_induction chainFrom ns start i generalizing c with
  | case1 => cases hc
  | case2 i stop hfind hkind =>
    obtain rfl := Except.ok.inj hc
    obtain ⟨hbody, hrest⟩ := nests_of_find rfl h hfind
    exact ⟨List.forall_mem_singleton.2 hbody, nests_closed hkind rfl hrest⟩
  | case3 i stop hfind _ hkind ih =>
    obtain ⟨c', hc', rfl⟩ := Result.map_eq_ok hc
    obtain ⟨hbody, hrest⟩ := nests_of_find rfl h hfind
    -- An `elif` or an `else` stays on the level of its block.
    have hnext : nests limit [.branching] (ns.drop (stop + 1)) = true := by
      rcases hkind with hkind | hkind <;>
      · obtain ⟨n, hn, hdrop⟩ := drop_of_kindAt? hkind
        rw [hdrop, nests_still (by rw [Node.opens?, hn]; rfl) (by rw [Node.closes?, hn]; rfl)] at hrest
        exact hrest
    obtain ⟨hbranches, hbehind⟩ := ih hnext hc'
    exact ⟨List.forall_mem_cons.2 ⟨hbody, hbranches⟩, hbehind⟩
  | case4 => cases hc

end

end Block
end Stencil

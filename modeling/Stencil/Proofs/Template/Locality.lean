import Stencil.Template.Block

/-! Where blocks end does not depend on the nodes before and behind them. -/
namespace Stencil

/-- The same failure where `n` more nodes come first. -/
def Error.behind (n : Nat) : Error → Error
  | .unclosedBlock block start => .unclosedBlock block (n + start)
  | e => e

/-- The same result where `n` more nodes come first; `f` moves what it is. -/
def Result.behind {α : Type} (n : Nat) (f : α → α) : Result α → Result α
  | .ok a => .ok (f a)
  | .error e => .error (e.behind n)

/-- The result does not depend on what comes behind: it is not that a block lacks its closer. -/
def Result.Conclusive {α : Type} (r : Result α) : Prop :=
  ∀ block start, r ≠ .error (.unclosedBlock block start)

theorem Result.conclusive_ok {α : Type} {r : Result α} {a : α} (h : r = .ok a) : r.Conclusive := by
  rintro block start rfl
  cases h

theorem Result.conclusive_malformed {α : Type} {r : Result α} {cause : TagFault}
    (h : r = .error (.malformedTag cause)) : r.Conclusive := by
  rintro block start rfl
  cases h

/-- The same branch where `n` more nodes come first. -/
def Branch.behind (n : Nat) (b : Branch) : Branch := ⟨n + b.tag, n + b.stop⟩

/-- The same branches and closer where `n` more nodes come first. -/
def Chain.behind (n : Nat) (c : Chain) : Chain := ⟨c.branches.map (Branch.behind n), n + c.stop⟩

namespace Block

theorem closes?_of_opens {kind : TagKind} {block : Family} (h : kind.opens? = some block) :
    kind.closes? = none := by
  cases kind <;> simp_all [TagKind.opens?, TagKind.closes?]

theorem opens?_of_closes {kind : TagKind} {block : Family} (h : kind.closes? = some block) :
    kind.opens? = none := by
  cases kind <;> simp_all [TagKind.opens?, TagKind.closes?]

section
variable {family : Family} {stoppers : List TagKind} {i stop : Nat} {own other : Int} {ns : List Node}

theorem scan_behind (n : Nat) : scan family stoppers (n + i) own other ns =
    (scan family stoppers i own other ns).map (n + ·) := by
  induction ns generalizing i own other with
  | nil => rfl
  | cons node ns ih =>
    simp only [scan, Nat.add_assoc, ih]
    cases node.kind? with
    | none => rfl
    | some kind =>
      dsimp only
      split
      · rfl
      · split <;> rfl

/-- A scan that ends does not look any further. -/
theorem scan_append (post : List Node) : scan family stoppers i own other ns = some stop ↔
    scan family stoppers i own other (ns ++ post) = some stop ∧ stop < i + ns.length := by
  induction ns generalizing i own other with
  | nil =>
    constructor
    · intro h
      cases h
    · rintro ⟨h, hlt⟩
      have hle := (scan_bounds h).1
      simp only [List.length_nil] at hlt
      omega
  | cons node ns ih =>
    have hnext : i + 1 + ns.length = i + (node :: ns).length := by
      rw [List.length_cons]
      omega
    have hhere : some i = some stop ↔ some i = some stop ∧ stop < i + (node :: ns).length := by
      refine ⟨fun h => ⟨h, ?_⟩, And.left⟩
      obtain rfl := Option.some.inj h
      simp
    rw [List.cons_append]
    simp only [scan]
    cases node.kind? with
    | none =>
      rw [← hnext]
      exact ih
    | some kind =>
      dsimp only
      split
      · exact hhere
      · split
        · exact hhere
        · rw [← hnext]
          exact ih

/-- A scan ends at a tag. -/
theorem tag_of_scan (h : scan family stoppers i own other ns = some stop) :
    ∃ t, ns[stop - i]? = some (.tag t) := by
  induction ns generalizing i own other with
  | nil => cases h
  | cons node ns ih =>
    have later {own' other' : Int} (hs : scan family stoppers (i + 1) own' other' ns = some stop) :
        ∃ t, (node :: ns)[stop - i]? = some (.tag t) := by
      obtain ⟨t, ht⟩ := ih hs
      have hle := (scan_bounds hs).1
      have hindex : stop - i = stop - (i + 1) + 1 := by omega
      exact ⟨t, by rw [hindex, List.getElem?_cons_succ, ht]⟩
    have here {kind : TagKind} (hk : node.kind? = some kind) (hs : some i = some stop) :
        ∃ t, (node :: ns)[stop - i]? = some (.tag t) := by
      obtain rfl := Option.some.inj hs
      cases node with
      | tag t => exact ⟨t, by simp⟩
      | text | expression | comment => cases hk
    simp only [scan] at h
    split at h
    · exact later h
    · next hk =>
      split at h
      · exact here hk h
      · split at h
        · exact here hk h
        · exact later h

end

section
variable {pre ns post : List Node} {start i stop : Nat} {closer : TagKind} {stoppers : List TagKind}

theorem kindAt?_behind (pre : List Node) : kindAt? (pre ++ ns) (pre.length + i) = kindAt? ns i := by
  rw [kindAt?, List.getElem?_append_right (Nat.le_add_right ..), Nat.add_sub_cancel_left]
  rfl

theorem kindAt?_append (h : i < ns.length) : kindAt? (ns ++ post) i = kindAt? ns i := by
  rw [kindAt?, List.getElem?_append_left h]
  rfl

theorem branchStoppers_behind (pre : List Node) :
    branchStoppers (pre ++ ns) (pre.length + i) = branchStoppers ns i := by
  rw [branchStoppers, kindAt?_behind]
  rfl

theorem branchStoppers_append (h : i < ns.length) : branchStoppers (ns ++ post) i = branchStoppers ns i := by
  rw [branchStoppers, kindAt?_append h]
  rfl

theorem find_behind (pre : List Node) : find (pre ++ ns) (pre.length + start) closer stoppers =
    (find ns start closer stoppers).behind pre.length (pre.length + ·) := by
  have hdrop : (pre ++ ns).drop (pre.length + (start + 1)) = ns.drop (start + 1) :=
    List.drop_length_add_append ..
  simp only [find]
  cases closer.closes? with
  | none => rfl
  | some family =>
    dsimp only
    rw [Nat.add_assoc, hdrop, scan_behind]
    cases scan family stoppers (start + 1) 1 0 (ns.drop (start + 1)) <;> rfl

theorem find_eq_ok {family : Family} (hc : closer.closes? = some family) :
    find ns start closer stoppers = .ok stop ↔
      scan family stoppers (start + 1) 1 0 (ns.drop (start + 1)) = some stop := by
  simp only [find, hc]
  cases scan family stoppers (start + 1) 1 0 (ns.drop (start + 1)) <;> simp

theorem find_append (post : List Node) : find ns start closer stoppers = .ok stop ↔
    find (ns ++ post) start closer stoppers = .ok stop ∧ stop < ns.length := by
  by_cases hstart : start + 1 ≤ ns.length
  · cases hc : closer.closes? with
    | none => simp [find, hc]
    | some family =>
      have hlength : start + 1 + (ns.drop (start + 1)).length = ns.length := by
        rw [List.length_drop]
        omega
      rw [find_eq_ok hc, find_eq_ok hc, List.drop_append_of_le_length hstart, scan_append post, hlength]
  · constructor
    · intro h
      have hbounds := find_bounds h
      omega
    · rintro ⟨h, hlt⟩
      have hbounds := find_bounds h
      omega

theorem tag_of_find (h : find ns start closer stoppers = .ok stop) : ∃ t, ns[stop]? = some (.tag t) := by
  cases hc : closer.closes? with
  | none => simp [find, hc] at h
  | some family =>
    rw [find_eq_ok hc] at h
    obtain ⟨t, ht⟩ := tag_of_scan h
    rw [List.getElem?_drop, Nat.add_sub_cancel' (scan_bounds h).1] at ht
    exact ⟨t, ht⟩

/-- At a tag, the failure does not name the index. -/
theorem misplaced_behind (pre : List Node) (block : Family) {t : Tag} (h : ns[i]? = some (.tag t)) :
    misplaced (pre ++ ns) (pre.length + i) block = misplaced ns i block := by
  have h' : (pre ++ ns)[pre.length + i]? = some (.tag t) := by
    rw [List.getElem?_append_right (Nat.le_add_right ..), Nat.add_sub_cancel_left, h]
  simp only [misplaced, h, h', Option.bind_some, Node.tag?]

/-- A misplaced node is a malformed tag. -/
theorem misplaced_malformed (ns : List Node) (i : Nat) (block : Family) :
    ∃ cause, misplaced ns i block = .malformedTag cause := ⟨_, rfl⟩

theorem behind_malformed {e : Error} (n : Nat) (h : ∃ cause, e = .malformedTag cause) :
    e.behind n = e := by
  obtain ⟨cause, rfl⟩ := h
  rfl

theorem loopEnd_eq (ns : List Node) (start : Nat) : loopEnd ns start =
    match find ns start .endFor [] with
    | .error e => .error e
    | .ok stop =>
      if kindAt? ns stop = some .endFor then .ok stop else .error (misplaced ns stop .looping) := by
  rw [loopEnd]
  cases find ns start .endFor [] <;> rfl

theorem loopEnd_behind (pre : List Node) : loopEnd (pre ++ ns) (pre.length + start) =
    (loopEnd ns start).behind pre.length (pre.length + ·) := by
  rw [loopEnd_eq, loopEnd_eq, find_behind]
  cases hf : find ns start .endFor [] with
  | error e => rfl
  | ok stop =>
    obtain ⟨t, ht⟩ := tag_of_find hf
    dsimp only [Result.behind]
    rw [kindAt?_behind, misplaced_behind pre .looping ht]
    split
    · rfl
    · exact congrArg Except.error (behind_malformed _ (misplaced_malformed ..)).symm

theorem loopEnd_eq_ok : loopEnd ns start = .ok stop ↔
    find ns start .endFor [] = .ok stop ∧ kindAt? ns stop = some .endFor := by
  rw [loopEnd_eq]
  cases find ns start .endFor [] with
  | error e => simp
  | ok stop' =>
    dsimp only
    split
    · next hk =>
      constructor
      · intro h
        obtain rfl := Except.ok.inj h
        exact ⟨rfl, hk⟩
      · exact And.left
    · next hk =>
      constructor
      · intro h
        cases h
      · rintro ⟨h, hk'⟩
        obtain rfl := Except.ok.inj h
        exact absurd hk' hk

theorem loopEnd_append (post : List Node) : loopEnd ns start = .ok stop ↔
    loopEnd (ns ++ post) start = .ok stop ∧ stop < ns.length := by
  rw [loopEnd_eq_ok, loopEnd_eq_ok, find_append post]
  constructor
  · rintro ⟨⟨hfind, hlt⟩, hk⟩
    exact ⟨⟨hfind, by rw [kindAt?_append hlt, hk]⟩, hlt⟩
  · rintro ⟨⟨hfind, hk⟩, hlt⟩
    exact ⟨⟨hfind, hlt⟩, by rwa [kindAt?_append hlt] at hk⟩

/-- The search for a closer fails only by coming to the end of the sequence. -/
theorem find_unclosed {block : Family} {e : Error} (hc : closer.closes? = some block)
    (h : find ns start closer stoppers = .error e) : e = .unclosedBlock block start := by
  simp only [find, hc] at h
  split at h
  · cases h
  · exact (Except.error.inj h).symm

theorem misplaced_append (post : List Node) (h : i < ns.length) (block : Family) :
    misplaced (ns ++ post) i block = misplaced ns i block := by
  rw [misplaced, List.getElem?_append_left h]
  rfl

/-- A search that ends before the end of the sequence does not depend on what comes behind. -/
theorem find_conclusive (post : List Node) (h : (find ns start closer stoppers).Conclusive) :
    find (ns ++ post) start closer stoppers = find ns start closer stoppers := by
  cases hf : find ns start closer stoppers with
  | ok stop => exact ((find_append post).1 hf).1
  | error e =>
    cases hc : closer.closes? with
    | none => rw [← hf, find, find, hc]
    | some family => exact absurd (find_unclosed hc hf ▸ hf) (h family start)

theorem loopEnd_conclusive (post : List Node) (h : (loopEnd ns start).Conclusive) :
    loopEnd (ns ++ post) start = loopEnd ns start := by
  cases hf : find ns start .endFor [] with
  | error e =>
    obtain rfl := find_unclosed rfl hf
    exact absurd (by rw [loopEnd_eq, hf]) (h .looping start)
  | ok stop =>
    obtain ⟨hf', hlt⟩ := (find_append post).1 hf
    rw [loopEnd_eq, loopEnd_eq, hf, hf']
    dsimp only
    rw [kindAt?_append hlt, misplaced_append post hlt]

/-- A loop fails for lack of a closer or because of the tag that ends its segment. -/
theorem loopEnd_error {e : Error} (h : loopEnd ns start = .error e) :
    e = .unclosedBlock .looping start ∨ ∃ cause, e = .malformedTag cause := by
  rw [loopEnd_eq] at h
  split at h
  · next hf =>
    obtain rfl := Except.error.inj h
    exact .inl (find_unclosed rfl hf)
  · split at h
    · cases h
    · obtain rfl := Except.error.inj h
      exact .inr (misplaced_malformed ..)

theorem chainFrom_eq (ns : List Node) (start i : Nat) : chainFrom ns start i =
    match find ns i .endIf (branchStoppers ns i) with
    | .error e => .error (blame start e)
    | .ok stop =>
      if kindAt? ns stop = some .endIf then .ok ⟨[⟨i, stop⟩], stop⟩
      else if kindAt? ns stop = some .elifTag ∨ kindAt? ns stop = some .elseTag then
        (chainFrom ns start stop).map fun c => ⟨⟨i, stop⟩ :: c.branches, c.stop⟩
      else .error (misplaced ns stop .branching) := by
  rw [chainFrom]
  split
  · next hf => rw [hf]
  · next hf => rw [hf]

theorem blame_behind (n : Nat) (e : Error) : blame (n + start) (e.behind n) = (blame start e).behind n := by
  cases e <;> rfl

theorem chainFrom_behind (pre : List Node) :
    chainFrom (pre ++ ns) (pre.length + start) (pre.length + i) =
      (chainFrom ns start i).behind pre.length (Chain.behind pre.length) := by
  fun_induction chainFrom ns start i with
  | case1 i e hf =>
    rw [chainFrom_eq, branchStoppers_behind, find_behind, hf]
    exact congrArg Except.error (blame_behind ..)
  | case2 i stop hf hk =>
    rw [chainFrom_eq, branchStoppers_behind, find_behind, hf]
    dsimp only [Result.behind]
    rw [kindAt?_behind, if_pos hk]
    rfl
  | case3 i stop hf hend hk ih =>
    rw [chainFrom_eq, branchStoppers_behind, find_behind, hf]
    dsimp only [Result.behind]
    rw [kindAt?_behind, if_neg hend, if_pos hk, ih]
    cases chainFrom ns start stop <;> rfl
  | case4 i stop hf hend hk =>
    obtain ⟨t, ht⟩ := tag_of_find hf
    rw [chainFrom_eq, branchStoppers_behind, find_behind, hf]
    dsimp only [Result.behind]
    rw [kindAt?_behind, if_neg hend, if_neg hk, misplaced_behind pre .branching ht]
    exact congrArg Except.error (behind_malformed _ (misplaced_malformed ..)).symm

theorem chain_behind (pre ns : List Node) (start : Nat) : chain (pre ++ ns) (pre.length + start) =
    (chain ns start).behind pre.length (Chain.behind pre.length) :=
  chainFrom_behind pre

/-- The branches and the closer lie within the sequence, and branches end at the closer or before. -/
theorem chainFrom_within {c : Chain} (h : chainFrom ns start i = .ok c) :
    (∀ b ∈ c.branches, b.tag < b.stop ∧ b.stop ≤ c.stop) ∧ c.stop < ns.length := by
  fun_induction chainFrom ns start i generalizing c with
  | case1 => cases h
  | case2 i stop hf =>
    obtain rfl := Except.ok.inj h
    have hbounds := find_bounds hf
    simpa using hbounds
  | case3 i stop hf _ _ ih =>
    obtain ⟨c', hc, rfl⟩ := Result.map_eq_ok h
    obtain ⟨hbranches, hstop⟩ := ih hc
    refine ⟨fun b hb => ?_, hstop⟩
    rcases List.mem_cons.1 hb with rfl | hb
    · exact ⟨(find_bounds hf).1, Nat.le_of_lt (chainFrom_bounds hc).2⟩
    · exact hbranches b hb
  | case4 => cases h

theorem find_branch_append (post : List Node) :
    find ns i .endIf (branchStoppers ns i) = .ok stop ↔
      find (ns ++ post) i .endIf (branchStoppers (ns ++ post) i) = .ok stop ∧ stop < ns.length := by
  by_cases hi : i < ns.length
  · rw [branchStoppers_append hi]
    exact find_append post
  · constructor
    · intro h
      have hbounds := find_bounds h
      omega
    · rintro ⟨h, hlt⟩
      have hbounds := find_bounds h
      omega

/-- Nor do the branches of a conditional, unless one of them is left open. -/
theorem chainFrom_conclusive (post : List Node) (h : (chainFrom ns start i).Conclusive) :
    chainFrom (ns ++ post) start i = chainFrom ns start i := by
  fun_induction chainFrom ns start i with
  | case1 i e hf =>
    obtain rfl := find_unclosed rfl hf
    exact absurd rfl (h .branching start)
  | case2 i stop hf hk =>
    obtain ⟨hf', hlt⟩ := (find_branch_append post).1 hf
    rw [chainFrom_eq, hf']
    dsimp only
    rw [kindAt?_append hlt, if_pos hk]
  | case3 i stop hf hend hk ih =>
    obtain ⟨hf', hlt⟩ := (find_branch_append post).1 hf
    have hrest : (chainFrom ns start stop).Conclusive := by
      intro block at' hrest
      exact h block at' (by rw [hrest]; rfl)
    rw [chainFrom_eq, hf']
    dsimp only
    rw [kindAt?_append hlt, if_neg hend, if_pos hk, ih hrest]
  | case4 i stop hf hend hk =>
    obtain ⟨hf', hlt⟩ := (find_branch_append post).1 hf
    rw [chainFrom_eq, hf']
    dsimp only
    rw [kindAt?_append hlt, if_neg hend, if_neg hk, misplaced_append post hlt]

theorem chainFrom_restrict {c : Chain} (h : chainFrom (ns ++ post) start i = .ok c)
    (hlt : c.stop < ns.length) : chainFrom ns start i = .ok c := by
  generalize hall : ns ++ post = all at h
  fun_induction chainFrom all start i generalizing c with
  | case1 => cases h
  | case2 i stop hf hk =>
    subst hall
    obtain rfl := Except.ok.inj h
    have hf' := (find_branch_append post).2 ⟨hf, hlt⟩
    rw [chainFrom_eq, hf']
    dsimp only
    rw [kindAt?_append hlt] at hk
    rw [if_pos hk]
  | case3 i stop hf hend hk ih =>
    subst hall
    obtain ⟨c', hc, rfl⟩ := Result.map_eq_ok h
    have hstop : stop < ns.length := Nat.lt_trans (chainFrom_bounds hc).2 hlt
    have hf' := (find_branch_append post).2 ⟨hf, hstop⟩
    rw [chainFrom_eq, hf']
    dsimp only
    rw [kindAt?_append hstop] at hend hk
    rw [if_neg hend, if_pos hk, ih (c := c') hlt hc]
    rfl
  | case4 => cases h

/-- The branches of a conditional that is closed do not depend on what comes behind it. -/
theorem chainFrom_append {c : Chain} (post : List Node) : chainFrom ns start i = .ok c ↔
    chainFrom (ns ++ post) start i = .ok c ∧ c.stop < ns.length := by
  refine ⟨fun h => ⟨?_, (chainFrom_within h).2⟩, fun h => chainFrom_restrict h.1 h.2⟩
  rw [chainFrom_conclusive post (Result.conclusive_ok h), h]

/-- A conditional fails for lack of a closer or because of a tag that ends a segment. -/
theorem chainFrom_error {e : Error} (h : chainFrom ns start i = .error e) :
    e = .unclosedBlock .branching start ∨ ∃ cause, e = .malformedTag cause := by
  fun_induction chainFrom ns start i with
  | case1 i e' hf =>
    obtain rfl := Except.error.inj h
    obtain rfl := find_unclosed rfl hf
    exact .inl rfl
  | case2 => cases h
  | case3 i stop hf hend hk ih =>
    cases hc : chainFrom ns start stop with
    | ok c =>
      rw [hc] at h
      cases h
    | error e' =>
      rw [hc] at h
      obtain rfl := Except.error.inj h
      exact ih hc
  | case4 =>
    obtain rfl := Except.error.inj h
    exact .inr (misplaced_malformed ..)

end

/-- The index of the tag that closes the block opened at `start`. -/
def closing (ns : List Node) (start : Nat) : Family → Result Nat
  | .branching => (chain ns start).map Chain.stop
  | .looping => loopEnd ns start

theorem closing_behind (pre ns : List Node) (start : Nat) (block : Family) :
    closing (pre ++ ns) (pre.length + start) block =
      (closing ns start block).behind pre.length (pre.length + ·) := by
  cases block with
  | branching =>
    rw [closing, closing, chain_behind]
    cases chain ns start <;> rfl
  | looping => exact loopEnd_behind pre

/-- A block that is not closed is the only failure that names an index. -/
theorem closing_error {ns : List Node} {start : Nat} {block : Family} {e : Error}
    (h : closing ns start block = .error e) :
    e = .unclosedBlock block start ∨ ∃ cause, e = .malformedTag cause := by
  cases block with
  | branching =>
    cases hc : chain ns start with
    | ok c =>
      rw [closing, hc] at h
      cases h
    | error e' =>
      rw [closing, hc] at h
      obtain rfl := Except.error.inj h
      exact chainFrom_error hc
  | looping => exact loopEnd_error h

theorem body_subset (ns : List Node) (start stop : Nat) : body ns start stop ⊆ ns :=
  fun _ hn => List.mem_of_mem_take (List.mem_of_mem_drop hn)

/-- The nodes between two tags, where others come before them or behind. -/
theorem body_behind (pre ns : List Node) (start stop : Nat) :
    body (pre ++ ns) (pre.length + start) (pre.length + stop) = body ns start stop := by
  rw [body, List.take_length_add_append, Nat.add_assoc, List.drop_length_add_append]
  rfl

theorem body_append {ns : List Node} (post : List Node) (start : Nat) {stop : Nat} (h : stop ≤ ns.length) :
    body (ns ++ post) start stop = body ns start stop := by
  rw [body, List.take_append_of_le_length h]
  rfl

end Block

end Stencil

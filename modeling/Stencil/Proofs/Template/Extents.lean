import Stencil.Proofs.Template.Branches

/-! The extents of blocks: the branches of a conditional lie side by side from its opener to its closer. A block
has no extent only if it is not closed or if it comes to a tag that is not understood. -/
namespace Stencil.Block

/-- The branches of a conditional lie side by side between the tag at `start` and the closer, and only the last
can be that of an `else`. -/
structure Tiles (ns : List Node) (start : Nat) (c : Chain) : Prop where
  first : (c.branches.map Branch.tag).head? = some start
  increasing : (c.branches.map Branch.tag ++ [c.stop]).Pairwise (· < ·)
  /-- Each branch ends at the tag of the next one, the last at the closer. -/
  adjacent : c.branches.map Branch.stop = (c.branches.map Branch.tag).tail ++ [c.stop]
  later : ∀ i ∈ (c.branches.map Branch.tag).tail, kindAt? ns i = some .elifTag ∨ kindAt? ns i = some .elseTag
  elseLast : ∀ i ∈ (c.branches.map Branch.tag).dropLast, kindAt? ns i ≠ some .elseTag
  within : c.stop < ns.length
  closer : kindAt? ns c.stop = some .endIf
  /-- No node of the block is left out, and none belongs to two branches. -/
  nodes : ns.drop start =
    c.branches.flatMap (fun b => ns[b.tag]?.toList ++ body ns b.tag b.stop) ++ ns.drop c.stop

/-- Why a block opened at `start` has no extent. -/
inductive Unresolved (ns : List Node) (block : Family) (start : Nat) : Error → Prop
  | unclosed : Unresolved ns block start (.unclosedBlock block start)
  | unknown {t : Tag} {diagnostic : String} : .tag t ∈ ns → t.directive = .unknown diagnostic →
      Unresolved ns block start (.malformedTag (.unknownInBlock t.source block diagnostic))

section
variable {ns : List Node} {start i stop : Nat} {block : Family} {kind : TagKind} {c : Chain} {e : Error}

theorem lt_length_of_kindAt? (h : kindAt? ns i = some kind) : i < ns.length := by
  obtain ⟨n, hn, -⟩ := Option.bind_eq_some_iff.1 h
  exact (List.getElem?_eq_some_iff.1 hn).1

/-- The nodes from a tag on, up to a later tag and from there. -/
theorem drop_eq_segment (his : i < stop) (hstop : stop < ns.length) :
    ns.drop i = ns[i]?.toList ++ body ns i stop ++ ns.drop stop := by
  have hi : i < ns.length := Nat.lt_trans his hstop
  rw [List.drop_eq_getElem_cons hi, (drop_eq_body his (Nat.le_of_lt hstop)).1, List.getElem?_eq_getElem hi]
  rfl

theorem Tiles.last (his : i < stop) (hstop : kindAt? ns stop = some .endIf) :
    Tiles ns i ⟨[⟨i, stop⟩], stop⟩ where
  first := rfl
  increasing := by simpa using his
  adjacent := rfl
  later := by simp
  elseLast := by simp
  within := lt_length_of_kindAt? hstop
  closer := hstop
  nodes := by simpa using drop_eq_segment his (lt_length_of_kindAt? hstop)

/-- One more branch in front. -/
theorem Tiles.next (his : i < stop) (hi : kindAt? ns i ≠ some .elseTag) (hstop : IsBranchTag ns stop)
    (h : Tiles ns stop c) : Tiles ns i ⟨⟨i, stop⟩ :: c.branches, c.stop⟩ := by
  obtain ⟨tags, htags⟩ := List.head?_eq_some_iff.1 h.first
  have hlater := h.later
  have helse := h.elseLast
  have hincreasing := h.increasing
  have hadjacent := h.adjacent
  rw [htags] at hlater helse hincreasing hadjacent
  refine ⟨rfl, ?_, ?_, ?_, ?_, h.within, h.closer, ?_⟩
  · rw [List.map_cons, List.cons_append, List.pairwise_cons, htags]
    refine ⟨fun j hj => ?_, hincreasing⟩
    rcases List.mem_cons.1 hj with rfl | hj
    · exact his
    · exact Nat.lt_trans his ((List.pairwise_cons.1 hincreasing).1 j hj)
  · rw [List.map_cons, List.map_cons, List.tail_cons, htags, hadjacent]
    rfl
  · rw [List.map_cons, List.tail_cons, htags]
    exact List.forall_mem_cons.2 ⟨hstop, hlater⟩
  · rw [List.map_cons, htags, List.dropLast_cons_of_ne_nil (List.cons_ne_nil _ _)]
    exact List.forall_mem_cons.2 ⟨hi, helse⟩
  · have hlength : stop < ns.length := hstop.elim lt_length_of_kindAt? lt_length_of_kindAt?
    rw [List.flatMap_cons, List.append_assoc, ← h.nodes]
    exact drop_eq_segment his hlength

/-- After an `else` no branch tag ends the segment. -/
theorem ne_else_of_find (h : find ns i .endIf (branchStoppers ns i) = .ok stop)
    (hstop : IsBranchTag ns stop) : kindAt? ns i ≠ some .elseTag := by
  intro helse
  rw [branchStoppers, if_pos helse] at h
  obtain ⟨kind, hkind, hends⟩ := kind_of_find rfl h
  rcases hstop with heq | heq <;> obtain rfl := Option.some.inj (hkind.symm.trans heq) <;>
    simp [TagKind.closes?] at hends

theorem chainFrom_tiles (h : chainFrom ns start i = .ok c) : Tiles ns i c := by
  fun_induction chainFrom ns start i generalizing c with
  | case1 => cases h
  | case2 i stop hf hend =>
    obtain rfl := Except.ok.inj h
    exact .last (find_bounds hf).1 hend
  | case3 i stop hf _ hstop ih =>
    obtain ⟨c', hc, rfl⟩ := Result.map_eq_ok h
    exact (ih hc).next (find_bounds hf).1 (ne_else_of_find hf hstop) hstop
  | case4 => cases h

/-- A tag that is not understood ends every segment, and the failure quotes it. -/
theorem Unresolved.of_unknown (h : kindAt? ns stop = some .unknown) :
    Unresolved ns block start (misplaced ns stop block) := by
  obtain ⟨n, hn, hkind⟩ := Option.bind_eq_some_iff.1 h
  obtain ⟨t, htag, hkind⟩ := Option.map_eq_some_iff.1 hkind
  obtain ⟨diagnostic, ht⟩ : ∃ diagnostic, t.directive = .unknown diagnostic := by
    cases ht : t.directive with
    | unknown diagnostic => exact ⟨diagnostic, rfl⟩
    | ifTag | elifTag | elseTag | endIf | forTag | endFor => simp [Tag.kind, ht] at hkind
  have hmem : .tag t ∈ ns := by
    cases n with
    | tag t' =>
      obtain rfl := Option.some.inj htag
      exact List.mem_of_getElem? hn
    | text | expression | comment => cases htag
  have herror : misplaced ns stop block = .malformedTag (.unknownInBlock t.source block diagnostic) := by
    simp only [misplaced, hn, Option.bind_some, htag, ht]
  rw [herror]
  exact .unknown hmem ht

theorem chainFrom_unresolved (h : chainFrom ns start i = .error e) : Unresolved ns .branching start e := by
  fun_induction chainFrom ns start i with
  | case1 i e' hf =>
    obtain rfl := Except.error.inj h
    rw [find_unclosed rfl hf]
    exact .unclosed
  | case2 => cases h
  | case3 i stop _ _ _ ih => exact ih (Result.map_eq_error h)
  | case4 i stop hf hend hstop =>
    obtain rfl := Except.error.inj h
    obtain ⟨kind, hkind, hunknown | hstopper | hcloses⟩ := kind_of_find rfl hf
    · exact .of_unknown (hunknown ▸ hkind)
    · -- The stoppers are the tags that begin another branch.
      have hbranch : kind = .elifTag ∨ kind = .elseTag := by
        rw [branchStoppers] at hstopper
        split at hstopper <;> simp at hstopper
        exact hstopper
      exact absurd (hbranch.imp (· ▸ hkind) (· ▸ hkind)) hstop
    · cases kind <;> simp [TagKind.closes?] at hcloses
      exact absurd hkind hend

theorem loopEnd_unresolved (h : loopEnd ns start = .error e) : Unresolved ns .looping start e := by
  rw [loopEnd_eq] at h
  split at h
  · next hf =>
    obtain rfl := Except.error.inj h
    rw [find_unclosed rfl hf]
    exact .unclosed
  · next stop hf =>
    split at h
    · cases h
    · next hend =>
      obtain rfl := Except.error.inj h
      obtain ⟨kind, hkind, hunknown | hstopper | hcloses⟩ := kind_of_find rfl hf
      · exact .of_unknown (hunknown ▸ hkind)
      · cases hstopper
      · cases kind <;> simp [TagKind.closes?] at hcloses
        exact absurd hkind hend

end

/-- Of the faults of a block, neither a tag in the wrong place nor a missing tag ever comes up. -/
theorem Unresolved.ne_misplaced {ns : List Node} {block : Family} {start : Nat} {e : Error}
    (h : Unresolved ns block start e) (block' : Family) :
    (∀ source, e ≠ .malformedTag (.unexpectedInBlock source block')) ∧
      ∀ i, e ≠ .malformedTag (.noTagInBlock i block') := by
  cases h with
  | unclosed => constructor <;> intro _ heq <;> cases heq
  | unknown => constructor <;> intro _ heq <;> cases heq

/-- What resolving the blocks at any index gives. -/
theorem extents (ns : List Node) (start : Nat) :
    (∀ c, chain ns start = .ok c → Tiles ns start c) ∧
      (∀ e, chain ns start = .error e → Unresolved ns .branching start e) ∧
      (∀ stop, loopEnd ns start = .ok stop →
        start < stop ∧ stop < ns.length ∧ kindAt? ns stop = some .endFor) ∧
      (∀ e, loopEnd ns start = .error e → Unresolved ns .looping start e) ∧
      ∀ e, chain ns start = .error e ∨ loopEnd ns start = .error e →
        ∀ block, (∀ source, e ≠ .malformedTag (.unexpectedInBlock source block)) ∧
          ∀ i, e ≠ .malformedTag (.noTagInBlock i block) := by
  refine ⟨fun _ => chainFrom_tiles, fun _ => chainFrom_unresolved, fun stop h => ?_,
    fun _ => loopEnd_unresolved, fun e h => ?_⟩
  · obtain ⟨hlt, hwithin⟩ := loopEnd_bounds h
    exact ⟨hlt, hwithin, (loopEnd_eq_ok.1 h).2⟩
  · rcases h with h | h
    · exact (chainFrom_unresolved h).ne_misplaced
    · exact (loopEnd_unresolved h).ne_misplaced

/-- A conditional with three branches around a loop, and one whose last branch comes to a tag that is not
understood. -/
theorem extents_branches :
    let opener : Node := .tag ⟨.ifTag "a", "if a"⟩
    let later : List Node := [.tag ⟨.elifTag "b", "elif b"⟩, .tag ⟨.forTag "x in y", "for x in y"⟩,
      .tag ⟨.elseTag, "else"⟩, .tag ⟨.endFor, "endfor"⟩, .tag ⟨.elseTag, "else"⟩]
    let closed : List Node := opener :: later ++ [.tag ⟨.endIf, "endif"⟩]
    let faulty : List Node := opener :: later ++ [.tag ⟨.unknown "elif c", "elif c"⟩]
    let c : Chain := ⟨[⟨0, 1⟩, ⟨1, 5⟩, ⟨5, 6⟩], 6⟩
    chain closed 0 = .ok c ∧ Tiles closed 0 c ∧ loopEnd closed 2 = .ok 4 ∧
      Unresolved faulty .branching 0
        (.malformedTag (.unknownInBlock "\x7b% elif c %\x7d" .branching "elif c")) := by
  intro opener later closed faulty c
  have hc : chain closed 0 = .ok c := by
    rw [chain, chainFrom_eq]
    show (chainFrom closed 0 1).map _ = _
    rw [chainFrom_eq]
    show ((chainFrom closed 0 5).map _).map _ = _
    rw [chainFrom_eq]
    rfl
  have he : chain faulty 0 =
      .error (.malformedTag (.unknownInBlock "\x7b% elif c %\x7d" .branching "elif c")) := by
    rw [chain, chainFrom_eq]
    show (chainFrom faulty 0 1).map _ = _
    rw [chainFrom_eq]
    show ((chainFrom faulty 0 5).map _).map _ = _
    rw [chainFrom_eq]
    rfl
  exact ⟨hc, (extents closed 0).1 c hc, rfl, (extents faulty 0).2.1 _ he⟩

end Stencil.Block

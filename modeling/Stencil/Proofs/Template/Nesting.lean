import Stencil.Proofs.Template.Locality
import Stencil.Proofs.Template.Tree

/-! Scanning the nodes of a template tree: a scan passes over whole items and ends a body at the tag that
ends it in the tree. -/
namespace Stencil

namespace Block

/-- A scan at these depths goes through `ns` and is at the same depths behind it. -/
def Passes (family : Family) (stoppers : List TagKind) (own other : Int) (ns : List Node) : Prop :=
  ∀ i rest, scan family stoppers i own other (ns ++ rest) =
    scan family stoppers (i + ns.length) own other rest

/-- Depths at which no tag ends a segment on account of its kind. -/
def Inner (own other : Int) : Prop := 1 ≤ own ∧ 0 ≤ other ∧ (own = 1 → other ≠ 0)

/-- What ends the segments of blocks besides closers and unknown tags. -/
def BranchStoppers (stoppers : List TagKind) : Prop := ∀ k ∈ stoppers, k = .elifTag ∨ k = .elseTag

section
variable {family nested : Family} {stoppers : List TagKind} {own other : Int}

theorem Passes.nil : Passes family stoppers own other [] := fun i rest => by simp

theorem Passes.append {ns ms : List Node} (hn : Passes family stoppers own other ns)
    (hm : Passes family stoppers own other ms) : Passes family stoppers own other (ns ++ ms) := by
  intro i rest
  rw [List.append_assoc, hn, hm, List.length_append, Nat.add_assoc]

theorem Passes.of_kind_none {n : Node} (h : n.kind? = none) :
    Passes family stoppers own other [n] := by
  intro i rest
  simp [scan, h]

/-- A tag that neither ends the segment nor closes its block only changes the depths. -/
theorem scan_tag {t : Tag} (hs : own = 1 → other = 0 → t.kind ≠ .unknown ∧ t.kind ∉ stoppers)
    (hc : t.kind.closes? = some family → own + step family t.kind ≠ 0) (i : Nat)
    (rest : List Node) :
    scan family stoppers i own other (.tag t :: rest) =
      scan family stoppers (i + 1) (own + step family t.kind)
        (other + step (otherFamily family) t.kind) rest := by
  have hkind : Node.kind? (.tag t) = some t.kind := rfl
  rw [scan, hkind]
  simp only
  rw [if_neg (fun h => h.2.2.elim (hs h.1 h.2.1).1 (hs h.1 h.2.1).2),
    if_neg (fun h => hc h.1 h.2)]

theorem Passes.of_still {t : Tag} (ho : t.kind.opens? = none) (hc : t.kind.closes? = none)
    (h : Inner own other) : Passes family stoppers own other [.tag t] := by
  intro i rest
  have hstep (f : Family) : step f t.kind = 0 := by simp [step, ho, hc]
  rw [List.singleton_append, scan_tag (fun h1 h0 => absurd h0 (h.2.2 h1)) (by simp [hc])]
  simp [hstep]

/-- A block passes if its inside passes wherever no tag can end the segment. -/
theorem Passes.block {opener closer : Tag} {ns : List Node}
    (hopen : opener.kind.opens? = some nested) (hclose : closer.kind.closes? = some nested)
    (hstop : BranchStoppers stoppers) (hown : 1 ≤ own) (hother : 0 ≤ other)
    (hin : ∀ own other, Inner own other → Passes family stoppers own other ns) :
    Passes family stoppers own other (.tag opener :: ns ++ [.tag closer]) := by
  have hopener : opener.kind ≠ .unknown ∧ opener.kind ∉ stoppers ∧ opener.kind.closes? = none := by
    refine ⟨fun h => by simp [h, TagKind.opens?] at hopen, fun h => ?_, closes?_of_opens hopen⟩
    rcases hstop _ h with h | h <;> simp [h, TagKind.opens?] at hopen
  have hcloser : closer.kind.opens? = none := opens?_of_closes hclose
  have hstep (f : Family) : step f opener.kind = if nested = f then 1 else 0 := by
    simp [step, hopen, hopener.2.2]
  have hback (f : Family) : step f closer.kind = -(if nested = f then 1 else 0) := by
    simp only [step, hcloser, hclose, reduceCtorEq, if_false, Option.some.injEq]
    split <;> rfl
  have hinner : Inner (own + step family opener.kind)
      (other + step (otherFamily family) opener.kind) := by
    rw [hstep, hstep]
    cases nested <;> cases family <;> simp [Inner, otherFamily] <;> omega
  intro i rest
  rw [List.cons_append, List.cons_append, List.append_assoc, List.singleton_append,
    scan_tag (fun _ _ => ⟨hopener.1, hopener.2.1⟩) (by simp [hopener.2.2]), hin _ _ hinner,
    scan_tag (fun h1 h0 => absurd h0 (hinner.2.2 h1))]
  · rw [hstep, hstep, hback, hback]
    simp only [Int.add_neg_cancel_right, List.length_cons, List.length_append, List.length_nil]
    congr 1
    omega
  · rw [hstep, hback]
    omega

/-- At the depths of the block itself an unknown tag ends the segment. -/
theorem scan_unknown {t : Tag} (ht : t.kind = .unknown) (i : Nat) (rest : List Node) :
    scan family stoppers i 1 0 (.tag t :: rest) = some i := by
  simp [scan, Node.kind?, Node.tag?, ht]

theorem scan_stopper {t : Tag} (ht : t.kind ∈ stoppers) (i : Nat) (rest : List Node) :
    scan family stoppers i 1 0 (.tag t :: rest) = some i := by
  simp [scan, Node.kind?, Node.tag?, ht]

theorem scan_closer {t : Tag} (ht : t.kind.closes? = some family) (i : Nat) (rest : List Node) :
    scan family stoppers i 1 0 (.tag t :: rest) = some i := by
  have hopen : t.kind.opens? = none := opens?_of_closes ht
  have hstep : step family t.kind = -1 := by simp [step, hopen, ht]
  simp [scan, Node.kind?, Node.tag?, ht, hstep]

end

end Block

namespace Item

open Block

variable {family : Family} {stoppers : List TagKind}

mutual

/-- A scan passes over an item unless it is an unknown tag of the block itself. -/
theorem passes_flatten (hstop : BranchStoppers stoppers) {own other : Int} (hown : 1 ≤ own)
    (hother : 0 ≤ other) : ∀ item : Item,
    (own = 1 → other = 0 → item.unknownTag? = none) →
    Passes family stoppers own other item.flatten
  | text _, _ | comment _, _ | expression _, _ => Passes.of_kind_none rfl
  | unknown _ _, h =>
    Passes.of_still rfl rfl ⟨hown, hother, fun h1 h0 => Option.some_ne_none _ (h h1 h0)⟩
  | conditional _ body elifs otherwise _, _ =>
    Passes.block rfl rfl hstop hown hother fun _ _ h =>
      ((passes_flattenAll hstop h.1 h.2.1 body fun h1 h0 => absurd h0 (h.2.2 h1)).append
        (passes_flattenElifs hstop h elifs)).append (passes_flattenElse hstop h otherwise)
  | loop _ body _, _ =>
    Passes.block rfl rfl hstop hown hother fun _ _ h =>
      passes_flattenAll hstop h.1 h.2.1 body fun h1 h0 => absurd h0 (h.2.2 h1)

theorem passes_flattenAll (hstop : BranchStoppers stoppers) {own other : Int} (hown : 1 ≤ own)
    (hother : 0 ≤ other) : ∀ items : List Item,
    (own = 1 → other = 0 → firstUnknown? items = none) →
    Passes family stoppers own other (flattenAll items)
  | [], _ => Passes.nil
  | item :: items, h => by
    have hnone (h1 : own = 1) (h0 : other = 0) :
        item.unknownTag? = none ∧ firstUnknown? items = none := by
      simpa [firstUnknown?] using h h1 h0
    exact (passes_flatten hstop hown hother item fun h1 h0 => (hnone h1 h0).1).append
      (passes_flattenAll hstop hown hother items fun h1 h0 => (hnone h1 h0).2)

theorem passes_flattenElifs (hstop : BranchStoppers stoppers) {own other : Int}
    (h : Inner own other) : ∀ elifs : List (Guard × List Item),
    Passes family stoppers own other (flattenElifs elifs)
  | [] => Passes.nil
  | (_, body) :: elifs =>
    ((Passes.of_still rfl rfl h).append
      (passes_flattenAll hstop h.1 h.2.1 body fun h1 h0 => absurd h0 (h.2.2 h1))).append
      (passes_flattenElifs hstop h elifs)

theorem passes_flattenElse (hstop : BranchStoppers stoppers) {own other : Int}
    (h : Inner own other) : ∀ otherwise : Option (String × List Item),
    Passes family stoppers own other (flattenElse otherwise)
  | none => Passes.nil
  | some (_, body) =>
    (Passes.of_still rfl rfl h).append
      (passes_flattenAll hstop h.1 h.2.1 body fun h1 h0 => absurd h0 (h.2.2 h1))

end

theorem flattenAll_eq_flatMap (items : List Item) : flattenAll items = items.flatMap flatten := by
  induction items with
  | nil => rfl
  | cons item items ih => simp [flattenAll, ih]

theorem flatten_of_unknownTag {item : Item} {t : Tag} (h : item.unknownTag? = some t) :
    item.flatten = [.tag t] ∧ t.directive = .unknown t.expression := by
  cases item <;> simp only [unknownTag?, Option.some.injEq, reduceCtorEq] at h
  subst h
  exact ⟨by simp [flatten], rfl⟩

theorem getElem?_behind (pre ms post : List Node) (n m : Node) :
    (pre ++ n :: (ms ++ m :: post))[pre.length + 1 + ms.length]? = some m := by
  have hindex : pre.length + 1 + ms.length - pre.length = ms.length + 1 := by omega
  rw [List.getElem?_append_right (by omega), hindex]
  simp

/-- The search for the end of a segment begins behind the tag at its start. -/
theorem find_of_scan {pre tail : List Node} {n : Node} {closer : TagKind}
    (hc : closer.closes? = some family) {stop : Nat}
    (h : scan family stoppers (pre.length + 1) 1 0 tail = some stop) :
    find (pre ++ n :: tail) pre.length closer stoppers = .ok stop := by
  have hdrop : (pre ++ n :: tail).drop (pre.length + 1) = tail := by
    rw [List.drop_append]
    simp
  simp only [find, hc, hdrop, h]

/-- The segment of a body without unknown tags of its own ends at the tag behind it. -/
theorem find_end (closer : TagKind) (t : Tag) {pre post : List Node} {n : Node} {items : List Item}
    (hc : closer.closes? = some family) (hstop : BranchStoppers stoppers)
    (hend : t.kind ∈ stoppers ∨ t.kind.closes? = some family) (hu : firstUnknown? items = none) :
    find (pre ++ n :: (flattenAll items ++ .tag t :: post)) pre.length closer stoppers =
      .ok (pre.length + 1 + (flattenAll items).length) := by
  apply find_of_scan hc
  rw [passes_flattenAll hstop (Int.le_refl 1) (Int.le_refl 0) items fun _ _ => hu]
  rcases hend with hend | hend
  · exact scan_stopper hend _ _
  · exact scan_closer hend _ _

/-- The segment of a body with unknown tags of its own ends at the first of them. -/
theorem find_unknown (closer : TagKind) (pre : List Node) (n : Node) (rest : List Node)
    {items : List Item} {t : Tag} (hc : closer.closes? = some family) (hstop : BranchStoppers stoppers)
    (hu : firstUnknown? items = some t) :
    ∃ stop, find (pre ++ n :: (flattenAll items ++ rest)) pre.length closer stoppers = .ok stop ∧
      (pre ++ n :: (flattenAll items ++ rest))[stop]? = some (.tag t) ∧
      t.directive = .unknown t.expression := by
  obtain ⟨before, item, after, rfl, hitem, hbefore⟩ := List.findSome?_eq_some_iff.1 hu
  have hnone : firstUnknown? before = none := List.findSome?_eq_none_iff.2 hbefore
  obtain ⟨hflat, hdir⟩ := flatten_of_unknownTag hitem
  have hall : flattenAll (before ++ item :: after) ++ rest =
      flattenAll before ++ .tag t :: (flattenAll after ++ rest) := by
    simp [flattenAll_eq_flatMap, hflat]
  rw [hall]
  refine ⟨pre.length + 1 + (flattenAll before).length, ?_, getElem?_behind .., hdir⟩
  apply find_of_scan hc
  rw [passes_flattenAll hstop (Int.le_refl 1) (Int.le_refl 0) before fun _ _ => hnone]
  exact scan_unknown (by rw [Tag.kind, hdir]) _ _

/-- The failure of a block whose segment ends at an unknown tag. -/
theorem misplaced_unknown {nodes : List Node} {stop : Nat} {t : Tag} (block : Family)
    (h : nodes[stop]? = some (.tag t)) (hdir : t.directive = .unknown t.expression) :
    misplaced nodes stop block = .malformedTag (.unknownInBlock t.source block t.expression) := by
  simp only [misplaced, h, Option.bind_some, Node.tag?]
  rw [hdir]

theorem kindAt?_tag {nodes : List Node} {i : Nat} {t : Tag} (h : nodes[i]? = some (.tag t)) :
    kindAt? nodes i = some t.kind := by
  simp [kindAt?, h, Node.kind?, Node.tag?]

/-- A loop of a tree ends at its own closing tag, unless an unknown tag stands in its body. -/
theorem loopEnd_loop (pre post : List Node) (head : LoopHead) (body : List Item) (closing : String) :
    loopEnd (pre ++ (loop head body closing).flatten ++ post) pre.length =
      match firstUnknown? body with
      | some t => .error (.malformedTag (.unknownInBlock t.source .looping t.expression))
      | none => .ok (pre.length + 1 + (flattenAll body).length) := by
  have hnodes : pre ++ (loop head body closing).flatten ++ post =
      pre ++ .tag head.tag :: (flattenAll body ++ .tag (endForTag closing) :: post) := by
    simp [flatten]
  have hstop : BranchStoppers [] := by simp [BranchStoppers]
  rw [hnodes]
  cases hu : firstUnknown? body with
  | none =>
    have hkind := kindAt?_tag (getElem?_behind pre (flattenAll body) post (.tag head.tag)
      (.tag (endForTag closing)))
    simp only [loopEnd, find_end .endFor (endForTag closing) rfl hstop (.inr rfl) hu,
      bind, Except.bind, hkind]
    rfl
  | some t =>
    obtain ⟨stop, hfind, hat, hdir⟩ := find_unknown .endFor pre (.tag head.tag)
      (.tag (endForTag closing) :: post) rfl hstop hu
    have hkind : t.kind = .unknown := by rw [Tag.kind, hdir]
    simp only [loopEnd, hfind, bind, Except.bind, kindAt?_tag hat, hkind, reduceCtorEq,
      Option.some.injEq, if_false, misplaced_unknown .looping hat hdir]

/-- Branches in the order that a conditional has: none but the last is an `else`. -/
inductive BranchOrder : List Arm → Prop
  | last (a : Arm) : BranchOrder [a]
  | next {a b : Arm} {arms : List Arm} (ha : a.1.kind ≠ .elseTag)
      (hb : b.1.kind = .elifTag ∨ b.1.kind = .elseTag) (h : BranchOrder (b :: arms)) :
      BranchOrder (a :: b :: arms)

theorem branchOrder_laterArms (a : Arm) (ha : a.1.kind ≠ .elseTag)
    (elifs : List (Guard × List Item)) (otherwise : Option (String × List Item)) :
    BranchOrder (a :: laterArms elifs otherwise) := by
  induction elifs generalizing a with
  | nil =>
    cases otherwise with
    | none => exact .last a
    | some last => exact .next ha (.inr rfl) (.last _)
  | cons branch elifs ih => exact .next ha (.inl rfl) (ih _ (by simp [Guard.elifTag, Tag.kind]))

theorem branchOrder_arms (guard : Guard) (body : List Item) (elifs : List (Guard × List Item))
    (otherwise : Option (String × List Item)) : BranchOrder (arms guard body elifs otherwise) :=
  branchOrder_laterArms _ (by simp [Guard.ifTag, Tag.kind]) elifs otherwise

/-- The nodes that branches are written as. -/
def flattenArms (arms : List Arm) : List Node :=
  arms.flatMap fun a => .tag a.1 :: flattenAll a.2

theorem flattenArms_cons (a : Arm) (arms : List Arm) :
    flattenArms (a :: arms) = .tag a.1 :: (flattenAll a.2 ++ flattenArms arms) := rfl

theorem flattenArms_laterArms (elifs : List (Guard × List Item))
    (otherwise : Option (String × List Item)) :
    flattenArms (laterArms elifs otherwise) = flattenElifs elifs ++ flattenElse otherwise := by
  induction elifs with
  | nil => cases otherwise <;> simp [laterArms, flattenArms, flattenElifs, flattenElse]
  | cons branch elifs ih =>
    simp [laterArms, flattenArms_cons, flattenElifs, ih]

theorem flatten_conditional (guard : Guard) (body : List Item) (elifs : List (Guard × List Item))
    (otherwise : Option (String × List Item)) (closing : String) :
    (conditional guard body elifs otherwise closing).flatten =
      flattenArms (arms guard body elifs otherwise) ++ [.tag (endIfTag closing)] := by
  simp [flatten, arms, flattenArms_cons, flattenArms_laterArms]

/-- Where branches lie in a sequence of nodes when the first of them begins at index `i`. -/
def spans (i : Nat) : List Arm → List Branch
  | [] => []
  | a :: arms =>
    let stop := i + 1 + (flattenAll a.2).length
    ⟨i, stop⟩ :: spans stop arms

theorem chainFrom_of_find {nodes : List Node} {start i stop : Nat}
    (h : find nodes i .endIf (branchStoppers nodes i) = .ok stop) :
    chainFrom nodes start i =
      if kindAt? nodes stop = some .endIf then .ok ⟨[⟨i, stop⟩], stop⟩
      else if kindAt? nodes stop = some .elifTag ∨ kindAt? nodes stop = some .elseTag then
        (chainFrom nodes start stop).map fun c => ⟨⟨i, stop⟩ :: c.branches, c.stop⟩
      else .error (misplaced nodes stop .branching) := by
  rw [chainFrom_eq, h]

theorem branchStoppers_tag {nodes : List Node} {i : Nat} {t : Tag} (h : nodes[i]? = some (.tag t)) :
    branchStoppers nodes i = if t.kind = .elseTag then [] else [.elifTag, .elseTag] := by
  simp [branchStoppers, kindAt?_tag h]

theorem branchStoppers_ok (nodes : List Node) (i : Nat) : BranchStoppers (branchStoppers nodes i) := by
  unfold branchStoppers
  split <;> simp [BranchStoppers]

theorem chainFrom_unknown {a : Arm} {t : Tag} (hu : firstUnknown? a.2 = some t) (pre rest : List Node)
    (start : Nat) :
    chainFrom (pre ++ .tag a.1 :: (flattenAll a.2 ++ rest)) start pre.length =
      .error (.malformedTag (.unknownInBlock t.source .branching t.expression)) := by
  obtain ⟨stop, hfind, hat, hdir⟩ := find_unknown .endIf pre (.tag a.1) rest rfl
    (branchStoppers_ok _ _) hu
  have hkind : t.kind = .unknown := by rw [Tag.kind, hdir]
  rw [chainFrom_of_find hfind, kindAt?_tag hat, hkind, misplaced_unknown .branching hat hdir]
  rfl

/-- A branch before the closing tag is the last one. -/
theorem chainFrom_last {a : Arm} (hu : firstUnknown? a.2 = none) (pre post : List Node)
    (closing : String) (start : Nat) :
    chainFrom (pre ++ .tag a.1 :: (flattenAll a.2 ++ .tag (endIfTag closing) :: post)) start pre.length =
      .ok ⟨spans pre.length [a], pre.length + 1 + (flattenAll a.2).length⟩ := by
  have hend := kindAt?_tag (getElem?_behind pre (flattenAll a.2) post (.tag a.1)
    (.tag (endIfTag closing)))
  rw [chainFrom_of_find (find_end .endIf (endIfTag closing) rfl (branchStoppers_ok _ _) (.inr rfl) hu),
    hend]
  exact if_pos rfl

/-- Behind a branch that ends at the tag of another one the chain goes on with that one. -/
theorem chainFrom_next {a : Arm} {t : Tag} (ha : a.1.kind ≠ .elseTag)
    (ht : t.kind = .elifTag ∨ t.kind = .elseTag) (hu : firstUnknown? a.2 = none)
    (pre rest : List Node) (start : Nat) :
    let nodes := pre ++ .tag a.1 :: (flattenAll a.2 ++ .tag t :: rest)
    let stop := pre.length + 1 + (flattenAll a.2).length
    chainFrom nodes start pre.length =
      (chainFrom nodes start stop).map fun c => ⟨⟨pre.length, stop⟩ :: c.branches, c.stop⟩ := by
  intro nodes stop
  have hopen : nodes[pre.length]? = some (.tag a.1) := by simp [nodes]
  have hmem : t.kind ∈ branchStoppers nodes pre.length := by
    rw [branchStoppers_tag hopen, if_neg ha]
    simpa using ht
  have hat : kindAt? nodes stop = some t.kind := kindAt?_tag (getElem?_behind pre _ rest _ _)
  have hne : some t.kind ≠ some TagKind.endIf := by
    rcases ht with ht | ht <;> simp [ht]
  rw [chainFrom_of_find (find_end .endIf t rfl (branchStoppers_ok _ _) (.inl hmem) hu), hat, if_neg hne]
  exact if_pos (by simpa using ht)

/-- The branches of a conditional of a tree are found where they are written, unless an unknown tag
stands in one of their bodies. -/
theorem chainFrom_arms {arms : List Arm} (h : BranchOrder arms) (pre post : List Node)
    (closing : String) (start : Nat) :
    chainFrom (pre ++ flattenArms arms ++ .tag (endIfTag closing) :: post) start pre.length =
      match firstUnknown? (arms.flatMap Prod.snd) with
      | some t => .error (.malformedTag (.unknownInBlock t.source .branching t.expression))
      | none => .ok ⟨spans pre.length arms, pre.length + (flattenArms arms).length⟩ := by
  induction h generalizing pre with
  | last a =>
    have hnodes : pre ++ flattenArms [a] ++ .tag (endIfTag closing) :: post =
        pre ++ .tag a.1 :: (flattenAll a.2 ++ .tag (endIfTag closing) :: post) := by
      simp [flattenArms]
    have hlen : (flattenArms [a]).length = 1 + (flattenAll a.2).length := by
      simp [flattenArms, Nat.add_comm]
    rw [hnodes, List.flatMap_singleton, hlen, ← Nat.add_assoc]
    cases hu : firstUnknown? a.2 with
    | some t => exact chainFrom_unknown hu pre _ start
    | none => exact chainFrom_last hu pre post closing start
  | @next a b arms ha hb _ ih =>
    have hbodies : firstUnknown? ((a :: b :: arms).flatMap Prod.snd) =
        (firstUnknown? a.2).or (firstUnknown? ((b :: arms).flatMap Prod.snd)) := by
      rw [List.flatMap_cons, firstUnknown?, List.findSome?_append]
      rfl
    have hnodes : pre ++ flattenArms (a :: b :: arms) ++ .tag (endIfTag closing) :: post =
        pre ++ .tag a.1 :: (flattenAll a.2 ++ .tag b.1 ::
          (flattenAll b.2 ++ flattenArms arms ++ .tag (endIfTag closing) :: post)) := by
      simp [flattenArms_cons]
    rw [hbodies]
    cases hu : firstUnknown? a.2 with
    | some t =>
      rw [hnodes]
      exact chainFrom_unknown hu pre _ start
    | none =>
      -- the later branches lie behind the first one in the same nodes
      have hih := ih (pre ++ .tag a.1 :: flattenAll a.2)
      have hlen : (pre ++ .tag a.1 :: flattenAll a.2).length =
          pre.length + 1 + (flattenAll a.2).length := by
        simp [Nat.add_assoc, Nat.add_comm 1]
      have hsame : pre ++ .tag a.1 :: flattenAll a.2 ++ flattenArms (b :: arms) ++
          .tag (endIfTag closing) :: post =
          pre ++ flattenArms (a :: b :: arms) ++ .tag (endIfTag closing) :: post := by
        simp [flattenArms_cons]
      rw [hsame, hlen, hnodes] at hih
      rw [hnodes, chainFrom_next ha hb hu, hih]
      cases firstUnknown? ((b :: arms).flatMap Prod.snd) with
      | some t => rfl
      | none =>
        simp [Except.map, spans, flattenArms_cons, Nat.add_assoc, Nat.add_comm, Nat.add_left_comm]

end Item

end Stencil

import Stencil.Proofs.Template.Depth

/-! Which tags are the branches of a conditional: those that stand on its level. Between the opener and such
a tag the inner conditionals are closed like brackets, and loops are closed as often as they are opened. -/
namespace Stencil.Block

/-- How many more blocks of a family the nodes open than they close. -/
def net (family : Family) (ns : List Node) : Int :=
  (ns.countP fun n => n.opens? == some family) - (ns.countP fun n => n.closes? == some family)

/-- The nodes close every block of the family that they open, and none that they do not. -/
structure Balanced (family : Family) (ns : List Node) : Prop where
  prefixes : ∀ p, p <+: ns → 0 ≤ net family p
  whole : net family ns = 0

/-- The node at `j` stands on the level of the conditional whose opener or branch tag is at `i`. Loops are
counted only over the whole stretch. -/
def OnLevel (ns : List Node) (i j : Nat) : Prop :=
  Balanced .branching (body ns i j) ∧ net .looping (body ns i j) = 0

/-- The tags that begin the later branches of a conditional. -/
def IsBranchTag (ns : List Node) (j : Nat) : Prop :=
  kindAt? ns j = some .elifTag ∨ kindAt? ns j = some .elseTag

section
variable {family : Family} {kind : TagKind} {n : Node}

theorem net_nil : net family [] = 0 := rfl

theorem net_append (as bs : List Node) : net family (as ++ bs) = net family as + net family bs := by
  simp only [net, List.countP_append]
  omega

theorem net_cons (n : Node) (ns : List Node) : net family (n :: ns) = net family [n] + net family ns :=
  net_append [n] ns

theorem net_tag (hk : n.kind? = some kind) : net family [n] = step family kind := by
  cases kind <;> cases family <;>
    simp [net, Node.opens?, Node.closes?, hk, step, TagKind.opens?, TagKind.closes?]

theorem net_still (hk : n.kind? = none) : net family [n] = 0 := by
  simp [net, Node.opens?, Node.closes?, hk]

/-- The depth of a family cannot change by more than the number of tags, so that 32 bits hold the depths in every
template of fewer than `2 ^ 31` tags. -/
theorem natAbs_net_le (family : Family) (ns : List Node) :
    (net family ns).natAbs ≤ ns.countP fun n => n.kind?.isSome := by
  have hopens : (ns.countP fun n => n.opens? == some family) ≤ ns.countP fun n => n.kind?.isSome := by
    apply List.countP_mono_left
    intro n _ h
    cases hk : n.kind? with
    | none => simp [Node.opens?, hk] at h
    | some kind => rfl
  have hcloses : (ns.countP fun n => n.closes? == some family) ≤ ns.countP fun n => n.kind?.isSome := by
    apply List.countP_mono_left
    intro n _ h
    cases hk : n.kind? with
    | none => simp [Node.closes?, hk] at h
    | some kind => rfl
  rw [net]
  omega

/-- A balanced stretch and a node that opens and closes nothing do not change the balance of what follows. -/
theorem balanced_behind {as bs : List Node} (has : Balanced family as) (hn : net family [n] = 0) :
    Balanced family (as ++ n :: bs) ↔ Balanced family bs := by
  have hnet (p : List Node) : net family (as ++ n :: p) = net family p := by
    rw [net_append, net_cons, has.whole, hn, Int.zero_add, Int.zero_add]
  constructor
  · intro h
    refine ⟨fun p hp => ?_, hnet bs ▸ h.whole⟩
    rw [← hnet p]
    exact h.prefixes _ ((List.prefix_append_right_inj as).2 (List.prefix_cons_inj n |>.2 hp))
  · intro h
    refine ⟨fun p hp => ?_, (hnet bs).trans h.whole⟩
    rcases List.prefix_or_prefix_of_prefix hp (List.prefix_append as (n :: bs)) with hshort | ⟨q, rfl⟩
    · exact has.prefixes p hshort
    · have hq : q <+: n :: bs := (List.prefix_append_right_inj as).1 hp
      rcases List.prefix_cons_iff.1 hq with rfl | ⟨t, rfl, ht⟩
      · rw [List.append_nil]
        exact has.prefixes as (List.prefix_refl as)
      · rw [hnet t]
        exact h.prefixes t ht

end

section
variable {family : Family} {stoppers : List TagKind} {i stop : Nat} {own other : Int}

/-- A scan that gets past some nodes has counted what they open and close, and its block was open all the
way. -/
theorem scan_passed {passed rest : List Node} (hown : 1 ≤ own)
    (h : scan family stoppers i own other (passed ++ rest) = some stop) (hle : i + passed.length ≤ stop) :
    scan family stoppers (i + passed.length) (own + net family passed)
        (other + net (otherFamily family) passed) rest = some stop ∧
      ∀ p, p <+: passed → 1 ≤ own + net family p := by
  induction passed generalizing i own other with
  | nil =>
    refine ⟨by simpa [net_nil] using h, fun p hp => ?_⟩
    rw [List.prefix_nil.1 hp, net_nil, Int.add_zero]
    exact hown
  | cons n passed ih =>
    rw [List.length_cons] at hle
    have later {own' other' : Int} (hown' : own' = own + net family [n])
        (hother' : other' = other + net (otherFamily family) [n]) (hpos : 1 ≤ own')
        (hs : scan family stoppers (i + 1) own' other' (passed ++ rest) = some stop) :
        scan family stoppers (i + (n :: passed).length) (own + net family (n :: passed))
            (other + net (otherFamily family) (n :: passed)) rest = some stop ∧
          ∀ p, p <+: n :: passed → 1 ≤ own + net family p := by
      obtain ⟨hrest, hprefixes⟩ := ih hpos hs (by omega)
      subst hown' hother'
      rw [net_cons, net_cons n passed, ← Int.add_assoc, ← Int.add_assoc, List.length_cons,
        Nat.add_comm passed.length, ← Nat.add_assoc]
      refine ⟨hrest, fun p hp => ?_⟩
      rcases List.prefix_cons_iff.1 hp with rfl | ⟨q, rfl, hq⟩
      · rw [net_nil, Int.add_zero]
        exact hown
      · rw [net_cons, ← Int.add_assoc]
        exact hprefixes q hq
    have notHere (hi : some i = some stop) : False := by
      have := Option.some.inj hi
      omega
    rw [List.cons_append, scan] at h
    cases hk : n.kind? with
    | none =>
      rw [hk] at h
      exact later (by rw [net_still hk, Int.add_zero]) (by rw [net_still hk, Int.add_zero]) hown h
    | some kind =>
      rw [hk] at h
      dsimp only at h
      split at h
      · exact (notHere h).elim
      · split at h
        · exact (notHere h).elim
        · next hcloser =>
          refine later (by rw [net_tag hk]) (by rw [net_tag hk]) ?_ h
          -- Only a closer of the family goes down, by one, and it has not closed the block.
          cases kind <;> cases family <;> simp [step, TagKind.opens?, TagKind.closes?] at hcloser ⊢ <;> omega

theorem kind_of_scan {ns : List Node} (h : scan family stoppers i own other ns = some stop) :
    ∃ kind, kindAt? ns (stop - i) = some kind ∧
      (kind = .unknown ∨ kind ∈ stoppers ∨ kind.closes? = some family) := by
  induction ns generalizing i own other with
  | nil => cases h
  | cons n ns ih =>
    have later {own' other' : Int} (hs : scan family stoppers (i + 1) own' other' ns = some stop) :
        ∃ kind, kindAt? (n :: ns) (stop - i) = some kind ∧
          (kind = .unknown ∨ kind ∈ stoppers ∨ kind.closes? = some family) := by
      have hle := (scan_bounds hs).1
      have hindex : stop - i = stop - (i + 1) + 1 := by omega
      rw [hindex]
      exact ih hs
    have here {kind : TagKind} (hk : n.kind? = some kind) (hi : some i = some stop)
        (hends : kind = .unknown ∨ kind ∈ stoppers ∨ kind.closes? = some family) :
        ∃ kind, kindAt? (n :: ns) (stop - i) = some kind ∧
          (kind = .unknown ∨ kind ∈ stoppers ∨ kind.closes? = some family) := by
      obtain rfl := Option.some.inj hi
      rw [Nat.sub_self]
      exact ⟨kind, hk, hends⟩
    simp only [scan] at h
    split at h
    · exact later h
    · next hk =>
      split at h
      · next hstop => exact here hk h (hstop.2.2.imp_right .inl)
      · split at h
        · next hcloser => exact here hk h (.inr (.inr hcloser.1))
        · exact later h

end

section
variable {ns : List Node} {start i j stop : Nat} {c : Chain}

theorem drop_eq_body (hij : i < j) (hj : j ≤ ns.length) :
    ns.drop (i + 1) = body ns i j ++ ns.drop j ∧ i + 1 + (body ns i j).length = j := by
  have hlength : (ns.take j).length = j := List.length_take_of_le hj
  constructor
  · rw [body, ← List.drop_append_of_le_length (by omega), List.take_append_drop]
  · rw [body, List.length_drop, hlength]
    omega

/-- The nodes between two tags, parted at a node between them. -/
theorem body_split {n : Node} (his : i < stop) (hsj : stop < j) (hn : ns[stop]? = some n) :
    body ns i j = body ns i stop ++ n :: body ns stop j := by
  obtain ⟨hlt, rfl⟩ := List.getElem?_eq_some_iff.1 hn
  have hlt' : stop < (ns.take j).length := by
    rw [List.length_take]
    omega
  have hbody : body (ns.take j) i stop = body ns i stop := by
    rw [body, body, List.take_take, Nat.min_eq_left (Nat.le_of_lt hsj)]
  have hcons : (ns.take j).drop stop = ns[stop] :: body ns stop j := by
    rw [List.drop_eq_getElem_cons hlt', List.getElem_take]
    rfl
  have hdrop := (drop_eq_body his (Nat.le_of_lt hlt')).1
  rw [hbody, hcons] at hdrop
  exact hdrop

theorem kind_of_find {closer : TagKind} {stoppers : List TagKind} {family : Family}
    (hc : closer.closes? = some family) (h : find ns start closer stoppers = .ok stop) :
    ∃ kind, kindAt? ns stop = some kind ∧
      (kind = .unknown ∨ kind ∈ stoppers ∨ kind.closes? = some family) := by
  rw [find_eq_ok hc] at h
  obtain ⟨kind, hkind, hends⟩ := kind_of_scan h
  rw [kindAt?, List.getElem?_drop, Nat.add_sub_cancel' (scan_bounds h).1] at hkind
  exact ⟨kind, hkind, hends⟩

/-- Of the branch tags up to where a branch ends, the one that ends it is on its level and no other is. -/
theorem find_eq_iff_onLevel (hf : find ns i .endIf [.elifTag, .elseTag] = .ok stop) (hij : i < j)
    (hj : j ≤ stop) (htag : IsBranchTag ns j) : stop = j ↔ OnLevel ns i j := by
  have hlt := (find_bounds hf).2
  have hjle : j ≤ ns.length := by omega
  obtain ⟨hdrop, hlength⟩ := drop_eq_body hij hjle
  have hscan := (find_eq_ok rfl).1 hf
  rw [hdrop] at hscan
  obtain ⟨hscan, hprefixes⟩ := scan_passed (Int.le_refl 1) hscan (by omega)
  rw [hlength] at hscan
  -- The conditional was open all the way, so only the levels at the tag itself are in question.
  have hlevel : OnLevel ns i j ↔
      1 + net .branching (body ns i j) = 1 ∧ 0 + net .looping (body ns i j) = 0 := by
    constructor
    · rintro ⟨hbalanced, hloops⟩
      rw [hbalanced.whole, hloops]
      exact ⟨rfl, rfl⟩
    · rintro ⟨hown, hother⟩
      refine ⟨⟨fun p hp => ?_, by omega⟩, by omega⟩
      have := hprefixes p hp
      omega
  obtain ⟨kind, hkind, hbranch⟩ : ∃ kind, kindAt? ns j = some kind ∧ (kind = .elifTag ∨ kind = .elseTag) :=
    htag.elim (fun h => ⟨_, h, .inl rfl⟩) fun h => ⟨_, h, .inr rfl⟩
  obtain ⟨n, hn, hcons⟩ := drop_of_kindAt? hkind
  have hcloses : kind.closes? = none := by rcases hbranch with rfl | rfl <;> rfl
  rw [hcons, scan, hn] at hscan
  dsimp only at hscan
  rw [hlevel]
  split at hscan
  · next hhere =>
    obtain rfl := Option.some.inj hscan
    exact ⟨fun _ => ⟨hhere.1, hhere.2.1⟩, fun _ => rfl⟩
  · next hnot =>
    rw [if_neg (by simp [hcloses])] at hscan
    have hlater := (scan_bounds hscan).1
    constructor
    · intro hstop
      omega
    · rintro ⟨hown, hother⟩
      exact absurd ⟨hown, hother, .inr (by rcases hbranch with rfl | rfl <;> simp)⟩ hnot

/-- A tag behind a branch tag that is on the level of the conditional is on it if it is on that of the branch. -/
theorem onLevel_behind (his : i < stop) (hsj : stop < j) (htag : IsBranchTag ns stop)
    (h : OnLevel ns i stop) : OnLevel ns i j ↔ OnLevel ns stop j := by
  obtain ⟨kind, hkind, hstep⟩ : ∃ kind, kindAt? ns stop = some kind ∧ ∀ family, step family kind = 0 :=
    htag.elim (fun h => ⟨_, h, fun _ => rfl⟩) fun h => ⟨_, h, fun _ => rfl⟩
  obtain ⟨n, hn, hk⟩ := Option.bind_eq_some_iff.1 hkind
  have hnet (family : Family) : net family [n] = 0 := (net_tag hk).trans (hstep family)
  rw [OnLevel, body_split his hsj hn, balanced_behind h.1 (hnet _), net_append, net_cons, h.2, hnet,
    Int.zero_add, Int.zero_add]
  rfl

theorem exists_branch (h : chainFrom ns start i = .ok c) : ∃ b ∈ c.branches, b.tag = i := by
  rw [chainFrom_eq] at h
  split at h
  · cases h
  · next stop _ =>
    split at h
    · obtain rfl := Except.ok.inj h
      exact ⟨⟨i, stop⟩, .head _, rfl⟩
    · split at h
      · obtain ⟨c', -, rfl⟩ := Result.map_eq_ok h
        exact ⟨⟨i, stop⟩, .head _, rfl⟩
      · cases h

/-- The branch of an `else` is the last one. -/
theorem chainFrom_else (hi : kindAt? ns i = some .elseTag) (h : chainFrom ns start i = .ok c) :
    c.branches = [⟨i, c.stop⟩] := by
  rw [chainFrom_eq] at h
  split at h
  · cases h
  · next stop hf =>
    rw [branchStoppers, if_pos hi] at hf
    obtain ⟨kind, hkind, hends⟩ := kind_of_find rfl hf
    split at h
    · obtain rfl := Except.ok.inj h
      rfl
    · next hnot =>
      rw [if_neg] at h
      · cases h
      · rw [hkind]
        rintro (heq | heq) <;> obtain rfl := Option.some.inj heq <;> simp [TagKind.closes?] at hends

theorem mem_chainFrom_iff (hi : kindAt? ns i ≠ some .elseTag) (hc : chainFrom ns start i = .ok c)
    (hij : i < j) (hj : j < c.stop) (htag : IsBranchTag ns j) : (∃ b ∈ c.branches, b.tag = j) ↔
      OnLevel ns i j ∧ ∀ b ∈ c.branches, b.tag < j → kindAt? ns b.tag ≠ some .elseTag := by
  fun_induction chainFrom ns start i generalizing c with
  | case1 => cases hc
  | case2 i stop hf _ =>
    obtain rfl := Except.ok.inj hc
    rw [branchStoppers, if_neg hi] at hf
    have hoff : ¬ OnLevel ns i j := by
      rw [← find_eq_iff_onLevel hf hij (Nat.le_of_lt hj) htag]
      exact Nat.ne_of_gt hj
    simp [hoff, Nat.ne_of_lt hij]
  | case3 i stop hf _ hstop ih =>
    obtain ⟨c', hc', rfl⟩ := Result.map_eq_ok hc
    rw [branchStoppers, if_neg hi] at hf
    have his := (find_bounds hf).1
    have hle := (chainFrom_bounds hc').1
    have hfirst : ∀ b ∈ (⟨i, stop⟩ :: c'.branches : List Branch), b.tag < j →
        b.tag = i ∨ b ∈ c'.branches ∧ stop ≤ b.tag ∧ b.tag < j := by
      intro b hb hlt
      rcases List.mem_cons.1 hb with rfl | hb
      · exact .inl rfl
      · exact .inr ⟨hb, hle b hb, hlt⟩
    rcases Nat.lt_trichotomy j stop with hlt | rfl | hgt
    · -- Before the end of the branch no tag is on its level.
      have hoff : ¬ OnLevel ns i j := by
        rw [← find_eq_iff_onLevel hf hij (Nat.le_of_lt hlt) htag]
        exact Nat.ne_of_gt hlt
      constructor
      · rintro ⟨b, hb, rfl⟩
        rcases List.mem_cons.1 hb with rfl | hb
        · exact absurd hij (Nat.lt_irrefl _)
        · exact absurd hlt (Nat.not_lt.2 (hle b hb))
      · exact fun h => absurd h.1 hoff
    · -- The tag that ends the branch begins the next one.
      obtain ⟨b, hb, htag'⟩ := exists_branch hc'
      refine iff_of_true ⟨b, .tail _ hb, htag'⟩
        ⟨(find_eq_iff_onLevel hf hij (Nat.le_refl _) htag).1 rfl, fun b hb hlt => ?_⟩
      rcases hfirst b hb hlt with heq | ⟨-, hge, -⟩
      · rwa [heq]
      · omega
    · have hlevel := (find_eq_iff_onLevel hf his (Nat.le_refl _) hstop).1 rfl
      have hskip : (∃ b ∈ (⟨i, stop⟩ :: c'.branches : List Branch), b.tag = j) ↔
          ∃ b ∈ c'.branches, b.tag = j := by
        simp [Nat.ne_of_lt hij]
      rw [hskip, onLevel_behind his hgt hstop hlevel]
      by_cases helse : kindAt? ns stop = some .elseTag
      · -- Behind an `else` there are no more branches.
        obtain ⟨b, hb, hb'⟩ := exists_branch hc'
        refine iff_of_false ?_ fun h => h.2 b (.tail _ hb) (hb' ▸ hgt) (hb' ▸ helse)
        rw [chainFrom_else helse hc']
        simp [Nat.ne_of_lt hgt]
      · rw [ih helse hc' hgt hj]
        refine and_congr_right fun _ => ⟨fun h b hb hlt => ?_, fun h b hb => h b (.tail _ hb)⟩
        rcases hfirst b hb hlt with heq | ⟨hb, -, -⟩
        · rwa [heq]
        · exact h b hb hlt
  | case4 => cases hc

/-- The `elif` and `else` tags inside a conditional that are its branches: those on its level, up to its
first `else`. -/
theorem chain_branch_iff (hstart : kindAt? ns start = some .ifTag) (hc : chain ns start = .ok c)
    (hj : start < j) (hstop : j < c.stop)
    (htag : kindAt? ns j = some .elifTag ∨ kindAt? ns j = some .elseTag) :
    (∃ b ∈ c.branches, b.tag = j) ↔
      Balanced .branching (body ns start j) ∧ net .looping (body ns start j) = 0 ∧
        ∀ b ∈ c.branches, b.tag < j → kindAt? ns b.tag ≠ some .elseTag := by
  have hi : kindAt? ns start ≠ some .elseTag := by simp [hstart]
  rw [mem_chainFrom_iff hi hc hj hstop htag, OnLevel, and_assoc]

end

/-- A loop and an inner conditional that cross each other, and an `else` behind both. -/
theorem chain_branch_iff_crossing :
    let ns : List Node := [.tag ⟨.ifTag "a", "if a"⟩, .tag ⟨.forTag "x in y", "for x in y"⟩,
      .tag ⟨.ifTag "b", "if b"⟩, .tag ⟨.endFor, "endfor"⟩, .tag ⟨.endIf, "endif"⟩,
      .tag ⟨.elseTag, "else"⟩, .tag ⟨.endIf, "endif"⟩]
    let c : Chain := ⟨[⟨0, 5⟩, ⟨5, 6⟩], 6⟩
    chain ns 0 = .ok c ∧ kindAt? ns 5 = some .elseTag ∧ Balanced .branching (body ns 0 5) ∧
      net .looping (body ns 0 5) = 0 := by
  intro ns c
  have hlast : chainFrom ns 0 5 = .ok ⟨[⟨5, 6⟩], 6⟩ := by
    rw [chainFrom_eq]
    rfl
  have hc : chain ns 0 = .ok c := by
    rw [chain, chainFrom_eq]
    show (chainFrom ns 0 5).map _ = _
    rw [hlast]
    rfl
  have hstart : kindAt? ns 0 = some .ifTag := rfl
  have helse : kindAt? ns 5 = some .elseTag := rfl
  obtain ⟨hconditionals, hloops, -⟩ :=
    (chain_branch_iff hstart hc (by decide) (by decide) (.inr helse)).1 ⟨⟨5, 6⟩, by decide, rfl⟩
  exact ⟨hc, helse, hconditionals, hloops⟩

/-- An `else` behind the closer of a loop that was never opened: no loop and no conditional is open there, and
yet it is no branch. -/
theorem chain_strayCloser :
    let ns : List Node := [.tag ⟨.ifTag "a", "if a"⟩, .tag ⟨.endFor, "endfor"⟩, .tag ⟨.elseTag, "else"⟩,
      .text "x", .tag ⟨.endIf, "endif"⟩]
    let c : Chain := ⟨[⟨0, 4⟩], 4⟩
    kindAt? ns 0 = some .ifTag ∧ chain ns 0 = .ok c ∧ 2 < c.stop ∧ kindAt? ns 2 = some .elseTag ∧
      Balanced .branching (body ns 0 2) ∧ (∀ n ∈ body ns 0 2, n.opens? ≠ some .looping) ∧
      ¬ ∃ b ∈ c.branches, b.tag = 2 ∨ kindAt? ns b.tag = some .elseTag := by
  intro ns c
  have hbalanced : Balanced .branching (body ns 0 2) := by
    refine ⟨fun p hp => ?_, rfl⟩
    have hbody : body ns 0 2 = [.tag ⟨.endFor, "endfor"⟩] := rfl
    rw [hbody, List.prefix_cons_iff] at hp
    rcases hp with rfl | ⟨q, rfl, hq⟩
    · decide
    · rw [List.prefix_nil.1 hq]
      decide
  have hc : chain ns 0 = .ok c := by
    rw [chain, chainFrom_eq]
    rfl
  exact ⟨rfl, hc, by decide, rfl, hbalanced, by decide, by decide⟩

end Stencil.Block

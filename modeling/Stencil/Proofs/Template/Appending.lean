import Stencil.Proofs.Template.Locality
import Stencil.Proofs.Template.Rendering

/-! Rendering sequences one after the other: what nodes come before or behind makes no difference. -/
namespace Stencil

open Block

theorem Tag.ifTag_of_opens {t : Tag} (h : t.kind.opens? = some .branching) :
    ∃ condition, t.directive = .ifTag condition := by
  cases ht : t.directive with
  | ifTag condition => exact ⟨condition, rfl⟩
  | elifTag | elseTag | endIf | forTag | endFor | unknown => simp [Tag.kind, ht, TagKind.opens?] at h

theorem Tag.forTag_of_opens {t : Tag} (h : t.kind.opens? = some .looping) :
    ∃ clause, t.directive = .forTag clause := by
  cases ht : t.directive with
  | forTag clause => exact ⟨clause, rfl⟩
  | ifTag | elifTag | elseTag | endIf | endFor | unknown => simp [Tag.kind, ht, TagKind.opens?] at h

namespace MapOrder

/-- The orders in the nodes that stand behind `n` others, where places are told by the indices there. -/
def behind (order : MapOrder) (n : Nat) : MapOrder := fun place => order (place.modifyHead (n + ·))

variable {order : MapOrder} {n i round : Nat}

theorem behind_singleton : order.behind n [i] = order [n + i] := rfl

theorem inside_behind : (order.behind n).inside i round = order.inside (n + i) round := rfl

end MapOrder

namespace Render

/-- The node at index `i`, or the block that it opens, gives a text or a failure, and what follows begins
at `k`. -/
inductive Gives (rules : Rules) (order : MapOrder) (env : Env) (depth : Nat) (ns : List Node) (i : Nat) :
    Result String → Nat → Prop
  | text {s : String} : ns[i]? = some (.text s) → Gives rules order env depth ns i (.ok s) (i + 1)
  | comment {s : String} : ns[i]? = some (.comment s) → Gives rules order env depth ns i (.ok "") (i + 1)
  | expression {source : String} {r : Result String} : ns[i]? = some (.expression source) →
      locate ("\x7b\x7b " ++ source ++ " \x7d\x7d") (interpolate rules env depth source) = r →
      Gives rules order env depth ns i r (i + 1)
  | conditional {t : Tag} {condition : String} {c : Chain} {r : Result String} :
      ns[i]? = some (.tag t) → t.directive = .ifTag condition → chain ns i = .ok c →
      branchText rules order env depth ns c.branches = r → Gives rules order env depth ns i r (c.stop + 1)
  | loop {t : Tag} {clause : String} {stop : Nat} {r : Result String} : ns[i]? = some (.tag t) →
      t.directive = .forTag clause → loopEnd ns i = .ok stop →
      (locate t.source (iterations (order [i]) env depth clause) >>=
        loopText rules order env depth i (body ns i stop)) = r → Gives rules order env depth ns i r (stop + 1)

/-- The block opened by the tag `t` at index `i` is never closed. -/
structure Unclosed (ns : List Node) (t : Tag) (block : Family) (i : Nat) : Prop where
  tag : ns[i]? = some (.tag t)
  opens : t.kind.opens? = some block
  unclosed : closing ns i block = .error (.unclosedBlock block i)

/-- The tag at index `i` stands where it cannot. -/
inductive Fails (ns : List Node) (i : Nat) : Error → Prop
  | malformed {t : Tag} {block : Family} {cause : TagFault} : ns[i]? = some (.tag t) →
      t.kind.opens? = some block → closing ns i block = .error (.malformedTag cause) →
      Fails ns i (.inTag t.source (.malformedTag cause))
  | unclosed {t : Tag} {block : Family} : Unclosed ns t block i →
      Fails ns i (.inTag t.source (.unclosedBlock block i))
  | unknown {t : Tag} {diagnostic : String} : ns[i]? = some (.tag t) →
      t.directive = .unknown diagnostic →
      Fails ns i (.inTag t.source (.malformedTag (.unknown diagnostic)))
  | stray {t : Tag} : ns[i]? = some (.tag t) → t.kind.opens? = none → t.kind ≠ .unknown →
      Fails ns i (.inTag t.source (.malformedTag (.stray t.kind.keyword)))

variable {rules : Rules} {order : MapOrder} {env : Env} {depth : Nat} {pre ns post : List Node} {i j k : Nat}
  {r : Result String} {s : String} {e : Error}

theorem nodesFrom_unresolved {t : Tag} {block : Family} (h : ns[i]? = some (.tag t))
    (ho : t.kind.opens? = some block) (hc : closing ns i block = .error e) :
    nodesFrom rules order env depth ns i = .error (.inTag t.source e) := by
  cases block with
  | branching =>
    obtain ⟨condition, ht⟩ := Tag.ifTag_of_opens ho
    rw [nodesFrom_if h ht]
    cases hchain : chain ns i with
    | ok c =>
      rw [closing, hchain] at hc
      cases hc
    | error e' =>
      rw [closing, hchain] at hc
      obtain rfl := Except.error.inj hc
      rfl
  | looping =>
    obtain ⟨clause, ht⟩ := Tag.forTag_of_opens ho
    rw [nodesFrom_for h ht]
    rw [closing] at hc
    rw [hc]

theorem Gives.nodesFrom (h : Gives rules order env depth ns i r k) :
    nodesFrom rules order env depth ns i = (do
      let s ← r
      let rest ← nodesFrom rules order env depth ns k
      .ok (s ++ rest)) := by
  cases h with
  | text h => exact nodesFrom_text h
  | comment h =>
    rw [nodesFrom_comment h]
    cases Render.nodesFrom rules order env depth ns (i + 1) <;> simp [bind, Except.bind]
  | expression h hr => rw [nodesFrom_expression h, hr]
  | conditional h ht hc hr =>
    rw [nodesFrom_if h ht, hc]
    dsimp only
    rw [hr]
  | loop h ht hstop hr =>
    rw [nodesFrom_for h ht, hstop, ← hr, bind_assoc]

theorem Fails.nodesFrom (h : Fails ns i e) : nodesFrom rules order env depth ns i = .error e := by
  cases h with
  | malformed h ho hc => exact nodesFrom_unresolved h ho hc
  | unclosed h => exact nodesFrom_unresolved h.tag h.opens h.unclosed
  | unknown h ht => exact nodesFrom_unknown h ht
  | stray h ho hu => exact nodesFrom_stray h ho hu

theorem gives_or_fails (rules : Rules) (order : MapOrder) (env : Env) (depth : Nat) (hi : i < ns.length) :
    (∃ r k, Gives rules order env depth ns i r k) ∨ ∃ e, Fails ns i e := by
  have h : ns[i]? = some ns[i] := List.getElem?_eq_getElem hi
  cases hn : ns[i] with
  | text s => exact .inl ⟨_, _, .text (hn ▸ h)⟩
  | comment s => exact .inl ⟨_, _, .comment (hn ▸ h)⟩
  | expression source => exact .inl ⟨_, _, .expression (hn ▸ h) rfl⟩
  | tag t =>
    rw [hn] at h
    cases ho : t.kind.opens? with
    | none =>
      by_cases hu : t.kind = .unknown
      · cases ht : t.directive with
        | unknown diagnostic => exact .inr ⟨_, .unknown h ht⟩
        | ifTag | elifTag | elseTag | endIf | forTag | endFor => simp [Tag.kind, ht] at hu
      · exact .inr ⟨_, .stray h ho hu⟩
    | some block =>
      cases hc : closing ns i block with
      | error e =>
        rcases closing_error hc with rfl | ⟨cause, rfl⟩
        · exact .inr ⟨_, .unclosed ⟨h, ho, hc⟩⟩
        · exact .inr ⟨_, .malformed h ho hc⟩
      | ok stop =>
        cases block with
        | branching =>
          obtain ⟨condition, ht⟩ := Tag.ifTag_of_opens ho
          obtain ⟨c, hchain, -⟩ := Result.map_eq_ok hc
          exact .inl ⟨_, _, .conditional h ht hchain rfl⟩
        | looping =>
          obtain ⟨clause, ht⟩ := Tag.forTag_of_opens ho
          exact .inl ⟨_, _, .loop h ht hc rfl⟩

theorem Gives.bounds (h : Gives rules order env depth ns i r k) : i < k ∧ k ≤ ns.length := by
  have hlt {n : Node} (h : ns[i]? = some n) : i < i + 1 ∧ i + 1 ≤ ns.length :=
    ⟨Nat.lt_succ_self i, (List.getElem?_eq_some_iff.1 h).1⟩
  cases h with
  | text h | comment h | expression h => exact hlt h
  | conditional _ _ hc =>
    exact ⟨Nat.lt_succ_of_lt (chainFrom_bounds hc).2, (chainFrom_within hc).2⟩
  | loop _ _ hstop =>
    have hbounds := loopEnd_bounds hstop
    omega

section
variable {bs : List Branch}

theorem holds_behind (pre : List Node) (b : Branch) :
    holds env depth (pre ++ ns) (b.behind pre.length) = holds env depth ns b := by
  rw [holds, Branch.behind, List.getElem?_append_right (Nat.le_add_right ..), Nat.add_sub_cancel_left]
  rfl

theorem branchText_behind (pre : List Node) :
    branchText rules order env depth (pre ++ ns) (bs.map (Branch.behind pre.length)) =
      branchText rules (order.behind pre.length) env depth ns bs := by
  induction bs with
  | nil => rfl
  | cons b bs ih =>
    rw [List.map_cons, branchText, branchText, ih, holds_behind, Branch.behind, body_behind,
      MapOrder.inside_behind]

theorem branchText_append (post : List Node) (h : ∀ b ∈ bs, b.tag < b.stop ∧ b.stop < ns.length) :
    branchText rules order env depth (ns ++ post) bs = branchText rules order env depth ns bs := by
  induction bs with
  | nil => rfl
  | cons b bs ih =>
    obtain ⟨hb, hbs⟩ := List.forall_mem_cons.1 h
    have hholds : holds env depth (ns ++ post) b = holds env depth ns b := by
      rw [holds, List.getElem?_append_left (Nat.lt_trans hb.1 hb.2)]
      rfl
    rw [branchText, branchText, ih hbs, hholds, body_append post b.tag (Nat.le_of_lt hb.2)]

theorem loopText_behind (n : Nat) {ms : List Node} :
    loopText rules (order.behind n) env depth i ms = loopText rules order env depth (n + i) ms := rfl

end

theorem getElem?_behind (pre : List Node) {n : Node} (h : ns[i]? = some n) :
    (pre ++ ns)[pre.length + i]? = some n := by
  rw [List.getElem?_append_right (Nat.le_add_right ..), Nat.add_sub_cancel_left, h]

/-- What a node gives does not depend on what comes before it. -/
theorem Gives.behind (pre : List Node) (h : Gives rules (order.behind pre.length) env depth ns i r k) :
    Gives rules order env depth (pre ++ ns) (pre.length + i) r (pre.length + k) := by
  cases h with
  | text h => exact .text (getElem?_behind pre h)
  | comment h => exact .comment (getElem?_behind pre h)
  | expression h hr => exact .expression (getElem?_behind pre h) hr
  | @conditional t condition c _ h ht hc hr =>
    have hc' : chain (pre ++ ns) (pre.length + i) = .ok (c.behind pre.length) := by
      rw [chain_behind, hc]
      rfl
    have hr' := (branchText_behind pre).trans hr
    exact .conditional (getElem?_behind pre h) ht hc' hr'
  | @loop t clause stop _ h ht hstop hr =>
    have hstop' : loopEnd (pre ++ ns) (pre.length + i) = .ok (pre.length + stop) := by
      rw [loopEnd_behind, hstop]
      rfl
    rw [← body_behind pre, loopText_behind, MapOrder.behind_singleton] at hr
    exact .loop (getElem?_behind pre h) ht hstop' hr

theorem Unclosed.behind (pre : List Node) {t : Tag} {block : Family} (h : Unclosed ns t block i) :
    Unclosed (pre ++ ns) t block (pre.length + i) where
  tag := getElem?_behind pre h.tag
  opens := h.opens
  unclosed := by
    rw [closing_behind, h.unclosed]
    rfl

/-- Nor does it matter for a tag that fails, unless it opens a block that is not closed. -/
theorem Fails.behind (pre : List Node) (h : Fails ns i e) (hu : ∀ t block, ¬ Unclosed ns t block i) :
    Fails (pre ++ ns) (pre.length + i) e := by
  cases h with
  | malformed h ho hc =>
    refine .malformed (getElem?_behind pre h) ho ?_
    rw [closing_behind, hc]
    rfl
  | unclosed h => exact absurd h (hu _ _)
  | unknown h ht => exact .unknown (getElem?_behind pre h) ht
  | stray h ho hu => exact .stray (getElem?_behind pre h) ho hu

theorem branches_within {c : Chain} (hc : chain ns i = .ok c) :
    ∀ b ∈ c.branches, b.tag < b.stop ∧ b.stop < ns.length := by
  obtain ⟨hbranches, hstop⟩ := chainFrom_within hc
  intro b hb
  obtain ⟨hlt, hle⟩ := hbranches b hb
  exact ⟨hlt, Nat.lt_of_le_of_lt hle hstop⟩

/-- What a node gives does not depend on what comes behind it. -/
theorem Gives.extend (post : List Node) (h : Gives rules order env depth ns i r k) :
    Gives rules order env depth (ns ++ post) i r k := by
  have hi : i < ns.length := Nat.lt_of_lt_of_le h.bounds.1 h.bounds.2
  have hget : (ns ++ post)[i]? = ns[i]? := List.getElem?_append_left hi
  cases h with
  | text h => exact .text (hget.trans h)
  | comment h => exact .comment (hget.trans h)
  | expression h hr => exact .expression (hget.trans h) hr
  | conditional h ht hc hr =>
    have hr' := (branchText_append post (branches_within hc)).trans hr
    exact .conditional (hget.trans h) ht ((chainFrom_append post).1 hc).1 hr'
  | loop h ht hstop hr =>
    obtain ⟨hstop', hlt⟩ := (loopEnd_append post).1 hstop
    rw [← body_append post i (Nat.le_of_lt hlt)] at hr
    exact .loop (hget.trans h) ht hstop' hr

/-- Nor does it need what comes behind it. -/
theorem Gives.restrict (h : Gives rules order env depth (ns ++ post) i r k) (hk : k ≤ ns.length) :
    Gives rules order env depth ns i r k := by
  have hi : i < ns.length := Nat.lt_of_lt_of_le h.bounds.1 hk
  have hget : ns[i]? = (ns ++ post)[i]? := (List.getElem?_append_left hi).symm
  cases h with
  | text h => exact .text (hget.trans h)
  | comment h => exact .comment (hget.trans h)
  | expression h hr => exact .expression (hget.trans h) hr
  | conditional h ht hc hr =>
    have hc' : chain ns i = .ok _ := (chainFrom_append post).2 ⟨hc, hk⟩
    have hr' := (branchText_append post (branches_within hc')).symm.trans hr
    exact .conditional (hget.trans h) ht hc' hr'
  | loop h ht hstop hr =>
    have hstop' := (loopEnd_append post).2 ⟨hstop, hk⟩
    rw [body_append post i (Nat.le_of_lt hk)] at hr
    exact .loop (hget.trans h) ht hstop' hr

/-- Rendering does not get past index `i`. -/
def Stops (rules : Rules) (order : MapOrder) (env : Env) (depth : Nat) (ns : List Node) (i : Nat)
    (e : Error) : Prop :=
  (∃ k, Gives rules order env depth ns i (.error e) k) ∨ Fails ns i e

theorem Stops.nodesFrom (h : Stops rules order env depth ns i e) :
    nodesFrom rules order env depth ns i = .error e := by
  rcases h with ⟨k, h⟩ | h
  · rw [h.nodesFrom]
    rfl
  · exact h.nodesFrom

theorem Stops.behind (pre : List Node) (h : Stops rules (order.behind pre.length) env depth ns i e)
    (hu : ∀ t block, ¬ Unclosed ns t block i) :
    Stops rules order env depth (pre ++ ns) (pre.length + i) e := by
  rcases h with ⟨k, h⟩ | h
  · exact .inl ⟨pre.length + k, h.behind pre⟩
  · exact .inr (h.behind pre hu)

/-- Rendering from index `i` on gives a text up to index `j`, where a node or block begins or nothing
follows. -/
inductive Reaches (rules : Rules) (order : MapOrder) (env : Env) (depth : Nat) (ns : List Node) :
    Nat → Nat → String → Prop
  | refl (i : Nat) : Reaches rules order env depth ns i i ""
  | step {i k j : Nat} {s rest : String} : Gives rules order env depth ns i (.ok s) k →
      Reaches rules order env depth ns k j rest → Reaches rules order env depth ns i j (s ++ rest)

namespace Reaches

theorem le (h : Reaches rules order env depth ns i j s) : i ≤ j := by
  induction h with
  | refl => exact Nat.le_refl _
  | step hgives _ ih => exact Nat.le_trans (Nat.le_of_lt hgives.bounds.1) ih

theorem nodesFrom (h : Reaches rules order env depth ns i j s) :
    nodesFrom rules order env depth ns i = (do
      let rest ← nodesFrom rules order env depth ns j
      .ok (s ++ rest)) := by
  induction h with
  | refl i => cases Render.nodesFrom rules order env depth ns i <;> simp [bind, Except.bind]
  | @step i k j s rest hgives _ ih =>
    rw [hgives.nodesFrom, ih]
    cases Render.nodesFrom rules order env depth ns j <;> simp [bind, Except.bind, String.append_assoc]

theorem behind (pre : List Node) (h : Reaches rules (order.behind pre.length) env depth ns i j s) :
    Reaches rules order env depth (pre ++ ns) (pre.length + i) (pre.length + j) s := by
  induction h with
  | refl => exact .refl _
  | step hgives _ ih => exact .step (hgives.behind pre) ih

theorem extend (post : List Node) (h : Reaches rules order env depth ns i j s) :
    Reaches rules order env depth (ns ++ post) i j s := by
  induction h with
  | refl => exact .refl _
  | step hgives _ ih => exact .step (hgives.extend post) ih

theorem restrict (h : Reaches rules order env depth (ns ++ post) i j s) (hj : j ≤ ns.length) :
    Reaches rules order env depth ns i j s := by
  induction h with
  | refl => exact .refl _
  | step hgives hrest ih => exact .step (hgives.restrict (Nat.le_trans hrest.le hj)) (ih hj)

end Reaches

/-- Rendering either comes to the end or to a node or block that fails. -/
theorem ends_or_stops (rules : Rules) (order : MapOrder) (env : Env) (depth : Nat) {i : Nat}
    (hi : i ≤ ns.length) :
    (∃ s, Reaches rules order env depth ns i ns.length s) ∨
      ∃ j s e, Reaches rules order env depth ns i j s ∧ Stops rules order env depth ns j e := by
  by_cases hend : i = ns.length
  · subst hend
    exact .inl ⟨"", .refl _⟩
  · have hlt : i < ns.length := Nat.lt_of_le_of_ne hi hend
    rcases gives_or_fails rules order env depth hlt with ⟨r, k, hgives⟩ | ⟨e, hfails⟩
    · cases r with
      | error e => exact .inr ⟨i, "", e, .refl i, .inl ⟨k, hgives⟩⟩
      | ok s =>
        have hbounds := hgives.bounds
        rcases ends_or_stops rules order env depth hbounds.2 with
          ⟨rest, hreaches⟩ | ⟨j, rest, e, hreaches, hstops⟩
        · exact .inl ⟨s ++ rest, .step hgives hreaches⟩
        · exact .inr ⟨j, s ++ rest, e, .step hgives hreaches, hstops⟩
    · exact .inr ⟨i, "", e, .refl i, .inr hfails⟩
termination_by ns.length - i

/-- A text of all nodes is reached without a failure on the way. -/
theorem nodesFrom_eq_ok (hi : i ≤ ns.length) :
    nodesFrom rules order env depth ns i = .ok s ↔ Reaches rules order env depth ns i ns.length s := by
  have hend : nodesFrom rules order env depth ns ns.length = .ok "" := nodesFrom_end (Nat.le_refl _)
  have hok {r : String} (h : Reaches rules order env depth ns i ns.length r) :
      nodesFrom rules order env depth ns i = .ok r := by
    rw [h.nodesFrom, hend]
    simp [bind, Except.bind]
  refine ⟨fun h => ?_, hok⟩
  rcases ends_or_stops rules order env depth hi with ⟨r, hreaches⟩ | ⟨j, r, e, hreaches, hstops⟩
  · have heq := (hok hreaches).symm.trans h
    obtain rfl := Except.ok.inj heq
    exact hreaches
  · rw [hreaches.nodesFrom, hstops.nodesFrom] at h
    cases h

/-- An index is reached exactly if the nodes before it give a text by themselves. -/
theorem nodesFrom_take (hj : j ≤ ns.length) :
    nodesFrom rules order env depth (ns.take j) 0 = .ok s ↔ Reaches rules order env depth ns 0 j s := by
  have hlength : (ns.take j).length = j := List.length_take_of_le hj
  rw [nodesFrom_eq_ok (Nat.zero_le _), hlength]
  constructor
  · intro h
    have hall := h.extend (ns.drop j)
    rwa [List.take_append_drop] at hall
  · intro h
    rw [← List.take_append_drop j ns] at h
    exact h.restrict (Nat.le_of_eq hlength.symm)

theorem Reaches.nodesFrom_error (h : Reaches rules order env depth ns i j s)
    (he : Stops rules order env depth ns j e) :
    Render.nodesFrom rules order env depth ns i = .error e := by
  rw [h.nodesFrom, he.nodesFrom]
  rfl

/-- Where one sequence is not too deep, no sequence is. -/
theorem entry_of_ok (h : nodes rules order env depth ns = .ok s) : entry rules depth = .ok () := by
  rw [nodes_eq_entry] at h
  obtain ⟨_, hentry, -⟩ := Result.bind_eq_ok h
  exact hentry

/-- Rendering comes to a block of the sequence itself that is never closed, opened by the tag `t` at
index `j`. -/
structure MeetsUnclosed (rules : Rules) (order : MapOrder) (env : Env) (depth : Nat) (ns : List Node) (t : Tag)
    (block : Family) (j : Nat) : Prop where
  before : ∃ s, nodes rules order env depth (ns.take j) = .ok s
  unclosed : Unclosed ns t block j

/-- Rendering two sequences one after the other, where the first one gives a text. The loops of each go through
maps in one order, by themselves and one after the other. -/
theorem nodes_append {first second order : MapOrder} {ns ms : List Node} {a : String}
    (hfirst : ∀ place, first place = order place)
    (hsecond : ∀ place, second place = order.behind ns.length place)
    (h : nodes rules first env depth ns = .ok a) :
    (∀ b, nodes rules second env depth ms = .ok b →
        nodes rules order env depth (ns ++ ms) = .ok (a ++ b)) ∧
      (∀ t block j, MeetsUnclosed rules second env depth ms t block j →
        nodes rules second env depth ms = .error (.inTag t.source (.unclosedBlock block j)) ∧
        nodes rules order env depth (ns ++ ms) =
          .error (.inTag t.source (.unclosedBlock block (ns.length + j)))) ∧
      ∀ e, nodes rules second env depth ms = .error e →
        (∀ t block j, ¬ MeetsUnclosed rules second env depth ms t block j) →
        nodes rules order env depth (ns ++ ms) = .error e := by
  obtain rfl : first = order := funext hfirst
  obtain rfl : second = first.behind ns.length := funext hsecond
  have hdepth := entry_of_ok h
  rw [nodes_of_entry hdepth] at h
  have hns : Reaches rules first env depth (ns ++ ms) 0 ns.length a :=
    ((nodesFrom_eq_ok (Nat.zero_le _)).1 h).extend ms
  have hfails {j : Nat} {s : String} {e : Error}
      (hms : Reaches rules (first.behind ns.length) env depth ms 0 j s)
      (hstops : Stops rules first env depth (ns ++ ms) (ns.length + j) e) :
      nodesFrom rules first env depth (ns ++ ms) 0 = .error e := by
    have hbehind := hms.behind ns
    rw [Nat.add_zero] at hbehind
    rw [hns.nodesFrom, hbehind.nodesFrom_error hstops]
    rfl
  simp only [nodes_of_entry hdepth]
  refine ⟨fun b hb => ?_, fun t block j hmeets => ?_, fun e he hnot => ?_⟩
  · have hms := ((nodesFrom_eq_ok (Nat.zero_le _)).1 hb).behind ns
    rw [Nat.add_zero, ← List.length_append] at hms
    rw [hns.nodesFrom, (nodesFrom_eq_ok (by simp)).2 hms]
    rfl
  · -- What comes before the block gives a text by itself, so rendering reaches the block.
    obtain ⟨⟨s, hs⟩, hunclosed⟩ := hmeets
    have hj : j < ms.length := (List.getElem?_eq_some_iff.1 hunclosed.tag).1
    rw [nodes_of_entry hdepth, nodesFrom_take (Nat.le_of_lt hj)] at hs
    exact ⟨hs.nodesFrom_error (.inr (.unclosed hunclosed)),
      hfails hs (.inr (.unclosed (hunclosed.behind ns)))⟩
  · -- Rendering stops somewhere; a block that is not closed there is the one that is excluded.
    rcases ends_or_stops rules (first.behind ns.length) env depth (Nat.zero_le ms.length) with
      ⟨s, hms⟩ | ⟨j, s, e', hms, hstops⟩
    · rw [(nodesFrom_eq_ok (Nat.zero_le _)).2 hms] at he
      cases he
    · rw [hms.nodesFrom_error hstops] at he
      obtain rfl := Except.error.inj he
      refine hfails hms (hstops.behind ns fun t block hunclosed => hnot t block j ⟨⟨s, ?_⟩, hunclosed⟩)
      have hj : j < ms.length := (List.getElem?_eq_some_iff.1 hunclosed.tag).1
      rw [nodes_of_entry hdepth, nodesFrom_take (Nat.le_of_lt hj)]
      exact hms

/-- Behind a text: a text, a tag that opens a block and is the last, and a tag that closes nothing. -/
theorem nodes_append_unclosed :
    let rules : Rules := ⟨none, false⟩
    let order : MapOrder := fun _ => .stored
    let env : Env := ⟨.bare, .empty, .empty, .empty⟩
    let opener : Tag := ⟨.ifTag "x", "if x"⟩
    let closer : Tag := ⟨.endIf, "endif"⟩
    nodes rules order env 0 [.text "a"] = .ok "a" ∧
      nodes rules order env 0 ([.text "a"] ++ [.text "b"]) = .ok ("a" ++ "b") ∧
      nodes rules order env 0 ([.text "a"] ++ [.text "b", .tag opener]) =
        .error (.inTag "\x7b% if x %\x7d" (.unclosedBlock .branching 2)) ∧
      nodes rules order env 0 ([.text "a"] ++ [.tag closer]) =
        .error (.inTag "\x7b% endif %\x7d" (.malformedTag (.stray "endif"))) := by
  intro rules order env opener closer
  have hshared (place : List Nat) : order place = order place := rfl
  have hbehind (place : List Nat) : order place = order.behind 1 place := rfl
  have hfirst : nodes rules order env 0 [.text "a"] = .ok "a" := nodes_text rules order env "a"
  have hunclosed : closing [.text "b", .tag opener] 1 .branching =
      .error (.unclosedBlock .branching 1) := by
    rw [closing, chain, chainFrom_eq]
    rfl
  have hmeets : MeetsUnclosed rules order env 0 [.text "b", .tag opener] opener .branching 1 :=
    ⟨⟨"b", nodes_text rules order env "b"⟩, ⟨rfl, rfl, hunclosed⟩⟩
  have hstray : nodes rules order env 0 [.tag closer] =
      .error (.inTag "\x7b% endif %\x7d" (.malformedTag (.stray "endif"))) := by
    rw [nodes_outermost, nodesFrom_stray rfl rfl (by simp [Tag.kind, closer])]
    rfl
  have hnot (t : Tag) (block : Family) (j : Nat) :
      ¬ MeetsUnclosed rules order env 0 [.tag closer] t block j := by
    rintro ⟨-, htag, hopens, -⟩
    obtain rfl : t = closer := Node.tag.inj (List.mem_singleton.1 (List.mem_of_getElem? htag))
    cases hopens
  refine ⟨hfirst, ?_, ?_, ?_⟩
  · exact (nodes_append hshared hbehind hfirst).1 "b" (nodes_text rules order env "b")
  · exact ((nodes_append hshared hbehind hfirst).2.1 opener .branching 1 hmeets).2
  · exact (nodes_append hshared hbehind hfirst).2.2 _ hstray hnot

end Render

end Stencil

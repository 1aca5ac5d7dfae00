import Stencil.Proofs.Template.Locality

/-! Blocks end where they end in any part of a template that holds them. The bodies that are rendered by
themselves are such parts, at every depth. -/
namespace Stencil

theorem Result.behind_eq_ok {α : Type} {n : Nat} {f : α → α} (hf : ∀ a b, f a = f b → a = b)
    {r : Result α} {a : α} : r.behind n f = .ok (f a) ↔ r = .ok a := by
  cases r with
  | error e => simp [Result.behind]
  | ok b =>
    simp only [Result.behind, Except.ok.injEq]
    exact ⟨hf b a, congrArg f⟩

theorem Result.behind_malformed {α : Type} {n : Nat} {f : α → α} {r : Result α} {cause : TagFault}
    (h : r = .error (.malformedTag cause)) : r.behind n f = .error (.malformedTag cause) := by
  rw [h]
  rfl

theorem Branch.behind_inj {n : Nat} (b b' : Branch) (h : b.behind n = b'.behind n) : b = b' := by
  obtain ⟨htag, hstop⟩ := Branch.mk.inj h
  cases b
  cases b'
  simp_all

theorem Chain.behind_inj {n : Nat} (c c' : Chain) (h : c.behind n = c'.behind n) : c = c' := by
  obtain ⟨hbranches, hstop⟩ := Chain.mk.inj h
  have hbs := (List.map_inj_right Branch.behind_inj).1 hbranches
  cases c
  cases c'
  simp_all

namespace Block

/-- In `ms` blocks end as in `ns`, of which `ms` is the part from index `n` on. A tag of `ms` ends the same
search in both, and where a tag is malformed both fail alike. A block that is open at the end of `ms` may be
closed behind it. -/
structure ResolvesAt (ns : List Node) (n : Nat) (ms : List Node) : Prop where
  find_ok {start : Nat} {closer : TagKind} {stoppers : List TagKind} {stop : Nat} :
    find ms start closer stoppers = .ok stop ↔
      find ns (n + start) closer stoppers = .ok (n + stop) ∧ stop < ms.length
  loopEnd_ok {start stop : Nat} :
    loopEnd ms start = .ok stop ↔ loopEnd ns (n + start) = .ok (n + stop) ∧ stop < ms.length
  chain_ok {start : Nat} {c : Chain} :
    chain ms start = .ok c ↔ chain ns (n + start) = .ok (c.behind n) ∧ c.stop < ms.length
  find_malformed {start : Nat} {closer : TagKind} {stoppers : List TagKind} {cause : TagFault} :
    find ms start closer stoppers = .error (.malformedTag cause) →
      find ns (n + start) closer stoppers = .error (.malformedTag cause)
  loopEnd_malformed {start : Nat} {cause : TagFault} :
    loopEnd ms start = .error (.malformedTag cause) → loopEnd ns (n + start) = .error (.malformedTag cause)
  chain_malformed {start : Nat} {cause : TagFault} :
    chain ms start = .error (.malformedTag cause) → chain ns (n + start) = .error (.malformedTag cause)

theorem resolvesAt_append (pre ms post : List Node) : ResolvesAt (pre ++ ms ++ post) pre.length ms := by
  have hshift (a b : Nat) (h : pre.length + a = pre.length + b) : a = b := Nat.add_left_cancel h
  rw [List.append_assoc]
  constructor
  · intro start closer stoppers stop
    rw [find_behind, Result.behind_eq_ok hshift]
    exact find_append post
  · intro start stop
    rw [loopEnd_behind, Result.behind_eq_ok hshift]
    exact loopEnd_append post
  · intro start c
    rw [chain_behind, Result.behind_eq_ok Chain.behind_inj]
    exact chainFrom_append post
  · intro start closer stoppers cause h
    rw [find_behind, find_conclusive post (Result.conclusive_malformed h), Result.behind_malformed h]
  · intro start cause h
    rw [loopEnd_behind, loopEnd_conclusive post (Result.conclusive_malformed h),
      Result.behind_malformed h]
  · intro start cause h
    have hc : chain (ms ++ post) start = chain ms start :=
      chainFrom_conclusive post (Result.conclusive_malformed h)
    rw [chain_behind, hc, Result.behind_malformed h]

/-- The nodes `ms` stand in `ns` from index `n` on. -/
def PartAt (ns : List Node) (n : Nat) (ms : List Node) : Prop :=
  ∃ pre post, pre.length = n ∧ ns = pre ++ ms ++ post

theorem PartAt.trans {ns ms ls : List Node} {n m : Nat} (h : PartAt ns n ms) (h' : PartAt ms m ls) :
    PartAt ns (n + m) ls := by
  obtain ⟨pre, post, rfl, rfl⟩ := h
  obtain ⟨pre', post', rfl, rfl⟩ := h'
  exact ⟨pre ++ pre', post' ++ post, List.length_append, by simp only [List.append_assoc]⟩

theorem partAt_body {ns : List Node} {start stop : Nat} (hlt : start < stop)
    (hstop : stop < ns.length) : PartAt ns (start + 1) (body ns start stop) := by
  refine ⟨(ns.take stop).take (start + 1), ns.drop stop, ?_, ?_⟩
  · simp only [List.length_take]
    omega
  · rw [body, List.take_append_drop, List.take_append_drop]

/-- The parts of a template that are rendered by themselves, and the index at which each begins: the whole
of it, and in such a part the bodies of loops and of branches. -/
inductive Slice (template : List Node) : Nat → List Node → Prop
  | whole : Slice template 0 template
  | loop {n start stop : Nat} {ns : List Node} : Slice template n ns → loopEnd ns start = .ok stop →
      Slice template (n + (start + 1)) (body ns start stop)
  | branch {n start : Nat} {ns : List Node} {c : Chain} {b : Branch} : Slice template n ns →
      chain ns start = .ok c → b ∈ c.branches → Slice template (n + (b.tag + 1)) (body ns b.tag b.stop)

theorem Slice.partAt {template ns : List Node} {n : Nat} (h : Slice template n ns) :
    PartAt template n ns := by
  induction h with
  | whole => exact ⟨[], [], rfl, by simp⟩
  | loop _ hloop ih =>
    obtain ⟨hlt, hstop⟩ := loopEnd_bounds hloop
    exact ih.trans (partAt_body hlt hstop)
  | branch _ hc hb ih =>
    obtain ⟨hbranches, hstop⟩ := chainFrom_within hc
    obtain ⟨hlt, hle⟩ := hbranches _ hb
    exact ih.trans (partAt_body hlt (Nat.lt_of_le_of_lt hle hstop))

/-- Blocks end in a part of a template as they do in all of it, whatever the rest is, and so do the blocks
in the bodies that are rendered by themselves. -/
theorem resolution_local :
    (∀ pre ns post : List Node, ResolvesAt (pre ++ ns ++ post) pre.length ns) ∧
      ∀ template n slice, Slice template n slice → ResolvesAt template n slice := by
  refine ⟨resolvesAt_append, fun template n slice h => ?_⟩
  obtain ⟨pre, post, rfl, rfl⟩ := h.partAt
  exact resolvesAt_append pre slice post

/-- A conditional in a loop in a branch, an unknown tag behind a stray closer, and a conditional that is
closed behind the loop it begins in, so that the body lacks the closer that the template has. -/
theorem resolution_local_nested :
    let opener : Node := .tag ⟨.ifTag "a", "if a"⟩
    let loop : Node := .tag ⟨.forTag "x in xs", "for x in xs"⟩
    let closer : Node := .tag ⟨.endIf, "endif"⟩
    let loopCloser : Node := .tag ⟨.endFor, "endfor"⟩
    let unknown : Node := .tag ⟨.unknown "unknown tag", "foo"⟩
    let template :=
      [opener, loop, opener, .text "t", closer, loopCloser, .tag ⟨.elseTag, "else"⟩, closer]
    let crossing := [loop, opener, loopCloser, closer]
    Slice template 2 [opener, .text "t", closer] ∧
      chain [opener, .text "t", closer] 0 = .ok ⟨[⟨0, 2⟩], 2⟩ ∧
      chain template 2 = .ok ⟨[⟨2, 4⟩], 4⟩ ∧
      chain ([loopCloser] ++ [opener, unknown] ++ [closer]) 1 =
        .error (.malformedTag (.unknownInBlock "\x7b% foo %\x7d" .branching "unknown tag")) ∧
      Slice crossing 1 [opener] ∧ chain [opener] 0 = .error (.unclosedBlock .branching 0) ∧
      chain crossing 1 = .ok ⟨[⟨1, 3⟩], 3⟩ := by
  intro opener loop closer loopCloser unknown template crossing
  have houter : chain template 0 = .ok ⟨[⟨0, 6⟩, ⟨6, 7⟩], 7⟩ := by
    have helse : chainFrom template 0 6 = .ok ⟨[⟨6, 7⟩], 7⟩ := by
      rw [chainFrom_eq]
      rfl
    rw [chain, chainFrom_eq]
    show (chainFrom template 0 6).map _ = _
    rw [helse]
    rfl
  have hbranch : Slice template 1 [loop, opener, .text "t", closer, loopCloser] :=
    .branch .whole houter (List.mem_cons_self ..)
  have hloop : loopEnd [loop, opener, .text "t", closer, loopCloser] 0 = .ok 4 := rfl
  have hslice : Slice template 2 [opener, .text "t", closer] := Slice.loop hbranch hloop
  have hinner : chain [opener, .text "t", closer] 0 = .ok ⟨[⟨0, 2⟩], 2⟩ := by
    rw [chain, chainFrom_eq]
    rfl
  have hunknown : chain [opener, unknown] 0 =
      .error (.malformedTag (.unknownInBlock "\x7b% foo %\x7d" .branching "unknown tag")) := by
    rw [chain, chainFrom_eq]
    rfl
  have hcrossed : loopEnd crossing 0 = .ok 2 := rfl
  have hcrossing : Slice crossing 1 [opener] := Slice.loop .whole hcrossed
  have hunclosed : chain [opener] 0 = .error (.unclosedBlock .branching 0) := by
    rw [chain, chainFrom_eq]
    rfl
  have hclosed : chain crossing 1 = .ok ⟨[⟨1, 3⟩], 3⟩ := by
    rw [chain, chainFrom_eq]
    rfl
  refine ⟨hslice, hinner, ?_, ?_, hcrossing, hunclosed, hclosed⟩
  · exact ((resolution_local.2 template 2 _ hslice).chain_ok.1 hinner).1
  · exact (resolution_local.1 [loopCloser] _ [closer]).chain_malformed hunknown

end Block

end Stencil

import Stencil.Proofs.Template.Coupling

/-! Where the failures of a rendering come from: each names a node, or else blocks nest too deep. -/
namespace Stencil

/-- The place that failures at a node name. -/
def Node.location? : Node → Option String
  | text _ | comment _ => none
  | expression source => some ("\x7b\x7b " ++ source ++ " \x7d\x7d")
  | tag t => some t.source

theorem locate_eq_error {α : Type} {location : String} {r : Result α} {e : Error}
    (h : locate location r = .error e) : ∃ cause, r = .error cause ∧ e = .inTag location cause := by
  cases r with
  | ok a => cases h
  | error cause => exact ⟨cause, rfl, (Except.error.inj h).symm⟩

/-- A list fails at one of its elements. -/
theorem Result.mapM_eq_error {α β : Type} {f : α → Result β} {l : List α} {e : Error}
    (h : l.mapM f = .error e) : ∃ a ∈ l, f a = .error e := by
  induction l with
  | nil => cases h
  | cons a l ih =>
    rw [List.mapM_cons] at h
    rcases bind_eq_error h with ha | ⟨b, -, h⟩
    · exact ⟨a, .head l, ha⟩
    · rcases bind_eq_error h with hl | ⟨bs, -, h⟩
      · obtain ⟨a', ha', hfails⟩ := ih hl
        exact ⟨a', .tail a ha', hfails⟩
      · cases h

namespace Render

open Block

/-- A failure of a rendering: at one of the nodes, or because blocks nest too deep. -/
inductive Failure (rules : Rules) (ns : List Node) : Error → Prop
  | at {n : Node} {location : String} (cause : Error) : n ∈ ns → n.location? = some location →
      Failure rules ns (.inTag location cause)
  | tooDeep {limit : Nat} : rules.maxDepth = some limit → Failure rules ns (.depthLimit limit)

variable {rules : Rules} {order : MapOrder} {env : Env} {depth : Nat} {ns ms : List Node} {i k : Nat}
  {e : Error}

theorem Failure.mono (h : Failure rules ms e) (hsub : ms ⊆ ns) : Failure rules ns e := by
  cases h with
  | «at» cause hn hlocation => exact .at cause (hsub hn) hlocation
  | tooDeep hlimit => exact .tooDeep hlimit

theorem Failure.of_locate {α : Type} {n : Node} {location : String} {r : Result α} (hn : n ∈ ns)
    (hlocation : n.location? = some location) (h : locate location r = .error e) :
    Failure rules ns e := by
  obtain ⟨cause, -, rfl⟩ := locate_eq_error h
  exact .at cause hn hlocation

theorem Failure.of_entry (h : entry rules depth = .error e) : Failure rules ns e := by
  rw [entry] at h
  split at h
  · cases h
  · next limit hlimit =>
    split at h
    · obtain rfl := Except.error.inj h
      exact .tooDeep hlimit
    · cases h

theorem Fails.failure (h : Fails ns i e) : Failure rules ns e := by
  have here {t : Tag} (cause : Error) (h : ns[i]? = some (.tag t)) :
      Failure rules ns (.inTag t.source cause) :=
    .at cause (List.mem_of_getElem? h) rfl
  cases h with
  | malformed h => exact here _ h
  | unclosed h => exact here _ h.tag
  | unknown h => exact here _ h
  | stray h => exact here _ h

theorem holds_failure {b : Branch} (h : holds env depth ns b = .error e) : Failure rules ns e := by
  rw [holds] at h
  split at h
  · cases h
  · next t ht =>
    obtain ⟨n, hn, htag⟩ := Option.bind_eq_some_iff.1 ht
    cases n with
    | text | expression | comment => cases htag
    | tag t' =>
      obtain rfl := Option.some.inj htag
      split at h
      · cases h
      · cases hvalue : locate t'.source (clauseValue env depth t'.expression) with
        | ok v =>
          rw [hvalue] at h
          cases h
        | error e' =>
          rw [hvalue] at h
          obtain rfl := Except.error.inj h
          exact .of_locate (List.mem_of_getElem? hn) rfl hvalue

theorem branchText_failure {bs : List Branch}
    (hbodies : ∀ b ∈ bs, ∀ e,
      nodes rules (order.inside b.tag 0) env (depth + 1) (body ns b.tag b.stop) = .error e →
      Failure rules ns e) (h : branchText rules order env depth ns bs = .error e) : Failure rules ns e := by
  induction bs with
  | nil => cases h
  | cons b bs ih =>
    obtain ⟨hbody, hbs⟩ := List.forall_mem_cons.1 hbodies
    rw [branchText] at h
    rcases Result.bind_eq_error h with hfails | ⟨taken, -, h⟩
    · exact holds_failure hfails
    · cases taken with
      | true => exact hbody e h
      | false => exact ih hbs h

theorem Gives.failure (h : Gives rules order env depth ns i (.error e) k)
    (hbodies : ∀ {order : MapOrder} {env : Env} {depth : Nat} {ms : List Node} {e : Error},
      ms.length < ns.length - i → nodes rules order env depth ms = .error e → Failure rules ms e) :
    Failure rules ns e := by
  have hi : i < ns.length := Nat.lt_of_lt_of_le h.bounds.1 h.bounds.2
  cases h with
  | expression hn hr => exact .of_locate (List.mem_of_getElem? hn) rfl hr
  | conditional _ _ hc hr =>
    refine branchText_failure (fun b hb e he => ?_) hr
    exact (hbodies (length_body_lt b.stop hi ((chainFrom_bounds hc).1 b hb)) he).mono (body_subset ..)
  | @loop t clause stop _ hn _ _ hr =>
    rcases Result.bind_eq_error hr with hcollection | ⟨rounds, -, hr⟩
    · exact .of_locate (List.mem_of_getElem? hn) rfl hcollection
    · rw [loopText] at hr
      rcases Result.bind_eq_error hr with htexts | ⟨texts, -, hr⟩
      · obtain ⟨round, -, he⟩ := Result.mapM_eq_error htexts
        exact (hbodies (length_body_lt stop hi (Nat.le_refl i)) he).mono (body_subset ..)
      · cases hr

theorem nodesFrom_failure (h : nodesFrom rules order env depth ns i = .error e) : Failure rules ns e := by
  induction hlength : ns.length - i using Nat.strongRecOn generalizing order env depth ns i e with
  | ind n ih =>
    subst hlength
    by_cases hi : i < ns.length
    · rcases gives_or_fails rules order env depth hi with ⟨r, k, hgives⟩ | ⟨e', hfails⟩
      · rw [hgives.nodesFrom] at h
        rcases Result.bind_eq_error h with rfl | ⟨s, -, h⟩
        · refine hgives.failure fun {order env depth ms e} hlt he => ?_
          rw [nodes_eq_entry] at he
          rcases Result.bind_eq_error he with hentry | ⟨_, -, he⟩
          · exact .of_entry hentry
          · exact ih ms.length hlt he rfl
        · rcases Result.bind_eq_error h with hrest | ⟨rest, -, h⟩
          · have hbounds := hgives.bounds
            exact ih (ns.length - k) (by omega) hrest rfl
          · cases h
      · rw [hfails.nodesFrom] at h
        obtain rfl := Except.error.inj h
        exact hfails.failure
    · rw [nodesFrom_end (Nat.not_lt.1 hi)] at h
      cases h

/-- Every failure of a rendering names one of its nodes, unless blocks nest too deep. -/
theorem nodes_failure (h : nodes rules order env depth ns = .error e) : Failure rules ns e := by
  rw [nodes_eq_entry] at h
  rcases Result.bind_eq_error h with hentry | ⟨_, -, h⟩
  · exact .of_entry hentry
  · exact nodesFrom_failure h

/-- The failure names the place of one of the nodes. -/
def Located (ns : List Node) (e : Error) : Prop :=
  ∃ n ∈ ns, ∃ location cause, n.location? = some location ∧ e = .inTag location cause

theorem Failure.located (h : Failure rules ns e) :
    Located ns e ∨ ∃ limit, rules.maxDepth = some limit ∧ e = .depthLimit limit := by
  cases h with
  | @«at» n location cause hn hlocation => exact .inl ⟨n, hn, location, cause, hlocation, rfl⟩
  | @tooDeep limit hlimit => exact .inr ⟨limit, hlimit, rfl⟩

theorem not_located_depthLimit {limit : Nat} : ¬ Located ns (.depthLimit limit) := by
  rintro ⟨n, -, location, cause, -, he⟩
  cases he

end Render

end Stencil

import Stencil.Proofs.Template.Appending

/-! Two renderings of the same nodes side by side, each under its own rules and in its own environments, whose
loops go through maps in the same orders: what holds of both at every node carries over to their results. -/
namespace Stencil

/-- The first result is the second one, or else a failure of the kind `p`. -/
def AgreesUnless {α : Type} (p : Error → Prop) (r r' : Result α) : Prop :=
  r = r' ∨ ∃ e, r = .error e ∧ p e

namespace AgreesUnless

variable {α β : Type} {p : Error → Prop} {r r' : Result α}

theorem refl (r : Result α) : AgreesUnless p r r := .inl rfl

theorem of_eq (h : r = r') : AgreesUnless p r r' := .inl h

theorem eq_of_never (h : AgreesUnless (fun _ => False) r r') : r = r' := by
  rcases h with h | ⟨e, -, hfalse⟩
  · exact h
  · exact hfalse.elim

theorem bind {f f' : α → Result β} (h : AgreesUnless p r r')
    (hf : ∀ a, r = .ok a → AgreesUnless p (f a) (f' a)) : AgreesUnless p (r >>= f) (r' >>= f') := by
  rcases h with rfl | ⟨e, rfl, hp⟩
  · cases r with
    | error e => exact refl _
    | ok a => exact hf a rfl
  · exact .inr ⟨e, rfl, hp⟩

theorem mapM {l : List α} {f f' : α → Result β} (h : ∀ a ∈ l, AgreesUnless p (f a) (f' a)) :
    AgreesUnless p (l.mapM f) (l.mapM f') := by
  induction l with
  | nil => exact refl _
  | cons a l ih =>
    obtain ⟨ha, hl⟩ := List.forall_mem_cons.1 h
    rw [List.mapM_cons, List.mapM_cons]
    exact ha.bind fun _ _ => (ih hl).bind fun _ _ => refl _

end AgreesUnless

namespace Render

open Block

variable {rules rules' : Rules} {order : MapOrder} {env env' : Env} {depth : Nat} {ns : List Node} {i k : Nat}
  {p : Error → Prop} {r : Result String}

/-- A relation between the environments of two renderings that are at the same depth and at the same
index of the same nodes. Where it holds, both make the same of conditions and collections, the first one
agrees with the second in every other respect unless it fails with a failure of the kind `p`, and
the relation holds again in the bodies that are rendered next and behind the node. -/
structure Coupling (p : Error → Prop) (rules rules' : Rules)
    (At : Env → Env → Nat → List Node → Nat → Prop) : Prop where
  entry {env env' : Env} {depth : Nat} {ns : List Node} : At env env' depth ns 0 →
    AgreesUnless p (entry rules depth) (entry rules' depth)
  expression {env env' : Env} {depth : Nat} {ns : List Node} {i : Nat} {source : String} :
    At env env' depth ns i → ns[i]? = some (.expression source) →
    AgreesUnless p
      (locate ("\x7b\x7b " ++ source ++ " \x7d\x7d") (interpolate rules env depth source))
      (locate ("\x7b\x7b " ++ source ++ " \x7d\x7d") (interpolate rules' env' depth source))
  conditional {env env' : Env} {depth : Nat} {ns : List Node} {i : Nat} {t : Tag} {condition : String}
    {c : Chain} : At env env' depth ns i → ns[i]? = some (.tag t) → t.directive = .ifTag condition →
    chain ns i = .ok c → ∀ b ∈ c.branches, holds env depth ns b = holds env' depth ns b ∧
      At env env' (depth + 1) (body ns b.tag b.stop) 0
  loop {env env' : Env} {depth : Nat} {ns : List Node} {i : Nat} {t : Tag} {clause : String}
    {stop : Nat} : At env env' depth ns i → ns[i]? = some (.tag t) → t.directive = .forTag clause →
    loopEnd ns i = .ok stop → (∀ a, iterations a env depth clause = iterations a env' depth clause) ∧
      ∀ (iteration : Iteration) (bound : List (String × Value)),
        At (iterationEnv env iteration bound) (iterationEnv env' iteration bound) (depth + 1)
          (body ns i stop) 0
  next {order : MapOrder} {env env' : Env} {depth : Nat} {ns : List Node} {i k : Nat} {r : Result String} :
    At env env' depth ns i → Gives rules order env depth ns i r k → At env env' depth ns k

namespace Coupling

variable {At : Env → Env → Nat → List Node → Nat → Prop}

theorem branchText {bs : List Branch}
    (h : ∀ b ∈ bs, holds env depth ns b = holds env' depth ns b ∧
      AgreesUnless p (nodes rules (order.inside b.tag 0) env (depth + 1) (body ns b.tag b.stop))
        (nodes rules' (order.inside b.tag 0) env' (depth + 1) (body ns b.tag b.stop))) :
    AgreesUnless p (branchText rules order env depth ns bs) (branchText rules' order env' depth ns bs) := by
  induction bs with
  | nil => exact .refl _
  | cons b bs ih =>
    obtain ⟨⟨hholds, hbody⟩, hbs⟩ := List.forall_mem_cons.1 h
    rw [Render.branchText, Render.branchText]
    refine (AgreesUnless.of_eq hholds).bind fun taken _ => ?_
    cases taken with
    | true => exact hbody
    | false => exact ih hbs

/-- One node, or the block that it opens, gives the same to both renderings unless the first one fails. -/
theorem gives (h : Coupling p rules rules' At) (hat : At env env' depth ns i)
    (hbodies : ∀ {order : MapOrder} {env env' : Env} {depth : Nat} {ms : List Node},
      ms.length < ns.length - i → At env env' depth ms 0 →
      AgreesUnless p (nodes rules order env depth ms) (nodes rules' order env' depth ms))
    (hgives : Gives rules order env depth ns i r k) :
    ∃ r', Gives rules' order env' depth ns i r' k ∧ AgreesUnless p r r' := by
  have hi : i < ns.length := Nat.lt_of_lt_of_le hgives.bounds.1 hgives.bounds.2
  cases hgives with
  | text hn => exact ⟨_, .text hn, .refl _⟩
  | comment hn => exact ⟨_, .comment hn, .refl _⟩
  | expression hn hr =>
    subst hr
    exact ⟨_, .expression hn rfl, h.expression hat hn⟩
  | @conditional t condition c _ hn ht hc hr =>
    subst hr
    have hbranches := h.conditional hat hn ht hc
    refine ⟨_, .conditional hn ht hc rfl, branchText fun b hb => ⟨(hbranches b hb).1, ?_⟩⟩
    exact hbodies (length_body_lt b.stop hi ((chainFrom_bounds hc).1 b hb)) (hbranches b hb).2
  | @loop t clause stop _ hn ht hstop hr =>
    subst hr
    refine ⟨_, .loop hn ht hstop rfl, ?_⟩
    obtain ⟨hcollection, hround⟩ := h.loop hat hn ht hstop
    rw [← hcollection]
    refine (AgreesUnless.refl _).bind fun rounds _ => ?_
    refine (AgreesUnless.mapM fun _ _ => ?_).bind fun _ _ => .refl _
    exact hbodies (length_body_lt stop hi (Nat.le_refl i)) (hround _ _)

theorem nodesFrom (h : Coupling p rules rules' At) (hat : At env env' depth ns i) :
    AgreesUnless p (nodesFrom rules order env depth ns i) (nodesFrom rules' order env' depth ns i) := by
  induction hlength : ns.length - i using Nat.strongRecOn generalizing order env env' depth ns i with
  | ind n ih =>
    subst hlength
    by_cases hi : i < ns.length
    · rcases gives_or_fails rules order env depth hi with ⟨r, k, hgives⟩ | ⟨e, hfails⟩
      · have hbodies {order : MapOrder} {env env' : Env} {depth : Nat} {ms : List Node}
            (hlt : ms.length < ns.length - i) (hat : At env env' depth ms 0) :
            AgreesUnless p (nodes rules order env depth ms) (nodes rules' order env' depth ms) := by
          rw [nodes_eq_entry, nodes_eq_entry]
          exact (h.entry hat).bind fun _ _ => ih ms.length hlt hat rfl
        obtain ⟨r', hgives', hr⟩ := h.gives hat hbodies hgives
        have hk : ns.length - k < ns.length - i := by
          have hbounds := hgives.bounds
          omega
        rw [hgives.nodesFrom, hgives'.nodesFrom]
        exact hr.bind fun _ _ => (ih _ hk (h.next hat hgives) rfl).bind fun _ _ => .refl _
      · rw [hfails.nodesFrom, hfails.nodesFrom]
        exact .refl _
    · rw [nodesFrom_end (Nat.not_lt.1 hi), nodesFrom_end (Nat.not_lt.1 hi)]
      exact .refl _

/-- Renderings that are coupled at the beginning agree to the end, unless the first one fails with a
failure of the kind `p`. -/
theorem nodes (h : Coupling p rules rules' At) (hat : At env env' depth ns 0) :
    AgreesUnless p (nodes rules order env depth ns) (nodes rules' order env' depth ns) := by
  rw [nodes_eq_entry, nodes_eq_entry]
  exact (h.entry hat).bind fun _ _ => h.nodesFrom hat

end Coupling

end Render

end Stencil

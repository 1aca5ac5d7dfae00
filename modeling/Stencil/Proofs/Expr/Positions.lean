import Stencil.Proofs.Expr.Grammar

/-! The readers of expressions look at the lexemes of their tokens only, not at where they stand, and stop in front
of a filter. -/
namespace Stencil

/-- The same token elsewhere. -/
def Token.moved (f : Nat → Nat) (t : Token) : Token := ⟨t.lexeme, f t.position⟩

namespace Parser

open Grammar

theorem beginsWithPower_iff {ts : List Token} :
    beginsWithPower ts = false ↔ HeadAll (· ≠ .operator .pow) ts := by
  unfold beginsWithPower
  split
  · simp [headAll_cons]
  · next hnot =>
    cases ts with
    | nil => simp [headAll_nil]
    | cons t ts =>
      obtain ⟨x, p⟩ := t
      simp only [headAll_cons, true_iff]
      rintro rfl
      exact hnot p ts rfl

theorem eat_eq_none_iff {m : Mark} {ts : List Token} : eat m ts = none ↔ HeadAll (· ≠ .mark m) ts := by
  cases ts with
  | nil => simp [eat, headAll_nil]
  | cons t ts => simp [eat, headAll_cons]

/-- The same tokens elsewhere. -/
def moved (f : Nat → Nat) (ts : List Token) : List Token := ts.map (Token.moved f)

/-- The same tokens elsewhere, with `us` behind them. -/
def placed (f : Nat → Nat) (us ts : List Token) : List Token := moved f ts ++ us

/-- Tokens that no pipeline goes on with but by a filter: they begin with a bar or a closing brace, if there are
any. -/
abbrev Stopping (us : List Token) : Prop := HeadAll (fun x => x = .mark .pipe ∨ x = .mark .closeBrace) us

section
variable {f : Nat → Nat} {us ts rest out : List Token}

theorem placed_id : placed id us ts = ts ++ us := congrArg (· ++ us) (List.map_id ts)

theorem moved_cons (t : Token) : moved f (t :: ts) = t.moved f :: moved f ts := rfl

section
variable (hus : Stopping us)
include hus

theorem headAll_placed {p : Lexeme → Prop} (hpipe : p (.mark .pipe)) (hbrace : p (.mark .closeBrace))
    (h : HeadAll p ts) : HeadAll p (placed f us ts) := by
  cases ts with
  | nil =>
    intro t ht
    rcases hus t ht with hx | hx
    · exact hx ▸ hpipe
    · exact hx ▸ hbrace
  | cons t ts => exact headAll_cons.2 (headAll_cons (t := t).1 h)

theorem beginsWithPower_placed (h : beginsWithPower ts = false) : beginsWithPower (placed f us ts) = false :=
  beginsWithPower_iff.2 (headAll_placed hus (by decide) (by decide) (beginsWithPower_iff.1 h))

theorem eat_openParen_placed (h : eat .openParen ts = none) : eat .openParen (placed f us ts) = none :=
  eat_eq_none_iff.2 (headAll_placed hus (by decide) (by decide) (eat_eq_none_iff.1 h))

end

end

variable (f : Nat → Nat) {us : List Token}

-- What the rules say about the parts of an expression does not mention positions, so each case takes a
-- reading apart by its inversion lemma and puts it together by the rule for that case.
mutual

theorem expression_placed (hus : Stopping us) {ts out : List Token} {min : Nat} {e : Expr}
    (h : Yields (expression min ts) e out) : Yields (expression min (placed f us ts)) e (placed f us out) := by
  obtain ⟨left, rest, ho, hc⟩ := expression_parts h
  have hlt := ho.1
  exact expression_of (operand_placed hus ho) (climb_placed hus hc)
termination_by 5 * ts.length + 3

theorem climb_placed (hus : Stopping us) {ts out : List Token} {min : Nat} {left e : Expr}
    (h : Yields (climb min left ts) e out) : Yields (climb min left (placed f us ts)) e (placed f us out) := by
  rcases climb_cases h with ⟨rfl, rfl, hstop⟩ | ⟨op, position, ts', right, rest, rfl, hmin, hr, hc⟩
  · exact climb_stop (headAll_placed hus (by simp [Below]) (by simp [Below]) hstop)
  · have hlt : rest.length < ts'.length := hr.1
    exact climb_operator hmin (expression_placed hus hr) (climb_placed hus hc)
termination_by 5 * ts.length
decreasing_by
  all_goals
    subst_vars
    simp only [List.length_cons]
    omega

theorem operand_placed (hus : Stopping us) {ts out : List Token} {e : Expr} (h : Yields (operand ts) e out) :
    Yields (operand (placed f us ts)) e (placed f us out) := by
  rcases operand_cases h with ⟨sign, position, ts', inner, rfl, rfl, hin⟩ |
    ⟨digits, p, q, rfl, hdigits, hpower, rfl⟩ | ⟨object, rest, hp, ht⟩
  · exact operand_sign (expression_placed hus hin)
  · exact operand_least hdigits (beginsWithPower_placed hus hpower)
  · have hlt := hp.1
    exact operand_primary (primary_placed hus hp) (trailers_placed hus ht)
termination_by 5 * ts.length + 2

theorem trailers_placed (hus : Stopping us) {ts out : List Token} {object e : Expr}
    (h : Yields (trailers object ts) e out) :
    Yields (trailers object (placed f us ts)) e (placed f us out) := by
  rcases trailers_cases h with ⟨rfl, rfl, hstop⟩ | ⟨name, x, p, q, rest, rfl, hx, ht⟩ |
    ⟨key, p, q, ts', rest, rfl, hk, ht⟩ | ⟨args, p, ts', rest, rfl, ha, ht⟩
  · exact trailers_stop (headAll_placed hus (by simp [NoTrailer]) (by simp [NoTrailer]) hstop)
  · exact trailers_attribute hx (trailers_placed hus ht)
  · have hlt : rest.length + 1 < ts'.length := hk.1
    exact trailers_subscript (expression_placed hus hk) (trailers_placed hus ht)
  · have hlt : rest.length < ts'.length := ha.1
    exact trailers_call (sequence_placed hus (.inl rfl) ha) (trailers_placed hus ht)
termination_by 5 * ts.length
decreasing_by
  all_goals
    subst_vars
    simp only [List.length_cons]
    omega

theorem primary_placed (hus : Stopping us) {ts out : List Token} {e : Expr} (h : Yields (primary ts) e out) :
    Yields (primary (placed f us ts)) e (placed f us out) := by
  rcases primary_cases h with ⟨x, p, rfl, -, hread⟩ | ⟨p, q, ts', rfl, he⟩ |
    ⟨items, p, ts', rfl, rfl, hs⟩ | ⟨ps, p, ts', rfl, rfl, hs⟩
  · exact hread (f p) (placed f us out)
  · exact primary_paren (expression_placed hus he)
  · exact primary_list (sequence_placed hus (.inr (.inl rfl)) hs)
  · exact primary_dict (pairs_placed hus hs)
termination_by 5 * ts.length + 1
decreasing_by
  all_goals
    subst_vars
    simp only [List.length_cons]
    omega

theorem sequence_placed (hus : Stopping us) {close : Mark} (hclose : Closing close) {ts out : List Token}
    {es : List Expr} (h : Yields (sequence close ts) es out) :
    Yields (sequence close (placed f us ts)) es (placed f us out) := by
  rcases sequence_cases h with ⟨p, rfl, rfl⟩ | ⟨e, q, rfl, he⟩ | ⟨e, es', q, rest, rfl, he, hs⟩
  · exact sequence_nil
  · exact sequence_last hclose (expression_placed hus he)
  · have hlt : rest.length + 1 < ts.length := he.1
    exact sequence_cons hclose (expression_placed hus he) (sequence_placed hus hclose hs)
termination_by 5 * ts.length + 4

theorem pairs_placed (hus : Stopping us) {ts out : List Token} {ps : List (Expr × Expr)}
    (h : Yields (pairs ts) ps out) :
    Yields (pairs (placed f us ts)) ps (placed f us out) := by
  rcases pairs_cases h with ⟨p, rfl, rfl⟩ | ⟨key, value, q, ts', hk, hrest⟩
  · exact pairs_nil
  · have hlt : ts'.length + 1 < ts.length := hk.1
    rcases hrest with ⟨r, rfl, hv⟩ | ⟨ps', r, rest, rfl, hv, hs⟩
    · exact pairs_last (expression_placed hus hk) (expression_placed hus hv)
    · have hlt' : rest.length + 1 < ts'.length := hv.1
      exact pairs_cons (expression_placed hus hk) (expression_placed hus hv) (pairs_placed hus hs)
termination_by 5 * ts.length + 4

end

theorem filterCall_placed (hus : Stopping us) {ts out : List Token} {call : FilterCall}
    (h : Yields (filterCall ts) call out) :
    Yields (filterCall (placed f us ts)) call (placed f us out) := by
  obtain ⟨name, p, ts', rfl, ⟨rfl, rfl, hopen⟩ | ⟨args, q, ts'', rfl, rfl, hs⟩⟩ := filterCall_cases h
  · exact filterCall_bare (eat_openParen_placed hus hopen)
  · exact filterCall_applied (sequence_placed f hus (.inl rfl) hs)

theorem filterCalls_read {call : FilterCall} {ts rest : List Token} {position : Nat}
    (h : Yields (filterCall ts) call rest) :
    filterCalls (⟨.mark .pipe, position⟩ :: ts) = (filterCalls rest).map (call :: ·) := by
  obtain ⟨hlt, h⟩ := h
  rw [filterCalls]
  simp only [eat_mark, h]
  cases filterCalls rest <;> rfl

theorem filterCalls_placed (hus : Stopping us) {ts : List Token} {fs : List FilterCall}
    (h : filterCalls ts = .ok fs) : filterCalls (placed f us ts) = (filterCalls us).map (fs ++ ·) := by
  rcases filterCalls_cases h with ⟨rfl, rfl⟩ | ⟨p, ts', call, rest, fs', rfl, rfl, hf, hfs⟩
  · cases hgs : filterCalls us <;> exact hgs
  · have hlt : rest.length < ts'.length := hf.1
    have hcall : filterCalls (placed f us (⟨.mark .pipe, p⟩ :: ts')) =
        (filterCalls (placed f us rest)).map (call :: ·) := filterCalls_read (filterCall_placed f hus hf)
    rw [hcall, filterCalls_placed hus hfs]
    cases filterCalls us <;> rfl
termination_by ts.length
decreasing_by
  subst_vars
  simp only [List.length_cons]
  omega

end Parser

theorem Pipeline.ofTokens_of_expression {ts rest : List Token} {base : Expr}
    (h : Parser.Yields (Parser.expression 0 ts) base rest) :
    ofTokens ts = (Parser.filterCalls rest).map fun fs => ⟨base, fs⟩ := by
  obtain ⟨hlt, h⟩ := h
  cases ts with
  | nil => exact absurd hlt (Nat.not_lt_zero _)
  | cons t ts => simp only [ofTokens, h]

/-- What is behind the tokens of a pipeline is read as filters behind its own, wherever the tokens stand. -/
theorem Pipeline.ofTokens_placed {ts us : List Token} {p : Pipeline} (f : Nat → Nat) (hne : ts ≠ [])
    (h : ofTokens ts = .ok p) (hus : Parser.Stopping us) :
    ofTokens (Parser.placed f us ts) = (Parser.filterCalls us).map fun gs => ⟨p.base, p.filters ++ gs⟩ := by
  rcases ofTokens_cases h with ⟨rfl, rfl⟩ | ⟨rest, he, hfs⟩
  · exact absurd rfl hne
  · have hfilters := Parser.filterCalls_placed f hus hfs
    rw [ofTokens_of_expression (Parser.expression_placed f hus he), hfilters]
    cases Parser.filterCalls us <;> rfl

/-- Where the tokens of a pipeline stand makes no difference. -/
theorem Pipeline.ofTokens_moved {ts : List Token} {p : Pipeline} (f : Nat → Nat) (h : ofTokens ts = .ok p) :
    ofTokens (Parser.moved f ts) = .ok p := by
  by_cases hne : ts = []
  · subst hne
    exact h
  · have hmoved := ofTokens_placed f hne h Parser.headAll_nil
    rw [Parser.placed, List.append_nil, Parser.filterCalls_nil] at hmoved
    rw [hmoved]
    show Except.ok (⟨p.base, p.filters ++ []⟩ : Pipeline) = .ok p
    rw [List.append_nil]

end Stencil

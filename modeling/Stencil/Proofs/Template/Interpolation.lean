import Stencil.Proofs.Template.Tagging

/-! Sources of expressions between double braces. The search for the closing braces knows strings and
double braces, and the braces of dicts may look like them. -/
namespace Stencil

/-- Whether two tokens are the same brace twice with nothing in between. -/
def Token.doubled (m : Mark) (t u : Token) : Bool :=
  t.lexeme == .mark m && u.lexeme == .mark m && u.position == t.position + 1

/-- Whether the double braces among the tokens match, where `depth` of them are open already. From the
left, every brace that can be is taken together with the next one. -/
def bracesMatch (depth : Nat) : List Token → Bool
  | t :: u :: ts =>
    if t.doubled .openBrace u then bracesMatch (depth + 1) ts
    else if t.doubled .closeBrace u then depth != 0 && bracesMatch (depth - 1) ts
    else bracesMatch depth (u :: ts)
  | _ => depth == 0

/-- Two tokens that are no double brace. -/
def Single (t u : Token) : Prop := t.doubled .openBrace u = false ∧ t.doubled .closeBrace u = false

section
variable {position level : Nat} {before : Option Lexeme} {cs : List Char} {t u : Token} {ts : List Token}

theorem bracesMatch_skip (h : ∀ u ∈ ts.head?, Single t u) :
    bracesMatch level (t :: ts) = bracesMatch level ts := by
  cases ts with
  | nil => rfl
  | cons u ts =>
    obtain ⟨hopen, hclose⟩ := h u rfl
    simp only [bracesMatch, hopen, hclose, Bool.false_eq_true, if_false]

theorem bracesMatch_open (h : t.doubled .openBrace u = true) :
    bracesMatch level (t :: u :: ts) = bracesMatch (level + 1) ts := by
  rw [bracesMatch, if_pos h]

theorem bracesMatch_close (h : t.doubled .closeBrace u = true) :
    bracesMatch level (t :: u :: ts) = (level != 0 && bracesMatch (level - 1) ts) := by
  have hopen : t.doubled .openBrace u = false := by
    simp only [Token.doubled, Bool.and_eq_true, beq_iff_eq] at h
    simp [Token.doubled, h.1.1]
  rw [bracesMatch, hopen, if_neg Bool.false_ne_true, if_pos h]

theorem single_of_noBrace (h : Lexeme.NoBrace t.lexeme) (u : Token) : Single t u := by
  simp [Single, Token.doubled, h.1, h.2]

/-- Without double braces, all of them match. -/
theorem bracesMatch_of_isChain (h : ts.IsChain Single) : bracesMatch 0 ts = true := by
  induction ts with
  | nil => rfl
  | cons t ts ih =>
    rw [bracesMatch_skip, ih h.tail]
    intro u hu
    obtain ⟨ts, rfl⟩ := List.head?_eq_some_iff.1 hu
    exact (List.isChain_cons_cons.1 h).1

/-- Without braces among them, tokens neither open nor close double ones. -/
theorem bracesMatch_noBrace (h : ∀ t ∈ ts, Lexeme.NoBrace t.lexeme) : bracesMatch level ts = (level == 0) := by
  induction ts with
  | nil => rfl
  | cons t ts ih =>
    obtain ⟨ht, hts⟩ := List.forall_mem_cons.1 h
    rw [bracesMatch_skip fun u _ => single_of_noBrace ht u, ih hts]

theorem bracesMatch_append {us : List Token} (h : ∀ t ∈ us, Lexeme.NoBrace t.lexeme) (ts : List Token) :
    bracesMatch level (ts ++ us) = bracesMatch level ts := by
  fun_induction bracesMatch level ts with
  | case1 level t u ts hopen ih => rw [List.cons_append, List.cons_append, bracesMatch_open hopen, ih]
  | case2 level t u ts _ hclose ih => rw [List.cons_append, List.cons_append, bracesMatch_close hclose, ih]
  | case3 level t u ts hopen hclose ih =>
    rw [List.cons_append, bracesMatch_skip, ih]
    rintro v ⟨⟩
    exact ⟨by simpa using hopen, by simpa using hclose⟩
  | case4 ts level hshort =>
    rcases ts with _ | ⟨t, _ | ⟨u, ts⟩⟩
    · exact bracesMatch_noBrace h
    · rw [List.singleton_append, bracesMatch_skip, bracesMatch_noBrace h]
      intro u hu
      have hnot := h u (List.mem_of_mem_head? hu)
      simp [Single, Token.doubled, hnot.1, hnot.2]
    · exact absurd rfl (hshort t u ts)

theorem position_le_of_lexFrom (h : lexFrom position before cs = .ok ts) :
    ∀ t ∈ ts.head?, position ≤ t.position := by
  induction cs generalizing position with
  | nil =>
    obtain rfl := Except.ok.inj (lexFrom_nil.symm.trans h)
    simp
  | cons c cs ih =>
    by_cases hc : Text.isBlank c = true
    · rw [lexFrom_blank hc] at h
      intro t ht
      have hle := ih h t ht
      omega
    · obtain ⟨x, rest, ts', -, -, rfl⟩ := exists_of_lexFrom (by simpa using hc) h
      simp

/-- A brace that is the first token, right at the beginning, is the first character. -/
theorem head_of_lexFrom {m : Mark} (hm : m = .openBrace ∨ m = .closeBrace)
    (h : lexFrom position before cs = .ok ts) (ht : t ∈ ts.head?) (hlexeme : t.lexeme = .mark m)
    (hposition : t.position = position) : cs.head? = some m.char := by
  cases cs with
  | nil =>
    obtain rfl := Except.ok.inj (lexFrom_nil.symm.trans h)
    cases ht
  | cons c cs =>
    by_cases hc : Text.isBlank c = true
    · rw [lexFrom_blank hc] at h
      have hle := position_le_of_lexFrom h t ht
      have hsize := c.utf8Size_pos
      omega
    · obtain ⟨x, rest, ts', hread, -, rfl⟩ := exists_of_lexFrom (by simpa using hc) h
      obtain rfl : (⟨x, position⟩ : Token) = t := Option.some.inj ht
      obtain rfl : x = .mark m := hlexeme
      have hpiece := Lexeme.piece_of_read hread
      rcases hm with rfl | rfl
      · cases hpiece with
        | openBrace => rfl
        | inert _ hnot => exact absurd rfl hnot.1
      · cases hpiece with
        | closeBrace => rfl
        | inert _ hnot => exact absurd rfl hnot.2

/-- A brace where another character comes next. -/
theorem single_of_head {m : Mark} (hm : m = .openBrace ∨ m = .closeBrace)
    (h : lexFrom (position + 1) before cs = .ok ts) (hnext : cs.head? ≠ some m.char) :
    ∀ u ∈ ts.head?, Single ⟨.mark m, position⟩ u := by
  intro u hu
  have hnot : (⟨.mark m, position⟩ : Token).doubled m u = false := by
    refine Bool.eq_false_iff.2 fun hdoubled => hnext ?_
    simp only [Token.doubled, Bool.and_eq_true, beq_iff_eq] at hdoubled
    exact head_of_lexFrom hm h hu hdoubled.1.2 hdoubled.2
  rcases hm with rfl | rfl
  · exact ⟨hnot, by simp [Token.doubled]⟩
  · exact ⟨by simp [Token.doubled], hnot⟩

end

namespace Node

theorem head_before_blank {cs rest : List Char} {d : Char} (hd : d ≠ ' ')
    (h : (cs ++ ' ' :: rest).head? = some d) : cs.head? = some d := by
  cases cs with
  | nil => exact absurd (Option.some.inj h).symm hd
  | cons => exact h

theorem map_prefix_eq_some {a b rest : List Char} {x : Option (List Char × List Char)} :
    (x.map fun r => (a ++ r.1, r.2)) = some (a ++ b, rest) ↔ x = some (b, rest) := by
  cases x with
  | none => simp
  | some r => simp [Prod.ext_iff]

/-- Between double braces, where `level` more are open, the tag ends right behind `cs` and a blank. -/
def EndsBehind (level : Nat) (cs : List Char) : Prop :=
  cutInterior '{' '}' level (cs ++ [' ', '}', '}']) = some (cs ++ [' '], [])

section
variable {level : Nat} {cs : List Char}

theorem endsBehind_plain {c : Char} (hc : ¬ IsQuote c) (hopen : c = '{' → cs.head? ≠ some '{')
    (hclose : c = '}' → cs.head? ≠ some '}') : EndsBehind level (c :: cs) ↔ EndsBehind level cs := by
  have hcut : cutInterior '{' '}' level (c :: (cs ++ [' ', '}', '}'])) =
      (cutInterior '{' '}' level (cs ++ [' ', '}', '}'])).map fun r => ([c] ++ r.1, r.2) :=
    cutInterior_plain hc (fun h h' => hopen h (head_before_blank (by decide) h'))
      (fun h h' => hclose h (head_before_blank (by decide) h'))
  rw [EndsBehind, List.cons_append, hcut]
  exact map_prefix_eq_some

theorem endsBehind_inert {s : List Char} (hs : ∀ c ∈ s, Inert c) :
    EndsBehind level (s ++ cs) ↔ EndsBehind level cs := by
  induction s with
  | nil => rfl
  | cons c s ih =>
    obtain ⟨hc, hs⟩ := List.forall_mem_cons.1 hs
    rw [List.cons_append, ← ih hs]
    exact endsBehind_plain hc.1 (fun h => absurd h hc.2.1) (fun h => absurd h hc.2.2.1)

theorem endsBehind_string {quote : Char} {s : List Char} (hquote : IsQuote quote) (hs : Quoted quote s) :
    EndsBehind level (quote :: (s ++ cs)) ↔ EndsBehind level cs := by
  have hassoc : quote :: (s ++ cs) ++ [' '] = (quote :: s) ++ (cs ++ [' ']) := by simp
  rw [EndsBehind, hassoc, List.cons_append, List.append_assoc, cutInterior_string hquote hs]
  exact map_prefix_eq_some

theorem endsBehind_open : EndsBehind level ('{' :: '{' :: cs) ↔ EndsBehind (level + 1) cs := by
  rw [EndsBehind, List.cons_append, List.cons_append, cutInterior_open]
  exact map_prefix_eq_some (a := ['{', '{'])

theorem endsBehind_close :
    EndsBehind level ('}' :: '}' :: cs) ↔ level ≠ 0 ∧ EndsBehind (level - 1) cs := by
  rw [EndsBehind, List.cons_append, List.cons_append]
  cases level with
  | zero =>
    rw [cutInterior_close (.inl rfl)]
    simp
  | succ level =>
    rw [cutInterior_close_succ (.inl rfl)]
    have hiff := @map_prefix_eq_some ['}', '}'] (cs ++ [' ']) []
      (cutInterior '{' '}' level (cs ++ [' ', '}', '}']))
    exact hiff.trans (and_iff_right (Nat.succ_ne_zero level)).symm

theorem endsBehind_nil : EndsBehind level [] ↔ level = 0 := by
  have hspace : ¬ IsQuote ' ' := by simp [IsQuote]
  rw [EndsBehind, List.nil_append, cutInterior_plain hspace (by simp) (by simp)]
  cases level with
  | zero =>
    rw [cutInterior_close (.inl rfl)]
    simp
  | succ level =>
    rw [cutInterior_close_succ (.inl rfl), cutInterior]
    simp

end

/-- The double braces that the search for the closing ones finds are those of the tokens. -/
theorem endsBehind_iff (level : Nat) {position : Nat} {before : Option Lexeme} {cs : List Char}
    {ts : List Token} (h : lexFrom position before cs = .ok ts) :
    EndsBehind level cs ↔ bracesMatch level ts = true := by
  cases cs with
  | nil =>
    obtain rfl := Except.ok.inj (lexFrom_nil.symm.trans h)
    rw [endsBehind_nil]
    simp [bracesMatch]
  | cons c cs =>
    by_cases hc : Text.isBlank c = true
    · rw [lexFrom_blank hc] at h
      have hinert := inert_of_isBlank hc
      rw [endsBehind_plain hinert.1 (fun h => absurd h hinert.2.1) (fun h => absurd h hinert.2.2.1)]
      exact endsBehind_iff level h
    · obtain ⟨x, rest, ts', hread, hts', rfl⟩ := exists_of_lexFrom (by simpa using hc) h
      have hlen := Lexeme.length_read hread
      have hrest := endsBehind_iff level hts'
      -- Only a brace can be a half of a marker, and it is one if the same brace comes right behind it.
      cases Lexeme.piece_of_read hread with
      | string content rest hquote hquoted =>
        rw [bracesMatch_skip fun u _ => single_of_noBrace (by simp [Lexeme.NoBrace]) u, ← hrest]
        exact endsBehind_string hquote hquoted
      | openBrace =>
        have hsize : byteLength ('{' :: cs) - byteLength cs = 1 := Nat.add_sub_cancel ..
        rw [hsize] at hts'
        by_cases hnext : cs.head? = some '{'
        · obtain ⟨cs, rfl⟩ := List.head?_eq_some_iff.1 hnext
          obtain ⟨ts'', hts'', rfl⟩ := symbol_of_lexFrom (by decide) (read_mark .openBrace) hts'
          rw [bracesMatch_open (by simp [Token.doubled]), endsBehind_open]
          exact endsBehind_iff (level + 1) hts''
        · rw [bracesMatch_skip (single_of_head (.inl rfl) hts' hnext), ← hrest]
          exact endsBehind_plain (by simp [IsQuote]) (fun _ => hnext) (by simp)
      | closeBrace =>
        have hsize : byteLength ('}' :: cs) - byteLength cs = 1 := Nat.add_sub_cancel ..
        rw [hsize] at hts'
        by_cases hnext : cs.head? = some '}'
        · obtain ⟨cs, rfl⟩ := List.head?_eq_some_iff.1 hnext
          obtain ⟨ts'', hts'', rfl⟩ := symbol_of_lexFrom (by decide) (read_mark .closeBrace) hts'
          have hinner := endsBehind_iff (level - 1) hts''
          rw [bracesMatch_close (by simp [Token.doubled]), endsBehind_close, hinner]
          simp
        · rw [bracesMatch_skip (single_of_head (.inr rfl) hts' hnext), ← hrest]
          exact endsBehind_plain (by simp [IsQuote]) (by simp) (fun _ => hnext)
      | percent =>
        rw [bracesMatch_skip fun u _ => single_of_noBrace (by simp [Lexeme.NoBrace]) u, ← hrest]
        exact endsBehind_plain (by simp [IsQuote]) (by simp) (by simp)
      | inert hinert hx =>
        obtain ⟨s, hs, hinert⟩ := hinert
        rw [bracesMatch_skip fun u _ => single_of_noBrace hx u, ← hrest, hs]
        exact endsBehind_inert hinert
termination_by cs.length
decreasing_by
  all_goals
    subst_vars
    simp only [List.length_cons] at *
    omega

/-- A source between blanks may stand between double braces if its own ones match. -/
theorem interior_iff_bracesMatch {cs : List Char} {ts : List Token} (h : lexFrom 0 none cs = .ok ts) :
    Interior '{' '}' (' ' :: (cs ++ [' '])) ↔ bracesMatch 0 ts = true := by
  have hinterior : Interior '{' '}' (' ' :: (cs ++ [' '])) ↔
      cutInterior '{' '}' 0 (' ' :: (cs ++ [' ']) ++ ['}', '}']) = some (' ' :: (cs ++ [' ']), []) := by
    rw [cutInterior_eq_some (.inl rfl)]
    simp
  have hends : EndsBehind 0 (' ' :: cs) ↔ EndsBehind 0 cs :=
    endsBehind_plain (by simp [IsQuote]) (by simp) (by simp)
  have hcut : cutInterior '{' '}' 0 (' ' :: (cs ++ [' ']) ++ ['}', '}']) = some (' ' :: (cs ++ [' ']), []) ↔
      EndsBehind 0 (' ' :: cs) := by
    simp [EndsBehind]
  exact hinterior.trans (hcut.trans (hends.trans (endsBehind_iff 0 h)))

/-- A text between markers is one tag exactly if the markers match. -/
theorem segment_enclose_iff {m : Marker} {c : List Char} :
    segment (m.enclose c) = [m.node c] ↔ m.Encloses c := by
  refine ⟨fun h => ?_, segment_enclose m⟩
  obtain ⟨m', c', hc', heq, -⟩ := eq_enclose_of_segment (by cases m <;> simp [Marker.node]) h
  obtain ⟨rfl, rfl⟩ := enclose_injective heq
  exact hc'

end Node

namespace Pipeline

/-- An expression between double braces is one node exactly if the double braces among its own tokens
match, and so whenever there are none. -/
theorem ofTemplate_interpolation {e : String} {p : Pipeline} (hp : parse e = .ok p)
    (he : ∃ c ∈ e.toList, Text.isBlank c = false) :
    ∃ ts, lex e = .ok ts ∧
      (Node.ofTemplate ("\x7b\x7b " ++ e ++ " \x7d\x7d") =
          [.expression (String.ofList (Text.trim e.toList))] ↔ bracesMatch 0 ts = true) ∧
      (ts.IsChain Single → bracesMatch 0 ts = true) := by
  obtain ⟨ts, hlex, -⟩ := Result.bind_eq_ok hp
  refine ⟨ts, hlex, ?_, bracesMatch_of_isChain⟩
  let c := ' ' :: (e.toList ++ [' '])
  have htemplate : Node.ofTemplate ("\x7b\x7b " ++ e ++ " \x7d\x7d") =
      Node.segment (Node.Marker.expression.enclose c) := by
    simp [Node.ofTemplate, Node.Marker.enclose, Node.Marker.opening, Node.Marker.closing, c]
  have htrim : Text.trim c = Text.trim e.toList := Text.trim_spaced he
  have hnode : Node.Marker.expression.node c = .expression (String.ofList (Text.trim e.toList)) := by
    rw [Node.Marker.node, htrim]
  rw [htemplate, ← hnode, Node.segment_enclose_iff]
  exact Node.interior_iff_bracesMatch hlex

/-- Dicts inside each other, and what looks like markers only inside of a string. -/
theorem ofTemplate_interpolation_dicts :
    let e := "\x7b'a': \x7b'b': [1, '\x7d\x7d'] \x7d \x7d"
    ∃ p, parse e = .ok p ∧ ∃ ts, lex e = .ok ts ∧ bracesMatch 0 ts = true ∧
      Node.ofTemplate ("\x7b\x7b " ++ e ++ " \x7d\x7d") =
        [.expression (String.ofList (Text.trim e.toList))] := by
  intro e
  have hmatch : ((lex e).toOption.map (bracesMatch 0)) = some true := by decide +kernel
  obtain ⟨p, hp⟩ := exists_of_isSome (by decide +kernel : (parse e).toOption.isSome = true)
  obtain ⟨ts, hlex, hiff, -⟩ := ofTemplate_interpolation hp ⟨'[', by decide, by decide⟩
  rw [hlex] at hmatch
  have hbraces : bracesMatch 0 ts = true := Option.some.inj hmatch
  exact ⟨p, hp, ts, hlex, hbraces, hiff.2 hbraces⟩

/-- Where dicts inside each other end side by side, their braces are taken for the closing ones. -/
theorem ofTemplate_adjacentDicts :
    let e := "\x7b'a': \x7b'b': 1\x7d\x7d"
    (∃ p, parse e = .ok p) ∧ (∃ c ∈ e.toList, Text.isBlank c = false) ∧
      Node.ofTemplate ("\x7b\x7b " ++ e ++ " \x7d\x7d") ≠
        [.expression (String.ofList (Text.trim e.toList))] := by
  intro e
  have hne : Node.ofTemplate ("\x7b\x7b " ++ e ++ " \x7d\x7d") ≠
      [.expression (String.ofList (Text.trim e.toList))] := by decide +kernel
  exact ⟨exists_of_isSome (by decide +kernel), ⟨'a', by decide, by decide⟩, hne⟩

end Pipeline

end Stencil

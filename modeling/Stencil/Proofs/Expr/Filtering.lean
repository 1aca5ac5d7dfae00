import Stencil.Proofs.Expr.Cutting

/-! A filter behind the source of a pipeline is a filter behind its filters, and no source goes on behind a closing
brace that nothing opens. -/
namespace Stencil

open Text

variable {before : Option Lexeme} {c : Char} {cs b rest : List Char} {x : Lexeme} {ts : List Token}

namespace Lexeme

theorem readString_append {quote : Char} {content : List Char} (h : readString quote cs = some (content, rest))
    (tail : List Char) : readString quote (cs ++ tail) = some (content, rest ++ tail) := by
  fun_induction readString quote cs generalizing content rest with
  | case1 => cases h
  | case2 cs =>
    obtain ⟨rfl, rfl⟩ := Prod.mk.inj (Option.some.inj h)
    rw [List.cons_append, readString.eq_def]
    exact if_pos rfl
  | case3 => cases h
  | case4 d ds hne ih =>
    obtain ⟨⟨content', rest'⟩, hr, heq⟩ := Option.map_eq_some_iff.1 h
    obtain ⟨rfl, rfl⟩ := Prod.mk.inj heq
    rw [List.cons_append, List.cons_append, readString.eq_def]
    simp only [if_neg hne, if_true, ih hr]
    rfl
  | case5 c cs hquote hslash ih =>
    obtain ⟨⟨content', rest'⟩, hr, heq⟩ := Option.map_eq_some_iff.1 h
    obtain ⟨rfl, rfl⟩ := Prod.mk.inj heq
    rw [List.cons_append, readString.eq_def]
    simp only [if_neg hquote, if_neg hslash, ih hr]
    rfl

/-- A symbol at the end of a text is not the first half of another one. -/
theorem readSymbol_alone (h : readSymbol [c] = some (x, [])) (hb : Parted b) :
    readSymbol (c :: b) = some (x, b) := by
  have hnot (d : Char) (hd : isBlank d = false) (hbrace : d ≠ '}') : b.head? ≠ some d :=
    fun hhead => hb.ne hhead hd hbrace rfl
  rw [readSymbol.eq_def] at h
  split at h
  case h_24 => cases h
  all_goals
    rename_i heq
    cases heq
  all_goals
    cases h
    first
    | rfl
    | exact readSymbol_short (.head _) (hnot '=' rfl (by decide))
    | exact readSymbol_short (.tail _ (.head _)) (hnot '=' rfl (by decide))
    | exact readSymbol_short (.tail _ (.tail _ (.head _))) (hnot '*' rfl (by decide))
    | exact readSymbol_short (.tail _ (.tail _ (.tail _ (.head _)))) (hnot '/' rfl (by decide))

theorem readSymbol_extended (h : readSymbol (c :: cs) = some (x, rest)) (hb : Parted b) :
    readSymbol (c :: (cs ++ b)) = some (x, rest ++ b) := by
  rcases readSymbol_cases h with ⟨c', hcs, hread⟩ | ⟨c', d, hcs, -, hread⟩
  · obtain ⟨rfl, rfl⟩ := List.cons.inj hcs
    by_cases hne : cs = []
    · subst hne
      exact readSymbol_alone (hread [] (.inl rfl)) hb
    · exact hread (cs ++ b) (.inr (List.head?_append_of_ne_nil cs hne))
  · obtain ⟨rfl, rfl⟩ := List.cons.inj hcs
    exact hread (rest ++ b)

/-- What no lexeme goes on with may stand behind a text. -/
theorem read_extended (h : read before c cs = .ok (x, rest)) (hb : Parted b) :
    read before c (cs ++ b) = .ok (x, rest ++ b) := by
  unfold read at h ⊢
  split at h
  · next hquote =>
    rw [if_pos hquote]
    split at h
    · next content rest' hs =>
      obtain ⟨rfl, rfl⟩ := Prod.mk.inj (Except.ok.inj h)
      rw [readString_append hs]
    · cases h
  · next hquote =>
    rw [if_neg hquote]
    split at h
    · next hdigit =>
      have hnumber := readNumber_padded hb (before == some (.mark .dot)) (c :: cs)
      rw [List.cons_append] at hnumber
      rw [if_pos hdigit, hnumber]
      dsimp only at h ⊢
      split at h
      · next hrange =>
        obtain ⟨rfl, rfl⟩ := Prod.mk.inj (Except.ok.inj h)
        exact if_pos hrange
      · cases h
    · next hdigit =>
      rw [if_neg hdigit]
      split at h
      · next hstart =>
        obtain ⟨htake, hdrop⟩ := span_before hb.isNameChar_eq_false cs
        rw [if_pos hstart, htake, hdrop, ofWord_padded hb, Except.ok.inj h]
      · next hstart =>
        rw [if_neg hstart]
        split at h
        · next r hr =>
          obtain rfl := Except.ok.inj h
          rw [readSymbol_extended hr hb]
        · cases h

end Lexeme

/-- The tokens of a text with more behind it are its own and those of what is behind. -/
theorem lexFrom_extended {position : Nat} {before : Option Lexeme} {cs : List Char} {ts : List Token}
    (h : lexFrom position before cs = .ok ts) (hb : Parted b) :
    lexFrom position before (cs ++ b) =
      (lexFrom (position + byteLength cs) (lastLexeme before ts) b).map (ts ++ ·) := by
  cases cs with
  | nil =>
    rw [lexFrom_nil] at h
    obtain rfl := Except.ok.inj h
    have hsame : lexFrom (position + byteLength []) (lastLexeme before []) b = lexFrom position before b := rfl
    rw [List.nil_append, hsame]
    cases lexFrom position before b <;> rfl
  | cons c cs =>
    by_cases hc : isBlank c = true
    · rw [lexFrom_blank hc] at h
      rw [List.cons_append, lexFrom_blank hc, lexFrom_extended h hb, Nat.add_assoc]
      rfl
    · have hc' : isBlank c = false := by simpa using hc
      obtain ⟨x, rest, ts', hread, hts', rfl⟩ := exists_of_lexFrom hc' h
      have hlength := Lexeme.length_read hread
      obtain ⟨l, hl, -, -⟩ := Lexeme.read_spelled hread
      have hbytes (ds : List Char) : byteLength (l ++ ds) - byteLength ds = byteLength l := by
        rw [byteLength_append, Nat.add_sub_cancel]
      have hread' := Lexeme.read_extended hread hb
      rw [hl, hbytes] at hts'
      rw [List.cons_append, lexFrom_read hc' hread', ← List.cons_append, hl, List.append_assoc, hbytes,
        lexFrom_extended hts' hb, byteLength_append, Nat.add_assoc]
      have hlast : lastLexeme before (⟨x, position⟩ :: ts') = lastLexeme (some x) ts' := rfl
      rw [hlast]
      cases lexFrom (position + (byteLength l + byteLength rest)) (lastLexeme (some x) ts') b <;> rfl
termination_by cs.length
decreasing_by
  all_goals
    subst_vars
    simp only [List.length_cons]
    omega

/-- A filter without arguments and what is in front of it. -/
theorem lexes_filter {name : String} (hname : AsciiName name.toList) (hreserved : name ∉ Lexeme.reserved)
    (before : Option Lexeme) : Lexes before (" | ".toList ++ name.toList) [.mark .pipe, .name name] := by
  have hword : Reads (some (.mark .pipe)) name.toList [] (.name name) :=
    reads_word_stopped hname (by simp) (ofWord_name hreserved [])
  have hlast : Lexes (some (.mark .pipe)) name.toList [.name name] := by
    simpa using hword.lexes lexes_nil
  exact .blank (.read (.blank hlast rfl) rfl (read_mark .pipe before _)) rfl

theorem parted_filter (cs : List Char) : Parted (' ' :: '|' :: cs) where
  head := by
    rintro c ⟨⟩
    exact .inl rfl
  behind := by
    rintro c ⟨⟩
    rfl

theorem parted_closeBrace (hb : Blank b) (cs : List Char) : Parted (b ++ '}' :: cs) where
  head c hc := by
    cases b with
    | nil => exact .inr (Option.some.inj hc).symm
    | cons d b =>
      obtain rfl : d = c := Option.some.inj hc
      exact .inl (hb d (.head b))
  behind := by
    rw [dropWhile_isBlank hb ⟨'}', rfl, rfl⟩]
    rintro c ⟨⟩
    rfl

namespace Pipeline

theorem lex_filtered {e name : String} (hlex : lex e = .ok ts) (hname : AsciiName name.toList)
    (hreserved : name ∉ Lexeme.reserved) :
    ∃ q r, lex (e ++ " | " ++ name) = .ok (ts ++ [⟨.mark .pipe, q⟩, ⟨.name name, r⟩]) := by
  obtain ⟨us, hus, hlexemes⟩ := lexes_filter hname hreserved (lastLexeme none ts) (0 + byteLength e.toList)
  have hall := lexFrom_extended hlex (parted_filter (' ' :: name.toList))
  have htail : " | ".toList ++ name.toList = ' ' :: '|' :: ' ' :: name.toList := rfl
  rw [← htail, hus] at hall
  match us, hlexemes with
  | [⟨_, q⟩, ⟨_, r⟩], hlexemes =>
    obtain ⟨rfl, rfl⟩ : _ = _ ∧ _ = _ := by simpa using hlexemes
    refine ⟨q, r, ?_⟩
    rw [lex, String.toList_append, String.toList_append, List.append_assoc]
    exact hall

/-- A filter behind the source of a pipeline is its last filter. -/
theorem parse_filtered {e name : String} {p : Pipeline} (hp : parse e = .ok p)
    (he : ∃ c ∈ e.toList, isBlank c = false) (hname : AsciiName name.toList)
    (hreserved : name ∉ Lexeme.reserved) :
    parse (e ++ " | " ++ name) = .ok ⟨p.base, p.filters ++ [⟨name, []⟩]⟩ := by
  obtain ⟨ts, hlex, hts⟩ := Result.bind_eq_ok hp
  obtain ⟨q, r, hfiltered⟩ := lex_filtered hlex hname hreserved
  have hne : ts ≠ [] := by
    rintro rfl
    obtain ⟨c, hc, hblank⟩ := he
    have hall : Blank e.toList := lexFrom_tiles hlex
    rw [hall c hc] at hblank
    cases hblank
  have hcalls : Parser.filterCalls [⟨.mark .pipe, q⟩, ⟨.name name, r⟩] = .ok [⟨name, []⟩] :=
    Parser.filterCalls_cons (Parser.filterCall_bare rfl) Parser.filterCalls_nil
  have hstop : Parser.Stopping [⟨.mark .pipe, q⟩, ⟨.name name, r⟩] := Parser.headAll_cons.2 (.inl rfl)
  have hplaced := ofTokens_placed id hne hts hstop
  rw [hcalls, Parser.placed_id] at hplaced
  rw [parse, hfiltered]
  exact hplaced

/-- A pipeline does not go on with a closing brace that nothing opens. -/
theorem ofTokens_before_brace {us : List Token} {p p' : Pipeline} {q : Nat} (h : ofTokens ts = .ok p) :
    ofTokens (ts ++ ⟨.mark .closeBrace, q⟩ :: us) ≠ .ok p' := by
  intro h'
  by_cases hne : ts = []
  · subst hne
    rcases ofTokens_cases h' with ⟨hnil, -⟩ | ⟨rest, he, -⟩
    · cases hnil
    · have hnone : Parser.eat .closeBrace _ = none := Parser.eat_eq_none (.inr (.inr rfl)) he
      rw [List.nil_append, Parser.eat_mark] at hnone
      cases hnone
  · have hstop : Parser.Stopping (⟨.mark .closeBrace, q⟩ :: us) := Parser.headAll_cons.2 (.inr rfl)
    have hplaced := ofTokens_placed id hne h hstop
    rw [Parser.placed_id, h'] at hplaced
    obtain ⟨fs, hfs, -⟩ := Result.map_eq_ok hplaced.symm
    rcases Parser.filterCalls_cases hfs with ⟨hnil, -⟩ | ⟨_, _, _, _, _, hpipe, -⟩
    · cases hnil
    · cases hpipe

/-- Nor does the source of one. -/
theorem parse_before_brace {p p' : Pipeline} (hb : Blank b) (h : parse (String.ofList cs) = .ok p) :
    parse (String.ofList (cs ++ (b ++ '}' :: rest))) ≠ .ok p' := by
  intro h'
  obtain ⟨ts, hlex, hts⟩ := Result.bind_eq_ok h
  obtain ⟨ts', hlex', hts'⟩ := Result.bind_eq_ok h'
  rw [lex, String.toList_ofList] at hlex hlex'
  rw [lexFrom_extended hlex (parted_closeBrace hb rest)] at hlex'
  obtain ⟨us, hus, rfl⟩ := Result.map_eq_ok hlex'
  rw [lexFrom_blanks hb] at hus
  obtain ⟨x, behind, us, hread, -, rfl⟩ := exists_of_lexFrom (by decide) hus
  rw [show '}' = Mark.char .closeBrace from rfl, read_mark] at hread
  obtain ⟨rfl, -⟩ := Prod.mk.inj (Except.ok.inj hread)
  exact ofTokens_before_brace hts hts'

/-- A source is none any more if it ends in front of a closing brace. -/
theorem parse_trim_before_brace {p p' : Pipeline} (h : parse (String.ofList (cs ++ '}' :: rest)) = .ok p) :
    parse (String.ofList (trim cs)) ≠ .ok p' := by
  intro h'
  obtain ⟨a, b, hcs, ha, hb⟩ := exists_blanks cs
  have hsplit : cs ++ '}' :: rest = a ++ (trim cs ++ (b ++ '}' :: rest)) := by
    conv_lhs => rw [hcs]
    simp
  rw [hsplit] at h
  exact parse_before_brace hb h' (parse_behind_blanks ha h)

end Pipeline

end Stencil

import Stencil.Proofs.Template.Clauses
import Stencil.Proofs.Template.Source
import Stencil.Proofs.Template.Tiling
import Stencil.Proofs.Text.Trimming

/-! Sources of expressions in control tags: the tag ends behind the whole source, and its condition or
collection is the source without the blanks around it. -/
namespace Stencil

open Text

/-- A tag with a keyword, blanks and an argument. -/
theorem Tag.parse_keyword {word a b m : List Char} {kind : TagKind} {d : Directive}
    (hword : Trimmed word) (hnot : ∀ c ∈ word, isBlank c = false) (ha : Blank a) (hm : Trimmed m)
    (hb : Blank b) (hkind : TagKind.ofKeyword? (String.ofList (lower word)) = some kind)
    (hd : directiveOf kind (String.ofList m) = .ok d) :
    (Tag.parse (String.ofList (' ' :: (word ++ (' ' :: a ++ m)) ++ b))).directive = d := by
  have hcontent : trim (' ' :: (word ++ (' ' :: a ++ m)) ++ b) = word ++ (' ' :: a ++ m) := by
    have h := trim_padded blank_space (hword.append hm (' ' :: a)) hb
    simpa using h
  have htake : (word ++ (' ' :: a ++ m)).takeWhile (fun c => !isBlank c) = word := by
    rw [List.takeWhile_append_of_pos (by simpa using hnot)]
    simp [show isBlank ' ' = true from rfl]
  have hdrop : (word ++ (' ' :: a ++ m)).dropWhile (fun c => !isBlank c) = ' ' :: a ++ m := by
    rw [List.dropWhile_append_of_pos (by simpa using hnot)]
    simp [show isBlank ' ' = true from rfl]
  have hrest : trim (' ' :: a ++ m) = m := by
    rw [← List.append_nil (_ ++ m), List.append_assoc]
    exact trim_padded (blank_space.append ha) hm blank_nil
  simp only [Tag.parse, String.toList_ofList, hcontent, htake, hdrop, hrest, if_neg hword.ne_nil, hkind, hd]

theorem isWordChar_of_isNameChar {c : Char} (hc : isNameChar c = true) : isWordChar c = true := by
  have hrange (low high : Nat) (hmem : (low, high) ∈ wordRanges) (h : low ≤ c.toNat ∧ c.toNat ≤ high) :
      isWordChar c = true := List.any_eq_true.2 ⟨(low, high), hmem, by simp [h]⟩
  rcases ranges_of_isNameChar hc with h | h | h | h
  · exact hrange 48 57 (.head _) h
  · exact hrange 65 90 (.tail _ (.head _)) h
  · exact hrange 95 95 (.tail _ (.tail _ (.head _))) h
  · exact hrange 97 122 (.tail _ (.tail _ (.tail _ (.head _)))) h

theorem AsciiName.trimmed {x : List Char} (hx : AsciiName x) : Trimmed x := by
  obtain ⟨⟨c, hc, -⟩, hname⟩ := hx
  have hblank : ∀ d ∈ x, isBlank d = false := fun d hd => isBlank_eq_false_of_isNameChar (hname d hd)
  have hlast : x.getLast? = some (x.getLast (by rintro rfl; cases hc)) := List.getLast?_eq_some_getLast _
  exact ⟨⟨c, hc, hblank c (List.mem_of_mem_head? hc)⟩, _, hlast, hblank _ (List.getLast_mem _)⟩

/-- The clause of a loop that binds one name. -/
theorem LoopClause.parse_single {x a m : List Char} (hx : AsciiName x) (ha : Blank a) (hm : Trimmed m) :
    LoopClause.parse (String.ofList (x ++ (' ' :: 'i' :: 'n' :: ' ' :: a ++ m))) =
      .ok ⟨.single (String.ofList x), String.ofList m⟩ := by
  have htrim := (hx.trimmed.append hm (' ' :: 'i' :: 'n' :: ' ' :: a)).trim_eq
  obtain ⟨⟨c, hc, hstart⟩, hname⟩ := hx
  obtain ⟨x, rfl⟩ := List.head?_eq_some_iff.1 hc
  obtain ⟨d, ds, rfl⟩ := List.exists_cons_of_ne_nil hm.ne_nil
  let rest := ' ' :: 'i' :: 'n' :: ' ' :: a ++ d :: ds
  have hword : ∀ e ∈ x, isWordChar e = true :=
    fun e he => isWordChar_of_isNameChar (hname e (List.mem_cons_of_mem c he))
  have hspace : ¬ isWordChar ' ' = true := by simp [isWordChar_eq_false_of_isBlank (c := ' ') rfl]
  have hread : readName? (c :: x ++ rest) = some (String.ofList (c :: x), rest) := by
    rw [List.cons_append, readName?, if_pos hstart, List.takeWhile_append_of_pos hword,
      List.dropWhile_append_of_pos hword]
    simp [rest, hspace]
  have hsecond : readSecond? rest = none := rfl
  have hin : afterIn? rest = some (d :: ds) := congrArg some (dropWhile_isBlank ha hm.1)
  simp only [LoopClause.parse, String.toList_ofList, readTarget?]
  rw [htrim, hread]
  simp [hsecond, hin, hm.trim_eq]

/-- The source of an expression, closed off by a blank, may stand inside of a control tag. -/
theorem Pipeline.interior_of_parse {e : String} {p : Pipeline} (h : parse e = .ok p) :
    Node.Interior '%' '%' (e.toList ++ [' ']) := by
  obtain ⟨ts, hlex, hts⟩ := Result.bind_eq_ok h
  exact Node.interior_of_lexFrom hlex (isChain_of_ofTokens hts)

/-- A control tag with a keyword and an argument that ends in the source of an expression. -/
theorem Node.segment_keyword {e : String} {p : Pipeline} (hp : Pipeline.parse e = .ok p)
    (word s : List Char) {a b m : List Char} (hword : AsciiName word) (hs : ∀ c ∈ s, Inert c)
    (hargument : s ++ e.toList = a ++ (m ++ b)) (ha : Blank a) (hm : Trimmed m) (hb : Blank b)
    {kind : TagKind} {d : Directive} (hkind : TagKind.ofKeyword? (String.ofList (lower word)) = some kind)
    (hd : Tag.directiveOf kind (String.ofList m) = .ok d) :
    ∃ t : Tag, segment (['{', '%', ' '] ++ word ++ [' '] ++ s ++ e.toList ++ [' ', '%', '}']) = [.tag t] ∧
      t.directive = d := by
  let interior := ' ' :: (word ++ (' ' :: a ++ m)) ++ (b ++ [' '])
  have hsplit : interior = (' ' :: word ++ ' ' :: s) ++ (e.toList ++ [' ']) := by
    have hcons := congrArg (fun cs => ' ' :: word ++ ' ' :: (cs ++ [' '])) hargument
    simpa [interior] using hcons.symm
  have hspace : Inert ' ' := inert_of_isBlank rfl
  have hbefore : ∀ c ∈ ' ' :: word ++ ' ' :: s, Inert c := by
    intro c hc
    rcases List.mem_append.1 hc with hc | hc
    · rcases List.mem_cons.1 hc with rfl | hc
      · exact hspace
      · exact inert_of_isNameChar (hword.2 c hc)
    · rcases List.mem_cons.1 hc with rfl | hc
      · exact hspace
      · exact hs c hc
  have hinterior : Interior '%' '%' interior := by
    rw [hsplit]
    exact .inert_append (.inr rfl) hbefore (Pipeline.interior_of_parse hp)
  have hnot : ∀ c ∈ word, isBlank c = false := fun c hc => isBlank_eq_false_of_isNameChar (hword.2 c hc)
  refine ⟨Tag.parse (String.ofList interior), ?_,
    Tag.parse_keyword hword.trimmed hnot ha hm (hb.append blank_space) hkind hd⟩
  have hspelled : ['{', '%', ' '] ++ word ++ [' '] ++ s ++ e.toList ++ [' ', '%', '}'] =
      Marker.control.enclose interior := by
    rw [hsplit]
    simp [Marker.enclose, Marker.opening, Marker.closing]
  rw [hspelled]
  exact segment_enclose .control hinterior

/-- A tag with a condition. -/
theorem Node.segment_condition {e : String} {p : Pipeline} (hp : Pipeline.parse e = .ok p)
    (he : ∃ c ∈ e.toList, isBlank c = false) (word : List Char) (hword : AsciiName word) {kind : TagKind}
    {make : String → Directive} (hkind : TagKind.ofKeyword? (String.ofList (lower word)) = some kind)
    (hmake : ∀ rest ≠ "", Tag.directiveOf kind rest = .ok (make rest)) :
    ∃ t : Tag, segment (['{', '%', ' '] ++ word ++ [' '] ++ e.toList ++ [' ', '%', '}']) = [.tag t] ∧
      t.directive = make (String.ofList (trim e.toList)) := by
  obtain ⟨a, b, hsource, ha, hb, hm⟩ := exists_padding he
  have hcondition : String.ofList (trim e.toList) ≠ "" := by
    intro hempty
    exact hm.ne_nil (by simpa using congrArg String.toList hempty)
  simpa using segment_keyword hp word [] hword (by simp) hsource ha hm hb hkind (hmake _ hcondition)

/-- A tag of a loop that binds one name. -/
theorem Node.segment_loop {e : String} {p : Pipeline} (hp : Pipeline.parse e = .ok p)
    (he : ∃ c ∈ e.toList, isBlank c = false) {x : List Char} (hx : AsciiName x) :
    ∃ (t : Tag) (clause : String),
      segment (['{', '%', ' ', 'f', 'o', 'r', ' '] ++ x ++ [' ', 'i', 'n', ' '] ++ e.toList ++
        [' ', '%', '}']) = [.tag t] ∧
      t.directive = .forTag clause ∧
      LoopClause.parse clause = .ok ⟨.single (String.ofList x), String.ofList (trim e.toList)⟩ := by
  obtain ⟨a, b, hsource, ha, hb, hm⟩ := exists_padding he
  let argument := x ++ (' ' :: 'i' :: 'n' :: ' ' :: a ++ trim e.toList)
  have hclause : LoopClause.parse (String.ofList argument) =
      .ok ⟨.single (String.ofList x), String.ofList (trim e.toList)⟩ := LoopClause.parse_single hx ha hm
  have hword : AsciiName ['f', 'o', 'r'] := ⟨⟨'f', rfl, rfl⟩, List.all_eq_true.1 rfl⟩
  have hinert : ∀ c ∈ x ++ [' ', 'i', 'n', ' '], Inert c := by
    intro c hc
    rcases List.mem_append.1 hc with hc | hc
    · exact inert_of_isNameChar (hx.2 c hc)
    · have hfiller : [' ', 'i', 'n', ' '].all (fun c => isBlank c || isNameChar c) = true := rfl
      rcases Bool.or_eq_true_iff.1 (List.all_eq_true.1 hfiller c hc) with hblank | hname
      · exact inert_of_isBlank hblank
      · exact inert_of_isNameChar hname
  have hargument : (x ++ [' ', 'i', 'n', ' ']) ++ e.toList = [] ++ (argument ++ b) := by
    simpa [argument] using hsource
  have hdirective : Tag.directiveOf .forTag (String.ofList argument) =
      .ok (.forTag (String.ofList argument)) := by
    rw [Tag.directiveOf, hclause]
  obtain ⟨t, hseg, ht⟩ := segment_keyword hp ['f', 'o', 'r'] (x ++ [' ', 'i', 'n', ' ']) hword hinert
    hargument blank_nil (hx.trimmed.append hm _) hb rfl hdirective
  exact ⟨t, String.ofList argument, by simpa using hseg, ht, hclause⟩

namespace Pipeline

theorem exists_of_isSome {e : String} (h : (parse e).toOption.isSome = true) :
    ∃ p, parse e = .ok p := by
  cases hp : parse e with
  | error fault =>
    rw [hp] at h
    cases h
  | ok p => exact ⟨p, rfl⟩

/-- The segmenter and the language of expressions agree on where a control tag ends. -/
theorem ofTemplate_of_parse {e : String} {p : Pipeline} (hp : parse e = .ok p)
    (he : ∃ c ∈ e.toList, isBlank c = false) :
    (∃ t : Tag, Node.ofTemplate ("\x7b% if " ++ e ++ " %\x7d") = [.tag t] ∧
        t.kind = .ifTag ∧ t.expression = String.ofList (trim e.toList)) ∧
      (∃ t : Tag, Node.ofTemplate ("\x7b% elif " ++ e ++ " %\x7d") = [.tag t] ∧
        t.kind = .elifTag ∧ t.expression = String.ofList (trim e.toList)) ∧
      ∀ x : String, AsciiName x.toList →
        ∃ t : Tag, Node.ofTemplate ("\x7b% for " ++ x ++ " in " ++ e ++ " %\x7d") = [.tag t] ∧
          t.kind = .forTag ∧
          LoopClause.parse t.expression = .ok ⟨.single x, String.ofList (trim e.toList)⟩ := by
  refine ⟨?_, ?_, fun x hx => ?_⟩
  · have hword : AsciiName ['i', 'f'] := ⟨⟨'i', rfl, rfl⟩, List.all_eq_true.1 rfl⟩
    obtain ⟨t, hseg, ht⟩ := Node.segment_condition hp he ['i', 'f'] hword rfl fun _ hrest => if_neg hrest
    refine ⟨t, by simpa [Node.ofTemplate] using hseg, ?_⟩
    simp [Tag.kind, Tag.expression, ht]
  · have hword : AsciiName ['e', 'l', 'i', 'f'] := ⟨⟨'e', rfl, rfl⟩, List.all_eq_true.1 rfl⟩
    obtain ⟨t, hseg, ht⟩ :=
      Node.segment_condition hp he ['e', 'l', 'i', 'f'] hword rfl fun _ hrest => if_neg hrest
    refine ⟨t, by simpa [Node.ofTemplate] using hseg, ?_⟩
    simp [Tag.kind, Tag.expression, ht]
  · obtain ⟨t, clause, hseg, ht, hclause⟩ := Node.segment_loop hp he hx
    rw [String.ofList_toList] at hclause
    refine ⟨t, by simpa [Node.ofTemplate] using hseg, by rw [Tag.kind, ht], ?_⟩
    rw [Tag.expression, ht]
    exact hclause

/-- A source with markers and quotes inside of its strings. -/
theorem ofTemplate_of_parse_markers :
    let e := " title + '%\x7d \\' \x7b%' | default(\"\x7d\x7d'\") "
    ∃ p, parse e = .ok p ∧
      (∃ t : Tag, Node.ofTemplate ("\x7b% if " ++ e ++ " %\x7d") = [.tag t] ∧
        t.kind = .ifTag ∧ t.expression = String.ofList (trim e.toList)) ∧
      ∃ t : Tag, Node.ofTemplate ("\x7b% for " ++ "x_1" ++ " in " ++ e ++ " %\x7d") = [.tag t] ∧
        t.kind = .forTag ∧
        LoopClause.parse t.expression = .ok ⟨.single "x_1", String.ofList (trim e.toList)⟩ := by
  intro e
  obtain ⟨p, hp⟩ := exists_of_isSome (by decide +kernel : (parse e).toOption.isSome = true)
  obtain ⟨hif, -, hfor⟩ := ofTemplate_of_parse hp ⟨'t', by decide, by decide⟩
  exact ⟨p, hp, hif, hfor "x_1" ⟨⟨'x', rfl, rfl⟩, List.all_eq_true.1 rfl⟩⟩

end Pipeline

end Stencil

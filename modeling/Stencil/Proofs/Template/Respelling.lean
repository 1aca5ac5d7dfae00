import Stencil.Proofs.Template.Failures
import Stencil.Proofs.Template.Source
import Stencil.Proofs.Template.Tiling
import Stencil.Proofs.Text.Trimming

/-! Tags cut again from their usual spelling, in which single spaces stand for the blanks around the interior. -/
namespace Stencil

namespace Text

theorem trim_blank {cs : List Char} (h : Blank cs) : trim cs = [] := by
  rw [trim, trimWhere, List.dropWhile_eq_nil_iff.2 h]
  rfl

/-- Every text is what trimming leaves of it between blanks. -/
theorem exists_trim (cs : List Char) :
    ∃ a b, cs = a ++ (trim cs ++ b) ∧ Blank a ∧ Blank b ∧ (trim cs = [] ∨ Trimmed (trim cs)) := by
  by_cases h : ∃ c ∈ cs, isBlank c = false
  · obtain ⟨a, b, hcs, ha, hb, hm⟩ := exists_padding h
    exact ⟨a, b, hcs, ha, hb, .inr hm⟩
  · have hblank : Blank cs := fun c hc => by simpa using fun hnot => h ⟨c, hc, hnot⟩
    have htrim := trim_blank hblank
    exact ⟨cs, [], by simp [htrim], hblank, blank_nil, .inl htrim⟩

/-- A trimmed text between spaces is trimmed to itself. -/
theorem trim_respaced (cs : List Char) : trim (' ' :: (trim cs ++ [' '])) = trim cs := by
  obtain ⟨-, -, -, -, -, hempty | hm⟩ := exists_trim cs
  · rw [hempty]
    rfl
  · exact trim_padded blank_space hm blank_space

end Text

open Text

namespace Tag

/-- A tag is classified by its trimmed interior. -/
theorem parse_congr {interior interior' : String} (h : trim interior.toList = trim interior'.toList) :
    parse interior = parse interior' := by
  rw [parse, parse, h]

theorem content_parse (interior : String) : (parse interior).content = String.ofList (trim interior.toList) := by
  simp only [parse]
  split
  · rfl
  · split
    · rfl
    · split <;> rfl

end Tag

namespace Node

section
variable {inner outer : Char} {a b cs : List Char}

/-- Characters that begin no string and no marker belong to the interior they stand in front of. -/
theorem Interior.of_inert_append (ha : ∀ c ∈ a, Inert c) (h : Interior inner outer (a ++ cs)) :
    Interior inner outer cs := by
  induction a with
  | nil => exact h
  | cons c a ih =>
    obtain ⟨hc, ha⟩ := List.forall_mem_cons.1 ha
    refine ih ha ?_
    generalize hall : c :: a ++ cs = all at h
    cases h with
    | nil => cases hall
    | plain _ _ _ h =>
      obtain ⟨-, rfl⟩ := List.cons.inj hall
      exact h
    | string hquote =>
      obtain ⟨rfl, -⟩ := List.cons.inj hall
      exact absurd hquote hc.1
    | nested =>
      obtain ⟨rfl, -⟩ := List.cons.inj hall
      exact absurd rfl hc.2.1

/-- Blanks behind a text whose last character is not blank lie behind what follows it. -/
theorem exists_of_append_blank {p q : List Char} {c : Char} (hb : Blank b) (hc : isBlank c = false)
    (h : p ++ c :: q = cs ++ b) : ∃ q', q = q' ++ b ∧ cs = p ++ c :: q' := by
  rw [List.append_cons] at h
  rcases List.append_eq_append_iff.1 h with ⟨q', hcs, rfl⟩ | ⟨bs, hp, rfl⟩
  · exact ⟨q', rfl, by rw [hcs, ← List.append_cons]⟩
  · -- The character cannot be among the blanks.
    cases bs using List.reverseRecOn with
    | nil => exact ⟨[], rfl, by simpa using hp.symm⟩
    | append_singleton bs d =>
      rw [← List.append_assoc] at hp
      obtain ⟨-, hlast⟩ := List.append_inj' hp rfl
      have hblank := hb d (by simp)
      rw [← List.singleton_inj.1 hlast, hc] at hblank
      cases hblank

theorem Quoted.exists_concat {quote : Char} {s : List Char} (h : Quoted quote s) : ∃ p, s = p ++ [quote] := by
  induction h with
  | close => exact ⟨[], rfl⟩
  | plain _ _ _ ih =>
    obtain ⟨p, rfl⟩ := ih
    exact ⟨_ :: p, rfl⟩
  | escape _ ih =>
    obtain ⟨p, rfl⟩ := ih
    exact ⟨_ :: _ :: p, rfl⟩

theorem isBlank_quote {quote : Char} (hquote : IsQuote quote) : isBlank quote = false := by
  rcases hquote with rfl | rfl <;> rfl

/-- What comes after a character, where a space or the closing marker follows. -/
theorem head_before_space {d : Char} (hd : d ≠ ' ') (h : (cs ++ b ++ [outer]).head? ≠ some d) :
    (cs ++ [' '] ++ [outer]).head? ≠ some d := by
  cases cs with
  | nil => simpa using hd.symm
  | cons => exact h

/-- The blanks at the end of an interior make no difference, as long as there is one. -/
theorem Interior.end_space (ho : IsOuter outer) (hi : inner ≠ ' ') (hb : Blank b)
    (h : Interior inner outer (cs ++ b)) : Interior inner outer (cs ++ [' ']) := by
  have hspace : Interior inner outer [' '] := .inert_cons ho (inert_of_isBlank rfl) .nil
  generalize hall : cs ++ b = all at h
  induction h generalizing cs with
  | nil =>
    rw [(List.append_eq_nil_iff.1 hall).1]
    exact hspace
  | @plain c all hc hopen hclose _ ih =>
    cases cs with
    | nil => exact hspace
    | cons d cs =>
      obtain ⟨rfl, rfl⟩ := List.cons.inj hall
      exact .plain hc (fun heq => head_before_space hi (hopen heq))
        (fun heq => head_before_space (by decide) (hclose heq)) (ih rfl)
  | @string quote s all hquote hs _ ih =>
    obtain ⟨p, rfl⟩ := hs.exists_concat
    have hsplit : (quote :: p) ++ quote :: all = cs ++ b := by simpa using hall.symm
    obtain ⟨q, rfl, rfl⟩ := exists_of_append_blank hb (isBlank_quote hquote) hsplit
    have hstring := Interior.string hquote hs (ih rfl)
    simpa using hstring
  | @nested a all ha _ _ ih =>
    have hsplit : ('{' :: inner :: (a ++ [outer])) ++ '}' :: all = cs ++ b := by simpa using hall.symm
    obtain ⟨q, rfl, rfl⟩ := exists_of_append_blank hb rfl hsplit
    have hnested := Interior.nested ha (ih rfl)
    simpa using hnested

/-- An interior with single spaces for the blanks around it. -/
theorem Interior.respaced (ho : IsOuter outer) (hi : inner ≠ ' ') (h : Interior inner outer cs) :
    Interior inner outer (' ' :: (trim cs ++ [' '])) := by
  obtain ⟨a, b, hcs, ha, hb, -⟩ := exists_trim cs
  rw [hcs] at h
  have hinner := Interior.of_inert_append (fun c hc => inert_of_isBlank (ha c hc)) h
  exact .inert_cons ho (inert_of_isBlank rfl) (hinner.end_space ho hi hb)

end

namespace Marker

/-- An interior in the usual spelling of its tag. That of a comment is kept as it is. -/
def respaced : Marker → List Char → List Char
  | expression, c | control, c => ' ' :: (trim c ++ [' '])
  | comment, c => c

variable {m : Marker} {c : List Char}

theorem Encloses.respaced (h : m.Encloses c) : m.Encloses (m.respaced c) := by
  cases m with
  | expression => exact Interior.respaced (.inl rfl) (by decide) h
  | control => exact Interior.respaced (.inr rfl) (by decide) h
  | comment => exact h

theorem node_respaced (m : Marker) (c : List Char) : m.node (m.respaced c) = m.node c := by
  cases m with
  | expression => rw [node, node, Marker.respaced, trim_respaced]
  | control =>
    have htrim : trim (String.ofList (' ' :: (trim c ++ [' ']))).toList = trim (String.ofList c).toList := by
      rw [String.toList_ofList, String.toList_ofList, trim_respaced]
    exact congrArg Node.tag (Tag.parse_congr htrim)
  | comment => rfl

end Marker

/-- A tag in its usual spelling. -/
def spelling? : Node → Option String
  | text _ => none
  | expression source => some ("\x7b\x7b " ++ source ++ " \x7d\x7d")
  | comment s => some ("\x7b#" ++ s ++ "#\x7d")
  | tag t => some t.source

theorem spelling?_node (m : Marker) (c : List Char) :
    (m.node c).spelling? = some (String.ofList (m.enclose (m.respaced c))) := by
  have hspelling : ∀ s, (m.node c).spelling? = some s → s.toList = m.enclose (m.respaced c) := by
    intro s hs
    cases m with
    | expression =>
      obtain rfl := Option.some.inj hs
      simp [Marker.enclose, Marker.opening, Marker.closing, Marker.respaced]
    | control =>
      obtain rfl := Option.some.inj hs
      simp [Tag.source, Tag.content_parse, Marker.enclose, Marker.opening, Marker.closing, Marker.respaced]
    | comment =>
      obtain rfl := Option.some.inj hs
      simp [Marker.enclose, Marker.opening, Marker.closing, Marker.respaced]
  obtain ⟨s, hs⟩ : ∃ s, (m.node c).spelling? = some s := by cases m <;> exact ⟨_, rfl⟩
  rw [hs, ← hspelling s hs, String.ofList_toList]

/-- A node that is not a text comes from an interior between markers. -/
theorem text_or_node_of_mem {cs : List Char} {n : Node} (h : n ∈ segment cs) :
    (∃ s, n = .text s) ∨ ∃ (m : Marker) (c : List Char), m.Encloses c ∧ n = m.node c := by
  fun_induction segment cs with
  | case1 => cases h
  | case2 c cs n' rest hread ih =>
    rcases List.mem_cons.1 h with rfl | h
    · obtain ⟨m, c', hc', -, hn⟩ := readTag?_eq_some.1 hread
      exact .inr ⟨m, c', hc', hn⟩
    · exact ih h
  | case3 c cs hread ih =>
    rcases List.mem_cons.1 h with rfl | h
    · exact .inl ⟨_, rfl⟩
    · exact ih h

theorem ofTemplate_of_spelling {template spelling : String} {n : Node} (h : n ∈ ofTemplate template)
    (hs : n.spelling? = some spelling) : ofTemplate spelling = [n] := by
  rcases text_or_node_of_mem h with ⟨s, rfl⟩ | ⟨m, c, hc, rfl⟩
  · cases hs
  · rw [spelling?_node] at hs
    obtain rfl := Option.some.inj hs
    rw [ofTemplate, String.toList_ofList, segment_enclose m hc.respaced, Marker.node_respaced]

theorem spelling?_of_location? {n : Node} {location : String} (h : n.location? = some location) :
    n.spelling? = some location := by
  cases n with
  | text | comment => cases h
  | expression | tag => exact h

/-- Every tag of a template is cut from its usual spelling as it was cut from the template, and so is the tag
that a failed rendering names. -/
theorem ofTemplate_spelling (template : String) :
    (∀ source, .expression source ∈ ofTemplate template →
        ofTemplate ("\x7b\x7b " ++ source ++ " \x7d\x7d") = [.expression source]) ∧
      (∀ s, .comment s ∈ ofTemplate template → ofTemplate ("\x7b#" ++ s ++ "#\x7d") = [.comment s]) ∧
      (∀ t, .tag t ∈ ofTemplate template → ofTemplate t.source = [.tag t]) ∧
      ∀ rules order env depth location cause,
        Render.nodes rules order env depth (ofTemplate template) = .error (.inTag location cause) →
        ∃ n ∈ ofTemplate template, ofTemplate location = [n] := by
  refine ⟨fun _ h => ofTemplate_of_spelling h rfl, fun _ h => ofTemplate_of_spelling h rfl,
    fun _ h => ofTemplate_of_spelling h rfl, fun rules order env depth location cause h => ?_⟩
  cases Render.nodes_failure h with
  | «at» _ hn hlocation => exact ⟨_, hn, ofTemplate_of_spelling hn (spelling?_of_location? hlocation)⟩

/-- Markers inside of strings and of each other, single braces beside markers, and blanks of other kinds. -/
theorem ofTemplate_spelling_nested :
    let template := "\x7b\x7b\t\x7b\x7b '\x7d\x7d' \x7d\x7d\x7d \x7d\x7d" ++
      "\x7b#\x7d##\x7d\x7b%\u00a0IF \x7b \"%\x7d\"%%\x7d"
    let source := "\x7b\x7b '\x7d\x7d' \x7d\x7d\x7d"
    let t : Tag := ⟨.ifTag "\x7b \"%\x7d\"%", "IF \x7b \"%\x7d\"%"⟩
    ofTemplate template = [.expression source, .comment "\x7d#", .tag t] ∧
      ofTemplate ("\x7b\x7b " ++ source ++ " \x7d\x7d") = [.expression source] ∧
      ofTemplate ("\x7b#" ++ "\x7d#" ++ "#\x7d") = [.comment "\x7d#"] ∧ ofTemplate t.source = [.tag t] := by
  intro template source t
  have h : ofTemplate template = [.expression source, .comment "\x7d#", .tag t] := by decide +kernel
  obtain ⟨hexpression, hcomment, htag, -⟩ := ofTemplate_spelling template
  rw [h] at hexpression hcomment htag
  exact ⟨h, hexpression source (by simp), hcomment _ (by simp), htag t (by simp)⟩

end Node

end Stencil

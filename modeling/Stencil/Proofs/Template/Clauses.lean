import Stencil.Proofs.Expr.Cutting
import Stencil.Template.Tag

/-! Clauses of loops. A clause is understood when it is names, the word `in` and a collection with blanks between
them. It can be taken apart in one way only, but for blanks in front of the collection, which never count to it. -/
namespace Stencil

open Text

namespace Text

/-- The numbers of the blanks. -/
def blankRanges : List (Nat × Nat) :=
  [(9, 13), (32, 32), (133, 133), (160, 160), (5760, 5760), (8192, 8202), (8232, 8233), (8239, 8239),
    (8287, 8287), (12288, 12288)]

theorem mem_blankRanges {c : Char} (hc : isBlank c = true) :
    ∃ b ∈ blankRanges, b.1 ≤ c.toNat ∧ c.toNat ≤ b.2 := by
  simp only [isBlank, Bool.or_eq_true, Bool.and_eq_true, decide_eq_true_eq, beq_iff_eq] at hc
  simp only [blankRanges, List.exists_mem_cons_iff, List.not_mem_nil, false_and, exists_false, or_false]
  omega

theorem isWordChar_eq_false_of_isBlank {c : Char} (hc : isBlank c = true) : isWordChar c = false := by
  have hapart : (wordRanges.all fun r => blankRanges.all fun b => r.2 < b.1 || b.2 < r.1) = true := by
    decide +kernel
  obtain ⟨b, hb, hlow, hhigh⟩ := mem_blankRanges hc
  refine List.any_eq_false.2 fun r hr => ?_
  have hrb := List.all_eq_true.1 (List.all_eq_true.1 hapart r hr) b hb
  simp only [Bool.or_eq_true, Bool.and_eq_true, decide_eq_true_eq] at hrb ⊢
  omega

/-- A word character of ASCII is one of ASCII names. -/
theorem isNameChar_of_isWordChar {c : Char} (hc : isWordChar c = true) (hascii : c.toNat < 128) :
    isNameChar c = true := by
  have hranges : ∀ r ∈ wordRanges, r.1 < 128 → r ∈ [(48, 57), (65, 90), (95, 95), (97, 122)] := by
    decide +kernel
  obtain ⟨r, hr, hmem⟩ := List.any_eq_true.1 hc
  simp only [Bool.and_eq_true, decide_eq_true_eq] at hmem
  have hr := hranges r hr (by omega)
  simp only [List.mem_cons, List.not_mem_nil, or_false] at hr
  rw [isNameChar, Bool.or_eq_true_iff]
  rcases hr with rfl | rfl | rfl | rfl
  · exact .inl (Bool.or_eq_true_iff.2 (.inr (Char.isDigit_iff_toNat.2 hmem)))
  · exact .inl (Bool.or_eq_true_iff.2 (.inl (Bool.or_eq_true_iff.2 (.inl (decide_eq_true hmem)))))
  · exact .inr (beq_iff_eq.2 (Char.toNat_inj.1 (Nat.le_antisymm hmem.2 hmem.1)))
  · have hlower : c.isLower = true :=
      Bool.and_eq_true_iff.2 ⟨decide_eq_true hmem.1, decide_eq_true hmem.2⟩
    exact .inl (Bool.or_eq_true_iff.2 (.inl (Bool.or_eq_true_iff.2 (.inr hlower))))

/-- No character of the class `p` comes next. -/
def Stops (p : Char → Bool) (cs : List Char) : Prop := ∀ c ∈ cs.head?, p c = false

variable {p : Char → Bool} {a b cs ds rest : List Char}

/-- Two runs of characters of a class with what follows them. -/
theorem Stops.append_inj (hcs : Stops p cs) (hds : Stops p ds) (ha : ∀ c ∈ a, p c = true)
    (hb : ∀ c ∈ b, p c = true) (h : a ++ cs = b ++ ds) : a = b ∧ cs = ds := by
  have hfirst := span_stopped ha hcs
  have hsecond := span_stopped hb hds
  rw [h] at hfirst
  exact ⟨hfirst.1.symm.trans hsecond.1, hfirst.2.symm.trans hsecond.2⟩

theorem stops_dropWhile (cs : List Char) : Stops p (cs.dropWhile p) := head_dropWhile cs

theorem trimmed_trim (h : trim cs ≠ []) : Trimmed (trim cs) := by
  by_cases hsolid : ∃ c ∈ cs, isBlank c = false
  · obtain ⟨_, _, -, -, -, htrimmed⟩ := exists_padding hsolid
    exact htrimmed
  · have hall : cs.dropWhile isBlank = [] := List.dropWhile_eq_nil_iff.2 (by simpa using hsolid)
    exact absurd (by rw [trim, trimWhere, hall]; rfl) h

/-- The end of a trimmed text, without the blanks in front of it. -/
theorem Trimmed.dropWhile_isBlank (h : Trimmed (a ++ cs)) (hcs : cs ≠ []) : Trimmed (cs.dropWhile isBlank) := by
  obtain ⟨-, c, hlast, hc⟩ := h
  rw [List.getLast?_append_of_ne_nil a hcs] at hlast
  have hhead := head_dropWhile_isBlank ⟨c, List.mem_of_getLast? hlast, hc⟩
  have hne : cs.dropWhile isBlank ≠ [] := by
    intro hnil
    simp [hnil] at hhead
  refine ⟨hhead, c, ?_, hc⟩
  rwa [← List.takeWhile_append_dropWhile (p := isBlank) (l := cs), List.getLast?_append_of_ne_nil _ hne] at hlast

/-- At least one blank, and nothing else. -/
def Spaces (a : List Char) : Prop := Blank a ∧ a ≠ []

theorem Spaces.stops_isWordChar (ha : Spaces a) (cs : List Char) : Stops isWordChar (a ++ cs) := by
  intro c hc
  rw [List.head?_append_of_ne_nil a ha.2] at hc
  exact isWordChar_eq_false_of_isBlank (ha.1 c (List.mem_of_mem_head? hc))

end Text

namespace LoopClause

/-- A name that a loop can bind. -/
def Name (n : List Char) : Prop :=
  ∃ c cs, n = c :: cs ∧ isNameStart c = true ∧ ∀ d ∈ cs, isWordChar d = true

/-- The word `in` in any letter case. -/
def InWord (w : List Char) : Prop := ∃ i n, w = [i, n] ∧ (i = 'i' ∨ i = 'I') ∧ (n = 'n' ∨ n = 'N')

/-- The names of a loop as they are written: one, or two and between them a comma with `a` and `b` around it. -/
inductive Names where
  | single (n : List Char)
  | pair (m a b n : List Char)

namespace Names

def WellFormed : Names → Prop
  | single n => Name n
  | pair m a b n => Name m ∧ Blank a ∧ Blank b ∧ Name n

def text : Names → List Char
  | single n => n
  | pair m a b n => m ++ (a ++ ',' :: (b ++ n))

def target : Names → LoopTarget
  | single n => .single (String.ofList n)
  | pair m _ _ n => .pair (String.ofList m) (String.ofList n)

end Names

/-- A clause that is taken apart. -/
@[ext]
structure Parts where
  names : Names
  before : List Char
  word : List Char
  after : List Char
  collection : List Char
  wellFormed : names.WellFormed
  spaces_before : Spaces before
  inWord : InWord word
  spaces_after : Spaces after
  nonempty : collection ≠ []

namespace Parts

def text (p : Parts) : List Char := p.names.text ++ (p.before ++ (p.word ++ (p.after ++ p.collection)))

/-- All the blanks behind the word `in` count to `after`. -/
def Settled (p : Parts) : Prop := Stops isBlank p.collection

end Parts

variable {cs rest : List Char}

theorem Name.stops_isBlank {n : List Char} (hn : Name n) (cs : List Char) : Stops isBlank (n ++ cs) := by
  obtain ⟨c, ds, rfl, hc, -⟩ := hn
  rintro d ⟨⟩
  exact isBlank_eq_false_of_isNameChar (isNameChar_of_isNameStart hc)

theorem InWord.stops_isBlank {w : List Char} (hw : InWord w) (cs : List Char) : Stops isBlank (w ++ cs) := by
  obtain ⟨i, n, rfl, hi, -⟩ := hw
  rintro d ⟨⟩
  rcases hi with rfl | rfl <;> rfl

theorem readName?_append {n : List Char} (hn : Name n) (hrest : Stops isWordChar rest) :
    readName? (n ++ rest) = some (String.ofList n, rest) := by
  obtain ⟨c, cs, rfl, hc, hcs⟩ := hn
  obtain ⟨htake, hdrop⟩ := span_stopped hcs hrest
  rw [List.cons_append, readName?, if_pos hc, htake, hdrop]

theorem readName?_cases {s : String} (h : readName? cs = some (s, rest)) :
    ∃ n, Name n ∧ s = String.ofList n ∧ cs = n ++ rest := by
  cases cs with
  | nil => cases h
  | cons c cs =>
    rw [readName?] at h
    split at h
    · next hc =>
      cases h
      exact ⟨c :: cs.takeWhile isWordChar, ⟨c, _, rfl, hc, fun _ hd => List.mem_takeWhile_imp hd⟩, rfl,
        by rw [List.cons_append, List.takeWhile_append_dropWhile]⟩
    · cases h

theorem readSecond?_append {a b n : List Char} (ha : Blank a) (hb : Blank b) (hn : Name n)
    (hrest : Stops isWordChar rest) :
    readSecond? (a ++ ',' :: (b ++ (n ++ rest))) = some (String.ofList n, rest) := by
  have hcomma : (a ++ ',' :: (b ++ (n ++ rest))).dropWhile isBlank = ',' :: (b ++ (n ++ rest)) :=
    (span_stopped ha (by rintro c ⟨⟩; rfl)).2
  have hname : (b ++ (n ++ rest)).dropWhile isBlank = n ++ rest := (span_stopped hb (hn.stops_isBlank rest)).2
  simp only [readSecond?, hcomma, hname]
  exact readName?_append hn hrest

/-- Where the first letter behind the blanks is no comma, there is no second name. -/
theorem readSecond?_eq_none {a : List Char} (ha : Blank a) (hblank : Stops isBlank cs)
    (hcomma : Stops (· == ',') cs) :
    readSecond? (a ++ cs) = none := by
  have hdrop : (a ++ cs).dropWhile isBlank = cs := (span_stopped ha hblank).2
  rw [readSecond?, hdrop]
  split
  · cases hcomma _ rfl
  · rfl

theorem readSecond?_cases {s : String} (h : readSecond? cs = some (s, rest)) :
    ∃ a b n, Blank a ∧ Blank b ∧ Name n ∧ s = String.ofList n ∧ cs = a ++ ',' :: (b ++ (n ++ rest)) := by
  rw [readSecond?] at h
  split at h
  · next ds hcomma =>
    obtain ⟨n, hn, hs, hds⟩ := readName?_cases h
    refine ⟨cs.takeWhile isBlank, ds.takeWhile isBlank, n, blank_takeWhile cs, blank_takeWhile ds, hn, hs, ?_⟩
    rw [← hds, List.takeWhile_append_dropWhile, ← hcomma, List.takeWhile_append_dropWhile]
  · cases h

theorem readTarget?_append {names : Names} (hnames : names.WellFormed) {a : List Char} (ha : Spaces a)
    (hblank : Stops isBlank cs) (hcomma : Stops (· == ',') cs) :
    readTarget? (names.text ++ (a ++ cs)) = some (names.target, a ++ cs) := by
  have hrest := ha.stops_isWordChar cs
  cases names with
  | single n =>
    rw [readTarget?, Names.text, readName?_append hnames hrest]
    simp only [Option.map_some, readSecond?_eq_none ha.1 hblank hcomma]
    rfl
  | pair m b d n =>
    obtain ⟨hm, hb, hd, hn⟩ := hnames
    have hsecond := readSecond?_append hb hd hn hrest
    have hfirst : Stops isWordChar (b ++ ',' :: (d ++ (n ++ (a ++ cs)))) := by
      cases b with
      | nil =>
        rintro c ⟨⟩
        decide +kernel
      | cons c b => exact Spaces.stops_isWordChar ⟨hb, List.cons_ne_nil c b⟩ _
    have htext : (Names.pair m b d n).text ++ (a ++ cs) = m ++ (b ++ ',' :: (d ++ (n ++ (a ++ cs)))) := by
      simp [Names.text]
    rw [readTarget?, htext, readName?_append hm hfirst]
    simp only [Option.map_some, hsecond]
    rfl

theorem readTarget?_cases {target : LoopTarget} (h : readTarget? cs = some (target, rest)) :
    ∃ names : Names, names.WellFormed ∧ target = names.target ∧ cs = names.text ++ rest := by
  rw [readTarget?, Option.map_eq_some_iff] at h
  obtain ⟨⟨first, behind⟩, hfirst, h⟩ := h
  obtain ⟨m, hm, rfl, rfl⟩ := readName?_cases hfirst
  cases hsecond : readSecond? behind with
  | none =>
    simp only [hsecond] at h
    cases h
    exact ⟨.single m, hm, rfl, rfl⟩
  | some read =>
    obtain ⟨second, behind'⟩ := read
    simp only [hsecond] at h
    cases h
    obtain ⟨a, b, n, ha, hb, hn, rfl, rfl⟩ := readSecond?_cases hsecond
    exact ⟨.pair m a b n, ⟨hm, ha, hb, hn⟩, rfl, by simp [Names.text]⟩

theorem afterBlanks?_eq_some_iff :
    afterBlanks? cs = some rest ↔ ∃ a, Spaces a ∧ cs = a ++ rest ∧ Stops isBlank rest := by
  constructor
  · intro h
    cases cs with
    | nil => cases h
    | cons c cs =>
      rw [afterBlanks?] at h
      split at h
      · next hc =>
        cases h
        exact ⟨c :: cs.takeWhile isBlank, ⟨List.forall_mem_cons.2 ⟨hc, blank_takeWhile cs⟩, List.cons_ne_nil c _⟩,
          by rw [List.cons_append, List.takeWhile_append_dropWhile], stops_dropWhile cs⟩
      · cases h
  · rintro ⟨a, ⟨ha, hne⟩, rfl, hrest⟩
    obtain ⟨c, a, rfl⟩ := List.exists_cons_of_ne_nil hne
    obtain ⟨hc, ha⟩ := List.forall_mem_cons.1 ha
    rw [List.cons_append, afterBlanks?, if_pos hc, (span_stopped ha hrest).2]

theorem afterIn?_eq_some_iff :
    afterIn? cs = some rest ↔
      ∃ a w b, Spaces a ∧ InWord w ∧ Spaces b ∧ cs = a ++ (w ++ (b ++ rest)) ∧ Stops isBlank rest := by
  constructor
  · intro h
    rw [afterIn?] at h
    split at h
    · next i n ds hblanks =>
      split at h
      · next hin =>
        obtain ⟨a, ha, rfl, -⟩ := afterBlanks?_eq_some_iff.1 hblanks
        obtain ⟨b, hb, rfl, hrest⟩ := afterBlanks?_eq_some_iff.1 h
        exact ⟨a, [i, n], b, ha, ⟨i, n, rfl, hin⟩, hb, rfl, hrest⟩
      · cases h
    · cases h
  · rintro ⟨a, w, b, ha, hw, hb, rfl, hrest⟩
    have hfirst := afterBlanks?_eq_some_iff.2 ⟨a, ha, rfl, hw.stops_isBlank (b ++ rest)⟩
    have hsecond := afterBlanks?_eq_some_iff.2 ⟨b, hb, rfl, hrest⟩
    obtain ⟨i, n, rfl, hin⟩ := hw
    simp only [afterIn?, hfirst]
    rw [List.cons_append, List.cons_append]
    exact (if_pos hin).trans hsecond

/-- The names are determined by what they bind and how they are written. -/
theorem Names.eq_of_text {m n : Names} (hm : m.WellFormed) (hn : n.WellFormed) (htarget : m.target = n.target)
    (htext : m.text = n.text) : m = n := by
  cases m with
  | single x =>
    cases n with
    | single y => exact congrArg Names.single htext
    | pair y c d z => cases htarget
  | pair x a b y =>
    cases n with
    | single z => cases htarget
    | pair z c d w =>
      simp only [Names.target, LoopTarget.pair.injEq, String.ofList_inj] at htarget
      obtain ⟨rfl, rfl⟩ := htarget
      have hgap : a ++ ',' :: (b ++ y) = c ++ ',' :: (d ++ y) := List.append_cancel_left htext
      have hstops (ds : List Char) : Stops isBlank (',' :: ds) := by
        rintro e ⟨⟩
        rfl
      obtain ⟨rfl, hbehind⟩ := (hstops _).append_inj (hstops _) hm.2.1 hn.2.1 hgap
      rw [List.append_cancel_right (List.cons.inj hbehind).2]

namespace Parts

variable {p q : Parts} {clause : String}

theorem readTarget?_text (p : Parts) :
    readTarget? p.text = some (p.names.target, p.before ++ (p.word ++ (p.after ++ p.collection))) := by
  refine readTarget?_append p.wellFormed p.spaces_before (p.inWord.stops_isBlank _) ?_
  obtain ⟨i, n, hword, hi, -⟩ := p.inWord
  rw [hword]
  rintro c ⟨⟩
  rcases hi with rfl | rfl <;> rfl

/-- Two ways to take a clause apart differ at most in the blanks behind the word `in`. -/
theorem eq_of_text (h : p.text = q.text) :
    p.names = q.names ∧ p.before = q.before ∧ p.word = q.word ∧
      p.after ++ p.collection = q.after ++ q.collection := by
  have hread := p.readTarget?_text
  rw [h, q.readTarget?_text, Option.some.injEq, Prod.mk.injEq] at hread
  obtain ⟨htarget, hrest⟩ := hread
  have htext : p.names.text = q.names.text := by
    rw [text, text, hrest] at h
    exact List.append_cancel_right h
  obtain ⟨hbefore, hrest⟩ := (q.inWord.stops_isBlank _).append_inj (p.inWord.stops_isBlank _)
    q.spaces_before.1 p.spaces_before.1 hrest
  have hlength : q.word.length = p.word.length := by
    obtain ⟨i, n, hp, -⟩ := p.inWord
    obtain ⟨j, m, hq, -⟩ := q.inWord
    rw [hp, hq]
    rfl
  obtain ⟨hword, hrest⟩ := List.append_inj hrest hlength
  exact ⟨Names.eq_of_text p.wellFormed q.wellFormed htarget.symm htext, hbefore.symm, hword.symm, hrest.symm⟩

theorem Settled.eq_of_text (hp : p.Settled) (hq : q.Settled) (h : p.text = q.text) : p = q := by
  obtain ⟨hnames, hbefore, hword, hrest⟩ := Parts.eq_of_text h
  obtain ⟨hafter, hcollection⟩ := Stops.append_inj hp hq p.spaces_after.1 q.spaces_after.1 hrest
  exact Parts.ext hnames hbefore hword hafter hcollection

/-- The blanks in front of the collection count to those behind the word `in`. -/
def settle (p : Parts) (h : p.collection.dropWhile isBlank ≠ []) : Parts where
  names := p.names
  before := p.before
  word := p.word
  after := p.after ++ p.collection.takeWhile isBlank
  collection := p.collection.dropWhile isBlank
  wellFormed := p.wellFormed
  spaces_before := p.spaces_before
  inWord := p.inWord
  spaces_after :=
    ⟨p.spaces_after.1.append (blank_takeWhile _), List.append_ne_nil_of_left_ne_nil p.spaces_after.2 _⟩
  nonempty := h

theorem settled_settle (h : p.collection.dropWhile isBlank ≠ []) : (p.settle h).Settled := stops_dropWhile _

theorem text_settle (h : p.collection.dropWhile isBlank ≠ []) : (p.settle h).text = p.text := by
  rw [text, text, settle, List.append_assoc, List.takeWhile_append_dropWhile]

theorem trimmed_collection (h : p.text = trim clause.toList) : Trimmed (p.collection.dropWhile isBlank) := by
  have hfront : p.text = (p.names.text ++ (p.before ++ (p.word ++ p.after))) ++ p.collection := by
    simp only [text, List.append_assoc]
  have hne : p.text ≠ [] := by
    rw [hfront]
    exact List.append_ne_nil_of_right_ne_nil _ p.nonempty
  have htrimmed : Trimmed p.text := by
    rw [h] at hne ⊢
    exact trimmed_trim hne
  rw [hfront] at htrimmed
  exact htrimmed.dropWhile_isBlank p.nonempty

theorem Settled.parse_eq (hp : p.Settled) (h : p.text = trim clause.toList) :
    parse clause = .ok ⟨p.names.target, String.ofList p.collection⟩ := by
  have hin : afterIn? (p.before ++ (p.word ++ (p.after ++ p.collection))) = some p.collection :=
    afterIn?_eq_some_iff.2 ⟨_, _, _, p.spaces_before, p.inWord, p.spaces_after, rfl, hp⟩
  have htrimmed : Trimmed p.collection := by
    rw [← (span_stopped blank_nil hp).2]
    exact trimmed_collection h
  obtain ⟨c, cs, hcollection⟩ := List.exists_cons_of_ne_nil p.nonempty
  simp only [parse, ← h, readTarget?_text, Option.bind_some, hin, Option.map_some]
  simp only [hcollection] at htrimmed ⊢
  rw [htrimmed.trim_eq, if_neg (List.cons_ne_nil c cs)]

end Parts

/-- A clause is understood where it can be taken apart, and what is wrong with any other is the same. -/
theorem parse_cases (clause : String) :
    (∃ p : Parts, p.text = trim clause.toList ∧ p.Settled ∧
        parse clause = .ok ⟨p.names.target, String.ofList p.collection⟩) ∨
      parse clause = .error (.malformedTag (.badClause clause)) := by
  cases htarget : readTarget? (trim clause.toList) with
  | none => exact .inr (by simp only [parse, htarget, Option.bind_none])
  | some read =>
    obtain ⟨target, rest⟩ := read
    cases hin : afterIn? rest with
    | none => exact .inr (by simp only [parse, htarget, Option.bind_some, hin, Option.map_none])
    | some collection =>
      by_cases hne : collection = []
      · exact .inr (by simp only [parse, htarget, Option.bind_some, hin, Option.map_some, hne])
      · obtain ⟨names, hnames, -, htext⟩ := readTarget?_cases htarget
        obtain ⟨a, w, b, ha, hw, hb, rfl, hsettled⟩ := afterIn?_eq_some_iff.1 hin
        let p : Parts := ⟨names, a, w, b, collection, hnames, ha, hw, hb, hne⟩
        exact .inl ⟨p, htext.symm, hsettled, Parts.Settled.parse_eq hsettled htext.symm⟩

/-- A clause is understood exactly when it can be taken apart into names, the word `in` and a collection. Any way
to do so gives the names and the collection that are read, and they differ only in which of the blanks behind the
word `in` they count to the collection. A collection that was found is never missing. -/
theorem parse_decomposes (clause : String) :
    ((∃ r, parse clause = .ok r) ↔ ∃ p : Parts, p.text = trim clause.toList) ∧
      (∀ p : Parts, p.text = trim clause.toList →
        parse clause = .ok ⟨p.names.target, String.ofList (p.collection.dropWhile isBlank)⟩ ∧
        (∀ q : Parts, q.text = trim clause.toList → q.names = p.names ∧ q.before = p.before ∧ q.word = p.word ∧
          q.after ++ q.collection = p.after ++ p.collection) ∧
        ∃! q : Parts, q.text = trim clause.toList ∧ q.Settled) ∧
      (∀ e, parse clause = .error e → e = .malformedTag (.badClause clause)) ∧
      parse clause ≠ .error (.malformedTag .noCollection) := by
  have hread (p : Parts) (hp : p.text = trim clause.toList) :
      parse clause = .ok ⟨p.names.target, String.ofList (p.collection.dropWhile isBlank)⟩ ∧
        ∃ q : Parts, q.text = trim clause.toList ∧ q.Settled := by
    have hne := (Parts.trimmed_collection hp).ne_nil
    have htext := (Parts.text_settle hne).trans hp
    exact ⟨(Parts.settled_settle hne).parse_eq htext, p.settle hne, htext, Parts.settled_settle hne⟩
  have hfail (e : Error) (he : parse clause = .error e) : e = .malformedTag (.badClause clause) := by
    rcases parse_cases clause with ⟨p, -, -, hok⟩ | herror
    · rw [hok] at he
      cases he
    · rw [herror] at he
      cases he
      rfl
  refine ⟨⟨?_, fun ⟨p, hp⟩ => ⟨_, (hread p hp).1⟩⟩, fun p hp => ⟨(hread p hp).1, ?_, ?_⟩, hfail, ?_⟩
  · rintro ⟨r, hr⟩
    rcases parse_cases clause with ⟨p, hp, -, -⟩ | herror
    · exact ⟨p, hp⟩
    · rw [hr] at herror
      cases herror
  · exact fun q hq => Parts.eq_of_text (hq.trans hp.symm)
  · obtain ⟨-, q, hq, hsettled⟩ := hread p hp
    exact ⟨q, ⟨hq, hsettled⟩, fun r ⟨hr, hrsettled⟩ => hrsettled.eq_of_text hsettled (hr.trans hq.symm)⟩
  · intro he
    cases hfail _ he

/-- The word `in` at the end of a name, as a name and inside of the collection, and no collection. -/
theorem parse_decomposes_in :
    parse " min ,\n in IN \t x in [1,\n 2] " = .ok ⟨.pair "min" "in", "x in [1,\n 2]"⟩ ∧
      parse "min , in in" = .error (.malformedTag (.badClause "min , in in")) ∧
      ¬ ∃ p : Parts, p.text = trim "min , in in".toList := by
  have hname (c : Char) (cs : List Char) (hc : isNameStart c = true) (hcs : cs.all isWordChar = true) :
      Name (c :: cs) := ⟨c, cs, rfl, hc, List.all_eq_true.1 hcs⟩
  have hspaces (a : List Char) (ha : a.all isBlank = true) (hne : a ≠ []) : Spaces a :=
    ⟨List.all_eq_true.1 ha, hne⟩
  let p : Parts :=
    { names := .pair "min".toList " ".toList "\n ".toList "in".toList
      before := " ".toList
      word := "IN".toList
      after := " ".toList
      collection := "\t x in [1,\n 2]".toList
      wellFormed := ⟨hname 'm' _ rfl (by decide +kernel), List.all_eq_true.1 rfl, List.all_eq_true.1 rfl,
        hname 'i' _ rfl (by decide +kernel)⟩
      spaces_before := hspaces _ rfl (by decide)
      inWord := ⟨'I', 'N', rfl, .inr rfl, .inr rfl⟩
      spaces_after := hspaces _ rfl (by decide)
      nonempty := by decide }
  have hnone : (parse "min , in in").toOption = none := by decide +kernel
  refine ⟨((parse_decomposes _).2.1 p rfl).1, ?_⟩
  cases h : parse "min , in in" with
  | ok r =>
    rw [h] at hnone
    cases hnone
  | error e =>
    obtain ⟨hiff, -, hfail, -⟩ := parse_decomposes "min , in in"
    refine ⟨congrArg Except.error (hfail e h), ?_⟩
    rw [← hiff, h]
    rintro ⟨r, ⟨⟩⟩

end LoopClause

end Stencil

import Stencil.Proofs.Entries
import Stencil.Proofs.Expr.Names
import Stencil.Proofs.Expr.Paths
import Stencil.Proofs.Template.Clauses
import Stencil.Proofs.Template.Interpolation
import Stencil.Template.Render

/-! The names that loops bind, as expressions read them. A loop takes every letter of every script into a name, and
it takes any word; an expression can read a name only if it is an ASCII name that is not reserved. -/
namespace Stencil

open Text

variable {before : Option Lexeme} {c : Char} {cs word rest : List Char} {position : Nat} {n : String}

/-! ### Words -/

namespace Lexeme

/-- A word stands for the same wherever nothing but another word may follow it. -/
theorem ofWord_parted (hword : AsciiName word) (hrest : Stops isBlank rest) :
    ∃ x, x.Spelled word ∧ ofWord word rest = (x, rest) := by
  obtain ⟨x, hx, hone | ⟨second, y, hsecond, -, htwo⟩⟩ := ofWord_cases hword
  · exact ⟨x, hx, hone rest⟩
  · refine ⟨x, hx, ?_⟩
    have hnone : wordAfter? second rest = none := by
      by_contra hsome
      obtain ⟨behind, hbehind⟩ := Option.ne_none_iff_exists'.1 hsome
      obtain ⟨w, hne, hblank, rfl, -⟩ := (wordAfter?_eq_some_iff hsecond).1 hbehind
      obtain ⟨d, w, rfl⟩ := List.exists_cons_of_ne_nil hne
      have hd : isBlank d = true := hblank d (.head w)
      simp [hrest d rfl] at hd
    rw [htwo, hnone]
    rfl

/-- All symbols are ASCII. -/
theorem readSymbol_nonAscii (hc : 128 ≤ c.toNat) (cs : List Char) : readSymbol (c :: cs) = none := by
  cases h : readSymbol (c :: cs) with
  | none => rfl
  | some r =>
    rw [readSymbol.eq_def] at h
    split at h
    case h_24 => cases h
    all_goals
      rename_i heq
      obtain ⟨rfl, -⟩ := List.cons.inj heq
      exact absurd hc (by decide)

/-- No lexeme begins with a letter or a digit that is not ASCII. -/
theorem read_foreign (hc : isWordChar c = true) (hforeign : isNameChar c = false) (cs : List Char) :
    read before c cs = .error (.unexpectedCharacter c) := by
  have hbeyond : 128 ≤ c.toNat := by
    by_contra hascii
    simp [isNameChar_of_isWordChar hc (Nat.not_le.1 hascii)] at hforeign
  have hquote : ¬ (c = '\'' ∨ c = '"') := by
    rintro (rfl | rfl) <;> exact absurd hbeyond (by decide)
  have hdigit : ¬ c.isDigit = true := by
    intro hd
    simp [isNameChar_of_isDigit hd] at hforeign
  have hstart : ¬ isNameStart c = true := by
    intro hs
    simp [isNameChar_of_isNameStart hs] at hforeign
  rw [read, if_neg hquote, if_neg hdigit, if_neg hstart, readSymbol_nonAscii hbeyond]

end Lexeme

theorem isBlank_eq_false_of_isWordChar (hc : isWordChar c = true) : isBlank c = false := by
  cases hb : isBlank c with
  | false => rfl
  | true => simp [isWordChar_eq_false_of_isBlank hb] at hc

/-- The first character that is none of a class. -/
theorem exists_first_outside {p : Char → Bool} (h : ¬ ∀ c ∈ cs, p c = true) :
    ∃ a d b, cs = a ++ d :: b ∧ (∀ e ∈ a, p e = true) ∧ p d = false := by
  have hsome : (cs.find? fun c => !p c).isSome = true := by simpa using h
  obtain ⟨d, hd⟩ := Option.isSome_iff_exists.1 hsome
  obtain ⟨hd, a, b, hcs, ha⟩ := List.find?_eq_some_iff_append.1 hd
  exact ⟨a, d, b, hcs, by simpa using ha, by simpa using hd⟩

/-- A word is one token, and then come the tokens of what follows it. -/
theorem lexFrom_word (position : Nat) (before : Option Lexeme) (hword : AsciiName word)
    (hrest : Stops isNameChar rest) (hblank : Stops isBlank rest) :
    ∃ x, x.Spelled word ∧ lexFrom position before (word ++ rest) =
      (lexFrom (position + byteLength word) (some x) rest).map fun ts => ⟨x, position⟩ :: ts := by
  obtain ⟨x, hx, hof⟩ := Lexeme.ofWord_parted hword hblank
  refine ⟨x, hx, ?_⟩
  have hlist : (String.ofList word).toList = word := String.toList_ofList
  have hreads : Reads before (String.ofList word).toList rest x :=
    reads_word_stopped (by rwa [hlist]) hrest (by rwa [hlist])
  obtain ⟨c, cs, hcons, hc, hread⟩ := hreads
  rw [hlist] at hcons
  subst hcons
  have hlength : byteLength (c :: (cs ++ rest)) - byteLength rest = byteLength (c :: cs) := by
    rw [← List.cons_append, byteLength_append, Nat.add_sub_cancel]
  rw [List.cons_append, lexFrom_read hc hread, hlength]

theorem lex_word (hn : AsciiName n.toList) : ∃ x, x.Spelled n.toList ∧ lex n = .ok [⟨x, 0⟩] := by
  have hnil (p : Char → Bool) : Stops p [] := by
    rintro c ⟨⟩
  obtain ⟨x, hx, hlex⟩ := lexFrom_word 0 none hn (hnil _) (hnil _)
  refine ⟨x, hx, ?_⟩
  rw [List.append_nil, lexFrom_nil] at hlex
  exact hlex

/-! ### Names of loops -/

/-- The names that a loop binds, in the order in which they are written. -/
def LoopTarget.names : LoopTarget → List String
  | single name => [name]
  | pair key value => [key, value]

namespace LoopClause

theorem name_of_parse {clause : String} {c : LoopClause} (h : parse clause = .ok c) (hn : n ∈ c.target.names) :
    Name n.toList := by
  rcases parse_cases clause with ⟨p, -, -, hp⟩ | hp
  · rw [hp] at h
    obtain rfl := Except.ok.inj h
    have hnames := p.wellFormed
    revert hn hnames
    cases p.names with
    | single m => simp +contextual [Names.target, Names.WellFormed, LoopTarget.names]
    | pair k a b m =>
      rintro hn ⟨hk, -, -, hm⟩
      rcases List.mem_pair.1 hn with rfl | rfl <;> simpa
  · rw [hp] at h
    cases h

/-- A clause with one space on either side of the word `in`. -/
theorem parse_spaced {clause : String} {names : Names} (hnames : names.WellFormed) {collection : List Char}
    (hblank : Stops isBlank collection) (hne : collection ≠ [])
    (h : names.text ++ ' ' :: 'i' :: 'n' :: ' ' :: collection = trim clause.toList) :
    parse clause = .ok ⟨names.target, String.ofList collection⟩ := by
  let p : Parts :=
    { names, collection
      before := [' ']
      word := ['i', 'n']
      after := [' ']
      wellFormed := hnames
      spaces_before := ⟨blank_space, by simp⟩
      inWord := ⟨'i', 'n', rfl, .inl rfl, .inl rfl⟩
      spaces_after := ⟨blank_space, by simp⟩
      nonempty := hne }
  have hp : p.Settled := hblank
  exact hp.parse_eq h

theorem Name.asciiName {m : List Char} (hm : Name m) (hascii : ∀ d ∈ m, isNameChar d = true) : AsciiName m := by
  obtain ⟨c, cs, rfl, hc, -⟩ := hm
  exact ⟨⟨c, rfl, hc⟩, hascii⟩

/-- Where a name goes on with a letter that is not ASCII, expressions do not. -/
theorem lexFrom_foreign {a b : List Char} {d : Char} (hname : Name (a ++ d :: b))
    (ha : ∀ e ∈ a, isNameChar e = true) (hd : isNameChar d = false) :
    lexFrom 0 none (a ++ d :: b) = .error (.lexical (.unexpectedCharacter d) (byteLength a)) := by
  obtain ⟨c, cs, hcons, hc, hcs⟩ := hname
  cases a with
  | nil =>
    obtain ⟨rfl, -⟩ := List.cons.inj hcons
    simp [isNameChar_of_isNameStart hc] at hd
  | cons e a =>
    obtain ⟨rfl, rfl⟩ := List.cons.inj hcons
    have hletter : isWordChar d = true := hcs d (by simp)
    have hblank : isBlank d = false := isBlank_eq_false_of_isWordChar hletter
    have hhead : Stops isNameChar (d :: b) := by
      rintro f ⟨⟩
      exact hd
    have hheadBlank : Stops isBlank (d :: b) := by
      rintro f ⟨⟩
      exact hblank
    obtain ⟨x, -, hlex⟩ := lexFrom_word 0 none ⟨⟨e, rfl, hc⟩, ha⟩ hhead hheadBlank
    rw [hlex, lexFrom_fault hblank (Lexeme.read_foreign hletter hd b), Nat.zero_add]
    rfl

/-- A name that is one token of an expression. -/
def Readable (n : String) : Prop := lex n = .ok [⟨.name n, 0⟩]

theorem readable_of_writable (hn : Lexeme.Writable (.name n)) : Readable n := by
  obtain ⟨x, -, hlex⟩ := lex_word hn.1
  obtain ⟨ts, hdotted, hts⟩ := lex_dotted hn (List.forall_mem_nil _)
  rw [dotted, String.intercalate_singleton, hlex] at hdotted
  obtain rfl := Except.ok.inj hdotted
  obtain rfl : x = .name n := by simpa [dotLexemes] using hts
  exact hlex

/-- A word that is reserved is one token, but no name. -/
theorem lex_reserved (hn : n ∈ Lexeme.reserved) : ∃ x, lex n = .ok [⟨x, 0⟩] ∧ ∀ m, x ≠ .name m := by
  obtain ⟨x, hx, hlex⟩ := lex_word (asciiName_reserved hn)
  refine ⟨x, hlex, ?_⟩
  rintro m rfl
  obtain ⟨hm, -, hnot⟩ := hx
  exact hnot (String.toList_inj.1 hm ▸ hn)

theorem lex_foreign (hn : Name n.toList) {a b : List Char} {d : Char} (h : n.toList = a ++ d :: b)
    (ha : ∀ e ∈ a, isNameChar e = true) (hd : isNameChar d = false) :
    lex n = .error (.lexical (.unexpectedCharacter d) (byteLength a)) := by
  rw [h] at hn
  rw [lex, h, lexFrom_foreign hn ha hd]

theorem readable_iff (hn : Name n.toList) :
    Readable n ↔ (∀ d ∈ n.toList, isNameChar d = true) ∧ n ∉ Lexeme.reserved := by
  constructor
  · intro h
    constructor
    · by_contra hforeign
      obtain ⟨a, d, b, hcut, ha, hd⟩ := exists_first_outside hforeign
      rw [Readable, lex_foreign hn hcut ha hd] at h
      cases h
    · intro hreserved
      obtain ⟨x, hx, hnot⟩ := lex_reserved hreserved
      rw [Readable, hx] at h
      exact hnot n (by simpa using h)
  · rintro ⟨hascii, hreserved⟩
    exact readable_of_writable ⟨hn.asciiName hascii, hreserved⟩

end LoopClause

/-! ### Iterations -/

theorem Result.mem_of_mapM {α β : Type} {f : α → Result β} {as : List α} {bs : List β} (h : as.mapM f = .ok bs) :
    ∀ b ∈ bs, ∃ a ∈ as, f a = .ok b := by
  induction as generalizing bs with
  | nil =>
    obtain rfl := Except.ok.inj h
    simp
  | cons a as ih =>
    rw [List.mapM_cons] at h
    obtain ⟨b, hb, h⟩ := Result.bind_eq_ok h
    obtain ⟨bs', hbs, h⟩ := Result.bind_eq_ok h
    obtain rfl := Except.ok.inj h
    intro c hc
    rcases List.mem_cons.1 hc with rfl | hc
    · exact ⟨a, .head as, hb⟩
    · obtain ⟨a', ha', hc⟩ := ih hbs c hc
      exact ⟨a', .tail a ha', hc⟩

namespace Render

variable {a : Arrangement} {target : LoopTarget} {collection : Value} {rounds : List (List (String × Value))}
  {bound : List (String × Value)}

/-- Every iteration binds the names of the target, and no others. -/
theorem names_of_bindings (h : bindings a target collection = .ok rounds) (hbound : bound ∈ rounds) :
    bound.map Prod.fst = target.names := by
  have hmapped {α : Type} {as : List α} {f : α → List (String × Value)}
      (hf : ∀ a, (f a).map Prod.fst = target.names) (h : (.ok (as.map f) : Result _) = .ok rounds) :
      bound.map Prod.fst = target.names := by
    cases h
    obtain ⟨a, -, rfl⟩ := List.mem_map.1 hbound
    exact hf a
  unfold bindings at h
  split at h
  · cases h
    cases hbound
  · exact hmapped (fun _ => rfl) h
  · exact hmapped (fun _ => rfl) h
  · exact hmapped (fun _ => rfl) h
  · exact hmapped (fun _ => rfl) h
  · obtain ⟨⟨v, position⟩, -, hv⟩ := Result.mem_of_mapM h bound hbound
    dsimp only at hv
    unfold unpack at hv
    split at hv
    · obtain rfl := Except.ok.inj hv
      rfl
    · cases hv
  · cases h
  · cases h

/-- The scope of an iteration finds the last value that it binds to a name, also in place of `loop`. -/
theorem get?_iterationEnv (env : Env) (i : Iteration) {v : Value} (h : Entries.Last bound n v) :
    (iterationEnv env i bound).scope.get? n = some v := by
  rw [iterationEnv, Scope.get?_child, Entries.get?_insertAll.2 (.inl h), Option.some_or]

/-- Expressions read `v` where they name `n`: as a whole expression, and in a tag. -/
structure Shows (env : Env) (n : String) (v : Value) : Prop where
  parse : Pipeline.parse n = .ok ⟨.name n, []⟩
  eval : ∀ site, env.evalPipeline site ⟨.name n, []⟩ = .ok (.defined v)
  template : Node.ofTemplate ("\x7b\x7b " ++ n ++ " \x7d\x7d") = [.expression n]
  text : ∀ rules depth, interpolate rules env depth n = .ok v.display

theorem shows_of_get? {env : Env} {v : Value} (hn : Lexeme.Writable (.name n)) (hlex : LoopClause.Readable n)
    (h : env.scope.get? n = some v) : Shows env n v := by
  have hparse : Pipeline.parse n = .ok ⟨.name n, []⟩ := by
    have hdotted := Pipeline.parse_dotted hn (List.forall_mem_nil _)
    rwa [dotted, String.intercalate_singleton] at hdotted
  have heval (site : Site) : env.evalPipeline site ⟨.name n, []⟩ = .ok (.defined v) :=
    Env.evalPipeline_dotted (List.forall_mem_nil _) h trivial site
  refine ⟨hparse, heval, ?_, fun rules depth => ?_⟩
  · have htag : ("\x7b\x7b " ++ n ++ " \x7d\x7d").toList =
        Node.Marker.expression.enclose (' ' :: (n.toList ++ [' '])) := by
      simp [Node.Marker.enclose, Node.Marker.opening, Node.Marker.closing]
    have hinterior : Node.Interior '{' '}' (' ' :: (n.toList ++ [' '])) := (Node.interior_iff_bracesMatch hlex).2 rfl
    have htrim : trim (' ' :: (n.toList ++ [' '])) = n.toList := trim_padded blank_space hn.1.trimmed blank_space
    rw [Node.ofTemplate, htag, Node.segment_enclose .expression hinterior, Node.Marker.node, htrim,
      String.ofList_toList]
  · rw [interpolate, hparse]
    show (env.evalPipeline _ _).bind _ = _
    rw [heval]
    rfl

end Render

namespace LoopClause

/-- A name of a loop is one token of an expression exactly if it is all ASCII and not reserved, and then each
iteration shows the last value that it binds to that name. A reserved name is some other token, and one that is not
all ASCII is none: its first letter that is not ASCII is not expected. -/
theorem parse_readable {clause : String} {c : LoopClause} (h : parse clause = .ok c) {n : String}
    (hn : n ∈ c.target.names) :
    (Readable n ↔ (∀ d ∈ n.toList, isNameChar d = true) ∧ n ∉ Lexeme.reserved) ∧
      (Readable n → ∀ a collection rounds, Render.bindings a c.target collection = .ok rounds → ∀ bound ∈ rounds,
        ∃ v, Entries.Last bound n v ∧ ∀ env i, Render.Shows (Render.iterationEnv env i bound) n v) ∧
      (n ∈ Lexeme.reserved → ∃ x, lex n = .ok [⟨x, 0⟩] ∧ ∀ m, x ≠ .name m) ∧
      ∀ a d b, n.toList = a ++ d :: b → (∀ e ∈ a, isNameChar e = true) → isNameChar d = false →
        lex n = .error (.lexical (.unexpectedCharacter d) (byteLength a)) := by
  have hname := name_of_parse h hn
  refine ⟨readable_iff hname, fun hread a collection rounds hrounds bound hbound => ?_, lex_reserved, ?_⟩
  · have hbinds : n ∈ bound.map Prod.fst := by rwa [Render.names_of_bindings hrounds hbound]
    obtain ⟨v, hv⟩ := Entries.exists_last hbinds
    obtain ⟨hascii, hreserved⟩ := (readable_iff hname).1 hread
    exact ⟨v, hv, fun env i => Render.shows_of_get? ⟨hname.asciiName hascii, hreserved⟩ hread
      (Render.get?_iterationEnv env i hv)⟩
  · intro a d b hcut ha hd
    exact lex_foreign hname hcut ha hd

/-- The second of two names counts, and it hides the iteration that `loop` stands for elsewhere. -/
theorem parse_readable_twice :
    let c : LoopClause := ⟨.pair "loop" "loop", "pairs"⟩
    let bound := [("loop", Value.int 1), ("loop", Value.string "b")]
    parse "loop, loop in pairs" = .ok c ∧ Readable "loop" ∧
      Render.bindings .stored c.target (.list [.list [.int 1, .string "b"]]) = .ok [bound] ∧
      ∃ v, Entries.Last bound "loop" v ∧
        ∀ env i, Render.Shows (Render.iterationEnv env i bound) "loop" v := by
  intro c bound
  have hname : Name ['l', 'o', 'o', 'p'] :=
    ⟨'l', ['o', 'o', 'p'], rfl, rfl, fun d hd => isWordChar_of_isNameChar (List.all_eq_true.1 rfl d hd)⟩
  have hnames : (Names.pair ['l', 'o', 'o', 'p'] [] [' '] ['l', 'o', 'o', 'p']).WellFormed :=
    ⟨hname, blank_nil, blank_space, hname⟩
  have hcollection : Stops isBlank ['p', 'a', 'i', 'r', 's'] := by
    rintro d ⟨⟩
    rfl
  have hparse : parse "loop, loop in pairs" = .ok c :=
    parse_spaced hnames hcollection (by simp) rfl
  have hbindings : Render.bindings .stored c.target (.list [.list [.int 1, .string "b"]]) = .ok [bound] := rfl
  obtain ⟨hiff, hshows, -, -⟩ := parse_readable hparse (n := "loop") (.head _)
  have hreadable : Readable "loop" := hiff.2 ⟨List.all_eq_true.1 rfl, by decide⟩
  exact ⟨hparse, hreadable, hbindings, hshows hreadable _ _ _ hbindings bound (.head _)⟩

/-- A name with a letter that is not ASCII, and one that is reserved, are bound and cannot be read. -/
theorem parse_unreadable :
    parse "né in xs" = .ok ⟨.single "né", "xs"⟩ ∧
      lex "né" = .error (.lexical (.unexpectedCharacter 'é') 1) ∧ ¬ Readable "né" ∧
      parse "none in xs" = .ok ⟨.single "none", "xs"⟩ ∧ lex "none" = .ok [⟨.constant .none false, 0⟩] ∧
      ¬ Readable "none" := by
  have hxs : Stops isBlank ['x', 's'] := by
    rintro d ⟨⟩
    rfl
  have hletter : isWordChar 'é' = true := List.any_eq_true.2 ⟨(216, 246), List.mem_of_getElem? (i := 8) rfl, rfl⟩
  have haccented : Name ['n', 'é'] := ⟨'n', ['é'], rfl, rfl, by simpa using hletter⟩
  have hword : Name ['n', 'o', 'n', 'e'] :=
    ⟨'n', ['o', 'n', 'e'], rfl, rfl, fun d hd => isWordChar_of_isNameChar (List.all_eq_true.1 rfl d hd)⟩
  have haccent : parse "né in xs" = .ok ⟨.single "né", "xs"⟩ :=
    parse_spaced (show (Names.single ['n', 'é']).WellFormed from haccented) hxs (by simp) rfl
  have hnone : parse "none in xs" = .ok ⟨.single "none", "xs"⟩ :=
    parse_spaced (show (Names.single ['n', 'o', 'n', 'e']).WellFormed from hword) hxs (by simp) rfl
  have hforeign : lex "né" = .error (.lexical (.unexpectedCharacter 'é') 1) :=
    lex_foreign (name_of_parse haccent (.head _)) (a := ['n']) (b := []) rfl (List.all_eq_true.1 rfl) rfl
  have hread : Lexeme.read none 'n' ['o', 'n', 'e'] = .ok (.constant .none false, []) := by
    decide
  have hconstant : lex "none" = .ok [⟨.constant .none false, 0⟩] := by
    show lexFrom 0 none ['n', 'o', 'n', 'e'] = _
    rw [lexFrom_read rfl hread, lexFrom_nil]
    rfl
  refine ⟨haccent, hforeign, ?_, hnone, hconstant, ?_⟩
  · rw [Readable, hforeign]
    intro h
    cases h
  · rw [Readable, hconstant]
    intro h
    cases h

end LoopClause

end Stencil

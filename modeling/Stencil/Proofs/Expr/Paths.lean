import Stencil.Engine
import Stencil.Proofs.Expr.Positions
import Stencil.Proofs.Expr.Writing
import Stencil.Proofs.Value.Sequences

/-! Paths of positions: `x.1.2` is read and evaluated as `x[1][2]`. -/
namespace Stencil

open Lexeme

/-- The position that digits stand for, as an int. -/
def positionOf (d : String) : Int64 := Int64.ofNat (Decimal.digitsValue d.toList)

/-- Digits behind dots. -/
def dotted (x : String) (ds : List String) : String := ".".intercalate (x :: ds)

/-- Digits in brackets. -/
def bracketed (x : String) (ds : List String) : String := x ++ String.join (ds.map fun d => "[" ++ d ++ "]")

/-- The lexemes of digits behind dots. -/
def dotLexemes (ds : List String) : List Lexeme := ds.flatMap fun d => [.mark .dot, .integer d]

/-- The lexemes of digits in brackets. -/
def bracketLexemes (ds : List String) : List Lexeme :=
  ds.flatMap fun d => [.mark .openBracket, .integer d, .mark .closeBracket]

variable {before : Option Lexeme} {rest : List Char} {x d : String} {ds : List String}

/-! ### Reading the text -/

theorem toList_dotted (x : String) (ds : List String) :
    (dotted x ds).toList = x.toList ++ ds.flatMap fun d => '.' :: d.toList := by
  rw [dotted, String.toList_intercalate]
  induction ds generalizing x with
  | nil => simp
  | cons d ds ih =>
    rw [List.map_cons, List.map_cons, List.intercalate_cons_cons, ← List.map_cons, ih, List.flatMap_cons]
    simp

theorem toList_bracketed (x : String) (ds : List String) :
    (bracketed x ds).toList = x.toList ++ ds.flatMap fun d => '[' :: (d.toList ++ [']']) := by
  rw [bracketed, String.toList_append, String.toList_join, List.flatMap_map]
  simp

theorem eq_of_head_flatMap {m c : Char} {f : String → List Char}
    (hc : c ∈ (ds.flatMap fun d => m :: f d).head?) : c = m := by
  cases ds with
  | nil => cases hc
  | cons d ds => exact (Option.some.inj hc).symm

/-- Behind a dot digits are read as far as they go; another dot ends them. -/
theorem reads_integer_dot (hd : Writable (.integer d)) (hrest : ∀ c ∈ rest.head?, c.isDigit = false) :
    Reads (some (.mark .dot)) d.toList rest (.integer d) := by
  obtain ⟨hne, hdigits, hvalue⟩ := hd
  obtain ⟨c, cs, hcs⟩ := List.exists_cons_of_ne_nil (mt String.toList_eq_nil_iff.1 hne)
  have hc : c.isDigit = true := hdigits c (hcs ▸ List.mem_cons_self)
  obtain ⟨htake, hdrop⟩ := span_stopped hdigits hrest
  have hnumber : readNumber true (d.toList ++ rest) = (.integer d, rest) := by
    simp only [readNumber, htake, hdrop, String.ofList_toList]
  have hrange : inRange false (.integer d) = true := by
    rw [inRange, decide_eq_true hvalue, Bool.true_or]
  rw [hcs, List.cons_append] at hnumber
  exact ⟨c, cs, hcs, isBlank_eq_false_of_isDigit hc, read_number hc hnumber hrange⟩

theorem lexes_dots (hds : ∀ d ∈ ds, Writable (.integer d)) :
    Lexes before (ds.flatMap fun d => '.' :: d.toList) (dotLexemes ds) := by
  induction ds generalizing before with
  | nil => exact lexes_nil
  | cons d ds ih =>
    obtain ⟨hd, hds⟩ := List.forall_mem_cons.1 hds
    have hrest : ∀ c ∈ (ds.flatMap fun d => '.' :: d.toList).head?, c.isDigit = false := by
      intro c hc
      obtain rfl := eq_of_head_flatMap hc
      decide
    have hdigits : Lexes (some (.mark .dot)) (d.toList ++ ds.flatMap fun d => '.' :: d.toList)
        (.integer d :: dotLexemes ds) := (reads_integer_dot hd hrest).lexes (ih hds)
    exact hdigits.read (by decide) (read_mark .dot before _)

theorem lexes_brackets (hds : ∀ d ∈ ds, Writable (.integer d)) :
    Lexes before (ds.flatMap fun d => '[' :: (d.toList ++ [']'])) (bracketLexemes ds) := by
  induction ds generalizing before with
  | nil => exact lexes_nil
  | cons d ds ih =>
    obtain ⟨hd, hds⟩ := List.forall_mem_cons.1 hds
    have hrest : Delimited (']' :: ds.flatMap fun d => '[' :: (d.toList ++ [']'])) := by
      intro c hc
      obtain rfl := Option.some.inj hc
      decide
    have hclose : Lexes (some (.integer d)) (']' :: ds.flatMap fun d => '[' :: (d.toList ++ [']']))
        (.mark .closeBracket :: bracketLexemes ds) :=
      (ih hds).read (by decide) (read_mark .closeBracket _ _)
    have hdigits : Lexes (some (.mark .openBracket)) _ _ := (reads_integer_delimited hrest hd).lexes hclose
    rw [List.flatMap_cons, List.cons_append, List.append_assoc]
    exact hdigits.read (by decide) (read_mark .openBracket before _)

theorem lexes_variable {cs : List Char} {xs : List Lexeme} (hx : Writable (.name x))
    (hcs : ∀ c ∈ cs.head?, Text.isNameChar c = false) (h : Lexes (some (.name x)) cs xs) :
    Lexes none (x.toList ++ cs) (.name x :: xs) :=
  (reads_word_stopped hx.1 hcs (ofWord_name hx.2 cs)).lexes h

theorem lex_dotted (hx : Writable (.name x)) (hds : ∀ d ∈ ds, Writable (.integer d)) :
    ∃ ts, lex (dotted x ds) = .ok ts ∧ ts.map Token.lexeme = .name x :: dotLexemes ds := by
  have hdots : ∀ c ∈ (ds.flatMap fun d => '.' :: d.toList).head?, Text.isNameChar c = false := by
    intro c hc
    obtain rfl := eq_of_head_flatMap hc
    decide
  have hlexes := lexes_variable hx hdots (lexes_dots hds) 0
  rwa [lex, toList_dotted]

theorem lex_bracketed (hx : Writable (.name x)) (hds : ∀ d ∈ ds, Writable (.integer d)) :
    ∃ ts, lex (bracketed x ds) = .ok ts ∧ ts.map Token.lexeme = .name x :: bracketLexemes ds := by
  have hopen : ∀ c ∈ (ds.flatMap fun d => '[' :: (d.toList ++ [']'])).head?, Text.isNameChar c = false := by
    intro c hc
    obtain rfl := eq_of_head_flatMap hc
    decide
  have hlexes := lexes_variable hx hopen (lexes_brackets hds) 0
  rwa [lex, toList_bracketed]

/-! ### Reading the tokens -/

/-- The expression that digits behind dots spell. -/
def memberPath (object : Expr) (ds : List String) : Expr := ds.foldl .member object

/-- The expression that digits in brackets spell. -/
def subscriptPath (object : Expr) (ds : List String) : Expr :=
  ds.foldl (fun e d => .subscript e (.literal (.int (positionOf d)))) object

namespace Parser

variable {ts : List Token}

theorem trailers_dots (object : Expr) (hts : ts.map Token.lexeme = dotLexemes ds) :
    Yields (trailers object ts) (memberPath object ds) [] := by
  induction ds generalizing object ts with
  | nil =>
    obtain rfl := List.map_eq_nil_iff.1 hts
    exact trailers_stop headAll_nil
  | cons d ds ih =>
    obtain ⟨⟨_, p⟩, ts₁, rfl, rfl, hdigits⟩ := List.map_eq_cons_iff.1 hts
    obtain ⟨⟨_, q⟩, ts₂, rfl, rfl, hrest⟩ := List.map_eq_cons_iff.1 hdigits
    exact trailers_attribute (.integer d) (ih (.member object d) hrest)

theorem trailers_brackets (object : Expr) (hds : ∀ d ∈ ds, Writable (.integer d))
    (hts : ts.map Token.lexeme = bracketLexemes ds) :
    Yields (trailers object ts) (subscriptPath object ds) [] := by
  induction ds generalizing object ts with
  | nil =>
    obtain rfl := List.map_eq_nil_iff.1 hts
    exact trailers_stop headAll_nil
  | cons d ds ih =>
    obtain ⟨hd, hds⟩ := List.forall_mem_cons.1 hds
    obtain ⟨⟨_, p⟩, ts₁, rfl, rfl, hdigits⟩ := List.map_eq_cons_iff.1 hts
    obtain ⟨⟨_, q⟩, ts₂, rfl, rfl, hbracket⟩ := List.map_eq_cons_iff.1 hdigits
    obtain ⟨⟨_, q'⟩, ts₃, rfl, rfl, hrest⟩ := List.map_eq_cons_iff.1 hbracket
    have hliteral : intLiteral d = .ok (.int (positionOf d)) := if_pos hd.2.2
    have hclose : NoTrailer (.mark .closeBracket) := ⟨by decide, by decide, by decide⟩
    have hbelow : Below 0 (.mark .closeBracket) := fun op hop => by cases hop
    have hkey : Yields (expression 0 (⟨.integer d, q⟩ :: ⟨.mark .closeBracket, q'⟩ :: ts₃))
        (.literal (.int (positionOf d))) (⟨.mark .closeBracket, q'⟩ :: ts₃) :=
      expression_of (operand_primary (primary_integer hliteral) (trailers_stop (headAll_cons.2 hclose)))
        (climb_stop (headAll_cons.2 hbelow))
    exact trailers_subscript hkey (ih _ hds hrest)

end Parser

theorem Pipeline.parse_dotted (hx : Writable (.name x)) (hds : ∀ d ∈ ds, Writable (.integer d)) :
    parse (dotted x ds) = .ok ⟨memberPath (.name x) ds, []⟩ := by
  obtain ⟨ts, hlex, hts⟩ := lex_dotted hx hds
  obtain ⟨⟨_, p⟩, ts', rfl, rfl, hpath⟩ := List.map_eq_cons_iff.1 hts
  rw [parse, hlex]
  exact ofTokens_of_trailers (Parser.trailers_dots _ hpath) Parser.headAll_nil Parser.filterCalls_nil

theorem Pipeline.parse_bracketed (hx : Writable (.name x)) (hds : ∀ d ∈ ds, Writable (.integer d)) :
    parse (bracketed x ds) = .ok ⟨subscriptPath (.name x) ds, []⟩ := by
  obtain ⟨ts, hlex, hts⟩ := lex_bracketed hx hds
  obtain ⟨⟨_, p⟩, ts', rfl, rfl, hpath⟩ := List.map_eq_cons_iff.1 hts
  rw [parse, hlex]
  exact ofTokens_of_trailers (Parser.trailers_brackets _ hds hpath) Parser.headAll_nil Parser.filterCalls_nil

/-! ### Evaluating -/

namespace Decimal

theorem readSign_digit {c : Char} (hc : c.isDigit = true) (cs : List Char) :
    readSign (c :: cs) = (false, c :: cs) := by
  unfold readSign
  split
  · next heq =>
    obtain ⟨rfl, -⟩ := List.cons.inj heq
    exact absurd hc (by decide)
  · next heq =>
    obtain ⟨rfl, -⟩ := List.cons.inj heq
    exact absurd hc (by decide)
  · rfl

theorem readInt?_digits {cs : List Char} (hne : cs ≠ []) (hdigits : ∀ c ∈ cs, c.isDigit = true) :
    readInt? cs = some (digitsValue cs : Int) := by
  obtain ⟨c, cs, rfl⟩ := List.exists_cons_of_ne_nil hne
  rw [readInt?, readSign_digit (hdigits c (.head _))]
  exact if_pos ⟨hne, List.all_eq_true.2 hdigits⟩

end Decimal

/-- Every value along the path is a list, up to the last step or the first one that leads nowhere. -/
def ListsAlong : List String → Value → Prop
  | [], _ => True
  | d :: ds, v => ∃ items, v = .list items ∧
    ∀ w, items[Decimal.digitsValue d.toList]? = some w → ListsAlong ds w

namespace Env

variable {env : Env} {v : Value} {items : List Value}

/-- The value at the end of a path, one subscript after the other. -/
def walk (env : Env) (v : Value) (ds : List String) : Result Value :=
  ds.foldlM (fun w d => env.subscript w (.int (positionOf d))) v

theorem toInt_positionOf (hd : Writable (.integer d)) :
    (positionOf d).toInt = Decimal.digitsValue d.toList := Int64.toInt_ofNat_of_lt hd.2.2

/-- Digits as a key are the position that they stand for. -/
theorem asIndex?_digits (hd : Writable (.integer d)) : (Value.string d).asIndex? = some (positionOf d) := by
  have hfits : fitsInt (Decimal.digitsValue d.toList) = true :=
    toInt_positionOf hd ▸ fitsInt_toInt (positionOf d)
  obtain ⟨hne, hdigits, -⟩ := hd
  have htrim : Text.trim d.toList = d.toList :=
    Text.trim_solid fun c hc => isBlank_eq_false_of_isDigit (hdigits c hc)
  have hread := Decimal.readInt?_digits (mt String.toList_eq_nil_iff.1 hne) hdigits
  rw [Value.asIndex?, htrim, hread, Option.filter_some, if_pos hfits, Option.map_some, Int64.ofInt_eq_ofNat]
  rfl

theorem subscript_index {k k' : Value} {raw : Int64} (hk : k.asIndex? = some raw)
    (hk' : k'.asIndex? = some raw) :
    env.subscript (.list items) k = env.subscript (.list items) k' := by
  simp only [subscript, position, hk, hk']

/-- Digits as an attribute of a list are a subscript. -/
theorem member_digits (site : Site) (hd : Writable (.integer d)) :
    env.member site (.list items) d = env.subscript (.list items) (.int (positionOf d)) := by
  have hall : d.toList.all Char.isDigit = true := List.all_eq_true.2 hd.2.1
  rw [member, if_pos hall]
  exact subscript_index (asIndex?_digits hd) rfl

/-- A step along a path selects an item or fails for want of one. -/
theorem subscript_positionOf (hd : Writable (.integer d)) :
    (∃ w, items[Decimal.digitsValue d.toList]? = some w ∧
      env.subscript (.list items) (.int (positionOf d)) = .ok w) ∨
    env.subscript (.list items) (.int (positionOf d)) =
      .error (.index (.outOfRange (positionOf d).toInt items.length)) := by
  have hposition := toInt_positionOf hd
  have hindexed : env.Indexed (.list items) items := indexed (.list items)
  by_cases hlt : (positionOf d).toInt < items.length
  · obtain ⟨w, hw, hok⟩ := hindexed.front (.int (positionOf d)) (positionOf d) rfl (by omega) hlt
    rw [hposition, Int.toNat_natCast] at hw
    exact .inl ⟨w, hw, hok⟩
  · exact .inr (hindexed.outside (.int (positionOf d)) (positionOf d) rfl (.inr (by omega)))

theorem listsAlong_step {w : Value} (hd : Writable (.integer d)) (hlists : ListsAlong (d :: ds) v)
    (h : env.subscript v (.int (positionOf d)) = .ok w) : ListsAlong ds w := by
  obtain ⟨items, rfl, hitems⟩ := hlists
  rcases subscript_positionOf hd with ⟨w', hw', hok⟩ | herror
  · obtain rfl := Except.ok.inj (hok.symm.trans h)
    exact hitems w' hw'
  · rw [herror] at h
    cases h

/-- A path that leads nowhere fails at a position that is out of range. -/
theorem walk_error {e : Error} (hds : ∀ d ∈ ds, Writable (.integer d)) (hlists : ListsAlong ds v)
    (h : env.walk v ds = .error e) : ∃ raw length, e = .index (.outOfRange raw length) := by
  induction ds generalizing v with
  | nil => cases h
  | cons d ds ih =>
    obtain ⟨hd, hds⟩ := List.forall_mem_cons.1 hds
    rw [walk, List.foldlM_cons] at h
    rcases Result.bind_eq_error h with hstep | ⟨w, hw, hrest⟩
    · obtain ⟨items, rfl, -⟩ := hlists
      rcases subscript_positionOf hd with ⟨w, -, hok⟩ | herror
      · rw [hok] at hstep
        cases hstep
      · rw [herror] at hstep
        exact ⟨_, _, (Except.error.inj hstep).symm⟩
    · exact ih hds (listsAlong_step hd hlists hw) hrest

theorem eval_subscriptPath {object : Expr} {r : Result Value} (h : ∀ site, env.eval site object = r)
    (site : Site) :
    env.eval site (subscriptPath object ds) = r >>= fun v => env.walk v ds := by
  induction ds generalizing object r with
  | nil =>
    rw [subscriptPath, List.foldl_nil, h]
    exact (bind_pure r).symm
  | cons d ds ih =>
    have hstep : ∀ site, env.eval site (.subscript object (.literal (.int (positionOf d)))) =
        r >>= fun v => env.subscript v (.int (positionOf d)) := by
      intro site
      rw [eval, h]
      rfl
    rw [subscriptPath, List.foldl_cons, ← subscriptPath, ih hstep, bind_assoc]
    rfl

theorem eval_memberPath {object : Expr} {r : Result Value} (hds : ∀ d ∈ ds, Writable (.integer d))
    (h : ∀ site, env.eval site object = r) (hlists : ∀ v, r = .ok v → ListsAlong ds v) (site : Site) :
    env.eval site (memberPath object ds) = r >>= fun v => env.walk v ds := by
  induction ds generalizing object r with
  | nil =>
    rw [memberPath, List.foldl_nil, h]
    exact (bind_pure r).symm
  | cons d ds ih =>
    obtain ⟨hd, hds⟩ := List.forall_mem_cons.1 hds
    have hstep : ∀ site, env.eval site (.member object d) =
        r >>= fun v => env.subscript v (.int (positionOf d)) := by
      intro site
      rw [eval, h]
      cases r with
      | error e => rfl
      | ok v =>
        obtain ⟨items, rfl, -⟩ := hlists v rfl
        exact member_digits site hd
    have hnext : ∀ w, (r >>= fun v => env.subscript v (.int (positionOf d))) = .ok w → ListsAlong ds w := by
      intro w hw
      obtain ⟨v, hv, hsubscript⟩ := Result.bind_eq_ok hw
      exact listsAlong_step hd (hlists v hv) hsubscript
    rw [memberPath, List.foldl_cons, ← memberPath, ih hds hstep hnext, bind_assoc]
    rfl

theorem evalPipeline_of_walk {site : Site} {base : Expr} (hds : ∀ d ∈ ds, Writable (.integer d))
    (hlists : ListsAlong ds v) (h : env.eval (site.child 0) base = env.walk v ds) :
    env.evalPipeline site ⟨base, []⟩ = (env.walk v ds).map .defined := by
  cases hw : env.walk v ds with
  | ok w =>
    rw [evalPipeline_defined (h.trans hw), evalFilters]
    rfl
  | error e =>
    -- a position out of range is no missing name, so the failure stands
    obtain ⟨raw, length, rfl⟩ := walk_error hds hlists hw
    rw [evalPipeline, evalBase, h, hw]
    rfl

theorem eval_name (h : env.scope.get? x = some v) (site : Site) : env.eval site (.name x) = .ok v := by
  rw [eval, lookup, h]

theorem evalPipeline_dotted (hds : ∀ d ∈ ds, Writable (.integer d)) (hx : env.scope.get? x = some v)
    (hlists : ListsAlong ds v) (site : Site) :
    env.evalPipeline site ⟨memberPath (.name x) ds, []⟩ = (env.walk v ds).map .defined := by
  apply evalPipeline_of_walk hds hlists
  apply eval_memberPath hds (eval_name hx)
  intro w hw
  obtain rfl := Except.ok.inj hw
  exact hlists

theorem evalPipeline_bracketed (hds : ∀ d ∈ ds, Writable (.integer d)) (hx : env.scope.get? x = some v)
    (hlists : ListsAlong ds v) (site : Site) :
    env.evalPipeline site ⟨subscriptPath (.name x) ds, []⟩ = (env.walk v ds).map .defined :=
  evalPipeline_of_walk hds hlists (eval_subscriptPath (eval_name hx) _)

end Env

namespace Engine

theorem evaluate_of_walk {e : Engine} {host : Host} {scope : Scope} {source : String} {p : Pipeline}
    {r : Result Value} (hp : Pipeline.parse source = .ok p)
    (h : (e.env host scope).evalPipeline ⟨0, []⟩ p = r.map .defined) : e.evaluate host scope source = r := by
  rw [evaluate, hp]
  show ((e.env host scope).evalPipeline ⟨0, []⟩ p >>= Outcome.value) = r
  rw [h]
  cases r <;> rfl

/-- Digits behind dots are subscripts: each is cut off as a whole number, and where the path runs through
lists, it has the value, or the failure, of the same path in brackets. -/
theorem evaluate_dotted {x : String} {ds : List String} (hx : Writable (.name x))
    (hds : ∀ d ∈ ds, Writable (.integer d)) :
    (∃ ts, lex (dotted x ds) = .ok ts ∧ ts.map Token.lexeme = .name x :: dotLexemes ds) ∧
    (∃ p q, Pipeline.parse (dotted x ds) = .ok p ∧ Pipeline.parse (bracketed x ds) = .ok q ∧
      ∀ (env : Env) (v : Value), env.scope.get? x = some v → ListsAlong ds v → ∀ site,
        env.evalPipeline site p = (env.walk v ds).map .defined ∧
        env.evalPipeline site q = (env.walk v ds).map .defined) ∧
    ∀ (e : Engine) (host : Host) (scope : Scope) (v : Value),
      (e.env host scope).scope.get? x = some v → ListsAlong ds v →
      e.evaluate host scope (dotted x ds) = e.evaluate host scope (bracketed x ds) ∧
      e.evaluate host scope (dotted x ds) = (e.env host scope).walk v ds := by
  have hp := Pipeline.parse_dotted hx hds
  have hq := Pipeline.parse_bracketed hx hds
  refine ⟨lex_dotted hx hds, ⟨_, _, hp, hq, ?_⟩, ?_⟩
  · intro env v hv hlists site
    exact ⟨Env.evalPipeline_dotted hds hv hlists site, Env.evalPipeline_bracketed hds hv hlists site⟩
  · intro e host scope v hv hlists
    have hdotted := evaluate_of_walk hp (Env.evalPipeline_dotted hds hv hlists _)
    have hbracketed := evaluate_of_walk hq (Env.evalPipeline_bracketed hds hv hlists _)
    exact ⟨hdotted.trans hbracketed.symm, hdotted⟩

/-- A path that could be taken for a number with a point, with zeros in front, and one step too many. -/
theorem evaluate_dotted_nested :
    let scope : Scope := .ofEntries (.ofList [("x", .list [.null, .list [.list [.int 5]]])])
    Engine.new.evaluate .bare scope "x.1.00.0" = .ok (.int 5) ∧
      Engine.new.evaluate .bare scope "x[1][00][0]" = .ok (.int 5) ∧
      Engine.new.evaluate .bare scope "x.1.7" = .error (.index (.outOfRange 7 1)) := by
  intro scope
  have hx : Writable (.name "x") := ⟨asciiName_cons (c := 'x') rfl rfl, by decide⟩
  have hone : Writable (.integer "1") := ⟨by decide, List.all_eq_true.1 rfl, by decide⟩
  have hzeros : Writable (.integer "00") := ⟨by decide, List.all_eq_true.1 rfl, by decide⟩
  have hzero : Writable (.integer "0") := ⟨by decide, List.all_eq_true.1 rfl, by decide⟩
  have hseven : Writable (.integer "7") := ⟨by decide, List.all_eq_true.1 rfl, by decide⟩
  have hfound : ∀ d ∈ ["1", "00", "0"], Writable (.integer d) := by
    simp only [List.forall_mem_cons]
    exact ⟨hone, hzeros, hzero, List.forall_mem_nil _⟩
  have hlost : ∀ d ∈ ["1", "7"], Writable (.integer d) := by
    simp only [List.forall_mem_cons]
    exact ⟨hone, hseven, List.forall_mem_nil _⟩
  have hlists : ListsAlong ["1", "00", "0"] (.list [.null, .list [.list [.int 5]]]) := by
    refine ⟨_, rfl, fun w hw => ?_⟩
    obtain rfl := Option.some.inj hw
    refine ⟨_, rfl, fun w hw => ?_⟩
    obtain rfl := Option.some.inj hw
    exact ⟨_, rfl, fun w hw => trivial⟩
  have hlists' : ListsAlong ["1", "7"] (.list [.null, .list [.list [.int 5]]]) := by
    refine ⟨_, rfl, fun w hw => ?_⟩
    obtain rfl := Option.some.inj hw
    exact ⟨_, rfl, fun w hw => by cases hw⟩
  obtain ⟨hsame, hwalk⟩ := (evaluate_dotted hx hfound).2.2 Engine.new .bare scope _ rfl hlists
  obtain ⟨-, hfails⟩ := (evaluate_dotted hx hlost).2.2 Engine.new .bare scope _ rfl hlists'
  exact ⟨hwalk, hsame.symm.trans hwalk, hfails⟩

end Engine

end Stencil

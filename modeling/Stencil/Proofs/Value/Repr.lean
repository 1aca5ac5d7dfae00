import Stencil.Engine
import Stencil.Proofs.Entries
import Stencil.Proofs.Expr.Lexing
import Stencil.Proofs.Expr.Spelling

/-! The text of a value inside others, read as an expression for the value. -/
namespace Stencil

/-- Whether a string can stand in quotes as it is. -/
def quotable (s : String) : Bool := s.toList.all fun c => c != '\'' && c != '\\'

namespace Value

mutual

/-- Null, booleans, ints, and strings that can be quoted, in lists and in maps with keys that can be quoted, to
any depth. -/
def plain : Value → Bool
  | null | bool _ | int _ => true
  | string s => quotable s
  | list items => plainItems items
  | map entries => plainEntries entries
  | float _ | function _ | method .. | object _ => false

def plainItems : List Value → Bool
  | [] => true
  | v :: vs => plain v && plainItems vs

def plainEntries : Entries Value → Bool
  | ⟨names, _, value⟩ => names.attach.all fun ⟨k, hk⟩ => quotable k && plain (value k hk)

end

mutual

/-- The same value, where maps hold their entries in ascending order. -/
def inOrder : Value → Value
  | list items => list (itemsInOrder items)
  | map entries => map (.ofList (entriesInOrder entries).sorted)
  | v => v

def itemsInOrder : List Value → List Value
  | [] => []
  | v :: vs => inOrder v :: itemsInOrder vs

def entriesInOrder : Entries Value → Entries Value
  | ⟨names, distinct, value⟩ => ⟨names, distinct, fun k h => inOrder (value k h)⟩

end

theorem itemsInOrder_eq (items : List Value) : itemsInOrder items = items.map inOrder := by
  induction items with
  | nil => rfl
  | cons v vs ih => rw [itemsInOrder, ih, List.map_cons]

theorem entriesInOrder_eq (entries : Entries Value) : entriesInOrder entries = entries.map inOrder := by
  cases entries
  rw [entriesInOrder]
  rfl

theorem get?_inOrder (k : String) (entries : Entries Value) :
    Entries.get? k (.ofList (entriesInOrder entries).sorted) = (Entries.get? k entries).map inOrder := by
  rw [Entries.get?_ofList_sorted, entriesInOrder_eq, Entries.get?_map]

theorem plainItems_iff {items : List Value} : plainItems items = true ↔ ∀ v ∈ items, plain v = true := by
  induction items with
  | nil => simp [plainItems]
  | cons v vs ih => rw [plainItems, Bool.and_eq_true, ih, List.forall_mem_cons]

theorem plainEntries_iff {entries : Entries Value} : plainEntries entries = true ↔
    ∀ k v, Entries.get? k entries = some v → quotable k = true ∧ plain v = true := by
  obtain ⟨names, distinct, value⟩ := entries
  rw [plainEntries, List.all_eq_true, Entries.forall_get?]
  constructor
  · intro h k hk
    exact Bool.and_eq_true_iff.1 (h ⟨k, hk⟩ (List.mem_attach ..))
  · intro h k _
    exact Bool.and_eq_true_iff.2 (h k.1 k.2)

/-- Putting the entries of maps in order leaves a plain value plain. -/
theorem plain_inOrder (v : Value) (h : v.plain = true) : v.inOrder.plain = true := by
  induction v using byParts with
  | list items ih =>
    rw [inOrder, plain, itemsInOrder_eq, plainItems_iff, List.forall_mem_map]
    exact fun v hv => ih v hv (plainItems_iff.1 h v hv)
  | map entries ih =>
    rw [inOrder, plain, plainEntries_iff]
    intro k w hw
    rw [get?_inOrder, Option.map_eq_some_iff] at hw
    obtain ⟨v, hv, rfl⟩ := hw
    obtain ⟨hkey, hplain⟩ := plainEntries_iff.1 h k v hv
    exact ⟨hkey, ih k v hv hplain⟩
  | _ => exact h

theorem sameItems_inOrder {items : List Value} (h : ∀ v ∈ items, same v.inOrder v = true) :
    sameItems (itemsInOrder items) items = true := by
  induction items with
  | nil => rfl
  | cons v vs ih =>
    obtain ⟨hv, hvs⟩ := List.forall_mem_cons.1 h
    exact Bool.and_eq_true_iff.2 ⟨hv, ih hvs⟩

/-- A plain value equals itself with the entries of its maps in order. -/
theorem same_inOrder (v : Value) (h : v.plain = true) : same v.inOrder v = true := by
  induction v using byParts with
  | null => rfl
  | bool b => exact beq_self_eq_true b
  | int n => exact beq_self_eq_true n
  | string s => exact beq_self_eq_true s
  | list items ih => exact sameItems_inOrder fun v hv => ih v hv (plainItems_iff.1 h v hv)
  | map entries ih =>
    rw [inOrder, same, sameEntries_iff, Entries.length_ofList_sorted]
    refine ⟨by rw [entriesInOrder_eq]; rfl, fun k w hw => ?_⟩
    rw [get?_inOrder, Option.map_eq_some_iff] at hw
    obtain ⟨v, hv, rfl⟩ := hw
    exact ⟨v, hv, ih k v hv (plainEntries_iff.1 h k v hv).2⟩
  | float | function | method | object => cases h

end Value

/-- A text that is cut into the lexemes of an expression whose value is `v` everywhere. -/
def Denotes (cs : List Char) (v : Value) : Prop :=
  ∃ xs e, LexesAs cs xs ∧ Parser.Spells xs e ∧ ∀ (env : Env) (site : Site), env.eval site e = .ok v

theorem denotes_literal {l : Literal} (hl : l.unsigned = true) {cs : List Char}
    (h : LexesAs cs [l.lexeme]) : Denotes cs l.value :=
  ⟨_, .literal l, h, (Parser.readable_literal hl).spells, fun env site => by rw [Env.eval]⟩

theorem lexesAs_quoted {s : String} (hs : quotable s = true) :
    LexesAs (Value.quoted s).toList [.string s] := by
  have hplain : ∀ c ∈ s.toList, c ≠ '\'' ∧ c ≠ '\\' := by
    intro c hc
    have hboth := List.all_eq_true.1 hs c hc
    simpa using hboth
  have hlist : (Value.quoted s).toList = '\'' :: (s.toList ++ ['\'']) := by
    simp [Value.quoted]
  have hlexes := lexesAs_string hplain
  rwa [← hlist, String.ofList_toList] at hlexes

theorem denotes_string {s : String} (hs : quotable s = true) :
    Denotes (Value.quoted s).toList (.string s) :=
  denotes_literal (l := .string s) rfl (lexesAs_quoted hs)

theorem denotes_bool (b : Bool) : Denotes (Value.bool b).repr.toList (.bool b) := by
  cases b with
  | true => exact denotes_literal (l := .bool true) rfl (lexesAs_constant .true)
  | false => exact denotes_literal (l := .bool false) rfl (lexesAs_constant .false)

theorem denotes_null : Denotes Value.null.repr.toList .null :=
  denotes_literal (l := .null) rfl (lexesAs_constant .none)

theorem toInt_neg {n : Int64} (hn : n ≠ Int64.minValue) : (-n).toInt = -n.toInt := by
  have hne : n.toInt ≠ -2 ^ 63 := fun h => hn (Int64.toInt_inj.1 (h.trans Int64.toInt_minValue.symm))
  have hle := n.le_toInt
  have hlt := n.toInt_lt
  have hneg : -n = Int64.ofInt (-n.toInt) := by rw [← Int64.neg_ofInt, Int64.ofInt_toInt]
  rw [hneg]
  exact Int64.toInt_ofInt_of_le (by omega) (by omega)

theorem eval_minus {n : Int64} (hn : n ≠ Int64.minValue) (env : Env) (site : Site) :
    env.eval site (.unary .minus (.literal (.int (-n)))) = .ok (.int n) := by
  simp only [Env.eval, Literal.value, bind, Except.bind, Sign.apply, toInt_neg hn, Int.neg_neg,
    Arithmetic.exactOr_toInt]

theorem denotes_int (n : Int64) : Denotes (Value.int n).repr.toList (.int n) := by
  have hle := n.le_toInt
  have hlt := n.toInt_lt
  rw [Value.repr, Int.toString_eq_repr, Int.repr_eq_if]
  split
  · next hn =>
    exact denotes_literal (l := .int n) (by simpa [Literal.unsigned] using hn)
      (lexesAs_digits (by rw [Decimal.leastMagnitude]; omega))
  · next hn =>
    rw [String.toList_append]
    by_cases hleast : n = Int64.minValue
    · subst hleast
      exact ⟨_, _, lexesAs_negative (by decide), Parser.spells_least, fun env site => by
        rw [Env.eval]; rfl⟩
    · have hneg := toInt_neg hleast
      have hliteral : (Literal.int (-n)).unsigned = true := by
        simp only [Literal.unsigned, hneg, decide_eq_true_iff]
        omega
      have hspells : Parser.Spells (Expr.unary .minus (.literal (.int (-n)))).spell _ :=
        (Parser.readable_unary (Parser.readable_literal hliteral)).spells
      refine ⟨_, _, lexesAs_negative (by rw [Decimal.leastMagnitude]; omega), ?_, eval_minus hleast⟩
      rw [← hneg]
      exact hspells

theorem exists_items {items : List Value} (h : ∀ v ∈ items, Denotes v.repr.toList v.inOrder) :
    ∃ xss es, List.Forall₂ LexesAs ((Value.reprItems items).map String.toList) xss ∧
      List.Forall₂ Parser.Spells xss es ∧
      ∀ (env : Env) (site : Site) (i : Nat), env.evalAll site i es = .ok (Value.itemsInOrder items) := by
  induction items with
  | nil => exact ⟨[], [], .nil, .nil, fun env site i => by rw [Env.evalAll, Value.itemsInOrder]⟩
  | cons v vs ih =>
    obtain ⟨hv, hvs⟩ := List.forall_mem_cons.1 h
    obtain ⟨xs, e, hlexes, hspells, heval⟩ := hv
    obtain ⟨xss, es, hlexesAll, hspellsAll, hevalAll⟩ := ih hvs
    refine ⟨xs :: xss, e :: es, .cons hlexes hlexesAll, .cons hspells hspellsAll, fun env site i => ?_⟩
    rw [Env.evalAll, heval, hevalAll]
    rfl

theorem denotes_list {items : List Value} (h : ∀ v ∈ items, Denotes v.repr.toList v.inOrder) :
    Denotes (Value.list items).repr.toList (Value.list items).inOrder := by
  obtain ⟨xss, es, hlexes, hspells, heval⟩ := exists_items h
  have htext : (Value.list items).repr.toList =
      '[' :: ([',', ' '].intercalate ((Value.reprItems items).map String.toList) ++ [']']) := by
    simp [Value.repr, String.toList_intercalate]
  rw [htext]
  refine ⟨_, .list es, lexesAs_enclosed (m := .openBracket) (k := .closeBracket) (by decide) (by decide) hlexes,
    (Parser.spellsOperand_list hspells).spellsLeft.spells, fun env site => ?_⟩
  rw [Env.eval, heval]
  rfl

/-- The texts of entries in the order of a list, and their values. -/
theorem exists_entries {pairs : List (String × Value)}
    (h : ∀ e ∈ pairs, quotable e.1 = true ∧ Denotes e.2.repr.toList e.2.inOrder) :
    ∃ xss ps, List.Forall₂ LexesAs (pairs.map fun e => (Value.entryText (e.1, e.2.repr)).toList) xss ∧
      List.Forall₂ Parser.SpellsPair xss ps ∧
      ∀ (env : Env) (site : Site) (i : Nat),
        env.evalPairs site i ps = .ok (pairs.map fun e => (e.1, e.2.inOrder)) := by
  induction pairs with
  | nil => exact ⟨[], [], .nil, .nil, fun env site i => by rw [Env.evalPairs, List.map_nil]⟩
  | cons entry pairs ih =>
    obtain ⟨k, v⟩ := entry
    obtain ⟨⟨hkey, hv⟩, hpairs⟩ := List.forall_mem_cons.1 h
    obtain ⟨xs, e, hlexes, hspells, heval⟩ := hv
    obtain ⟨xss, ps, hlexesAll, hspellsAll, hevalAll⟩ := ih hpairs
    have hpair : LexesAs (Value.entryText (k, v.repr)).toList ([.string k] ++ .mark .colon :: xs) := by
      have hcolon : Mark.colon ≠ .dot := by decide
      have hvalue := hlexes.blank.mark hcolon
      have hboth := (lexesAs_quoted hkey).append hvalue (delimited_mark hcolon)
      simpa [Value.entryText, Mark.char] using hboth
    have hkeySpells : Parser.Spells [.string k] (.literal (.string k)) :=
      (Parser.readable_literal (l := .string k) rfl).spells
    refine ⟨_ :: xss, (.literal (.string k), e) :: ps, .cons hpair hlexesAll,
      .cons ⟨_, _, rfl, hkeySpells, hspells⟩ hspellsAll, fun env site i => ?_⟩
    rw [Env.evalPairs, Env.eval, heval, hevalAll]
    rfl

theorem denotes_map {entries : Entries Value} (h : ∀ k v, Entries.get? k entries = some v →
    quotable k = true ∧ Denotes v.repr.toList v.inOrder) :
    Denotes (Value.map entries).repr.toList (Value.map entries).inOrder := by
  obtain ⟨xss, ps, hlexes, hspells, heval⟩ := exists_entries fun e he => h e.1 e.2 (Entries.mem_sorted.1 he)
  have htext : (Value.map entries).repr.toList = '{' :: ([',', ' '].intercalate
      (entries.sorted.map fun e => (Value.entryText (e.1, e.2.repr)).toList) ++ ['}']) := by
    rw [Value.repr_map, Entries.sorted_map, List.map_map]
    simp [String.toList_intercalate, Function.comp_def]
  rw [htext]
  refine ⟨_, .dict ps, lexesAs_enclosed (m := .openBrace) (k := .closeBrace) (by decide) (by decide) hlexes,
    (Parser.spellsOperand_dict hspells).spellsLeft.spells, fun env site => ?_⟩
  rw [Env.eval, heval, Value.inOrder, Value.entriesInOrder_eq, Entries.sorted_map]
  rfl

/-- The text of a value is read as the value, where maps put their entries in ascending order. -/
theorem denotes_repr (v : Value) (h : v.plain = true) : Denotes v.repr.toList v.inOrder := by
  induction v using Value.byParts with
  | null => exact denotes_null
  | bool b => exact denotes_bool b
  | int n => exact denotes_int n
  | string s => exact denotes_string h
  | list items ih => exact denotes_list fun v hv => ih v hv (Value.plainItems_iff.1 h v hv)
  | map entries ih =>
    refine denotes_map fun k v hv => ?_
    obtain ⟨hkey, hplain⟩ := Value.plainEntries_iff.1 h k v hv
    exact ⟨hkey, ih k v hv hplain⟩
  | float | function | method | object => cases h

theorem parse_of_spells {source : String} {xs : List Lexeme} {e : Expr}
    (hlexes : LexesAs source.toList xs) (hspells : Parser.Spells xs e) :
    Pipeline.parse source = .ok ⟨e, []⟩ := by
  obtain ⟨ts, hts, hxs⟩ := hlexes.lexes 0
  rw [Pipeline.parse, lex, hts]
  exact Pipeline.ofTokens_of_spells hspells hxs

theorem clauseValue_of_denotes (env : Env) (depth : Nat) {source : String} {v : Value}
    (h : Denotes source.toList v) : Render.clauseValue env depth source = .ok v := by
  obtain ⟨xs, e, hlexes, hspells, heval⟩ := h
  simp only [Render.clauseValue, parse_of_spells hlexes hspells, bind, Except.bind, Env.evalStrict,
    Env.evalPipeline, Env.evalBase, heval, Env.evalFilters, Outcome.value]

namespace Engine

/-- The text of a value inside others evaluates to an equal value of the same kind. -/
theorem evaluate_repr (e : Engine) (host : Host) (scope : Scope) {v : Value} (hv : v.plain = true) :
    ∃ w, e.evaluate host scope v.repr = .ok w ∧ (w == v) = true ∧ w.plain = true :=
  ⟨v.inOrder, clauseValue_of_denotes (e.env host scope) 0 (denotes_repr v hv), v.same_inOrder hv,
    v.plain_inOrder hv⟩

theorem evaluate_repr_nested :
    let v : Value := .map (.ofList [("b", .map (.ofList [("x: y", .string "\x7d, [\"1\"]")])),
      ("a|b", .list [.int Int64.minValue, .int (-7), .null, .bool true])])
    ∃ w, Engine.new.evaluate .bare .empty v.repr = .ok w ∧ (w == v) = true ∧ w.plain = true :=
  evaluate_repr _ _ _ (by decide)

end Engine

end Stencil

import Stencil.Eval
import Stencil.Proofs.Arithmetic.Ints

/-! Lists and strings as sequences: a key selects an element from the front or from the back, and a string has
the elements of the list of its characters. -/
namespace Stencil

namespace Value

/-- The characters of a string, each a string of its own. -/
def characters (s : String) : List Value := s.toList.map ofChar

/-- A list has its items as elements, a string its characters. -/
inductive HasElements : Value → List Value → Prop
  | list (items : List Value) : HasElements (.list items) items
  | string (s : String) : HasElements (.string s) (characters s)

end Value

namespace Env

open Value

variable {env : Env} {key v : Value} {raw : Int64} {n : Nat} {es : List Value}

theorem position_front (hkey : key.asIndex? = some raw) (hle : 0 ≤ raw.toInt) (hlt : raw.toInt < n) :
    position key n = .ok raw.toInt.toNat := by
  have hnot : ¬ raw < 0 := by
    rw [Arithmetic.neg_iff_toInt]
    omega
  rw [position, hkey]
  dsimp only
  rw [if_neg hnot, if_pos ⟨hle, hlt⟩]

theorem position_back (hkey : key.asIndex? = some raw) (hle : -(n : Int) ≤ raw.toInt)
    (hlt : raw.toInt < 0) : position key n = .ok (n + raw.toInt).toNat := by
  have hneg : raw < 0 := Arithmetic.neg_iff_toInt.2 hlt
  have hin : 0 ≤ raw.toInt + n ∧ raw.toInt + n < n := by omega
  rw [position, hkey]
  dsimp only
  rw [if_pos hneg, if_pos hin, Int.add_comm]

theorem position_outside (hkey : key.asIndex? = some raw)
    (hout : raw.toInt < -(n : Int) ∨ (n : Int) ≤ raw.toInt) :
    position key n = .error (.index (.outOfRange raw.toInt n)) := by
  rw [position, hkey]
  dsimp only
  apply if_neg
  split
  · omega
  · next hnot =>
    rw [Arithmetic.neg_iff_toInt] at hnot
    omega

theorem subscript_elements (h : HasElements v es) (key : Value) :
    env.subscript v key = (position key es.length).map fun i => es.getD i .null := by
  cases h with
  | list items => rfl
  | string s =>
    have hlength : (characters s).length = s.length := by
      rw [characters, List.length_map, String.length_toList]
    rw [hlength, subscript]
    congr
    funext i
    rw [List.getD_eq_getElem?_getD, characters, List.getElem?_map]

/-- A string and the list of its characters give the same element, or the same failure, for every key. -/
theorem subscript_characters (s : String) (key : Value) :
    env.subscript (.string s) key = env.subscript (.list (characters s)) key := by
  rw [subscript_elements (.string s), subscript_elements (.list (characters s))]

theorem subscript_of_position {i : Nat} {e : Value} (h : HasElements v es)
    (hposition : position key es.length = .ok i) (he : es[i]? = some e) : env.subscript v key = .ok e := by
  rw [subscript_elements h, hposition]
  show Except.ok (es.getD i .null) = Except.ok e
  rw [List.getD_eq_getElem?_getD, he, Option.getD_some]

theorem exists_of_front (h : HasElements v es) (hkey : key.asIndex? = some raw) (hle : 0 ≤ raw.toInt)
    (hlt : raw.toInt < es.length) :
    ∃ e, es[raw.toInt.toNat]? = some e ∧ env.subscript v key = .ok e := by
  have hin : raw.toInt.toNat < es.length := by omega
  have he := List.getElem?_eq_getElem hin
  exact ⟨_, he, subscript_of_position h (position_front hkey hle hlt) he⟩

theorem exists_of_back (h : HasElements v es) (hkey : key.asIndex? = some raw)
    (hle : -(es.length : Int) ≤ raw.toInt) (hlt : raw.toInt < 0) :
    ∃ e, es[(es.length + raw.toInt).toNat]? = some e ∧ env.subscript v key = .ok e := by
  have hin : (es.length + raw.toInt).toNat < es.length := by omega
  have he := List.getElem?_eq_getElem hin
  exact ⟨_, he, subscript_of_position h (position_back hkey hle hlt) he⟩

/-- Ints add a length to a negative key without wrapping around, even one that is cut to their range. -/
theorem toInt_add_length (hneg : raw.toInt < 0) (n : Nat) :
    (raw + Int64.ofInt (clampInt n)).toInt = raw.toInt + clampInt n := by
  have hclamp : clampInt n = max (-9223372036854775808) (min 9223372036854775807 (n : Int)) := rfl
  have hbounds := toInt_bounds raw
  have hlength : (Int64.ofInt (clampInt n)).toInt = clampInt n := by
    apply Int64.toInt_ofInt_of_le <;> omega
  rw [Arithmetic.toInt_add_of_fits, hlength]
  rw [hlength, fitsInt_iff]
  omega

/-- What keys select from a value with the elements `es`: those that stand for ints select from the front, or
if negative from the back, and nothing beyond the ends. The sum of a negative key and the length, cut to the
range of ints, does not wrap around. -/
structure Indexed (env : Env) (v : Value) (es : List Value) : Prop where
  length : Filters.apply .builtin "length" v [] = .ok (.ofNat es.length)
  front : ∀ (key : Value) (raw : Int64), key.asIndex? = some raw → 0 ≤ raw.toInt →
    raw.toInt < es.length → ∃ e, es[raw.toInt.toNat]? = some e ∧ env.subscript v key = .ok e
  back : ∀ (key : Value) (raw : Int64), key.asIndex? = some raw → -(es.length : Int) ≤ raw.toInt →
    raw.toInt < 0 → ∃ e, es[(es.length + raw.toInt).toNat]? = some e ∧ env.subscript v key = .ok e
  outside : ∀ (key : Value) (raw : Int64), key.asIndex? = some raw →
    raw.toInt < -(es.length : Int) ∨ (es.length : Int) ≤ raw.toInt →
    env.subscript v key = .error (.index (.outOfRange raw.toInt es.length))
  exact : ∀ raw : Int64, raw.toInt < 0 →
    (raw + Int64.ofInt (clampInt es.length)).toInt = raw.toInt + clampInt es.length
  first : 0 < es.length → ∃ e, Filters.apply .builtin "first" v [] = .ok e ∧
    ∀ (key : Value) (raw : Int64), key.asIndex? = some raw → raw.toInt = 0 → env.subscript v key = .ok e
  last : 0 < es.length → ∃ e, Filters.apply .builtin "last" v [] = .ok e ∧
    ∀ (key : Value) (raw : Int64), key.asIndex? = some raw →
      raw.toInt = -1 ∨ raw.toInt = es.length - 1 → env.subscript v key = .ok e

theorem firstOf_elements (h : HasElements v es) : Filter.firstOf v = es[0]?.getD .null := by
  cases h with
  | list items => rw [Filter.firstOf, List.head?_eq_getElem?]
  | string s => rw [Filter.firstOf, characters, List.getElem?_map, List.head?_eq_getElem?]

theorem lastOf_elements (h : HasElements v es) : Filter.lastOf v = es[es.length - 1]?.getD .null := by
  cases h with
  | list items => rw [Filter.lastOf, List.getLast?_eq_getElem?]
  | string s =>
    rw [Filter.lastOf, characters, List.length_map, List.getElem?_map, List.getLast?_eq_getElem?]

theorem lengthOf_elements (h : HasElements v es) : Filter.lengthOf v = .ok (.ofNat es.length) := by
  cases h with
  | list items => rfl
  | string s =>
    rw [characters, List.length_map, String.length_toList]
    rfl

theorem builtin_sequence (v : Value) :
    Filters.apply .builtin "list" v [] = .ok (.list (Filter.toItems v)) ∧
    Filters.apply .builtin "length" v [] = Filter.lengthOf v ∧
    Filters.apply .builtin "first" v [] = .ok (Filter.firstOf v) ∧
    Filters.apply .builtin "last" v [] = .ok (Filter.lastOf v) := by
  refine ⟨?_, ?_, ?_, ?_⟩ <;> rfl

theorem indexed (h : HasElements v es) : env.Indexed v es where
  length := by
    obtain ⟨-, hlength, -, -⟩ := builtin_sequence v
    rw [hlength, lengthOf_elements h]
  front _ _ hkey hle hlt := exists_of_front h hkey hle hlt
  back _ _ hkey hle hlt := exists_of_back h hkey hle hlt
  outside key _ hkey hout := by
    rw [subscript_elements h, position_outside hkey hout]
    rfl
  exact _ hneg := toInt_add_length hneg es.length
  first hpos := by
    obtain ⟨-, -, hfirst, -⟩ := builtin_sequence v
    have he := List.getElem?_eq_getElem hpos
    rw [firstOf_elements h, he, Option.getD_some] at hfirst
    refine ⟨_, hfirst, ?_⟩
    intro key raw hkey hraw
    apply subscript_of_position h (position_front hkey (by omega) (by omega))
    rw [hraw]
    exact he
  last hpos := by
    obtain ⟨-, -, -, hlast⟩ := builtin_sequence v
    have hin : es.length - 1 < es.length := by omega
    have he := List.getElem?_eq_getElem hin
    rw [lastOf_elements h, he, Option.getD_some] at hlast
    refine ⟨_, hlast, ?_⟩
    rintro key raw hkey (hraw | hraw)
    · have hlast : (es.length + raw.toInt).toNat = es.length - 1 := by omega
      apply subscript_of_position h (position_back hkey (by omega) (by omega))
      rw [hlast]
      exact he
    · have hlast : raw.toInt.toNat = es.length - 1 := by omega
      apply subscript_of_position h (position_front hkey (by omega) (by omega))
      rw [hlast]
      exact he

/-! ### Pipelines -/

/-- The filters for sequences are the built-in ones. -/
def KeepsSequences (env : Env) : Prop :=
  ∀ name ∈ ["list", "length", "first", "last"],
    Entries.get? name env.filters = Entries.get? name Filters.builtin

theorem evalFilters_bare {site : Site} {name : String} {cs : List FilterCall}
    (h : Entries.get? name env.filters = Entries.get? name Filters.builtin) :
    env.evalFilters site (.defined v) (⟨name, []⟩ :: cs) = (do
      let w ← Filters.apply .builtin name v []
      env.evalFilters (site.child 1) (.defined w) cs) := by
  rw [evalFilters, h, Filters.apply]
  cases Entries.get? name Filters.builtin with
  | none => rfl
  | some f =>
    dsimp only
    rw [evalAll]
    show (do
      let o ← (f.apply v []).map Outcome.defined
      env.evalFilters (site.child 1) o cs) = _
    cases f.apply v [] <;> rfl

theorem evalPipeline_defined {site : Site} {base : Expr} (h : env.eval (site.child 0) base = .ok v)
    (cs : List FilterCall) :
    env.evalPipeline site ⟨base, cs⟩ = env.evalFilters (site.child 1) (.defined v) cs := by
  have hbase : env.evalBase site base = .ok (.defined v) := by rw [evalBase, h]
  rw [evalPipeline, hbase]
  rfl

/-- With the filter `list` in front, the filters get the list of the elements. -/
theorem evalPipeline_list {site : Site} {base : Expr} (hkeeps : env.KeepsSequences)
    (h : env.eval (site.child 0) base = .ok v) (cs : List FilterCall) :
    env.evalPipeline site ⟨base, ⟨"list", []⟩ :: cs⟩ =
      env.evalFilters ((site.child 1).child 1) (.defined (.list (Filter.toItems v))) cs := by
  have hlist := hkeeps "list" (.head _)
  rw [evalPipeline_defined h, evalFilters_bare hlist, (builtin_sequence v).1]
  rfl

/-- The filters for the length and the ends give the same for a string and for the list of its characters. -/
theorem apply_characters (s : String) {name : String} (hname : name ∈ ["length", "first", "last"]) :
    Filters.apply .builtin name (.string s) [] = Filters.apply .builtin name (.list (characters s)) [] := by
  obtain ⟨-, hlength, hfirst, hlast⟩ := builtin_sequence (.string s)
  obtain ⟨-, hlength', hfirst', hlast'⟩ := builtin_sequence (.list (characters s))
  have hs := HasElements.string s
  have hl := HasElements.list (characters s)
  simp only [List.mem_cons, List.not_mem_nil, or_false] at hname
  rcases hname with rfl | rfl | rfl
  · rw [hlength, hlength', lengthOf_elements hs, lengthOf_elements hl]
  · rw [hfirst, hfirst', firstOf_elements hs, firstOf_elements hl]
  · rw [hlast, hlast', lastOf_elements hs, lastOf_elements hl]

theorem evalPipeline_characters {site : Site} {base : Expr} {s : String} (hkeeps : env.KeepsSequences)
    (h : env.eval (site.child 0) base = .ok (.string s)) {name : String}
    (hname : name ∈ ["length", "first", "last"]) :
    env.evalPipeline site ⟨base, [⟨name, []⟩]⟩ =
      env.evalPipeline site ⟨base, [⟨"list", []⟩, ⟨name, []⟩]⟩ := by
  have hbuiltin := hkeeps name (.tail _ hname)
  rw [evalPipeline_defined h, evalPipeline_list hkeeps h, evalFilters_bare hbuiltin,
    evalFilters_bare hbuiltin, apply_characters s hname]
  rfl

end Env

end Stencil

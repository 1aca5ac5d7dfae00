import Stencil.Eval
import Stencil.Proofs.Entries

/-! Maps: membership, subscripts, attributes, methods and dict literals all read the same entries, and what
lists the entries does not tell in which order they were put in. -/
namespace Stencil

/-- What a built-in method of the receiver returns, if it has one of this name. -/
def builtinMethod? (host : Host) (receiver : Value) (name : String) (args : List Value) :
    Option (Result Value) :=
  (Functions.builtin.method? receiver name).map fun f => f.call host (receiver :: args)

namespace Env

/-- All ways to read the map `m` find the value `v` under the name `s` exactly if `has s v`, and a value as a
key stands for one name. -/
structure ReadsMap (env : Env) (m : Value) (has : String → Value → Prop) : Prop where
  isIn : ∀ k : Value, ∃ b, Operator.isIn.apply env.host k m = .ok (.bool b) ∧
    (b = true ↔ ∃ v, has k.key v)
  subscript : ∀ (k : Value) v, has k.key v → env.subscript m k = .ok v
  subscript_missing : ∀ k : Value, (∀ v, ¬ has k.key v) →
    env.subscript m k = .error (.attributeNotFound (.key k.key))
  get : ∀ (k : Value) v, has k.key v → builtinMethod? env.host m "get" [k] = some (.ok v) ∧
    ∀ d, builtinMethod? env.host m "get" [k, d] = some (.ok v)
  get_missing : ∀ k : Value, (∀ v, ¬ has k.key v) →
    builtinMethod? env.host m "get" [k] = some (.ok .null) ∧
    ∀ d, builtinMethod? env.host m "get" [k, d] = some (.ok d)
  member : ∀ site name v, has name v → env.member site m name = .ok v
  listing : ∃ es : List (String × Value), (es.map Prod.fst).Pairwise (· < ·) ∧
    (∀ s v, (s, v) ∈ es ↔ has s v) ∧
    builtinMethod? env.host m "keys" [] = some (.ok (.list (es.map fun e => .string e.1))) ∧
    builtinMethod? env.host m "values" [] = some (.ok (.list (es.map Prod.snd))) ∧
    builtinMethod? env.host m "items" [] = some (.ok (.list (es.map fun e => .list [.string e.1, e.2]))) ∧
    Filters.apply .builtin "length" m [] = .ok (.ofNat es.length)

/-- The keys and values of a dict literal come to `parts`, where the first key is the child `i` of the site. -/
def Parts (env : Env) (site : Site) : Nat → List (Expr × Expr) → List (Value × Value) → Prop
  | _, [], [] => True
  | i, (key, value) :: pairs, (k, v) :: parts =>
    env.eval (site.child i) key = .ok k ∧ env.eval (site.child (i + 1)) value = .ok v ∧
      Parts env site (i + 2) pairs parts
  | _, _, _ => False

variable {env : Env}

theorem builtin_get (host : Host) (m : Entries Value) (k : Value) :
    builtinMethod? host (.map m) "get" [k] = some (.ok ((Entries.get? k.key m).getD .null)) ∧
      ∀ d, builtinMethod? host (.map m) "get" [k, d] = some (.ok ((Entries.get? k.key m).getD d)) := by
  constructor
  · rfl
  · intro d
    rfl

theorem builtin_listing (host : Host) (m : Entries Value) :
    builtinMethod? host (.map m) "keys" [] = some (.ok (.list (m.sorted.map fun e => .string e.1))) ∧
    builtinMethod? host (.map m) "values" [] = some (.ok (.list (m.sorted.map Prod.snd))) ∧
    builtinMethod? host (.map m) "items" [] =
      some (.ok (.list (m.sorted.map fun e => .list [.string e.1, e.2]))) ∧
    Filters.apply .builtin "length" (.map m) [] = .ok (.ofNat m.length) := by
  refine ⟨?_, ?_, ?_, ?_⟩ <;> rfl

theorem readsMap_entries (m : Entries Value) :
    env.ReadsMap (.map m) fun s v => Entries.get? s m = some v where
  isIn k := by
    refine ⟨Entries.contains m k.key, rfl, ?_⟩
    rw [Entries.contains, Option.isSome_iff_exists]
  subscript k v hv := by
    rw [Env.subscript, hv]
  subscript_missing k hk := by
    rw [Env.subscript, Option.eq_none_iff_forall_ne_some.2 hk]
  get k v hv := by
    have hget := builtin_get env.host m k
    rwa [hv] at hget
  get_missing k hk := by
    have hget := builtin_get env.host m k
    rwa [Option.eq_none_iff_forall_ne_some.2 hk] at hget
  member site name v hv := by
    rw [Env.member, hv]
  listing := by
    obtain ⟨hkeys, hvalues, hitems, hlength⟩ := builtin_listing env.host m
    rw [← Entries.length_sorted] at hlength
    exact ⟨m.sorted, Entries.pairwise_sorted, fun _ _ => Entries.mem_sorted, hkeys, hvalues, hitems, hlength⟩

theorem evalPairs_of_parts {site : Site} {i : Nat} {pairs : List (Expr × Expr)}
    {parts : List (Value × Value)} (h : env.Parts site i pairs parts) :
    env.evalPairs site i pairs = .ok (parts.map fun p => (p.1.key, p.2)) := by
  induction pairs generalizing i parts with
  | nil =>
    cases parts with
    | nil => rw [Env.evalPairs, List.map_nil]
    | cons p parts => exact h.elim
  | cons pair pairs ih =>
    obtain ⟨key, value⟩ := pair
    cases parts with
    | nil => exact h.elim
    | cons p parts =>
      obtain ⟨hkey, hvalue, hrest⟩ := h
      rw [Env.evalPairs, hkey, hvalue, ih hrest]
      rfl

/-- A map that was made by putting in pairs one after the other has the last value under each name. -/
theorem readsMap_ofList (pairs : List (String × Value)) :
    env.ReadsMap (.map (Entries.ofList pairs)) (Entries.Last pairs) := by
  have hhas : (fun s v => Entries.get? s (Entries.ofList pairs) = some v) = Entries.Last pairs := by
    funext s v
    exact propext Entries.get?_ofList
  exact hhas ▸ readsMap_entries (Entries.ofList pairs)

theorem builtin_listing_congr (host : Host) {m m' : Entries Value}
    (h : ∀ s, Entries.get? s m = Entries.get? s m') : ∀ name ∈ ["keys", "values", "items"],
      builtinMethod? host (.map m) name [] = builtinMethod? host (.map m') name [] := by
  obtain ⟨hkeys, hvalues, hitems, -⟩ := builtin_listing host m
  obtain ⟨hkeys', hvalues', hitems', -⟩ := builtin_listing host m'
  have hsorted : m.sorted = m'.sorted := Entries.sorted_eq h
  simp only [List.forall_mem_cons, List.not_mem_nil, false_implies, implies_true, and_true]
  rw [hkeys, hkeys', hvalues, hvalues', hitems, hitems', hsorted]
  exact ⟨rfl, rfl, rfl⟩

/-- Maps, dict literals and maps that hold their entries in different orders: membership, subscripts, attributes,
methods and the filter for the length agree on the entries, the last pair under a name counts, and neither the
lists of keys, values and items nor the text of a map depend on the order, be it that of the map itself or of maps
inside of it. -/
theorem readsMap (env : Env) :
    (∀ m : Entries Value, env.ReadsMap (.map m) fun s v => Entries.get? s m = some v) ∧
    (∀ site pairs parts, env.Parts site 0 pairs parts → ∃ m, env.eval site (.dict pairs) = .ok m ∧
      env.ReadsMap m (Entries.Last (parts.map fun p => (p.1.key, p.2)))) ∧
    (∀ pairs s v, Entries.get? s (Entries.ofList pairs) = some v ↔ Entries.Last (α := Value) pairs s v) ∧
    ∀ m m' : Entries Value,
      ((∀ s, Entries.get? s m = Entries.get? s m') → ∀ name ∈ ["keys", "values", "items"],
        builtinMethod? env.host (.map m) name [] = builtinMethod? env.host (.map m') name []) ∧
      ((∀ s, (Entries.get? s m).map Value.repr = (Entries.get? s m').map Value.repr) →
        (Value.map m).repr = (Value.map m').repr) := by
  refine ⟨readsMap_entries, ?_, fun _ _ _ => Entries.get?_ofList, fun m m' => ⟨fun h => ?_, fun h => ?_⟩⟩
  · intro site pairs parts hparts
    refine ⟨.map (Entries.ofList (parts.map fun p => (p.1.key, p.2))), ?_, readsMap_ofList _⟩
    rw [Env.eval, evalPairs_of_parts hparts]
    rfl
  · exact builtin_listing_congr env.host h
  · have htexts : (m.map Value.repr).sorted = (m'.map Value.repr).sorted := by
      apply Entries.sorted_eq
      intro s
      rw [Entries.get?_map, Entries.get?_map, h]
    rw [Value.repr_map, Value.repr_map, htexts]

/-- An entry with the name of a method, an int and a string that are one key, and two orders. -/
theorem readsMap_collidingKeys :
    let env : Env := ⟨.bare, .builtin, .builtin, .empty⟩
    let m : Entries Value := .ofList [("1", .string "one"), ("get", .null)]
    let dict : Expr := .dict [(.literal (.int 1), .literal (.string "a")),
      (.literal (.string "1"), .literal (.string "b")), (.literal (.bool true), .literal .null)]
    let pairs : List (String × Value) := [("b", .int 1), ("a", .int 2)]
    (env.subscript (.map m) (.int 1) = .ok (.string "one") ∧
      env.member ⟨0, []⟩ (.map m) "get" = .ok .null) ∧
    (∃ m', env.eval ⟨0, []⟩ dict = .ok m' ∧ env.subscript m' (.int 1) = .ok (.string "b") ∧
      env.subscript m' (.string "2") = .error (.attributeNotFound (.key "2"))) ∧
    Entries.toList (Entries.ofList pairs) ≠ Entries.toList (Entries.ofList pairs.reverse) ∧
    (Value.map (Entries.ofList pairs)).repr = (Value.map (Entries.ofList pairs.reverse)).repr := by
  intro env m dict pairs
  obtain ⟨hentries, hdict, hlast, horder⟩ := readsMap env
  refine ⟨?_, ?_, ?_, ?_⟩
  · have hreads := hentries m
    exact ⟨hreads.subscript (.int 1) (.string "one") rfl, hreads.member _ "get" .null rfl⟩
  · obtain ⟨m', heval, hreads⟩ := hdict ⟨0, []⟩
      [(.literal (.int 1), .literal (.string "a")), (.literal (.string "1"), .literal (.string "b")),
        (.literal (.bool true), .literal .null)]
      [(.int 1, .string "a"), (.string "1", .string "b"), (.bool true, .null)]
      (by simp [Parts, Env.eval, Literal.value])
    have hone : Entries.Last [("1", Value.string "a"), ("1", .string "b"), ("true", .null)] "1" (.string "b") :=
      (hlast _ _ _).1 rfl
    have htwo (v : Value) : ¬ Entries.Last [("1", .string "a"), ("1", .string "b"), ("true", .null)] "2" v := by
      rw [← hlast]
      rintro ⟨⟩
    exact ⟨m', heval, hreads.subscript (.int 1) _ hone, hreads.subscript_missing (.string "2") htwo⟩
  · intro h
    exact absurd (List.cons.inj (congrArg (List.map Prod.fst) h)).1 (by decide)
  · refine (horder _ _).2 fun s => ?_
    have hget : Entries.get? s (Entries.ofList pairs) = Entries.get? s (Entries.ofList pairs.reverse) := by
      simp only [pairs, Entries.ofList, Entries.insertAll, List.reverse_cons, List.reverse_nil, List.nil_append,
        List.cons_append, List.foldl_cons, List.foldl_nil, Entries.get?_insert, Entries.get?_empty]
      split <;> split <;> simp_all
    rw [hget]

end Env

end Stencil

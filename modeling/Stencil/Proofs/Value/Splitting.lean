import Stencil.Proofs.Text.Occurrences
import Stencil.Proofs.Value.Maps

/-! Splitting, joining and replacing: all of them find the same separators in a string. -/
namespace Stencil

/-- The string `s` comes apart into `pieces` at the separator `p`, and what puts pieces together, be it with `p` or
with `r` between them, agrees on them. A count says how many separators are replaced from the left, if there
are so many. -/
structure Resplits (host : Host) (s p r : String) (pieces : List String) : Prop where
  apart : Text.Pieces p.toList s.toList (pieces.map String.toList)
  split : builtinMethod? host (.string s) "split" [.string p] = some (.ok (.list (pieces.map .string)))
  rejoined : Filters.apply .builtin "join" (.list (pieces.map .string)) [.string p] = .ok (.string s)
  joined : Filters.apply .builtin "join" (.list (pieces.map .string)) [.string r] =
    .ok (.string (r.intercalate pieces))
  replaced : Filters.apply .builtin "replace" (.string s) [.string p, .string r] =
    .ok (.string (r.intercalate pieces))
  method : builtinMethod? host (.string s) "replace" [.string p, .string r] =
    some (.ok (.string (r.intercalate pieces)))
  counted : ∀ n : Int64, 0 ≤ n.toInt → ∀ k, k = min n.toInt.toNat (pieces.length - 1) →
    Filters.apply .builtin "replace" (.string s) [.string p, .string r, .int n] =
      .ok (.string (r.intercalate (pieces.take k ++ [p.intercalate (pieces.drop k)])))
  enough : ∀ n : Int64, (pieces.length : Int) - 1 ≤ n.toInt →
    Filters.apply .builtin "replace" (.string s) [.string p, .string r, .int n] =
      .ok (.string (r.intercalate pieces))
  none : Filters.apply .builtin "replace" (.string s) [.string p, .string r, .int 0] = .ok (.string s)

/-- The pieces of a list come back from their join. -/
def Rejoins (host : Host) (p : String) (pieces : List String) : Prop :=
  ∃ s, Filters.apply .builtin "join" (.list (pieces.map .string)) [.string p] = .ok (.string s) ∧
    builtinMethod? host (.string s) "split" [.string p] = some (.ok (.list (pieces.map .string)))

section
variable {host : Host} {s p r : String} {pieces : List String}

theorem join_strings (r : String) (pieces : List String) :
    Filters.apply .builtin "join" (.list (pieces.map .string)) [.string r] =
      .ok (.string (r.intercalate pieces)) := by
  have hdisplay : (pieces.map Value.string).map Value.display = pieces := by
    rw [List.map_map]
    exact List.map_id pieces
  show Except.ok (Value.string (r.intercalate ((pieces.map Value.string).map Value.display))) = _
  rw [hdisplay]

theorem split_string (hp : p ≠ "") : builtinMethod? host (.string s) "split" [.string p] =
    some (.ok (.list ((Text.split p.toList s.toList).map Value.ofChars))) := congrArg some (if_neg hp)

theorem replace_counted {n : Int64} (hn : 0 ≤ n.toInt) :
    Filters.apply .builtin "replace" (.string s) [.string p, .string r, .int n] =
      .ok (.ofChars (Text.replaceUpTo n.toInt.toNat p.toList r.toList s.toList)) := if_pos hn

theorem toList_ne_nil (hp : p ≠ "") : p.toList ≠ [] := (not_congr String.toList_eq_nil_iff).2 hp

variable (hp : p ≠ "") (h : Text.Pieces p.toList s.toList (pieces.map String.toList))
include h

theorem intercalate_pieces : p.intercalate pieces = s := by
  rw [← String.toList_inj, String.toList_intercalate, h.intercalate_eq]

include hp

theorem split_pieces :
    builtinMethod? host (.string s) "split" [.string p] = some (.ok (.list (pieces.map .string))) := by
  have hstrings : (pieces.map String.toList).map Value.ofChars = pieces.map Value.string := by
    simp [Value.ofChars]
  rw [split_string hp, h.split_eq (toList_ne_nil hp), hstrings]

theorem replace_pieces (r : String) : Value.ofChars (Text.replace p.toList r.toList s.toList) =
    .string (r.intercalate pieces) := by
  rw [Text.replace_eq, h.split_eq (toList_ne_nil hp), ← String.toList_intercalate, Value.ofChars,
    String.ofList_toList]

theorem replaceUpTo_pieces (r : String) (n : Nat) {k : Nat} (hk : k = min n (pieces.length - 1)) :
    Value.ofChars (Text.replaceUpTo n p.toList r.toList s.toList) =
      .string (r.intercalate (pieces.take k ++ [p.intercalate (pieces.drop k)])) := by
  have hsplit := h.splitUpTo_eq (toList_ne_nil hp) n
  have hstrings : Text.splitUpTo n p.toList s.toList =
      (pieces.take k ++ [p.intercalate (pieces.drop k)]).map String.toList := by
    rw [hsplit, List.length_map, ← hk, List.map_append, List.map_take, List.map_singleton,
      String.toList_intercalate, List.map_drop]
  rw [Text.replaceUpTo_eq, hstrings, ← String.toList_intercalate, Value.ofChars, String.ofList_toList]

/-- Where the count covers all separators, nothing is left for the last piece. -/
theorem replaceUpTo_all (r : String) {n : Nat} (hn : pieces.length - 1 ≤ n) :
    Value.ofChars (Text.replaceUpTo n p.toList r.toList s.toList) = .string (r.intercalate pieces) := by
  have hall : Text.splitUpTo n p.toList s.toList = pieces.map String.toList :=
    h.splitUpTo_all (toList_ne_nil hp) (by rwa [List.length_map])
  rw [Text.replaceUpTo_eq, hall, ← String.toList_intercalate, Value.ofChars, String.ofList_toList]

theorem resplits (r : String) : Resplits host s p r pieces where
  apart := h
  split := split_pieces hp h
  rejoined := by rw [join_strings, intercalate_pieces h]
  joined := join_strings r pieces
  replaced := congrArg Except.ok (replace_pieces hp h r)
  method := congrArg (some ∘ Except.ok) (replace_pieces hp h r)
  counted n hn k hk := by rw [replace_counted hn, replaceUpTo_pieces hp h r _ hk]
  enough n hn := by
    have hpos : 0 < pieces.length := by
      have hne := List.length_pos_iff.2 h.ne_nil
      rwa [List.length_map] at hne
    rw [replace_counted (by omega), replaceUpTo_all hp h r (by omega)]
  none := by
    have hzero : Text.replaceUpTo 0 p.toList r.toList s.toList = s.toList := by
      rw [Text.replaceUpTo_eq, Text.splitUpTo_zero, List.intercalate_singleton]
    rw [replace_counted (by decide)]
    show Except.ok (Value.ofChars (Text.replaceUpTo 0 p.toList r.toList s.toList)) = _
    rw [hzero, Value.ofChars, String.ofList_toList]

end

/-- Splitting, joining and replacing agree for every separator that is not empty, and a separator of one character
that no piece contains leads back to the pieces. -/
theorem split_join_replace (host : Host) (p : String) :
    (p ≠ "" → ∀ s r, ∃ pieces, Resplits host s p r pieces) ∧
    (p.length = 1 → ∀ pieces : List String, pieces ≠ [] → (∀ q ∈ pieces, ¬ p.toList <:+: q.toList) →
      Rejoins host p pieces) := by
  constructor
  · intro hp s r
    obtain ⟨qs, hqs⟩ := Text.exists_pieces (toList_ne_nil hp) s.toList
    refine ⟨qs.map String.ofList, resplits hp ?_ r⟩
    simpa using hqs
  · intro hlength pieces hne hfree
    obtain ⟨c, hc⟩ : ∃ c, p.toList = [c] := List.length_eq_one_iff.1 (by rwa [String.length_toList])
    have hp : p ≠ "" := by
      rintro rfl
      cases hlength
    refine ⟨p.intercalate pieces, join_strings p pieces, split_pieces hp ?_⟩
    rw [String.toList_intercalate, hc]
    apply Text.pieces_intercalate
    · simpa using hne
    · simpa [hc] using hfree

/-- Occurrences side by side and overlapping, a replacement that contains the separator, and empty pieces at both
ends. -/
theorem split_join_replace_overlapping :
    Resplits .bare "aaaa--aaa" "aa" "<aa>" ["", "", "--", "a"] ∧
    Filters.apply .builtin "replace" (.string "aaaa--aaa") [.string "aa", .string "<aa>", .int 2] =
      .ok (.string "<aa><aa>--aaa") ∧
    Rejoins .bare "," ["", "a", "", "b", ""] := by
  obtain ⟨pieces, h⟩ := (split_join_replace .bare "aa").1 (by decide) "aaaa--aaa" "<aa>"
  have hsplit : Text.split "aa".toList "aaaa--aaa".toList = ["", "", "--", "a"].map String.toList := by
    decide +kernel
  have hsame := (h.apart.split_eq (by decide)).symm.trans hsplit
  obtain rfl := List.map_injective_iff.2 (fun _ _ => String.toList_inj.1) hsame
  refine ⟨h, h.counted 2 (by decide) 2 (by decide), ?_⟩
  apply (split_join_replace .bare ",").2 rfl
  · decide
  · decide

end Stencil

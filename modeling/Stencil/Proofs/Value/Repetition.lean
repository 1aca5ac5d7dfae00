import Stencil.Operation

/-! Repeated sequences: a sequence times an int is that many copies of it, one after the other, or is refused
because it would be too long. -/
namespace Stencil

/-- What an int repeats. -/
inductive Sequence where
  | text (s : String)
  | items (vs : List Value)

namespace Sequence

def value : Sequence → Value
  | text s => .string s
  | items vs => .list vs

/-- What messages call it. -/
def kind : Sequence → String
  | text _ => "string"
  | items _ => "list"

/-- The number of bytes of a string, of items of a list. -/
def length : Sequence → Nat
  | text s => s.utf8ByteSize
  | items vs => vs.length

/-- Copies of a sequence, one after the other. -/
def times (n : Nat) : Sequence → Sequence
  | text s => text (String.join (List.replicate n s))
  | items vs => items (List.replicate n vs).flatten

theorem join_replicate_succ (n : Nat) (s : String) :
    String.join (List.replicate (n + 1) s) = String.join (List.replicate n s) ++ s := by
  rw [List.replicate_succ', String.join, List.foldl_append]
  rfl

theorem flatten_replicate_succ {α : Type} (n : Nat) (vs : List α) :
    (List.replicate (n + 1) vs).flatten = (List.replicate n vs).flatten ++ vs := by
  rw [List.replicate_succ', List.flatten_append, List.flatten_singleton]

theorem length_times (n : Nat) (q : Sequence) : (q.times n).length = q.length * n := by
  induction n with
  | zero => cases q <;> rfl
  | succ n ih =>
    rw [Nat.mul_succ, ← ih]
    cases q with
    | text s => simp only [times, length, join_replicate_succ, String.utf8ByteSize_append]
    | items vs => simp only [times, length, flatten_replicate_succ, List.length_append]

/-- Of nothing there is only one number of copies. -/
theorem times_empty {q : Sequence} (h : q.length = 0) (n : Nat) : q.times n = q.times 0 := by
  induction n with
  | zero => rfl
  | succ n ih =>
    rw [← ih]
    cases q with
    | text s =>
      obtain rfl : s = "" := String.utf8ByteSize_eq_zero_iff.1 h
      rw [times, times, join_replicate_succ, String.append_empty]
    | items vs =>
      obtain rfl : vs = [] := List.length_eq_zero_iff.1 h
      rw [times, times, flatten_replicate_succ, List.append_nil]

theorem value_inj {q r : Sequence} (h : q.value = r.value) : q = r := by
  cases q <;> cases r <;> cases h <;> rfl

end Sequence

namespace Arithmetic

variable {length times : Nat}

theorem totalLength?_within :
    (totalLength? length times).any (· ≤ maxRepeatLength) = true ↔ length * times ≤ maxRepeatLength := by
  have hword : maxRepeatLength < UInt64.size := by decide
  rw [totalLength?]
  split
  · rw [Option.any_some, decide_eq_true_iff]
  · simp only [Option.any_none, Bool.false_eq_true, false_iff]
    omega

/-- Only a product too large for a machine word is computed wrong. -/
theorem toNat_room (length times : Nat) : (room length times).toNat = length * times % UInt64.size := by
  rw [room, UInt64.toNat_mul]
  exact (Nat.mul_mod length times UInt64.size).symm

/-- No copies are made of nothing or for a count below one, else as many as the count says, unless these are too
long. -/
theorem copies_cases (kind : String) (length : Nat) (count : Int64) :
    (copies kind length count = .ok 0 ∧ (length = 0 ∨ count.toInt ≤ 0)) ∨
    (∃ times : Nat, copies kind length count = .ok times ∧ count.toInt = times ∧ 0 < length ∧ 0 < times ∧
      length * times ≤ maxRepeatLength) ∨
    ∃ times : Nat, copies kind length count = .error (.type (.repetition kind length count.toInt)) ∧
      count.toInt = times ∧ 0 < times ∧ maxRepeatLength < length * times := by
  by_cases hnone : length = 0 ∨ count.toInt ≤ 0
  · left
    have hzero : length = 0 ∨ count.toInt.toNat = 0 := hnone.imp_right Int.toNat_of_nonpos
    rw [copies, if_pos hzero]
    exact ⟨rfl, hnone⟩
  · right
    rw [not_or, Int.not_le] at hnone
    obtain ⟨times, htimes⟩ := Int.eq_ofNat_of_zero_le (Int.le_of_lt hnone.2)
    have hpos : 0 < times := by omega
    have hnot : ¬ (length = 0 ∨ count.toInt.toNat = 0) := by omega
    rw [copies, if_neg hnot, htimes, Int.toNat_natCast]
    by_cases hlimit : length * times ≤ maxRepeatLength
    · left
      rw [if_pos (totalLength?_within.2 hlimit)]
      exact ⟨times, rfl, rfl, Nat.pos_of_ne_zero hnone.1, hpos, hlimit⟩
    · right
      rw [if_neg fun hwithin => hlimit (totalLength?_within.1 hwithin)]
      exact ⟨times, rfl, rfl, hpos, Nat.not_le.1 hlimit⟩

theorem repeat_append (s : String) (n : Nat) :
    Nat.repeat (fun t => t ++ s) n "" = String.join (List.replicate n s) := by
  induction n with
  | zero => rfl
  | succ n ih => rw [Nat.repeat, ih, Sequence.join_replicate_succ]

/-- What has been reserved makes no difference to what is put there. -/
theorem repeat_appendList (items : List Value) (n reserved : Nat) :
    (Nat.repeat (fun out : Array Value => out ++ items) n (Array.emptyWithCapacity reserved)).toList =
      (List.replicate n items).flatten := by
  induction n with
  | zero => rfl
  | succ n ih => rw [Nat.repeat, Array.toList_appendList, ih, Sequence.flatten_replicate_succ]

theorem mul_sequence (q : Sequence) (n : Int64) :
    mul q.value (.int n) = (copies q.kind q.length n).map fun k => (q.times k).value := by
  cases q with
  | text s =>
    show repeatString s n = _
    simp only [repeatString, repeat_append]
    rfl
  | items vs =>
    show repeatList vs n = _
    simp only [repeatList, repeat_appendList]
    rfl

/-- What the sequence `q` times the int `n` comes to, in terms of whole numbers without bounds. The room for the
copies is computed in machine words, and is the same. -/
structure Repeats (host : Host) (q : Sequence) (n : Int64) : Prop where
  commutes : Operator.mul.apply host (.int n) q.value = Operator.mul.apply host q.value (.int n)
  empty : n.toInt ≤ 0 ∨ q.length = 0 →
    Operator.mul.apply host q.value (.int n) = .ok (q.times 0).value
  exact : q.length * n.toInt ≤ maxRepeatLength →
    Operator.mul.apply host q.value (.int n) = .ok (q.times n.toInt.toNat).value
  refused : maxRepeatLength < q.length * n.toInt →
    Operator.mul.apply host q.value (.int n) = .error (.type (.repetition q.kind q.length n.toInt))
  length : ∀ r : Sequence, Operator.mul.apply host q.value (.int n) = .ok r.value →
    (r.length : Int) = q.length * max n.toInt 0 ∧ r.length ≤ maxRepeatLength
  reserved : ∀ k, copies q.kind q.length n = .ok k → (room q.length k).toNat = q.length * k

section
variable {host : Host} {q : Sequence} {n : Int64}

theorem commutes_mul : Operator.mul.apply host (.int n) q.value = Operator.mul.apply host q.value (.int n) := by
  cases q <;> rfl

theorem apply_mul : Operator.mul.apply host q.value (.int n) =
    (copies q.kind q.length n).map fun k => (q.times k).value := mul_sequence q n

theorem Repeats.of_made {k : Nat} (hcopies : copies q.kind q.length n = .ok k)
    (hcount : q.times k = q.times n.toInt.toNat) (hnone : n.toInt ≤ 0 ∨ q.length = 0 → q.times k = q.times 0)
    (hlimit : q.length * k ≤ maxRepeatLength) : Repeats host q n := by
  have hproduct : Operator.mul.apply host q.value (.int n) = .ok (q.times k).value := by
    rw [apply_mul, hcopies]
    rfl
  have hlength : q.length * n.toInt.toNat = q.length * k := by
    rw [← Sequence.length_times, ← Sequence.length_times, hcount]
  refine ⟨commutes_mul, fun h => ?_, fun _ => ?_, fun hbeyond => ?_, fun r hr => ?_, fun k' hk' => ?_⟩
  · rw [hproduct, hnone h]
  · rw [hproduct, hcount]
  · have hle : (q.length * n.toInt : Int) ≤ q.length * n.toInt.toNat :=
      Int.mul_le_mul_of_nonneg_left (Int.self_le_toNat _) (Int.natCast_nonneg _)
    have hlimit' : ((q.length * n.toInt.toNat : Nat) : Int) ≤ maxRepeatLength := by
      rw [hlength]
      exact Int.ofNat_le.2 hlimit
    push_cast at hlimit'
    omega
  · obtain rfl : q.times k = r := Sequence.value_inj (Except.ok.inj (hproduct.symm.trans hr))
    rw [Sequence.length_times]
    refine ⟨?_, hlimit⟩
    rw [← hlength, ← Int.ofNat_toNat]
    exact Int.natCast_mul _ _
  · obtain rfl : k = k' := Except.ok.inj (hcopies.symm.trans hk')
    have hword : maxRepeatLength < UInt64.size := by decide
    rw [toNat_room, Nat.mod_eq_of_lt (Nat.lt_of_le_of_lt hlimit hword)]

theorem Repeats.of_refused
    (hcopies : copies q.kind q.length n = .error (.type (.repetition q.kind q.length n.toInt)))
    (hbeyond : maxRepeatLength < q.length * n.toInt) : Repeats host q n := by
  have hproduct : Operator.mul.apply host q.value (.int n) =
      .error (.type (.repetition q.kind q.length n.toInt)) := by
    rw [apply_mul, hcopies]
    rfl
  refine ⟨commutes_mul, fun h => ?_, fun h => ?_, fun _ => hproduct, fun r hr => ?_, fun k hk => ?_⟩
  · have hnonpos : (q.length * n.toInt : Int) ≤ 0 := by
      rcases h with h | h
      · exact Int.mul_nonpos_of_nonneg_of_nonpos (Int.natCast_nonneg _) h
      · rw [h]
        simp
    omega
  · omega
  · rw [hproduct] at hr
    cases hr
  · rw [hcopies] at hk
    cases hk

end

/-- A sequence times an int, in either order. -/
theorem apply_mul_sequence (host : Host) (q : Sequence) (n : Int64) : Repeats host q n := by
  rcases copies_cases q.kind q.length n with ⟨hcopies, hnone⟩ | ⟨k, hcopies, hk, hlength, hpos, hlimit⟩ |
    ⟨k, hcopies, hk, -, hbeyond⟩
  · have hcount : q.times 0 = q.times n.toInt.toNat := by
      rcases hnone with hempty | hn
      · exact (Sequence.times_empty hempty _).symm
      · rw [Int.toNat_of_nonpos hn]
    exact .of_made hcopies hcount (fun _ => rfl) (Nat.zero_le _)
  · have hcount : q.times k = q.times n.toInt.toNat := by rw [hk, Int.toNat_natCast]
    exact .of_made hcopies hcount (by omega) hlimit
  · apply Repeats.of_refused hcopies
    rw [hk]
    exact_mod_cast hbeyond

/-- Exactly as long as allowed, one too long, so long that the length is beyond all machine words, and negative
and too large counts of which nothing comes. -/
theorem apply_mul_sequence_limits :
    Operator.mul.apply .bare (.string "é") (.int 8388608) =
      .ok ((Sequence.text "é").times 8388608).value ∧
    Operator.mul.apply .bare (.string "é") (.int 8388609) =
      .error (.type (.repetition "string" 2 8388609)) ∧
    Operator.mul.apply .bare (.int Int64.maxValue) (.list [.null, .null, .null]) =
      .error (.type (.repetition "list" 3 9223372036854775807)) ∧
    Operator.mul.apply .bare (.string "ab") (.int Int64.minValue) = .ok (.string "") ∧
    Operator.mul.apply .bare (.list []) (.int Int64.maxValue) = .ok (.list []) := by
  refine ⟨?_, ?_, ?_, ?_, ?_⟩
  · exact (apply_mul_sequence .bare (.text "é") 8388608).exact (by decide)
  · exact (apply_mul_sequence .bare (.text "é") 8388609).refused (by decide)
  · have hlist := apply_mul_sequence .bare (.items [.null, .null, .null]) Int64.maxValue
    exact hlist.commutes.trans (hlist.refused (by decide))
  · exact (apply_mul_sequence .bare (.text "ab") Int64.minValue).empty (.inl (by decide))
  · exact (apply_mul_sequence .bare (.items []) Int64.maxValue).empty (.inr rfl)

end Arithmetic

end Stencil

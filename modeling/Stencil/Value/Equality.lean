import Stencil.Value.Basic

/-! Equality of values, as `==` decides it. -/
namespace Stencil.Value

mutual

/-- An int equals a float of the same numeric value. Functions, methods and objects are equal only to
themselves; all other values by their structure. A method is told apart by the site where it was bound, so
that methods that a host keeps from two evaluations are equal here if they were bound at one site. -/
def same : Value → Value → Bool
  | null, null => true
  | bool a, bool b => a == b
  | int a, int b => a == b
  | float a, float b => a == b
  | int a, float b => Float.ofInt a.toInt == b
  | float a, int b => Float.ofInt b.toInt == a
  | string a, string b => a == b
  | list as, list bs => sameItems as bs
  | map as, map bs => sameEntries as bs
  | function f, function g => f.routine == g.routine
  | method _ _ s, method _ _ t => s == t
  | object o, object p => o.number == p.number
  | _, _ => false

def sameItems : List Value → List Value → Bool
  | [], [] => true
  | a :: as, b :: bs => same a b && sameItems as bs
  | _, _ => false

/-- Maps of one size are equal if the second one has an equal value under each name of the first one. -/
def sameEntries : Entries Value → Entries Value → Bool
  | ⟨names, _, value⟩, bs =>
    names.length == bs.length && names.attach.all fun k => (bs.get? k.1).any fun b => same (value k.1 k.2) b

end

instance : BEq Value := ⟨same⟩

theorem sameEntries_iff {as bs : Entries Value} : sameEntries as bs = true ↔ as.length = bs.length ∧
    ∀ k v, as.get? k = some v → ∃ w, bs.get? k = some w ∧ same v w = true := by
  obtain ⟨names, distinct, value⟩ := as
  rw [sameEntries, Bool.and_eq_true, beq_iff_eq, List.all_eq_true, Entries.forall_get?]
  refine and_congr_right fun _ => ⟨fun h k hk => ?_, fun h k _ => ?_⟩
  · exact (Option.any_eq_true ..).1 (h ⟨k, hk⟩ (List.mem_attach ..))
  · exact (Option.any_eq_true ..).2 (h k.1 k.2)

end Stencil.Value

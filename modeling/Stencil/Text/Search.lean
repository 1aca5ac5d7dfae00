/-! Occurrences of one text inside another: membership, splitting and replacing. -/
namespace Stencil.Text

/-- What follows `p` at the head of `cs`, if `cs` begins with `p`. -/
def after? : List Char → List Char → Option (List Char)
  | [], cs => some cs
  | _ :: _, [] => none
  | p :: ps, c :: cs => if p = c then after? ps cs else none

theorem length_of_after? {p cs rest : List Char} (h : after? p cs = some rest) :
    rest.length + p.length = cs.length := by
  induction p generalizing cs with
  | nil => simp_all [after?]
  | cons p ps ih =>
    cases cs with
    | nil => simp [after?] at h
    | cons c cs =>
      simp only [after?] at h
      split at h
      · have := ih h
        simp only [List.length_cons]
        omega
      · simp at h

/-- Whether `p` occurs somewhere in `cs`. -/
def occursIn (p : List Char) : List Char → Bool
  | [] => (after? p []).isSome
  | c :: cs => (after? p (c :: cs)).isSome || occursIn p cs

/-- Puts a character in front of the first piece. -/
def consHead (c : Char) : List (List Char) → List (List Char)
  | [] => [[c]]
  | q :: qs => (c :: q) :: qs

/-- Cuts before each of the first `n` characters, and at the end if `n` allows it. -/
def cutEach : Nat → List Char → List (List Char)
  | 0, cs => [cs]
  | _ + 1, [] => [[]]
  | n + 1, c :: cs => [c] :: cutEach n cs

/-- The pieces of a text between the first `n` occurrences of `p`, found from the left and not
overlapping. The empty text occurs at every boundary between characters and at both ends. -/
def splitUpTo (n : Nat) (p cs : List Char) : List (List Char) :=
  match n, p, cs with
  | 0, _, cs => [cs]
  | n + 1, [], cs => [] :: cutEach n cs
  | _ + 1, _ :: _, [] => [[]]
  | n + 1, d :: ds, c :: cs =>
    match h : after? (d :: ds) (c :: cs) with
    | some rest => [] :: splitUpTo n (d :: ds) rest
    | none => consHead c (splitUpTo (n + 1) (d :: ds) cs)
termination_by cs.length
decreasing_by
  · have := length_of_after? h
    simp only [List.length_cons] at this ⊢
    omega
  · simp

/-- The pieces of a text between all occurrences of `p`. -/
def split (p cs : List Char) : List (List Char) := splitUpTo (cs.length + 1) p cs

/-- Copies a text and writes `new` behind each of the first `n` characters. -/
def copyEach (new : List Char) : Nat → List Char → List Char
  | 0, cs => cs
  | _ + 1, [] => []
  | n + 1, c :: cs => c :: (new ++ copyEach new n cs)

/-- Copies a text and writes `new` in place of the first `n` occurrences of `old`, found from the left
and not overlapping. -/
def replaceUpTo (n : Nat) (old new cs : List Char) : List Char :=
  match n, old, cs with
  | 0, _, cs => cs
  | n + 1, [], cs => new ++ copyEach new n cs
  | _ + 1, _ :: _, [] => []
  | n + 1, d :: ds, c :: cs =>
    match h : after? (d :: ds) (c :: cs) with
    | some rest => new ++ replaceUpTo n (d :: ds) new rest
    | none => c :: replaceUpTo (n + 1) (d :: ds) new cs
termination_by cs.length
decreasing_by
  · have := length_of_after? h
    simp only [List.length_cons] at this ⊢
    omega
  · simp

/-- Writes `new` in place of every occurrence of `old`. -/
def replace (old new cs : List Char) : List Char := replaceUpTo (cs.length + 1) old new cs

end Stencil.Text

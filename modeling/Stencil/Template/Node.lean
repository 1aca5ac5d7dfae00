import Stencil.Template.Tag

/-! Cutting templates into pieces. A tag that is never closed is text. -/
namespace Stencil

/-- A piece of a template. -/
inductive Node where
  | text (s : String)
  | expression (source : String)
  | comment (s : String)
  | tag (t : Tag)
  deriving DecidableEq, Repr

namespace Node

def tag? : Node → Option Tag
  | tag t => some t
  | _ => none

def kind? (n : Node) : Option TagKind := n.tag?.map Tag.kind

/-- Cuts a quoted string after its closing quote. A quote after an odd number of backslashes does not
close it; `odd` tells whether the number so far is odd. -/
def cutString (quote : Char) (odd : Bool) : List Char → Option (List Char × List Char)
  | [] => none
  | c :: cs =>
    if c = quote ∧ odd = false then some ([c], cs)
    else (cutString quote (c == '\\' && !odd) cs).map fun r => (c :: r.1, r.2)

theorem append_of_cutString {quote : Char} {odd : Bool} {cs s rest : List Char}
    (h : cutString quote odd cs = some (s, rest)) : s ++ rest = cs := by
  induction cs generalizing odd s rest with
  | nil => simp [cutString] at h
  | cons c cs ih =>
    simp only [cutString] at h
    split at h
    · simp only [Option.some.injEq, Prod.mk.injEq] at h
      obtain ⟨rfl, rfl⟩ := h
      rfl
    · obtain ⟨r, hr, hs⟩ := Option.map_eq_some_iff.1 h
      simp only [Prod.mk.injEq] at hs
      obtain ⟨rfl, rfl⟩ := hs
      simp [ih hr]

/-- Cuts the interior of a tag from its closing marker. The opening marker is a brace and `inner`, the
closing one `outer` and a brace. Pairs of markers nest, and quoted strings hold none. -/
def cutInterior (inner outer : Char) (level : Nat) (cs : List Char) :
    Option (List Char × List Char) :=
  match cs with
  | [] => none
  | c :: cs =>
    if c = '\'' ∨ c = '"' then
      match _h : cutString c false cs with
      | none => none
      | some (s, rest) =>
        (cutInterior inner outer level rest).map fun r => (c :: s ++ r.1, r.2)
    else if c = '{' ∧ cs.head? = some inner then
      (cutInterior inner outer (level + 1) cs.tail).map fun r => (c :: inner :: r.1, r.2)
    else if c = outer ∧ cs.head? = some '}' then
      match level with
      | 0 => some ([], cs.tail)
      | level + 1 => (cutInterior inner outer level cs.tail).map fun r => (c :: '}' :: r.1, r.2)
    else (cutInterior inner outer level cs).map fun r => (c :: r.1, r.2)
termination_by cs.length
decreasing_by
  · have := congrArg List.length (append_of_cutString _h)
    simp only [List.length_append, List.length_cons] at this ⊢
    omega
  all_goals simp only [List.length_cons, List.length_tail]; omega

/-- Cuts the interior of a comment from the first closing marker. -/
def cutComment : List Char → Option (List Char × List Char)
  | [] => none
  | c :: cs =>
    if c = '#' ∧ cs.head? = some '}' then some ([], cs.tail)
    else (cutComment cs).map fun r => (c :: r.1, r.2)

/-- Whether a tag may begin here. -/
def opensTag : List Char → Bool
  | '{' :: c :: _ => c == '{' || c == '%' || c == '#'
  | _ => false

/-- The tag at the head of a text and what follows it. -/
def readTag? : List Char → Option (Node × List Char)
  | '{' :: '{' :: cs =>
    (cutInterior '{' '}' 0 cs).map fun r => (expression (String.ofList (Text.trim r.1)), r.2)
  | '{' :: '%' :: cs =>
    (cutInterior '%' '%' 0 cs).map fun r => (tag (Tag.parse (String.ofList r.1)), r.2)
  | '{' :: '#' :: cs => (cutComment cs).map fun r => (comment (String.ofList r.1), r.2)
  | _ => none

/-- Cuts a text before the first place where a tag may begin. -/
def cutText : List Char → List Char × List Char
  | [] => ([], [])
  | c :: cs => if opensTag (c :: cs) then ([], c :: cs) else (c :: (cutText cs).1, (cutText cs).2)

theorem length_of_cutInterior {inner outer : Char} {level : Nat} {cs : List Char}
    {r : List Char × List Char} (h : cutInterior inner outer level cs = some r) :
    r.2.length < cs.length := by
  fun_induction cutInterior inner outer level cs generalizing r with
  | case1 => simp at h
  | case2 => simp at h
  | case3 level c cs _ s rest hs ih =>
    obtain ⟨r', hr, rfl⟩ := Option.map_eq_some_iff.1 h
    have := ih hr
    have := congrArg List.length (append_of_cutString hs)
    simp only [List.length_append, List.length_cons] at *
    omega
  | case4 level c cs _ _ ih =>
    obtain ⟨r', hr, rfl⟩ := Option.map_eq_some_iff.1 h
    have := ih hr
    simp only [List.length_tail, List.length_cons] at *
    omega
  | case5 c cs _ _ _ =>
    obtain rfl := Option.some.inj h
    simp only [List.length_tail, List.length_cons]
    omega
  | case6 c cs _ _ _ level ih =>
    obtain ⟨r', hr, rfl⟩ := Option.map_eq_some_iff.1 h
    have := ih hr
    simp only [List.length_tail, List.length_cons] at *
    omega
  | case7 level c cs _ _ _ ih =>
    obtain ⟨r', hr, rfl⟩ := Option.map_eq_some_iff.1 h
    have := ih hr
    simp only [List.length_cons] at *
    omega

theorem length_of_cutComment {cs : List Char} {r : List Char × List Char}
    (h : cutComment cs = some r) : r.2.length < cs.length := by
  induction cs generalizing r with
  | nil => simp [cutComment] at h
  | cons c cs ih =>
    simp only [cutComment] at h
    split at h
    · obtain rfl := Option.some.inj h
      simp only [List.length_tail, List.length_cons]
      omega
    · obtain ⟨r', hr, rfl⟩ := Option.map_eq_some_iff.1 h
      have := ih hr
      simp only [List.length_cons]
      omega

theorem length_of_readTag? {cs : List Char} {n : Node} {rest : List Char}
    (h : readTag? cs = some (n, rest)) : rest.length < cs.length := by
  unfold readTag? at h
  split at h
  · obtain ⟨r, hr, hn⟩ := Option.map_eq_some_iff.1 h
    obtain rfl : r.2 = rest := congrArg Prod.snd hn
    have := length_of_cutInterior hr
    simp only [List.length_cons]
    omega
  · obtain ⟨r, hr, hn⟩ := Option.map_eq_some_iff.1 h
    obtain rfl : r.2 = rest := congrArg Prod.snd hn
    have := length_of_cutInterior hr
    simp only [List.length_cons]
    omega
  · obtain ⟨r, hr, hn⟩ := Option.map_eq_some_iff.1 h
    obtain rfl : r.2 = rest := congrArg Prod.snd hn
    have := length_of_cutComment hr
    simp only [List.length_cons]
    omega
  · simp at h

theorem length_cutText_le (cs : List Char) : (cutText cs).2.length ≤ cs.length := by
  induction cs with
  | nil => simp [cutText]
  | cons c cs ih =>
    simp only [cutText]
    split
    · simp
    · simp only [List.length_cons]
      omega

/-- The pieces of a template: tags where there are any, and text up to the next place where a tag may
begin. -/
def segment (cs : List Char) : List Node :=
  match cs with
  | [] => []
  | c :: cs =>
    match _h : readTag? (c :: cs) with
    | some (n, rest) => n :: segment rest
    | none => text (String.ofList (c :: (cutText cs).1)) :: segment (cutText cs).2
termination_by cs.length
decreasing_by
  · exact length_of_readTag? _h
  · have := length_cutText_le cs
    simp only [List.length_cons]
    omega

/-- The pieces of a template. -/
def ofTemplate (template : String) : List Node := segment template.toList

end Node

end Stencil

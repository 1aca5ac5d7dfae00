import Stencil.Text.Letter
import Stencil.Text.CaseTable

/-! Upper and lower case of whole texts. -/
namespace Stencil.Text

private def CaseRun.covers (r : CaseRun) (n : Nat) : Bool :=
  r.first ≤ n && n ≤ r.last && (n - r.first) % r.step == 0

/-- The full mapping of one character: its expansion if it has one, else its run, else itself. -/
def mapCase (expansions : List (Nat × List Nat)) (runs : List CaseRun) (c : Char) : List Char :=
  match expansions.lookup c.toNat with
  | some ns => ns.map Char.ofNat
  | none =>
    match runs.find? (·.covers c.toNat) with
    | some r => [Char.ofNat (c.toNat + r.shift).toNat]
    | none => [c]

def upperChar (c : Char) : List Char :=
  if c.toNat < 128 then [c.toUpper] else mapCase upperExpansions upperRuns c

def lowerChar (c : Char) : List Char :=
  if c.toNat < 128 then [c.toLower] else mapCase lowerExpansions lowerRuns c

def upper (cs : List Char) : List Char := cs.flatMap upperChar

/-- Whether the first character that case does not ignore is cased. -/
def casedNext (cs : List Char) : Bool :=
  match cs.dropWhile (fun c => inRanges caseIgnorableRanges c.toNat) with
  | [] => false
  | c :: _ => inRanges casedRanges c.toNat

/-- Lower case of one character between others; those before it are in reverse order. A capital sigma
that ends a word takes its final form. -/
def lowerBetween (before : List Char) (c : Char) (after : List Char) : List Char :=
  if c = 'Σ' then if casedNext before && !casedNext after then ['ς'] else ['σ'] else lowerChar c

/-- Lower case of `cs` after the characters `before`. Both `before` and `done`, the lower case of these,
are in reverse order. -/
def lowerFrom (before done : List Char) : List Char → List Char
  | [] => done.reverse
  | c :: cs => lowerFrom (c :: before) ((lowerBetween before c cs).reverse ++ done) cs

def lower (cs : List Char) : List Char := lowerFrom [] [] cs

/-- The first character in upper case, the others in lower case. -/
def capitalize : List Char → List Char
  | [] => []
  | c :: cs => upperChar c ++ lower cs

end Stencil.Text

import Stencil.Error
import Stencil.Text.Blank
import Stencil.Text.Case
import Stencil.Text.Letter

/-! Control tags, and the clauses of loops. -/
namespace Stencil

inductive TagKind where
  | ifTag | elifTag | elseTag | endIf | forTag | endFor | unknown
  deriving DecidableEq, Repr

namespace TagKind

def keyword : TagKind → String
  | ifTag => "if"
  | elifTag => "elif"
  | elseTag => "else"
  | endIf => "endif"
  | forTag => "for"
  | endFor => "endfor"
  | unknown => "unknown"

/-- The kind of tag that a keyword stands for. -/
def ofKeyword? : String → Option TagKind
  | "if" => some ifTag
  | "elif" => some elifTag
  | "else" => some elseTag
  | "endif" => some endIf
  | "for" => some forTag
  | "endfor" => some endFor
  | _ => none

def opens? : TagKind → Option Family
  | ifTag => some .branching
  | forTag => some .looping
  | _ => none

def closes? : TagKind → Option Family
  | endIf => some .branching
  | endFor => some .looping
  | _ => none

end TagKind

/-- The names that a loop binds in each iteration. -/
inductive LoopTarget where
  | single (name : String)
  | pair (key value : String)
  deriving DecidableEq, Repr

/-- What a loop binds, and the expression of what it runs through. -/
structure LoopClause where
  target : LoopTarget
  collection : String
  deriving DecidableEq, Repr

namespace LoopClause

/-- A name and what follows it. After the first letter any word character goes. -/
def readName? : List Char → Option (String × List Char)
  | [] => none
  | c :: cs =>
    if Text.isNameStart c then
      some (String.ofList (c :: cs.takeWhile Text.isWordChar), cs.dropWhile Text.isWordChar)
    else none

/-- A comma, with or without blanks around it, and a second name. -/
def readSecond? (cs : List Char) : Option (String × List Char) :=
  match cs.dropWhile Text.isBlank with
  | ',' :: rest => readName? (rest.dropWhile Text.isBlank)
  | _ => none

/-- One name or two, and what follows. -/
def readTarget? (cs : List Char) : Option (LoopTarget × List Char) :=
  (readName? cs).map fun (first, rest) =>
    match readSecond? rest with
    | some (second, rest') => (.pair first second, rest')
    | none => (.single first, rest)

/-- What comes after at least one blank. -/
def afterBlanks? (cs : List Char) : Option (List Char) :=
  match cs with
  | [] => none
  | c :: cs => if Text.isBlank c then some (cs.dropWhile Text.isBlank) else none

/-- What comes after the word `in`, in any letter case, with blanks on both sides. -/
def afterIn? (cs : List Char) : Option (List Char) :=
  match afterBlanks? cs with
  | some (i :: n :: rest) =>
    if (i = 'i' ∨ i = 'I') ∧ (n = 'n' ∨ n = 'N') then afterBlanks? rest else none
  | _ => none

/-- A target, the word `in` and a collection. -/
def parse (clause : String) : Result LoopClause :=
  let collection? := (readTarget? (Text.trim clause.toList)).bind fun (target, rest) =>
    (afterIn? rest).map fun collection => (target, collection)
  match collection? with
  | some (target, c :: cs) =>
    let collection := Text.trim (c :: cs)
    if collection = [] then .error (.malformedTag .noCollection)
    else .ok ⟨target, String.ofList collection⟩
  | _ => .error (.malformedTag (.badClause clause))

end LoopClause

/-- What a tag asks for. -/
inductive Directive where
  | ifTag (condition : String)
  | elifTag (condition : String)
  | elseTag
  | endIf
  | forTag (clause : String)
  | endFor
  | unknown (diagnostic : String)
  deriving DecidableEq, Repr

/-- A tag: what it asks for, and its trimmed interior as written. -/
structure Tag where
  directive : Directive
  content : String
  deriving DecidableEq, Repr

namespace Tag

def kind (t : Tag) : TagKind :=
  match t.directive with
  | .ifTag _ => .ifTag
  | .elifTag _ => .elifTag
  | .elseTag => .elseTag
  | .endIf => .endIf
  | .forTag _ => .forTag
  | .endFor => .endFor
  | .unknown _ => .unknown

/-- The condition or clause of a tag, or the diagnostic of one that is not understood. -/
def expression (t : Tag) : String :=
  match t.directive with
  | .ifTag s | .elifTag s | .forTag s | .unknown s => s
  | .elseTag | .endIf | .endFor => ""

/-- The tag in its usual spelling. -/
def source (t : Tag) : String := "\x7b% " ++ t.content ++ " %\x7d"

private def condition (kind : TagKind) (make : String → Directive) (rest : String) :
    Except String Directive :=
  if rest = "" then .error (kind.keyword ++ " tag requires a condition") else .ok (make rest)

private def bare (kind : TagKind) (directive : Directive) (rest : String) :
    Except String Directive :=
  if rest = "" then .ok directive
  else .error (kind.keyword ++ " tag does not take any arguments")

/-- The directive of a keyword and what follows it, or the reason why it is none. -/
def directiveOf (kind : TagKind) (rest : String) : Except String Directive :=
  match kind with
  | .ifTag => condition kind .ifTag rest
  | .elifTag => condition kind .elifTag rest
  | .elseTag => bare kind .elseTag rest
  | .endIf => bare kind .endIf rest
  | .endFor => bare kind .endFor rest
  | .forTag =>
    match LoopClause.parse rest with
    | .ok _ => .ok (.forTag rest)
    | .error e => .error e.message
  | .unknown => .ok (.unknown rest)

private def faulty (content reason : String) : Directive :=
  .unknown ("Error parsing tag '" ++ content ++ "': " ++ reason)

/-- Classifies the interior of a tag by its first word, in any letter case. -/
def parse (interior : String) : Tag :=
  let cs := Text.trim interior.toList
  let content := String.ofList cs
  let word := cs.takeWhile fun c => !Text.isBlank c
  let rest := String.ofList (Text.trim (cs.dropWhile fun c => !Text.isBlank c))
  if word = [] then ⟨faulty content "empty control tag", content⟩
  else
    match TagKind.ofKeyword? (String.ofList (Text.lower word)) with
    | none => ⟨.unknown content, content⟩
    | some kind =>
      match directiveOf kind rest with
      | .ok directive => ⟨directive, content⟩
      | .error reason => ⟨faulty content reason, content⟩

end Tag

end Stencil

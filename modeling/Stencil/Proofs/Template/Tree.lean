import Stencil.Template.Render

/-! Template trees: blocks inside one another as their author means them, the sequence of nodes that a
tree is written as, and its text by recursion over the tree. -/
namespace Stencil

/-- The condition of a branch, and the interior of the tag that holds it. -/
structure Guard where
  condition : String
  content : String
  deriving DecidableEq, Repr

/-- A loop tag whose clause can be read, and what the clause says. -/
structure LoopHead where
  clause : String
  content : String
  meaning : LoopClause
  parse_clause : LoopClause.parse clause = .ok meaning

/-- A piece of a template with the pieces inside it. A conditional has at least one branch; an `else`
has the interior of its tag and a body. Blocks end with the interior of the tag that closes them. -/
inductive Item where
  | text (s : String)
  | comment (s : String)
  | expression (source : String)
  | unknown (diagnostic content : String)
  | conditional (guard : Guard) (body : List Item) (elifs : List (Guard × List Item))
      (otherwise : Option (String × List Item)) (closing : String)
  | loop (head : LoopHead) (body : List Item) (closing : String)

def Guard.ifTag (g : Guard) : Tag := ⟨.ifTag g.condition, g.content⟩

def Guard.elifTag (g : Guard) : Tag := ⟨.elifTag g.condition, g.content⟩

def LoopHead.tag (h : LoopHead) : Tag := ⟨.forTag h.clause, h.content⟩

namespace Item

def elseTag (content : String) : Tag := ⟨.elseTag, content⟩

def endIfTag (content : String) : Tag := ⟨.endIf, content⟩

def endForTag (content : String) : Tag := ⟨.endFor, content⟩

mutual

/-- The nodes that an item is written as. -/
def flatten : Item → List Node
  | text s => [.text s]
  | comment s => [.comment s]
  | expression source => [.expression source]
  | unknown diagnostic content => [.tag ⟨.unknown diagnostic, content⟩]
  | conditional guard body elifs otherwise closing =>
    .tag guard.ifTag :: (flattenAll body ++ flattenElifs elifs ++ flattenElse otherwise) ++
      [.tag (endIfTag closing)]
  | loop head body closing => .tag head.tag :: flattenAll body ++ [.tag (endForTag closing)]

def flattenAll : List Item → List Node
  | [] => []
  | item :: items => flatten item ++ flattenAll items

def flattenElifs : List (Guard × List Item) → List Node
  | [] => []
  | (guard, body) :: elifs => .tag guard.elifTag :: flattenAll body ++ flattenElifs elifs

def flattenElse : Option (String × List Item) → List Node
  | none => []
  | some (content, body) => .tag (elseTag content) :: flattenAll body

end

def unknownTag? : Item → Option Tag
  | unknown diagnostic content => some ⟨.unknown diagnostic, content⟩
  | _ => none

/-- The first unknown tag of a sequence of items, those inside its blocks apart. -/
def firstUnknown? (items : List Item) : Option Tag := items.findSome? unknownTag?

/-- A branch of a conditional: its tag and its body. -/
abbrev Arm := Tag × List Item

def laterArms : List (Guard × List Item) → Option (String × List Item) → List Arm
  | [], none => []
  | [], some (content, body) => [(elseTag content, body)]
  | (guard, body) :: elifs, otherwise => (guard.elifTag, body) :: laterArms elifs otherwise

/-- The branches of a conditional in their order. -/
def arms (guard : Guard) (body : List Item) (elifs : List (Guard × List Item))
    (otherwise : Option (String × List Item)) : List Arm :=
  (guard.ifTag, body) :: laterArms elifs otherwise

/-- The failure of a block on account of the first unknown tag in its bodies. -/
def refusal? (opener : Tag) (block : Family) (bodies : List Item) : Option Error :=
  (firstUnknown? bodies).map fun t =>
    .inTag opener.source (.malformedTag (.unknownInBlock t.source block t.expression))

/-- The value of a condition or of a collection, which has to be defined. -/
def valueOf (env : Env) (depth : Nat) (source : String) : Result Value := do
  let p ← Pipeline.parse source
  match ← env.evalPipeline ⟨depth, []⟩ p with
  | .defined v | .rescued v => .ok v
  | .undefined cause => .error cause

/-- The text of an expression. One that is undefined has none, and fails if it is taken strictly. -/
def textOf (strict : Bool) (env : Env) (depth : Nat) (source : String) : Result String := do
  let p ← Pipeline.parse source
  match ← env.evalPipeline ⟨depth, []⟩ p, strict with
  | .defined v, _ | .rescued v, _ => .ok v.display
  | .undefined _, false => .ok ""
  | .undefined cause, true => .error cause

/-- Whether the condition of a tag holds. -/
def guardHolds (env : Env) (depth : Nat) (t : Tag) : Result Bool :=
  (locate t.source (valueOf env depth t.expression)).map Value.truthy

/-! ### Loops -/

/-- The items of a collection, one for each round. A map has its values as items, or pairs of key and value if the
loop has two names, in the order of an arrangement. -/
def items (a : Arrangement) : LoopTarget → Value → Result (List Value)
  | _, .null => .ok []
  | _, .list items => .ok items
  | .single _, .string s => .ok (s.toList.map fun c => .string (String.singleton c))
  | .pair .., .string _ => .error (.type .unpackCharacters)
  | .single _, .map entries => .ok ((entries.along (a.arrange entries.names)).map Prod.snd)
  | .pair .., .map entries =>
    .ok ((entries.along (a.arrange entries.names)).map fun e => .list [.string e.1, e.2])
  | _, v => .error (.notIterable (.object v.typeName))

/-- What the names of a loop stand for at an item. Two names take an item that is a list of two. -/
def names (position : Nat) : LoopTarget → Value → Result (List (String × Value))
  | .single name, item => .ok [(name, item)]
  | .pair first second, .list [v, w] => .ok [(first, v), (second, w)]
  | .pair .., item => .error (.type (.unpack item.typeName position))

/-- The names for all items, the first of which is at a position. -/
def namesFrom (target : LoopTarget) (position : Nat) : List Value → Result (List (List (String × Value)))
  | [] => .ok []
  | item :: items => do
    let here ← names position target item
    let rest ← namesFrom target (position + 1) items
    .ok (here :: rest)

/-- The rounds of a loop: its collection is evaluated once, and all of its items get their names. -/
def rounds (a : Arrangement) (env : Env) (depth : Nat) (head : LoopHead) :
    Result (List (List (String × Value))) :=
  locate head.tag.source do
    let v ← valueOf env depth head.meaning.collection
    let items ← items a head.meaning.target v
    namesFrom head.meaning.target 0 items

/-- What `loop` stands for in the round that has `before` rounds before it and `behind` rounds behind it. -/
def loopValue (before behind : Nat) : Value :=
  .map (.ofList
    [("index", .ofNat (before + 1)), ("index0", .ofNat before), ("first", .bool (before == 0)),
      ("last", .bool (behind == 0)), ("length", .ofNat (before + 1 + behind)), ("revindex", .ofNat (behind + 1)),
      ("revindex0", .ofNat behind)])

/-- The environment of a round: `loop` and the names of the round over the rest. -/
def roundEnv (env : Env) (before behind : Nat) (bound : List (String × Value)) : Env :=
  { env with scope := ⟨.ofList (("loop", loopValue before behind) :: bound) :: env.scope.frames⟩ }

/-- The texts of a body in the rounds of a loop, one behind the other, with `before` rounds before them. -/
def roundsText (body : Nat → Env → Result String) (env : Env) (before : Nat) :
    List (List (String × Value)) → Result String
  | [] => .ok ""
  | bound :: later => do
    let s ← body before (roundEnv env before later.length bound)
    let rest ← roundsText body env (before + 1) later
    .ok (s ++ rest)

/-! ### Texts -/

mutual

/-- The text of an item whose first node has the index `i`. Of a conditional the first branch whose condition holds
counts, and a loop renders its body in each round. With `vet`, a block is looked through for unknown tags before
anything in it is evaluated. -/
def render (vet strict : Bool) (order : MapOrder) (env : Env) (depth i : Nat) : Item → Result String
  | text s => .ok s
  | comment _ => .ok ""
  | expression source => locate ("\x7b\x7b " ++ source ++ " \x7d\x7d") (textOf strict env depth source)
  | unknown diagnostic content =>
    .error (.inTag (Tag.source ⟨.unknown diagnostic, content⟩)
      (.malformedTag (.unknown diagnostic)))
  | conditional guard body elifs otherwise _ =>
    match if vet then
        refusal? guard.ifTag .branching ((arms guard body elifs otherwise).flatMap Prod.snd)
      else none with
    | some e => .error e
    | none => do
      if ← guardHolds env depth guard.ifTag then
        renderAll vet strict (order.inside i 0) env (depth + 1) 0 body
      else
        renderElifs vet strict order env depth (fun j => renderElse vet strict order env depth j otherwise)
          (i + 1 + (flattenAll body).length) elifs
  | loop head body _ =>
    match if vet then refusal? head.tag .looping body else none with
    | some e => .error e
    | none => do
      let bound ← rounds (order [i]) env depth head
      roundsText (fun round env => renderAll vet strict (order.inside i round) env (depth + 1) 0 body)
        env 0 bound

def renderAll (vet strict : Bool) (order : MapOrder) (env : Env) (depth i : Nat) :
    List Item → Result String
  | [] => .ok ""
  | item :: items => do
    let s ← render vet strict order env depth i item
    let rest ← renderAll vet strict order env depth (i + item.flatten.length) items
    .ok (s ++ rest)

def renderElifs (vet strict : Bool) (order : MapOrder) (env : Env) (depth : Nat)
    (last : Nat → Result String) (i : Nat) : List (Guard × List Item) → Result String
  | [] => last i
  | (guard, body) :: elifs => do
    if ← guardHolds env depth guard.elifTag then
      renderAll vet strict (order.inside i 0) env (depth + 1) 0 body
    else renderElifs vet strict order env depth last (i + 1 + (flattenAll body).length) elifs

def renderElse (vet strict : Bool) (order : MapOrder) (env : Env) (depth i : Nat) :
    Option (String × List Item) → Result String
  | none => .ok ""
  | some (_, body) => renderAll vet strict (order.inside i 0) env (depth + 1) 0 body

end

end Item

end Stencil

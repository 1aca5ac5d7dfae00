/-! What can go wrong: causes of failure and their wording. -/
namespace Stencil

/-- The two kinds of block that tags open and close. -/
inductive Family where
  | branching | looping
  deriving DecidableEq, Repr

def Family.keyword : Family → String
  | .branching => "if"
  | .looping => "for"

/-- Why a text is no sequence of tokens. -/
inductive LexFault where
  | unterminatedString
  | unexpectedCharacter (c : Char)
  | integerOutOfRange (digits : String)
  | other (text : String)
  deriving DecidableEq, Repr

/-- The text and the position of a token that was not wanted. -/
abbrev Found := String × Nat

/-- Why a sequence of tokens is no expression. -/
inductive SyntaxFault where
  | expected (what : String) (found : Option Found)
  | trailing (found : Found)
  | noAttributeName (found : Option Found)
  | unexpectedEnd
  | unexpected (found : Found)
  | invalidInteger (digits : String)
  | notBinary (symbol : String)
  | other (text : String)
  deriving DecidableEq, Repr

/-- Why an operation rejects the types of its operands. Types are given by their names. -/
inductive TypeFault where
  | unary (symbol operand : String)
  | operands (symbol left right : String)
  | ordering (symbol left right : String)
  | orderingNaN (symbol : String)
  | substring (left : String)
  | container (type : String)
  | repetition (kind : String) (length : Nat) (count : Int)
  | index (key : String)
  | subscript (object : String)
  | unpack (item : String) (position : Nat)
  | unpackCharacters
  | other (text : String)
  deriving DecidableEq, Repr

/-- Why an index selects nothing. -/
inductive IndexFault where
  | outOfRange (raw : Int) (length : Nat)
  | other (text : String)
  deriving DecidableEq, Repr

/-- Which object lacks an ability. -/
inductive AbilityFault where
  | object (type : String)
  | other (text : String)
  deriving DecidableEq, Repr

/-- Which attribute or key is missing. -/
inductive LookupFault where
  | attribute (object name : String)
  | key (key : String)
  | item (key object : String)
  | other (text : String)
  deriving DecidableEq, Repr

inductive DivisionFault where
  | division (dividend : String)
  | modulo (dividend : String)
  | other (text : String)
  deriving DecidableEq, Repr

/-- Why a control tag cannot be used where it stands. -/
inductive TagFault where
  | unknown (diagnostic : String)
  | stray (keyword : String)
  | noCloser (keyword : String)
  | unknownInBlock (source : String) (block : Family) (diagnostic : String)
  | unexpectedInBlock (source : String) (block : Family)
  | noTagInBlock (index : Nat) (block : Family)
  | badClause (clause : String)
  | noCollection
  | other (text : String)
  deriving DecidableEq, Repr

/-- Why a function, method or filter rejects its arguments. -/
inductive CallFault where
  | notString (what type : String)
  | missing (what : String)
  | argumentNotString (index : Nat) (type : String)
  | missingArgument (index : Nat)
  | notList (type : String)
  | noLength (type : String)
  | noFallback
  | noLookupType
  | unsupportedLookup (kind : String)
  | unreadable (path reason : String)
  | noKey
  | receiverNotMap
  | receiverNotString
  | emptySeparator
  | other (text : String)
  deriving DecidableEq, Repr

/-- Why settings cannot be loaded. Formats are given by their names. -/
inductive ConfigFault where
  | unreadable (format path reason : String)
  | malformed (format : String)
  | unsuitable (format : String)
  | other (text : String)
  deriving DecidableEq, Repr

/-- A failure: its cause, inside the tags that it came through. -/
inductive Error where
  | lexical (fault : LexFault) (position : Nat)
  | syntactic (fault : SyntaxFault)
  | undefinedVariable (name : String)
  | type (fault : TypeFault)
  | index (fault : IndexFault)
  | attributeNotFound (fault : LookupFault)
  | divisionByZero (fault : DivisionFault)
  | notCallable (fault : AbilityFault)
  | notIterable (fault : AbilityFault)
  | unclosedBlock (block : Family) (index : Nat)
  | malformedTag (fault : TagFault)
  | unknownFilter (name : String)
  | call (name : String) (fault : CallFault)
  | depthLimit (limit : Nat)
  | configuration (fault : ConfigFault)
  | io (text : String)
  | inTag (location : String) (cause : Error)
  deriving DecidableEq, Repr

def LexFault.message : LexFault → String
  | .unterminatedString => "unterminated string literal"
  | .unexpectedCharacter c => "unexpected character '" ++ c.toString ++ "'"
  | .integerOutOfRange digits => "integer literal '" ++ digits ++ "' is out of range"
  | .other text => text

private def foundText (found : Found) : String :=
  "'" ++ found.1 ++ "' at position " ++ toString found.2

def SyntaxFault.message : SyntaxFault → String
  | .expected what none => "expected " ++ what ++ " but reached end of expression"
  | .expected what (some found) => "expected " ++ what ++ " but found " ++ foundText found
  | .trailing found => "unexpected trailing token " ++ foundText found
  | .noAttributeName none => "expected attribute name after '.'"
  | .noAttributeName (some found) =>
    "expected attribute name after '.' but found " ++ foundText found
  | .unexpectedEnd => "unexpected end of expression"
  | .unexpected found => "unexpected token " ++ foundText found
  | .invalidInteger digits => "invalid integer '" ++ digits ++ "'"
  | .notBinary symbol => "'" ++ symbol ++ "' is not a binary value operator"
  | .other text => text

/-- The longest string, in bytes, and the longest list that repetition may produce. -/
def maxRepeatLength : Nat := 16777216

def TypeFault.message : TypeFault → String
  | .unary symbol operand => "bad operand type for unary " ++ symbol ++ ": '" ++ operand ++ "'"
  | .operands symbol left right =>
    "unsupported operand types for " ++ symbol ++ ": '" ++ left ++ "' and '" ++ right ++ "'"
  | .ordering symbol left right =>
    "'" ++ symbol ++ "' not supported between '" ++ left ++ "' and '" ++ right ++ "'"
  | .orderingNaN symbol => "'" ++ symbol ++ "' not supported for NaN"
  | .substring left => "'in <string>' requires string as left operand, not '" ++ left ++ "'"
  | .container type => "argument of type '" ++ type ++ "' is not iterable"
  | .repetition kind length count =>
    "repeating a " ++ kind ++ " of length " ++ toString length ++ " " ++ toString count ++
      " times exceeds the limit of " ++ toString maxRepeatLength
  | .index key => "indices must be integers, not '" ++ key ++ "'"
  | .subscript object => "'" ++ object ++ "' object is not subscriptable"
  | .unpack item position =>
    "cannot unpack '" ++ item ++ "' at position " ++ toString position ++ " into 2 loop variables"
  | .unpackCharacters => "cannot unpack string characters into 2 loop variables"
  | .other text => text

def IndexFault.message : IndexFault → String
  | .outOfRange raw length =>
    "index " ++ toString raw ++ " out of range for length " ++ toString length
  | .other text => text

def AbilityFault.message (ability : String) : AbilityFault → String
  | .object type => "'" ++ type ++ "' object is not " ++ ability
  | .other text => text

def LookupFault.message : LookupFault → String
  | .attribute object name => "'" ++ object ++ "' object has no attribute '" ++ name ++ "'"
  | .key k => "key '" ++ k ++ "' not found"
  | .item k object => "key '" ++ k ++ "' not found in '" ++ object ++ "' object"
  | .other text => text

def DivisionFault.message : DivisionFault → String
  | .division dividend => dividend ++ " division by zero"
  | .modulo dividend => dividend ++ " modulo by zero"
  | .other text => text

def TagFault.message : TagFault → String
  | .unknown diagnostic => diagnostic
  | .stray keyword => "unexpected '" ++ keyword ++ "' without a matching opening tag"
  | .noCloser keyword => "'" ++ keyword ++ "' does not close a block"
  | .unknownInBlock source block diagnostic =>
    "'" ++ source ++ "' found in " ++ block.keyword ++ " structure: " ++ diagnostic
  | .unexpectedInBlock source block =>
    "unexpected '" ++ source ++ "' in " ++ block.keyword ++ " structure"
  | .noTagInBlock index block =>
    "expected a control tag at node " ++ toString index ++ " in " ++ block.keyword ++ " structure"
  | .badClause clause =>
    "for tag requires 'item in collection' or 'key, value in collection', got '" ++ clause ++ "'"
  | .noCollection => "for tag requires a collection"
  | .other text => text

def CallFault.message : CallFault → String
  | .notString what type => what ++ " must be a string, got " ++ type
  | .missing what => "missing " ++ what ++ " argument"
  | .argumentNotString index type =>
    "argument " ++ toString index ++ " must be a string, got " ++ type
  | .missingArgument index => "missing argument " ++ toString index
  | .notList type => "expected a list, got " ++ type
  | .noLength type => type ++ " has no length"
  | .noFallback => "missing default value argument"
  | .noLookupType => "missing lookup type"
  | .unsupportedLookup kind => "unsupported lookup type: " ++ kind
  | .unreadable path reason => "failed to read file " ++ path ++ ": " ++ reason
  | .noKey => "missing key argument"
  | .receiverNotMap => "receiver must be a map"
  | .receiverNotString => "receiver must be a string"
  | .emptySeparator => "empty separator"
  | .other text => text

/-- A document that does not fit is reported without the reader's own account of it. -/
def ConfigFault.message : ConfigFault → String
  | .unreadable format path reason =>
    "Failed to read " ++ format ++ " file '" ++ path ++ "': " ++ reason
  | .malformed format => "Failed to parse " ++ format
  | .unsuitable format => "Failed to deserialize settings from " ++ format
  | .other text => text

def Error.message : Error → String
  | .lexical fault position =>
    "Lex error at position " ++ toString position ++ ": " ++ fault.message
  | .syntactic fault => "Syntax error: " ++ fault.message
  | .undefinedVariable name => "Undefined variable: '" ++ name ++ "'"
  | .type fault => "Type error: " ++ fault.message
  | .index fault => "Index error: " ++ fault.message
  | .attributeNotFound fault => "Attribute not found: " ++ fault.message
  | .divisionByZero fault => "Division by zero: " ++ fault.message
  | .notCallable fault => "Not callable: " ++ fault.message "callable"
  | .notIterable fault => "Not iterable: " ++ fault.message "iterable"
  | .unclosedBlock block start =>
    "Unclosed " ++ block.keyword ++ " block starting at node " ++ toString start
  | .malformedTag fault => "Malformed control tag: " ++ fault.message
  | .unknownFilter name => "Unknown filter: '" ++ name ++ "'"
  | .call name fault => "Error in '" ++ name ++ "': " ++ fault.message
  | .depthLimit limit => "Maximum render depth of " ++ toString limit ++ " exceeded"
  | .configuration fault => "Configuration error: " ++ fault.message
  | .io text => "IO error: " ++ text
  | .inTag location cause => cause.message ++ " (in " ++ location ++ ")"

/-- The cause inside all tags. -/
def Error.root : Error → Error
  | .inTag _ cause => cause.root
  | e => e

/-- Whether the cause is a failed lookup of a variable, an attribute or a key. -/
def Error.isUndefined (e : Error) : Bool :=
  match e.root with
  | .undefinedVariable _ | .attributeNotFound _ => true
  | _ => false

/-- The result of an operation that can fail. -/
abbrev Result (α : Type) := Except Error α

theorem Result.map_eq_ok {α β : Type} {f : α → β} {x : Result α} {b : β}
    (h : x.map f = .ok b) : ∃ a, x = .ok a ∧ f a = b := by
  cases x with
  | error e => simp [Except.map] at h
  | ok a => exact ⟨a, rfl, by simpa [Except.map] using h⟩

theorem Result.map_eq_error {α β : Type} {f : α → β} {x : Result α} {e : Error}
    (h : x.map f = .error e) : x = .error e := by
  cases x with
  | error cause => simpa [Except.map] using h
  | ok a => simp [Except.map] at h

theorem Result.bind_eq_ok {α β : Type} {f : α → Result β} {x : Result α} {b : β}
    (h : x >>= f = .ok b) : ∃ a, x = .ok a ∧ f a = .ok b := by
  cases x with
  | error e => cases h
  | ok a => exact ⟨a, rfl, h⟩

theorem Result.bind_eq_error {α β : Type} {f : α → Result β} {x : Result α} {e : Error}
    (h : x >>= f = .error e) : x = .error e ∨ ∃ a, x = .ok a ∧ f a = .error e := by
  cases x with
  | error cause =>
    obtain rfl : cause = e := Except.error.inj h
    exact .inl rfl
  | ok a => exact .inr ⟨a, rfl, h⟩

/-- Adds the tag that a failure came through. -/
def locate {α : Type} (location : String) : Result α → Result α
  | .ok a => .ok a
  | .error e => .error (.inTag location e)

end Stencil

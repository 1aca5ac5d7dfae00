import Stencil.Error
import Stencil.Value.Basic

/-! What surrounds the engine: environment variables, files, and the code of host functions and
objects. -/
namespace Stencil

structure Host where
  /-- The value of an environment variable that is set. -/
  envVar? : String → Option String
  /-- The contents of a text file, or the reason why it cannot be read. -/
  fileText : String → Except String String
  /-- Runs the host function with this number. -/
  call : Nat → List Value → Result Value
  attribute? : Object → String → Option Value
  attributeNames : Object → List String
  item? : Object → Value → Option Value
  callObject : Object → List Value → Result Value

/-- A host without variables, files and attributes, all of whose code gives null. -/
def Host.bare : Host where
  envVar? _ := none
  fileText _ := .error "no files"
  call _ _ := .ok .null
  attribute? _ _ := none
  attributeNames _ := []
  item? _ _ := none
  callObject _ _ := .ok .null

end Stencil

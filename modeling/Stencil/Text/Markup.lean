/-! Text that is safe inside markup. -/
namespace Stencil.Text

/-- A character as it is written inside markup. -/
def entity : Char → List Char
  | '&' => "&amp;".toList
  | '<' => "&lt;".toList
  | '>' => "&gt;".toList
  | '"' => "&#34;".toList
  | '\'' => "&#39;".toList
  | c => [c]

/-- Replaces the five characters that markup gives a meaning by entities. -/
def escape (s : String) : String := String.ofList (s.toList.flatMap entity)

end Stencil.Text

/-! # Padding

Columns of a table are aligned by spaces on one side. A text that is wide enough stays as it is.
-/

namespace LosslessSyntax.Text

/-- As many spaces as a text lacks characters. -/
def padding (width : Nat) (text : String) : String :=
  String.ofList (List.replicate (width - text.length) ' ')

/-- A text with spaces in front. -/
def padLeft (width : Nat) (text : String) : String := padding width text ++ text

/-- A text with spaces behind. -/
def padRight (width : Nat) (text : String) : String := text ++ padding width text

end LosslessSyntax.Text

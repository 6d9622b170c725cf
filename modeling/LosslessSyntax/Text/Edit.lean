import LosslessSyntax.Failure
import LosslessSyntax.Span
import LosslessSyntax.Text.Bytes

/-! # Edits

An edit replaces a range of bytes of a text by another text. It applies only if the range lies
within the text and does not split a character; `TextEdit.apply` changes nothing otherwise.
-/

namespace LosslessSyntax

/-- The replacement of `deleted` bytes at `offset` by `inserted`. -/
structure TextEdit where
  /-- Number of bytes before the replaced range. -/
  offset : Nat
  /-- Number of bytes replaced. -/
  deleted : Nat
  /-- What they are replaced by. -/
  inserted : String
deriving DecidableEq, Repr, Inhabited

namespace TextEdit

/-- The greatest offset that can be written; a range that ends later is reported to end here. -/
def greatestOffset : Nat := 0xffffffffffffffff

/-- End of the replaced range in the old text. -/
def oldStop (edit : TextEdit) : Nat := edit.offset + edit.deleted

/-- End of the inserted text in the new text. -/
def newStop (edit : TextEdit) : Nat := edit.offset + edit.inserted.utf8ByteSize

/-- The replaced range in the old text. -/
def oldSpan (edit : TextEdit) : Span := ⟨edit.offset, edit.oldStop⟩

/-- By how many bytes the text grows; negative if it shrinks. -/
def delta (edit : TextEdit) : Int := (edit.inserted.utf8ByteSize : Int) - (edit.deleted : Int)

/-- What is wrong with applying an edit to a text. The range is checked first, then its start, then
its end. -/
def fault? (edit : TextEdit) (text : String) : Option Failure :=
  if text.utf8ByteSize < edit.oldStop then
    some (.editOutOfBounds edit.offset (min edit.oldStop greatestOffset) text.utf8ByteSize)
  else if !Text.isBoundary text edit.offset then some (.notCharBoundary edit.offset)
  else if !Text.isBoundary text edit.oldStop then some (.notCharBoundary edit.oldStop)
  else none

/-- The text after an edit whose range fits; the text itself if it does not. -/
def splice (edit : TextEdit) (text : String) : String :=
  match Text.splitBytes? edit.offset text.toList, Text.splitBytes? edit.oldStop text.toList with
  | some (front, _), some (_, back) => String.ofList (front ++ edit.inserted.toList ++ back)
  | _, _ => text

/-- The text after an edit, or why the edit does not apply. -/
def apply (edit : TextEdit) (text : String) : Except Failure String :=
  match edit.fault? text with
  | some fault => .error fault
  | none => .ok (edit.splice text)

end TextEdit

end LosslessSyntax

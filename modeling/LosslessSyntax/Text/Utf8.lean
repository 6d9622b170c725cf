import LosslessSyntax.Diagnostic.Collection
import LosslessSyntax.Text.Bytes

/-! # Decoding bytes

Bytes are cut into pieces: each well-formed UTF-8 sequence is the character it encodes, and where no
sequence is well formed, the longest beginning of one (at least one byte) is an invalid piece. An
invalid piece becomes one replacement character, which a diagnostic reports.
-/

namespace LosslessSyntax.Text

/-- The ranges in which the bytes after a lead byte have to lie, in order; `none` if no sequence
begins with the byte. The second byte is restricted where a sequence would be overlong, a surrogate
or past the last code point. -/
def trailRanges? (lead : UInt8) : Option (List (UInt8 × UInt8)) :=
  let trail := (0x80, 0xbf)
  if lead ≤ 0x7f then some []
  else if lead < 0xc2 then none
  else if lead ≤ 0xdf then some [trail]
  else if lead = 0xe0 then some [(0xa0, 0xbf), trail]
  else if lead = 0xed then some [(0x80, 0x9f), trail]
  else if lead ≤ 0xef then some [trail, trail]
  else if lead = 0xf0 then some [(0x90, 0xbf), trail, trail]
  else if lead ≤ 0xf3 then some [trail, trail, trail]
  else if lead = 0xf4 then some [(0x80, 0x8f), trail, trail]
  else none

/-- How many bytes lie in the ranges before the first that does not, or that is missing. -/
def trailCount : List (UInt8 × UInt8) → List UInt8 → Nat
  | (low, high) :: ranges, byte :: rest =>
    if low ≤ byte && byte ≤ high then trailCount ranges rest + 1 else 0
  | _, _ => 0

/-- The bits of the code point that a lead byte with so many bytes after it contributes. -/
def leadBits (lead : UInt8) : Nat → Nat
  | 0 => lead.toNat
  | 1 => lead.toNat % 0x20
  | 2 => lead.toNat % 0x10
  | _ => lead.toNat % 0x08

/-- The character that a lead byte and the bytes after it encode. -/
def decodeChar (lead : UInt8) (trail : List UInt8) : Char :=
  Char.ofNat <| trail.foldl (fun bits byte => bits * 0x40 + byte.toNat % 0x40)
    (leadBits lead trail.length)

/-- A piece of a byte sequence. -/
inductive BytePiece where
  /-- A well-formed sequence, as the character it encodes. -/
  | char (c : Char)
  /-- Bytes that begin no well-formed sequence. -/
  | invalid (bytes : List UInt8)
deriving DecidableEq, Repr

/-- The pieces of a byte sequence. -/
def bytePieces : List UInt8 → List BytePiece
  | [] => []
  | lead :: rest =>
    match trailRanges? lead with
    | none => .invalid [lead] :: bytePieces rest
    | some ranges =>
      let count := trailCount ranges rest
      let trail := rest.take count
      let piece :=
        if count = ranges.length then .char (decodeChar lead trail) else .invalid (lead :: trail)
      piece :: bytePieces (rest.drop count)
termination_by bytes => bytes.length
decreasing_by
  · simp
  · simp only [List.length_drop, List.length_cons]
    omega

/-- What stands in the text for an invalid piece. -/
def replacement : Char := '\uFFFD'

/-- The character that a piece contributes to the text. -/
def BytePiece.decoded : BytePiece → Char
  | .char c => c
  | .invalid _ => replacement

/-- A report for each invalid piece, at its replacement in a text that begins at an offset. -/
def invalidReports : Nat → List BytePiece → List Diagnostic
  | _, [] => []
  | offset, piece :: rest =>
    let stop := offset + piece.decoded.utf8Size
    match piece with
    | .char _ => invalidReports stop rest
    | .invalid _ =>
      .error .invalidUtf8 "invalid UTF-8 sequence" ⟨offset, stop⟩ :: invalidReports stop rest

/-- The text of a byte sequence, with a diagnostic for each replaced piece. -/
def decodeBytes (bytes : List UInt8) : String × Diagnostics :=
  let pieces := bytePieces bytes
  (String.ofList (pieces.map BytePiece.decoded), .ofList (invalidReports 0 pieces))

/-- The text of a byte sequence that is well formed throughout. -/
def decodeBytes? (bytes : List UInt8) : Option String :=
  let (text, reports) := decodeBytes bytes
  if reports.isEmpty then some text else none

end LosslessSyntax.Text

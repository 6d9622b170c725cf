import LosslessSyntax.Diagnostic.Collection
import LosslessSyntax.Scanner.Lexeme
import LosslessSyntax.Text.Bytes
import LosslessSyntax.Token.Basic

/-! # The scanner

A scanner stands at a place of a text and yields the tokens from there on, one at a time, the last
being a single empty token at the end of the text. It never fails: what it cannot recognise becomes
a token of its own, with a diagnostic. A scanner can be started at any place and inside any
construct, so scanning can be resumed where it stopped.
-/

namespace LosslessSyntax

/-- A place in a text from which tokens are read. -/
structure Scanner where
  /-- The text from this place on. -/
  rest : List Char
  /-- The place. -/
  position : Position
  /-- The construct that the place is inside of. -/
  mode : Mode
  /-- The greatest length of an operator. -/
  operatorLimit : Nat
  /-- Whether the token at the end of the text has been read. -/
  finished : Bool
  /-- What was found wrong so far. -/
  diagnostics : Diagnostics
deriving Repr, Inhabited

/-- The report on a faulty lexeme. -/
def LexicalFault.diagnostic (fault : LexicalFault) (span : Span) : Diagnostic :=
  match fault with
  | .unexpectedCharacter => .error .unexpectedCharacter "unexpected character" span
  | .missingName => .error .unexpectedCharacter "expected annotation name after `@`" span
  | .unterminatedString => .error .unterminatedString "unterminated string literal" span
  | .unterminatedComment => .warning .unterminatedComment "unterminated block comment" span

namespace Scanner

/-- The scanner at the beginning of a text. -/
def ofText (text : String) (operatorLimit : Nat) : Scanner :=
  ⟨text.toList, .start, .normal, operatorLimit, false, .empty⟩

/-- The scanner at an offset of a text, inside a construct. An offset past the end counts as the
end, and one inside a character as the start of the character. -/
def resume (text : String) (offset : Nat) (mode : Mode) (operatorLimit : Nat) : Scanner :=
  let (before, rest) := Text.splitWithin offset text.toList
  ⟨rest, Position.start.after before, mode, operatorLimit, false, .empty⟩

/-- The token of a lexeme read at this place. -/
def token (scanner : Scanner) (lexeme : Lexeme) : Token :=
  ⟨lexeme.kind, String.ofList lexeme.chars, scanner.position⟩

/-- The scanner after a lexeme read at this place. -/
def skip (scanner : Scanner) (lexeme : Lexeme) : Scanner :=
  { scanner with
    rest := lexeme.rest
    position := scanner.position.after lexeme.chars
    mode := lexeme.mode
    diagnostics :=
      match lexeme.fault? with
      | none => scanner.diagnostics
      | some fault => scanner.diagnostics.push (fault.diagnostic (scanner.token lexeme).span) }

/-- The next token and the scanner after it; `none` once the end has been read. -/
def next? (scanner : Scanner) : Option (Token × Scanner) :=
  if scanner.finished then none
  else
    match Lexeme.read scanner.operatorLimit scanner.mode scanner.rest with
    | some lexeme => some (scanner.token lexeme, scanner.skip lexeme)
    | none => some (⟨.eof, "", scanner.position⟩, { scanner with finished := true })

/-- The next tokens, at most `count` of them, and the scanner after them. -/
def take : Nat → Scanner → List Token × Scanner
  | 0, scanner => ([], scanner)
  | count + 1, scanner =>
    match scanner.next? with
    | none => ([], scanner)
    | some (token, next) =>
      let (tokens, last) := take count next
      (token :: tokens, last)

/-- All tokens that are left, and the scanner at the end. Every token but the last takes a
character, so there are at most as many tokens as characters, and one more. -/
def drain (scanner : Scanner) : List Token × Scanner := scanner.take (scanner.rest.length + 1)

end Scanner

/-- The tokens of a text and what is wrong with them. -/
def scan (text : String) (operatorLimit : Nat) : List Token × Diagnostics :=
  let (tokens, scanner) := (Scanner.ofText text operatorLimit).drain
  (tokens, scanner.diagnostics)

end LosslessSyntax

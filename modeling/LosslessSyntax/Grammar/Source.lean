import LosslessSyntax.Scanner.Basic

/-! # Token sources

The grammar sees the significant tokens of a text, each with a note whether a line break precedes
it. They come from a scanner that is asked for one token after the other, or from a list of tokens
that were scanned before. `TokenSource.read` says what has been taken from a source when the grammar
stands at a token: a scanner has read no further than that token, while a list is there as a whole.
-/

namespace LosslessSyntax

/-- A significant token as the grammar sees it. -/
structure Lookahead where
  /-- The token. -/
  token : Token
  /-- Whether a line break lies between the significant token before it and this one. -/
  afterBreak : Bool
deriving Repr, Inhabited

namespace Lookahead

/-- The kind of the token. -/
def kind (lookahead : Lookahead) : TokenKind := lookahead.token.kind

/-- Whether a token between two significant ones separates them by a line break. -/
def isBreak (token : Token) : Bool := token.kind.isTrivia && token.text.toList.contains '\n'

/-- The significant tokens among some tokens; `broken` tells whether a line break came before. -/
def ofTokens (broken : Bool) : List Token → List Lookahead
  | [] => []
  | token :: rest =>
    if token.kind.isSignificant then ⟨token, broken⟩ :: ofTokens false rest
    else ofTokens (broken || isBreak token) rest

end Lookahead

/-- Where the grammar takes its tokens from. -/
inductive TokenSource where
  /-- A scanner that reads each token when it is needed. -/
  | onDemand (scanner : Scanner)
  /-- Tokens that were scanned before, with what was found wrong, up to an offset. -/
  | listed (tokens : List Token) (diagnostics : Diagnostics) (stop : Nat)

namespace TokenSource

/-- A token at an offset that stands for the end of the tokens. -/
def endToken (stop : Nat) : Token := ⟨.eof, "", ⟨stop, 0, 0⟩⟩

/-- The tokens with an end, if they have none. -/
def closed (tokens : List Token) (stop : Nat) : List Token :=
  if tokens.getLast?.any (·.kind == .eof) then tokens else tokens ++ [endToken stop]

/-- All tokens of a source. -/
def tokens : TokenSource → List Token
  | onDemand scanner => scanner.drain.1
  | listed tokens _ stop => closed tokens stop

/-- Everything that is found wrong with the tokens of a source. -/
def diagnostics : TokenSource → Diagnostics
  | onDemand scanner => scanner.drain.2.diagnostics
  | listed _ diagnostics _ => diagnostics

/-- Reads tokens until a significant one that starts at an offset or later has been read. -/
def readThrough (offset : Nat) : Nat → Scanner → List Token × Scanner
  | 0, scanner => ([], scanner)
  | count + 1, scanner =>
    match scanner.next? with
    | none => ([], scanner)
    | some (token, next) =>
      if token.kind.isSignificant && offset ≤ token.start then ([token], next)
      else
        let (tokens, last) := readThrough offset count next
        (token :: tokens, last)

/-- What has been taken from a source, and what was found wrong so far, when the grammar stands at
the token that starts at an offset, or at the end of the text. -/
def read (reached : Option Nat) : TokenSource → List Token × Diagnostics
  | onDemand scanner =>
    match reached with
    | none => (scanner.drain.1, scanner.drain.2.diagnostics)
    | some offset =>
      let (tokens, last) := readThrough offset (scanner.rest.length + 1) scanner
      (tokens, last.diagnostics)
  | listed tokens diagnostics stop => (closed tokens stop, diagnostics)

end TokenSource

end LosslessSyntax

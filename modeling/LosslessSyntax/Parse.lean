import LosslessSyntax.Grammar.Program
import LosslessSyntax.Tree.Walk

/-! # Parsing

Parsing turns a text into a lossless tree and the diagnostics of the text. It never fails, except
when it is cancelled from outside.
-/

namespace LosslessSyntax

/-- A text with its tree, its diagnostics and the configuration it was parsed with. -/
structure Parse where
  text : String
  tree : Tree
  diagnostics : Diagnostics
  config : Config
deriving Inhabited

namespace Parse

/-- The tree at the beginning of the text. -/
def root (parse : Parse) : Cursor := .ofRoot parse.tree

/-- Whether some diagnostic is an error. -/
def hasErrors (parse : Parse) : Bool := parse.diagnostics.hasErrors

/-- What the grammar yields for a text, unless it halts. -/
def outcome (config : Config) (halts : Nat → Bool) (text : String) : Grammar.Outcome :=
  Grammar.runProgram config halts text.utf8ByteSize
    (.onDemand (.ofText text config.operatorLimit))

/-- Parses a text. -/
def ofText (config : Config) (text : String) : Parse :=
  let outcome := outcome config (fun _ => false) text
  ⟨text, .ofEvents outcome.tokens outcome.events, outcome.diagnostics, config⟩

/-- Parses a text unless it is cancelled. A cancelled parse stops before the next statement; a text
without statements has nothing to stop before. -/
def ofText? (config : Config) (cancelled : Bool) (text : String) : Except Failure Parse :=
  if cancelled && (outcome config (fun _ => true) text).haltedAt.isSome then .error .cancelled
  else .ok (ofText config text)

end Parse

end LosslessSyntax

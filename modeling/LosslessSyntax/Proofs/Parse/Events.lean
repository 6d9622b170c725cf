import LosslessSyntax.Parse
import LosslessSyntax.Proofs.Grammar.Markers
import LosslessSyntax.Proofs.Tree.Bracketing
import LosslessSyntax.Proofs.Tree.Gathering

/-! # The events of a parse

The rules write one list of events while nodes are begun, completed, enclosed and given up. In the end
they have written the events of one root (`exists_root_events`), which are well bracketed, whatever the
tokens are (`bracketed_runProgram`). The tree that is built from them holds
all tokens, and so does the tree of any other list of events that keeps a node open to its end
(`events_bracketed_and_lossless`).
-/

namespace LosslessSyntax.Parse

open Grammar

/-- The events of a program are those of its root. -/
theorem exists_root_events (config : Config) (halts : Nat → Bool) (textLength : Nat)
    (source : TokenSource) :
    ∃ children, (runProgram config halts textLength source).events =
      Shape.eventsOfAll [.node .root children] :=
  ⟨_, events_runProgram ..⟩

/-- The events of a program are well bracketed. -/
theorem bracketed_runProgram (config : Config) (halts : Nat → Bool) (textLength : Nat)
    (source : TokenSource) :
    Event.Bracketed (runProgram config halts textLength source).events := by
  obtain ⟨children, events⟩ := exists_root_events config halts textLength source
  rw [events]
  exact .of_root children

/-- The rules write events that are well bracketed for every program, and events that keep a node
open up to the last of them build a tree whose leaves are all tokens but the ends, in their
order. -/
theorem events_bracketed_and_lossless :
    (∀ (config : Config) (halts : Nat → Bool) (textLength : Nat) (source : TokenSource),
      Event.Bracketed (runProgram config halts textLength source).events) ∧
    ∀ (tokens : List Token) (events : List Event), Event.Rooted events →
      (Tree.ofEvents tokens events).leaves =
        (tokens.filter (·.kind != .eof)).map fun token => (token.kind, token.text) :=
  ⟨bracketed_runProgram, fun tokens _ rooted => Tree.leaves_ofEvents tokens rooted⟩

/-- A name that an operator encloses, whose own node is the outermost one and is never ended. -/
theorem events_bracketed_and_lossless_operator :
    Event.Rooted [.tombstone, .start .nameRef (some 3), .token, .finish,
      .start .binaryExpr none, .token, .start .nameRef none, .token] ∧
    (Tree.ofEvents
      [⟨.whitespace, " ", ⟨0, 1, 1⟩⟩, ⟨.ident, "a", ⟨1, 1, 2⟩⟩, ⟨.symbol, "+", ⟨2, 1, 3⟩⟩,
        ⟨.error, "$", ⟨3, 1, 4⟩⟩, ⟨.ident, "b", ⟨4, 1, 5⟩⟩, ⟨.eof, "", ⟨5, 1, 6⟩⟩]
      [.tombstone, .start .nameRef (some 3), .token, .finish,
        .start .binaryExpr none, .token, .start .nameRef none, .token]).leaves =
      [(.whitespace, " "), (.ident, "a"), (.symbol, "+"), (.error, "$"), (.ident, "b")] := by
  have rooted : Event.Rooted [.tombstone, .start .nameRef (some 3), .token, .finish,
      .start .binaryExpr none, .token, .start .nameRef none, .token] :=
    ⟨⟨_, _, rfl⟩, by decide⟩
  exact ⟨rooted, (events_bracketed_and_lossless.2 _ _ rooted).trans (by decide)⟩

end LosslessSyntax.Parse

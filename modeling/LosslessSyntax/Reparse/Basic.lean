import LosslessSyntax.Reparse.Segment

/-! # Reparsing after an edit

An edit of a parsed text is carried out in the cheapest way that is known to give the tree of the
new text: by changing one leaf, by parsing one block again, by parsing some statements again, or, if
none of these applies or the configuration has changed, by parsing everything.
-/

namespace LosslessSyntax

/-- How an edit was carried out. -/
inductive Strategy where
  | leaf
  | block
  | segment
  | full
deriving DecidableEq, Repr, Inhabited

/-- The written name of a strategy. -/
def Strategy.name : Strategy → String
  | .leaf => "token-relex"
  | .block => "block-reparse"
  | .segment => "segment-reparse"
  | .full => "full-parse"

namespace Parse

/-- The result of the cheapest strategy that applies, if one short of a full parse does. -/
def change? (old : Parse) (edit : TextEdit) (newText : String) :
    Option (Strategy × Reparse.Result) :=
  ((Reparse.changeLeaf? old edit newText).map (.leaf, ·)).or <|
    ((Reparse.changeBlock? old edit newText).map (.block, ·)).or <|
      (Reparse.changeSegment? old edit newText).map (.segment, ·)

/-- The parse of the edited text under a configuration, and how it was obtained. -/
def reparse (config : Config) (edit : TextEdit) (old : Parse) :
    Except Failure (Parse × Strategy) := do
  let newText ← edit.apply old.text
  let changed := if config = old.config then old.change? edit newText else none
  match changed with
  | some (strategy, result) => .ok (⟨newText, result.tree, result.diagnostics, config⟩, strategy)
  | none => .ok (ofText config newText, .full)

end Parse

end LosslessSyntax

import LosslessSyntax.Proofs.Reparse.Block
import LosslessSyntax.Proofs.Reparse.Strategies

/-! # Editing sessions

A session begins with the parse of a text and goes on with one edit after the other, each made to the
parse that the last one gave, under the configuration of that parse or under another one. An edit
that does not apply leaves the parse as it is. Whatever strategies are chosen on the way, the tree is
always the one that a parse of the whole text would give (`Parse.session_tree`): each of the
strategies keeps this true of one step (`Parse.Fresh.reparse`), and so does the session.
-/

namespace LosslessSyntax

/-- An edit of a session. -/
structure Revision where
  /-- The configuration to parse with; that of the parse before the edit if there is none. -/
  config? : Option Config
  /-- The edit. -/
  edit : TextEdit
deriving Inhabited

namespace Parse

/-- The tree is the one that a parse of the whole text gives. -/
def Fresh (parse : Parse) : Prop := parse.tree = (ofText parse.config parse.text).tree

/-- The configuration that a revision of a parse asks for. -/
def configOf (old : Parse) (revision : Revision) : Config := revision.config?.getD old.config

/-- What a revision answers. -/
def answer (old : Parse) (revision : Revision) : Except Failure (Parse × Strategy) :=
  old.reparse (old.configOf revision) revision.edit

/-- The parse that a session goes on with after a revision. -/
def revise (old : Parse) (revision : Revision) : Parse :=
  ((old.answer revision).toOption.map Prod.fst).getD old

/-- The parse that a session has come to. -/
def session (config : Config) (text : String) (revisions : List Revision) : Parse :=
  revisions.foldl revise (ofText config text)

variable {config : Config} {edit : TextEdit} {old new : Parse} {strategy : Strategy}

/-- A reparse that succeeds keeps trees fresh, whichever strategy it takes. -/
theorem Fresh.reparse (fresh : old.Fresh) (reparsed : old.reparse config edit = .ok (new, strategy)) :
    edit.apply old.text = .ok new.text ∧ new.config = config ∧ new.Fresh := by
  obtain ⟨newText, applies, ⟨rfl, -⟩ | ⟨result, rfl, change, rfl⟩⟩ := reparse_eq_ok reparsed
  · exact ⟨applies, rfl, rfl⟩
  refine ⟨applies, rfl, ?_⟩
  change result.tree = (ofText old.config newText).tree
  cases change with
  | leaf offset change => exact Reparse.tree_of_changeLeafAt? fresh applies change
  | block change => exact Reparse.tree_of_changeBlock? fresh applies change
  | segment change => exact Reparse.tree_of_changeSegment? fresh applies change

theorem Fresh.revise (fresh : old.Fresh) (revision : Revision) : (old.revise revision).Fresh := by
  rw [Parse.revise]
  cases answered : old.answer revision with
  | error => exact fresh
  | ok found =>
    obtain ⟨new, strategy⟩ := found
    exact (fresh.reparse answered).2.2

/-- Sessions keep trees fresh. -/
theorem fresh_session (config : Config) (text : String) (revisions : List Revision) :
    (session config text revisions).Fresh := by
  have keeps (revisions : List Revision) (old : Parse) (fresh : old.Fresh) :
      (revisions.foldl revise old).Fresh := by
    induction revisions generalizing old with
    | nil => exact fresh
    | cons first rest ih => exact ih _ (fresh.revise first)
  exact keeps revisions _ rfl

/-- At any point of a session an edit fails exactly if it does not apply to the text, and for its
reason; if it succeeds, the text is the edited one, and the tree is the one that a parse of the whole
text under the configuration that was asked for gives. -/
theorem session_tree (config : Config) (text : String) (revisions : List Revision)
    (revision : Revision) :
    let old := session config text revisions
    (∀ fault, old.answer revision = .error fault ↔ revision.edit.fault? old.text = some fault) ∧
      ∀ new strategy, old.answer revision = .ok (new, strategy) →
        revision.edit.apply old.text = .ok new.text ∧ new.config = old.configOf revision ∧
          new.tree = (ofText (old.configOf revision) new.text).tree := by
  intro old
  refine ⟨fun fault => reparse_eq_error_iff, fun new strategy answered => ?_⟩
  obtain ⟨applies, config_eq, fresh⟩ := (fresh_session config text revisions).reparse answered
  exact ⟨applies, config_eq, config_eq ▸ fresh⟩

/-- After an edit that does not apply, one that changes a leaf and one under another configuration,
an edit between the braces of a block is carried out in the block alone. -/
theorem session_tree_in_block :
    let old := session ⟨3, .empty, 4⟩ "if a \x7b b \x7d" [⟨none, ⟨99, 0, "c"⟩⟩, ⟨none, ⟨4, 0, "c"⟩⟩,
      ⟨some ⟨2, .empty, 4⟩, ⟨0, 0, " "⟩⟩]
    ∃ new, old.answer ⟨none, ⟨9, 1, "(d)"⟩⟩ = .ok (new, .block) ∧
      new.text = " if ac \x7b (d) \x7d" ∧
      new.tree = (ofText ⟨2, .empty, 4⟩ new.text).tree := by
  intro old
  have seen : (old.answer ⟨none, ⟨9, 1, "(d)"⟩⟩).toOption.map
      (fun found => (found.2, found.1.text, old.config)) =
      some (.block, " if ac \x7b (d) \x7d", ⟨2, .empty, 4⟩) := by
    decide +kernel
  obtain ⟨⟨new, strategy⟩, answered, view⟩ := exists_of_toOption_map seen
  obtain ⟨rfl, text, config⟩ : strategy = .block ∧ new.text = " if ac \x7b (d) \x7d" ∧
      old.config = ⟨2, .empty, 4⟩ := by
    simpa only [Prod.mk.injEq] using view
  have tree := ((session_tree _ _ _ _).2 new .block answered).2.2
  have asked : old.configOf ⟨none, ⟨9, 1, "(d)"⟩⟩ = ⟨2, .empty, 4⟩ := config
  exact ⟨new, answered, text, asked ▸ tree⟩

end Parse

end LosslessSyntax

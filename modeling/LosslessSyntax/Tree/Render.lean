import LosslessSyntax.Text.Quoted
import LosslessSyntax.Tree.Walk

/-! # Written forms of trees

A tree has two written forms for readers. The dump shows every node and token on a line of its own,
indented by its depth, and keeps everything. The s-expression leaves out trivia and spans.
-/

namespace LosslessSyntax.Cursor

/-- A node as its kind and span, a token as its kind, span and quoted text. -/
def line (cursor : Cursor) : String :=
  match cursor.tree with
  | .node kind _ => kind.name ++ "@" ++ cursor.span.text
  | .leaf kind text => kind.name ++ "@" ++ cursor.span.text ++ " " ++ Text.quote text

/-- The size of the trees on a stack of cursors with their depths. -/
def sizeOfLevels (stack : List (Cursor × Nat)) : Nat := sizeAll (stack.map (·.1))

/-- The lines of the trees on a stack, each indented by two spaces for each level. -/
def linesOfStack : List (Cursor × Nat) → List String
  | [] => []
  | (top, depth) :: stack =>
    (String.ofList (List.replicate (2 * depth) ' ') ++ top.line ++ "\n") ::
      linesOfStack (top.children.map (·, depth + 1) ++ stack)
termination_by stack => sizeOfLevels stack
decreasing_by
  have := sizeAll_children_lt top
  simp [sizeOfLevels, Function.comp_def]
  omega

/-- One line for each node and token, each node before what is below it. -/
def dump (cursor : Cursor) : String := String.join (linesOfStack [(cursor, 0)])

/-- What is left to write of an s-expression. -/
inductive SexprStep where
  /-- A tree. -/
  | enter (cursor : Cursor)
  /-- The end of a node. -/
  | close

namespace SexprStep

/-- How many steps it can take until a step is done. -/
def cost : SexprStep → Nat
  | .enter cursor => 2 * cursor.tree.size
  | .close => 1

/-- How many steps it can take until all of some steps are done. -/
def costAll : List SexprStep → Nat
  | [] => 0
  | first :: rest => first.cost + costAll rest

theorem costAll_enter_append (cursors : List Cursor) (steps : List SexprStep) :
    costAll (cursors.map enter ++ steps) = 2 * sizeAll cursors + costAll steps := by
  induction cursors with
  | nil => simp
  | cons first rest ih =>
    simp only [List.map_cons, List.cons_append, costAll, cost, ih, sizeAll_cons]
    omega

end SexprStep

/-- A text under construction, and whether the next piece follows without a space: at the beginning
and after an opening parenthesis. -/
structure SexprText where
  text : String
  tight : Bool

/-- The text with a piece added, after a space unless the text is tight. -/
def SexprText.add (out : SexprText) (piece : String) : SexprText :=
  let spaced := if out.tight then out.text else out.text ++ " "
  ⟨spaced ++ piece, match piece.toList.getLast? with
    | none => out.tight
    | some c => c == '('⟩

/-- The children that an s-expression shows: all but trivia. -/
def shownChildren (cursor : Cursor) : List Cursor :=
  cursor.children.filter (!·.tree.isTrivia)

/-- Writes what is left, step by step. -/
def writeSteps (out : SexprText) : List SexprStep → SexprText
  | [] => out
  | .close :: steps => writeSteps ⟨out.text ++ ")", false⟩ steps
  | .enter cursor :: steps =>
    match cursor.tree with
    | .leaf _ text => writeSteps (out.add text) steps
    | .node kind _ =>
      writeSteps ⟨(out.add ("(" ++ kind.name)).text, false⟩
        (cursor.shownChildren.map SexprStep.enter ++ .close :: steps)
termination_by steps => SexprStep.costAll steps
decreasing_by
  · simp [SexprStep.costAll, SexprStep.cost]
  · have positive : 0 < cursor.tree.size := by cases cursor.tree <;> simp [Tree.size]
    simp only [SexprStep.costAll, SexprStep.cost]
    omega
  · have smaller := sizeAll_children_lt cursor
    have kept := sizeAll_filter_le (!·.tree.isTrivia) cursor.children
    simp only [SexprStep.costAll_enter_append, SexprStep.costAll, SexprStep.cost, shownChildren]
    omega

/-- The tree without trivia: a node as its kind and children in parentheses, a token as its text,
separated by spaces except after an opening parenthesis. -/
def sexpr (cursor : Cursor) : String := (writeSteps ⟨"", true⟩ [.enter cursor]).text

end LosslessSyntax.Cursor

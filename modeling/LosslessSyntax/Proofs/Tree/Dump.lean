import LosslessSyntax.Proofs.Text.Quoted
import LosslessSyntax.Proofs.Tree.Filling
import LosslessSyntax.Tree.Render
import Mathlib.Data.List.Forall2

/-! # What the dump keeps

Each line of a dump tells the depth and the label of one tree, the kind of a node or a token with its
text (`Indented.eq`): the indentation ends where the name begins, the name at the at sign, the span
at the next blank, and a text is quoted, so the line ends at its line break. A tree is known from the
labels and the depths of all that is in it, each node before what is below it
(`Tree.eq_of_levels_eq`), since what is below a node ends where a line is no deeper than the node. So
two trees with one dump are one tree (`Cursor.dump_injective`).
-/

namespace LosslessSyntax

/-- The characters of a name: letters, at least one. -/
def IsName (text : List Char) : Prop := text ≠ [] ∧ text.all Char.isAlpha = true

namespace IsName

variable {text : List Char} (name : IsName text)
include name

theorem exists_cons : ∃ c rest, text = c :: rest ∧ c ≠ ' ' := by
  obtain ⟨c, rest, rfl⟩ := List.exists_cons_of_ne_nil name.1
  refine ⟨c, rest, rfl, fun blank => ?_⟩
  have letter := List.all_eq_true.mp name.2 c (.head _)
  rw [blank] at letter
  exact absurd letter (by decide)

theorem notMem {c : Char} (other : c.isAlpha = false) : c ∉ text := fun member =>
  Bool.false_ne_true (other.symm.trans (List.all_eq_true.mp name.2 c member))

end IsName

theorem NodeKind.isName_name (kind : NodeKind) : IsName kind.name.toList := by
  cases kind <;> exact ⟨List.cons_ne_nil _ _, rfl⟩

theorem NodeKind.ofName?_name (kind : NodeKind) : ofName? kind.name = some kind := by
  cases kind <;> rfl

theorem NodeKind.name_inj {kind other : NodeKind} (same : kind.name = other.name) : kind = other := by
  have found := ofName?_name kind
  rw [same, ofName?_name] at found
  exact (Option.some.inj found).symm

theorem TokenKind.isName_name (kind : TokenKind) : IsName kind.name.toList := by
  cases kind <;> exact ⟨List.cons_ne_nil _ _, rfl⟩

theorem TokenKind.ofName?_name (kind : TokenKind) : ofName? kind.name = some kind := by
  cases kind <;> rfl

theorem TokenKind.name_inj {kind other : TokenKind} (same : kind.name = other.name) :
    kind = other := by
  have found := ofName?_name kind
  rw [same, ofName?_name] at found
  exact (Option.some.inj found).symm

/-- Texts that go on with a mark after parts without it have the same part before it. -/
theorem eq_of_append_mark_eq {mark : Char} {front front' back back' : List Char}
    (outside : mark ∉ front) (outside' : mark ∉ front')
    (same : front ++ mark :: back = front' ++ mark :: back') : front = front' ∧ back = back' := by
  induction front generalizing front' with
  | nil =>
    cases front' with
    | nil => exact ⟨rfl, (List.cons.inj same).2⟩
    | cons c front' => exact absurd ((List.cons.inj same).1 ▸ .head _) outside'
  | cons c front ih =>
    cases front' with
    | nil => exact absurd ((List.cons.inj same).1 ▸ .head _) outside
    | cons d front' =>
      obtain ⟨rfl, others⟩ := List.cons.inj same
      obtain ⟨rfl, rest⟩ := ih (fun member => outside (.tail _ member))
        (fun member => outside' (.tail _ member)) others
      exact ⟨rfl, rest⟩

theorem eq_of_indent_eq {count count' : Nat} {c c' : Char} {text text' : List Char}
    (letter : c ≠ ' ') (letter' : c' ≠ ' ')
    (same : List.replicate count ' ' ++ c :: text = List.replicate count' ' ' ++ c' :: text') :
    count = count' ∧ c :: text = c' :: text' := by
  induction count generalizing count' with
  | zero =>
    cases count' with
    | zero => exact ⟨rfl, same⟩
    | succ count' => exact absurd (List.cons.inj same).1 letter
  | succ count ih =>
    cases count' with
    | zero => exact absurd (List.cons.inj same).1.symm letter'
    | succ count' =>
      obtain ⟨rfl, text⟩ := ih (List.cons.inj same).2
      exact ⟨rfl, text⟩

/-- Spans are written with digits and dots. -/
theorem Span.notMem_text {c : Char} (span : Span) (noDigit : c.isDigit = false) (noDot : c ≠ '.') :
    c ∉ span.text.toList := by
  have digits (number : Nat) : c ∉ Nat.toDigits 10 number := fun member => by
    have digit := Nat.isDigit_of_mem_toDigits (by decide) (by decide) member
    exact Bool.false_ne_true (noDigit.symm.trans digit)
  have written : span.text = span.start.repr ++ ".." ++ span.stop.repr := rfl
  simp [written, String.toList_append, digits, noDot]

/-- What a line of the dump tells of a tree besides its place: the kind of a node, or a token. -/
abbrev Label := NodeKind ⊕ Leaf

namespace Label

/-- The name of a kind. -/
def name : Label → List Char
  | .inl kind => kind.name.toList
  | .inr token => token.1.name.toList

/-- What a line tells after the span. -/
def quoted : Label → List Char
  | .inl _ => []
  | .inr token => ' ' :: Text.quoteChars token.2.toList

/-- The line for a label at a span. -/
def written (label : Label) (span : Span) : List Char :=
  label.name ++ '@' :: (span.text.toList ++ label.quoted)

theorem isName_name (label : Label) : IsName label.name :=
  match label with
  | .inl kind => kind.isName_name
  | .inr token => token.1.isName_name

theorem exists_written (label : Label) (span : Span) :
    ∃ c rest, label.written span = c :: rest ∧ c ≠ ' ' := by
  obtain ⟨c, rest, name, letter⟩ := label.isName_name.exists_cons
  exact ⟨c, _, by rw [written, name, List.cons_append], letter⟩

theorem newline_notMem_written (label : Label) (span : Span) : '\n' ∉ label.written span := by
  have quoted : '\n' ∉ label.quoted := by
    match label with
    | .inl kind => exact List.not_mem_nil
    | .inr token =>
      rw [Label.quoted, List.mem_cons, not_or]
      exact ⟨by decide, Text.newline_notMem_quoteChars token.2.toList⟩
  simp only [written, List.mem_append, List.mem_cons, not_or]
  exact ⟨label.isName_name.notMem (by decide), by decide, span.notMem_text (by decide) (by decide),
    quoted⟩

/-- A line tells its label. -/
theorem eq_of_written {label other : Label} {span span' : Span}
    (same : label.written span = other.written span') : label = other := by
  obtain ⟨name, rest⟩ := eq_of_append_mark_eq (label.isName_name.notMem (by decide))
    (other.isName_name.notMem (by decide)) same
  have blank (span : Span) : ' ' ∉ span.text.toList := span.notMem_text (by decide) (by decide)
  match label, other with
  | .inl kind, .inl kind' => rw [NodeKind.name_inj (String.toList_inj.mp name)]
  | .inr token, .inr token' =>
    obtain ⟨-, quoted⟩ := eq_of_append_mark_eq (blank span) (blank span') rest
    have kind : token.1 = token'.1 := TokenKind.name_inj (String.toList_inj.mp name)
    have text : token.2 = token'.2 := String.toList_inj.mp (Text.quoteChars_inj quoted)
    rw [Prod.ext kind text]
  -- Only a token has a blank after its name.
  | .inl kind, .inr token =>
    rw [quoted, List.append_nil] at rest
    exact absurd (rest ▸ List.mem_append_right _ (.head _)) (blank span)
  | .inr token, .inl kind =>
    rw [quoted, quoted, List.append_nil] at rest
    exact absurd (rest ▸ List.mem_append_right _ (.head _)) (blank span')

end Label

/-- A line of the dump, for a label at a depth. -/
def Indented (line : String) (level : Label × Nat) : Prop :=
  ∃ span, line.toList = List.replicate (2 * level.2) ' ' ++ level.1.written span ++ ['\n']

/-- A text with one line break, at its end. -/
def Ended (line : String) : Prop := ∃ text, line.toList = text ++ ['\n'] ∧ '\n' ∉ text

/-- A line tells its label and its depth. -/
theorem Indented.eq {line : String} {level other : Label × Nat} (indented : Indented line level)
    (indented' : Indented line other) : level = other := by
  obtain ⟨span, line⟩ := indented
  obtain ⟨span', line'⟩ := indented'
  have same := List.append_cancel_right (line.symm.trans line')
  obtain ⟨c, rest, written, letter⟩ := level.1.exists_written span
  obtain ⟨c', rest', written', letter'⟩ := other.1.exists_written span'
  rw [written, written'] at same
  obtain ⟨count, text⟩ := eq_of_indent_eq letter letter' same
  rw [← written, ← written'] at text
  exact Prod.ext (Label.eq_of_written text) (by omega)

theorem Indented.ended {line : String} {level : Label × Nat} (indented : Indented line level) :
    Ended line := by
  obtain ⟨span, line⟩ := indented
  refine ⟨_, line, fun member => ?_⟩
  rcases List.mem_append.mp member with blank | written
  · exact absurd (List.eq_of_mem_replicate blank) (by decide)
  · exact level.1.newline_notMem_written span written

theorem forall_ended {lines : List String} {levels : List (Label × Nat)}
    (indented : List.Forall₂ Indented lines levels) : ∀ line ∈ lines, Ended line := by
  induction indented with
  | nil => exact fun _ member => absurd member List.not_mem_nil
  | cons first _ ih => exact List.forall_mem_cons.mpr ⟨first.ended, ih⟩

/-- Lines are known from the text that they make up. -/
theorem eq_of_join_eq {lines others : List String} (ended : ∀ line ∈ lines, Ended line)
    (ended' : ∀ line ∈ others, Ended line) (same : String.join lines = String.join others) :
    lines = others := by
  have cut {first : String} (ended : Ended first) (rest : List String) :
      ∃ text, first.toList = text ++ ['\n'] ∧ '\n' ∉ text ∧
        (String.join (first :: rest)).toList = text ++ '\n' :: (String.join rest).toList := by
    obtain ⟨text, line, inside⟩ := ended
    refine ⟨text, line, inside, ?_⟩
    rw [String.join_cons, String.toList_append, line, List.append_assoc, List.singleton_append]
  replace same := congrArg String.toList same
  induction lines generalizing others with
  | nil =>
    cases others with
    | nil => rfl
    | cons first others =>
      obtain ⟨text, -, -, whole⟩ := cut (ended' first (.head _)) others
      rw [whole] at same
      exact absurd same.symm (by simp)
  | cons first lines ih =>
    obtain ⟨text, line, inside, whole⟩ := cut (ended first (.head _)) lines
    cases others with
    | nil =>
      rw [whole] at same
      exact absurd same (by simp)
    | cons first' others =>
      obtain ⟨text', line', inside', whole'⟩ := cut (ended' first' (.head _)) others
      rw [whole, whole'] at same
      obtain ⟨rfl, rest⟩ := eq_of_append_mark_eq inside inside' same
      rw [String.toList_inj.mp (line.trans line'.symm),
        ih (fun line member => ended line (.tail _ member))
          (fun line member => ended' line (.tail _ member)) rest]

namespace Tree

/-- The kind of a node, or the token of a leaf. -/
def label : Tree → Label
  | .node kind _ => .inl kind
  | .leaf kind text => .inr (kind, text)

mutual
/-- The label and the depth of all that is in a tree, each node before what is below it. -/
def levels (depth : Nat) : Tree → List (Label × Nat)
  | .node kind children => (.inl kind, depth) :: levelsAll (depth + 1) children
  | .leaf kind text => [(.inr (kind, text), depth)]
/-- The labels and depths of all that is in several trees. -/
def levelsAll (depth : Nat) : List Tree → List (Label × Nat)
  | [] => []
  | first :: rest => levels depth first ++ levelsAll depth rest
end

theorem levelsAll_nil (depth : Nat) : levelsAll depth [] = [] := by rw [levelsAll]

theorem levels_eq (depth : Nat) (tree : Tree) :
    tree.levels depth = (tree.label, depth) :: levelsAll (depth + 1) tree.children := by
  cases tree with
  | node kind children => rw [levels]; rfl
  | leaf kind text => rw [levels, children, levelsAll_nil]; rfl

/-- What comes next is less deep. -/
def EndsAbove (depth : Nat) (levels : List (Label × Nat)) : Prop :=
  ∀ level ∈ levels.head?, level.2 < depth

theorem endsAbove_levelsAll (depth : Nat) (trees : List Tree) {rest : List (Label × Nat)}
    (above : EndsAbove depth rest) : EndsAbove (depth + 1) (levelsAll depth trees ++ rest) := by
  cases trees with
  | nil =>
    rw [levelsAll]
    exact fun level member => Nat.lt_succ_of_lt (above level member)
  | cons first trees =>
    rw [levelsAll, levels_eq]
    rintro level member
    obtain rfl := Option.some.inj member
    exact Nat.lt_succ_self depth

theorem not_endsAbove_levelsAll (depth : Nat) (first : Tree) (trees : List Tree)
    (rest : List (Label × Nat)) : ¬ EndsAbove depth (levelsAll depth (first :: trees) ++ rest) := by
  intro above
  rw [levelsAll, levels_eq] at above
  exact Nat.lt_irrefl depth (above _ rfl)

mutual
/-- A tree is known from its levels. It ends where what comes next is no deeper. -/
theorem eq_of_levels_eq {depth : Nat} {tree other : Tree} {rest rest' : List (Label × Nat)}
    (above : EndsAbove (depth + 1) rest) (above' : EndsAbove (depth + 1) rest')
    (same : tree.levels depth ++ rest = other.levels depth ++ rest') :
    tree = other ∧ rest = rest' := by
  match tree, other with
  | .node kind children, .node kind' others =>
    rw [levels, levels] at same
    obtain ⟨first, below⟩ := List.cons.inj same
    obtain ⟨rfl, rfl⟩ := eq_of_levelsAll_eq above above' below
    cases first
    exact ⟨rfl, rfl⟩
  | .leaf kind text, .leaf kind' text' =>
    rw [levels, levels] at same
    obtain ⟨first, below⟩ := List.cons.inj same
    cases first
    exact ⟨rfl, below⟩
  | .node kind children, .leaf kind' text' =>
    rw [levels, levels] at same
    exact nomatch (List.cons.inj same).1
  | .leaf kind text, .node kind' others =>
    rw [levels, levels] at same
    exact nomatch (List.cons.inj same).1
theorem eq_of_levelsAll_eq {depth : Nat} {trees others : List Tree}
    {rest rest' : List (Label × Nat)} (above : EndsAbove depth rest)
    (above' : EndsAbove depth rest')
    (same : levelsAll depth trees ++ rest = levelsAll depth others ++ rest') :
    trees = others ∧ rest = rest' := by
  match trees, others with
  | [], [] =>
    rw [levelsAll] at same
    exact ⟨rfl, same⟩
  | first :: trees, first' :: others =>
    rw [levelsAll, levelsAll, List.append_assoc, List.append_assoc] at same
    obtain ⟨rfl, below⟩ := eq_of_levels_eq (endsAbove_levelsAll depth trees above)
      (endsAbove_levelsAll depth others above') same
    obtain ⟨rfl, rfl⟩ := eq_of_levelsAll_eq above above' below
    exact ⟨rfl, rfl⟩
  | [], first' :: others =>
    rw [levelsAll_nil, List.nil_append] at same
    exact absurd (same ▸ above) (not_endsAbove_levelsAll depth first' others rest')
  | first :: trees, [] =>
    rw [levelsAll_nil, List.nil_append] at same
    exact absurd (same ▸ above') (not_endsAbove_levelsAll depth first trees rest)
end

end Tree

namespace Cursor

open LosslessSyntax.Tree

theorem toList_line (cursor : Cursor) :
    cursor.line.toList = cursor.tree.label.written cursor.span := by
  obtain ⟨tree, start⟩ := cursor
  cases tree <;>
    simp [line, label, Label.written, Label.name, Label.quoted, Text.quote, String.toList_append]

theorem flatMap_levels (start depth : Nat) (trees : List Tree) :
    ((sequence start trees).map (·, depth)).flatMap (fun top => top.1.tree.levels top.2) =
      levelsAll depth trees := by
  induction trees generalizing start with
  | nil => rw [levelsAll]; rfl
  | cons first rest ih =>
    rw [sequence, List.map_cons, List.flatMap_cons, ih, levelsAll]

/-- The lines are those of all that is in the trees on the stack. -/
theorem indented_linesOfStack (stack : List (Cursor × Nat)) :
    List.Forall₂ Indented (linesOfStack stack)
      (stack.flatMap fun top => top.1.tree.levels top.2) := by
  fun_induction linesOfStack stack with
  | case1 => exact .nil
  | case2 top depth stack ih =>
    rw [List.flatMap_append, children, flatMap_levels] at ih
    rw [List.flatMap_cons, levels_eq, List.cons_append]
    refine .cons ⟨top.span, ?_⟩ ih
    rw [String.toList_append, String.toList_append, String.toList_ofList, toList_line]
    rfl

/-- Two trees with the same dump are the same tree. -/
theorem dump_injective : Function.Injective fun tree => (ofRoot tree).dump := by
  intro tree other same
  have indented := indented_linesOfStack [(ofRoot tree, 0)]
  have indented' := indented_linesOfStack [(ofRoot other, 0)]
  have lines := eq_of_join_eq (forall_ended indented) (forall_ended indented') same
  rw [← lines] at indented'
  have unique : Relator.RightUnique Indented := fun _ _ _ => Indented.eq
  have levels := List.right_unique_forall₂' unique indented indented'
  rw [List.flatMap_singleton, List.flatMap_singleton] at levels
  have nothing : EndsAbove 1 [] := fun _ member => nomatch member
  exact (eq_of_levels_eq nothing nothing (congrArg (· ++ []) levels)).1

end Cursor

end LosslessSyntax

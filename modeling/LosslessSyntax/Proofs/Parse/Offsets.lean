import LosslessSyntax.Proofs.Parse.Recovery
import LosslessSyntax.Proofs.Tree.Paths

/-! # Tokens at offsets

The search for an offset goes on in the child that covers the offset, or in the last child if none
does. Before the end of a text it finds the only leaf that holds the offset
(`Cursor.exists_tokenAt?`). From the end on it finds the last leaf, unless a node begins at the end
(`Cursor.FoundBehind`): there are no leaves in such a node, and the search gets stuck in it. The
grammar leaves one only where the text breaks off, which is reported (`endReported_of_start`).
-/

namespace LosslessSyntax

open LosslessSyntax.Tree

namespace Cursor

/-- The search for an offset within a tree finds the one leaf that holds it. -/
theorem exists_tokenAt? {tree : Tree} {offset : Nat} (within : offset < tree.width) :
    ∃ leaf ∈ (ofRoot tree).tokens, (ofRoot tree).tokenAt? offset = some leaf ∧
      ∀ other ∈ (ofRoot tree).tokens, other.span.containsOffset offset = true ↔ other = leaf := by
  obtain ⟨before, leaf, after, holds, found⟩ :=
    tokenWithin?_eq_some (Nat.zero_le offset) (by rwa [Nat.zero_add])
  rw [Nat.zero_add] at found
  refine ⟨_, mem_tokens_of_split holds.split, found, fun other member => ⟨fun contains => ?_, ?_⟩⟩
  · obtain ⟨front, leaf', back, split, shape, place⟩ := exists_of_mem_tokens member
    obtain ⟨tree', start⟩ := other
    obtain rfl : tree' = leaf'.toTree := shape
    obtain rfl : start = Leaf.width front := place
    obtain ⟨reached, inside⟩ := containsOffset_leaf.mp contains
    have holds' : Leaf.Holds 0 offset tree.leaves front leaf' back :=
      ⟨split, by rwa [Nat.zero_add], by rwa [Nat.zero_add]⟩
    obtain ⟨rfl, rfl⟩ := holds'.unique holds
    rfl
  · rintro rfl
    have reached := holds.reached
    have inside := holds.within
    rw [Nat.zero_add] at reached inside
    exact containsOffset_leaf.mpr ⟨reached, inside⟩

/-- What the search for an offset finds where trees with some leaves and nodes stop before it: the
last leaf, or nothing if a node begins where they stop. -/
def FoundBehind (start stop : Nat) (leaves nodes : List Cursor) : Option Cursor → Prop
  | none => ∃ node ∈ nodes, node.start = stop
  | some last => leaves.getLast? = some last ∧ start < stop ∧ ∀ node ∈ nodes, node.start < stop

/-- What stands before the last one of some trees makes no difference. -/
theorem FoundBehind.append_left {start middle stop : Nat} {leaves nodes : List Cursor}
    {found : Option Cursor} (behind : FoundBehind middle stop leaves nodes found)
    (leaves' : List Cursor) {nodes' : List Cursor} (reached : start ≤ middle)
    (before : ∀ node ∈ nodes', node.start ≤ middle) :
    FoundBehind start stop (leaves' ++ leaves) (nodes' ++ nodes) found := by
  cases found with
  | none =>
    obtain ⟨node, member, place⟩ := behind
    exact ⟨node, List.mem_append_right _ member, place⟩
  | some last =>
    obtain ⟨ends, wide, others⟩ := behind
    refine ⟨?_, Nat.lt_of_le_of_lt reached wide, fun node member => ?_⟩
    · rw [List.getLast?_append, ends, Option.some_or]
    · rcases List.mem_append.mp member with earlier | later
      · exact Nat.lt_of_le_of_lt (before node earlier) wide
      · exact others node later

theorem start_le_of_mem_nodesFrom {start : Nat} {tree : Tree} {node : Cursor}
    (member : node ∈ nodesFrom start tree) : node.start ≤ start + tree.width := by
  obtain ⟨front, back, leaves, place⟩ := exists_of_mem_nodesFrom member
  rw [place, ← width_leaves tree, leaves, Leaf.width_append, Leaf.width_append]
  omega

mutual
/-- Behind a tree whose leaves have text, the search finds its last leaf unless a node begins where
the tree stops. -/
theorem foundBehind_tree {offset start : Nat} {tree : Tree}
    (solid : ∀ leaf ∈ tree.leaves, 0 < leaf.2.utf8ByteSize) (behind : start + tree.width ≤ offset) :
    FoundBehind start (start + tree.width) (leavesFrom start tree) (nodesFrom start tree)
      (tokenWithin? offset start tree) := by
  match tree with
  | .leaf kind text =>
    rw [tokenWithin?, leavesFrom, nodesFrom, width_leaf]
    have wide := solid (kind, text) (by rw [leaves]; exact List.mem_singleton_self _)
    exact ⟨rfl, Nat.lt_add_of_pos_right wide, nofun⟩
  | .node kind [] =>
    rw [tokenWithin?, tokenAmong?, nodesFrom, width_node, widthAll_nil]
    exact ⟨_, List.mem_cons_self, rfl⟩
  | .node kind (first :: rest) =>
    rw [leaves_node] at solid
    rw [width_node] at behind ⊢
    have below := foundBehind_trees (List.cons_ne_nil first rest) solid behind
    have here : ∀ node ∈ [(⟨.node kind (first :: rest), start⟩ : Cursor)], node.start ≤ start :=
      List.forall_mem_singleton.mpr (Nat.le_refl start)
    rw [tokenWithin?, leavesFrom, nodesFrom]
    exact below.append_left [] (Nat.le_refl start) here
theorem foundBehind_trees {offset start : Nat} {trees : List Tree} (nonempty : trees ≠ [])
    (solid : ∀ leaf ∈ leavesAll trees, 0 < leaf.2.utf8ByteSize)
    (behind : start + widthAll trees ≤ offset) :
    FoundBehind start (start + widthAll trees) (leavesFromAll start trees)
      (nodesFromAll start trees) (tokenAmong? offset start trees) := by
  match trees with
  | [] => exact absurd rfl nonempty
  | [last] =>
    rw [leavesAll_cons, leavesAll_nil, List.append_nil] at solid
    rw [widthAll_cons, widthAll_nil, Nat.add_zero] at behind ⊢
    rw [tokenAmong?, leavesFromAll, leavesFromAll, nodesFromAll, nodesFromAll, List.append_nil,
      List.append_nil]
    exact foundBehind_tree solid behind
  | first :: second :: rest =>
    rw [leavesAll_cons] at solid
    rw [widthAll_cons, ← Nat.add_assoc] at behind ⊢
    have passed : ¬ (Span.ofLength start first.width).containsOffset offset = true := fun covers => by
      have inside : offset < start + first.width :=
        of_decide_eq_true (Bool.and_eq_true_iff.mp covers).2
      omega
    have later := foundBehind_trees (List.cons_ne_nil second rest)
      (fun leaf member => solid leaf (List.mem_append_right _ member)) behind
    rw [tokenAmong?, if_neg passed, leavesFromAll, nodesFromAll]
    exact later.append_left _ (Nat.le_add_right _ _) fun _ => start_le_of_mem_nodesFrom
end

theorem foundBehind_tokenAt? {node : Cursor} {offset : Nat} (inner : node.tree.isNode = true)
    (solid : ∀ leaf ∈ node.tree.leaves, 0 < leaf.2.utf8ByteSize) (behind : node.span.stop ≤ offset) :
    FoundBehind node.start node.span.stop node.tokens node.descendants (node.tokenAt? offset) := by
  rw [tokens_eq, ← leavesFrom_eq, descendants_eq_nodesFrom inner]
  exact foundBehind_tree solid behind

end Cursor

namespace Parse

open Lexeme Grammar

variable {config : Config} {text : String}

/-- Where a node stands at the end of the text, nothing is left of it. -/
theorem nil_of_start {kind : NodeKind} {before after : List Lexeme} {children : List Outline}
    {node : Cursor} (here : NodeAt .start (lexemes config text) before after kind children node)
    (last : node.start = text.utf8ByteSize) : after = [] := by
  have whole : Text.byteLength text.toList =
      Text.byteLength (charsOf before) + Text.byteLength (charsOf after) := by
    rw [← charsOf_lexemes config text, here.split, charsOf_append, Text.byteLength_append]
  rw [here.start, Position.offset_after, ← Text.byteLength_toList, whole] at last
  have start : Position.start.offset = 0 := rfl
  cases after with
  | nil => rfl
  | cons first rest =>
    have member : first ∈ lexemes config text :=
      here.split ▸ List.mem_append_right _ List.mem_cons_self
    have := Text.byteLength_pos (chars_ne_nil first member)
    rw [charsOf_cons, Text.byteLength_append] at last
    omega

/-- A node begins at the end only if the grammar has reported the end. -/
theorem endReported_of_start {node : Cursor} (nonempty : text ≠ "")
    (member : node ∈ (ofText config text).root.descendants)
    (last : node.start = text.utf8ByteSize) : (run config text).endReported = true := by
  rw [Cursor.descendants_eq] at member
  rcases List.mem_cons.mp member with rfl | below
  · exact absurd (String.utf8ByteSize_eq_zero_iff.mp last.symm) nonempty
  · obtain ⟨before, after, kind, children, here, settled⟩ :=
      meets_of_mem_below (settled_run config text) below
    obtain rfl := nil_of_start here last
    exact settled.ended rfl

variable (config) in
theorem foundBehind_root {offset : Nat} (behind : text.utf8ByteSize ≤ offset) :
    Cursor.FoundBehind 0 text.utf8ByteSize (ofText config text).root.tokens
      (ofText config text).root.descendants ((ofText config text).root.tokenAt? offset) := by
  have inner : (ofText config text).root.tree.isNode = true := by
    rw [root, Cursor.ofRoot, tree_ofText]
    rfl
  have stop : (ofText config text).root.span.stop = text.utf8ByteSize := by
    rw [root, Cursor.ofRoot, Cursor.span, Span.ofLength, width_ofText, Nat.zero_add]
  rw [← stop] at behind ⊢
  exact Cursor.foundBehind_tokenAt? inner (solid_leaves config text) behind

/-- Each offset within a text is held by one leaf, and the search finds that. From the end on it finds
the last leaf if all nodes begin earlier. It finds none if a node begins at the end, and then the text
is reported as incomplete once. -/
theorem tokenAt?_root (config : Config) (text : String) (nonempty : text ≠ "") (offset : Nat) :
    let root := (ofText config text).root
    (offset < text.utf8ByteSize →
      ∃ leaf ∈ root.tokens, root.tokenAt? offset = some leaf ∧
        ∀ other ∈ root.tokens, other.span.containsOffset offset = true ↔ other = leaf) ∧
      (text.utf8ByteSize ≤ offset →
        (∃ last, root.tokens.getLast? = some last ∧ root.tokenAt? offset = some last ∧
          ∀ node ∈ root.descendants, node.start < text.utf8ByteSize) ∨
        root.tokenAt? offset = none ∧
          (∃ node ∈ root.descendants, node.start = text.utf8ByteSize) ∧
          ((ofText config text).diagnostics.items.filter (·.kind == .incomplete)).length = 1) := by
  intro root
  refine ⟨fun within => Cursor.exists_tokenAt? (by rwa [width_ofText]), fun behind => ?_⟩
  have found := foundBehind_root config behind
  cases token : root.tokenAt? offset with
  | some last =>
    rw [token] at found
    obtain ⟨ends, -, earlier⟩ := found
    exact .inl ⟨last, ends, rfl, earlier⟩
  | none =>
    rw [token] at found
    obtain ⟨node, member, last⟩ := found
    exact .inr ⟨rfl, ⟨node, member, last⟩, one_incomplete (endReported_of_start nonempty member last)⟩

/-- A binding without its value: the equals sign is found at its own offset, and not behind it. -/
theorem tokenAt?_root_binding :
    let parse := ofText ⟨3, .standard, 8⟩ "let x ="
    "let x =" ≠ "" ∧ (∃ leaf ∈ parse.root.tokens, parse.root.tokenAt? 6 = some leaf ∧
      ∀ other ∈ parse.root.tokens, other.span.containsOffset 6 = true ↔ other = leaf) ∧
      (parse.diagnostics.items.filter (·.kind == .incomplete)).length = 1 := by
  intro parse
  have text : "let x =" ≠ "" := by decide
  have lost : parse.root.tokenAt? 7 = none := by decide +kernel
  refine ⟨text, (tokenAt?_root ⟨3, .standard, 8⟩ _ text 6).1 (by decide), ?_⟩
  rcases (tokenAt?_root ⟨3, .standard, 8⟩ _ text 7).2 (by decide) with ⟨_, -, found, -⟩ | ⟨-, -, once⟩
  · exact nomatch lost.symm.trans found
  · exact once

/-- The search loses the last leaf where the text breaks off. -/
theorem last_leaf_lost :
    (ofText ⟨3, .standard, 8⟩ "let x =").root.tokens.getLast?.map (fun last =>
        (last.ownText, last.span)) = some ("=", ⟨6, 7⟩) ∧
      (ofText ⟨3, .standard, 8⟩ "let x =").root.tokenAt? 7 = none := by
  decide +kernel

end Parse

end LosslessSyntax

import LosslessSyntax.Proofs.Text.Bytes
import LosslessSyntax.Proofs.Tree.Leaves

/-! # Paths and the text

A path of child indices leads to an element that stands somewhere in the text. Putting another tree
at its end (`Tree.Exchanged`) exchanges the text of the element there, keeps every place off the path
as it was, and makes those on it wider by as much as the new tree is (`Tree.Spliced`). The path that
is found for an offset is that of the only leaf which holds it (`Tree.leafAt?_eq_some_iff`).
-/

namespace LosslessSyntax

open LosslessSyntax.Tree

namespace Tree

variable {element replacement tree tree' : Tree} {path : List Nat}

theorem atPath?_cons (index : Nat) (path : List Nat) (tree : Tree) :
    tree.atPath? (index :: path) = tree.children[index]?.bind (·.atPath? path) := by
  rw [atPath?]
  rfl

/-- The children around one that has an index. -/
theorem exists_eq_node_of_getElem? {child : Tree} {index : Nat}
    (found : tree.children[index]? = some child) :
    ∃ kind before after, tree = .node kind (before ++ child :: after) ∧ before.length = index := by
  cases tree with
  | leaf kind text => exact nomatch found
  | node kind children =>
    change children[index]? = some child at found
    obtain ⟨within, rfl⟩ := List.getElem?_eq_some_iff.mp found
    refine ⟨kind, children.take index, children.drop (index + 1), ?_, ?_⟩
    · rw [List.getElem_cons_drop, List.take_append_drop]
    · exact List.length_take_of_le (Nat.le_of_lt within)

theorem atPath?_node_append (kind : NodeKind) (before : List Tree) (child : Tree)
    (after : List Tree) (path : List Nat) :
    (node kind (before ++ child :: after)).atPath? (before.length :: path) = child.atPath? path := by
  rw [atPath?_cons, children, List.getElem?_append_right (Nat.le_refl _), Nat.sub_self]
  rfl

/-- Exchanging one child leaves the others where they are. -/
theorem atPath?_node_append_of_ne {kind : NodeKind} {before after : List Tree} (child child' : Tree)
    {index : Nat} (other : index ≠ before.length) (path : List Nat) :
    (node kind (before ++ child' :: after)).atPath? (index :: path) =
      (node kind (before ++ child :: after)).atPath? (index :: path) := by
  have same : (before ++ child' :: after)[index]? = (before ++ child :: after)[index]? := by
    rcases Nat.lt_or_gt_of_ne other with earlier | later
    · rw [List.getElem?_append_left earlier, List.getElem?_append_left earlier]
    · obtain ⟨more, size⟩ : ∃ more, index - before.length = more + 1 :=
        ⟨index - before.length - 1, by omega⟩
      rw [List.getElem?_append_right (by omega), List.getElem?_append_right (by omega), size,
        List.getElem?_cons_succ, List.getElem?_cons_succ]
  rw [atPath?_cons, atPath?_cons, children, children, same]

/-- Two trees that are alike but for what is at the end of a path. -/
inductive Exchanged (element replacement : Tree) : List Nat → Tree → Tree → Prop
  | here : Exchanged element replacement [] element replacement
  | inside {path : List Nat} {child child' : Tree} (kind : NodeKind) (before after : List Tree) :
    Exchanged element replacement path child child' →
      Exchanged element replacement (before.length :: path) (.node kind (before ++ child :: after))
        (.node kind (before ++ child' :: after))

theorem exists_exchanged (replacement : Tree) (leads : tree.atPath? path = some element) :
    ∃ tree', Exchanged element replacement path tree tree' := by
  induction path generalizing tree with
  | nil =>
    obtain rfl := Option.some.inj leads
    exact ⟨replacement, .here⟩
  | cons index path ih =>
    rw [atPath?_cons] at leads
    obtain ⟨child, found, on⟩ := Option.bind_eq_some_iff.mp leads
    obtain ⟨kind, before, after, rfl, rfl⟩ := exists_eq_node_of_getElem? found
    obtain ⟨child', exchanged⟩ := ih on
    exact ⟨_, exchanged.inside kind before after⟩

namespace Exchanged

variable (exchanged : Exchanged element replacement path tree tree')
include exchanged

theorem atPath?_self : tree'.atPath? path = some replacement := by
  induction exchanged with
  | here => rfl
  | inside kind before after _ ih => rw [atPath?_node_append, ih]

theorem atPath?_off {place : List Nat} (above : ¬ place <+: path) (beneath : ¬ path <+: place) :
    tree'.atPath? place = tree.atPath? place := by
  induction exchanged generalizing place with
  | here => exact absurd List.nil_prefix beneath
  | @inside path child child' kind before after _ ih =>
    cases place with
    | nil => exact absurd List.nil_prefix above
    | cons index place =>
      by_cases same : index = before.length
      · subst same
        rw [atPath?_node_append, atPath?_node_append]
        refine ih (fun within => above ?_) (fun within => beneath ?_)
        · exact List.cons_prefix_cons.mpr ⟨rfl, within⟩
        · exact List.cons_prefix_cons.mpr ⟨rfl, within⟩
      · exact atPath?_node_append_of_ne child child' same place

/-- Above the end of the path the nodes stay, each wider by as much as what is put there is. -/
theorem atPath?_on {place : List Nat} (above : place <+: path) (inner : place ≠ path) :
    ∃ kind children children', tree.atPath? place = some (.node kind children) ∧
      tree'.atPath? place = some (.node kind children') ∧ children'.length = children.length ∧
      widthAll children' + element.width = widthAll children + replacement.width := by
  induction exchanged generalizing place with
  | here => exact absurd (List.prefix_nil.mp above) inner
  | @inside path child child' kind before after below ih =>
    cases place with
    | nil =>
      refine ⟨kind, _, _, rfl, rfl, by simp, ?_⟩
      have width : child'.width + element.width = child.width + replacement.width := by
        cases path with
        | nil =>
          cases below
          exact Nat.add_comm _ _
        | cons index path =>
          obtain ⟨kind, children, children', old, new, -, width⟩ :=
            @ih [] List.nil_prefix (List.cons_ne_nil _ _).symm
          obtain rfl := Option.some.inj old
          obtain rfl := Option.some.inj new
          rwa [width_node, width_node]
      simp only [widthAll_append, widthAll_cons]
      omega
    | cons index place =>
      obtain ⟨rfl, within⟩ := List.cons_prefix_cons.mp above
      rw [atPath?_node_append, atPath?_node_append]
      exact ih within fun same => inner (congrArg _ same)

/-- The leaves before the end of the path and behind it stay. -/
theorem exists_leaves : ∃ front back, tree.leaves = front ++ element.leaves ++ back ∧
    tree'.leaves = front ++ replacement.leaves ++ back ∧
    ∀ start, (Cursor.mk tree start).atPath? path = some ⟨element, start + Leaf.width front⟩ := by
  induction exchanged with
  | here => exact ⟨[], [], by simp, by simp, fun start => rfl⟩
  | @inside path child child' kind before after _ ih =>
    obtain ⟨front, back, old, new, place⟩ := ih
    refine ⟨leavesAll before ++ front, back ++ leavesAll after, ?_, ?_, fun start => ?_⟩
    · simp [old]
    · simp [new]
    · have child : (Cursor.mk (.node kind (before ++ child :: after)) start).children[before.length]? =
          some ⟨child, start + widthAll before⟩ := by
        rw [Cursor.children, children, Cursor.sequence_append,
          List.getElem?_append_right (by simp), Cursor.length_sequence, Nat.sub_self]
        rfl
      rw [Cursor.atPath?, child, Leaf.width_append, width_leavesAll, ← Nat.add_assoc, ← place]
      rfl

theorem replaces : Replaces path replacement tree tree' := by
  induction exchanged with
  | here => exact .inl ⟨rfl, rfl⟩
  | inside kind before after _ ih => exact ih.of_node kind before after

end Exchanged

/-- A path that leaves the tree is refused. -/
theorem replaceAt?_eq_none (replacement : Tree) (astray : tree.atPath? path = none) :
    tree.replaceAt? path replacement = none := by
  induction path generalizing tree with
  | nil => exact nomatch astray
  | cons index path ih =>
    rw [atPath?_cons] at astray
    cases found : tree.children[index]? with
    | none => cases path <;> simp [replaceAt?, found]
    | some child =>
      rw [found, Option.bind_some] at astray
      cases path with
      | nil => exact nomatch astray
      | cons next path =>
        rw [replaceAt?, found]
        cases child.isNode <;> simp [ih astray]

theorem replaceAt?_of_exchanged (exchanged : Exchanged element replacement path tree tree') :
    tree.replaceAt? path replacement =
      if path = [] ∧ replacement.isNode = false then none else some tree' := by
  rcases exchanged.replaces with ⟨rfl, rfl⟩ | ⟨some', replaced⟩
  · rw [replaceAt?]
    cases tree'.isNode <;> rfl
  · rw [replaced, if_neg fun refused => some' refused.1]

theorem replaceAt?_eq_none_iff : tree.replaceAt? path replacement = none ↔
    tree.atPath? path = none ∨ path = [] ∧ replacement.isNode = false := by
  cases leads : tree.atPath? path with
  | none => simp [replaceAt?_eq_none replacement leads]
  | some element =>
    obtain ⟨tree', exchanged⟩ := exists_exchanged replacement leads
    simp [replaceAt?_of_exchanged exchanged]

theorem exists_exchanged_of_replaceAt? (replaced : tree.replaceAt? path replacement = some tree') :
    ∃ element, tree.atPath? path = some element ∧
      Exchanged element replacement path tree tree' := by
  cases leads : tree.atPath? path with
  | none => exact nomatch (replaceAt?_eq_none replacement leads).symm.trans replaced
  | some element =>
    obtain ⟨tree'', exchanged⟩ := exists_exchanged replacement leads
    rw [replaceAt?_of_exchanged exchanged] at replaced
    split at replaced
    case isTrue => exact nomatch replaced
    case isFalse =>
      obtain rfl := Option.some.inj replaced
      exact ⟨element, rfl, exchanged⟩

end Tree

namespace Cursor

@[simp] theorem map_tree_sequence (start : Nat) (trees : List Tree) :
    (sequence start trees).map (·.tree) = trees := by
  induction trees generalizing start with
  | nil => rfl
  | cons first rest ih => exact congrArg (first :: ·) (ih _)

theorem atPath?_cons (index : Nat) (path : List Nat) (cursor : Cursor) :
    cursor.atPath? (index :: path) = cursor.children[index]?.bind (·.atPath? path) := by
  rw [atPath?]
  rfl

/-- A cursor follows a path as its tree does. -/
theorem map_tree_atPath? (path : List Nat) (cursor : Cursor) :
    (cursor.atPath? path).map (·.tree) = cursor.tree.atPath? path := by
  induction path generalizing cursor with
  | nil => rfl
  | cons index path ih =>
    have child : cursor.children[index]?.map (·.tree) = cursor.tree.children[index]? := by
      rw [← List.getElem?_map, Cursor.children, map_tree_sequence]
    rw [atPath?_cons, Tree.atPath?_cons, ← child, Option.map_bind, Option.bind_map]
    exact Option.bind_congr fun below _ => ih below

/-- What is at the end of a path stands within the tree. -/
theorem within_of_atPath? {cursor below : Cursor} {path : List Nat}
    (leads : cursor.atPath? path = some below) :
    cursor.span.start ≤ below.span.start ∧ below.span.stop ≤ cursor.span.stop := by
  obtain ⟨tree, start⟩ := cursor
  have path_tree : tree.atPath? path = some below.tree := by
    rw [← map_tree_atPath? path ⟨tree, start⟩, leads]
    rfl
  obtain ⟨_, exchanged⟩ := exists_exchanged below.tree path_tree
  obtain ⟨front, back, leaves, -, place⟩ := exchanged.exists_leaves
  have place : below.start = start + Leaf.width front :=
    congrArg Cursor.start (Option.some.inj (leads.symm.trans (place start)))
  have width : tree.width = Leaf.width front + below.tree.width + Leaf.width back := by
    rw [← width_leaves, leaves, Leaf.width_append, Leaf.width_append, width_leaves]
  simp only [span, Span.ofLength]
  omega

theorem exists_eq_leaf {cursor : Cursor} (outer : cursor.tree.isNode = false) :
    ∃ kind text place, cursor = ⟨.leaf kind text, place⟩ := by
  obtain ⟨tree, place⟩ := cursor
  cases tree with
  | node kind children => exact nomatch outer
  | leaf kind text => exact ⟨kind, text, place, rfl⟩

theorem containsOffset_leaf {kind : TokenKind} {text : String} {place offset : Nat} :
    (Cursor.mk (.leaf kind text) place).span.containsOffset offset = true ↔
      place ≤ offset ∧ offset < place + text.utf8ByteSize := by
  rw [span, width_leaf, Span.ofLength, Span.containsOffset, Bool.and_eq_true, decide_eq_true_iff,
    decide_eq_true_iff]

theorem le_of_leads_among {start index : Nat} {trees : List Tree} {path : List Nat} {below : Cursor}
    (leads : (sequence start trees)[index]?.bind (·.atPath? path) = some below) :
    start ≤ below.start := by
  obtain ⟨child, found, on⟩ := Option.bind_eq_some_iff.mp leads
  have behind : start ≤ child.start := (getElem?_sequence found).2 ▸ Nat.le_add_right start _
  exact Nat.le_trans behind (within_of_atPath? on).1

end Cursor

namespace Tree

variable {offset place : Nat} {kind : TokenKind} {text : String}

mutual
/-- Each offset within a tree is found. -/
theorem exists_leafAt? {start : Nat} {tree : Tree} (reached : start ≤ offset)
    (within : offset < start + tree.width) : ∃ found, tree.leafAt? offset start = some found := by
  match tree with
  | .leaf kind text =>
    rw [width_leaf] at within
    exact ⟨_, by rw [leafAt?, if_pos within]⟩
  | .node kind children =>
    rw [width_node] at within
    rw [leafAt?]
    exact exists_leafAmong? reached within
theorem exists_leafAmong? {start index : Nat} {trees : List Tree} (reached : start ≤ offset)
    (within : offset < start + widthAll trees) :
    ∃ found, leafAmong? offset start index trees = some found := by
  match trees with
  | [] =>
    rw [widthAll_nil] at within
    omega
  | first :: rest =>
    rw [widthAll_cons, ← Nat.add_assoc] at within
    rw [leafAmong?]
    split
    case isTrue here =>
      obtain ⟨found, leaf⟩ := exists_leafAt? reached here
      exact ⟨_, by rw [leaf, Option.map_some]⟩
    case isFalse later =>
      have behind : start + first.width ≤ offset := Nat.not_lt.mp later
      exact exists_leafAmong? behind within
end

mutual
/-- The search for an offset finds the path to the leaf that holds it, and only that. -/
theorem leafAt?_eq_some_iff {start : Nat} {path : List Nat} {tree : Tree} (reached : start ≤ offset) :
    tree.leafAt? offset start = some (path, place, kind, text) ↔
      (Cursor.mk tree start).atPath? path = some ⟨.leaf kind text, place⟩ ∧
        place ≤ offset ∧ offset < place + text.utf8ByteSize := by
  match tree with
  | .leaf kind' text' =>
    rw [leafAt?]
    cases path with
    | nil =>
      simp only [Cursor.atPath?, Option.some.injEq, Cursor.mk.injEq, leaf.injEq]
      grind
    | cons index path => simp [Cursor.atPath?_cons, Cursor.children, children, Cursor.sequence]
  | .node kind' children =>
    rw [leafAt?, leafAmong?_eq_some_iff reached]
    cases path with
    | nil => simp [Cursor.atPath?]
    | cons index path =>
      rw [Cursor.atPath?_cons]
      simp only [Nat.zero_add, List.cons.injEq]
      constructor
      · rintro ⟨_, _, ⟨rfl, rfl⟩, found⟩
        exact found
      · exact fun found => ⟨index, path, ⟨rfl, rfl⟩, found⟩
/-- The same among several trees of which the first has the given index. -/
theorem leafAmong?_eq_some_iff {start index : Nat} {path : List Nat} {trees : List Tree}
    (reached : start ≤ offset) :
    leafAmong? offset start index trees = some (path, place, kind, text) ↔
      ∃ child rest, path = (index + child) :: rest ∧
        (Cursor.sequence start trees)[child]?.bind (·.atPath? rest) = some ⟨.leaf kind text, place⟩ ∧
        place ≤ offset ∧ offset < place + text.utf8ByteSize := by
  match trees with
  | [] => simp [leafAmong?, Cursor.sequence]
  | first :: others =>
    rw [leafAmong?, Cursor.sequence]
    split
    case isTrue here =>
      rw [Option.map_eq_some_iff]
      constructor
      · rintro ⟨⟨rest, found⟩, leaf, same⟩
        obtain ⟨rfl, rfl⟩ := Prod.mk.inj same
        exact ⟨0, rest, rfl, (leafAt?_eq_some_iff reached).mp leaf⟩
      · rintro ⟨child, rest, rfl, leads, before, inside⟩
        cases child with
        | zero =>
          have leaf := (leafAt?_eq_some_iff reached).mpr ⟨leads, before, inside⟩
          exact ⟨_, leaf, rfl⟩
        | succ child =>
          have behind : start + first.width ≤ place := Cursor.le_of_leads_among leads
          omega
    case isFalse later =>
      have behind : start + first.width ≤ offset := Nat.not_lt.mp later
      rw [leafAmong?_eq_some_iff behind]
      constructor
      · rintro ⟨child, rest, rfl, found⟩
        refine ⟨child + 1, rest, ?_, found⟩
        rw [Nat.add_assoc, Nat.add_comm 1]
      · rintro ⟨child, rest, rfl, leads, before, inside⟩
        cases child with
        | zero =>
          have stops := (Cursor.within_of_atPath? leads).2
          simp only [Cursor.span, Span.ofLength, width_leaf] at stops
          omega
        | succ child =>
          refine ⟨child, rest, ?_, leads, before, inside⟩
          rw [Nat.add_assoc, Nat.add_comm 1]
end

/-- What a tree becomes when another one is put in the place of the element at the end of a path. -/
structure Spliced (path : List Nat) (element : Cursor) (replacement tree tree' : Tree) : Prop where
  /-- The text of the element gives way to that of the replacement. -/
  text : ∃ front back, Text.slice? tree.text 0 element.span.start = some front ∧
    Text.slice? tree.text element.span.stop tree.text.utf8ByteSize = some back ∧
    tree'.text = front ++ replacement.text ++ back
  /-- Whatever is in the tree is as wide as the texts of its leaves are long together. -/
  widths : ∀ place inner, tree'.atPath? place = some inner →
    inner.width = (String.join (inner.leaves.map (·.2))).utf8ByteSize
  /-- The replacement is at the end of the path. -/
  here : tree'.atPath? path = some replacement
  /-- What is neither above the end of the path nor beneath it is as it was. -/
  off : ∀ place, ¬ place <+: path → ¬ path <+: place → tree'.atPath? place = tree.atPath? place
  /-- The nodes above it are as they were, but wider by as much as the replacement. -/
  on : ∀ place, place <+: path → place ≠ path →
    ∃ kind children children', tree.atPath? place = some (.node kind children) ∧
      tree'.atPath? place = some (.node kind children') ∧ children'.length = children.length ∧
      widthAll children' + element.tree.width = widthAll children + replacement.width

theorem Exchanged.spliced {element replacement tree tree' : Tree} {path : List Nat}
    (exchanged : Exchanged element replacement path tree tree') :
    ∃ place, (Cursor.ofRoot tree).atPath? path = some place ∧ place.tree = element ∧
      Spliced path place replacement tree tree' := by
  obtain ⟨front, back, old, new, leads⟩ := exchanged.exists_leaves
  let frontText := String.join (front.map (·.2))
  let backText := String.join (back.map (·.2))
  have text : tree.text = frontText ++ (element.text ++ backText) := by
    simp only [Tree.text, old, List.map_append, String.join_append, String.append_assoc, frontText,
      backText]
  have start : 0 + Leaf.width front = frontText.utf8ByteSize := by
    rw [Nat.zero_add, Leaf.utf8ByteSize_join]
  have stop : 0 + Leaf.width front + element.width = (frontText ++ element.text).utf8ByteSize := by
    rw [start, String.utf8ByteSize_append, utf8ByteSize_text]
  refine ⟨_, leads 0, rfl, ⟨frontText, backText, ?_, ?_, ?_⟩, fun _ inner _ => (utf8ByteSize_text inner).symm,
    exchanged.atPath?_self, fun _ => exchanged.atPath?_off, fun _ => exchanged.atPath?_on⟩
  · rw [Cursor.span, Span.ofLength, start, text]
    exact Text.slice?_front _ _
  · rw [Cursor.span, Span.ofLength, stop, text, ← String.append_assoc]
    exact Text.slice?_back _ _
  · simp only [Tree.text, new, List.map_append, String.join_append, frontText, backText]

/-- A tree can be put at the end of each path that leads to something, but no leaf in the place of
the root, and it splices the text. The path to each offset of the text is found, with the leaf that
holds the offset and its place, and no other path leads to a leaf that holds it. -/
theorem replaceAt?_splices (tree : Tree) :
    (∀ path replacement,
      (tree.replaceAt? path replacement = none ↔
        tree.atPath? path = none ∨ path = [] ∧ replacement.isNode = false) ∧
      ∀ tree', tree.replaceAt? path replacement = some tree' →
        ∃ element, (Cursor.ofRoot tree).atPath? path = some element ∧
          Spliced path element replacement tree tree') ∧
      ∀ offset < tree.width,
        ∃ path start kind text, tree.leafAt? offset 0 = some (path, start, kind, text) ∧
          ∀ path' element, (Cursor.ofRoot tree).atPath? path' = some element ∧
              element.tree.isNode = false ∧ element.span.containsOffset offset = true ↔
            path' = path ∧ element = ⟨.leaf kind text, start⟩ := by
  refine ⟨fun path replacement => ⟨replaceAt?_eq_none_iff, fun tree' replaced => ?_⟩,
    fun offset within => ?_⟩
  · obtain ⟨_, -, exchanged⟩ := exists_exchanged_of_replaceAt? replaced
    obtain ⟨element, leads, -, spliced⟩ := exchanged.spliced
    exact ⟨element, leads, spliced⟩
  · obtain ⟨⟨path, start, kind, text⟩, found⟩ :=
      exists_leafAt? (Nat.zero_le offset) (by rwa [Nat.zero_add])
    refine ⟨path, start, kind, text, found, fun path' element => ⟨?_, ?_⟩⟩
    · rintro ⟨leads, outer, holds⟩
      obtain ⟨kind', text', place, rfl⟩ := Cursor.exists_eq_leaf outer
      have found' := (leafAt?_eq_some_iff (Nat.zero_le offset)).mpr
        ⟨leads, Cursor.containsOffset_leaf.mp holds⟩
      obtain ⟨rfl, rfl, rfl, rfl⟩ : path = path' ∧ start = place ∧ kind = kind' ∧ text = text' := by
        simpa using found.symm.trans found'
      exact ⟨rfl, rfl⟩
    · rintro ⟨rfl, rfl⟩
      obtain ⟨leads, holds⟩ := (leafAt?_eq_some_iff (Nat.zero_le offset)).mp found
      exact ⟨leads, rfl, Cursor.containsOffset_leaf.mpr holds⟩

theorem replaceAt?_splices_beside_empty :
    let tree : Tree := .node .root [.leaf .letWord "let", .node .error [],
      .node .binding [.node .error [], .leaf .ident "x"], .leaf .symbol "="]
    let replacement : Tree := .node .nameRef [.leaf .ident "yy"]
    (∃ tree', tree.replaceAt? [2, 1] replacement = some tree' ∧ tree'.text = "letyy=" ∧
      Spliced [2, 1] ⟨.leaf .ident "x", 3⟩ replacement tree tree') ∧
      3 < tree.width ∧ tree.leafAt? 3 0 = some ([2, 1], 3, .ident, "x") := by
  intro tree replacement
  let tree' : Tree := .node .root [.leaf .letWord "let", .node .error [],
    .node .binding [.node .error [], .node .nameRef [.leaf .ident "yy"]], .leaf .symbol "="]
  have replaced : tree.replaceAt? [2, 1] replacement = some tree' := rfl
  have leads : (Cursor.ofRoot tree).atPath? [2, 1] = some ⟨.leaf .ident "x", 3⟩ := rfl
  have within : 3 < tree.width := by decide
  obtain ⟨element, leads', spliced⟩ := ((replaceAt?_splices tree).1 _ _).2 tree' replaced
  obtain rfl := Option.some.inj (leads.symm.trans leads')
  obtain ⟨path, start, kind, text, found, only⟩ := (replaceAt?_splices tree).2 3 within
  obtain ⟨rfl, same⟩ := (only [2, 1] _).mp ⟨leads, rfl, by decide⟩
  cases same
  exact ⟨⟨tree', replaced, by decide, spliced⟩, within, found⟩

end Tree

end LosslessSyntax

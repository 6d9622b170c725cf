import LosslessSyntax.Proofs.Tree.Exchange
import LosslessSyntax.Proofs.Tree.Leaves
import LosslessSyntax.Proofs.Tree.Planting
import LosslessSyntax.Reparse.Block

/-! # The block around an edit

The search for the innermost block around an edit goes through a tree that was planted from an
outline. So the leaves of the block that it finds stand between others, and the outline has a block
where they begin (`exists_of_enclosing?`). If other leaves take their place, and other outlines that
take up just these leaves (`Snug`) that of the block, nothing changes in the tree but this block.
-/

namespace LosslessSyntax.Reparse

open Leaf Outline LosslessSyntax.Tree

/-- Leaves that are all taken up by some outlines, whatever comes after them. -/
structure Snug (leaves : List Leaf) (outlines : List Outline) : Prop where
  opens : Opens leaves
  some : leaves ≠ []
  takes (back : List Leaf) : fillAll (leaves ++ back) outlines = ((fillAll leaves outlines).1, back)

theorem Snug.opens_append {leaves : List Leaf} {outlines : List Outline}
    (snug : Snug leaves outlines) (back : List Leaf) : Opens (leaves ++ back) := by
  obtain ⟨leaf, rest, rfl⟩ := List.exists_cons_of_ne_nil snug.some
  exact opens_cons (snug.opens leaf rfl)

/-- Outlines take up all leaves if the last of both is a significant one. -/
theorem snug_concat {front : List Leaf} {leaf : Leaf} {outlines : List Outline}
    (opens : Opens (front ++ [leaf])) (significant : leaf.isSignificant = true)
    (count : countAll outlines = total front) : Snug (front ++ [leaf]) (outlines ++ [.token]) := by
  have rest : total (fillAll front outlines).2 = 0 := by rw [total_fillAll, count, Nat.sub_self]
  have takes (back : List Leaf) : fillAll (front ++ leaf :: back) (outlines ++ [.token]) =
      ((fillAll front outlines).1 ++ ((fillAll front outlines).2 ++ [leaf]).map toTree, back) := by
    obtain ⟨skip, left⟩ := @skipped_append (fillAll front outlines).2 (leaf :: back)
      (.inl (opens_cons significant))
    obtain ⟨skip', left'⟩ := skipped_of_total rest
    rw [fillAll_append, fillAll_append_leaves (.inl (opens_cons significant)) (Nat.le_of_eq count),
      fillAll_cons, fillAll_nil, fill_token, skip, left, skip', left']
    simp
  refine ⟨opens, by simp, fun back => ?_⟩
  rw [List.append_assoc, List.singleton_append, takes back, takes []]

/-- A block with so many blocks around it encloses an edit, and its leaves stand between others. -/
structure Embraces (edit : TextEdit) (start depth : Nat) (leaves : List Leaf) (found : Enclosing)
    (front inner back : List Leaf) (level : Nat) : Prop where
  split : leaves = front ++ (inner ++ back)
  opens : Opens inner
  closes : ∃ text, inner.getLast? = some (.rightBrace, text)
  start_eq : found.start = start + width front
  stop_eq : found.stop = found.start + width inner
  depth_eq : found.depth = depth + level
  starts : found.start < edit.offset
  stops : edit.oldStop < found.stop

/-- How leaves and outlines may be filled that take the place of those of a block, among trees of
which the first has the given index, before some leaves that are left. -/
def Hosts (found : Enclosing) (index : Nat) (trees : List Tree) (rest : List Leaf)
    (filled : List Leaf → List Outline → List Tree × List Leaf) : Prop :=
  ∃ before child after path, trees = before ++ child :: after ∧
    found.path = (index + before.length) :: path ∧
    ∀ inner' children', Snug inner' children' → ∃ child',
      filled inner' children' = (before ++ child' :: after, rest) ∧
        Replaces path (.node .block (fillAll inner' children').1) child child'

variable {edit : TextEdit} {found : Enclosing} {start depth index : Nat}

/-- What embraces an edit among some leaves embraces it behind others, whatever leads to it. -/
theorem Embraces.behind {others leaves front inner back : List Leaf} {depth' level level' : Nat}
    (embraces : Embraces edit (start + width others) depth' leaves found front inner back level)
    (levels : depth' + level = depth + level') (path : List Nat) :
    Embraces edit start depth (others ++ leaves) { found with path := path } (others ++ front) inner
      back level' where
  split := by rw [List.append_assoc, ← embraces.split]
  opens := embraces.opens
  closes := embraces.closes
  start_eq := by
    rw [width_append, ← Nat.add_assoc]
    exact embraces.start_eq
  stop_eq := embraces.stop_eq
  depth_eq := embraces.depth_eq.trans levels
  starts := embraces.starts
  stops := embraces.stops

/-- A block is closed if its last child is a closing brace. -/
def Closed (found : Enclosing) : Prop :=
  found.block.children.getLast?.bind Tree.tokenKind? = some .rightBrace

theorem enclosingAmong?_leaves (leaves : List Leaf) (trees : List Tree) :
    enclosingAmong? edit start depth index (leaves.map toTree ++ trees) =
      enclosingAmong? edit (start + width leaves) depth (index + leaves.length) trees := by
  induction leaves generalizing start index with
  | nil => simp
  | cons first rest ih =>
    rw [List.map_cons, List.cons_append, enclosingAmong?]
    simp only [toTree, isNode, Bool.false_and, Bool.false_eq_true, ↓reduceIte, width_leaf]
    rw [width_cons, List.length_cons, ← Nat.add_assoc, ← Nat.add_assoc, Nat.add_right_comm index]
    exact ih

theorem enclosingAmong?_leaves_eq_none (leaves : List Leaf) :
    enclosingAmong? edit start depth index (leaves.map toTree) = none := by
  have search := @enclosingAmong?_leaves edit start depth index leaves []
  rwa [List.append_nil, enclosingAmong?] at search

/-- What is found among two parts is found in one of them. -/
theorem enclosingAmong?_append (front back : List Tree) :
    enclosingAmong? edit start depth index (front ++ back) =
        enclosingAmong? edit start depth index front ∨
      enclosingAmong? edit start depth index (front ++ back) =
        enclosingAmong? edit (start + widthAll front) depth (index + front.length) back := by
  induction front generalizing start index with
  | nil => simp
  | cons first front ih =>
    rw [List.cons_append, enclosingAmong?, enclosingAmong?]
    split
    · exact .inl rfl
    · rw [widthAll_cons, List.length_cons, ← Nat.add_assoc, Nat.add_comm front.length,
        ← Nat.add_assoc]
      exact ih

/-- What is found at a node is the node itself or below it. -/
theorem enclosingAmong?_node {kind : NodeKind} {children : List Tree}
    (search : enclosingAmong? edit start depth index [.node kind children] = some found) :
    start < edit.offset ∧ edit.oldStop < start + widthAll children ∧
      ((∃ inner level, (kind ≠ .block ∧ level = depth ∨ kind = .block ∧ level = depth + 1) ∧
          enclosingAmong? edit start level 0 children = some inner ∧ found = inner.below index) ∨
        kind = .block ∧ found = ⟨.node .block children, [index], start, start + widthAll children,
          depth⟩) := by
  rw [enclosingAmong?] at search
  split at search
  case isFalse => simp [enclosingAmong?] at search
  case isTrue here =>
  simp only [isNode, Bool.true_and, Bool.and_eq_true, decide_eq_true_eq, width_node] at here
  refine ⟨here.1, here.2, ?_⟩
  simp only [nodeKind?, enclosing?, width_node] at search
  split at search
  case isTrue block =>
    have block : kind = .block := by simpa using block
    subst block
    rcases Option.or_eq_some_iff.mp search with below | ⟨-, here⟩
    · obtain ⟨inner, there, rfl⟩ := Option.map_eq_some_iff.mp below
      exact .inl ⟨inner, _, .inr ⟨rfl, rfl⟩, there, rfl⟩
    · exact .inr ⟨rfl, (Option.some.inj here).symm⟩
  case isFalse other =>
    obtain ⟨inner, there, rfl⟩ := Option.map_eq_some_iff.mp search
    exact .inl ⟨inner, _, .inl ⟨fun block => other (by rw [block]; rfl), rfl⟩, there, rfl⟩

theorem head_of_opens {leaves : List Leaf} (opens : Opens leaves) (some : leaves ≠ [])
    (back : List Leaf) : (leaves ++ back).head?.map isSignificant = .some true := by
  obtain ⟨leaf, rest, rfl⟩ := List.exists_cons_of_ne_nil some
  exact congrArg Option.some (opens leaf rfl)

namespace Embraces

variable {leaves front inner back : List Leaf} {level : Nat}
  (embraces : Embraces edit start depth leaves found front inner back level)
include embraces

theorem inner_ne_nil : inner ≠ [] := fun none => by
  obtain ⟨text, last⟩ := embraces.closes
  rw [none] at last
  exact nomatch last

/-- The closing brace of the block is a significant leaf. -/
theorem total_pos : 0 < total inner := by
  obtain ⟨text, last⟩ := embraces.closes
  exact List.countP_pos_iff.mpr ⟨_, List.mem_of_getLast? last, rfl⟩

/-- The leaves from those before the block on begin alike if the block does. -/
theorem head_eq {inner' : List Leaf} {children' : List Outline} (snug : Snug inner' children') :
    (front ++ (inner' ++ back)).head?.map isSignificant =
      (front ++ (inner ++ back)).head?.map isSignificant := by
  cases front with
  | nil =>
    exact (head_of_opens snug.opens snug.some back).trans
      (head_of_opens embraces.opens embraces.inner_ne_nil back).symm
  | cons => rfl

end Embraces

/-- Leaves that begin like others open if these do. -/
theorem opens_of_head {leaves leaves' : List Leaf} (opens : Opens leaves)
    (head : leaves'.head?.map isSignificant = leaves.head?.map isSignificant) : Opens leaves' := by
  intro leaf here
  rw [here] at head
  obtain ⟨other, there, same⟩ := Option.map_eq_some_iff.mp head.symm
  exact same.symm.trans (opens other there)

/-- The last leaf of a closed block is its closing brace. -/
theorem Closed.last_leaf (closed : Closed found) :
    ∃ text, (leavesAll found.block.children).getLast? = some (.rightBrace, text) := by
  obtain ⟨tree, last, kind⟩ := Option.bind_eq_some_iff.mp closed
  obtain ⟨text, rfl⟩ : ∃ text, tree = .leaf .rightBrace text := by
    cases tree with
    | node => exact nomatch kind
    | leaf kind' text => exact ⟨text, by rw [Option.some.inj kind]⟩
  obtain ⟨others, split⟩ := List.getLast?_eq_some_iff.mp last
  refine ⟨text, ?_⟩
  rw [split, leavesAll_append, leavesAll_cons, leavesAll_nil, List.append_nil, Tree.leaves]
  exact List.getLast?_concat

/-- A node that is itself the block. -/
theorem exists_embraces_here {leaves : List Leaf} {children : List Outline}
    (starts : start + width (skipped leaves) < edit.offset)
    (stops : edit.oldStop <
      start + width (skipped leaves) + widthAll (fillAll (unskipped leaves) children).1)
    (here : found = ⟨.node .block (fillAll (unskipped leaves) children).1,
      [index + (skipped leaves).length], start + width (skipped leaves),
      start + width (skipped leaves) + widthAll (fillAll (unskipped leaves) children).1, depth⟩)
    (closed : Closed found) (enough : countAll children ≤ total leaves) :
    ∃ front inner back level, Embraces edit start depth leaves found front inner back level ∧
      HasBlock (total (inner ++ back)) (total inner) level (total leaves) (.node .block children) ∧
      Hosts found index (fill leaves (.node .block children)).1
        (fill leaves (.node .block children)).2 fun inner' children' =>
          fill (front ++ (inner' ++ back))
            (exchange (total (inner ++ back)) children' level (total leaves)
              (.node .block children)) := by
  have whole := leavesAll_fillAll (unskipped leaves) children
  have left := total_fillAll (unskipped leaves) children
  have totals := congrArg total whole
  rw [total_append, total_unskipped] at totals
  rw [total_unskipped] at left
  obtain ⟨text, last⟩ := closed.last_leaf
  subst here
  have embraces : Embraces edit start depth leaves
      ⟨.node .block (fillAll (unskipped leaves) children).1,
        [index + (skipped leaves).length], start + width (skipped leaves),
        start + width (skipped leaves) + widthAll (fillAll (unskipped leaves) children).1, depth⟩
      (skipped leaves) (leavesAll (fillAll (unskipped leaves) children).1)
      (fillAll (unskipped leaves) children).2 0 := by
    refine ⟨?_, @Opens.of_append _ (fillAll (unskipped leaves) children).2 ?_, ⟨text, last⟩, rfl,
      ?_, rfl, starts, stops⟩
    · rw [whole, skipped_append_unskipped]
    · rw [whole]
      exact opens_unskipped leaves
    · rw [width_leavesAll]
  have some := embraces.total_pos
  have place : total (leavesAll (fillAll (unskipped leaves) children).1 ++
      (fillAll (unskipped leaves) children).2) = total leaves := by
    rw [whole, total_unskipped]
  refine ⟨_, _, _, 0, embraces, ?_, ?_⟩
  · rw [hasBlock_here]
    exact ⟨place.symm, by omega⟩
  refine ⟨(skipped leaves).map toTree, .node .block (fillAll (unskipped leaves) children).1, [],
    [], by rw [fill_node], by rw [List.length_map], fun inner' children' snug => ?_⟩
  obtain ⟨skip, left'⟩ := skipped_of_append (@insignificant_of_mem_skipped leaves)
    (snug.opens_append (fillAll (unskipped leaves) children).2)
  refine ⟨.node .block (fillAll inner' children').1, ?_, .inl ⟨rfl, rfl⟩⟩
  dsimp only
  rw [exchange_here, if_pos ⟨place.symm, by omega⟩, fill_node, skip, left', snug.takes, fill_node]

mutual
/-- The block that is found among the trees of one outline. -/
theorem exists_embraces_fill {start depth index : Nat} {found : Enclosing} {leaves : List Leaf}
    {outline : Outline}
    (search : enclosingAmong? edit start depth index (fill leaves outline).1 = some found)
    (closed : Closed found) (enough : outline.count ≤ total leaves) :
    ∃ front inner back level, Embraces edit start depth leaves found front inner back level ∧
      HasBlock (total (inner ++ back)) (total inner) level (total leaves) outline ∧
      Hosts found index (fill leaves outline).1 (fill leaves outline).2 fun inner' children' =>
        fill (front ++ (inner' ++ back))
          (exchange (total (inner ++ back)) children' level (total leaves) outline) := by
  match outline with
  | .token =>
    rw [fill_token, enclosingAmong?_leaves_eq_none] at search
    exact nomatch search
  | .node kind children =>
    rw [fill_node, enclosingAmong?_leaves] at search
    obtain ⟨starts, stops, below | ⟨rfl, rfl⟩⟩ := enclosingAmong?_node search
    · obtain ⟨found, depth', kind_eq, below, rfl⟩ := below
      rw [count_node, ← total_unskipped] at enough
      obtain ⟨front, inner, back, level, embraces, has, hosts⟩ :=
        exists_embraces_fillAll below closed enough
      obtain ⟨before, child, after, path, trees, path_eq, hosts⟩ := hosts
      -- one level more if the node is a block
      obtain ⟨level', levels, exchanged, has'⟩ : ∃ level', depth' + level = depth + level' ∧
          (∀ place children' left, exchange place children' level' left (.node kind children) =
            .node kind (exchangeAll place children' level left children)) ∧
          (∀ place size left, HasBlock place size level' left (.node kind children) ↔
            HasBlockAll place size level left children) := by
        rcases kind_eq with ⟨other, rfl⟩ | ⟨rfl, rfl⟩
        · exact ⟨level, rfl, fun _ _ _ => exchange_other other children,
            fun _ _ _ => hasBlock_other other children⟩
        · exact ⟨level + 1, by omega, fun _ _ _ => exchange_block children,
            fun _ _ _ => hasBlock_block children⟩
      rw [total_unskipped] at has hosts
      refine ⟨skipped leaves ++ front, inner, back, level', ?_, (has' ..).mpr has, ?_⟩
      · have around := embraces.behind levels ((index + (skipped leaves).length) :: found.path)
        rwa [skipped_append_unskipped] at around
      refine ⟨(skipped leaves).map toTree, .node kind (fillAll (unskipped leaves) children).1, [],
        found.path, by rw [fill_node], by rw [List.length_map]; rfl, fun inner' children' snug => ?_⟩
      obtain ⟨child', filled, replaces⟩ := hosts inner' children' snug
      have opens : Opens (front ++ (inner' ++ back)) :=
        opens_of_head (opens_unskipped leaves) (embraces.split ▸ embraces.head_eq snug)
      obtain ⟨skip, left⟩ := skipped_of_append
        (@insignificant_of_mem_skipped leaves) opens
      refine ⟨.node kind (before ++ child' :: after), ?_, ?_⟩
      · dsimp only at filled ⊢
        rw [exchanged, List.append_assoc, fill_node, skip, left, filled, fill_node]
      · rw [trees, path_eq, Nat.zero_add]
        exact replaces.of_node kind before after
    · rw [count_node] at enough
      exact exists_embraces_here starts stops rfl closed enough
/-- The block that is found among the trees of several outlines. -/
theorem exists_embraces_fillAll {start depth index : Nat} {found : Enclosing} {leaves : List Leaf}
    {outlines : List Outline}
    (search : enclosingAmong? edit start depth index (fillAll leaves outlines).1 = some found)
    (closed : Closed found) (enough : countAll outlines ≤ total leaves) :
    ∃ front inner back level, Embraces edit start depth leaves found front inner back level ∧
      HasBlockAll (total (inner ++ back)) (total inner) level (total leaves) outlines ∧
      Hosts found index (fillAll leaves outlines).1 (fillAll leaves outlines).2
        fun inner' children' => fillAll (front ++ (inner' ++ back))
          (exchangeAll (total (inner ++ back)) children' level (total leaves) outlines) := by
  match outlines with
  | [] =>
    rw [fillAll_nil, enclosingAmong?] at search
    exact nomatch search
  | first :: rest =>
    rw [countAll_cons] at enough
    have left := total_fill leaves first
    rw [fillAll_cons] at search
    rcases enclosingAmong?_append (fill leaves first).1 (fillAll (fill leaves first).2 rest).1
      with here | later
    · rw [here] at search
      obtain ⟨front, inner, back, level, embraces, has, before, child, after, path, trees, path_eq,
        hosts⟩ := exists_embraces_fill search closed (by omega)
      have some := embraces.total_pos
      have within := has.within
      have place : total (inner ++ back) = total inner + total back := total_append _ _
      refine ⟨front, inner, back, level, embraces, (hasBlockAll_cons ..).mpr (.inl has), before,
        child, after ++ (fillAll (fill leaves first).2 rest).1, path, ?_, path_eq,
        fun inner' children' snug => ?_⟩
      · rw [fillAll_cons, trees, List.append_assoc, List.cons_append]
      obtain ⟨child', filled, replaces⟩ := hosts inner' children' snug
      refine ⟨child', ?_, replaces⟩
      dsimp only at filled ⊢
      rw [exchangeAll_cons, exchangeAll_apart rest (.inl (by omega)), fillAll_cons, filled,
        fillAll_cons, List.append_assoc, List.cons_append]
    · rw [later] at search
      obtain ⟨front, inner, back, level, embraces, has, before, child, after, path, trees, path_eq,
        hosts⟩ := exists_embraces_fillAll search closed (by omega)
      have split := embraces.split
      have place := congrArg total split
      rw [total_append] at place
      have whole := leavesAll_fill leaves first
      rw [left] at has hosts
      refine ⟨leavesAll (fill leaves first).1 ++ front, inner, back, level, ?_,
        (hasBlockAll_cons ..).mpr (.inr has), (fill leaves first).1 ++ before, child, after, path, ?_,
        ?_, fun inner' children' snug => ?_⟩
      · rw [← width_leavesAll] at embraces
        have around := embraces.behind rfl found.path
        rwa [whole] at around
      · rw [fillAll_cons, trees, List.append_assoc]
      · rw [path_eq, List.length_append, Nat.add_assoc]
      obtain ⟨child', filled, replaces⟩ := hosts inner' children' snug
      have ends : (fill (leavesAll (fill leaves first).1 ++ (front ++ (inner ++ back))) first).2 =
          front ++ (inner ++ back) := by rw [← split, whole]
      have local_fill := fill_local ends (embraces.head_eq snug)
      rw [← split, whole] at local_fill
      refine ⟨child', ?_, replaces⟩
      dsimp only at filled ⊢
      rw [exchangeAll_cons, exchange_apart first (.inr (by omega)), List.append_assoc, fillAll_cons,
        local_fill, filled, fillAll_cons, List.append_assoc]
end

/-- The block that is found in a tree that is planted from outlines. -/
theorem exists_of_enclosing? {leaves : List Leaf} {outlines : List Outline}
    (search : enclosing? edit 0 0 (.node .root (plant leaves outlines)) = some found)
    (closed : Closed found) (enough : countAll outlines ≤ total leaves) :
    ∃ front inner back level, Embraces edit 0 0 leaves found front inner back level ∧
      HasBlockAll (total (inner ++ back)) (total inner) level (total leaves) outlines ∧
      ∀ inner' children', Snug inner' children' →
        (Tree.node .root (plant leaves outlines)).replaceAt? found.path
            (.node .block (fillAll inner' children').1) =
          some (.node .root (plant (front ++ (inner' ++ back))
            (exchangeAll (total (inner ++ back)) children' level (total leaves) outlines))) := by
  rw [enclosing?, plant] at search
  rcases @enclosingAmong?_append edit 0 0 0 (fillAll leaves outlines).1
    ((fillAll leaves outlines).2.map toTree) with here | later
  · rw [here] at search
    obtain ⟨front, inner, back, level, embraces, has, before, child, after, path, trees, path_eq,
      hosts⟩ := exists_embraces_fillAll search closed enough
    refine ⟨front, inner, back, level, embraces, has, fun inner' children' snug => ?_⟩
    obtain ⟨child', filled, replaces⟩ := hosts inner' children' snug
    dsimp only at filled
    have replaced := replaces.node .root before (after ++ (fillAll leaves outlines).2.map toTree)
    rw [plant, plant, filled, trees, path_eq, Nat.zero_add, List.append_assoc, List.cons_append,
      List.append_assoc, List.cons_append]
    exact replaced
  · rw [later, enclosingAmong?_leaves_eq_none] at search
    exact nomatch search

end LosslessSyntax.Reparse

import LosslessSyntax.Proofs.Tree.Replay
import Mathlib.Data.Finset.Card
import Mathlib.Data.Finset.Union

/-! # Whatever the events, no token is lost

Replaying events keeps every token as long as a node is open: what has been placed in the open
nodes, followed by what is still ahead, stays the same (`TreeBuilder.Keeps`). How many nodes are
open can be told from the events alone. With the first so many events those nodes begin that begin
there, and those that enclose one of them (`Event.begun`), and each end takes one away. Following a
forward parent when a node begins does not change the account (`Event.card_begun_start`), so the
outermost node takes what is left over if it does not end before the last event (`leaves_ofEvents`).
-/

namespace LosslessSyntax

namespace Event

/-- The places at which forward parents are followed from a beginning, its own included; places are
counted from the first of the events. -/
def reached : Nat → List Event → Finset Nat
  | _, [] => ∅
  | 0, .start _ (some (distance + 1)) :: rest => insert 0 ((reached distance rest).image (· + 1))
  | 0, .start _ _ :: _ => {0}
  | 0, _ :: _ => ∅
  | place + 1, _ :: rest => (reached place rest).image (· + 1)

/-- The nodes that begin with the first so many events: those that begin there, and those that
enclose one of them. -/
def begun (count : Nat) (events : List Event) : Finset Nat :=
  (Finset.range count).biUnion fun place => reached place events

/-- Where so many nodes are open, the events end all of them with the last event at most. -/
def Outlasts (opened : Nat) (events : List Event) : Prop :=
  ∀ count < events.length, (events.take count).count .finish < opened + (begun count events).card

/-- The first event that has not been given up begins a node, and from there on a node is open up to
the last event. -/
structure Rooted (events : List Event) : Prop where
  first : ∃ kind parent, events.find? (· != .tombstone) = some (.start kind parent)
  last : ∀ count < events.length, (∃ event ∈ events.take count, event ≠ .tombstone) →
    (events.take count).count .finish < (begun count events).card

theorem begun_cons (count : Nat) (event : Event) (rest : List Event) :
    begun (count + 1) (event :: rest) =
      reached 0 (event :: rest) ∪ (begun count rest).image (· + 1) := by
  ext place
  simp only [begun, Finset.mem_biUnion, Finset.mem_range, Finset.mem_union, Finset.mem_image]
  constructor
  · rintro ⟨_ | first, earlier, member⟩
    · exact .inl member
    · rw [reached, Finset.mem_image] at member
      obtain ⟨inner, member, rfl⟩ := member
      exact .inr ⟨inner, ⟨first, Nat.lt_of_succ_lt_succ earlier, member⟩, rfl⟩
  · rintro (member | ⟨inner, ⟨first, earlier, member⟩, rfl⟩)
    · exact ⟨0, Nat.succ_pos count, member⟩
    · refine ⟨first + 1, Nat.succ_lt_succ earlier, ?_⟩
      rw [reached]
      exact Finset.mem_image_of_mem _ member

theorem card_image_succ (places : Finset Nat) : (places.image (· + 1)).card = places.card :=
  Finset.card_image_of_injective _ (Nat.succ_injective)

/-- An event that begins nothing only moves the account by one place. -/
theorem card_begun_other {event : Event} (other : ∀ kind parent, event ≠ .start kind parent)
    (count : Nat) (rest : List Event) :
    (begun (count + 1) (event :: rest)).card = (begun count rest).card := by
  have none : reached 0 (event :: rest) = ∅ := by
    cases event with
    | start kind parent => exact absurd rfl (other kind parent)
    | _ => rfl
  rw [begun_cons, none, Finset.empty_union, card_image_succ]

/-- Places that are moved by one keep their relations. -/
theorem image_reached {distance place : Nat} {rest rest' : List Event}
    (within : reached place rest ⊆ reached distance rest ∪ reached place rest') :
    (reached place rest).image (· + 1) ⊆
      (reached distance rest).image (· + 1) ∪ (reached place rest').image (· + 1) := by
  rw [← Finset.image_union]
  exact Finset.image_subset_image within

theorem reached_behind {distance : Nat} {rest rest' : List Event}
    (within : ∀ place, reached place rest ⊆ reached distance rest ∪ reached place rest')
    (event : Event) (place : Nat) :
    reached place (event :: rest) ⊆
      (reached distance rest).image (· + 1) ∪ reached place (event :: rest') := by
  match place, event with
  | place + 1, event =>
    simp only [reached]
    exact image_reached (within place)
  | 0, .start kind (some (further + 1)) =>
    simp only [reached, Finset.union_insert]
    exact Finset.insert_subset_insert 0 (image_reached (within further))
  | 0, .start kind (some 0) | 0, .start kind none | 0, .token | 0, .finish | 0, .tombstone =>
    exact Finset.subset_union_right

/-- Following forward parents begins as many nodes as it reaches, and no others are begun with what
is left. -/
theorem reached_claimParents (distance : Nat) (events : List Event) :
    (reached distance events).card ≤ (claimParents distance events).1.length ∧
      ∀ place, reached place events ⊆
        reached distance events ∪ reached place (claimParents distance events).2 := by
  fun_induction claimParents distance events with
  | case1 => exact ⟨Nat.le_refl 0, fun place => Finset.subset_union_left⟩
  | case2 kind distance rest kinds rest' claimed ih =>
    rw [claimed] at ih
    obtain ⟨size, within⟩ := ih
    refine ⟨?_, fun place => ?_⟩
    · have := Finset.card_insert_le 0 ((reached distance rest).image (· + 1))
      rw [card_image_succ] at this
      simp only [reached, List.length_cons] at size ⊢
      omega
    · cases place with
      | zero => exact Finset.subset_union_left
      | succ place =>
        simp only [reached]
        refine (image_reached (within place)).trans ?_
        exact Finset.union_subset_union_left (Finset.subset_insert _ _)
  | case3 kind parent rest last =>
    have alone : reached 0 (.start kind parent :: rest) = {0} := by
      rw [reached]
      exact last
    refine ⟨by rw [alone]; exact Nat.le_refl 1, fun place => ?_⟩
    cases place with
    | zero => exact Finset.subset_union_left
    | succ place =>
      simp only [reached]
      exact Finset.subset_union_right
  | case4 event rest _ other =>
    have none : reached 0 (event :: rest) = ∅ := by
      cases event with
      | start kind parent => exact absurd rfl (other kind parent)
      | _ => rfl
    refine ⟨by rw [none]; exact Nat.le_refl 0, fun place => ?_⟩
    cases place with
    | zero => exact Finset.subset_union_left
    | succ place =>
      simp only [reached]
      exact Finset.subset_union_right
  | case5 distance event rest kinds rest' claimed ih =>
    rw [claimed] at ih
    obtain ⟨size, within⟩ := ih
    refine ⟨by rwa [reached, card_image_succ], fun place => ?_⟩
    rw [reached]
    exact reached_behind within event place

/-- Following forward parents gives up some events. -/
theorem count_claimParents (distance : Nat) (events : List Event) (count : Nat) :
    ((claimParents distance events).2.take count).count .finish ≤
      (events.take count).count .finish := by
  fun_induction claimParents distance events generalizing count with
  | case1 => exact Nat.le_refl _
  | case2 kind distance rest kinds rest' claimed ih =>
    cases count with
    | zero => exact Nat.le_refl _
    | succ count => simpa [claimed] using ih count
  | case3 | case4 =>
    cases count with
    | zero => exact Nat.le_refl _
    | succ count => simp [List.count_cons]
  | case5 distance event rest kinds rest' claimed ih =>
    cases count with
    | zero => exact Nat.le_refl _
    | succ count => simpa [claimed, List.count_cons] using ih count

/-- With a node begin those that enclose it, and apart from these the others. -/
theorem card_begun_start (kind : NodeKind) (parent : Option Nat) (count : Nat) (rest : List Event) :
    (begun (count + 1) (.start kind parent :: rest)).card ≤
      (parentsOf parent rest).1.length + 1 + (begun count (parentsOf parent rest).2).card := by
  rw [begun_cons]
  have behind := card_image_succ (begun count rest)
  match parent with
  | none | some 0 =>
    have := Finset.card_union_le {0} ((begun count rest).image (· + 1))
    simp only [reached, parentsOf, List.length_nil, Finset.card_singleton] at this ⊢
    omega
  | some (distance + 1) =>
    obtain ⟨size, within⟩ := reached_claimParents distance rest
    have all : begun count rest ⊆
        reached distance rest ∪ begun count (claimParents distance rest).2 := by
      refine Finset.biUnion_subset.mpr fun place earlier => (within place).trans ?_
      exact Finset.union_subset_union_right
        (Finset.subset_biUnion_of_mem (fun place => reached place _) earlier)
    have together : reached 0 (.start kind (some (distance + 1)) :: rest) ∪
        (begun count rest).image (· + 1) ⊆
          insert 0 ((reached distance rest ∪ begun count (claimParents distance rest).2).image
            (· + 1)) := by
      rw [reached, Finset.insert_union]
      refine Finset.insert_subset_insert 0 (Finset.union_subset ?_ (Finset.image_subset_image all))
      exact Finset.image_subset_image Finset.subset_union_left
    have := Finset.card_le_card together
    have := Finset.card_insert_le 0 ((reached distance rest ∪
      begun count (claimParents distance rest).2).image (· + 1))
    have := card_image_succ (reached distance rest ∪ begun count (claimParents distance rest).2)
    have := Finset.card_union_le (reached distance rest)
      (begun count (claimParents distance rest).2)
    simp only [parentsOf]
    omega

namespace Outlasts

variable {opened : Nat} {rest : List Event}

/-- A node that begins, with those that enclose it, makes up for the events it takes. -/
theorem start (kind : NodeKind) {parent : Option Nat}
    (behind : ∀ count < rest.length, (rest.take count).count .finish <
      opened + (begun (count + 1) (.start kind parent :: rest)).card) :
    Outlasts (opened + ((parentsOf parent rest).1.length + 1)) (parentsOf parent rest).2 := by
  intro count within
  rw [length_parentsOf] at within
  have before := behind count within
  have := card_begun_start kind parent count rest
  have fewer : ((parentsOf parent rest).2.take count).count .finish ≤
      (rest.take count).count .finish := by
    match parent with
    | none | some 0 => exact Nat.le_refl _
    | some (distance + 1) => exact count_claimParents distance rest count
  omega

/-- An event that neither begins nor ends a node makes no difference. -/
theorem other {event : Event} (outlasts : Outlasts opened (event :: rest))
    (starts : ∀ kind parent, event ≠ .start kind parent) (finishes : event ≠ .finish) :
    Outlasts opened rest := by
  intro count within
  have before := outlasts (count + 1) (Nat.succ_lt_succ within)
  rwa [card_begun_other starts, List.take_succ_cons, List.count_cons_of_ne finishes] at before

/-- An end that is not the last event leaves a node open. -/
theorem finish (outlasts : Outlasts opened (.finish :: rest)) (more : rest ≠ []) :
    1 < opened ∧ Outlasts (opened - 1) rest := by
  have onward {count : Nat} (within : count < rest.length) :=
    outlasts (count + 1) (Nat.succ_lt_succ within)
  simp only [List.take_succ_cons, List.count_cons_self,
    @card_begun_other .finish (by simp)] at onward
  have first := onward (List.length_pos_iff.mpr more)
  simp only [List.take_zero, List.count_nil, begun, Finset.range_zero, Finset.biUnion_empty,
    Finset.card_empty] at first
  refine ⟨by omega, fun count within => ?_⟩
  have := onward within
  simp only [begun] at this ⊢
  omega

end Outlasts

end Event

namespace TreeBuilder

open Event LosslessSyntax.Tree

/-- The leaves that have been placed in open nodes. -/
def placed : List (NodeKind × List Tree) → List Leaf
  | [] => []
  | (_, children) :: outer => placed outer ++ leavesAll children.reverse

/-- The tokens that are to become leaves, as such. -/
def upcoming (tokens : List Token) : List Leaf :=
  (tokens.filter (·.kind != .eof)).map Token.leaf

theorem upcoming_append (front back : List Token) :
    upcoming (front ++ back) = upcoming front ++ upcoming back := by
  simp [upcoming]

/-- So many nodes are open, at least one, and all leaves have been placed in them or are still
ahead. -/
structure Keeps (b : TreeBuilder) (height : Nat) (leaves : List Leaf) : Prop where
  opened : b.stack.length = height
  positive : 0 < height
  all : placed b.stack ++ upcoming b.tokens = leaves

variable {b : TreeBuilder} {height : Nat} {leaves : List Leaf}

theorem leavesAll_leafOf (tokens : List Token) :
    leavesAll (tokens.map leafOf) = tokens.map Token.leaf := by
  have same : tokens.map leafOf = (tokens.map Token.leaf).map Leaf.toTree := by
    rw [List.map_map]
    rfl
  rw [same, leavesAll_toTree]

theorem tokens_add (b : TreeBuilder) (children : List Tree) :
    (b.add children).tokens = b.tokens := by
  rw [add]
  split <;> rfl

namespace Keeps

/-- Children that are added to the innermost node come behind all that has been placed. -/
theorem add {children : List Tree} {before : List Leaf} (length : b.stack.length = height)
    (positive : 0 < height)
    (all : placed b.stack ++ (leavesAll children ++ upcoming b.tokens) = before) :
    (b.add children).Keeps height before := by
  obtain ⟨⟨kind, inner⟩, outer, stack⟩ := List.exists_cons_of_length_pos (length ▸ positive)
  refine ⟨?_, positive, ?_⟩
  · rw [← length]
    simp [TreeBuilder.add, stack]
  · rw [tokens_add, ← all]
    simp [TreeBuilder.add, stack, placed]

/-- Tokens that are placed were the next ones. -/
theorem place (keeps : b.Keeps height leaves) {front back : List Token}
    (split : b.tokens = front ++ back) (inside : ∀ token ∈ front, token.kind ≠ .eof) :
    (({ b with tokens := back }).add (front.map leafOf)).Keeps height leaves := by
  have taken : front.filter (·.kind != .eof) = front :=
    List.filter_eq_self.mpr fun token member => bne_iff_ne.mpr (inside token member)
  refine add keeps.opened keeps.positive ?_
  rw [← keeps.all, split, upcoming_append, leavesAll_leafOf, upcoming, upcoming, taken]

theorem attachSkipped (keeps : b.Keeps height leaves) : b.attachSkipped.Keeps height leaves := by
  have occupied : b.stack.isEmpty = false := by
    have := keeps.opened
    have := keeps.positive
    cases stack : b.stack with
    | nil => simp_all
    | cons => rfl
  rw [TreeBuilder.attachSkipped, occupied]
  refine keeps.place List.takeWhile_append_dropWhile.symm fun token member kind => ?_
  have skipped := List.all_eq_true.mp List.all_takeWhile token member
  rw [kind] at skipped
  exact absurd skipped (by decide)

theorem start (keeps : b.Keeps height leaves) (kind : NodeKind) :
    (b.start kind).Keeps (height + 1) leaves := by
  have attached := keeps.attachSkipped
  refine ⟨congrArg (· + 1) attached.opened, Nat.succ_pos _, ?_⟩
  rw [← attached.all]
  simp [TreeBuilder.start, placed]

theorem startAll (keeps : b.Keeps height leaves) (kinds : List NodeKind) :
    (b.startAll kinds).Keeps (height + kinds.length) leaves := by
  induction kinds with
  | nil => exact keeps
  | cons kind kinds ih =>
    rw [startAll_cons]
    exact ih.start kind

/-- The outermost node begins before anything is placed. -/
theorem first (tokens : List Token) (kind : NodeKind) (kinds : List NodeKind) :
    (TreeBuilder.startAll ⟨tokens, [], none⟩ (kind :: kinds)).Keeps (kinds.length + 1)
      (upcoming tokens) := by
  rw [startAll_cons]
  induction kinds generalizing kind with
  | nil =>
    refine ⟨rfl, Nat.one_pos, ?_⟩
    simp [TreeBuilder.start, TreeBuilder.attachSkipped, TreeBuilder.startAll, placed]
  | cons outer kinds ih =>
    rw [startAll_cons]
    exact (ih outer).start kind

theorem token (keeps : b.Keeps height leaves) : b.token.Keeps height leaves := by
  have attached := keeps.attachSkipped
  rw [TreeBuilder.token]
  split
  · exact attached
  case h_2 next rest tokens =>
    split
    · exact attached
    case isFalse inside =>
      refine attached.place (show _ = [next] ++ rest from tokens) fun token member => ?_
      rw [List.mem_singleton.mp member]
      exact beq_eq_false_iff_ne.mp (Bool.eq_false_iff.mpr inside)

/-- An inner node that ends goes into the one around it. -/
theorem finish (keeps : b.Keeps height leaves) (more : 1 < height) :
    b.finish.Keeps (height - 1) leaves := by
  obtain ⟨⟨kind, children⟩, outer, stack⟩ :=
    List.exists_cons_of_length_pos (keeps.opened ▸ keeps.positive)
  have length := keeps.opened
  rw [stack, List.length_cons] at length
  obtain ⟨next, others, rfl⟩ := List.exists_cons_of_length_pos (l := outer) (by omega)
  rw [TreeBuilder.finish, stack]
  refine add (by dsimp only; omega) (by omega) ?_
  rw [← keeps.all, stack]
  simp [placed]

/-- The outermost node takes what is left when it ends. -/
theorem finish_last (keeps : b.Keeps 1 leaves) :
    ∃ root, b.finish = ⟨[], [], some root⟩ ∧ root.leaves = leaves := by
  obtain ⟨⟨kind, children⟩, stack⟩ := List.length_eq_one_iff.mp keeps.opened
  refine ⟨.node kind (children.reverse ++ b.remaining), by rw [TreeBuilder.finish, stack], ?_⟩
  rw [← keeps.all, stack, leaves_node, leavesAll_append, remaining, leavesAll_leafOf]
  rfl

end Keeps

/-- Ending as many nodes as are open leaves the outermost one. -/
theorem Keeps.exists_root (keeps : b.Keeps height leaves) {α : Type} {nodes : List α}
    (all : nodes.length = height) :
    ∃ root, nodes.foldl (fun b _ => b.finish) b = ⟨[], [], some root⟩ ∧ root.leaves = leaves := by
  induction nodes generalizing b height with
  | nil =>
    have := keeps.positive
    simp at all
    omega
  | cons first others ih =>
    rw [List.foldl_cons]
    cases others with
    | nil =>
      obtain rfl : 1 = height := all
      exact keeps.finish_last
    | cons next others =>
      rw [List.length_cons, List.length_cons] at all
      refine ih (keeps.finish (by omega)) ?_
      rw [List.length_cons]
      omega

theorem Keeps.leaves_toTree (keeps : b.Keeps height leaves) : b.toTree.leaves = leaves := by
  obtain ⟨root, closed, same⟩ := keeps.exists_root keeps.opened
  rw [toTree, closeAll, closed]
  exact same

/-- No leaf is lost in events that keep a node open. -/
theorem Keeps.leaves_replay (keeps : b.Keeps height leaves) {events : List Event}
    (outlasts : Outlasts height events) : (b.replay events).toTree.leaves = leaves := by
  induction size : events.length using Nat.strongRecOn generalizing b height events with
  | _ n ih =>
  cases events with
  | nil =>
    rw [replay_nil]
    exact keeps.leaves_toTree
  | cons event rest =>
    have shorter : rest.length < n := by
      rw [← size, List.length_cons]
      exact Nat.lt_succ_self _
    cases event with
    | start kind parent =>
      rw [replay]
      refine ih _ (by rwa [length_parentsOf]) (keeps.startAll (kind :: (parentsOf parent rest).1))
        (.start kind fun count within => ?_) rfl
      have before := outlasts (count + 1) (Nat.succ_lt_succ within)
      rwa [List.take_succ_cons, List.count_cons_of_ne (by simp)] at before
    | token =>
      rw [replay_token]
      exact ih _ shorter keeps.token (outlasts.other (by simp) (by simp)) rfl
    | tombstone =>
      rw [replay_tombstone]
      exact ih _ shorter keeps (outlasts.other (by simp) (by simp)) rfl
    | finish =>
      rw [replay_finish]
      cases rest with
      | nil =>
        rw [replay_nil]
        rcases Nat.eq_or_lt_of_le keeps.positive with rfl | more
        · obtain ⟨root, closed, same⟩ := keeps.finish_last
          rw [closed]
          exact same
        · exact (keeps.finish more).leaves_toTree
      | cons next rest =>
        obtain ⟨more, outlasts⟩ := outlasts.finish (List.cons_ne_nil next rest)
        exact ih _ shorter (keeps.finish more) outlasts rfl

end TreeBuilder

/-- The leaves of a tree are all tokens but the ends, in their order. -/
theorem Tree.leaves_ofEvents (tokens : List Token) {events : List Event}
    (rooted : Event.Rooted events) :
    (Tree.ofEvents tokens events).leaves = TreeBuilder.upcoming tokens := by
  rw [Tree.ofEvents]
  induction events with
  | nil =>
    obtain ⟨_, _, first⟩ := rooted.first
    cases first
  | cons event rest ih =>
    obtain ⟨kind, parent, first⟩ := rooted.first
    have last {count : Nat} (within : count < rest.length) :=
      rooted.last (count + 1) (Nat.succ_lt_succ within)
    by_cases given : event = .tombstone
    · subst given
      rw [TreeBuilder.replay_tombstone]
      refine ih ⟨⟨kind, parent, first⟩, fun count within more => ?_⟩
      obtain ⟨event, member, other⟩ := more
      have behind := last within ⟨event, List.mem_cons_of_mem _ member, other⟩
      rwa [@Event.card_begun_other .tombstone (by simp), List.take_succ_cons,
        List.count_cons_of_ne (by simp)] at behind
    · rw [List.find?_cons_of_pos (by simpa using given)] at first
      obtain rfl := Option.some.inj first
      rw [TreeBuilder.replay]
      have outlasts : Event.Outlasts (0 + ((Event.parentsOf parent rest).1.length + 1))
          (Event.parentsOf parent rest).2 := by
        refine .start kind fun count within => ?_
        have behind := last within ⟨_, List.mem_cons_self, given⟩
        rwa [List.take_succ_cons, List.count_cons_of_ne (by simp),
          ← Nat.zero_add (Finset.card _)] at behind
      rw [Nat.zero_add] at outlasts
      exact (TreeBuilder.Keeps.first tokens kind _).leaves_replay outlasts

end LosslessSyntax

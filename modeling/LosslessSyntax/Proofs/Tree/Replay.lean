import LosslessSyntax.Proofs.Tree.Filling
import LosslessSyntax.Tree.Event

/-! # Replaying shapes

The events of shapes build the trees of their outlines. Following forward parents opens the nodes
that wrap a node before the node itself (`parentsOf_forwardParent`), so replaying the events of a
shape is growing its outline (`replay_eventsOfAll`), and growing an outline is filling it with the
tokens that are left (`Inside.growAll`).
-/

namespace LosslessSyntax

open Event Shape Outline

/-- The leaf of a token. -/
def Token.leaf (token : Token) : Leaf := (token.kind, token.text)

namespace Event

theorem claimParents_append (front back : List Event) :
    claimParents front.length (front ++ back) =
      ((claimParents 0 back).1, front ++ (claimParents 0 back).2) := by
  induction front with
  | nil => rfl
  | cons first front ih =>
    rw [List.length_cons, List.cons_append, claimParents, ih]
    rfl

/-- The nodes that are to wrap what comes before some events, inner ones first, and the events with
the beginnings of these nodes given up. -/
def claimed (wrapped : Bool) (events : List Event) : List NodeKind × List Event :=
  if wrapped then claimParents 0 events else ([], events)

@[simp] theorem claimed_false (events : List Event) : claimed false events = ([], events) := rfl

theorem parentsOf_forwardParent (wrapped : Bool) (inside events : List Event) :
    parentsOf (forwardParent wrapped inside) (inside ++ .finish :: events) =
      ((claimed wrapped events).1, inside ++ .finish :: (claimed wrapped events).2) := by
  cases wrapped with
  | false => rfl
  | true =>
    have through := claimParents_append (inside ++ [.finish]) events
    rw [List.length_append, List.append_assoc, List.append_assoc] at through
    exact through

theorem claimed_start (wrapped : Bool) (kind : NodeKind) (inside events : List Event) :
    claimed true (.start kind (forwardParent wrapped inside) :: (inside ++ .finish :: events)) =
      (kind :: (claimed wrapped events).1,
        .tombstone :: (inside ++ .finish :: (claimed wrapped events).2)) := by
  cases wrapped with
  | false => rfl
  | true =>
    have parents := parentsOf_forwardParent true inside events
    change claimParents (inside.length + 1) _ = _ at parents
    change claimParents 0 (.start kind (some (inside.length + 1 + 1)) :: _) = _
    rw [claimParents, parents]

end Event

namespace TreeBuilder

theorem replay_nil (b : TreeBuilder) : b.replay [] = b := by rw [replay]

theorem replay_token (b : TreeBuilder) (events : List Event) :
    b.replay (.token :: events) = b.token.replay events := by rw [replay]

theorem replay_finish (b : TreeBuilder) (events : List Event) :
    b.replay (.finish :: events) = b.finish.replay events := by rw [replay]

theorem replay_tombstone (b : TreeBuilder) (events : List Event) :
    b.replay (.tombstone :: events) = b.replay events := by rw [replay]

/-- Opens nodes, the last of them first. -/
def startAll (b : TreeBuilder) (kinds : List NodeKind) : TreeBuilder :=
  kinds.reverse.foldl start b

theorem startAll_cons (b : TreeBuilder) (kind : NodeKind) (kinds : List NodeKind) :
    b.startAll (kind :: kinds) = (b.startAll kinds).start kind := by
  rw [startAll, startAll, List.reverse_cons, List.foldl_append]
  rfl

theorem replay_start (b : TreeBuilder) (wrapped : Bool) (kind : NodeKind)
    (inside events : List Event) :
    b.replay (.start kind (forwardParent wrapped inside) :: (inside ++ .finish :: events)) =
      ((b.startAll (claimed wrapped events).1).start kind).replay
        (inside ++ .finish :: (claimed wrapped events).2) := by
  rw [replay, parentsOf_forwardParent, ← startAll_cons]
  rfl

mutual
/-- Builds an outline. -/
def grow (b : TreeBuilder) : Outline → TreeBuilder
  | .token => b.token
  | .node kind children => (growAll (b.start kind) children).finish
/-- Builds outlines one after the other. -/
def growAll (b : TreeBuilder) : List Outline → TreeBuilder
  | [] => b
  | first :: rest => growAll (grow b first) rest
end

@[simp] theorem grow_token (b : TreeBuilder) : b.grow .token = b.token := by rw [grow]

@[simp] theorem grow_node (b : TreeBuilder) (kind : NodeKind) (children : List Outline) :
    b.grow (.node kind children) = ((b.start kind).growAll children).finish := by rw [grow]

@[simp] theorem growAll_nil (b : TreeBuilder) : b.growAll [] = b := by rw [growAll]

@[simp] theorem growAll_cons (b : TreeBuilder) (first : Outline) (rest : List Outline) :
    b.growAll (first :: rest) = (b.grow first).growAll rest := by rw [growAll]

@[simp] theorem growAll_append (b : TreeBuilder) (front back : List Outline) :
    b.growAll (front ++ back) = (b.growAll front).growAll back := by
  induction front generalizing b with
  | nil => simp
  | cons first front ih => simp [ih]

mutual
/-- The events of a shape build its outline. If the shape is wrapped, and is more than a token, the
nodes that wrap it are opened before its last node. -/
theorem replay_eventsWithin (b : TreeBuilder) (wrapped : Bool) (shape : Shape)
    (events : List Event) :
    shape = .token ∨ ∃ before kind children, shape.outline = before ++ [.node kind children] ∧
      b.replay (shape.eventsWithin wrapped ++ events) =
        (((b.growAll before).startAll (claimed wrapped events).1).grow
          (.node kind children)).replay (claimed wrapped events).2 := by
  match shape with
  | .token => exact .inl rfl
  | .node kind children =>
    refine .inr ⟨[], kind, outlineAll children, outline_node kind children, ?_⟩
    have start := replay_start b wrapped kind (eventsOfAll children) events
    rw [replay_eventsOfAll _ children (.finish :: (claimed wrapped events).2), replay_finish,
      ← grow_node] at start
    simpa [eventsWithin] using start
  | .wrap kind first rest =>
    have whole : eventsWithin wrapped (.wrap kind first rest) ++ events =
        eventsWithin true first ++ (.start kind (forwardParent wrapped (eventsOfAll rest)) ::
          (eventsOfAll rest ++ .finish :: events)) := by
      simp [eventsWithin]
    rw [whole, outline_wrap]
    refine .inr ?_
    rcases replay_eventsWithin b true first _ with
      rfl | ⟨before, inner, children, outline, same⟩
    · -- a token cannot be wrapped, so the node that was to do so comes after it
      refine ⟨[.token], kind, outlineAll rest, by rw [outline_token]; rfl, ?_⟩
      have start := replay_start b.token wrapped kind (eventsOfAll rest) events
      rw [replay_eventsOfAll _ rest (.finish :: (claimed wrapped events).2), replay_finish] at start
      simpa [eventsWithin, replay_token] using start
    · refine ⟨before, kind, .node inner children :: outlineAll rest, ?_, ?_⟩
      · rw [outline, wrapLast_concat]
        rfl
      · rw [same, claimed_start, startAll_cons, replay_tombstone,
          replay_eventsOfAll _ rest (.finish :: (claimed wrapped events).2), replay_finish,
          grow_node _ kind, growAll_cons]
/-- The events of shapes build their outlines. -/
theorem replay_eventsOfAll (b : TreeBuilder) (shapes : List Shape) (events : List Event) :
    b.replay (eventsOfAll shapes ++ events) = (b.growAll (outlineAll shapes)).replay events := by
  match shapes with
  | [] => simp [eventsOfAll]
  | first :: rest =>
    rw [eventsOfAll, List.append_assoc, outlineAll_cons, growAll_append]
    rcases replay_eventsWithin b false first (eventsOfAll rest ++ events) with
      rfl | ⟨before, kind, children, outline, same⟩
    · rw [eventsWithin, List.singleton_append, replay_token, replay_eventsOfAll b.token rest events]
      simp
    · rw [same, claimed_false, replay_eventsOfAll _ rest events, outline]
      simp [startAll]
end

/-- Nothing is skipped at the end. -/
theorem takeWhile_append_ending {front ending : List Token}
    (ends : ∀ token ∈ ending, token.kind = .eof) :
    (front ++ ending).takeWhile (!·.kind.isSignificant) =
        front.takeWhile (!·.kind.isSignificant) ∧
      (front ++ ending).dropWhile (!·.kind.isSignificant) =
        front.dropWhile (!·.kind.isSignificant) ++ ending := by
  induction front with
  | nil =>
    cases ending with
    | nil => exact ⟨rfl, rfl⟩
    | cons last others =>
      have kind : last.kind = .eof := ends last List.mem_cons_self
      have significant : TokenKind.isSignificant .eof = true := rfl
      simp [kind, significant]
  | cons first front ih =>
    simp only [List.cons_append, List.takeWhile_cons, List.dropWhile_cons]
    split
    · exact ⟨congrArg _ ih.1, ih.2⟩
    · exact ⟨rfl, rfl⟩

/-- The builder is inside a node, with the given leaves ahead. -/
structure Inside (b : TreeBuilder) (kind : NodeKind) (children : List Tree)
    (outer : List (NodeKind × List Tree)) (leaves : List Leaf) (ending : List Token) : Prop where
  tokens : ∃ tokens, b.tokens = tokens ++ ending ∧ tokens.map Token.leaf = leaves
  stack : b.stack = (kind, children.reverse) :: outer
  root : b.root = none
  inside : ∀ leaf ∈ leaves, leaf.1 ≠ .eof
  ending : ∀ token ∈ ending, token.kind = .eof

namespace Inside

variable {b : TreeBuilder} {kind : NodeKind} {children : List Tree}
  {outer : List (NodeKind × List Tree)} {leaves : List Leaf} {ending : List Token}

theorem attachSkipped (inside : b.Inside kind children outer leaves ending) :
    b.attachSkipped.Inside kind (children ++ (Leaf.skipped leaves).map Leaf.toTree) outer
      (Leaf.unskipped leaves) ending := by
  obtain ⟨tokens, split, same⟩ := inside.tokens
  obtain ⟨taken, left⟩ := @takeWhile_append_ending tokens ending inside.ending
  have skipped : (tokens.takeWhile (!·.kind.isSignificant)).map Token.leaf = Leaf.skipped leaves := by
    rw [← same, Leaf.skipped, List.takeWhile_map]
    rfl
  have unskipped : (tokens.dropWhile (!·.kind.isSignificant)).map Token.leaf =
      Leaf.unskipped leaves := by
    rw [← same, Leaf.unskipped, List.dropWhile_map]
    rfl
  have attached : b.attachSkipped =
      ⟨tokens.dropWhile (!·.kind.isSignificant) ++ ending,
        (kind, (children ++ (Leaf.skipped leaves).map Leaf.toTree).reverse) :: outer, none⟩ := by
    rw [TreeBuilder.attachSkipped, inside.stack, split, taken, left, ← skipped, List.map_map]
    simp only [List.isEmpty_cons, Bool.false_eq_true, ↓reduceIte, add, inside.root,
      List.reverse_append]
    rfl
  rw [attached]
  refine ⟨⟨_, rfl, unskipped⟩, rfl, rfl, fun leaf member => ?_, inside.ending⟩
  exact inside.inside leaf ((List.dropWhile_sublist _).mem member)

theorem token (inside : b.Inside kind children outer leaves ending) :
    b.token.Inside kind (children ++ (fill leaves .token).1) outer (fill leaves .token).2
      ending := by
  have attached := inside.attachSkipped
  obtain ⟨tokens, split, same⟩ := attached.tokens
  rw [fill_token, ← same]
  rw [← same] at attached
  cases tokens with
  | nil =>
    have stays : b.token = b.attachSkipped := by
      rw [TreeBuilder.token, split]
      cases ending with
      | nil => rfl
      | cons last others =>
        have kind : last.kind = .eof := inside.ending last List.mem_cons_self
        simp [kind]
    rw [stays]
    simpa using attached
  | cons next rest =>
    have other : next.kind ≠ .eof :=
      attached.inside (Token.leaf next) (by rw [List.map_cons]; exact List.mem_cons_self)
    have taken : b.token =
        ⟨rest ++ ending, (kind, Leaf.toTree next.leaf :: (children ++
          (Leaf.skipped leaves).map Leaf.toTree).reverse) :: outer, none⟩ := by
      rw [TreeBuilder.token, split]
      simp only [List.cons_append, beq_iff_eq, other, ↓reduceIte, add, attached.stack,
        attached.root, List.reverse_singleton]
      rfl
    rw [taken]
    refine ⟨⟨rest, rfl, by simp⟩, ?_, rfl, fun leaf member => ?_, inside.ending⟩
    · simp
    · exact attached.inside leaf (List.mem_of_mem_tail (by simpa using member))

theorem start (inside : b.Inside kind children outer leaves ending) (inner : NodeKind) :
    (b.start inner).Inside inner []
      ((kind, (children ++ (Leaf.skipped leaves).map Leaf.toTree).reverse) :: outer)
      (Leaf.unskipped leaves) ending := by
  have attached := inside.attachSkipped
  refine ⟨attached.tokens, ?_, attached.root, attached.inside, attached.ending⟩
  rw [TreeBuilder.start, attached.stack]
  rfl

theorem finish {inner : NodeKind} {trees : List Tree}
    (inside : b.Inside inner trees ((kind, children.reverse) :: outer) leaves ending) :
    b.finish.Inside kind (children ++ [.node inner trees]) outer leaves ending := by
  have closed : b.finish =
      ⟨b.tokens, (kind, .node inner trees :: children.reverse) :: outer, none⟩ := by
    rw [TreeBuilder.finish, inside.stack]
    simp only [add, inside.root, List.reverse_singleton, List.singleton_append,
      List.reverse_reverse]
  rw [closed]
  exact ⟨inside.tokens, by simp, rfl, inside.inside, inside.ending⟩

end Inside

mutual
/-- Growing an outline is filling it. -/
theorem Inside.grow {b : TreeBuilder} {kind : NodeKind} {children : List Tree}
    {outer : List (NodeKind × List Tree)} {leaves : List Leaf} {ending : List Token}
    (inside : b.Inside kind children outer leaves ending) (outline : Outline) :
    (b.grow outline).Inside kind (children ++ (fill leaves outline).1) outer
      (fill leaves outline).2 ending := by
  match outline with
  | .token =>
    rw [grow_token]
    exact inside.token
  | .node inner inners =>
    rw [grow_node, fill_node, ← List.append_assoc]
    exact ((inside.start inner).growAll inners).finish
theorem Inside.growAll {b : TreeBuilder} {kind : NodeKind} {children : List Tree}
    {outer : List (NodeKind × List Tree)} {leaves : List Leaf} {ending : List Token}
    (inside : b.Inside kind children outer leaves ending) (outlines : List Outline) :
    (b.growAll outlines).Inside kind (children ++ (fillAll leaves outlines).1) outer
      (fillAll leaves outlines).2 ending := by
  match outlines with
  | [] =>
    rw [growAll_nil, fillAll_nil, List.append_nil]
    exact inside
  | first :: rest =>
    rw [growAll_cons, fillAll_cons, ← List.append_assoc]
    exact (inside.grow first).growAll rest
end

theorem Inside.remaining {b : TreeBuilder} {kind : NodeKind} {children : List Tree}
    {outer : List (NodeKind × List Tree)} {leaves : List Leaf} {ending : List Token}
    (inside : b.Inside kind children outer leaves ending) :
    b.remaining = leaves.map Leaf.toTree := by
  obtain ⟨tokens, split, same⟩ := inside.tokens
  have kept : tokens.filter (·.kind != .eof) = tokens := by
    refine List.filter_eq_self.mpr fun token member => bne_iff_ne.mpr ?_
    exact inside.inside token.leaf (same ▸ List.mem_map_of_mem member)
  have dropped : ending.filter (·.kind != .eof) = [] :=
    List.filter_eq_nil_iff.mpr fun token member => by simp [inside.ending token member]
  rw [TreeBuilder.remaining, split, List.filter_append, kept, dropped, List.append_nil, ← same,
    List.map_map]
  rfl

end TreeBuilder

/-- The tree of a recorded node is its outline filled with the tokens, and what is left of them. -/
theorem Tree.ofEvents_node (kind : NodeKind) (children : List Shape) {tokens ending : List Token}
    (inside : ∀ token ∈ tokens, token.kind ≠ .eof) (ends : ∀ token ∈ ending, token.kind = .eof) :
    Tree.ofEvents (tokens ++ ending) (eventsOfAll [.node kind children]) =
      .node kind ((fillAll (tokens.map Token.leaf) (Shape.outlineAll children)).1 ++
        (fillAll (tokens.map Token.leaf) (Shape.outlineAll children)).2.map Leaf.toTree) := by
  have replayed := TreeBuilder.replay_eventsOfAll ⟨tokens ++ ending, [], none⟩
    [.node kind children] []
  rw [List.append_nil, TreeBuilder.replay_nil, Shape.outlineAll_cons, Shape.outline_node,
    Shape.outlineAll_nil, List.append_nil, TreeBuilder.growAll_cons, TreeBuilder.growAll_nil,
    TreeBuilder.grow_node] at replayed
  have opened : ((⟨tokens ++ ending, [], none⟩ : TreeBuilder).start kind).Inside kind [] []
      (tokens.map Token.leaf) ending :=
    ⟨⟨tokens, rfl, rfl⟩, rfl, rfl, fun leaf member => by
      obtain ⟨token, here, rfl⟩ := List.mem_map.mp member
      exact inside token here, ends⟩
  have grown := opened.growAll (Shape.outlineAll children)
  rw [Tree.ofEvents, replayed, TreeBuilder.finish, grown.stack]
  simp only [grown.remaining, List.reverse_reverse, List.nil_append]
  rfl

end LosslessSyntax

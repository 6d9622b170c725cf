import LosslessSyntax.Token.Kind
import LosslessSyntax.Tree.NodeKind

/-! # Trees

A tree keeps the whole text: its leaves are tokens with their text, trivia included, and its inner
nodes group them. A tree knows the width of its text but not where it stands, so an edited tree can
take over every part that the edit leaves alone.
-/

namespace LosslessSyntax

/-- A lossless tree: an inner node with its children, or a token. -/
inductive Tree where
  | node (kind : NodeKind) (children : List Tree)
  | leaf (kind : TokenKind) (text : String)
deriving Repr, Inhabited

namespace Tree

mutual
/-- Length of the text, in bytes. -/
def width : Tree → Nat
  | .node _ children => widthAll children
  | .leaf _ text => text.utf8ByteSize
/-- Length of the text of several trees. -/
def widthAll : List Tree → Nat
  | [] => 0
  | first :: rest => first.width + widthAll rest
end

mutual
/-- Number of nodes and leaves. -/
def size : Tree → Nat
  | .node _ children => sizeAll children + 1
  | .leaf _ _ => 1
/-- Number of nodes and leaves of several trees. -/
def sizeAll : List Tree → Nat
  | [] => 0
  | first :: rest => first.size + sizeAll rest
end

mutual
/-- The tokens of the leaves, from left to right. -/
def leaves : Tree → List (TokenKind × String)
  | .node _ children => leavesAll children
  | .leaf kind text => [(kind, text)]
/-- The tokens of the leaves of several trees. -/
def leavesAll : List Tree → List (TokenKind × String)
  | [] => []
  | first :: rest => first.leaves ++ leavesAll rest
end

mutual
/-- The kinds of all inner nodes, each before those below it. -/
def nodeKinds : Tree → List NodeKind
  | .node kind children => kind :: nodeKindsAll children
  | .leaf _ _ => []
/-- The kinds of all inner nodes of several trees. -/
def nodeKindsAll : List Tree → List NodeKind
  | [] => []
  | first :: rest => first.nodeKinds ++ nodeKindsAll rest
end

mutual
/-- Equality of trees: the same kinds, texts and children. -/
def equal : Tree → Tree → Bool
  | .node kind children, .node otherKind others => kind == otherKind && equalAll children others
  | .leaf kind text, .leaf otherKind other => kind == otherKind && text == other
  | _, _ => false
/-- Equality of several trees, one by one. -/
def equalAll : List Tree → List Tree → Bool
  | [], [] => true
  | first :: rest, other :: others => first.equal other && equalAll rest others
  | _, _ => false
end

/-- The text of all leaves. -/
def text (tree : Tree) : String := String.join (tree.leaves.map (·.2))

/-- The children of a node; a leaf has none. -/
def children : Tree → List Tree
  | .node _ children => children
  | .leaf _ _ => []

/-- Whether the tree is an inner node. -/
def isNode : Tree → Bool
  | .node _ _ => true
  | .leaf _ _ => false

/-- The kind of an inner node. -/
def nodeKind? : Tree → Option NodeKind
  | .node kind _ => some kind
  | .leaf _ _ => none

/-- The kind of a leaf. -/
def tokenKind? : Tree → Option TokenKind
  | .node _ _ => none
  | .leaf kind _ => some kind

/-- Whether the tree is a leaf of whitespace or a comment. -/
def isTrivia (tree : Tree) : Bool := tree.tokenKind?.any TokenKind.isTrivia

/-- The node with the children from `start` up to `stop` replaced. -/
def spliceChildren (start stop : Nat) (replacement : List Tree) : Tree → Tree
  | .node kind children => .node kind (children.take start ++ replacement ++ children.drop stop)
  | .leaf kind text => .leaf kind text

/-- The node with one child replaced. -/
def replaceChild (tree : Tree) (index : Nat) (replacement : Tree) : Tree :=
  tree.spliceChildren index (index + 1) [replacement]

/-- The tree that the child indices of a path lead to. -/
def atPath? : List Nat → Tree → Option Tree
  | [], tree => some tree
  | index :: path, tree => do (← tree.children[index]?).atPath? path

/-- The tree with the element at the end of a path replaced; `none` if the path does not lead
through nodes, or is empty and would put a leaf in the place of the root. -/
def replaceAt? (tree : Tree) (path : List Nat) (replacement : Tree) : Option Tree :=
  match path with
  | [] => if replacement.isNode then some replacement else none
  | [index] => do
    let _ ← tree.children[index]?
    some (tree.replaceChild index replacement)
  | index :: next :: path => do
    let child ← tree.children[index]?
    if !child.isNode then none
    some (tree.replaceChild index (← child.replaceAt? (next :: path) replacement))

mutual
/-- The path to the leaf that holds an offset, with the place where the leaf starts and its token,
in a tree that starts at `start`. -/
def leafAt? (offset start : Nat) : Tree → Option (List Nat × Nat × TokenKind × String)
  | .node _ children => leafAmong? offset start 0 children
  | .leaf kind text =>
    if offset < start + text.utf8ByteSize then some ([], start, kind, text) else none
/-- The same among children of which the first has the given index. -/
def leafAmong? (offset start index : Nat) :
    List Tree → Option (List Nat × Nat × TokenKind × String)
  | [] => none
  | first :: rest =>
    let stop := start + first.width
    if offset < stop then
      (first.leafAt? offset start).map fun found => (index :: found.1, found.2)
    else leafAmong? offset stop (index + 1) rest
end

end Tree

end LosslessSyntax

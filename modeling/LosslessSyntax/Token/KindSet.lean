import LosslessSyntax.Token.Kind

/-! # Sets of token kinds

The grammar compares the current token with small sets of kinds, mostly those at which recovery
from an error stops. A set is known by its members; `toList` shows them in the order of
declaration, whatever the order in which they were added.
-/

namespace LosslessSyntax

/-- A set of token kinds. -/
structure KindSet where
  /-- The kinds that were put in, in any order and possibly repeated. -/
  members : List TokenKind
deriving Repr, Inhabited

namespace KindSet

/-- The set without members. -/
def empty : KindSet := ⟨[]⟩

/-- The set of the listed kinds. -/
def ofList (kinds : List TokenKind) : KindSet := ⟨kinds⟩

/-- Whether a kind is a member. -/
def contains (set : KindSet) (kind : TokenKind) : Bool := set.members.contains kind

/-- The members of both sets. -/
def union (set other : KindSet) : KindSet := ⟨set.members ++ other.members⟩

/-- The set with one more member. -/
def insert (set : KindSet) (kind : TokenKind) : KindSet := ⟨kind :: set.members⟩

/-- The members, in the order in which the kinds are declared. -/
def toList (set : KindSet) : List TokenKind := TokenKind.all.filter set.contains

@[simp] theorem contains_empty (kind : TokenKind) : empty.contains kind = false := rfl

@[simp] theorem contains_union (set other : KindSet) (kind : TokenKind) :
    (set.union other).contains kind = (set.contains kind || other.contains kind) := by
  simp [contains, union]

@[simp] theorem contains_insert (set : KindSet) (added kind : TokenKind) :
    (set.insert added).contains kind = (kind == added || set.contains kind) := rfl

end KindSet

end LosslessSyntax

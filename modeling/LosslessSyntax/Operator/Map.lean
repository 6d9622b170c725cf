/-! # Maps from operators

A map from operators to what is known about them, kept in the order of the operators' characters.
There is one list for each content, so maps with the same content are equal.
-/

namespace LosslessSyntax

/-- A map from operators, as its entries in increasing order of the operators. -/
structure OperatorMap (α : Type) where
  /-- The entries. -/
  entries : List (String × α)
  /-- Operators increase from entry to entry. -/
  sorted : entries.Pairwise fun first second => first.1 < second.1
deriving DecidableEq

namespace OperatorMap

variable {α : Type}

/-- The map without entries. -/
def empty : OperatorMap α := ⟨[], .nil⟩

instance : Inhabited (OperatorMap α) := ⟨empty⟩

/-- Entries with the value of an operator set. -/
def insertEntry (operator : String) (value : α) : List (String × α) → List (String × α)
  | [] => [(operator, value)]
  | (other, old) :: rest =>
    if operator < other then (operator, value) :: (other, old) :: rest
    else if operator = other then (operator, value) :: rest
    else (other, old) :: insertEntry operator value rest

theorem mem_insertEntry {operator : String} {value : α} {entries : List (String × α)}
    {entry : String × α} (member : entry ∈ insertEntry operator value entries) :
    entry = (operator, value) ∨ entry ∈ entries := by
  induction entries with
  | nil => simpa [insertEntry] using member
  | cons first rest ih =>
    obtain ⟨other, old⟩ := first
    simp only [insertEntry] at member
    split at member
    · simpa using member
    · split at member
      · simp only [List.mem_cons] at member ⊢
        exact member.imp_right .inr
      · simp only [List.mem_cons] at member ⊢
        rcases member with same | member
        · exact .inr (.inl same)
        · exact (ih member).imp_right .inr

theorem sorted_insertEntry (operator : String) (value : α) {entries : List (String × α)}
    (sorted : entries.Pairwise fun first second => first.1 < second.1) :
    (insertEntry operator value entries).Pairwise fun first second => first.1 < second.1 := by
  induction entries with
  | nil => simp [insertEntry]
  | cons first rest ih =>
    obtain ⟨other, old⟩ := first
    obtain ⟨before, tail⟩ := List.pairwise_cons.mp sorted
    simp only [insertEntry]
    split
    case isTrue less =>
      refine List.pairwise_cons.mpr ⟨fun entry member => ?_, sorted⟩
      rcases List.mem_cons.mp member with same | member
      · exact same ▸ less
      · exact String.lt_trans less (before entry member)
    case isFalse notLess =>
      split
      case isTrue same =>
        subst same
        exact List.pairwise_cons.mpr ⟨before, tail⟩
      case isFalse different =>
        refine List.pairwise_cons.mpr ⟨fun entry member => ?_, ih tail⟩
        rcases mem_insertEntry member with same | member
        · subst same
          exact String.not_le.mp fun le =>
            different (String.le_antisymm le (String.not_lt.mp notLess))
        · exact before entry member

/-- The map with the value of an operator set, in place of any earlier one. -/
def insert (operator : String) (value : α) (map : OperatorMap α) : OperatorMap α :=
  ⟨insertEntry operator value map.entries, sorted_insertEntry operator value map.sorted⟩

/-- The map of some entries; of two entries for an operator the later counts. -/
def ofList (entries : List (String × α)) : OperatorMap α :=
  entries.foldl (fun map entry => map.insert entry.1 entry.2) empty

/-- What is known about an operator. -/
def find? (map : OperatorMap α) (operator : String) : Option α := map.entries.lookup operator

/-- The operators, in increasing order. -/
def operators (map : OperatorMap α) : List String := map.entries.map (·.1)

end OperatorMap

end LosslessSyntax

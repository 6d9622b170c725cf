import LosslessSyntax.Diagnostic.Collection

/-! # Adding by search

In a collection in order, what is reported already and where a diagnostic goes can be searched for by
halving: `Diagnostics.add` looks for the first span that starts where the added one does, and then
for the first greater diagnostic. It finds what going through the whole collection finds, and says
whether the diagnostic was added.
-/

namespace LosslessSyntax

/-- Where the items that pass a test end, if these stand before all others and end at one of the
places from `low` to `high`. The range is halved until one place is left. -/
def partitionPoint {α : Type} (test : α → Bool) (items : List α) (low high : Nat) : Nat :=
  if low < high then
    let middle := (low + high) / 2
    if items[middle]?.any test then partitionPoint test items (middle + 1) high
    else partitionPoint test items low middle
  else low
termination_by high - low

namespace Diagnostics

/-- Where the diagnostics that pass a test end, if these stand before all others. -/
def search (collection : Diagnostics) (test : Diagnostic → Bool) : Nat :=
  partitionPoint test collection.items 0 collection.items.length

/-- Adds a diagnostic at its place, unless its span and code are already reported, and says whether
it was added. -/
def add (collection : Diagnostics) (added : Diagnostic) : Bool × Diagnostics :=
  let first := collection.search fun d => d.span.start < added.span.start
  let beside := (collection.items.drop first).takeWhile fun d => d.span.start == added.span.start
  if beside.any added.sameProblem then (false, collection)
  else
    let place := collection.search fun d => (d.compare added).isLE
    (true, ⟨collection.items.insertIdx place added⟩)

/-- Adds diagnostics one after the other. -/
def addAll (collection : Diagnostics) (added : List Diagnostic) : Diagnostics :=
  added.foldl (fun collection d => (collection.add d).2) collection

end Diagnostics

end LosslessSyntax

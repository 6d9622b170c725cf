import LosslessSyntax.Diagnostic.Basic

/-! # Collections of diagnostics

A collection keeps its diagnostics in source order, whatever the order in which they are reported,
and holds at most one diagnostic for each span and code: the first that was pushed.
-/

namespace LosslessSyntax

/-- Diagnostics in the order of `Diagnostic.compare`, one for each span and code. -/
structure Diagnostics where
  /-- The diagnostics, in order. -/
  items : List Diagnostic
deriving DecidableEq, Repr, Inhabited

namespace Diagnostics

/-- The collection without diagnostics. -/
def empty : Diagnostics := ⟨[]⟩

/-- Puts a diagnostic before the first that is greater. -/
def insertSorted (added : Diagnostic) : List Diagnostic → List Diagnostic
  | [] => [added]
  | first :: rest =>
    if added.compare first == .lt then added :: first :: rest
    else first :: insertSorted added rest

/-- Whether the span and code of a diagnostic are already reported. -/
def reports (collection : Diagnostics) (diagnostic : Diagnostic) : Bool :=
  collection.items.any diagnostic.sameProblem

/-- Adds a diagnostic at its place, unless its span and code are already reported. -/
def push (collection : Diagnostics) (added : Diagnostic) : Diagnostics :=
  if collection.reports added then collection else ⟨insertSorted added collection.items⟩

/-- Adds diagnostics one after the other. -/
def extend (collection : Diagnostics) (added : List Diagnostic) : Diagnostics :=
  added.foldl push collection

/-- The collection of some diagnostics, pushed in the given order. -/
def ofList (diagnostics : List Diagnostic) : Diagnostics := empty.extend diagnostics

/-- The diagnostics whose span meets a span. -/
def inRange (collection : Diagnostics) (span : Span) : List Diagnostic :=
  collection.items.filter fun diagnostic => diagnostic.span.intersects span

/-- Number of diagnostics. -/
def size (collection : Diagnostics) : Nat := collection.items.length

/-- Whether there is no diagnostic. -/
def isEmpty (collection : Diagnostics) : Bool := collection.items.isEmpty

/-- The diagnostics of severity `error`. -/
def errors (collection : Diagnostics) : List Diagnostic :=
  collection.items.filter fun diagnostic => diagnostic.severity == .error

/-- Whether some diagnostic is an error. -/
def hasErrors (collection : Diagnostics) : Bool := !collection.errors.isEmpty

/-- The collection after the text before its diagnostics grew or shrank. -/
def shift (delta : Int) (collection : Diagnostics) : Diagnostics :=
  ofList (collection.items.map (Diagnostic.shift delta))

end Diagnostics

end LosslessSyntax

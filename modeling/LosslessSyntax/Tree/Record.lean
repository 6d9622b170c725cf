import LosslessSyntax.Tree.Event

/-! # Recording events

A parse writes its events to one list that grows behind all nodes that are open. A node is begun
before its kind is known, and the kind is filled in when the node is completed. A node that turns
out to be the first part of another one has been completed by then: the other one is begun behind
it, and its beginning is told how far. A node that is begun in vain is given up.
-/

namespace LosslessSyntax

namespace Event

/-- A beginning whose kind is not known yet. -/
def unnamed : Event := .start .error none

/-- Fills in the kind of a beginning. -/
def ofKind (kind : NodeKind) : Event → Event
  | .start _ parent => .start kind parent
  | event => event

/-- Fills in the forward parent of a beginning. -/
def within (distance : Nat) : Event → Event
  | .start kind _ => .start kind (some distance)
  | event => event

end Event

/-- The events of a parse up to some place. -/
structure Record where
  /-- The events, in the order in which they were written. -/
  events : Array Event
  /-- Where the node begins that was completed last, unless something was written after it. -/
  completed : Option Nat
deriving Repr, Inhabited

namespace Record

/-- Nothing has been written. -/
def empty : Record := ⟨#[], none⟩

/-- The place of the event that is written next. -/
def place (record : Record) : Nat := record.events.size

/-- Consumes a token. -/
def token (record : Record) : Record := ⟨record.events.push .token, none⟩

/-- Begins a node. -/
def start (record : Record) : Record := ⟨record.events.push .unnamed, none⟩

/-- Completes the node that begins at a place. -/
def complete (place : Nat) (kind : NodeKind) (record : Record) : Record :=
  ⟨(record.events.modify place (.ofKind kind)).push .finish, some place⟩

/-- Begins a node that encloses the one that was completed last. -/
def precede (record : Record) : Record :=
  match record.completed with
  | none => record.start
  | some place => ⟨record.start.events.modify place (.within (record.place - place)), none⟩

/-- Gives up the node that was begun after `outer` had been written. What has been written in it goes
to the node around it. -/
def abandon (outer record : Record) : Record :=
  if outer.place + 1 = record.place then ⟨record.events.pop, outer.completed⟩
  else { record with events := record.events.modify outer.place fun _ => .tombstone }

/-- A node that is given up as soon as it was begun leaves nothing behind. -/
theorem abandon_start (record : Record) : record.abandon record.start = record := by
  rw [abandon, if_pos (by simp [place, start])]
  simp [start]

end Record

end LosslessSyntax

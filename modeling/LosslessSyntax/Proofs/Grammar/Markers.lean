import LosslessSyntax.Proofs.Grammar.Runs

/-! # What the rules write

Rules write events to one list that grows behind all nodes that are open: the kind of a node is filled
in when it is completed, and a node that turns out to be the first part of another one is told by then
how far behind it the other one begins. So the list speaks of a node at two or three places. All the
same, whatever a rule does, what comes behind the beginning of the innermost open node are the events
of the shapes in this node, one shape after the other (`State.Written`), and the place that the list
remembers is that of the last of them (`Shape.place?`). So the events of a parse are those of its
shapes (`events_runProgram`, `events_runBlock`).
-/

namespace LosslessSyntax

namespace Event

theorem modify_behind (front back : List Event) (event : Event) (change : Event → Event) :
    (front ++ event :: back).modify front.length change = front ++ change event :: back := by
  induction front with
  | nil => exact List.modify_zero_cons ..
  | cons first front ih =>
    rw [List.cons_append, List.length_cons, List.modify_succ_cons, ih, List.cons_append]

end Event

namespace Shape

theorem eventsOfAll_append (front back : List Shape) :
    eventsOfAll (front ++ back) = eventsOfAll front ++ eventsOfAll back := by
  induction front with
  | nil => rfl
  | cons first front ih => rw [List.cons_append, eventsOfAll, ih, eventsOfAll, List.append_assoc]

theorem length_eventsWithin (wrapped : Bool) (shape : Shape) :
    (shape.eventsWithin wrapped).length = (shape.eventsWithin false).length := by
  cases shape <;> simp [eventsWithin]

/-- The events of shapes, last first, the last of which a node encloses or not. -/
def eventsUpTo (wrapped : Bool) : List Shape → List Event
  | [] => []
  | last :: earlier => eventsOfAll earlier.reverse ++ last.eventsWithin wrapped

theorem eventsUpTo_false (shapes : List Shape) : eventsUpTo false shapes = eventsOfAll shapes.reverse := by
  cases shapes with
  | nil => rfl
  | cons last earlier =>
    rw [eventsUpTo, List.reverse_cons, eventsOfAll_append, eventsOfAll, eventsOfAll, List.append_nil]

theorem length_eventsUpTo (wrapped : Bool) (shapes : List Shape) :
    (eventsUpTo wrapped shapes).length = (eventsUpTo false shapes).length := by
  cases shapes with
  | nil => rfl
  | cons last earlier =>
    rw [eventsUpTo, eventsUpTo, List.length_append, List.length_append, length_eventsWithin]

/-- Where the node of the last of some shapes begins behind some events, if it is a node. -/
def place? (before : List Event) : List Shape → Option Nat
  | [] | .token :: _ => none
  | .node _ _ :: earlier => some (before ++ eventsOfAll earlier.reverse).length
  | .wrap _ first _ :: earlier =>
    some (before ++ (eventsOfAll earlier.reverse ++ first.eventsWithin true)).length

/-- That a node encloses another one is said at the beginning of the other one. -/
theorem modify_started (front inside : List Event) (kind : NodeKind) :
    let events (wrapped : Bool) : List Event :=
      front ++ .start kind (forwardParent wrapped inside) :: (inside ++ [.finish])
    (events false ++ [Event.unnamed]).modify front.length
        (.within ((events false).length - front.length)) = events true ++ [Event.unnamed] := by
  intro events
  have distance : (events false).length - front.length = inside.length + 2 := by simp [events]
  rw [distance]
  simp only [events, List.append_assoc, List.cons_append]
  rw [Event.modify_behind]
  simp [Event.within, forwardParent]

theorem modify_eventsUpTo {before : List Event} {place : Nat} {shapes : List Shape}
    (known : place? before shapes = some place) :
    let events (wrapped : Bool) : List Event := before ++ eventsUpTo wrapped shapes
    (events false ++ [Event.unnamed]).modify place (.within ((events false).length - place)) =
      events true ++ [Event.unnamed] := by
  match shapes with
  | .node kind children :: earlier =>
    obtain rfl := Option.some.inj known
    have := modify_started (before ++ eventsOfAll earlier.reverse) (eventsOfAll children) kind
    simpa [eventsUpTo, eventsWithin] using this
  | .wrap kind first rest :: earlier =>
    obtain rfl := Option.some.inj known
    have := modify_started (before ++ (eventsOfAll earlier.reverse ++ first.eventsWithin true))
      (eventsOfAll rest) kind
    simpa [eventsUpTo, eventsWithin] using this

/-- What is no node says nothing of a node that encloses it. -/
theorem eventsUpTo_of_place?_none {before : List Event} {shapes : List Shape}
    (none : place? before shapes = none) : eventsUpTo true shapes = eventsUpTo false shapes := by
  match shapes with
  | [] => rfl
  | .token :: earlier => rfl

end Shape

namespace Record

variable {record : Record} {before : List Event} {shapes : List Shape}

/-- Behind some events come those of some shapes, last first, and nothing else. -/
structure Holds (record : Record) (before : List Event) (shapes : List Shape) : Prop where
  events : record.events.toList = before ++ Shape.eventsUpTo false shapes
  completed : record.completed = Shape.place? before shapes

theorem place_eq (record : Record) : record.place = record.events.toList.length :=
  Array.length_toList.symm

theorem Holds.token (holds : record.Holds before shapes) :
    record.token.Holds before (.token :: shapes) where
  events := by
    rw [Record.token, Array.toList_push, holds.events, Shape.eventsUpTo, Shape.eventsUpTo_false,
      List.append_assoc, Shape.eventsWithin]
  completed := rfl

theorem holds_start (record : Record) : record.start.Holds (record.events.toList ++ [.unnamed]) [] where
  events := by rw [start, Array.toList_push, Shape.eventsUpTo, List.append_nil]
  completed := rfl

/-- A node is begun behind the events of the one that it encloses. -/
theorem Holds.precede (holds : record.Holds before shapes) :
    record.precede.Holds (before ++ Shape.eventsUpTo true shapes ++ [.unnamed]) [] := by
  rw [Record.precede]
  split
  case h_1 none =>
    rw [Shape.eventsUpTo_of_place?_none (holds.completed.symm.trans none), ← holds.events]
    exact record.holds_start
  case h_2 place known =>
    refine ⟨?_, rfl⟩
    have named := Shape.modify_eventsUpTo (holds.completed.symm.trans known)
    rw [Array.toList_modify, Record.start, Array.toList_push, record.place_eq, holds.events, named,
      Shape.eventsUpTo, List.append_nil]

/-- A node is completed behind what has been written in it. -/
theorem Holds.toList_complete {front : List Event} (holds : record.Holds (front ++ [.unnamed]) shapes)
    (kind : NodeKind) :
    (record.complete front.length kind).events.toList =
      front ++ (Shape.node kind shapes.reverse).eventsWithin false := by
  rw [complete, Array.toList_push, Array.toList_modify, holds.events, List.append_assoc,
    List.singleton_append, Event.modify_behind, Shape.eventsUpTo_false, Shape.eventsWithin]
  simp [Event.unnamed, Event.ofKind, Shape.forwardParent]

end Record

namespace Grammar

open State

/-- Behind some events, and the beginning of the innermost open node, a state has written the events
of the shapes in this node. -/
def State.Written (before : List Event) (s : State) : Prop := s.record.Holds before s.pieces

/-- What has been written up to a state is written up to a later one, with more behind it. -/
structure Writes (s s' : State) : Prop where
  written : ∀ before, s.Written before → s'.Written before
  shrinks : s'.ahead.length ≤ s.ahead.length

namespace Writes

variable {s s' s'' : State}

theorem refl (s : State) : Writes s s := ⟨fun _ written => written, Nat.le_refl _⟩

theorem trans (first : Writes s s') (second : Writes s' s'') : Writes s s'' :=
  ⟨fun before written => second.written before (first.written before written),
    Nat.le_trans second.shrinks first.shrinks⟩

theorem bump (s : State) : Writes s s.bump := by
  refine ⟨fun before written => ?_, (Runs.bump s).shrinks⟩
  rw [State.bump]
  split
  · exact written
  · exact written.token

theorem report (code : DiagnosticCode) (message : String) (span : Span) (s : State) :
    Writes s (s.report code message span) := by
  refine ⟨fun before written => ?_, Nat.le_of_eq (congrArg List.length (ahead_report ..))⟩
  rwa [Written, record_report, pieces_report]

theorem missing (expected : String) (s : State) : Writes s (s.missing expected) := by
  refine ⟨fun before written => ?_, Nat.le_of_eq (congrArg List.length (ahead_missing ..))⟩
  rwa [Written, record_missing, pieces_missing]

theorem closeNode (kind : NodeKind) (writes : Writes s.openNode s') :
    Writes s (State.closeNode s kind s') where
  written before written := by
    have inside : s'.Written _ := writes.written _ s.record.holds_start
    have completed := inside.toList_complete kind
    refine ⟨?_, ?_⟩
    · rw [State.closeNode, s.record.place_eq, completed, written.events, Shape.eventsUpTo,
        Shape.eventsUpTo_false, List.append_assoc]
    · exact congrArg some (by rw [s.record.place_eq, written.events, Shape.eventsUpTo_false])
  shrinks := writes.shrinks

theorem closeWrap (kind : NodeKind) (writes : Writes s.precedeNode s') :
    Writes s (State.closeWrap s kind s') where
  written before written := by
    have inside : s'.Written _ := writes.written _ written.precede
    have completed := inside.toList_complete kind
    have place : s.record.place = (before ++ Shape.eventsUpTo true s.pieces).length := by
      rw [s.record.place_eq, written.events, List.length_append, List.length_append,
        Shape.length_eventsUpTo true]
    rw [Written, State.closeWrap, place]
    refine ⟨completed.trans ?_, ?_⟩
    · cases s.pieces <;> simp [Shape.eventsUpTo, Shape.eventsWithin, Shape.eventsOfAll]
    · cases s.pieces <;> rfl
  shrinks := writes.shrinks

/-- The laws of writing as a coupling, whatever the second run does. -/
def coupling : Coupling where
  Step s _ s' _ := Writes s s'
  refl s _ := refl s
  trans first second := first.trans second
  apart writes _ := writes
  adrift writes _ := writes
  shrinks writes := writes.shrinks
  progress_step writes := .inr fun _ => writes
  bump_step s _ := bump s
  unexpected_step _ _ _ := report ..
  missing_step expected s _ := missing expected s
  tooDeep_step _ _ _ _ _ := report ..
  during_step _ _ _ _ _ writes := ⟨writes.written, writes.shrinks⟩
  breaks_step _ _ _ _ _ writes := ⟨writes.written, writes.shrinks⟩
  node_step _ writes _ := writes.closeNode _
  wrap_step kind _ _ _ _ _ writes := writes.closeWrap kind

instance : coupling.Nests := ⟨fun writes => ⟨writes.written, writes.shrinks⟩⟩

theorem blockClosed : Coupling.BlockClosed coupling := fun writes => writes.closeNode .block

theorem block (config : Config) (room : Nat) (s : State) : Writes s (Grammar.block config room s) :=
  Coupling.coupled_block blockClosed config room s s

theorem item (config : Config) (room : Nat) (s : State) : Writes s (Grammar.item config room s) :=
  Coupling.coupled_statementItem (Coupling.coupled_construct config room)
    (Coupling.coupled_block blockClosed config room) config s s

theorem program (config : Config) (halts : Nat → Bool) (s : State) :
    Writes s (Grammar.program config halts s) := by
  refine closeNode .root (repeatStep_invariant (motive := Writes s.openNode) (fun s' so => ?_) _ (refl _))
  split
  · exact so
  · exact so.trans (item config config.maxDepth s')

end Writes

theorem written_initial (source : TokenSource) (textLength depth : Nat) :
    (State.initial source textLength depth).Written [] := ⟨rfl, rfl⟩

/-- If nothing was written before the shapes of a state, all events are those of the shapes. -/
theorem State.Written.toList {s : State} (written : s.Written []) :
    s.record.events.toList = Shape.eventsOfAll s.pieces.reverse :=
  written.events.trans (Shape.eventsUpTo_false _)

variable (config : Config) (textLength : Nat) (source : TokenSource)

theorem events_runProgram (halts : Nat → Bool) :
    (runProgram config halts textLength source).events =
      Shape.eventsOfAll (program config halts (.initial source textLength 0)).pieces.reverse :=
  ((Writes.program config halts _).written [] (written_initial ..)).toList

theorem events_runBlock (depth : Nat) :
    (runBlock config depth textLength source).events =
      Shape.eventsOfAll (block config (config.maxDepth - depth)
        (.initial source textLength depth)).pieces.reverse :=
  ((Writes.block config _ _).written [] (written_initial ..)).toList

end Grammar

end LosslessSyntax

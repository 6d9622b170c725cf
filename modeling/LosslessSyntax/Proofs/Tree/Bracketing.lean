import LosslessSyntax.Grammar.Shape
import Mathlib.Logic.ExistsUnique

/-! # Events that are well bracketed

In a flat list of events a node begins at one place and ends at another one, with events between
them that are nested by themselves (`Event.Nested`, `Event.Closes`). Counting how many more nodes
begin than end shows that a beginning has at most one end and an end at most one beginning
(`Closes.end_unique`, `Closes.start_unique`). The events of shapes are nested, and where one of
their nodes names a forward parent it names what begins right behind its end (`Leads`). So a list of
events that a root encloses is well bracketed (`Bracketed.of_root`).
-/

namespace LosslessSyntax

namespace Event

/-- Events of tokens and of nodes that end as often as they begin. -/
inductive Nested : List Event → Prop
  | nil : Nested []
  | token {rest : List Event} : Nested rest → Nested (.token :: rest)
  | tombstone {rest : List Event} : Nested rest → Nested (.tombstone :: rest)
  | node {kind : NodeKind} {parent : Option Nat} {inside rest : List Event} :
      Nested inside → Nested rest → Nested (.start kind parent :: (inside ++ .finish :: rest))

/-- The end at `stop` is the one of the node that begins at `start`: what lies between is nested. -/
def Closes (events : List Event) (start stop : Nat) : Prop :=
  ∃ front kind parent inside back,
    events = front ++ .start kind parent :: (inside ++ .finish :: back) ∧ Nested inside ∧
      start = front.length ∧ stop = front.length + 1 + inside.length

/-- A node begins at a place of some events. -/
def StartsAt (events : List Event) (place : Nat) : Prop :=
  ∃ kind parent, events[place]? = some (.start kind parent)

/-- A root begins with the first event and ends with the last, every node ends once, and what
encloses an earlier node begins later and encloses no other one in this way. -/
structure Bracketed (events : List Event) : Prop where
  root : events.head? = some (.start .root none)
  last : Closes events 0 (events.length - 1)
  closed : ∀ place, StartsAt events place → ∃! stop, Closes events place stop
  closing : ∀ stop, events[stop]? = some .finish → ∃! place, Closes events place stop
  parent : ∀ place kind distance, events[place]? = some (.start kind (some distance)) →
    0 < distance ∧ StartsAt events (place + distance) ∧
      ∀ other kind' distance', events[other]? = some (.start kind' (some distance')) →
        other + distance' = place + distance → other = place

variable {events front back inside rest : List Event} {start stop : Nat}

/-- How many more nodes an event begins than it ends. -/
def weight : Event → Int
  | .start _ _ => 1
  | .finish => -1
  | _ => 0

/-- How many more nodes begin than end. -/
def rise : List Event → Int
  | [] => 0
  | event :: rest => event.weight + rise rest

@[simp] theorem rise_nil : rise [] = 0 := rfl

@[simp] theorem rise_cons (event : Event) (rest : List Event) :
    rise (event :: rest) = event.weight + rise rest := rfl

@[simp] theorem rise_append (front back : List Event) :
    rise (front ++ back) = rise front + rise back := by
  induction front with
  | nil => exact (Int.zero_add _).symm
  | cons event front ih => rw [List.cons_append, rise_cons, rise_cons, ih, Int.add_assoc]

@[simp] theorem weight_start (kind : NodeKind) (parent : Option Nat) :
    weight (.start kind parent) = 1 := rfl

@[simp] theorem weight_finish : weight .finish = -1 := rfl

@[simp] theorem weight_token : weight .token = 0 := rfl

@[simp] theorem weight_tombstone : weight .tombstone = 0 := rfl

/-- Of two ways to split events the one that splits later has an event in front of it that comes
behind the other. -/
theorem exists_split_between {front' back' : List Event} (same : front ++ back = front' ++ back')
    (longer : front.length < front'.length) :
    ∃ next more, front' = front ++ next :: more ∧ back = next :: (more ++ back') := by
  rcases List.append_eq_append_iff.mp same with ⟨more, rfl, tail⟩ | ⟨more, rfl, -⟩
  · cases more with
    | nil => simp at longer
    | cons next more => exact ⟨next, more, rfl, tail⟩
  · rw [List.length_append] at longer
    omega

namespace Nested

theorem append (first : Nested front) (second : Nested back) : Nested (front ++ back) := by
  induction first with
  | nil => exact second
  | token _ ih => exact .token ih
  | tombstone _ ih => exact .tombstone ih
  | node inner _ _ ih =>
    rw [List.cons_append, List.append_assoc, List.cons_append]
    exact .node inner ih

theorem rise_eq (nested : Nested events) : rise events = 0 := by
  induction nested with
  | nil => rfl
  | token _ ih => simpa using ih
  | tombstone _ ih => simpa using ih
  | node _ _ inner outer => simp [inner, outer]

/-- On every beginning of nested events at least as many nodes begin as end. -/
theorem rise_nonneg (nested : Nested events) (start : front <+: events) : 0 ≤ rise front := by
  induction nested generalizing front with
  | nil => simp [List.prefix_nil.mp start]
  | token _ ih | tombstone _ ih =>
    cases front with
    | nil => exact Int.le_refl 0
    | cons first front =>
      obtain ⟨rfl, shorter⟩ := List.cons_prefix_cons.mp start
      simpa using ih shorter
  | node inner _ within ih =>
    cases front with
    | nil => exact Int.le_refl 0
    | cons first front =>
      obtain ⟨rfl, behind, split⟩ := List.cons_prefix_cons.mp start
      rw [rise_cons, weight_start]
      rcases List.append_eq_append_iff.mp split with ⟨more, same, -⟩ | ⟨more, rfl, same⟩
      · have := within ⟨more, same.symm⟩
        omega
      · cases more with
        | nil => simp [inner.rise_eq]
        | cons next more =>
          obtain ⟨rfl, rest⟩ := List.cons.inj same
          have := ih ⟨behind, rest.symm⟩
          rw [rise_append, rise_cons, weight_finish, inner.rise_eq]
          omega

/-- On every end of nested events at most as many nodes begin as end. -/
theorem rise_nonpos (nested : Nested (front ++ back)) : rise back ≤ 0 := by
  have whole := nested.rise_eq
  have := nested.rise_nonneg (List.prefix_append front back)
  rw [rise_append] at whole
  omega

/-- Of two beginnings of events that are nested and end there with a node, none is longer. -/
theorem eq_of_finish {inside' back back' : List Event} (nested : Nested inside)
    (nested' : Nested inside') (same : inside ++ .finish :: back = inside' ++ .finish :: back') :
    inside = inside' := by
  have shorter {a b c d : List Event} (one : Nested a) (other : Nested b)
      (same : a ++ .finish :: c = b ++ .finish :: d) : b.length ≤ a.length := by
    refine Nat.le_of_not_lt fun longer => ?_
    obtain ⟨next, more, rfl, tail⟩ := exists_split_between same longer
    obtain ⟨rfl, -⟩ := List.cons.inj tail
    have start : a ++ [.finish] <+: a ++ .finish :: more := ⟨more, by simp⟩
    have := other.rise_nonneg start
    simp [one.rise_eq] at this
  exact (List.append_inj same (Nat.le_antisymm (shorter nested' nested same.symm)
    (shorter nested nested' same))).1

end Nested

namespace Closes

theorem append_left (front : List Event) (closes : Closes events start stop) :
    Closes (front ++ events) (front.length + start) (front.length + stop) := by
  obtain ⟨before, kind, parent, inside, back, rfl, nested, rfl, rfl⟩ := closes
  refine ⟨front ++ before, kind, parent, inside, back, by simp, nested, by simp, ?_⟩
  rw [List.length_append]
  omega

theorem append_right (back : List Event) (closes : Closes events start stop) :
    Closes (events ++ back) start stop := by
  obtain ⟨front, kind, parent, inside, behind, rfl, nested, rfl, rfl⟩ := closes
  exact ⟨front, kind, parent, inside, behind ++ back, by simp, nested, rfl, rfl⟩

/-- A node whose events are nested ends behind them. -/
theorem node (kind : NodeKind) (parent : Option Nat) (nested : Nested inside) (back : List Event) :
    Closes (.start kind parent :: (inside ++ .finish :: back)) 0 (inside.length + 1) :=
  ⟨[], kind, parent, inside, back, rfl, nested, rfl, by simp; omega⟩

theorem end_unique {stop' : Nat} (closes : Closes events start stop)
    (closes' : Closes events start stop') : stop = stop' := by
  obtain ⟨front, kind, parent, inside, back, rfl, nested, rfl, rfl⟩ := closes
  obtain ⟨front', kind', parent', inside', back', same, nested', length, rfl⟩ := closes'
  obtain ⟨rfl, tail⟩ := List.append_inj same length
  obtain ⟨-, tail⟩ := List.cons.inj tail
  rw [nested.eq_of_finish nested' tail]

theorem start_unique {start' : Nat} (closes : Closes events start stop)
    (closes' : Closes events start' stop) : start = start' := by
  have earlier {a b c : Nat} (one : Closes events a c) (other : Closes events b c) : b ≤ a := by
    obtain ⟨front, kind, parent, inside, back, rfl, nested, rfl, rfl⟩ := one
    obtain ⟨front', kind', parent', inside', back', same, nested', rfl, length⟩ := other
    refine Nat.le_of_not_lt fun longer => ?_
    obtain ⟨next, more, rfl, tail⟩ := exists_split_between same longer
    obtain ⟨-, tail⟩ := List.cons.inj tail
    have sizes : inside.length = (more ++ .start kind' parent' :: inside').length := by
      simp only [List.length_append, List.length_cons] at length ⊢
      omega
    have split : inside ++ .finish :: back =
        (more ++ .start kind' parent' :: inside') ++ .finish :: back' := by
      rw [tail, List.append_assoc, List.cons_append]
    obtain ⟨rfl, -⟩ := List.append_inj split sizes
    have := nested.rise_nonpos
    simp [nested'.rise_eq] at this
  exact Nat.le_antisymm (earlier closes' closes) (earlier closes closes')

end Closes

/-- An event in front moves what comes after it by one place. -/
theorem Closes.cons (event : Event) (closes : Closes events start stop) :
    Closes (event :: events) (start + 1) (stop + 1) := by
  have later := closes.append_left [event]
  rwa [List.length_singleton, Nat.add_comm 1, Nat.add_comm 1] at later

/-- In nested events every beginning has an end, and every end a beginning. -/
theorem Nested.exists_closes (nested : Nested events) {place : Nat} {event : Event}
    (here : events[place]? = some event) (bracket : event.weight ≠ 0) :
    ∃ other, Closes events place other ∨ Closes events other place := by
  induction nested generalizing place with
  | nil => simp at here
  | token _ ih | tombstone _ ih =>
    cases place with
    | zero =>
      obtain rfl : _ = event := Option.some.inj here
      exact absurd rfl bracket
    | succ place =>
      obtain ⟨other, closes⟩ := ih here
      exact ⟨_, closes.imp (·.cons _) (·.cons _)⟩
  | @node kind parent inside rest nested _ within behind =>
    cases place with
    | zero => exact ⟨_, .inl (.node kind parent nested rest)⟩
    | succ place =>
      rw [List.getElem?_cons_succ, List.getElem?_append] at here
      split at here
      · obtain ⟨other, closes⟩ := within here
        exact ⟨_, closes.imp (fun c => (c.append_right _).cons _) fun c => (c.append_right _).cons _⟩
      case isFalse outside =>
      obtain ⟨place, rfl⟩ := Nat.exists_eq_add_of_le (Nat.le_of_not_lt outside)
      rw [Nat.add_sub_cancel_left] at here
      cases place with
      | zero => exact ⟨_, .inr (.node kind parent nested rest)⟩
      | succ place =>
        obtain ⟨other, closes⟩ := behind here
        have shifted {a b : Nat} (c : Closes rest a b) :=
          ((c.cons .finish).append_left inside).cons (.start kind parent)
        exact ⟨_, closes.imp shifted shifted⟩

theorem Closes.startsAt (closes : Closes events start stop) : StartsAt events start := by
  obtain ⟨front, kind, parent, inside, back, rfl, -, rfl, -⟩ := closes
  exact ⟨kind, parent, by simp⟩

theorem Closes.finishesAt (closes : Closes events start stop) : events[stop]? = some .finish := by
  obtain ⟨front, kind, parent, inside, back, rfl, -, rfl, rfl⟩ := closes
  rw [List.getElem?_append_right (by omega), Nat.add_assoc, Nat.add_sub_cancel_left, Nat.add_comm 1]
  simp

/-- Every node that names a forward parent names what begins right behind its end. If a list is
`wrapped`, what the last of its nodes names comes after the list. -/
def Leads (wrapped : Bool) (events : List Event) : Prop :=
  ∀ place kind distance, events[place]? = some (.start kind (some distance)) →
    ∃ stop, Closes events place stop ∧ place + distance = stop + 1 ∧
      (StartsAt events (stop + 1) ∨ wrapped = true ∧ stop + 1 = events.length)

theorem StartsAt.append_left (front : List Event) {place : Nat} (starts : StartsAt events place) :
    StartsAt (front ++ events) (front.length + place) := by
  obtain ⟨kind, parent, here⟩ := starts
  refine ⟨kind, parent, ?_⟩
  rwa [List.getElem?_append_right (Nat.le_add_right _ _), Nat.add_sub_cancel_left]

theorem StartsAt.append_right (back : List Event) {place : Nat} (starts : StartsAt events place) :
    StartsAt (events ++ back) place := by
  obtain ⟨kind, parent, here⟩ := starts
  refine ⟨kind, parent, ?_⟩
  rwa [List.getElem?_append_left (List.getElem?_eq_some_iff.mp here).1]

namespace Leads

variable {wrapped : Bool}

theorem nil : Leads wrapped [] := by
  intro place kind distance here
  simp at here

theorem single {event : Event} (other : event.weight ≠ 1) : Leads wrapped [event] := by
  intro place kind distance here
  obtain rfl := List.mem_singleton.mp (List.mem_of_getElem? here)
  exact absurd rfl other

/-- The last node in front may name the first one behind. -/
theorem append {wrapped' : Bool} (first : Leads wrapped' front) (second : Leads wrapped back)
    (next : wrapped' = true → StartsAt back 0) : Leads wrapped (front ++ back) := by
  intro place kind distance here
  rw [List.getElem?_append] at here
  split at here
  · obtain ⟨stop, closes, names, starts⟩ := first place kind distance here
    refine ⟨stop, closes.append_right back, names, .inl ?_⟩
    rcases starts with starts | ⟨waits, ends⟩
    · exact starts.append_right back
    · rw [ends]
      exact (next waits).append_left front
  case isFalse outside =>
  obtain ⟨place, rfl⟩ := Nat.exists_eq_add_of_le (Nat.le_of_not_lt outside)
  rw [Nat.add_sub_cancel_left] at here
  obtain ⟨stop, closes, names, starts⟩ := second place kind distance here
  refine ⟨front.length + stop, closes.append_left front, by omega, ?_⟩
  rcases starts with starts | ⟨waits, ends⟩
  · exact .inl (starts.append_left front)
  · exact .inr ⟨waits, by rw [List.length_append]; omega⟩

theorem node (kind : NodeKind) (nested : Nested inside) (leads : Leads false inside) :
    Leads wrapped (.start kind (Shape.forwardParent wrapped inside) :: (inside ++ [.finish])) := by
  intro place kind' distance here
  cases place with
  | zero =>
    obtain ⟨rfl, parent⟩ := Event.start.inj (Option.some.inj here)
    rw [Shape.forwardParent] at parent
    split at parent
    case isTrue waits =>
      obtain rfl := Option.some.inj parent
      refine ⟨_, .node kind _ nested [], by omega, .inr ⟨waits, by simp⟩⟩
    case isFalse => cases parent
  | succ place =>
    have ended : Leads wrapped (inside ++ [.finish]) :=
      leads.append (single (by decide)) fun waits => absurd waits Bool.false_ne_true
    obtain ⟨stop, closes, names, starts⟩ := ended place kind' distance here
    refine ⟨stop + 1, closes.cons _, by omega, ?_⟩
    rcases starts with ⟨kind, parent, starts⟩ | ⟨waits, ends⟩
    · exact .inl ⟨kind, parent, starts⟩
    · exact .inr ⟨waits, by rw [List.length_cons, ends]⟩

end Leads

mutual
/-- The events of a shape are nested, and its nodes name what begins right behind them. -/
theorem nested_eventsWithin (wrapped : Bool) (shape : Shape) :
    Nested (shape.eventsWithin wrapped) ∧ Leads wrapped (shape.eventsWithin wrapped) := by
  match shape with
  | .token => exact ⟨.token .nil, .single (by decide)⟩
  | .node kind children =>
    obtain ⟨nested, leads⟩ := nested_eventsOfAll children
    exact ⟨.node nested .nil, .node kind nested leads⟩
  | .wrap kind first rest =>
    obtain ⟨nested, leads⟩ := nested_eventsWithin true first
    obtain ⟨nested', leads'⟩ := nested_eventsOfAll rest
    rw [Shape.eventsWithin, List.append_assoc]
    exact ⟨nested.append (.node nested' .nil),
      leads.append (.node kind nested' leads') fun _ => ⟨_, _, rfl⟩⟩
/-- The events of shapes that follow each other are nested, and what encloses one of their nodes is
among them. -/
theorem nested_eventsOfAll (shapes : List Shape) :
    Nested (Shape.eventsOfAll shapes) ∧ Leads false (Shape.eventsOfAll shapes) := by
  match shapes with
  | [] => exact ⟨.nil, .nil⟩
  | first :: rest =>
    obtain ⟨nested, leads⟩ := nested_eventsWithin false first
    obtain ⟨nested', leads'⟩ := nested_eventsOfAll rest
    exact ⟨nested.append nested',
      leads.append leads' fun waits => absurd waits Bool.false_ne_true⟩
end

/-- The events of a root are well bracketed. -/
theorem Bracketed.of_root (children : List Shape) :
    Bracketed (Shape.eventsOfAll [.node .root children]) := by
  obtain ⟨nested, leads⟩ := nested_eventsOfAll [.node .root children]
  have events : Shape.eventsOfAll [.node .root children] =
      .start .root none :: (Shape.eventsOfAll children ++ [.finish]) := by
    simp [Shape.eventsOfAll, Shape.eventsWithin, Shape.forwardParent]
  have unclosed {stop place : Nat}
      (closes : Closes (Shape.eventsOfAll [.node .root children]) place stop)
      (here : StartsAt (Shape.eventsOfAll [.node .root children]) stop) : False := by
    obtain ⟨kind, parent, here⟩ := here
    cases closes.finishesAt.symm.trans here
  refine ⟨by rw [events]; rfl, ?_, fun place starts => ?_, fun stop here => ?_, ?_⟩
  · rw [events]
    have closes := Closes.node .root none (nested_eventsOfAll children).1 []
    simpa using closes
  · obtain ⟨kind, parent, here⟩ := starts
    obtain ⟨stop, closes | closes⟩ := nested.exists_closes here (by simp)
    · exact ⟨stop, closes, fun other closes' => closes'.end_unique closes⟩
    · exact (unclosed closes ⟨kind, parent, here⟩).elim
  · obtain ⟨place, closes | closes⟩ := nested.exists_closes here (by decide)
    · obtain ⟨kind, parent, starts⟩ := closes.startsAt
      cases here.symm.trans starts
    · exact ⟨place, closes, fun other closes' => closes'.start_unique closes⟩
  · intro place kind distance here
    obtain ⟨stop, closes, names, starts | ⟨waits, -⟩⟩ := leads place kind distance here
    · have later : place < stop := by
        obtain ⟨front, _, _, inside, _, _, _, rfl, rfl⟩ := closes
        omega
      refine ⟨by omega, names ▸ starts, fun other kind' distance' there same => ?_⟩
      obtain ⟨stop', closes', names', -⟩ := leads other kind' distance' there
      obtain rfl : stop' = stop := by omega
      exact closes'.start_unique closes
    · cases waits

end Event

end LosslessSyntax

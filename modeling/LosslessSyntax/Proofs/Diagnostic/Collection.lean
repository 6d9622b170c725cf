import Mathlib.Data.List.Pairwise
import Mathlib.Data.List.Sort
import LosslessSyntax.Diagnostic.Collection

/-! # What a collection of diagnostics holds

A collection is strictly ordered and holds, for every span and code, the diagnostic that was pushed
first (`mem_extend`). So two collections are equal as soon as they hold the same diagnostics
(`Diagnostics.ext_of_mem`), in whatever order these were pushed.
-/

namespace LosslessSyntax

namespace Diagnostic

variable {a b c : Diagnostic}

theorem sameProblem_iff : a.sameProblem b = true ↔ a.span = b.span ∧ a.code = b.code := by
  simp [sameProblem]

theorem sameProblem_self (a : Diagnostic) : a.sameProblem a = true := sameProblem_iff.mpr ⟨rfl, rfl⟩

theorem sameProblem_comm : a.sameProblem b = b.sameProblem a := by
  rw [Bool.eq_iff_iff, sameProblem_iff, sameProblem_iff, eq_comm, @eq_comm _ a.code]

instance : Std.Symm fun a b : Diagnostic => a.sameProblem b = false where
  symm _ _ different := sameProblem_comm.trans different

theorem rank_injective {code other : DiagnosticCode} (ranks : code.rank = other.rank) :
    code = other := by
  revert ranks
  cases code <;> cases other <;> decide

/-- The order of diagnostics, one part after the other. -/
theorem compare_eq_lex :
    compare = compareLex (compareOn (·.span.start)) (compareLex (compareOn (·.span.stop))
      (compareLex (compareOn (·.code.rank)) (compareOn (·.message)))) := by
  funext a b
  simp [compare, Span.compare, compareLex, compareOn, Ordering.then_assoc]

instance : Std.TransCmp compare := by
  rw [compare_eq_lex]
  infer_instance

theorem sameProblem_of_compare_eq (equal : a.compare b = .eq) : a.sameProblem b = true := by
  simp only [compare, Span.compare, Ordering.then_eq_eq, Nat.compare_eq_eq] at equal
  obtain ⟨⟨starts, stops⟩, ranks, -⟩ := equal
  rw [sameProblem_iff]
  have span : a.span = b.span := by
    cases h : a.span
    cases h' : b.span
    simp_all
  exact ⟨span, rank_injective ranks⟩

/-- One diagnostic stands before another. -/
def Before (a b : Diagnostic) : Prop := a.compare b = .lt

instance : Std.Irrefl Before where
  irrefl a before := by
    have equal : a.compare a = .eq := Std.ReflCmp.compare_self
    rw [Before, equal] at before
    exact nomatch before

theorem Before.trans (first : Before a b) (second : Before b c) : Before a c :=
  Std.TransCmp.lt_trans first second

instance : Std.Antisymm Before where
  antisymm a _ first second := absurd (first.trans second) (Std.Irrefl.irrefl a)

theorem before_or_before (different : a.sameProblem b = false) : Before a b ∨ Before b a := by
  rw [Before, Before]
  cases order : a.compare b with
  | lt => exact .inl rfl
  | eq => exact absurd (sameProblem_of_compare_eq order) (Bool.eq_false_iff.mp different)
  | gt => exact .inr (Std.OrientedCmp.lt_of_gt order)

/-- A diagnostic starts earlier than another, or ends earlier, or has a code that comes earlier. -/
def Precedes (a b : Diagnostic) : Prop :=
  a.span.start < b.span.start ∨ a.span.start = b.span.start ∧
    (a.span.stop < b.span.stop ∨ a.span.stop = b.span.stop ∧ a.code.rank < b.code.rank)

/-- The message does not decide between different problems. -/
theorem Before.precedes (before : Before a b) (different : a.sameProblem b = false) :
    Precedes a b := by
  rw [Before, compare, Ordering.then_eq_lt, Span.compare, Ordering.then_eq_lt, Ordering.then_eq_eq,
    Nat.compare_eq_lt, Nat.compare_eq_eq, Nat.compare_eq_lt, Nat.compare_eq_eq, Ordering.then_eq_lt,
    Nat.compare_eq_lt, Nat.compare_eq_eq] at before
  rcases before with (start | stop) | ⟨⟨start, stop⟩, rank | ⟨rank, -⟩⟩
  · exact .inl start
  · exact .inr ⟨stop.1, .inl stop.2⟩
  · exact .inr ⟨start, .inr ⟨stop, rank⟩⟩
  · have span : a.span = b.span := congrArg₂ Span.mk start stop
    exact absurd (sameProblem_iff.mpr ⟨span, rank_injective rank⟩) (Bool.eq_false_iff.mp different)

end Diagnostic

namespace Diagnostics

open Diagnostic

theorem mem_insertSorted {a d : Diagnostic} {items : List Diagnostic} :
    d ∈ insertSorted a items ↔ d = a ∨ d ∈ items := by
  induction items with
  | nil => simp [insertSorted]
  | cons first rest ih =>
    rw [insertSorted]
    split
    · exact List.mem_cons
    · rw [List.mem_cons, ih, List.mem_cons, or_left_comm]

theorem pairwise_insertSorted {a : Diagnostic} {items : List Diagnostic}
    (ordered : items.Pairwise Before) (fresh : items.any a.sameProblem = false) :
    (insertSorted a items).Pairwise Before := by
  induction items with
  | nil => exact List.pairwise_singleton Before a
  | cons first rest ih =>
    obtain ⟨least, others⟩ := List.pairwise_cons.mp ordered
    simp only [List.any_cons, Bool.or_eq_false_iff] at fresh
    rw [insertSorted]
    split
    case isTrue lower =>
      have lower : Before a first := beq_iff_eq.mp lower
      refine List.pairwise_cons.mpr ⟨fun d member => ?_, ordered⟩
      rcases List.mem_cons.mp member with rfl | later
      · exact lower
      · exact lower.trans (least d later)
    case isFalse notLower =>
      refine List.pairwise_cons.mpr ⟨fun d member => ?_, ih others fresh.2⟩
      rcases mem_insertSorted.mp member with rfl | later
      · have higher := (before_or_before fresh.1).resolve_left fun lower => notLower (beq_iff_eq.mpr lower)
        exact higher
      · exact least d later

/-- The diagnostics are in order, and no two have the same span and code. -/
structure Ordered (collection : Diagnostics) : Prop where
  sorted : collection.items.Pairwise Before
  distinct : collection.items.Pairwise fun d e => d.sameProblem e = false

theorem ordered_empty : Ordered .empty := ⟨.nil, .nil⟩

theorem reports_iff {collection : Diagnostics} {d : Diagnostic} :
    collection.reports d = true ↔ ∃ e ∈ collection.items, d.sameProblem e = true :=
  List.any_eq_true

theorem mem_push {collection : Diagnostics} {a d : Diagnostic} :
    d ∈ (collection.push a).items ↔
      d ∈ collection.items ∨ (d = a ∧ collection.reports a = false) := by
  rw [push]
  split
  case isTrue known => simp [known]
  case isFalse fresh => rw [mem_insertSorted, Bool.eq_false_iff, or_comm]; simp [fresh]

theorem distinct_insertSorted {a : Diagnostic} {items : List Diagnostic}
    (distinct : items.Pairwise fun d e => d.sameProblem e = false)
    (fresh : items.any a.sameProblem = false) :
    (insertSorted a items).Pairwise fun d e => d.sameProblem e = false := by
  induction items with
  | nil => exact List.pairwise_singleton _ a
  | cons first rest ih =>
    obtain ⟨least, others⟩ := List.pairwise_cons.mp distinct
    have apart := List.any_eq_false.mp fresh
    rw [insertSorted]
    split
    · exact List.pairwise_cons.mpr ⟨fun d member => Bool.eq_false_iff.mpr (apart d member), distinct⟩
    · simp only [List.any_cons, Bool.or_eq_false_iff] at fresh
      refine List.pairwise_cons.mpr ⟨fun d member => ?_, ih others fresh.2⟩
      rcases mem_insertSorted.mp member with rfl | later
      · exact sameProblem_comm.trans fresh.1
      · exact least d later

theorem Ordered.push {collection : Diagnostics} (ordered : collection.Ordered) (a : Diagnostic) :
    (collection.push a).Ordered := by
  rw [Diagnostics.push]
  split
  case isTrue => exact ordered
  case isFalse fresh =>
    have fresh := Bool.eq_false_iff.mpr fresh
    exact ⟨pairwise_insertSorted ordered.sorted fresh, distinct_insertSorted ordered.distinct fresh⟩

theorem Ordered.extend {collection : Diagnostics} (ordered : collection.Ordered)
    (added : List Diagnostic) : (collection.extend added).Ordered := by
  induction added generalizing collection with
  | nil => exact ordered
  | cons a rest ih => exact ih (ordered.push a)

theorem ordered_ofList (diagnostics : List Diagnostic) : (ofList diagnostics).Ordered :=
  ordered_empty.extend diagnostics

/-- The diagnostics increase strictly by start, end and code. -/
theorem Ordered.precedes {collection : Diagnostics} (ordered : collection.Ordered) :
    collection.items.Pairwise Precedes :=
  (ordered.sorted.and ordered.distinct).imp fun both => both.1.precedes both.2

/-- A collection has no two diagnostics of the same span and code. -/
theorem Ordered.eq_of_sameProblem {collection : Diagnostics} (ordered : collection.Ordered)
    {d e : Diagnostic} (member : d ∈ collection.items) (member' : e ∈ collection.items)
    (same : d.sameProblem e = true) : d = e := by
  by_contra different
  exact Bool.eq_false_iff.mp (ordered.distinct.forall member member' different) same

/-- What can be said of one diagnostic at most is said of one at most. -/
theorem Ordered.length_filter_le {collection : Diagnostics} (ordered : collection.Ordered)
    {test : Diagnostic → Bool} (unique : ∀ d ∈ collection.items, ∀ e ∈ collection.items,
      test d = true → test e = true → d = e) : (collection.items.filter test).length ≤ 1 := by
  have sorted := ordered.sorted.filter test
  have inside {d : Diagnostic} := @List.mem_filter _ test collection.items d
  match found : collection.items.filter test with
  | [] => exact Nat.zero_le 1
  | [_] => exact Nat.le_refl 1
  | first :: second :: rest =>
    rw [found] at sorted inside
    obtain ⟨member, here⟩ := inside.mp List.mem_cons_self
    obtain ⟨member', there⟩ := inside.mp (List.mem_cons_of_mem first List.mem_cons_self)
    have before := (List.pairwise_cons.mp sorted).1 second List.mem_cons_self
    obtain rfl := unique first member second member' here there
    exact absurd before (Std.Irrefl.irrefl first)

/-- Ordered collections that hold the same diagnostics are equal. -/
theorem ext_of_mem {first second : Diagnostics} (ordered : first.Ordered) (ordered' : second.Ordered)
    (same : ∀ d, d ∈ first.items ↔ d ∈ second.items) : first = second := by
  obtain ⟨items⟩ := first
  obtain ⟨items'⟩ := second
  exact congrArg Diagnostics.mk (List.Pairwise.eq_of_mem_iff ordered.sorted ordered'.sorted same)

theorem extend_append (collection : Diagnostics) (front back : List Diagnostic) :
    collection.extend (front ++ back) = (collection.extend front).extend back :=
  List.foldl_append

@[simp] theorem extend_nil (collection : Diagnostics) : collection.extend [] = collection := rfl

@[simp] theorem extend_cons (collection : Diagnostics) (a : Diagnostic) (rest : List Diagnostic) :
    collection.extend (a :: rest) = (collection.push a).extend rest := rfl

theorem mem_extend_of_mem {collection : Diagnostics} {d : Diagnostic} (added : List Diagnostic)
    (member : d ∈ collection.items) : d ∈ (collection.extend added).items := by
  induction added generalizing collection with
  | nil => exact member
  | cons a rest ih => exact ih (mem_push.mpr (.inl member))

theorem reports_push (collection : Diagnostics) (a d : Diagnostic) :
    (collection.push a).reports d = (collection.reports d || d.sameProblem a) := by
  rw [Bool.eq_iff_iff, Bool.or_eq_true]
  constructor
  · intro known
    obtain ⟨e, member, same⟩ := reports_iff.mp known
    rcases mem_push.mp member with member | ⟨rfl, -⟩
    · exact .inl (reports_iff.mpr ⟨e, member, same⟩)
    · exact .inr same
  · rintro (known | same)
    · obtain ⟨e, member, same⟩ := reports_iff.mp known
      exact reports_iff.mpr ⟨e, mem_push.mpr (.inl member), same⟩
    · by_cases known : collection.reports a = true
      · obtain ⟨e, member, also⟩ := reports_iff.mp known
        refine reports_iff.mpr ⟨e, mem_push.mpr (.inl member), ?_⟩
        rw [sameProblem_iff] at same also ⊢
        exact ⟨same.1.trans also.1, same.2.trans also.2⟩
      · exact reports_iff.mpr ⟨a, mem_push.mpr (.inr ⟨rfl, Bool.eq_false_iff.mpr known⟩), same⟩

/-- What is pushed is reported from then on. -/
theorem exists_mem_push (collection : Diagnostics) (a : Diagnostic) :
    ∃ d ∈ (collection.push a).items, d.span = a.span ∧ d.code = a.code := by
  have reported := reports_push collection a a
  rw [sameProblem_self, Bool.or_true] at reported
  obtain ⟨d, member, same⟩ := reports_iff.mp reported
  obtain ⟨span, code⟩ := sameProblem_iff.mp same
  exact ⟨d, member, span.symm, code.symm⟩

/-- A diagnostic is the first of its span and code in a list. -/
def FirstIn (d : Diagnostic) (list : List Diagnostic) : Prop :=
  ∃ before after, list = before ++ d :: after ∧ ∀ e ∈ before, d.sameProblem e = false

theorem firstIn_cons {a d : Diagnostic} {rest : List Diagnostic} :
    FirstIn d (a :: rest) ↔ d = a ∨ (d.sameProblem a = false ∧ FirstIn d rest) := by
  constructor
  · rintro ⟨before, after, split, others⟩
    cases before with
    | nil => exact .inl (List.cons.inj split).1.symm
    | cons first before =>
      obtain ⟨rfl, rfl⟩ := List.cons.inj split
      exact .inr ⟨others a List.mem_cons_self,
        before, after, rfl, fun e member => others e (List.mem_cons_of_mem a member)⟩
  · rintro (rfl | ⟨different, before, after, rfl, others⟩)
    · exact ⟨[], rest, rfl, fun e member => nomatch member⟩
    · refine ⟨a :: before, after, rfl, fun e member => ?_⟩
      rcases List.mem_cons.mp member with rfl | member
      · exact different
      · exact others e member

/-- A collection holds what it held, and of what is added the first for each span and code that is
not reported yet. -/
theorem mem_extend {collection : Diagnostics} {d : Diagnostic} {added : List Diagnostic} :
    d ∈ (collection.extend added).items ↔
      d ∈ collection.items ∨ (collection.reports d = false ∧ FirstIn d added) := by
  induction added generalizing collection with
  | nil =>
    refine ⟨.inl, ?_⟩
    rintro (member | ⟨-, before, after, ended, -⟩)
    · exact member
    · exact absurd ended.symm (List.append_ne_nil_of_right_ne_nil before (List.cons_ne_nil d after))
  | cons a rest ih =>
    rw [extend_cons, ih, mem_push, firstIn_cons, reports_push, Bool.or_eq_false_iff]
    constructor
    · rintro ((member | ⟨rfl, unknown⟩) | ⟨⟨unknown, different⟩, first⟩)
      · exact .inl member
      · exact .inr ⟨unknown, .inl rfl⟩
      · exact .inr ⟨unknown, .inr ⟨different, first⟩⟩
    · rintro (member | ⟨unknown, rfl | ⟨different, first⟩⟩)
      · exact .inl (.inl member)
      · exact .inl (.inr ⟨rfl, unknown⟩)
      · exact .inr ⟨⟨unknown, different⟩, first⟩

theorem mem_ofList {d : Diagnostic} {list : List Diagnostic} :
    d ∈ (ofList list).items ↔ FirstIn d list := by
  rw [ofList, mem_extend]
  simp [empty, reports]

end Diagnostics

end LosslessSyntax

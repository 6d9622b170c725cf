import LosslessSyntax.Diagnostic.Addition
import LosslessSyntax.Proofs.Diagnostic.Merging

/-! # What additions lead to

A search by halving ends where the items that pass the test end, as long as no item that passes
stands behind one that does not (`partitionPoint_eq`). A collection in order is of this kind for both
searches, so adding to it is pushing (`Diagnostics.Ordered.add_eq`). Whatever is called on an empty
collection, it then holds, in order, the first diagnostic for each span and code
(`Diagnostics.additions_first_wins`).
-/

namespace LosslessSyntax

section Search

variable {α : Type} {test : α → Bool} {items : List α}

/-- No item that passes a test stands behind one that does not. -/
def Parted (test : α → Bool) (items : List α) : Prop :=
  items.Pairwise fun a b => test b = true → test a = true

theorem Parted.dropWhile (parted : Parted test items) :
    ∀ a ∈ items.dropWhile test, test a = false := by
  induction items with
  | nil => exact fun _ member => nomatch member
  | cons first rest ih =>
    obtain ⟨before, parted⟩ := List.pairwise_cons.mp parted
    rw [List.dropWhile_cons]
    split
    case isTrue => exact ih parted
    case isFalse fails =>
      refine List.forall_mem_cons.mpr ⟨Bool.eq_false_iff.mpr fails, fun a member => ?_⟩
      exact Bool.eq_false_iff.mpr fun passes => fails (before a member passes)

theorem partitionPoint_append {front back : List α} (passes : ∀ a ∈ front, test a = true)
    (fails : ∀ a ∈ back, test a = false) {low high : Nat} (above : low ≤ front.length)
    (below : front.length ≤ high) :
    partitionPoint test (front ++ back) low high = front.length := by
  fun_induction partitionPoint test (front ++ back) low high with
  | case1 low high range middle passing ih =>
    refine ih ?_ below
    by_contra behind
    rw [List.getElem?_append_right (by omega), Option.any_eq_true] at passing
    obtain ⟨a, found, passing⟩ := passing
    exact Bool.false_ne_true ((fails a (List.mem_of_getElem? found)).symm.trans passing)
  | case2 low high range middle failing ih =>
    refine ih above ?_
    by_contra before
    have within : middle < front.length := by omega
    rw [List.getElem?_append_left within, List.getElem?_eq_getElem within] at failing
    exact failing (passes _ (List.getElem_mem within))
  | case3 low high range => omega

/-- Halving finds how many items pass the test. -/
theorem partitionPoint_eq (parted : Parted test items) :
    partitionPoint test items 0 items.length = (items.takeWhile test).length := by
  have whole := List.takeWhile_append_dropWhile (p := test) (l := items)
  have passes : ∀ a ∈ items.takeWhile test, test a = true :=
    List.all_eq_true.mp List.all_takeWhile
  have found := partitionPoint_append passes parted.dropWhile (Nat.zero_le _)
    (List.takeWhile_sublist test).length_le
  rwa [whole] at found

theorem drop_length_takeWhile (test : α → Bool) (items : List α) :
    items.drop (items.takeWhile test).length = items.dropWhile test := by
  have whole := List.takeWhile_append_dropWhile (p := test) (l := items)
  calc items.drop (items.takeWhile test).length
      = (items.takeWhile test ++ items.dropWhile test).drop (items.takeWhile test).length := by
        rw [whole]
    _ = items.dropWhile test := List.drop_left

theorem insertIdx_length_takeWhile (test : α → Bool) (items : List α) (a : α) :
    items.insertIdx (items.takeWhile test).length a =
      items.takeWhile test ++ a :: items.dropWhile test := by
  induction items with
  | nil => rfl
  | cons first rest ih =>
    by_cases passes : test first = true
    · rw [List.takeWhile_cons_of_pos passes, List.dropWhile_cons_of_pos passes, List.length_cons,
        List.insertIdx_succ_cons, ih, List.cons_append]
    · rw [List.takeWhile_cons_of_neg passes, List.dropWhile_cons_of_neg passes]
      rfl

/-- If items that have a property stand side by side, they are found from the first of them on. -/
theorem any_takeWhile_dropWhile {early here property : α → Bool}
    (beside : Parted here (items.dropWhile early))
    (apart : ∀ a, property a = true → early a = false ∧ here a = true) :
    ((items.dropWhile early).takeWhile here).any property = items.any property := by
  have front : (items.takeWhile early).any property = false := by
    refine List.any_eq_false.mpr fun a member holds => ?_
    have early : early a = true := List.all_eq_true.mp List.all_takeWhile a member
    exact Bool.false_ne_true ((apart a holds).1.symm.trans early)
  have back : ((items.dropWhile early).dropWhile here).any property = false := by
    refine List.any_eq_false.mpr fun a member holds => ?_
    exact Bool.false_ne_true ((beside.dropWhile a member).symm.trans (apart a holds).2)
  calc ((items.dropWhile early).takeWhile here).any property
      = (items.dropWhile early).any property := by
        conv_rhs => rw [← List.takeWhile_append_dropWhile (p := here) (l := items.dropWhile early)]
        rw [List.any_append, back, Bool.or_false]
    _ = items.any property := by
        conv_rhs => rw [← List.takeWhile_append_dropWhile (p := early) (l := items)]
        rw [List.any_append, front, Bool.false_or]

end Search

namespace Diagnostics

open Diagnostic

variable {collection : Diagnostics}

theorem Ordered.starts (ordered : collection.Ordered) :
    collection.items.Pairwise fun a b => a.span.start ≤ b.span.start :=
  ordered.precedes.imp fun precedes => precedes.elim Nat.le_of_lt fun later => Nat.le_of_eq later.1

/-- What is reported already is found among the diagnostics that start at the same place. -/
theorem Ordered.any_beside (ordered : collection.Ordered) (added : Diagnostic) :
    ((collection.items.drop (collection.search fun d => d.span.start < added.span.start)).takeWhile
      fun d => d.span.start == added.span.start).any added.sameProblem =
        collection.reports added := by
  have early : Parted (fun d : Diagnostic => decide (d.span.start < added.span.start))
      collection.items := ordered.starts.imp fun before later => by
    rw [decide_eq_true_eq] at later ⊢
    exact Nat.lt_of_le_of_lt before later
  rw [search, partitionPoint_eq early, drop_length_takeWhile, reports]
  refine any_takeWhile_dropWhile ?_ fun d same => ?_
  · have starts := ordered.starts.sublist (List.dropWhile_sublist
      fun d : Diagnostic => decide (d.span.start < added.span.start))
    refine starts.imp_of_mem fun {a b} member _ before later => ?_
    have notEarly := early.dropWhile a member
    rw [decide_eq_false_iff_not] at notEarly
    rw [beq_iff_eq] at later ⊢
    omega
  · rw [sameProblem_iff] at same
    rw [decide_eq_false_iff_not, beq_iff_eq, same.1]
    exact ⟨Nat.lt_irrefl _, rfl⟩

theorem insertSorted_eq (added : Diagnostic) (items : List Diagnostic) :
    insertSorted added items = items.takeWhile (fun d => (d.compare added).isLE) ++
      added :: items.dropWhile (fun d => (d.compare added).isLE) := by
  induction items with
  | nil => rfl
  | cons first rest ih =>
    rw [insertSorted, ih, List.takeWhile_cons, List.dropWhile_cons]
    cases order : first.compare added with
    | lt | eq =>
      have notLower : added.compare first ≠ .lt := fun lower =>
        absurd (Std.OrientedCmp.gt_of_lt lower) (by rw [order]; decide)
      rw [if_neg (by simpa using notLower)]
      rfl
    | gt =>
      rw [if_pos (beq_iff_eq.mpr (Std.OrientedCmp.lt_of_gt order))]
      rfl

/-- To a collection in order a diagnostic is added as it is pushed, and it is added if its span and
code are not reported yet. -/
theorem Ordered.add_eq (ordered : collection.Ordered) (added : Diagnostic) :
    collection.add added = (!collection.reports added, collection.push added) := by
  have lower : Parted (fun d : Diagnostic => (d.compare added).isLE) collection.items :=
    ordered.sorted.imp fun before later =>
      Ordering.isLE_of_eq_lt (Std.TransCmp.lt_of_lt_of_isLE before later)
  rw [add, Diagnostics.push, ordered.any_beside]
  cases collection.reports added with
  | true => rfl
  | false =>
    simp only [search, partitionPoint_eq lower, insertIdx_length_takeWhile, insertSorted_eq]
    rfl

theorem Ordered.addAll_eq (ordered : collection.Ordered) (added : List Diagnostic) :
    collection.addAll added = collection.extend added := by
  induction added generalizing collection with
  | nil => rfl
  | cons first rest ih =>
    rw [extend_cons, ← ih (ordered.push first), addAll, List.foldl_cons, ordered.add_eq]
    rfl

/-- What is added in the order of starts, no two at one place, is held as it is. -/
theorem items_ofList_of_starts {list : List Diagnostic}
    (starts : list.Pairwise fun d e => d.span.start < e.span.start) : (ofList list).items = list := by
  have sorted : list.Pairwise Before := starts.imp fun earlier => by
    rw [Before, Diagnostic.compare, Ordering.then_eq_lt, Span.compare, Ordering.then_eq_lt,
      Nat.compare_eq_lt]
    exact .inl (.inl earlier)
  have distinct : list.Pairwise fun d e => d.sameProblem e = false := starts.imp fun earlier =>
    Bool.eq_false_iff.mpr fun same => by
      rw [(sameProblem_iff.mp same).1] at earlier
      exact Nat.lt_irrefl _ earlier
  refine congrArg items (ext_of_mem (ordered_ofList list) ⟨sorted, distinct⟩ fun d => ?_)
  rw [mem_ofList]
  exact ⟨FirstIn.mem, firstIn_of_distinct distinct⟩

/-- A call that adds to a collection. -/
inductive Addition where
  /-- Adds one diagnostic. -/
  | push (diagnostic : Diagnostic)
  /-- Adds diagnostics one after the other. -/
  | extend (diagnostics : List Diagnostic)

/-- What a call adds. -/
def Addition.added : Addition → List Diagnostic
  | .push diagnostic => [diagnostic]
  | .extend diagnostics => diagnostics

/-- The collection after a call. -/
def perform (collection : Diagnostics) : Addition → Diagnostics
  | .push diagnostic => (collection.add diagnostic).2
  | .extend diagnostics => collection.addAll diagnostics

/-- The collection that some calls lead to, from an empty one. -/
def afterCalls (calls : List Addition) : Diagnostics := calls.foldl perform .empty

theorem Ordered.perform_eq (ordered : collection.Ordered) (call : Addition) :
    collection.perform call = collection.extend call.added := by
  cases call with
  | push diagnostic => rw [perform, ordered.add_eq]; rfl
  | extend diagnostics => exact ordered.addAll_eq diagnostics

/-- Only what is added matters, not in which calls. -/
theorem afterCalls_eq (calls : List Addition) :
    afterCalls calls = ofList (calls.flatMap Addition.added) := by
  have onward {collection : Diagnostics} (ordered : collection.Ordered) :
      calls.foldl perform collection = collection.extend (calls.flatMap Addition.added) := by
    induction calls generalizing collection with
    | nil => rfl
    | cons call calls ih =>
      rw [List.foldl_cons, ordered.perform_eq, ih (ordered.extend _), List.flatMap_cons,
        extend_append]
  exact onward ordered_empty

/-- A diagnostic is reported if its span and code were added. -/
theorem reports_ofList {list : List Diagnostic} {d : Diagnostic} :
    (ofList list).reports d = true ↔ ∃ e ∈ list, e.span = d.span ∧ e.code = d.code := by
  have same {e : Diagnostic} : d.sameProblem e = true ↔ e.span = d.span ∧ e.code = d.code := by
    rw [sameProblem_comm, sameProblem_iff]
  rw [reports_iff]
  constructor
  · rintro ⟨e, member, problem⟩
    exact ⟨e, (mem_ofList.mp member).mem, same.mp problem⟩
  · rintro ⟨e, member, span, code⟩
    obtain ⟨f, held, span', code'⟩ := exists_mem_extend .empty member
    exact ⟨f, held, same.mpr ⟨span'.trans span, code'.trans code⟩⟩

/-- The collection is a sorted set in which the first wins. Whatever calls add to an empty collection,
it then holds exactly the diagnostics that were added first for their span and code, strictly ordered
by start, end, code and message, so that already start, end and code tell any two of them apart. A
further diagnostic is added exactly if none with its span and code was added before, and otherwise
nothing changes. If no span and code are added twice, it does not matter in which order and by which
calls the diagnostics are added. -/
theorem additions_first_wins (calls : List Addition) :
    (∀ d, d ∈ (afterCalls calls).items ↔ FirstIn d (calls.flatMap Addition.added)) ∧
    (afterCalls calls).items.Pairwise Before ∧ (afterCalls calls).items.Pairwise Precedes ∧
    (∀ d, (((afterCalls calls).add d).1 = true ↔
        ∀ e ∈ calls.flatMap Addition.added, ¬ (e.span = d.span ∧ e.code = d.code)) ∧
      (((afterCalls calls).add d).1 = false → ((afterCalls calls).add d).2 = afterCalls calls)) ∧
    ∀ calls', (calls'.flatMap Addition.added).Perm (calls.flatMap Addition.added) →
      (calls.flatMap Addition.added).Pairwise (fun d e => ¬ (d.span = e.span ∧ d.code = e.code)) →
      afterCalls calls' = afterCalls calls := by
  have ordered := ordered_ofList (calls.flatMap Addition.added)
  rw [afterCalls_eq]
  refine ⟨fun d => mem_ofList, ordered.sorted, ordered.precedes, fun d => ⟨?_, fun known => ?_⟩, ?_⟩
  · rw [ordered.add_eq, Bool.not_eq_true', Bool.eq_false_iff, ne_eq, reports_ofList]
    push Not
    rfl
  · rw [ordered.add_eq] at known ⊢
    exact if_pos (by simpa using known)
  · intro calls' permuted distinct
    have apart : (calls.flatMap Addition.added).Pairwise fun d e => d.sameProblem e = false :=
      distinct.imp fun different => Bool.eq_false_iff.mpr (mt sameProblem_iff.mp different)
    have apart' := (permuted.pairwise_iff (Std.Symm.symm _ _)).mpr apart
    rw [afterCalls_eq]
    refine ext_of_mem (ordered_ofList _) ordered fun d => ?_
    rw [mem_ofList, mem_ofList]
    exact ⟨fun first => firstIn_of_distinct apart (permuted.mem_iff.mp first.mem),
      fun first => firstIn_of_distinct apart' (permuted.mem_iff.mpr first.mem)⟩

/-- Three diagnostics, of which two have one span and two have one code, in two orders. -/
theorem additions_in_any_order :
    ∃ first second third : Diagnostic, first.span = second.span ∧ second.code = third.code ∧
      [third, first, second].Perm [first, second, third] ∧
      [first, second, third].Pairwise (fun d e => ¬ (d.span = e.span ∧ d.code = e.code)) ∧
      afterCalls [.extend [third, first], .push second] =
        afterCalls [.push first, .extend [second, third]] := by
  refine ⟨.error .unexpectedToken "" ⟨4, 5⟩, .error .missingToken "" ⟨4, 5⟩,
    .error .missingToken "" ⟨2, 2⟩, rfl, rfl, by decide, by decide, ?_⟩
  exact (additions_first_wins [.push _, .extend [_, _]]).2.2.2.2 [.extend [_, _], .push _]
    (by decide) (by decide)

end Diagnostics

end LosslessSyntax

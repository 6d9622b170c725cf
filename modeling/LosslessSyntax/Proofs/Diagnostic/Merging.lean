import LosslessSyntax.Proofs.Diagnostic.Collection

/-! # Merging diagnostics

The diagnostics of a text are those of the grammar followed by those of the scanner. Pushing a
collection is pushing the list it was made from (`extend_items_ofList`), and the diagnostics in some
places are those that were pushed there (`ofList_filter`).
-/

namespace LosslessSyntax.Diagnostics

open Diagnostic

theorem FirstIn.mem {d : Diagnostic} {list : List Diagnostic} (first : FirstIn d list) : d ∈ list := by
  obtain ⟨before, after, rfl, -⟩ := first
  exact List.mem_append_right before List.mem_cons_self

/-- Of a list without repetitions every diagnostic is the first of its kind. -/
theorem firstIn_of_distinct {d : Diagnostic} {list : List Diagnostic}
    (distinct : list.Pairwise fun d e => d.sameProblem e = false) (member : d ∈ list) :
    FirstIn d list := by
  obtain ⟨before, after, rfl⟩ := List.append_of_mem member
  refine ⟨before, after, rfl, fun e earlier => ?_⟩
  rw [sameProblem_comm]
  exact (List.pairwise_append.mp distinct).2.2 e earlier d List.mem_cons_self

/-- Pushing a collection is pushing the list it was made from. -/
theorem extend_items_ofList {collection : Diagnostics} (ordered : collection.Ordered)
    (list : List Diagnostic) : collection.extend (ofList list).items = collection.extend list := by
  refine ext_of_mem (ordered.extend _) (ordered.extend _) fun d => ?_
  rw [mem_extend, mem_extend]
  have same : FirstIn d (ofList list).items ↔ FirstIn d list :=
    ⟨fun first => mem_ofList.mp first.mem,
      fun first => firstIn_of_distinct (ordered_ofList list).distinct (mem_ofList.mpr first)⟩
  rw [same]

theorem eq_nil_of_extend {collection : Diagnostics} {added : List Diagnostic}
    (none : (collection.extend added).items = []) : added = [] := by
  cases added with
  | nil => rfl
  | cons a rest =>
    obtain ⟨d, member, -⟩ := exists_mem_push collection a
    have member := mem_extend_of_mem rest member
    rw [← extend_cons, none] at member
    exact nomatch member

theorem ofList_extend (front back : List Diagnostic) :
    (ofList front).extend back = ofList (front ++ back) := by
  rw [ofList, ofList, extend_append]

theorem firstIn_filter {keep : Span → Bool} {d : Diagnostic} {list : List Diagnostic} :
    FirstIn d (list.filter fun e => keep e.span) ↔ FirstIn d list ∧ keep d.span = true := by
  induction list with
  | nil =>
    refine ⟨fun first => absurd first.mem (by simp), fun first => absurd first.1.mem (by simp)⟩
  | cons a rest ih =>
    rw [List.filter_cons]
    split
    case isTrue kept =>
      rw [firstIn_cons, firstIn_cons, ih, or_and_right, and_assoc]
      exact or_congr_left ⟨fun same => ⟨same, same ▸ kept⟩, And.left⟩
    case isFalse dropped =>
      rw [ih, firstIn_cons, or_and_right, and_assoc]
      constructor
      · refine fun first => .inr ⟨Bool.eq_false_iff.mpr fun same => dropped ?_, first⟩
        rw [← (sameProblem_iff.mp same).1]
        exact first.2
      · rintro (⟨rfl, kept⟩ | ⟨-, first⟩)
        · exact absurd kept dropped
        · exact first

theorem ordered_filter {collection : Diagnostics} (ordered : collection.Ordered)
    (keep : Diagnostic → Bool) : Ordered ⟨collection.items.filter keep⟩ :=
  ⟨ordered.sorted.filter keep, ordered.distinct.filter keep⟩

/-- The diagnostics in some places are those that were pushed there. -/
theorem ofList_filter (keep : Span → Bool) (list : List Diagnostic) :
    (ofList list).items.filter (fun d => keep d.span) =
      (ofList (list.filter fun d => keep d.span)).items := by
  have same : (⟨(ofList list).items.filter fun d => keep d.span⟩ : Diagnostics) =
      ofList (list.filter fun d => keep d.span) := by
    refine ext_of_mem (ordered_filter (ordered_ofList list) _) (ordered_ofList _) fun d => ?_
    rw [mem_ofList, firstIn_filter, ← mem_ofList]
    exact List.mem_filter
  exact congrArg items same

/-- What is pushed is reported. -/
theorem exists_mem_extend {added : List Diagnostic} {d : Diagnostic} (collection : Diagnostics)
    (member : d ∈ added) :
    ∃ e ∈ (collection.extend added).items, e.span = d.span ∧ e.code = d.code := by
  obtain ⟨front, back, rfl⟩ := List.append_of_mem member
  obtain ⟨e, pushed, same⟩ := exists_mem_push (collection.extend front) d
  rw [extend_append, extend_cons]
  exact ⟨e, mem_extend_of_mem back pushed, same⟩

/-- Whether something is reported can be asked of the list that was pushed. -/
theorem any_ofList {test : Diagnostic → Bool} (list : List Diagnostic)
    (respects : ∀ d e : Diagnostic, d.span = e.span → d.code = e.code → test d = test e) :
    (ofList list).items.any test = list.any test := by
  rw [Bool.eq_iff_iff, List.any_eq_true, List.any_eq_true]
  constructor
  · rintro ⟨d, member, holds⟩
    exact ⟨d, (mem_ofList.mp member).mem, holds⟩
  · rintro ⟨d, member, holds⟩
    obtain ⟨e, reported, span, code⟩ := exists_mem_extend .empty member
    exact ⟨e, reported, (respects e d span code).trans holds⟩

/-- A map that keeps different problems apart keeps the first of each. -/
theorem firstIn_map {change : Diagnostic → Diagnostic} {list : List Diagnostic}
    (apart : ∀ d ∈ list, ∀ e ∈ list, (change d).sameProblem (change e) = d.sameProblem e)
    {d : Diagnostic} : FirstIn d (list.map change) ↔ ∃ e, FirstIn e list ∧ change e = d := by
  induction list with
  | nil => exact ⟨fun first => (nomatch first.mem), fun ⟨e, first, _⟩ => (nomatch first.mem)⟩
  | cons a rest ih =>
    have apart' : ∀ d ∈ rest, ∀ e ∈ rest,
        (change d).sameProblem (change e) = d.sameProblem e :=
      fun d member e member' =>
        apart d (List.mem_cons_of_mem a member) e (List.mem_cons_of_mem a member')
    rw [List.map_cons, firstIn_cons, ih apart']
    constructor
    · rintro (rfl | ⟨different, e, first, rfl⟩)
      · exact ⟨a, firstIn_cons.mpr (.inl rfl), rfl⟩
      · rw [apart e (List.mem_cons_of_mem a first.mem) a List.mem_cons_self] at different
        exact ⟨e, firstIn_cons.mpr (.inr ⟨different, first⟩), rfl⟩
    · rintro ⟨e, first, rfl⟩
      rcases firstIn_cons.mp first with rfl | ⟨different, first⟩
      · exact .inl rfl
      · rw [← apart e (List.mem_cons_of_mem a first.mem) a List.mem_cons_self] at different
        exact .inr ⟨different, e, first, rfl⟩

/-- Pushing the diagnostics of a collection changed is pushing the list it was made from changed. -/
theorem ofList_map {change : Diagnostic → Diagnostic} {list : List Diagnostic}
    (apart : ∀ d ∈ list, ∀ e ∈ list, (change d).sameProblem (change e) = d.sameProblem e) :
    ofList ((ofList list).items.map change) = ofList (list.map change) := by
  have inside {d : Diagnostic} (member : d ∈ (ofList list).items) : d ∈ list :=
    (mem_ofList.mp member).mem
  have apart' : ∀ d ∈ (ofList list).items, ∀ e ∈ (ofList list).items,
      (change d).sameProblem (change e) = d.sameProblem e :=
    fun d member e member' => apart d (inside member) e (inside member')
  refine ext_of_mem (ordered_ofList _) (ordered_ofList _) fun d => ?_
  rw [mem_ofList, mem_ofList, firstIn_map apart', firstIn_map apart]
  refine exists_congr fun e => and_congr_left fun _ => ?_
  exact ⟨fun first => mem_ofList.mp first.mem,
    fun first => firstIn_of_distinct (ordered_ofList list).distinct (mem_ofList.mpr first)⟩

/-- What is pushed changed is held changed, if the change keeps the order. -/
theorem items_ofList_map {change : Diagnostic → Diagnostic} {list : List Diagnostic}
    (apart : ∀ d ∈ list, ∀ e ∈ list, (change d).sameProblem (change e) = d.sameProblem e)
    (order : ∀ d ∈ list, ∀ e ∈ list, (change d).compare (change e) = d.compare e) :
    (ofList (list.map change)).items = (ofList list).items.map change := by
  have inside {d : Diagnostic} (member : d ∈ (ofList list).items) : d ∈ list :=
    (mem_ofList.mp member).mem
  have ordered := ordered_ofList list
  have changed : Ordered ⟨(ofList list).items.map change⟩ := by
    refine ⟨List.pairwise_map.mpr (ordered.sorted.imp_of_mem fun here there before => ?_),
      List.pairwise_map.mpr (ordered.distinct.imp_of_mem fun here there differs => ?_)⟩
    · exact (order _ (inside here) _ (inside there)).trans before
    · exact (apart _ (inside here) _ (inside there)).trans differs
  refine congrArg items (ext_of_mem (ordered_ofList _) changed fun d => ?_)
  rw [mem_ofList, firstIn_map apart, List.mem_map]
  exact exists_congr fun e => and_congr_left fun _ => mem_ofList.symm

/-- Lists are pushed alike if their parts in each place are. -/
theorem ofList_eq_of_places {Place : Type} [DecidableEq Place] (place : Span → Place)
    {list list' : List Diagnostic}
    (same : ∀ here, ofList (list.filter fun d => place d.span = here) =
      ofList (list'.filter fun d => place d.span = here)) :
    ofList list = ofList list' := by
  refine ext_of_mem (ordered_ofList list) (ordered_ofList list') fun d => ?_
  have here := congrArg (d ∈ ·.items) (same (place d.span))
  have first (list : List Diagnostic) := @firstIn_filter (fun span => place span = place d.span) d list
  simp only [mem_ofList, first, decide_true, and_true] at here
  rw [mem_ofList, mem_ofList]
  exact Iff.of_eq here

end LosslessSyntax.Diagnostics

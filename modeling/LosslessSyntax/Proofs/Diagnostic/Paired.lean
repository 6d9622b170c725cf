import Mathlib.Data.List.Forall2
import LosslessSyntax.Proofs.Diagnostic.Collection

/-! # Paired diagnostics

Where a diagnostic goes in a collection, and whether it is taken up at all, is a matter of spans and
codes. If two lists of diagnostics are paired so that their spans compare in the same way, and codes
and messages are the same, then the collections made from them are paired as well
(`paired_ofList`).
-/

namespace LosslessSyntax

namespace Span

theorem compare_self (a : Span) : a.compare a = .eq := by
  rw [compare, Nat.compare_eq_eq.mpr rfl, Nat.compare_eq_eq.mpr rfl]
  rfl

theorem compare_eq_eq {a b : Span} : a.compare b = .eq ↔ a = b := by
  refine ⟨fun same => ?_, ?_⟩
  · obtain ⟨start, stop⟩ := Ordering.then_eq_eq.mp same
    obtain ⟨a, a'⟩ := a
    obtain ⟨b, b'⟩ := b
    rw [show a = b from Nat.compare_eq_eq.mp start, show a' = b' from Nat.compare_eq_eq.mp stop]
  · rintro rfl
    exact compare_self a

theorem compare_swap (a b : Span) : (a.compare b).swap = b.compare a := by
  rw [compare, compare, Ordering.swap_then, Nat.compare_swap, Nat.compare_swap]

theorem compare_eq_lt {a b : Span} :
    a.compare b = .lt ↔ a.start < b.start ∨ a.start = b.start ∧ a.stop < b.stop := by
  rw [compare, Ordering.then_eq_lt, Nat.compare_eq_lt, Nat.compare_eq_eq, Nat.compare_eq_lt]

/-- Spans of two increasing lists compare as those that stand beside them. -/
theorem compare_zip {spans spans' : List Span} (sorted : spans.Pairwise (·.compare · = .lt))
    (sorted' : spans'.Pairwise (·.compare · = .lt)) {a a' b b' : Span}
    (first : (a, a') ∈ spans.zip spans') (second : (b, b') ∈ spans.zip spans') :
    a.compare b = a'.compare b' := by
  induction spans generalizing spans' with
  | nil => exact nomatch first
  | cons c rest ih =>
    cases spans' with
    | nil => exact nomatch first
    | cons c' rest' =>
      obtain ⟨least, sorted⟩ := List.pairwise_cons.mp sorted
      obtain ⟨least', sorted'⟩ := List.pairwise_cons.mp sorted'
      have behind {d d' : Span} (later : (d, d') ∈ rest.zip rest') :
          c.compare d = .lt ∧ c'.compare d' = .lt :=
        ⟨least d (List.of_mem_zip later).1, least' d' (List.of_mem_zip later).2⟩
      rw [List.zip_cons_cons] at first second
      rcases List.mem_cons.mp first with here | later
      · obtain ⟨rfl, rfl⟩ := Prod.mk.inj here
        rcases List.mem_cons.mp second with here' | later'
        · obtain ⟨rfl, rfl⟩ := Prod.mk.inj here'
          rw [compare_self, compare_self]
        · rw [(behind later').1, (behind later').2]
      · rcases List.mem_cons.mp second with here' | later'
        · obtain ⟨rfl, rfl⟩ := Prod.mk.inj here'
          rw [← compare_swap b a, ← compare_swap b' a', (behind later).1, (behind later).2]
        · exact ih sorted sorted' later later'

end Span

namespace Diagnostics

/-- A pairing of spans that keeps their order. -/
def Monotone (P : Span → Span → Prop) : Prop :=
  ∀ ⦃a a' b b' : Span⦄, P a a' → P b b' → a.compare b = a'.compare b'

/-- Two diagnostics of the same problem, at spans that are paired. -/
structure Paired (P : Span → Span → Prop) (d d' : Diagnostic) : Prop where
  code : d.code = d'.code
  message : d.message = d'.message
  span : P d.span d'.span

variable {P : Span → Span → Prop} {d d' e e' : Diagnostic}

theorem Paired.compare_eq (monotone : Monotone P) (first : Paired P d d')
    (second : Paired P e e') : d.compare e = d'.compare e' := by
  rw [Diagnostic.compare, Diagnostic.compare, monotone first.span second.span, first.code,
    first.message, second.code, second.message]

theorem Paired.sameProblem_eq (monotone : Monotone P) (first : Paired P d d')
    (second : Paired P e e') : d.sameProblem e = d'.sameProblem e' := by
  rw [Bool.eq_iff_iff, Diagnostic.sameProblem_iff, Diagnostic.sameProblem_iff,
    ← Span.compare_eq_eq, ← Span.compare_eq_eq, monotone first.span second.span, first.code,
    second.code]

variable {items items' list list' : List Diagnostic}

theorem paired_insertSorted (monotone : Monotone P) (first : Paired P d d')
    (paired : List.Forall₂ (Paired P) items items') :
    List.Forall₂ (Paired P) (insertSorted d items) (insertSorted d' items') := by
  induction paired with
  | nil => exact .cons first .nil
  | cons here others ih =>
    rw [insertSorted, insertSorted, first.compare_eq monotone here]
    split
    · exact .cons first (.cons here others)
    · exact .cons here ih

theorem paired_push (monotone : Monotone P) (first : Paired P d d')
    (paired : List.Forall₂ (Paired P) items items') :
    List.Forall₂ (Paired P) (push ⟨items⟩ d).items (push ⟨items'⟩ d').items := by
  have known : reports ⟨items⟩ d = reports ⟨items'⟩ d' := by
    rw [reports, reports]
    induction paired with
    | nil => rfl
    | cons here _ ih => rw [List.any_cons, List.any_cons, first.sameProblem_eq monotone here, ih]
  rw [push, push, known]
  split
  · exact paired
  · exact paired_insertSorted monotone first paired

theorem paired_extend (monotone : Monotone P) (paired : List.Forall₂ (Paired P) items items')
    (added : List.Forall₂ (Paired P) list list') :
    List.Forall₂ (Paired P) (extend ⟨items⟩ list).items (extend ⟨items'⟩ list').items := by
  induction added generalizing items items' with
  | nil => exact paired
  | cons first _ ih => exact ih (paired_push monotone first paired)

/-- Paired lists make paired collections. -/
theorem paired_ofList (monotone : Monotone P) (paired : List.Forall₂ (Paired P) list list') :
    List.Forall₂ (Paired P) (ofList list).items (ofList list').items :=
  paired_extend monotone .nil paired

end Diagnostics

end LosslessSyntax

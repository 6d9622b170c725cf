import LosslessSyntax.Proofs.Tree.Outline

/-! # Where line breaks are heeded

A line break may end what stands before it, but not between brackets. `Outline.heeded` says of every
token of an outline whether a line break before it is heeded. In a node that consists of brackets
and what is between them, that is the first token alone (`bracketKinds`). In one where brackets
follow something else, the first of them is heeded, and so is what is heeded in front of them
(`suffixKinds`). A token that is not heeded stays so in whatever the outline becomes part of
(`heeded_of_child`).
-/

namespace LosslessSyntax.Outline

/-- Nodes of an opening bracket, what it encloses, and the closing bracket. -/
def bracketKinds : List NodeKind :=
  [.annotationArgs, .paramList, .arrayExpr, .tupleExpr, .parenExpr, .argList, .typeList]

/-- Nodes of something with brackets after it. -/
def suffixKinds : List NodeKind := [.indexExpr, .arrayType]

/-- Of so many tokens the first is heeded. -/
def headed : Nat → List Bool
  | 0 => []
  | count + 1 => true :: List.replicate count false

mutual
/-- For each token, whether a line break before it is heeded. -/
def heeded : Outline → List Bool
  | .token => [true]
  | .node kind children =>
    if kind ∈ suffixKinds then heededFirst children
    else if kind ∈ bracketKinds then headed (countAll children)
    else heededAll children
/-- For each token of several outlines, whether a line break before it is heeded. -/
def heededAll : List Outline → List Bool
  | [] => []
  | first :: rest => first.heeded ++ heededAll rest
/-- The same if brackets follow the first outline. -/
def heededFirst : List Outline → List Bool
  | [] => []
  | first :: rest => first.heeded ++ headed (countAll rest)
end

variable {kind : NodeKind} {outline : Outline} {outlines rest front back : List Outline}

@[simp] theorem length_headed (count : Nat) : (headed count).length = count := by
  cases count <;> simp [headed]

theorem getElem?_headed {count n : Nat} (behind : 0 < n) (within : n < count) :
    (headed count)[n]? = some false := by
  obtain ⟨n, rfl⟩ := Nat.exists_eq_succ_of_ne_zero (Nat.ne_of_gt behind)
  obtain ⟨count, rfl⟩ := Nat.exists_eq_succ_of_ne_zero (Nat.ne_of_gt (Nat.lt_trans behind within))
  rw [headed, List.getElem?_cons_succ,
    List.getElem?_replicate_of_lt (Nat.lt_of_succ_lt_succ within)]

@[simp] theorem heeded_token : heeded .token = [true] := by rw [heeded]

theorem heeded_suffix (suffix : kind ∈ suffixKinds) (first : Outline) (rest : List Outline) :
    heeded (.node kind (first :: rest)) = first.heeded ++ headed (countAll rest) := by
  rw [heeded, if_pos suffix, heededFirst]

theorem heeded_bracket (bracket : kind ∈ bracketKinds) (children : List Outline) :
    heeded (.node kind children) = headed (countAll children) := by
  have other : ∀ kind ∈ bracketKinds, kind ∉ suffixKinds := by decide
  rw [heeded, if_neg (other kind bracket), if_pos bracket]

theorem heeded_plain (suffix : kind ∉ suffixKinds) (bracket : kind ∉ bracketKinds)
    (children : List Outline) : heeded (.node kind children) = heededAll children := by
  rw [heeded, if_neg suffix, if_neg bracket]

@[simp] theorem heededAll_nil : heededAll [] = [] := by rw [heededAll]

@[simp] theorem heededAll_cons (first : Outline) (rest : List Outline) :
    heededAll (first :: rest) = first.heeded ++ heededAll rest := by rw [heededAll]

@[simp] theorem heededAll_append (front back : List Outline) :
    heededAll (front ++ back) = heededAll front ++ heededAll back := by
  induction front with
  | nil => rw [List.nil_append, heededAll_nil, List.nil_append]
  | cons first others ih =>
    rw [List.cons_append, heededAll_cons, heededAll_cons, ih, List.append_assoc]

mutual
theorem length_heeded (outline : Outline) : outline.heeded.length = outline.count := by
  match outline with
  | .token => rw [heeded]; rfl
  | .node kind children =>
    rw [heeded, count_node]
    split
    · cases children with
      | nil => rw [heededFirst]; rfl
      | cons first rest =>
        rw [heededFirst, List.length_append, length_heeded first, length_headed, countAll_cons]
    split
    · exact length_headed _
    · exact length_heededAll children
theorem length_heededAll (outlines : List Outline) :
    (heededAll outlines).length = countAll outlines := by
  match outlines with
  | [] => rw [heededAll]; rfl
  | first :: rest =>
    rw [heededAll, List.length_append, length_heeded first, length_heededAll rest, countAll_cons]
end

theorem headD_append {front back : List Bool} (first : front.headD true = true)
    (second : back.headD true = true) : (front ++ back).headD true = true := by
  cases front with
  | nil => exact second
  | cons => exact first

theorem headD_headed (count : Nat) : (headed count).headD true = true := by
  cases count <;> rfl

mutual
/-- A line break before an outline is heeded. -/
theorem headD_heeded (outline : Outline) : outline.heeded.headD true = true := by
  match outline with
  | .token => rw [heeded]; rfl
  | .node kind children =>
    rw [heeded]
    split
    · cases children with
      | nil => rw [heededFirst]; rfl
      | cons first rest =>
        rw [heededFirst]
        exact headD_append (headD_heeded first) (headD_headed _)
    split
    · exact headD_headed _
    · exact headD_heededAll children
theorem headD_heededAll (outlines : List Outline) : (heededAll outlines).headD true = true := by
  match outlines with
  | [] => rw [heededAll]; rfl
  | first :: rest =>
    rw [heededAll]
    exact headD_append (headD_heeded first) (headD_heededAll rest)
end

theorem pos_of_unheeded {heeded : List Bool} {n : Nat} (first : heeded.headD true = true)
    (unheeded : heeded[n]? = some false) : 0 < n := by
  refine Nat.pos_of_ne_zero fun zero => ?_
  subst zero
  cases heeded with
  | nil => exact nomatch unheeded
  | cons here others =>
    obtain rfl : here = false := Option.some.inj unheeded
    exact Bool.false_ne_true first

theorem heededAll_wrapLast (suffix : kind ∉ suffixKinds) (bracket : kind ∉ bracketKinds)
    (rest outlines : List Outline) :
    heededAll (wrapLast kind rest outlines) = heededAll outlines ++ heededAll rest := by
  fun_induction wrapLast kind rest outlines with
  | case1 => simp [heeded_plain suffix bracket]
  | case2 => simp [heeded_plain suffix bracket]
  | case3 first others _ ih => rw [heededAll_cons, heededAll_cons, ih, List.append_assoc]

/-- What is heeded stays so if brackets follow. -/
theorem exists_heededAll_wrapLast (suffix : kind ∈ suffixKinds) (rest outlines : List Outline) :
    ∃ added, heededAll (wrapLast kind rest outlines) = heededAll outlines ++ added ∧
      added.length = countAll rest ∧ added.headD true = true := by
  fun_induction wrapLast kind rest outlines with
  | case1 =>
    refine ⟨heeded (.node kind rest), by simp, length_heeded _, headD_heeded _⟩
  | case2 inner children =>
    refine ⟨headed (countAll rest), ?_, length_headed _, headD_headed _⟩
    simp [heeded_suffix suffix]
  | case3 first others _ ih =>
    obtain ⟨added, same, length, head⟩ := ih
    exact ⟨added, by rw [heededAll_cons, heededAll_cons, same, List.append_assoc], length, head⟩

theorem unheeded_of_mem {n : Nat} (unheeded : outline.heeded[n]? = some false) :
    (heededAll (front ++ outline :: back))[countAll front + n]? = some false := by
  rw [heededAll_append, heededAll_cons, ← length_heededAll, List.getElem?_append_right
    (Nat.le_add_right _ _), Nat.add_sub_cancel_left]
  exact List.getElem?_append_left (List.getElem?_eq_some_iff.mp unheeded).1 ▸ unheeded

/-- Behind the first token of brackets nothing is heeded, nor is it behind what a suffix follows. -/
theorem heeded_behind {n : Nat} (enclosed : kind ∈ bracketKinds ∨ kind ∈ suffixKinds ∧ front ≠ [])
    (behind : countAll front < n) (within : n < countAll (front ++ back)) :
    (heeded (.node kind (front ++ back)))[n]? = some false := by
  rcases enclosed with bracket | ⟨suffix, some⟩
  · rw [heeded_bracket bracket]
    exact getElem?_headed (Nat.zero_lt_of_lt behind) within
  · obtain ⟨first, others, rfl⟩ := List.exists_cons_of_ne_nil some
    rw [countAll_cons] at behind
    rw [List.cons_append, countAll_cons] at within
    rw [List.cons_append, heeded_suffix suffix, List.getElem?_append_right, length_heeded]
    · exact getElem?_headed (by omega) (by omega)
    · rw [length_heeded]
      omega

/-- A token that is not heeded in a child is not heeded in the node. -/
theorem heeded_of_child {n : Nat} (unheeded : outline.heeded[n]? = some false) :
    (heeded (.node kind (front ++ outline :: back)))[countAll front + n]? = some false := by
  obtain ⟨inside, -⟩ := List.getElem?_eq_some_iff.mp unheeded
  have behind := pos_of_unheeded (headD_heeded outline) unheeded
  have within : countAll front + n < countAll (front ++ outline :: back) := by
    rw [length_heeded] at inside
    rw [countAll_append, countAll_cons]
    omega
  by_cases bracket : kind ∈ bracketKinds
  · exact heeded_behind (.inl bracket) (Nat.lt_add_of_pos_right behind) within
  by_cases suffix : kind ∈ suffixKinds
  · cases front with
    | nil =>
      rw [List.nil_append, heeded_suffix suffix, countAll_nil, Nat.zero_add]
      exact List.getElem?_append_left inside ▸ unheeded
    | cons first others =>
      exact heeded_behind (.inr ⟨suffix, List.cons_ne_nil _ _⟩)
        (Nat.lt_add_of_pos_right behind) within
  · rw [heeded_plain suffix bracket]
    exact unheeded_of_mem unheeded

end LosslessSyntax.Outline

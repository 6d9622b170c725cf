import LosslessSyntax.Proofs.Scanner.Partition

/-! # Restarting a scanner

A scanner knows more than its place and the construct that it is inside of: it counts lines and
columns, and it holds what it has noted so far. Line and column are those of the text before the
place (`Scanner.Arrived`), and what is noted later never moves before what is noted already
(`Scanner.Tails`). So a scanner that is started where another one stands, inside the same construct,
goes on for it (`Scanner.restarts`).
-/

namespace LosslessSyntax

open Text

namespace Diagnostics

/-- What starts after some diagnostics is put behind them. -/
theorem insertSorted_append {earlier later : List Diagnostic} {added : Diagnostic}
    (before : ∀ d ∈ earlier, d.span.start < added.span.start) :
    insertSorted added (earlier ++ later) = earlier ++ insertSorted added later := by
  induction earlier with
  | nil => rfl
  | cons first earlier ih =>
    have greater : added.compare first = .gt := by
      have := before first List.mem_cons_self
      rw [Diagnostic.compare, Span.compare, Nat.compare_eq_gt.mpr this]
      rfl
    rw [List.cons_append, insertSorted, if_neg (by rw [greater]; decide),
      ih fun d member => before d (List.mem_cons_of_mem first member), List.cons_append]

/-- What starts after some diagnostics is pushed as if they were not there. -/
theorem push_append {earlier later : List Diagnostic} {added : Diagnostic}
    (before : ∀ d ∈ earlier, d.span.start < added.span.start) :
    (push ⟨earlier ++ later⟩ added).items = earlier ++ (push ⟨later⟩ added).items := by
  have fresh : earlier.any added.sameProblem = false := by
    refine List.any_eq_false.mpr fun d member same => ?_
    have here := before d member
    rw [(Diagnostic.sameProblem_iff.mp same).1] at here
    exact Nat.lt_irrefl _ here
  have known : reports ⟨earlier ++ later⟩ added = reports ⟨later⟩ added := by
    rw [reports, reports, List.any_append, fresh, Bool.false_or]
  rw [push, push, known]
  split
  · rfl
  · exact insertSorted_append before

end Diagnostics

namespace Scanner

variable {s t : Scanner}

theorem finished_of_next? (none : s.next? = none) : s.finished = true := by
  by_contra unfinished
  rw [next?, if_neg unfinished] at none
  split at none <;> exact absurd none (Option.some_ne_none _)

/-- A scanner that yields a token takes some characters off the text, or ends. -/
theorem next?_cases {token : Token} {next : Scanner} (found : s.next? = some (token, next)) :
    (∃ lexeme, next = s.skip lexeme ∧ s.rest = lexeme.chars ++ next.rest ∧ lexeme.chars ≠ []) ∨
      next = { s with finished := true } := by
  rw [next?] at found
  split at found
  case isTrue => exact absurd found.symm (Option.some_ne_none _)
  case isFalse =>
    cases rest : s.rest with
    | nil =>
      rw [rest] at found
      exact .inr (Prod.mk.inj (Option.some.inj found)).2.symm
    | cons c more =>
      obtain ⟨lexeme, read, split, some, -⟩ :=
        Lexeme.read_splits s.operatorLimit s.mode c more
      rw [rest, read] at found
      obtain ⟨-, rfl⟩ := Prod.mk.inj (Option.some.inj found)
      exact .inl ⟨lexeme, rfl, split.symm, some⟩

theorem take_of_finished (finished : s.finished = true) (count : Nat) : s.take count = ([], s) := by
  cases count with
  | zero => rfl
  | succ count => rw [take, next?, if_pos finished]

/-- Tokens can be taken in two goes. -/
theorem take_add (s : Scanner) (count more : Nat) :
    s.take (count + more) = ((s.take count).1 ++ ((s.take count).2.take more).1,
      ((s.take count).2.take more).2) := by
  induction count generalizing s with
  | zero =>
    rw [Nat.zero_add]
    rfl
  | succ count ih =>
    rw [Nat.add_right_comm, take, take]
    cases found : s.next? with
    | none =>
      simp only [take_of_finished (finished_of_next? found)]
      rfl
    | some yielded => simp only [ih, List.cons_append]

/-- Taking more tokens than there are characters reaches the end. -/
theorem finished_take {count : Nat} (enough : s.rest.length < count) :
    (s.take count).2.finished = true := by
  induction count generalizing s with
  | zero => exact absurd enough (Nat.not_lt_zero _)
  | succ count ih =>
    rw [take]
    cases found : s.next? with
    | none => exact finished_of_next? found
    | some yielded =>
      rcases next?_cases found with ⟨lexeme, -, split, some⟩ | ended
      · have := List.length_pos_iff.mpr some
        rw [split, List.length_append] at enough
        exact ih (by omega)
      · simp only [take_of_finished (congrArg finished ended)]
        exact congrArg finished ended

/-- Taking more tokens than there are characters takes them all. -/
theorem take_eq_drain {count : Nat} (enough : s.rest.length < count) : s.take count = s.drain := by
  obtain ⟨more, rfl⟩ := Nat.exists_eq_add_of_le (Nat.succ_le_of_lt enough)
  rw [take_add, drain, take_of_finished (finished_take (Nat.lt_succ_self _)), List.append_nil]

theorem length_rest_take_le (s : Scanner) (count : Nat) :
    (s.take count).2.rest.length ≤ s.rest.length := by
  induction count generalizing s with
  | zero => exact Nat.le_refl _
  | succ count ih =>
    rw [take]
    cases found : s.next? with
    | none => exact Nat.le_refl _
    | some yielded =>
      refine (ih yielded.2).trans ?_
      rcases next?_cases found with ⟨lexeme, -, split, -⟩ | ended
      · rw [split, List.length_append]
        exact Nat.le_add_left ..
      · rw [ended]

/-- All tokens are those that were taken and those that are left. -/
theorem drain_take (s : Scanner) (count : Nat) :
    s.drain = ((s.take count).1 ++ (s.take count).2.drain.1, (s.take count).2.drain.2) := by
  have fewer := length_rest_take_le s count
  have all : s.take (count + (s.rest.length + 1)) = s.drain := take_eq_drain (by omega)
  rw [take_add, take_eq_drain (Nat.lt_succ_of_le fewer)] at all
  exact all.symm

theorem length_take_le (s : Scanner) (count : Nat) : (s.take count).1.length ≤ count := by
  induction count generalizing s with
  | zero => exact Nat.le_refl 0
  | succ count ih =>
    rw [take]
    split
    · exact Nat.zero_le _
    · exact Nat.succ_le_succ (ih _)

/-- A scanner that has not yielded all of its tokens has not ended. -/
theorem unfinished_take {count : Nat} (inside : count < s.drain.1.length) :
    (s.take count).2.finished = false := by
  by_contra finished
  have finished := Bool.eq_true_of_not_eq_false finished
  have all := congrArg (·.1.length) (drain_take s count)
  simp only [drain, take_of_finished finished, List.append_nil] at all
  have := length_take_le s count
  rw [drain] at inside
  omega

/-- A scanner that has not ended has yielded every token that was asked for. -/
theorem length_take {count : Nat} (unfinished : (s.take count).2.finished = false) :
    (s.take count).1.length = count := by
  induction count generalizing s with
  | zero => rfl
  | succ count ih =>
    rw [take] at unfinished ⊢
    cases found : s.next? with
    | none =>
      rw [found] at unfinished
      exact absurd ((finished_of_next? found).symm.trans unfinished) (by decide)
    | some yielded =>
      rw [found] at unfinished
      exact congrArg Nat.succ (ih unfinished)

/-- A scanner stands in a text: it counts the lines and columns of what is before it, and has noted
only what starts before it. -/
structure Arrived (text : String) (s : Scanner) : Prop where
  unfinished : s.finished = false
  place : ∃ before, text.toList = before ++ s.rest ∧ s.position = Position.start.after before
  earlier : ∀ d ∈ s.diagnostics.items, d.span.start < s.position.offset

theorem arrived_resume (text : String) (offset : Nat) (mode : Mode) (limit : Nat) :
    Arrived text (resume text offset mode limit) :=
  ⟨rfl, ⟨_, (splitWithin_append offset text.toList).symm, rfl⟩, nofun⟩

/-- The start of a report on a lexeme is the place where the lexeme is. -/
theorem start_of_mem_skip {lexeme : Lexeme} {d : Diagnostic}
    (member : d ∈ (s.skip lexeme).diagnostics.items) :
    d ∈ s.diagnostics.items ∨ d.span.start = s.position.offset := by
  rw [skip] at member
  cases fault : lexeme.fault? with
  | none =>
    rw [fault] at member
    exact .inl member
  | some fault' =>
    rw [fault] at member
    rcases Diagnostics.mem_push.mp member with member | ⟨rfl, -⟩
    · exact .inl member
    · exact .inr (by cases fault' <;> rfl)

theorem Arrived.next {text : String} {token : Token} {next : Scanner} (arrived : Arrived text s)
    (found : s.next? = some (token, next)) (unfinished : next.finished = false) :
    Arrived text next := by
  rcases next?_cases found with ⟨lexeme, rfl, split, some⟩ | rfl
  · obtain ⟨before, whole, position⟩ := arrived.place
    have onward : (s.skip lexeme).position.offset =
        s.position.offset + byteLength lexeme.chars := Position.offset_after ..
    refine ⟨unfinished, ⟨before ++ lexeme.chars, ?_, ?_⟩, fun d member => ?_⟩
    · rw [whole, split, List.append_assoc]
    · rw [Position.after_append, ← position]
      rfl
    · have := byteLength_pos some
      rcases start_of_mem_skip member with member | here
      · have := arrived.earlier d member
        omega
      · omega
  · exact nomatch unfinished

theorem Arrived.take {text : String} (arrived : Arrived text s) {count : Nat}
    (unfinished : (s.take count).2.finished = false) : Arrived text (s.take count).2 := by
  induction count generalizing s with
  | zero => exact arrived
  | succ count ih =>
    rw [Scanner.take] at unfinished ⊢
    cases found : s.next? with
    | none => exact arrived
    | some yielded =>
      obtain ⟨token, next⟩ := yielded
      rw [found] at unfinished
      refine ih (arrived.next found ?_) unfinished
      by_contra finished
      have finished := Bool.eq_true_of_not_eq_false finished
      simp only [take_of_finished finished] at unfinished
      exact absurd (finished.symm.trans unfinished) (by decide)

/-- A scanner stands where another one does, and has noted the last part of what the other has
noted, the first part being about the text before both. -/
structure Tails (noted : List Diagnostic) (s t : Scanner) : Prop where
  same : s = { t with diagnostics := ⟨noted ++ t.diagnostics.items⟩ }
  earlier : ∀ d ∈ noted, d.span.start < t.position.offset

/-- Scanners at one place yield the same token and stand at one place after it. -/
theorem Tails.next {noted : List Diagnostic} (tails : Tails noted s t) :
    (s.next? = none ∧ t.next? = none) ∨ ∃ token next next', s.next? = some (token, next) ∧
      t.next? = some (token, next') ∧ Tails noted next next' := by
  obtain ⟨rfl, earlier⟩ := tails
  rw [next?, next?]
  split
  · exact .inl ⟨rfl, rfl⟩
  · refine .inr ?_
    cases Lexeme.read t.operatorLimit t.mode t.rest with
    | none => exact ⟨_, _, _, rfl, rfl, rfl, earlier⟩
    | some lexeme =>
      refine ⟨_, _, _, rfl, rfl, ?_, fun d member => ?_⟩
      · rw [skip, skip]
        cases lexeme.fault? with
        | none => rfl
        | some fault =>
          have start : (fault.diagnostic (t.token lexeme).span).span.start = t.position.offset := by
            cases fault <;> rfl
          have pushed : (Diagnostics.push ⟨noted ++ t.diagnostics.items⟩ _).items =
              noted ++ (t.diagnostics.push (fault.diagnostic (t.token lexeme).span)).items :=
            Diagnostics.push_append (by rwa [start])
          exact congrArg (fun items => { t.skip lexeme with diagnostics := ⟨items⟩ }) pushed
      · change _ < (t.position.after lexeme.chars).offset
        rw [Position.offset_after]
        exact Nat.lt_add_right _ (earlier d member)

/-- Scanners at one place yield the same tokens and stand at one place after them. -/
theorem Tails.take {noted : List Diagnostic} (tails : Tails noted s t) (count : Nat) :
    (s.take count).1 = (t.take count).1 ∧ Tails noted (s.take count).2 (t.take count).2 := by
  induction count generalizing s t with
  | zero => exact ⟨rfl, tails⟩
  | succ count ih =>
    rw [Scanner.take, Scanner.take]
    rcases tails.next with ⟨none, none'⟩ | ⟨token, next, next', found, found', tails'⟩
    · rw [none, none']
      exact ⟨rfl, tails⟩
    · rw [found, found']
      exact ⟨congrArg (List.cons token) (ih tails').1, (ih tails').2⟩

theorem Tails.drain {noted : List Diagnostic} (tails : Tails noted s t) :
    s.drain.1 = t.drain.1 ∧ Tails noted s.drain.2 t.drain.2 := by
  have rest : s.rest = t.rest := congrArg (·.rest) tails.same
  rw [Scanner.drain, Scanner.drain, rest]
  exact tails.take _

/-- A scanner that is started where another one stands stands at the same place and has noted
nothing. -/
theorem Arrived.tails_resume {text : String} (arrived : Arrived text s) :
    Tails s.diagnostics.items s (resume text s.position.offset s.mode s.operatorLimit) := by
  obtain ⟨before, whole, position⟩ := arrived.place
  have place : s.position.offset = byteLength before := by
    rw [position, Position.offset_after_start]
  have restarted : resume text s.position.offset s.mode s.operatorLimit =
      { s with diagnostics := .empty } := by
    rw [place, resume_of_append whole, ← position, ← arrived.unfinished]
  rw [restarted]
  refine ⟨?_, arrived.earlier⟩
  rw [Diagnostics.empty, List.append_nil]

theorem operatorLimit_take (s : Scanner) (count : Nat) :
    (s.take count).2.operatorLimit = s.operatorLimit := by
  induction count generalizing s with
  | zero => rfl
  | succ count ih =>
    rw [take]
    cases found : s.next? with
    | none => rfl
    | some yielded =>
      refine (ih yielded.2).trans ?_
      rcases next?_cases found with ⟨lexeme, next, -⟩ | next
      · exact congrArg (·.operatorLimit) next
      · exact congrArg (·.operatorLimit) next

/-- A scanner goes on for another one: however many tokens are taken, the two yield the same, stand
at the same place inside the same construct, and the one notes what the other notes from then on. -/
structure GoesOn (restarted original : Scanner) : Prop where
  tokens : ∀ count, (restarted.take count).1 = (original.take count).1
  position : ∀ count, (restarted.take count).2.position = (original.take count).2.position
  mode : ∀ count, (restarted.take count).2.mode = (original.take count).2.mode
  diagnostics : ∀ count, (original.take count).2.diagnostics.items =
    original.diagnostics.items ++ (restarted.take count).2.diagnostics.items

theorem Tails.goesOn (tails : Tails s.diagnostics.items s t) : GoesOn t s where
  tokens count := (tails.take count).1.symm
  position count := (congrArg (·.position) (tails.take count).2.same).symm
  mode count := (congrArg (·.mode) (tails.take count).2.same).symm
  diagnostics count := congrArg (·.diagnostics.items) (tails.take count).2.same

/-- A scanner can be restarted between any two tokens. Whatever text a scanner is started in, at
whatever offset and inside whatever construct, and however many tokens before the end it has
yielded: a scanner that is started where it stands, inside the construct that it is inside of, goes
on for it. In all, the tokens taken before and those of the restarted scanner are the tokens of the
original one, both end inside the same construct, and so it is with what they note. -/
theorem restarts (text : String) (offset : Nat) (mode : Mode) (limit count : Nat)
    (inside : count < (resume text offset mode limit).drain.1.length) :
    ∃ middle restarted,
      (resume text offset mode limit).take count = middle ∧
      resume text middle.2.position.offset middle.2.mode limit = restarted ∧
      middle.1.length = count ∧ GoesOn restarted middle.2 ∧
      (resume text offset mode limit).drain.1 = middle.1 ++ restarted.drain.1 ∧
      (resume text offset mode limit).drain.2.mode = restarted.drain.2.mode ∧
      (resume text offset mode limit).drain.2.diagnostics.items =
        middle.2.diagnostics.items ++ restarted.drain.2.diagnostics.items := by
  have unfinished := unfinished_take inside
  have arrived := (arrived_resume text offset mode limit).take unfinished
  have tails := arrived.tails_resume
  rw [operatorLimit_take] at tails
  change Tails _ _ (resume text _ _ limit) at tails
  obtain ⟨tokens, tails'⟩ := tails.drain
  have whole := drain_take (resume text offset mode limit) count
  refine ⟨_, _, rfl, rfl, length_take unfinished, tails.goesOn, ?_, ?_, ?_⟩
  · rw [whole, tokens]
  · rw [whole]
    exact congrArg (·.mode) tails'.same
  · rw [whole]
    exact congrArg (·.diagnostics.items) tails'.same

/-- A string that is broken off after a line feed, restarted where it begins. -/
theorem restarts_before_string :
    2 < (resume "é \"a\n" 0 .normal 3).drain.1.length ∧
      (resume "é \"a\n" 0 .normal 3).drain.1 =
        ((resume "é \"a\n" 0 .normal 3).take 2).1 ++ (resume "é \"a\n" 3 .normal 3).drain.1 ∧
      (resume "é \"a\n" 0 .normal 3).drain.2.mode = (resume "é \"a\n" 3 .normal 3).drain.2.mode := by
  have inside : 2 < (resume "é \"a\n" 0 .normal 3).drain.1.length := by decide
  obtain ⟨_, _, rfl, rfl, -, -, tokens, mode, -⟩ := restarts "é \"a\n" 0 .normal 3 2 inside
  have place : ((resume "é \"a\n" 0 .normal 3).take 2).2.position.offset = 3 ∧
      ((resume "é \"a\n" 0 .normal 3).take 2).2.mode = .normal := by decide
  rw [place.1, place.2] at tokens mode
  exact ⟨inside, tokens, mode⟩

end Scanner

end LosslessSyntax

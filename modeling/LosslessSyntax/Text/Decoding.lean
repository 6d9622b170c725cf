import LosslessSyntax.Diagnostic.Addition
import LosslessSyntax.Text.Utf8

/-! # Decoding part by part

Bytes of unknown origin are read as a text as far as they are one. What stands in the way is replaced,
and reading goes on behind it: `decodeSource` yields what `decodeBytes` yields, but it takes over
every text that it reads as a whole, and it adds each diagnostic when it replaces a sequence.
-/

namespace LosslessSyntax.Text

/-- Where and why bytes are not a text. -/
structure Utf8Fault where
  /-- How many bytes stand before the first sequence that is not well formed. -/
  validUpTo : Nat
  /-- How long that sequence is; `none` if the bytes end before it does. -/
  length : Option Nat
deriving DecidableEq, Repr

/-- The text that bytes encode, or why they encode none. -/
def readUtf8 : List UInt8 → Except Utf8Fault (List Char)
  | [] => .ok []
  | lead :: rest =>
    match trailRanges? lead with
    | none => .error ⟨0, some 1⟩
    | some ranges =>
      let count := trailCount ranges rest
      if count < ranges.length then
        .error ⟨0, if count < rest.length then some (count + 1) else none⟩
      else
        match readUtf8 (rest.drop count) with
        | .ok text => .ok (decodeChar lead (rest.take count) :: text)
        | .error fault => .error { fault with validUpTo := count + 1 + fault.validUpTo }
termination_by bytes => bytes.length
decreasing_by
  simp only [List.length_drop, List.length_cons]
  omega

/-- The report on a sequence whose replacement stands at an offset. -/
def replacedAt (offset : Nat) : Diagnostic :=
  .error .invalidUtf8 "invalid UTF-8 sequence" ⟨offset, offset + replacement.utf8Size⟩

/-- The bytes behind the sequence that is not well formed. -/
def Utf8Fault.behind (fault : Utf8Fault) (bytes : List UInt8) : List UInt8 :=
  let invalid := bytes.drop fault.validUpTo
  invalid.drop (fault.length.getD invalid.length)

/-- A fault is found before the bytes end, and a sequence that is not well formed has a byte. -/
theorem inside_of_error {bytes : List UInt8} {fault : Utf8Fault}
    (stuck : readUtf8 bytes = .error fault) :
    fault.validUpTo < bytes.length ∧ 0 < fault.length.getD 1 := by
  fun_induction readUtf8 bytes generalizing fault
  case case1 | case4 => cases stuck
  case case2 =>
    cases stuck
    exact ⟨Nat.succ_pos _, Nat.one_pos⟩
  case case3 =>
    cases stuck
    refine ⟨Nat.succ_pos _, ?_⟩
    simp only
    split
    · exact Nat.succ_pos _
    · exact Nat.one_pos
  case case5 rest _ _ count _ later stuck' ih =>
    cases stuck
    obtain ⟨before, length⟩ := ih stuck'
    rw [List.length_drop] at before
    refine ⟨?_, length⟩
    simp only [List.length_cons]
    omega

theorem length_behind_of_error {bytes : List UInt8} {fault : Utf8Fault}
    (stuck : readUtf8 bytes = .error fault) : (fault.behind bytes).length < bytes.length := by
  obtain ⟨before, length⟩ := inside_of_error stuck
  rw [Utf8Fault.behind, List.length_drop, List.length_drop]
  cases known : fault.length with
  | none =>
    rw [Option.getD_none]
    omega
  | some length' =>
    rw [known, Option.getD_some] at length
    rw [Option.getD_some]
    omega

/-- Appends to a text what bytes encode, with a replacement for every sequence that is not well
formed, and adds a diagnostic for each replacement. -/
def decodeOnto (text : List Char) (reports : Diagnostics) (bytes : List UInt8) :
    String × Diagnostics :=
  match _ : readUtf8 bytes with
  | .ok valid => (String.ofList (text ++ valid), reports)
  | .error fault =>
    let valid := (readUtf8 (bytes.take fault.validUpTo)).toOption.getD []
    let before := text ++ valid
    decodeOnto (before ++ [replacement]) (reports.add (replacedAt (byteLength before))).2
      (fault.behind bytes)
termination_by bytes.length
decreasing_by exact length_behind_of_error ‹_›

/-- The text of bytes of unknown origin, with a diagnostic for each replacement. -/
def decodeSource (bytes : List UInt8) : String × Diagnostics := decodeOnto [] .empty bytes

end LosslessSyntax.Text

import LosslessSyntax.Operator.Table
import LosslessSyntax.Proofs.Scanner.Prescribed

/-! # Operators of a table are operators of a text

A table may hold an operator if and only if the scanner, given nothing but this operator, reads it as
one symbol: the checks of a table and the rules of the scanner name the same characters and the same
reserved symbols (`OperatorTable.scanned_iff_valid`). Only the length of an operator is bounded by the
scanner alone.
-/

namespace LosslessSyntax

open Lexeme Text

theorem TokenKind.ofReservedSymbol?_ne_symbol (text : String) :
    ofReservedSymbol? text ≠ some .symbol := by
  rw [ofReservedSymbol?]
  split <;> [skip; split <;> [skip; split]] <;> decide

/-- The kinds that a table gives are all that its entries have. -/
theorem Lexeme.notMem_of_kind {α : Type} {table : List (α × TokenKind)} {kind : TokenKind}
    (other : kind ∉ table.map (·.2)) (key : α) : (key, kind) ∉ table :=
  fun member => other (List.mem_map_of_mem member)

/-- Only operator characters are read as a symbol, and only without a reserved meaning. -/
theorem Lexeme.prescribed_symbol_iff {limit : Nat} {chars : List Char} :
    Prescribed limit .symbol chars [] ↔
      Operator limit chars ∧ TokenKind.ofReservedSymbol? (String.ofList chars) = none := by
  constructor
  · generalize kind_eq : TokenKind.symbol = kind
    intro prescribed
    cases prescribed with
    | operator longest means =>
      refine ⟨longest.1, ?_⟩
      have plain := listed_symbol.mp means
      cases reserved : TokenKind.ofReservedSymbol? (String.ofList chars) with
      | none => rfl
      | some other =>
        rw [reserved, Option.getD_some, ← kind_eq] at plain
        exact absurd (plain ▸ reserved) (TokenKind.ofReservedSymbol?_ne_symbol _)
    | word longest means =>
      rcases means with member | ⟨-, rfl⟩
      · exact absurd (kind_eq ▸ member) (notMem_of_kind (by decide) _)
      · cases kind_eq
    | punctuation _ member => exact absurd (kind_eq ▸ member) (notMem_of_kind (by decide) _)
    | string | openString =>
      rw [stringKind] at kind_eq
      split at kind_eq <;> cases kind_eq
    | _ => cases kind_eq
  · rintro ⟨operator, plain⟩
    refine .operator ⟨operator, fun more left none _ => ?_⟩ (listed_symbol.mpr ?_)
    · exact (List.append_eq_nil_iff.mp none.symm).1
    · rw [plain]
      rfl

/-- A text is one token if and only if the lexical grammar prescribes it with nothing behind it. -/
theorem scan_eq_single_iff {text : String} {limit : Nat} {kind : TokenKind} (some : kind ≠ .eof) :
    ((scan text limit).1.map fun token => (token.kind, token.span)) =
        [(kind, ⟨0, text.utf8ByteSize⟩), (.eof, .empty text.utf8ByteSize)] ↔
      Prescribed limit kind text.toList [] := by
  have tokens : (scan text limit).1 = tokensAt .start (lexemes limit text.toList) ++
      [⟨.eof, "", Position.start.after (charsOf (lexemes limit text.toList))⟩] :=
    (Scanner.between_ofText text limit).drain.1
  rw [tokens, charsOf_lexemes]
  cases chars : text.toList with
  | nil =>
    rw [lexemes_nil]
    refine iff_of_false (fun single => ?_) fun prescribed => some (prescribed.eq_eof rfl)
    exact nomatch (List.cons.inj single).2
  | cons c rest =>
    have size : text.utf8ByteSize = byteLength (c :: rest) := by rw [← byteLength_toList, chars]
    rw [size]
    constructor
    · intro single
      have prescribed := prescribed_readNormal limit c rest
      have whole := charsOf_lexemes limit (c :: rest)
      rw [lexemes_cons] at single whole
      -- A second lexeme would be a third token.
      cases others : lexemes limit (readNormal limit c rest).rest with
      | cons second more => simp [others, tokensAt] at single
      | nil =>
      rw [others] at single whole
      have left : (readNormal limit c rest).rest = [] := by
        rw [← charsOf_lexemes limit (readNormal limit c rest).rest, others, charsOf_nil]
      have kind_eq : (readNormal limit c rest).kind = kind :=
        congrArg Prod.fst (List.cons.inj single).1
      have chars_eq : (readNormal limit c rest).chars = c :: rest := by
        simpa [bare] using whole
      rw [← kind_eq, ← chars_eq, ← left]
      exact prescribed
    · intro prescribed
      obtain ⟨mode, fault?, read⟩ := prescribed.readNormal_eq (List.append_nil _)
      rw [lexemes_cons, read, lexemes_nil]
      simp [tokensAt, tokenAt, bare, Token.span, Token.stop, Token.start, Position.start,
        Position.offset_after, Span.empty]

namespace OperatorTable

/-- Tables and the scanner agree on what an operator is. A table with one operator, binary, prefix or
both, is valid and the operator short enough if and only if the scanner reads the operator as one
symbol and then the end. -/
theorem scanned_iff_valid (table : OperatorTable) (operator : String) (limit : Nat)
    (single : ∀ other, other ∈ table.binary.operators ++ table.unary.operators ↔ other = operator) :
    ((scan operator limit).1.map fun token => (token.kind, token.span)) =
        [(.symbol, ⟨0, operator.utf8ByteSize⟩), (.eof, .empty operator.utf8ByteSize)] ↔
      table.fault? = none ∧ operator.length ≤ max 1 limit := by
  have valid : table.fault? = none ↔ operatorFault? operator = none := by
    rw [fault?_eq_none_iff]
    exact ⟨fun all => all operator ((single operator).mpr rfl),
      fun fine other listed => (single other).mp listed ▸ fine⟩
  have other : TokenKind.symbol ≠ .eof := nofun
  rw [scan_eq_single_iff other, prescribed_symbol_iff, String.ofList_toList, valid,
    operatorFault?_eq_none_iff, Operator, Run, String.length_toList]
  simp only [mem_characters_iff]
  constructor
  · rintro ⟨⟨⟨some, all⟩, short⟩, plain⟩
    exact ⟨⟨some, all, plain⟩, short⟩
  · rintro ⟨⟨some, all, plain⟩, short⟩
    exact ⟨⟨⟨some, all⟩, short⟩, plain⟩

/-- An operator that is binary and prefix, and that begins like a reserved one. -/
theorem scanned_iff_valid_both_roles :
    let table := (empty.insertBinary "->>" ⟨30, .left⟩).insertUnary "->>" 60
    (∀ other, other ∈ table.binary.operators ++ table.unary.operators ↔ other = "->>") ∧
      table.fault? = none ∧ "->>".length ≤ max 1 3 ∧
        ((scan "->>" 3).1.map fun token => (token.kind, token.span)) =
          [(.symbol, ⟨0, 3⟩), (.eof, .empty 3)] := by
  intro table
  have single (other : String) :
      other ∈ table.binary.operators ++ table.unary.operators ↔ other = "->>" := by
    have listed : table.binary.operators ++ table.unary.operators = ["->>", "->>"] := rfl
    rw [listed, List.mem_cons, List.mem_singleton, or_self]
  have valid : table.fault? = none := by decide
  exact ⟨single, valid, by decide, (scanned_iff_valid table "->>" 3 single).mpr ⟨valid, by decide⟩⟩

end OperatorTable

end LosslessSyntax

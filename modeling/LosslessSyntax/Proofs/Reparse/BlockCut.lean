import LosslessSyntax.Proofs.Parse.Lossless
import LosslessSyntax.Proofs.Reparse.Enclosing

/-! # Texts that differ in one block

A block is parsed again only if the new text between the places of its braces begins with an opening
brace and ends with a closing one. Then the lexemes of the two texts differ between these braces and
nowhere else (`BlockCut`): what is before the block is followed by the same brace, and what is after
it is scanned as it was.
-/

namespace LosslessSyntax

namespace Lexeme

open CharClass

/-- An opening brace. -/
def openBrace : Lexeme := ⟨.leftBrace, ['\x7b'], [], .normal, none⟩

/-- A closing brace. -/
def closeBrace : Lexeme := ⟨.rightBrace, ['\x7d'], [], .normal, none⟩

/-- Lexemes between braces. -/
def braced (inside : List Lexeme) : List Lexeme := openBrace :: (inside ++ [closeBrace])

variable {limit : Nat} {text : List Char} {first : Lexeme} {others : List Lexeme}

/-- A punctuation mark is known from its kind. -/
theorem eq_of_punctuation {kind : TokenKind} {c : Char} (split : lexemes limit text = first :: others)
    (same : first.kind = kind) (mark : kind ∈ punctuation.map Prod.snd)
    (single : ∀ entry ∈ punctuation, entry.2 = kind → entry.1 = c) :
    first = ⟨kind, [c], [], .normal, none⟩ := by
  obtain ⟨d, rest, rfl, rfl, -⟩ := lexemes_of_cons split
  obtain ⟨found, whole⟩ := readNormal_of_punctuation same mark
  obtain rfl : d = c := single _ (mem_of_lookup found) rfl
  rw [whole]
  rfl

theorem eq_openBrace (split : lexemes limit text = first :: others) (kind : first.kind = .leftBrace) :
    first = openBrace := eq_of_punctuation split kind (by decide) (by decide)

theorem eq_closeBrace (split : lexemes limit text = first :: others)
    (kind : first.kind = .rightBrace) : first = closeBrace :=
  eq_of_punctuation split kind (by decide) (by decide)

/-- What begins with an opening brace has it as its first lexeme. -/
theorem eq_openBrace_of_head (split : lexemes limit text = first :: others)
    (head : text.head? = some '\x7b') : first = openBrace := by
  obtain ⟨c, rest, rfl, rfl, -⟩ := lexemes_of_cons split
  obtain rfl : c = '\x7b' := Option.some.inj head
  rfl

end Lexeme

namespace Reparse

open Lexeme Text

/-- Two texts of which the lexemes differ between the braces of one block. -/
structure BlockCut (limit : Nat) (oldText newText : String) (front inside inside' back : List Lexeme) :
    Prop where
  old : lexemes limit oldText.toList = front ++ (braced inside ++ back)
  new : lexemes limit newText.toList = front ++ (braced inside' ++ back)

/-- Where a block is to end after an edit inside it. -/
def newStop (edit : TextEdit) (found : Enclosing) : Nat := ((found.stop : Int) + edit.delta).toNat

/-- The tokens of the new text where a block was, and the scanner after them. -/
def blockTokens (old : Parse) (edit : TextEdit) (newText : String) (found : Enclosing) :
    List Token × Scanner :=
  tokensBefore (newStop edit found)
    ((Scanner.resume newText found.start .normal old.config.operatorLimit).rest.length + 1)
    (.resume newText found.start .normal old.config.operatorLimit)

/-- The tokens of the new text where a block was, with what is wrong with them. -/
def blockSource (old : Parse) (edit : TextEdit) (newText : String) (found : Enclosing) :
    TokenSource :=
  .listed (blockTokens old edit newText found).1
    (.ofList ((blockTokens old edit newText found).2.diagnostics.items.filter fun d =>
      d.span.start < newStop edit found)) (newStop edit found)

/-- What is parsed when a block is parsed again. -/
def blockOutcome (old : Parse) (edit : TextEdit) (newText : String) (found : Enclosing) :
    Grammar.Outcome :=
  Grammar.runBlock old.config found.depth newText.utf8ByteSize (blockSource old edit newText found)

/-- The tree of what is parsed when a block is parsed again. -/
def blockTree (old : Parse) (edit : TextEdit) (newText : String) (found : Enclosing) : Tree :=
  .ofEvents (blockOutcome old edit newText found).tokens (blockOutcome old edit newText found).events

/-- What is checked before a block is changed. -/
structure BlockChange (old : Parse) (edit : TextEdit) (newText : String) (found : Enclosing) :
    Prop where
  search : enclosing? edit 0 0 old.tree = some found
  closed : Closed found
  first : ∃ token, (blockTokens old edit newText found).1.head? = some token ∧
    token.kind = .leftBrace
  last : ∃ token, (blockTokens old edit newText found).1.getLast? = some token ∧
    token.kind = .rightBrace ∧ token.stop = newStop edit found
  ended : (blockOutcome old edit newText found).reachedEnd = true
  closes : ¬ ∃ d ∈ (blockOutcome old edit newText found).diagnostics.items, d.code = .unexpectedEnd
  block : (blockTree old edit newText found).nodeKind? = some .block

theorem changeBlock?_eq_some {old : Parse} {edit : TextEdit} {newText : String} {result : Result}
    (changed : changeBlock? old edit newText = some result) :
    ∃ found outside, BlockChange old edit newText found ∧
      old.tree.replaceAt? found.path (blockTree old edit newText found) = some result.tree ∧
      outsideBlock? found.start found.stop edit.delta old.diagnostics.items = some outside ∧
      result.diagnostics = (Diagnostics.ofList outside).extend
        (blockOutcome old edit newText found).diagnostics.items := by
  simp only [changeBlock?, Option.bind_eq_bind, Option.bind_none, Option.bind_eq_some_iff,
    Option.ite_none_left_eq_some] at changed
  obtain ⟨found, search, closed, outside, kept, firstToken, first, lastToken, last, braces, sound, shape,
    tree, replaced, same⟩ := changed
  simp only [Bool.or_eq_true, decide_eq_true_eq, not_or, ne_eq, not_not, Bool.not_eq_true',
    Bool.not_eq_false, List.any_eq_true, beq_iff_eq] at closed braces sound shape
  refine ⟨found, outside, ⟨search, closed, ⟨firstToken, first, braces.1.1⟩,
    ⟨lastToken, last, braces.1.2, braces.2⟩, sound.1, sound.2, shape.1⟩, ?_, kept, ?_⟩
  · rw [← Option.some.inj same]
    exact replaced
  · rw [← Option.some.inj same]
    rfl

variable {old : Parse} {edit : TextEdit} {newText : String} {found : Enclosing}

/-- The tokens that are read where the block was are those of lexemes between braces. -/
structure BlockRead (old : Parse) (edit : TextEdit) (newText : String) (found : Enclosing)
    (front inside' back : List Lexeme) : Prop where
  tokens : (blockTokens old edit newText found).1 =
    tokensAt (Position.start.after (charsOf front)) (braced inside')
  stop : newStop edit found = byteLength (charsOf front) + byteLength (charsOf (braced inside'))
  faults : (blockTokens old edit newText found).2.diagnostics =
    .ofList (faultsAt (Position.start.after (charsOf front)) (braced inside') ++
      faultsAt ((Position.start.after (charsOf front)).after (charsOf (braced inside'))) (back.take 1))

/-- Lexemes of which the tokens begin with an opening brace and end with a closing one. -/
theorem exists_braced {limit : Nat} {text : List Char} {position : Position}
    {inner others : List Lexeme} (split : lexemes limit text = inner ++ others) {token last : Token}
    (first : (tokensAt position inner).head? = some token) (opens : token.kind = .leftBrace)
    (final : (tokensAt position inner).getLast? = some last) (closes : last.kind = .rightBrace) :
    ∃ inside, inner = braced inside ∧
      last.stop = position.offset + byteLength (charsOf inner) := by
  obtain ⟨opening, rest, rfl⟩ : ∃ opening rest, inner = opening :: rest :=
    List.exists_cons_of_ne_nil fun none => by
      rw [none] at first
      exact nomatch first
  obtain rfl := Option.some.inj first
  obtain rfl := eq_openBrace split opens
  obtain ⟨inside, closing, rfl⟩ : ∃ inside closing, rest = inside ++ [closing] := by
    rcases List.eq_nil_or_concat rest with rfl | ⟨inside, closing, rfl⟩
    · have same : tokenAt position openBrace = last := Option.some.inj final
      rw [← same] at closes
      exact nomatch closes
    · exact ⟨inside, closing, List.concat_eq_append⟩
  rw [← List.cons_append, tokensAt_append, tokensAt, List.getLast?_append] at final
  have same : tokenAt (position.after (charsOf (openBrace :: inside))) closing = last :=
    Option.some.inj final
  rw [← same] at closes ⊢
  have back := lexemes_back (show lexemes limit text = (openBrace :: inside) ++ closing :: others by
    rw [split]
    simp)
  obtain rfl := eq_closeBrace back closes
  refine ⟨inside, rfl, ?_⟩
  rw [stop_tokenAt, Position.offset_after, ← List.cons_append, charsOf_append (openBrace :: inside),
    byteLength_append, ← Nat.add_assoc]
  rfl

/-- Lexemes that begin with the character of an opening brace, and of which the leaves end with a closing
brace. -/
theorem exists_braced_of_head {limit : Nat} {text : List Char} {block others : List Lexeme}
    (split : lexemes limit text = block ++ others) (opened : (charsOf block).head? = some '\x7b')
    {closing : String} (closes : (leavesOf block).getLast? = some (.rightBrace, closing)) :
    ∃ inside, block = braced inside := by
  obtain ⟨opening, rest, rfl⟩ : ∃ opening rest, block = opening :: rest :=
    List.exists_cons_of_ne_nil fun none => by
      rw [none] at opened
      exact nomatch opened
  have chars := charsOf_lexemes limit text
  rw [split, charsOf_append] at chars
  have opening_eq := eq_openBrace_of_head split (by
    rw [← chars, List.head?_append, opened]
    rfl)
  rw [← map_leaf_tokensAt .start, List.getLast?_map] at closes
  obtain ⟨last, final, leaf⟩ := Option.map_eq_some_iff.mp closes
  obtain ⟨inside, braced_eq, -⟩ := exists_braced split rfl
    (show (tokenAt .start opening).kind = .leftBrace by rw [opening_eq]; rfl) final
    (congrArg Prod.fst leaf)
  exact ⟨inside, braced_eq⟩

/-- What is checked before a block is changed cuts both texts. -/
theorem BlockChange.exists_cut (change : BlockChange old edit newText found)
    {start replaced stop : List Char} (applied : edit.Applied old.text newText start replaced stop)
    {front inner back : List Leaf} {level : Nat}
    (embraces : Embraces edit 0 0 (leavesOf (Parse.lexemes old.config old.text)) found front inner
      back level) :
    ∃ before inside inside' after, front = leavesOf before ∧ inner = leavesOf (braced inside) ∧
      back = leavesOf after ∧
      BlockCut old.config.operatorLimit old.text newText before inside inside' after ∧
      BlockRead old edit newText found before inside' after := by
  obtain ⟨before, rest, split, rfl, right⟩ := List.map_eq_append_iff.mp embraces.split
  obtain ⟨block, after, rfl, rfl, rfl⟩ := List.map_eq_append_iff.mp right
  change Embraces edit 0 0 _ found (leavesOf before) (leavesOf block) (leavesOf after) level at embraces
  have whole : old.text.toList = charsOf before ++ (charsOf block ++ charsOf after) := by
    rw [← charsOf_append, ← charsOf_append, ← split, Parse.charsOf_lexemes]
  have place : found.start = byteLength (charsOf before) := by
    rw [embraces.start_eq, width_leavesOf, Nat.zero_add]
  have stop := embraces.stop_eq
  have starts := embraces.starts
  have stops := embraces.stops
  rw [width_leavesOf] at stop
  obtain ⟨part', new, length, head⟩ := applied.exists_part whole (by omega) (by omega)
  -- reading the new text from the place of the opening brace on
  have between : (⟨part' ++ charsOf after, Position.start.after (charsOf before), .normal,
      old.config.operatorLimit, false, .empty⟩ : Scanner).Between := ⟨rfl, .inl rfl⟩
  obtain ⟨block', after', ahead, tokens, faults⟩ := between.tokensBefore (newStop edit found)
    (Nat.lt_succ_of_le (length_lexemes_le _ (part' ++ charsOf after)))
  have read : blockTokens old edit newText found = tokensBefore (newStop edit found)
      ((part' ++ charsOf after).length + 1) ⟨part' ++ charsOf after,
        Position.start.after (charsOf before), .normal, old.config.operatorLimit, false, .empty⟩ := by
    rw [blockTokens, place, Scanner.resume_of_append new]
  change lexemes old.config.operatorLimit (part' ++ charsOf after) = block' ++ after' at ahead
  obtain ⟨token, first, opens⟩ := change.first
  obtain ⟨last, final, closes, ends⟩ := change.last
  rw [read, tokens] at first final
  obtain ⟨inside', rfl, ends'⟩ := exists_braced ahead first opens final closes
  have ended : newStop edit found = byteLength (charsOf before) + byteLength (charsOf (braced inside')) := by
    rw [← ends, ends', Position.offset_after_start]
  have chars := charsOf_lexemes old.config.operatorLimit (part' ++ charsOf after)
  rw [ahead, charsOf_append] at chars
  obtain ⟨part_eq, rest_eq⟩ := eq_of_byteLength_eq chars (by
    rw [newStop] at ended
    omega)
  have same : after' = after := by
    rw [← lexemes_back ahead, rest_eq]
    rw [← List.append_assoc] at split
    exact lexemes_back split
  subst same
  -- the old block begins with the same brace, since the edit comes later
  have opened : (charsOf block).head? = some '\x7b' := by
    rw [← head (by omega), ← part_eq]
    rfl
  obtain ⟨text, closing⟩ := embraces.closes
  obtain ⟨inside, rfl⟩ := exists_braced_of_head (lexemes_back split) opened closing
  refine ⟨before, inside, inside', after', rfl, rfl, rfl, ⟨split, ?_⟩, ⟨?_, ended, ?_⟩⟩
  · have follows : Follows (charsOf (braced inside ++ after')) (part' ++ charsOf after') := by
      rw [← part_eq]
      exact ⟨rfl, fun point => absurd (Option.some.inj point) (by decide)⟩
    rw [new, lexemes_front split follows, ahead]
  · rw [read, tokens]
  · rw [read, faults]
    rfl

end Reparse

end LosslessSyntax

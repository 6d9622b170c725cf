import LosslessSyntax.Proofs.Diagnostic.Paired
import LosslessSyntax.Proofs.Grammar.Alike
import LosslessSyntax.Proofs.Grammar.Situated
import LosslessSyntax.Proofs.Parse.Reported

/-! # Texts that the grammar cannot tell apart

Of a text the grammar sees the kinds of the significant tokens, the texts of operators, and where
lines break (`Seen`). Two texts in which it sees the same are grouped in the same way, and the
grammar says the same about them, in the same order (`indistinguishable`). The order is one of spans,
which the grammar does not see: it says something about a token or about the gap before it
(`places`), and these lie in the same order in both texts.
-/

namespace LosslessSyntax

open Lexeme Grammar Lookahead

namespace Grammar

/-- The gaps and the tokens in turns, from a gap on. -/
def places (gap : Span) : List Lookahead → List Span
  | [] => [gap]
  | first :: rest => gap :: first.token.span :: places (.empty first.token.stop) rest

theorem start_of_mem_places {gap span : Span} {tokens : List Lookahead}
    (behind : ∀ a ∈ tokens, gap.start ≤ a.token.start)
    (apart : tokens.Pairwise fun a b => a.token.stop ≤ b.token.start)
    (solid : ∀ a ∈ tokens, a.token.start < a.token.stop)
    (member : span ∈ places gap tokens) : gap.start ≤ span.start := by
  induction tokens generalizing gap with
  | nil =>
    obtain rfl := List.mem_singleton.mp member
    exact Nat.le_refl _
  | cons first rest ih =>
    obtain ⟨apart, others⟩ := List.pairwise_cons.mp apart
    have here := behind first List.mem_cons_self
    have size := solid first List.mem_cons_self
    rcases List.mem_cons.mp member with rfl | member
    · exact Nat.le_refl _
    · rcases List.mem_cons.mp member with rfl | member
      · exact here
      · have later := @ih (.empty first.token.stop) apart others
          (fun a inside => solid a (List.mem_cons_of_mem first inside)) member
        change first.token.stop ≤ _ at later
        omega

/-- The places of tokens that follow each other are in order. -/
theorem sorted_places {gap : Nat} {tokens : List Lookahead}
    (behind : ∀ a ∈ tokens, gap ≤ a.token.start)
    (apart : tokens.Pairwise fun a b => a.token.stop ≤ b.token.start)
    (solid : ∀ a ∈ tokens, a.token.start < a.token.stop) :
    (places (.empty gap) tokens).Pairwise (·.compare · = .lt) := by
  induction tokens generalizing gap with
  | nil => exact List.pairwise_singleton _ _
  | cons first rest ih =>
    obtain ⟨apart, others⟩ := List.pairwise_cons.mp apart
    have solid' : ∀ a ∈ rest, a.token.start < a.token.stop :=
      fun a member => solid a (List.mem_cons_of_mem first member)
    have here := behind first List.mem_cons_self
    have size := solid first List.mem_cons_self
    have later {span : Span} (member : span ∈ places (.empty first.token.stop) rest) :
        first.token.stop ≤ span.start := start_of_mem_places apart others solid' member
    refine .cons ?_ (.cons ?_ (ih apart others solid'))
    · intro span member
      rcases List.mem_cons.mp member with rfl | member
      · rw [Span.compare_eq_lt]
        change gap < first.token.start ∨ gap = first.token.start ∧ gap < first.token.stop
        omega
      · have := later member
        apply Span.compare_eq_lt.mpr
        left
        change gap < span.start
        omega
    · intro span member
      have := later member
      apply Span.compare_eq_lt.mpr
      left
      change first.token.start < span.start
      omega

/-- Tokens that are seen alike match, at places that are linked. -/
theorem matched_places {L : Link} {tokens tokens' : List Lookahead}
    (seen : List.Forall₂ Seen tokens tokens') (inside : ∀ a ∈ tokens, a.kind ≠ .eof)
    {gap gap' : Span}
    (linked : ∀ a b, (a, b) ∈ (places gap tokens).zip (places gap' tokens') → L.span a b) :
    List.Forall₂ (Matched L) tokens tokens' ∧ L.span gap gap' := by
  induction seen generalizing gap gap' with
  | nil => exact ⟨.nil, linked _ _ List.mem_cons_self⟩
  | cons first _ ih =>
    simp only [places, List.zip_cons_cons, List.mem_cons] at linked
    obtain ⟨others, stop⟩ := ih (fun a member => inside a (List.mem_cons_of_mem _ member))
      fun a b member => linked a b (.inr (.inr member))
    constructor
    · exact .cons ⟨⟨first, linked _ _ (.inr (.inl rfl))⟩, stop, inside _ List.mem_cons_self⟩ others
    · exact linked _ _ (.inl rfl)

/-- The link of places that stand beside each other, and of the ends. -/
def Link.beside (spans spans' : List Span) (finish finish' : Span) : Link :=
  ⟨fun a b => (a, b) ∈ spans.zip spans' ∨ (a = finish ∧ b = finish'), True⟩

/-- The pairing of places that stand beside each other before the ends, and of the ends. -/
def Before (spans spans' : List Span) (finish finish' a b : Span) : Prop :=
  ((a, b) ∈ spans.zip spans' ∧ a.start < finish.start ∧ b.start < finish'.start) ∨
    (a = finish ∧ b = finish')

theorem monotone_before {spans spans' : List Span} {finish finish' : Span}
    (sorted : spans.Pairwise (·.compare · = .lt)) (sorted' : spans'.Pairwise (·.compare · = .lt)) :
    Diagnostics.Monotone (Before spans spans' finish finish') := by
  intro a a' b b' first second
  have earlier {c d : Span} (start : c.start < d.start) : c.compare d = .lt :=
    Span.compare_eq_lt.mpr (.inl start)
  rcases first with ⟨here, start, start'⟩ | ⟨rfl, rfl⟩
  · rcases second with ⟨there, -, -⟩ | ⟨rfl, rfl⟩
    · exact Span.compare_zip sorted sorted' here there
    · rw [earlier start, earlier start']
  · rcases second with ⟨-, start, start'⟩ | ⟨rfl, rfl⟩
    · rw [← Span.compare_swap b a, ← Span.compare_swap b' a', earlier start, earlier start']
    · rw [Span.compare_self, Span.compare_self]

end Grammar

namespace Parse

variable (config : Config) (text : String)

/-- What the grammar reports on a text. -/
def reports : Diagnostics :=
  (program config (fun _ => false) (.initial (.onDemand (.ofText text config.operatorLimit))
    text.utf8ByteSize 0)).reports

theorem start_finish :
    (beginning config text).finish.token.start = text.utf8ByteSize := by
  have finish := (programStart_eq text.utf8ByteSize
    (Scanner.between_ofText text config.operatorLimit) rfl).2.1
  rw [beginning, finish]
  exact start_ending_ofText text config.operatorLimit

theorem of_mem_ahead {a : Lookahead} (member : a ∈ (beginning config text).ahead) :
    a.token.start < a.token.stop ∧ a.token.stop ≤ text.utf8ByteSize := by
  have ahead := (programStart_eq text.utf8ByteSize
    (Scanner.between_ofText text config.operatorLimit) rfl).1
  rw [beginning, ahead] at member
  have token : a.token ∈ tokensAt .start (lexemes config text) := (mem_ofTokens member).1
  obtain ⟨-, size, -⟩ := mem_tokensAt chars_ne_nil token
  exact ⟨size, (placed_of_mem_tokensAt token).1.inside.2⟩

/-- The significant tokens of a text, the end included. -/
def seenTokens : List Lookahead := ofTokens false (scan text config.operatorLimit).1

theorem seenTokens_eq :
    seenTokens config text = (beginning config text).ahead ++ [(beginning config text).finish] := by
  obtain ⟨ahead, finish, -⟩ := programStart_eq text.utf8ByteSize
    (Scanner.between_ofText text config.operatorLimit) rfl
  have ends : ofTokens (breakAfter false (tokensAt .start (lexemes config text)))
      [⟨.eof, "", Position.start.after (charsOf (lexemes config text))⟩] =
      [ending (.ofText text config.operatorLimit)] := rfl
  rw [seenTokens, scan_eq, ofTokens_append, ends, beginning, ahead, finish]
  rfl

variable {config text} {text' : String}

/-- Of texts that are seen alike, the tokens and the ends are. -/
theorem seen_split (same : List.Forall₂ Seen (seenTokens config text) (seenTokens config text')) :
    List.Forall₂ Seen (beginning config text).ahead (beginning config text').ahead ∧
      Seen (beginning config text).finish (beginning config text').finish := by
  rw [seenTokens_eq, seenTokens_eq] at same
  have lengths := same.length_eq
  rw [List.length_append, List.length_append] at lengths
  have lengths : (beginning config text).ahead.length = (beginning config text').ahead.length :=
    Nat.add_right_cancel lengths
  have tokens := List.forall₂_take (beginning config text).ahead.length same
  have finish := List.forall₂_drop (beginning config text).ahead.length same
  rw [List.take_left, lengths, List.take_left] at tokens
  rw [List.drop_left, lengths, List.drop_left] at finish
  exact ⟨tokens, (List.forall₂_cons.mp finish).1⟩

/-- The places of a text, and its end. -/
def textPlaces (config : Config) (text : String) : List Span :=
  places (beginning config text).gap (beginning config text).ahead

/-- Parses of texts that are seen alike begin abreast, if their places are linked. -/
theorem abreast_beginning {L : Link}
    (same : List.Forall₂ Seen (seenTokens config text) (seenTokens config text'))
    (linked : ∀ a b, (a, b) ∈ (textPlaces config text).zip (textPlaces config text') → L.span a b)
    (finish : L.span (beginning config text).finish.token.span
      (beginning config text').finish.token.span)
    (ended : L.reports → (beginning config text).endReported = (beginning config text').endReported) :
    Abreast L [] [] (beginning config text) (beginning config text') := by
  obtain ⟨tokens, ends⟩ := seen_split same
  obtain ⟨matched, gap⟩ := matched_places tokens (proper_beginning config text).inside linked
  refine ⟨⟨_, _, (List.append_nil _).symm, (List.append_nil _).symm, matched⟩, ?_, Iff.rfl, rfl, gap,
    fun asked _ => ended asked⟩
  exact ⟨ends, finish⟩

/-- The places of a text are in order. -/
theorem sorted_textPlaces (config : Config) (text : String) :
    (textPlaces config text).Pairwise (·.compare · = .lt) := by
  have inOrder : (beginning config text).InOrder :=
    inOrder_programStart (Scanner.between_ofText text config.operatorLimit) rfl
  have solid : ∀ a ∈ (beginning config text).ahead, a.token.start < a.token.stop :=
    fun a member => (of_mem_ahead config text member).1
  refine sorted_places (fun a member => ?_) inOrder.apart solid
  change (beginning config text).current.token.start ≤ a.token.start
  cases ahead : (beginning config text).ahead with
  | nil =>
    rw [ahead] at member
    exact absurd member List.not_mem_nil
  | cons first rest =>
    rw [State.current_of_ahead ahead]
    rw [ahead] at member
    have apart := inOrder.apart
    rw [ahead, List.pairwise_cons] at apart
    rcases List.mem_cons.mp member with rfl | later
    · exact Nat.le_refl _
    · have := apart.1 a later
      have := solid first (by rw [ahead]; exact List.mem_cons_self)
      omega

/-- What the grammar reports is situated before the end, or at it. -/
theorem situated_of_mem_log {log : List Diagnostic} (made : (run config text).reports = .ofList log)
    {d : Diagnostic} (member : d ∈ log) :
    (d.code = .unexpectedEnd ∧ d.span = (beginning config text).finish.token.span) ∨
      (d.code ≠ .unexpectedEnd ∧
        d.span.start < (beginning config text).finish.token.span.start) := by
  obtain ⟨e, reported, span, code⟩ := Diagnostics.exists_mem_extend .empty member
  have situates : Situates (beginning config text) (run config text) :=
    situated_items config config.maxDepth tested_endsProgram
      (inOrder_programStart (Scanner.between_ofText text config.operatorLimit) rfl)
  rw [show Diagnostics.empty.extend log = .ofList log from rfl, ← made] at reported
  rw [← span, ← code]
  rcases situates.reports e reported with member | ⟨code, span⟩ | ⟨code, a, member, start⟩
  · rw [reports_beginning] at member
    exact absurd member List.not_mem_nil
  · exact .inl ⟨code, span⟩
  · obtain ⟨size, within⟩ := of_mem_ahead config text member
    refine .inr ⟨code, ?_⟩
    change e.span.start < (beginning config text).finish.token.start
    rw [start_finish]
    omega

/-- Logs of texts that are seen alike are paired. -/
theorem paired_of_logs {log log' : List Diagnostic}
    (made : (run config text).reports = .ofList log)
    (made' : (run config text').reports = .ofList log')
    (same : List.Forall₂ (SameReport (.beside (textPlaces config text) (textPlaces config text')
      (beginning config text).finish.token.span (beginning config text').finish.token.span))
      log log') :
    List.Forall₂ (Diagnostics.Paired (Before (textPlaces config text) (textPlaces config text')
      (beginning config text).finish.token.span (beginning config text').finish.token.span))
      log log' := by
  obtain ⟨length, beside⟩ := List.forall₂_iff_zip.mp same
  refine List.forall₂_iff_zip.mpr ⟨length, fun {d d'} member => ?_⟩
  obtain ⟨-, code, message, span⟩ := beside member
  obtain ⟨here, here'⟩ := List.of_mem_zip member
  refine ⟨code, message, ?_⟩
  rcases situated_of_mem_log made here with ⟨ends, place⟩ | ⟨inside, start⟩
  · rcases situated_of_mem_log made' here' with ⟨-, place'⟩ | ⟨inside', -⟩
    · exact .inr ⟨place, place'⟩
    · exact absurd (code.symm.trans ends) inside'
  · rcases situated_of_mem_log made' here' with ⟨ends', -⟩ | ⟨-, start'⟩
    · exact absurd (code.trans ends') inside
    · rcases span with both | ⟨ends, -⟩
      · exact .inl ⟨both, start, start'⟩
      · rw [ends] at start
        exact absurd start (Nat.lt_irrefl _)

/-- Nothing that is wrong with a lexeme is an unexpected end. -/
theorem code_of_mem_faultsAt {position : Position} {lexemes : List Lexeme} {d : Diagnostic}
    (member : d ∈ faultsAt position lexemes) : d.code ≠ .unexpectedEnd := by
  induction lexemes generalizing position with
  | nil => exact absurd member List.not_mem_nil
  | cons first rest ih =>
    rcases List.mem_append.mp member with member | member
    · obtain ⟨fault, -, rfl⟩ := List.mem_map.mp member
      cases fault <;> simp [LexicalFault.diagnostic, Diagnostic.error, Diagnostic.warning]
    · exact ih member

/-- The end of a text is not reported by the scanner if every string and every block comment has an
end. -/
theorem endReported_of_terminated
    (terminated : ∀ d ∈ (scan text config.operatorLimit).2.items,
      d.code ≠ .unterminatedString ∧ d.code ≠ .unterminatedComment) :
    (beginning config text).endReported = false := by
  have scanned : (scan text config.operatorLimit).2 =
      .ofList (faultsAt .start (lexemes config text)) :=
    (Scanner.between_ofText text config.operatorLimit).drain.2
  have ended := (programStart_eq text.utf8ByteSize
    (Scanner.between_ofText text config.operatorLimit) rfl).2.2.2.2
  rw [beginning, ended]
  refine List.any_eq_false.mpr fun d member incomplete => ?_
  have inside : d ∈ faultsAt .start (lexemes config text) := (Diagnostics.mem_ofList.mp member).mem
  obtain ⟨string, comment⟩ := terminated d (by rw [scanned]; exact member)
  have other := code_of_mem_faultsAt inside
  rw [Bool.and_eq_true, beq_iff_eq, Diagnostic.kind] at incomplete
  cases code : d.code <;> simp_all [DiagnosticCode.kind]

/-- The grammar sees kinds, operators and line breaks. If the significant tokens of two texts, the
end included, are of the same kinds one by one, with the same texts of operators and line breaks
before the same tokens, then the tokens are grouped in the same way; and if every string and every
block comment of both texts has an end, the grammar reports the same codes and messages in the same
order. -/
theorem indistinguishable (config : Config) (text text' : String)
    (same : List.Forall₂ Seen (ofTokens false (scan text config.operatorLimit).1)
      (ofTokens false (scan text' config.operatorLimit).1)) :
    (outcome config (fun _ => false) text).events =
        (outcome config (fun _ => false) text').events ∧
      ((∀ d ∈ (scan text config.operatorLimit).2.items,
          d.code ≠ .unterminatedString ∧ d.code ≠ .unterminatedComment) →
        (∀ d ∈ (scan text' config.operatorLimit).2.items,
          d.code ≠ .unterminatedString ∧ d.code ≠ .unterminatedComment) →
        (reports config text).items.map (fun d => (d.code, d.message)) =
          (reports config text').items.map (fun d => (d.code, d.message))) := by
  constructor
  · have abreast : Abreast .any [] [] (beginning config text) (beginning config text') :=
      abreast_beginning same (fun _ _ _ => trivial) trivial False.elim
    have pieces : (run config text).pieces = (run config text').pieces :=
      (keeps_programRun abreast).2
    have written (text : String) : (outcome config (fun _ => false) text).events =
        Shape.eventsOfAll [.node .root (run config text).pieces.reverse] :=
      @events_program config (fun _ => false) text.utf8ByteSize (.ofText text config.operatorLimit)
    rw [written, written, pieces]
  · intro terminated terminated'
    let L : Link := .beside (textPlaces config text) (textPlaces config text')
      (beginning config text).finish.token.span (beginning config text').finish.token.span
    have abreast : Abreast L [] [] (beginning config text) (beginning config text') := by
      refine abreast_beginning same (fun _ _ => .inl) (.inr ⟨rfl, rfl⟩) fun _ => ?_
      rw [endReported_of_terminated terminated, endReported_of_terminated terminated']
    have logged : Logged L _ _ (run config text) (run config text') :=
      (keeps_programRun abreast).1.logged
    obtain ⟨log, log', made, made', logged⟩ := logged trivial
    have made : (run config text).reports = .ofList log := made
    have made' : (run config text').reports = .ofList log' := made'
    have paired := Diagnostics.paired_ofList
      (monotone_before (sorted_textPlaces config text) (sorted_textPlaces config text'))
      (paired_of_logs made made' logged)
    change (run config text).reports.items.map _ = (run config text').reports.items.map _
    rw [made, made', ← List.forall₂_eq_eq_eq, List.forall₂_map_left_iff, List.forall₂_map_right_iff]
    exact paired.imp fun d d' here => Prod.ext here.code here.message

/-- Two texts with other names, other numbers and other spaces, and a missing type. -/
theorem indistinguishable_names :
    List.Forall₂ Seen (ofTokens false (scan "let a: = 1" 3).1)
        (ofTokens false (scan "let long: =23 " 3).1) ∧
      (outcome ⟨3, .standard, 4⟩ (fun _ => false) "let a: = 1").events =
        (outcome ⟨3, .standard, 4⟩ (fun _ => false) "let long: =23 ").events ∧
      (reports ⟨3, .standard, 4⟩ "let a: = 1").items.map (fun d => (d.code, d.message)) =
        (reports ⟨3, .standard, 4⟩ "let long: =23 ").items.map (fun d => (d.code, d.message)) := by
  have tokens : ofTokens false (scan "let a: = 1" 3).1 =
      [⟨⟨.letWord, "let", ⟨0, 1, 1⟩⟩, false⟩, ⟨⟨.ident, "a", ⟨4, 1, 5⟩⟩, false⟩,
        ⟨⟨.colon, ":", ⟨5, 1, 6⟩⟩, false⟩, ⟨⟨.symbol, "=", ⟨7, 1, 8⟩⟩, false⟩,
        ⟨⟨.number, "1", ⟨9, 1, 10⟩⟩, false⟩, ⟨⟨.eof, "", ⟨10, 1, 11⟩⟩, false⟩] := rfl
  have tokens' : ofTokens false (scan "let long: =23 " 3).1 =
      [⟨⟨.letWord, "let", ⟨0, 1, 1⟩⟩, false⟩, ⟨⟨.ident, "long", ⟨4, 1, 5⟩⟩, false⟩,
        ⟨⟨.colon, ":", ⟨8, 1, 9⟩⟩, false⟩, ⟨⟨.symbol, "=", ⟨10, 1, 11⟩⟩, false⟩,
        ⟨⟨.number, "23", ⟨11, 1, 12⟩⟩, false⟩, ⟨⟨.eof, "", ⟨14, 1, 15⟩⟩, false⟩] := rfl
  have same : List.Forall₂ Seen (ofTokens false (scan "let a: = 1" 3).1)
      (ofTokens false (scan "let long: =23 " 3).1) := by
    rw [tokens, tokens']
    repeat' apply List.Forall₂.cons
    all_goals first
      | exact .nil
      | exact ⟨rfl, by decide, rfl⟩
  obtain ⟨events, reports⟩ := indistinguishable ⟨3, .standard, 4⟩ _ _ same
  exact ⟨same, events, reports (by decide) (by decide)⟩

end Parse

end LosslessSyntax

import LosslessSyntax.CommandLine.Run
import LosslessSyntax.Proofs.Parse.Recovery
import LosslessSyntax.Proofs.Text.Decoding

/-! # Texts without errors

If no diagnostic of a text is an error, the text has been read without recovery, as far as it goes
(`Parse.Plain`): no token is unrecognised, and an error node only stands for what is missing where
the text breaks off in a block comment, which is a warning. A check ends with zero only for such
files (`plain_of_no_errors`).
-/

namespace LosslessSyntax

open Lexeme Grammar

namespace Lexeme

/-- What is wrong with a lexeme that is unrecognised is not that a comment is left open. -/
theorem exists_fault_of_error {limit : Nat} {text : List Char} {position : Position} {token : Token}
    (member : token ∈ tokensAt position (lexemes limit text)) (kind : token.kind = .error) :
    ∃ d ∈ faultsAt position (lexemes limit text), d.code ≠ .unterminatedComment := by
  fun_induction lexemes limit text generalizing position with
  | case1 => cases member
  | case2 c rest ih =>
    rcases List.mem_cons.mp member with rfl | member
    · obtain ⟨fault, found⟩ := Option.ne_none_iff_exists'.mp (fault_readNormal kind)
      refine ⟨fault.diagnostic (tokenAt position (readNormal limit c rest).bare).span, ?_, ?_⟩
      · apply List.mem_append_left
        exact List.mem_map_of_mem (Option.mem_toList.mpr found)
      · cases fault with
        | unterminatedComment =>
          exact absurd (kind.symm.trans (kind_of_unterminatedComment found)) (by decide)
        | unexpectedCharacter => rintro ⟨⟩
        | missingName => rintro ⟨⟩
        | unterminatedString => rintro ⟨⟩
    · obtain ⟨d, wrong, code⟩ := ih member
      exact ⟨d, List.mem_append_right _ wrong, code⟩

/-- What is wrong with a lexeme is an error, unless a comment is left open. -/
theorem severity_of_mem_faultsAt {position : Position} {lexemes : List Lexeme} {d : Diagnostic}
    (member : d ∈ faultsAt position lexemes) :
    d.severity = .error ∨ d.severity = .warning ∧ d.code = .unterminatedComment := by
  induction lexemes generalizing position with
  | nil => exact nomatch member
  | cons first rest ih =>
    rcases List.mem_append.mp member with here | later
    · obtain ⟨fault, -, rfl⟩ := fault_of_mem here
      cases fault with
      | unterminatedComment => exact .inr ⟨rfl, rfl⟩
      | unexpectedCharacter => exact .inl rfl
      | missingName => exact .inl rfl
      | unterminatedString => exact .inl rfl
    · exact ih later

end Lexeme

namespace Parse

/-- A parse without recovery, except that the text may break off in a block comment. -/
structure Plain (parse : Parse) : Prop where
  /-- No token is unrecognised. -/
  tokens : ∀ leaf ∈ parse.root.tokens, leaf.tree.tokenKind? ≠ some .error
  /-- If there is an error node, a comment is left open up to the end of the text. -/
  comment : ∀ error ∈ parse.root.descendants, error.tree.nodeKind? = some .error →
    ∃ d ∈ parse.diagnostics.items, d.code = .unterminatedComment ∧ d.severity = .warning ∧
      d.span.stop = parse.text.utf8ByteSize
  /-- An error node has no significant tokens of its own, and none stands behind it. -/
  last : ∀ error ∈ parse.root.descendants, error.tree.nodeKind? = some .error →
    error.directTokens = [] ∧ ∀ leaf ∈ parse.root.tokens, error.span.stop ≤ leaf.start →
      leaf.tree.tokenKind?.any TokenKind.isSignificant = false

theorem severity_of_clean {parse : Parse} (clean : parse.hasErrors = false) :
    ∀ d ∈ parse.diagnostics.items, d.severity ≠ .error := by
  intro d member error
  rw [hasErrors, Diagnostics.hasErrors, Bool.not_eq_false', List.isEmpty_iff] at clean
  exact List.filter_eq_nil_iff.mp clean d member (beq_iff_eq.mpr error)

variable {config : Config} {text : String}

/-- The leaves below the root are tokens of the text. -/
theorem exists_token {leaf : Cursor} (member : leaf ∈ (ofText config text).root.tokens) :
    ∃ token ∈ tokensAt .start (lexemes config text),
      leaf.tree = .leaf token.kind token.text ∧ leaf.span = token.span := by
  have places := ofLeaves_leavesOf .start (lexemes config text)
  rw [← leaves_ofText] at places
  rw [Cursor.tokens_eq] at member
  have place := List.mem_map_of_mem (f := fun leaf : Cursor => (leaf.tree, leaf.span)) member
  obtain ⟨token, inside, same⟩ := List.mem_map.mp (places ▸ place)
  obtain ⟨tree, span⟩ := Prod.mk.inj same
  exact ⟨token, inside, tree.symm, span.symm⟩

section Clean

variable (clean : (ofText config text).hasErrors = false)
include clean

/-- The grammar reports errors only. -/
theorem reports_of_clean : (run config text).reports.items = [] := by
  apply List.eq_nil_iff_forall_not_mem.mpr
  intro d member
  exact severity_of_clean clean d (mem_items_of_report member) (made_run member).severity

/-- Only that a comment is left open is no error. -/
theorem code_of_clean : ∀ d ∈ (ofText config text).diagnostics.items,
    d.severity = .warning ∧ d.code = .unterminatedComment := by
  intro d member
  rcases mem_diagnostics member with reported | wrong
  · rw [reports_of_clean clean] at reported
    exact nomatch reported
  · exact (severity_of_mem_faultsAt wrong).resolve_left (severity_of_clean clean d member)

theorem plain_of_clean : (ofText config text).Plain where
  tokens := by
    intro leaf member kind
    obtain ⟨token, inside, tree, -⟩ := exists_token member
    rw [tree] at kind
    obtain ⟨d, wrong, code⟩ := exists_fault_of_error inside (Option.some.inj kind)
    obtain ⟨e, told, -, same⟩ :=
      Diagnostics.exists_mem_extend (run config text).reports wrong
    have told : e ∈ (ofText config text).diagnostics.items := by rwa [diagnostics_ofText]
    exact code (same ▸ (code_of_clean clean e told).2)
  comment := by
    intro error member kind
    obtain ⟨_, _, _, node, accounted⟩ := exists_accounted member kind
    obtain ⟨-, -, known⟩ := accounted.last (reports_of_clean clean)
    obtain ⟨d, told, incomplete⟩ := exists_incomplete known
    obtain ⟨severity, code⟩ := code_of_clean clean d told
    exact ⟨d, told, code, severity, stop_of_incomplete told incomplete⟩
  last := by
    intro error member kind
    obtain ⟨before, after, children, node, accounted⟩ := exists_accounted member kind
    obtain ⟨own, behind, -⟩ := accounted.last (reports_of_clean clean)
    constructor
    · have places := node.directTokens_eq
      rw [own] at places
      exact List.map_eq_nil_iff.mp places
    · intro leaf below reached
      obtain ⟨token, inside, tree, span⟩ := exists_token below
      have start : leaf.start = token.start := congrArg Span.start span
      rw [tree]
      exact node.insignificant_behind (fun lexeme => chars_ne_nil lexeme) behind token inside
        (start ▸ reached)

end Clean

end Parse

namespace Text

/-- Whatever is reported of bytes is an error. -/
theorem severity_of_mem_invalidReports {offset : Nat} {pieces : List BytePiece} {d : Diagnostic}
    (member : d ∈ invalidReports offset pieces) : d.severity = .error := by
  induction pieces generalizing offset with
  | nil => exact nomatch member
  | cons piece rest ih =>
    cases piece with
    | char c => exact ih member
    | invalid bytes =>
      rcases List.mem_cons.mp member with rfl | later
      · rfl
      · exact ih later

theorem severity_of_mem_decodeSource {bytes : List UInt8} {d : Diagnostic}
    (member : d ∈ (decodeSource bytes).2.items) : d.severity = .error := by
  rw [decodeSource_eq_decodeBytes] at member
  exact severity_of_mem_invalidReports (Diagnostics.mem_ofList.mp member).mem

end Text

namespace CommandLine

open Parse

/-- A check that ends with zero has found no errors, in the bytes and in the text. -/
theorem no_errors_of_code {host : Host} {path text : String} {decoding diagnostics : Diagnostics}
    (errors : ∀ d ∈ decoding.items, d.severity = .error) (ordered : diagnostics.Ordered)
    (code : (showCheck host path text (decoding.extend diagnostics.items)).code = 0) :
    diagnostics.hasErrors = false := by
  have none : (decoding.extend diagnostics.items).hasErrors = false := by
    rw [showCheck] at code
    split at code
    case isTrue => exact absurd code (show (1 : UInt32) ≠ 0 by decide)
    case isFalse none => exact Bool.eq_false_iff.mpr none
  rw [Diagnostics.hasErrors, Bool.not_eq_false', List.isEmpty_iff] at none ⊢
  have nothing := List.filter_eq_nil_iff.mp none
  apply List.filter_eq_nil_iff.mpr
  intro d member
  apply nothing
  rw [Diagnostics.mem_extend]
  right
  constructor
  · apply Bool.eq_false_iff.mpr
    intro known
    obtain ⟨e, before, -⟩ := Diagnostics.reports_iff.mp known
    exact nothing e (Diagnostics.mem_extend_of_mem _ before) (beq_iff_eq.mpr (errors e before))
  · exact Diagnostics.firstIn_of_distinct ordered.distinct member

/-- What a check that ends with zero has read. -/
theorem exists_of_check {host : Host} {request : Request} (check : request.command = .check)
    (code : (result host request).code = 0) :
    ∃ operators bytes, readOperators host request = .ok operators ∧
      host.read request.file = .ok bytes ∧
      (ofText { Config.standard with operators, maxDepth := request.maxDepth }
        (Text.decodeSource bytes).1).hasErrors = false := by
  rw [result] at code
  cases done : perform host request with
  | error refusal =>
    rw [done] at code
    exact absurd code (show (2 : UInt32) ≠ 0 by decide)
  | ok outcome =>
    rw [done] at code
    rw [perform, check] at done
    cases table : readOperators host request with
    | error refusal =>
      rw [table] at done
      exact nomatch done
    | ok operators =>
      cases file : host.read request.file with
      | error fault =>
        rw [table, readBytes, file] at done
        exact nomatch done
      | ok bytes =>
        rw [table, readBytes, file] at done
        obtain rfl := Except.ok.inj done
        refine ⟨operators, bytes, rfl, rfl, no_errors_of_code ?_ (ordered_diagnostics _ _) code⟩
        exact fun d => Text.severity_of_mem_decodeSource

end CommandLine

/-- A text without errors has been read without recovery, except that it may break off in a block
comment; so is every file for which a check ends with zero. -/
theorem plain_of_no_errors :
    (∀ config text, (Parse.ofText config text).hasErrors = false →
      (Parse.ofText config text).Plain) ∧
    ∀ (host : Host) (arguments : List String) (request : Request),
      host.request arguments = .ok request → request.command = .check →
      (CommandLine.run host arguments).code = 0 →
      ∃ operators bytes, CommandLine.readOperators host request = .ok operators ∧
        host.read request.file = .ok bytes ∧
        (Parse.ofText { Config.standard with operators, maxDepth := request.maxDepth }
          (Text.decodeSource bytes).1).Plain := by
  constructor
  · intro config text clean
    exact Parse.plain_of_clean clean
  · intro host arguments request asked check code
    rw [CommandLine.run, asked] at code
    obtain ⟨operators, bytes, table, file, clean⟩ := CommandLine.exists_of_check check code
    exact ⟨operators, bytes, table, file, Parse.plain_of_clean clean⟩

/-- A binding that breaks off in a comment, and a check of a file. -/
theorem plain_of_no_errors_comment :
    (Parse.ofText ⟨3, .standard, 8⟩ "let x = #/").Plain ∧
      let host : Host := .terminal (fun _ => none) fun _ => .ok [0x61]
      ∃ operators bytes,
        CommandLine.readOperators host ⟨.check, "a", 8, none⟩ = .ok operators ∧
        bytes = [0x61] ∧
        (Parse.ofText { Config.standard with operators, maxDepth := 8 }
          (Text.decodeSource bytes).1).Plain := by
  constructor
  · exact plain_of_no_errors.1 _ _ (by decide +kernel)
  · intro host
    have asked : host.request ["check", "a", "--max-depth", "8"] = .ok ⟨.check, "a", 8, none⟩ := by
      have known : Request.ofArguments? (fun _ => none) ["check", "a", "--max-depth", "8"] =
          some ⟨.check, "a", 8, none⟩ := by decide +kernel
      simp only [host, Host.terminal, known]
    have ended : (CommandLine.run host ["check", "a", "--max-depth", "8"]).code = 0 := by
      decide +kernel
    obtain ⟨operators, bytes, table, file, plain⟩ :=
      plain_of_no_errors.2 host _ _ asked rfl ended
    exact ⟨operators, bytes, table, (Except.ok.inj file).symm, plain⟩

/-- Where a text breaks off in a comment, something may be missing although nothing is an error. -/
theorem error_node_without_errors :
    (Parse.ofText ⟨3, .standard, 8⟩ "let x = #/").hasErrors = false ∧
      ∃ error ∈ (Parse.ofText ⟨3, .standard, 8⟩ "let x = #/").root.descendants,
        error.tree.nodeKind? = some .error := by
  refine ⟨by decide +kernel, ?_⟩
  have found : (Parse.ofText ⟨3, .standard, 8⟩ "let x = #/").root.descendants.any
      (·.tree.nodeKind? == some .error) = true := by decide +kernel
  obtain ⟨error, member, kind⟩ := List.any_eq_true.mp found
  exact ⟨error, member, beq_iff_eq.mp kind⟩

end LosslessSyntax

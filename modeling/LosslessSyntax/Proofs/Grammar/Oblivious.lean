import LosslessSyntax.Proofs.Derivation.Phrase
import LosslessSyntax.Proofs.Grammar.Abreast
import LosslessSyntax.Proofs.Tree.Heeded

/-! # Rules that are oblivious of line breaks

A rule that reports nothing does the same over tokens with other space between them, as long as line
breaks are where the outlines that it has read heed them (`Oblivious`). Where line breaks do not
matter at all none has to be kept, so what is enclosed by brackets may be respaced, whatever it is
(`ObliviousWith.nodeOf_enclosed`). The ways in which rules are put together carry this over.
-/

namespace LosslessSyntax.Grammar

open State Outline

/-- The same tokens with other space between them. They are preceded by line breaks in the same
places as far as these are heeded. -/
inductive Respaced : List Bool → List Lookahead → List Lookahead → Prop where
  | nil (heeded : List Bool) : Respaced heeded [] []
  | cons {heeded : List Bool} {a b : Lookahead} {rest rest' : List Lookahead} :
    a.kind = b.kind → a.token.text = b.token.text →
      (heeded.headD false = true → a.afterBreak = b.afterBreak) →
      Respaced heeded.tail rest rest' → Respaced heeded (a :: rest) (b :: rest')

/-- States in the same context over tokens with other space between them. -/
structure State.Respaced (heeded : List Bool) (s t : State) : Prop where
  ahead : Grammar.Respaced heeded s.ahead t.ahead
  finish : Seen s.finish t.finish
  pieces : s.pieces = t.pieces
  reports : s.reports = t.reports
  endReported : s.endReported = t.endReported
  breakModes : s.breakModes = t.breakModes

/-- Nothing is heeded where line breaks do not matter. -/
def weigh (matter : Bool) (heeded : List Bool) : List Bool := heeded.map (matter && ·)

variable {α β : Type} {matter : Bool} {heeded heeded' rest : List Bool} {s t : State}

theorem headD_weigh (first : heeded.headD true = true)
    (next : matter = true → rest.headD false = true) :
    matter = true → (weigh matter heeded ++ rest).headD false = true := by
  rintro rfl
  cases heeded with
  | nil => exact next rfl
  | cons => exact first

namespace Respaced

variable {tokens tokens' : List Lookahead}

theorem length_eq (respaced : Respaced heeded tokens tokens') : tokens.length = tokens'.length := by
  induction respaced with
  | nil => rfl
  | cons _ _ _ _ ih => rw [List.length_cons, List.length_cons, ih]

/-- The first of them, or the ends. -/
theorem headD (respaced : Respaced heeded tokens tokens') {a b : Lookahead} (ends : Seen a b) :
    (tokens.headD a).kind = (tokens'.headD b).kind ∧
      ((tokens.headD a).kind = .symbol →
        (tokens.headD a).token.text = (tokens'.headD b).token.text) ∧
      (heeded.headD false = true →
        (tokens.headD a).afterBreak = (tokens'.headD b).afterBreak) := by
  cases respaced with
  | nil => exact ⟨ends.kind, ends.text, fun _ => ends.afterBreak⟩
  | cons kind text heeds => exact ⟨kind, fun _ => text, heeds⟩

/-- Tokens may be heeded less. -/
theorem mute (respaced : Respaced (weigh matter heeded ++ rest) tokens tokens')
    (length : heeded.length = heeded'.length) :
    Respaced (weigh false heeded' ++ rest) tokens tokens' := by
  induction heeded generalizing heeded' tokens tokens' with
  | nil =>
    obtain rfl := List.length_eq_zero_iff.mp length.symm
    exact respaced
  | cons here others ih =>
    obtain ⟨here', others', rfl⟩ := List.exists_cons_of_length_eq_add_one length.symm
    cases respaced with
    | nil => exact .nil _
    | cons kind text _ respaced =>
      exact .cons kind text (fun heeds => absurd heeds (by simp [weigh]))
        (ih respaced (Nat.succ.inj length))

end Respaced

namespace State.Respaced

theorem nil_iff (respaced : s.Respaced heeded t) : s.ahead = [] ↔ t.ahead = [] := by
  rw [← List.length_eq_zero_iff, ← List.length_eq_zero_iff, respaced.ahead.length_eq]

/-- Rules cannot tell respaced states apart, if a line break is heeded where it matters. -/
theorem agree (respaced : s.Respaced heeded t)
    (first : s.breakModes.headD true = true → heeded.headD false = true) : Agree s t := by
  obtain ⟨kind, text, afterBreak⟩ := respaced.ahead.headD respaced.finish
  refine ⟨kind, text, ?_, respaced.nil_iff⟩
  rw [atBreak, atBreak, ← respaced.breakModes]
  cases matters : s.breakModes.headD true with
  | false => rfl
  | true => exact congrArg (true && ·) (afterBreak (first matters))

theorem of_context (respaced : s.Respaced heeded t) {depth depth' : Nat}
    {phases phases' : List Phase} :
    State.Respaced heeded { s with depth := depth, phases := phases }
      { t with depth := depth', phases := phases' } :=
  ⟨respaced.ahead, respaced.finish, respaced.pieces, respaced.reports, respaced.endReported,
    respaced.breakModes⟩

theorem openNode (respaced : s.Respaced heeded t) : s.openNode.Respaced heeded t.openNode :=
  ⟨respaced.ahead, respaced.finish, rfl, respaced.reports, respaced.endReported,
    respaced.breakModes⟩

theorem precedeNode (respaced : s.Respaced heeded t) :
    s.precedeNode.Respaced heeded t.precedeNode :=
  ⟨respaced.ahead, respaced.finish, rfl, respaced.reports, respaced.endReported,
    respaced.breakModes⟩

theorem closeNode {s' t' : State} (kind : NodeKind) (outer : s.Respaced heeded' t)
    (respaced : s'.Respaced heeded t') :
    (closeNode s kind s').Respaced heeded (State.closeNode t kind t') :=
  ⟨respaced.ahead, respaced.finish,
    by rw [State.closeNode, State.closeNode, respaced.pieces, outer.pieces], respaced.reports,
    respaced.endReported, respaced.breakModes⟩

theorem closeWrap {s' t' : State} (kind : NodeKind) (outer : s.Respaced heeded' t)
    (respaced : s'.Respaced heeded t') :
    (closeWrap s kind s').Respaced heeded (State.closeWrap t kind t') := by
  have pieces : (State.closeWrap s kind s').pieces = (State.closeWrap t kind t').pieces := by
    rw [State.closeWrap, State.closeWrap, respaced.pieces, outer.pieces]
  exact ⟨respaced.ahead, respaced.finish, pieces, respaced.reports, respaced.endReported,
    respaced.breakModes⟩

theorem pushBreaks (respaced : s.Respaced heeded t) (matter : Bool) :
    (s.pushBreaks matter).Respaced heeded (t.pushBreaks matter) :=
  ⟨respaced.ahead, respaced.finish, respaced.pieces, respaced.reports, respaced.endReported,
    congrArg (matter :: ·) respaced.breakModes⟩

theorem popBreaks (respaced : s.Respaced heeded t) : s.popBreaks.Respaced heeded t.popBreaks :=
  ⟨respaced.ahead, respaced.finish, respaced.pieces, respaced.reports, respaced.endReported,
    congrArg List.tail respaced.breakModes⟩

theorem bump (respaced : s.Respaced (here :: heeded) t) (some : s.ahead ≠ []) :
    s.bump.Respaced heeded t.bump := by
  obtain ⟨ahead, finish, pieces, reports, endReported, breakModes⟩ := respaced
  rw [State.bump, State.bump]
  revert some ahead
  generalize s.ahead = tokens
  generalize t.ahead = tokens'
  rintro some (_ | ⟨_, _, _, respaced⟩)
  · exact absurd rfl some
  · exact ⟨respaced, finish, congrArg (Shape.token :: ·) pieces, reports, endReported, breakModes⟩

end State.Respaced

/-- A step, and whether it is repeated: it asks for it, and it has consumed something. -/
def checkedStep (step : State → Bool × State) (s : State) : Bool × State :=
  (decide ((step s).1 = true ∧ (step s).2.ahead.length < s.ahead.length), (step s).2)

/-- If nothing has been reported after a rule, it does the same over tokens with other space between
them. It heeds line breaks only where the outlines do that it has added, and before the token that is
the current one then. -/
def ObliviousAt (matter : Bool) (rule : State → α × State) (s : State) : Prop :=
  s.breakModes.headD true = matter → (rule s).2.Clean →
    ∃ heeded, heededAll (rule s).2.outline = heededAll s.outline ++ heeded ∧
      heeded.headD true = true ∧
      ∀ (t : State) (rest : List Bool), (matter = true → rest.headD false = true) →
        s.Respaced (weigh matter heeded ++ rest) t →
        (rule t).1 = (rule s).1 ∧ (rule s).2.Respaced rest (rule t).2

/-- A rule that is oblivious of line breaks between brackets at all states where line breaks matter,
or at all those where they do not. -/
structure ObliviousWith (matter : Bool) (rule : State → α × State) : Prop where
  runs (s : State) : Runs s (rule s).2
  same (s : State) : ObliviousAt matter rule s

/-- A rule without an answer that is oblivious. -/
abbrev Oblivious (matter : Bool) (rule : State → State) : Prop :=
  ObliviousWith matter fun s => ((), rule s)

namespace ObliviousAt

variable {rule : State → α × State} {rule' : α → State → β × State}

theorem pure (answer : α) : ObliviousAt matter (fun s => (answer, s)) s := fun _ _ =>
  ⟨[], (List.append_nil _).symm, rfl, fun _ _ _ respaced => ⟨rfl, respaced⟩⟩

/-- Rules that tests and the number of tokens ahead do not tell apart. -/
theorem of_agree {rule' : State → α × State} (oblivious : ObliviousAt matter rule' s)
    (like : ∀ t, Agree s t → s.ahead.length = t.ahead.length → rule t = rule' t) :
    ObliviousAt matter rule s := by
  intro mode clean
  rw [like s (.refl s) rfl] at clean ⊢
  obtain ⟨heeded, outline, first, same⟩ := oblivious mode clean
  refine ⟨heeded, outline, first, fun t rest next respaced => ?_⟩
  have agree := respaced.agree fun matters => headD_weigh first next (mode.symm.trans matters)
  rw [like t agree respaced.ahead.length_eq]
  exact same t rest next respaced

/-- A rule that answers, and then one that depends on the answer. -/
theorem bind (first : ObliviousAt matter rule s) (run : Runs s (rule s).2)
    (second : ObliviousAt matter (rule' (rule s).1) (rule s).2)
    (run' : Runs (rule s).2 (rule' (rule s).1 (rule s).2).2) :
    ObliviousAt matter (fun s => rule' (rule s).1 (rule s).2) s := by
  intro mode clean
  obtain ⟨heeded, outline, head, same⟩ := first mode (clean.of_runs run')
  obtain ⟨heeded', outline', head', same'⟩ := second (by rw [run.breakModes, mode]) clean
  refine ⟨heeded ++ heeded', ?_, headD_append head head', fun t rest next respaced => ?_⟩
  · rw [outline', outline, List.append_assoc]
  · rw [weigh, List.map_append, List.append_assoc] at respaced
    obtain ⟨answer, respaced⟩ := same t _ (headD_weigh head' next) respaced
    dsimp only
    rw [answer]
    exact same' _ rest next respaced

end ObliviousAt

namespace ObliviousWith

variable {rule : State → α × State}

/-- A rule that is at every state like an oblivious one. -/
theorem of_agree (each : ∀ s, ∃ rule' : State → α × State, ObliviousWith matter rule' ∧
    ∀ t, Agree s t → s.ahead.length = t.ahead.length → rule t = rule' t) :
    ObliviousWith matter rule where
  runs s := by
    obtain ⟨rule', oblivious, like⟩ := each s
    rw [like s (.refl s) rfl]
    exact oblivious.runs s
  same s := by
    obtain ⟨rule', oblivious, like⟩ := each s
    exact (oblivious.same s).of_agree like

/-- A rule that reports something is out of the question. -/
theorem of_reported (runs : ∀ s, Runs s (rule s).2) (reported : ∀ s, ¬ (rule s).2.Clean) :
    ObliviousWith matter rule where
  runs := runs
  same s _ clean := absurd clean (reported s)

/-- An answer without a rule. -/
theorem pure (answer : α) : ObliviousWith matter fun s => (answer, s) where
  runs := .refl
  same _ := .pure answer

/-- A rule that answers, and then one that depends on the answer. -/
theorem bind {rule' : α → State → β × State} (first : ObliviousWith matter rule)
    (second : ∀ answer, ObliviousWith matter (rule' answer)) :
    ObliviousWith matter fun s => rule' (rule s).1 (rule s).2 where
  runs s := (first.runs s).trans ((second _).runs _)
  same s := (first.same s).bind (first.runs s) ((second _).same _) ((second _).runs _)

/-- A rule with another answer. -/
theorem map (oblivious : ObliviousWith matter rule) (answer : α → β) :
    ObliviousWith matter fun s => (answer (rule s).1, (rule s).2) :=
  oblivious.bind fun found => .pure (answer found)

/-- A rule that chooses by an answer to a test. -/
theorem byTest {test : State → β} {rule : β → State → α × State} (tested : Coupling.Tested test)
    (each : ∀ answer, ObliviousWith matter (rule answer)) :
    ObliviousWith matter fun s => rule (test s) s :=
  .of_agree fun s => ⟨_, each (test s), fun t agree _ => by rw [tested agree]⟩

/-- A rule that chooses between two by a test. -/
theorem ite {test : State → Bool} {rule' : State → α × State} (tested : Coupling.Tested test)
    (yes : ObliviousWith matter rule) (no : ObliviousWith matter rule') :
    ObliviousWith matter fun s => if test s then rule s else rule' s := by
  have each (answer : Bool) :
      ObliviousWith matter fun s => if answer then rule s else rule' s := by
    cases answer with
    | false => exact no
    | true => exact yes
  have chosen := byTest tested each
  exact chosen

/-- The answer to a test before a rule. -/
theorem answering {test : State → β} {rule : State → State} (tested : Coupling.Tested test)
    (oblivious : Oblivious matter rule) : ObliviousWith matter fun s => (test s, rule s) := by
  have each (answer : β) : ObliviousWith matter fun s => (answer, rule s) :=
    oblivious.map fun _ => answer
  have answered := byTest tested each
  exact answered

/-- A node around an oblivious rule. -/
theorem nodeOf {rule : State → NodeKind × State}
    (plain : ∀ s, (rule s).1 ∉ suffixKinds ∧ (rule s).1 ∉ bracketKinds)
    (body : ObliviousWith matter rule) : Oblivious matter (State.nodeOf rule) where
  runs s := (body.runs s.openNode).closeNode _
  same s mode clean := by
    obtain ⟨heeded, outline, head, same⟩ :=
      body.same s.openNode mode ⟨clean.reports, clean.endReported⟩
    obtain ⟨suffix, bracket⟩ := plain s.openNode
    refine ⟨heeded, ?_, head, fun t rest next respaced => ⟨rfl, ?_⟩⟩
    · rw [outline_openNode, heededAll_nil, List.nil_append] at outline
      change heededAll (closeNode s _ (rule s.openNode).2).outline = _
      rw [outline_closeNode, heededAll_append, heededAll_cons, heededAll_nil, List.append_nil,
        heeded_plain suffix bracket, outline]
    · obtain ⟨kind, inner⟩ := same t.openNode rest next respaced.openNode
      change (closeNode s _ _).Respaced rest (closeNode t _ _)
      rw [kind]
      exact respaced.closeNode _ inner

theorem node {rule : State → State} (kind : NodeKind)
    (plain : kind ∉ suffixKinds ∧ kind ∉ bracketKinds) (body : Oblivious matter rule) :
    Oblivious matter (State.node kind rule) :=
  @nodeOf _ (fun s => (kind, rule s)) (fun _ => plain) (body.map fun _ => kind)

/-- More of a node around the shape that was read last. -/
theorem wrap {rule : State → State} (kind : NodeKind)
    (plain : kind ∉ suffixKinds ∧ kind ∉ bracketKinds) (body : Oblivious matter rule) :
    Oblivious matter (State.wrap kind rule) where
  runs s := (body.runs s.precedeNode).closeWrap kind
  same s mode clean := by
    obtain ⟨heeded, outline, head, same⟩ :=
      body.same s.precedeNode mode ⟨clean.reports, clean.endReported⟩
    refine ⟨heeded, ?_, head, fun t rest next respaced => ⟨rfl, ?_⟩⟩
    · rw [outline_precedeNode, heededAll_nil, List.nil_append] at outline
      change heededAll (closeWrap s kind (rule s.precedeNode)).outline = _
      rw [outline_closeWrap, heededAll_wrapLast plain.1 plain.2, outline]
    · exact respaced.closeWrap kind (same t.precedeNode rest next respaced.precedeNode).2

/-- Where line breaks do not matter, none of those inside is heeded. -/
theorem same_of_enclosed (inside : ObliviousWith false rule) (empty : s.outline = [])
    (clean : (rule (s.pushBreaks false)).2.Clean)
    (length : heeded.length = countAll (rule (s.pushBreaks false)).2.outline)
    (respaced : s.Respaced (weigh matter heeded ++ rest) t) :
    (rule (t.pushBreaks false)).1 = (rule (s.pushBreaks false)).1 ∧
      (rule (s.pushBreaks false)).2.popBreaks.Respaced rest
        (rule (t.pushBreaks false)).2.popBreaks := by
  obtain ⟨heeded', outline, -, same⟩ := inside.same (s.pushBreaks false) rfl clean
  have lengths : heeded.length = heeded'.length := by
    have start : (s.pushBreaks false).outline = [] := empty
    rw [length, ← length_heededAll, outline, start, heededAll_nil, List.nil_append]
  have muted : (s.pushBreaks false).Respaced (weigh false heeded' ++ rest) (t.pushBreaks false) :=
    { respaced.pushBreaks false with ahead := respaced.ahead.mute lengths }
  obtain ⟨answer, respaced⟩ := same _ rest nofun muted
  exact ⟨answer, respaced.popBreaks⟩

/-- A node of brackets and what they enclose. -/
theorem nodeOf_enclosed {rule inside : State → NodeKind × State}
    (split : ∀ s, rule s =
      ((inside (s.pushBreaks false)).1, (inside (s.pushBreaks false)).2.popBreaks))
    (body : ObliviousWith false inside) : Oblivious matter (State.nodeOf rule) where
  runs s := by
    change Runs s (closeNode s (rule s.openNode).1 (rule s.openNode).2)
    rw [split]
    exact (body.runs _).popBreaks.closeNode _
  same s _ clean := by
    change (closeNode s (rule s.openNode).1 (rule s.openNode).2).Clean at clean
    rw [split] at clean
    refine ⟨Outline.heeded (.node (rule s.openNode).1 (rule s.openNode).2.outline), ?_,
      headD_heeded _, fun t rest _ respaced => ⟨rfl, ?_⟩⟩
    · change heededAll (closeNode s _ (rule s.openNode).2).outline = _
      rw [outline_closeNode, heededAll_append, heededAll_cons, heededAll_nil, List.append_nil]
    · have length := length_heeded (.node (rule s.openNode).1 (rule s.openNode).2.outline)
      obtain ⟨kind, inner⟩ := body.same_of_enclosed (outline_openNode s)
        ⟨clean.reports, clean.endReported⟩ (length.trans (by rw [split]; rfl)) respaced.openNode
      change (closeNode s (rule s.openNode).1 (rule s.openNode).2).Respaced rest
        (closeNode t (rule t.openNode).1 (rule t.openNode).2)
      rw [split, split, kind]
      exact respaced.closeNode _ inner

theorem node_enclosed {rule inside : State → State} (kind : NodeKind)
    (split : ∀ s, rule s = s.withBreaks false inside) (body : Oblivious false inside) :
    Oblivious matter (State.node kind rule) :=
  @nodeOf_enclosed _ (fun s => (kind, rule s)) (fun s => (kind, inside s))
    (fun s => by rw [split]; rfl) (body.map fun _ => kind)

/-- Brackets and what they enclose, after something else. -/
theorem wrap_enclosed {rule inside : State → State} (kind : NodeKind) (suffix : kind ∈ suffixKinds)
    (split : ∀ s, rule s = s.withBreaks false inside) (body : Oblivious false inside) :
    Oblivious matter (State.wrap kind rule) where
  runs s := by
    change Runs s (closeWrap s kind (rule s.precedeNode))
    rw [split]
    exact (body.runs _).popBreaks.closeWrap kind
  same s _ clean := by
    change (closeWrap s kind (rule s.precedeNode)).Clean at clean
    rw [split] at clean
    obtain ⟨added, outline, length, head⟩ :=
      exists_heededAll_wrapLast suffix (rule s.precedeNode).outline s.outline
    refine ⟨added, ?_, head, fun t rest _ respaced => ⟨rfl, ?_⟩⟩
    · change heededAll (closeWrap s kind (rule s.precedeNode)).outline = _
      rw [outline_closeWrap, outline]
    · obtain ⟨-, inner⟩ := body.same_of_enclosed (outline_precedeNode s)
        ⟨clean.reports, clean.endReported⟩ (length.trans (by rw [split]; rfl)) respaced.precedeNode
      change (closeWrap s kind (rule s.precedeNode)).Respaced rest
        (closeWrap t kind (rule t.precedeNode))
      rw [split, split]
      exact respaced.closeWrap kind inner

theorem nested {rule : State → State} (body : Oblivious matter rule) :
    Oblivious matter (State.nested rule) where
  runs s := (body.runs _).of_context
  same s mode clean := by
    obtain ⟨heeded, outline, head, same⟩ :=
      body.same { s with depth := s.depth + 1 } mode ⟨clean.reports, clean.endReported⟩
    refine ⟨heeded, outline, head, fun t rest next respaced => ⟨rfl, ?_⟩⟩
    exact (same { t with depth := t.depth + 1 } rest next respaced.of_context).2.of_context

theorem during {rule : State → State} (phase : Phase) (body : Oblivious matter rule) :
    Oblivious matter (State.during phase rule) where
  runs s := (body.runs _).of_context
  same s mode clean := by
    obtain ⟨heeded, outline, head, same⟩ :=
      body.same { s with phases := phase :: s.phases } mode ⟨clean.reports, clean.endReported⟩
    refine ⟨heeded, outline, head, fun t rest next respaced => ⟨rfl, ?_⟩⟩
    exact (same { t with phases := phase :: t.phases } rest next respaced.of_context).2.of_context

/-- Line breaks matter as they did before. -/
theorem withBreaks {rule : State → State} (body : Oblivious matter rule) :
    Oblivious matter (State.withBreaks matter rule) where
  runs s := (body.runs _).popBreaks
  same s _ clean := by
    obtain ⟨heeded, outline, head, same⟩ :=
      body.same (s.pushBreaks matter) rfl ⟨clean.reports, clean.endReported⟩
    refine ⟨heeded, outline, head, fun t rest next respaced => ⟨rfl, ?_⟩⟩
    exact (same (t.pushBreaks matter) rest next (respaced.pushBreaks matter)).2.popBreaks

variable {step : State → Bool × State}

theorem runs_repeatStep (each : ObliviousWith matter step) (s : State) :
    Runs s (s.repeatStep step) :=
  repeatStep_invariant (motive := fun s' => Runs s s') (fun _ run => run.trans (each.runs _)) s
    (.refl s)

theorem checked (each : ObliviousWith matter step) : ObliviousWith matter (checkedStep step) where
  runs := each.runs
  same s mode clean := by
    obtain ⟨heeded, outline, head, same⟩ := each.same s mode clean
    refine ⟨heeded, outline, head, fun t rest next respaced => ?_⟩
    obtain ⟨answer, after⟩ := same t rest next respaced
    refine ⟨?_, after⟩
    simp only [checkedStep, answer, ← after.ahead.length_eq, ← respaced.ahead.length_eq]

/-- Loops are oblivious if their steps are. -/
theorem repeatStep (each : ObliviousWith matter step) :
    Oblivious matter (State.repeatStep step) where
  runs := each.runs_repeatStep
  same s := by
    have unfolded : (fun s => ((), s.repeatStep step)) = fun s =>
        ((), if (checkedStep step s).1 then (checkedStep step s).2.repeatStep step
          else (checkedStep step s).2) := by
      funext s
      rw [State.repeatStep, checkedStep]
      simp only [decide_eq_true_eq]
    induction size : s.ahead.length using Nat.strongRecOn generalizing s with
    | _ n ih =>
    rw [unfolded]
    refine @ObliviousAt.bind _ _ _ _ _ (fun more s => ((), if more then s.repeatStep step else s))
      (each.checked.same s) (each.runs s) ?_ ?_
    all_goals cases more : (checkedStep step s).1
    · exact .pure ()
    · have shorter := (of_decide_eq_true more).2
      exact ih _ (size ▸ shorter) _ rfl
    · exact .refl _
    · exact each.runs_repeatStep _

end ObliviousWith

namespace Oblivious

variable {rule rule' : State → State}

theorem id : Oblivious matter fun s => s := .pure ()

theorem comp (second : Oblivious matter rule') (first : Oblivious matter rule) :
    Oblivious matter fun s => rule' (rule s) :=
  first.bind fun _ => second

theorem ite {test : State → Bool} (tested : Coupling.Tested test) (yes : Oblivious matter rule)
    (no : Oblivious matter rule') :
    Oblivious matter fun s => if test s then rule s else rule' s := by
  have each (answer : Bool) : Oblivious matter fun s => if answer then rule s else rule' s := by
    cases answer with
    | false => exact no
    | true => exact yes
  have chosen := ObliviousWith.byTest tested each
  exact chosen

/-- A fixed answer to an oblivious rule. -/
theorem always (answer : α) (oblivious : Oblivious matter rule) :
    ObliviousWith matter fun s => (answer, rule s) := oblivious.map fun _ => answer

/-- A rule, and then one that answers. -/
theorem andThen {rule' : State → α × State} (first : Oblivious matter rule)
    (second : ObliviousWith matter rule') : ObliviousWith matter fun s => rule' (rule s) :=
  first.bind fun _ => second

theorem bump : Oblivious matter State.bump where
  runs := Runs.bump
  same s _ _ := by
    by_cases none : s.ahead = []
    · refine ⟨[], ?_, rfl, fun t rest _ respaced => ⟨rfl, ?_⟩⟩
      · rw [outline_bump, if_pos none, List.append_nil, List.append_nil]
      · have stays : s.bump = s := by rw [State.bump, none]
        have stays' : t.bump = t := by rw [State.bump, respaced.nil_iff.mp none]
        change s.bump.Respaced rest t.bump
        rw [stays, stays']
        exact respaced
    · refine ⟨[true], ?_, rfl, fun t rest _ respaced => ⟨rfl, respaced.bump none⟩⟩
      rw [outline_bump, if_neg none, heededAll_append, heededAll_cons, heeded_token,
        heededAll_nil, List.append_nil]

theorem of_reported (runs : ∀ s, Runs s (rule s)) (reported : ∀ s, ¬ (rule s).Clean) :
    Oblivious matter rule := ObliviousWith.of_reported runs reported

theorem unexpected (expected : String) : Oblivious matter (State.unexpected expected) :=
  of_reported (Runs.unexpected expected) (Accepts.not_clean_unexpected expected)

theorem missing (expected : String) : Oblivious matter (State.missing expected) :=
  of_reported (Runs.missing expected) (Accepts.not_clean_missing expected)

theorem recover (expected : String) (recovery : KindSet) :
    Oblivious matter (State.recover expected recovery) :=
  of_reported (Runs.of_coupled (.recover expected recovery))
    (Accepts.not_clean_recover expected recovery)

theorem placeholder (expected : String) : Oblivious matter (State.placeholder expected) :=
  of_reported (Runs.of_coupled (.placeholder expected)) (Accepts.not_clean_placeholder expected)

theorem absent (expected : String) (recovery : KindSet) :
    Oblivious matter (State.absent expected recovery) :=
  of_reported (Runs.of_coupled (.absent expected recovery))
    (Accepts.not_clean_absent expected recovery)

theorem recoverTooDeep (limit : Nat) : Oblivious matter (State.recoverTooDeep limit) :=
  of_reported (Runs.of_coupled (.recoverTooDeep limit)) (Accepts.not_clean_recoverTooDeep limit)

theorem eat (kind : TokenKind) : Oblivious matter (State.eat kind) :=
  ite (Coupling.tested_isAt kind) bump id

theorem expect (kind : TokenKind) : Oblivious matter (State.expect kind) :=
  ite (Coupling.tested_isAt kind) bump (missing kind.describe)

end Oblivious

end LosslessSyntax.Grammar

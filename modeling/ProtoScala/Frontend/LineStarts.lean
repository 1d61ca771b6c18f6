import ProtoScala.Frontend.LexerRuns

/-!
# The line-start flag

The flag of a token compares its line with the line where the previous token
starts. The two differ by the line breaks of the trivia between the tokens and by
those inside the previous token itself, so the flag is wrong exactly for a token
that follows a token of several lines on its last line.
-/

namespace ProtoScala.Frontend.LineStarts

open ProtoScala.Frontend.Lexer
open ProtoScala.Frontend.Lexer.Cursor
open ProtoScala.Frontend.LexerRuns
open ProtoScala.Frontend.Layout (SourcePos)

set_option autoImplicit false

/-- The text between the previous token and the one `next` makes. -/
def triviaText (lex : LexerState) : Bytes := lex.unclaimed ++ lex.cursor.textTo (tokenStart lex)

/-- The text of the token `next` makes. -/
def lexemeText (lex : LexerState) : Bytes := (tokenStart lex).textTo (next lex).2.cursor

def breaksLine (text : Bytes) : Prop := byte '\n' ∈ text

instance (text : Bytes) : Decidable (breaksLine text) := inferInstanceAs (Decidable (_ ∈ _))

/-- Every token of the source is flagged exactly when it is the first or a line
break stands between it and the previous token. -/
def LineStartsRight (source : Bytes) : Prop :=
  ∀ i lex, (lexerStates source)[i]? = some lex → (next lex).1.kind ≠ .endOfFile →
    ((next lex).1.firstOnLine = true ↔ i = 0 ∨ breaksLine (triviaText lex))

/-- A token on the last line of the previous one: the previous token has one line,
and an error is reported where its text starts. -/
def FollowsOneLine (lex lex' : LexerState) : Prop :=
  (next lex').1.kind ≠ .endOfFile → ¬breaksLine (triviaText lex') →
    ¬breaksLine (lexemeText lex) ∧ (next lex').1.pos.line = (tokenStart lex').pos.line

def TokensFollowOneLine (source : Bytes) : Prop :=
  ∀ i lex lex', (lexerStates source)[i]? = some lex → (lexerStates source)[i + 1]? = some lex' →
    FollowsOneLine lex lex'

theorem stepped_line (text : Bytes) (pos : SourcePos) :
    (text.foldl stepped pos).line = pos.line + text.count (byte '\n') := by
  induction text generalizing pos with
  | nil => simp
  | cons c text induction =>
      rw [List.foldl_cons, induction]
      by_cases newline : c = byte '\n'
      · have line : (stepped pos c).line = pos.line + 1 := by simp [stepped, newline]
        rw [line, newline, List.count_cons_self]
        omega
      · have line : (stepped pos c).line = pos.line := by
          unfold stepped
          rw [if_neg newline]
          split_ifs <;> rfl
        rw [line, List.count_cons_of_ne newline]

theorem line_of_reaches {s s' : Cursor} (reaches : Reaches s s') :
    s'.pos.line = s.pos.line + (s.textTo s').count (byte '\n') := by
  obtain ⟨count, rfl⟩ := reaches
  rw [text_to_past]
  exact stepped_line _ _

theorem line_le {s s' : Cursor} (reaches : Reaches s s') : s.pos.line ≤ s'.pos.line := by
  have line := line_of_reaches reaches
  omega

theorem breaks_line_iff {text : Bytes} : breaksLine text ↔ 0 < text.count (byte '\n') :=
  List.count_pos_iff.symm

/-- The flag counts the line breaks between the start of the previous token and
the place where the token is reported. -/
theorem flag_iff {lex : LexerState} (ready : lex.done = false) (fresh : lex.unclaimed = [])
    (token : (next lex).1.kind ≠ .endOfFile) (before : lex.lastTokenLine ≤ lex.cursor.pos.line) :
    (next lex).1.firstOnLine = true ↔
      breaksLine (triviaText lex) ∨ lex.lastTokenLine < lex.cursor.pos.line ∨
        (next lex).1.pos.line ≠ (tokenStart lex).pos.line := by
  have scanned := next_scanned ready
  obtain ⟨s, reached, position⟩ := scanned.position
  have start := line_of_reaches scanned.start
  have reported := line_le reached
  rw [scanned.flag token, position, bne_iff_ne, breaks_line_iff, triviaText, fresh, List.nil_append]
  omega

theorem first_flagged (source : Bytes) {lex : LexerState}
    (first : (lexerStates source)[0]? = some lex) (token : (next lex).1.kind ≠ .endOfFile) :
    (next lex).1.firstOnLine = true := by
  have start : LexerState.ofSource source = lex := by
    unfold lexerStates statesFrom at first
    simpa using first
  subst start
  have scanned := next_scanned (show (LexerState.ofSource source).done = false from rfl)
  obtain ⟨s, reached, position⟩ := scanned.position
  have line := line_le (scanned.start.trans reached)
  rw [scanned.flag token, position, bne_iff_ne]
  change (1 : Int) ≤ s.pos.line at line
  change s.pos.line ≠ 0
  omega

/-- Where the flag of the next token is right. -/
theorem following_flag_iff {lex : LexerState} (ready : lex.done = false)
    (goesOn : (next lex).1.kind ≠ .endOfFile ∧ (next lex).1.kind ≠ .error) :
    ((next (next lex).2).1.kind ≠ .endOfFile →
      ((next (next lex).2).1.firstOnLine = true ↔ breaksLine (triviaText (next lex).2))) ↔
    FollowsOneLine lex (next lex).2 := by
  have scanned := next_scanned ready
  obtain ⟨stillReady, line, fresh, -⟩ := scanned.goesOn goesOn.1 goesOn.2
  have behind := line_of_reaches scanned.behind
  have lexeme : breaksLine (lexemeText lex) ↔
      (next lex).2.lastTokenLine < (next lex).2.cursor.pos.line := by
    rw [breaks_line_iff, lexemeText, line]
    omega
  have before : (next lex).2.lastTokenLine ≤ (next lex).2.cursor.pos.line := by omega
  unfold FollowsOneLine
  constructor
  · intro right token none
    have flag := flag_iff stillReady fresh token before
    rw [right token] at flag
    rw [lexeme]
    tauto
  · intro follows token
    have flag := flag_iff stillReady fresh token before
    rw [flag, ← lexeme]
    by_cases spaced : breaksLine (triviaText (next lex).2)
    · exact iff_of_true (.inl spaced) spaced
    · obtain ⟨joined, same⟩ := follows token spaced
      refine iff_of_false ?_ spaced
      rintro (trivia | broken | moved)
      · exact spaced trivia
      · exact joined broken
      · exact moved same

theorem line_starts_right_of_follows {source : Bytes} :
    LineStartsRight source ↔ TokensFollowOneLine source := by
  constructor
  · intro right i lex lex' here after
    obtain ⟨ready, rfl, goesOn⟩ := states_step rfl here after
    refine (following_flag_iff ready goesOn).mp fun token => ?_
    simpa using right (i + 1) _ after token
  · intro follow i lex here token
    cases i with
    | zero => simpa using first_flagged source here token
    | succ i =>
        obtain ⟨previous, before⟩ : ∃ previous, (lexerStates source)[i]? = some previous := by
          obtain ⟨bound, -⟩ := List.getElem?_eq_some_iff.mp here
          exact ⟨_, List.getElem?_eq_getElem (Nat.lt_of_succ_lt bound)⟩
        have oneLine := follow i previous lex before here
        obtain ⟨ready, rfl, goesOn⟩ := states_step rfl before here
        simpa using (following_flag_iff ready goesOn).mpr oneLine token

/-- The flags of a source are right exactly when no token follows, on its last
line, a token of several lines. A token without the flag makes the layout pass
insert and close nothing for a line break. -/
theorem line_starts_right_iff (source : Bytes) :
    (LineStartsRight source ↔ TokensFollowOneLine source) ∧
    ∀ (pass : Layout.LayoutPass) (t : RawToken) (rest : List Layout.Token),
      t.firstOnLine = false → Layout.breakLine pass t.toToken rest = .ok pass := by
  refine ⟨line_starts_right_of_follows, fun pass t rest unflagged => ?_⟩
  unfold Layout.breakLine
  rw [unflagged, Bool.false_and]
  rfl

/-- A triple-quoted string of two lines and a name behind it. -/
def nameAfterString : Bytes := "\"\"\"\n\"\"\" x".toList.map byte

/-- The name behind the string is flagged, and the layout pass ends the statement
before it. -/
theorem name_after_string_flagged :
    (tokenizeAll nameAfterString).map (fun t => (t.kind, t.firstOnLine, t.pos.line)) =
      [(.stringLit, true, 1), (.identifier, true, 2), (.endOfFile, true, 2)] ∧
    (Layout.applyLayout ((tokenizeAll nameAfterString).map RawToken.toToken)).toOption.map
        (List.map Layout.Token.kind) =
      some [.stringLit, .newline, .identifier, .endOfFile] ∧
    ¬∀ source, LineStartsRight source := by
  refine ⟨by decide +kernel, by decide +kernel, fun right => ?_⟩
  have second : (lexerStates nameAfterString)[1]? =
      some (next (.ofSource nameAfterString)).2 := by decide +kernel
  rcases (right nameAfterString 1 _ second (by decide +kernel)).mp (by decide +kernel) with
    first | broken
  · cases first
  · exact absurd broken (by decide +kernel)

end ProtoScala.Frontend.LineStarts

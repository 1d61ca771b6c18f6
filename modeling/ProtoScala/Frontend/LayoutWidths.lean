import Mathlib
import ProtoScala.Frontend.Layout

/-!
# Layout depends only on the order of the indentation widths

Re-indenting applies a map to every line width and may shift the columns of
each line. Every function of the pass commutes with it, because a width is only
ever compared with another width of the file: the placeholder widths of
parentheses and of braces that no line break has settled are never read.
-/

namespace ProtoScala.Frontend.LayoutWidths

open ProtoScala.Frontend.Layout

set_option autoImplicit false

/-- A change of indentation: the new width of a line and how far its columns
move. -/
structure Reindent where
  width : Int → Int
  shift : Int → Int

namespace Reindent

variable (move : Reindent)

def pos (p : SourcePos) : SourcePos := { p with column := p.column + move.shift p.line }

def token (t : Token) : Token :=
  { t with
    lineIndent := move.width t.lineIndent
    pos := move.pos t.pos
    endPos := move.pos t.endPos }

def error : LayoutError → LayoutError
  | .lexError message p atEof => .lexError message (move.pos p) atEof
  | .invalidArgument message => .invalidArgument message

def result : Except LayoutError (List Token) → Except LayoutError (List Token)
  | .ok out => .ok (out.map move.token)
  | .error e => .error (move.error e)

end Reindent

/-- The region's width is the width of a line, not a placeholder. -/
def Settled (region : Region) : Prop :=
  region.kind = .topLevel ∨ region.kind = .indented ∨
    region.kind = .braces ∧ region.widthKnown = true

instance (region : Region) : Decidable (Settled region) := by
  unfold Settled
  infer_instance

namespace Reindent

variable (move : Reindent)

def region (r : Region) : Region :=
  { r with width := if Settled r then move.width r.width else r.width }

def pass (p : LayoutPass) : LayoutPass :=
  { p with
    out := p.out.map move.token
    inner := p.inner.map move.region
    topLevel := move.region p.topLevel }

def passResult : Except LayoutError LayoutPass → Except LayoutError LayoutPass
  | .ok p => .ok (move.pass p)
  | .error e => .error (move.error e)

end Reindent

/-- The widths of a pass come from the lines in `widths`, and an indented
region stands on a region whose width is settled. -/
structure Grounded (widths : Set Int) (p : LayoutPass) : Prop where
  top : p.topLevel.kind = .topLevel
  topWidth : p.topLevel.width ∈ widths
  fromLines : ∀ r ∈ p.inner, Settled r → r.width ∈ widths
  stands : p.inner.IsChain fun upper lower => upper.kind = .indented → Settled lower

section

variable {move : Reindent} {widths : Set Int}

@[simp] theorem token_kind (t : Token) : (move.token t).kind = t.kind := rfl
@[simp] theorem token_text (t : Token) : (move.token t).text = t.text := rfl
@[simp] theorem token_firstOnLine (t : Token) : (move.token t).firstOnLine = t.firstOnLine := rfl
@[simp] theorem token_line (t : Token) : (move.token t).pos.line = t.pos.line := rfl
@[simp] theorem token_pos (t : Token) : (move.token t).pos = move.pos t.pos := rfl
@[simp] theorem token_lineIndent (t : Token) :
    (move.token t).lineIndent = move.width t.lineIndent := rfl
@[simp] theorem region_kind (r : Region) : (move.region r).kind = r.kind := rfl
@[simp] theorem region_pending (r : Region) : (move.region r).pending = r.pending := rfl
@[simp] theorem region_opener (r : Region) : (move.region r).opener = r.opener := rfl
@[simp] theorem region_condition (r : Region) : (move.region r).condition = r.condition := rfl
@[simp] theorem region_widthKnown (r : Region) :
    (move.region r).widthKnown = r.widthKnown := rfl
@[simp] theorem region_provisional (r : Region) :
    (move.region r).provisional = r.provisional := rfl
@[simp] theorem pass_prevKind (p : LayoutPass) : (move.pass p).prevKind = p.prevKind := rfl
@[simp] theorem pass_prevClosesCondition (p : LayoutPass) :
    (move.pass p).prevClosesCondition = p.prevClosesCondition := rfl
@[simp] theorem pass_extensionHeaderLine (p : LayoutPass) :
    (move.pass p).extensionHeaderLine = p.extensionHeaderLine := rfl

theorem region_width {r : Region} (settled : Settled r) :
    (move.region r).width = move.width r.width := by
  simp [Reindent.region, settled]

@[simp] theorem pass_back (p : LayoutPass) : (move.pass p).back = move.region p.back := by
  unfold LayoutPass.back Reindent.pass
  cases p.inner <;> rfl

theorem pass_setBack (p : LayoutPass) (r : Region) :
    (move.pass p).setBack (move.region r) = move.pass (p.setBack r) := by
  unfold LayoutPass.setBack
  cases shape : p.inner <;> simp [Reindent.pass, shape]

theorem pass_setPending (p : LayoutPass) (pending : List TokenKind) :
    (move.pass p).setPending pending = move.pass (p.setPending pending) := by
  rw [LayoutPass.setPending, LayoutPass.setPending, ← pass_setBack, pass_back]
  rfl

theorem pass_popRegion (p : LayoutPass) : (move.pass p).popRegion = move.pass p.popRegion := by
  simp [LayoutPass.popRegion, Reindent.pass]

theorem pass_pushRegion (p : LayoutPass) (r : Region) :
    (move.pass p).pushRegion (move.region r) = move.pass (p.pushRegion r) := rfl

theorem pass_synth (p : LayoutPass) (k : TokenKind) (here : Token) :
    synth (move.pass p) k (move.token here) = move.pass (synth p k here) := by
  unfold synth
  split_ifs
  · rw [pass_setPending]
    simp only [Reindent.pass, List.map_append]
    rfl
  · simp only [Reindent.pass, List.map_append]
    rfl

theorem pass_satisfyPending (p : LayoutPass) (closer : TokenKind) :
    satisfyPending (move.pass p) closer =
      (move.pass (satisfyPending p closer).1, (satisfyPending p closer).2) := by
  unfold satisfyPending
  rw [pass_back, region_pending]
  cases partnerRemoved closer p.back.pending with
  | none => rfl
  | some older => simp only [pass_setPending]

theorem pass_closeByKeyword (p : LayoutPass) (t : Token) :
    closeByKeyword (move.pass p) (move.token t) = move.pass (closeByKeyword p t) := by
  unfold closeByKeyword
  rw [token_kind, pass_satisfyPending]
  rcases satisfyPending p t.kind with ⟨satisfied, found⟩
  cases found with
  | true => rfl
  | false =>
      simp only [token_firstOnLine, pass_back, region_kind, region_opener]
      split_ifs
      · rfl
      · rw [pass_popRegion, pass_synth, pass_satisfyPending]
      · rfl

theorem pass_conditionClosed (p : LayoutPass) :
    conditionClosed (move.pass p) = move.pass (conditionClosed p) := by
  unfold conditionClosed
  rw [pass_back, region_pending]
  cases p.back.pending with
  | nil => rfl
  | cons keyword older =>
      simp only
      split_ifs
      · exact pass_setPending p _
      · rfl

/-- The popping loops commute when their test does on indented regions. -/
theorem pass_popIndentedWhile (p : LayoutPass) (more more' : Region → Bool) (here : Token)
    (same : ∀ r ∈ p.inner, r.kind = .indented → more' (move.region r) = more r) :
    popIndentedWhile (move.pass p) more' (move.token here) =
      move.pass (popIndentedWhile p more here) := by
  have leaves : ∀ r ∈ p.inner,
      ((move.region r).kind == .indented && more' (move.region r)) =
        (r.kind == .indented && more r) := by
    intro r member
    by_cases indented : r.kind = .indented
    · rw [same r member indented, region_kind]
    · rw [region_kind, beq_false_of_ne indented, Bool.false_and, Bool.false_and]
  have taken : ∀ inner : List Region, (∀ r ∈ inner,
      ((move.region r).kind == .indented && more' (move.region r)) =
        (r.kind == .indented && more r)) →
      (inner.map move.region).dropWhile (fun r => r.kind == .indented && more' r) =
          (inner.dropWhile fun r => r.kind == .indented && more r).map move.region ∧
        ((inner.map move.region).takeWhile fun r => r.kind == .indented && more' r).length =
          (inner.takeWhile fun r => r.kind == .indented && more r).length := by
    intro inner
    induction inner with
    | nil => simp
    | cons r outer induction =>
        intro agree
        have head := agree r List.mem_cons_self
        have tail := induction fun r member => agree r (List.mem_cons_of_mem _ member)
        simp only [List.map_cons, List.dropWhile_cons, List.takeWhile_cons, head]
        split_ifs
        · exact ⟨tail.1, by simpa using tail.2⟩
        · exact ⟨rfl, rfl⟩
  have popped := taken p.inner leaves
  have emptied : synthToken .outdent (move.token here) =
      move.token (synthToken .outdent here) := rfl
  simp only [popIndentedWhile, Reindent.pass, popped.1, popped.2, List.map_append,
    List.map_replicate, emptied]

/-! ## Where the widths come from -/

theorem grounded_setBack {p : LayoutPass} (grounded : Grounded widths p) (r : Region)
    (kind : r.kind = p.back.kind) (width : Settled r → r.width ∈ widths) :
    Grounded widths (p.setBack r) := by
  have backEq := kind
  unfold LayoutPass.back at backEq
  unfold LayoutPass.setBack
  cases shape : p.inner with
  | nil =>
      rw [shape] at backEq
      have top : r.kind = .topLevel := backEq.trans grounded.top
      exact ⟨top, width (Or.inl top), by simp, by simp⟩
  | cons head outer =>
      rw [shape] at backEq
      have lines := grounded.fromLines
      have stands := grounded.stands
      rw [shape] at lines stands
      refine ⟨grounded.top, grounded.topWidth, ?_, ?_⟩
      · intro other member
        rcases List.mem_cons.mp member with rfl | later
        · exact width
        · exact lines other (List.mem_cons_of_mem _ later)
      · refine stands.imp_head ?_
        intro lower holds indented
        exact holds (backEq.symm.trans indented)

theorem back_width {p : LayoutPass} (grounded : Grounded widths p) (settled : Settled p.back) :
    p.back.width ∈ widths := by
  unfold LayoutPass.back at *
  cases shape : p.inner with
  | nil => exact grounded.topWidth
  | cons head outer =>
      rw [shape] at settled
      exact grounded.fromLines head (by simp [shape]) settled

theorem grounded_setPending {p : LayoutPass} (grounded : Grounded widths p)
    (pending : List TokenKind) : Grounded widths (p.setPending pending) :=
  grounded_setBack grounded _ rfl fun settled => back_width grounded settled

theorem grounded_synth {p : LayoutPass} (grounded : Grounded widths p) (k : TokenKind)
    (here : Token) : Grounded widths (synth p k here) := by
  have cleared := grounded_setPending grounded []
  unfold synth
  split_ifs
  · exact ⟨cleared.top, cleared.topWidth, cleared.fromLines, cleared.stands⟩
  · exact ⟨grounded.top, grounded.topWidth, grounded.fromLines, grounded.stands⟩

theorem grounded_suffix {p : LayoutPass} (grounded : Grounded widths p) {inner : List Region}
    (suffix : inner <:+ p.inner) (out : List Token) :
    Grounded widths { p with inner := inner, out := out } :=
  ⟨grounded.top, grounded.topWidth, fun r member => grounded.fromLines r (suffix.subset member),
    grounded.stands.suffix suffix⟩

theorem grounded_popIndentedWhile {p : LayoutPass} (grounded : Grounded widths p)
    (more : Region → Bool) (here : Token) : Grounded widths (popIndentedWhile p more here) :=
  grounded_suffix grounded (List.dropWhile_suffix _) _

theorem grounded_popRegion {p : LayoutPass} (grounded : Grounded widths p) :
    Grounded widths p.popRegion :=
  grounded_suffix grounded (List.tail_suffix _) p.out

theorem grounded_pushRegion {p : LayoutPass} (grounded : Grounded widths p) (r : Region)
    (width : Settled r → r.width ∈ widths) (stands : r.kind = .indented → Settled p.back) :
    Grounded widths (p.pushRegion r) := by
  refine ⟨grounded.top, grounded.topWidth, ?_, ?_⟩
  · intro other member
    rcases List.mem_cons.mp member with rfl | later
    · exact width
    · exact grounded.fromLines other later
  · refine grounded.stands.cons ?_
    intro lower isHead indented
    have settled := stands indented
    rw [LayoutPass.back] at settled
    cases shape : p.inner with
    | nil => simp [shape] at isHead
    | cons head outer =>
        rw [shape] at settled
        obtain rfl : head = lower := by simpa [shape] using isHead
        exact settled

theorem grounded_satisfyPending {p : LayoutPass} (grounded : Grounded widths p)
    (closer : TokenKind) : Grounded widths (satisfyPending p closer).1 := by
  unfold satisfyPending
  split
  · exact grounded
  · exact grounded_setPending grounded _

theorem grounded_closeByKeyword {p : LayoutPass} (grounded : Grounded widths p) (t : Token) :
    Grounded widths (closeByKeyword p t) := by
  unfold closeByKeyword
  split
  · next satisfied equation =>
      have after := grounded_satisfyPending grounded t.kind
      rw [equation] at after
      exact after
  · split_ifs
    · exact grounded
    · exact grounded_satisfyPending
        (grounded_synth (grounded_popRegion grounded) .outdent t) t.kind
    · exact grounded

theorem grounded_conditionClosed {p : LayoutPass} (grounded : Grounded widths p) :
    Grounded widths (conditionClosed p) := by
  unfold conditionClosed
  split
  · exact grounded
  · split_ifs
    · exact grounded_setPending grounded _
    · exact grounded

theorem grounded_settleWidth {p : LayoutPass} (grounded : Grounded widths p) {t : Token}
    (line : t.lineIndent ∈ widths) : Grounded widths (settleWidth p t) := by
  unfold settleWidth
  split_ifs
  · exact grounded_setBack grounded _ rfl fun _ => line
  · refine grounded_setBack grounded _ rfl fun settled => ?_
    dsimp only
    split_ifs
    · exact line
    · exact back_width grounded settled
  · exact grounded

/-- Outside parentheses and brackets a line break settles the innermost
region. -/
theorem settled_settleWidth {p : LayoutPass} (t : Token)
    (parens : p.back.kind ≠ .parens) (brackets : p.back.kind ≠ .brackets) :
    Settled (settleWidth p t).back := by
  have backSet : ∀ r : Region, (p.setBack r).back = r := by
    intro r
    unfold LayoutPass.setBack LayoutPass.back
    cases p.inner <;> rfl
  have known : ¬(p.back.kind = .braces ∧ p.back.widthKnown = false) → Settled p.back := by
    intro unknown
    unfold Settled
    cases kind : p.back.kind <;> simp_all
  unfold settleWidth
  split_ifs with unknown
  · rw [backSet]
    exact Or.inr (Or.inr ⟨unknown.1, rfl⟩)
  · rw [backSet]
    exact known unknown
  · exact known unknown

theorem settled_after_pop {p : LayoutPass} (grounded : Grounded widths p)
    (settled : Settled p.back) (more : Region → Bool) (here : Token) :
    Settled (popIndentedWhile p more here).back := by
  have top : Settled p.topLevel := Or.inl grounded.top
  have stands := grounded.stands
  unfold LayoutPass.back popIndentedWhile at *
  dsimp only
  generalize p.inner = inner at *
  induction inner with
  | nil => exact top
  | cons r outer induction =>
      simp only [List.dropWhile_cons]
      split_ifs with leaves
      · have indented : r.kind = .indented := by
          simp only [Bool.and_eq_true, beq_iff_eq] at leaves
          exact leaves.1
        refine induction ?_ (List.isChain_of_isChain_cons stands)
        cases outer with
        | nil => exact top
        | cons below rest => exact (List.isChain_cons_cons.mp stands).1 indented
      · exact settled

theorem grounded_dedent {p next : LayoutPass} (grounded : Grounded widths p) {t : Token}
    {rest : List Token} (ok : dedent p t rest = .ok next) : Grounded widths next := by
  have popped := grounded_popIndentedWhile grounded
    (fun region => decide (t.lineIndent < region.width)) t
  unfold dedent at ok
  dsimp only at ok
  split_ifs at ok
  · cases ok
    exact grounded_synth popped .newline t
  · cases ok
    exact popped

theorem grounded_lineBreak {p next : LayoutPass} (grounded : Grounded widths p) {t : Token}
    {rest : List Token} (line : t.lineIndent ∈ widths) (ok : lineBreak p t rest = .ok next) :
    Grounded widths next := by
  unfold lineBreak at ok
  by_cases enclosed : p.back.kind = .parens ∨ p.back.kind = .brackets
  · rw [if_pos enclosed] at ok
    cases ok
    exact grounded
  · rw [if_neg enclosed] at ok
    push Not at enclosed
    have settledPass := grounded_settleWidth grounded line
    have settled := settled_settleWidth t enclosed.1 enclosed.2
    dsimp only at ok
    split_ifs at ok
    · cases ok
      exact grounded_synth
        (grounded_pushRegion settledPass _ (fun _ => line) fun _ => settled) .indent t
    · exact grounded_dedent settledPass ok
    · cases ok
      exact grounded_synth settledPass .newline t
    · cases ok
      exact grounded_synth settledPass .newline t
    · cases ok
      exact settledPass

/-! ## The functions that compare widths -/

/-- The columns the leading-infix rule compares move together. -/
def Aligned (move : Reindent) (t : Token) (rest : List Token) : Prop :=
  rest ≠ [] ∧ ((lookahead rest).firstOnLine = false →
    move.shift (lookahead rest).pos.line = move.shift t.endPos.line)

theorem lookahead_map {rest : List Token} (nonempty : rest ≠ []) :
    lookahead (rest.map move.token) = move.token (lookahead rest) := by
  obtain ⟨next, more, rfl⟩ := List.exists_cons_of_ne_nil nonempty
  rfl

theorem token_isLeadingInfix {t : Token} {rest : List Token} (aligned : Aligned move t rest) :
    isLeadingInfix (move.token t) (rest.map move.token) = isLeadingInfix t rest := by
  unfold isLeadingInfix
  rw [lookahead_map aligned.1]
  simp only [token_kind, token_firstOnLine]
  by_cases first : (lookahead rest).firstOnLine = true
  · simp [first, Reindent.token]
  · have shift := aligned.2 (by simpa using first)
    have columns : (move.token (lookahead rest)).pos.column ≤ (move.token t).endPos.column ↔
        (lookahead rest).pos.column ≤ t.endPos.column := by
      simp only [Reindent.token, Reindent.pos, shift]
      omega
    simp only [columns]
    rfl

variable (mono : StrictMonoOn move.width widths)
include mono

theorem width_lt_iff {r : Region} {w : Int} (settled : Settled r) (region : r.width ∈ widths)
    (line : w ∈ widths) : move.width w < (move.region r).width ↔ w < r.width := by
  rw [region_width settled]
  exact mono.lt_iff_lt line region

theorem width_gt_iff {r : Region} {w : Int} (settled : Settled r) (region : r.width ∈ widths)
    (line : w ∈ widths) : move.width w > (move.region r).width ↔ w > r.width := by
  rw [region_width settled]
  exact mono.lt_iff_lt region line

theorem width_eq_iff {r : Region} {w : Int} (settled : Settled r) (region : r.width ∈ widths)
    (line : w ∈ widths) : move.width w = (move.region r).width ↔ w = r.width := by
  rw [region_width settled]
  exact ⟨mono.injOn line region, congrArg _⟩

theorem pass_settleWidth {p : LayoutPass} (grounded : Grounded widths p) {t : Token}
    (line : t.lineIndent ∈ widths) (parens : p.back.kind ≠ .parens)
    (brackets : p.back.kind ≠ .brackets) :
    settleWidth (move.pass p) (move.token t) = move.pass (settleWidth p t) := by
  unfold settleWidth
  simp only [pass_back, region_kind, region_widthKnown, region_provisional, token_lineIndent,
    pass_prevKind]
  by_cases unknown : p.back.kind = .braces ∧ p.back.widthKnown = false
  · rw [if_pos unknown, if_pos unknown, ← pass_setBack]
    congr 1
    simp [Reindent.region, Settled, unknown.1]
  · rw [if_neg unknown, if_neg unknown]
    by_cases provisional : p.back.provisional = true
    · have settled : Settled p.back := by
        unfold Settled
        cases kind : p.back.kind <;> simp_all
      have wider := width_gt_iff mono settled (back_width grounded settled) line
      have opener : conditionOpener (move.pass p) (move.token t) = conditionOpener p t := rfl
      have same : ∀ width, Settled { p.back with provisional := false, width := width } :=
        fun _ => settled
      rw [if_pos provisional, if_pos provisional, ← pass_setBack, opener]
      simp only [wider]
      congr 1
      simp only [Reindent.region, same, settled, if_true]
      split_ifs <;> rfl
    · rw [if_neg provisional, if_neg provisional]

theorem pass_dedent {p : LayoutPass} (grounded : Grounded widths p) (settled : Settled p.back)
    {t : Token} {rest : List Token} (line : t.lineIndent ∈ widths)
    (aligned : Aligned move t rest) :
    dedent (move.pass p) (move.token t) (rest.map move.token) =
      move.passResult (dedent p t rest) := by
  have popped : popIndentedWhile (move.pass p)
      (fun region => decide ((move.token t).lineIndent < region.width)) (move.token t) =
      move.pass (popIndentedWhile p (fun region => decide (t.lineIndent < region.width)) t) := by
    apply pass_popIndentedWhile
    intro r member indented
    have known : Settled r := Or.inr (Or.inl indented)
    have lower := width_lt_iff mono known (grounded.fromLines r member known) line
    simp only [token_lineIndent, lower]
  have below := grounded_popIndentedWhile grounded
    (fun region => decide (t.lineIndent < region.width)) t
  have belowSettled := settled_after_pop grounded settled
    (fun region => decide (t.lineIndent < region.width)) t
  have belowWidth := back_width below belowSettled
  have here := width_lt_iff mono settled (back_width grounded settled) line
  have lower := width_lt_iff mono belowSettled belowWidth line
  have higher := width_gt_iff mono belowSettled belowWidth line
  have equal := width_eq_iff mono belowSettled belowWidth line
  have equalBeq : (move.width t.lineIndent == (move.region (popIndentedWhile p
      (fun region => decide (t.lineIndent < region.width)) t).back).width) =
      (t.lineIndent == (popIndentedWhile p
        (fun region => decide (t.lineIndent < region.width)) t).back.width) := by
    rw [Bool.eq_iff_iff, beq_iff_eq, beq_iff_eq]
    exact equal
  unfold dedent
  dsimp only
  rw [popped]
  simp only [pass_back, pass_prevKind, region_kind, token_kind, token_lineIndent, here,
    lower, higher, bne, equalBeq, token_isLeadingInfix aligned]
  split_ifs
  · rfl
  · rfl
  · rw [pass_synth]
    rfl
  · rfl

theorem pass_lineBreak {p : LayoutPass} (grounded : Grounded widths p)
    {t : Token} {rest : List Token} (line : t.lineIndent ∈ widths)
    (aligned : Aligned move t rest) :
    lineBreak (move.pass p) (move.token t) (rest.map move.token) =
      move.passResult (lineBreak p t rest) := by
  unfold lineBreak
  rw [pass_back, region_kind]
  by_cases enclosed : p.back.kind = .parens ∨ p.back.kind = .brackets
  · rw [if_pos enclosed, if_pos enclosed]
    rfl
  · rw [if_neg enclosed, if_neg enclosed]
    push Not at enclosed
    have moved := pass_settleWidth mono grounded line enclosed.1 enclosed.2
    have grounded := grounded_settleWidth grounded line
    have settled := settled_settleWidth t enclosed.1 enclosed.2
    have width := back_width grounded settled
    have lower := width_lt_iff mono settled width line
    have higher := width_gt_iff mono settled width line
    have equal := width_eq_iff mono settled width line
    have opener : conditionOpener (move.pass p) (move.token t) = conditionOpener p t := rfl
    have pastBlank : (move.token t).pastBlankLine = t.pastBlankLine := rfl
    simp only [moved, opener, pass_back, pass_prevKind, token_kind, token_lineIndent, lower,
      higher, equal, token_isLeadingInfix aligned, pastBlank]
    split_ifs
    · rw [show indentedRegion (settleWidth p t).prevKind (conditionOpener p t)
          (move.width t.lineIndent) = move.region (indentedRegion (settleWidth p t).prevKind
            (conditionOpener p t) t.lineIndent) from rfl, pass_pushRegion, pass_synth]
      rfl
    · exact pass_dedent mono grounded settled line aligned
    · rw [pass_synth]
      rfl
    · rw [pass_synth]
      rfl
    · rfl

end

section

variable {move : Reindent} {widths : Set Int}

def Reindent.switched (move : Reindent) :
    Except LayoutError (LayoutPass × Bool) → Except LayoutError (LayoutPass × Bool)
  | .ok (p, closes) => .ok (move.pass p, closes)
  | .error e => .error (move.error e)

theorem pass_closeBracket (p : LayoutPass) (t : Token) :
    closeBracket (move.pass p) (move.token t) = move.switched (closeBracket p t) := by
  have popped : popIndentedWhile (move.pass p) (fun _ => true) (move.token t) =
      move.pass (popIndentedWhile p (fun _ => true) t) :=
    pass_popIndentedWhile p _ _ t fun _ _ _ => rfl
  unfold closeBracket
  rw [popped]
  simp only [pass_back, region_kind, token_kind, token_text]
  split_ifs
  · rfl
  · rw [pass_popRegion]
    rfl

theorem pass_closingToken (p : LayoutPass) (t : Token) {rest : List Token} (nonempty : rest ≠ []) :
    closingToken (move.pass p) (move.token t) (rest.map move.token) =
      move.switched (closingToken p t rest) := by
  unfold closingToken
  rw [pass_closeBracket]
  cases closeBracket p t with
  | error e => rfl
  | ok result =>
      obtain ⟨closed, condition⟩ := result
      have header : endsExtensionHeader (move.pass closed) (move.token t) (rest.map move.token)
          condition = endsExtensionHeader closed t rest condition := by
        unfold endsExtensionHeader
        rw [lookahead_map nonempty]
        rfl
      simp only [Reindent.switched, header]
      cases endsExtensionHeader closed t rest condition <;> cases condition <;>
        simp [← pass_conditionClosed] <;> rfl

theorem pass_switchKind (p : LayoutPass) (t : Token) {rest : List Token} (nonempty : rest ≠ []) :
    switchKind (move.pass p) (move.token t) (rest.map move.token) =
      move.switched (switchKind p t rest) := by
  unfold switchKind
  rw [token_kind]
  split
  · rfl
  · rfl
  · rw [lookahead_map nonempty]
    simp only [token_firstOnLine, Reindent.switched, ← pass_pushRegion, pass_prevKind]
    congr 3
    by_cases first : (lookahead rest).firstOnLine = true <;>
      simp [first, Reindent.region, Settled]
  · exact pass_closingToken p t nonempty
  · exact pass_closingToken p t nonempty
  · exact pass_closingToken p t nonempty
  · rw [pass_setPending]
    rfl
  · rw [pass_back, region_pending, pass_setPending]
    rfl
  · rw [pass_back, region_pending, pass_setPending]
    rfl
  · rw [pass_back, region_pending, pass_setPending]
    rfl
  · rw [pass_back, region_pending, pass_setPending]
    rfl
  · rfl

theorem grounded_closeBracket {p next : LayoutPass} (grounded : Grounded widths p) {t : Token}
    {condition : Bool} (ok : closeBracket p t = .ok (next, condition)) :
    Grounded widths next := by
  unfold closeBracket at ok
  dsimp only at ok
  split_ifs at ok
  cases ok
  exact grounded_popRegion (grounded_popIndentedWhile grounded (fun _ => true) t)

theorem grounded_switchKind {p next : LayoutPass} (grounded : Grounded widths p) {t : Token}
    {rest : List Token} {closes : Bool} (line : t.lineIndent ∈ widths)
    (ok : switchKind p t rest = .ok (next, closes)) : Grounded widths next := by
  have closing : ∀ {next : LayoutPass} {closes : Bool},
      closingToken p t rest = .ok (next, closes) → Grounded widths next := by
    intro next closes ok
    unfold closingToken at ok
    split at ok
    · cases ok
    · next closed condition equation =>
        have popped := grounded_closeBracket grounded equation
        have headed : Grounded widths { closed with extensionHeaderLine := -1 } :=
          ⟨popped.top, popped.topWidth, popped.fromLines, popped.stands⟩
        simp only [Except.ok.injEq, Prod.mk.injEq] at ok
        rw [← ok.1]
        split_ifs
        · exact grounded_conditionClosed headed
        · exact grounded_conditionClosed popped
        · exact headed
        · exact popped
  unfold switchKind at ok
  split at ok
  · cases ok
    exact grounded_pushRegion grounded _ (by simp [Settled]) (by simp)
  · cases ok
    exact grounded_pushRegion grounded _ (by simp [Settled]) (by simp)
  · cases ok
    refine grounded_pushRegion grounded _ ?_ (by simp)
    intro settled
    have sameLine : (lookahead rest).firstOnLine = false := by simpa [Settled] using settled
    simpa [sameLine] using line
  · exact closing ok
  · exact closing ok
  · exact closing ok
  · cases ok
    exact grounded_setPending grounded _
  · cases ok
    exact grounded_setPending grounded _
  · cases ok
    exact grounded_setPending grounded _
  · cases ok
    exact grounded_setPending grounded _
  · cases ok
    exact grounded_setPending grounded _
  · cases ok
    exact grounded

theorem pass_ordinaryToken (p : LayoutPass) (t : Token) {rest : List Token}
    (nonempty : rest ≠ []) :
    ordinaryToken (move.pass p) (move.token t) (rest.map move.token) =
      move.passResult (ordinaryToken p t rest) := by
  have emitted : emittedKind (move.token t) (rest.map move.token) = emittedKind t rest := by
    unfold emittedKind
    rw [lookahead_map nonempty]
    rfl
  have extension : startsExtension (move.token t) (rest.map move.token) =
      startsExtension t rest := by
    unfold startsExtension
    rw [lookahead_map nonempty]
    rfl
  unfold ordinaryToken
  rw [pass_closeByKeyword, pass_switchKind _ t nonempty, emitted, extension]
  cases switchKind (closeByKeyword p t) t rest with
  | error e => rfl
  | ok result =>
      obtain ⟨next, closes⟩ := result
      simp only [Reindent.switched, Reindent.passResult, Reindent.pass, List.map_append]
      rfl

theorem grounded_ordinaryToken {p next : LayoutPass} (grounded : Grounded widths p) {t : Token}
    {rest : List Token} (line : t.lineIndent ∈ widths) (ok : ordinaryToken p t rest = .ok next) :
    Grounded widths next := by
  unfold ordinaryToken at ok
  split at ok
  · cases ok
  · next switched closes equation =>
      have after := grounded_switchKind (grounded_closeByKeyword grounded t) line equation
      cases ok
      exact ⟨after.top, after.topWidth, after.fromLines, after.stands⟩

theorem pass_endMarkerAt (p : LayoutPass) (t : Token) {rest : List Token} (nonempty : rest ≠ []) :
    endMarkerAt (move.pass p) (move.token t) (rest.map move.token) =
      (endMarkerAt p t rest).map move.pass := by
  have after : ((rest.map move.token).tail.head?).getD (move.token (lookahead rest)) =
      move.token ((rest.tail.head?).getD (lookahead rest)) := by
    rw [← List.map_tail, List.head?_map]
    cases rest.tail.head? <;> rfl
  unfold endMarkerAt tryEndMarker
  dsimp only
  rw [lookahead_map nonempty, after]
  simp only [token_kind, token_text, token_firstOnLine, apply_ite (Option.map move.pass),
    Option.map_none, Option.map_some]
  simp only [Reindent.pass, List.map_append]
  rfl

theorem grounded_endMarkerAt {p next : LayoutPass} (grounded : Grounded widths p) {t : Token}
    {rest : List Token} (ok : endMarkerAt p t rest = some next) : Grounded widths next := by
  unfold endMarkerAt tryEndMarker at ok
  dsimp only at ok
  split_ifs at ok
  cases ok
  exact ⟨grounded.top, grounded.topWidth, grounded.fromLines, grounded.stands⟩

theorem pass_atEndOfFile (p : LayoutPass) (t : Token) :
    atEndOfFile (move.pass p) (move.token t) = move.result (atEndOfFile p t) := by
  have popped : popIndentedWhile (move.pass p) (fun _ => true) (move.token t) =
      move.pass (popIndentedWhile p (fun _ => true) t) :=
    pass_popIndentedWhile p _ _ t fun _ _ _ => rfl
  unfold atEndOfFile
  rw [popped]
  have unclosed : (move.pass (popIndentedWhile p (fun _ => true) t)).inner ≠ [] ↔
      (popIndentedWhile p (fun _ => true) t).inner ≠ [] := by
    simp [Reindent.pass]
  simp only [pass_back, region_kind, unclosed]
  split_ifs
  · rfl
  · simp [Reindent.result, Reindent.pass]

/-! ## Whole vectors -/

/-- A token that does not start its line has its columns moved with the token
before it. -/
def Coherent (move : Reindent) (raw : List Token) : Prop :=
  raw.IsChain fun t next =>
    next.firstOnLine = false → move.shift next.pos.line = move.shift t.endPos.line

def lineIndents (raw : List Token) : Set Int := {w | ∃ t ∈ raw, t.lineIndent = w}

/-- The vectors `applyLayout` does not reject as malformed. -/
def Ends (raw : List Token) : Prop :=
  ∃ last, raw.getLast? = some last ∧ (last.kind = .endOfFile ∨ last.kind = .error)

theorem aligned_of_coherent {t : Token} {rest : List Token} (nonempty : rest ≠ [])
    (coherent : Coherent move (t :: rest)) : Aligned move t rest := by
  obtain ⟨next, more, rfl⟩ := List.exists_cons_of_ne_nil nonempty
  exact ⟨nonempty, (List.isChain_cons_cons.mp coherent).1⟩

theorem ends_tail {t : Token} {rest : List Token} (ends : Ends (t :: rest))
    (eof : t.kind ≠ .endOfFile) (error : t.kind ≠ .error) : Ends rest := by
  obtain ⟨last, isLast, kind⟩ := ends
  cases rest with
  | nil =>
      obtain rfl : t = last := by simpa using isLast
      exact absurd kind (by simp [eof, error])
  | cons next more => exact ⟨last, by simpa using isLast, kind⟩

theorem ends_nonempty {rest : List Token} (ends : Ends rest) : rest ≠ [] := by
  rintro rfl
  obtain ⟨last, isLast, -⟩ := ends
  simp at isLast

theorem end_marker_designates {p marked : LayoutPass} {t : Token} {rest : List Token}
    (found : endMarkerAt p t rest = some marked) :
    isEndDesignator (lookahead rest).kind = true := by
  unfold endMarkerAt tryEndMarker at found
  dsimp only at found
  split_ifs at found with _ refused
  simp only [Bool.or_eq_true, Bool.not_eq_true', not_or, Bool.not_eq_false] at refused
  exact refused.2

theorem pass_breakLine (mono : StrictMonoOn move.width widths) {p : LayoutPass}
    (grounded : Grounded widths p) {t : Token} {rest : List Token}
    (line : t.lineIndent ∈ widths) (aligned : Aligned move t rest) :
    breakLine (move.pass p) (move.token t) (rest.map move.token) =
      move.passResult (breakLine p t rest) := by
  have started : (move.pass p).out.isEmpty = p.out.isEmpty := by
    simp [Reindent.pass]
  unfold breakLine
  rw [token_firstOnLine, started]
  split_ifs
  · exact pass_lineBreak mono grounded line aligned
  · rfl

theorem grounded_breakLine {p next : LayoutPass} (grounded : Grounded widths p) {t : Token}
    {rest : List Token} (line : t.lineIndent ∈ widths) (ok : breakLine p t rest = .ok next) :
    Grounded widths next := by
  unfold breakLine at ok
  split_ifs at ok
  · exact grounded_lineBreak grounded line ok
  · cases ok
    exact grounded

/-- The loop from one raw token on commutes with the change of indentation. -/
theorem pass_run (mono : StrictMonoOn move.width widths) :
    ∀ (raw : List Token) (p : LayoutPass), Grounded widths p →
      (∀ t ∈ raw, t.lineIndent ∈ widths) → Coherent move raw → Ends raw →
      run (move.pass p) (raw.map move.token) = move.result (run p raw)
  | [], _, _, _, _, ends => absurd rfl (ends_nonempty ends)
  | t :: rest, p, grounded, lines, coherent, ends => by
      have line := lines t List.mem_cons_self
      have restLines : ∀ next ∈ rest, next.lineIndent ∈ widths :=
        fun next member => lines next (List.mem_cons_of_mem _ member)
      rw [List.map_cons, run, run, token_kind]
      by_cases error : t.kind = .error
      · rw [if_pos error, if_pos error]
        rfl
      rw [if_neg error, if_neg error]
      by_cases eof : t.kind = .endOfFile
      · rw [if_pos eof, if_pos eof]
        exact pass_atEndOfFile p t
      rw [if_neg eof, if_neg eof]
      have restEnds := ends_tail ends eof error
      have nonempty := ends_nonempty restEnds
      have restCoherent : Coherent move rest := List.isChain_of_isChain_cons coherent
      rw [pass_breakLine mono grounded line (aligned_of_coherent nonempty coherent)]
      cases equation : breakLine p t rest with
      | error e => rfl
      | ok broken =>
          have brokenGrounded := grounded_breakLine grounded line equation
          simp only [Reindent.passResult]
          rw [pass_endMarkerAt _ _ nonempty, pass_ordinaryToken _ _ nonempty]
          cases found : endMarkerAt broken t rest with
          | some marked =>
              have designates := end_marker_designates found
              have markedGrounded := grounded_endMarkerAt brokenGrounded found
              obtain ⟨designator, after, rfl⟩ := List.exists_cons_of_ne_nil nonempty
              have kinds : designator.kind ≠ .endOfFile ∧ designator.kind ≠ .error := by
                constructor <;> intro kind <;>
                  simp [lookahead, kind, isEndDesignator] at designates
              exact pass_run mono after marked markedGrounded
                (fun next member => restLines next (List.mem_cons_of_mem _ member))
                (List.isChain_of_isChain_cons restCoherent) (ends_tail restEnds kinds.1 kinds.2)
          | none =>
              cases equation : ordinaryToken broken t rest with
              | error e => rfl
              | ok next =>
                  exact pass_run mono rest next
                    (grounded_ordinaryToken brokenGrounded line equation) restLines
                    restCoherent restEnds

/-- `applyLayout` commutes with every change of indentation that keeps the order
of the widths in the vector. -/
theorem apply_layout_commutes (first : Token) (rest : List Token)
    (mono : StrictMonoOn move.width (lineIndents (first :: rest)))
    (coherent : Coherent move (first :: rest)) :
    applyLayout ((first :: rest).map move.token) = move.result (applyLayout (first :: rest)) := by
  have lastKind : (((first :: rest).map move.token).getLastD (move.token first)).kind =
      ((first :: rest).getLastD first).kind := by
    simp only [List.getLastD_eq_getLast?, List.getLast?_map]
    cases (first :: rest).getLast? <;> rfl
  rw [List.map_cons, applyLayout, applyLayout, ← List.map_cons]
  rw [lastKind]
  split_ifs with malformed
  · rfl
  · have ends : Ends (first :: rest) := by
      refine ⟨(first :: rest).getLast (by simp), List.getLast?_eq_getLast_of_ne_nil _, ?_⟩
      rw [List.getLastD_eq_getLast?, List.getLast?_eq_getLast_of_ne_nil (by simp)] at malformed
      by_contra other
      push Not at other
      exact malformed other
    have start : Grounded (lineIndents (first :: rest))
        { topLevel := { kind := .topLevel, width := first.lineIndent } } :=
      ⟨rfl, ⟨first, List.mem_cons_self, rfl⟩, by simp, by simp⟩
    exact pass_run mono (first :: rest) _ start (fun t member => ⟨t, member, rfl⟩) coherent ends

end

/-- The structure of a layout: the kinds and texts of its tokens, or the error. -/
def structureOf : Except LayoutError (List Token) →
    Except LayoutError (List (TokenKind × String))
  | .ok out => .ok (out.map fun t => (t.kind, t.text))
  | .error e => .error e

/-- The same structure with the positions of an error moved. -/
def Reindent.structure (move : Reindent) :
    Except LayoutError (List (TokenKind × String)) →
      Except LayoutError (List (TokenKind × String))
  | .ok out => .ok out
  | .error e => .error (move.error e)

/-- `Lexer` starts a line with the first token that does not begin where the
token before it ended. -/
def LinesFollow (raw : List Token) : Prop :=
  raw.IsChain fun t next => next.firstOnLine = false → next.pos.line = t.endPos.line

def mapIndents (f : Int → Int) (raw : List Token) : List Token :=
  raw.map fun t => { t with lineIndent := f t.lineIndent }

theorem structure_commutes (move : Reindent) (raw : List Token)
    (mono : StrictMonoOn move.width (lineIndents raw)) (coherent : Coherent move raw) :
    structureOf (applyLayout (raw.map move.token)) =
      move.structure (structureOf (applyLayout raw)) := by
  cases raw with
  | nil => rfl
  | cons first rest =>
      rw [apply_layout_commutes first rest mono coherent]
      cases applyLayout (first :: rest) with
      | error e => rfl
      | ok out =>
          simp only [Reindent.result, structureOf, Reindent.structure, List.map_map]
          rfl

/-- Widths that keep their order keep the layout, and so do a uniform shift of
the whole file and any re-indentation of its lines, with the positions of an
error moved along. -/
theorem layout_depends_on_width_order (raw : List Token) (f : Int → Int)
    (mono : StrictMonoOn f (lineIndents raw)) :
    structureOf (applyLayout (mapIndents f raw)) = structureOf (applyLayout raw) ∧
      (∀ k : Int, structureOf (applyLayout (raw.map (Reindent.token ⟨(· + k), fun _ => k⟩))) =
        Reindent.structure ⟨(· + k), fun _ => k⟩ (structureOf (applyLayout raw))) ∧
      (LinesFollow raw → ∀ shift : Int → Int,
        structureOf (applyLayout (raw.map (Reindent.token ⟨f, shift⟩))) =
          Reindent.structure ⟨f, shift⟩ (structureOf (applyLayout raw))) := by
  refine ⟨?_, ?_, ?_⟩
  · have moved := structure_commutes ⟨f, fun _ => 0⟩ raw mono
      (List.Pairwise.isChain (List.pairwise_of_forall fun _ _ _ => rfl))
    have kept : raw.map (Reindent.token ⟨f, fun _ => 0⟩) = mapIndents f raw := by
      simp [mapIndents, Reindent.token, Reindent.pos]
    have unmoved : ∀ e : LayoutError, Reindent.error ⟨f, fun _ => 0⟩ e = e := by
      intro e
      cases e <;> simp [Reindent.error, Reindent.pos]
    rw [kept] at moved
    rw [moved]
    cases structureOf (applyLayout raw) with
    | ok out => rfl
    | error e => rw [Reindent.structure, unmoved]
  · intro k
    refine structure_commutes ⟨(· + k), fun _ => k⟩ raw ?_
      (List.Pairwise.isChain (List.pairwise_of_forall fun _ _ _ => rfl))
    intro w _ w' _ lower
    exact Int.add_lt_add_right lower k
  · intro follow shift
    refine structure_commutes ⟨f, shift⟩ raw mono (follow.imp ?_)
    intro t next sameLine inner
    exact congrArg shift (sameLine inner)

/-- `def f =`, an indented `1` and the end of the file. -/
def indentedBody : List Token :=
  [{ kind := .kwDef, text := "def", firstOnLine := true },
   { kind := .identifier, text := "f" },
   { kind := .equals, text := "=" },
   { kind := .intLit, text := "1", firstOnLine := true, lineIndent := 2 },
   { kind := .endOfFile, firstOnLine := true }]

theorem doubled_body_keeps_layout :
    structureOf (applyLayout (mapIndents (2 * ·) indentedBody)) =
      .ok [(.kwDef, "def"), (.identifier, "f"), (.equals, "="), (.indent, ""), (.intLit, "1"),
        (.outdent, ""), (.endOfFile, "")] := by
  have doubled : StrictMonoOn (2 * · : Int → Int) (lineIndents indentedBody) := by
    intro w _ w' _ lower
    dsimp only
    omega
  rw [(layout_depends_on_width_order indentedBody (2 * ·) doubled).1]
  decide

end ProtoScala.Frontend.LayoutWidths

import ProtoScala.Frontend.LayoutNesting
import Mathlib.Data.List.Chain

/-!
# The layout pass keeps the tokens

The output of the pass is the raw vector with separators and indentation tokens
woven in. The pass itself only inserts; the raw tokens pass through in order, a
line-final `:` renamed and an `end` marker merged with its designator. What the
pass inserts before a token is decided before the token is emitted, so a
separator always stands between the token it was decided for and the token or
the `outdent` before it.
-/

namespace ProtoScala.Frontend.LayoutTokens

open ProtoScala.Frontend.Layout
open ProtoScala.Frontend.LayoutNesting

set_option autoImplicit false

/-- The kinds that only this pass makes. -/
def isLayoutKind (k : TokenKind) : Bool :=
  isLayout k || k == .colonEol || k == .endMarker

/-- Everything up to and including the first end of file or error. -/
def EndsOnce (raw : List Token) : Prop :=
  ∃ (body : List Token) (last : Token), raw = body ++ [last] ∧
    (last.kind = .endOfFile ∨ last.kind = .error) ∧
    ∀ t ∈ body, t.kind ≠ .endOfFile ∧ t.kind ≠ .error

structure RawVector (raw : List Token) : Prop where
  ends : EndsOnce raw
  noLayout : ∀ t ∈ raw, isLayoutKind t.kind = false

/-- The output without the inserted separators and indentation tokens. -/
def rawTokensOf (out : List Token) : List Token := out.filter fun t => !isLayout t.kind

/-- Whether `t` is the `end` of an end marker: alone with its designator on its
line. -/
def isEndMarker (t designator : Token) (after : List Token) : Bool :=
  t.kind == .identifier && t.text == "end" && t.firstOnLine &&
    !designator.firstOnLine && isEndDesignator designator.kind &&
    ((after.head?.getD designator).firstOnLine ||
      (after.head?.getD designator).kind == .endOfFile)

def endMarker (t designator : Token) : Token :=
  { t with kind := .endMarker, text := designator.text, endPos := designator.endPos }

/-- The raw tokens as the parser sees them: a `:` whose next token is first on
its line is a `colonEol`, and an end marker is one token. -/
def rewritten : List Token → List Token
  | [] => []
  | [t] => [t]
  | t :: next :: after =>
      if isEndMarker t next after then endMarker t next :: rewritten after
      else if t.kind = .colon ∧ next.firstOnLine then
        { t with kind := .colonEol } :: rewritten (next :: after)
      else t :: rewritten (next :: after)

/-- Every separator stands after an `outdent` or a token that ends a statement
and before a token that begins one. -/
def Separates (out : List Token) : Prop :=
  ∀ (before : List Token) (separator : Token) (after : List Token),
    out = before ++ separator :: after → separator.kind = .newline →
    (∃ previous, before.getLast? = some previous ∧
      (previous.kind = .outdent ∨ canEndStatement previous.kind = true)) ∧
    (∃ next, after.head? = some next ∧ isLayout next.kind = false ∧
      canBeginStatement next.kind = true)

/-- Two neighbours in the output. -/
def Joined (left right : Token) : Prop :=
  (right.kind = .newline → canEndStatement left.kind = true) ∧
    (left.kind = .newline → isLayout right.kind = false ∧ canBeginStatement right.kind = true)

/-- A prefix of the output. -/
structure Woven (out : List Token) : Prop where
  chain : out.IsChain Joined
  first : ∀ t ∈ out.head?, t.kind ≠ .newline

/-- Between two raw tokens: the last token emitted is the previous raw one. -/
structure Settled (pass : LayoutPass) : Prop where
  woven : Woven pass.out
  last : ∀ t ∈ pass.out.getLast?, t.kind = pass.prevKind
  plain : pass.prevKind ≠ .newline

/-- Before the raw token `t` is emitted: a separator was inserted only when `t`
is first on its line and begins a statement. -/
structure Awaits (t : Token) (pass : LayoutPass) : Prop where
  woven : Woven pass.out
  last : ∀ s ∈ pass.out.getLast?, s.kind = .newline →
    t.firstOnLine = true ∧ canBeginStatement t.kind = true

/-- The pass inserted layout tokens only. -/
def Inserts (pass next : LayoutPass) : Prop :=
  ∃ inserted, next.out = pass.out ++ inserted ∧ ∀ t ∈ inserted, isLayout t.kind = true

theorem Inserts.refl {pass next : LayoutPass} (same : next.out = pass.out) : Inserts pass next :=
  ⟨[], by simpa using same, by simp⟩

theorem Inserts.trans {pass middle next : LayoutPass} (first : Inserts pass middle)
    (second : Inserts middle next) : Inserts pass next := by
  obtain ⟨left, out, kinds⟩ := first
  obtain ⟨right, out', kinds'⟩ := second
  refine ⟨left ++ right, by rw [out', out, List.append_assoc], ?_⟩
  intro t member
  rcases List.mem_append.mp member with inLeft | inRight
  · exact kinds t inLeft
  · exact kinds' t inRight

theorem Inserts.raw_tokens {pass next : LayoutPass} (inserts : Inserts pass next) :
    rawTokensOf next.out = rawTokensOf pass.out := by
  obtain ⟨inserted, out, kinds⟩ := inserts
  have none : inserted.filter (fun t => !isLayout t.kind) = [] := by
    rw [List.filter_eq_nil_iff]
    intro t member
    simp [kinds t member]
  rw [rawTokensOf, out, List.filter_append, none, List.append_nil]
  rfl

theorem synth_out (pass : LayoutPass) (kind : TokenKind) (here : Token) :
    (synth pass kind here).out = pass.out ++ [synthToken kind here] := by
  have pending : (pass.setPending []).out = pass.out := (set_pending_same_shape pass []).out
  unfold synth
  split_ifs
  · simp [pending]
  · rfl

theorem inserts_synth (pass : LayoutPass) {kind : TokenKind} (here : Token)
    (layout : isLayout kind = true) : Inserts pass (synth pass kind here) :=
  ⟨[synthToken kind here], synth_out pass kind here, by simpa [synthToken] using layout⟩

theorem inserts_pop (pass : LayoutPass) (more : Region → Bool) (here : Token) :
    Inserts pass (popIndentedWhile pass more here) := by
  refine ⟨_, rfl, ?_⟩
  intro t member
  rw [List.eq_of_mem_replicate member]
  rfl

theorem Woven.snoc {out : List Token} (woven : Woven out) {t : Token}
    (joined : ∀ s ∈ out.getLast?, Joined s t) (first : out = [] → t.kind ≠ .newline) :
    Woven (out ++ [t]) := by
  constructor
  · refine List.isChain_append.mpr ⟨woven.chain, List.isChain_singleton _, ?_⟩
    intro s last next member
    obtain rfl : t = next := by simpa using member
    exact joined s last
  · intro head member
    cases out with
    | nil =>
        obtain rfl : t = head := by simpa using member
        exact first rfl
    | cons top rest => exact woven.first head (by simpa using member)

/-- A token that is no separator may follow anything but a separator. -/
theorem joined_plain {left right : Token} (before : left.kind ≠ .newline)
    (after : right.kind ≠ .newline) : Joined left right :=
  ⟨fun separator => absurd separator after, fun separator => absurd separator before⟩

theorem Woven.outdents {out : List Token} (woven : Woven out)
    (last : ∀ s ∈ out.getLast?, s.kind ≠ .newline) (count : Nat) (here : Token) :
    Woven (out ++ List.replicate count (synthToken .outdent here)) ∧
      ∀ s ∈ (out ++ List.replicate count (synthToken .outdent here)).getLast?,
        s.kind ≠ .newline := by
  induction count with
  | zero => simpa using And.intro woven last
  | succ count induction =>
      obtain ⟨wovenBefore, lastBefore⟩ := induction
      rw [List.replicate_succ', ← List.append_assoc]
      constructor
      · exact wovenBefore.snoc (fun s member => joined_plain (lastBefore s member) (by simp [synthToken]))
          fun _ => by simp [synthToken]
      · intro s member
        obtain rfl : synthToken .outdent here = s := by simpa using member
        simp [synthToken]

theorem Settled.last_plain {pass : LayoutPass} (settled : Settled pass) :
    ∀ s ∈ pass.out.getLast?, s.kind ≠ .newline := by
  intro s member
  rw [settled.last s member]
  exact settled.plain

/-- A pass with the same output awaits any token. -/
theorem Settled.awaits {pass next : LayoutPass} (settled : Settled pass)
    (same : next.out = pass.out) (t : Token) : Awaits t next := by
  constructor
  · rw [same]
    exact settled.woven
  · intro s member separator
    rw [same] at member
    exact absurd separator (settled.last_plain s member)

/-- A separator after a token that ends a statement. -/
theorem awaits_newline {pass : LayoutPass} (woven : Woven pass.out) {t : Token}
    (begun : pass.out ≠ []) (ends : ∀ s ∈ pass.out.getLast?,
      s.kind ≠ .newline ∧ canEndStatement s.kind = true)
    (first : t.firstOnLine = true) (begins : canBeginStatement t.kind = true) :
    Awaits t (synth pass .newline t) := by
  constructor
  · rw [synth_out]
    refine woven.snoc ?_ fun none => absurd none begun
    intro s member
    exact ⟨fun _ => (ends s member).2, fun separator => absurd separator (ends s member).1⟩
  · intro _ _ _
    exact ⟨first, begins⟩

theorem pop_indented_out (pass : LayoutPass) (more : Region → Bool) (here : Token) :
    (popIndentedWhile pass more here).out = pass.out ++
      List.replicate (pass.inner.takeWhile fun region =>
        region.kind == .indented && more region).length (synthToken .outdent here) := rfl

/-- A dedent that leaves the innermost region emits an `outdent` first. -/
theorem popped_some {pass : LayoutPass} (mirrors : Mirrors pass) {more : Region → Bool}
    (indented : pass.back.kind = .indented) (leaves : more pass.back = true) :
    0 < (pass.inner.takeWhile fun region => region.kind == .indented && more region).length := by
  cases inner : pass.inner with
  | nil =>
      have top : pass.back = pass.topLevel := by simp [LayoutPass.back, inner]
      rw [top, mirrors.top] at indented
      cases indented
  | cons region outer =>
      have back : pass.back = region := by simp [LayoutPass.back, inner]
      rw [back] at indented leaves
      rw [List.takeWhile_cons, if_pos (by simp [indented, leaves])]
      simp

theorem dedent_awaits {pass next : LayoutPass} (mirrors : Mirrors pass) (settled : Settled pass)
    {t : Token} {rest : List Token} (begun : pass.out ≠ []) (first : t.firstOnLine = true)
    (ok : dedent pass t rest = .ok next) : Awaits t next ∧ Inserts pass next := by
  set more : Region → Bool := fun region => decide (t.lineIndent < region.width) with moreEq
  set leaving := popIndentedWhile pass more t with leavingEq
  have inserts : Inserts pass leaving := inserts_pop pass more t
  obtain ⟨woven, plain⟩ := settled.woven.outdents settled.last_plain
    (pass.inner.takeWhile fun region => region.kind == .indented && more region).length t
  rw [← pop_indented_out, ← leavingEq] at woven plain
  unfold dedent at ok
  dsimp only at ok
  split_ifs at ok with _ _ separates
  · cases ok
    simp only [Bool.and_eq_true, Bool.or_eq_true] at separates
    obtain ⟨⟨⟨-, ends⟩, begins⟩, -⟩ := separates
    refine ⟨awaits_newline woven (by simp [leavingEq, pop_indented_out, begun]) ?_ first begins,
      inserts.trans (inserts_synth _ t rfl)⟩
    intro s member
    refine ⟨plain s member, ?_⟩
    rw [leavingEq, pop_indented_out] at member
    cases count : (pass.inner.takeWhile fun region =>
        region.kind == .indented && more region).length with
    | zero =>
        -- nothing was popped, so the previous token itself ends the statement
        rw [count, List.replicate_zero, List.append_nil] at member
        rw [settled.last s member]
        rcases ends with ⟨indented, narrower⟩ | ends
        · have some := popped_some mirrors (by simpa using indented)
            (show more _ = true by simpa [moreEq] using narrower)
          omega
        · exact ends
    | succ count' =>
        rw [count, List.replicate_succ', ← List.append_assoc] at member
        obtain rfl : synthToken .outdent t = s := by simpa using member
        rfl
  · cases ok
    refine ⟨⟨woven, ?_⟩, inserts⟩
    intro s member separator
    exact absurd separator (plain s member)

theorem settle_width_settled {pass : LayoutPass} (settled : Settled pass) (t : Token) :
    Settled (settleWidth pass t) := by
  have out := (settle_width_same_shape pass t).out
  have prevKind : (settleWidth pass t).prevKind = pass.prevKind := by
    unfold settleWidth LayoutPass.setBack
    dsimp only
    split_ifs <;> (try rfl) <;> cases pass.inner <;> rfl
  exact ⟨out ▸ settled.woven, out ▸ prevKind ▸ settled.last, prevKind ▸ settled.plain⟩

/-- A separator after the previous raw token. -/
theorem settled_newline {pass : LayoutPass} (settled : Settled pass) {t : Token}
    (begun : pass.out ≠ []) (ends : canEndStatement pass.prevKind = true)
    (first : t.firstOnLine = true) (begins : canBeginStatement t.kind = true) :
    Awaits t (synth pass .newline t) := by
  refine awaits_newline settled.woven begun ?_ first begins
  intro s member
  refine ⟨settled.last_plain s member, ?_⟩
  rw [settled.last s member]
  exact ends

theorem line_break_awaits {pass next : LayoutPass} (mirrors : Mirrors pass)
    (settled : Settled pass) {t : Token} {rest : List Token} (begun : pass.out ≠ [])
    (first : t.firstOnLine = true) (ok : lineBreak pass t rest = .ok next) :
    Awaits t next ∧ Inserts pass next := by
  have same := settle_width_same_shape pass t
  have settledWidth := settle_width_settled settled t
  have begunWidth : (settleWidth pass t).out ≠ [] := by rwa [same.out]
  have inserts : Inserts pass (settleWidth pass t) := .refl same.out
  unfold lineBreak at ok
  split_ifs at ok
  · cases ok
    exact ⟨settled.awaits rfl t, .refl rfl⟩
  · dsimp only at ok
    split_ifs at ok with _ _ aligned below
    · cases ok
      refine ⟨⟨?_, ?_⟩, inserts.trans (inserts_synth _ t rfl)⟩
      · rw [synth_out]
        refine settledWidth.woven.snoc ?_ fun none => absurd none begunWidth
        intro s member
        exact joined_plain (settledWidth.last_plain s member) (by simp [synthToken])
      · intro s member separator
        rw [synth_out] at member
        obtain rfl : synthToken .indent t = s := by simpa using member
        cases separator
    · obtain ⟨awaits, more⟩ :=
        dedent_awaits (mirrors.of_same_shape same) settledWidth begunWidth first ok
      exact ⟨awaits, inserts.trans more⟩
    · cases ok
      exact ⟨settled_newline settledWidth begunWidth aligned.2.1 first aligned.2.2.1,
        inserts.trans (inserts_synth _ t rfl)⟩
    · cases ok
      exact ⟨settled_newline settledWidth begunWidth below.2.2.1 first below.2.2.2,
        inserts.trans (inserts_synth _ t rfl)⟩
    · cases ok
      exact ⟨settled.awaits same.out t, inserts⟩

theorem break_line_awaits {pass next : LayoutPass} (mirrors : Mirrors pass)
    (settled : Settled pass) {t : Token} {rest : List Token}
    (ok : breakLine pass t rest = .ok next) : Awaits t next ∧ Inserts pass next := by
  unfold breakLine at ok
  split_ifs at ok with breaks
  · simp only [Bool.and_eq_true, Bool.not_eq_eq_eq_not, Bool.not_true, List.isEmpty_eq_false_iff]
      at breaks
    exact line_break_awaits mirrors settled breaks.2 breaks.1 ok
  · cases ok
    exact ⟨settled.awaits rfl t, .refl rfl⟩

theorem Awaits.of_out {t : Token} {pass next : LayoutPass} (awaits : Awaits t pass)
    (same : next.out = pass.out) : Awaits t next :=
  ⟨same ▸ awaits.woven, same ▸ awaits.last⟩

theorem close_by_keyword_awaits {pass : LayoutPass} {t : Token} (awaits : Awaits t pass) :
    Awaits t (closeByKeyword pass t) ∧ Inserts pass (closeByKeyword pass t) := by
  unfold closeByKeyword
  split
  · next satisfied equation =>
      have same := (satisfy_pending_same_shape pass t.kind).out
      rw [equation] at same
      exact ⟨awaits.of_out same, .refl same⟩
  · split_ifs with first closes
    · exact ⟨awaits, .refl rfl⟩
    · have same := (satisfy_pending_same_shape (synth pass.popRegion .outdent t) t.kind).out
      have plain : ∀ s ∈ pass.out.getLast?, s.kind ≠ .newline :=
        fun s member separator => first (awaits.last s member separator).1
      refine ⟨Awaits.of_out ⟨?_, ?_⟩ same,
        Inserts.trans (inserts_synth pass.popRegion t rfl) (.refl same)⟩
      · rw [synth_out]
        exact awaits.woven.snoc (fun s member => joined_plain (plain s member) (by simp [synthToken]))
          fun _ => by simp [synthToken]
      · intro s member separator
        rw [synth_out] at member
        obtain rfl : synthToken .outdent t = s := by simpa using member
        cases separator
    · exact ⟨awaits, .refl rfl⟩

theorem close_bracket_awaits {pass next : LayoutPass} {t : Token} {condition : Bool}
    (awaits : Awaits t pass) (closer : canBeginStatement t.kind = false)
    (ok : closeBracket pass t = .ok (next, condition)) : Awaits t next ∧ Inserts pass next := by
  have plain : ∀ s ∈ pass.out.getLast?, s.kind ≠ .newline := by
    intro s member separator
    rw [(awaits.last s member separator).2] at closer
    cases closer
  obtain ⟨woven, last⟩ := awaits.woven.outdents plain
    (pass.inner.takeWhile fun region => region.kind == .indented && true).length t
  unfold closeBracket at ok
  dsimp only at ok
  split_ifs at ok
  cases ok
  exact ⟨⟨woven, fun s member separator => absurd separator (last s member)⟩,
    (inserts_pop pass (fun _ => true) t).trans (.refl rfl)⟩

theorem closing_token_awaits {pass next : LayoutPass} {t : Token} {rest : List Token}
    {closesCondition : Bool} (awaits : Awaits t pass) (closer : canBeginStatement t.kind = false)
    (ok : closingToken pass t rest = .ok (next, closesCondition)) :
    Awaits t next ∧ Inserts pass next := by
  unfold closingToken at ok
  split at ok
  · cases ok
  · next closed condition equation =>
      obtain ⟨after, inserts⟩ := close_bracket_awaits awaits closer equation
      have header : ∀ headed : Bool,
          (if headed then { closed with extensionHeaderLine := -1 } else closed).out =
            closed.out := by
        intro headed
        cases headed <;> rfl
      have cleared : ∀ headed : Bool, (conditionClosed
          (if headed then { closed with extensionHeaderLine := -1 } else closed)).out =
            closed.out := fun headed => (condition_closed_same_shape _).out.trans (header headed)
      simp only [Except.ok.injEq, Prod.mk.injEq] at ok
      rw [← ok.1]
      split_ifs
      · exact ⟨after.of_out (cleared true), inserts.trans (.refl (cleared true))⟩
      · exact ⟨after.of_out (cleared false), inserts.trans (.refl (cleared false))⟩
      · exact ⟨after.of_out (header true), inserts.trans (.refl (header true))⟩
      · exact ⟨after, inserts⟩

theorem switch_kind_awaits {pass next : LayoutPass} {t : Token} {rest : List Token}
    {closesCondition : Bool} (awaits : Awaits t pass)
    (ok : switchKind pass t rest = .ok (next, closesCondition)) :
    Awaits t next ∧ Inserts pass next := by
  by_cases closer : isCloser t.kind = true
  · have shape : switchKind pass t rest = closingToken pass t rest := by
      cases kind : t.kind <;> simp_all [isCloser, switchKind]
    refine closing_token_awaits awaits ?_ (shape.symm.trans ok)
    cases kind : t.kind <;> simp_all [isCloser, canBeginStatement]
  · have same : next.out = pass.out := by
      unfold switchKind at ok
      split at ok
      · cases ok
        rfl
      · cases ok
        rfl
      · cases ok
        rfl
      · next kind => simp [kind, isCloser] at closer
      · next kind => simp [kind, isCloser] at closer
      · next kind => simp [kind, isCloser] at closer
      · cases ok
        exact (set_pending_same_shape _ _).out
      all_goals
        cases ok
        first
          | rfl
          | exact (set_pending_same_shape _ _).out
    exact ⟨awaits.of_out same, .refl same⟩

theorem raw_tokens_snoc {out : List Token} {t : Token} (ordinary : isLayout t.kind = false) :
    rawTokensOf (out ++ [t]) = rawTokensOf out ++ [t] := by
  simp [rawTokensOf, ordinary]

theorem not_newline {k : TokenKind} (ordinary : isLayout k = false) : k ≠ .newline := by
  rintro rfl
  cases ordinary

theorem emitted_ordinary {t : Token} (ordinary : isLayout t.kind = false) (rest : List Token) :
    isLayout (emittedKind t rest) = false := by
  unfold emittedKind
  split_ifs
  · rfl
  · exact ordinary

/-- A raw token that begins a statement is emitted as it is. -/
theorem emitted_begins {t : Token} (begins : canBeginStatement t.kind = true)
    (rest : List Token) : emittedKind t rest = t.kind := by
  refine if_neg ?_
  rintro ⟨colon, -⟩
  rw [colon] at begins
  cases begins

/-- Emitting the awaited token. -/
theorem Awaits.settled {t : Token} {pass : LayoutPass} (awaits : Awaits t pass) {emitted : Token}
    (ordinary : isLayout emitted.kind = false)
    (begins : canBeginStatement t.kind = true → canBeginStatement emitted.kind = true) :
    Woven (pass.out ++ [emitted]) := by
  refine awaits.woven.snoc ?_ fun _ => not_newline ordinary
  intro s member
  refine ⟨fun separator => absurd separator (not_newline ordinary), fun separator => ?_⟩
  exact ⟨ordinary, begins (awaits.last s member separator).2⟩

theorem ordinary_token_settled {pass next : LayoutPass} {t : Token} {rest : List Token}
    (awaits : Awaits t pass) (ordinary : isLayout t.kind = false)
    (ok : ordinaryToken pass t rest = .ok next) :
    Settled next ∧ rawTokensOf next.out =
      rawTokensOf pass.out ++ [{ t with kind := emittedKind t rest }] := by
  obtain ⟨closed, closing⟩ := close_by_keyword_awaits awaits
  unfold ordinaryToken at ok
  split at ok
  · cases ok
  · next switched closesCondition equation =>
      obtain ⟨ready, inserts⟩ := switch_kind_awaits closed equation
      have plain := emitted_ordinary ordinary rest
      cases ok
      refine ⟨⟨?_, ?_, not_newline plain⟩, ?_⟩
      · refine ready.settled plain fun begins => ?_
        simpa only [emitted_begins begins rest] using begins
      · intro s member
        obtain rfl : { t with kind := emittedKind t rest } = s := by simpa using member
        rfl
      · rw [raw_tokens_snoc plain, inserts.raw_tokens, closing.raw_tokens]

theorem end_marker_at_iff {pass : LayoutPass} {t designator : Token} {after : List Token} :
    endMarkerAt pass t (designator :: after) =
      if isEndMarker t designator after then
        some { pass with
          out := pass.out ++ [endMarker t designator]
          prevKind := .endMarker
          prevClosesCondition := false }
      else none := by
  by_cases marks : isEndMarker t designator after = true
  · rw [if_pos marks]
    unfold isEndMarker at marks
    rw [Bool.and_eq_true, Bool.and_eq_true, Bool.and_eq_true, Bool.not_eq_true'] at marks
    obtain ⟨⟨⟨named, first⟩, designates⟩, alone⟩ := marks
    unfold endMarkerAt tryEndMarker
    rw [if_pos named]
    simp [lookahead, first, designates, alone, endMarker]
  · rw [if_neg marks]
    unfold endMarkerAt tryEndMarker
    dsimp only [lookahead, List.headD_cons, List.tail_cons]
    split
    · next named =>
        split
        · rfl
        · next skipped =>
            rw [ite_eq_left_iff]
            intro alone
            refine absurd ?_ marks
            rw [Bool.not_eq_true, Bool.not_eq_false'] at alone
            unfold isEndMarker
            rw [named, alone]
            simpa using skipped
    · rfl

theorem end_marker_settled {pass : LayoutPass} {t : Token} (awaits : Awaits t pass)
    (designator : Token) :
    Settled { pass with
      out := pass.out ++ [endMarker t designator]
      prevKind := .endMarker
      prevClosesCondition := false } := by
  refine ⟨awaits.settled rfl fun _ => rfl, ?_, by simp⟩
  intro s member
  obtain rfl : endMarker t designator = s := by simpa using member
  rfl

theorem ends_once_tail {t : Token} {rest : List Token} (ends : EndsOnce (t :: rest))
    (more : rest ≠ []) : EndsOnce rest ∧ t.kind ≠ .endOfFile ∧ t.kind ≠ .error := by
  obtain ⟨body, last, split, final, before⟩ := ends
  cases body with
  | nil =>
      simp only [List.nil_append, List.cons.injEq] at split
      exact absurd split.2 more
  | cons head body =>
      simp only [List.cons_append, List.cons.injEq] at split
      obtain ⟨rfl, rfl⟩ := split
      exact ⟨⟨body, last, rfl, final, fun s member => before s (List.mem_cons_of_mem _ member)⟩,
        before _ List.mem_cons_self⟩

theorem ends_once_single {t : Token} (ends : EndsOnce [t]) :
    t.kind = .endOfFile ∨ t.kind = .error := by
  obtain ⟨body, last, split, final, -⟩ := ends
  cases body with
  | nil =>
      simp only [List.nil_append, List.cons.injEq] at split
      rwa [split.1]
  | cons head body => simp at split

theorem rewritten_plain (t : Token) (rest : List Token)
    (unmarked : ∀ next after, rest = next :: after → isEndMarker t next after = false) :
    rewritten (t :: rest) = { t with kind := emittedKind t rest } :: rewritten rest := by
  cases rest with
  | nil => simp [rewritten, emittedKind, lookahead, default]
  | cons next after =>
      rw [rewritten, unmarked next after rfl, if_neg (by simp)]
      have emitted : emittedKind t (next :: after) =
          if t.kind = .colon ∧ next.firstOnLine = true then .colonEol else t.kind := rfl
      rw [emitted]
      split_ifs <;> rfl

theorem Separates.of_woven {out : List Token} (woven : Woven out)
    (last : ∀ s ∈ out.getLast?, s.kind ≠ .newline) : Separates out := by
  rintro before separator after rfl kind
  constructor
  · cases found : before.getLast? with
    | none =>
        obtain rfl := List.getLast?_eq_none_iff.mp found
        exact absurd kind (woven.first separator (by simp))
    | some previous =>
        have joined := (List.isChain_append.mp woven.chain).2.2 previous found separator (by simp)
        exact ⟨previous, rfl, .inr (joined.1 kind)⟩
  · cases after with
    | nil => exact absurd kind (last separator (by simp))
    | cons next rest =>
        have joined := (List.isChain_append_cons_cons.mp woven.chain).2.1
        exact ⟨next, rfl, joined.2 kind⟩

/-- The loop from one raw token on: what it appends is those raw tokens as they
are rewritten, with separators woven in. -/
theorem run_keeps_tokens : ∀ (raw : List Token) (pass : LayoutPass) (out : List Token),
    Mirrors pass → Settled pass → EndsOnce raw → (∀ t ∈ raw, isLayout t.kind = false) →
    run pass raw = .ok out →
    Separates out ∧ rawTokensOf out = rawTokensOf pass.out ++ rewritten raw
  | [], _, _, _, _, ends, _, _ => by
      obtain ⟨body, last, split, -⟩ := ends
      simp at split
  | t :: rest, pass, out, mirrors, settled, ends, ordinary, ok => by
      have plain := ordinary t List.mem_cons_self
      have restPlain : ∀ next ∈ rest, isLayout next.kind = false :=
        fun next member => ordinary next (List.mem_cons_of_mem _ member)
      rw [run] at ok
      split_ifs at ok with broken eof
      · have alone : rest = [] := by
          by_contra more
          exact (ends_once_tail ends more).2.1 eof
        obtain ⟨woven, last⟩ := settled.woven.outdents settled.last_plain
          (pass.inner.takeWhile fun region => region.kind == .indented && true).length t
        have inserts := inserts_pop pass (fun _ => true) t
        rw [← pop_indented_out pass (fun _ => true)] at woven last
        unfold atEndOfFile at ok
        dsimp only at ok
        split_ifs at ok
        cases ok
        refine ⟨Separates.of_woven (woven.snoc ?_ fun _ => not_newline plain) ?_, ?_⟩
        · intro s member
          exact joined_plain (last s member) (not_newline plain)
        · intro s member
          obtain rfl : t = s := by simpa using member
          exact not_newline plain
        · rw [raw_tokens_snoc plain, inserts.raw_tokens, alone, rewritten]
      · have some : rest ≠ [] := by
          rintro rfl
          exact (ends_once_single ends).elim eof broken
        obtain ⟨restEnds, -, -⟩ := ends_once_tail ends some
        split at ok
        · cases ok
        · next next equation =>
            obtain ⟨awaits, inserts⟩ := break_line_awaits mirrors settled equation
            have nextMirrors := break_line_mirrors mirrors equation
            rw [← inserts.raw_tokens]
            split at ok
            · next marked found =>
                cases rest with
                | nil => exact absurd rfl some
                | cons designator after =>
                    rw [end_marker_at_iff] at found
                    split_ifs at found with marks
                    have markedMirrors := end_marker_mirrors nextMirrors
                      ((@end_marker_at_iff _ _ _ after).trans ((if_pos marks).trans found))
                    have designates : isEndDesignator designator.kind = true := by
                      unfold isEndMarker at marks
                      simp only [Bool.and_eq_true] at marks
                      exact marks.1.2
                    have afterEnds : EndsOnce after := by
                      refine (ends_once_tail restEnds ?_).1
                      rintro rfl
                      rcases ends_once_single restEnds with kind | kind
                      · rw [kind] at designates
                        cases designates
                      · rw [kind] at designates
                        cases designates
                    obtain ⟨separates, kept⟩ := run_keeps_tokens after _ out markedMirrors
                      (Option.some.inj found ▸ end_marker_settled awaits designator) afterEnds
                      (fun s member => restPlain s (List.mem_cons_of_mem _ member)) ok
                    refine ⟨separates, ?_⟩
                    rw [kept, ← Option.some.inj found, rewritten, if_pos marks]
                    rw [raw_tokens_snoc (by rfl), List.append_assoc]
                    rfl
            · next unmarked =>
                split at ok
                · cases ok
                · next following equation =>
                    obtain ⟨followingSettled, emitted⟩ :=
                      ordinary_token_settled awaits plain equation
                    have followingMirrors := ordinary_token_mirrors nextMirrors plain equation
                    obtain ⟨separates, kept⟩ := run_keeps_tokens rest following out
                      followingMirrors followingSettled restEnds restPlain ok
                    refine ⟨separates, ?_⟩
                    rw [kept, emitted, List.append_assoc, rewritten_plain]
                    · rfl
                    · rintro designator after rfl
                      rw [end_marker_at_iff] at unmarked
                      by_contra marks
                      rw [if_pos (by simpa using marks)] at unmarked
                      cases unmarked

/-- Whenever `applyLayout` returns on a vector of raw tokens, its output without
the inserted tokens is the raw vector with the colons at a line's end and the end
markers rewritten, and every separator stands between two statements. -/
theorem apply_layout_keeps_tokens (raw out : List Token) (vector : RawVector raw)
    (returns : applyLayout raw = .ok out) : rawTokensOf out = rewritten raw ∧ Separates out := by
  have ordinary : ∀ t ∈ raw, isLayout t.kind = false := by
    intro t member
    have layout := vector.noLayout t member
    simp only [isLayoutKind, Bool.or_eq_false_iff] at layout
    exact layout.1.1
  cases raw with
  | nil =>
      obtain ⟨body, last, split, -⟩ := vector.ends
      simp at split
  | cons first rest =>
      rw [applyLayout] at returns
      split_ifs at returns
      set start : LayoutPass := { topLevel := { kind := .topLevel, width := first.lineIndent } }
      have mirrors : Mirrors start :=
        ⟨rfl, by simp [start, regionKinds], trivial, Library.Nesting.nested_to_nil⟩
      have settled : Settled start :=
        ⟨⟨List.isChain_nil, by simp [start]⟩, by simp [start], by simp [start]⟩
      obtain ⟨separates, kept⟩ :=
        run_keeps_tokens (first :: rest) start out mirrors settled vector.ends ordinary returns
      exact ⟨kept, separates⟩

/-- `object A:`, an indented `val x`, `end A`, and a second statement. -/
def endedObject : List Token :=
  [{ kind := .kwObject, text := "object", firstOnLine := true },
   { kind := .identifier, text := "A" },
   { kind := .colon, text := ":" },
   { kind := .kwVal, text := "val", firstOnLine := true, lineIndent := 2 },
   { kind := .identifier, text := "x", lineIndent := 2 },
   { kind := .identifier, text := "end", firstOnLine := true },
   { kind := .identifier, text := "A" },
   { kind := .identifier, text := "f", firstOnLine := true },
   { kind := .endOfFile, firstOnLine := true }]

def endedObjectLayout : List Token :=
  (endedObject.take 2) ++
    [{ kind := .colonEol, text := ":" }, { kind := .indent, lineIndent := 2 }] ++
    (endedObject.drop 3).take 2 ++
    [{ kind := .outdent }, { kind := .newline },
     { kind := .endMarker, text := "A", firstOnLine := true }, { kind := .newline }] ++
    endedObject.drop 7

theorem ended_object_kept :
    applyLayout endedObject = .ok endedObjectLayout ∧
    rawTokensOf endedObjectLayout = rewritten endedObject ∧ Separates endedObjectLayout := by
  have returns : applyLayout endedObject = .ok endedObjectLayout := by decide +kernel
  have vector : RawVector endedObject := by
    refine ⟨⟨endedObject.dropLast, { kind := .endOfFile, firstOnLine := true }, ?_, ?_, ?_⟩, ?_⟩
      <;> decide
  exact ⟨returns, apply_layout_keeps_tokens endedObject endedObjectLayout vector returns⟩

end ProtoScala.Frontend.LayoutTokens

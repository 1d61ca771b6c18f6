import ProtoScala.Frontend.Layout
import ProtoScala.Library.Nesting

/-!
# The layout tokens are well nested

The regions above the top level mirror the brackets left open by the emitted
tokens. Regions are pushed and popped together with the token that opens or
closes them, and an indented region never stands directly on a parenthesis or
a bracket.
-/

namespace ProtoScala.Frontend.LayoutNesting

open ProtoScala.Library.Nesting
open ProtoScala.Frontend.Layout

set_option autoImplicit false

inductive Bracket
  | paren | square | brace | indent
deriving DecidableEq

def bracketRole : TokenKind → Role Bracket
  | .lParen => .opens .paren
  | .lBracket => .opens .square
  | .lBrace => .opens .brace
  | .indent => .opens .indent
  | .rParen => .closes .paren
  | .rBracket => .closes .square
  | .rBrace => .closes .brace
  | .outdent => .closes .indent
  | _ => .plain

def isLayout (k : TokenKind) : Bool := k == .newline || k == .indent || k == .outdent

/-- Inside every open `(` or `[` of the stack a brace is still open. -/
def Sheltered (stack : List Bracket) : Prop :=
  ∀ inside bracket outside, stack = inside ++ bracket :: outside →
    bracket = Bracket.paren ∨ bracket = Bracket.square → Bracket.brace ∈ inside

def layoutGuard (k : TokenKind) (around : List Bracket) : Prop :=
  isLayout k = true → Sheltered around

/-- Every closer matches the innermost open bracket, nothing stays open, and a
layout token between a `(` or `[` and its closer is inside a nested brace pair. -/
def WellNested (word : List TokenKind) : Prop := NestedTo bracketRole layoutGuard word []

/-- A vector a lexer may produce without an error token. -/
structure RawTokens (raw : List Token) : Prop where
  ends : (raw.getLast?).map Token.kind = some .endOfFile
  noError : ∀ t ∈ raw, t.kind ≠ .error
  noLayout : ∀ t ∈ raw, isLayout t.kind = false

def bracketOf : RegionKind → Bracket
  | .parens => .paren
  | .brackets => .square
  | .braces => .brace
  | .indented => .indent
  | .topLevel => .indent

/-- A layout token may be emitted here. -/
def Roomy (stack : List Bracket) : Prop :=
  stack.head? ≠ some .paren ∧ stack.head? ≠ some .square

def Legal : List Bracket → Prop
  | [] => True
  | .indent :: rest => Legal rest ∧ Roomy rest
  | _ :: rest => Legal rest

theorem legal_tail {bracket : Bracket} {rest : List Bracket} (legal : Legal (bracket :: rest)) :
    Legal rest := by
  cases bracket with
  | indent => exact legal.1
  | paren => exact legal
  | square => exact legal
  | brace => exact legal

theorem sheltered_of_roomy : ∀ {stack : List Bracket}, Legal stack → Roomy stack → Sheltered stack
  | [], _, _ => by
      intro inside bracket outside split
      simp at split
  | top :: rest, legal, roomy => by
      intro inside bracket outside split kind
      cases inside with
      | nil =>
          obtain ⟨rfl, rfl⟩ : top = bracket ∧ rest = outside := by simpa using split
          rcases kind with rfl | rfl
          · exact absurd rfl roomy.1
          · exact absurd rfl roomy.2
      | cons head inside =>
          obtain ⟨rfl, below⟩ : top = head ∧ rest = inside ++ bracket :: outside := by
            simpa using split
          cases top with
          | brace => exact List.mem_cons_self
          | indent =>
              have reached := sheltered_of_roomy legal.1 legal.2 inside bracket outside below kind
              exact List.mem_cons_of_mem _ reached
          | paren => exact absurd rfl roomy.1
          | square => exact absurd rfl roomy.2

theorem legal_of_indents (count : Nat) {stack : List Bracket}
    (legal : Legal (List.replicate count Bracket.indent ++ stack)) :
    Legal stack ∧ (0 < count → Roomy stack) := by
  induction count with
  | zero => exact ⟨by simpa using legal, by simp⟩
  | succ count induction =>
      rw [List.replicate_succ, List.cons_append] at legal
      have rest := induction legal.1
      refine ⟨rest.1, fun _ => ?_⟩
      cases count with
      | zero => simpa using legal.2
      | succ count => exact rest.2 (Nat.succ_pos _)

theorem roomy_indents (count : Nat) {stack : List Bracket} (roomy : Roomy stack) :
    Roomy (List.replicate count Bracket.indent ++ stack) := by
  cases count with
  | zero => simpa using roomy
  | succ count => simp [Roomy, List.replicate_succ]

theorem legal_indents (count : Nat) {stack : List Bracket} (legal : Legal stack)
    (roomy : Roomy stack) : Legal (List.replicate count Bracket.indent ++ stack) := by
  induction count with
  | zero => simpa using legal
  | succ count induction =>
      rw [List.replicate_succ, List.cons_append]
      exact ⟨induction, roomy_indents count roomy⟩

def regionKinds (pass : LayoutPass) : List RegionKind := pass.inner.map Region.kind

def emittedKinds (pass : LayoutPass) : List TokenKind := pass.out.map Token.kind

structure Mirrors (pass : LayoutPass) : Prop where
  top : pass.topLevel.kind = .topLevel
  proper : RegionKind.topLevel ∉ regionKinds pass
  legal : Legal ((regionKinds pass).map bracketOf)
  nested : NestedTo bracketRole layoutGuard (emittedKinds pass)
    ((regionKinds pass).map bracketOf)

/-- Two passes that differ only in data the brackets do not depend on. -/
structure SameShape (pass next : LayoutPass) : Prop where
  top : next.topLevel.kind = pass.topLevel.kind
  kinds : regionKinds next = regionKinds pass
  out : next.out = pass.out

theorem SameShape.refl (pass : LayoutPass) : SameShape pass pass := ⟨rfl, rfl, rfl⟩

theorem Mirrors.of_same_shape {pass next : LayoutPass} (mirrors : Mirrors pass)
    (same : SameShape pass next) : Mirrors next := by
  have emitted : emittedKinds next = emittedKinds pass := by rw [emittedKinds, same.out]; rfl
  constructor
  · rw [same.top, mirrors.top]
  · rw [same.kinds]
    exact mirrors.proper
  · rw [same.kinds]
    exact mirrors.legal
  · rw [same.kinds, emitted]
    exact mirrors.nested

theorem set_back_same_shape (pass : LayoutPass) (region : Region)
    (kind : region.kind = pass.back.kind) : SameShape pass (pass.setBack region) := by
  cases shape : pass.inner with
  | nil => simp_all [SameShape.mk, LayoutPass.setBack, LayoutPass.back, regionKinds]
  | cons head outer => simp_all [SameShape.mk, LayoutPass.setBack, LayoutPass.back, regionKinds]

theorem set_pending_same_shape (pass : LayoutPass) (pending : List TokenKind) :
    SameShape pass (pass.setPending pending) :=
  set_back_same_shape pass _ rfl

theorem settle_width_same_shape (pass : LayoutPass) (t : Token) :
    SameShape pass (settleWidth pass t) := by
  unfold settleWidth
  split_ifs
  · exact set_back_same_shape pass _ rfl
  · exact set_back_same_shape pass _ rfl
  · exact SameShape.refl pass

theorem condition_closed_same_shape (pass : LayoutPass) :
    SameShape pass (conditionClosed pass) := by
  unfold conditionClosed
  split
  · exact SameShape.refl pass
  · split_ifs
    · exact set_pending_same_shape pass _
    · exact SameShape.refl pass

theorem satisfy_pending_same_shape (pass : LayoutPass) (closer : TokenKind) :
    SameShape pass (satisfyPending pass closer).1 := by
  unfold satisfyPending
  split
  · exact SameShape.refl pass
  · exact set_pending_same_shape pass _

/-- The region on top of a mirroring pass is known from its kind. -/
theorem region_kinds_of_back {pass : LayoutPass} (mirrors : Mirrors pass) {kind : RegionKind}
    (back : pass.back.kind = kind) (inner : kind ≠ .topLevel) :
    regionKinds pass = kind :: regionKinds pass.popRegion := by
  cases shape : pass.inner with
  | nil =>
      have top : pass.back.kind = .topLevel := by
        rw [LayoutPass.back, shape]
        exact mirrors.top
      exact absurd (back.symm.trans top) inner
  | cons head outer =>
      have same : head.kind = kind := by
        rw [← back, LayoutPass.back, shape]
      simp [regionKinds, LayoutPass.popRegion, shape, same]

theorem roomy_of_back {pass : LayoutPass} (parens : pass.back.kind ≠ .parens)
    (brackets : pass.back.kind ≠ .brackets) : Roomy ((regionKinds pass).map bracketOf) := by
  cases shape : pass.inner with
  | nil => simp [Roomy, regionKinds, shape]
  | cons head outer =>
      simp only [LayoutPass.back, shape] at parens brackets
      simp only [regionKinds, shape, List.map_cons, Roomy, List.head?_cons]
      cases kind : head.kind <;> simp_all [bracketOf]

theorem newline_mirrors {pass : LayoutPass} (mirrors : Mirrors pass)
    (roomy : Roomy ((regionKinds pass).map bracketOf)) (here : Token) :
    Mirrors (synth pass .newline here) := by
  have same := set_pending_same_shape pass []
  have cleared := mirrors.of_same_shape same
  have sheltered := sheltered_of_roomy mirrors.legal roomy
  refine ⟨cleared.top, cleared.proper, cleared.legal, ?_⟩
  have kinds : emittedKinds (synth pass .newline here) =
      emittedKinds (pass.setPending []) ++ [TokenKind.newline] := by
    simp [emittedKinds, synth, synthToken]
  rw [kinds]
  refine nested_to_snoc cleared.nested ?_ rfl
  intro _
  rw [same.kinds]
  exact sheltered

theorem indent_mirrors {pass : LayoutPass} (mirrors : Mirrors pass)
    (roomy : Roomy ((regionKinds pass).map bracketOf)) (region : Region) (here : Token)
    (kind : region.kind = .indented) :
    Mirrors (synth (pass.pushRegion region) .indent here) := by
  have kinds : regionKinds (synth (pass.pushRegion region) .indent here) =
      .indented :: regionKinds pass := by
    simp [regionKinds, synth, LayoutPass.pushRegion, kind]
  have emitted : emittedKinds (synth (pass.pushRegion region) .indent here) =
      emittedKinds pass ++ [TokenKind.indent] := by
    simp [emittedKinds, synth, synthToken, LayoutPass.pushRegion]
  constructor
  · exact mirrors.top
  · rw [kinds]
    simpa using mirrors.proper
  · rw [kinds]
    exact ⟨mirrors.legal, roomy⟩
  · rw [kinds, emitted]
    refine nested_to_snoc mirrors.nested ?_ rfl
    intro _
    exact sheltered_of_roomy mirrors.legal roomy

/-- The regions a dedent leaves are as many indented ones, then the rest. -/
theorem popped_brackets (inner : List Region) (more : Region → Bool) :
    inner.map (fun region => bracketOf region.kind) =
      List.replicate (inner.takeWhile fun region =>
          region.kind == .indented && more region).length Bracket.indent ++
        (inner.dropWhile fun region => region.kind == .indented && more region).map
          (fun region => bracketOf region.kind) := by
  induction inner with
  | nil => rfl
  | cons region outer induction =>
      by_cases leaves : (region.kind == .indented && more region) = true
      · have indented : region.kind = .indented := by
          simp only [Bool.and_eq_true, beq_iff_eq] at leaves
          exact leaves.1
        rw [List.takeWhile_cons, List.dropWhile_cons, if_pos leaves, if_pos leaves,
          List.map_cons, induction, indented]
        rfl
      · rw [List.takeWhile_cons, List.dropWhile_cons, if_neg leaves, if_neg leaves]
        rfl

/-- Popping indented regions off the top leaves one `outdent` for each. -/
theorem pop_indented_mirrors {pass : LayoutPass} (mirrors : Mirrors pass)
    (more : Region → Bool) (here : Token) : Mirrors (popIndentedWhile pass more here) := by
  set next := popIndentedWhile pass more here with nextEq
  set count := (pass.inner.takeWhile fun region =>
    region.kind == .indented && more region).length with countEq
  have before : (regionKinds pass).map bracketOf =
      List.replicate count Bracket.indent ++ (regionKinds next).map bracketOf := by
    simp only [regionKinds, List.map_map, nextEq, popIndentedWhile, countEq]
    exact popped_brackets pass.inner more
  have emitted : emittedKinds next =
      emittedKinds pass ++ List.replicate count TokenKind.outdent := by
    simp [emittedKinds, nextEq, popIndentedWhile, synthToken, countEq]
  have legal := mirrors.legal
  have nested := mirrors.nested
  rw [before] at legal nested
  obtain ⟨rest, roomy⟩ := legal_of_indents count legal
  refine ⟨mirrors.top, ?_, rest, ?_⟩
  · intro member
    obtain ⟨region, inside, kind⟩ := List.mem_map.mp member
    have whole : region ∈ pass.inner := (List.dropWhile_suffix _).subset inside
    exact mirrors.proper (List.mem_map.mpr ⟨region, whole, kind⟩)
  · rw [emitted]
    rcases Nat.eq_zero_or_pos count with none | some
    · rw [none] at nested ⊢
      simpa using nested
    · have closes : bracketRole .outdent = .closes .indent := rfl
      refine nested_to_close_many closes count nested ?_
      intro left _
      exact sheltered_of_roomy (legal_indents _ rest (roomy some)) (roomy_indents _ (roomy some))

/-- An indented region stands on the top level, on a brace or on another
indented region, so a dedent never uncovers a parenthesis or a bracket. -/
theorem roomy_after_pop {pass : LayoutPass} (mirrors : Mirrors pass)
    (roomy : Roomy ((regionKinds pass).map bracketOf)) (more : Region → Bool) (here : Token) :
    Roomy ((regionKinds (popIndentedWhile pass more here)).map bracketOf) := by
  have before := popped_brackets pass.inner more
  have legal := mirrors.legal
  rw [regionKinds, List.map_map] at legal roomy ⊢
  rw [show (bracketOf ∘ Region.kind) = fun region => bracketOf region.kind from rfl] at *
  rw [before] at legal roomy
  rcases Nat.eq_zero_or_pos (pass.inner.takeWhile fun region =>
    region.kind == .indented && more region).length with none | some
  · rw [none, List.replicate_zero, List.nil_append] at roomy
    exact roomy
  · exact (legal_of_indents _ legal).2 some

theorem dedent_mirrors {pass next : LayoutPass} (mirrors : Mirrors pass)
    (roomy : Roomy ((regionKinds pass).map bracketOf)) {t : Token} {rest : List Token}
    (ok : dedent pass t rest = .ok next) : Mirrors next := by
  have popped := pop_indented_mirrors mirrors (fun region => decide (t.lineIndent < region.width)) t
  have stillRoomy := roomy_after_pop mirrors roomy
    (fun region => decide (t.lineIndent < region.width)) t
  unfold dedent at ok
  dsimp only at ok
  split_ifs at ok
  · cases ok
    exact newline_mirrors popped stillRoomy t
  · cases ok
    exact popped

theorem line_break_mirrors {pass next : LayoutPass} (mirrors : Mirrors pass) {t : Token}
    {rest : List Token} (ok : lineBreak pass t rest = .ok next) : Mirrors next := by
  unfold lineBreak at ok
  by_cases enclosed : pass.back.kind = .parens ∨ pass.back.kind = .brackets
  · rw [if_pos enclosed] at ok
    cases ok
    exact mirrors
  · rw [if_neg enclosed] at ok
    push Not at enclosed
    have same := settle_width_same_shape pass t
    have settled := mirrors.of_same_shape same
    have roomy : Roomy ((regionKinds (settleWidth pass t)).map bracketOf) := by
      rw [same.kinds]
      exact roomy_of_back enclosed.1 enclosed.2
    dsimp only at ok
    split_ifs at ok
    · cases ok
      exact indent_mirrors settled roomy _ t rfl
    · exact dedent_mirrors settled roomy ok
    · cases ok
      exact newline_mirrors settled roomy t
    · cases ok
      exact newline_mirrors settled roomy t
    · cases ok
      exact settled

theorem break_line_mirrors {pass next : LayoutPass} (mirrors : Mirrors pass) {t : Token}
    {rest : List Token} (ok : breakLine pass t rest = .ok next) : Mirrors next := by
  unfold breakLine at ok
  split_ifs at ok
  · exact line_break_mirrors mirrors ok
  · cases ok
    exact mirrors

/-- A closing keyword may pop the indented region its partner opened. -/
theorem close_by_keyword_mirrors {pass : LayoutPass} (mirrors : Mirrors pass) (t : Token) :
    Mirrors (closeByKeyword pass t) := by
  unfold closeByKeyword
  split
  · next satisfied equation =>
      have same := satisfy_pending_same_shape pass t.kind
      rw [equation] at same
      exact mirrors.of_same_shape same
  · split_ifs with _ closes
    · exact mirrors
    · apply Mirrors.of_same_shape _ (satisfy_pending_same_shape _ _)
      have kinds := region_kinds_of_back mirrors closes.1 (by decide)
      have legal := mirrors.legal
      have nested := mirrors.nested
      rw [kinds] at legal nested
      refine ⟨mirrors.top, ?_, legal.1, ?_⟩
      · intro member
        apply mirrors.proper
        rw [kinds]
        exact List.mem_cons_of_mem _ member
      · have emitted : emittedKinds (synth pass.popRegion .outdent t) =
            emittedKinds pass ++ [TokenKind.outdent] := by
          simp [emittedKinds, synth, synthToken, LayoutPass.popRegion]
        rw [emitted]
        refine nested_to_snoc nested ?_ rfl
        intro _
        exact sheltered_of_roomy legal (by simp [Roomy, bracketOf])
    · exact mirrors

theorem end_marker_mirrors {pass next : LayoutPass} (mirrors : Mirrors pass) {t : Token}
    {rest : List Token} (ok : endMarkerAt pass t rest = some next) : Mirrors next := by
  unfold endMarkerAt tryEndMarker at ok
  dsimp only at ok
  split_ifs at ok
  cases ok
  refine ⟨mirrors.top, mirrors.proper, mirrors.legal, ?_⟩
  simp only [emittedKinds, List.map_append, List.map_cons, List.map_nil]
  exact nested_to_snoc mirrors.nested (by simp [layoutGuard, isLayout]) rfl

theorem end_marker_designator {pass next : LayoutPass} {t : Token} {rest : List Token}
    (ok : endMarkerAt pass t rest = some next) : isEndDesignator (lookahead rest).kind = true := by
  unfold endMarkerAt tryEndMarker at ok
  dsimp only at ok
  split_ifs at ok with _ skipped
  simp only [Bool.or_eq_true, Bool.not_eq_eq_eq_not, Bool.not_true, not_or,
    Bool.not_eq_false] at skipped
  exact skipped.2

/-- What the `switch` on a token's kind leaves: the pass mirrors the emitted
tokens once the token itself is emitted. -/
structure MirrorsAfter (kind : TokenKind) (pass : LayoutPass) : Prop where
  top : pass.topLevel.kind = .topLevel
  proper : RegionKind.topLevel ∉ regionKinds pass
  legal : Legal ((regionKinds pass).map bracketOf)
  nested : ∃ stack, NestedTo bracketRole layoutGuard (emittedKinds pass) stack ∧
    nestStep bracketRole stack kind = some ((regionKinds pass).map bracketOf)

theorem MirrorsAfter.of_same_shape {kind : TokenKind} {pass next : LayoutPass}
    (mirrors : MirrorsAfter kind pass) (same : SameShape pass next) :
    MirrorsAfter kind next := by
  have emitted : emittedKinds next = emittedKinds pass := by rw [emittedKinds, same.out]; rfl
  constructor
  · rw [same.top, mirrors.top]
  · rw [same.kinds]
    exact mirrors.proper
  · rw [same.kinds]
    exact mirrors.legal
  · rw [same.kinds, emitted]
    exact mirrors.nested

theorem plain_mirrors_after {pass : LayoutPass} (mirrors : Mirrors pass) {kind : TokenKind}
    (plain : bracketRole kind = .plain) : MirrorsAfter kind pass := by
  refine ⟨mirrors.top, mirrors.proper, mirrors.legal, _, mirrors.nested, ?_⟩
  rw [nestStep, plain]

theorem push_mirrors_after {pass : LayoutPass} (mirrors : Mirrors pass) {kind : TokenKind}
    {region : Region} (opens : bracketRole kind = .opens (bracketOf region.kind))
    (bracket : bracketOf region.kind ≠ .indent) :
    MirrorsAfter kind (pass.pushRegion region) := by
  have kinds : regionKinds (pass.pushRegion region) = region.kind :: regionKinds pass := rfl
  refine ⟨mirrors.top, ?_, ?_, ?_⟩
  · rw [kinds]
    intro member
    rcases List.mem_cons.mp member with same | below
    · rw [← same] at bracket
      exact bracket rfl
    · exact mirrors.proper below
  · rw [kinds, List.map_cons]
    cases top : bracketOf region.kind with
    | indent => exact absurd top bracket
    | paren => exact mirrors.legal
    | square => exact mirrors.legal
    | brace => exact mirrors.legal
  · refine ⟨_, mirrors.nested, ?_⟩
    rw [nestStep, opens, kinds]
    rfl

theorem close_bracket_mirrors {pass next : LayoutPass} (mirrors : Mirrors pass) {t : Token}
    {condition : Bool} (closes : bracketRole t.kind = .closes (bracketOf (wantedRegion t.kind)))
    (ok : closeBracket pass t = .ok (next, condition)) :
    MirrorsAfter t.kind next := by
  have popped := pop_indented_mirrors mirrors (fun _ => true) t
  unfold closeBracket at ok
  dsimp only at ok
  split_ifs at ok with wanted
  push Not at wanted
  cases ok
  have inner : wantedRegion t.kind ≠ .topLevel := by
    unfold wantedRegion
    split <;> simp
  have kinds := region_kinds_of_back popped wanted inner
  have legal := popped.legal
  have nested := popped.nested
  rw [kinds] at legal nested
  refine ⟨popped.top, ?_, legal_tail legal, ?_⟩
  · intro member
    apply popped.proper
    rw [kinds]
    exact List.mem_cons_of_mem _ member
  · refine ⟨_, nested, ?_⟩
    simp [nestStep, closes]

theorem closing_token_mirrors {pass next : LayoutPass} (mirrors : Mirrors pass) {t : Token}
    {rest : List Token} {closesCondition : Bool} (closer : isCloser t.kind = true)
    (ok : closingToken pass t rest = .ok (next, closesCondition)) : MirrorsAfter t.kind next := by
  have wanted : bracketRole t.kind = .closes (bracketOf (wantedRegion t.kind)) := by
    cases kind : t.kind <;> simp_all [isCloser, bracketRole, bracketOf, wantedRegion]
  unfold closingToken at ok
  split at ok
  · cases ok
  · next closed condition equation =>
      have after := close_bracket_mirrors mirrors wanted equation
      have header : ∀ headed : Bool, SameShape closed
          (if headed then { closed with extensionHeaderLine := -1 } else closed) := by
        intro headed
        cases headed <;> exact ⟨rfl, rfl, rfl⟩
      simp only [Except.ok.injEq, Prod.mk.injEq] at ok
      rw [← ok.1]
      split_ifs
      · exact (after.of_same_shape (header true)).of_same_shape (condition_closed_same_shape _)
      · exact after.of_same_shape (condition_closed_same_shape _)
      · exact after.of_same_shape (header true)
      · exact after

theorem closer_cases {kind : TokenKind} (closer : isCloser kind = true) :
    kind = .rParen ∨ kind = .rBracket ∨ kind = .rBrace := by
  simpa [isCloser, or_assoc] using closer

theorem plain_role {kind : TokenKind} (ordinary : isLayout kind = false)
    (notCloser : isCloser kind ≠ true) (notParen : kind ≠ .lParen) (notBracket : kind ≠ .lBracket)
    (notBrace : kind ≠ .lBrace) : bracketRole kind = .plain := by
  cases kind
  case lParen => contradiction
  case lBracket => contradiction
  case lBrace => contradiction
  case rParen => exact absurd rfl notCloser
  case rBracket => exact absurd rfl notCloser
  case rBrace => exact absurd rfl notCloser
  case indent => cases ordinary
  case outdent => cases ordinary
  all_goals rfl

theorem switch_kind_mirrors {pass next : LayoutPass} (mirrors : Mirrors pass) {t : Token}
    {rest : List Token} {closesCondition : Bool} (ordinary : isLayout t.kind = false)
    (ok : switchKind pass t rest = .ok (next, closesCondition)) : MirrorsAfter t.kind next := by
  by_cases closer : isCloser t.kind = true
  · have shape : switchKind pass t rest = closingToken pass t rest := by
      unfold switchKind
      rcases closer_cases closer with kind | kind | kind <;> rw [kind]
    exact closing_token_mirrors mirrors closer (shape.symm.trans ok)
  · unfold switchKind at ok
    split at ok
    · next kind =>
        cases ok
        rw [kind]
        exact push_mirrors_after mirrors rfl (by simp [bracketOf])
    · next kind =>
        cases ok
        rw [kind]
        exact push_mirrors_after mirrors rfl (by simp [bracketOf])
    · next kind =>
        cases ok
        rw [kind]
        exact push_mirrors_after mirrors rfl (by simp [bracketOf])
    · next kind => simp [kind, isCloser] at closer
    · next kind => simp [kind, isCloser] at closer
    · next kind => simp [kind, isCloser] at closer
    · next kind =>
        cases ok
        rw [kind]
        exact (plain_mirrors_after mirrors rfl).of_same_shape (set_pending_same_shape _ _)
    case h_12 notParen notBracket notBrace _ _ _ _ _ _ _ _ =>
      cases ok
      exact plain_mirrors_after mirrors (plain_role ordinary closer notParen notBracket notBrace)
    all_goals
      next kind =>
        cases ok
        have plain : bracketRole t.kind = .plain := by
          rw [kind]
          rfl
        exact (plain_mirrors_after mirrors plain).of_same_shape (set_pending_same_shape _ _)

theorem ordinary_token_mirrors {pass next : LayoutPass} (mirrors : Mirrors pass) {t : Token}
    {rest : List Token} (ordinary : isLayout t.kind = false)
    (ok : ordinaryToken pass t rest = .ok next) : Mirrors next := by
  unfold ordinaryToken at ok
  split at ok
  · cases ok
  · next switched closesCondition equation =>
      have after := switch_kind_mirrors (close_by_keyword_mirrors mirrors t) ordinary equation
      cases ok
      obtain ⟨stack, nested, step⟩ := after.nested
      refine ⟨after.top, after.proper, after.legal, ?_⟩
      have emitted : bracketRole (emittedKind t rest) = bracketRole t.kind ∧
          isLayout (emittedKind t rest) = false := by
        unfold emittedKind
        split_ifs with eol
        · simp [eol.1, bracketRole, isLayout]
        · exact ⟨rfl, ordinary⟩
      simp only [emittedKinds, List.map_append, List.map_cons, List.map_nil]
      refine nested_to_snoc nested (by simp [layoutGuard, emitted.2]) ?_
      rw [nestStep, emitted.1]
      exact step

/-- The loop from one raw token on: when it returns, the whole output is well
nested. -/
theorem run_well_nested : ∀ (raw : List Token) (pass : LayoutPass) (out : List Token),
    Mirrors pass → (raw.getLast?).map Token.kind = some .endOfFile →
    (∀ t ∈ raw, isLayout t.kind = false) → run pass raw = .ok out →
    WellNested (out.map Token.kind)
  | [], _, _, _, ends, _, _ => by simp at ends
  | t :: rest, pass, out, mirrors, ends, ordinary, ok => by
      have restEnds : t.kind ≠ .endOfFile →
          (rest.getLast?).map Token.kind = some .endOfFile := by
        intro other
        cases rest with
        | nil => simp [other] at ends
        | cons next more => simpa using ends
      have restOrdinary : ∀ next ∈ rest, isLayout next.kind = false :=
        fun next member => ordinary next (List.mem_cons_of_mem _ member)
      rw [run] at ok
      split_ifs at ok with _ eof
      · have popped := pop_indented_mirrors mirrors (fun _ => true) t
        unfold atEndOfFile at ok
        dsimp only at ok
        split_ifs at ok with open_
        push Not at open_
        cases ok
        have nested := popped.nested
        rw [regionKinds, open_] at nested
        simp only [List.map_append, List.map_cons, List.map_nil, eof]
        exact nested_to_snoc nested (by simp [layoutGuard, isLayout]) rfl
      · have restEnds := restEnds eof
        split at ok
        · cases ok
        · next broken equation =>
            have brokenMirrors := break_line_mirrors mirrors equation
            split at ok
            · next marked found =>
                have markedMirrors := end_marker_mirrors brokenMirrors found
                have designates := end_marker_designator found
                cases rest with
                | nil => simp at restEnds
                | cons designator after =>
                    have afterEnds : (after.getLast?).map Token.kind = some .endOfFile := by
                      cases after with
                      | nil =>
                          have kind : designator.kind = .endOfFile := by simpa using restEnds
                          simp [lookahead, kind, isEndDesignator] at designates
                      | cons next more => simpa using restEnds
                    exact run_well_nested after marked out markedMirrors afterEnds
                      (fun next member => restOrdinary next (List.mem_cons_of_mem _ member)) ok
            · split at ok
              · cases ok
              · next next equation =>
                  have nextMirrors := ordinary_token_mirrors brokenMirrors
                    (ordinary t List.mem_cons_self) equation
                  exact run_well_nested rest next out nextMirrors restEnds restOrdinary ok

/-- Whenever `applyLayout` returns on an error-free raw vector, its output is a
well-nested word over the brackets, the braces and the indentation tokens, with
no layout token directly inside a `(` or `[`. -/
theorem apply_layout_well_nested (raw out : List Token) (tokens : RawTokens raw)
    (returns : applyLayout raw = .ok out) : WellNested (out.map Token.kind) := by
  cases raw with
  | nil => simpa using tokens.ends
  | cons first rest =>
      rw [applyLayout] at returns
      split_ifs at returns
      refine run_well_nested (first :: rest) _ out ?_ tokens.ends tokens.noLayout returns
      exact ⟨rfl, by simp [regionKinds], trivial, nested_to_nil⟩

/-- `def f =`, an indented `(1`, `)` on the next line, and the end of the file. -/
def indentedParens : List Token :=
  [{ kind := .kwDef, text := "def", firstOnLine := true },
   { kind := .identifier, text := "f" },
   { kind := .equals, text := "=" },
   { kind := .lParen, text := "(", firstOnLine := true, lineIndent := 2 },
   { kind := .intLit, text := "1", lineIndent := 2 },
   { kind := .rParen, text := ")", firstOnLine := true },
   { kind := .endOfFile, firstOnLine := true }]

theorem indented_parens_well_nested :
    applyLayout indentedParens = .ok ((indentedParens.take 3) ++
      [{ kind := .indent, lineIndent := 2 }] ++ (indentedParens.drop 3).take 3 ++
      [{ kind := .outdent }] ++ indentedParens.drop 6) ∧
    WellNested ([.kwDef, .identifier, .equals, .indent, .lParen, .intLit, .rParen, .outdent,
      .endOfFile] : List TokenKind) := by
  have returns : applyLayout indentedParens = .ok ((indentedParens.take 3) ++
      [{ kind := .indent, lineIndent := 2 }] ++ (indentedParens.drop 3).take 3 ++
      [{ kind := .outdent }] ++ indentedParens.drop 6) := by decide +kernel
  have tokens : RawTokens indentedParens := ⟨by decide, by decide, by decide⟩
  exact ⟨returns, apply_layout_well_nested indentedParens _ tokens returns⟩

end ProtoScala.Frontend.LayoutNesting

import Mathlib.Data.List.Basic
import Mathlib.Data.Int.Order.Basic

/-!
# The offside rule

`applyLayout` runs over the complete raw token vector and returns a new vector
with `newline`, `indent`, `outdent` and `endMarker` tokens inserted and a
line-final `:` turned into `colonEol`. The literal payloads of a token (numbers,
characters, decoded strings, interpolation parts) are never read here and are
left out.

The stacks of the source grow at the back of a vector; here the back is the
head of a list. The region stack is kept as the regions above the top level
together with the top-level region, which is never popped.
-/

namespace ProtoScala.Frontend.Layout

set_option autoImplicit false

structure SourcePos where
  line : Int
  column : Int
deriving DecidableEq, Repr

inductive TokenKind
  | intLit | floatLit | charLit | stringLit | interpolatedString
  | identifier
  | kwAbstract | kwCase | kwCatch | kwClass | kwDef | kwDo | kwElse | kwEnum | kwExport
  | kwExtends | kwFalse | kwFinal | kwFinally | kwFor | kwGiven | kwIf | kwImplicit
  | kwImport | kwLazy | kwMatch | kwNew | kwNull | kwObject | kwOverride | kwPackage
  | kwPrivate | kwProtected | kwReturn | kwSealed | kwSuper | kwThen | kwThis | kwThrow
  | kwTrait | kwTrue | kwTry | kwType | kwVal | kwVar | kwWhile | kwWith | kwYield
  | lParen | rParen | lBracket | rBracket | lBrace | rBrace
  | comma | semicolon | dot | colon | equals | arrow | ctxArrow | typeLambdaArrow
  | leftArrow | subtype | supertype | hash | at | underscore
  | colonEol | newline | indent | outdent | endMarker
  | endOfFile | error
deriving DecidableEq, Repr

structure Token where
  kind : TokenKind := .error
  text : String := ""
  pos : SourcePos := ⟨1, 1⟩
  endPos : SourcePos := ⟨1, 1⟩
  lineIndent : Int := 0
  firstOnLine : Bool := false
  pastBlankLine : Bool := false
  backquoted : Bool := false
  isOperator : Bool := false
  errorAtEof : Bool := false
deriving DecidableEq, Repr

instance : Inhabited Token := ⟨{}⟩

/-- `lexError` is the exception the callers handle; `invalidArgument` reports a
vector that no lexer produced. -/
inductive LayoutError
  | lexError (message : String) (pos : SourcePos) (atEof : Bool)
  | invalidArgument (message : String)
deriving DecidableEq, Repr

inductive RegionKind
  | topLevel | braces | parens | brackets | indented
deriving DecidableEq, Repr

/-- `pending` lists the constructs of the region that still wait for a partner
keyword, innermost first. -/
structure Region where
  kind : RegionKind
  width : Int := 0
  widthKnown : Bool := true
  opener : TokenKind := .endOfFile
  condition : Bool := false
  provisional : Bool := false
  pending : List TokenKind := []
deriving DecidableEq, Repr

def canEndStatement : TokenKind → Bool
  | .intLit | .floatLit | .charLit | .stringLit | .interpolatedString | .identifier
  | .kwThis | .kwNull | .kwTrue | .kwFalse | .kwReturn | .kwType | .underscore | .rParen
  | .rBracket | .rBrace | .endMarker | .outdent | .kwGiven => true
  | _ => false

def canBeginStatement : TokenKind → Bool
  | .kwCatch | .kwElse | .kwExtends | .kwFinally | .kwMatch | .kwWith | .kwYield | .kwThen
  | .kwDo | .comma | .dot | .semicolon | .colon | .colonEol | .equals | .arrow | .ctxArrow
  | .typeLambdaArrow | .leftArrow | .subtype | .supertype | .hash | .lBracket | .rParen
  | .rBracket | .rBrace | .endOfFile => false
  | _ => true

def opensRegion : TokenKind → Bool
  | .equals | .arrow | .ctxArrow | .leftArrow | .kwCatch | .kwDo | .kwElse | .kwFinally
  | .kwFor | .kwIf | .kwMatch | .kwReturn | .kwThen | .kwThrow | .kwTry | .kwWhile
  | .kwYield | .kwWith | .colonEol => true
  | _ => false

def continuesStatement : TokenKind → Bool
  | .kwThen | .kwElse | .kwDo | .kwCatch | .kwFinally | .kwYield | .kwMatch => true
  | _ => false

/-- Whether `closer` is the partner of `opener`. -/
def closesRegionOpenedBy (closer opener : TokenKind) : Bool :=
  match closer with
  | .kwThen => opener == .kwIf || opener == .rParen
  | .kwElse => opener == .kwThen || opener == .rParen
  | .kwDo => opener == .kwWhile || opener == .kwFor || opener == .rParen
  | .kwYield => opener == .kwFor || opener == .rParen || opener == .rBrace
  | .kwCatch => opener == .kwTry
  | .kwFinally => opener == .kwTry || opener == .kwCatch
  | _ => false

def isCloser (k : TokenKind) : Bool := k == .rParen || k == .rBracket || k == .rBrace

def isEndDesignator : TokenKind → Bool
  | .identifier | .kwIf | .kwWhile | .kwFor | .kwMatch | .kwTry | .kwNew | .kwThis | .kwVal
  | .kwGiven => true
  | _ => false

def isConditionKeyword (k : TokenKind) : Bool := k == .kwIf || k == .kwWhile || k == .kwFor

def openerName : RegionKind → String
  | .parens => "("
  | .brackets => "["
  | .braces => "\x7b"
  | _ => "?"

def tokenKindSpelling : TokenKind → String
  | .kwThen => "then"
  | .kwElse => "else"
  | .kwDo => "do"
  | .kwCatch => "catch"
  | .kwFinally => "finally"
  | .kwYield => "yield"
  | .kwMatch => "match"
  | _ => "?"

/-- The fields of `LayoutPass`. -/
structure LayoutPass where
  out : List Token := []
  inner : List Region := []
  topLevel : Region
  prevKind : TokenKind := .endOfFile
  prevClosesCondition : Bool := false
  extensionHeaderLine : Int := -1
deriving DecidableEq, Repr

namespace LayoutPass

/-- `regions_.back()`. -/
def back (pass : LayoutPass) : Region :=
  match pass.inner with
  | [] => pass.topLevel
  | region :: _ => region

def setBack (pass : LayoutPass) (region : Region) : LayoutPass :=
  match pass.inner with
  | [] => { pass with topLevel := region }
  | _ :: outer => { pass with inner := region :: outer }

def pushRegion (pass : LayoutPass) (region : Region) : LayoutPass :=
  { pass with inner := region :: pass.inner }

/-- `regions_.pop_back()`; the top level is never popped. -/
def popRegion (pass : LayoutPass) : LayoutPass := { pass with inner := pass.inner.tail }

def setPending (pass : LayoutPass) (pending : List TokenKind) : LayoutPass :=
  pass.setBack { pass.back with pending := pending }

end LayoutPass

open LayoutPass

def synthToken (k : TokenKind) (here : Token) : Token :=
  { kind := k, pos := here.pos, endPos := here.pos, lineIndent := here.lineIndent }

def synth (pass : LayoutPass) (k : TokenKind) (here : Token) : LayoutPass :=
  let pass := if k = .newline then pass.setPending [] else pass
  { pass with out := pass.out ++ [synthToken k here] }

/-- The loops `while (regions_.back().kind == Indented && ...)`: every popped
region leaves one `outdent`. The top level stops them. -/
def popIndentedWhile (pass : LayoutPass) (more : Region → Bool) (here : Token) : LayoutPass :=
  let leaves := fun region : Region => region.kind == .indented && more region
  { pass with
    inner := pass.inner.dropWhile leaves
    out := pass.out ++
      List.replicate (pass.inner.takeWhile leaves).length (synthToken .outdent here) }

/-- The raw token after the current one. Every reader has tested that the
current token is not the last. -/
def lookahead (rest : List Token) : Token := rest.headD default

def isLeadingInfix (t : Token) (rest : List Token) : Bool :=
  if t.kind != .identifier || !t.isOperator || t.backquoted then false
  else if t.pastBlankLine then false
  else
    let n := lookahead rest
    if n.kind == .endOfFile || n.firstOnLine then false
    else if n.pos.column ≤ t.endPos.column then false
    else canBeginStatement n.kind && !isCloser n.kind

def conditionOpener (pass : LayoutPass) (t : Token) : Bool :=
  pass.prevClosesCondition && t.kind != .kwThen && t.kind != .kwDo && t.kind != .kwYield

/-- A line break inside a brace region whose width is not settled yet gives it
the width of this line. -/
def settleWidth (pass : LayoutPass) (t : Token) : LayoutPass :=
  let w := t.lineIndent
  if pass.back.kind = .braces ∧ pass.back.widthKnown = false then
    pass.setBack { pass.back with width := w, widthKnown := true }
  else if pass.back.provisional then
    let widens := decide (w > pass.back.width) && !opensRegion pass.prevKind &&
      !conditionOpener pass t
    pass.setBack { pass.back with
      provisional := false, width := if widens then w else pass.back.width }
  else pass

/-- The branch of `lineBreak` for a line that is indented less than the
innermost region. -/
def dedent (pass : LayoutPass) (t : Token) (rest : List Token) :
    Except LayoutError LayoutPass :=
  let w := t.lineIndent
  if continuesStatement pass.prevKind then
    .error (.lexError ("the line after '" ++ tokenKindSpelling pass.prevKind ++
      "' is indented less than its enclosing block") t.pos false)
  else
    let popped := pass.back.kind == .indented && decide (w < pass.back.width)
    let next := popIndentedWhile pass (fun region => decide (w < region.width)) t
    let cur := next.back
    let between := popped && cur.kind == .indented && decide (w > cur.width)
    let belowTop := cur.kind == .topLevel && w != cur.width
    if (between || belowTop) && !isCloser t.kind then
      .error (.lexError "unindent does not match any outer indentation level" t.pos false)
    else
      let widthOk := w == cur.width || (cur.kind == .braces && decide (w < cur.width))
      if widthOk && (popped || canEndStatement pass.prevKind) && canBeginStatement t.kind &&
          !isLeadingInfix t rest then
        .ok (synth next .newline t)
      else .ok next

/-- An old-style condition is recorded as `rParen` whether it closed with `)` or,
for a `for` in braces, with the brace. -/
def indentedRegion (prevKind : TokenKind) (opener : Bool) (w : Int) : Region :=
  { kind := .indented, width := w, opener := if opener then .rParen else prevKind }

def lineBreak (pass : LayoutPass) (t : Token) (rest : List Token) :
    Except LayoutError LayoutPass :=
  if pass.back.kind = .parens ∨ pass.back.kind = .brackets then .ok pass
  else
    let w := t.lineIndent
    let opener := conditionOpener pass t
    let pass := settleWidth pass t
    if (opensRegion pass.prevKind || opener) ∧ w > pass.back.width then
      .ok (synth (pass.pushRegion (indentedRegion pass.prevKind opener w)) .indent t)
    else if w < pass.back.width then dedent pass t rest
    else if w = pass.back.width ∧ canEndStatement pass.prevKind ∧ canBeginStatement t.kind ∧
        isLeadingInfix t rest = false then
      .ok (synth pass .newline t)
    else if w > pass.back.width ∧ t.pastBlankLine ∧ canEndStatement pass.prevKind ∧
        canBeginStatement t.kind then
      .ok (synth pass .newline t)
    else .ok pass

/-- The pending list without the innermost partner of `closer` and what was
begun after it, or nothing when no partner is pending. -/
def partnerRemoved (closer : TokenKind) : List TokenKind → Option (List TokenKind)
  | [] => none
  | p :: older =>
      if closesRegionOpenedBy closer p then some older else partnerRemoved closer older

def satisfyPending (pass : LayoutPass) (closer : TokenKind) : LayoutPass × Bool :=
  match partnerRemoved closer pass.back.pending with
  | none => (pass, false)
  | some older =>
      let pending :=
        if closer = .kwThen ∨ closer = .kwCatch then closer :: older else older
      (pass.setPending pending, true)

def closeByKeyword (pass : LayoutPass) (t : Token) : LayoutPass :=
  match satisfyPending pass t.kind with
  | (satisfied, true) => satisfied
  | (_, false) =>
      if t.firstOnLine then pass
      else if pass.back.kind = .indented ∧ closesRegionOpenedBy t.kind pass.back.opener then
        (satisfyPending (synth pass.popRegion .outdent t) t.kind).1
      else pass

def conditionClosed (pass : LayoutPass) : LayoutPass :=
  match pass.back.pending with
  | [] => pass
  | p :: older =>
      if isConditionKeyword p then pass.setPending (.rParen :: older) else pass

def wantedRegion : TokenKind → RegionKind
  | .rParen => .parens
  | .rBracket => .brackets
  | _ => .braces

/-- The pass after the closed bracket and whether it was an old-style
condition. -/
def closeBracket (pass : LayoutPass) (t : Token) : Except LayoutError (LayoutPass × Bool) :=
  let pass := popIndentedWhile pass (fun _ => true) t
  if pass.back.kind ≠ wantedRegion t.kind then
    .error (.lexError ("unbalanced '" ++ t.text ++ "'") t.pos false)
  else .ok (pass.popRegion, pass.back.condition)

/-- `none` when the token is not the `end` of an end marker; otherwise the
designator is consumed as well. -/
def tryEndMarker (pass : LayoutPass) (t : Token) (rest : List Token) : Option LayoutPass :=
  let designator := lookahead rest
  if designator.firstOnLine || !isEndDesignator designator.kind then none
  else
    let after := (rest.tail.head?).getD designator
    if !(after.firstOnLine || after.kind == .endOfFile) then none
    else
      let m := { t with
        kind := .endMarker, text := designator.text, endPos := designator.endPos }
      some { pass with
        out := pass.out ++ [m], prevKind := .endMarker, prevClosesCondition := false }

/-- Whether a closed bracket ends the header of a collective extension. -/
def endsExtensionHeader (closed : LayoutPass) (t : Token) (rest : List Token)
    (condition : Bool) : Bool :=
  !condition && decide (closed.extensionHeaderLine ≥ 0) &&
    t.pos.line == closed.extensionHeaderLine && (lookahead rest).firstOnLine

/-- The closers of the `switch`: the bracket that ends the header of a collective
extension counts as a closed condition. -/
def closingToken (pass : LayoutPass) (t : Token) (rest : List Token) :
    Except LayoutError (LayoutPass × Bool) :=
  match closeBracket pass t with
  | .error e => .error e
  | .ok (closed, condition) =>
      let header := endsExtensionHeader closed t rest condition
      let closed := if header then { closed with extensionHeaderLine := -1 } else closed
      let closesCondition := condition || header
      .ok (if closesCondition then conditionClosed closed else closed, closesCondition)

/-- The `switch` on the token's kind: the regions after the token and whether
it closed a condition. -/
def switchKind (pass : LayoutPass) (t : Token) (rest : List Token) :
    Except LayoutError (LayoutPass × Bool) :=
  match t.kind with
  | .lParen =>
      .ok (pass.pushRegion
        { kind := .parens, condition := isConditionKeyword pass.prevKind }, false)
  | .lBracket => .ok (pass.pushRegion { kind := .brackets }, false)
  | .lBrace =>
      let sameLine := !(lookahead rest).firstOnLine
      .ok (pass.pushRegion
        { kind := .braces
          width := if sameLine then t.lineIndent else 0
          widthKnown := sameLine
          condition := pass.prevKind == .kwFor
          provisional := sameLine }, false)
  | .rParen | .rBracket | .rBrace => closingToken pass t rest
  | .semicolon => .ok (pass.setPending [], false)
  | .kwIf | .kwTry | .kwWhile | .kwFor =>
      .ok (pass.setPending (t.kind :: pass.back.pending), false)
  | _ => .ok (pass, false)

def startsExtension (t : Token) (rest : List Token) : Bool :=
  t.kind == .identifier && t.firstOnLine && !t.backquoted && t.text == "extension" &&
    ((lookahead rest).kind == .lParen || (lookahead rest).kind == .lBracket)

def emittedKind (t : Token) (rest : List Token) : TokenKind :=
  if t.kind = .colon ∧ (lookahead rest).firstOnLine then .colonEol else t.kind

/-- The loop body from `closeByKeyword` on. -/
def ordinaryToken (pass : LayoutPass) (t : Token) (rest : List Token) :
    Except LayoutError LayoutPass :=
  match switchKind (closeByKeyword pass t) t rest with
  | .error e => .error e
  | .ok (pass, closesCondition) =>
      let kind := emittedKind t rest
      .ok { pass with
        extensionHeaderLine :=
          if startsExtension t rest then t.pos.line else pass.extensionHeaderLine
        out := pass.out ++ [{ t with kind := kind }]
        prevKind := kind
        prevClosesCondition := closesCondition }

def atEndOfFile (pass : LayoutPass) (t : Token) : Except LayoutError (List Token) :=
  let pass := popIndentedWhile pass (fun _ => true) t
  if pass.inner ≠ [] then
    .error (.lexError ("unclosed '" ++ openerName pass.back.kind ++ "'") t.pos true)
  else .ok (pass.out ++ [t])

def breakLine (pass : LayoutPass) (t : Token) (rest : List Token) :
    Except LayoutError LayoutPass :=
  if t.firstOnLine && !pass.out.isEmpty then lineBreak pass t rest else .ok pass

/-- `t.kind == Identifier && t.text == "end" && t.firstOnLine && tryEndMarker(i)`. -/
def endMarkerAt (pass : LayoutPass) (t : Token) (rest : List Token) : Option LayoutPass :=
  if t.kind == .identifier && t.text == "end" && t.firstOnLine then tryEndMarker pass t rest
  else none

/-- The loop of `LayoutPass::run` from one raw token on. -/
def run (pass : LayoutPass) : List Token → Except LayoutError (List Token)
  | [] => .ok pass.out
  | t :: rest =>
      if t.kind = .error then .error (.lexError t.text t.pos t.errorAtEof)
      else if t.kind = .endOfFile then atEndOfFile pass t
      else
        match breakLine pass t rest with
        | .error e => .error e
        | .ok broken =>
            match endMarkerAt broken t rest with
            | some marked =>
                match rest with
                | [] => .ok marked.out
                | _ :: afterDesignator => run marked afterDesignator
            | none =>
                match ordinaryToken broken t rest with
                | .error e => .error e
                | .ok next => run next rest

def applyLayout (raw : List Token) : Except LayoutError (List Token) :=
  match raw with
  | [] => .ok [{ kind := .endOfFile }]
  | first :: _ =>
      let last := (raw.getLastD first).kind
      if last ≠ .endOfFile ∧ last ≠ .error then
        .error (.invalidArgument
          "applyLayout: token vector must end with EndOfFile or Error")
      else run { topLevel := { kind := .topLevel, width := first.lineIndent } } raw

end ProtoScala.Frontend.Layout

import ProtoScala.Frontend.Operators
import ProtoScala.Library.OperatorTrees

/-!
# Infix expressions

`parseInfix` climbs precedence levels: the right operand of an operator is parsed with
that operator's level as the minimum, or with the next one when the operator associates
to the left. Every activation of the loop keeps the associativity last seen at each level
and forgets the levels that a looser operator closes.

An operand is what `parsePrefix` reads. The input after the first operand is a list of
operators, each with the operand behind it.
-/

namespace ProtoScala.Frontend.InfixParsing

open ProtoScala.Frontend.Operators (isAssignmentOperator isRightAssociative isLetterStart)
open ProtoScala.Library.OperatorTrees

set_option autoImplicit false

/-- Scala precedence by the first character; a higher level binds tighter. -/
def precedence (op : String) : Nat :=
  if isAssignmentOperator op then 0
  else
    match op.toList with
    | [] => 10
    | c :: _ =>
        if isLetterStart c then 1
        else if c = '|' then 2
        else if c = '^' then 3
        else if c = '&' then 4
        else if c = '=' ∨ c = '!' then 5
        else if c = '<' ∨ c = '>' then 6
        else if c = ':' then 7
        else if c = '+' ∨ c = '-' then 8
        else if c = '*' ∨ c = '/' ∨ c = '%' then 9
        else 10

/-- The levels and the associativity of operators. -/
def fixity : Fixity String where
  level := precedence
  right := isRightAssociative

inductive ParseError where
  | failed (message : String)
  | outOfFuel
  deriving DecidableEq, Repr

def mixedMessage : String :=
  "left- and right-associative operators with the same precedence may not be mixed"

/-- The associativity seen at a level, `true` for the right. -/
abbrev Seen := Nat → Option Bool

/-- What an activation starts from: the operator whose right operand is parsed. -/
def seedSeen : Option (Nat × Bool) → Seen
  | some (assocPrec, assocRight) => fun level => if level = assocPrec then some assocRight else none
  | none => fun _ => none

/-- Behind an operator of level `p`. -/
def noteSeen (seen : Seen) (p : Nat) (right : Bool) : Seen := fun level =>
  if level = p then some right else if p < level then none else seen level

section Parser

variable {E : Type}

mutual

def parseInfix : Nat → E → List (String × E) → Nat → Option (Nat × Bool) →
    Except ParseError (Tree E String × List (String × E))
  | 0, _, _, _, _ => .error .outOfFuel
  | fuel + 1, e, rest, minPrec, assoc =>
      parseInfixLoop fuel (.operand e) rest minPrec (seedSeen assoc)

def parseInfixLoop : Nat → Tree E String → List (String × E) → Nat → Seen →
    Except ParseError (Tree E String × List (String × E))
  | _, lhs, [], _, _ => .ok (lhs, [])
  | 0, _, _ :: _, _, _ => .error .outOfFuel
  | fuel + 1, lhs, (op, e) :: others, minPrec, seen =>
      let p := precedence op
      if p < minPrec then .ok (lhs, (op, e) :: others)
      else
        let right := isRightAssociative op
        if seen p ≠ none ∧ seen p ≠ some right then .error (.failed mixedMessage)
        else do
          let (rhs, rest) ←
            if right then parseInfix fuel e others p (some (p, true))
            else parseInfix fuel e others (p + 1) none
          parseInfixLoop fuel (.node lhs op rhs) rest minPrec (noteSeen seen p right)

end

/-- `parseInfix(0)` on a first operand and what follows it. -/
def parseOperators (e : E) (rest : List (String × E)) :
    Except ParseError (Tree E String × List (String × E)) :=
  parseInfix (2 * rest.length + 1) e rest 0 none

/-! ## The memory of an activation -/

/-- The operator last seen at a level, with tighter ones only behind it; `done` holds the
operators before, the newest first. -/
def Remembers (done : List String) (level : Nat) (right : Bool) : Prop :=
  ∃ tight op older, done = tight ++ op :: older ∧ precedence op = level ∧
    isRightAssociative op = right ∧ ∀ x ∈ tight, level < precedence x

def Honest (done : List String) (seen : Seen) : Prop :=
  ∀ level right, seen level = some right → Remembers done level right

/-- Operators of a level or tighter ones, those of the level with one associativity, leave
the level remembered. -/
theorem remembers_append {front done : List String} {level : Nat} {right : Bool}
    (remembered : Remembers done level right)
    (within : ∀ x ∈ front, level ≤ precedence x ∧
      (precedence x = level → isRightAssociative x = right)) :
    Remembers (front ++ done) level right := by
  induction front with
  | nil => exact remembered
  | cons x front induction =>
      have here := within x List.mem_cons_self
      rcases Nat.lt_or_ge level (precedence x) with tighter | same
      · obtain ⟨tight, op, older, split, atLevel, associates, above⟩ :=
          induction fun y member => within y (List.mem_cons_of_mem x member)
        refine ⟨x :: tight, op, older, by simp [split], atLevel, associates, ?_⟩
        intro y member
        rcases List.mem_cons.mp member with rfl | member
        · exact tighter
        · exact above y member
      · have level' : precedence x = level := by omega
        exact ⟨[], x, front ++ done, rfl, level', here.2 level', by simp⟩

theorem honest_seed {done : List String} {assoc : Option (Nat × Bool)}
    (remembered : ∀ p right, assoc = some (p, right) → Remembers done p right) :
    Honest done (seedSeen assoc) := by
  intro level right seen
  cases assoc with
  | none => cases seen
  | some pair =>
      obtain ⟨p, assocRight⟩ := pair
      simp only [seedSeen] at seen
      split at seen
      · next same =>
          obtain rfl := Option.some.inj seen
          exact same ▸ remembered p assocRight rfl
      · cases seen

/-- Behind an operator and its right operand. -/
theorem honest_note {done front : List String} {seen : Seen} {op : String}
    (honest : Honest done seen)
    (within : ∀ x ∈ front, precedence op ≤ precedence x ∧
      (precedence x = precedence op → isRightAssociative x = isRightAssociative op)) :
    Honest (front ++ op :: done) (noteSeen seen (precedence op) (isRightAssociative op)) := by
  intro level right note
  unfold noteSeen at note
  split at note
  · next same =>
      obtain rfl := Option.some.inj note
      subst same
      exact remembers_append ⟨[], op, done, rfl, rfl, rfl, by simp⟩ within
  · next differs =>
      split at note
      · cases note
      · next looser =>
          have below : level < precedence op := by omega
          obtain ⟨tight, last, older, split, atLevel, associates, above⟩ := honest level right note
          refine ⟨front ++ op :: tight, last, older, by simp [split], atLevel, associates, ?_⟩
          intro x member
          rcases List.mem_append.mp member with inFront | inTight
          · have := (within x inFront).1
            omega
          · rcases List.mem_cons.mp inTight with rfl | inTight
            · exact below
            · exact above x inTight

/-- An operator that the check refuses is mixed with the one remembered. -/
theorem mixed_of_refused {done : List String} {op : String} {right : Bool} (after : List String)
    (remembered : Remembers done (precedence op) right) (differs : right ≠ isRightAssociative op) :
    Mixed fixity (done.reverse ++ op :: after) := by
  obtain ⟨tight, last, older, split, atLevel, associates, above⟩ := remembered
  refine ⟨older.reverse, last, tight.reverse, op, after, by simp [split], atLevel, ?_, ?_⟩
  · exact fun same => differs (associates.symm.trans same)
  · intro x member
    have tighter := above x (List.mem_reverse.mp member)
    simp only [fixity]
    omega

/-! ## What an activation reads -/

/-- The left operand so far may take the next operator. -/
def Extends (minPrec : Nat) (seen : Seen) (rest : List (String × E)) : Tree E String → Prop
  | .operand _ => True
  | .node _ op _ =>
      minPrec ≤ precedence op ∧ seen (precedence op) = some (isRightAssociative op) ∧
        ∀ next others, rest = next :: others → precedence next.1 ≤ precedence op ∧
          (isRightAssociative op = true → precedence next.1 < precedence op)

/-- The operators an activation has read: none is looser than its minimum, and those at
the minimum associate as it was told. -/
def Within (minPrec : Nat) (seen : Seen) (ops : List String) : Prop :=
  ∀ x ∈ ops, minPrec ≤ precedence x ∧
    ∀ right, seen minPrec = some right → precedence x = minPrec → isRightAssociative x = right

structure Read (minPrec : Nat) (seen : Seen) (lhs : Tree E String) (rest : List (String × E))
    (tree : Tree E String) (left : List (String × E)) : Prop where
  reads : ∃ used, rest = used ++ left ∧ tree.rest = lhs.rest ++ used ∧
    Within minPrec seen (used.map Prod.fst)
  first : tree.first = lhs.first
  grouped : Grouped fixity tree
  stops : ∀ next others, left = next :: others → precedence next.1 < minPrec

/-- What the loop may give: a grouped tree and what it has not read, or the error when the
operators are mixed. -/
def Meets (done : List String) (minPrec : Nat) (seen : Seen) (lhs : Tree E String)
    (rest : List (String × E)) :
    Except ParseError (Tree E String × List (String × E)) → Prop
  | .ok (tree, left) => Read minPrec seen lhs rest tree left
  | .error (.failed message) =>
      message = mixedMessage ∧ Mixed fixity (done.reverse ++ rest.map Prod.fst)
  | .error .outOfFuel => False

/-- The minimum level of the right operand of an operator. -/
def operandLevel (op : String) : Nat :=
  if isRightAssociative op then precedence op else precedence op + 1

def operandSeed (op : String) : Option (Nat × Bool) :=
  if isRightAssociative op then some (precedence op, true) else none

theorem honest_operand (op : String) (done : List String) :
    Honest (op :: done) (seedSeen (operandSeed op)) := by
  apply honest_seed
  intro p right given
  unfold operandSeed at given
  split at given
  · next isRight =>
      cases given
      exact ⟨[], op, done, rfl, rfl, isRight, by simp⟩
  · cases given

/-- The operators of a right operand bind tighter than the operator before it, or as tight
and to the right as it does. -/
theorem within_operand {op : String} {ops : List String}
    (within : Within (operandLevel op) (seedSeen (operandSeed op)) ops) :
    ∀ x ∈ ops, precedence op ≤ precedence x ∧
      (precedence x = precedence op → isRightAssociative x = isRightAssociative op) := by
  intro x member
  obtain ⟨level, associates⟩ := within x member
  cases right : isRightAssociative op with
  | true =>
      simp only [operandLevel, operandSeed, right, if_true] at level associates
      exact ⟨level, associates true (by simp [seedSeen])⟩
  | false =>
      simp only [operandLevel, right, Bool.false_eq_true, if_false] at level
      exact ⟨by omega, by omega⟩

theorem fits_right_of_read {op : String} {e : E} {others left : List (String × E)}
    {rhs : Tree E String}
    (read : Read (operandLevel op) (seedSeen (operandSeed op)) (.operand e) others rhs left) :
    FitsRight fixity op rhs := by
  cases rhs with
  | operand e' => trivial
  | node l inner r =>
      obtain ⟨used, -, rest, within⟩ := read.reads
      have member : inner ∈ used.map Prod.fst := by
        have whole : Library.OperatorTrees.Tree.rest (.node l inner r) = used := rest
        rw [← whole]
        simp [Tree.rest]
      obtain ⟨level, associates⟩ := within inner member
      cases right : isRightAssociative op with
      | true =>
          simp only [operandLevel, operandSeed, right, if_true] at level associates
          rcases Nat.lt_or_ge (precedence op) (precedence inner) with tighter | same
          · exact Or.inl tighter
          · have level' : precedence inner = precedence op := by omega
            exact Or.inr ⟨level'.symm, right, associates true (by simp [seedSeen]) level'⟩
      | false =>
          simp only [operandLevel, right, Bool.false_eq_true, if_false] at level
          exact Or.inl (by simp only [fixity]; omega)

/-- An operator that the check lets through may take the left operand. -/
theorem fits_left_of_extends {minPrec : Nat} {seen : Seen} {op : String} {e : E}
    {others : List (String × E)} {lhs : Tree E String}
    (extending : Extends minPrec seen ((op, e) :: others) lhs)
    (agreed : seen (precedence op) = none ∨ seen (precedence op) = some (isRightAssociative op)) :
    FitsLeft fixity op lhs := by
  cases lhs with
  | operand e' => trivial
  | node l inner r =>
      obtain ⟨-, known, next⟩ := extending
      obtain ⟨level, looser⟩ := next _ _ rfl
      simp only at level looser
      rcases Nat.lt_or_ge (precedence op) (precedence inner) with tighter | same
      · exact Or.inl tighter
      · have level' : precedence op = precedence inner := by omega
        have notRight : isRightAssociative inner = false := by
          rw [Bool.eq_false_iff]
          intro isRight
          have := looser isRight
          omega
        rw [level', known] at agreed
        rcases agreed with none' | same'
        · cases none'
        · exact Or.inr ⟨level', (Option.some.inj same').symm.trans notRight, notRight⟩

/-- The loop goes on behind an operator and its right operand. -/
theorem extends_node {minPrec : Nat} {seen : Seen} {op : String} {e : E}
    {others left : List (String × E)} {lhs rhs : Tree E String}
    (enough : minPrec ≤ precedence op)
    (read : Read (operandLevel op) (seedSeen (operandSeed op)) (.operand e) others rhs left) :
    Extends minPrec (noteSeen seen (precedence op) (isRightAssociative op)) left
      (.node lhs op rhs) := by
  refine ⟨enough, by simp [noteSeen], ?_⟩
  intro next rest split
  have stops := read.stops next rest split
  unfold operandLevel at stops
  cases right : isRightAssociative op with
  | true =>
      simp only [right, if_true] at stops
      exact ⟨by omega, fun _ => stops⟩
  | false =>
      simp only [right, Bool.false_eq_true, if_false] at stops
      exact ⟨by omega, by simp⟩

/-- What the rest of the loop reads is read by the whole loop. -/
theorem read_step {minPrec : Nat} {seen : Seen} {op : String} {e : E}
    {others left left' : List (String × E)} {lhs rhs tree : Tree E String}
    (enough : minPrec ≤ precedence op)
    (agreed : seen (precedence op) = none ∨ seen (precedence op) = some (isRightAssociative op))
    (operand : Read (operandLevel op) (seedSeen (operandSeed op)) (.operand e) others rhs left)
    (later : Read minPrec (noteSeen seen (precedence op) (isRightAssociative op))
      (.node lhs op rhs) left tree left') :
    Read minPrec seen lhs ((op, e) :: others) tree left' := by
  obtain ⟨used, split, rest, within⟩ := operand.reads
  obtain ⟨used', split', rest', within'⟩ := later.reads
  have operandWithin := within_operand within
  -- at the minimum the memory stays what it was
  have minimum : ∀ right, seen minPrec = some right →
      (precedence op = minPrec → isRightAssociative op = right) ∧
        noteSeen seen (precedence op) (isRightAssociative op) minPrec = some right := by
    intro right known
    unfold noteSeen
    by_cases here : minPrec = precedence op
    · rw [← here, known] at agreed
      have same : isRightAssociative op = right := by
        rcases agreed with none' | same
        · cases none'
        · exact (Option.some.inj same).symm
      simp [here, same]
    · rw [if_neg here, if_neg (by omega)]
      exact ⟨fun same => absurd same.symm here, known⟩
  refine ⟨⟨(op, e) :: (used ++ used'), by simp [split, split'], ?_, ?_⟩, later.first,
    later.grouped, later.stops⟩
  · have firstRead : rhs.first = e := operand.first
    have restRead : rhs.rest = used := rest
    rw [rest', Tree.rest, firstRead, restRead]
    simp
  · intro x member
    simp only [List.map_cons, List.map_append, List.mem_cons, List.mem_append] at member
    rcases member with rfl | inOperand | inLater
    · exact ⟨enough, fun right known => (minimum right known).1⟩
    · obtain ⟨level, associates⟩ := operandWithin x inOperand
      refine ⟨by omega, fun right known same => ?_⟩
      rw [associates (by omega)]
      exact (minimum right known).1 (by omega)
    · obtain ⟨level, associates⟩ := within' x inLater
      exact ⟨level, fun right known => associates right (minimum right known).2⟩

/-- One round of the loop: the right operand, then what follows. -/
theorem parse_infix_loop_step {fuel minPrec : Nat} {seen : Seen} {op : String} {e : E}
    {others : List (String × E)} {lhs : Tree E String} (enough : minPrec ≤ precedence op)
    (agreed : seen (precedence op) = none ∨ seen (precedence op) = some (isRightAssociative op)) :
    parseInfixLoop (fuel + 2) lhs ((op, e) :: others) minPrec seen =
      (parseInfixLoop fuel (.operand e) others (operandLevel op) (seedSeen (operandSeed op))).bind
        fun result => parseInfixLoop (fuel + 1) (.node lhs op result.1) result.2 minPrec
          (noteSeen seen (precedence op) (isRightAssociative op)) := by
  have accepted : ¬(seen (precedence op) ≠ none ∧
      seen (precedence op) ≠ some (isRightAssociative op)) := by tauto
  rw [parseInfixLoop]
  simp only
  rw [if_neg (by omega), if_neg accepted]
  unfold operandLevel operandSeed
  cases right : isRightAssociative op <;> simp [parseInfix, bind]

theorem parse_infix_loop_meets (fuel : Nat) :
    ∀ (done : List String) (lhs : Tree E String) (rest : List (String × E)) (minPrec : Nat)
      (seen : Seen), 2 * rest.length ≤ fuel → Grouped fixity lhs → Honest done seen →
      Extends minPrec seen rest lhs →
      Meets done minPrec seen lhs rest (parseInfixLoop fuel lhs rest minPrec seen) := by
  induction fuel using Nat.strongRecOn with
  | ind fuel induction =>
      intro done lhs rest minPrec seen enough grouped honest extending
      cases rest with
      | nil =>
          rw [parseInfixLoop]
          exact ⟨⟨[], rfl, by simp, by simp [Within]⟩, rfl, grouped, by simp⟩
      | cons pair others =>
          obtain ⟨op, e⟩ := pair
          obtain ⟨fuel, rfl⟩ : ∃ below, fuel = below + 2 := ⟨fuel - 2, by simp at enough; omega⟩
          simp only [List.length_cons] at enough
          by_cases looser : precedence op < minPrec
          · rw [parseInfixLoop]
            simp only
            rw [if_pos looser]
            refine ⟨⟨[], rfl, by simp, by simp [Within]⟩, rfl, grouped, ?_⟩
            rintro next rest ⟨⟩
            exact looser
          have atLeast : minPrec ≤ precedence op := by omega
          by_cases refused : seen (precedence op) ≠ none ∧
              seen (precedence op) ≠ some (isRightAssociative op)
          · rw [parseInfixLoop]
            simp only
            rw [if_neg looser, if_pos refused]
            obtain ⟨right, known⟩ := Option.ne_none_iff_exists'.mp refused.1
            refine ⟨rfl, mixed_of_refused _ (honest _ right known) ?_⟩
            rintro rfl
            exact refused.2 known
          have agreed : seen (precedence op) = none ∨
              seen (precedence op) = some (isRightAssociative op) := by tauto
          have operand := induction fuel (by omega) (op :: done) (.operand e) others
            (operandLevel op) (seedSeen (operandSeed op)) (by omega) trivial
            (honest_operand op done) trivial
          rw [parse_infix_loop_step atLeast agreed]
          cases parsed : parseInfixLoop fuel (.operand e) others (operandLevel op)
              (seedSeen (operandSeed op)) with
          | error failure =>
              rw [parsed] at operand
              cases failure with
              | outOfFuel => exact operand.elim
              | failed message => simpa [Meets, Except.bind] using operand
          | ok result =>
              obtain ⟨rhs, left⟩ := result
              rw [parsed] at operand
              obtain ⟨used, split, restRead, within⟩ := operand.reads
              have shorter : left.length ≤ others.length := by simp [split]
              have node : Grouped fixity (.node lhs op rhs) :=
                ⟨grouped, operand.grouped, fits_left_of_extends extending agreed,
                  fits_right_of_read operand⟩
              have later := induction (fuel + 1) (by omega)
                ((used.map Prod.fst).reverse ++ op :: done) (.node lhs op rhs) left minPrec
                (noteSeen seen (precedence op) (isRightAssociative op)) (by omega) node
                (honest_note honest fun x member =>
                  within_operand within x (List.mem_reverse.mp member))
                (extends_node atLeast operand)
              simp only [Except.bind]
              cases finished : parseInfixLoop (fuel + 1) (.node lhs op rhs) left minPrec
                  (noteSeen seen (precedence op) (isRightAssociative op)) with
              | error failure =>
                  rw [finished] at later
                  cases failure with
                  | outOfFuel => exact later.elim
                  | failed message => simpa [Meets, split] using later
              | ok result =>
                  rw [finished] at later
                  exact read_step atLeast agreed operand later

/-! ## The whole expression -/

/-- The tree of an infix expression: it reads as the source does and follows the levels
and the associativity of the operators. -/
structure Groups (e : E) (rest : List (String × E)) (tree : Tree E String) : Prop where
  first : tree.first = e
  rest : tree.rest = rest
  grouped : Grouped fixity tree

/-- `parseInfix(0)` gives the only tree that follows the operators, and the error exactly
when operators of one level and different associativity meet. -/
theorem infix_groups_uniquely (e : E) (rest : List (String × E)) :
    (parseOperators e rest = .error (.failed mixedMessage) ↔
        Mixed fixity (rest.map Prod.fst)) ∧
      (¬Mixed fixity (rest.map Prod.fst) →
        ∃ tree, parseOperators e rest = .ok (tree, []) ∧ Groups e rest tree ∧
          ∀ other, Groups e rest other → other = tree) := by
  have meets := parse_infix_loop_meets (2 * rest.length) [] (.operand e) rest 0 (seedSeen none)
    (Nat.le_refl _) trivial (honest_seed (by simp)) trivial
  have started : parseOperators e rest =
      parseInfixLoop (2 * rest.length) (.operand e) rest 0 (seedSeen none) := rfl
  rw [← started] at meets
  cases parsed : parseOperators e rest with
  | error failure =>
      rw [parsed] at meets
      cases failure with
      | outOfFuel => exact meets.elim
      | failed message =>
          obtain ⟨rfl, mixed⟩ := meets
          exact ⟨⟨fun _ => mixed, fun _ => rfl⟩, fun unmixed => absurd mixed unmixed⟩
  | ok result =>
      obtain ⟨tree, left⟩ := result
      rw [parsed] at meets
      obtain ⟨used, split, restRead, -⟩ := meets.reads
      obtain rfl : left = [] := by
        cases left with
        | nil => rfl
        | cons next others => exact absurd (meets.stops next others rfl) (by omega)
      have groups : Groups e rest tree :=
        ⟨meets.first, by simpa [split, Tree.rest] using restRead, meets.grouped⟩
      have unmixed : ¬Mixed fixity (rest.map Prod.fst) := by
        have grouped := not_mixed groups.grouped
        rwa [Tree.ops, groups.rest] at grouped
      refine ⟨⟨by simp, fun mixed => absurd mixed unmixed⟩, fun _ => ⟨tree, rfl, groups, ?_⟩⟩
      intro other also
      exact grouped_unique also.grouped groups.grouped (also.first.trans groups.first.symm)
        (also.rest.trans groups.rest.symm)

/-- `a + b * c` has its one tree. -/
theorem sum_of_product_groups :
    ∃ tree, parseOperators "a" [("+", "b"), ("*", "c")] = .ok (tree, []) ∧
      Groups "a" [("+", "b"), ("*", "c")] tree ∧
        ∀ other, Groups "a" [("+", "b"), ("*", "c")] other → other = tree := by
  refine (infix_groups_uniquely "a" [("+", "b"), ("*", "c")]).2 ?_
  intro mixed
  have refused := (infix_groups_uniquely "a" [("+", "b"), ("*", "c")]).1.mpr mixed
  have accepted : parseOperators "a" [("+", "b"), ("*", "c")] =
      .ok (.node (.operand "a") "+" (.node (.operand "b") "*" (.operand "c")), []) := by rfl
  rw [accepted] at refused
  cases refused

end Parser

end ProtoScala.Frontend.InfixParsing

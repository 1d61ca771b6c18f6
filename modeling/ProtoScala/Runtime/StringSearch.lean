import Mathlib
import ProtoScala.Library.Searching
import ProtoScala.Library.Utf8

/-!
# Searching a String

`indexOf`, `lastIndexOf`, `split` and `replace` search bytes and answer in code points. A
well-formed needle occurs in a well-formed text exactly where its characters do, so a place
found among the bytes is the place of a character.
-/

namespace ProtoScala.Runtime.StringSearch

open ProtoScala.Library.Searching
open ProtoScala.Library.Utf8

set_option autoImplicit false

abbrev Bytes := List UInt8

def utf8 (text : List Char) : Bytes := text.flatMap String.utf8EncodeChar

def isContinuation (b : UInt8) : Bool := b &&& 0xC0 == 0x80

/-- Code points in the first bytes. -/
def codePointsBefore (s : Bytes) (bytes : Nat) : Int :=
  (s.take bytes).countP fun b => !isContinuation b

/-- The loop of `byteOffsetOf`. -/
def byteOffsetFrom (cp : Int) : Bytes → Nat → Nat → Nat
  | [], i, _ => i
  | b :: rest, i, seen =>
      if isContinuation b then byteOffsetFrom cp rest (i + 1) seen
      else if (seen : Int) = cp then i
      else byteOffsetFrom cp rest (i + 1) (seen + 1)

def byteOffsetOf (s : Bytes) (cp : Int) : Nat := byteOffsetFrom cp s 0 0

def appendUtf8 (c : Nat) : Bytes :=
  if c < 0x80 then [UInt8.ofNat c]
  else if c < 0x800 then [UInt8.ofNat (0xC0 ||| c >>> 6), UInt8.ofNat (0x80 ||| (c &&& 0x3F))]
  else if c < 0x10000 then
    [UInt8.ofNat (0xE0 ||| c >>> 12), UInt8.ofNat (0x80 ||| ((c >>> 6) &&& 0x3F)),
      UInt8.ofNat (0x80 ||| (c &&& 0x3F))]
  else
    [UInt8.ofNat (0xF0 ||| c >>> 18), UInt8.ofNat (0x80 ||| ((c >>> 12) &&& 0x3F)),
      UInt8.ofNat (0x80 ||| ((c >>> 6) &&& 0x3F)), UInt8.ofNat (0x80 ||| (c &&& 0x3F))]

/-- A String, or a Char that is a character. -/
inductive Arg where
  | string (text : List Char)
  | char (c : Char)

def textArg : Arg → Bytes
  | .string text => utf8 text
  | .char c => appendUtf8 c.toNat

/-- A position found, in code points. -/
def found (s : Bytes) : Option Nat → Int
  | none => -1
  | some place => codePointsBefore s place

def indexOf (s needle : Bytes) (from_ : Option Int) : Int :=
  let start := byteOffsetOf s (match from_ with
    | some n => max 0 n
    | none => 0)
  found s (find s needle start)

def lastIndexOf (s needle : Bytes) : Option Int → Int
  | none => found s (rfind s needle (if s.length = 0 then 0 else s.length - 1))
  | some n =>
      if n < 0 then -1
      else
        let limit := min (byteOffsetOf s n + needle.length) s.length
        found s (rfind s needle (if limit = 0 then 0 else limit - 1))

/-- Trailing empty pieces go where the separator occurs at all. -/
def split (s sep : Bytes) : Except (String × String) (List Bytes) :=
  if some_bytes : sep ≠ [] then
    let pieces := piecesFrom s sep some_bytes 0
    .ok (if (find s sep 0).isSome then pieces.rdropWhile List.isEmpty else pieces)
  else .error ("IllegalArgumentException", "String.split needs a non-empty separator")

def replace (s from_ to_ : Bytes) : Bytes :=
  if some_bytes : from_ ≠ [] then replacedFrom s from_ to_ some_bytes 0 else s

inductive Call where
  | indexOf (t : Arg) (from_ : Option Int)
  | lastIndexOf (t : Arg) (from_ : Option Int)
  | split (t : Arg)
  | replace (t u : Arg)

inductive Answer where
  | index (i : Int)
  | pieces (pieces : List Bytes)
  | text (bytes : Bytes)
  | thrown (cls message : String)

def call (s : Bytes) : Call → Answer
  | .indexOf t from_ => .index (indexOf s (textArg t) from_)
  | .lastIndexOf t from_ => .index (lastIndexOf s (textArg t) from_)
  | .split t =>
      match split s (textArg t) with
      | .ok pieces => .pieces pieces
      | .error (cls, message) => .thrown cls message
  | .replace t u => .text (replace s (textArg t) (textArg u))

/-! ## What the calls are for -/

def Arg.text : Arg → List Char
  | .string text => text
  | .char c => [c]

/-- The least place from `start` on, or -1; the empty text stands at `start`, at most at the
end. -/
def First (text t : List Char) (start : Int) (answer : Int) : Prop :=
  if t = [] then answer = min (max start 0) text.length
  else (∃ i : Nat, answer = i ∧ start ≤ i ∧ OccursAt t text i ∧
      ∀ j : Nat, start ≤ j → j < i → ¬OccursAt t text j) ∨
    answer = -1 ∧ ∀ i : Nat, start ≤ i → ¬OccursAt t text i

/-- The last place a search may answer; none before the text. -/
def lastPlace (text : List Char) : Option Int → Option Nat
  | none => some text.length
  | some n => if n < 0 then none else some n.toNat

/-- The greatest place up to the last one, or -1. -/
def Last (text t : List Char) (place : Option Nat) (answer : Int) : Prop :=
  match place with
  | none => answer = -1
  | some p =>
      if t = [] then answer = min p text.length
      else (∃ i : Nat, answer = i ∧ i ≤ p ∧ OccursAt t text i ∧
          ∀ j : Nat, i < j → j ≤ p → ¬OccursAt t text j) ∨
        answer = -1 ∧ ∀ i : Nat, i ≤ p → ¬OccursAt t text i

/-- The pieces make up the text with `t` between them and empty pieces behind them, no piece
holds `t`, and no empty piece is left behind when there was something to cut. -/
structure Splits (text t : List Char) (pieces : List (List Char)) : Prop where
  joined : ∃ removed, t.intercalate (pieces ++ List.replicate removed []) = text
  clear : ∀ piece ∈ pieces, ¬t <:+: piece
  trimmed : t <:+: text → pieces.getLast? ≠ some []
  whole : ¬t <:+: text → pieces = [text]

/-- The leftmost occurrences that do not overlap, each with `u` in its place. -/
inductive Replaced (t u : List Char) : List Char → List Char → Prop
  | none {text : List Char} (absent : ¬t <:+: text) : Replaced t u text text
  | next {before rest out : List Char}
      (first : ∀ i, i < before.length → ¬OccursAt t (before ++ t ++ rest) i)
      (later : Replaced t u rest out) : Replaced t u (before ++ t ++ rest) (before ++ u ++ out)

/-- The call on a text does what it is for. -/
def Meets (text : List Char) (c : Call) : Prop :=
  match c with
  | .indexOf t from_ => ∃ i, call (utf8 text) c = .index i ∧ First text t.text (from_.getD 0) i
  | .lastIndexOf t from_ =>
      ∃ i, call (utf8 text) c = .index i ∧ Last text t.text (lastPlace text from_) i
  | .split t =>
      if t.text = [] then
        call (utf8 text) c =
          .thrown "IllegalArgumentException" "String.split needs a non-empty separator"
      else ∃ pieces : List (List Char),
        call (utf8 text) c = .pieces (pieces.map utf8) ∧ Splits text t.text pieces
  | .replace t u => ∃ out, call (utf8 text) c = .text (utf8 out) ∧
      if t.text = [] then out = text else Replaced t.text u.text text out

/-- The place in the bytes where a character stands. -/
def offset (text : List Char) (i : Nat) : Nat := (utf8 (text.take i)).length

/-- Behind place `p` the search still sees `t`: it begins less than the length of `t` in bytes
behind. The empty text is looked for one byte too early, which is another place when the
character before `p` is one byte long. -/
def SeenBehind (text t : List Char) (p : Nat) : Prop :=
  if t = [] then ∃ c, (text.take p).getLast? = some c ∧ c.toNat < 0x80
  else ∃ j, p < j ∧ OccursAt t text j ∧ offset text j < offset text p + (utf8 t).length

def Right (text : List Char) : Call → Prop
  | .lastIndexOf t from_ => ∀ p, lastPlace text from_ = some p → ¬SeenBehind text t.text p
  | _ => True

/-! ## Bytes and characters -/

theorem utf8_cons (c : Char) (text : List Char) :
    utf8 (c :: text) = String.utf8EncodeChar c ++ utf8 text := List.flatMap_cons

theorem utf8_append (left right : List Char) : utf8 (left ++ right) = utf8 left ++ utf8 right :=
  List.flatMap_append

theorem utf8_eq_nil {text : List Char} : utf8 text = [] ↔ text = [] := by
  cases text with
  | nil => exact iff_of_true rfl rfl
  | cons c text =>
      rw [utf8_cons]
      simp

theorem is_continuation_eq (b : UInt8) : isContinuation b = continuation b := by
  have all : ∀ n : Fin 256, isContinuation (.ofFin n) = continuation (.ofFin n) := by decide +kernel
  exact all b.toFin

theorem code_points_before_eq (s : Bytes) (n : Nat) :
    codePointsBefore s n = codePoints (s.take n) := by
  unfold codePointsBefore codePoints
  simp only [is_continuation_eq]

theorem or_eq_add (high : Nat) {low : Nat} (bits : Nat) (small : low < 2 ^ bits) :
    high * 2 ^ bits ||| low = high * 2 ^ bits + low := by
  rw [Nat.mul_comm]
  exact (Nat.two_pow_add_eq_or_of_lt small high).symm

theorem low_bits (n : Nat) : 0x80 ||| (n &&& 0x3F) = n % 64 + 0x80 := by
  rw [show (0x3F : Nat) = 2 ^ 6 - 1 from rfl, Nat.and_two_pow_sub_one_eq_mod]
  have joined := or_eq_add 2 6 (Nat.mod_lt n (by decide : 0 < 2 ^ 6))
  exact joined.trans (Nat.add_comm _ _)

theorem text_of_char (c : Char) : appendUtf8 c.toNat = String.utf8EncodeChar c := by
  have range : c.val.toNat < 0x110000 := by
    have valid := c.valid
    unfold UInt32.isValidChar Nat.isValidChar at valid
    omega
  unfold appendUtf8 String.utf8EncodeChar
  change (if c.val.toNat < 0x80 then _ else if c.val.toNat < 0x800 then _ else
    if c.val.toNat < 0x10000 then _ else _) = _
  dsimp only [Char.toNat]
  generalize c.val.toNat = n at range
  simp only [low_bits, Nat.shiftRight_eq_div_pow]
  split_ifs <;> try omega
  · rfl
  · have lead := or_eq_add 6 5 (by omega : n / 64 < 2 ^ 5)
    rw [show (0xC0 : Nat) = 6 * 2 ^ 5 from rfl, lead, Nat.add_comm,
      Nat.mod_eq_of_lt (by omega : n / 64 < 0x20)]
  · have lead := or_eq_add 14 4 (by omega : n / 4096 < 2 ^ 4)
    rw [show (0xE0 : Nat) = 14 * 2 ^ 4 from rfl, lead, Nat.add_comm,
      Nat.mod_eq_of_lt (by omega : n / 4096 < 0x10)]
  · have lead := or_eq_add 30 3 (by omega : n / 262144 < 2 ^ 3)
    rw [show (0xF0 : Nat) = 30 * 2 ^ 3 from rfl, lead, Nat.add_comm,
      Nat.mod_eq_of_lt (by omega : n / 262144 < 0x8)]

theorem text_arg (t : Arg) : textArg t = utf8 t.text := by
  cases t with
  | string text => rfl
  | char c =>
      rw [textArg, text_of_char, Arg.text, utf8_cons]
      exact (List.append_nil _).symm

theorem skip_inside (cp : Int) {inside : Bytes} (all : ∀ b ∈ inside, continuation b = true)
    (more : Bytes) (i seen : Nat) :
    byteOffsetFrom cp (inside ++ more) i seen = byteOffsetFrom cp more (i + inside.length) seen := by
  induction inside generalizing i with
  | nil => rfl
  | cons b inside induction =>
      rw [List.cons_append, byteOffsetFrom, is_continuation_eq, all b List.mem_cons_self, if_pos rfl,
        induction (fun b member => all b (.tail _ member)), List.length_cons]
      congr 1
      omega

theorem offset_zero (text : List Char) : offset text 0 = 0 := rfl

theorem offset_cons (c : Char) (text : List Char) (i : Nat) :
    offset (c :: text) (i + 1) = (String.utf8EncodeChar c).length + offset text i := by
  rw [offset, List.take_succ_cons, utf8_cons, List.length_append, offset]

theorem byte_offset_from (text : List Char) (i seen k : Nat) :
    byteOffsetFrom ((seen + k : Nat) : Int) (utf8 text) i seen = i + offset text k := by
  induction text generalizing i seen k with
  | nil => rw [offset, List.take_nil]; rfl
  | cons c text induction =>
      obtain ⟨lead, inside, shape, starts, all⟩ := encode_shape c
      rw [utf8_cons, shape, List.cons_append, byteOffsetFrom, is_continuation_eq, starts,
        if_neg Bool.false_ne_true]
      cases k with
      | zero => rw [if_pos (by omega), offset_zero, Nat.add_zero]
      | succ k =>
          rw [if_neg (by omega), skip_inside _ all, offset_cons, shape, List.length_cons,
            show seen + (k + 1) = seen + 1 + k by omega, induction]
          omega

theorem byte_offset_of (text : List Char) (k : Nat) : byteOffsetOf (utf8 text) k = offset text k := by
  have whole := byte_offset_from text 0 0 k
  rw [Nat.zero_add, Nat.zero_add] at whole
  exact whole

theorem take_offset (text : List Char) (k : Nat) :
    (utf8 text).take (offset text k) = utf8 (text.take k) := by
  conv => lhs; rw [← List.take_append_drop k text, utf8_append]
  rw [offset, List.take_append_of_le_length (Nat.le_of_eq (by rw [List.take_append_drop])),
    List.take_of_length_le (Nat.le_of_eq (by rw [List.take_append_drop]))]

theorem drop_offset (text : List Char) (k : Nat) :
    (utf8 text).drop (offset text k) = utf8 (text.drop k) := by
  have whole : utf8 (text.take k) ++ utf8 (text.drop k) = utf8 text := by
    rw [← utf8_append, List.take_append_drop]
  rw [← whole, offset, List.drop_left]

theorem offset_le (text : List Char) (k : Nat) : offset text k ≤ (utf8 text).length := by
  rw [offset, ← take_offset]
  exact List.length_take_le' _ _

theorem points_before_offset (text : List Char) (k : Nat) :
    codePointsBefore (utf8 text) (offset text k) = (min k text.length : Nat) := by
  rw [code_points_before_eq, take_offset, utf8, code_points_encode, List.length_take]

theorem offset_lt (text : List Char) {i j : Nat} (before : i < j) (inside : i < text.length) :
    offset text i < offset text j := by
  induction text generalizing i j with
  | nil => exact absurd inside (Nat.not_lt_zero i)
  | cons c text induction =>
      obtain ⟨j, rfl⟩ := Nat.exists_eq_succ_of_ne_zero (Nat.ne_of_gt (Nat.zero_lt_of_lt before))
      have positive := List.length_pos_iff.mpr (encode_ne_nil c)
      rw [Nat.succ_eq_add_one, offset_cons]
      cases i with
      | zero => rw [offset_zero]; omega
      | succ i =>
          rw [offset_cons]
          exact Nat.add_lt_add_left (induction (Nat.lt_of_succ_lt_succ before)
            (Nat.lt_of_succ_lt_succ inside)) _

theorem offset_mono (text : List Char) {i j : Nat} (before : i ≤ j) :
    offset text i ≤ offset text j := by
  rcases Nat.lt_or_ge i text.length with inside | past
  · rcases Nat.eq_or_lt_of_le before with rfl | less
    · exact Nat.le_refl _
    · exact Nat.le_of_lt (offset_lt text less inside)
  · rw [offset, offset, List.take_of_length_le past,
      List.take_of_length_le (Nat.le_trans past before)]

theorem prefix_iff (t text : List Char) : utf8 t <+: utf8 text ↔ t <+: text := by
  constructor
  · intro starts
    induction t generalizing text with
    | nil => exact List.nil_prefix
    | cons c t induction =>
        obtain ⟨rest, split⟩ := starts
        cases text with
        | nil => simp [utf8] at split
        | cons d text =>
            rw [utf8_cons, utf8_cons, List.append_assoc] at split
            obtain ⟨rfl, behind⟩ := encode_append_inj split
            exact (List.prefix_cons_inj c).mpr (induction text ⟨rest, behind⟩)
  · rintro ⟨rest, rfl⟩
    rw [utf8_append]
    exact List.prefix_append _ _

/-- A well-formed needle occurs only where a character begins. -/
theorem occurs_iff {t text : List Char} (some_chars : t ≠ []) (place : Nat) :
    OccursAt (utf8 t) (utf8 text) place ↔ ∃ i, place = offset text i ∧ OccursAt t text i := by
  constructor
  · intro occurs
    induction text generalizing place with
    | nil =>
        have empty : utf8 t <+: [] := by
          rwa [OccursAt, show utf8 [] = [] from rfl, List.drop_nil] at occurs
        exact absurd (utf8_eq_nil.mp (List.prefix_nil.mp empty)) some_chars
    | cons c text induction =>
        obtain ⟨lead, inside, shape, starts, all⟩ := encode_shape c
        rcases Nat.lt_or_ge place (String.utf8EncodeChar c).length with within | behind
        · cases place with
          | zero =>
              refine ⟨0, rfl, ?_⟩
              rw [OccursAt, List.drop_zero] at occurs
              rw [OccursAt, List.drop_zero]
              exact (prefix_iff _ _).mp occurs
          | succ place =>
              -- the byte there continues `c`, and the needle begins with a lead
              obtain ⟨d, t, rfl⟩ := List.exists_cons_of_ne_nil some_chars
              obtain ⟨lead', inside', shape', starts', -⟩ := encode_shape d
              obtain ⟨rest, split⟩ := occurs
              rw [shape, List.length_cons] at within
              have short : place < inside.length := by omega
              rw [utf8_cons, utf8_cons, shape, shape', List.cons_append, List.cons_append,
                List.cons_append, List.drop_succ_cons, List.drop_append_of_le_length (Nat.le_of_lt short),
                List.drop_eq_getElem_cons short, List.cons_append, List.cons.injEq] at split
              have continued := all _ (List.getElem_mem short)
              rw [← split.1, starts'] at continued
              cases continued
        · have later : OccursAt (utf8 t) (utf8 text) (place - (String.utf8EncodeChar c).length) := by
            rw [OccursAt, utf8_cons, List.drop_append, List.drop_of_length_le behind,
              List.nil_append] at occurs
            exact occurs
          obtain ⟨i, same, at_i⟩ := induction _ later
          exact ⟨i + 1, by rw [offset_cons]; omega, at_i⟩
  · rintro ⟨i, rfl, occurs⟩
    rw [OccursAt, drop_offset]
    exact (prefix_iff _ _).mpr occurs

/-! ## indexOf -/

theorem find_iff {t : List Char} (some_chars : t ≠ []) (text : List Char) (k : Nat) :
    find (utf8 text) (utf8 t) (offset text k) = (find text t (min k text.length)).map (offset text) := by
  have same_start : offset text k = offset text (min k text.length) := by
    rw [offset, offset]
    congr 2
    rcases Nat.le_total k text.length with small | large
    · rw [Nat.min_eq_left small]
    · rw [Nat.min_eq_right large, List.take_of_length_le large, List.take_length]
  have start_le := Nat.min_le_right k text.length
  rw [same_start]
  generalize min k text.length = start at start_le
  cases among : find text t start with
  | none =>
      cases bytes : find (utf8 text) (utf8 t) (offset text start) with
      | none => rfl
      | some place =>
          obtain ⟨behind, -, occurs, -⟩ := find_some.mp bytes
          obtain ⟨i, rfl, at_i⟩ := (occurs_iff some_chars place).mp occurs
          have inside := occurs_inside some_chars at_i
          have positive := List.length_pos_iff.mpr some_chars
          refine absurd at_i (find_none among i ?_ (by omega))
          rcases Nat.lt_or_ge i start with before | past
          · have less := offset_lt text before (by omega)
            omega
          · exact past
  | some i =>
      obtain ⟨behind, inside, at_i, first⟩ := find_some.mp among
      refine find_some.mpr ⟨offset_mono text behind, offset_le text i,
        (occurs_iff some_chars _).mpr ⟨i, rfl, at_i⟩, fun place from_start before occurs => ?_⟩
      obtain ⟨j, rfl, at_j⟩ := (occurs_iff some_chars place).mp occurs
      have j_inside := occurs_inside some_chars at_j
      have positive := List.length_pos_iff.mpr some_chars
      refine first j ?_ ?_ at_j
      · rcases Nat.lt_or_ge j start with less | past
        · have := offset_lt text less (by omega)
          omega
        · exact past
      · rcases Nat.lt_or_ge j i with less | past
        · exact less
        · have := offset_mono text past
          omega

theorem index_of_eq (text : List Char) (needle : Bytes) {from_ : Option Int} {k : Nat}
    (start : max (from_.getD 0) 0 = k) :
    indexOf (utf8 text) needle from_ = found (utf8 text) (find (utf8 text) needle (offset text k)) := by
  rw [← byte_offset_of, ← start]
  cases from_ with
  | none => rfl
  | some n => rw [indexOf, Option.getD_some, Int.max_comm]

theorem index_of_first (text t : List Char) (from_ : Option Int) :
    First text t (from_.getD 0) (indexOf (utf8 text) (utf8 t) from_) := by
  obtain ⟨k, start⟩ : ∃ k : Nat, max (from_.getD 0) 0 = k :=
    ⟨(max (from_.getD 0) 0).toNat, by omega⟩
  rw [index_of_eq text _ start]
  unfold First
  split_ifs with empty
  · subst empty
    have bound := offset_le text k
    have here : find (utf8 text) (utf8 []) (offset text k) = some (offset text k) :=
      find_some.mpr ⟨Nat.le_refl _, bound, List.nil_prefix, fun j behind before => by omega⟩
    rw [here, found, points_before_offset, start]
    omega
  · rw [find_iff empty]
    cases among : find text t (min k text.length) with
    | none =>
        refine .inr ⟨rfl, fun i behind at_i => ?_⟩
        have inside := occurs_inside empty at_i
        have positive := List.length_pos_iff.mpr empty
        exact find_none among i (by omega) (by omega) at_i
    | some i =>
        obtain ⟨behind, inside, at_i, first⟩ := find_some.mp among
        have place := occurs_inside empty at_i
        have positive := List.length_pos_iff.mpr empty
        refine .inl ⟨i, ?_, by omega, at_i, fun j from_start before => first j (by omega) before⟩
        rw [Option.map_some, found, points_before_offset, Nat.min_eq_left (by omega)]

/-! ## lastIndexOf -/

/-- What a backward search answers that may begin at any byte before `bound`. -/
theorem found_rfind {t : List Char} (some_chars : t ≠ []) (text : List Char) {bound : Nat} (some_bytes : 0 < bound) :
    (∃ i : Nat, found (utf8 text) (rfind (utf8 text) (utf8 t) (bound - 1)) = i ∧
        OccursAt t text i ∧ offset text i < bound ∧
        ∀ j : Nat, i < j → OccursAt t text j → ¬offset text j < bound) ∨
      found (utf8 text) (rfind (utf8 text) (utf8 t) (bound - 1)) = -1 ∧
        ∀ i : Nat, OccursAt t text i → ¬offset text i < bound := by
  have some_needle : utf8 t ≠ [] := fun empty => some_chars (utf8_eq_nil.mp empty)
  cases bytes : rfind (utf8 text) (utf8 t) (bound - 1) with
  | none =>
      refine .inr ⟨rfl, fun i at_i before => ?_⟩
      exact rfind_none some_needle bytes (offset text i) (by omega)
        ((occurs_iff some_chars _).mpr ⟨i, rfl, at_i⟩)
  | some place =>
      obtain ⟨before, occurs, last⟩ := (rfind_some some_needle).mp bytes
      obtain ⟨i, rfl, at_i⟩ := (occurs_iff some_chars place).mp occurs
      have inside := occurs_inside some_chars at_i
      have positive := List.length_pos_iff.mpr some_chars
      refine .inl ⟨i, ?_, at_i, by omega, fun j behind at_j less => ?_⟩
      · rw [found, points_before_offset, Nat.min_eq_left (by omega)]
      · exact last _ (offset_lt text behind (by omega)) (by omega)
          ((occurs_iff some_chars _).mpr ⟨j, rfl, at_j⟩)

/-- The bytes at which the search may begin, for a last place that there is. -/
def searchBound (text t : List Char) (p : Nat) : Nat :=
  min (offset text p + (utf8 t).length) (utf8 text).length

theorem last_index_of_eq (text t : List Char) {from_ : Option Int} {p : Nat}
    (place : lastPlace text from_ = some p) :
    lastIndexOf (utf8 text) (utf8 t) from_ =
      found (utf8 text) (rfind (utf8 text) (utf8 t) (searchBound text t p - 1)) := by
  have choice : ∀ n : Nat, (if n = 0 then 0 else n - 1) = n - 1 := fun n => by
    split_ifs with zero
    · rw [zero]
    · rfl
  unfold lastPlace at place
  cases from_ with
  | none =>
      obtain rfl := Option.some.inj place
      have whole : offset text text.length = (utf8 text).length := by
        rw [offset, List.take_length]
      rw [lastIndexOf, choice, searchBound, whole, Nat.min_eq_right (Nat.le_add_right _ _)]
  | some n =>
      simp only at place
      split_ifs at place with negative
      obtain rfl := Option.some.inj place
      have offsets := byte_offset_of text n.toNat
      rw [Int.toNat_of_nonneg (by omega)] at offsets
      rw [lastIndexOf, if_neg negative]
      simp only [choice]
      rw [offsets, searchBound]

theorem last_index_of_nonempty {text t : List Char} (some_chars : t ≠ []) (p : Nat) :
    Last text t (some p) (found (utf8 text)
        (rfind (utf8 text) (utf8 t) (searchBound text t p - 1))) ↔
      ¬SeenBehind text t p := by
  have needle := List.length_pos_iff.mpr fun empty : utf8 t = [] => some_chars (utf8_eq_nil.mp empty)
  have begins : ∀ {i}, OccursAt t text i → (offset text i < searchBound text t p ↔
      offset text i < offset text p + (utf8 t).length) := fun {i} at_i => by
    have inside := occurs_inside some_chars at_i
    have positive := List.length_pos_iff.mpr some_chars
    have whole : offset text text.length = (utf8 text).length := by
      rw [offset, List.take_length]
    have less := offset_lt text (show i < text.length by omega) (by omega)
    unfold searchBound
    omega
  have early : ∀ {i}, i ≤ p → offset text i < offset text p + (utf8 t).length := fun {i} before => by
    have := offset_mono text before
    omega
  unfold SeenBehind Last
  simp only [if_neg some_chars]
  rcases Nat.eq_zero_or_pos (searchBound text t p) with empty | some_bytes
  · -- there is no byte, so nothing occurs
    have no_text : (utf8 text).length = 0 := by
      unfold searchBound at empty
      omega
    have nothing : ∀ i, ¬OccursAt t text i := fun i at_i => by
      have inside := (begins at_i).mpr
      have occurs := occurs_inside (fun empty => some_chars (utf8_eq_nil.mp empty))
        ((occurs_iff some_chars _).mpr ⟨i, rfl, at_i⟩)
      omega
    refine iff_of_true (.inr ⟨?_, fun i _ => nothing i⟩) fun ⟨j, _, at_j, _⟩ => nothing j at_j
    have short : ¬(utf8 t).length ≤ (utf8 text).length := by omega
    rw [rfind, if_neg short, found]
  · rcases found_rfind some_chars text some_bytes with
      ⟨i, answer, at_i, before, last⟩ | ⟨answer, nothing⟩
    · rw [answer]
      have seen := (begins at_i).mp before
      constructor
      · rintro meets ⟨j, behind, at_j, bytes⟩
        have i_le : i ≤ p := by
          rcases meets with ⟨i', same, bound, -⟩ | ⟨absent, -⟩ <;> omega
        exact last j (by omega) at_j ((begins at_j).mpr bytes)
      · intro clear
        have i_le : i ≤ p := Nat.le_of_not_lt fun behind => clear ⟨i, behind, at_i, seen⟩
        exact .inl ⟨i, rfl, i_le, at_i, fun j behind up_to at_j =>
          last j behind at_j ((begins at_j).mpr (early up_to))⟩
    · rw [answer]
      refine iff_of_true (.inr ⟨rfl, fun i up_to at_i =>
        nothing i at_i ((begins at_i).mpr (early up_to))⟩) ?_
      rintro ⟨j, -, at_j, bytes⟩
      exact nothing j at_j ((begins at_j).mpr bytes)

theorem encode_long {c : Char} (wide : 0x80 ≤ c.toNat) :
    2 ≤ (String.utf8EncodeChar c).length := by
  change 0x80 ≤ c.val.toNat at wide
  unfold String.utf8EncodeChar
  dsimp only
  split_ifs <;> simp only [List.length_cons, List.length_nil] <;> omega

/-- Without its last byte a text has a character less when that one is a byte long. -/
theorem points_before_last (text : List Char) :
    codePoints ((utf8 text).take ((utf8 text).length - 1)) = text.length ↔
      ¬∃ c, text.getLast? = some c ∧ c.toNat < 0x80 := by
  rcases List.eq_nil_or_concat text with rfl | ⟨before, c, rfl⟩
  · exact iff_of_true rfl fun ⟨c, last, _⟩ => nomatch last
  · obtain ⟨lead, inside, shape, starts, all⟩ := encode_shape c
    have last_bytes : utf8 [c] = lead :: inside := by rw [utf8_cons, shape]; exact List.append_nil _
    have cut : (utf8 (before ++ [c])).take ((utf8 (before ++ [c])).length - 1) =
        utf8 before ++ (lead :: inside).take inside.length := by
      rw [utf8_append, last_bytes, List.length_append, List.length_cons, List.take_append,
        List.take_of_length_le (by omega)]
      congr 2
      omega
    rw [List.concat_eq_append, cut, code_points_append, utf8, code_points_encode,
      List.length_append, List.length_singleton, List.getLast?_append, List.getLast?_singleton]
    simp only [Option.some_or, Option.some.injEq, exists_eq_left', Nat.add_left_cancel_iff]
    rw [← Nat.add_left_cancel_iff (n := before.length)]
    rcases Nat.lt_or_ge c.toNat 0x80 with small | wide
    · refine iff_of_false ?_ fun large => large small
      have one := shape.symm.trans (encode_ascii small)
      obtain rfl : inside = [] := (List.cons.inj one).2
      rw [List.length_nil, List.take_zero]
      simp [codePoints]
    · refine iff_of_true ?_ (Nat.not_lt.mpr wide)
      have long := encode_long wide
      rw [shape, List.length_cons] at long
      obtain ⟨n, size⟩ := Nat.exists_eq_succ_of_ne_zero (by omega : inside.length ≠ 0)
      have counted : (inside.take n).countP (fun b => !continuation b) = 0 := by
        rw [List.countP_eq_zero]
        intro b member
        simp [all b (List.mem_of_mem_take member)]
      rw [size, List.take_succ_cons, codePoints, List.countP_cons, counted]
      simp [starts]

theorem last_index_of_empty (text : List Char) (p : Nat) :
    Last text [] (some p) (found (utf8 text)
        (rfind (utf8 text) (utf8 []) (searchBound text [] p - 1))) ↔ ¬SeenBehind text [] p := by
  have bound := offset_le text p
  have sized : searchBound text [] p = offset text p := by
    rw [searchBound, show (utf8 []).length = 0 from rfl, Nat.add_zero, Nat.min_eq_left bound]
  have cut : (utf8 text).take (offset text p - 1) =
      (utf8 (text.take p)).take ((utf8 (text.take p)).length - 1) := by
    rw [← offset, ← take_offset, List.take_take, Nat.min_eq_left (Nat.sub_le _ _)]
  have answer : found (utf8 text) (rfind (utf8 text) (utf8 []) (searchBound text [] p - 1)) =
      codePoints ((utf8 (text.take p)).take ((utf8 (text.take p)).length - 1)) := by
    rw [sized, show utf8 [] = [] from rfl, rfind_nil, found, code_points_before_eq,
      Nat.min_eq_right (by omega), cut]
  have last := points_before_last (text.take p)
  rw [List.length_take] at last
  unfold Last SeenBehind
  simp only [if_true, answer]
  rw [← last]
  omega

theorem last_index_of_iff (text t : List Char) (from_ : Option Int) :
    Last text t (lastPlace text from_) (lastIndexOf (utf8 text) (utf8 t) from_) ↔
      ∀ p, lastPlace text from_ = some p → ¬SeenBehind text t p := by
  cases place : lastPlace text from_ with
  | none =>
      refine iff_of_true ?_ fun p impossible => nomatch impossible
      cases from_ with
      | none => cases place
      | some n =>
          simp only [lastPlace] at place
          split_ifs at place with negative
          exact if_pos negative
  | some p =>
      rw [last_index_of_eq text t place]
      simp only [Option.some.injEq, forall_eq']
      by_cases empty : t = []
      · subst empty
        exact last_index_of_empty text p
      · exact last_index_of_nonempty empty p

/-! ## split and replace -/

theorem pieces_utf8 {text t : List Char} (some_chars : t ≠ []) (some_bytes : utf8 t ≠ [])
    {start : Nat} (inside : start ≤ text.length) :
    piecesFrom (utf8 text) (utf8 t) some_bytes (offset text start) =
      (piecesFrom text t some_chars start).map utf8 := by
  have places := find_iff some_chars text start
  rw [Nat.min_eq_left inside] at places
  cases among : find text t start with
  | none =>
      rw [among] at places
      rw [pieces_none some_bytes places, pieces_none some_chars among, drop_offset]
      rfl
  | some i =>
      rw [among] at places
      obtain ⟨behind, -, at_i, -⟩ := find_some.mp among
      have whole := occurs_inside some_chars at_i
      have next : offset text i + (utf8 t).length = offset text (i + t.length) := by
        obtain ⟨rest, split⟩ := at_i
        rw [offset, offset, List.take_add, utf8_append, List.length_append, ← split, List.take_left]
      have piece : ((utf8 text).drop (offset text start)).take (offset text i - offset text start) =
          utf8 ((text.drop start).take (i - start)) := by
        have shift : offset text i - offset text start = offset (text.drop start) (i - start) := by
          have split : text.take i = text.take start ++ (text.drop start).take (i - start) := by
            rw [← List.take_add, Nat.add_sub_cancel' behind]
          rw [offset, split, utf8_append, List.length_append, offset, offset]
          omega
        rw [drop_offset, shift, take_offset]
      rw [pieces_some some_bytes places, pieces_some some_chars among, next, piece,
        pieces_utf8 some_chars some_bytes whole, List.map_cons]
termination_by text.length + 1 - start
decreasing_by exact cut_shorter some_chars among

theorem intercalate_utf8 (u : List Char) (pieces : List (List Char)) :
    (utf8 u).intercalate (pieces.map utf8) = utf8 (u.intercalate pieces) := by
  induction pieces with
  | nil => rfl
  | cons piece rest induction =>
      cases rest with
      | nil => rw [List.map_singleton, List.intercalate_singleton, List.intercalate_singleton]
      | cons next rest =>
          rw [List.map_cons, List.intercalate_cons_of_ne_nil (by simp), induction,
            List.intercalate_cons_of_ne_nil (List.cons_ne_nil _ _), utf8_append, utf8_append]

theorem infix_iff_found {text t : List Char} : t <:+: text ↔ find text t 0 ≠ none := by
  constructor
  · intro inside absent
    obtain ⟨j, bound, occurs⟩ := occurs_of_infix inside
    exact find_none absent j (Nat.zero_le _) bound occurs
  · intro some_place
    obtain ⟨i, among⟩ := Option.ne_none_iff_exists'.mp some_place
    obtain ⟨-, -, at_i, -⟩ := find_some.mp among
    exact at_i.isInfix.trans (List.drop_suffix i text).isInfix

theorem trimmed_splits {text t : List Char} (some_chars : t ≠ []) (matched : find text t 0 ≠ none) :
    Splits text t ((piecesFrom text t some_chars 0).rdropWhile List.isEmpty) where
  joined := by
    have split := List.rdropWhile_append_rtakeWhile (p := List.isEmpty)
      (l := piecesFrom text t some_chars 0)
    have empties : (piecesFrom text t some_chars 0).rtakeWhile List.isEmpty =
        List.replicate ((piecesFrom text t some_chars 0).rtakeWhile List.isEmpty).length [] := by
      rw [List.eq_replicate_iff]
      exact ⟨rfl, fun piece member => List.isEmpty_iff.mp (List.mem_rtakeWhile_imp member)⟩
    refine ⟨((piecesFrom text t some_chars 0).rtakeWhile List.isEmpty).length, ?_⟩
    rw [← empties, split, join_pieces, List.drop_zero]
  clear piece member := piece_clear some_chars 0 piece
    ((List.rdropWhile_prefix _ _).subset member)
  trimmed _ last := by
    have kept := List.rdropWhile_last_not List.isEmpty (piecesFrom text t some_chars 0)
    have some_pieces : (piecesFrom text t some_chars 0).rdropWhile List.isEmpty ≠ [] := by
      intro empty
      rw [empty] at last
      cases last
    rw [List.getLast?_eq_some_getLast some_pieces, Option.some.injEq] at last
    exact kept some_pieces (by rw [last]; rfl)
  whole absent := absurd (infix_iff_found.mpr matched) absent

theorem unmatched_splits {text t : List Char} (some_chars : t ≠ []) (absent : find text t 0 = none) :
    Splits text t (piecesFrom text t some_chars 0) where
  joined := ⟨0, by rw [List.replicate_zero, List.append_nil, join_pieces, List.drop_zero]⟩
  clear := piece_clear some_chars 0
  trimmed inside := absurd absent (infix_iff_found.mp inside)
  whole _ := by rw [pieces_none some_chars absent, List.drop_zero]

theorem replaced_from {text t u : List Char} (some_chars : t ≠ []) (start : Nat) :
    Replaced t u (text.drop start) (replacedFrom text t u some_chars start) := by
  cases among : find text t start with
  | none =>
      rw [replaced_none some_chars among]
      refine .none fun inside => ?_
      obtain ⟨j, bound, occurs⟩ := occurs_of_infix inside
      have whole := occurs_inside some_chars (occurs_drop.mp occurs)
      exact find_none among (start + j) (Nat.le_add_right _ _) (by omega) (occurs_drop.mp occurs)
  | some i =>
      obtain ⟨behind, inside, -, first⟩ := find_some.mp among
      have split := drop_found among
      have clear : ∀ j, j < ((text.drop start).take (i - start)).length →
          ¬OccursAt t ((text.drop start).take (i - start) ++ t ++ text.drop (i + t.length)) j := by
        intro j before at_j
        rw [← split] at at_j
        rw [List.length_take] at before
        exact first (start + j) (Nat.le_add_right _ _) (by omega) (occurs_drop.mp at_j)
      have next := Replaced.next clear (replaced_from (u := u) some_chars (i + t.length))
      rw [← split] at next
      rw [replaced_some some_chars among]
      exact next
termination_by text.length + 1 - start
decreasing_by exact cut_shorter some_chars among

theorem rdrop_utf8 (pieces : List (List Char)) :
    (pieces.map utf8).rdropWhile List.isEmpty = (pieces.rdropWhile List.isEmpty).map utf8 := by
  have same : List.isEmpty ∘ utf8 = List.isEmpty := by
    funext piece
    rw [Function.comp_apply, Bool.eq_iff_iff, List.isEmpty_iff, List.isEmpty_iff, utf8_eq_nil]
  rw [List.rdropWhile, List.rdropWhile, ← List.map_reverse, List.dropWhile_map, same,
    List.map_reverse]

theorem split_meets (text : List Char) (t : Arg) : Meets text (.split t) := by
  simp only [Meets, call, text_arg]
  split_ifs with empty
  · rw [empty]
    rfl
  · have some_bytes : utf8 t.text ≠ [] := fun none_left => empty (utf8_eq_nil.mp none_left)
    have start := pieces_utf8 empty some_bytes (Nat.zero_le text.length)
    have places := find_iff empty text 0
    rw [Nat.min_eq_left (Nat.zero_le _)] at places
    rw [offset_zero] at start places
    rw [split, dif_pos some_bytes]
    simp only [start, places, Option.isSome_map]
    cases among : find text t.text 0 with
    | none => exact ⟨_, rfl, unmatched_splits empty among⟩
    | some i =>
        refine ⟨_, ?_, trimmed_splits empty (by rw [among]; exact Option.some_ne_none i)⟩
        rw [Option.isSome_some, if_pos rfl, rdrop_utf8]

theorem replace_meets (text : List Char) (t u : Arg) : Meets text (.replace t u) := by
  simp only [Meets, call, text_arg]
  by_cases empty : t.text = []
  · refine ⟨text, ?_, ?_⟩
    · rw [replace, dif_neg (by rw [empty]; exact fun some_bytes => some_bytes rfl)]
    · rw [if_pos empty]
  · have some_bytes : utf8 t.text ≠ [] := fun none_left => empty (utf8_eq_nil.mp none_left)
    refine ⟨replacedFrom text t.text u.text empty 0, ?_, ?_⟩
    · have start := pieces_utf8 empty some_bytes (Nat.zero_le text.length)
      rw [offset_zero] at start
      rw [replace, dif_pos some_bytes, join_replaced, start, intercalate_utf8, ← join_replaced]
    · rw [if_neg empty]
      exact replaced_from empty 0

end ProtoScala.Runtime.StringSearch

import Mathlib.Data.List.TakeWhile

/-!
# Reading lines

`nextLine` reads the lines of a source as the bytes arrive: the state holds what has been
read, the position of the first byte not handed out and its offset in the stream.
`splitLines` and `skipLines` take the whole text. What counts for a reader is the input
that is left, in the buffer and still to come: every operation is specified by it.
-/

namespace ProtoScala.Runtime.LineReading

set_option autoImplicit false

abbrev Bytes := List UInt8

def CR : UInt8 := 13

def LF : UInt8 := 10

def isTerminator (b : UInt8) : Bool := b == LF || b == CR

def inLine (b : UInt8) : Bool := !isTerminator b

/-! ## The whole text -/

/-- What is behind a terminator that begins with `c`; a CR and a LF are one terminator. -/
def behindTerminator (c : UInt8) (rest : Bytes) : Bytes :=
  if c = CR ∧ rest.head? = some LF then rest.tail else rest

theorem behind_terminator_length (c : UInt8) (rest : Bytes) :
    (behindTerminator c rest).length ≤ rest.length := by
  unfold behindTerminator
  split_ifs <;> simp

theorem behind_line_shorter {text rest : Bytes} {c : UInt8}
    (more : text.dropWhile inLine = c :: rest) :
    (behindTerminator c rest).length < text.length := by
  have shorter := (List.dropWhile_sublist inLine (l := text)).length_le
  have behind := behind_terminator_length c rest
  rw [more, List.length_cons] at shorter
  omega

/-- The bodies of the loops of `__splitLines` and `__skipLines`. -/
def splitLines (text : Bytes) : List Bytes :=
  if text = [] then []
  else
    match _more : text.dropWhile inLine with
    | [] => [text.takeWhile inLine]
    | c :: rest => text.takeWhile inLine :: splitLines (behindTerminator c rest)
termination_by text.length
decreasing_by exact behind_line_shorter _more

def skipLines (text : Bytes) (k : Int) : Bytes :=
  if 0 < k ∧ text ≠ [] then
    match _more : text.dropWhile inLine with
    | [] => []
    | c :: rest => skipLines (behindTerminator c rest) (k - 1)
  else text
termination_by text.length
decreasing_by exact behind_line_shorter _more

/-! ## The stream -/

/-- What one `read` answers before the end of the input. -/
structure Chunk where
  bytes : Bytes
  nonempty : bytes ≠ []

/-- `chunks` is what the reads to come will answer, and `reads` counts those made. -/
structure SourceState where
  buf : Bytes
  pos : Nat
  offset : Nat
  eof : Bool
  chunks : List Chunk
  reads : Nat

structure Piece where
  bytes : Bytes
  start : Nat
  deriving DecidableEq

def SourceState.start (chunks : List Chunk) : SourceState where
  buf := []
  pos := 0
  offset := 0
  eof := false
  chunks := chunks
  reads := 0

/-- One more chunk, in a buffer without the prefix that was handed out when that is at least
half of it; the end of the input is remembered. -/
def fill (st : SourceState) : SourceState :=
  if st.eof then st
  else
    match st.chunks with
    | [] => { st with eof := true, reads := st.reads + 1 }
    | chunk :: later =>
        if 0 < st.pos ∧ st.buf.length ≤ st.pos * 2 then
          { st with
            buf := st.buf.drop st.pos ++ chunk.bytes
            pos := 0
            chunks := later
            reads := st.reads + 1 }
        else { st with buf := st.buf ++ chunk.bytes, chunks := later, reads := st.reads + 1 }

/-- `find_first_of("\r\n", scan)`. -/
def findTerminator (buf : Bytes) (scan : Nat) : Option Nat :=
  let i := scan + ((buf.drop scan).takeWhile inLine).length
  if i < buf.length then some i else none

/-- The reads that `fill` can still make. -/
def SourceState.pending (st : SourceState) : Nat :=
  st.chunks.length + if st.eof then 0 else 1

theorem fill_pending {st : SourceState} (more : st.eof = false) :
    (fill st).pending < st.pending := by
  unfold fill
  rw [if_neg (by simp [more])]
  cases chunks : st.chunks with
  | nil => simp [SourceState.pending, more, chunks]
  | cons chunk later =>
      simp only
      split_ifs <;> simp [SourceState.pending, more, chunks]

/-- The loop of `nextLine`: no terminator stands before `scan`. -/
def nextLineFrom (scan : Nat) (st : SourceState) : Option Piece × SourceState :=
  match findTerminator st.buf scan with
  | some i =>
      -- a CR at the end of what has arrived may be half of a CRLF
      if _wait : (st.buf[i]? = some CR ∧ i + 1 = st.buf.length) ∧ st.eof = false then
        nextLineFrom ((fill st).pos + (i - st.pos)) (fill st)
      else
        let term := if st.buf[i]? = some CR ∧ st.buf[i + 1]? = some LF then 2 else 1
        let used := i + term - st.pos
        (some ⟨(st.buf.drop st.pos).take (i - st.pos), st.offset⟩,
          { st with pos := st.pos + used, offset := st.offset + used })
  | none =>
      if _end : st.eof = true then
        if st.pos = st.buf.length then (none, st)
        else
          (some ⟨st.buf.drop st.pos, st.offset⟩,
            { st with buf := [], pos := 0, offset := st.offset + (st.buf.drop st.pos).length })
      else nextLineFrom ((fill st).pos + (st.buf.length - st.pos)) (fill st)
termination_by st.pending
decreasing_by
  · exact fill_pending _wait.2
  · exact fill_pending (eq_false_of_ne_true _end)

/-- The next line without its terminator, nothing at the end of the input. -/
def nextLine (st : SourceState) : Option Piece × SourceState := nextLineFrom st.pos st

/-- `while (!st.eof) fill(st)`. -/
def fillAll (st : SourceState) : SourceState :=
  if _end : st.eof = true then st else fillAll (fill st)
termination_by st.pending
decreasing_by exact fill_pending (eq_false_of_ne_true _end)

/-- Everything left. -/
def rest (st : SourceState) : Piece × SourceState :=
  let st := fillAll st
  (⟨st.buf.drop st.pos, st.offset⟩,
    { st with buf := [], pos := 0, offset := st.offset + (st.buf.drop st.pos).length })

def lineBuffered (st : SourceState) : Bool :=
  if st.eof then true
  else
    match findTerminator st.buf st.pos with
    | some i => !(st.buf[i]? == some CR && i + 1 == st.buf.length)
    | none => false

/-- `locked` is what `try_to_lock` answers. The answer says whether the read was made in the
bracket of a blocking call. -/
def readSourceLine (locked : Bool) (st : SourceState) : Option Piece × SourceState × Bool :=
  if locked && lineBuffered st then
    let (piece, st) := nextLine st
    (piece, st, false)
  else
    let (piece, st) := nextLine st
    (piece, st, true)

/-- The state after `k` calls; `locked i` is what the lock answers at call `i`. -/
def afterLines (locked : Nat → Bool) (st : SourceState) : Nat → SourceState
  | 0 => st
  | k + 1 => (readSourceLine (locked k) (afterLines locked st k)).2.1

/-! ## The input that is left -/

def SourceState.unread (st : SourceState) : Bytes :=
  st.buf.drop st.pos ++ (st.chunks.map Chunk.bytes).flatten

/-- The position is in the buffer, and nothing comes after the end of the input. -/
structure Sound (st : SourceState) : Prop where
  inside : st.pos ≤ st.buf.length
  ended : st.eof = true → st.chunks = []

/-- `st'` has read on, without handing anything out. -/
structure ReadOn (st st' : SourceState) : Prop where
  sound : Sound st'
  offset : st'.offset = st.offset
  unread : st'.unread = st.unread
  prefix_kept : ∃ more, st'.buf.drop st'.pos = st.buf.drop st.pos ++ more

theorem fill_reads_on {st : SourceState} (sound : Sound st) : ReadOn st (fill st) := by
  unfold fill
  by_cases ended : st.eof = true
  · rw [if_pos ended]
    exact ⟨sound, rfl, rfl, [], by simp⟩
  · rw [if_neg ended]
    cases chunks : st.chunks with
    | nil =>
        exact ⟨⟨sound.inside, fun _ => rfl⟩, rfl, by simp [SourceState.unread, chunks],
          [], by simp⟩
    | cons chunk later =>
        simp only
        split_ifs with compact
        · refine ⟨⟨Nat.zero_le _, fun final => absurd final ended⟩, rfl, ?_, chunk.bytes, rfl⟩
          simp [SourceState.unread, chunks]
        · refine ⟨⟨?_, fun final => absurd final ended⟩, rfl, ?_, chunk.bytes, ?_⟩
          · simp only [List.length_append]
            exact Nat.le_add_right_of_le sound.inside
          · simp [SourceState.unread, chunks, List.drop_append_of_le_length sound.inside]
          · exact List.drop_append_of_le_length sound.inside

/-- No terminator stands between the position and `scan`. -/
structure Scanned (scan : Nat) (st : SourceState) : Prop where
  behind : st.pos ≤ scan
  inside : scan ≤ st.buf.length
  clean : ∀ b ∈ (st.buf.drop st.pos).take (scan - st.pos), inLine b = true

theorem Scanned.split {scan : Nat} {st : SourceState} (scanned : Scanned scan st) :
    st.buf.drop st.pos =
      (st.buf.drop st.pos).take (scan - st.pos) ++ st.buf.drop scan := by
  have behind : (st.buf.drop st.pos).drop (scan - st.pos) = st.buf.drop scan := by
    rw [List.drop_drop, Nat.add_sub_of_le scanned.behind]
  rw [← behind, List.take_append_drop]

theorem Scanned.found {scan i : Nat} {st : SourceState} (scanned : Scanned scan st)
    (found : findTerminator st.buf scan = some i) :
    ∃ line c more, st.buf.drop st.pos = line ++ c :: more ∧ (∀ b ∈ line, inLine b = true) ∧
      inLine c = false ∧ i = st.pos + line.length := by
  unfold findTerminator at found
  simp only [Option.ite_none_right_eq_some, Option.some.injEq] at found
  obtain ⟨short, rfl⟩ := found
  have whole := List.takeWhile_append_dropWhile (p := inLine) (l := st.buf.drop scan)
  cases rest : (st.buf.drop scan).dropWhile inLine with
  | nil =>
      have length := congrArg List.length whole
      rw [rest, List.append_nil, List.length_drop] at length
      omega
  | cons c more =>
      refine ⟨(st.buf.drop st.pos).take (scan - st.pos) ++ (st.buf.drop scan).takeWhile inLine, c,
        more, ?_, ?_, ?_, ?_⟩
      · rw [List.append_assoc, ← rest, whole]
        exact scanned.split
      · intro b member
        rcases List.mem_append.mp member with left | right
        · exact scanned.clean b left
        · exact List.mem_takeWhile_imp right
      · have first := List.head?_dropWhile_not inLine (st.buf.drop scan)
        rw [rest] at first
        simpa using first
      · have inside := scanned.inside
        have behind := scanned.behind
        rw [List.length_append, List.length_take, List.length_drop]
        omega

theorem Scanned.not_found {scan : Nat} {st : SourceState} (scanned : Scanned scan st)
    (missing : findTerminator st.buf scan = none) :
    ∀ b ∈ st.buf.drop st.pos, inLine b = true := by
  unfold findTerminator at missing
  simp only [ite_eq_right_iff, reduceCtorEq, imp_false, not_lt] at missing
  have all : (st.buf.drop scan).takeWhile inLine = st.buf.drop scan := by
    refine (List.takeWhile_prefix inLine).eq_of_length_le ?_
    rw [List.length_drop]
    omega
  intro b member
  rw [scanned.split] at member
  rcases List.mem_append.mp member with left | right
  · exact scanned.clean b left
  · rw [← all] at right
    exact List.mem_takeWhile_imp right

/-- A line that a read did not end is scanned already. -/
theorem ReadOn.scanned {st st' : SourceState} (on : ReadOn st st') {n : Nat}
    (enough : n ≤ (st.buf.drop st.pos).length)
    (clean : ∀ b ∈ (st.buf.drop st.pos).take n, inLine b = true) :
    Scanned (st'.pos + n) st' := by
  obtain ⟨more, kept⟩ := on.prefix_kept
  have length := congrArg List.length kept
  rw [List.length_append, List.length_drop] at length
  have inside := on.sound.inside
  refine ⟨Nat.le_add_right _ _, by omega, ?_⟩
  rwa [Nat.add_sub_cancel_left, kept, List.take_append_of_le_length enough]

/-! ## One line -/

def firstLine (text : Bytes) : Option Bytes :=
  if text = [] then none else some (text.takeWhile inLine)

def afterLine (text : Bytes) : Bytes :=
  match text.dropWhile inLine with
  | [] => []
  | c :: rest => behindTerminator c rest

theorem first_line_terminated {line : Bytes} {c : UInt8} (more : Bytes)
    (clean : ∀ b ∈ line, inLine b = true) (terminator : inLine c = false) :
    firstLine (line ++ c :: more) = some line ∧
      afterLine (line ++ c :: more) = behindTerminator c more := by
  unfold firstLine afterLine
  rw [List.takeWhile_append_of_pos clean, List.dropWhile_append_of_pos clean]
  simp [terminator]

theorem first_line_last {line : Bytes} (clean : ∀ b ∈ line, inLine b = true) (some_bytes : line ≠ []) :
    firstLine line = some line ∧ afterLine line = [] := by
  unfold firstLine afterLine
  rw [if_neg some_bytes, List.takeWhile_eq_self_iff.mpr clean, List.dropWhile_eq_nil_iff.mpr clean]
  exact ⟨rfl, rfl⟩

/-- What `nextLine` answers, and what it leaves. -/
structure Answers (st : SourceState) (answer : Option Piece × SourceState) : Prop where
  piece : answer.1 = (firstLine st.unread).map fun line => ⟨line, st.offset⟩
  sound : Sound answer.2
  unread : answer.2.unread = afterLine st.unread
  offset : answer.2.offset + answer.2.unread.length = st.offset + st.unread.length

theorem Answers.of_read_on {st st' : SourceState} {answer : Option Piece × SourceState}
    (on : ReadOn st st') (answers : Answers st' answer) : Answers st answer := by
  refine ⟨?_, answers.sound, ?_, ?_⟩
  · rw [answers.piece, on.unread, on.offset]
  · rw [answers.unread, on.unread]
  · rw [answers.offset, on.unread, on.offset]

theorem take_line {st : SourceState} (sound : Sound st) {line left : Bytes} (term : Bytes)
    (split : st.buf.drop st.pos = line ++ (term ++ left))
    (first : firstLine st.unread = some line)
    (after : afterLine st.unread = left ++ (st.chunks.map Chunk.bytes).flatten) :
    Answers st
      (some ⟨(st.buf.drop st.pos).take (st.pos + line.length - st.pos), st.offset⟩,
        { st with
          pos := st.pos + (st.pos + line.length + term.length - st.pos)
          offset := st.offset + (st.pos + line.length + term.length - st.pos) }) := by
  have inside := sound.inside
  have length := congrArg List.length split
  simp only [List.length_drop, List.length_append] at length
  have used : st.pos + line.length + term.length - st.pos = line.length + term.length := by omega
  have behind : st.buf.drop (st.pos + (line.length + term.length)) = left := by
    rw [← List.drop_drop, split, ← List.append_assoc, ← List.length_append, List.drop_left]
  rw [used]
  refine ⟨?_, ⟨?_, sound.ended⟩, ?_, ?_⟩
  · rw [first, split, Nat.add_sub_cancel_left, List.take_left]
    rfl
  · dsimp only
    omega
  · rw [after, SourceState.unread, behind]
  · rw [SourceState.unread, behind, SourceState.unread, split]
    simp only [List.length_append]
    omega

theorem next_line_from_answers (scan : Nat) (st : SourceState) :
    Sound st → Scanned scan st → Answers st (nextLineFrom scan st) := by
  induction scan, st using nextLineFrom.induct with
  | case1 scan st i found wait ih =>
      intro sound scanned
      have on := fill_reads_on sound
      obtain ⟨line, c, more, split, clean, -, rfl⟩ := scanned.found found
      rw [nextLineFrom, found]
      simp only [wait, and_self, dite_true]
      refine (ih on.sound (on.scanned ?_ ?_)).of_read_on on
      · rw [split, List.length_append]
        omega
      · rw [split, Nat.add_sub_cancel_left, List.take_left]
        exact clean
  | case2 scan st i found go =>
      intro sound scanned
      obtain ⟨line, c, more, split, clean, terminator, rfl⟩ := scanned.found found
      have here : st.buf[st.pos + line.length]? = some c := by
        rw [← List.getElem?_drop, split]
        simp
      have next : st.buf[st.pos + line.length + 1]? = more.head? := by
        rw [Nat.add_assoc, ← List.getElem?_drop, split, List.getElem?_append_right (by omega)]
        simp [List.head?_eq_getElem?]
      have inside := sound.inside
      have length := congrArg List.length split
      simp only [List.length_drop, List.length_append, List.length_cons] at length
      -- a CR is only taken alone when the next byte is known or the input has ended
      have known : c = CR → more = [] → st.chunks = [] := by
        rintro rfl rfl
        refine sound.ended (of_not_not fun going => go ⟨⟨here, ?_⟩, eq_false_of_ne_true going⟩)
        simp only [List.length_nil] at length
        omega
      have unread : st.unread = line ++ c :: (more ++ (st.chunks.map Chunk.bytes).flatten) := by
        rw [SourceState.unread, split, List.append_assoc, List.cons_append]
      obtain ⟨first, after⟩ := first_line_terminated
        (more ++ (st.chunks.map Chunk.bytes).flatten) clean terminator
      rw [nextLineFrom, found]
      simp only
      rw [dif_neg go, here, next]
      simp only [Option.some.injEq]
      by_cases pair : c = CR ∧ more.head? = some LF
      · rw [if_pos pair]
        obtain ⟨rfl, lf⟩ := pair
        obtain ⟨left, rfl⟩ : ∃ left, more = LF :: left := by
          cases more with
          | nil => cases lf
          | cons b left => exact ⟨left, by simpa using lf⟩
        refine take_line sound [CR, LF] split (by rw [unread, first]) ?_
        rw [unread, after]
        simp [behindTerminator]
      · rw [if_neg pair]
        refine take_line sound [c] split (by rw [unread, first]) ?_
        rw [unread, after]
        unfold behindTerminator
        refine if_neg fun both => ?_
        cases more with
        | nil => simp [known both.1 rfl] at both
        | cons b left => exact pair ⟨both.1, by simpa using both.2⟩
  | case3 scan st missing ended final =>
      intro sound scanned
      have unread : st.unread = [] := by
        simp [SourceState.unread, final, sound.ended ended]
      rw [nextLineFrom, missing]
      simp only [ended, final, dite_true, if_true]
      exact ⟨by rw [unread]; rfl, sound, by rw [unread]; rfl, rfl⟩
  | case4 scan st missing ended more =>
      intro sound scanned
      have clean := scanned.not_found missing
      have unread : st.unread = st.buf.drop st.pos := by
        simp [SourceState.unread, sound.ended ended]
      have some_bytes : st.buf.drop st.pos ≠ [] := by
        have inside := sound.inside
        rw [Ne, List.drop_eq_nil_iff]
        omega
      obtain ⟨first, after⟩ := first_line_last clean some_bytes
      rw [nextLineFrom, missing]
      simp only [ended, more, dite_true, if_false]
      refine ⟨by rw [unread, first]; rfl, ⟨Nat.le_refl 0, fun _ => sound.ended ended⟩, ?_, ?_⟩
      · rw [unread, after]
        simp [SourceState.unread, sound.ended ended]
      · rw [unread]
        simp [SourceState.unread, sound.ended ended]
  | case5 scan st missing going ih =>
      intro sound scanned
      have on := fill_reads_on sound
      rw [nextLineFrom, missing]
      simp only [going, dite_false, Bool.false_eq_true]
      refine (ih on.sound (on.scanned ?_ ?_)).of_read_on on
      · rw [List.length_drop]
      · intro b member
        exact scanned.not_found missing b (List.mem_of_mem_take member)

theorem next_line_answers {st : SourceState} (sound : Sound st) : Answers st (nextLine st) :=
  next_line_from_answers st.pos st sound
    ⟨Nat.le_refl _, sound.inside, by simp⟩

/-! ## The lines of a text -/

theorem after_line_end {text : Bytes} (last : text.dropWhile inLine = []) : afterLine text = [] := by
  simp only [afterLine, last]

theorem after_line_terminator {text rest : Bytes} {c : UInt8}
    (more : text.dropWhile inLine = c :: rest) : afterLine text = behindTerminator c rest := by
  simp only [afterLine, more]

theorem first_line_nil : firstLine [] = none := if_pos rfl

theorem first_line_nonempty {text : Bytes} (nonempty : text ≠ []) :
    firstLine text = some (text.takeWhile inLine) := if_neg nonempty

theorem split_lines_nil : splitLines [] = [] := by
  rw [splitLines, if_pos rfl]

theorem split_lines_nonempty {text : Bytes} (nonempty : text ≠ []) :
    splitLines text = text.takeWhile inLine :: splitLines (afterLine text) := by
  rw [splitLines, if_neg nonempty]
  split
  · rename_i last
    rw [after_line_end last, split_lines_nil]
  · rename_i c rest more
    rw [after_line_terminator more]

theorem skip_lines_nil (k : Int) : skipLines [] k = [] := by
  rw [skipLines, if_neg (by simp)]

theorem skip_lines_zero (text : Bytes) : skipLines text (0 : Nat) = text := by
  rw [skipLines, if_neg (by simp)]

theorem skip_lines_succ (text : Bytes) (k : Nat) :
    skipLines text (k + 1 : Nat) = skipLines (afterLine text) k := by
  by_cases empty : text = []
  · subst empty
    rw [skip_lines_nil, after_line_end rfl, skip_lines_nil]
  · rw [skipLines, if_pos ⟨by omega, empty⟩]
    split
    · rename_i last
      rw [after_line_end last, skip_lines_nil]
    · rename_i c rest more
      rw [after_line_terminator more, show ((k + 1 : Nat) : Int) - 1 = k by omega]

theorem after_line_skip_lines (text : Bytes) (k : Nat) :
    afterLine (skipLines text k) = skipLines text (k + 1 : Nat) := by
  induction k generalizing text with
  | zero => rw [skip_lines_succ, skip_lines_zero, skip_lines_zero]
  | succ k ih => rw [skip_lines_succ, ih, ← skip_lines_succ]

theorem get_split_lines (text : Bytes) (k : Nat) :
    (splitLines text)[k]? = firstLine (skipLines text k) := by
  induction k generalizing text with
  | zero =>
      rw [skip_lines_zero]
      by_cases empty : text = []
      · subst empty
        rw [split_lines_nil, first_line_nil]
        rfl
      · rw [split_lines_nonempty empty, first_line_nonempty empty]
        rfl
  | succ k ih =>
      rw [skip_lines_succ, ← ih]
      by_cases empty : text = []
      · subst empty
        rw [after_line_end rfl, split_lines_nil]
        rfl
      · rw [split_lines_nonempty empty]
        rfl

theorem skip_lines_suffix (text : Bytes) (k : Nat) : skipLines text k <:+ text := by
  induction k generalizing text with
  | zero => exact (congrArg (· <:+ text) (skip_lines_zero text)).mpr (List.suffix_refl text)
  | succ k ih =>
      rw [skip_lines_succ]
      refine (ih _).trans ?_
      cases more : text.dropWhile inLine with
      | nil =>
          rw [after_line_end more]
          exact List.nil_suffix
      | cons c rest =>
          rw [after_line_terminator more]
          have behind : behindTerminator c rest <:+ rest := by
            unfold behindTerminator
            split_ifs
            · exact List.tail_suffix rest
            · exact List.suffix_refl rest
          refine behind.trans ((List.suffix_cons c rest).trans ?_)
          rw [← more]
          exact List.dropWhile_suffix inLine

/-! ## A run -/

theorem read_source_line_answers (locked : Bool) (st : SourceState) :
    (readSourceLine locked st).1 = (nextLine st).1 ∧
      (readSourceLine locked st).2.1 = (nextLine st).2 := by
  unfold readSourceLine
  split_ifs <;> exact ⟨rfl, rfl⟩

/-- What holds after `k` lines. -/
structure After (text : Bytes) (k : Nat) (st : SourceState) : Prop where
  sound : Sound st
  unread : st.unread = skipLines text k
  offset : st.offset + st.unread.length = text.length

theorem After.line {text : Bytes} {k : Nat} {st : SourceState} (after : After text k st)
    (locked : Bool) : After text (k + 1) (readSourceLine locked st).2.1 := by
  rw [(read_source_line_answers locked st).2]
  have answers := next_line_answers after.sound
  refine ⟨answers.sound, ?_, answers.offset.trans after.offset⟩
  rw [answers.unread, after.unread, after_line_skip_lines]

theorem after_lines (locked : Nat → Bool) (chunks : List Chunk) (k : Nat) :
    After (chunks.map Chunk.bytes).flatten k (afterLines locked (SourceState.start chunks) k) := by
  induction k with
  | zero =>
      refine ⟨⟨Nat.le_refl 0, fun ended => by cases ended⟩, ?_, ?_⟩
      · rw [skip_lines_zero]
        rfl
      · exact Nat.zero_add _
  | succ k ih => exact ih.line (locked k)

theorem After.drop_offset {text : Bytes} {k : Nat} {st : SourceState} (after : After text k st) :
    text.drop st.offset = skipLines text k := by
  obtain ⟨taken, split⟩ := skip_lines_suffix text k
  have offset := after.offset
  rw [after.unread] at offset
  have length := congrArg List.length split
  rw [List.length_append] at length
  rw [show st.offset = taken.length by omega]
  exact (congrArg (List.drop taken.length) split).symm.trans List.drop_left

theorem After.piece {text : Bytes} {k : Nat} {st : SourceState} (after : After text k st)
    (locked : Bool) :
    (readSourceLine locked st).1 = (splitLines text)[k]?.map fun line => ⟨line, st.offset⟩ := by
  rw [(read_source_line_answers locked st).1, (next_line_answers after.sound).piece, after.unread,
    get_split_lines]

theorem fill_all_reads_on {st : SourceState} :
    Sound st → ReadOn st (fillAll st) ∧ (fillAll st).eof = true := by
  induction st using fillAll.induct with
  | case1 st ended =>
      intro sound
      rw [fillAll, dif_pos ended]
      exact ⟨⟨sound, rfl, rfl, [], by simp⟩, ended⟩
  | case2 st going ih =>
      intro sound
      have on := fill_reads_on sound
      obtain ⟨all, ended⟩ := ih on.sound
      rw [fillAll, dif_neg going]
      obtain ⟨first, kept⟩ := on.prefix_kept
      obtain ⟨more, later⟩ := all.prefix_kept
      refine ⟨⟨all.sound, all.offset.trans on.offset, all.unread.trans on.unread, first ++ more, ?_⟩,
        ended⟩
      rw [later, kept, List.append_assoc]

/-- `rest` hands out all the input that is left. -/
theorem rest_piece {st : SourceState} (sound : Sound st) :
    (rest st).1 = ⟨st.unread, st.offset⟩ ∧ (rest st).2.unread = [] := by
  obtain ⟨on, ended⟩ := fill_all_reads_on sound
  have none_left := on.sound.ended ended
  have all : (fillAll st).buf.drop (fillAll st).pos = st.unread := by
    rw [← on.unread, SourceState.unread, none_left]
    simp
  constructor
  · rw [rest, all, on.offset]
  · simp [rest, SourceState.unread, none_left]

/-- A line that is in the buffer is taken without a read, whatever the state. -/
theorem line_buffered_no_read {st : SourceState} (buffered : lineBuffered st = true) :
    (nextLine st).2.reads = st.reads := by
  unfold lineBuffered at buffered
  rw [nextLine, nextLineFrom]
  by_cases ended : st.eof = true
  · split
    · rw [dif_neg (by simp [ended])]
    · rw [dif_pos ended]
      split_ifs <;> rfl
  · rw [if_neg ended] at buffered
    cases found : findTerminator st.buf st.pos with
    | none => simp [found] at buffered
    | some i =>
        rw [found] at buffered
        simp only
        rw [dif_neg]
        rintro ⟨⟨carriage, final⟩, -⟩
        simp [carriage, final] at buffered

/-- The pieces are the lines of the whole input, each with the offset of its first byte; what
is behind the first `k` lines is what is left of the input; and a line that is in the buffer
needs no read. -/
theorem streamed_lines (chunks : List Chunk) (locked : Nat → Bool) (k : Nat) :
    let content := (chunks.map Chunk.bytes).flatten
    let st := afterLines locked (SourceState.start chunks) k
    (readSourceLine (locked k) st).1 =
        (splitLines content)[k]?.map (fun line => ⟨line, st.offset⟩) ∧
      st.offset ≤ content.length ∧ content.drop st.offset = skipLines content k ∧
      (rest st).1 = ⟨skipLines content k, st.offset⟩ ∧
      ∀ st : SourceState, lineBuffered st = true → (nextLine st).2.reads = st.reads := by
  intro content st
  have after : After content k st := after_lines locked chunks k
  refine ⟨after.piece (locked k), ?_, after.drop_offset, ?_, fun st => line_buffered_no_read⟩
  · exact after.offset ▸ Nat.le_add_right _ _
  · rw [(rest_piece after.sound).1, after.unread]

end ProtoScala.Runtime.LineReading

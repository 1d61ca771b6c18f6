import ProtoScala.Compiler.CppTablesRead

/-!
# The constants and the pool of a block
-/

namespace ProtoScala.Compiler.CppTables

open ProtoScala.Library.CppLiterals

set_option autoImplicit false

/-! ## The arrays of long strings -/

/-- The names of the arrays are words. -/
def Word (name : Text) : Prop := name ≠ [] ∧ ∀ c ∈ name, isWordChar c = true

theorem Word.append {name more : Text} (word : Word name)
    (chars : ∀ c ∈ more, isWordChar c = true) : Word (name ++ more) := by
  refine ⟨fun empty => word.1 (List.append_eq_nil_iff.mp empty).1, fun c member => ?_⟩
  rcases List.mem_append.mp member with before | behind
  · exact word.2 c before
  · exact chars c behind

theorem decimal_chars (n : Nat) : ∀ c ∈ decimal n, isWordChar c = true := by
  simpa using @decimal_word n [] (by simp)

theorem consts_text : text "_consts" = ['_', 'c', 'o', 'n', 's', 't', 's'] := by simp [text]

theorem strings_text : text "_strings" = ['_', 's', 't', 'r', 'i', 'n', 'g', 's'] := by
  simp [text]

theorem string_text : text "_s" = ['_', 's'] := by simp [text]

theorem key_text : text "_k" = ['_', 'k'] := by simp [text]

theorem line_text : text "_" = ['_'] := by simp [text]

theorem block_text : text "blk" = ['b', 'l', 'k'] := by simp [text]

theorem unsigned_text : text "u" = ['u'] := by simp [text]

theorem long_text : text "LL" = ['L', 'L'] := by simp [text]

theorem block_word (i : Nat) : Word (blockName i) := by
  rw [blockName, block_text]
  exact Word.append ⟨by simp, word_chars rfl⟩ (decimal_chars i)

theorem consts_word (i : Nat) : Word (blockName i ++ text "_consts") := by
  rw [consts_text]
  exact (block_word i).append (word_chars rfl)

theorem strings_word (i : Nat) : Word (blockName i ++ text "_strings") := by
  rw [strings_text]
  exact (block_word i).append (word_chars rfl)

theorem string_word {name : Text} (word : Word name) (i : Nat) :
    Word (name ++ text "_s" ++ decimal i) := by
  rw [string_text]
  exact (word.append (word_chars rfl)).append (decimal_chars i)

theorem key_word {name : Text} (word : Word name) (i : Nat) :
    Word (name ++ text "_k" ++ decimal i) := by
  rw [key_text]
  exact (word.append (word_chars rfl)).append (decimal_chars i)

theorem line_word {name : Text} (word : Word name) (i : Nat) :
    Word (name ++ text "_" ++ decimal i) := by
  rw [line_text]
  exact (word.append (word_chars rfl)).append (decimal_chars i)

/-- The elements of the array for a long string. -/
def elements (s : Bytes) : List Text := s.map charLiteral ++ [charLiteral 0]

theorem ref_array {s : Bytes} {name : Text} {a : Text × List Text}
    (member : a ∈ (stringRef s name).1) : a = (name, elements s) := by
  unfold stringRef at member
  split_ifs at member
  · exact absurd member List.not_mem_nil
  · exact List.mem_singleton.mp member

/-- An array of `emitConsts` is the string or the key of one constant. -/
theorem const_array {name : Text} {consts : List Const} {a : Text × List Text} (i : Nat)
    (pool : List Bytes) (member : a ∈ (emitConsts name i consts pool).1) :
    ∃ j c, consts[j]? = some c ∧
      (a = (name ++ text "_s" ++ decimal (i + j), elements c.sval) ∨
        a = (name ++ text "_k" ++ decimal (i + j), elements c.key)) := by
  induction consts generalizing i pool with
  | nil => exact absurd member List.not_mem_nil
  | cons c consts induction =>
      simp only [emitConsts, emitConst, List.mem_append] at member
      rcases member with (string | key) | later
      · exact ⟨0, c, rfl, .inl (ref_array string)⟩
      · exact ⟨0, c, rfl, .inr (ref_array key)⟩
      · obtain ⟨j, c', at_, named⟩ := induction (i + 1) _ later
        refine ⟨j + 1, c', at_, ?_⟩
        rwa [← Nat.add_assoc, Nat.add_right_comm]

theorem string_array {name : Text} {pool : List Bytes} {a : Text × List Text} (i : Nat)
    (member : a ∈ (emitStrings name i pool).1) :
    ∃ j s, pool[j]? = some s ∧ a = (name ++ text "_" ++ decimal (i + j), elements s) := by
  induction pool generalizing i with
  | nil => exact absurd member List.not_mem_nil
  | cons s pool induction =>
      simp only [emitStrings, List.mem_append] at member
      rcases member with here | later
      · exact ⟨0, s, rfl, ref_array here⟩
      · obtain ⟨j, s', at_, named⟩ := induction (i + 1) later
        refine ⟨j + 1, s', at_, ?_⟩
        rwa [← Nat.add_assoc, Nat.add_right_comm]

/-- No two arrays of a block have one name. -/
theorem array_unique {out : List FlatBlock} {index : Nat} {blk : FlatBlock}
    {a b : Text × List Text} (one : a ∈ (emitTables out index blk).arrays)
    (two : b ∈ (emitTables out index blk).arrays) (same : a.1 = b.1) : a.2 = b.2 := by
  simp only [emitTables, List.mem_append] at one two
  rcases one with one | one
  · obtain ⟨j, c, at_, named⟩ := const_array 0 [] one
    rcases two with two | two
    · obtain ⟨j', c', at_', named'⟩ := const_array 0 [] two
      rcases named with rfl | rfl <;> rcases named' with rfl | rfl <;>
        simp only [List.append_assoc, List.append_cancel_left_eq, string_text, key_text,
          List.cons_append, List.nil_append, List.cons.injEq, Nat.zero_add] at same
      · obtain rfl := decimal_injective same.2.2
        rw [at_] at at_'
        rw [Option.some.inj at_']
      · exact absurd same.2.1 (by decide)
      · exact absurd same.2.1 (by decide)
      · obtain rfl := decimal_injective same.2.2
        rw [at_] at at_'
        rw [Option.some.inj at_']
    · obtain ⟨j', s, at_', rfl⟩ := string_array 0 two
      rcases named with rfl | rfl <;>
        simp only [List.append_assoc, List.append_cancel_left_eq, consts_text, strings_text,
          List.cons_append, List.cons.injEq] at same <;>
        exact absurd same.2.1 (by decide)
  · obtain ⟨j, s, at_, rfl⟩ := string_array 0 one
    rcases two with two | two
    · obtain ⟨j', c, at_', named⟩ := const_array 0 [] two
      rcases named with rfl | rfl <;>
        simp only [List.append_assoc, List.append_cancel_left_eq, consts_text, strings_text,
          List.cons_append, List.cons.injEq] at same <;>
        exact absurd same.2.1 (by decide)
    · obtain ⟨j', s', at_', rfl⟩ := string_array 0 two
      simp only [List.append_assoc, List.append_cancel_left_eq, Nat.zero_add] at same
      obtain rfl := decimal_injective same
      rw [at_] at at_'
      rw [Option.some.inj at_']

theorem lookup_unique {arrays : List (Text × List Text)} {a : Text × List Text}
    (member : a ∈ arrays) (unique : ∀ b ∈ arrays, b.1 = a.1 → b.2 = a.2) :
    arrays.lookup a.1 = some a.2 := by
  induction arrays with
  | nil => exact absurd member List.not_mem_nil
  | cons b arrays induction =>
      rw [List.lookup_cons]
      by_cases same : a.1 = b.1
      · rw [beq_iff_eq.mpr same]
        exact congrArg some (unique b List.mem_cons_self same.symm)
      · rw [beq_eq_false_iff_ne.mpr same]
        rcases List.mem_cons.mp member with rfl | later
        · exact absurd rfl same
        · exact induction later fun b member => unique b (List.mem_cons_of_mem _ member)

/-- The name of an array begins with the name of its block. -/
theorem block_array {out : List FlatBlock} {index : Nat} {blk : FlatBlock}
    {a : Text × List Text} (member : a ∈ (emitTables out index blk).arrays) :
    ∃ rest, a.1 = text "blk" ++ (decimal index ++ '_' :: rest) := by
  simp only [emitTables, List.mem_append] at member
  rcases member with member | member
  · obtain ⟨j, c, _, rfl | rfl⟩ := const_array 0 [] member <;>
      simp only [blockName, consts_text, List.append_assoc, List.cons_append] <;>
      exact ⟨_, rfl⟩
  · obtain ⟨j, s, _, rfl⟩ := string_array 0 member
    simp only [blockName, strings_text, List.append_assoc, List.cons_append]
    exact ⟨_, rfl⟩

/-- The arrays that a block defines are found under their names in the file. -/
theorem array_found {out : List FlatBlock} {index : Nat} {blk : FlatBlock}
    (at_ : out[index]? = some blk) {a : Text × List Text}
    (member : a ∈ (emitTables out index blk).arrays) :
    (inFile out index blk).arrays.lookup a.1 = some a.2 := by
  refine lookup_unique (List.mem_flatMap.mpr
    ⟨(blk, index), List.mem_zipIdx_iff_getElem?.mpr at_, member⟩) fun b other same => ?_
  obtain ⟨⟨blk', index'⟩, at_', other⟩ := List.mem_flatMap.mp other
  obtain ⟨rest, named⟩ := block_array member
  obtain ⟨rest', named'⟩ := block_array other
  rw [named, named'] at same
  obtain rfl := decimal_cut (by decide) (List.append_cancel_left same)
  rw [List.mem_zipIdx_iff_getElem?, at_] at at_'
  obtain rfl := Option.some.inj at_'
  exact array_unique other member (named'.trans (same.trans named.symm))

/-! ## The pool -/

theorem emitted_pool (name : Text) (i : Nat) (consts : List Const) (pool : List Bytes) :
    (emitConsts name i consts pool).2.2 = pool ++ pooled consts := by
  induction consts generalizing i pool with
  | nil => exact (List.append_nil pool).symm
  | cons c consts induction =>
      simp only [emitConsts]
      rw [induction, pooled, pooled, List.flatMap_cons, List.append_assoc, List.append_assoc,
        List.append_assoc]

theorem clean_ref {t : Tables} {s : Bytes} {name : Text} (word : Word name)
    (found : ∀ a ∈ (stringRef s name).1, t.arrays.lookup a.1 = some a.2) (clean : 0 ∉ s) :
    readString t (stringRef s name).2 = some s := by
  rw [readString, pointed_ref word.2 word.1 fun elements member => found _ member,
    Option.bind_some, zero_terminated, clean_whole clean]

theorem strings_read {t : Tables} {name : Text} (word : Word name) (i : Nat)
    {pool : List Bytes} (clean : ∀ s ∈ pool, 0 ∉ s)
    (found : ∀ a ∈ (emitStrings name i pool).1, t.arrays.lookup a.1 = some a.2) :
    (emitStrings name i pool).2.map (readString t) = pool.map some := by
  induction pool generalizing i with
  | nil => rfl
  | cons s pool induction =>
      simp only [emitStrings, List.mem_append] at found ⊢
      rw [List.map_cons, List.map_cons,
        clean_ref (line_word word i) (fun a member => found a (.inl member))
          (clean s List.mem_cons_self),
        induction (i + 1) (fun s member => clean s (List.mem_cons_of_mem _ member))
          fun a member => found a (.inr member)]

/-- A slice of the pool. -/
theorem slice_read {t : Tables} {before slice behind : List Bytes}
    (pool : t.strings.map (readString t) = (before ++ slice ++ behind).map some) :
    readStrings t before.length slice.length = some slice := by
  have length : t.strings.length = before.length + slice.length + behind.length := by
    simpa [Nat.add_assoc] using congrArg List.length pool
  have all : ((t.strings.drop before.length).take slice.length).map (readString t) =
      slice.map some := by
    rw [List.map_take, List.map_drop, pool, ← List.map_drop, ← List.map_take, List.append_assoc,
      List.drop_left, List.take_left]
  have mapM : ∀ {texts : List Text} {read : List Bytes},
      texts.map (readString t) = read.map some → texts.mapM (readString t) = some read := by
    intro texts
    induction texts with
    | nil =>
        intro read same
        rw [List.map_eq_nil_iff.mp same.symm]
        rfl
    | cons e texts induction =>
        intro read same
        cases read with
        | nil => exact absurd same (by simp)
        | cons s read =>
            rw [List.map_cons, List.map_cons, List.cons.injEq] at same
            rw [List.mapM_cons, same.1, induction same.2]
            rfl
  rw [readStrings, if_pos ⟨by omega, by omega, by omega⟩, Int.toNat_natCast, Int.toNat_natCast]
  exact mapM all

theorem to_int {n : Nat} (small : n < 2147483648) : toInt n = n := by
  unfold toInt
  exact Int.bmod_eq_of_le (by omega) (by omega)

/-! ## Records -/

theorem signed_nat (n : Nat) : signed n = decimal n := by
  rw [signed, if_neg (by omega), Int.natAbs_natCast]

theorem integer_plain (v low high : Int) (small : v.natAbs < 9223372036854775808)
    (inside : low ≤ v ∧ v < high) : integer low high (signed v) = some v := by
  simpa using @integer_signed v [] low high (.inl rfl) small inside

theorem integer_natural (n : Nat) (low high : Int) (small : n < 9223372036854775808)
    (inside : low ≤ n ∧ (n : Int) < high) : integer low high (decimal n) = some (n : Int) := by
  rw [← signed_nat]
  exact integer_plain n low high (by simpa using small) inside

theorem bool_read (b : Bool) : readBool (truth b) = some b := by
  have true_ : text "true" = ['t', 'r', 'u', 'e'] := by simp [text]
  have false_ : text "false" = ['f', 'a', 'l', 's', 'e'] := by simp [text]
  unfold truth
  cases b
  · rw [if_neg Bool.false_ne_true, readBool, false_, true_,
      tokens_word (word_chars rfl) (by simp)]
    rfl
  · rw [if_pos rfl, readBool, true_, tokens_word (word_chars rfl) (by simp)]
    rfl

theorem int_read (v : Int32) : readInt (signed v.toInt) = some v.toInt := by
  have low := v.le_toInt
  have high := v.toInt_lt
  exact integer_plain _ _ _ (by omega) (by omega)

/-- A record, where the pool has the strings of its constant. -/
theorem const_read {t : Tables} {name : Text} (word : Word name) (i : Nat) {c : Const}
    {before behind : List Bytes}
    (pool : t.strings.map (readString t) = (before ++ c.names ++ c.fields ++ behind).map some)
    (names : before.length + c.names.length < 2147483648)
    (fields : c.fields.length < 2147483648)
    (least : c.ival.toInt ≠ -9223372036854775808) (clean : 0 ∉ c.key)
    (sized : c.sval.length < 18446744073709551616)
    (found : ∀ a ∈ (emitConst name i c before.length).1, t.arrays.lookup a.1 = some a.2) :
    readConst t (emitConst name i c before.length).2 = some c.value := by
  simp only [emitConst, List.mem_append] at found
  have kind := integer_natural c.kind.toNat 0 256 (by have := c.kind.toNat_lt; omega)
    ⟨by omega, by have := c.kind.toNat_lt; omega⟩
  have low := c.ival.le_toInt
  have high := c.ival.toInt_lt
  have ival := integer_signed c.ival.toInt (-9223372036854775808) 9223372036854775808
    (.inr rfl : ['L', 'L'] = [] ∨ ['L', 'L'] = ['L', 'L']) (by omega) (by omega)
  have unsigned : ∀ n : UInt32, readUnsigned (decimal n.toNat ++ ['u']) = some (n.toNat : Int) :=
    fun n => integer_unsigned _ _ _ (by have := n.toNat_lt; omega)
      ⟨by omega, by have := n.toNat_lt; omega⟩
  have slen : readSize (decimal c.sval.length ++ ['u']) = some (c.sval.length : Int) :=
    integer_unsigned _ _ _ sized ⟨by omega, by omega⟩
  have sval : pointedTo t.arrays (stringRef c.sval (name ++ text "_s" ++ decimal i)).2 =
      some (c.sval ++ [0]) :=
    pointed_ref (string_word word i).2 (string_word word i).1 fun _ member =>
      found _ (.inl member)
  have whole : withLength c.sval.length (c.sval ++ [0]) = some c.sval := by
    rw [withLength, if_pos (by simp), List.take_left]
  have key := clean_ref (t := t) (key_word word i) (fun a member => found a (.inr member)) clean
  have count : ∀ n : Nat, n < 2147483648 → readInt (decimal n) = some (n : Int) := fun n small =>
    integer_natural n _ _ (by omega) (by omega)
  have first : ∀ n : Nat, n < 2147483648 → readInt (signed (toInt n)) = some (n : Int) :=
    fun n small => by rw [to_int small, signed_nat, count n small]
  have namesRead : readStrings t before.length c.names.length = some c.names :=
    @slice_read t before c.names (c.fields ++ behind) (by simpa using pool)
  have fieldsRead : readStrings t ((before.length + c.names.length : Nat) : Int) c.fields.length =
      some c.fields := by
    rw [← List.length_append]
    exact slice_read pool
  simp only [readConst, emitConst, unsigned_text, long_text, kind, ival, int_read, unsigned,
    bool_read, slen, Int.toNat_natCast, sval, whole, key, count c.names.length (by omega),
    count c.fields.length (by omega), first before.length (by omega),
    first (before.length + c.names.length) (by omega), namesRead, fieldsRead, Option.bind_eq_bind,
    Option.bind_some]
  rfl

/-- Every record, from a constant on. -/
theorem consts_read {t : Tables} {name : Text} (word : Word name) (i : Nat)
    {consts : List Const} {before : List Bytes}
    (pool : t.strings.map (readString t) = (before ++ pooled consts).map some)
    (fits : Fits before.length consts)
    (plain : ∀ c ∈ consts, c.ival.toInt ≠ -9223372036854775808 ∧ 0 ∉ c.key)
    (sized : ∀ c ∈ consts, c.sval.length < 18446744073709551616)
    (found : ∀ a ∈ (emitConsts name i consts before).1, t.arrays.lookup a.1 = some a.2) :
    (emitConsts name i consts before).2.1.map (readConst t) =
      consts.map fun c => some c.value := by
  induction consts generalizing i before with
  | nil => rfl
  | cons c consts induction =>
      simp only [emitConsts, List.mem_append] at found ⊢
      have split : before ++ pooled (c :: consts) =
          before ++ c.names ++ c.fields ++ pooled consts := by
        simp [pooled]
      rw [split] at pool
      obtain ⟨⟨names, fields⟩, rest⟩ := fits
      obtain ⟨least, clean⟩ := plain c List.mem_cons_self
      rw [List.map_cons, List.map_cons,
        const_read word i pool names fields least clean (sized c List.mem_cons_self)
          fun a member => found a (.inl member),
        induction (i + 1) pool
          (by rw [List.length_append, List.length_append]; exact rest)
          (fun c member => plain c (List.mem_cons_of_mem _ member))
          (fun c member => sized c (List.mem_cons_of_mem _ member))
          fun a member => found a (.inr member)]

theorem handler_read {h : Handler}
    (sized : h.startPc < 4294967296 ∧ h.endPc < 4294967296 ∧ h.handlerPc < 4294967296) :
    readHandler (emitHandler h) = some h.value := by
  have unsigned : ∀ n : Nat, n < 4294967296 → readUnsigned (decimal n ++ ['u']) = some (n : Int) :=
    fun n small => integer_unsigned _ _ _ (by omega) (by omega)
  have kind := integer_natural h.kind.toNat 0 256 (by have := h.kind.toNat_lt; omega)
    ⟨by omega, by have := h.kind.toNat_lt; omega⟩
  simp only [readHandler, emitHandler, unsigned_text, unsigned _ sized.1, unsigned _ sized.2.1,
    unsigned _ sized.2.2, int_read, kind, Option.bind_eq_bind, Option.bind_some]
  rfl

/-! ## Back from what is read -/

theorem strings_clean {t : Tables} {first count : Int} {strings : List Bytes}
    (read : readStrings t first count = some strings) : ∀ s ∈ strings, 0 ∉ s := by
  unfold readStrings at read
  split_ifs at read
  generalize (t.strings.drop first.toNat).take count.toNat = texts at read
  induction texts generalizing strings with
  | nil =>
      obtain rfl := Option.some.inj read
      simp
  | cons e texts induction =>
      simp only [List.mapM_cons, Option.bind_eq_bind, Option.bind_eq_some_iff] at read
      obtain ⟨s, one, more, later, same⟩ := read
      obtain rfl := Option.some.inj same
      intro s' member
      rcases List.mem_cons.mp member with rfl | member
      · obtain ⟨array, _, ends⟩ := Option.bind_eq_some_iff.mp one
        exact terminated_clean ends
      · exact induction later s' member

theorem integer_below {n : Nat} {suffix : Text} {low high v : Int}
    (chars : ∀ c ∈ suffix, isWordChar c = true) (start : ∀ c ∈ suffix.head?, c.isDigit = false)
    (read : integer low high (decimal n ++ suffix) = some v) : (n : Int) < high := by
  have literal := literal_decimal n start
  rw [integer, tokens_decimal n chars] at read
  cases value : literalValue (decimal n ++ suffix) with
  | none =>
      simp only [value] at read
      cases read
  | some k =>
      simp only [value, Option.map_some] at read
      rw [Option.filter_eq_some_iff] at read
      have inside := read.2
      obtain rfl := Option.some.inj read.1
      have same : k = n := by
        rw [value] at literal
        split_ifs at literal <;> exact Option.some.inj literal
      subst same
      simpa using (of_decide_eq_true inside).2

/-- Where an index is read back, its strings are below the size of an `int`. -/
theorem first_small {n : Nat} {v : Int} (below : n < 4294967296)
    (read : readInt (signed (toInt n)) = some v) (positive : 0 ≤ v) : n < 2147483648 := by
  have low : -2147483648 ≤ toInt n := Int.le_bmod (by decide)
  have high : toInt n < 2147483648 := Int.bmod_lt (by decide)
  rw [readInt, integer_plain _ _ _ (by omega) ⟨low, high⟩] at read
  obtain rfl := Option.some.inj read
  unfold toInt at positive high
  rw [Int.bmod_def] at positive high
  split_ifs at positive high <;> omega

theorem strings_first {t : Tables} {first count : Int} {strings : List Bytes}
    (read : readStrings t first count = some strings) : 0 ≤ first := by
  unfold readStrings at read
  split_ifs at read with inside
  exact inside.1

/-- What can be read as a constant. -/
theorem const_clean {t : Tables} {name : Text} {i : Nat} {c : Const} {first : Nat}
    (below : first < 4294967296)
    (read : readConst t (emitConst name i c first).2 = some c.value) :
    (c.ival.toInt ≠ -9223372036854775808 ∧ 0 ∉ c.key ∧ (∀ s ∈ c.names, 0 ∉ s) ∧
        ∀ s ∈ c.fields, 0 ∉ s) ∧
      (first + c.names.length < 2147483648 ∧ c.fields.length < 2147483648) ∧
        c.sval.length < 18446744073709551616 := by
  simp only [readConst, emitConst, unsigned_text, long_text] at read
  obtain ⟨_, _, read⟩ := Option.bind_eq_some_iff.mp read
  obtain ⟨_, ival, read⟩ := Option.bind_eq_some_iff.mp read
  obtain ⟨_, _, read⟩ := Option.bind_eq_some_iff.mp read
  obtain ⟨_, _, read⟩ := Option.bind_eq_some_iff.mp read
  obtain ⟨_, _, read⟩ := Option.bind_eq_some_iff.mp read
  obtain ⟨_, _, read⟩ := Option.bind_eq_some_iff.mp read
  obtain ⟨_, slen, read⟩ := Option.bind_eq_some_iff.mp read
  obtain ⟨_, _, read⟩ := Option.bind_eq_some_iff.mp read
  obtain ⟨_, key, read⟩ := Option.bind_eq_some_iff.mp read
  obtain ⟨_, readNamesFirst, read⟩ := Option.bind_eq_some_iff.mp read
  obtain ⟨_, namesCount, read⟩ := Option.bind_eq_some_iff.mp read
  obtain ⟨_, names, read⟩ := Option.bind_eq_some_iff.mp read
  obtain ⟨_, readFieldsFirst, read⟩ := Option.bind_eq_some_iff.mp read
  obtain ⟨_, fieldsCount, read⟩ := Option.bind_eq_some_iff.mp read
  obtain ⟨_, fields, same⟩ := Option.bind_eq_some_iff.mp read
  obtain ⟨⟩ := Option.some.inj same
  obtain ⟨_, _, ends⟩ := Option.bind_eq_some_iff.mp key
  have least : c.ival.toInt ≠ -9223372036854775808 := fun least => by
    rw [least, integer_least] at ival
    cases ival
  have count : ∀ {n : Nat} {v : Int}, readInt (decimal n) = some v → n < 2147483648 := by
    intro n v read
    rw [readInt, ← List.append_nil (decimal n)] at read
    have := integer_below (by simp) (by simp) read
    omega
  have long := integer_below unsigned_suffix.1 unsigned_suffix.2 slen
  have few := count namesCount
  have start := first_small below readNamesFirst (strings_first names)
  have fieldsStart := first_small (by omega) readFieldsFirst (strings_first fields)
  exact ⟨⟨least, terminated_clean ends, strings_clean names, strings_clean fields⟩,
    ⟨fieldsStart, count fieldsCount⟩, by omega⟩

theorem consts_clean {t : Tables} {name : Text} (i : Nat) {consts : List Const}
    (before : List Bytes) (below : before.length < 4294967296)
    (read : (emitConsts name i consts before).2.1.map (readConst t) =
      consts.map fun c => some c.value) :
    (∀ c ∈ consts, c.ival.toInt ≠ -9223372036854775808 ∧ 0 ∉ c.key ∧ (∀ s ∈ c.names, 0 ∉ s) ∧
        ∀ s ∈ c.fields, 0 ∉ s) ∧
      Fits before.length consts ∧ ∀ c ∈ consts, c.sval.length < 18446744073709551616 := by
  induction consts generalizing i before with
  | nil => simp [Fits]
  | cons c consts induction =>
      simp only [emitConsts, List.map_cons, List.cons.injEq] at read
      obtain ⟨plain, ⟨names, fields⟩, long⟩ := const_clean below read.1
      obtain ⟨plains, fits, longs⟩ := induction (i + 1) _
        (by rw [List.length_append, List.length_append]; omega) read.2
      rw [List.length_append, List.length_append] at fits
      exact ⟨List.forall_mem_cons.mpr ⟨plain, plains⟩, ⟨⟨names, fields⟩, fits⟩,
        List.forall_mem_cons.mpr ⟨long, longs⟩⟩

theorem handler_clean {h : Handler} {v : HandlerValue}
    (read : readHandler (emitHandler h) = some v) :
    h.startPc < 4294967296 ∧ h.endPc < 4294967296 ∧ h.handlerPc < 4294967296 := by
  simp only [readHandler, emitHandler, unsigned_text] at read
  obtain ⟨_, startPc, read⟩ := Option.bind_eq_some_iff.mp read
  obtain ⟨_, endPc, read⟩ := Option.bind_eq_some_iff.mp read
  obtain ⟨_, handlerPc, _⟩ := Option.bind_eq_some_iff.mp read
  have below : ∀ {n : Nat} {v : Int}, readUnsigned (decimal n ++ ['u']) = some v →
      n < 4294967296 := fun read => by
    have := integer_below unsigned_suffix.1 unsigned_suffix.2 read
    omega
  exact ⟨below startPc, below endPc, below handlerPc⟩

/-! ## A block -/

theorem size_read {n : Nat} (small : n < 9223372036854775808) :
    readSize (decimal n) = some (n : Int) :=
  integer_natural n _ _ small (by omega)

theorem size_small {n : Nat} {v : Int} (read : readSize (decimal n) = some v) :
    n < 9223372036854775808 := by
  have literal := @literal_decimal n [] (by simp)
  have tokens_ := @tokens_decimal n [] (by simp)
  rw [List.append_nil] at literal tokens_
  by_contra large
  rw [if_pos (.inl rfl), if_neg large] at literal
  rw [readSize, integer, tokens_] at read
  simp only [literal] at read
  cases read

theorem unsigned_read {v : Int32} (positive : 0 ≤ v.toInt) :
    readUnsigned (signed v.toInt ++ ['u']) = some v.toInt := by
  have high := v.toInt_lt
  have same : (v.toInt.natAbs : Int) = v.toInt := by omega
  have read := integer_unsigned v.toInt.natAbs 0 4294967296 (by omega) (by omega)
  rw [same] at read
  rwa [readUnsigned, signed, if_neg (by omega)]

/-- The number of captures goes through an `int` and comes back. -/
theorem captures_read {n : Nat} (small : n < 4294967296) :
    readUnsigned (signed (toInt n) ++ ['u']) = some (n : Int) := by
  by_cases half : n < 2147483648
  · rw [to_int half, signed_nat]
    exact integer_unsigned n _ _ (by omega) (by omega)
  · have wrapped : toInt n = (n : Int) - 4294967296 := by
      unfold toInt
      rw [Int.bmod_def]
      split_ifs <;> omega
    have abs_ : (toInt n).natAbs = 4294967296 - n := by omega
    have literal := literal_decimal (4294967296 - n) unsigned_suffix.2
    rw [if_neg (by decide), if_pos rfl, if_pos (by omega)] at literal
    rw [readUnsigned, signed, if_pos (by omega), abs_, integer, List.cons_append,
      tokens_mark rfl rfl (by decide) (decimal_word unsigned_suffix.1)
        (by simp [decimal_ne_nil])]
    simp only [literal, Option.map_some, negated_unsigned (by omega : 4294967296 - n < 4294967296)]
    have same : ((4294967296 : Int) - ((4294967296 - n : Nat) : Int)) % 4294967296 = n := by omega
    rw [same, Option.filter_some, if_pos (by simpa using by omega)]

theorem fits_length {consts : List Const} {first : Nat} (fits : Fits first consts)
    (start : first < 4294967296) : first + (pooled consts).length < 4294967296 := by
  induction consts generalizing first with
  | nil => exact start
  | cons c consts induction =>
      obtain ⟨⟨names, fields⟩, rest⟩ := fits
      have later := induction rest (by omega)
      simp only [pooled, List.flatMap_cons, List.length_append] at later ⊢
      omega

theorem children_length (out : List FlatBlock) (count child : Nat) :
    (children out count child).length = count := by
  induction count generalizing child with
  | zero => rfl
  | succ count induction => rw [children, List.length_cons, induction]

section

variable {out : List FlatBlock} {index : Nat} {blk : FlatBlock}

theorem data_clean
    (record : readRec (inFile out index blk) (inFile out index blk).record =
      some blk.mod.value)
    (consts : (inFile out index blk).consts.map (readConst (inFile out index blk)) =
      blk.mod.data.consts.map fun c => some c.value)
    (handlers : (inFile out index blk).handlers.map readHandler =
      blk.mod.data.handlers.map fun h => some h.value) :
    Plain blk.mod.data ∧ Sized blk.mod.data := by
  simp only [readRec, inFile, emitTables, emitBlockRec, unsigned_text] at record
  obtain ⟨_, name, record⟩ := Option.bind_eq_some_iff.mp record
  obtain ⟨_, arity, record⟩ := Option.bind_eq_some_iff.mp record
  obtain ⟨_, localCount, record⟩ := Option.bind_eq_some_iff.mp record
  obtain ⟨_, maxStack, record⟩ := Option.bind_eq_some_iff.mp record
  obtain ⟨_, captureCount, record⟩ := Option.bind_eq_some_iff.mp record
  obtain ⟨_, _, record⟩ := Option.bind_eq_some_iff.mp record
  obtain ⟨_, _, record⟩ := Option.bind_eq_some_iff.mp record
  obtain ⟨_, _, record⟩ := Option.bind_eq_some_iff.mp record
  obtain ⟨_, constCount, record⟩ := Option.bind_eq_some_iff.mp record
  obtain ⟨_, handlerCount, record⟩ := Option.bind_eq_some_iff.mp record
  obtain ⟨_, _, record⟩ := Option.bind_eq_some_iff.mp record
  obtain ⟨_, _, same⟩ := Option.bind_eq_some_iff.mp record
  obtain ⟨⟩ := Option.some.inj same
  obtain ⟨_, _, ends⟩ := Option.bind_eq_some_iff.mp name
  obtain ⟨plain, fits, long⟩ := consts_clean 0 [] (by decide) consts
  have captures := (integer_inside captureCount).2
  refine ⟨⟨terminated_clean ends, plain⟩, ⟨(integer_inside arity).1, (integer_inside localCount).1,
    (integer_inside maxStack).1, by omega, size_small constCount, size_small handlerCount⟩, fits,
    long, fun h member => ?_⟩
  simp only [inFile, emitTables, List.map_map, List.map_inj_left] at handlers
  exact handler_clean (handlers h member)

theorem record_read (few : blk.mod.blocks.length < 9223372036854775808) (plain : Plain blk.mod.data)
    (sized : Sized blk.mod.data) :
    readRec (inFile out index blk) (inFile out index blk).record =
      some blk.mod.value := by
  obtain ⟨⟨arity, localCount, maxStack, captures, consts, handlers⟩, fits, _⟩ := sized
  have name : readString (inFile out index blk) (quoted blk.mod.data.name) =
      some blk.mod.data.name := by
    rw [readString, pointedTo, tokens_quoted]
    simp only [Option.bind_some, zero_terminated, clean_whole plain.1]
  have pool : readSize (decimal (pooled blk.mod.data.consts).length) =
      some ((pooled blk.mod.data.consts).length : Int) := by
    have := fits_length fits (by decide)
    exact size_read (by omega)
  have emitted := emitted_pool (blockName index ++ text "_consts") 0 blk.mod.data.consts []
  rw [List.nil_append] at emitted
  have record : (inFile out index blk).record =
      emitBlockRec blk.mod (children out blk.mod.blocks.length (index + 1))
        (pooled blk.mod.data.consts).length := by
    rw [← emitted]
    rfl
  rw [record]
  simp only [readRec, emitBlockRec, unsigned_text, name, unsigned_read arity,
    unsigned_read localCount, unsigned_read maxStack, captures_read captures, bool_read,
    size_read consts, size_read handlers, pool, children_length, size_read few,
    Option.bind_eq_bind, Option.bind_some]
  rfl

theorem slots_read :
    (inFile out index blk).captureSlots.map readInt =
      blk.mod.data.captures.map fun s => some s.toInt := by
  simp only [inFile, emitTables, List.map_map, List.map_inj_left]
  exact fun slot _ => int_read slot

/-- The pool, and then the constants that have their names in it. -/
theorem block_consts_read (at_ : out[index]? = some blk)
    (plain : Plain blk.mod.data) (sized : Sized blk.mod.data) :
    (inFile out index blk).consts.map (readConst (inFile out index blk)) =
      blk.mod.data.consts.map fun c => some c.value := by
  obtain ⟨_, fits, long, _⟩ := sized
  have found : ∀ a ∈ (emitTables out index blk).arrays,
      (inFile out index blk).arrays.lookup a.1 = some a.2 := fun a => array_found at_
  have clean : ∀ s ∈ pooled blk.mod.data.consts, 0 ∉ s := by
    intro s member
    obtain ⟨c, among, member⟩ := List.mem_flatMap.mp member
    rcases List.mem_append.mp member with names | fields
    · exact (plain.2 c among).2.2.1 s names
    · exact (plain.2 c among).2.2.2 s fields
  have pool : (inFile out index blk).strings.map (readString (inFile out index blk)) =
      (pooled blk.mod.data.consts).map some := by
    have strings := strings_read (t := inFile out index blk) (strings_word index) 0 clean
    have emitted := emitted_pool (blockName index ++ text "_consts") 0 blk.mod.data.consts []
    rw [List.nil_append] at emitted
    rw [← emitted] at strings ⊢
    exact strings fun a member => found a (List.mem_append_right _ member)
  exact consts_read (consts_word index) 0 pool fits
    (fun c member => ⟨(plain.2 c member).1, (plain.2 c member).2.1⟩) long
    fun a member => found a (List.mem_append_left _ member)

theorem handlers_read (sized : Sized blk.mod.data) :
    (inFile out index blk).handlers.map readHandler =
      blk.mod.data.handlers.map fun h => some h.value := by
  simp only [inFile, emitTables, List.map_map, List.map_inj_left]
  exact fun h member => handler_read (sized.2.2.2 h member)

end

end ProtoScala.Compiler.CppTables

import ProtoScala.Compiler.CppTablesConsts

/-!
# The blocks of a generated module
-/

namespace ProtoScala.Compiler.CppTables

open ProtoScala.Library.CppLiterals

set_option autoImplicit false

/-! ## Depth first -/

mutual

/-- The modules of a tree, a module before the ones in it. -/
def all : BytecodeModule → List BytecodeModule
  | .node data blocks => .node data blocks :: allOf blocks

def allOf : List BytecodeModule → List BytecodeModule
  | [] => []
  | m :: blocks => all m ++ allOf blocks

end

mutual

/-- A tree where its root is at `self`. -/
def flat : BytecodeModule → List Nat → Int → Nat → List FlatBlock
  | .node data blocks, place, parent, self =>
      ⟨.node data blocks, place, parent⟩ :: flats blocks place 0 self (self + 1)

/-- The trees of the blocks of `parent`, from block `b` on; the first is at `self`. -/
def flats : List BytecodeModule → List Nat → Nat → Nat → Nat → List FlatBlock
  | [], _, _, _, _ => []
  | m :: blocks, place, b, parent, self =>
      flat m (place ++ [b]) parent self ++
        flats blocks place (b + 1) parent (self + (all m).length)

end

mutual

theorem flat_mods : ∀ (m : BytecodeModule) (place : List Nat) (parent : Int) (self : Nat),
    (flat m place parent self).map FlatBlock.mod = all m
  | .node data blocks, place, parent, self => by
      rw [flat, all, List.map_cons, flats_mods blocks]

theorem flats_mods : ∀ (blocks : List BytecodeModule) (place : List Nat) (b parent self : Nat),
    (flats blocks place b parent self).map FlatBlock.mod = allOf blocks
  | [], _, _, _, _ => by
      rw [flats, allOf, List.map_nil]
  | m :: blocks, place, b, parent, self => by
      rw [flats, allOf, List.map_append, flat_mods m, flats_mods blocks]

end

theorem flat_length (m : BytecodeModule) (place : List Nat) (parent : Int) (self : Nat) :
    (flat m place parent self).length = (all m).length := by
  rw [← flat_mods m place parent self, List.length_map]

theorem flats_length (blocks : List BytecodeModule) (place : List Nat) (b parent self : Nat) :
    (flats blocks place b parent self).length = (allOf blocks).length := by
  rw [← flats_mods blocks place b parent self, List.length_map]

theorem all_cons (m : BytecodeModule) : all m = m :: allOf m.blocks := by
  cases m
  rw [all]
  rfl

theorem flat_cons (m : BytecodeModule) (place : List Nat) (parent : Int) (self : Nat) :
    flat m place parent self =
      ⟨m, place, parent⟩ :: flats m.blocks place 0 self (self + 1) := by
  cases m
  rw [flat]
  rfl

mutual

/-- What `flattenInto` adds. -/
theorem flatten_into : ∀ (m : BytecodeModule) (place : List Nat) (parent : Int)
    (out : List FlatBlock), out.length + (all m).length < 2147483648 →
      flattenInto m place parent out = out ++ flat m place parent out.length
  | .node data blocks, place, parent, out, small => by
      rw [all, List.length_cons] at small
      rw [flattenInto, flat, to_int (by omega),
        flatten_blocks blocks place 0 out.length _
          (by rw [List.length_append, List.length_singleton]; omega),
        List.append_assoc, List.singleton_append, List.length_append, List.length_singleton]

theorem flatten_blocks : ∀ (blocks : List BytecodeModule) (place : List Nat) (b self : Nat)
    (out : List FlatBlock), out.length + (allOf blocks).length < 2147483648 →
      flattenBlocks blocks place b self out = out ++ flats blocks place b self out.length
  | [], _, _, _, out, _ => by
      rw [flattenBlocks, flats, List.append_nil]
  | m :: blocks, place, b, self, out, small => by
      rw [allOf, List.length_append] at small
      rw [flattenBlocks, flats, flatten_into m _ _ out (by omega),
        flatten_blocks blocks place (b + 1) self _
          (by rw [List.length_append, flat_length]; omega),
        List.append_assoc, List.length_append, flat_length]

end

mutual

theorem into_mods : ∀ (m : BytecodeModule) (place : List Nat) (parent : Int)
    (out : List FlatBlock),
    (flattenInto m place parent out).map FlatBlock.mod = out.map FlatBlock.mod ++ all m
  | .node data blocks, place, parent, out => by
      rw [flattenInto, all, into_blocks blocks, List.map_append, List.append_assoc]
      rfl

theorem into_blocks : ∀ (blocks : List BytecodeModule) (place : List Nat) (b : Nat) (self : Int)
    (out : List FlatBlock),
    (flattenBlocks blocks place b self out).map FlatBlock.mod =
      out.map FlatBlock.mod ++ allOf blocks
  | [], _, _, _, _ => by
      rw [flattenBlocks, allOf, List.append_nil]
  | m :: blocks, place, b, self, out => by
      rw [flattenBlocks, allOf, into_blocks blocks, into_mods m, List.append_assoc]

end

/-! ## Where a subtree ends -/

mutual

theorem flat_parents : ∀ (m : BytecodeModule) (place : List Nat) (parent : Int) (self : Nat),
    parent ≤ self → ∀ f ∈ flat m place parent self, parent ≤ f.parent
  | .node data blocks, place, parent, self, before, f, member => by
      rw [flat] at member
      rcases List.mem_cons.mp member with rfl | member
      · exact Int.le_refl _
      · have below := flats_parents blocks place 0 self (self + 1) (by omega) f member
        omega

theorem flats_parents : ∀ (blocks : List BytecodeModule) (place : List Nat)
    (b parent self : Nat), parent ≤ self →
      ∀ f ∈ flats blocks place b parent self, (parent : Int) ≤ f.parent
  | [], _, _, _, _, _, f, member => by
      rw [flats] at member
      exact absurd member List.not_mem_nil
  | m :: blocks, place, b, parent, self, before, f, member => by
      rw [flats] at member
      rcases List.mem_append.mp member with here | later
      · exact flat_parents m _ parent self (by omega) f here
      · exact flats_parents blocks place (b + 1) parent _ (by omega) f later

end

/-- What follows a subtree belongs to a block before it. -/
def Ends (behind : List FlatBlock) (self : Nat) : Prop := ∀ f ∈ behind.head?, f.parent < self

theorem ends_flats {blocks : List BytecodeModule} {place : List Nat} {b parent self : Nat}
    {after : List FlatBlock} {child : Nat} (before : parent < child) (ends : Ends after child) :
    Ends (flats blocks place b parent self ++ after) child := by
  cases blocks with
  | nil =>
      rw [flats]
      exact ends
  | cons m blocks =>
      intro f head
      rw [flats, flat_cons, List.cons_append, List.cons_append, List.head?_cons,
        Option.mem_some_iff] at head
      subst head
      simpa using before

theorem Ends.later {after : List FlatBlock} {self self' : Nat} (ends : Ends after self)
    (more : self ≤ self') : Ends after self' := fun f head => by
  have := ends f head
  omega

/-- The scan passes the subtree of the child and nothing more. -/
theorem behind_child {before after : List FlatBlock} {m : BytecodeModule} {place : List Nat}
    {parent : Int} (ends : Ends after before.length) (small : before.length < 2147483648) :
    behind (before ++ flat m place parent before.length ++ after) before.length =
      before.length + (all m).length := by
  have dropped : (before ++ flat m place parent before.length ++ after).drop (before.length + 1) =
      flats m.blocks place 0 before.length (before.length + 1) ++ after := by
    rw [flat_cons, List.append_assoc, List.cons_append, ← List.drop_drop, List.drop_left]
    rfl
  have own : ∀ f ∈ flats m.blocks place 0 before.length (before.length + 1),
      decide (toInt before.length ≤ f.parent) = true := fun f member => by
    rw [to_int small, decide_eq_true_iff]
    exact flats_parents m.blocks place 0 before.length _ (by omega) f member
  have stops : after.takeWhile (fun f => decide (toInt before.length ≤ f.parent)) = [] := by
    cases after with
    | nil => rfl
    | cons f after =>
        have := ends f rfl
        rw [List.takeWhile_cons_of_neg]
        rw [to_int small, decide_eq_true_iff]
        omega
  rw [behind, dropped, List.takeWhile_append_of_pos own, stops, List.append_nil, flats_length,
    all_cons, List.length_cons]
  omega

/-- Both scans find the blocks of a module in its list. -/
theorem scans {blocks : List BytecodeModule} {place : List Nat} {parent : Nat}
    {before after : List FlatBlock} (b : Nat) (own : parent < before.length)
    (ends : Ends after before.length) (small : before.length + (allOf blocks).length < 2147483648) :
    let out := before ++ flats blocks place b parent before.length ++ after
    inPlace out place blocks.length b before.length = true ∧
      (children out blocks.length before.length).map
          (fun p => out[p]?.map fun f => (f.mod, f.place)) =
        (blocks.zipIdx b).map fun (m, b) => some (m, place ++ [b]) := by
  induction blocks generalizing before b with
  | nil => exact ⟨rfl, rfl⟩
  | cons m blocks induction =>
      intro out
      rw [allOf, List.length_append] at small
      have positive : 0 < (all m).length := by
        rw [all_cons, List.length_cons]
        omega
      have shape : out = before ++ flat m (place ++ [b]) parent before.length ++
          (flats blocks place (b + 1) parent (before.length + (all m).length) ++ after) := by
        simp only [out, flats, List.append_assoc]
      have here : out[before.length]? = some ⟨m, place ++ [b], parent⟩ := by
        rw [shape, flat_cons]
        simp
      have next : behind out before.length = before.length + (all m).length := by
        rw [shape]
        exact behind_child (ends_flats own ends) (by omega)
      have length : (before ++ flat m (place ++ [b]) parent before.length).length =
          before.length + (all m).length := by
        rw [List.length_append, flat_length]
      have rest := @induction (before ++ flat m (place ++ [b]) parent before.length)
        (b + 1) (by omega) (ends.later (by omega)) (by omega)
      have again : before ++ flat m (place ++ [b]) parent before.length ++
          flats blocks place (b + 1) parent
            (before ++ flat m (place ++ [b]) parent before.length).length ++ after = out := by
        rw [length, shape, List.append_assoc]
      rw [again, length] at rest
      obtain ⟨placed, found⟩ := rest
      constructor
      · rw [List.length_cons, inPlace, here, next, placed, Option.map_some]
        simp
      · rw [List.length_cons, children, next, List.map_cons, here, found, List.zipIdx_cons,
          List.map_cons]
        rfl

/-! ## Every block -/

/-- A block with its subtree, and what stands before and behind it. -/
def Located (out : List FlatBlock) (i : Nat) (f : FlatBlock) : Prop :=
  ∃ before after, out = before ++ flat f.mod f.place f.parent i ++ after ∧
    before.length = i ∧ Ends after i

mutual

theorem located : ∀ (m : BytecodeModule) (place : List Nat) (parent : Int)
    (before after : List FlatBlock), Ends after before.length →
      ∀ i f, (flat m place parent before.length)[i]? = some f →
        Located (before ++ flat m place parent before.length ++ after) (before.length + i) f
  | .node data blocks, place, parent, before, after, ends, i, f, at_ => by
      rw [flat] at at_ ⊢
      cases i with
      | zero =>
          rw [List.getElem?_cons_zero] at at_
          obtain rfl := Option.some.inj at_
          exact ⟨before, after, by simp only [flat, Nat.add_zero], rfl, ends⟩
      | succ i =>
          rw [List.getElem?_cons_succ] at at_
          have length : (before ++ [FlatBlock.mk (.node data blocks) place parent]).length =
              before.length + 1 := by simp
          have inside := located_blocks blocks place 0 before.length
            (before ++ [FlatBlock.mk (.node data blocks) place parent]) after (by omega)
            (ends.later (by omega)) i f (by rwa [length])
          rw [length] at inside
          simpa [Nat.add_assoc, Nat.add_comm 1 i] using inside

theorem located_blocks : ∀ (blocks : List BytecodeModule) (place : List Nat) (b parent : Nat)
    (before after : List FlatBlock), parent < before.length → Ends after before.length →
      ∀ i f, (flats blocks place b parent before.length)[i]? = some f →
        Located (before ++ flats blocks place b parent before.length ++ after)
          (before.length + i) f
  | [], _, _, _, _, _, _, _, _, _, at_ => by
      rw [flats] at at_
      cases at_
  | m :: blocks, place, b, parent, before, after, own, ends, i, f, at_ => by
      rw [flats] at at_ ⊢
      by_cases inside : i < (all m).length
      · rw [List.getElem?_append_left (by rwa [flat_length])] at at_
        have here := located m (place ++ [b]) parent before
          (flats blocks place (b + 1) parent (before.length + (all m).length) ++ after)
          (ends_flats own ends) i f at_
        simpa only [List.append_assoc] using here
      · rw [List.getElem?_append_right (by rw [flat_length]; omega), flat_length] at at_
        have length : (before ++ flat m (place ++ [b]) parent before.length).length =
            before.length + (all m).length := by
          rw [List.length_append, flat_length]
        have later := located_blocks blocks place (b + 1) parent
          (before ++ flat m (place ++ [b]) parent before.length) after (by omega)
          (ends.later (by omega)) (i - (all m).length) f (by rwa [length])
        have index : before.length + (all m).length + (i - (all m).length) = before.length + i := by
          omega
        rw [length, index] at later
        rw [← List.append_assoc]
        exact later

end

theorem root_located {root : BytecodeModule} (i : Nat) (f : FlatBlock)
    (at_ : (flat root [] (-1) 0)[i]? = some f) : Located (flat root [] (-1) 0) i f := by
  have here := located root [] (-1) [] [] (fun f head => by cases head) i f at_
  simpa using here

/-- The scans for the blocks of a block. -/
theorem located_scans {out : List FlatBlock} {i : Nat} {f : FlatBlock} (here : Located out i f)
    (small : out.length < 2147483648) :
    inPlace out f.place f.mod.blocks.length 0 (i + 1) = true ∧
      (children out f.mod.blocks.length (i + 1)).map
          (fun p => out[p]?.map fun g => (g.mod, g.place)) =
        f.mod.blocks.zipIdx.map fun (m, b) => some (m, f.place ++ [b]) := by
  obtain ⟨before, after, shape, rfl, ends⟩ := here
  have length : (before ++ [f]).length = before.length + 1 := by simp
  have shape' : out = before ++ [f] ++
      flats f.mod.blocks f.place 0 before.length
        (before ++ [f]).length ++ after := by
    rw [shape, flat_cons, length]
    simp
  have small' : (before ++ [f]).length + (allOf f.mod.blocks).length < 2147483648 := by
    rw [shape', List.length_append, List.length_append, flats_length] at small
    omega
  have found := @scans f.mod.blocks f.place before.length (before ++ [f]) after 0 (by omega)
    (ends.later (by omega)) small'
  rw [← shape', length] at found
  exact found

theorem blocks_length (blocks : List BytecodeModule) : blocks.length ≤ (allOf blocks).length := by
  induction blocks with
  | nil => exact Nat.zero_le _
  | cons m blocks induction =>
      rw [allOf, List.length_append, all_cons, List.length_cons, List.length_cons]
      omega

theorem located_few {out : List FlatBlock} {i : Nat} {f : FlatBlock} (here : Located out i f) :
    f.mod.blocks.length ≤ out.length := by
  obtain ⟨before, after, rfl, _⟩ := here
  have few := blocks_length f.mod.blocks
  rw [List.length_append, List.length_append, flat_length, all_cons, List.length_cons]
  omega

/-- No `logic_error` leaves `flatten`. -/
theorem flatten_ok {root : BytecodeModule} (small : (all root).length < 2147483648) :
    flatten root = .ok (flat root [] (-1) 0) := by
  have built : flattenInto root [] (-1) [] = flat root [] (-1) 0 := by
    rw [flatten_into root [] (-1) [] (by simpa using small)]
    rfl
  have length := flat_length root [] (-1) 0
  unfold flatten
  rw [built]
  refine if_pos (List.all_eq_true.mpr ?_)
  rintro ⟨f, i⟩ member
  exact (located_scans (root_located i f (List.mem_zipIdx_iff_getElem?.mp member))
    (by omega)).1

/-- Every module of the tree is a block of what is flattened, however many there are. -/
theorem flattened {root : BytecodeModule} {out : List FlatBlock} (ok : flatten root = .ok out) :
    out.map FlatBlock.mod = all root := by
  simp only [flatten] at ok
  split_ifs at ok
  obtain rfl := Except.ok.inj ok
  simpa using into_mods root [] (-1) []

/-- The tables of a tree denote it only where every module in it is plain and sized. -/
theorem right_clean {root : BytecodeModule} (right : Right root) :
    ∀ m ∈ all root, Plain m.data ∧ Sized m.data := by
  obtain ⟨out, ok, denotes⟩ := right
  intro m member
  rw [← flattened ok] at member
  obtain ⟨blk, among, rfl⟩ := List.mem_map.mp member
  obtain ⟨i, at_⟩ := List.getElem?_of_mem among
  have tables := denotes i blk at_
  exact data_clean tables.record tables.consts tables.handlers

theorem rec_text : text "_rec" = ['_', 'r', 'e', 'c'] := by simp [text]

theorem block_read (i : Nat) :
    readBlock ('&' :: (blockName i ++ text "_rec")) = some (blockName i ++ text "_rec") := by
  have word : Word (blockName i ++ text "_rec") := by
    rw [rec_text]
    exact (block_word i).append (word_chars rfl)
  simp only [readBlock, tokens_mark (c := '&') rfl rfl (by decide) word.2 word.1]

/-- The tables of a tree read back where no integer is the least one, no name, key or string of
the pool has a zero inside and the sizes fit, and nowhere else. -/
theorem tables_read_back (root : BytecodeModule) :
    (Right root → ∀ m ∈ all root, Plain m.data ∧ Sized m.data) ∧
      ((all root).length < 2147483648 → (∀ m ∈ all root, Plain m.data ∧ Sized m.data) →
        Right root) := by
  refine ⟨right_clean, fun small good => ⟨_, flatten_ok small, fun i blk at_ => ?_⟩⟩
  have length := flat_length root [] (-1) 0
  have mods := flat_mods root [] (-1) 0
  have among : blk.mod ∈ all root := by
    rw [← mods]
    exact List.mem_map_of_mem (List.mem_of_getElem? at_)
  obtain ⟨plain, sized⟩ := good blk.mod among
  have here := root_located i blk at_
  have few := located_few here
  have blocks := (located_scans here (by omega)).2
  refine ⟨record_read (by omega) plain sized, slots_read, block_consts_read at_ plain sized,
    handlers_read sized, _, ?_, blocks⟩
  simp only [inFile, emitTables, emitBlocks, List.map_map]
  exact List.map_congr_left fun p _ => block_read p

/-- A module with one constant. -/
def withConst (c : Const) : BytecodeModule :=
  .node ⟨[109], 0, 0, 0, false, false, false, [], [c], []⟩ []

def number (ival : Int64) : Const := ⟨0, ival, [], 0, 0, [], [], [], 0, false⟩

def keyed (key : Bytes) : Const := ⟨0, 0, [], 0, 0, [], [], key, 0, false⟩

/-- `-9223372036854775808LL` is no number, and a key is cut at its first zero. -/
theorem not_read_back :
    ¬Right (withConst (number (-9223372036854775808))) ∧
      ¬Right (withConst (keyed [97, 0, 98])) := by
  constructor
  · intro right
    have plain := (right_clean right _ (by rw [withConst, all]; exact List.mem_cons_self)).1
    exact (plain.2 _ List.mem_cons_self).1 rfl
  · intro right
    have plain := (right_clean right _ (by rw [withConst, all]; exact List.mem_cons_self)).1
    exact (plain.2 _ List.mem_cons_self).2.1 (by decide)

end ProtoScala.Compiler.CppTables

import Mathlib

/-!
# Interning items under keys

A pool appends an item the first time its key is requested and answers the old
index afterwards. It answers every request with the requested item exactly when
no two requests share a key and differ in the item; nothing else about the keys
matters.
-/

namespace ProtoScala.Library.Interning

set_option autoImplicit false

variable {κ α : Type}

/-- The items in the order they were added, and the index each key answers. -/
structure Pool (κ α : Type) where
  entries : List α
  index : κ → Option Nat

def Pool.empty : Pool κ α := ⟨[], fun _ => none⟩

/-- An item, and the key it is looked up under when it is shared at all. -/
structure Request (κ α : Type) where
  key : Option κ
  item : α

variable [DecidableEq κ]

def Pool.push (pool : Pool κ α) (item : α) : Nat × Pool κ α :=
  (pool.entries.length, ⟨pool.entries ++ [item], pool.index⟩)

def Pool.findOrAdd (pool : Pool κ α) (key : κ) (item : α) : Nat × Pool κ α :=
  match pool.index key with
  | some found => (found, pool)
  | none =>
      (pool.entries.length,
        ⟨pool.entries ++ [item], Function.update pool.index key (some pool.entries.length)⟩)

def Pool.answer (pool : Pool κ α) (request : Request κ α) : Nat × Pool κ α :=
  match request.key with
  | some key => pool.findOrAdd key request.item
  | none => pool.push request.item

def Pool.run (pool : Pool κ α) (requests : List (Request κ α)) : Pool κ α :=
  requests.foldl (fun pool request => (pool.answer request).2) pool

/-- No two requests share a key and differ in the item. -/
def Unambiguous (requests : List (Request κ α)) : Prop :=
  ∀ first ∈ requests, ∀ second ∈ requests, ∀ key,
    first.key = some key → second.key = some key → first.item = second.item

/-- Every key of the history answers the place of an item requested under it. -/
structure Recorded (history : List (Request κ α)) (pool : Pool κ α) : Prop where
  known : ∀ request ∈ history, ∀ key, request.key = some key → ∃ place, pool.index key = some place
  placed : ∀ key place, pool.index key = some place →
    ∃ request ∈ history, request.key = some key ∧ pool.entries[place]? = some request.item

omit [DecidableEq κ] in
theorem recorded_empty : Recorded ([] : List (Request κ α)) Pool.empty where
  known := by simp
  placed := by simp [Pool.empty]

theorem answer_known {pool : Pool κ α} {request : Request κ α} {key : κ} {place : Nat}
    (keyed : request.key = some key) (found : pool.index key = some place) :
    pool.answer request = (place, pool) := by
  simp [Pool.answer, keyed, Pool.findOrAdd, found]

/-- What one request can do. -/
theorem answer_cases (pool : Pool κ α) (request : Request κ α) :
    (∃ key place, request.key = some key ∧ pool.index key = some place ∧
      pool.answer request = (place, pool)) ∨
    ((∀ key, request.key = some key → pool.index key = none) ∧
      ∃ index, pool.answer request =
          (pool.entries.length, ⟨pool.entries ++ [request.item], index⟩) ∧
        (∀ key, request.key = some key → index key = some pool.entries.length) ∧
        ∀ key, request.key ≠ some key → index key = pool.index key) := by
  unfold Pool.answer Pool.findOrAdd Pool.push
  cases keyed : request.key with
  | none =>
      right
      exact ⟨by simp, pool.index, rfl, by simp, by simp⟩
  | some key =>
      cases found : pool.index key with
      | some place =>
          left
          exact ⟨key, place, rfl, found, by simp [found]⟩
      | none =>
          right
          refine ⟨?_, Function.update pool.index key (some pool.entries.length), by simp [found],
            ?_, ?_⟩
          · rintro other ⟨⟩
            exact found
          · rintro other ⟨⟩
            simp
          · intro other different
            have apart : other ≠ key := by
              intro same
              exact different (congrArg some same.symm)
            simp [Function.update_of_ne apart]

theorem recorded_answer {history : List (Request κ α)} {pool : Pool κ α}
    (recorded : Recorded history pool) (request : Request κ α) :
    Recorded (history ++ [request]) (pool.answer request).2 := by
  rcases answer_cases pool request with
    ⟨key, place, keyed, found, answered⟩ | ⟨missing, index, answered, fresh, kept⟩
  · rw [answered]
    refine ⟨?_, ?_⟩
    · intro asked member other askedKey
      rcases List.mem_append.mp member with earlier | last
      · exact recorded.known asked earlier other askedKey
      · rw [List.mem_singleton.mp last, keyed] at askedKey
        cases askedKey
        exact ⟨place, found⟩
    · intro other spot located
      obtain ⟨asked, member, facts⟩ := recorded.placed other spot located
      exact ⟨asked, List.mem_append_left _ member, facts⟩
  · rw [answered]
    refine ⟨?_, ?_⟩
    · intro asked member other askedKey
      by_cases same : request.key = some other
      · exact ⟨_, fresh other same⟩
      · rcases List.mem_append.mp member with earlier | last
        · obtain ⟨place, found⟩ := recorded.known asked earlier other askedKey
          exact ⟨place, (kept other same).trans found⟩
        · rw [List.mem_singleton.mp last] at askedKey
          exact absurd askedKey same
    · intro other spot located
      by_cases same : request.key = some other
      · have atEnd : pool.entries.length = spot :=
          Option.some.inj ((fresh other same).symm.trans located)
        refine ⟨request, by simp, same, ?_⟩
        simp [← atEnd]
      · obtain ⟨asked, member, askedKey, stored⟩ :=
          recorded.placed other spot ((kept other same).symm.trans located)
        refine ⟨asked, List.mem_append_left _ member, askedKey, ?_⟩
        have inside : spot < pool.entries.length := (List.getElem?_eq_some_iff.mp stored).1
        simpa [List.getElem?_append_left inside] using stored

@[simp] theorem run_cons (pool : Pool κ α) (request : Request κ α)
    (requests : List (Request κ α)) :
    pool.run (request :: requests) = (pool.answer request).2.run requests := rfl

theorem run_append (pool : Pool κ α) (first second : List (Request κ α)) :
    pool.run (first ++ second) = (pool.run first).run second := by
  simp [Pool.run]

theorem run_recorded {history : List (Request κ α)} {pool : Pool κ α}
    (recorded : Recorded history pool) (requests : List (Request κ α)) :
    Recorded (history ++ requests) (pool.run requests) := by
  induction requests generalizing history pool with
  | nil => simpa [Pool.run] using recorded
  | cons request requests induction =>
      have next := induction (recorded_answer recorded request)
      simpa [Pool.run] using next

theorem answer_entries_extend (pool : Pool κ α) (request : Request κ α) :
    pool.entries <+: (pool.answer request).2.entries := by
  rcases answer_cases pool request with
    ⟨key, place, -, -, answered⟩ | ⟨-, index, answered, -, -⟩
  · rw [answered]
  · rw [answered]
    exact List.prefix_append _ _

/-- Entries are only ever appended. -/
theorem run_entries_extend (pool : Pool κ α) (requests : List (Request κ α)) :
    pool.entries <+: (pool.run requests).entries := by
  induction requests generalizing pool with
  | nil => exact List.prefix_rfl
  | cons request requests induction =>
      exact (answer_entries_extend pool request).trans (induction _)

theorem get_of_extension {entries later : List α} (extended : entries <+: later) {place : Nat}
    {item : α} (stored : entries[place]? = some item) : later[place]? = some item := by
  obtain ⟨rest, rfl⟩ := extended
  have inside : place < entries.length := (List.getElem?_eq_some_iff.mp stored).1
  rw [List.getElem?_append_left inside, stored]

/-- The item at the answered place was requested, now or before, under the
request's own key. -/
theorem answer_stored {history : List (Request κ α)} {pool : Pool κ α}
    (recorded : Recorded history pool) (request : Request κ α) :
    ∃ asked ∈ history ++ [request],
      (pool.answer request).2.entries[(pool.answer request).1]? = some asked.item ∧
      (asked = request ∨ ∃ key, request.key = some key ∧ asked.key = some key) := by
  rcases answer_cases pool request with
    ⟨key, place, keyed, found, answered⟩ | ⟨-, index, answered, -, -⟩
  · obtain ⟨asked, member, askedKey, stored⟩ := recorded.placed key place found
    rw [answered]
    exact ⟨asked, List.mem_append_left _ member, stored, .inr ⟨key, keyed, askedKey⟩⟩
  · rw [answered]
    exact ⟨request, by simp, by simp, .inl rfl⟩

/-- A key that is known answers the same place from then on. -/
theorem run_index_kept {pool : Pool κ α} {key : κ} {place : Nat}
    (found : pool.index key = some place) (requests : List (Request κ α)) :
    (pool.run requests).index key = some place := by
  induction requests generalizing pool with
  | nil => exact found
  | cons request requests induction =>
      rw [run_cons]
      apply induction
      rcases answer_cases pool request with
        ⟨_, _, -, -, answered⟩ | ⟨missing, index, answered, -, kept⟩
      · rw [answered]
        exact found
      · rw [answered]
        have different : request.key ≠ some key := by
          intro same
          rw [missing key same] at found
          cases found
        exact (kept key different).trans found

/-- Two requests under one key answer one place. -/
theorem answer_same_key {pool : Pool κ α} {first second : Request κ α} {key : κ}
    (firstKey : first.key = some key) (secondKey : second.key = some key)
    (between : List (Request κ α)) :
    (((pool.answer first).2.run between).answer second).1 = (pool.answer first).1 := by
  have known : (pool.answer first).2.index key = some (pool.answer first).1 := by
    rcases answer_cases pool first with
      ⟨other, place, keyed, found, answered⟩ | ⟨-, index, answered, fresh, -⟩
    · rw [answered]
      rw [firstKey] at keyed
      cases keyed
      exact found
    · rw [answered]
      exact fresh key firstKey
  rw [answer_known secondKey (run_index_kept known between)]

/-- Every request of the run finds its own item at the place it was answered,
from that moment to the end of the run. -/
def Exact (requests : List (Request κ α)) : Prop :=
  ∀ before request after, requests = before ++ request :: after → ∀ later, later <+: after →
    (((Pool.empty.run before).answer request).2.run later).entries[
      ((Pool.empty.run before).answer request).1]? = some request.item

theorem exact_of_unambiguous {requests : List (Request κ α)}
    (unambiguous : Unambiguous requests) : Exact requests := by
  rintro before request after rfl later -
  have recorded : Recorded before (Pool.empty.run before) := by
    simpa using run_recorded (recorded_empty (κ := κ) (α := α)) before
  obtain ⟨asked, member, stored, related⟩ := answer_stored recorded request
  have same : asked.item = request.item := by
    rcases related with rfl | ⟨key, requestKey, askedKey⟩
    · rfl
    · have askedMember : asked ∈ before ++ request :: after := by
        rcases List.mem_append.mp member with earlier | last
        · exact List.mem_append_left _ earlier
        · rw [List.mem_singleton.mp last]
          simp
      exact unambiguous asked askedMember request (by simp) key askedKey requestKey
  rw [← same]
  exact get_of_extension (run_entries_extend _ later) stored

theorem unambiguous_of_exact {requests : List (Request κ α)} (exact : Exact requests) :
    Unambiguous requests := by
  -- Of two requests under one key, the later one is answered the earlier one's place.
  have ordered : ∀ (before : List (Request κ α)) (first : Request κ α)
      (between : List (Request κ α)) (second : Request κ α) (after : List (Request κ α)) (key : κ),
      requests = before ++ first :: (between ++ second :: after) →
      first.key = some key → second.key = some key → first.item = second.item := by
    intro before first between second after key split firstKey secondKey
    have firstExact := exact before first (between ++ second :: after) split
      (between ++ [second]) (by simp)
    have secondExact := exact (before ++ first :: between) second after (by simp [split]) []
      List.nil_prefix
    have reached : Pool.empty.run (before ++ first :: between) =
        ((Pool.empty.run before).answer first).2.run between := by
      rw [run_append]
      rfl
    rw [reached, answer_same_key firstKey secondKey] at secondExact
    rw [run_append] at firstExact
    exact Option.some.inj (firstExact.symm.trans secondExact)
  intro first firstMember second secondMember key firstKey secondKey
  obtain ⟨i, inside, rfl⟩ := List.mem_iff_getElem.mp firstMember
  obtain ⟨j, inside', rfl⟩ := List.mem_iff_getElem.mp secondMember
  have splits : ∀ i j (inside : i < requests.length) (inside' : j < requests.length), i < j →
      requests[i].key = some key → requests[j].key = some key →
      requests[i].item = requests[j].item := by
    intro i j inside inside' before firstKey secondKey
    apply ordered (requests.take i) _ ((requests.drop (i + 1)).take (j - (i + 1))) _
      (requests.drop (j + 1)) key _ firstKey secondKey
    have tail : requests.drop (i + 1) =
        (requests.drop (i + 1)).take (j - (i + 1)) ++ requests[j] :: requests.drop (j + 1) := by
      have rest : (requests.drop (i + 1)).drop (j - (i + 1)) =
          requests[j] :: requests.drop (j + 1) := by
        rw [List.drop_drop, Nat.add_sub_cancel' before, List.drop_eq_getElem_cons inside']
      rw [← rest, List.take_append_drop]
    rw [← tail, ← List.drop_eq_getElem_cons inside, List.take_append_drop]
  rcases Nat.lt_trichotomy i j with less | same | greater
  · exact splits i j inside inside' less firstKey secondKey
  · subst same
    rfl
  · exact (splits j i inside' inside greater secondKey firstKey).symm

theorem exact_iff_unambiguous (requests : List (Request κ α)) :
    Exact requests ↔ Unambiguous requests :=
  ⟨unambiguous_of_exact, exact_of_unambiguous⟩

end ProtoScala.Library.Interning

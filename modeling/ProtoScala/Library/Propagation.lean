import Mathlib.Data.List.Induction

/-!
# Labels propagated along edges

The nodes of a graph are given labels from a few seeds on. A node that gets its label is put on
a worklist; when it is taken off, its edges are followed. An edge to a node without a label
labels it, and one to a node with another label is an error.

The result does not depend on the order of the worklist: the labels are exactly those that a
path from a seed carries, and an error is met exactly when a path meets it.
-/

namespace ProtoScala.Library.Propagation

set_option autoImplicit false

/-- An edge names the node it goes to, or is an error itself; `clash` is the error when that node
already has another label. -/
structure Edge (L E : Type) where
  target : Except E Nat
  label : L
  clash : L → E

structure State (L : Type) where
  labels : List (Option L)
  work : List Nat

variable {L E : Type}

def State.label (s : State L) (node : Nat) : Option L := s.labels.getD node none

def State.mark (s : State L) (node : Nat) (label : L) : State L :=
  { labels := s.labels.set node (some label), work := node :: s.work }

/-- A seed for a node that has a label is passed over. -/
def plant (s : State L) (seed : Nat × L) : State L :=
  match s.labels[seed.1]? with
  | some none => s.mark seed.1 seed.2
  | _ => s

def unlabelled (size : Nat) : State L := { labels := List.replicate size none, work := [] }

def sown (size : Nat) (seeds : List (Nat × L)) : State L := seeds.foldl plant (unlabelled size)

/-- A node outside of the graph is left alone. -/
def reach [DecidableEq L] (s : State L) (edge : Edge L E) : Except E (State L) :=
  match edge.target with
  | .error e => .error e
  | .ok node =>
      match s.labels[node]? with
      | none => .ok s
      | some none => .ok (s.mark node edge.label)
      | some (some label) => if label = edge.label then .ok s else .error (edge.clash label)

def reachAll [DecidableEq L] : List (Edge L E) → State L → Except E (State L)
  | [], s => .ok s
  | edge :: edges, s =>
      match reach s edge with
      | .error e => .error e
      | .ok s => reachAll edges s

variable (flow : Nat → L → Except E (List (Edge L E)))

/-- The edges of a node that was taken off the worklist. -/
def expand [DecidableEq L] (s : State L) (node : Nat) : Except E (State L) :=
  match s.label node with
  | none => .ok s
  | some label =>
      match flow node label with
      | .error e => .error e
      | .ok edges => reachAll edges s

def propagate [DecidableEq L] : Nat → State L → Except E (List (Option L))
  | 0, s => .ok s.labels
  | rounds + 1, s =>
      match s.work with
      | [] => .ok s.labels
      | node :: work =>
          match expand flow { s with work := work } node with
          | .error e => .error e
          | .ok s => propagate rounds s

/-- A round takes a node off the worklist, and a node is put on it when it gets its label. -/
def State.rounds (s : State L) : Nat := s.work.length + s.labels.countP Option.isNone

/-- The labels of the graph, or the first error. -/
def labels [DecidableEq L] (size : Nat) (seeds : List (Nat × L)) : Except E (List (Option L)) :=
  propagate flow (sown size seeds).rounds (sown size seeds)

/-! ## Paths -/

/-- A path from a seed carries the label to the node. Of several seeds for a node the first
one counts. -/
inductive Carried (seeds : List (Nat × L)) : Nat → L → Prop where
  | seed {node : Nat} {label : L} (found : seeds.lookup node = some label) :
      Carried seeds node label
  | edge {node next : Nat} {label : L} {edges : List (Edge L E)} {edge : Edge L E}
      (before : Carried seeds node label) (flows : flow node label = .ok edges)
      (taken : edge ∈ edges) (target : edge.target = .ok next) : Carried seeds next edge.label

/-- What is wrong with a node that has the label. -/
inductive Fault (has : Nat → L → Prop) (node : Nat) (label : L) : E → Prop where
  | node {e : E} (fails : flow node label = .error e) : Fault has node label e
  | nowhere {e : E} {edges : List (Edge L E)} {edge : Edge L E}
      (flows : flow node label = .ok edges) (taken : edge ∈ edges)
      (target : edge.target = .error e) : Fault has node label e
  | clash {edges : List (Edge L E)} {edge : Edge L E} {next : Nat} {old : L}
      (flows : flow node label = .ok edges) (taken : edge ∈ edges)
      (target : edge.target = .ok next) (labelled : has next old)
      (differs : old ≠ edge.label) : Fault has node label (edge.clash old)

/-- Every edge stays in the graph. -/
def Inside (size : Nat) : Prop :=
  ∀ node label edges, flow node label = .ok edges →
    ∀ edge ∈ edges, ∀ next, edge.target = .ok next → next < size

/-! ## One edge -/

theorem label_mark {s : State L} {node : Nat} {label : L} (inside : node < s.labels.length)
    (other : Nat) : (s.mark node label).label other = if other = node then some label
      else s.label other := by
  simp only [State.label, State.mark, List.getD_eq_getElem?_getD, List.getElem?_set]
  by_cases same : node = other
  · subst same
    simp [inside]
  · simp [same, Ne.symm same]

theorem label_eq_some {s : State L} {node : Nat} {label : L} :
    s.label node = some label ↔ s.labels[node]? = some (some label) := by
  rw [State.label, List.getD_eq_getElem?_getD]
  cases s.labels[node]? <;> simp

theorem unlabelled_lt {s : State L} {node : Nat} (free : s.labels[node]? = some none) :
    node < s.labels.length := (List.getElem?_eq_some_iff.mp free).1

theorem unlabelled_label {s : State L} {node : Nat} (free : s.labels[node]? = some none) :
    s.label node = none := by
  rw [State.label, List.getD_eq_getElem?_getD, free]
  rfl

/-- The second state has the labels of the first, and perhaps more. -/
def State.Extends (s s' : State L) : Prop :=
  ∀ node label, s.label node = some label → s'.label node = some label

theorem mark_extends {s : State L} {node : Nat} (label : L) (free : s.labels[node]? = some none) :
    s.Extends (s.mark node label) := by
  intro other old has
  rw [label_mark (unlabelled_lt free), if_neg ?_]
  · exact has
  · rintro rfl
    rw [unlabelled_label free] at has
    cases has

/-- A node that is marked costs the round that it is given. -/
theorem mark_rounds {s : State L} {node : Nat} (label : L) (free : s.labels[node]? = some none) :
    (s.mark node label).rounds = s.rounds := by
  obtain ⟨inside, found⟩ := List.getElem?_eq_some_iff.mp free
  have positive : 0 < s.labels.countP Option.isNone :=
    List.countP_pos_iff.mpr ⟨_, List.getElem_mem inside, by rw [found]; rfl⟩
  simp only [State.rounds, State.mark, List.length_cons, List.countP_set, inside, found,
    Option.isNone_none, Option.isNone_some, if_true]
  simp only [Bool.false_eq_true, if_false]
  omega

theorem reach_ok [DecidableEq L] {s s' : State L} {edge : Edge L E} (ok : reach s edge = .ok s') :
    ∃ node, edge.target = .ok node ∧
      (s' = s ∧ (node < s.labels.length → s.label node = some edge.label) ∨
        s.labels[node]? = some none ∧ s' = s.mark node edge.label) := by
  unfold reach at ok
  cases target : edge.target with
  | error e => simp [target] at ok
  | ok node =>
      refine ⟨node, rfl, ?_⟩
      simp only [target] at ok
      cases at_ : s.labels[node]? with
      | none =>
          simp only [at_, Except.ok.injEq] at ok
          have outside := List.getElem?_eq_none_iff.mp at_
          exact .inl ⟨ok.symm, fun inside => absurd inside (by omega)⟩
      | some label =>
          cases label with
          | none =>
              simp only [at_, Except.ok.injEq] at ok
              exact .inr ⟨rfl, ok.symm⟩
          | some label =>
              simp only [at_] at ok
              split at ok
              · next same =>
                  subst same
                  exact .inl ⟨(Except.ok.inj ok).symm, fun _ => label_eq_some.mpr at_⟩
              · cases ok

theorem reach_error [DecidableEq L] {s : State L} {edge : Edge L E} {e : E}
    (failed : reach s edge = .error e) :
    edge.target = .error e ∨ ∃ node old, edge.target = .ok node ∧ s.label node = some old ∧
      old ≠ edge.label ∧ e = edge.clash old := by
  unfold reach at failed
  cases target : edge.target with
  | error e' =>
      simp only [target, Except.error.injEq] at failed
      exact .inl (by rw [failed])
  | ok node =>
      simp only [target] at failed
      cases at_ : s.labels[node]? with
      | none => simp [at_] at failed
      | some label =>
          cases label with
          | none => simp [at_] at failed
          | some old =>
              simp only [at_] at failed
              split at failed
              · cases failed
              · next differs =>
                  exact .inr ⟨node, old, rfl, label_eq_some.mpr at_, differs,
                    (Except.error.inj failed).symm⟩

/-! ## The invariant -/

/-- The edges of the node are followed already. -/
def Closed (s : State L) (node : Nat) (label : L) : Prop :=
  ∃ edges, flow node label = .ok edges ∧
    ∀ edge ∈ edges, ∃ next, edge.target = .ok next ∧ s.label next = some edge.label

/-- Every label is carried by a path, and the edges of a labelled node are followed unless the
node is on the worklist or is one of those in `busy`. -/
structure Invariant (size : Nat) (seeds : List (Nat × L)) (busy : Nat → Prop) (s : State L) :
    Prop where
  size : s.labels.length = size
  sound : ∀ node label, s.label node = some label → Carried flow seeds node label
  seeded : ∀ node label, seeds.lookup node = some label → s.label node = some label
  followed : ∀ node label, s.label node = some label →
    busy node ∨ node ∈ s.work ∨ Closed flow s node label

variable {flow} {size : Nat} {seeds : List (Nat × L)} {busy : Nat → Prop}

theorem Closed.extends {s s' : State L} {node : Nat} {label : L} (closed : Closed flow s node label)
    (extended : s.Extends s') : Closed flow s' node label := by
  obtain ⟨edges, flows, all⟩ := closed
  refine ⟨edges, flows, fun edge taken => ?_⟩
  obtain ⟨next, target, has⟩ := all edge taken
  exact ⟨next, target, extended _ _ has⟩

theorem mark_invariant {s : State L} {node : Nat} {label : L}
    (invariant : Invariant flow size seeds busy s) (free : s.labels[node]? = some none)
    (carried : Carried flow seeds node label) :
    Invariant flow size seeds busy (s.mark node label) := by
  have extended := mark_extends label free
  refine ⟨?_, ?_, ?_, ?_⟩
  · simpa [State.mark] using invariant.size
  · intro other old has
    rw [label_mark (unlabelled_lt free)] at has
    split at has
    · next same =>
        obtain rfl := Option.some.inj has
        exact same ▸ carried
    · exact invariant.sound other old has
  · intro other old found
    exact extended _ _ (invariant.seeded other old found)
  · intro other old has
    rw [label_mark (unlabelled_lt free)] at has
    split at has
    · next same => exact .inr (.inl (by simp [State.mark, same]))
    · obtain isBusy | waiting | closed := invariant.followed other old has
      · exact .inl isBusy
      · exact .inr (.inl (List.mem_cons_of_mem _ waiting))
      · exact .inr (.inr (closed.extends extended))

theorem reach_invariant [DecidableEq L] {s s' : State L} {edge : Edge L E}
    (invariant : Invariant flow size seeds busy s)
    (leads : ∀ next, edge.target = .ok next → next < size ∧ Carried flow seeds next edge.label)
    (ok : reach s edge = .ok s') :
    Invariant flow size seeds busy s' ∧ s.Extends s' ∧ s'.rounds = s.rounds ∧
      ∃ next, edge.target = .ok next ∧ s'.label next = some edge.label := by
  obtain ⟨next, target, ⟨rfl, has⟩ | ⟨free, rfl⟩⟩ := reach_ok ok
  · have inside := (leads next target).1
    rw [← invariant.size] at inside
    exact ⟨invariant, fun _ _ has => has, rfl, next, target, has inside⟩
  · refine ⟨mark_invariant invariant free (leads next target).2, mark_extends _ free,
      mark_rounds _ free, next, target, ?_⟩
    rw [label_mark (unlabelled_lt free), if_pos rfl]

theorem reach_all_invariant [DecidableEq L] {edges : List (Edge L E)} : ∀ {s s' : State L},
    Invariant flow size seeds busy s →
    (∀ edge ∈ edges, ∀ next, edge.target = .ok next →
      next < size ∧ Carried flow seeds next edge.label) →
    reachAll edges s = .ok s' →
    Invariant flow size seeds busy s' ∧ s.Extends s' ∧ s'.rounds = s.rounds ∧
      ∀ edge ∈ edges, ∃ next, edge.target = .ok next ∧ s'.label next = some edge.label := by
  induction edges with
  | nil =>
      intro s s' invariant _ ok
      obtain rfl := Except.ok.inj ok
      exact ⟨invariant, fun _ _ has => has, rfl, by simp⟩
  | cons edge edges followed =>
      intro s s' invariant leads ok
      rw [reachAll] at ok
      cases first : reach s edge with
      | error e => simp [first] at ok
      | ok middle =>
          simp only [first] at ok
          obtain ⟨kept, extended, rounds, next, target, has⟩ :=
            reach_invariant invariant (leads edge List.mem_cons_self) first
          obtain ⟨kept', extended', rounds', rest⟩ :=
            followed kept (fun edge' taken => leads edge' (List.mem_cons_of_mem _ taken)) ok
          refine ⟨kept', fun _ _ old => extended' _ _ (extended _ _ old), rounds'.trans rounds,
            fun edge' taken => ?_⟩
          rcases List.mem_cons.mp taken with rfl | later
          · exact ⟨next, target, extended' _ _ has⟩
          · exact rest edge' later

theorem reach_all_error [DecidableEq L] {edges : List (Edge L E)} {e : E} : ∀ {s : State L},
    Invariant flow size seeds busy s →
    (∀ edge ∈ edges, ∀ next, edge.target = .ok next →
      next < size ∧ Carried flow seeds next edge.label) →
    reachAll edges s = .error e →
    ∃ edge ∈ edges, edge.target = .error e ∨ ∃ next old, edge.target = .ok next ∧
      Carried flow seeds next old ∧ old ≠ edge.label ∧ e = edge.clash old := by
  induction edges with
  | nil =>
      intro s _ _ failed
      cases failed
  | cons edge edges followed =>
      intro s invariant leads failed
      rw [reachAll] at failed
      cases first : reach s edge with
      | error e' =>
          simp only [first, Except.error.injEq] at failed
          subst failed
          refine ⟨edge, List.mem_cons_self, ?_⟩
          obtain target | ⟨next, old, target, has, differs, rfl⟩ := reach_error first
          · exact .inl target
          · exact .inr ⟨next, old, target, invariant.sound _ _ has, differs, rfl⟩
      | ok middle =>
          simp only [first] at failed
          have kept := (reach_invariant invariant (leads edge List.mem_cons_self) first).1
          obtain ⟨edge', taken, fault⟩ :=
            followed kept (fun edge' taken => leads edge' (List.mem_cons_of_mem _ taken)) failed
          exact ⟨edge', List.mem_cons_of_mem _ taken, fault⟩

/-! ## The worklist -/

/-- The edges of a node with a carried label lead to nodes in the graph, which carry theirs. -/
theorem carried_edges (inside : Inside flow size) {node : Nat} {label : L}
    {edges : List (Edge L E)} (carried : Carried flow seeds node label)
    (flows : flow node label = .ok edges) :
    ∀ edge ∈ edges, ∀ next, edge.target = .ok next →
      next < size ∧ Carried flow seeds next edge.label :=
  fun edge taken next target =>
    ⟨inside node label edges flows edge taken next target, .edge carried flows taken target⟩

/-- The node taken off the worklist is busy until its edges are followed. -/
theorem taken_off {s : State L} {node : Nat} {work : List Nat}
    (invariant : Invariant flow size seeds (fun _ => False) s) (top : s.work = node :: work) :
    Invariant flow size seeds (· = node) { s with work := work } := by
  refine ⟨invariant.size, invariant.sound, invariant.seeded, fun other label has => ?_⟩
  obtain isBusy | waiting | closed := invariant.followed other label has
  · exact isBusy.elim
  · rw [top] at waiting
    rcases List.mem_cons.mp waiting with same | later
    · exact .inl same
    · exact .inr (.inl later)
  · exact .inr (.inr closed)

theorem expand_ok [DecidableEq L] (inside : Inside flow size) {s s' : State L} {node : Nat}
    (invariant : Invariant flow size seeds (· = node) s) (ok : expand flow s node = .ok s') :
    Invariant flow size seeds (fun _ => False) s' ∧ s'.rounds = s.rounds := by
  unfold expand at ok
  cases label : s.label node with
  | none =>
      simp only [label, Except.ok.injEq] at ok
      subst ok
      refine ⟨⟨invariant.size, invariant.sound, invariant.seeded, fun other old has => ?_⟩, rfl⟩
      obtain rfl | rest := invariant.followed other old has
      · rw [label] at has
        cases has
      · exact .inr rest
  | some label' =>
      simp only [label] at ok
      cases flows : flow node label' with
      | error e => simp [flows] at ok
      | ok edges =>
          simp only [flows] at ok
          have carried := invariant.sound node label' label
          obtain ⟨kept, extended, rounds, all⟩ :=
            reach_all_invariant invariant (carried_edges inside carried flows) ok
          refine ⟨⟨kept.size, kept.sound, kept.seeded, fun other old has => ?_⟩, rounds⟩
          obtain rfl | rest := kept.followed other old has
          · rw [extended _ _ label] at has
            obtain rfl := Option.some.inj has
            exact .inr (.inr ⟨edges, flows, all⟩)
          · exact .inr rest

theorem expand_error [DecidableEq L] (inside : Inside flow size) {s : State L} {node : Nat} {e : E}
    (invariant : Invariant flow size seeds (· = node) s)
    (failed : expand flow s node = .error e) :
    ∃ label, Carried flow seeds node label ∧
      Fault flow (Carried flow seeds) node label e := by
  unfold expand at failed
  cases label : s.label node with
  | none => simp [label] at failed
  | some label' =>
      have carried := invariant.sound node label' label
      refine ⟨label', carried, ?_⟩
      simp only [label] at failed
      cases flows : flow node label' with
      | error e' =>
          simp only [flows, Except.error.injEq] at failed
          exact .node (by rw [flows, failed])
      | ok edges =>
          simp only [flows] at failed
          obtain ⟨edge, taken, target | ⟨next, old, target, has, differs, rfl⟩⟩ :=
            reach_all_error invariant (carried_edges inside carried flows) failed
          · exact .nowhere flows taken target
          · exact .clash flows taken target has differs

theorem propagate_ok [DecidableEq L] (inside : Inside flow size) {found : List (Option L)}
    (rounds : Nat) :
    ∀ {s : State L}, Invariant flow size seeds (fun _ => False) s → s.rounds ≤ rounds →
      propagate flow rounds s = .ok found →
      ∃ s', Invariant flow size seeds (fun _ => False) s' ∧ s'.work = [] ∧ s'.labels = found := by
  induction rounds with
  | zero =>
      intro s invariant enough ok
      refine ⟨s, invariant, List.length_eq_zero_iff.mp ?_, Except.ok.inj ok⟩
      unfold State.rounds at enough
      omega
  | succ rounds run =>
      intro s invariant enough ok
      rw [propagate] at ok
      cases top : s.work with
      | nil =>
          simp only [top, Except.ok.injEq] at ok
          exact ⟨s, invariant, top, ok⟩
      | cons node work =>
          simp only [top] at ok
          cases expanded : expand flow { s with work := work } node with
          | error e => simp [expanded] at ok
          | ok next =>
              simp only [expanded] at ok
              obtain ⟨kept, same⟩ := expand_ok inside (taken_off invariant top) expanded
              refine run kept ?_ ok
              simp only [State.rounds, top, List.length_cons] at enough same ⊢
              omega

theorem propagate_error [DecidableEq L] (inside : Inside flow size) {e : E} (rounds : Nat) :
    ∀ {s : State L}, Invariant flow size seeds (fun _ => False) s →
      propagate flow rounds s = .error e →
      ∃ node label, Carried flow seeds node label ∧
        Fault flow (Carried flow seeds) node label e := by
  induction rounds with
  | zero =>
      intro s _ failed
      cases failed
  | succ rounds run =>
      intro s invariant failed
      rw [propagate] at failed
      cases top : s.work with
      | nil => simp [top] at failed
      | cons node work =>
          simp only [top] at failed
          have busyNode := taken_off invariant top
          cases expanded : expand flow { s with work := work } node with
          | error e' =>
              simp only [expanded, Except.error.injEq] at failed
              subst failed
              exact ⟨node, expand_error inside busyNode expanded⟩
          | ok next =>
              simp only [expanded] at failed
              exact run (expand_ok inside busyNode expanded).1 failed

/-! ## The seeds -/

/-- The labels are those of the seeds so far, the first of each node. -/
structure Planted (size : Nat) (seeds : List (Nat × L)) (s : State L) : Prop where
  size : s.labels.length = size
  exactly : ∀ node label, s.label node = some label ↔ seeds.lookup node = some label
  waiting : ∀ node label, s.label node = some label → node ∈ s.work

theorem lookup_append (seeds : List (Nat × L)) (seed : Nat × L) (node : Nat) :
    (seeds ++ [seed]).lookup node =
      (seeds.lookup node).or (if node = seed.1 then some seed.2 else none) := by
  obtain ⟨last, label⟩ := seed
  induction seeds with
  | nil => by_cases same : node = last <;> simp [List.lookup_cons, same, beq_false_of_ne]
  | cons first seeds found =>
      obtain ⟨key, _⟩ := first
      by_cases same : node = key <;> simp [List.lookup_cons, same, found, beq_false_of_ne]

theorem plant_planted {s : State L} {seed : Nat × L} (planted : Planted size seeds s)
    (inside : seed.1 < size) : Planted size (seeds ++ [seed]) (plant s seed) := by
  have known : seed.1 < s.labels.length := planted.size ▸ inside
  unfold plant
  cases at_ : s.labels[seed.1]? with
  | none => exact absurd (List.getElem?_eq_none_iff.mp at_) (by omega)
  | some label =>
      cases label with
      | none =>
          have unknown : seeds.lookup seed.1 = none := by
            cases found : seeds.lookup seed.1 with
            | none => rfl
            | some label =>
                rw [← planted.exactly, unlabelled_label at_] at found
                cases found
          refine ⟨by simpa [State.mark] using planted.size, fun node label => ?_,
            fun node label has => ?_⟩
          · rw [label_mark known, lookup_append]
            by_cases same : node = seed.1
            · simp [same, unknown]
            · simp [same, planted.exactly]
          · rw [label_mark known] at has
            split at has
            · next same => simp [State.mark, same]
            · exact List.mem_cons_of_mem _ (planted.waiting node label has)
      | some label =>
          have found := (planted.exactly _ _).mp (label_eq_some.mpr at_)
          refine ⟨planted.size, fun node other => ?_, planted.waiting⟩
          rw [lookup_append, planted.exactly]
          by_cases same : node = seed.1
          · simp [same, found]
          · simp [same]

theorem sown_planted (size : Nat) (seeds : List (Nat × L))
    (inside : ∀ seed ∈ seeds, seed.1 < size) :
    Planted size seeds (sown size seeds) := by
  unfold sown
  induction seeds using List.reverseRecOn with
  | nil =>
      refine ⟨by simp [unlabelled], fun node label => ?_, fun node label has => ?_⟩
      · simp [State.label, unlabelled, List.getD_eq_getElem?_getD, List.getElem?_replicate,
          List.lookup_nil]
        split <;> simp
      · simp [State.label, unlabelled, List.getD_eq_getElem?_getD, List.getElem?_replicate] at has
        split at has <;> simp at has
  | append_singleton seeds seed planted =>
      rw [List.foldl_append]
      exact plant_planted (planted fun other mem => inside other (by simp [mem]))
        (inside seed (by simp))

theorem sown_invariant (inside : ∀ seed ∈ seeds, seed.1 < size) :
    Invariant flow size seeds (fun _ => False) (sown size seeds) := by
  have planted := sown_planted size seeds inside
  exact ⟨planted.size, fun node label has => .seed ((planted.exactly node label).mp has),
    fun node label found => (planted.exactly node label).mpr found,
    fun node label has => .inr (.inl (planted.waiting node label has))⟩

/-! ## The result -/

/-- What is carried to a node is its label when no edge is left to follow. -/
theorem label_of_carried {s : State L} (invariant : Invariant flow size seeds (fun _ => False) s)
    (idle : s.work = []) {node : Nat} {label : L} (carried : Carried flow seeds node label) :
    s.label node = some label := by
  induction carried with
  | seed found => exact invariant.seeded _ _ found
  | edge _ flows taken target has =>
      obtain isBusy | waiting | ⟨edges, flows', all⟩ := invariant.followed _ _ has
      · exact isBusy.elim
      · rw [idle] at waiting
        cases waiting
      · obtain rfl := Except.ok.inj (flows.symm.trans flows')
        obtain ⟨next, target', has'⟩ := all _ taken
        obtain rfl := Except.ok.inj (target.symm.trans target')
        exact has'

/-- The labels found are those that are carried, and no carried label has a fault. -/
theorem labels_ok [DecidableEq L] (inside : Inside flow size)
    (seeded : ∀ seed ∈ seeds, seed.1 < size)
    {found : List (Option L)} (ok : labels flow size seeds = .ok found) :
    found.length = size ∧
      (∀ node label, found.getD node none = some label ↔ Carried flow seeds node label) ∧
      ∀ node label, Carried flow seeds node label →
        ∀ e, ¬Fault flow (Carried flow seeds) node label e := by
  obtain ⟨s, invariant, idle, rfl⟩ :=
    propagate_ok inside _ (sown_invariant seeded) (Nat.le_refl _) ok
  have exactly : ∀ node label, s.label node = some label ↔ Carried flow seeds node label :=
    fun node label => ⟨invariant.sound node label, label_of_carried invariant idle⟩
  refine ⟨invariant.size, exactly, fun node label carried e fault => ?_⟩
  obtain isBusy | waiting | ⟨edges, flows, all⟩ :=
    invariant.followed node label ((exactly node label).mpr carried)
  · exact isBusy.elim
  · rw [idle] at waiting
    cases waiting
  · cases fault with
    | node fails => exact nomatch flows.symm.trans fails
    | nowhere flows' taken target =>
        obtain rfl := Except.ok.inj (flows.symm.trans flows')
        obtain ⟨next, target', _⟩ := all _ taken
        exact nomatch target'.symm.trans target
    | clash flows' taken target has differs =>
        obtain rfl := Except.ok.inj (flows.symm.trans flows')
        obtain ⟨next, target', has'⟩ := all _ taken
        obtain rfl := Except.ok.inj (target.symm.trans target')
        rw [(exactly _ _).mpr has] at has'
        exact differs (Option.some.inj has')

/-- An error is the fault of a label that is carried. -/
theorem labels_error [DecidableEq L] (inside : Inside flow size)
    (seeded : ∀ seed ∈ seeds, seed.1 < size) {e : E}
    (failed : labels flow size seeds = .error e) :
    ∃ node label, Carried flow seeds node label ∧ Fault flow (Carried flow seeds) node label e :=
  propagate_error inside _ (sown_invariant seeded) failed

end ProtoScala.Library.Propagation

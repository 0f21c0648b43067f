import Mathlib.Order.Bounds.Basic
import StreamPlan.Proofs.Plan.LeastFree
import StreamPlan.Proofs.Plan.PlannedCalls

/-!
# Generated names follow the order of registration

A node that the user has not named gets the least number of its family that is free
when its turn comes.  Which names are taken by then is decided by the walk, which comes
to nodes of all families and to named ones in between.  This file says what the numbers
look like along the order in which the stages are registered.

All of it follows from one fact about each node: its name is the one that comes next
after the names registered before it.  So the order of the nodes and the names is put
into an inductive predicate, `NamedInTurn`, which grows by one node at the end as a
session does, and the rest is about such lists and no longer about sessions.

## Main definitions

* `Node.NextName` — the name of a node, after the names registered before.
* `Pipeline.NamedInTurn` — nodes that were named one after another.
* `Pipeline.NumberedAt`, `Pipeline.NumbersInTurn` — the numbers of a family, and what
  they look like along an order of nodes.

## Main results

* `StageNames.numbered_label_inj` — a generated name shows its family and its number.
* `Pipeline.NamedInTurn.numbersInTurn` — **numbers grow, skip only what users have taken,
  and are consecutive where users have taken none.**
* `buildPlan_numbers_in_turn` — **this is so in every build that succeeds, over every
  sink.**
-/

namespace StreamPlan

/-! ### Names that show their numbers -/

namespace StageNames

/-- The word for a family is what stands before the first digit. -/
theorem takeWhile_numbered_label (f : Family) (m : Nat) :
    (numbered f.label m).toList.takeWhile (fun c => !c.isDigit) = f.label.toList := by
  have hall : f.label.toList.all (fun c => !c.isDigit) = true := by cases f <;> decide
  have hword : ∀ c ∈ f.label.toList, (!c.isDigit) = true := List.all_eq_true.mp hall
  obtain ⟨c, cs, hdigits⟩ := List.exists_cons_of_ne_nil (Nat.toDigits_ne_nil (n := m) (b := 10))
  have hdigit : c.isDigit = true :=
    Nat.isDigit_of_mem_toDigits (by decide) (by decide) (hdigits ▸ List.mem_cons_self)
  have htext : (toString m).toList = c :: cs := by
    rw [Nat.toString_eq_ofList_toDigits, String.toList_ofList, hdigits]
  rw [numbered, String.toList_append, List.takeWhile_append_of_pos hword, htext]
  simp [hdigit]

/-- **A generated name shows its family and its number.** -/
theorem numbered_label_inj {f f' : Family} {m m' : Nat} :
    numbered f.label m = numbered f'.label m' ↔ f = f' ∧ m = m' := by
  constructor
  · intro h
    have hword : f.label.toList = f'.label.toList := by
      rw [← takeWhile_numbered_label f m, ← takeWhile_numbered_label f' m', h]
    obtain rfl : f = f' := Family.label_inj.mp (String.toList_inj.mp hword)
    exact ⟨rfl, numbered_inj.mp h⟩
  · rintro ⟨rfl, rfl⟩
    rfl

end StageNames

/-! ### Nodes named one after another -/

/-- The name of a node after the names `before`: the user's, or else the one of its family
with the least number that is not among them. -/
def Node.NextName (n : Node) (before : List String) (name : String) : Prop :=
  match n.userName with
  | some given => name = given
  | none => ∃ m, name = StageNames.numbered n.family.label m ∧
      IsLeast {k | 1 ≤ k ∧ StageNames.numbered n.family.label k ∉ before} m

theorem Node.NextName.of_described {m n : Node} {before : List String} {name : String}
    (h : n.NextName before name) (hmn : m.described = n.described) : m.NextName before name := by
  unfold Node.NextName
  rw [Node.userName_eq_of_described hmn, Node.family_eq_of_described hmn]
  exact h

namespace Pipeline

/-- The nodes `nodes` got the names `names`, one after another. -/
inductive NamedInTurn (g : Pipeline) : List NodeId → List String → Prop
  | nil : NamedInTurn g [] []
  | snoc {nodes : List NodeId} {names : List String} {i : NodeId} {n : Node} {name : String}
    (before : NamedInTurn g nodes names) (hnode : g.nodes[i]? = some n)
    (hname : n.NextName names name) : NamedInTurn g (nodes ++ [i]) (names ++ [name])

/-- The node is of a family, and the user has not named it. -/
def isUnnamed (g : Pipeline) (family : Family) (i : NodeId) : Bool :=
  g.nodes[i]?.any fun n => n.userName.isNone && decide (n.family = family)

theorem isUnnamed_iff {g : Pipeline} {family : Family} {i : NodeId} :
    g.isUnnamed family i = true ↔
      ∃ n, g.nodes[i]? = some n ∧ n.userName = none ∧ n.family = family := by
  unfold isUnnamed
  cases g.nodes[i]? with
  | none => simp
  | some n => simp

/-- The node at place `k` is of a family and has no name of the user, and its stage has the
number `m`. -/
def NumberedAt (g : Pipeline) (family : Family) (nodes : List NodeId) (names : List String)
    (k m : Nat) : Prop :=
  ∃ i, nodes[k]? = some i ∧ g.isUnnamed family i = true ∧
    names[k]? = some (StageNames.numbered family.label m)

/-- What the numbers of a family look like, when `nodes` are registered in this order and
their stages are called `names`. -/
structure NumbersInTurn (g : Pipeline) (family : Family) (nodes : List NodeId)
    (names : List String) : Prop where
  /-- A node gets the least number whose name is not registered yet. -/
  least : ∀ (k : Nat) (i : NodeId), nodes[k]? = some i → g.isUnnamed family i = true →
    ∃ m, g.NumberedAt family nodes names k m ∧
      IsLeast {l | 1 ≤ l ∧ StageNames.numbered family.label l ∉ names.take k} m
  increasing : ∀ j k a b : Nat, j < k → g.NumberedAt family nodes names j a →
    g.NumberedAt family nodes names k b → a < b
  /-- A number that no node was given is in the name that a user gave to an earlier one. -/
  skipped : ∀ k a b : Nat, g.NumberedAt family nodes names k b → 1 ≤ a → a < b →
    (∀ j, ¬ g.NumberedAt family nodes names j a) →
      ∃ (j : Nat) (i : NodeId) (n : Node), j < k ∧ nodes[j]? = some i ∧ g.nodes[i]? = some n ∧
        n.userName = some (StageNames.numbered family.label a) ∧
        names[j]? = some (StageNames.numbered family.label a)
  /-- Where no user has given such a name, the numbers count the nodes of the family. -/
  consecutive : (∀ i ∈ nodes, ∀ (n : Node) (m : Nat), g.nodes[i]? = some n → 1 ≤ m →
      n.userName ≠ some (StageNames.numbered family.label m)) →
    ∀ (k : Nat) (i : NodeId), nodes[k]? = some i → g.isUnnamed family i = true →
      g.NumberedAt family nodes names k ((nodes.take k).countP (g.isUnnamed family) + 1)

section NamedInTurn

variable {g : Pipeline} {nodes : List NodeId} {names : List String}

theorem NamedInTurn.length_eq (h : g.NamedInTurn nodes names) : names.length = nodes.length := by
  induction h with
  | nil => rfl
  | snoc _ _ _ ih => simp [ih]

/-- The first nodes were named one after another as well. -/
theorem NamedInTurn.take (h : g.NamedInTurn nodes names) (k : Nat) :
    g.NamedInTurn (nodes.take k) (names.take k) := by
  induction h with
  | nil =>
    simp only [List.take_nil]
    exact .nil
  | @snoc nodes names i n name before hnode hname ih =>
    have hlength := before.length_eq
    by_cases hk : k ≤ nodes.length
    · rw [List.take_append_of_le_length hk, List.take_append_of_le_length (by omega)]
      exact ih
    · rw [List.take_of_length_le (by simp; omega), List.take_of_length_le (by simp; omega)]
      exact .snoc before hnode hname

/-- The node at a place has the name that comes next after those before it. -/
theorem NamedInTurn.exists_nextName (h : g.NamedInTurn nodes names) {k : Nat} {i : NodeId}
    (hk : nodes[k]? = some i) :
    ∃ n name, g.nodes[i]? = some n ∧ names[k]? = some name ∧ n.NextName (names.take k) name := by
  induction h with
  | nil => simp at hk
  | @snoc nodes names i' n name before hnode hname ih =>
    have hlength := before.length_eq
    by_cases hlt : k < nodes.length
    · rw [List.getElem?_append_left hlt] at hk
      obtain ⟨n', name', hnode', hname', hnext⟩ := ih hk
      refine ⟨n', name', hnode', ?_, ?_⟩
      · rw [List.getElem?_append_left (by omega)]
        exact hname'
      · rw [List.take_append_of_le_length (by omega)]
        exact hnext
    · -- the last node
      have hlast : k = nodes.length := by
        have := (List.getElem?_eq_some_iff.mp hk).1
        simp at this
        omega
      subst hlast
      obtain rfl : i' = i := by simpa using hk
      refine ⟨n, name, hnode, ?_, ?_⟩
      · simp [← hlength]
      · rw [← hlength, List.take_left]
        exact hname

/-- A name that is registered before place `k` is registered at a place before it. -/
theorem exists_place_of_mem_take {name : String} {k : Nat} (h : name ∈ names.take k) :
    ∃ j, j < k ∧ names[j]? = some name := by
  obtain ⟨j, hj⟩ := List.mem_iff_getElem?.mp h
  rw [List.getElem?_take] at hj
  split at hj
  · exact ⟨j, by assumption, hj⟩
  · cases hj

theorem mem_take_of_place {name : String} {j k : Nat} (hjk : j < k)
    (hj : names[j]? = some name) : name ∈ names.take k := by
  refine List.mem_of_getElem? (i := j) ?_
  rw [List.getElem?_take, if_pos hjk, hj]

section Family

variable {family : Family}

theorem NamedInTurn.least (h : g.NamedInTurn nodes names) {k : Nat} {i : NodeId}
    (hk : nodes[k]? = some i) (hi : g.isUnnamed family i = true) :
    ∃ m, g.NumberedAt family nodes names k m ∧
      IsLeast {l | 1 ≤ l ∧ StageNames.numbered family.label l ∉ names.take k} m := by
  obtain ⟨n, name, hnode, hname, hnext⟩ := h.exists_nextName hk
  obtain ⟨n', hnode', hunnamed, rfl⟩ := isUnnamed_iff.mp hi
  rw [hnode] at hnode'
  cases hnode'
  unfold Node.NextName at hnext
  rw [hunnamed] at hnext
  obtain ⟨m, rfl, hleast⟩ := hnext
  exact ⟨m, ⟨i, hk, hi, hname⟩, hleast⟩

theorem NamedInTurn.isLeast (h : g.NamedInTurn nodes names) {k m : Nat}
    (hm : g.NumberedAt family nodes names k m) :
    IsLeast {l | 1 ≤ l ∧ StageNames.numbered family.label l ∉ names.take k} m := by
  obtain ⟨i, hk, hi, hname⟩ := hm
  obtain ⟨m', ⟨_, _, _, hname'⟩, hleast⟩ := h.least hk hi
  rw [hname, Option.some.injEq, StageNames.numbered_inj] at hname'
  rw [hname']
  exact hleast

/-- The number of a later node is none of those that were free before, and all below
those were taken. -/
theorem NamedInTurn.increasing (h : g.NamedInTurn nodes names) {j k a b : Nat} (hjk : j < k)
    (ha : g.NumberedAt family nodes names j a) (hb : g.NumberedAt family nodes names k b) :
    a < b := by
  obtain ⟨-, hleast⟩ := h.isLeast ha
  obtain ⟨⟨hone, hfree⟩, -⟩ := h.isLeast hb
  obtain ⟨_, _, _, hname⟩ := ha
  by_contra hle
  apply hfree
  by_cases heq : b = a
  · rw [heq]
    exact mem_take_of_place hjk hname
  · -- a smaller number than `a` was taken before `a` was found
    by_contra hnot
    have hbefore : StageNames.numbered family.label b ∉ names.take j := by
      intro hmem
      obtain ⟨l, hl, hnamel⟩ := exists_place_of_mem_take hmem
      exact hnot (mem_take_of_place (by omega) hnamel)
    have hab : a ≤ b := hleast ⟨hone, hbefore⟩
    omega

/-- A numbered name is that of a node with the number, or a user gave it. -/
theorem NamedInTurn.numberedAt_or_given (h : g.NamedInTurn nodes names) {j m : Nat}
    (hname : names[j]? = some (StageNames.numbered family.label m)) :
    ∃ (i : NodeId) (n : Node), nodes[j]? = some i ∧ g.nodes[i]? = some n ∧
      (g.NumberedAt family nodes names j m ∨
        n.userName = some (StageNames.numbered family.label m)) := by
  have hj : j < nodes.length := by
    rw [← h.length_eq]
    exact (List.getElem?_eq_some_iff.mp hname).1
  have hplace : nodes[j]? = some nodes[j] := List.getElem?_eq_getElem hj
  obtain ⟨n, name, hnode, hname', hnext⟩ := h.exists_nextName hplace
  rw [hname, Option.some.injEq] at hname'
  refine ⟨_, n, hplace, hnode, ?_⟩
  unfold Node.NextName at hnext
  cases huser : n.userName with
  | some given =>
    rw [huser] at hnext
    right
    rw [hname', hnext]
  | none =>
    rw [huser] at hnext
    obtain ⟨l, rfl, -⟩ := hnext
    obtain ⟨hfamily, rfl⟩ := StageNames.numbered_label_inj.mp hname'
    left
    exact ⟨_, hplace, isUnnamed_iff.mpr ⟨n, hnode, huser, hfamily.symm⟩, hname⟩

theorem NamedInTurn.skipped (h : g.NamedInTurn nodes names) {k a b : Nat}
    (hb : g.NumberedAt family nodes names k b) (hone : 1 ≤ a) (hab : a < b)
    (hnot : ∀ j, ¬ g.NumberedAt family nodes names j a) :
    ∃ (j : Nat) (i : NodeId) (n : Node), j < k ∧ nodes[j]? = some i ∧ g.nodes[i]? = some n ∧
      n.userName = some (StageNames.numbered family.label a) ∧
      names[j]? = some (StageNames.numbered family.label a) := by
  obtain ⟨-, hleast⟩ := h.isLeast hb
  have htaken : StageNames.numbered family.label a ∈ names.take k := by
    by_contra hfree
    have hba : b ≤ a := hleast ⟨hone, hfree⟩
    omega
  obtain ⟨j, hjk, hname⟩ := exists_place_of_mem_take htaken
  obtain ⟨i, n, hplace, hnode, hnumbered | hgiven⟩ := h.numberedAt_or_given hname
  · exact absurd hnumbered (hnot j)
  · exact ⟨j, i, n, hjk, hplace, hnode, hgiven, hname⟩

/-- Where no user has given such a name, the numbers up to the number of nodes of the family
are taken, and no others. -/
theorem NamedInTurn.mem_names_iff (h : g.NamedInTurn nodes names)
    (hgiven : ∀ i ∈ nodes, ∀ (n : Node) (m : Nat), g.nodes[i]? = some n → 1 ≤ m →
      n.userName ≠ some (StageNames.numbered family.label m)) {m : Nat} (hm : 1 ≤ m) :
    StageNames.numbered family.label m ∈ names ↔ m ≤ nodes.countP (g.isUnnamed family) := by
  induction h generalizing m with
  | nil =>
    simp only [List.not_mem_nil, List.countP_nil, false_iff]
    omega
  | @snoc nodes names i n name before hnode hname ih =>
    have hbefore : ∀ l, 1 ≤ l → (StageNames.numbered family.label l ∈ names ↔
        l ≤ nodes.countP (g.isUnnamed family)) :=
      fun l hl => ih (fun j hj => hgiven j (List.mem_append_left _ hj)) hl
    simp only [List.mem_append, List.mem_singleton, List.countP_append, List.countP_singleton]
    unfold Node.NextName at hname
    cases huser : n.userName with
    | some given =>
      rw [huser] at hname
      have hnot : g.isUnnamed family i = false := by
        rw [Bool.eq_false_iff, Ne, isUnnamed_iff]
        rintro ⟨n', hnode', hunnamed, -⟩
        cases hnode.symm.trans hnode'
        rw [huser] at hunnamed
        cases hunnamed
      have hne : StageNames.numbered family.label m ≠ name := by
        rintro rfl
        exact hgiven i (by simp) n m hnode hm (huser.trans (congrArg some hname.symm))
      simp [hnot, hne, hbefore m hm]
    | none =>
      rw [huser] at hname
      obtain ⟨l, rfl, ⟨hone, hfree⟩, hleast⟩ := hname
      by_cases hfamily : n.family = family
      · -- the least number that is free is the next one
        have hunnamed : g.isUnnamed family i = true :=
          isUnnamed_iff.mpr ⟨n, hnode, huser, hfamily⟩
        rw [hfamily] at hfree hleast ⊢
        have hnext : l = nodes.countP (g.isUnnamed family) + 1 := by
          rw [hbefore l hone] at hfree
          have hle := hleast (a := nodes.countP (g.isUnnamed family) + 1)
            ⟨by omega, by rw [hbefore _ (by omega)]; omega⟩
          omega
        rw [hbefore m hm, StageNames.numbered_inj, if_pos hunnamed]
        omega
      · have hnot : g.isUnnamed family i = false := by
          rw [Bool.eq_false_iff, Ne, isUnnamed_iff]
          rintro ⟨n', hnode', -, hfamily'⟩
          cases hnode.symm.trans hnode'
          exact hfamily hfamily'
        have hne : StageNames.numbered family.label m ≠ StageNames.numbered n.family.label l :=
          fun heq => hfamily (StageNames.numbered_label_inj.mp heq).1.symm
        simp [hnot, hne, hbefore m hm]

theorem NamedInTurn.consecutive (h : g.NamedInTurn nodes names)
    (hgiven : ∀ i ∈ nodes, ∀ (n : Node) (m : Nat), g.nodes[i]? = some n → 1 ≤ m →
      n.userName ≠ some (StageNames.numbered family.label m)) {k : Nat} {i : NodeId}
    (hk : nodes[k]? = some i) (hi : g.isUnnamed family i = true) :
    g.NumberedAt family nodes names k ((nodes.take k).countP (g.isUnnamed family) + 1) := by
  have hmem := fun l (hl : 1 ≤ l) => (h.take k).mem_names_iff
    (fun j hj => hgiven j (List.mem_of_mem_take hj)) hl
  obtain ⟨m, hm, ⟨hone, hfree⟩, hleast⟩ := h.least hk hi
  rw [hmem m hone] at hfree
  have hle := hleast (a := (nodes.take k).countP (g.isUnnamed family) + 1)
    ⟨by omega, by rw [hmem _ (by omega)]; omega⟩
  have heq : m = (nodes.take k).countP (g.isUnnamed family) + 1 := by omega
  rw [← heq]
  exact hm

/-- **Numbers grow, skip only what users have taken, and are consecutive where users have
taken none.** -/
theorem NamedInTurn.numbersInTurn (h : g.NamedInTurn nodes names) (family : Family) :
    g.NumbersInTurn family nodes names where
  least := fun _ _ hk hi => h.least hk hi
  increasing := fun _ _ _ _ hjk ha hb => h.increasing hjk ha hb
  skipped := fun _ _ _ hb hone hab hnot => h.skipped hb hone hab hnot
  consecutive := fun hgiven _ _ hk hi => h.consecutive hgiven hk hi

end Family

end NamedInTurn

end Pipeline

/-! ### Sessions name nodes in turn -/

namespace BuildSession

section Floors

variable {σ : Type} {s : BuildSession σ}

theorem floorsHold_resolveName (h : s.names.FloorsHold) (n : Node) :
    (s.resolveName n).2.FloorsHold := by
  unfold resolveName
  cases n.userName with
  | some given => exact h
  | none => exact h.allocate n.family.label

/-- The name of a node comes next after the names that are taken. -/
theorem nextName_resolveName (h : s.names.FloorsHold) {before : List String}
    (hbefore : ∀ name, s.names.contains name = true ↔ name ∈ before) (n : Node) :
    n.NextName before (s.resolveName n).1 := by
  unfold Node.NextName resolveName
  cases n.userName with
  | some given => rfl
  | none =>
    obtain ⟨m, hname, hleast⟩ := h.exists_isLeast n.family.label
    refine ⟨m, hname, ?_⟩
    simpa only [← hbefore, Bool.not_eq_true] using hleast

end Floors

/-- A session over a sink that takes everything, which has named the nodes `nodes` one after
another. -/
structure Naming (g : Pipeline) (nodes : List NodeId) (calls : List PlanCall)
    (s : BuildSession Transcript) : Prop where
  coherent : s.Coherent g
  floors : s.names.FloorsHold
  announcing : s.Announcing g nodes calls
  inTurn : g.NamedInTurn nodes (registeredNames calls)

theorem naming_fresh (g : Pipeline) (config : Config) :
    (fresh g (heard []) config).Naming g [] [] where
  coherent := coherent_fresh g (heard []) config
  floors := StageNames.floorsHold_empty
  announcing := announcing_fresh g config
  inTurn := .nil

/-- The names that are taken are those that have been registered. -/
theorem Naming.contains_iff {g : Pipeline} {nodes : List NodeId} {calls : List PlanCall}
    {s : BuildSession Transcript} (h : s.Naming g nodes calls) (name : String) :
    s.names.contains name = true ↔ name ∈ registeredNames calls := by
  have hmem : name ∈ registeredNames calls ↔ some name ∈ nodes.map s.stageName? := by
    rw [h.announcing.names_eq]
    simp
  rw [h.coherent.taken_iff, hmem, List.mem_map]
  constructor
  · rintro ⟨i, hi⟩
    exact ⟨i, (h.announcing.enumerates.mem_iff i).mpr (contains_built_iff.mpr ⟨name, hi⟩), hi⟩
  · rintro ⟨i, -, hi⟩
    exact ⟨i, hi⟩

/-- Recording a node gives it the next name. -/
theorem Naming.recorded {g : Pipeline} {nodes : List NodeId} {calls : List PlanCall}
    {s : BuildSession Transcript} (h : s.Naming g nodes calls) {id : NodeId} {n : Node}
    {unit : StageUnit} {inputs : List InputEdge} (hnode : s.pipeline.nodes[id]? = some n)
    (hwiring : s.wiring id n = .ok (unit, inputs))
    (hfree : s.names.contains (s.resolveName n).1 = false) (hnew : s.built.contains id = false) :
    (s.recorded id n unit inputs).Naming g (nodes ++ [id])
      (calls ++ stageCalls (s.resolveName n).1 n.partitions unit inputs) where
  coherent := h.coherent.recorded hnode hwiring hfree hnew
  floors := (floorsHold_resolveName h.floors n).insert _
  announcing := h.announcing.recorded h.coherent hnode hwiring hnew
  inTurn := by
    obtain ⟨m, hm, hnm⟩ := Pipeline.exists_of_described h.coherent.described_eq hnode
    rw [registeredNames_append, registeredNames_stageCalls]
    exact .snoc h.inTurn hm
      ((nextName_resolveName h.floors h.contains_iff n).of_described hnm.symm)

/-- **Lowering names nodes in turn.** -/
theorem Naming.lower {g : Pipeline} {nodes : List NodeId} {calls : List PlanCall}
    {s : BuildSession Transcript} (h : s.Naming g nodes calls) {id : NodeId}
    (hnew : s.built.contains id = false) : ∃ nodes calls, (s.lower id).2.Naming g nodes calls := by
  refine lower_preserves (P := fun s' => ∃ nodes calls, s'.Naming g nodes calls)
    ⟨nodes, calls, h⟩ (fun n => ⟨nodes, calls, ?_⟩) ?_
  · exact ⟨h.coherent.resolveName n, floorsHold_resolveName h.floors n,
      { h.announcing with enumerates := { h.announcing.enumerates with } }, h.inTurn⟩
  · intro n unit inputs hnode hwiring hfree _
    exact ⟨_, _, h.recorded hnode hwiring hfree hnew⟩

end BuildSession

/-! ### Whole builds -/

namespace Pipeline

/-- A run over a sink that takes everything names nodes in turn. -/
theorem exists_naming_run (g : Pipeline) (terminals : List NodeId) (config : Config) :
    ∃ nodes, (g.run terminals (heard []) config).2.Naming g nodes
      (g.plannedCalls terminals config) := by
  obtain ⟨nodes, calls, hnaming⟩ : ∃ nodes calls,
      (g.run terminals (heard []) config).2.Naming g nodes calls := by
    refine run_invariant (P := fun s => ∃ nodes calls, s.Naming g nodes calls) ?_
      ⟨[], [], BuildSession.naming_fresh g config⟩ terminals
    rintro s id ⟨nodes, calls, h⟩ hnew
    exact h.lower hnew
  have hplanned : g.plannedCalls terminals config = calls := by
    rw [plannedCalls, hnaming.announcing.sink_eq]
    simp [heard]
  rw [hplanned]
  exact ⟨nodes, hnaming⟩

/-- A run that succeeds is the one over a sink that takes everything, and its sink has
taken all planned calls. -/
theorem run_heard_of_ok {σ : Type} [PlanSink σ] {g : Pipeline} {terminals : List NodeId}
    {sink : σ} {config : Config} (h : (g.run terminals sink config).1 = .ok ()) :
    (g.run terminals (heard []) config).1 = .ok () ∧
      (g.run terminals (heard []) config).2.pipeline = (g.run terminals sink config).2.pipeline ∧
      g.dialogue terminals sink config =
        (g.plannedCalls terminals config).map (fun call => (call, .ok ())) ∧
      PlanSink.acceptAll sink (g.plannedCalls terminals config) =
        (.ok (), (g.run terminals sink config).2.sink) := by
  have hplain := g.delivered_run terminals sink config
  have hlogged := g.delivered_run terminals (Logged.new sink) config
  rcases (Logged.new sink).acceptAll_cases (g.plannedCalls terminals config) with
    ⟨sink', hsink, hlog⟩ | ⟨_, _, _, e, sink', -, hsink, -⟩
  · rw [dialogue, hlogged.eq_of_ok hlog]
    rw [hplain.eq_of_ok hsink] at h ⊢
    exact ⟨h, rfl, rfl, hsink⟩
  · rw [(hplain.eq_of_error hsink).1] at h
    cases h

end Pipeline

/-- **Generated names follow the order of registration.**  In every build that succeeds,
over every sink, the stages of the nodes upstream of the end nodes are registered one after
another, by calls that the sink takes and that lead to the sink which comes back.  A node that the user has not named gets the least number of its family whose name
is not registered yet.  So the numbers of a family grow, those that are skipped are in names
that users gave to earlier nodes, and where users gave no such names the numbers count the
nodes of the family. -/
theorem buildPlan_numbers_in_turn {σ : Type} [PlanSink σ] {g g' : Pipeline}
    {terminals : List NodeId} {sink sink' : σ} {config : Config}
    (h : g.buildPlan terminals sink config = (.ok sink', g')) :
    ∃ nodes calls, g.dialogue terminals sink config = calls.map (fun call => (call, .ok ())) ∧
      PlanSink.acceptAll sink calls = (.ok (), sink') ∧
      g.Announces g'.nameOf? config.routingSeed nodes calls ∧
      (∀ i, i ∈ nodes ↔ g.UpstreamOfAny terminals i) ∧
      nodes.map g'.nameOf? = (registeredNames calls).map some ∧
      ∀ family, g.NumbersInTurn family nodes (registeredNames calls) := by
  rw [Pipeline.buildPlan_eq_run, Prod.mk.injEq] at h
  obtain ⟨hanswer, rfl⟩ := h
  obtain ⟨⟨⟩, hok, rfl⟩ := Except.map_eq_ok_iff.mp hanswer
  obtain ⟨hheard, hpipeline, hdialogue, htaken⟩ := Pipeline.run_heard_of_ok hok
  obtain ⟨-, hbuild⟩ := Pipeline.buildAll_of_run hheard
  obtain ⟨nodes, hnaming⟩ := g.exists_naming_run terminals config
  have hannounces := hnaming.announcing.announces hnaming.coherent
  rw [Pipeline.config_run] at hannounces
  rw [← hpipeline]
  refine ⟨nodes, _, hdialogue, htaken, hannounces, fun i => ?_, ?_, hnaming.inTurn.numbersInTurn⟩
  · rw [hnaming.announcing.enumerates.mem_iff, BuildSession.contains_built_iff_upstream hbuild]
  · -- what a session calls its stages is what its pipeline reports
    rw [← hnaming.announcing.names_eq]
    refine List.map_congr_left fun i hi => ?_
    obtain ⟨name, hname⟩ := BuildSession.contains_built_iff.mp
      ((hnaming.announcing.enumerates.mem_iff i).mp hi)
    rw [hnaming.coherent.reported i name hname]
    exact hname.symm

/-- Maps in a row, the first of which has a name that the planner would give. -/
def Pipeline.skipping : Pipeline where
  nodes := #[⟨0, none, none, 1, .source fun _ => none⟩,
    ⟨1, some "map2", none, 1, .transform 0 (.map Scalar.value)⟩,
    ⟨2, none, none, 1, .transform 1 (.map Scalar.value)⟩,
    ⟨3, none, none, 1, .transform 2 (.map Scalar.value)⟩]
  sourcePartitions := 1

theorem Pipeline.reachable_skipping : skipping.Reachable := by
  have hsource : Reachable _ := .edit (.source fun _ => none) .empty rfl
  have hfirst : Reachable _ := .edit (.map 0 Scalar.value) hsource rfl
  have hname : Reachable _ := .edit (.setName 1 "map2") hfirst rfl
  have hsecond : Reachable _ := .edit (.map 1 Scalar.value) hname rfl
  exact .edit (.map 2 Scalar.value) hsecond rfl

/-- The last map of `Pipeline.skipping` has the number 3, since the user has taken 2. -/
theorem buildPlan_numbers_in_turn_skipping :
    Pipeline.skipping.Reachable ∧
    ∃ t g', Pipeline.skipping.buildPlan [3] Topology.empty default = (.ok t, g') ∧
      g'.nodes.map Node.name = #[some "source1", some "map2", some "map1", some "map3"] ∧
      ∃ nodes calls, PlanSink.acceptAll Topology.empty calls = (.ok (), t) ∧
        nodes.map g'.nameOf? = (registeredNames calls).map some ∧
        Pipeline.skipping.NumbersInTurn .map nodes (registeredNames calls) := by
  have hok : (Pipeline.skipping.buildPlan [3] Topology.empty default).1.isOk = true := by
    decide +kernel
  have hnames : (Pipeline.skipping.buildPlan [3] Topology.empty default).2.nodes.map Node.name =
      #[some "source1", some "map2", some "map1", some "map3"] := by decide +kernel
  obtain ⟨t, g', hbuild⟩ := Except.exists_ok_of_isOk hok
  rw [hbuild] at hnames
  obtain ⟨nodes, calls, -, htaken, -, -, hcalled, hturn⟩ := buildPlan_numbers_in_turn hbuild
  exact ⟨Pipeline.reachable_skipping, t, g', hbuild, hnames, nodes, calls, htaken, hcalled,
    hturn .map⟩

end StreamPlan

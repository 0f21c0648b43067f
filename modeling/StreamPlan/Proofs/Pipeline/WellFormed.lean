import Mathlib.Logic.Relation
import StreamPlan.Pipeline.Basic

/-!
# Well-formed pipelines

The planner relies on a pipeline being acyclic, and a pipeline is acyclic because
a node can only be made over nodes that are there already.  This file states what
holds of every node of a pipeline that was made through its operations, and shows
that each operation keeps it.

A build writes names back into the pipeline.  `Pipeline.described` forgets those
names; what is left is what the user described, and no build changes it.

## Main definitions

* `Node.WellFormed`, `Pipeline.WellFormed` — the invariant.
* `Pipeline.Edit`, `Pipeline.edit` — the operations that make and change nodes, as
  values.
* `Pipeline.described` — a pipeline without the names builds gave.
* `Pipeline.Upstream` — reachability through parents.
* `Pipeline.ParentsFirst` — a list of nodes in which parents stand first.

## Main results

* `Pipeline.WellFormed.edit` — **every operation keeps a pipeline well formed.**
* `Pipeline.described_assignName` — noting a name changes nothing the user
  described.
-/

namespace Except

variable {ε α β : Type}

theorem bind_eq_ok_iff {x : Except ε α} {f : α → Except ε β} {b : β} :
    x >>= f = .ok b ↔ ∃ a, x = .ok a ∧ f a = .ok b := by
  cases x with
  | error e => simp [bind, Except.bind]
  | ok a => simp [bind, Except.bind]

/-- An answer that is a success, and what comes back beside it. -/
theorem exists_ok_of_isOk {x : Except ε α × β} (h : x.1.isOk = true) :
    ∃ a b, x = (.ok a, b) := by
  rcases x with ⟨e | a, b⟩
  · cases h
  · exact ⟨a, b, rfl⟩

theorem map_eq_ok_iff {x : Except ε α} {f : α → β} {b : β} :
    x.map f = .ok b ↔ ∃ a, x = .ok a ∧ f a = b := by
  cases x with
  | error e => simp [Except.map]
  | ok a => simp [Except.map]

end Except

namespace StreamPlan

/-! ### Nodes -/

/-- What holds of the node at position `i`. -/
structure Node.WellFormed (i : NodeId) (n : Node) : Prop where
  id_eq : n.id = i
  /-- Parents stand before their children. -/
  parents_lt : ∀ p ∈ n.parents, p < i
  partitions_ne_zero : n.partitions ≠ 0
  window_isValid : ∀ left right spec, n.kind = .join left right spec → spec.window.isValid = true
  userName_ne_empty : n.userName ≠ some ""

/-- A node without the name a build gave it. -/
def Node.described (n : Node) : Node := { n with assignedName := none }

section Described

variable {m n : Node}

theorem Node.kind_eq_of_described (h : m.described = n.described) : m.kind = n.kind := by
  have hkind := congrArg Node.kind h
  exact hkind

theorem Node.userName_eq_of_described (h : m.described = n.described) :
    m.userName = n.userName := by
  have hname := congrArg Node.userName h
  exact hname

theorem Node.partitions_eq_of_described (h : m.described = n.described) :
    m.partitions = n.partitions := by
  have hpartitions := congrArg Node.partitions h
  exact hpartitions

theorem Node.parents_eq_of_described (h : m.described = n.described) : m.parents = n.parents := by
  unfold Node.parents
  rw [Node.kind_eq_of_described h]

theorem Node.family_eq_of_described (h : m.described = n.described) : m.family = n.family := by
  unfold Node.family
  rw [Node.kind_eq_of_described h]

end Described

theorem Node.WellFormed.of_described {i : NodeId} {m n : Node} (h : n.WellFormed i)
    (hmn : m.described = n.described) : m.WellFormed i where
  id_eq := by
    have hid := congrArg Node.id hmn
    exact hid.trans h.id_eq
  parents_lt := by
    rw [Node.parents_eq_of_described hmn]
    exact h.parents_lt
  partitions_ne_zero := by
    rw [Node.partitions_eq_of_described hmn]
    exact h.partitions_ne_zero
  window_isValid := by
    rw [Node.kind_eq_of_described hmn]
    exact h.window_isValid
  userName_ne_empty := by
    rw [Node.userName_eq_of_described hmn]
    exact h.userName_ne_empty

namespace Pipeline

/-! ### The invariant -/

/-- What holds of a pipeline that was made through its operations. -/
structure WellFormed (g : Pipeline) : Prop where
  sourcePartitions_ne_zero : g.sourcePartitions ≠ 0
  node : ∀ (i : NodeId) (n : Node), g.nodes[i]? = some n → n.WellFormed i

theorem wellFormed_empty : empty.WellFormed where
  sourcePartitions_ne_zero := by decide
  node := by simp [empty]

theorem wellFormed_ofConfig (c : Config) : (ofConfig c).WellFormed where
  sourcePartitions_ne_zero := by
    unfold ofConfig
    split
    · decide
    · assumption
  node := by simp [ofConfig]

theorem lt_size_of_node {g : Pipeline} {id : NodeId} {n : Node} (h : g.node id = .ok n) :
    id < g.size := by
  rw [node_eq_ok_iff] at h
  exact (Array.getElem?_eq_some_iff.mp h).1

/-- Adding an acceptable node over nodes that are there keeps a pipeline well
formed. -/
theorem WellFormed.push {g : Pipeline} (h : g.WellFormed) {partitions : UInt64} {kind : NodeKind}
    (hn : Node.WellFormed g.size ⟨g.size, none, none, partitions, kind⟩) :
    (g.push partitions kind).2.WellFormed where
  sourcePartitions_ne_zero := h.sourcePartitions_ne_zero
  node := by
    intro i n hi
    simp only [Pipeline.push, Array.getElem?_push] at hi
    split at hi
    · next heq =>
      cases hi
      rw [heq]
      exact hn
    · exact h.node i n hi

theorem WellFormed.update {g : Pipeline} (h : g.WellFormed) (id : NodeId) {f : Node → Node}
    (hf : ∀ i n, n.WellFormed i → (f n).WellFormed i) : (g.update id f).WellFormed where
  sourcePartitions_ne_zero := h.sourcePartitions_ne_zero
  node := by
    intro i n hi
    rw [getElem?_nodes_update] at hi
    split at hi
    · obtain ⟨m, hm, rfl⟩ := Option.map_eq_some_iff.mp hi
      exact hf i m (h.node i m hm)
    · exact h.node i n hi

/-! ### Operations -/

/-- An operation that makes or changes a node. -/
inductive Edit where
  /-- Adds a source. -/
  | source (next : SourceFn)
  /-- Adds a node that makes one record of each record. -/
  | map (parent : NodeId) (f : Scalar → Scalar)
  /-- Adds a node that makes any number of records of each record. -/
  | flatMap (parent : NodeId) (f : Scalar → List Scalar)
  /-- Adds a node that keeps some of the records. -/
  | filter (parent : NodeId) (keep : Scalar → Bool)
  /-- Adds a node over another number of partitions. -/
  | repartition (parent : NodeId) (partitions : UInt64)
  /-- Adds a join. -/
  | join (left right : NodeId) (spec : JoinSpec)
  /-- Gives a node a name that holds for every build. -/
  | setName (id : NodeId) (name : String)
  /-- Gives a node another number of partitions. -/
  | setPartitions (id : NodeId) (partitions : UInt64)

/-- The pipeline after an operation, if the operation succeeds. -/
def edit (g : Pipeline) : Edit → Except PlanError Pipeline
  | .source next => .ok (g.source next).2
  | .map parent f => (g.map parent f).map Prod.snd
  | .flatMap parent f => (g.flatMap parent f).map Prod.snd
  | .filter parent keep => (g.filter parent keep).map Prod.snd
  | .repartition parent partitions => (g.repartition parent partitions).map Prod.snd
  | .join left right spec => (g.join left right spec).map Prod.snd
  | .setName id name => g.setName id name
  | .setPartitions id partitions => g.setPartitions id partitions

/-- A node made over a parent takes its number of partitions. -/
theorem WellFormed.transform {g : Pipeline} (h : g.WellFormed) {parent : NodeId} {op : Transform}
    {made : NodeId × Pipeline} (hmade : g.transform parent op = .ok made) :
    made.2.WellFormed := by
  obtain ⟨n, hn, hpush⟩ := Except.bind_eq_ok_iff.mp hmade
  cases hpush
  refine h.push ⟨rfl, ?_, ?_, ?_, by simp⟩
  · intro p hp
    rw [Node.parents, List.mem_singleton] at hp
    rw [hp]
    exact lt_size_of_node hn
  · exact (h.node parent n (node_eq_ok_iff.mp hn)).partitions_ne_zero
  · intro left right spec hkind
    cases hkind

theorem checkPartitions_eq_ok_iff {id : NodeId} {partitions : UInt64} {u : Unit} :
    checkPartitions id partitions = .ok u ↔ partitions ≠ 0 := by
  unfold checkPartitions
  split <;> simp_all

theorem WellFormed.repartition {g : Pipeline} (h : g.WellFormed) {parent : NodeId}
    {partitions : UInt64} {made : NodeId × Pipeline}
    (hmade : g.repartition parent partitions = .ok made) : made.2.WellFormed := by
  obtain ⟨n, hn, hrest⟩ := Except.bind_eq_ok_iff.mp hmade
  obtain ⟨u, hu, hpush⟩ := Except.bind_eq_ok_iff.mp hrest
  cases hpush
  refine h.push ⟨rfl, ?_, checkPartitions_eq_ok_iff.mp hu, ?_, by simp⟩
  · intro p hp
    rw [Node.parents, List.mem_singleton] at hp
    rw [hp]
    exact lt_size_of_node hn
  · intro left right spec hkind
    cases hkind

theorem isValid_of_validate {w : Window} {u : Unit} (h : w.validate = .ok u) :
    w.isValid = true := by
  unfold Window.validate at h
  split at h
  · assumption
  · cases h

/-- A join takes the number of partitions of its left parent. -/
theorem WellFormed.join {g : Pipeline} (h : g.WellFormed) {left right : NodeId} {spec : JoinSpec}
    {made : NodeId × Pipeline} (hmade : g.join left right spec = .ok made) :
    made.2.WellFormed := by
  obtain ⟨l, hl, hrest⟩ := Except.bind_eq_ok_iff.mp hmade
  obtain ⟨r, hr, hrest⟩ := Except.bind_eq_ok_iff.mp hrest
  obtain ⟨u, hu, hpush⟩ := Except.bind_eq_ok_iff.mp hrest
  cases hpush
  refine h.push ⟨rfl, ?_, ?_, ?_, by simp⟩
  · intro p hp
    rw [Node.parents, List.mem_cons, List.mem_singleton] at hp
    rcases hp with rfl | rfl
    · exact lt_size_of_node hl
    · exact lt_size_of_node hr
  · exact (h.node left l (node_eq_ok_iff.mp hl)).partitions_ne_zero
  · intro _ _ _ hkind
    cases hkind
    exact isValid_of_validate hu

/-- A name is given if it is not empty and the node is there. -/
theorem setName_eq_ok_iff {g g' : Pipeline} {id : NodeId} {name : String} :
    g.setName id name = .ok g' ↔ name ≠ "" ∧ (∃ n, g.nodes[id]? = some n) ∧
      g' = g.update id fun n => { n with userName := some name, assignedName := none } := by
  unfold Pipeline.setName
  by_cases hempty : name.isEmpty = true
  · rw [if_pos hempty]
    constructor
    · intro h
      cases h
    · rintro ⟨hne, -⟩
      exact absurd (String.isEmpty_iff.mp hempty) hne
  · rw [if_neg hempty]
    have hne : name ≠ "" := fun heq => hempty (String.isEmpty_iff.mpr heq)
    simp only [Except.bind_eq_ok_iff, node_eq_ok_iff, exists_and_right, ne_eq, hne,
      not_false_eq_true, true_and]
    exact and_congr_right fun _ => ⟨fun h => (Except.ok.inj h).symm, fun h => h ▸ rfl⟩

theorem setPartitions_eq_ok_iff {g g' : Pipeline} {id : NodeId} {partitions : UInt64} :
    g.setPartitions id partitions = .ok g' ↔ partitions ≠ 0 ∧ (∃ n, g.nodes[id]? = some n) ∧
      g' = g.update id fun n => { n with partitions := partitions } := by
  unfold Pipeline.setPartitions
  simp only [Except.bind_eq_ok_iff, checkPartitions_eq_ok_iff, node_eq_ok_iff, exists_and_right,
    exists_const]
  exact and_congr_right fun _ => and_congr_right fun _ =>
    ⟨fun h => (Except.ok.inj h).symm, fun h => h ▸ rfl⟩

theorem WellFormed.setName {g g' : Pipeline} (h : g.WellFormed) {id : NodeId} {name : String}
    (hset : g.setName id name = .ok g') : g'.WellFormed := by
  obtain ⟨hne, -, rfl⟩ := setName_eq_ok_iff.mp hset
  refine h.update id fun i n hn => ⟨hn.id_eq, hn.parents_lt, hn.partitions_ne_zero,
    hn.window_isValid, ?_⟩
  intro hempty
  exact hne (Option.some.inj hempty)

theorem WellFormed.setPartitions {g g' : Pipeline} (h : g.WellFormed) {id : NodeId}
    {partitions : UInt64} (hset : g.setPartitions id partitions = .ok g') : g'.WellFormed := by
  obtain ⟨hne, -, rfl⟩ := setPartitions_eq_ok_iff.mp hset
  exact h.update id fun i n hn => ⟨hn.id_eq, hn.parents_lt, hne, hn.window_isValid,
    hn.userName_ne_empty⟩

theorem WellFormed.source {g : Pipeline} (h : g.WellFormed) (next : SourceFn) :
    (g.source next).2.WellFormed := by
  refine h.push ⟨rfl, ?_, h.sourcePartitions_ne_zero, ?_, by simp⟩
  · intro p hp
    cases hp
  · intro left right spec hkind
    cases hkind

/-- **Every operation keeps a pipeline well formed.** -/
theorem WellFormed.edit {g g' : Pipeline} (h : g.WellFormed) {e : Edit} (he : g.edit e = .ok g') :
    g'.WellFormed := by
  cases e with
  | source next =>
    cases he
    exact h.source next
  | map parent f =>
    obtain ⟨made, hmade, rfl⟩ := Except.map_eq_ok_iff.mp he
    exact h.transform hmade
  | flatMap parent f =>
    obtain ⟨made, hmade, rfl⟩ := Except.map_eq_ok_iff.mp he
    exact h.transform hmade
  | filter parent keep =>
    obtain ⟨made, hmade, rfl⟩ := Except.map_eq_ok_iff.mp he
    exact h.transform hmade
  | repartition parent partitions =>
    obtain ⟨made, hmade, rfl⟩ := Except.map_eq_ok_iff.mp he
    exact h.repartition hmade
  | join left right spec =>
    obtain ⟨made, hmade, rfl⟩ := Except.map_eq_ok_iff.mp he
    exact h.join hmade
  | setName id name => exact h.setName he
  | setPartitions id partitions => exact h.setPartitions he

/-! ### What the user described -/

/-- A pipeline without the names builds gave. -/
def described (g : Pipeline) : Pipeline := { g with nodes := g.nodes.map Node.described }

/-- Nodes at one position of two pipelines that are described alike are described
alike. -/
theorem exists_of_described {g h : Pipeline} (hgh : g.described = h.described) {i : NodeId}
    {n : Node} (hn : g.nodes[i]? = some n) :
    ∃ m, h.nodes[i]? = some m ∧ n.described = m.described := by
  have hi : (g.nodes.map Node.described)[i]? = (h.nodes.map Node.described)[i]? :=
    congrArg (fun k : Pipeline => k.nodes[i]?) hgh
  rw [Array.getElem?_map, Array.getElem?_map, hn] at hi
  obtain ⟨m, hm, heq⟩ := Option.map_eq_some_iff.mp hi.symm
  exact ⟨m, hm, heq.symm⟩

theorem size_eq_of_described {g h : Pipeline} (hgh : g.described = h.described) :
    g.size = h.size := by
  have hsize : (g.nodes.map Node.described).size = (h.nodes.map Node.described).size :=
    congrArg (fun k : Pipeline => k.nodes.size) hgh
  simpa [size] using hsize

/-- Noting a name changes nothing the user described. -/
@[simp] theorem described_assignName (g : Pipeline) (id : NodeId) (name : String) :
    (g.assignName id name).described = g.described := by
  have hnodes : (g.assignName id name).nodes.map Node.described = g.nodes.map Node.described := by
    refine Array.ext_getElem? fun i => ?_
    rw [Array.getElem?_map, Array.getElem?_map, assignName, getElem?_nodes_update]
    split
    · rw [Option.map_map]
      congr 1
      funext n
      simp only [Function.comp, Node.described]
      split <;> rfl
    · rfl
  simp only [described, hnodes]
  rfl

/-- Names given by builds do not matter to well-formedness. -/
theorem WellFormed.of_described {g h : Pipeline} (hg : g.WellFormed)
    (hgh : h.described = g.described) : h.WellFormed where
  sourcePartitions_ne_zero := by
    have heq := congrArg Pipeline.sourcePartitions hgh
    exact fun hzero => hg.sourcePartitions_ne_zero (heq.symm.trans hzero)
  node := by
    intro i n hn
    obtain ⟨m, hm, hnm⟩ := exists_of_described hgh hn
    exact (hg.node i m hm).of_described hnm

/-! ### Reachability through parents -/

/-- A node has another one as a parent. -/
def HasParent (g : Pipeline) (child parent : NodeId) : Prop :=
  ∃ n, g.nodes[child]? = some n ∧ parent ∈ n.parents

/-- A node is reached from another one through parents, or is that node. -/
def Upstream (g : Pipeline) : NodeId → NodeId → Prop := Relation.ReflTransGen g.HasParent

/-- A node is reached from one of several through parents. -/
def UpstreamOfAny (g : Pipeline) (terminals : List NodeId) (i : NodeId) : Prop :=
  ∃ t ∈ terminals, g.Upstream t i

theorem hasParent_of_described {g h : Pipeline} (hgh : g.described = h.described)
    {child parent : NodeId} (hp : g.HasParent child parent) : h.HasParent child parent := by
  obtain ⟨n, hn, hmem⟩ := hp
  obtain ⟨m, hm, hnm⟩ := exists_of_described hgh hn
  rw [Node.parents_eq_of_described hnm] at hmem
  exact ⟨m, hm, hmem⟩

/-- A parent of a node that is reached is reached. -/
theorem UpstreamOfAny.parent {g : Pipeline} {terminals : List NodeId} {child parent : NodeId}
    (h : g.UpstreamOfAny terminals child) (hp : g.HasParent child parent) :
    g.UpstreamOfAny terminals parent := by
  obtain ⟨t, ht, hchild⟩ := h
  exact ⟨t, ht, hchild.tail hp⟩

/-- Only nodes are upstream of nodes. -/
theorem exists_node_of_upstream {g : Pipeline} (hg : g.WellFormed) {t i : NodeId}
    (ht : g.has t = true) (hi : g.Upstream t i) : ∃ m, g.nodes[i]? = some m := by
  have hlt : i < g.nodes.size := by
    induction hi with
    | refl => exact of_decide_eq_true ht
    | tail _ hp ih =>
      obtain ⟨n, hn, hmem⟩ := hp
      exact Nat.lt_trans ((hg.node _ n hn).parents_lt _ hmem) ih
  exact ⟨_, Array.getElem?_eq_getElem hlt⟩

/-- In a list of nodes, the parents of each stand before it. -/
def ParentsFirst (g : Pipeline) (nodes : List NodeId) : Prop :=
  ∀ (k : Nat) (i p : NodeId), nodes[k]? = some i → g.HasParent i p → ∃ j, j < k ∧ nodes[j]? = some p

theorem ParentsFirst.append_singleton {g : Pipeline} {nodes : List NodeId}
    (h : g.ParentsFirst nodes) {id : NodeId} (hid : ∀ p, g.HasParent id p → p ∈ nodes) :
    g.ParentsFirst (nodes ++ [id]) := by
  intro k i p hk hp
  rcases Nat.lt_or_ge k nodes.length with hlt | hge
  · rw [List.getElem?_append_left hlt] at hk
    obtain ⟨j, hj, hpj⟩ := h k i p hk hp
    exact ⟨j, hj, by rw [List.getElem?_append_left (Nat.lt_trans hj hlt), hpj]⟩
  · -- the last node, whose parents are somewhere before it
    rw [List.getElem?_append_right hge] at hk
    rw [List.mem_singleton.mp (List.mem_of_getElem? hk)] at hp
    obtain ⟨j, hj⟩ := List.mem_iff_getElem?.mp (hid p hp)
    have hlt : j < nodes.length := (List.getElem?_eq_some_iff.mp hj).1
    exact ⟨j, Nat.lt_of_lt_of_le hlt hge, by rw [List.getElem?_append_left hlt, hj]⟩

end Pipeline

end StreamPlan

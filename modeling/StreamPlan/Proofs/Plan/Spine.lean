import StreamPlan.Proofs.Plan.ReportedNames
import StreamPlan.Proofs.Plan.Roots

/-!
# Where numbers of partitions come from

A source and a repartition have their numbers of partitions from outside: from the pipeline
and from the user.  Any other node copies the number of its parent, or of its left parent if
it is a join, at the moment it is made, and nothing is copied later on.  What a user sets on
a node replaces what it had.

So if nodes are only resized before they have children, the number of every node can be read
off the finished pipeline: go up the left parents to the first node that did not copy its
number, its origin on the spine.  To say this for whole runs, two things of a run have to be
remembered that the pipeline does not show: which number was last set on a node, and which
one a repartition was made with (`Pipeline.latest`).

## Main definitions

* `NodeKind.spineParent?` — the parent that a new node copies.
* `Pipeline.latest` — what was noted last in a run.
* `Pipeline.SizedFirst` — a run that resizes no node with children.
* `Pipeline.SpineOrigin`, `Pipeline.fixedCount` — the end of a spine, and the number that is
  fixed there.
* `Pipeline.Sized` — the invariant of such runs.
* `Pipeline.CarriesCount` — a stage has the number of partitions of a node.

## Main results

* `Pipeline.Sized.perform`, `Pipeline.Sized.performAll` — **operations that resize no node
  with children keep the invariant**, one by one and in a run.
* `Pipeline.partitions_follow_spine` — **the number of partitions of a node is the one that
  is fixed at the origin of its spine**, and its stage has that number.
-/

namespace StreamPlan

/-- The parent that a new node copies its number of partitions from. -/
def NodeKind.spineParent? : NodeKind → Option NodeId
  | .source _ => none
  | .transform _ .repartition => none
  | .transform parent _ => some parent
  | .join left _ _ => some left

/-- The number of partitions of a new node that copies no other: that of the pipeline for a
source, and the one that was asked for, for a repartition. -/
def NodeKind.ownCount (base : UInt64) (asked : Option UInt64) : NodeKind → Option UInt64
  | .source _ => some base
  | .transform _ .repartition => asked
  | _ => none

theorem Node.mem_parents_of_spineParent {n : Node} {p : NodeId}
    (h : n.kind.spineParent? = some p) : p ∈ n.parents := by
  unfold Node.parents
  cases hkind : n.kind with
  | source next =>
    rw [hkind] at h
    cases h
  | transform parent op =>
    rw [hkind] at h
    cases op with
    | repartition => cases h
    | _ =>
      cases h
      exact List.mem_cons_self
  | join left right spec =>
    rw [hkind] at h
    cases h
    exact List.mem_cons_self

namespace Pipeline

/-! ### Kinds and counts -/

/-- What the node at a position is. -/
def kindOf? (g : Pipeline) (i : NodeId) : Option NodeKind := g.nodes[i]?.map Node.kind

/-- The number of partitions of the node at a position. -/
def countOf? (g : Pipeline) (i : NodeId) : Option UInt64 := g.nodes[i]?.map Node.partitions

theorem getElem?_nodes_push (g : Pipeline) (partitions : UInt64) (kind : NodeKind) (i : NodeId) :
    (g.push partitions kind).2.nodes[i]? =
      if i = g.size then some ⟨g.size, none, none, partitions, kind⟩ else g.nodes[i]? :=
  Array.getElem?_push

theorem kindOf?_push (g : Pipeline) (partitions : UInt64) (kind : NodeKind) (i : NodeId) :
    (g.push partitions kind).2.kindOf? i = if i = g.size then some kind else g.kindOf? i := by
  rw [kindOf?, getElem?_nodes_push, apply_ite (Option.map Node.kind)]
  rfl

theorem countOf?_push (g : Pipeline) (partitions : UInt64) (kind : NodeKind) (i : NodeId) :
    (g.push partitions kind).2.countOf? i =
      if i = g.size then some partitions else g.countOf? i := by
  rw [countOf?, getElem?_nodes_push, apply_ite (Option.map Node.partitions)]
  rfl

theorem kindOf?_size (g : Pipeline) : g.kindOf? g.size = none := by
  simp [kindOf?, size]

theorem countOf?_size (g : Pipeline) : g.countOf? g.size = none := by
  simp [countOf?, size]

/-- An update does not show in what it leaves alone. -/
theorem map_getElem?_nodes_update {α : Type} (g : Pipeline) (id : NodeId) {f : Node → Node}
    {part : Node → α} (hf : ∀ n, part (f n) = part n) (i : NodeId) :
    (g.update id f).nodes[i]?.map part = g.nodes[i]?.map part := by
  rw [getElem?_nodes_update]
  by_cases hi : id = i
  · rw [if_pos hi, Option.map_map]
    exact congrArg (Option.map · g.nodes[i]?) (funext hf)
  · rw [if_neg hi]

/-- What is set on a node does not reach any other. -/
theorem countOf?_setPartitions {g g' : Pipeline} {id : NodeId} {count : UInt64}
    (h : g.setPartitions id count = .ok g') (i : NodeId) :
    g'.countOf? i = if id = i then some count else g.countOf? i := by
  obtain ⟨-, ⟨n, hn⟩, rfl⟩ := setPartitions_eq_ok_iff.mp h
  rw [countOf?, getElem?_nodes_update]
  by_cases hi : id = i
  · subst hi
    rw [if_pos rfl, if_pos rfl, hn]
    rfl
  · rw [if_neg hi, if_neg hi]
    rfl

/-- Two pipelines that differ at most in names. -/
structure SameCounts (g g' : Pipeline) : Prop where
  kind_eq : ∀ i, g'.kindOf? i = g.kindOf? i
  count_eq : ∀ i, g'.countOf? i = g.countOf? i
  sourcePartitions_eq : g'.sourcePartitions = g.sourcePartitions

theorem sameCounts_of_described {g g' : Pipeline} (h : g'.described = g.described) :
    g.SameCounts g' where
  kind_eq := by
    intro i
    have hi := congrArg (fun k : Pipeline => k.kindOf? i) h
    simpa [kindOf?, described, Function.comp_def, Node.described] using hi
  count_eq := by
    intro i
    have hi := congrArg (fun k : Pipeline => k.countOf? i) h
    simpa [countOf?, described, Function.comp_def, Node.described] using hi
  sourcePartitions_eq := by
    have hbase := congrArg Pipeline.sourcePartitions h
    exact hbase

theorem sameCounts_of_setName {g g' : Pipeline} {id : NodeId} {name : String}
    (h : g.setName id name = .ok g') : g.SameCounts g' := by
  obtain ⟨-, -, rfl⟩ := setName_eq_ok_iff.mp h
  exact ⟨g.map_getElem?_nodes_update id fun _ => rfl, g.map_getElem?_nodes_update id fun _ => rfl,
    rfl⟩

/-! ### What is noted of a run -/

/-- The number of partitions that an edit sets on a node. -/
def Edit.countSet (i : NodeId) (_ : Pipeline) : Edit → Option UInt64
  | .setPartitions id count => if id = i then some count else none
  | _ => none

/-- The number that an edit asks for, if it makes a repartition at the position `i`. -/
def Edit.countAsked (i : NodeId) (g : Pipeline) : Edit → Option UInt64
  | .repartition _ count => if g.size = i then some count else none
  | _ => none

/-- What is noted of an operation, if it is an edit that succeeds. -/
def noted {α : Type} (note : Pipeline → Edit → Option α) (g : Pipeline) : Operation → Option α
  | .edit e =>
    match g.edit e with
    | .ok _ => note g e
    | .error _ => none
  | _ => none

/-- What was noted last in a run of operations. -/
def latest {α : Type} (note : Pipeline → Edit → Option α) (g : Pipeline) :
    List Operation → Option α
  | [] => none
  | op :: ops => (latest note (g.perform op) ops).or (noted note g op)

/-- The number of partitions that a run has set on a node, the last one if there are more. -/
def lastSet (g : Pipeline) (ops : List Operation) (i : NodeId) : Option UInt64 :=
  latest (Edit.countSet i) g ops

/-- The number that a run has asked for in making a repartition at the position `i`. -/
def lastAsked (g : Pipeline) (ops : List Operation) (i : NodeId) : Option UInt64 :=
  latest (Edit.countAsked i) g ops

/-- No node with children is given another number of partitions. -/
def SizedFirst (g : Pipeline) : List Operation → Prop
  | [] => True
  | op :: ops =>
    (∀ id count g', op = .edit (.setPartitions id count) → g.setPartitions id count = .ok g' →
      ∀ child, ¬ g.HasParent child id) ∧ SizedFirst (g.perform op) ops

/-! ### Spines -/

/-- The next node on the spine, if the number of partitions of a node was copied: the user
has set none, and it is no source and no repartition. -/
def spineNext? (g : Pipeline) (given : NodeId → Option UInt64) (i : NodeId) : Option NodeId :=
  if (given i).isSome then none else (g.kindOf? i).bind NodeKind.spineParent?

/-- The spine of the first node ends at the second one. -/
inductive SpineOrigin (g : Pipeline) (given : NodeId → Option UInt64) : NodeId → NodeId → Prop
  | here {i : NodeId} (h : g.spineNext? given i = none) : SpineOrigin g given i i
  | up {i p o : NodeId} (h : g.spineNext? given i = some p) (ho : SpineOrigin g given p o) :
    SpineOrigin g given i o

/-- The number of partitions that is fixed at a node: what was set on it, or else what it
was made with. -/
def fixedCount (g : Pipeline) (given asked : NodeId → Option UInt64) (i : NodeId) :
    Option UInt64 :=
  (given i).or ((g.kindOf? i).bind (NodeKind.ownCount g.sourcePartitions (asked i)))

section Spine

variable {g g' : Pipeline} {given given' asked asked' : NodeId → Option UInt64} {i p o : NodeId}

theorem spineOrigin_iff_of_none (h : g.spineNext? given i = none) :
    g.SpineOrigin given i o ↔ o = i := by
  constructor
  · intro ho
    cases ho with
    | here _ => rfl
    | up hp _ =>
      rw [h] at hp
      cases hp
  · rintro rfl
    exact .here h

theorem spineOrigin_iff_of_some (h : g.spineNext? given i = some p) :
    g.SpineOrigin given i o ↔ g.SpineOrigin given p o := by
  constructor
  · intro ho
    cases ho with
    | here hnone =>
      rw [h] at hnone
      cases hnone
    | up hp ho =>
      rw [h] at hp
      cases hp
      exact ho
  · exact .up h

theorem hasParent_of_spineNext (h : g.spineNext? given i = some p) : g.HasParent i p := by
  unfold spineNext? at h
  split at h
  · cases h
  · obtain ⟨kind, hkind, hp⟩ := Option.bind_eq_some_iff.mp h
    obtain ⟨n, hn, rfl⟩ := Option.map_eq_some_iff.mp hkind
    exact ⟨n, hn, Node.mem_parents_of_spineParent hp⟩

theorem spineNext_of_set {c : UInt64} (h : given i = some c) : g.spineNext? given i = none := by
  rw [spineNext?, h]
  rfl

theorem spineNext_of_unset (h : given i = none) :
    g.spineNext? given i = (g.kindOf? i).bind NodeKind.spineParent? := by
  rw [spineNext?, h]
  rfl

/-- What a node has on the spine depends on its kind and on what was set on it. -/
theorem spineNext_congr (hkind : g'.kindOf? i = g.kindOf? i) (hset : given' i = given i) :
    g'.spineNext? given' i = g.spineNext? given i := by
  rw [spineNext?, spineNext?, hkind, hset]

theorem fixedCount_congr (hkind : g'.kindOf? i = g.kindOf? i)
    (hbase : g'.sourcePartitions = g.sourcePartitions) (hset : given' i = given i)
    (hasked : asked' i = asked i) : g'.fixedCount given' asked' i = g.fixedCount given asked i := by
  rw [fixedCount, fixedCount, hkind, hbase, hset, hasked]

/-! ### The invariant -/

/-- The numbers of partitions of a pipeline come from `given` and `asked`: a node whose number
was copied still has that of its parent, and any other node has the one that is fixed at
it. -/
structure Sized (given asked : NodeId → Option UInt64) (g : Pipeline) : Prop where
  unset : ∀ i, g.kindOf? i = none → given i = none
  copied : ∀ i p, g.spineNext? given i = some p → ∃ c, g.countOf? i = some c ∧ g.countOf? p = some c
  fixed : ∀ i, g.spineNext? given i = none → g.countOf? i = g.fixedCount given asked i

theorem sized_blank (origin : Option Config) :
    (blank origin).Sized (fun _ => none) (fun _ => none) := by
  have hnodes : (blank origin).nodes = #[] := by cases origin <;> rfl
  constructor
  case unset =>
    intro i _
    rfl
  case copied =>
    intro i p hp
    simp [spineNext?, kindOf?, hnodes] at hp
  case fixed =>
    intro i _
    simp [countOf?, fixedCount, kindOf?, hnodes]

theorem Sized.of_sameCounts (h : g.Sized given asked) (hsame : g.SameCounts g') :
    g'.Sized given asked := by
  have hnext : ∀ i, g'.spineNext? given i = g.spineNext? given i :=
    fun i => spineNext_congr (hsame.kind_eq i) rfl
  constructor
  case unset =>
    intro i hi
    rw [hsame.kind_eq] at hi
    exact h.unset i hi
  case copied =>
    intro i p hp
    rw [hnext] at hp
    rw [hsame.count_eq, hsame.count_eq]
    exact h.copied i p hp
  case fixed =>
    intro i hi
    rw [hnext] at hi
    rw [hsame.count_eq, h.fixed i hi]
    exact (fixedCount_congr (hsame.kind_eq i) hsame.sourcePartitions_eq rfl rfl).symm

/-- A new node copies the number of its parent or has a number of its own. -/
theorem Sized.push (h : g.Sized given asked) {partitions : UInt64} {kind : NodeKind}
    (hcopied : ∀ p, kind.spineParent? = some p → g.countOf? p = some partitions)
    (hfixed : kind.spineParent? = none →
      kind.ownCount g.sourcePartitions (asked' g.size) = some partitions)
    (hasked : ∀ i, i ≠ g.size → asked' i = asked i) :
    (g.push partitions kind).2.Sized given asked' := by
  have hunset : given g.size = none := h.unset g.size g.kindOf?_size
  have hold : ∀ i, i ≠ g.size →
      (g.push partitions kind).2.spineNext? given i = g.spineNext? given i := by
    intro i hi
    refine spineNext_congr ?_ rfl
    rw [kindOf?_push, if_neg hi]
  have hnew : (g.push partitions kind).2.spineNext? given g.size = kind.spineParent? := by
    rw [spineNext_of_unset hunset, kindOf?_push, if_pos rfl]
    rfl
  -- a node that has a number is not the new one
  have hcount : ∀ p c, g.countOf? p = some c →
      (g.push partitions kind).2.countOf? p = some c := by
    intro p c hp
    rw [countOf?_push, if_neg, hp]
    rintro rfl
    rw [countOf?_size] at hp
    cases hp
  constructor
  case unset =>
    intro i hi
    rw [kindOf?_push] at hi
    by_cases heq : i = g.size
    · rw [if_pos heq] at hi
      cases hi
    · rw [if_neg heq] at hi
      exact h.unset i hi
  case copied =>
    intro i p hp
    by_cases heq : i = g.size
    · rw [heq, hnew] at hp
      refine ⟨partitions, ?_, hcount p partitions (hcopied p hp)⟩
      rw [countOf?_push, if_pos heq]
    · rw [hold i heq] at hp
      obtain ⟨c, hi, hc⟩ := h.copied i p hp
      exact ⟨c, hcount i c hi, hcount p c hc⟩
  case fixed =>
    intro i hi
    rw [countOf?_push]
    by_cases heq : i = g.size
    · rw [heq, hnew] at hi
      rw [if_pos heq, heq, fixedCount, hunset, kindOf?_push, if_pos rfl]
      exact (hfixed hi).symm
    · rw [hold i heq] at hi
      have hkind : (g.push partitions kind).2.kindOf? i = g.kindOf? i := by
        rw [kindOf?_push, if_neg heq]
      rw [if_neg heq, h.fixed i hi]
      exact (fixedCount_congr hkind rfl rfl (hasked i heq)).symm

/-- A number may be set on a node that no node has copied it from. -/
theorem Sized.setPartitions (h : g.Sized given asked) {id : NodeId} {count : UInt64}
    (hg' : g.setPartitions id count = .ok g') (hchild : ∀ child, ¬ g.HasParent child id) :
    g'.Sized (fun i => (if id = i then some count else none).or (given i)) asked := by
  have hcount := countOf?_setPartitions hg'
  obtain ⟨-, ⟨n, hn⟩, rfl⟩ := setPartitions_eq_ok_iff.mp hg'
  have hkind : ∀ i, (g.update id fun n => { n with partitions := count }).kindOf? i = g.kindOf? i :=
    g.map_getElem?_nodes_update id fun _ => rfl
  generalize hset' : (fun i => (if id = i then some count else none).or (given i)) = given'
  have hself : given' id = some count := by
    rw [← hset']
    simp
  have hother : ∀ i, id ≠ i → given' i = given i := by
    intro i hi
    rw [← hset']
    simp [hi]
  have hnext : ∀ i, id ≠ i →
      (g.update id fun n => { n with partitions := count }).spineNext? given' i =
        g.spineNext? given i :=
    fun i hi => spineNext_congr (hkind i) (hother i hi)
  constructor
  case unset =>
    intro i hi
    rw [hkind] at hi
    by_cases heq : id = i
    · rw [← heq, kindOf?, hn] at hi
      cases hi
    · rw [hother i heq]
      exact h.unset i hi
  case copied =>
    intro i p hp
    by_cases heq : id = i
    · rw [← heq, spineNext_of_set hself] at hp
      cases hp
    · rw [hnext i heq] at hp
      -- the parent is another node as well, as this one has no children
      have hparent : id ≠ p := by
        rintro rfl
        exact hchild i (hasParent_of_spineNext hp)
      rw [hcount, hcount, if_neg heq, if_neg hparent]
      exact h.copied i p hp
  case fixed =>
    intro i hi
    rw [hcount]
    by_cases heq : id = i
    · rw [if_pos heq, ← heq, fixedCount, hself]
      rfl
    · rw [hnext i heq] at hi
      rw [if_neg heq, h.fixed i hi]
      exact (fixedCount_congr (hkind i) rfl (hother i heq) rfl).symm

theorem Sized.transform (h : g.Sized given asked) {parent : NodeId} {op : Transform}
    {made : NodeId × Pipeline} (hmade : g.transform parent op = .ok made)
    (hop : (NodeKind.transform parent op).spineParent? = some parent) :
    made.2.Sized given asked := by
  obtain ⟨n, hn, hpush⟩ := Except.bind_eq_ok_iff.mp hmade
  cases hpush
  refine h.push ?_ ?_ fun _ _ => rfl
  · intro p hp
    cases hop.symm.trans hp
    rw [countOf?, node_eq_ok_iff.mp hn]
    rfl
  · intro hnone
    cases hop.symm.trans hnone

/-- An edit that resizes no node with children keeps the invariant. -/
theorem Sized.edit (h : g.Sized given asked) {e : Edit} (he : g.edit e = .ok g')
    (hfirst : ∀ id count, e = .setPartitions id count → ∀ child, ¬ g.HasParent child id) :
    g'.Sized (fun i => (e.countSet i g).or (given i))
      (fun i => (e.countAsked i g).or (asked i)) := by
  cases e with
  | source next =>
    cases he
    refine h.push (fun p hp => ?_) (fun _ => rfl) fun _ _ => rfl
    cases hp
  | map parent f =>
    obtain ⟨made, hmade, rfl⟩ := Except.map_eq_ok_iff.mp he
    exact h.transform hmade rfl
  | flatMap parent f =>
    obtain ⟨made, hmade, rfl⟩ := Except.map_eq_ok_iff.mp he
    exact h.transform hmade rfl
  | filter parent keep =>
    obtain ⟨made, hmade, rfl⟩ := Except.map_eq_ok_iff.mp he
    exact h.transform hmade rfl
  | repartition parent count =>
    obtain ⟨made, hmade, rfl⟩ := Except.map_eq_ok_iff.mp he
    obtain ⟨n, -, hrest⟩ := Except.bind_eq_ok_iff.mp hmade
    obtain ⟨u, -, hpush⟩ := Except.bind_eq_ok_iff.mp hrest
    cases hpush
    refine h.push (fun p hp => ?_) (fun _ => ?_) fun i hi => ?_
    · cases hp
    · simp [NodeKind.ownCount, Edit.countAsked]
    · simp [Edit.countAsked, hi.symm]
  | join left right spec =>
    obtain ⟨made, hmade, rfl⟩ := Except.map_eq_ok_iff.mp he
    obtain ⟨l, hl, hrest⟩ := Except.bind_eq_ok_iff.mp hmade
    obtain ⟨r, -, hrest⟩ := Except.bind_eq_ok_iff.mp hrest
    obtain ⟨u, -, hpush⟩ := Except.bind_eq_ok_iff.mp hrest
    cases hpush
    refine h.push (fun p hp => ?_) (fun hnone => ?_) fun _ _ => rfl
    · cases hp
      rw [countOf?, node_eq_ok_iff.mp hl]
      rfl
    · cases hnone
  | setName id name => exact h.of_sameCounts (sameCounts_of_setName he)
  | setPartitions id count => exact h.setPartitions he (hfirst id count rfl)

/-- **One operation keeps the invariant**, if it resizes no node with children. -/
theorem Sized.perform (h : g.Sized given asked) {op : Operation}
    (hfirst : ∀ id count g', op = .edit (.setPartitions id count) →
      g.setPartitions id count = .ok g' → ∀ child, ¬ g.HasParent child id) :
    (g.perform op).Sized (fun i => (noted (Edit.countSet i) g op).or (given i))
      (fun i => (noted (Edit.countAsked i) g op).or (asked i)) := by
  cases op with
  | edit e =>
    simp only [noted]
    cases he : g.edit e with
    | ok g' =>
      rw [perform_edit_of_ok he]
      refine h.edit he ?_
      rintro id count rfl
      exact hfirst id count g' rfl he
    | error reason =>
      rw [perform_edit_of_error he]
      exact h
  | session sink config ids =>
    rw [Pipeline.perform]
    cases hstart : BuildSession.start g sink config with
    | ok s =>
      obtain ⟨-, rfl⟩ := BuildSession.start_eq_ok_iff.mp hstart
      have hafter : (BuildSession.fresh g sink config).After _ :=
        BuildSession.After.refl.buildEach ids
      exact h.of_sameCounts (sameCounts_of_described hafter.described)
    | error reason => exact h
  | plan terminals sink config =>
    rw [Pipeline.perform, buildPlan_eq_run]
    exact h.of_sameCounts (sameCounts_of_described (g.after_run terminals sink config).described)
  | topology terminals config =>
    rw [Pipeline.perform, buildTopology_eq_buildPlan, buildPlan_eq_run]
    exact h.of_sameCounts
      (sameCounts_of_described (g.after_run terminals Topology.empty config).described)

/-- **A run keeps the invariant**, if it resizes no node with children. -/
theorem Sized.performAll (h : g.Sized given asked) {ops : List Operation}
    (hfirst : g.SizedFirst ops) :
    (g.performAll ops).Sized (fun i => (latest (Edit.countSet i) g ops).or (given i))
      (fun i => (latest (Edit.countAsked i) g ops).or (asked i)) := by
  induction ops generalizing g given asked with
  | nil => exact h
  | cons op ops ih =>
    have hrest := ih (h.perform hfirst.1) hfirst.2
    simp only [latest, Option.or_assoc]
    exact hrest

theorem sized_performAll {origin : Option Config} {ops : List Operation}
    (hfirst : (blank origin).SizedFirst ops) :
    ((blank origin).performAll ops).Sized ((blank origin).lastSet ops)
      ((blank origin).lastAsked ops) := by
  have hsized := (sized_blank origin).performAll hfirst
  simp only [Option.or_none] at hsized
  exact hsized

/-- The number of partitions of every node is the one that is fixed at the origin of its
spine, which is only one node. -/
def FollowsSpine (given asked : NodeId → Option UInt64) (g : Pipeline) : Prop :=
  ∀ i n, g.nodes[i]? = some n →
    ∃ o, (∀ o', g.SpineOrigin given i o' ↔ o' = o) ∧ g.fixedCount given asked o = some n.partitions

theorem Sized.followsSpine (h : g.Sized given asked) (hg : g.WellFormed) :
    g.FollowsSpine given asked := by
  intro i
  induction i using Nat.strong_induction_on with
  | h i ih =>
    intro n hn
    have hcount : g.countOf? i = some n.partitions := by
      rw [countOf?, hn]
      rfl
    cases hnext : g.spineNext? given i with
    | none =>
      refine ⟨i, fun o' => spineOrigin_iff_of_none hnext, ?_⟩
      rw [← h.fixed i hnext, hcount]
    | some p =>
      obtain ⟨n', hn', hp⟩ := hasParent_of_spineNext hnext
      obtain ⟨c, hi, hc⟩ := h.copied i p hnext
      obtain ⟨m, hm, rfl⟩ := Option.map_eq_some_iff.mp hc
      obtain ⟨o, ho, hfixed⟩ := ih p ((hg.node i n' hn').parents_lt p hp) m hm
      refine ⟨o, fun o' => (spineOrigin_iff_of_some hnext).trans (ho o'), ?_⟩
      rw [hfixed, ← hi, hcount]

end Spine

/-! ### Stages -/

/-- A stage of a build of `g` that left the pipeline `g'` has the name that a node got and
the number of partitions that the node had. -/
def CarriesCount (g g' : Pipeline) (i : NodeId) (name : String) (partitions : UInt64) : Prop :=
  g'.nameOf? i = some name ∧ g.countOf? i = some partitions

/-- Every stage of a compiled topology carries the number of partitions of its node. -/
theorem stages_carryCount {g g' : Pipeline} {terminals : List NodeId} {config : Config}
    {t : Topology} (h : g.buildTopology terminals config = (.ok t, g')) :
    ∃ nodes, (∀ i, i ∈ nodes ↔ g.UpstreamOfAny terminals i) ∧
      List.Forall₂ (fun i st => g.CarriesCount g' i st.name st.partitions) nodes
        t.stages.toList := by
  obtain ⟨s, nodes, hbuild, rfl, rfl, -, hs, hnodes⟩ := exists_mirrors_of_buildTopology h
  refine ⟨nodes, fun i => ?_, hnodes.stages.imp ?_⟩
  · rw [hnodes.mem_iff, BuildSession.contains_built_iff_upstream hbuild]
  · rintro i st ⟨hname, n, hn, hstage⟩
    refine ⟨hs.reported i st.name hname, ?_⟩
    rw [countOf?, hn, hstage.partitions_eq]
    rfl

/-- So does every stage that is registered, in whatever sink.  The names are those of an
undisturbed build. -/
theorem registration_carriesCount {σ : Type} [PlanSink σ] (g : Pipeline)
    (terminals : List NodeId) (sink : σ) (config : Config) {name : String} {partitions : UInt64}
    {unit : StageUnit} {answer : Except PlanError Unit}
    (h : (.register name partitions unit, answer) ∈ g.dialogue terminals sink config) :
    ∃ i, g.CarriesCount (g.buildPlan terminals (heard []) config).2 i name partitions := by
  have hplanned : .register name partitions unit ∈ g.plannedCalls terminals config :=
    (g.follows_dialogue terminals sink config).1.map_fst.subset (List.mem_map_of_mem h)
  rw [buildPlan_eq_run]
  obtain ⟨nodes, hannounces⟩ := g.announces_plannedCalls terminals config
  obtain ⟨groups, hgroups, hnodes⟩ := hannounces.groups
  rw [hgroups, List.mem_flatten] at hplanned
  obtain ⟨calls, hcalls, hmem⟩ := hplanned
  obtain ⟨k, hk, rfl⟩ := List.mem_iff_getElem.mp hcalls
  obtain ⟨n, name', unit', inputs, hn, hname, -, -, hgroup⟩ :=
    hnodes.get (hnodes.length_eq ▸ hk) hk
  -- the one registration in the group of a node is the first call
  rw [List.get_eq_getElem] at hgroup
  simp only [hgroup, List.mem_cons, PlanCall.register.injEq, List.mem_map, reduceCtorEq, and_false,
    exists_false, or_false] at hmem
  obtain ⟨rfl, rfl, -⟩ := hmem
  refine ⟨_, hname, ?_⟩
  rw [countOf?, hn]
  rfl

/-- **The number of partitions of a node is the one that is fixed at the origin of its
spine**, after every run of operations that sets numbers of partitions only on nodes without
children.  After any run at all, a number that is set on a node, with children or without,
changes that of no other node, and the stages of a build carry the numbers that their nodes
have at that time, in a new topology and in any other sink. -/
theorem partitions_follow_spine (origin : Option Config) (ops : List Operation) {g : Pipeline}
    (hg : (blank origin).performAll ops = g) :
    ((blank origin).SizedFirst ops →
        g.FollowsSpine ((blank origin).lastSet ops) ((blank origin).lastAsked ops)) ∧
      (∀ id count g', g.setPartitions id count = .ok g' →
        ∀ i, i ≠ id → g'.countOf? i = g.countOf? i) ∧
      (∀ terminals config t g', g.buildTopology terminals config = (.ok t, g') →
        ∃ nodes, (∀ i, i ∈ nodes ↔ g.UpstreamOfAny terminals i) ∧
          List.Forall₂ (fun i st => g.CarriesCount g' i st.name st.partitions) nodes
            t.stages.toList) ∧
      ∀ {σ : Type} [PlanSink σ] (terminals : List NodeId) (sink : σ) (config : Config) name
        partitions unit answer,
        (.register name partitions unit, answer) ∈ g.dialogue terminals sink config →
          ∃ i, g.CarriesCount (g.buildPlan terminals (heard []) config).2 i name partitions := by
  subst hg
  have hwf := ((reachable_blank origin).performAll ops).wellFormed
  refine ⟨?_, ?_, ?_, ?_⟩
  · intro hfirst
    exact (sized_performAll hfirst).followsSpine hwf
  · intro id count g' hset i hi
    rw [countOf?_setPartitions hset, if_neg (Ne.symm hi)]
  · intro terminals config t g' hbuild
    exact stages_carryCount hbuild
  · intro σ _ terminals sink config name partitions unit answer hmem
    exact registration_carriesCount _ terminals sink config hmem

/-- Whether a node has children can be computed. -/
theorem childless_of_consumed {g : Pipeline} {id : NodeId} (h : g.consumed.contains id = false)
    (child : NodeId) : ¬ g.HasParent child id := by
  intro hparent
  rw [(contains_consumed_iff g id).mpr ⟨child, hparent⟩] at h
  cases h

/-- A run in which a source and a filter are resized, the source twice, a number is refused,
and a build comes before the last nodes. -/
def resized : List Operation :=
  [.edit (.source fun _ => none), .edit (.setPartitions 0 8), .edit (.setPartitions 0 6),
    .edit (.map 0 Scalar.value), .edit (.repartition 1 12), .edit (.setPartitions 1 0),
    .edit (.filter 2 fun _ => true), .edit (.setPartitions 3 5), .topology [3] default,
    .edit (.join 1 3 (.inner (.tumblingCount 1) .pair)), .edit (.map 2 Scalar.value)]

/-- The join of `Pipeline.resized` has its number of partitions from the source, through the
map on its left.  The map at the end has it from the repartition.  When the source is resized
once more, they keep it. -/
theorem partitions_follow_spine_resized :
    (blank none).SizedFirst resized ∧
      ((blank none).performAll resized).nodes.map Node.partitions = #[6, 6, 12, 5, 6, 12] ∧
      ((blank none).performAll resized).FollowsSpine ((blank none).lastSet resized)
        ((blank none).lastAsked resized) ∧
      ((blank none).performAll resized).SpineOrigin ((blank none).lastSet resized) 4 0 ∧
      ((blank none).performAll resized).SpineOrigin ((blank none).lastSet resized) 5 2 ∧
      ∃ g', ((blank none).performAll resized).setPartitions 0 9 = .ok g' ∧
        g'.countOf? 4 = ((blank none).performAll resized).countOf? 4 := by
  have hfirst : (blank none).SizedFirst resized := by
    refine ⟨?_, ?_, ?_, ?_, ?_, ?_, ?_, ?_, ?_, ?_, ?_, trivial⟩
    all_goals
      rintro id count g' hop hset
      cases hop
    case refine_6 =>
      -- the map has a child, but a node without partitions is refused
      exact absurd rfl (setPartitions_eq_ok_iff.mp hset).1
    all_goals exact childless_of_consumed (by decide +kernel)
  obtain ⟨hspine, hset, -⟩ := partitions_follow_spine none resized rfl
  have hnext : (List.range 6).map (((blank none).performAll resized).spineNext?
      ((blank none).lastSet resized)) = [none, some 0, none, none, some 1, some 2] := by
    decide +kernel
  simp only [List.range, List.range.loop, List.map_cons, List.map_nil, List.cons.injEq] at hnext
  obtain ⟨hnext₀, hnext₁, hnext₂, -, hnext₄, hnext₅, -⟩ := hnext
  refine ⟨hfirst, by decide +kernel, hspine hfirst, ?_, ?_, ?_⟩
  · exact .up hnext₄ (.up hnext₁ (.here hnext₀))
  · exact .up hnext₅ (.here hnext₂)
  · have hok : (((blank none).performAll resized).setPartitions 0 9).isOk = true := by
      decide +kernel
    cases hlate : ((blank none).performAll resized).setPartitions 0 9 with
    | ok g' => exact ⟨g', rfl, hset 0 9 g' hlate 4 (by decide)⟩
    | error e =>
      rw [hlate] at hok
      cases hok

end Pipeline
end StreamPlan

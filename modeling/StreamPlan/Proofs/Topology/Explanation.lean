import StreamPlan.Proofs.Json.Literals
import StreamPlan.Topology.Explain

/-!
# Explanations tell topologies apart

An explanation is put together from names, labels and numbers with blanks, brackets and
commas between them, and labels have blanks and commas of their own.  It can still be taken
apart, if names are words: each part of a line ends with a character that it does not
contain, or at the end of a run of digits.  So two equal lines agree part by part, from left
to right.

What an explanation shows of a stage is its `StageSummary`.  It does not show the functions
that are run and the seeds of groupings, and of a window only the label.

## Main definitions

* `StageSummary`, `Stage.summary`, `Topology.summaries` — what is shown of a stage and of a
  topology.
* `IsWord`, `Topology.InWords` — names that are words.
* `Stage.line` — the line of a stage, part by part.

## Main results

* `StageUnit.label_eq_iff` — a label shows the family, the type of a join and the label of
  its window.
* `Stage.line_eq_iff` — **lines are equal if and only if summaries are.**
* `Topology.InWords.splitOn_explain` — **an explanation has one line a stage.**
* `Topology.InWords.explain_eq_iff` — **explanations are equal if and only if the stages have
  the same summaries.**
-/

namespace StreamPlan

/-! ### Cutting equal texts -/

/-- Equal texts are cut alike at the first occurrence of a character. -/
theorem append_cons_inj {α : Type} {c : α} {a a' r r' : List α} (ha : c ∉ a) (ha' : c ∉ a') :
    a ++ c :: r = a' ++ c :: r' ↔ a = a' ∧ r = r' := by
  constructor
  · intro h
    induction a generalizing a' with
    | nil =>
      cases a' with
      | nil => exact ⟨rfl, (List.cons.inj h).2⟩
      | cons x a' =>
        cases h
        exact absurd List.mem_cons_self ha'
    | cons x a ih =>
      cases a' with
      | nil =>
        cases h
        exact absurd List.mem_cons_self ha
      | cons x' a' =>
        obtain ⟨rfl, hrest⟩ := List.cons.inj h
        obtain ⟨rfl, rfl⟩ := ih (fun hc => ha (List.mem_cons_of_mem x hc))
          (fun hc => ha' (List.mem_cons_of_mem x hc)) hrest
        exact ⟨rfl, rfl⟩
  · rintro ⟨rfl, rfl⟩
    rfl

/-- Equal texts are cut alike after the number they start with. -/
theorem toDigits_append_inj {m n : Nat} {r r' : List Char} (hr : endsNumber r = true)
    (hr' : endsNumber r' = true) :
    Nat.toDigits 10 m ++ r = Nat.toDigits 10 n ++ r' ↔ m = n ∧ r = r' := by
  constructor
  · intro h
    have hcut := congrArg NumberLiteral.digits h
    rw [NumberLiteral.digits_append (fun _ => isDigit_of_mem_toDigits (k := m)) hr,
      NumberLiteral.digits_append (fun _ => isDigit_of_mem_toDigits (k := n)) hr'] at hcut
    obtain ⟨hdigits, hrest⟩ := Prod.mk.inj hcut
    have hread := congrArg (fun cs => Nat.ofDigitChars 10 cs 0) hdigits
    simp only [Nat.ofDigitChars_ten_toDigits] at hread
    exact ⟨hread, hrest⟩
  · rintro ⟨rfl, rfl⟩
    rfl

/-- Lists are mapped alike by two functions that tell their elements apart alike. -/
theorem map_eq_map_iff {α β γ : Type} {f : α → β} {g : α → γ} {xs ys : List α}
    (h : ∀ x ∈ xs, ∀ y ∈ ys, f x = f y ↔ g x = g y) :
    xs.map f = ys.map f ↔ xs.map g = ys.map g := by
  induction xs generalizing ys with
  | nil => simp
  | cons x xs ih =>
    cases ys with
    | nil => simp
    | cons y ys =>
      have hfirst := h x List.mem_cons_self y List.mem_cons_self
      have hrest := ih fun x' hx' y' hy' =>
        h x' (List.mem_cons_of_mem x hx') y' (List.mem_cons_of_mem y hy')
      rw [List.map_cons, List.map_cons, List.map_cons, List.map_cons, List.cons.injEq,
        List.cons.injEq, hfirst, hrest]

/-! ### Words and labels -/

/-- The name is one word: there is no blank in it and no newline. -/
def IsWord (name : String) : Prop := ' ' ∉ name.toList ∧ '\n' ∉ name.toList

instance (name : String) : Decidable (IsWord name) := inferInstanceAs (Decidable (_ ∧ _))

/-- Labels are made of letters, digits, blanks, commas and slashes. -/
def isLabel (text : String) : Bool :=
  text.toList.all fun c => c.isAlphanum || c == ' ' || c == ',' || c == '/'

theorem isLabel_append (a b : String) : isLabel (a ++ b) = (isLabel a && isLabel b) := by
  simp [isLabel, String.toList_append]

theorem isLabel_toString (n : Nat) : isLabel (toString n) = true := by
  rw [isLabel, Nat.toString_eq_repr, Nat.toList_repr, List.all_eq_true]
  intro c hc
  simp [Char.isAlphanum, isDigit_of_mem_toDigits hc]

theorem not_mem_of_isLabel {text : String} (h : isLabel text = true) {c : Char}
    (hc : (c.isAlphanum || c == ' ' || c == ',' || c == '/') = false) : c ∉ text.toList := by
  intro hmem
  rw [List.all_eq_true.mp h c hmem] at hc
  cases hc

theorem toString_eq_toString_toNat (n : UInt64) : toString n = toString n.toNat := rfl

theorem Window.isLabel_label (w : Window) : isLabel w.label = true := by
  cases w <;>
    simp only [label, toString_eq_toString_toNat, isLabel_append, isLabel_toString] <;> decide

theorem Family.isLabel_label (f : Family) : isLabel f.label = true := by
  cases f <;> decide

theorem Family.isWord_label (f : Family) : IsWord f.label := by
  cases f <;> decide

namespace StageUnit

/-- What is shown of a join: its type and the label of its window. -/
def joinWords : StageUnit → Option (JoinType × String)
  | .join unit => some (unit.joinType, unit.window.label)
  | _ => none

theorem label_of_none {u : StageUnit} (h : u.joinWords = none) : u.label = u.family.label := by
  cases u with
  | source next => rfl
  | transform op => rfl
  | join unit => cases h

theorem of_joinWords_eq_some {u : StageUnit} {t : JoinType} {window : String}
    (h : u.joinWords = some (t, window)) :
    u.family = .join ∧
      u.label.toList = "join".toList ++ ' ' :: (t.label.toList ++ ',' :: ' ' :: window.toList) := by
  cases u with
  | source next => cases h
  | transform op => cases h
  | join unit =>
    cases h
    refine ⟨rfl, ?_⟩
    simp [label]

theorem isLabel_label (u : StageUnit) : isLabel u.label = true := by
  cases u with
  | source next => exact Family.source.isLabel_label
  | transform op => exact (transform op).family.isLabel_label
  | join unit =>
    have htype : isLabel unit.joinType.label = true := by cases unit.joinType <;> decide
    simp only [label, isLabel_append, htype, unit.window.isLabel_label]
    decide

/-- **A label shows the family, and of a join its type and the label of its window.** -/
theorem label_eq_iff {u u' : StageUnit} :
    u.label = u'.label ↔ u.family = u'.family ∧ u.joinWords = u'.joinWords := by
  rw [← String.toList_inj]
  cases h : u.joinWords with
  | none =>
    rw [label_of_none h]
    cases h' : u'.joinWords with
    | none => rw [label_of_none h', String.toList_inj, Family.label_inj, and_iff_left rfl]
    | some words =>
      -- only the label of a join has a blank in it
      obtain ⟨t, window⟩ := words
      obtain ⟨-, hlabel⟩ := of_joinWords_eq_some h'
      refine iff_of_false (fun heq => u.family.isWord_label.1 ?_) (by simp)
      rw [heq, hlabel]
      simp
  | some words =>
    obtain ⟨t, window⟩ := words
    obtain ⟨hfamily, hlabel⟩ := of_joinWords_eq_some h
    rw [hlabel, hfamily]
    cases h' : u'.joinWords with
    | none =>
      rw [label_of_none h']
      refine iff_of_false (fun heq => u'.family.isWord_label.1 ?_) (by simp)
      rw [← heq]
      simp
    | some words' =>
      obtain ⟨t', window'⟩ := words'
      obtain ⟨hfamily', hlabel'⟩ := of_joinWords_eq_some h'
      have hcomma : ∀ t : JoinType, ',' ∉ t.label.toList := by intro t; cases t <;> decide
      have htype : t.label = t'.label ↔ t = t' := by cases t <;> cases t' <;> decide
      rw [hlabel', hfamily', List.append_cancel_left_eq, List.cons.injEq,
        append_cons_inj (hcomma t) (hcomma t'), List.cons.injEq, String.toList_inj,
        String.toList_inj, htype]
      simp

end StageUnit

/-! ### Edges -/

namespace InputEdge

/-- What is shown of an edge: where the records come from, and the label of the grouping. -/
def summary (e : InputEdge) : String × String := (e.producer, e.grouping.kind.label)

/-- An edge in a line, if it is not the first. -/
def further (e : InputEdge) : List Char := ',' :: ' ' :: e.explain.toList

theorem toList_explain (e : InputEdge) :
    e.explain.toList =
      e.producer.toList ++ ' ' :: '(' :: (e.grouping.kind.label.toList ++ [')']) := by
  simp [explain]

theorem isLabel_label (e : InputEdge) : isLabel e.grouping.kind.label = true := by
  cases e.grouping.kind <;> simp only [GroupingKind.label] <;> decide

/-- Equal texts are cut alike after the edge they start with. -/
theorem explain_append_inj {e e' : InputEdge} (he : IsWord e.producer) (he' : IsWord e'.producer)
    {r r' : List Char} :
    e.explain.toList ++ r = e'.explain.toList ++ r' ↔ e.summary = e'.summary ∧ r = r' := by
  have hparen : ∀ e : InputEdge, ')' ∉ e.grouping.kind.label.toList := fun e =>
    not_mem_of_isLabel e.isLabel_label (by decide)
  have hshape : ∀ (e : InputEdge) (r : List Char), e.explain.toList ++ r =
      e.producer.toList ++ ' ' :: '(' :: (e.grouping.kind.label.toList ++ ')' :: r) := by
    intro e r
    simp [toList_explain]
  rw [hshape, hshape, append_cons_inj he.1 he'.1, List.cons.injEq,
    append_cons_inj (hparen e) (hparen e'), String.toList_inj, String.toList_inj, summary, summary,
    Prod.mk.injEq]
  simp [and_assoc]

/-- Edges after the first are told apart by what is shown of them. -/
theorem flatMap_further_inj {es es' : List InputEdge} (hes : ∀ e ∈ es, IsWord e.producer)
    (hes' : ∀ e ∈ es', IsWord e.producer) :
    es.flatMap further = es'.flatMap further ↔ es.map summary = es'.map summary := by
  induction es generalizing es' with
  | nil =>
    cases es' with
    | nil => simp
    | cons e' es' => simp [further]
  | cons e es ih =>
    cases es' with
    | nil => simp [further]
    | cons e' es' =>
      have hrest := ih (fun x hx => hes x (List.mem_cons_of_mem e hx))
        (fun x hx => hes' x (List.mem_cons_of_mem e' hx))
      rw [List.map_cons, List.map_cons, List.cons.injEq, ← hrest,
        ← explain_append_inj (hes e List.mem_cons_self) (hes' e' List.mem_cons_self)]
      simp [further]

/-- The part of a line that is about the inputs. -/
def inputsText : List InputEdge → List Char
  | [] => []
  | e :: es => ' ' :: '<' :: '-' :: ' ' :: (e.explain.toList ++ es.flatMap further)

theorem toList_commas_explain (e : InputEdge) (es : List InputEdge) :
    (Inspect.commas ((e :: es).map explain)).toList =
      e.explain.toList ++ es.flatMap further := by
  rw [Inspect.commas, String.toList_intercalate]
  induction es generalizing e with
  | nil => simp
  | cons e' es ih =>
    have hrest := ih e'
    simp only [List.map_cons, List.intercalate_cons_cons, List.flatMap_cons] at hrest ⊢
    rw [hrest]
    simp [further]

theorem inputsText_inj {es es' : List InputEdge} (hes : ∀ e ∈ es, IsWord e.producer)
    (hes' : ∀ e ∈ es', IsWord e.producer) :
    inputsText es = inputsText es' ↔ es.map summary = es'.map summary := by
  rw [← flatMap_further_inj hes hes']
  cases es <;> cases es' <;> simp [inputsText, further]

theorem endsNumber_inputsText (es : List InputEdge) : endsNumber (inputsText es) = true := by
  cases es <;> rfl

theorem not_mem_explain {e : InputEdge} (he : IsWord e.producer) : '\n' ∉ e.explain.toList := by
  have hlabel := not_mem_of_isLabel e.isLabel_label (c := '\n') (by decide)
  simp [toList_explain, he.2, hlabel]

theorem not_mem_inputsText {es : List InputEdge} (hes : ∀ e ∈ es, IsWord e.producer) :
    '\n' ∉ inputsText es := by
  cases es with
  | nil => simp [inputsText]
  | cons e es =>
    have hfurther : '\n' ∉ es.flatMap further := by
      intro h
      obtain ⟨x, hx, hmem⟩ := List.mem_flatMap.mp h
      refine not_mem_explain (hes x (List.mem_cons_of_mem e hx)) ?_
      simpa [further] using hmem
    simp [inputsText, not_mem_explain (hes e List.mem_cons_self), hfurther]

end InputEdge

/-! ### Lines -/

/-- What is shown of a stage. -/
structure StageSummary where
  name : String
  family : Family
  /-- The type of a join and the label of its window. -/
  join : Option (JoinType × String)
  partitions : UInt64
  /-- Each producer, with the label of the grouping. -/
  inputs : List (String × String)
  deriving DecidableEq

namespace Stage

/-- What is shown of the stage. -/
def summary (s : Stage) : StageSummary where
  name := s.name
  family := s.unit.family
  join := s.unit.joinWords
  partitions := s.partitions
  inputs := s.inputs.map InputEdge.summary

/-- The names in the line of the stage are words. -/
def InWords (s : Stage) : Prop := IsWord s.name ∧ ∀ e ∈ s.inputs, IsWord e.producer

/-- The line of the stage, without the newline. -/
def line (s : Stage) : List Char :=
  s.name.toList ++ ' ' :: '[' :: (s.unit.label.toList ++ ']' :: ' ' :: 'x' ::
    (Nat.toDigits 10 s.partitions.toNat ++ InputEdge.inputsText s.inputs))

theorem toList_explain (s : Stage) : s.explain.toList = s.line ++ ['\n'] := by
  rw [explain, line, toString_eq_toString_toNat]
  cases hinputs : s.inputs with
  | nil => simp [InputEdge.inputsText]
  | cons e es => simp [InputEdge.inputsText, ← InputEdge.toList_commas_explain]

theorem not_mem_line {s : Stage} (h : s.InWords) : '\n' ∉ s.line := by
  have hlabel := not_mem_of_isLabel s.unit.isLabel_label (c := '\n') (by decide)
  have hdigits : '\n' ∉ Nat.toDigits 10 s.partitions.toNat := fun hc =>
    absurd (isDigit_of_mem_toDigits hc) (by decide)
  simp [line, h.1.2, hlabel, hdigits, InputEdge.not_mem_inputsText h.2]

/-- **Lines are equal if and only if summaries are.** -/
theorem line_eq_iff {s s' : Stage} (h : s.InWords) (h' : s'.InWords) :
    s.line = s'.line ↔ s.summary = s'.summary := by
  have hbracket : ∀ u : StageUnit, ']' ∉ u.label.toList := fun u =>
    not_mem_of_isLabel u.isLabel_label (by decide)
  -- from left to right: the name, the label, the number and the inputs
  rw [line, line, append_cons_inj h.1.1 h'.1.1, List.cons.injEq,
    append_cons_inj (hbracket s.unit) (hbracket s'.unit), List.cons.injEq, List.cons.injEq,
    toDigits_append_inj (InputEdge.endsNumber_inputsText _) (InputEdge.endsNumber_inputsText _),
    InputEdge.inputsText_inj h.2 h'.2, String.toList_inj, String.toList_inj,
    StageUnit.label_eq_iff, UInt64.toNat_inj, summary, summary, StageSummary.mk.injEq]
  simp [and_assoc]

end Stage

/-! ### Topologies -/

namespace Topology

/-- All names are words. -/
def InWords (t : Topology) : Prop := ∀ s ∈ t.stages, s.InWords

/-- What is shown of a topology. -/
def summaries (t : Topology) : List StageSummary := t.stages.toList.map Stage.summary

theorem toList_explain (t : Topology) :
    t.explain.toList = ['\n'].intercalate (t.stages.toList.map Stage.line ++ [[]]) := by
  rw [explain, String.toList_join]
  induction t.stages.toList with
  | nil => simp
  | cons s stages ih =>
    rw [List.map_cons, List.flatMap_cons, ih, Stage.toList_explain]
    cases stages <;> simp [List.intercalate_cons_cons]

/-- **An explanation has one line a stage, each ended by a newline.** -/
theorem InWords.splitOn_explain {t : Topology} (h : t.InWords) :
    t.explain.toList.splitOn '\n' = t.stages.toList.map Stage.line ++ [[]] := by
  rw [toList_explain]
  refine List.splitOn_intercalate '\n' ?_ (by simp)
  intro line hline
  rw [List.mem_append, List.mem_map, List.mem_singleton] at hline
  obtain ⟨s, hs, rfl⟩ | rfl := hline
  · exact Stage.not_mem_line (h s (Array.mem_toList_iff.mp hs))
  · exact List.not_mem_nil

/-- **Explanations are equal if and only if the stages have the same summaries.** -/
theorem InWords.explain_eq_iff {t u : Topology} (ht : t.InWords) (hu : u.InWords) :
    t.explain = u.explain ↔ t.summaries = u.summaries := by
  have hlines : t.explain = u.explain ↔
      t.stages.toList.map Stage.line = u.stages.toList.map Stage.line := by
    constructor
    · intro h
      have hsplit := ht.splitOn_explain
      rw [h, hu.splitOn_explain] at hsplit
      exact (List.append_cancel_right hsplit).symm
    · intro h
      rw [← String.toList_inj, toList_explain, toList_explain, h]
  rw [hlines, summaries, summaries]
  exact map_eq_map_iff fun s hs s' hs' =>
    Stage.line_eq_iff (ht s (Array.mem_toList_iff.mp hs)) (hu s' (Array.mem_toList_iff.mp hs'))

end Topology

end StreamPlan

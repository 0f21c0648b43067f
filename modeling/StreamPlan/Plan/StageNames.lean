import Std.Data.TreeMap
import Std.Data.TreeSet
import StreamPlan.Error

/-!
# Stage names

The names taken during one build.  A node without a name of its own gets the first
free one of its family: the word for the family followed by 1, 2, and so on.

Names are never released.  So for each word the numbers below the last one found
free stay taken, and the next search may start there: the floor of the word.  It
saves time and never changes an answer.

## Main definitions

* `StageNames` — the taken names and the floors.
* `StageNames.commit` — takes a name.
* `StageNames.allocate` — finds the first free name of a word, without taking it.

## Main results

* `StageNames.contains_insert`, `StageNames.contains_allocate` — which names are
  taken afterwards.
* `StageNames.numbered_inj` — different numbers give different names.
-/

namespace StreamPlan

/-- The names taken during one build. -/
structure StageNames where
  /-- Users' names and numbered ones alike. -/
  taken : Std.TreeSet String
  /-- For some words, a number below which all numbered names are taken. -/
  floors : Std.TreeMap String Nat

namespace StageNames

/-- No names. -/
def empty : StageNames := ⟨∅, ∅⟩

instance : Inhabited StageNames := ⟨empty⟩

/-- The name is taken. -/
def contains (s : StageNames) (name : String) : Bool := s.taken.contains name

/-- The number of taken names. -/
def size (s : StageNames) : Nat := s.taken.size

/-- The taken names in increasing order. -/
def toList (s : StageNames) : List String := s.taken.toList

/-- Takes a name. -/
def insert (s : StageNames) (name : String) : StageNames :=
  { s with taken := s.taken.insert name }

@[simp] theorem contains_empty (name : String) : empty.contains name = false := by
  simp [empty, contains]

@[simp] theorem contains_insert (s : StageNames) (name other : String) :
    (s.insert name).contains other = (name == other || s.contains other) := by
  have same : (compare name other == .eq) = (name == other) := by
    rw [Bool.eq_iff_iff]
    simp
  simp only [insert, contains, Std.TreeSet.contains_insert, same]

/-- Takes a name that must be free. -/
def commit (s : StageNames) (name : String) : Except PlanError StageNames :=
  if s.contains name then .error (.duplicateName name) else .ok (s.insert name)

/-- Exactly a free name can be taken. -/
theorem commit_eq_ok_iff {s t : StageNames} {name : String} :
    s.commit name = .ok t ↔ s.contains name = false ∧ t = s.insert name := by
  unfold commit
  split <;> rename_i h
  · simp [h]
  · simp [h, eq_comm (a := t)]

/-- A word with a number. -/
def numbered (stem : String) (n : Nat) : String := stem ++ toString n

/-- Different numbers give different names. -/
theorem numbered_inj {stem : String} {m n : Nat} : numbered stem m = numbered stem n ↔ m = n := by
  refine ⟨fun h => ?_, fun h => h ▸ rfl⟩
  -- Without the common word the digits agree, and digits are read back as the number.
  have digits := List.append_cancel_left
    (by simpa only [numbered, String.toList_append] using congrArg String.toList h)
  simpa [Nat.toString_eq_ofList_toDigits] using
    congrArg (fun cs => Nat.ofDigitChars 10 cs 0) digits

/-- Where the search for a word starts. -/
def floor (s : StageNames) (stem : String) : Nat := s.floors.getD stem 1

/-- The first number from `n` on whose name is free, among at most `steps` and the
one after them. -/
def firstFree (s : StageNames) (stem : String) : Nat → Nat → Nat
  | 0, n => n
  | steps + 1, n => if s.contains (numbered stem n) then firstFree s stem steps (n + 1) else n

/-- The first free name of a word, and the names with the floor raised to it.  Of
one more numbers than there are names, one is free. -/
def allocate (s : StageNames) (stem : String) : String × StageNames :=
  let n := s.firstFree stem s.size (s.floor stem)
  (numbered stem n, { s with floors := s.floors.insert stem n })

@[simp] theorem contains_allocate (s : StageNames) (stem name : String) :
    (s.allocate stem).2.contains name = s.contains name := rfl

end StageNames

end StreamPlan

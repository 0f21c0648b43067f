import Mathlib.Order.Bounds.Basic
import StreamPlan.Proofs.Plan.FreeNames

/-!
# The search for a name is the plain scan

The first free name of a word is the one that a scan from 1 finds.  The search starts at
the floor of the word instead, and moves the floor even if the name is not taken in the
end.  Names of one word can also be taken through another word (`a1` with 1 is `a` with
11) or given by a user in any order.  All the same a floor never lies: every number below
it is taken, whatever was asked for before.

So floors can be forgotten.  Two sets of names with the same names taken, and with
floors that do not lie, give the same answers to all requests that follow.

## Main definitions

* `StageNames.Scan` — a scan for a free number, step by step, and where it ends.
* `StageNames.FloorsHold` — every number below a floor is taken.
* `StageNames.Request`, `StageNames.serve`, `StageNames.serveAll`,
  `StageNames.ofRequests` — requests in a row.

## Main results

* `StageNames.scan_iff` — **a scan ends at the least free number.**
* `StageNames.FloorsHold.serve` — **no request makes a floor lie.**
* `StageNames.FloorsHold.serveAll_congr` — **floors do not change answers.**
* `StageNames.allocate_eq_scan` — **whatever was asked for before, the name found is the
  one that a scan from 1 ends at, and finding it changes no later answer.**
-/

namespace StreamPlan
namespace StageNames

/-! ### Scans -/

/-- A scan for a free number of a word: it stops at a free number and goes on from a
taken one.  That there is an end is part of it. -/
inductive Scan (s : StageNames) (stem : String) : Nat → Nat → Prop where
  /-- The number is free. -/
  | stop {n : Nat} (free : s.contains (numbered stem n) = false) : Scan s stem n n
  /-- The number is taken, so the next one is looked at. -/
  | next {n m : Nat} (taken : s.contains (numbered stem n) = true)
      (rest : Scan s stem (n + 1) m) : Scan s stem n m

theorem scan_of_taken {s : StageNames} {stem : String} {n m : Nat} (hle : n ≤ m)
    (hfree : s.contains (numbered stem m) = false)
    (htaken : ∀ k, n ≤ k → k < m → s.contains (numbered stem k) = true) : s.Scan stem n m := by
  -- On the distance that is left.
  induction hd : m - n generalizing n with
  | zero =>
    have heq : n = m := by omega
    rw [heq]
    exact .stop hfree
  | succ d ih =>
    refine .next (htaken n (Nat.le_refl n) (by omega)) ?_
    exact ih (by omega) (fun k hk hlt => htaken k (by omega) hlt) (by omega)

/-- **A scan ends at the first number that is free, and only there.** -/
theorem scan_iff {s : StageNames} {stem : String} {n m : Nat} :
    s.Scan stem n m ↔ n ≤ m ∧ s.contains (numbered stem m) = false ∧
      ∀ k, n ≤ k → k < m → s.contains (numbered stem k) = true := by
  constructor
  · intro h
    induction h with
    | stop hfree => exact ⟨Nat.le_refl _, hfree, fun k hk hlt => by omega⟩
    | next htaken _ ih =>
      obtain ⟨hle, hfree, hall⟩ := ih
      refine ⟨by omega, hfree, ?_⟩
      intro k hk hlt
      rcases Nat.eq_or_lt_of_le hk with rfl | hk
      · exact htaken
      · exact hall k hk hlt
  · rintro ⟨hle, hfree, hall⟩
    exact scan_of_taken hle hfree hall

theorem Scan.eq {s s' : StageNames} {stem : String} {n m m' : Nat}
    (hsame : ∀ name, s'.contains name = s.contains name) (h : s.Scan stem n m)
    (h' : s'.Scan stem n m') : m' = m := by
  simp only [scan_iff, hsame] at h h'
  obtain ⟨hle, hfree, htaken⟩ := h
  obtain ⟨hle', hfree', htaken'⟩ := h'
  rcases Nat.lt_trichotomy m m' with hlt | rfl | hlt
  · rw [htaken' m hle hlt] at hfree
    cases hfree
  · rfl
  · rw [htaken m' hle' hlt] at hfree'
    cases hfree'

/-- The search ends where the scan from its floor does. -/
theorem scan_floor (s : StageNames) (stem : String) :
    s.Scan stem (s.floor stem) (s.firstFree stem s.size (s.floor stem)) :=
  scan_of_taken (s.le_firstFree ..) (s.contains_fst_allocate stem)
    fun _ hk hlt => s.contains_of_lt_firstFree stem hk hlt

/-- Fewer numbers are passed over than there are names. -/
theorem Scan.le_size {s : StageNames} {stem : String} {n : Nat} (h : s.Scan stem 1 n) :
    n ≤ s.size + 1 := by
  obtain ⟨hle, -, htaken⟩ := scan_iff.mp h
  have hcount : n - 1 ≤ s.size :=
    s.length_le_size_of_contains stem fun k (hk : 1 ≤ k) hlt => htaken k hk (by omega)
  omega

/-! ### Floors -/

/-- Every number below a floor is taken. -/
structure FloorsHold (s : StageNames) : Prop where
  one_le : ∀ stem, 1 ≤ s.floor stem
  taken : ∀ stem k, 1 ≤ k → k < s.floor stem → s.contains (numbered stem k) = true

theorem floorsHold_empty : empty.FloorsHold where
  one_le := by simp [empty, floor]
  taken := by
    intro stem k hk hlt
    simp only [empty, floor, Std.TreeMap.getD_emptyc] at hlt
    omega

/-- A scan from 1 comes to the floor and goes on from there. -/
theorem FloorsHold.scan_one {s : StageNames} (h : s.FloorsHold) (stem : String) :
    s.Scan stem 1 (s.firstFree stem s.size (s.floor stem)) := by
  obtain ⟨hle, hfree, htaken⟩ := scan_iff.mp (s.scan_floor stem)
  refine scan_of_taken (Nat.le_trans (h.one_le stem) hle) hfree ?_
  intro k hk hlt
  by_cases hbelow : k < s.floor stem
  · exact h.taken stem k hk hbelow
  · exact htaken k (by omega) hlt

/-- The name found has the least number that is free. -/
theorem FloorsHold.exists_isLeast {s : StageNames} (h : s.FloorsHold) (stem : String) :
    ∃ n, (s.allocate stem).1 = numbered stem n ∧
      IsLeast {k | 1 ≤ k ∧ s.contains (numbered stem k) = false} n := by
  obtain ⟨hle, hfree, htaken⟩ := scan_iff.mp (h.scan_one stem)
  refine ⟨_, rfl, ⟨hle, hfree⟩, ?_⟩
  rintro k ⟨hk, hnot⟩
  by_contra hlt
  rw [htaken k hk (by omega)] at hnot
  cases hnot

theorem FloorsHold.insert {s : StageNames} (h : s.FloorsHold) (name : String) :
    (s.insert name).FloorsHold where
  one_le := h.one_le
  taken := by
    intro stem k hk hlt
    rw [contains_insert, h.taken stem k hk hlt, Bool.or_true]

theorem FloorsHold.allocate {s : StageNames} (h : s.FloorsHold) (stem : String) :
    (s.allocate stem).2.FloorsHold where
  one_le := one_le_floor_allocate h.one_le stem
  taken := by
    intro other k hk hlt
    rw [contains_allocate]
    rw [floor_allocate] at hlt
    split at hlt
    · next heq =>
      subst heq
      exact (scan_iff.mp (h.scan_one stem)).2.2 k hk hlt
    · exact h.taken other k hk hlt

/-! ### Requests -/

/-- What can be asked of a set of names. -/
inductive Request where
  /-- Take a name. -/
  | commit (name : String)
  /-- Find the first free name of a word. -/
  | allocate (stem : String)

/-- The answer to a request and the names after it, whether or not it was refused. -/
def serve (s : StageNames) : Request → Except PlanError String × StageNames
  | .commit name =>
    match s.commit name with
    | .ok s' => (.ok name, s')
    | .error e => (.error e, s)
  | .allocate stem => (.ok (s.allocate stem).1, (s.allocate stem).2)

/-- The answers to requests in a row, and the names after them. -/
def serveAll (s : StageNames) : List Request → List (Except PlanError String) × StageNames
  | [] => ([], s)
  | request :: requests =>
    ((s.serve request).1 :: ((s.serve request).2.serveAll requests).1,
      ((s.serve request).2.serveAll requests).2)

/-- The names after requests in a row, from none. -/
def ofRequests (requests : List Request) : StageNames := (empty.serveAll requests).2

/-- A name is taken after a request if it was before or if it was asked for. -/
theorem contains_serve (s : StageNames) (request : Request) (name : String) :
    (s.serve request).2.contains name = true ↔
      s.contains name = true ∨ request = .commit name := by
  cases request with
  | commit other =>
    simp only [serve, commit]
    by_cases htaken : s.contains other = true
    · rw [if_pos htaken]
      constructor
      · exact .inl
      · rintro (hmem | heq)
        · exact hmem
        · cases heq
          exact htaken
    · rw [if_neg htaken]
      simp only [contains_insert, Bool.or_eq_true, beq_iff_eq, Request.commit.injEq]
      exact or_comm
  | allocate stem => simp [serve]

theorem contains_serveAll (s : StageNames) (requests : List Request) (name : String) :
    (s.serveAll requests).2.contains name = true ↔
      s.contains name = true ∨ .commit name ∈ requests := by
  induction requests generalizing s with
  | nil => simp [serveAll]
  | cons request requests ih =>
    rw [serveAll, ih, contains_serve, List.mem_cons, or_assoc, eq_comm (a := request)]

/-- **No request makes a floor lie.** -/
theorem FloorsHold.serve {s : StageNames} (h : s.FloorsHold) (request : Request) :
    (s.serve request).2.FloorsHold := by
  cases request with
  | commit name =>
    simp only [StageNames.serve, commit]
    split
    · next heq =>
      obtain ⟨-, rfl⟩ := commit_eq_ok_iff.mp heq
      exact h.insert name
    · exact h
  | allocate stem => exact h.allocate stem

theorem FloorsHold.serveAll {s : StageNames} (h : s.FloorsHold) (requests : List Request) :
    (s.serveAll requests).2.FloorsHold := by
  induction requests generalizing s with
  | nil => exact h
  | cons request requests ih => exact ih (h.serve request)

/-- With floors that do not lie, an answer depends on the taken names only. -/
theorem FloorsHold.serve_congr {s s' : StageNames} (h : s.FloorsHold) (h' : s'.FloorsHold)
    (htaken : s'.taken = s.taken) (request : Request) :
    (s'.serve request).1 = (s.serve request).1 ∧
      (s'.serve request).2.taken = (s.serve request).2.taken := by
  have hsame : ∀ name, s'.contains name = s.contains name := by
    intro name
    rw [contains, htaken, contains]
  cases request with
  | commit name =>
    simp only [StageNames.serve, commit, hsame]
    by_cases hmem : s.contains name = true
    · rw [if_pos hmem, if_pos hmem]
      exact ⟨rfl, htaken⟩
    · rw [if_neg hmem, if_neg hmem]
      exact ⟨rfl, congrArg (·.insert name) htaken⟩
  | allocate stem =>
    have hend := Scan.eq hsame (h.scan_one stem) (h'.scan_one stem)
    exact ⟨congrArg (fun n => Except.ok (numbered stem n)) hend, htaken⟩

/-- **Floors do not change answers.** -/
theorem FloorsHold.serveAll_congr {s s' : StageNames} (h : s.FloorsHold) (h' : s'.FloorsHold)
    (htaken : s'.taken = s.taken) (requests : List Request) :
    (s'.serveAll requests).1 = (s.serveAll requests).1 := by
  induction requests generalizing s s' with
  | nil => rfl
  | cons request requests ih =>
    obtain ⟨hanswer, htaken⟩ := h.serve_congr h' htaken request
    rw [StageNames.serveAll, StageNames.serveAll, hanswer,
      ih (h.serve request) (h'.serve request) htaken]

/-- **Whatever was asked for before, the name found for a word is the one that a scan
from 1 ends at: that of the least number whose name was not asked for.  It is at most one
more than the number of names, so it fits a word of 64 bits.  Finding it takes no name and
changes no later answer.** -/
theorem allocate_eq_scan (requests : List Request) (stem : String) :
    ∃ n, ((ofRequests requests).allocate stem).1 = numbered stem n ∧
      (ofRequests requests).Scan stem ((ofRequests requests).floor stem) n ∧
      (ofRequests requests).Scan stem 1 n ∧
      IsLeast {k | 1 ≤ k ∧ .commit (numbered stem k) ∉ requests} n ∧
      n ≤ (ofRequests requests).size + 1 ∧
      ((ofRequests requests).size < UInt64.size - 1 → n < UInt64.size) ∧
      ((ofRequests requests).allocate stem).2.taken = (ofRequests requests).taken ∧
      ∀ later : List Request,
        (((ofRequests requests).allocate stem).2.serveAll later).1 =
          ((ofRequests requests).serveAll later).1 := by
  have hfloors : (ofRequests requests).FloorsHold := floorsHold_empty.serveAll requests
  have hasked : ∀ name, (ofRequests requests).contains name = true ↔
      .commit name ∈ requests := by
    intro name
    rw [ofRequests, contains_serveAll, contains_empty]
    simp
  generalize ofRequests requests = s at hfloors hasked ⊢
  have hscan := hfloors.scan_one stem
  have hbound := hscan.le_size
  obtain ⟨hle, hfree, htaken⟩ := scan_iff.mp hscan
  refine ⟨_, rfl, s.scan_floor stem, hscan, ⟨⟨hle, ?_⟩, ?_⟩, hbound, ?_, rfl,
    hfloors.serveAll_congr (hfloors.allocate stem) rfl⟩
  · rw [← hasked, hfree]
    exact Bool.false_ne_true
  · -- A smaller number would have been passed over, and so was asked for.
    rintro k ⟨hk, hnot⟩
    by_contra hlt
    exact hnot ((hasked _).mp (htaken k hk (by omega)))
  · intro hfew
    omega

/-- Names taken out of order and through another word, and a name that was found and not
taken. -/
example : (empty.serveAll [.commit "a11", .allocate "a", .commit "a2", .allocate "a1",
      .commit "a1", .commit "a2", .allocate "a", .allocate "a1"]).1.map Except.toOption
    = [some "a11", some "a1", some "a2", some "a12", some "a1", none, some "a3", some "a12"] := by
  decide +kernel

end StageNames
end StreamPlan

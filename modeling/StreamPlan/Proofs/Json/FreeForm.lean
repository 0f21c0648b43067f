import StreamPlan.Proofs.Json.ReadBack

/-!
# Free-form values

A free-form value is kept with the keys of every object in increasing order, each once.
This form is stable: bringing a value that has it into it again changes nothing, so a
free-form value that was written down and read back is the one that was written.  A value
that can be used, or read back, still can in this form.

## Main definitions

* `Json.Ascending` — the keys of fields increase.

## Main results

* `Json.ascending_sortedFields` — **the keys of a free-form object increase.**
* `Json.sorted_sorted` — **the form of a free-form value is stable.**
* `Json.isExact_sorted`, `Json.fits_sorted` — what the form keeps.
-/

namespace StreamPlan
namespace Json

/-! ### Fields in increasing order -/

/-- The keys increase. -/
def Ascending (fields : List (String × Json)) : Prop := fields.Pairwise fun f g => f.1 < g.1

theorem mem_putField {key : String} {value : Json} {fields : List (String × Json)}
    {f : String × Json} (h : f ∈ putField key value fields) : f = (key, value) ∨ f ∈ fields := by
  induction fields with
  | nil => exact .inl (List.mem_singleton.mp h)
  | cons field rest ih =>
    rw [putField] at h
    split at h
    · exact List.mem_cons.mp h
    · split at h
      · rcases List.mem_cons.mp h with rfl | h
        · exact .inr List.mem_cons_self
        · exact (ih h).imp_right (List.mem_cons_of_mem _)
      · exact (List.mem_cons.mp h).imp_right (List.mem_cons_of_mem _)

theorem Ascending.putField {fields : List (String × Json)} (h : Ascending fields) (key : String)
    (value : Json) : Ascending (putField key value fields) := by
  induction fields with
  | nil => exact List.pairwise_singleton ..
  | cons field rest ih =>
    obtain ⟨k, v⟩ := field
    obtain ⟨hfirst, hrest⟩ := List.pairwise_cons.mp h
    rw [Json.putField]
    split
    · next hlt =>
      refine List.pairwise_cons.mpr ⟨?_, h⟩
      intro f hf
      rcases List.mem_cons.mp hf with rfl | hf
      · exact hlt
      · exact String.lt_trans hlt (hfirst f hf)
    · next hnot =>
      split
      · next hgt =>
        refine List.pairwise_cons.mpr ⟨?_, ih hrest⟩
        intro f hf
        rcases mem_putField hf with rfl | hf
        · exact hgt
        · exact hfirst f hf
      · next hnot' =>
        have heq : key = k := String.le_antisymm hnot' hnot
        subst heq
        exact List.pairwise_cons.mpr ⟨hfirst, hrest⟩

/-- A key beyond all others goes to the end. -/
theorem putField_of_lt {key : String} {value : Json} {fields : List (String × Json)}
    (h : ∀ f ∈ fields, f.1 < key) : putField key value fields = fields ++ [(key, value)] := by
  induction fields with
  | nil => rfl
  | cons field rest ih =>
    have hlt : field.1 < key := h field List.mem_cons_self
    have hnot : ¬ key < field.1 := fun hgt => String.lt_irrefl key (String.lt_trans hgt hlt)
    rw [putField, if_neg hnot, if_pos hlt,
      ih fun f hf => h f (List.mem_cons_of_mem field hf), List.cons_append]

/-- **The keys of a free-form object increase.** -/
theorem ascending_sortedFields {done : List (String × Json)} (h : Ascending done)
    (fields : List (String × Json)) : Ascending (sortedFields done fields) := by
  induction fields generalizing done with
  | nil => exact h
  | cons field rest ih =>
    rw [sortedFields]
    exact ih (h.putField _ _)

theorem mem_sortedFields {done fields : List (String × Json)} {f : String × Json}
    (h : f ∈ sortedFields done fields) : f ∈ done ∨ ∃ g ∈ fields, f.2 = g.2.sorted := by
  induction fields generalizing done with
  | nil => exact .inl h
  | cons field rest ih =>
    rw [sortedFields] at h
    rcases ih h with hdone | ⟨g, hg, hvalue⟩
    · rcases mem_putField hdone with rfl | hdone
      · exact .inr ⟨field, List.mem_cons_self, rfl⟩
      · exact .inl hdone
    · exact .inr ⟨g, List.mem_cons_of_mem field hg, hvalue⟩

/-- Fields that are in order stay as they are. -/
theorem sortedFields_of_ascending {done fields : List (String × Json)}
    (h : Ascending (done ++ fields)) (hvalues : ∀ f ∈ fields, f.2.sorted = f.2) :
    sortedFields done fields = done ++ fields := by
  induction fields generalizing done with
  | nil => rw [sortedFields, List.append_nil]
  | cons field rest ih =>
    have hbeyond : ∀ f ∈ done, f.1 < field.1 := fun f hf =>
      (List.pairwise_append.mp h).2.2 f hf field List.mem_cons_self
    have hmoved : done ++ field :: rest = (done ++ [field]) ++ rest := by simp
    rw [sortedFields, hvalues field List.mem_cons_self, putField_of_lt hbeyond, hmoved]
    rw [hmoved] at h
    exact ih h fun f hf => hvalues f (List.mem_cons_of_mem field hf)

theorem sortedItems_eq_map (items : List Json) : sortedItems items = items.map sorted := by
  induction items with
  | nil => rfl
  | cons item rest ih => rw [sortedItems, ih, List.map_cons]

/-- **The form of a free-form value is stable.** -/
theorem sorted_sorted (v : Json) : v.sorted.sorted = v.sorted := by
  induction v using inductionOn with
  | null => rfl
  | bool b => rfl
  | num n => rfl
  | str s => rfl
  | unreadable => rfl
  | arr items ih =>
    simp only [sorted, sortedItems_eq_map, List.map_map]
    exact congrArg arr (List.map_congr_left ih)
  | obj fields ih =>
    simp only [sorted]
    rw [sortedFields_of_ascending, List.nil_append]
    · exact ascending_sortedFields List.Pairwise.nil fields
    · intro f hf
      rcases mem_sortedFields hf with hdone | ⟨g, hg, hvalue⟩
      · cases hdone
      · rw [hvalue, ih g hg]

/-! ### What the form keeps -/

theorem isExact_sorted {v : Json} (h : v.isExact = true) : v.sorted.isExact = true := by
  induction v using inductionOn with
  | null => exact h
  | bool b => exact h
  | num n => exact h
  | str s => exact h
  | unreadable => exact h
  | arr items ih =>
    have hitems := isExactItems_iff.mp h
    simp only [sorted, isExact, sortedItems_eq_map, isExactItems_iff, List.mem_map]
    rintro _ ⟨item, hitem, rfl⟩
    exact ih item hitem (hitems item hitem)
  | obj fields ih =>
    have hfields := isExactFields_iff.mp h
    simp only [sorted, isExact, isExactFields_iff]
    intro f hf
    rcases mem_sortedFields hf with hdone | ⟨g, hg, hvalue⟩
    · cases hdone
    · rw [hvalue]
      exact ih g hg (hfields g hg)

theorem fitsItems_iff {depth : Nat} {items : List Json} :
    fitsItems depth items = true ↔ ∀ item ∈ items, item.fits depth = true := by
  induction items with
  | nil => simp [fitsItems]
  | cons item rest ih => simp [fitsItems, ih]

theorem fitsFields_iff {depth : Nat} {fields : List (String × Json)} :
    fitsFields depth fields = true ↔ ∀ field ∈ fields, field.2.fits depth = true := by
  induction fields with
  | nil => simp [fitsFields]
  | cons field rest ih => simp [fitsFields, ih]

theorem fits_sorted {depth : Nat} {v : Json} (h : v.fits depth = true) :
    v.sorted.fits depth = true := by
  induction v using inductionOn generalizing depth with
  | null => exact h
  | bool b => exact h
  | num n => exact h
  | str s => exact h
  | unreadable => exact h
  | arr items ih =>
    simp only [fits, Bool.and_eq_true, fitsItems_iff] at h
    simp only [sorted, fits, Bool.and_eq_true, sortedItems_eq_map, fitsItems_iff, List.mem_map]
    refine ⟨h.1, ?_⟩
    rintro _ ⟨item, hitem, rfl⟩
    exact ih item hitem (h.2 item hitem)
  | obj fields ih =>
    simp only [fits, Bool.and_eq_true, fitsFields_iff] at h
    simp only [sorted, fits, Bool.and_eq_true, fitsFields_iff]
    refine ⟨h.1, ?_⟩
    intro f hf
    rcases mem_sortedFields hf with hdone | ⟨g, hg, hvalue⟩
    · cases hdone
    · rw [hvalue]
      exact ih g hg (h.2 g hg)

end Json
end StreamPlan

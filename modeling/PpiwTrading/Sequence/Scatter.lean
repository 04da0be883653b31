import Mathlib

/-!
# Filling a table by scattered writes

A table has rows of one length and is filled by writes to single slots.  When
every write puts into its slot what a function says about the slot, and every
slot is written, the table is the table of the function, whatever the order of
the writes is and whatever the table held before.
-/

namespace PpiwTrading.Sequence

universe u v

variable {α : Type u} {ι : Type v}

/-- Write to one slot of a table; `none` when there is no such slot. -/
def writeSlot (rows : List (List α)) (row column : Nat) (value : α) : Option (List (List α)) :=
  match rows[row]? with
  | none => none
  | some content =>
      if column < content.length then some (rows.set row (content.set column value)) else none

/-- The table of a function. -/
def table (height width : Nat) (f : Nat → Nat → α) : List (List α) :=
  (List.range height).map fun row => (List.range width).map (f row)

theorem table_congr {height width : Nat} {f g : Nat → Nat → α}
    (agree : ∀ row < height, ∀ column < width, f row column = g row column) :
    table height width f = table height width g := by
  apply List.map_congr_left
  intro row rowBelow
  apply List.map_congr_left
  intro column columnBelow
  exact agree row (List.mem_range.mp rowBelow) column (List.mem_range.mp columnBelow)

theorem table_const (height width : Nat) (value : α) :
    table height width (fun _ _ => value) =
      List.replicate height (List.replicate width value) := by
  simp [table, List.map_const']

theorem getElem?_table {height width : Nat} (f : Nat → Nat → α) {row : Nat}
    (below : row < height) :
    (table height width f)[row]? = some ((List.range width).map (f row)) := by
  rw [table, List.getElem?_map, List.getElem?_range below]
  rfl

/-- A write inside a table changes the function at one slot. -/
theorem writeSlot_table {height width row column : Nat} (f : Nat → Nat → α) (value : α)
    (rowBelow : row < height) (columnBelow : column < width) :
    writeSlot (table height width f) row column value =
      some (table height width fun r c => if r = row ∧ c = column then value else f r c) := by
  rw [writeSlot, getElem?_table f rowBelow]
  simp only [List.length_map, List.length_range, columnBelow, if_true]
  congr 1
  apply List.ext_getElem
  · simp [table]
  · intro r _ _
    by_cases sameRow : r = row
    · subst sameRow
      apply List.ext_getElem
      · simp [table]
      · intro c _ _
        by_cases sameColumn : c = column
        · subst sameColumn
          simp [table]
        · simp [table, sameColumn, Ne.symm sameColumn]
    · simp [table, sameRow, Ne.symm sameRow]

section Fold

variable {height width : Nat} (row column : ι → Nat) (f : Nat → Nat → α)
  {step : List (List α) → ι → Option (List (List α))}

/-- Writes that agree with a function `f` fill in `f` wherever they write. -/
theorem foldlM_writeSlot (g : Nat → Nat → α) {writes : List ι}
    (stepWrites : ∀ w ∈ writes, ∀ rows,
      step rows w = writeSlot rows (row w) (column w) (f (row w) (column w)))
    (inside : ∀ w ∈ writes, row w < height ∧ column w < width) :
    writes.foldlM step (table height width g) =
      some (table height width fun r c =>
        if ∃ w ∈ writes, row w = r ∧ column w = c then f r c else g r c) := by
  induction writes generalizing g with
  | nil => simp
  | cons first rest inductionHypothesis =>
      have insideFirst := inside first (List.mem_cons_self ..)
      have insideRest : ∀ w ∈ rest, row w < height ∧ column w < width :=
        fun w member => inside w (List.mem_cons_of_mem _ member)
      rw [List.foldlM_cons, stepWrites first (List.mem_cons_self ..),
        writeSlot_table g _ insideFirst.1 insideFirst.2]
      change List.foldlM _ (table height width _) rest = _
      rw [inductionHypothesis _
        (fun w member => stepWrites w (List.mem_cons_of_mem _ member)) insideRest]
      congr 1
      apply table_congr
      intro r _ c _
      by_cases later : ∃ w ∈ rest, row w = r ∧ column w = c
      · have written : ∃ w ∈ first :: rest, row w = r ∧ column w = c := by
          rcases later with ⟨w, member, same⟩
          exact ⟨w, List.mem_cons_of_mem _ member, same⟩
        rw [if_pos later, if_pos written]
      · rw [if_neg later]
        by_cases now : r = row first ∧ c = column first
        · have written : ∃ w ∈ first :: rest, row w = r ∧ column w = c :=
            ⟨first, List.mem_cons_self .., now.1.symm, now.2.symm⟩
          rw [if_pos now, if_pos written, now.1, now.2]
        · have unwritten : ¬ ∃ w ∈ first :: rest, row w = r ∧ column w = c := by
            rintro ⟨w, member, sameRow, sameColumn⟩
            rcases List.mem_cons.mp member with rfl | member
            · exact now ⟨sameRow.symm, sameColumn.symm⟩
            · exact later ⟨w, member, sameRow, sameColumn⟩
          rw [if_neg now, if_neg unwritten]

/-- Writes to all slots that agree with a function leave its table. -/
theorem foldlM_writeSlot_eq_table (g : Nat → Nat → α) {writes : List ι}
    (stepWrites : ∀ w ∈ writes, ∀ rows,
      step rows w = writeSlot rows (row w) (column w) (f (row w) (column w)))
    (inside : ∀ w ∈ writes, row w < height ∧ column w < width)
    (everySlot : ∀ r < height, ∀ c < width, ∃ w ∈ writes, row w = r ∧ column w = c) :
    writes.foldlM step (table height width g) = some (table height width f) := by
  rw [foldlM_writeSlot row column f g stepWrites inside]
  congr 1
  apply table_congr
  intro r rowBelow c columnBelow
  exact if_pos (everySlot r rowBelow c columnBelow)

end Fold

end PpiwTrading.Sequence

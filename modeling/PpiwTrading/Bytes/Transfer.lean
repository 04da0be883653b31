import Mathlib

/-!
# Transfers by calls that may move less than asked

A loop asks for a number of elements and is given them by calls that may each
move fewer, move nothing at all, or fail; some failures only mean that the call
has to be made again.  A transfer moves a prefix of its source, and it moves the
whole of it exactly when it completes.
-/

namespace PpiwTrading.Bytes

variable {ε α : Type}

/-- What one call does: it moves at most `limit` elements, or it fails. -/
inductive Outcome (ε : Type) where
  | upTo (limit : Nat)
  | failed (error : ε)
deriving DecidableEq, Repr

/-- How a transfer comes to its end. -/
inductive Ending (ε : Type) where
  | complete
  | nothingMoved
  | failed (error : ε)
deriving DecidableEq, Repr

/-- A finished transfer, with the outcomes of the calls after it. -/
structure Transfer (ε α : Type) where
  ending : Ending ε
  moved : List α
  outcomes : List (Outcome ε)
deriving DecidableEq, Repr

/-- A transfer whose first call has moved `first`. -/
def Transfer.after (first : List α) (rest : Transfer ε α) : Transfer ε α :=
  { rest with moved := first ++ rest.moved }

/-- What a call for `left` elements gives when it moves at most `limit`. -/
def chunk (limit left : Nat) (source : List α) : List α :=
  source.take (min limit left)

/-- Move `left` elements of `source`.  There is no result while the loop still
waits for the outcome of a call. -/
def transfer (again : ε → Bool) : List (Outcome ε) → Nat → List α → Option (Transfer ε α)
  | outcomes, 0, _ => some ⟨.complete, [], outcomes⟩
  | [], _ + 1, _ => none
  | .failed error :: rest, left + 1, source =>
      if again error then transfer again rest (left + 1) source
      else some ⟨.failed error, [], rest⟩
  | .upTo limit :: rest, left + 1, source =>
      if chunk limit (left + 1) source = [] then some ⟨.nothingMoved, [], rest⟩
      else (transfer again rest (left + 1 - (chunk limit (left + 1) source).length)
        (source.drop (chunk limit (left + 1) source).length)).map
          (Transfer.after (chunk limit (left + 1) source))

theorem chunk_isPrefix (limit left : Nat) (source : List α) : chunk limit left source <+: source :=
  List.take_prefix _ _

@[simp]
theorem transfer_zero (again : ε → Bool) (outcomes : List (Outcome ε)) (source : List α) :
    transfer again outcomes 0 source = some ⟨.complete, [], outcomes⟩ := by
  unfold transfer
  rfl

/-- A transfer moves a prefix of its source, no longer than asked, and it moves
as much as asked exactly when it completes. -/
structure Moves (left : Nat) (source : List α) (result : Transfer ε α) : Prop where
  moved_isPrefix : result.moved <+: source
  length_le : result.moved.length ≤ left
  complete_iff : result.ending = .complete ↔ result.moved.length = left

theorem Moves.after {rest : List α} {left : Nat} {result : Transfer ε α}
    (moves : Moves left rest result) (first : List α) :
    Moves (first.length + left) (first ++ rest) (result.after first) := by
  constructor
  · exact (List.prefix_append_right_inj first).mpr moves.moved_isPrefix
  · rw [Transfer.after, List.length_append]
    exact Nat.add_le_add_left moves.length_le _
  · rw [Transfer.after, List.length_append, Nat.add_left_cancel_iff]
    exact moves.complete_iff

theorem transfer_moves {again : ε → Bool} {outcomes : List (Outcome ε)} {left : Nat}
    {source : List α} {result : Transfer ε α}
    (finished : transfer again outcomes left source = some result) :
    Moves left source result := by
  induction outcomes, left, source using transfer.induct again generalizing result with
  | case1 outcomes source =>
      cases (transfer_zero again outcomes source).symm.trans finished
      exact ⟨List.nil_prefix, Nat.le_refl _, by simp⟩
  | case2 => simp [transfer] at finished
  | case3 error rest left source repeats inductionHypothesis =>
      rw [transfer, if_pos repeats] at finished
      exact inductionHypothesis finished
  | case4 error rest left source repeats =>
      rw [transfer, if_neg repeats] at finished
      cases finished
      exact ⟨List.nil_prefix, Nat.zero_le _, by simp⟩
  | case5 limit rest left source empty =>
      rw [transfer, if_pos empty] at finished
      cases finished
      exact ⟨List.nil_prefix, Nat.zero_le _, by simp⟩
  | case6 limit rest left source nonempty inductionHypothesis =>
      rw [transfer, if_neg nonempty] at finished
      rcases Option.map_eq_some_iff.mp finished with ⟨others, run, rfl⟩
      have whole := (inductionHypothesis run).after (chunk limit (left + 1) source)
      have bounded : (chunk limit (left + 1) source).length ≤ left + 1 :=
        (List.length_take_le _ _).trans (Nat.min_le_right _ _)
      have split := List.prefix_iff_eq_append.mp (chunk_isPrefix limit (left + 1) source)
      rwa [Nat.add_sub_cancel' bounded, split] at whole

/-! ## Transfers that complete -/

/-- Every call moves something or fails in a way that is tried again. -/
def Patient (again : ε → Bool) (outcomes : List (Outcome ε)) : Prop :=
  ∀ outcome ∈ outcomes, (∃ limit, outcome = .upTo (limit + 1)) ∨
    ∃ error, again error = true ∧ outcome = .failed error

/-- The calls that move something. -/
def movingCalls (outcomes : List (Outcome ε)) : Nat :=
  outcomes.countP fun outcome => match outcome with
    | .upTo limit => 0 < limit
    | .failed _ => false

/-- With patient calls enough of which move something, a transfer within its
source completes, and no more of them are used than elements were asked for. -/
theorem transfer_of_patient {again : ε → Bool} {outcomes : List (Outcome ε)} {left : Nat}
    {source : List α} (patient : Patient again outcomes) (within : left ≤ source.length)
    (enough : left ≤ movingCalls outcomes) :
    ∃ rest, transfer again outcomes left source = some ⟨.complete, source.take left, rest⟩ ∧
      Patient again rest ∧ movingCalls outcomes ≤ movingCalls rest + left := by
  induction outcomes generalizing left source with
  | nil =>
      obtain rfl : left = 0 := Nat.le_zero.mp enough
      exact ⟨[], by simp, patient, Nat.le_refl _⟩
  | cons outcome others inductionHypothesis =>
      have patientOthers : Patient again others :=
        fun other member => patient other (List.mem_cons_of_mem _ member)
      cases left with
      | zero => exact ⟨outcome :: others, by simp, patient, Nat.le_refl _⟩
      | succ left =>
          rcases patient outcome List.mem_cons_self with ⟨limit, rfl⟩ | ⟨error, repeats, rfl⟩
          · have count : movingCalls (Outcome.upTo (limit + 1) :: others) =
                movingCalls others + 1 := by
              simp [movingCalls]
            have length : (chunk (limit + 1) (left + 1) source).length = min limit left + 1 := by
              rw [chunk, List.length_take]
              omega
            have nonempty : chunk (limit + 1) (left + 1) source ≠ [] := by
              apply List.ne_nil_of_length_pos
              rw [length]
              exact Nat.succ_pos _
            rw [count] at enough ⊢
            rcases @inductionHypothesis (left + 1 - (min limit left + 1))
                (source.drop (min limit left + 1)) patientOthers
                (by rw [List.length_drop]; omega) (by omega) with
              ⟨rest, run, patientRest, used⟩
            use rest
            constructor
            · have joined : chunk (limit + 1) (left + 1) source ++
                  (source.drop (min limit left + 1)).take (left + 1 - (min limit left + 1)) =
                  source.take (left + 1) := by
                rw [chunk, ← Nat.succ_eq_add_one, ← Nat.succ_eq_add_one, Nat.succ_min_succ,
                  ← List.take_add]
                congr 1
                omega
              rw [transfer, if_neg nonempty, length, run, Option.map_some, Transfer.after, joined]
            · exact ⟨patientRest, by omega⟩
          · have count : movingCalls (Outcome.failed error :: others) = movingCalls others := by
              simp [movingCalls]
            rw [count] at enough ⊢
            rcases @inductionHypothesis (left + 1) source patientOthers within enough with
              ⟨rest, run, patientRest, used⟩
            exact ⟨rest, by rw [transfer, if_pos repeats, run], patientRest, used⟩

end PpiwTrading.Bytes

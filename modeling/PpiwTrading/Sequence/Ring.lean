import Mathlib

/-!
# Sequences laid out in a ring

A ring is a list of slots in which the slot after the last one is the first one.
The sequence of a given length that starts at a given slot grows at its end when
the slot after it is written, and loses its first element when the start moves
on.
-/

namespace PpiwTrading.Sequence

universe u

variable {α : Type u}

/-- The sequence of `n` elements that starts in slot `head`. -/
def ring (slots : List α) : Nat → Nat → List α
  | _, 0 => []
  | head, n + 1 => slots[head]?.toList ++ ring slots ((head + 1) % slots.length) n

@[simp]
theorem ring_zero (slots : List α) (head : Nat) : ring slots head 0 = [] :=
  rfl

variable {slots : List α} {head n : Nat}

/-- The first element stands in the first slot. -/
theorem ring_succ {a : α} (atHead : slots[head]? = some a) :
    ring slots head (n + 1) = a :: ring slots ((head + 1) % slots.length) n := by
  rw [ring, atHead]
  rfl

theorem next_lt (inside : head < slots.length) : (head + 1) % slots.length < slots.length :=
  Nat.mod_lt _ (Nat.zero_lt_of_lt inside)

/-- The place after `n + 1` slots is the place after `n` slots from the next one. -/
theorem end_succ (capacity head n : Nat) :
    ((head + 1) % capacity + n) % capacity = (head + (n + 1)) % capacity := by
  rw [Nat.mod_add_mod, Nat.add_assoc, Nat.add_comm 1 n]

/-- Two places less than a round apart are different. -/
theorem end_ne {capacity : Nat} (inside : head < capacity) (positive : 0 < n)
    (room : n < capacity) : (head + n) % capacity ≠ head := by
  intro same
  rcases Nat.lt_or_ge (head + n) capacity with before | after
  · rw [Nat.mod_eq_of_lt before] at same
    omega
  · rw [Nat.mod_eq_sub_mod after, Nat.mod_eq_of_lt (by omega)] at same
    omega

/-- Writing the slot after the sequence appends to it. -/
theorem ring_set_end (inside : head < slots.length) (room : n < slots.length) (a : α) :
    ring (slots.set ((head + n) % slots.length) a) head (n + 1) = ring slots head n ++ [a] := by
  induction n generalizing head with
  | zero =>
      have place : (head + 0) % slots.length = head := Nat.mod_eq_of_lt inside
      rw [place, ring_succ (List.getElem?_set_self inside)]
      rfl
  | succ n inductionHypothesis =>
      have elsewhere := end_ne inside (Nat.succ_pos n) room
      have kept : (slots.set ((head + (n + 1)) % slots.length) a)[head]? = some slots[head] := by
        rw [List.getElem?_set_ne elsewhere, List.getElem?_eq_getElem inside]
      have rest := inductionHypothesis (next_lt inside) (Nat.lt_of_succ_lt room)
      rw [end_succ] at rest
      rw [ring_succ kept, ring_succ (List.getElem?_eq_getElem inside), List.length_set, rest,
        List.cons_append]

end PpiwTrading.Sequence

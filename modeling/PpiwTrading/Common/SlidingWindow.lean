import PpiwTrading.Common.Types

/-!
# The sliding window of a stock

A slot of the window is available or free.  Its data is read only while it is
available, so a slot is modelled by an `Option`.  `put` writes a slot of the
caller's choice; `poll` takes from the head and moves it on, around the
capacity.

`Tracks` states what the window is for: with `k` elements polled, it holds the
elements numbered `k + 1` to `k + capacity` that have been put, each in the slot
of its number.
-/

namespace PpiwTrading

structure SlidingWindow (α : Type) where
  slots : Nat → Option α
  capacity : Nat
  head : Nat

namespace SlidingWindow

variable {α : Type}

/-- `SlidingWindow(capacity)`. -/
def new (capacity : Nat) : SlidingWindow α :=
  ⟨fun _ => none, capacity, 0⟩

def put (window : SlidingWindow α) (t : α) (idx : Nat) : Except Fault (SlidingWindow α) :=
  if window.capacity ≤ idx then .error .outsideWindow
  else
    match window.slots idx with
    | some _ => .error .slotTaken
    | none => .ok { window with slots := Function.update window.slots idx (some t) }

/-- A `put` that returns has filled a free slot. -/
theorem put_cases {window window' : SlidingWindow α} {t : α} {idx : Nat}
    (stored : window.put t idx = .ok window') :
    idx < window.capacity ∧ window.slots idx = none ∧
      window' = { window with slots := Function.update window.slots idx (some t) } := by
  unfold put at stored
  split at stored
  · cases stored
  · rename_i inside
    split at stored
    · cases stored
    · rename_i free
      cases stored
      exact ⟨not_le.mp inside, free, rfl⟩

/-- The non-blocking `poll` of a window with slots; without any, `avaliable_[head_]` lies
outside of the vector. -/
def poll (window : SlidingWindow α) : Option (α × SlidingWindow α) :=
  match window.slots window.head with
  | none => none
  | some t =>
      some (t,
        { window with
          slots := Function.update window.slots window.head none
          head := (window.head + 1) % window.capacity })

/-- The elements in the available slots. -/
def held (window : SlidingWindow α) : List α :=
  (List.range window.capacity).filterMap window.slots

end SlidingWindow

/-- `(order_id - 1) % sliding_window_size`, as `int` arithmetic, converted to `size_t`. -/
def windowIdx (slidingWindowSize : Nat) (orderId : Int) : Nat :=
  let idx := (orderId - 1).tmod slidingWindowSize
  if idx < 0 then (idx + 2 ^ 64).toNat else idx.toNat

section WindowIdx

variable {size : Nat} {i j : Int} {k : Nat}

theorem windowIdx_eq (positive : 1 ≤ i) : windowIdx size i = (i - 1).toNat % size := by
  obtain ⟨n, rfl⟩ : ∃ n : Nat, i = (n : Int) + 1 := ⟨(i - 1).toNat, by omega⟩
  simp only [windowIdx, Int.add_sub_cancel, Int.toNat_natCast]
  rw [← Int.ofNat_tmod, if_neg (not_lt.mpr (Int.natCast_nonneg _))]
  exact Int.toNat_natCast _

theorem windowIdx_cast (positive : 1 ≤ i) : (windowIdx size i : Int) = (i - 1) % size := by
  rw [windowIdx_eq positive, Int.natCast_emod, Int.toNat_of_nonneg (by omega)]

/-- A number within one window length belongs to a slot of the window. -/
theorem windowIdx_lt (lower : (k : Int) < i) (upper : i ≤ k + size) : windowIdx size i < size := by
  rw [windowIdx_eq (by omega)]
  apply Nat.mod_lt
  omega

/-- The next number belongs to the head. -/
theorem windowIdx_next : windowIdx size ((k : Int) + 1) = k % size := by
  rw [windowIdx_eq (by omega)]
  simp

/-- Within one window length a slot belongs to one number. -/
theorem windowIdx_inj (iLower : (k : Int) < i) (iUpper : i ≤ k + size) (jLower : (k : Int) < j)
    (jUpper : j ≤ k + size) (same : windowIdx size i = windowIdx size j) : i = j := by
  rw [windowIdx_eq (by omega), windowIdx_eq (by omega)] at same
  obtain ⟨m, rfl⟩ : ∃ m : Nat, i = (k : Int) + m + 1 := ⟨(i - k - 1).toNat, by omega⟩
  obtain ⟨n, rfl⟩ : ∃ n : Nat, j = (k : Int) + n + 1 := ⟨(j - k - 1).toNat, by omega⟩
  have mBound : m < size := by omega
  have nBound : n < size := by omega
  have left : ((k : Int) + m + 1 - 1).toNat = k + m := by omega
  have right : ((k : Int) + n + 1 - 1).toNat = k + n := by omega
  rw [left, right] at same
  have cancelled : m % size = n % size := Nat.ModEq.add_left_cancel' k same
  rw [Nat.mod_eq_of_lt mBound, Nat.mod_eq_of_lt nBound] at cancelled
  rw [cancelled]

end WindowIdx

/-! ## What the window holds -/

namespace SlidingWindow

variable {α : Type}

/-- With `k` elements polled, the window holds the later ones of those that
have arrived, each in the slot of its number. -/
structure Tracks (number : α → Int) (window : SlidingWindow α) (k : Nat)
    (arrived : α → Prop) : Prop where
  head : window.head = k % window.capacity
  sound : ∀ j a, window.slots j = some a → arrived a ∧ (k : Int) < number a ∧
    number a ≤ k + window.capacity ∧ windowIdx window.capacity (number a) = j
  complete : ∀ a, arrived a → (k : Int) < number a →
    window.slots (windowIdx window.capacity (number a)) = some a

variable {number : α → Int} {window window' : SlidingWindow α} {k : Nat} {arrived : α → Prop}

theorem Tracks.new (capacity : Nat) :
    Tracks number (SlidingWindow.new capacity) 0 fun _ => False where
  head := (Nat.zero_mod capacity).symm
  sound := by
    intro j a available
    cases available
  complete := by
    intro a impossible
    cases impossible

/-- An element of the window that has not arrived finds its slot free. -/
theorem Tracks.put (tracks : Tracks number window k arrived) {a : α}
    (fresh : ∀ b, arrived b → number b ≠ number a) (lower : (k : Int) < number a)
    (upper : number a ≤ k + window.capacity) :
    window.put a (windowIdx window.capacity (number a)) =
        .ok { window with
          slots := Function.update window.slots (windowIdx window.capacity (number a)) (some a) } ∧
      Tracks number
        { window with
          slots := Function.update window.slots (windowIdx window.capacity (number a)) (some a) }
        k fun b => arrived b ∨ b = a := by
  have free : window.slots (windowIdx window.capacity (number a)) = none := by
    cases taken : window.slots (windowIdx window.capacity (number a)) with
    | none => rfl
    | some b =>
        rcases tracks.sound _ b taken with ⟨inArrived, bLower, bUpper, sameSlot⟩
        exact absurd (windowIdx_inj bLower bUpper lower upper sameSlot) (fresh b inArrived)
  constructor
  · rw [SlidingWindow.put, if_neg (not_le.mpr (windowIdx_lt lower upper))]
    simp only [free]
  · constructor
    · exact tracks.head
    · intro j b available
      by_cases sameSlot : j = windowIdx window.capacity (number a)
      · simp only [sameSlot, Function.update_self, Option.some.injEq] at available
        subst available
        exact ⟨Or.inr rfl, lower, upper, sameSlot.symm⟩
      · simp only [Function.update_of_ne sameSlot] at available
        rcases tracks.sound j b available with ⟨inArrived, bounds⟩
        exact ⟨Or.inl inArrived, bounds⟩
    · rintro b (inArrived | rfl) bLower
      · have held := tracks.complete b inArrived bLower
        have otherSlot : windowIdx window.capacity (number b) ≠
            windowIdx window.capacity (number a) := by
          intro sameSlot
          rw [sameSlot, free] at held
          cases held
        simp only [Function.update_of_ne otherSlot]
        exact held
      · exact Function.update_self _ _ _

/-- The element polled is the next one. -/
theorem Tracks.poll (tracks : Tracks number window k arrived) {a : α}
    (polled : window.poll = some (a, window')) :
    arrived a ∧ number a = k + 1 ∧ window'.capacity = window.capacity ∧
      Tracks number window' (k + 1) arrived := by
  have next : windowIdx window.capacity ((k : Int) + 1) = window.head := by
    rw [windowIdx_next, tracks.head]
  unfold SlidingWindow.poll at polled
  cases available : window.slots window.head with
  | none =>
      rw [available] at polled
      cases polled
  | some b =>
      rw [available] at polled
      cases polled
      rcases tracks.sound window.head a available with ⟨inArrived, lower, upper, atHead⟩
      have isNext : number a = k + 1 :=
        windowIdx_inj lower upper (by omega) (by omega) (atHead.trans next.symm)
      refine ⟨inArrived, isNext, rfl, ?_⟩
      constructor
      · simp only [tracks.head, Nat.mod_add_mod]
      · intro j b held
        by_cases sameSlot : j = window.head
        · simp only [sameSlot, Function.update_self] at held
          cases held
        · simp only [Function.update_of_ne sameSlot] at held
          rcases tracks.sound j b held with ⟨bArrived, bLower, bUpper, bSlot⟩
          have notNext : number b ≠ k + 1 := by
            intro isNext'
            rw [isNext', next] at bSlot
            exact sameSlot bSlot.symm
          exact ⟨bArrived, by omega, by simp only; omega, bSlot⟩
      · intro b bArrived bLower
        have held := tracks.complete b bArrived (by omega)
        rcases tracks.sound _ b held with ⟨_, lower', upper', _⟩
        have otherSlot : windowIdx window.capacity (number b) ≠ window.head := by
          intro sameSlot
          have same := windowIdx_inj lower' upper' (by omega) (by omega)
            (sameSlot.trans next.symm)
          omega
        simp only [Function.update_of_ne otherSlot]
        exact held

/-- The window holds what has arrived and has not been polled. -/
theorem Tracks.mem_held (tracks : Tracks number window k arrived) {a : α} :
    a ∈ window.held ↔ arrived a ∧ (k : Int) < number a := by
  rw [held, List.mem_filterMap]
  constructor
  · rintro ⟨j, _, available⟩
    rcases tracks.sound j a available with ⟨inArrived, lower, _⟩
    exact ⟨inArrived, lower⟩
  · rintro ⟨inArrived, lower⟩
    have available := tracks.complete a inArrived lower
    rcases tracks.sound _ a available with ⟨_, _, upper, _⟩
    exact ⟨_, List.mem_range.mpr (windowIdx_lt lower upper), available⟩

theorem Tracks.held_nodup (tracks : Tracks number window k arrived) : window.held.Nodup := by
  apply List.Nodup.filterMap _ List.nodup_range
  intro j j' a available available'
  rcases tracks.sound j a available with ⟨_, _, _, atSlot⟩
  rcases tracks.sound j' a available' with ⟨_, _, _, atSlot'⟩
  exact atSlot.symm.trans atSlot'

/-- When the head is free the next element has not arrived. -/
theorem Tracks.not_arrived (tracks : Tracks number window k arrived)
    (free : window.slots window.head = none) {a : α} (isNext : number a = k + 1) :
    ¬ arrived a := by
  intro inArrived
  have held := tracks.complete a inArrived (by omega)
  rw [isNext, windowIdx_next, ← tracks.head, free] at held
  cases held

end SlidingWindow

end PpiwTrading

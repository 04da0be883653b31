import PpiwTrading.Common.Types
import PpiwTrading.Sequence.Ring
import PpiwTrading.Transition.Answers

/-!
# Blocking queues

`BlockQueue` keeps its elements in a ring and counts them, since a full ring and
an empty one have the same head and tail; `BlockQueueSTL` keeps them in a deque.
Both are the same first-in first-out queue of at most as many elements as their
capacity.

A call runs under the lock of the queue.  A blocking call completes when its
wait predicate holds, so what is modelled is the sequence of completed calls.
-/

namespace PpiwTrading

open PpiwTrading.Sequence
open PpiwTrading.Transition

variable {T : Type}

/-- A call of a queue. -/
inductive QueueCall (T : Type)
  | put (t : T)
  | take
  | offer (t : T)
  | poll
  | empty
  | full
  | size

/-- What a call returns; `polled` is the element of a `poll` that returned true. -/
inductive QueueAnswer (T : Type)
  | done
  | taken (t : T)
  | offered (result : Bool)
  | polled (t : Option T)
  | flag (result : Bool)
  | number (n : Nat)
  deriving DecidableEq, Repr

/-- Why a call does not complete: its wait predicate does not hold, or it would
access an element outside of the vector. -/
inductive Stuck
  | waits
  | outside
  deriving DecidableEq, Repr

/-- The conversion of an `int` to `size_t`. -/
def sizeT (n : Int) : Nat :=
  (n % 2 ^ 64).toNat

/-! ## The ring -/

structure BlockQueue (T : Type) where
  mQueue : List T
  mMaxCapacity : Int
  mHead : Nat
  mTail : Nat
  mSz : Int
  deriving DecidableEq, Repr

namespace BlockQueue

/-- `BlockQueue::BlockQueue`; the vector has `cap` value-initialised elements. -/
def new [Inhabited T] (cap : Int) : BlockQueue T :=
  ⟨List.replicate cap.toNat default, cap, 0, 0, 0⟩

/-- Write the element at the tail. -/
def store (queue : BlockQueue T) (t : T) : Except Stuck (BlockQueue T) :=
  if queue.mTail < queue.mQueue.length then
    .ok
      { queue with
        mQueue := queue.mQueue.set queue.mTail t
        mTail := (queue.mTail + 1) % sizeT queue.mMaxCapacity
        mSz := queue.mSz + 1 }
  else .error .outside

/-- Read the element at the head. -/
def fetch (queue : BlockQueue T) : Except Stuck (T × BlockQueue T) :=
  match queue.mQueue[queue.mHead]? with
  | some res =>
      .ok (res,
        { queue with
          mHead := (queue.mHead + 1) % sizeT queue.mMaxCapacity
          mSz := queue.mSz - 1 })
  | none => .error .outside

def put (queue : BlockQueue T) (t : T) : Except Stuck (BlockQueue T) :=
  if queue.mSz < queue.mMaxCapacity then queue.store t else .error .waits

def take (queue : BlockQueue T) : Except Stuck (T × BlockQueue T) :=
  if 0 < queue.mSz then queue.fetch else .error .waits

def offer (queue : BlockQueue T) (t : T) : Except Stuck (Bool × BlockQueue T) :=
  if queue.mMaxCapacity ≤ queue.mSz then .ok (false, queue)
  else (queue.store t).map fun queue => (true, queue)

def poll (queue : BlockQueue T) : Except Stuck (Option T × BlockQueue T) :=
  if queue.mSz = 0 then .ok (none, queue)
  else queue.fetch.map fun (t, queue) => (some t, queue)

def empty (queue : BlockQueue T) : Bool :=
  queue.mSz = 0

def full (queue : BlockQueue T) : Bool :=
  queue.mMaxCapacity ≤ queue.mSz

def size (queue : BlockQueue T) : Nat :=
  sizeT queue.mSz

def call : QueueCall T → BlockQueue T → Except Stuck (QueueAnswer T × BlockQueue T)
  | .put t, queue => (queue.put t).map fun queue => (.done, queue)
  | .take, queue => queue.take.map fun (t, queue) => (.taken t, queue)
  | .offer t, queue => (queue.offer t).map fun (result, queue) => (.offered result, queue)
  | .poll, queue => queue.poll.map fun (t, queue) => (.polled t, queue)
  | .empty, queue => .ok (.flag queue.empty, queue)
  | .full, queue => .ok (.flag queue.full, queue)
  | .size, queue => .ok (.number queue.size, queue)

end BlockQueue

/-! ## The deque -/

structure BlockQueueSTL (T : Type) where
  mQueue : List T
  mMaxCapacity : Int
  deriving DecidableEq, Repr

namespace BlockQueueSTL

/-- `BlockQueueSTL::BlockQueueSTL`; the capacity -1 stands for none. -/
def new (cap : Int) : BlockQueueSTL T :=
  ⟨[], cap⟩

/-- The elements of the deque are fewer than the capacity. -/
def room (queue : BlockQueueSTL T) : Prop :=
  queue.mQueue.length < sizeT queue.mMaxCapacity

instance (queue : BlockQueueSTL T) : Decidable queue.room :=
  inferInstanceAs (Decidable (_ < _))

/-- `push_back`. -/
def pushBack (queue : BlockQueueSTL T) (t : T) : BlockQueueSTL T :=
  { queue with mQueue := queue.mQueue ++ [t] }

def put (queue : BlockQueueSTL T) (t : T) : Except Stuck (BlockQueueSTL T) :=
  if queue.mMaxCapacity ≠ -1 ∧ ¬ queue.room then .error .waits else .ok (queue.pushBack t)

def take (queue : BlockQueueSTL T) : Except Stuck (T × BlockQueueSTL T) :=
  match queue.mQueue with
  | [] => .error .waits
  | res :: rest => .ok (res, { queue with mQueue := rest })

def offer (queue : BlockQueueSTL T) (t : T) : Bool × BlockQueueSTL T :=
  if queue.mMaxCapacity ≠ -1 ∧ ¬ queue.room then (false, queue) else (true, queue.pushBack t)

def poll (queue : BlockQueueSTL T) : Option T × BlockQueueSTL T :=
  match queue.mQueue with
  | [] => (none, queue)
  | t :: rest => (some t, { queue with mQueue := rest })

def empty (queue : BlockQueueSTL T) : Bool :=
  queue.mQueue.isEmpty

def full (queue : BlockQueueSTL T) : Bool :=
  if queue.mMaxCapacity = -1 then false else ¬ queue.room

def size (queue : BlockQueueSTL T) : Nat :=
  queue.mQueue.length

def call : QueueCall T → BlockQueueSTL T → Except Stuck (QueueAnswer T × BlockQueueSTL T)
  | .put t, queue => (queue.put t).map fun queue => (.done, queue)
  | .take, queue => queue.take.map fun (t, queue) => (.taken t, queue)
  | .offer t, queue => .ok (.offered (queue.offer t).1, (queue.offer t).2)
  | .poll, queue => .ok (.polled queue.poll.1, queue.poll.2)
  | .empty, queue => .ok (.flag queue.empty, queue)
  | .full, queue => .ok (.flag queue.full, queue)
  | .size, queue => .ok (.number queue.size, queue)

end BlockQueueSTL

/-! ## First in, first out -/

/-- The elements of a queue, oldest first. -/
structure Fifo (T : Type) (capacity : Nat) where
  items : List T
  within : items.length ≤ capacity

namespace Fifo

variable {capacity : Nat}

def nil : Fifo T capacity := ⟨[], Nat.zero_le capacity⟩

def push (fifo : Fifo T capacity) (t : T) (room : fifo.items.length < capacity) :
    Fifo T capacity :=
  ⟨fifo.items ++ [t], by simpa using room⟩

def call : QueueCall T → Fifo T capacity → Except Stuck (QueueAnswer T × Fifo T capacity)
  | .put t, fifo =>
      if room : fifo.items.length < capacity then .ok (.done, fifo.push t room)
      else .error .waits
  | .take, ⟨[], _⟩ => .error .waits
  | .take, ⟨t :: rest, within⟩ => .ok (.taken t, ⟨rest, Nat.le_of_succ_le within⟩)
  | .offer t, fifo =>
      if room : fifo.items.length < capacity then .ok (.offered true, fifo.push t room)
      else .ok (.offered false, fifo)
  | .poll, ⟨[], within⟩ => .ok (.polled none, ⟨[], within⟩)
  | .poll, ⟨t :: rest, within⟩ => .ok (.polled (some t), ⟨rest, Nat.le_of_succ_le within⟩)
  | .empty, fifo => .ok (.flag fifo.items.isEmpty, fifo)
  | .full, fifo => .ok (.flag (capacity ≤ fifo.items.length), fifo)
  | .size, fifo => .ok (.number fifo.items.length, fifo)

end Fifo

/-! ## The ring as a queue -/

/-- A capacity that is an `int` is not changed by its conversion. -/
theorem sizeT_natCast {n : Nat} (isInt : (n : Int) ≤ intMax) : sizeT n = n := by
  unfold intMax at isInt
  rw [sizeT, Int.emod_eq_of_lt (Int.natCast_nonneg n) (by omega)]
  exact Int.toNat_natCast n

namespace BlockQueue

/-- The elements of a ring, from its head on. -/
def items (queue : BlockQueue T) : List T :=
  ring queue.mQueue queue.mHead queue.mSz.toNat

/-- A ring that holds the elements of a queue. -/
structure Holds (capacity : Nat) (queue : BlockQueue T) (fifo : Fifo T capacity) : Prop where
  capacity_eq : queue.mMaxCapacity = capacity
  slots : queue.mQueue.length = capacity
  size : queue.mSz = fifo.items.length
  head_lt : queue.mHead < capacity
  tail_eq : queue.mTail = (queue.mHead + fifo.items.length) % capacity
  items_eq : ring queue.mQueue queue.mHead fifo.items.length = fifo.items

variable {capacity : Nat} {queue : BlockQueue T} {fifo : Fifo T capacity}

theorem Holds.room_iff (holds : Holds capacity queue fifo) :
    queue.mSz < queue.mMaxCapacity ↔ fifo.items.length < capacity := by
  rw [holds.size, holds.capacity_eq]
  exact Int.ofNat_lt

theorem Holds.full_iff (holds : Holds capacity queue fifo) :
    queue.mMaxCapacity ≤ queue.mSz ↔ ¬ fifo.items.length < capacity := by
  rw [← holds.room_iff, Int.not_lt]

theorem Holds.empty_iff (holds : Holds capacity queue fifo) :
    queue.mSz = 0 ↔ fifo.items = [] := by
  rw [holds.size, Int.natCast_eq_zero, List.length_eq_zero_iff]

theorem Holds.pos_iff (holds : Holds capacity queue fifo) :
    0 < queue.mSz ↔ fifo.items ≠ [] := by
  rw [holds.size, Int.natCast_pos, List.length_pos_iff]

theorem Holds.new [Inhabited T] (positive : 1 ≤ capacity) :
    Holds capacity (BlockQueue.new capacity) (Fifo.nil : Fifo T capacity) where
  capacity_eq := rfl
  slots := List.length_replicate
  size := rfl
  head_lt := positive
  tail_eq := (Nat.zero_mod capacity).symm
  items_eq := rfl

section Moves

variable (isInt : (capacity : Int) ≤ intMax)

include isInt

/-- Writing at the tail appends to the queue. -/
theorem Holds.store (holds : Holds capacity queue fifo) (t : T)
    (room : fifo.items.length < capacity) :
    ∃ queue', queue.store t = .ok queue' ∧ Holds capacity queue' (fifo.push t room) := by
  rcases holds with ⟨capacity_eq, slots, size, head_lt, tail_eq, items_eq⟩
  have tail_lt : queue.mTail < queue.mQueue.length := by
    rw [tail_eq, slots]
    exact Nat.mod_lt _ (Nat.zero_lt_of_lt head_lt)
  have length : (fifo.push t room).items.length = fifo.items.length + 1 := List.length_append
  have inside : queue.mHead < queue.mQueue.length := by rwa [slots]
  have roomInSlots : fifo.items.length < queue.mQueue.length := by rwa [slots]
  have written := ring_set_end inside roomInSlots t
  rw [slots, ← tail_eq, items_eq] at written
  rw [BlockQueue.store, if_pos tail_lt]
  refine ⟨_, rfl, ?_⟩
  rw [capacity_eq, sizeT_natCast isInt]
  constructor
  · rfl
  · rw [List.length_set]
    exact slots
  · simp only [size, length]
    norm_cast
  · exact head_lt
  · rw [length, ← Nat.add_assoc]
    simp only [tail_eq, Nat.mod_add_mod]
  · rw [length]
    exact written

/-- Reading at the head takes the oldest element. -/
theorem Holds.fetch {t : T} {rest : List T} {within : (t :: rest).length ≤ capacity}
    (holds : Holds capacity queue ⟨t :: rest, within⟩) :
    ∃ queue', queue.fetch = .ok (t, queue') ∧
      Holds capacity queue' ⟨rest, Nat.le_of_succ_le within⟩ := by
  rcases holds with ⟨capacity_eq, slots, size, head_lt, tail_eq, items_eq⟩
  have inside : queue.mHead < queue.mQueue.length := by rwa [slots]
  rcases List.getElem?_eq_some_iff.mpr ⟨inside, rfl⟩ with atHead
  rw [List.length_cons, ring_succ atHead, List.cons.injEq] at items_eq
  rcases items_eq with ⟨isFirst, others⟩
  rw [slots] at others
  rw [isFirst] at atHead
  rw [BlockQueue.fetch, atHead]
  refine ⟨_, rfl, ?_⟩
  rw [capacity_eq, sizeT_natCast isInt]
  constructor
  · rfl
  · exact slots
  · simp only [size, List.length_cons]
    omega
  · exact Nat.mod_lt _ (Nat.zero_lt_of_lt head_lt)
  · rw [end_succ]
    exact tail_eq
  · exact others

theorem Holds.put (holds : Holds capacity queue fifo) (t : T) :
    Agree (Holds capacity) (BlockQueue.call (.put t) queue) (Fifo.call (.put t) fifo) := by
  rw [BlockQueue.call, BlockQueue.put, Fifo.call]
  by_cases room : fifo.items.length < capacity
  · rcases holds.store isInt t room with ⟨queue', stored, holds'⟩
    rw [if_pos (holds.room_iff.mpr room), dif_pos room, stored]
    exact Agree.ok holds'
  · rw [if_neg (mt holds.room_iff.mp room), dif_neg room]
    exact Agree.error _

theorem Holds.offer (holds : Holds capacity queue fifo) (t : T) :
    Agree (Holds capacity) (BlockQueue.call (.offer t) queue) (Fifo.call (.offer t) fifo) := by
  rw [BlockQueue.call, BlockQueue.offer, Fifo.call]
  by_cases room : fifo.items.length < capacity
  · rcases holds.store isInt t room with ⟨queue', stored, holds'⟩
    rw [if_neg fun full => holds.full_iff.mp full room, dif_pos room, stored]
    exact Agree.ok holds'
  · rw [if_pos (holds.full_iff.mpr room), dif_neg room]
    exact Agree.ok holds

theorem Holds.take (holds : Holds capacity queue fifo) :
    Agree (Holds capacity) (BlockQueue.call .take queue) (Fifo.call .take fifo) := by
  rw [BlockQueue.call, BlockQueue.take]
  rcases fifo with ⟨items, within⟩
  cases items with
  | nil =>
      rw [if_neg fun positive => holds.pos_iff.mp positive rfl]
      exact Agree.error _
  | cons t rest =>
      rcases holds.fetch isInt with ⟨queue', fetched, holds'⟩
      rw [if_pos (holds.pos_iff.mpr (List.cons_ne_nil t rest)), fetched]
      exact Agree.ok holds'

theorem Holds.poll (holds : Holds capacity queue fifo) :
    Agree (Holds capacity) (BlockQueue.call .poll queue) (Fifo.call .poll fifo) := by
  rw [BlockQueue.call, BlockQueue.poll]
  rcases fifo with ⟨items, within⟩
  cases items with
  | nil =>
      rw [if_pos (holds.empty_iff.mpr rfl)]
      exact Agree.ok holds
  | cons t rest =>
      rcases holds.fetch isInt with ⟨queue', fetched, holds'⟩
      rw [if_neg fun none => List.cons_ne_nil t rest (holds.empty_iff.mp none), fetched]
      exact Agree.ok holds'

/-- A ring answers every call as the queue that it holds. -/
theorem refines : Refines (Holds (T := T) capacity) BlockQueue.call Fifo.call := by
  intro call queue fifo holds
  cases call with
  | put t => exact holds.put isInt t
  | take => exact holds.take isInt
  | offer t => exact holds.offer isInt t
  | poll => exact holds.poll isInt
  | empty =>
      have same : queue.empty = fifo.items.isEmpty := by
        rw [BlockQueue.empty, Bool.eq_iff_iff, decide_eq_true_iff, holds.empty_iff,
          List.isEmpty_iff]
      rw [BlockQueue.call, Fifo.call, same]
      exact Agree.ok holds
  | full =>
      have same : queue.full = decide (capacity ≤ fifo.items.length) := by
        rw [BlockQueue.full, decide_eq_decide, holds.full_iff, Nat.not_lt]
      rw [BlockQueue.call, Fifo.call, same]
      exact Agree.ok holds
  | size =>
      have same : queue.size = fifo.items.length := by
        rw [BlockQueue.size, holds.size]
        exact sizeT_natCast ((Int.ofNat_le.mpr fifo.within).trans isInt)
      rw [BlockQueue.call, Fifo.call, same]
      exact Agree.ok holds

end Moves

end BlockQueue

/-! ## The deque as a queue -/

namespace BlockQueueSTL

/-- A deque that holds the elements of a queue. -/
structure Holds (capacity : Nat) (queue : BlockQueueSTL T) (fifo : Fifo T capacity) : Prop where
  capacity_eq : queue.mMaxCapacity = capacity
  items_eq : queue.mQueue = fifo.items

variable {capacity : Nat} {queue : BlockQueueSTL T} {fifo : Fifo T capacity}

section Moves

variable (isInt : (capacity : Int) ≤ intMax) (holds : Holds capacity queue fifo)

include isInt holds

theorem Holds.room_iff : queue.room ↔ fifo.items.length < capacity := by
  rw [BlockQueueSTL.room, holds.capacity_eq, sizeT_natCast isInt, holds.items_eq]

/-- A bounded queue waits exactly when it is full. -/
theorem Holds.full_iff :
    (queue.mMaxCapacity ≠ -1 ∧ ¬ queue.room) ↔ ¬ fifo.items.length < capacity := by
  have bounded : queue.mMaxCapacity ≠ -1 := by
    rw [holds.capacity_eq]
    omega
  rw [and_iff_right bounded, holds.room_iff isInt]

omit isInt in
theorem Holds.pushBack (t : T) (room : fifo.items.length < capacity) :
    Holds capacity (queue.pushBack t) (fifo.push t room) where
  capacity_eq := holds.capacity_eq
  items_eq := congrArg (· ++ [t]) holds.items_eq

end Moves

/-- A deque answers every call as the queue that it holds. -/
theorem refines (isInt : (capacity : Int) ≤ intMax) :
    Refines (Holds (T := T) capacity) BlockQueueSTL.call Fifo.call := by
  intro call queue fifo holds
  have full := holds.full_iff isInt
  cases call with
  | put t =>
      rw [BlockQueueSTL.call, BlockQueueSTL.put, Fifo.call]
      by_cases room : fifo.items.length < capacity
      · rw [if_neg fun waits => full.mp waits room, dif_pos room]
        exact Agree.ok (holds.pushBack t room)
      · rw [if_pos (full.mpr room), dif_neg room]
        exact Agree.error _
  | take =>
      rcases queue with ⟨items, cap⟩
      rcases fifo with ⟨items', within⟩
      obtain rfl : items = items' := holds.items_eq
      cases items with
      | nil => exact Agree.error _
      | cons t rest => exact Agree.ok ⟨holds.capacity_eq, rfl⟩
  | offer t =>
      rw [BlockQueueSTL.call, BlockQueueSTL.offer, Fifo.call]
      by_cases room : fifo.items.length < capacity
      · rw [if_neg fun refused => full.mp refused room, dif_pos room]
        exact Agree.ok (holds.pushBack t room)
      · rw [if_pos (full.mpr room), dif_neg room]
        exact Agree.ok holds
  | poll =>
      rcases queue with ⟨items, cap⟩
      rcases fifo with ⟨items', within⟩
      obtain rfl : items = items' := holds.items_eq
      cases items with
      | nil => exact Agree.ok holds
      | cons t rest => exact Agree.ok ⟨holds.capacity_eq, rfl⟩
  | empty =>
      rw [BlockQueueSTL.call, BlockQueueSTL.empty, Fifo.call, holds.items_eq]
      exact Agree.ok holds
  | full =>
      have same : queue.full = decide (capacity ≤ fifo.items.length) := by
        rw [Bool.eq_iff_iff, decide_eq_true_iff, ← Nat.not_lt, ← full, BlockQueueSTL.full]
        by_cases unbounded : queue.mMaxCapacity = -1 <;> simp [unbounded]
      rw [BlockQueueSTL.call, Fifo.call, same]
      exact Agree.ok holds
  | size =>
      rw [BlockQueueSTL.call, BlockQueueSTL.size, Fifo.call, holds.items_eq]
      exact Agree.ok holds

end BlockQueueSTL

/-! ## Both queues -/

/-- A call of a first-in first-out queue fails only by waiting. -/
theorem Fifo.eq_waits {capacity : Nat} {call : QueueCall T} {fifo : Fifo T capacity}
    {stuck : Stuck} (failed : Fifo.call call fifo = .error stuck) : stuck = .waits := by
  rcases fifo with ⟨items, within⟩
  cases call with
  | put t =>
      rw [Fifo.call] at failed
      split at failed
      · cases failed
      · cases failed
        rfl
  | take =>
      cases items with
      | nil =>
          cases failed
          rfl
      | cons t rest => cases failed
  | offer t =>
      rw [Fifo.call] at failed
      split at failed <;> cases failed
  | poll => cases items <;> cases failed
  | empty => cases failed
  | full => cases failed
  | size => cases failed

/-- What the queues have in common after the same calls: they hold the same
elements, at most `capacity` of them; the counters of the ring are in their
ranges; and the same blocking calls would wait. -/
structure SameQueue (capacity : Nat) (queue : BlockQueue T) (queueSTL : BlockQueueSTL T)
    (fifo : Fifo T capacity) : Prop where
  items : queue.items = fifo.items ∧ queueSTL.mQueue = fifo.items
  size : 0 ≤ queue.mSz ∧ queue.mSz ≤ capacity
  head_lt : queue.mHead < capacity
  tail_lt : queue.mTail < capacity
  tail_eq : (queue.mTail : Int) = (queue.mHead + queue.mSz) % capacity
  enabled : ∀ call, (queue.call call = .error .waits ↔ queueSTL.call call = .error .waits)

/-- A ring and a deque that hold the same queue. -/
theorem SameQueue.of_holds {capacity : Nat} (isInt : (capacity : Int) ≤ intMax)
    {queue : BlockQueue T} {queueSTL : BlockQueueSTL T} {fifo : Fifo T capacity}
    (holds : queue.Holds capacity fifo) (holdsSTL : queueSTL.Holds capacity fifo) :
    SameQueue capacity queue queueSTL fifo := by
  constructor
  · constructor
    · rw [BlockQueue.items, holds.size, Int.toNat_natCast]
      exact holds.items_eq
    · exact holdsSTL.items_eq
  · rw [holds.size]
    exact ⟨Int.natCast_nonneg _, Int.ofNat_le.mpr fifo.within⟩
  · exact holds.head_lt
  · rw [holds.tail_eq]
    exact Nat.mod_lt _ (Nat.zero_lt_of_lt holds.head_lt)
  · rw [holds.tail_eq, holds.size]
    norm_cast
  · intro call
    have ring := BlockQueue.refines isInt call _ _ holds
    have deque := BlockQueueSTL.refines isInt call _ _ holdsSTL
    exact ring.error_iff.trans deque.error_iff.symm

/-- Any calls of a ring and a deque of the same positive capacity complete with
the same results, those of a first-in first-out queue, and leave the same queue;
or one of the calls waits in both. -/
theorem blockQueue_eq_blockQueueSTL [Inhabited T] {capacity : Nat} (positive : 1 ≤ capacity)
    (isInt : (capacity : Int) ≤ intMax) (calls : List (QueueCall T)) :
    (∃ results queue queueSTL fifo,
      answers BlockQueue.call calls (BlockQueue.new capacity) = .ok (results, queue) ∧
      answers BlockQueueSTL.call calls (BlockQueueSTL.new capacity) = .ok (results, queueSTL) ∧
      answers Fifo.call calls (Fifo.nil : Fifo T capacity) = .ok (results, fifo) ∧
      SameQueue capacity queue queueSTL fifo) ∨
    (answers BlockQueue.call calls (BlockQueue.new capacity) = .error .waits ∧
      answers BlockQueueSTL.call calls (BlockQueueSTL.new capacity) = .error .waits ∧
      answers Fifo.call calls (Fifo.nil : Fifo T capacity) = .error .waits) := by
  have ring := (BlockQueue.refines isInt).answers calls (BlockQueue.Holds.new positive)
  have deque := (BlockQueueSTL.refines isInt).answers calls
    (⟨rfl, rfl⟩ : (BlockQueueSTL.new capacity).Holds capacity Fifo.nil)
  cases answered : answers Fifo.call calls (Fifo.nil : Fifo T capacity) with
  | ok last =>
      rcases last with ⟨results, fifo⟩
      rcases ring.exists_ok answered with ⟨queue, ringAnswered, holds⟩
      rcases deque.exists_ok answered with ⟨queueSTL, dequeAnswered, holdsSTL⟩
      left
      use results, queue, queueSTL, fifo, ringAnswered, dequeAnswered, rfl
      exact SameQueue.of_holds isInt holds holdsSTL
  | error stuck =>
      rcases exists_error_of_answers answered with ⟨call, fifo, failed⟩
      obtain rfl := Fifo.eq_waits failed
      right
      exact ⟨ring.error_iff.mpr answered, deque.error_iff.mpr answered, rfl⟩

/-- A queue of two elements that is filled, wraps around and would wait. -/
theorem blockQueue_eq_blockQueueSTL_two :
    ∃ queue queueSTL fifo,
      answers BlockQueue.call [.put 7, .offer 8, .offer 9, .take, .put 6] (BlockQueue.new 2) =
        .ok ([.done, .offered true, .offered false, .taken 7, .done], queue) ∧
      SameQueue 2 queue queueSTL (fifo : Fifo Nat 2) := by
  rcases blockQueue_eq_blockQueueSTL (by decide : 1 ≤ 2) (by decide)
    ([.put 7, .offer 8, .offer 9, .take, .put 6] : List (QueueCall Nat)) with
    ⟨results, queue, queueSTL, fifo, answered, -, -, same⟩ | ⟨waits, -⟩
  · use queue, queueSTL, fifo
    cases answered
    exact ⟨rfl, same⟩
  · cases waits

end PpiwTrading

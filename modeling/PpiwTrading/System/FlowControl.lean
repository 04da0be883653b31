import PpiwTrading.Heap.Sift
import PpiwTrading.System.Invariant

/-!
# Flow control

The sliding window delivers the orders of a stock once and in order.  Nothing on
the wire says which slot is meant to be free, and the two traders know different
acknowledgements, both of them late.  What makes it work is that an order is let
through only when its id is less than a window above the last acknowledgement
its trader has seen, and that no trader has seen an acknowledgement beyond the
orders polled.
-/

namespace PpiwTrading.System

open PpiwTrading.Heap
open PpiwTrading.Sequence
open PpiwTrading.Trader
open PpiwTrading.Exchange

variable {P : Type} [LinearOrder P] [Zero P] {algorithms : HeapAlgorithms} {config : Config}
  {inputs : Nat → TraderInput P} {network : Network P} {orderNum : Int → Nat}

/-- An order that has arrived has been polled or waits in its slot. -/
theorem Consistent.polled_or_held (consistent : Consistent algorithms config inputs network)
    (partitioned : Partitioned config inputs orderNum) {e : Nat}
    (exchange : e < config.exchangeNum) {s : Int} {o : Order P}
    (arrived : (network.exchanges e).Arrived s o) :
    o ∈ ((network.exchanges e).threads s).polled ∨
      ((network.exchanges e).orderBuffer s).slots
        (windowIdx config.slidingWindowSize o.orderId) = some o := by
  rcases consistent.arrived_accepted exchange arrived with ⟨owns, tr, trader, _, accepted⟩
  have range := consistent.accepted_range partitioned trader owns.1 accepted
  have serves := (consistent.serving e exchange).serves s owns
  by_cases early : o.orderId ≤ ((network.exchanges e).threads s).polled.length
  · have inPolled : o.orderId ∈ ((network.exchanges e).threads s).polled.map Order.orderId := by
      rw [serves.numbered, mem_idsUpTo]
      exact ⟨range.1, early⟩
    rcases List.mem_map.mp inPolled with ⟨p, member, sameId⟩
    have same := consistent.arrived_unique partitioned exchange (serves.genuine p member) arrived
      sameId
    rw [same] at member
    exact Or.inl member
  · have held := serves.tracks.complete o arrived (by omega)
    rw [serves.capacity] at held
    exact Or.inr held

/-- In every state, under any interleaving: the orders polled for a stock are
those with the ids from 1 to some `k`, in order; every available slot holds an
order of the next window, at the place of its id; no assertion of a window or of
a trader has failed; and what a trader has sent to an exchange belongs to a stock
of that exchange and is in the channel, in its slot or polled. -/
theorem reachable_delivers_in_order (partitioned : Partitioned config inputs orderNum)
    (reachable : Network.Reachable algorithms config inputs network) :
    (∀ e < config.exchangeNum, ∀ s, config.Owns e s → ∃ k : Nat,
      ((network.exchanges e).threads s).polled.map Order.orderId = idsUpTo k ∧
        ∀ j o, ((network.exchanges e).orderBuffer s).slots j = some o →
          o.stkCode = s ∧ (k : Int) + 1 ≤ o.orderId ∧ o.orderId ≤ k + config.slidingWindowSize ∧
          (o.orderId - 1) % config.slidingWindowSize = j) ∧
    (∀ e < config.exchangeNum, (network.exchanges e).cerr = []) ∧
    (∀ tr < config.traderNum, (network.traders tr).fault = none) ∧
    ∀ tr < config.traderNum, ∀ e < config.exchangeNum,
      (network.traders tr).sent e =
          (network.exchanges e).received tr ++ network.orderChannel (tr, e) ∧
        ∀ o ∈ (network.traders tr).sent e, config.Owns e o.stkCode ∧
          (o ∈ network.orderChannel (tr, e) ∨
            ((network.exchanges e).orderBuffer o.stkCode).slots
              (windowIdx config.slidingWindowSize o.orderId) = some o ∨
            o ∈ ((network.exchanges e).threads o.stkCode).polled) := by
  have consistent := reachable.consistent partitioned
  refine ⟨?_, fun e exchange => (consistent.serving e exchange).quiet, consistent.running, ?_⟩
  · intro e exchange s owns
    have serves := (consistent.serving e exchange).serves s owns
    refine ⟨_, serves.numbered, ?_⟩
    intro j o available
    rcases serves.tracks.sound j o available with ⟨arrived, lower, upper, atSlot⟩
    rw [serves.capacity] at upper atSlot
    refine ⟨arrived.1, lower, upper, ?_⟩
    rw [← atSlot, windowIdx_cast (by omega)]
  · intro tr trader e exchange
    have orders := consistent.orders tr trader e exchange
    refine ⟨orders, ?_⟩
    intro o isSent
    refine ⟨(consistent.sent_accepted trader isSent).1, ?_⟩
    rw [orders] at isSent
    rcases List.mem_append.mp isSent with received | underway
    · rcases consistent.polled_or_held partitioned exchange ⟨rfl, tr, received⟩ with
        polled | held
      · exact Or.inr (Or.inr polled)
      · exact Or.inr (Or.inl held)
    · exact Or.inl underway

/-! ## A small system

Two traders, two exchanges and two stocks.  Each trader has one of the two
orders of stock 1, which match each other; the order of stock 2 waits for that
trade and is abandoned when the trade has a volume above 5. -/

def smallConfig : Config := ⟨2, 2, 2, 2⟩

def smallOrders (traderIdx : Nat) (stkCode : Int) : List (Order Int) :=
  if stkCode = 1 then
    if traderIdx = 0 then [⟨1, 1, -1, 0, 5, 10⟩] else [⟨1, 2, 1, 0, 5, 10⟩]
  else if traderIdx = 0 then [⟨2, 1, 1, 0, 5, 10⟩] else []

def smallInputs (traderIdx : Nat) : TraderInput Int where
  hookRows := [⟨2, 1, ⟨1, 1, 5⟩⟩]
  lowerLimits := fun _ => 1
  upperLimits := fun _ => 9
  sortedOrders := smallOrders traderIdx

theorem smallInputs_partitioned :
    Partitioned smallConfig smallInputs fun s => if s = 1 then 2 else 1 :=
  Partitioned.of_perm (by decide) (by decide)

/-- Order 2 of stock 1 arrives first; the trade of the two orders reaches the
first trader before it lets the order of stock 2 through. -/
def smallRun : List Action :=
  List.flatten
    [ List.replicate 8 (.control 0),
      List.replicate 7 (.control 1),
      [.pollOrder 0 1, .pollOrder 1 1, .sendOrder 1 1, .sendOrder 0 1],
      [.receiveOrder 1 1, .receiveOrder 0 1],
      List.replicate 8 (.work 1 1),
      [.takeMsg 1, .sendMsg 1, .sendMsg 1, .takeMsg 1, .sendMsg 1, .sendMsg 1],
      [.receiveMsg 0 1, .receiveMsg 0 1],
      List.replicate 8 (.control 0),
      [.pollOrder 0 0, .sendOrder 0 0, .receiveOrder 0 0],
      List.replicate 3 (.work 0 2)]

/-- The state `smallRun` leads to. -/
def smallFinal : Network Int :=
  Network.after binaryHeap smallConfig smallInputs smallRun

theorem smallFinal_reachable : Network.Reachable binaryHeap smallConfig smallInputs smallFinal :=
  Network.after_reachable (by decide +kernel)

theorem reachable_delivers_in_order_small :
    ((smallFinal.exchanges 1).threads 1).polled.map Order.orderId = [1, 2] ∧
      ((smallFinal.exchanges 0).threads 2).polled.map Order.type = [-1] ∧
      (smallFinal.exchanges 1).cerr = [] ∧ (smallFinal.traders 0).fault = none := by
  have delivers := reachable_delivers_in_order smallInputs_partitioned smallFinal_reachable
  refine ⟨by decide +kernel, by decide +kernel, delivers.2.1 1 (by decide),
    delivers.2.2.1 0 (by decide)⟩

end PpiwTrading.System

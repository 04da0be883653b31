import PpiwTrading.Common.SortedEntries
import PpiwTrading.System.CachedRuns
import PpiwTrading.System.Progress

/-!
# From the matrices to the trades

The traders load matrices whose cells hold, for each stock, the ids from 1 on, each of
them in one cell of one trader.  Then the sorted orders of the traders share out the
ids, and the system in load mode 0, which draws them from the cache files, can always
come to rest with all of them committed.
-/

namespace PpiwTrading.System

open PpiwTrading.Heap
open PpiwTrading.Sequence
open PpiwTrading.Trader
open PpiwTrading.Exchange
open PpiwTrading.Transition

variable {P : Type}

/-- The matrices of the traders: the orders of a stock make ten whole parts, and the ids
in its cells are those from 1 to `orderNum`. -/
structure Matrices (data : Nat → Dataset P) (config : Config) (orderNum : Int → Nat) :
    Prop where
  loadable : ∀ tr < config.traderNum, (data tr).Loadable config.stockNum
  whole : ∀ tr < config.traderNum, numPartition ∣ (data tr).numOrder config.stockNum
  types : ∀ tr < config.traderNum, OrderTypes (data tr)
  volumes : ∀ tr < config.traderNum, ∀ volume ∈ (data tr).matrices.volume,
    0 < volume ∧ volume ≤ intMax
  ids : ∀ t < config.stockNum,
    ((List.range config.traderNum).flatMap fun tr =>
      ((data tr).stockOrders config.stockNum t).map Order.orderId).Perm (idsUpTo (orderNum (t + 1)))

/-- The inputs have the sorted orders of the matrices. -/
def Loaded (data : Nat → Dataset P) (config : Config) (inputs : Nat → TraderInput P) : Prop :=
  ∀ tr < config.traderNum, ∀ t < config.stockNum,
    (inputs tr).sortedOrders (t + 1) = (data tr).sortedOrders config.stockNum t

section Matrices

variable {data : Nat → Dataset P} {config : Config} {inputs : Nat → TraderInput P}
  {orderNum : Int → Nat}

/-- The ten whole parts are all the orders. -/
theorem Matrices.loaded_parts (matrices : Matrices data config orderNum)
    (loaded : Loaded data config inputs) :
    ∀ tr < config.traderNum, ∀ t < config.stockNum,
      (inputs tr).sortedOrders (t + 1) = ((data tr).sortedOrders config.stockNum t).take
        (numPartition * (data tr).partitionLength config.stockNum) := by
  intro tr trader t stock
  have parts : numPartition * (data tr).partitionLength config.stockNum =
      (data tr).numOrder config.stockNum := Nat.mul_div_cancel' (matrices.whole tr trader)
  rw [loaded tr trader t stock, parts,
    ← (matrices.loadable tr trader).length_sortedOrders stock, List.take_length]

/-- A listed stock code is an index plus 1. -/
theorem exists_index {s : Int} (listed : config.Listed s) :
    ∃ t < config.stockNum, s = (t : Int) + 1 := by
  rcases listed with ⟨low, high⟩
  use (s - 1).toNat
  omega

/-- The sorted orders share out the ids. -/
theorem Matrices.partitioned (matrices : Matrices data config orderNum)
    (loaded : Loaded data config inputs) : Partitioned config inputs orderNum := by
  apply Partitioned.of_perm
  · intro s listed tr trader
    rcases exists_index (mem_idsUpTo.mp listed) with ⟨t, stock, rfl⟩
    rw [loaded tr trader t stock]
    apply (matrices.loadable tr trader).sortedOrders_increasing stock
    have distinct := ((matrices.ids t stock).nodup_iff).mpr (idsUpTo_nodup _)
    exact (List.nodup_flatMap.mp distinct).1 tr (List.mem_range.mpr trader)
  · intro s listed
    rcases exists_index (mem_idsUpTo.mp listed) with ⟨t, stock, rfl⟩
    apply List.Perm.trans _ (matrices.ids t stock)
    apply List.Perm.flatMap_left
    intro tr member
    have trader := List.mem_range.mp member
    rw [loaded tr trader t stock]
    exact ((matrices.loadable tr trader).sortedOrders_perm stock).map _

theorem Matrices.positiveVolumes (matrices : Matrices data config orderNum)
    (loaded : Loaded data config inputs) : PositiveVolumes config inputs := by
  intro tr trader s listed order member
  rcases exists_index listed with ⟨t, stock, rfl⟩
  rw [loaded tr trader t stock] at member
  rcases List.mem_filterMap.mp member with ⟨ss, _, generated⟩
  exact matrices.volumes tr trader _ (Dataset.generateOrder_fields generated).2

variable [LinearOrder P] [Zero P]

/-- From every state the system can come to rest in load mode 0.  Without hooks the
orders of all cells of a stock are then committed by their ids, and every trader has
seen the trades of committing them. -/
theorem matrices_come_to_rest (uninit : Order P) (algorithms : HeapAlgorithms)
    (matrices : Matrices data config orderNum) (loaded : Loaded data config inputs)
    (orderCapacity : 0 < config.orderQueueCapacity) (msgCapacity : 0 < config.msgQueueCapacity)
    {orderGen : Nat → List (StockGenerator P)}
    (started : ∀ tr < config.traderNum,
      CachedTrader.new uninit (data tr) config.stockNum (inputs tr) =
        some ⟨TraderState.new (inputs tr), orderGen tr⟩) {cached : CachedNetwork P}
    (reachable : Reachable (CachedNetwork.next uninit data algorithms config inputs)
      ⟨Network.new config inputs, orderGen⟩ cached) :
    ∃ final network,
      Reachable (CachedNetwork.next uninit data algorithms config inputs) cached final ∧
      Alike data config inputs final network ∧ Quiescent config inputs network ∧
      (Unhooked config inputs → ∀ e < config.exchangeNum, ∀ s, config.Owns e s →
        ((final.network.exchanges e).threads s).committed.map Order.orderId =
            idsUpTo (orderNum s) ∧
          ∃ book, commitOrders algorithms s StockDeclarationBook.empty
                ((final.network.exchanges e).threads s).committed =
              .ok (book, ((final.network.exchanges e).threads s).produced) ∧
            ∀ tr < config.traderNum,
              tradesOf s ((final.network.traders tr).seen e) =
                ((final.network.exchanges e).threads s).produced) := by
  have partitioned := matrices.partitioned loaded
  have volumes := matrices.positiveVolumes loaded
  have parts := matrices.loaded_parts loaded
  have bisimulation : Bisimulation (CachedNetwork.next uninit data algorithms config inputs)
      (Network.next algorithms config inputs) (Alike data config inputs) := by
    apply alike_bisimulation
    · intro tr trader
      exact Nat.div_pos (Nat.le_of_dvd (matrices.loadable tr trader).numOrder_pos
        (matrices.whole tr trader)) (by decide)
    · intro tr trader t stock order member
      rw [loaded tr trader t stock] at member
      exact (of_mem_sortedOrders (matrices.types tr trader) member).2
  rcases bisimulation.reachable (Alike.new matrices.loadable parts started) reachable with
    ⟨network, reachableNetwork, alike⟩
  have healthy := Network.Reachable.healthy reachableNetwork partitioned volumes
  rcases healthy.comes_to_rest partitioned volumes orderCapacity msgCapacity with
    ⟨rest, later, quiescent⟩
  rcases bisimulation.symm.reachable alike later with ⟨final, laterCached, alikeRest⟩
  refine ⟨final, rest, laterCached, alikeRest, quiescent, ?_⟩
  intro unhooked e exchange s owns
  have sameSeen : ∀ tr < config.traderNum,
      (final.network.traders tr).seen = (rest.traders tr).seen := by
    intro tr trader
    rw [(alikeRest.traders tr trader).same]
    rfl
  rcases quiescent.committed_traded (healthy.reachable partitioned volumes later).consistent
    partitioned orderCapacity unhooked exchange owns with ⟨committed, book, effect, seen⟩
  rw [← alikeRest.exchanges]
  refine ⟨committed, book, effect, ?_⟩
  intro tr trader
  rw [sameSeen tr trader]
  exact seen tr trader

end Matrices

/-- Twenty orders of each of ten stocks, those with odd ids at the first of two traders. -/
def sharedRows (tr : Nat) : Dataset Int :=
  { tenRows 10 with
    matrices :=
      { (tenRows 10).matrices with
        orderId := (List.replicate 10
          ((List.range 10).map fun (i : Nat) => 2 * (i : Int) + tr + 1)).flatten }
    orderId_length := rfl }

def sharedConfig : Config := ⟨2, 1, 10, 2⟩

def sharedInputs (tr : Nat) : TraderInput Int where
  hookRows := []
  lowerLimits := fun _ => 1
  upperLimits := fun _ => 200
  sortedOrders := fun s => (sharedRows tr).sortedOrders 10 (s - 1).toNat

theorem sharedRows_loadable (tr : Nat) : (sharedRows tr).Loadable 10 := by
  have rows := tenRows_loadable (n := 10) (by decide) (by decide)
  exact ⟨rows.nx_pos, rows.ny_pos, rows.nz_pos, rows.nx_le, rows.ny_le, rows.nz_le, rows.divides⟩

theorem sharedRows_matrices : Matrices sharedRows sharedConfig fun _ => 20 where
  loadable := fun tr _ => sharedRows_loadable tr
  whole := by
    intro tr _
    change numPartition ∣ (tenRows 10).numOrder 10
    decide
  types := fun _ _ => tenRows_orderTypes 10
  volumes := by
    intro tr _ volume member
    rw [List.eq_of_mem_replicate member]
    decide
  ids := by decide +kernel

theorem sharedInputs_loaded : Loaded sharedRows sharedConfig sharedInputs := by
  intro tr _ t _
  simp [sharedInputs, sharedConfig]

/-- All of the twenty orders of a stock can be committed. -/
theorem matrices_come_to_rest_shared :
    ∃ orderGen final, Reachable
        (CachedNetwork.next ⟨0, 0, 0, 0, 0, 0⟩ sharedRows binaryHeap sharedConfig sharedInputs)
        ⟨Network.new sharedConfig sharedInputs, orderGen⟩ final ∧
      ((final.network.exchanges 0).threads 1).committed.map Order.orderId = idsUpTo 20 := by
  rcases exists_orderGen sharedRows_matrices.loadable
    (sharedRows_matrices.loaded_parts sharedInputs_loaded) ⟨0, 0, 0, 0, 0, 0⟩ with
    ⟨orderGen, started⟩
  rcases matrices_come_to_rest ⟨0, 0, 0, 0, 0, 0⟩ binaryHeap sharedRows_matrices sharedInputs_loaded
    (by decide) (by decide) started Reachable.refl with
    ⟨final, network, reachable, _, _, committed⟩
  have unhooked : Unhooked sharedConfig sharedInputs := fun _ _ _ _ _ _ => rfl
  use orderGen, final, reachable
  exact (committed unhooked 0 (by decide) 1 (by decide)).1

end PpiwTrading.System

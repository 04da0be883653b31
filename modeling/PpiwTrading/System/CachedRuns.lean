import PpiwTrading.System.Replay
import PpiwTrading.Trader.CachedProcess
import PpiwTrading.Transition.Bisimulation

/-!
# The system in load mode 0

Only the controllers of the traders differ between the load modes.  Under every
interleaving the system whose traders draw their orders from cache files does what the
system does whose traders have the orders of the ten whole parts in memory: it performs
the same actions, with the same messages and the same exchanges.
-/

namespace PpiwTrading.System

open PpiwTrading.Heap
open PpiwTrading.Trader
open PpiwTrading.Exchange
open PpiwTrading.Transition

variable {P : Type}

/-- A system with the `OrderGenerator`s of its traders. -/
structure CachedNetwork (P : Type) where
  network : Network P
  orderGen : Nat → List (StockGenerator P)

namespace CachedNetwork

/-- A trader process in load mode 0. -/
def trader (cached : CachedNetwork P) (traderIdx : Nat) : CachedTrader P :=
  ⟨cached.network.traders traderIdx, cached.orderGen traderIdx⟩

def setTrader (cached : CachedNetwork P) (traderIdx : Nat) (trader : CachedTrader P) :
    CachedNetwork P where
  network := cached.network.setTrader traderIdx trader.trader
  orderGen := Function.update cached.orderGen traderIdx trader.orderGen

variable [LinearOrder P] [Zero P]

/-- Perform an action; a step of a controller is one of `TraderController::run`. -/
def next (uninit : Order P) (data : Nat → Dataset P) (algorithms : HeapAlgorithms)
    (config : Config) (inputs : Nat → TraderInput P) (action : Action)
    (cached : CachedNetwork P) : Option (CachedNetwork P) :=
  match action with
  | .control traderIdx =>
      if cached.network.TraderRuns config traderIdx then
        ((cached.trader traderIdx).control uninit
            ((data traderIdx).partitionLength config.stockNum) config (inputs traderIdx)).map
          (cached.setTrader traderIdx)
      else none
  | other =>
      (Network.next algorithms config inputs other cached.network).map fun network =>
        { cached with network }

end CachedNetwork

/-- The two systems are in the same state but for what their controllers have drawn the
orders from. -/
structure Alike (data : Nat → Dataset P) (config : Config) (inputs : Nat → TraderInput P)
    (cached : CachedNetwork P) (network : Network P) : Prop where
  exchanges : network.exchanges = cached.network.exchanges
  orderChannel : network.orderChannel = cached.network.orderChannel
  msgChannel : network.msgChannel = cached.network.msgChannel
  traders : ∀ tr < config.traderNum,
    Mirrors ((data tr).partitionLength config.stockNum) config (inputs tr) (cached.trader tr)
      (network.traders tr)

section Alike

variable {uninit : Order P} {data : Nat → Dataset P} {config : Config}
  {inputs : Nat → TraderInput P} {cached : CachedNetwork P} {network : Network P}

/-- A step of one trader. -/
theorem Alike.setTrader (alike : Alike data config inputs cached network) {tr : Nat}
    {cachedTrader' : CachedTrader P} {trader' : TraderState P}
    (mirrors : Mirrors ((data tr).partitionLength config.stockNum) config (inputs tr)
      cachedTrader' trader') :
    Alike data config inputs (cached.setTrader tr cachedTrader')
      (network.setTrader tr trader') where
  exchanges := alike.exchanges
  orderChannel := alike.orderChannel
  msgChannel := alike.msgChannel
  traders := by
    intro tr' trader
    by_cases here : tr' = tr
    · subst here
      simp only [CachedNetwork.trader, CachedNetwork.setTrader, Network.setTrader,
        Function.update_self]
      exact mirrors
    · simp only [CachedNetwork.trader, CachedNetwork.setTrader, Network.setTrader,
        Function.update_of_ne here]
      exact alike.traders tr' trader

/-- A step of one trader that leaves its generators as they are. -/
theorem Alike.keepOrderGen (alike : Alike data config inputs cached network) {tr : Nat}
    {cachedTrader' trader' : TraderState P}
    (mirrors : Mirrors ((data tr).partitionLength config.stockNum) config (inputs tr)
      ⟨cachedTrader', cached.orderGen tr⟩ trader') :
    Alike data config inputs { cached with network := cached.network.setTrader tr cachedTrader' }
      (network.setTrader tr trader') := by
  have same : { cached with network := cached.network.setTrader tr cachedTrader' } =
      cached.setTrader tr ⟨cachedTrader', cached.orderGen tr⟩ := by
    simp only [CachedNetwork.setTrader, Function.update_eq_self]
  rw [same]
  exact alike.setTrader mirrors

/-- A trader takes steps in both systems or in neither. -/
theorem Alike.traderRuns_iff (alike : Alike data config inputs cached network) {tr : Nat} :
    network.TraderRuns config tr ↔ cached.network.TraderRuns config tr := by
  unfold Network.TraderRuns
  apply and_congr_right
  intro trader
  rw [(alike.traders tr trader).same]
  rfl

/-- An action of an exchange does not depend on the traders. -/
theorem Alike.exchangesRun_iff (alike : Alike data config inputs cached network) {e : Nat} :
    network.ExchangeRuns config e ↔ cached.network.ExchangeRuns config e := by
  unfold Network.ExchangeRuns
  rw [alike.exchanges]

/-- A step of one exchange. -/
theorem Alike.setExchange (alike : Alike data config inputs cached network) (e : Nat)
    (ex : ExchangeState P) :
    Alike data config inputs { cached with network := cached.network.setExchange e ex }
      (network.setExchange e ex) := by
  refine ⟨?_, alike.orderChannel, alike.msgChannel, alike.traders⟩
  simp only [Network.setExchange, alike.exchanges]

theorem Alike.setOrderChannel (alike : Alike data config inputs cached network) (tr e : Nat)
    (orders : List (Order P)) :
    Alike data config inputs { cached with network := cached.network.setOrderChannel tr e orders }
      (network.setOrderChannel tr e orders) := by
  refine ⟨alike.exchanges, ?_, alike.msgChannel, alike.traders⟩
  simp only [Network.setOrderChannel, alike.orderChannel]

theorem Alike.setMsgChannel (alike : Alike data config inputs cached network) (tr e : Nat)
    (msgs : List (Msg P)) :
    Alike data config inputs { cached with network := cached.network.setMsgChannel tr e msgs }
      (network.setMsgChannel tr e msgs) := by
  refine ⟨alike.exchanges, alike.orderChannel, ?_, alike.traders⟩
  simp only [Network.setMsgChannel, alike.msgChannel]

end Alike

/-- Whatever the action, the two systems perform it or not, and are alike afterwards. -/
theorem alike_bisimulation [LinearOrder P] [Zero P] (uninit : Order P) {data : Nat → Dataset P}
    (algorithms : HeapAlgorithms) {config : Config} {inputs : Nat → TraderInput P}
    (positive : ∀ tr < config.traderNum, 0 < (data tr).partitionLength config.stockNum)
    (types : ∀ tr < config.traderNum, ∀ t < config.stockNum,
      ∀ order ∈ (inputs tr).sortedOrders (t + 1), order.type ≠ -1) :
    Bisimulation (CachedNetwork.next uninit data algorithms config inputs)
      (Network.next algorithms config inputs) (Alike data config inputs) := by
  intro cached network alike action
  cases action with
  | control tr =>
      simp only [CachedNetwork.next, Network.next, alike.traderRuns_iff]
      split
      · rename_i runs
        have step := (alike.traders tr runs.1).control (positive tr runs.1) (types tr runs.1) uninit
        generalize (cached.trader tr).control uninit _ config (inputs tr) = cachedStep at step
        generalize (network.traders tr).control config (inputs tr) = plainStep at step
        cases step with
        | none => exact .none
        | some mirrors => exact .some (alike.setTrader mirrors)
      · exact .none
  | pollOrder tr e =>
      simp only [CachedNetwork.next, Network.next, alike.traderRuns_iff]
      split
      · rename_i runs
        have step := (alike.traders tr runs.1.1).pollOrder e
        change Option.Rel _ ((cached.network.traders tr).pollOrder e) _ at step
        generalize (cached.network.traders tr).pollOrder e = cachedStep at step
        generalize (network.traders tr).pollOrder e = plainStep at step
        cases step with
        | none => exact .none
        | some mirrors => exact .some (alike.keepOrderGen mirrors)
      · exact .none
  | sendOrder tr e =>
      simp only [CachedNetwork.next, Network.next, alike.traderRuns_iff]
      split
      · rename_i runs
        have step := (alike.traders tr runs.1.1).sendOrder e
        change Option.Rel _ ((cached.network.traders tr).sendOrder e) _ at step
        generalize (cached.network.traders tr).sendOrder e = cachedStep at step
        generalize (network.traders tr).sendOrder e = plainStep at step
        cases step with
        | none => exact .none
        | some sending =>
            apply Option.Rel.some
            simp only [← sending.1, alike.orderChannel]
            exact (alike.keepOrderGen sending.2).setOrderChannel ..
      · exact .none
  | receiveOrder tr e =>
      simp only [CachedNetwork.next, Network.next, alike.exchangesRun_iff, alike.orderChannel]
      split
      · split
        · exact .none
        · apply Option.Rel.some
          rw [alike.exchanges]
          exact (alike.setExchange ..).setOrderChannel ..
      · exact .none
  | work e s =>
      simp only [CachedNetwork.next, Network.next, alike.exchangesRun_iff, alike.exchanges]
      split
      · cases (cached.network.exchanges e).work algorithms config s with
        | none => exact .none
        | some ex => exact .some (alike.setExchange e ex)
      · exact .none
  | takeMsg e =>
      simp only [CachedNetwork.next, Network.next, alike.exchangesRun_iff, alike.exchanges]
      split
      · cases (cached.network.exchanges e).takeMsg config with
        | none => exact .none
        | some ex => exact .some (alike.setExchange e ex)
      · exact .none
  | sendMsg e =>
      simp only [CachedNetwork.next, Network.next, alike.exchangesRun_iff, alike.exchanges]
      split
      · cases (cached.network.exchanges e).sendMsg config with
        | none => exact .none
        | some sending =>
            apply Option.Rel.some
            rw [alike.msgChannel]
            exact (alike.setExchange ..).setMsgChannel ..
      · exact .none
  | receiveMsg tr e =>
      simp only [CachedNetwork.next, Network.next, alike.traderRuns_iff, alike.msgChannel]
      split
      · rename_i runs
        split
        · exact .none
        · apply Option.Rel.some
          exact (alike.keepOrderGen ((alike.traders tr runs.1.1).receive e _)).setMsgChannel ..
      · exact .none

section Start

variable {uninit : Order P} {data : Nat → Dataset P} {config : Config}
  {inputs : Nat → TraderInput P}
  (loadable : ∀ tr < config.traderNum, (data tr).Loadable config.stockNum)
  (loaded : ∀ tr < config.traderNum, ∀ t < config.stockNum,
    (inputs tr).sortedOrders (t + 1) = ((data tr).sortedOrders config.stockNum t).take
      (numPartition * (data tr).partitionLength config.stockNum))

include loadable loaded

/-- Every trader can load its orders. -/
theorem exists_orderGen (uninit : Order P) :
    ∃ orderGen : Nat → List (StockGenerator P), ∀ tr < config.traderNum,
      CachedTrader.new uninit (data tr) config.stockNum (inputs tr) =
        some ⟨TraderState.new (inputs tr), orderGen tr⟩ := by
  have starts : ∀ tr, ∃ orderGen, tr < config.traderNum →
      CachedTrader.new uninit (data tr) config.stockNum (inputs tr) =
        some ⟨TraderState.new (inputs tr), orderGen⟩ := by
    intro tr
    by_cases trader : tr < config.traderNum
    · rcases Mirrors.new uninit (loadable tr trader) (loaded tr trader) with
        ⟨orderGen, succeeds, _⟩
      exact ⟨orderGen, fun _ => succeeds⟩
    · exact ⟨[], fun inside => absurd inside trader⟩
  choose orderGen started using starts
  exact ⟨orderGen, started⟩

/-- The two systems start alike. -/
theorem Alike.new {orderGen : Nat → List (StockGenerator P)}
    (started : ∀ tr < config.traderNum,
      CachedTrader.new uninit (data tr) config.stockNum (inputs tr) =
        some ⟨TraderState.new (inputs tr), orderGen tr⟩) :
    Alike data config inputs ⟨Network.new config inputs, orderGen⟩ (Network.new config inputs) where
  exchanges := rfl
  orderChannel := rfl
  msgChannel := rfl
  traders := by
    intro tr trader
    rcases Mirrors.new uninit (loadable tr trader) (loaded tr trader) with
      ⟨orderGen', succeeds, mirrors⟩
    rw [started tr trader] at succeeds
    cases succeeds
    exact mirrors

end Start

/-- With parts that are not empty, loading succeeds, and under every interleaving the
system in load mode 0 performs what the system performs whose traders have the orders of
the ten whole parts in memory, and they stay alike. -/
theorem cached_runs_alike [LinearOrder P] [Zero P] (uninit : Order P) {data : Nat → Dataset P}
    (algorithms : HeapAlgorithms) {config : Config} {inputs : Nat → TraderInput P}
    (loadable : ∀ tr < config.traderNum, (data tr).Loadable config.stockNum)
    (types : ∀ tr < config.traderNum, OrderTypes (data tr))
    (enough : ∀ tr < config.traderNum, numPartition ≤ (data tr).numOrder config.stockNum)
    (loaded : ∀ tr < config.traderNum, ∀ t < config.stockNum,
      (inputs tr).sortedOrders (t + 1) = ((data tr).sortedOrders config.stockNum t).take
        (numPartition * (data tr).partitionLength config.stockNum)) :
    ∃ orderGen : Nat → List (StockGenerator P),
      (∀ tr < config.traderNum, CachedTrader.new uninit (data tr) config.stockNum (inputs tr) =
        some ⟨TraderState.new (inputs tr), orderGen tr⟩) ∧
      ∀ actions, Option.Rel (Alike data config inputs)
        (run (CachedNetwork.next uninit data algorithms config inputs) actions
          ⟨Network.new config inputs, orderGen⟩)
        (run (Network.next algorithms config inputs) actions (Network.new config inputs)) := by
  rcases exists_orderGen loadable loaded uninit with ⟨orderGen, started⟩
  use orderGen, started
  intro actions
  refine (alike_bisimulation uninit algorithms ?_ ?_).run actions ?_
  · intro tr trader
    exact Nat.div_pos (enough tr trader) (by decide)
  · intro tr trader t stock order member
    rw [loaded tr trader t stock] at member
    exact (of_mem_sortedOrders (types tr trader) (List.mem_of_mem_take member)).2
  · exact Alike.new loadable loaded started

/-- One trader with ten orders of each of ten stocks. -/
def rowConfig : Config := ⟨1, 1, 10, 2⟩

def rowInput : TraderInput Int where
  hookRows := []
  lowerLimits := fun _ => 1
  upperLimits := fun _ => 200
  sortedOrders := fun s => (tenRows 10).sortedOrders 10 (s - 1).toNat

/-- Two orders of each stock are collected and one of them reaches the thread of its
stock. -/
def rowRun : List Action :=
  List.replicate 42 (.control 0) ++
    [.pollOrder 0 0, .sendOrder 0 0, .receiveOrder 0 0, .work 0 1]

theorem cached_runs_alike_row :
    ∃ orderGen final network,
      run (CachedNetwork.next ⟨0, 0, 0, 0, 0, 0⟩ (fun _ => tenRows 10) binaryHeap rowConfig
          fun _ => rowInput) rowRun
        ⟨Network.new rowConfig fun _ => rowInput, orderGen⟩ = some final ∧
      run (Network.next binaryHeap rowConfig fun _ => rowInput) rowRun
        (Network.new rowConfig fun _ => rowInput) = some network ∧
      Alike (fun _ => tenRows 10) rowConfig (fun _ => rowInput) final network := by
  have loadable : (tenRows 10).Loadable 10 := tenRows_loadable (by decide) (by decide)
  have loaded : ∀ t : Nat, t < 10 → rowInput.sortedOrders (t + 1) =
      ((tenRows 10).sortedOrders 10 t).take (numPartition * (tenRows 10).partitionLength 10) := by
    intro t stock
    have all : numPartition * (tenRows 10).partitionLength 10 =
        ((tenRows 10).sortedOrders 10 t).length := by
      rw [loadable.length_sortedOrders stock]
      decide
    rw [all, List.take_length]
    simp [rowInput]
  rcases @cached_runs_alike _ _ _ ⟨0, 0, 0, 0, 0, 0⟩ (fun _ => tenRows 10) binaryHeap rowConfig
    (fun _ => rowInput) (fun _ _ => loadable) (fun _ _ => tenRows_orderTypes 10) (by decide)
    (fun _ _ => loaded) with ⟨orderGen, _, alike⟩
  have performed : (run (Network.next binaryHeap rowConfig fun _ => rowInput) rowRun
      (Network.new rowConfig fun _ => rowInput)).isSome = true := by
    decide +kernel
  rcases Option.isSome_iff_exists.mp performed with ⟨network, plain⟩
  have both := alike rowRun
  rw [plain] at both
  generalize cachedRun : run _ rowRun _ = final at both
  cases both with
  | some matched => exact ⟨orderGen, _, network, cachedRun, plain, matched⟩

end PpiwTrading.System

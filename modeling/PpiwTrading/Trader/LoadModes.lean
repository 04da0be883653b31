import PpiwTrading.Common.OrderGenerator
import PpiwTrading.Trader.Process

/-!
# The two load modes

In mode 0 a trader sorts its orders once and writes five cache files for each
stock, and `run` draws its orders from an `OrderGenerator` on these files.  In
mode 2 it keeps the sorted entries, and `run_all_in_memory` makes the orders
when it comes to them.
-/

namespace PpiwTrading.Trader

open PpiwTrading.Sequence

variable {P : Type}

/-! ## Cache files -/

/-- One turn of the loop of `load_data` that writes the files of the stock with
index `t`. -/
def dumpOrder (data : Dataset P) (stockNum t : Nat) (files : Columns List P) (ss : SortStruct) :
    Option (Columns List P) := do
  let cell := ss.coor.get
  guard (cell.x < data.nx ∧ cell.y < data.ny ∧ cell.z < data.nz)
  guard (t = cell.x % stockNum)
  let direction ← data.matrices.direction[data.offset cell]?
  let type ← data.matrices.type[data.offset cell]?
  let price ← data.matrices.price[data.offset cell]?
  let volume ← data.matrices.volume[data.offset cell]?
  pure (files.push ss.orderId direction type price volume)

/-- The files of the stock with index `t`. -/
def dumpStock (data : Dataset P) (stockNum : Nat) (sortedOrderId : List (List SortStruct))
    (t : Nat) : Option (Columns List P) := do
  let structs ← sortedOrderId[t]?
  (List.range (data.numOrder stockNum)).foldlM
    (fun files i => structs[i]?.bind (dumpOrder data stockNum t files)) ⟨[], [], [], [], []⟩

/-- `load_data` in mode 0, after its calls of `load_hook` and `load_prev_close`; these two
take the number of stocks to be 10. -/
def dumpCache (data : Dataset P) (stockNum : Nat) : Option (List (Columns List P)) := do
  let sortedOrderId ← data.loadOrderIdFromFile stockNum
  (List.range stockNum).mapM (dumpStock data stockNum sortedOrderId)

/-! ## The two loops -/

/-- One turn of the loop over the orders of the stock with index `t`, and the
outcome of its `check_order`. -/
structure Turn where
  t : Nat
  passed : Bool

/-- Note that an order of a stock has been drawn. -/
def draw (drawn : Nat → List (Order P)) (t : Nat) (order : Order P) : Nat → List (Order P) :=
  Function.update drawn t (drawn t ++ [order])

/-- A turn of the loop of `run`. -/
def cachedTurn (uninit : Order P) (length : Nat)
    (state : List (StockGenerator P) × (Nat → List (Order P))) (turn : Turn) :
    Option (List (StockGenerator P) × (Nat → List (Order P))) := do
  let generator ← state.1[turn.t]?
  let (generator, order) ← generator.generateOrder uninit length (turn.t + 1)
  if order.type = -1 then pure (state.1.set turn.t generator, state.2)
  else if turn.passed then
    pure (state.1.set turn.t generator.commit, draw state.2 turn.t order)
  else pure (state.1.set turn.t generator, state.2)

/-- `load_data` and `run` in mode 0. -/
def runCached (uninit : Order P) (data : Dataset P) (stockNum : Nat) (turns : List Turn) :
    Option (List (StockGenerator P) × (Nat → List (Order P))) := do
  let files ← dumpCache data stockNum
  let length := data.partitionLength stockNum
  turns.foldlM (cachedTurn uninit length)
    (files.map (StockGenerator.new uninit length), fun _ => [])

/-- A turn of the loop of `run_all_in_memory`. -/
def memoryTurn (data : Dataset P) (stockNum : Nat) (sortedOrderStructs : List (List SortStruct))
    (state : (Nat → Nat) × (Nat → List (Order P))) (turn : Turn) :
    Option ((Nat → Nat) × (Nat → List (Order P))) := do
  let structs ← sortedOrderStructs[turn.t]?
  match structs[state.1 turn.t]? with
  | none => pure state
  | some ss =>
      let order ← data.generateOrder stockNum (turn.t + 1) ss
      if turn.passed then
        pure (Function.update state.1 turn.t (state.1 turn.t + 1), draw state.2 turn.t order)
      else pure state

/-- `load_data` and `run_all_in_memory` in mode 2. -/
def runAllInMemory (data : Dataset P) (stockNum : Nat) (turns : List Turn) :
    Option ((Nat → Nat) × (Nat → List (Order P))) := do
  let sortedOrderStructs ← data.loadOrderIdFromFile stockNum
  turns.foldlM (memoryTurn data stockNum sortedOrderStructs) (fun _ => 0, fun _ => [])

/-! ## What is in the files -/

/-- The loop of `load_data` writes what `OrderInfoMatrix::generate_order` makes. -/
theorem dumpOrder_eq (data : Dataset P) (stockNum t : Nat) (files : Columns List P)
    (ss : SortStruct) :
    dumpOrder data stockNum t files ss =
      (data.generateOrder stockNum (t + 1) ss).map fun order =>
        files.push order.orderId order.direction order.type order.price order.volume := by
  have sameStock : t = ss.coor.get.x % stockNum ↔
      (t : Int) + 1 = (ss.coor.get.x % stockNum : Nat) + 1 := by omega
  simp only [dumpOrder, Dataset.generateOrder, sameStock, Option.bind_eq_bind, Option.map_bind,
    Function.comp_def, Option.pure_def, Option.map_some]

/-- Writing the first `n` entries of a stock. -/
theorem foldlM_dumpOrder (data : Dataset P) (stockNum t : Nat) {structs : List SortStruct}
    (generated : ∀ ss ∈ structs, (data.generateOrder stockNum (t + 1) ss).isSome) {n : Nat}
    (below : n ≤ structs.length) :
    (List.range n).foldlM
        (fun files i => structs[i]?.bind (dumpOrder data stockNum t files)) ⟨[], [], [], [], []⟩ =
      some (Columns.ofOrders
        ((structs.take n).filterMap (data.generateOrder stockNum (t + 1)))) := by
  induction n with
  | zero => rfl
  | succ n inductionHypothesis =>
      have inside : n < structs.length := below
      rcases Option.isSome_iff_exists.mp (generated _ (List.getElem_mem inside)) with
        ⟨order, made⟩
      rw [List.range_succ, List.foldlM_append, inductionHypothesis (Nat.le_of_lt inside),
        List.take_succ_eq_append_getElem inside, List.filterMap_append]
      simp [dumpOrder_eq, inside, made, Columns.ofOrders_concat]

section Loaded

variable {data : Dataset P} {stockNum : Nat} (loadable : data.Loadable stockNum)
include loadable

/-- The files of a stock hold its sorted orders. -/
theorem dumpCache_eq :
    dumpCache data stockNum =
      some ((List.range stockNum).map fun t =>
        Columns.ofOrders (data.sortedOrders stockNum t)) := by
  rw [dumpCache, loadable.loadOrderIdFromFile_eq]
  apply mapM_eq_some_map
  intro t member
  have stock : t < stockNum := List.mem_range.mp member
  have count : (data.sortedStructs stockNum t).length = data.numOrder stockNum :=
    Dataset.length_sortedStructs t
  rw [dumpStock, List.getElem?_map, List.getElem?_range stock]
  change (List.range _).foldlM _ _ = _
  rw [foldlM_dumpOrder data stockNum t (loadable.generateOrder_isSome stock) count.ge,
    ← count, List.take_length]
  rfl

end Loaded

/-! ## Runs of the two loops -/

/-- How many turns of a stock have passed the check. -/
def passes (turns : List Turn) (t : Nat) : Nat :=
  turns.countP fun turn => decide (turn.t = t) && turn.passed

theorem passes_concat_of_ne (turns : List Turn) {turn : Turn} {t : Nat} (other : t ≠ turn.t) :
    passes (turns ++ [turn]) t = passes turns t := by
  simp [passes, Ne.symm other]

theorem passes_concat_passed (turns : List Turn) {turn : Turn} (passed : turn.passed = true) :
    passes (turns ++ [turn]) turn.t = passes turns turn.t + 1 := by
  simp [passes, passed]

theorem passes_concat_failed (turns : List Turn) {turn : Turn} (failed : ¬ turn.passed = true) :
    passes (turns ++ [turn]) turn.t = passes turns turn.t := by
  simp [passes, failed]

theorem passes_le_concat (turns : List Turn) (turn : Turn) :
    passes turns turn.t ≤ passes (turns ++ [turn]) turn.t := by
  simp [passes]

/-- After the turns `before`, the generator of each stock has handed out as many
of the orders `available` as turns have passed. -/
structure CachedInv (stockNum length : Nat) (available : Nat → List (Order P))
    (before : List Turn) (state : List (StockGenerator P) × (Nat → List (Order P))) : Prop where
  size : state.1.length = stockNum
  delivers : ∀ t < stockNum, ∃ generator, state.1[t]? = some generator ∧
    generator.Delivers length ((available t).drop (passes before t))
  drawn : ∀ t < stockNum, state.2 t = (available t).take (passes before t)

section Cached

variable {stockNum length : Nat} {available : Nat → List (Order P)} {before : List Turn}
  {state : List (StockGenerator P) × (Nat → List (Order P))}

/-- A turn changes one stock only. -/
theorem CachedInv.set (inv : CachedInv stockNum length available before state) {turn : Turn}
    {generator : StockGenerator P} {drawn : Nat → List (Order P)}
    (delivers : generator.Delivers length
      ((available turn.t).drop (passes (before ++ [turn]) turn.t)))
    (drawnHere : drawn turn.t = (available turn.t).take (passes (before ++ [turn]) turn.t))
    (drawnElsewhere : ∀ t, t ≠ turn.t → drawn t = state.2 t) :
    CachedInv stockNum length available (before ++ [turn])
      (state.1.set turn.t generator, drawn) where
  size := by rw [List.length_set, inv.size]
  delivers := by
    intro t below
    by_cases here : t = turn.t
    · subst here
      refine ⟨generator, List.getElem?_set_self ?_, delivers⟩
      rwa [inv.size]
    · rw [List.getElem?_set_ne (Ne.symm here), passes_concat_of_ne before here]
      exact inv.delivers t below
  drawn := by
    intro t below
    by_cases here : t = turn.t
    · subst here
      exact drawnHere
    · rw [passes_concat_of_ne before here, ← inv.drawn t below]
      exact drawnElsewhere t here

/-- One turn of `run`. -/
theorem CachedInv.cachedTurn (inv : CachedInv stockNum length available before state)
    (positive : 0 < length)
    (wellFormed : ∀ t < stockNum, ∀ order ∈ available t, order.stkCode = t + 1 ∧ order.type ≠ -1)
    (uninit : Order P) {turn : Turn} (stock : turn.t < stockNum) :
    ∃ next, cachedTurn uninit length state turn = some next ∧
      CachedInv stockNum length available (before ++ [turn]) next := by
  rcases inv.delivers turn.t stock with ⟨generator, stored, delivers⟩
  have drawn := inv.drawn turn.t stock
  rcases delivers.generateOrder positive uninit (turn.t + 1) with
    ⟨empty, shown⟩ | ⟨order, later, ready, next, shown, -, readyDelivers, committed⟩
  · refine ⟨(state.1.set turn.t generator, state.2), ?_, ?_⟩
    · simp [Trader.cachedTurn, stored, shown]
    · -- All orders have been drawn, so it does not matter whether the turn counts.
      have all := List.drop_eq_nil_iff.mp empty
      have allLater := all.trans (passes_le_concat before turn)
      apply inv.set
      · rwa [List.drop_eq_nil_of_le allLater, ← empty]
      · rw [drawn, List.take_of_length_le all, List.take_of_length_le allLater]
      · exact fun _ _ => rfl
  · have inside : passes before turn.t < (available turn.t).length := by
      by_contra beyond
      rw [List.drop_eq_nil_of_le (Nat.le_of_not_lt beyond)] at next
      contradiction
    rw [List.drop_eq_getElem_cons inside] at next
    cases next
    have here := wellFormed turn.t stock _ (List.getElem_mem inside)
    have sameOrder : { (available turn.t)[passes before turn.t] with
        stkCode := (turn.t : Int) + 1 } = (available turn.t)[passes before turn.t] := by
      rw [← here.1]
    rw [sameOrder] at shown
    by_cases passed : turn.passed = true
    · refine ⟨(state.1.set turn.t ready.commit,
        draw state.2 turn.t (available turn.t)[passes before turn.t]), ?_, ?_⟩
      · simp only [Trader.cachedTurn, stored, shown, Option.bind_eq_bind, Option.bind_some,
          here.2, passed, if_true, if_false]
        rfl
      · apply inv.set
        · rwa [passes_concat_passed before passed]
        · rw [draw, Function.update_self, drawn, passes_concat_passed before passed,
            List.take_succ_eq_append_getElem inside]
        · exact fun t other => Function.update_of_ne other ..
    · refine ⟨(state.1.set turn.t ready, state.2), ?_, ?_⟩
      · simp only [Trader.cachedTurn, stored, shown, Option.bind_eq_bind, Option.bind_some,
          here.2, passed, if_false]
        rfl
      · apply inv.set
        · rwa [passes_concat_failed before passed]
        · rwa [passes_concat_failed before passed]
        · exact fun _ _ => rfl

end Cached

/-- After the turns `before`, the index and the drawn orders of each stock are
those of as many entries as turns have passed. -/
structure MemoryInv (data : Dataset P) (stockNum : Nat) (before : List Turn)
    (state : (Nat → Nat) × (Nat → List (Order P))) : Prop where
  index : ∀ t < stockNum,
    state.1 t = ((data.sortedOrders stockNum t).take (passes before t)).length
  drawn : ∀ t < stockNum, state.2 t = (data.sortedOrders stockNum t).take (passes before t)

section Memory

variable {data : Dataset P} {stockNum : Nat} {before : List Turn}
  {state : (Nat → Nat) × (Nat → List (Order P))}

/-- A turn changes one stock only. -/
theorem MemoryInv.update (inv : MemoryInv data stockNum before state) {turn : Turn}
    {idxs : Nat → Nat} {drawn : Nat → List (Order P)}
    (indexHere : idxs turn.t =
      ((data.sortedOrders stockNum turn.t).take (passes (before ++ [turn]) turn.t)).length)
    (drawnHere : drawn turn.t =
      (data.sortedOrders stockNum turn.t).take (passes (before ++ [turn]) turn.t))
    (elsewhere : ∀ t, t ≠ turn.t → idxs t = state.1 t ∧ drawn t = state.2 t) :
    MemoryInv data stockNum (before ++ [turn]) (idxs, drawn) where
  index := by
    intro t below
    by_cases here : t = turn.t
    · subst here
      exact indexHere
    · rw [passes_concat_of_ne before here, ← inv.index t below]
      exact (elsewhere t here).1
  drawn := by
    intro t below
    by_cases here : t = turn.t
    · subst here
      exact drawnHere
    · rw [passes_concat_of_ne before here, ← inv.drawn t below]
      exact (elsewhere t here).2

/-- One turn of `run_all_in_memory`. -/
theorem MemoryInv.memoryTurn (inv : MemoryInv data stockNum before state)
    (loadable : data.Loadable stockNum) {turn : Turn} (stock : turn.t < stockNum) :
    ∃ next,
      memoryTurn data stockNum ((List.range stockNum).map (data.sortedStructs stockNum)) state
        turn = some next ∧
      MemoryInv data stockNum (before ++ [turn]) next := by
  have index := inv.index turn.t stock
  have drawn := inv.drawn turn.t stock
  have structs : ((List.range stockNum).map (data.sortedStructs stockNum))[turn.t]? =
      some (data.sortedStructs stockNum turn.t) := by
    rw [List.getElem?_map, List.getElem?_range stock]
    rfl
  by_cases inside : passes before turn.t < (data.sortedOrders stockNum turn.t).length
  · have current : state.1 turn.t = passes before turn.t := by
      rw [index, List.length_take_of_le inside.le]
    have made := loadable.getElem?_sortedOrders stock (passes before turn.t)
    rw [List.getElem?_eq_getElem inside] at made
    rcases Option.bind_eq_some_iff.mp made.symm with ⟨ss, entry, generated⟩
    by_cases passed : turn.passed = true
    · refine ⟨(Function.update state.1 turn.t (state.1 turn.t + 1),
        draw state.2 turn.t (data.sortedOrders stockNum turn.t)[passes before turn.t]), ?_, ?_⟩
      · simp only [Trader.memoryTurn, structs, current, entry, generated, passed,
          Option.bind_eq_bind, Option.bind_some, if_true]
        rfl
      · apply inv.update
        · rw [Function.update_self, current, passes_concat_passed before passed,
            List.length_take_of_le inside]
        · rw [draw, Function.update_self, drawn, passes_concat_passed before passed,
            List.take_succ_eq_append_getElem inside]
        · exact fun t other => ⟨Function.update_of_ne other .., Function.update_of_ne other ..⟩
    · refine ⟨state, ?_, ?_⟩
      · simp only [Trader.memoryTurn, structs, current, entry, generated, passed,
          Option.bind_eq_bind, Option.bind_some]
        rfl
      · apply inv.update
        · rwa [passes_concat_failed before passed]
        · rwa [passes_concat_failed before passed]
        · exact fun _ _ => ⟨rfl, rfl⟩
  · -- All entries have been drawn, so it does not matter whether the turn counts.
    have all := Nat.le_of_not_lt inside
    have allLater := all.trans (passes_le_concat before turn)
    have finished : (data.sortedStructs stockNum turn.t)[state.1 turn.t]? = none := by
      rw [index, List.take_of_length_le all, List.getElem?_eq_none]
      rw [Dataset.length_sortedStructs, loadable.length_sortedOrders stock]
    refine ⟨state, ?_, ?_⟩
    · simp only [Trader.memoryTurn, structs, finished, Option.bind_eq_bind, Option.bind_some]
      rfl
    · apply inv.update
      · rw [index, List.take_of_length_le all, List.take_of_length_le allLater]
      · rw [drawn, List.take_of_length_le all, List.take_of_length_le allLater]
      · exact fun _ _ => ⟨rfl, rfl⟩

end Memory

/-! ## The modes compared -/

section Modes

variable {data : Dataset P} {stockNum : Nat}

/-- The types of the orders in the input. -/
def OrderTypes (data : Dataset P) : Prop :=
  ∀ type ∈ data.matrices.type, 0 ≤ type ∧ type ≤ 5

/-- No order that can be drawn looks like the end marker. -/
theorem of_mem_sortedOrders (types : OrderTypes data) {t : Nat} {order : Order P}
    (member : order ∈ data.sortedOrders stockNum t) :
    order.stkCode = t + 1 ∧ order.type ≠ -1 := by
  rcases List.mem_filterMap.mp member with ⟨ss, _, generated⟩
  have made := Dataset.of_generateOrder generated
  have type := types order.type made.2
  exact ⟨made.1, by omega⟩

/-- The process of a trader whose input is what has been loaded goes through the
sorted entries. -/
theorem nextOrder_of_loaded (loadable : data.Loadable stockNum) {input : TraderInput P} {t : Nat}
    (stock : t < stockNum) (loaded : input.sortedOrders (t + 1) = data.sortedOrders stockNum t)
    (trader : TraderState P) :
    TraderState.nextOrder input trader (t + 1) =
      (data.sortedStructs stockNum t)[trader.nextSortedStructIdx (t + 1)]?.bind
        (data.generateOrder stockNum (t + 1)) := by
  rw [TraderState.nextOrder, loaded, ← loadable.getElem?_sortedOrders stock]
  cases next : (data.sortedOrders stockNum t)[trader.nextSortedStructIdx (t + 1)]? with
  | none => rfl
  | some order =>
      rcases List.mem_filterMap.mp (List.mem_of_getElem? next) with ⟨ss, _, generated⟩
      rw [Option.map_some, TraderState.generateOrder, ← (Dataset.of_generateOrder generated).1]

/-- In mode 0 the orders of the ten whole parts can be drawn. -/
theorem runCached_spec (uninit : Order P) (loadable : data.Loadable stockNum)
    (types : OrderTypes data) (positive : 0 < data.partitionLength stockNum)
    {turns : List Turn} (stocks : ∀ turn ∈ turns, turn.t < stockNum) :
    ∃ state, runCached uninit data stockNum turns = some state ∧
      CachedInv stockNum (data.partitionLength stockNum)
        (fun t => (data.sortedOrders stockNum t).take
          (numPartition * data.partitionLength stockNum)) turns state := by
  have count : data.partitionLength stockNum = data.numOrder stockNum / numPartition := rfl
  have enough : ∀ t < stockNum, numPartition * data.partitionLength stockNum ≤
      (data.sortedOrders stockNum t).length := by
    intro t stock
    rw [loadable.length_sortedOrders stock, count]
    exact Nat.mul_div_le _ _
  rw [runCached, dumpCache_eq loadable]
  apply foldlM_invariant _ []
  · refine ⟨by simp, ?_, fun _ _ => rfl⟩
    intro t stock
    refine ⟨_, ?_, StockGenerator.delivers_new uninit (enough t stock)⟩
    simp [stock]
  · intro turn member before state inv
    apply inv.cachedTurn positive _ uninit (stocks turn member)
    intro t _ order drawable
    exact of_mem_sortedOrders types (List.mem_of_mem_take drawable)

/-- In mode 2 all orders can be drawn. -/
theorem runAllInMemory_spec (loadable : data.Loadable stockNum) {turns : List Turn}
    (stocks : ∀ turn ∈ turns, turn.t < stockNum) :
    ∃ state, runAllInMemory data stockNum turns = some state ∧
      MemoryInv data stockNum turns state := by
  rw [runAllInMemory, loadable.loadOrderIdFromFile_eq]
  apply foldlM_invariant _ []
  · exact ⟨fun _ _ => rfl, fun _ _ => rfl⟩
  · intro turn member before state inv
    exact inv.memoryTurn loadable (stocks turn member)

/-- When the parts are empty, the first turn in mode 0 fails. -/
theorem runCached_zero (uninit : Order P) (loadable : data.Loadable stockNum)
    (empty : data.partitionLength stockNum = 0) {turn : Turn} (stock : turn.t < stockNum)
    (turns : List Turn) : runCached uninit data stockNum (turn :: turns) = none := by
  have failed : cachedTurn uninit 0
      (((List.range stockNum).map fun t => Columns.ofOrders (data.sortedOrders stockNum t)).map
        (StockGenerator.new uninit 0), fun _ => []) turn = none := by
    simp [cachedTurn, stock, StockGenerator.generateOrder_new_zero]
  rw [runCached, dumpCache_eq loadable, empty]
  change (turn :: turns).foldlM (cachedTurn uninit 0) _ = _
  rw [List.foldlM_cons, failed]
  rfl

/-- For every sequence of turns the two modes draw the same orders of a stock;
`generate_order` shows the same order again when it is not committed; and once
there have been as many passed turns as the stock has orders, each of its orders
has been drawn once and the end marker is shown. -/
def ModesAgree (uninit : Order P) (data : Dataset P) (stockNum t : Nat) : Prop :=
  ∀ turns : List Turn, (∀ turn ∈ turns, turn.t < stockNum) →
    ∃ generators cached idxs memory generator,
      runCached uninit data stockNum turns = some (generators, cached) ∧
      runAllInMemory data stockNum turns = some (idxs, memory) ∧
      generators[t]? = some generator ∧
      cached t = memory t ∧
      (∃ ready order,
        generator.generateOrder uninit (data.partitionLength stockNum) (t + 1) =
          some (ready, order) ∧
        ready.generateOrder uninit (data.partitionLength stockNum) (t + 1) =
          some (ready, order)) ∧
      (data.numOrder stockNum ≤ passes turns t →
        (cached t).length = data.numOrder stockNum ∧
        (cached t).Perm (data.stockOrders stockNum t) ∧
        generator.generateOrder uninit (data.partitionLength stockNum) (t + 1) =
          some (generator, { uninit with type := -1 }))

/-- When the orders of a stock make ten whole parts, nothing is left over. -/
theorem modesAgree_of_dvd (uninit : Order P) (loadable : data.Loadable stockNum)
    (types : OrderTypes data) (whole : numPartition ∣ data.numOrder stockNum) {t : Nat}
    (stock : t < stockNum) : ModesAgree uninit data stockNum t := by
  intro turns stocks
  have parts : numPartition * data.partitionLength stockNum = data.numOrder stockNum :=
    Nat.mul_div_cancel' whole
  have positive : 0 < data.partitionLength stockNum := by
    apply Nat.pos_of_mul_pos_left (a := numPartition)
    rw [parts]
    exact loadable.numOrder_pos
  have all : (data.sortedOrders stockNum t).take (numPartition * data.partitionLength stockNum) =
      data.sortedOrders stockNum t := by
    rw [parts, ← loadable.length_sortedOrders stock, List.take_length]
  rcases runCached_spec uninit loadable types positive stocks with
    ⟨⟨generators, cached⟩, ranCached, invCached⟩
  rcases runAllInMemory_spec loadable stocks with ⟨⟨idxs, memory⟩, ranMemory, invMemory⟩
  rcases invCached.delivers t stock with ⟨generator, stored, delivers⟩
  have drawn : cached t = ((data.sortedOrders stockNum t).take
      (numPartition * data.partitionLength stockNum)).take (passes turns t) :=
    invCached.drawn t stock
  have drawnMemory : memory t = (data.sortedOrders stockNum t).take (passes turns t) :=
    invMemory.drawn t stock
  rw [all] at delivers drawn
  refine ⟨generators, cached, idxs, memory, generator, ranCached, ranMemory, stored, ?_, ?_, ?_⟩
  · rw [drawn, drawnMemory]
  · rcases delivers.generateOrder positive uninit (t + 1) with
      ⟨_, shown⟩ | ⟨order, _, ready, _, shown, again, _⟩
    · exact ⟨generator, _, shown, shown⟩
    · exact ⟨ready, _, shown, again⟩
  · intro enough
    rw [← loadable.length_sortedOrders stock] at enough
    rw [drawn, List.take_of_length_le enough]
    refine ⟨loadable.length_sortedOrders stock, loadable.sortedOrders_perm stock, ?_⟩
    rcases delivers.generateOrder positive uninit (t + 1) with
      ⟨_, shown⟩ | ⟨order, later, ready, next, _⟩
    · exact shown
    · rw [List.drop_eq_nil_of_le enough] at next
      contradiction

/-- When the modes agree, the orders of a stock make ten whole parts. -/
theorem dvd_of_modesAgree {uninit : Order P} (loadable : data.Loadable stockNum)
    (types : OrderTypes data) {t : Nat} (stock : t < stockNum)
    (agree : ModesAgree uninit data stockNum t) : numPartition ∣ data.numOrder stockNum := by
  -- Let the stock have as many passed turns as it has orders.
  let turns := List.replicate (data.numOrder stockNum) (Turn.mk t true)
  have stocks : ∀ turn ∈ turns, turn.t < stockNum := by
    intro turn member
    rw [List.eq_of_mem_replicate member]
    exact stock
  have passed : passes turns t = data.numOrder stockNum := by
    rw [passes, List.countP_replicate]
    simp
  rcases agree turns stocks with ⟨generators, cached, _, _, _, ran, _, _, _, _, complete⟩
  have length := (complete passed.ge).1
  rcases Nat.eq_zero_or_pos (data.partitionLength stockNum) with empty | positive
  · have some : turns = ⟨t, true⟩ :: List.replicate (data.numOrder stockNum - 1) ⟨t, true⟩ := by
      rw [← List.replicate_succ, Nat.sub_add_cancel loadable.numOrder_pos]
    rw [some, runCached_zero uninit loadable empty stock] at ran
    contradiction
  · rcases runCached_spec uninit loadable types positive stocks with ⟨state, ran', inv⟩
    cases ran.symm.trans ran'
    have drawn : cached t = ((data.sortedOrders stockNum t).take
        (numPartition * data.partitionLength stockNum)).take (passes turns t) := inv.drawn t stock
    have below : numPartition * data.partitionLength stockNum ≤ data.numOrder stockNum :=
      Nat.mul_div_le _ _
    rw [drawn, List.length_take, List.length_take] at length
    exact ⟨data.partitionLength stockNum, by omega⟩

/-- The two modes agree on a stock exactly when its number of orders is a multiple
of the number of parts; else the orders after the last whole part are lost, or
there is no whole part at all. -/
theorem modesAgree_iff (uninit : Order P) (loadable : data.Loadable stockNum)
    (types : OrderTypes data) {t : Nat} (stock : t < stockNum) :
    ModesAgree uninit data stockNum t ↔ 10 ∣ data.nx * data.ny * data.nz / stockNum := by
  constructor
  · exact dvd_of_modesAgree loadable types stock
  · intro whole
    exact modesAgree_of_dvd uninit loadable types whole stock

end Modes

/-- Ten stocks with `n` orders each, all alike but for their ids. -/
def tenRows (n : Nat) : Dataset Int where
  nx := 10
  ny := 1
  nz := n
  matrices :=
    { orderId := (List.replicate 10 ((List.range n).map fun (i : Nat) => (i : Int) + 1)).flatten
      direction := List.replicate (10 * n) 1
      type := List.replicate (10 * n) 0
      price := List.replicate (10 * n) 100
      volume := List.replicate (10 * n) 5 }
  orderId_length := by
    rw [List.length_flatten, List.map_replicate, List.sum_replicate]
    simp
  direction_length := by simp
  type_length := by simp
  price_length := by simp
  volume_length := by simp

theorem tenRows_loadable {n : Nat} (positive : 0 < n) (bounded : n ≤ 1024) :
    (tenRows n).Loadable 10 :=
  ⟨Nat.succ_pos 9, Nat.one_pos, positive, Nat.le_of_ble_eq_true rfl, Nat.one_le_ofNat, bounded,
    dvd_refl _⟩

theorem tenRows_orderTypes (n : Nat) : OrderTypes (tenRows n) := by
  intro type member
  rw [List.eq_of_mem_replicate member]
  decide

/-- Of 11 orders of a stock, 10 are drawn in mode 0 and 11 in mode 2. -/
theorem modesAgree_fails :
    (tenRows 11).Loadable 10 ∧ OrderTypes (tenRows 11) ∧
      (runCached ⟨0, 0, 0, 0, 0, 0⟩ (tenRows 11) 10 (List.replicate 11 ⟨0, true⟩)).map
        (fun state => (state.2 0).map Order.orderId) = some [1, 2, 3, 4, 5, 6, 7, 8, 9, 10] ∧
      (runAllInMemory (tenRows 11) 10 (List.replicate 11 ⟨0, true⟩)).map
        (fun state => (state.2 0).map Order.orderId) = some [1, 2, 3, 4, 5, 6, 7, 8, 9, 10, 11] ∧
      ¬ ModesAgree ⟨0, 0, 0, 0, 0, 0⟩ (tenRows 11) 10 0 := by
  have loadable : (tenRows 11).Loadable 10 := tenRows_loadable (by decide) (by decide)
  refine ⟨loadable, tenRows_orderTypes 11, by decide +kernel, by decide +kernel, ?_⟩
  intro agree
  have whole := dvd_of_modesAgree loadable (tenRows_orderTypes 11) (by decide) agree
  revert whole
  decide

/-- With 10 orders of each stock the modes agree. -/
theorem modesAgree_ten : ModesAgree ⟨0, 0, 0, 0, 0, 0⟩ (tenRows 10) 10 0 :=
  (modesAgree_iff ⟨0, 0, 0, 0, 0, 0⟩ (tenRows_loadable (by decide) (by decide))
    (tenRows_orderTypes 10) (by decide)).mpr (by decide)

end PpiwTrading.Trader

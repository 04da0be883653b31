import PpiwTrading.Trader.LoadModes

/-!
# The controller of load mode 0

`TraderController::run` draws the orders of a stock from an `OrderGenerator` and
commits an order when it has passed the check; its loops are those of
`run_all_in_memory` else.  It is the controller of load mode 2 on the orders of the
ten whole parts: each step of the one is a step of the other, whatever the receiver
does in between.
-/

namespace PpiwTrading.Trader

variable {P : Type}

/-- The process of a trader in load mode 0, which does not use
`next_sorted_struct_idx`, and the `OrderGenerator` of its controller. -/
structure CachedTrader (P : Type) where
  trader : TraderState P
  orderGen : List (StockGenerator P)

namespace CachedTrader

/-- `load_data` and the `OrderGenerator` of `run`. -/
def new (uninit : Order P) (data : Dataset P) (stockNum : Nat) (input : TraderInput P) :
    Option (CachedTrader P) := do
  let files ← dumpCache data stockNum
  pure
    { trader := TraderState.new input
      orderGen := files.map (StockGenerator.new uninit (data.partitionLength stockNum)) }

/-- The rest of a turn of the inner loop of `run`, after `generate_order` has shown an
order of the stock at index `t` and left the generator `ready`. -/
def turn [LinearOrder P] (input : TraderInput P) (cached : CachedTrader P) (t : Nat)
    (orderIdLimits : Int) (ready : StockGenerator P) (order : Order P) : CachedTrader P :=
  let trader := cached.trader
  let shown := cached.orderGen.set t ready
  if order.type = -1 then ⟨{ trader with pc := .scan (t + 1) }, shown⟩
  else
    match checkOrder input trader.info order orderIdLimits (t + 1) with
    | .error fault => ⟨{ trader with fault := some fault }, shown⟩
    | .ok none => ⟨{ trader with pc := .scan (t + 1) }, shown⟩
    | .ok (some checked) =>
        ⟨{ trader with orderToSend := trader.orderToSend ++ [checked] },
          cached.orderGen.set t ready.commit⟩

/-- One step of `run`; `none` while `put_order` waits, and where `generate_order` reads
outside of its buffers. -/
def control [LinearOrder P] (uninit : Order P) (length : Nat) (config : Config)
    (input : TraderInput P) (cached : CachedTrader P) : Option (CachedTrader P) :=
  match cached.trader.pc with
  | .collect t orderIdLimits => do
      let generator ← cached.orderGen[t]?
      let (ready, order) ← generator.generateOrder uninit length (t + 1)
      pure (cached.turn input t orderIdLimits ready order)
  | _ => (cached.trader.control config input).map fun trader => { cached with trader }

end CachedTrader

/-- Set the position in the sorted orders of each stock. -/
def TraderState.withIdx (trader : TraderState P) (idx : Int → Nat) : TraderState P :=
  { trader with nextSortedStructIdx := idx }

/-- The processes of a trader in the two load modes are in the same state, and the
generators still have the orders to hand out that the other controller has not come to. -/
structure Mirrors (length : Nat) (config : Config) (input : TraderInput P)
    (cached : CachedTrader P) (trader : TraderState P) : Prop where
  same : trader = cached.trader.withIdx trader.nextSortedStructIdx
  delivers : ∀ t < config.stockNum, ∃ generator,
    cached.orderGen[t]? = some generator ∧
      generator.Delivers length
        ((input.sortedOrders (t + 1)).drop (trader.nextSortedStructIdx (t + 1)))
  collecting : ∀ {t orderIdLimits}, trader.pc = .collect t orderIdLimits → t < config.stockNum

section Mirrors

variable {length : Nat} {config : Config} {input : TraderInput P} {cached : CachedTrader P}
  {trader : TraderState P}

/-- The generator of a stock is replaced by one that has as many orders to hand out as
are left after the step. -/
theorem Mirrors.set (mirrors : Mirrors length config input cached trader) {t : Nat}
    {generator : StockGenerator P} {cachedTrader' trader' : TraderState P}
    (same : trader' = cachedTrader'.withIdx trader'.nextSortedStructIdx)
    (here : generator.Delivers length
      ((input.sortedOrders (t + 1)).drop (trader'.nextSortedStructIdx (t + 1))))
    (elsewhere : ∀ t' ≠ t, trader'.nextSortedStructIdx ((t' : Int) + 1) =
      trader.nextSortedStructIdx (t' + 1))
    (collecting : ∀ {t orderIdLimits}, trader'.pc = .collect t orderIdLimits →
      t < config.stockNum) :
    Mirrors length config input ⟨cachedTrader', cached.orderGen.set t generator⟩ trader' where
  same := same
  delivers := by
    intro t' stock
    rcases mirrors.delivers t' stock with ⟨generator', stored, delivers⟩
    have inside : t' < cached.orderGen.length := (List.getElem?_eq_some_iff.mp stored).1
    by_cases isHere : t' = t
    · subst isHere
      exact ⟨generator, List.getElem?_set_self inside, here⟩
    · use generator'
      rw [List.getElem?_set_ne (Ne.symm isHere), elsewhere t' isHere]
      exact ⟨stored, delivers⟩
  collecting := collecting

/-- A step that leaves the generators and the positions as they are. -/
theorem Mirrors.keep (mirrors : Mirrors length config input cached trader)
    {cachedTrader' : TraderState P}
    (collecting : ∀ {t orderIdLimits}, cachedTrader'.pc = .collect t orderIdLimits →
      t < config.stockNum) :
    Mirrors length config input ⟨cachedTrader', cached.orderGen⟩
      (cachedTrader'.withIdx trader.nextSortedStructIdx) :=
  ⟨rfl, mirrors.delivers, collecting⟩

section Control

variable [LinearOrder P]

/-- A turn in which `generate_order` shows the end marker. -/
theorem Mirrors.turn_end (mirrors : Mirrors length config input cached trader) {t : Nat}
    {orderIdLimits : Int} {generator : StockGenerator P} {uninit : Order P}
    (delivers : generator.Delivers length
      ((input.sortedOrders (t + 1)).drop (trader.nextSortedStructIdx (t + 1))))
    (finished : (input.sortedOrders (t + 1)).drop (trader.nextSortedStructIdx (t + 1)) = []) :
    Mirrors length config input
      (cached.turn input t orderIdLimits generator { uninit with type := -1 })
      (TraderState.collect input trader t orderIdLimits) := by
  have nothing : TraderState.nextOrder input trader (t + 1) = none := by
    rw [TraderState.nextOrder, List.getElem?_eq_none (List.drop_eq_nil_iff.mp finished)]
    rfl
  simp only [CachedTrader.turn, TraderState.collect, nothing, if_true]
  apply mirrors.set
  · rw [mirrors.same]
    rfl
  · exact delivers
  · exact fun _ _ => rfl
  · intro t' orderIdLimits' collecting
    cases collecting

/-- A turn in which `generate_order` shows an order: the two controllers check the same
order and go on alike. -/
theorem Mirrors.turn_order (mirrors : Mirrors length config input cached trader) {t : Nat}
    {orderIdLimits : Int} {ready : StockGenerator P} {order : Order P} {later : List (Order P)}
    (left : (input.sortedOrders (t + 1)).drop (trader.nextSortedStructIdx (t + 1)) =
      order :: later)
    (type : order.type ≠ -1)
    (deliversReady : ready.Delivers length
      ((input.sortedOrders (t + 1)).drop (trader.nextSortedStructIdx (t + 1))))
    (deliversNext : ready.commit.Delivers length later) :
    Mirrors length config input
      (cached.turn input t orderIdLimits ready { order with stkCode := t + 1 })
      (TraderState.collect input trader t orderIdLimits) := by
  have next : TraderState.nextOrder input trader (t + 1) =
      some { order with stkCode := t + 1 } := by
    rw [TraderState.nextOrder, ← List.head?_drop, left]
    rfl
  have sameInfo : cached.trader.info = trader.info := by
    rw [mirrors.same]
    rfl
  simp only [CachedTrader.turn, TraderState.collect, next, if_neg type, sameInfo]
  cases checkOrder input trader.info { order with stkCode := (t : Int) + 1 } orderIdLimits
      (t + 1) with
  | error fault =>
      apply mirrors.set
      · rw [mirrors.same]
        rfl
      · exact deliversReady
      · exact fun _ _ => rfl
      · exact mirrors.collecting
  | ok outcome =>
      cases outcome with
      | none =>
          apply mirrors.set
          · rw [mirrors.same]
            rfl
          · exact deliversReady
          · exact fun _ _ => rfl
          · intro t' orderIdLimits' collecting'
            cases collecting'
      | some checked =>
          apply mirrors.set
          · rw [mirrors.same]
            rfl
          · simp only [TraderState.accept]
            rw [Function.update_self, ← List.drop_drop, left]
            exact deliversNext
          · intro t' other
            apply Function.update_of_ne
            omega
          · exact mirrors.collecting

/-- A step of the controller in the two load modes. -/
theorem Mirrors.control (mirrors : Mirrors length config input cached trader)
    (positive : 0 < length)
    (types : ∀ t < config.stockNum, ∀ order ∈ input.sortedOrders (t + 1), order.type ≠ -1)
    (uninit : Order P) :
    Option.Rel (Mirrors length config input) (cached.control uninit length config input)
      (trader.control config input) := by
  have samePc : cached.trader.pc = trader.pc := by
    rw [mirrors.same]
    rfl
  cases at_ : trader.pc with
  | scan t =>
      rw [mirrors.same]
      simp only [CachedTrader.control, TraderState.control, TraderState.withIdx, samePc, at_]
      split
      · rename_i stock
        apply Option.Rel.some
        apply mirrors.keep
        rintro t' orderIdLimits' ⟨⟩
        exact stock
      · apply Option.Rel.some
        apply mirrors.keep
        rintro t' orderIdLimits' ⟨⟩
  | collect t orderIdLimits =>
      have stock := mirrors.collecting at_
      rcases mirrors.delivers t stock with ⟨generator, stored, delivers⟩
      simp only [CachedTrader.control, TraderState.control, samePc, at_, stored,
        Option.bind_eq_bind, Option.bind_some]
      rcases delivers.generateOrder positive uninit (t + 1) with
        ⟨finished, shown⟩ | ⟨order, later, ready, left, shown, _, deliversReady, deliversNext⟩
      · rw [shown]
        exact .some (mirrors.turn_end delivers finished)
      · have member : order ∈ input.sortedOrders (t + 1) := by
          apply List.mem_of_mem_drop
          rw [left]
          exact List.mem_cons_self
        rw [shown]
        exact .some (mirrors.turn_order left (types t stock order member) deliversReady
          deliversNext)
  | send =>
      rw [mirrors.same]
      simp only [CachedTrader.control, TraderState.control, TraderState.withIdx,
        TraderState.putOrder, samePc, at_]
      split
      · apply Option.Rel.some
        apply mirrors.keep
        rintro t' orderIdLimits' ⟨⟩
      · split
        · apply Option.Rel.some
          apply mirrors.keep
          rintro t' orderIdLimits' ⟨⟩
        · exact .none

end Control

/-- A trader that has loaded its orders mirrors one that has the orders of the ten whole
parts in memory. -/
theorem Mirrors.new (uninit : Order P) {data : Dataset P}
    (loadable : data.Loadable config.stockNum)
    (loaded : ∀ t < config.stockNum, input.sortedOrders (t + 1) =
      (data.sortedOrders config.stockNum t).take
        (numPartition * data.partitionLength config.stockNum)) :
    ∃ orderGen, CachedTrader.new uninit data config.stockNum input =
        some ⟨TraderState.new input, orderGen⟩ ∧
      Mirrors (data.partitionLength config.stockNum) config input
        ⟨TraderState.new input, orderGen⟩ (TraderState.new input) := by
  have count : data.partitionLength config.stockNum =
      data.numOrder config.stockNum / numPartition := rfl
  rw [CachedTrader.new, dumpCache_eq loadable]
  refine ⟨_, rfl, rfl, ?_, ?_⟩
  · intro t stock
    have enough : numPartition * data.partitionLength config.stockNum ≤
        (data.sortedOrders config.stockNum t).length := by
      rw [loadable.length_sortedOrders stock, count]
      exact Nat.mul_div_le _ _
    refine ⟨StockGenerator.new uninit (data.partitionLength config.stockNum)
      (Columns.ofOrders (data.sortedOrders config.stockNum t)), ?_, ?_⟩
    · simp [stock]
    · rw [loaded t stock]
      exact StockGenerator.delivers_new uninit enough
  · rintro t orderIdLimits ⟨⟩

/-! ## The other steps of the process -/

/-- A step that leaves the controller where it is and does not look at the positions. -/
theorem Mirrors.frame (mirrors : Mirrors length config input cached trader)
    {cachedTrader' trader' : TraderState P} (samePc : cachedTrader'.pc = cached.trader.pc)
    (same : trader' = cachedTrader'.withIdx trader.nextSortedStructIdx) :
    Mirrors length config input ⟨cachedTrader', cached.orderGen⟩ trader' := by
  rw [same]
  apply mirrors.keep
  intro t orderIdLimits collecting
  rw [samePc] at collecting
  have here : trader.pc = .collect t orderIdLimits := by
    rw [mirrors.same]
    exact collecting
  exact mirrors.collecting here

/-- A sender takes an order from its queue. -/
theorem Mirrors.pollOrder (mirrors : Mirrors length config input cached trader) (e : Nat) :
    Option.Rel (fun cachedTrader' => Mirrors length config input ⟨cachedTrader', cached.orderGen⟩)
      (cached.trader.pollOrder e) (trader.pollOrder e) := by
  rw [mirrors.same]
  simp only [TraderState.pollOrder, TraderState.withIdx]
  split
  · exact .some (mirrors.frame rfl rfl)
  · exact .none

/-- A sender sends its order. -/
theorem Mirrors.sendOrder (mirrors : Mirrors length config input cached trader) (e : Nat) :
    Option.Rel (fun cachedSending sending => cachedSending.1 = sending.1 ∧
        Mirrors length config input ⟨cachedSending.2, cached.orderGen⟩ sending.2)
      (cached.trader.sendOrder e) (trader.sendOrder e) := by
  rw [mirrors.same]
  simp only [TraderState.sendOrder, TraderState.withIdx]
  split
  · exact .none
  · exact .some ⟨rfl, mirrors.frame rfl rfl⟩

/-- The receiver processes a message. -/
theorem Mirrors.receive (mirrors : Mirrors length config input cached trader) (e : Nat)
    (msg : Msg P) :
    Mirrors length config input ⟨cached.trader.receive e msg, cached.orderGen⟩
      (trader.receive e msg) := by
  have applied : ∀ idx, (cached.trader.withIdx idx).receive e msg =
        (cached.trader.receive e msg).withIdx idx ∧
      (cached.trader.receive e msg).pc = cached.trader.pc := by
    intro idx
    cases msg with
    | ack ack =>
        simp only [TraderState.receive, TraderState.processOrderAck, TraderState.withIdx]
        split
        · exact ⟨rfl, rfl⟩
        · exact ⟨rfl, rfl⟩
    | trade trade =>
        simp only [TraderState.receive, TraderState.processTradeResult, TraderState.withIdx]
        split
        · exact ⟨rfl, rfl⟩
        · exact ⟨rfl, rfl⟩
  apply mirrors.frame (applied trader.nextSortedStructIdx).2
  rw [← (applied trader.nextSortedStructIdx).1, ← mirrors.same]

end Mirrors

end PpiwTrading.Trader

import PpiwTrading.Trader.Process

/-!
# What a trader knows and what it has dispatched

`Informed` says that the shared information is the reading of the messages that
have been received.  `Dispatched` says that the orders a trader has let through
are the checked forms of an initial part of its input, that all of them are in
its window, and that each is on the way to the exchange of its stock.

Both are kept by every step of the process.  The controller and the senders
never change what a trader knows; the receiver changes nothing else.
-/

namespace PpiwTrading.Trader

variable {P : Type}

namespace TraderState

/-- The orders handed to the sender of an exchange, the oldest first. -/
def outbox (trader : TraderState P) (exchangeIdx : Nat) : List (Order P) :=
  trader.sent exchangeIdx ++ (trader.orderMsg exchangeIdx).toList ++
    trader.orderQueue exchangeIdx

/-- The orders of a stock that have passed the check, the oldest first. -/
def accepted (config : Config) (trader : TraderState P) (stkCode : Int) : List (Order P) :=
  (trader.outbox (config.exchangeOf stkCode) ++ trader.orderToSend).filter
    fun o => o.stkCode = stkCode

end TraderState

/-- The shared information is the reading of the messages seen. -/
structure Informed (config : Config) (input : TraderInput P) (info : SharedTradeInfo)
    (tradeIdxs : Int → Int) (seen : Nat → List (Msg P)) : Prop where
  starts : ∀ s, info.slidingWindowStart s = lastAck s (seen (config.exchangeOf s)) + 1
  tradeIdxs_eq : ∀ s, tradeIdxs s = (tradesOf s (seen (config.exchangeOf s))).length + 1
  hooked : ∀ s k, info.hookedTrade s k =
    (input.hookedTrade s k).map fun _ => tradeVolume (tradesOf s (seen (config.exchangeOf s))) k

theorem Informed.new (config : Config) (input : TraderInput P) :
    Informed config input (TraderState.new input).info (TraderState.new input).tradeIdxs
      (TraderState.new input).seen where
  starts := fun _ => rfl
  tradeIdxs_eq := fun _ => rfl
  hooked := by
    intro s k
    change input.hookedTrade s k = _
    cases hooked : input.hookedTrade s k with
    | none => rfl
    | some v =>
        have notReady : v = -1 := loadHook_not_ready input.hookRows hooked
        have unseen : tradeVolume (tradesOf s ([] : List (Msg P))) k = -1 := by
          by_cases positive : 1 ≤ k
          · exact tradeVolume_of_length_lt (by simp [tradesOf]; omega)
          · exact if_neg positive
        rw [Option.map_some, notReady]
        exact congrArg some unseen.symm

/-! ## Receiving a message -/

section Receive

variable {config : Config} {input : TraderInput P} {trader : TraderState P}

/-- An acknowledgement that is not older than the last one moves the window. -/
theorem Informed.processOrderAck
    (informed : Informed config input trader.info trader.tradeIdxs trader.seen)
    {ack : OrderAck} (current : lastAck ack.stkCode
      (trader.seen (config.exchangeOf ack.stkCode)) ≤ ack.orderId) :
    trader.processOrderAck ack =
      { trader with
        info :=
          { trader.info with
            slidingWindowStart := Function.update trader.info.slidingWindowStart ack.stkCode
              (ack.orderId + 1) } } := by
  have notBack : ack.orderId + 1 ≥ trader.info.slidingWindowStart ack.stkCode := by
    rw [informed.starts]
    omega
  simp only [TraderState.processOrderAck, SharedTradeInfo.updateSlidingWindowStart,
    if_pos notBack]

/-- A trade is stored at its number, which has not been stored before. -/
theorem Informed.processTradeResult
    (informed : Informed config input trader.info trader.tradeIdxs trader.seen) (trade : Trade P) :
    ∃ info, trader.processTradeResult trade =
        { trader with
          info := info
          tradeIdxs := Function.update trader.tradeIdxs trade.stkCode
            (trader.tradeIdxs trade.stkCode + 1) } ∧
      info.slidingWindowStart = trader.info.slidingWindowStart ∧
      ∀ s k, info.hookedTrade s k =
        if s = trade.stkCode ∧ k = trader.tradeIdxs trade.stkCode then
          (trader.info.hookedTrade s k).map fun _ => trade.volume
        else trader.info.hookedTrade s k := by
  cases stored : trader.info.hookedTrade trade.stkCode (trader.tradeIdxs trade.stkCode) with
  | none =>
      refine ⟨trader.info, ?_, rfl, ?_⟩
      · simp only [TraderState.processTradeResult, SharedTradeInfo.updateIfHooked, stored]
      · intro s k
        split
        · rename_i same
          rw [same.1, same.2, stored]
          rfl
        · rfl
  | some v =>
      have unseen : v = -1 := by
        have value := informed.hooked trade.stkCode (trader.tradeIdxs trade.stkCode)
        rw [stored, informed.tradeIdxs_eq, tradeVolume_of_length_lt (by omega)] at value
        cases initial : input.hookedTrade trade.stkCode
            ((tradesOf trade.stkCode
              (trader.seen (config.exchangeOf trade.stkCode))).length + 1) with
        | none =>
            rw [initial] at value
            cases value
        | some w =>
            rw [initial] at value
            exact Option.some.inj value
      refine
        ⟨{ trader.info with
            hookedTrade := fun s k =>
              if s = trade.stkCode ∧ k = trader.tradeIdxs trade.stkCode then some trade.volume
              else trader.info.hookedTrade s k }, ?_, rfl, ?_⟩
      · simp only [TraderState.processTradeResult, SharedTradeInfo.updateIfHooked, stored,
          if_pos unseen]
      · intro s k
        simp only
        split
        · rename_i same
          rw [same.1, same.2, stored]
          rfl
        · rfl

/-- What a stock reads from a message that is added to the log of its exchange. -/
theorem acksOf_seen (seen : Nat → List (Msg P)) {msg : Msg P} {exchangeIdx : Nat}
    (origin : config.exchangeOf msg.stkCode = exchangeIdx) (s : Int) :
    acksOf s (Function.update seen exchangeIdx (seen exchangeIdx ++ [msg])
        (config.exchangeOf s)) =
      acksOf s (seen (config.exchangeOf s)) ++ acksOf s [msg] := by
  by_cases same : config.exchangeOf s = exchangeIdx
  · rw [same, Function.update_self, acksOf_append]
  · have foreign : msg.stkCode ≠ s := by
      rintro rfl
      exact same origin
    rw [Function.update_of_ne same, acksOf_of_ne foreign, List.append_nil]

theorem tradesOf_seen (seen : Nat → List (Msg P)) {msg : Msg P} {exchangeIdx : Nat}
    (origin : config.exchangeOf msg.stkCode = exchangeIdx) (s : Int) :
    tradesOf s (Function.update seen exchangeIdx (seen exchangeIdx ++ [msg])
        (config.exchangeOf s)) =
      tradesOf s (seen (config.exchangeOf s)) ++ tradesOf s [msg] := by
  by_cases same : config.exchangeOf s = exchangeIdx
  · rw [same, Function.update_self, tradesOf_append]
  · have foreign : msg.stkCode ≠ s := by
      rintro rfl
      exact same origin
    rw [Function.update_of_ne same, tradesOf_of_ne foreign, List.append_nil]

/-- The tables after an acknowledgement read the log with it. -/
theorem Informed.snocAck
    (informed : Informed config input trader.info trader.tradeIdxs trader.seen) {ack : OrderAck}
    {exchangeIdx : Nat}
    (origin : config.exchangeOf (Msg.ack ack : Msg P).stkCode = exchangeIdx) :
    Informed config input
      { trader.info with
        slidingWindowStart := Function.update trader.info.slidingWindowStart ack.stkCode
          (ack.orderId + 1) }
      trader.tradeIdxs
      (Function.update trader.seen exchangeIdx (trader.seen exchangeIdx ++ [.ack ack])) := by
  have acks := acksOf_seen trader.seen origin
  have trades := tradesOf_seen trader.seen origin
  constructor
  · intro s
    rw [lastAck, acks]
    by_cases same : s = ack.stkCode
    · subst same
      simp
    · have foreign : (Msg.ack ack : Msg P).stkCode ≠ s := Ne.symm same
      rw [acksOf_of_ne foreign, List.append_nil]
      simp only [Function.update_of_ne same]
      exact informed.starts s
  · intro s
    rw [trades, tradesOf_ack, List.append_nil]
    exact informed.tradeIdxs_eq s
  · intro s k
    rw [trades, tradesOf_ack, List.append_nil]
    exact informed.hooked s k

/-- The tables after a trade, stored at its number, read the log with it. -/
theorem Informed.snocTrade
    (informed : Informed config input trader.info trader.tradeIdxs trader.seen) {trade : Trade P}
    {exchangeIdx : Nat} (origin : config.exchangeOf (Msg.trade trade).stkCode = exchangeIdx)
    {info : SharedTradeInfo}
    (sameStarts : info.slidingWindowStart = trader.info.slidingWindowStart)
    (stored : ∀ s k, info.hookedTrade s k =
      if s = trade.stkCode ∧ k = trader.tradeIdxs trade.stkCode then
        (trader.info.hookedTrade s k).map fun _ => trade.volume
      else trader.info.hookedTrade s k) :
    Informed config input info
      (Function.update trader.tradeIdxs trade.stkCode (trader.tradeIdxs trade.stkCode + 1))
      (Function.update trader.seen exchangeIdx (trader.seen exchangeIdx ++ [.trade trade])) := by
  have acks := acksOf_seen trader.seen origin
  have trades := tradesOf_seen trader.seen origin
  constructor
  · intro s
    rw [sameStarts, lastAck, acks, acksOf_trade, List.append_nil]
    exact informed.starts s
  · intro s
    rw [trades]
    by_cases same : s = trade.stkCode
    · subst same
      rw [Function.update_self, tradesOf_trade_self rfl, informed.tradeIdxs_eq]
      simp
    · rw [Function.update_of_ne same, tradesOf_of_ne (Ne.symm same), List.append_nil]
      exact informed.tradeIdxs_eq s
  · intro s k
    rw [stored, trades]
    by_cases same : s = trade.stkCode
    · subst same
      rw [tradesOf_trade_self rfl, tradeVolume_snoc, informed.tradeIdxs_eq, informed.hooked]
      by_cases now : k = ((tradesOf trade.stkCode
          (trader.seen (config.exchangeOf trade.stkCode))).length : Int) + 1
      · rw [if_pos ⟨rfl, now⟩, if_pos now, Option.map_map]
        rfl
      · rw [if_neg (by simp [now]), if_neg now]
    · rw [if_neg (by simp [same]), tradesOf_of_ne (Ne.symm same), List.append_nil]
      exact informed.hooked s k

/-- A message from the exchange of its stock, with no acknowledgement older
than the last one, is received without a fault. -/
theorem Informed.receive
    (informed : Informed config input trader.info trader.tradeIdxs trader.seen)
    {msg : Msg P} {exchangeIdx : Nat} (origin : config.exchangeOf msg.stkCode = exchangeIdx)
    (current : ∀ ack, msg = .ack ack →
      lastAck ack.stkCode (trader.seen (config.exchangeOf ack.stkCode)) ≤ ack.orderId) :
    ∃ info tradeIdxs, trader.receive exchangeIdx msg =
        { trader with
          info := info
          tradeIdxs := tradeIdxs
          seen := Function.update trader.seen exchangeIdx (trader.seen exchangeIdx ++ [msg]) } ∧
      Informed config input info tradeIdxs
        (Function.update trader.seen exchangeIdx (trader.seen exchangeIdx ++ [msg])) := by
  cases msg with
  | ack ack =>
      refine ⟨_, _, ?_, informed.snocAck origin⟩
      simp only [TraderState.receive, informed.processOrderAck (current ack rfl)]
  | trade trade =>
      rcases informed.processTradeResult trade with ⟨info, processed, sameStarts, stored⟩
      refine ⟨info, _, ?_, informed.snocTrade origin sameStarts stored⟩
      simp only [TraderState.receive, processed]

/-- What a trader knows only grows: windows do not move back, and a volume
that is ready stays. -/
structure Grows (info info' : SharedTradeInfo) : Prop where
  starts : ∀ s, info.slidingWindowStart s ≤ info'.slidingWindowStart s
  hooked : ∀ s k v, info.hookedTrade s k = some v → v ≠ -1 → info'.hookedTrade s k = some v

theorem Grows.refl (info : SharedTradeInfo) : Grows info info :=
  ⟨fun _ => le_refl _, fun _ _ _ stored _ => stored⟩

theorem Grows.trans {info info' info'' : SharedTradeInfo} (first : Grows info info')
    (second : Grows info' info'') : Grows info info'' where
  starts := fun s => (first.starts s).trans (second.starts s)
  hooked := fun s k v stored ready => second.hooked s k v (first.hooked s k v stored ready) ready

/-- Receiving a message only adds to what a trader knows. -/
theorem Informed.grows {info info' : SharedTradeInfo} {tradeIdxs tradeIdxs' : Int → Int}
    {seen : Nat → List (Msg P)} {msg : Msg P} {exchangeIdx : Nat}
    (informed : Informed config input info tradeIdxs seen)
    (informed' : Informed config input info' tradeIdxs'
      (Function.update seen exchangeIdx (seen exchangeIdx ++ [msg])))
    (origin : config.exchangeOf msg.stkCode = exchangeIdx)
    (current : ∀ ack, msg = .ack ack →
      lastAck ack.stkCode (seen (config.exchangeOf ack.stkCode)) ≤ ack.orderId) :
    Grows info info' where
  starts := by
    intro s
    rw [informed.starts, informed'.starts, lastAck, lastAck, acksOf_seen seen origin]
    cases msg with
    | trade trade => simp
    | ack ack =>
        by_cases same : s = ack.stkCode
        · subst same
          have newer := current ack rfl
          rw [lastAck] at newer
          simp only [acksOf_ack_self]
          simpa using newer
        · have foreign : (Msg.ack ack : Msg P).stkCode ≠ s := Ne.symm same
          rw [acksOf_of_ne foreign, List.append_nil]
  hooked := by
    intro s k v stored ready
    rw [informed.hooked] at stored
    rw [informed'.hooked, tradesOf_seen seen origin]
    cases initial : input.hookedTrade s k with
    | none =>
        rw [initial] at stored
        cases stored
    | some w =>
        rw [initial, Option.map_some, Option.some.injEq] at stored
        rw [Option.map_some, tradeVolume_append (by rw [stored]; exact ready), stored]

end Receive

/-! ## The orders on their way -/

section Dispatch

variable [LinearOrder P]

/-- `checked` is the form in which an order of the input is let through. -/
def Checked (input : TraderInput P) (info : SharedTradeInfo) (stkCode : Int)
    (data checked : Order P) : Prop :=
  input.hook stkCode data.orderId = none ∧
      checked = checkPriceLimit input stkCode (TraderState.generateOrder stkCode data) ∨
    ∃ ht v, input.hook stkCode data.orderId = some ht ∧
      info.hookedTrade ht.targetStkCode ht.targetTradeIdx = some v ∧ v ≠ -1 ∧
      checked = checkPriceLimit input stkCode
        (checkHookedVolume ht v (TraderState.generateOrder stkCode data))

theorem checkPriceLimit_fields (input : TraderInput P) (stkCode : Int) (order : Order P) :
    checkPriceLimit input stkCode order =
      { order with type := (checkPriceLimit input stkCode order).type } := by
  unfold checkPriceLimit
  split <;> rfl

omit [LinearOrder P] in
theorem checkHookedVolume_fields (ht : HookTarget) (v : Int) (order : Order P) :
    checkHookedVolume ht v order =
      { order with type := (checkHookedVolume ht v order).type } := by
  unfold checkHookedVolume
  split <;> rfl

/-- The check rewrites the type of an order and nothing else. -/
theorem Checked.fields {input : TraderInput P} {info : SharedTradeInfo} {stkCode : Int}
    {data checked : Order P} (isChecked : Checked input info stkCode data checked) :
    checked = { data with stkCode := stkCode, type := checked.type } := by
  rcases isChecked with ⟨_, rfl⟩ | ⟨ht, v, _, _, _, rfl⟩
  · exact checkPriceLimit_fields input stkCode (TraderState.generateOrder stkCode data)
  · rw [checkPriceLimit_fields, checkHookedVolume_fields]
    rfl

theorem Checked.grows {input : TraderInput P} {info info' : SharedTradeInfo} {stkCode : Int}
    {data checked : Order P} (isChecked : Checked input info stkCode data checked)
    (grows : Grows info info') : Checked input info' stkCode data checked := by
  rcases isChecked with unhooked | ⟨ht, v, hooked, stored, ready, rewritten⟩
  · exact Or.inl unhooked
  · exact Or.inr ⟨ht, v, hooked, grows.hooked _ _ _ stored ready, ready, rewritten⟩

/-- A hooked order that was let through has its target recorded and its type
rewritten accordingly. -/
theorem Checked.of_hook {input : TraderInput P} {info : SharedTradeInfo} {s : Int}
    {data checked : Order P} (isChecked : Checked input info s data checked) {ht : HookTarget}
    (hooked : input.hook s data.orderId = some ht) :
    ∃ v, info.hookedTrade ht.targetStkCode ht.targetTradeIdx = some v ∧ v ≠ -1 ∧
      checked.type =
        if v > ht.arg then -1
        else (checkPriceLimit input s (TraderState.generateOrder s data)).type := by
  rcases isChecked with ⟨unhooked, _⟩ | ⟨ht', v, hooked', stored, ready, rfl⟩
  · rw [hooked] at unhooked
    cases unhooked
  · rw [hooked] at hooked'
    cases hooked'
    refine ⟨v, stored, ready, ?_⟩
    by_cases exceeds : v > ht.arg
    · simp [checkHookedVolume, checkPriceLimit, exceeds]
    · simp [checkHookedVolume, exceeds]

/-- The orders that a trader has let through. -/
structure Dispatched (config : Config) (input : TraderInput P) (trader : TraderState P) :
    Prop where
  limits : ∀ t orderIdLimits, trader.pc = .collect t orderIdLimits → t < config.stockNum ∧
    orderIdLimits ≤ trader.info.slidingWindowStart (t + 1) + config.slidingWindowSize
  checked : ∀ s, List.Forall₂ (Checked input trader.info s)
    ((input.sortedOrders s).take (trader.nextSortedStructIdx s)) (trader.accepted config s)
  bounded : ∀ s, ∀ o ∈ trader.accepted config s,
    o.orderId < trader.info.slidingWindowStart s + config.slidingWindowSize
  routed : ∀ e, ∀ o ∈ trader.outbox e, config.Owns e o.stkCode
  listed : ∀ o ∈ trader.orderToSend, config.Listed o.stkCode

variable {config : Config} {input : TraderInput P} {trader trader' : TraderState P}

theorem Dispatched.new (config : Config) (input : TraderInput P) :
    Dispatched config input (TraderState.new input) where
  limits := by
    intro t orderIdLimits collecting
    cases collecting
  checked := fun _ => List.Forall₂.nil
  bounded := by
    intro s o member
    cases member
  routed := by
    intro e o member
    cases member
  listed := by
    intro o member
    cases member

omit [LinearOrder P] in
/-- Every element of the second of two related lists has a partner. -/
theorem exists_of_forall₂ {α β : Type} {R : α → β → Prop} {first : List α} {second : List β}
    (related : List.Forall₂ R first second) : ∀ b ∈ second, ∃ a ∈ first, R a b := by
  induction related with
  | nil =>
      intro b member
      cases member
  | cons isRelated _ inductionHypothesis =>
      intro b member
      rcases List.mem_cons.mp member with rfl | later
      · exact ⟨_, List.mem_cons_self, isRelated⟩
      · rcases inductionHypothesis b later with ⟨a, inFirst, related⟩
        exact ⟨a, List.mem_cons_of_mem _ inFirst, related⟩

theorem checked_ids {info : SharedTradeInfo} {s : Int} {data checked : List (Order P)}
    (pairs : List.Forall₂ (Checked input info s) data checked) :
    checked.map Order.orderId = data.map Order.orderId := by
  induction pairs with
  | nil => rfl
  | cons isChecked _ inductionHypothesis =>
      rw [List.map_cons, List.map_cons, inductionHypothesis, isChecked.fields]

/-- The ids that were let through are those of an initial part of the input. -/
theorem Dispatched.accepted_ids (dispatched : Dispatched config input trader) (s : Int) :
    (trader.accepted config s).map Order.orderId =
      ((input.sortedOrders s).take (trader.nextSortedStructIdx s)).map Order.orderId :=
  checked_ids (dispatched.checked s)

/-- An order that was let through is the checked form of an order of the input. -/
theorem Dispatched.exists_data (dispatched : Dispatched config input trader) {s : Int}
    {o : Order P} (member : o ∈ trader.accepted config s) :
    ∃ data ∈ input.sortedOrders s, Checked input trader.info s data o := by
  rcases exists_of_forall₂ (dispatched.checked s) o member with ⟨data, taken, isChecked⟩
  exact ⟨data, List.mem_of_mem_take taken, isChecked⟩

/-- An order that was handed to a sender was let through for its stock. -/
theorem Dispatched.mem_accepted (dispatched : Dispatched config input trader) {e : Nat}
    {o : Order P} (member : o ∈ trader.outbox e) :
    config.Owns e o.stkCode ∧ o ∈ trader.accepted config o.stkCode := by
  have owns := dispatched.routed e o member
  refine ⟨owns, ?_⟩
  rw [TraderState.accepted, owns.2]
  simp [member]

omit [LinearOrder P] in
theorem TraderState.mem_accepted_of_collected {o : Order P} (collected : o ∈ trader.orderToSend) :
    o ∈ trader.accepted config o.stkCode := by
  simp [TraderState.accepted, collected]

/-- A step that moves no order and knows at least as much keeps the invariant. -/
theorem Dispatched.frame (dispatched : Dispatched config input trader)
    (grows : Grows trader.info trader'.info)
    (limits : ∀ t orderIdLimits, trader'.pc = .collect t orderIdLimits → t < config.stockNum ∧
      orderIdLimits ≤ trader'.info.slidingWindowStart (t + 1) + config.slidingWindowSize)
    (sameIdx : trader'.nextSortedStructIdx = trader.nextSortedStructIdx)
    (sameOutbox : trader'.outbox = trader.outbox)
    (sameToSend : trader'.orderToSend = trader.orderToSend) :
    Dispatched config input trader' := by
  have sameAccepted : trader'.accepted config = trader.accepted config := by
    funext s
    rw [TraderState.accepted, TraderState.accepted, sameOutbox, sameToSend]
  constructor
  · exact limits
  · intro s
    rw [sameIdx, sameAccepted]
    exact (dispatched.checked s).imp fun _ _ isChecked => isChecked.grows grows
  · intro s o member
    rw [sameAccepted] at member
    have bounded := dispatched.bounded s o member
    have moved := grows.starts s
    omega
  · rw [sameOutbox]
    exact dispatched.routed
  · rw [sameToSend]
    exact dispatched.listed

/-- Collecting a checked order. -/
theorem Dispatched.accept (dispatched : Dispatched config input trader) {stkCode : Int}
    {data checked : Order P} {orderIdLimits : Int} (listed : config.Listed stkCode)
    (within : orderIdLimits ≤
      trader.info.slidingWindowStart stkCode + config.slidingWindowSize)
    (next : (input.sortedOrders stkCode)[trader.nextSortedStructIdx stkCode]? = some data)
    (passed : checkOrder input trader.info (TraderState.generateOrder stkCode data)
      orderIdLimits stkCode = .ok (some checked)) :
    Dispatched config input (trader.accept stkCode checked) := by
  rcases checkOrder_eq_some passed with ⟨below, rewritten⟩
  have isChecked : Checked input trader.info stkCode data checked := rewritten
  have fields := isChecked.fields
  have ownStock : checked.stkCode = stkCode := by rw [fields]
  have ownId : checked.orderId = data.orderId := by rw [fields]
  have appended : ∀ s, (trader.accept stkCode checked).accepted config s =
      trader.accepted config s ++ if s = stkCode then [checked] else [] := by
    intro s
    simp only [TraderState.accept, TraderState.accepted, TraderState.outbox]
    rw [← List.append_assoc, List.filter_append]
    congr 1
    by_cases same : s = stkCode
    · simp [same, ownStock]
    · simp [same, ownStock, Ne.symm same]
  constructor
  · exact dispatched.limits
  · intro s
    rw [appended]
    by_cases same : s = stkCode
    · subst same
      simp only [if_true, TraderState.accept, Function.update_self]
      rw [List.take_add_one, next]
      exact List.rel_append (dispatched.checked s)
        (List.Forall₂.cons isChecked List.Forall₂.nil)
    · simp only [if_neg same, List.append_nil, TraderState.accept, Function.update_of_ne same]
      exact dispatched.checked s
  · intro s o member
    rw [appended] at member
    rcases List.mem_append.mp member with old | new
    · exact dispatched.bounded s o old
    · split at new
      · rename_i same
        rw [List.mem_singleton.mp new, same, ownId]
        change data.orderId < orderIdLimits at below
        change data.orderId < trader.info.slidingWindowStart stkCode + _
        omega
      · cases new
  · exact dispatched.routed
  · intro o member
    rcases List.mem_append.mp member with old | new
    · exact dispatched.listed o old
    · rw [List.mem_singleton.mp new, ownStock]
      exact listed

omit [LinearOrder P] in
theorem outbox_putOrder (trader : TraderState P) (rest : List (Order P)) (order : Order P)
    (idx e : Nat) :
    (trader.putOrder idx order rest).outbox e =
      trader.outbox e ++ if e = idx then [order] else [] := by
  by_cases same : e = idx
  · simp [TraderState.putOrder, TraderState.outbox, same]
  · simp [TraderState.putOrder, TraderState.outbox, same]

/-- Handing the first collected order to the sender of its exchange. -/
theorem Dispatched.handOver (dispatched : Dispatched config input trader) {order : Order P}
    {rest : List (Order P)} (collected : trader.orderToSend = order :: rest) :
    Dispatched config input
      (trader.putOrder (config.exchangeOf order.stkCode) order rest) := by
  have sameAccepted : ∀ s,
      (trader.putOrder (config.exchangeOf order.stkCode) order rest).accepted config s =
      trader.accepted config s := by
    intro s
    rw [TraderState.accepted, TraderState.accepted, outbox_putOrder, collected,
      TraderState.putOrder]
    by_cases same : config.exchangeOf s = config.exchangeOf order.stkCode
    · simp [same]
    · have foreign : order.stkCode ≠ s := by
        rintro rfl
        exact same rfl
      simp [same, foreign]
  constructor
  · exact dispatched.limits
  · intro s
    rw [sameAccepted]
    exact dispatched.checked s
  · intro s o member
    rw [sameAccepted] at member
    exact dispatched.bounded s o member
  · intro e o member
    rw [outbox_putOrder] at member
    rcases List.mem_append.mp member with old | new
    · exact dispatched.routed e o old
    · split at new
      · rename_i same
        rw [List.mem_singleton.mp new, same]
        exact ⟨dispatched.listed order (by simp [collected]), rfl⟩
      · cases new
  · intro o member
    have inRest : o ∈ rest := member
    exact dispatched.listed o (by simp [collected, inRest])

/-- A step of a trader that receives and sends nothing. -/
structure Internal (trader trader' : TraderState P) : Prop where
  info : trader'.info = trader.info
  tradeIdxs : trader'.tradeIdxs = trader.tradeIdxs
  fault : trader'.fault = trader.fault
  sent : trader'.sent = trader.sent
  seen : trader'.seen = trader.seen

/-- A step of the controller to another place in its loops. -/
theorem Dispatched.setPc (dispatched : Dispatched config input trader) {pc : ControllerPc}
    (limits : ∀ t orderIdLimits, pc = .collect t orderIdLimits → t < config.stockNum ∧
      orderIdLimits ≤ trader.info.slidingWindowStart (t + 1) + config.slidingWindowSize) :
    Dispatched config input { trader with pc := pc } ∧
      Internal trader { trader with pc := pc } :=
  ⟨dispatched.frame (Grows.refl _) limits rfl rfl rfl, rfl, rfl, rfl, rfl, rfl⟩

/-- The check of an order of the input does not fail: its target is hooked. -/
theorem checkOrder_ne_error
    (informed : Informed config input trader.info trader.tradeIdxs trader.seen)
    (order : Order P) (orderIdLimits stkCode : Int) (fault : Fault) :
    checkOrder input trader.info order orderIdLimits stkCode ≠ .error fault := by
  intro failed
  unfold checkOrder at failed
  split at failed
  · cases failed
  · split at failed
    · cases failed
    · rename_i ht hooked
      have target := loadHook_target input.hookRows hooked
      have stored := informed.hooked ht.targetStkCode ht.targetTradeIdx
      rw [TraderInput.hookedTrade, target, Option.map_some] at stored
      simp only [SharedTradeInfo.getHookedVolume, stored, ok_bind] at failed
      split at failed <;> cases failed

/-- One turn of the loop over the orders of a stock leaves the stock, fails in
the check or accepts the next order. -/
theorem collect_cases (input : TraderInput P) (trader : TraderState P) (t : Nat)
    (orderIdLimits : Int) :
    trader.collect input t orderIdLimits = { trader with pc := .scan (t + 1) } ∨
    (∃ order fault, checkOrder input trader.info order orderIdLimits ((t : Int) + 1) =
      .error fault) ∨
    ∃ data checked,
      (input.sortedOrders ((t : Int) + 1))[trader.nextSortedStructIdx ((t : Int) + 1)]? =
        some data ∧
      checkOrder input trader.info (TraderState.generateOrder ((t : Int) + 1) data) orderIdLimits
        ((t : Int) + 1) = .ok (some checked) ∧
      trader.collect input t orderIdLimits = trader.accept ((t : Int) + 1) checked := by
  unfold TraderState.collect
  cases next : TraderState.nextOrder input trader ((t : Int) + 1) with
  | none => exact Or.inl (by simp only [next])
  | some order =>
      cases result : checkOrder input trader.info order orderIdLimits ((t : Int) + 1) with
      | error fault => exact Or.inr (Or.inl ⟨order, fault, result⟩)
      | ok checked =>
          cases checked with
          | none => exact Or.inl (by simp only [next, result])
          | some checked =>
              obtain ⟨data, found, rfl⟩ := Option.map_eq_some_iff.mp next
              exact Or.inr (Or.inr ⟨data, checked, found, result, by simp only [next, result]⟩)

/-- A step of the controller. -/
theorem Dispatched.control (dispatched : Dispatched config input trader)
    (informed : Informed config input trader.info trader.tradeIdxs trader.seen)
    (step : trader.control config input = some trader') :
    Dispatched config input trader' ∧ Internal trader trader' := by
  unfold TraderState.control at step
  split at step
  · -- reading the limit of a stock, or going on to the sending loop
    split at step
    · cases step
      rename_i t _ inRange
      apply dispatched.setPc
      intro t' orderIdLimits collecting
      cases collecting
      exact ⟨inRange, le_refl _⟩
    · cases step
      apply dispatched.setPc
      intro t orderIdLimits collecting
      cases collecting
  · -- one turn of the loop over the orders of a stock
    rename_i t orderIdLimits collecting
    cases step
    have limits := dispatched.limits t orderIdLimits collecting
    rcases collect_cases input trader t orderIdLimits with
      left | ⟨order, fault, failed⟩ | ⟨data, checked, next, passed, accepted⟩
    · rw [left]
      apply dispatched.setPc
      intro t' orderIdLimits' collecting'
      cases collecting'
    · exact absurd failed (checkOrder_ne_error informed order _ _ fault)
    · rw [accepted]
      have listed : config.Listed ((t : Int) + 1) := by
        constructor <;> omega
      exact ⟨dispatched.accept listed limits.2 next passed, rfl, rfl, rfl, rfl, rfl⟩
  · -- the loop over the collected orders
    split at step
    · cases step
      apply dispatched.setPc
      intro t orderIdLimits collecting
      cases collecting
    · rename_i collected
      simp only at step
      split at step
      · cases step
        exact ⟨dispatched.handOver collected, rfl, rfl, rfl, rfl, rfl⟩
      · cases step

/-- A sender taking an order from its queue. -/
theorem Dispatched.pollOrder (dispatched : Dispatched config input trader) {e : Nat}
    (step : trader.pollOrder e = some trader') :
    Dispatched config input trader' ∧ Internal trader trader' := by
  unfold TraderState.pollOrder at step
  split at step
  · rename_i order rest free queued
    cases step
    refine ⟨dispatched.frame (Grows.refl _) dispatched.limits rfl ?_ rfl, rfl, rfl, rfl, rfl, rfl⟩
    funext e'
    by_cases same : e' = e
    · simp [TraderState.outbox, same, free, queued]
    · simp [TraderState.outbox, same]
  · cases step

/-- A sender sending its message. -/
theorem Dispatched.sendOrder (dispatched : Dispatched config input trader) {e : Nat}
    {order : Order P} (step : trader.sendOrder e = some (order, trader')) :
    Dispatched config input trader' ∧ trader'.info = trader.info ∧
      trader'.tradeIdxs = trader.tradeIdxs ∧ trader'.fault = trader.fault ∧
      trader'.seen = trader.seen ∧
      trader'.sent = Function.update trader.sent e (trader.sent e ++ [order]) := by
  unfold TraderState.sendOrder at step
  split at step
  · cases step
  · rename_i ready
    cases step
    refine ⟨dispatched.frame (Grows.refl _) dispatched.limits rfl ?_ rfl, rfl, rfl, rfl, rfl, rfl⟩
    funext e'
    by_cases same : e' = e
    · simp [TraderState.outbox, same, ready]
    · simp [TraderState.outbox, same]

end Dispatch

end PpiwTrading.Trader

import PpiwTrading.Common.Types

/-!
# The trader's tables and its order check

`SharedTradeInfo` is what the controller and the trade receiver of a trader
share: the start of the window of each stock and the volumes of the hooked
trades, with -1 for a trade that has not been seen.  `checkOrder` decides
whether the next order of a stock may be handed to a sender, and rewrites the
type of an order that is to be abandoned.

All tables are indexed by stock code, so the `stk_code_minus_one` of the source
is `stkCode - 1` here.
-/

namespace PpiwTrading.Trader

variable {P : Type}

/-- The information shared by the threads of a trader. -/
structure SharedTradeInfo where
  slidingWindowStart : Int → Int
  hookedTrade : Int → Int → Option Int

namespace SharedTradeInfo

/-- Windows start at order 1. -/
def new (hookedTrade : Int → Int → Option Int) : SharedTradeInfo :=
  ⟨fun _ => 1, hookedTrade⟩

def updateSlidingWindowStart (info : SharedTradeInfo) (stockCode newSlidingWindowStart : Int) :
    Except Fault SharedTradeInfo :=
  if newSlidingWindowStart ≥ info.slidingWindowStart stockCode then
    .ok
      { info with
        slidingWindowStart :=
          Function.update info.slidingWindowStart stockCode newSlidingWindowStart }
  else .error .windowMovedBack

def updateIfHooked (info : SharedTradeInfo) (stockCode tradeIdx volume : Int) :
    Except Fault SharedTradeInfo :=
  match info.hookedTrade stockCode tradeIdx with
  | none => .ok info
  | some stored =>
      if stored = -1 then
        .ok
          { info with
            hookedTrade := fun s k =>
              if s = stockCode ∧ k = tradeIdx then some volume else info.hookedTrade s k }
      else .error .hookUpdatedTwice

/-- The volume of a hooked trade, -1 if it is not ready. -/
def getHookedVolume (info : SharedTradeInfo) (stockCode tradeIdx : Int) : Except Fault Int :=
  match info.hookedTrade stockCode tradeIdx with
  | none => .error .unhookedTrade
  | some volume => .ok volume

end SharedTradeInfo

/-! ## The hook table -/

/-- A row of the hook file: the order `selfOrderId` of a stock waits for a
target. -/
structure HookRow where
  stkCode : Int
  selfOrderId : Int
  target : HookTarget

/-- One turn of the loop of `load_hook`: the row replaces the target of its
order and adds its target to the hooked trades. -/
def addHookRow (tables : (Int → Int → Option HookTarget) × (Int → Int → Option Int))
    (row : HookRow) : (Int → Int → Option HookTarget) × (Int → Int → Option Int) :=
  (fun s o => if s = row.stkCode ∧ o = row.selfOrderId then some row.target else tables.1 s o,
    fun s k =>
      if s = row.target.targetStkCode ∧ k = row.target.targetTradeIdx then some (-1)
      else tables.2 s k)

/-- `load_hook`. -/
def loadHook (rows : List HookRow) :
    (Int → Int → Option HookTarget) × (Int → Int → Option Int) :=
  rows.foldl addHookRow (fun _ _ => none, fun _ _ => none)

/-- What a trader loads before it starts. -/
structure TraderInput (P : Type) where
  hookRows : List HookRow
  lowerLimits : Int → P
  upperLimits : Int → P
  sortedOrders : Int → List (Order P)

/-- The target of an order, if it is hooked. -/
def TraderInput.hook (input : TraderInput P) (stkCode orderId : Int) : Option HookTarget :=
  (loadHook input.hookRows).1 stkCode orderId

/-- The table of hooked trades a trader starts with. -/
def TraderInput.hookedTrade (input : TraderInput P) : Int → Int → Option Int :=
  (loadHook input.hookRows).2

/-! ## The order check -/

section CheckOrder

variable [LinearOrder P]

/-- Abandon a limit order whose price exceeds the limits of its stock. -/
def checkPriceLimit (input : TraderInput P) (stkCode : Int) (order : Order P) : Order P :=
  if order.type = 0 ∧
      (order.price < input.lowerLimits stkCode ∨ order.price > input.upperLimits stkCode) then
    { order with type := -1 }
  else order

/-- Abandon a hooked order when the volume of its target exceeds the bound. -/
def checkHookedVolume (ht : HookTarget) (v : Int) (order : Order P) : Order P :=
  if v > ht.arg then { order with type := -1 } else order

/-- `TraderController::check_order`: `none` when it returns false, else the
order as it was rewritten. -/
def checkOrder (input : TraderInput P) (info : SharedTradeInfo) (order : Order P)
    (orderIdUpperLimits stkCode : Int) : Except Fault (Option (Order P)) :=
  if order.orderId ≥ orderIdUpperLimits then .ok none
  else
    match input.hook stkCode order.orderId with
    | none => .ok (some (checkPriceLimit input stkCode order))
    | some ht => do
        let v ← info.getHookedVolume ht.targetStkCode ht.targetTradeIdx
        if v = -1 then pure none
        else pure (some (checkPriceLimit input stkCode (checkHookedVolume ht v order)))

end CheckOrder

/-! ## Laws of the tables -/

/-- Every hooked trade starts as not ready. -/
theorem loadHook_not_ready (rows : List HookRow) {s k v : Int}
    (hooked : (loadHook rows).2 s k = some v) : v = -1 := by
  induction rows using List.reverseRecOn with
  | nil => contradiction
  | append_singleton rows row inductionHypothesis =>
      simp only [loadHook, List.foldl_append, List.foldl_cons, List.foldl_nil, addHookRow]
        at hooked
      split at hooked
      · exact (Option.some.inj hooked).symm
      · exact inductionHypothesis hooked

/-- The target of every hooked order is a hooked trade. -/
theorem loadHook_target (rows : List HookRow) {s o : Int} {ht : HookTarget}
    (hooked : (loadHook rows).1 s o = some ht) :
    (loadHook rows).2 ht.targetStkCode ht.targetTradeIdx = some (-1) := by
  induction rows using List.reverseRecOn with
  | nil => contradiction
  | append_singleton rows row inductionHypothesis =>
      simp only [loadHook, List.foldl_append, List.foldl_cons, List.foldl_nil, addHookRow]
        at hooked ⊢
      split at hooked
      · cases hooked
        exact if_pos ⟨rfl, rfl⟩
      · split
        · rfl
        · exact inductionHypothesis hooked

/-! ## Laws of the check -/

section Laws

variable [LinearOrder P] {input : TraderInput P} {info : SharedTradeInfo} {order checked : Order P}
  {orderIdUpperLimits stkCode : Int}

omit [LinearOrder P] in
theorem getHookedVolume_eq_ok {s k v : Int} (read : info.getHookedVolume s k = .ok v) :
    info.hookedTrade s k = some v := by
  unfold SharedTradeInfo.getHookedVolume at read
  split at read
  · cases read
  · rename_i stored
    cases read
    exact stored

/-- An order that passes the check is rewritten by the hook rule, when it is
hooked and its target has been seen, and by the price limit. -/
theorem checkOrder_eq_some
    (passed : checkOrder input info order orderIdUpperLimits stkCode = .ok (some checked)) :
    order.orderId < orderIdUpperLimits ∧
      (input.hook stkCode order.orderId = none ∧
          checked = checkPriceLimit input stkCode order ∨
        ∃ ht v, input.hook stkCode order.orderId = some ht ∧
          info.hookedTrade ht.targetStkCode ht.targetTradeIdx = some v ∧ v ≠ -1 ∧
          checked = checkPriceLimit input stkCode (checkHookedVolume ht v order)) := by
  unfold checkOrder at passed
  split at passed
  · cases passed
  · rename_i below
    refine ⟨Int.not_le.mp below, ?_⟩
    split at passed
    · rename_i unhooked
      cases passed
      exact Or.inl ⟨unhooked, rfl⟩
    · rename_i ht hooked
      obtain ⟨v, read, rewritten⟩ := bind_eq_ok_iff.mp passed
      split at rewritten
      · cases rewritten
      · rename_i ready
        cases rewritten
        exact Or.inr ⟨ht, v, hooked, getHookedVolume_eq_ok read, ready, rfl⟩

/-- An order is turned down when it is beyond the window, or hooked and its
target is not ready. -/
theorem checkOrder_eq_none
    (rejected : checkOrder input info order orderIdUpperLimits stkCode = .ok none) :
    orderIdUpperLimits ≤ order.orderId ∨
      ∃ ht, input.hook stkCode order.orderId = some ht ∧
        info.hookedTrade ht.targetStkCode ht.targetTradeIdx = some (-1) := by
  unfold checkOrder at rejected
  split at rejected
  · rename_i beyond
    exact Or.inl beyond
  · split at rejected
    · cases rejected
    · rename_i ht hooked
      obtain ⟨v, read, result⟩ := bind_eq_ok_iff.mp rejected
      split at result
      · rename_i notReady
        rw [notReady] at read
        exact Or.inr ⟨ht, hooked, getHookedVolume_eq_ok read⟩
      · cases result

theorem checkPriceLimit_within (limit : (checkPriceLimit input stkCode order).type = 0) :
    input.lowerLimits stkCode ≤ (checkPriceLimit input stkCode order).price ∧
      (checkPriceLimit input stkCode order).price ≤ input.upperLimits stkCode := by
  unfold checkPriceLimit at limit ⊢
  split at limit
  · simp at limit
  · rename_i within
    rw [if_neg within]
    constructor
    · by_contra below
      exact within ⟨limit, Or.inl (not_le.mp below)⟩
    · by_contra above
      exact within ⟨limit, Or.inr (not_le.mp above)⟩

/-- A limit order that passes the check is within the limits of its stock. -/
theorem checkOrder_within
    (passed : checkOrder input info order orderIdUpperLimits stkCode = .ok (some checked))
    (limit : checked.type = 0) :
    input.lowerLimits stkCode ≤ checked.price ∧ checked.price ≤ input.upperLimits stkCode := by
  rcases (checkOrder_eq_some passed).2 with ⟨_, rfl⟩ | ⟨ht, v, _, _, _, rfl⟩
  · exact checkPriceLimit_within limit
  · exact checkPriceLimit_within limit

end Laws

end PpiwTrading.Trader

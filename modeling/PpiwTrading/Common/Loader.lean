import PpiwTrading.Common.Types
import PpiwTrading.Sequence.Fold
import PpiwTrading.Sequence.Scatter

/-!
# Loading the orders of a trader

The input of a trader is five matrices of one shape, stored flat.  The orders of
the stock with index `t` are the cells whose first coordinate is `t` modulo the
number of stocks.  `loadOrderIdFromFile` collects the order ids of each stock
with the packed coordinates of their cells and sorts them, and `generateOrder`
makes an order from a sorted entry and the other four matrices.

A read or a write outside of an array and a failed assertion give `none`.
-/

namespace PpiwTrading

open PpiwTrading.Sequence

variable {P : Type}

/-! ## Coordinates -/

/-- A place in a matrix. -/
structure Cell where
  x : Nat
  y : Nat
  z : Nat
  deriving DecidableEq, Repr

/-- The member `coordinates` of a `Coordinates`. -/
abbrev Coordinates := Nat

namespace Coordinates

def getX (coordinates : Coordinates) : Nat := (coordinates >>> 20) &&& 0x3ff

def getY (coordinates : Coordinates) : Nat := (coordinates >>> 10) &&& 0x3ff

def getZ (coordinates : Coordinates) : Nat := coordinates &&& 0x3ff

/-- The cell that `get_x`, `get_y` and `get_z` name. -/
def get (coordinates : Coordinates) : Cell :=
  ⟨coordinates.getX, coordinates.getY, coordinates.getZ⟩

/-- `set` of a new `Coordinates`. -/
def set (cell : Cell) : Coordinates :=
  ((cell.x &&& 0x3ff) <<< 20 ||| (cell.y &&& 0x3ff) <<< 10) ||| (cell.z &&& 0x3ff)

theorem and_mask (n : Nat) : n &&& 0x3ff = n % 1024 :=
  Nat.and_two_pow_sub_one_eq_mod n 10

/-- The packed form is the number with the coordinates as its digits. -/
theorem set_eq {cell : Cell} (x : cell.x < 1024) (y : cell.y < 1024) (z : cell.z < 1024) :
    set cell = (cell.x * 1024 + cell.y) * 1024 + cell.z := by
  have high : cell.x <<< 20 ||| cell.y <<< 10 = (cell.x <<< 10 ||| cell.y) <<< 10 := by
    rw [Nat.shiftLeft_or_distrib, ← Nat.shiftLeft_add]
  have low : cell.x <<< 10 ||| cell.y = cell.x * 1024 + cell.y := by
    rw [← Nat.shiftLeft_add_eq_or_of_lt y, Nat.shiftLeft_eq]
  rw [set, and_mask, and_mask, and_mask, Nat.mod_eq_of_lt x, Nat.mod_eq_of_lt y,
    Nat.mod_eq_of_lt z, high, low, ← Nat.shiftLeft_add_eq_or_of_lt z, Nat.shiftLeft_eq]

theorem get_set {cell : Cell} (x : cell.x < 1024) (y : cell.y < 1024) (z : cell.z < 1024) :
    get (set cell) = cell := by
  rw [set_eq x y z, get, getX, getY, getZ, and_mask, and_mask, and_mask, Nat.shiftRight_eq_div_pow,
    Nat.shiftRight_eq_div_pow]
  cases cell
  congr 1 <;> simp only at x y z ⊢ <;> omega

end Coordinates

/-- An order id with the coordinates of its cell. -/
structure SortStruct where
  orderId : Int
  coor : Coordinates
  deriving DecidableEq, Repr

/-- The order that `operator<` of `SortStruct` sorts by. -/
def SortStruct.Le (first second : SortStruct) : Prop :=
  first.orderId < second.orderId ∨
    first.orderId = second.orderId ∧ first.coor ≤ second.coor

instance : DecidableRel SortStruct.Le :=
  fun first second => inferInstanceAs (Decidable
    (first.orderId < second.orderId ∨ first.orderId = second.orderId ∧ first.coor ≤ second.coor))

/-! ## The matrices -/

/-- One `F` for each value of `matrix_idx`. -/
structure Columns (F : Type → Type) (P : Type) where
  orderId : F Int
  direction : F Int
  type : F Int
  price : F P
  volume : F Int

/-- The five matrices of a trader, with their dimensions. -/
structure Dataset (P : Type) where
  nx : Nat
  ny : Nat
  nz : Nat
  matrices : Columns List P
  orderId_length : matrices.orderId.length = nx * (ny * nz)
  direction_length : matrices.direction.length = nx * (ny * nz)
  type_length : matrices.type.length = nx * (ny * nz)
  price_length : matrices.price.length = nx * (ny * nz)
  volume_length : matrices.volume.length = nx * (ny * nz)

namespace Dataset

/-- The place of a cell in a flat matrix. -/
def offset (data : Dataset P) (cell : Cell) : Nat :=
  cell.x * (data.ny * data.nz) + cell.y * data.nz + cell.z

/-- The cells in the order of the three nested loops over `x`, `y` and `z`. -/
def cells (data : Dataset P) : List Cell :=
  (List.range data.nx).flatMap fun x =>
    (List.range data.ny).flatMap fun y => (List.range data.nz).map fun z => ⟨x, y, z⟩

/-- `NX * NY * NZ / Config::stock_num`. -/
def numOrder (data : Dataset P) (stockNum : Nat) : Nat :=
  data.nx * data.ny * data.nz / stockNum

/-- The body of the loops of `load_order_id_from_file`. -/
def storeOrderId (data : Dataset P) (stockNum : Nat) (orderId : List (List SortStruct))
    (cell : Cell) : Option (List (List SortStruct)) := do
  let id ← data.matrices.orderId[data.offset cell]?
  writeSlot orderId (cell.x % stockNum)
    (cell.x / stockNum * (data.ny * data.nz) + cell.y * data.nz + cell.z)
    ⟨id, Coordinates.set cell⟩

/-- `load_order_id_from_file`. -/
def loadOrderIdFromFile (data : Dataset P) (stockNum : Nat) : Option (List (List SortStruct)) := do
  let orderId ← data.cells.foldlM (data.storeOrderId stockNum)
    (List.replicate stockNum (List.replicate (data.numOrder stockNum) ⟨0, 0⟩))
  pure (orderId.map (List.insertionSort SortStruct.Le))

/-- `OrderInfoMatrix::generate_order`. -/
def generateOrder (data : Dataset P) (stockNum : Nat) (stockCode : Int) (ss : SortStruct) :
    Option (Order P) := do
  let cell := ss.coor.get
  guard (cell.x < data.nx ∧ cell.y < data.ny ∧ cell.z < data.nz)
  guard (stockCode = (cell.x % stockNum : Nat) + 1)
  let direction ← data.matrices.direction[data.offset cell]?
  let type ← data.matrices.type[data.offset cell]?
  let price ← data.matrices.price[data.offset cell]?
  let volume ← data.matrices.volume[data.offset cell]?
  pure
    { stkCode := stockCode
      orderId := ss.orderId
      direction := direction
      type := type
      price := price
      volume := volume }

/-! ## What is loaded -/

/-- The order at a cell, under the code of a stock. -/
def order (data : Dataset P) (stkCode : Int) (cell : Cell) : Option (Order P) := do
  let orderId ← data.matrices.orderId[data.offset cell]?
  let direction ← data.matrices.direction[data.offset cell]?
  let type ← data.matrices.type[data.offset cell]?
  let price ← data.matrices.price[data.offset cell]?
  let volume ← data.matrices.volume[data.offset cell]?
  pure ⟨stkCode, orderId, direction, type, price, volume⟩

/-- The cells of the stock with index `t`. -/
def stockCells (data : Dataset P) (stockNum t : Nat) : List Cell :=
  data.cells.filter fun cell => decide (cell.x % stockNum = t)

/-- The orders of the stock with index `t`, cell by cell. -/
def stockOrders (data : Dataset P) (stockNum t : Nat) : List (Order P) :=
  (data.stockCells stockNum t).filterMap (data.order (t + 1))

/-- Dimensions that the loader is made for: coordinates take ten bits, and the
stocks take turns along the first of them. -/
structure Loadable (data : Dataset P) (stockNum : Nat) : Prop where
  nx_pos : 0 < data.nx
  ny_pos : 0 < data.ny
  nz_pos : 0 < data.nz
  nx_le : data.nx ≤ 1024
  ny_le : data.ny ≤ 1024
  nz_le : data.nz ≤ 1024
  divides : stockNum ∣ data.nx

/-- The place of a cell in the vector of its stock. -/
def column (data : Dataset P) (stockNum : Nat) (cell : Cell) : Nat :=
  cell.x / stockNum * (data.ny * data.nz) + cell.y * data.nz + cell.z

/-- The cell at a place of the vector of a stock. -/
def cellAt (data : Dataset P) (stockNum t column : Nat) : Cell where
  x := column / (data.ny * data.nz) * stockNum + t
  y := column % (data.ny * data.nz) / data.nz
  z := column % (data.ny * data.nz) % data.nz

/-- What the loops store for a cell. -/
def sortStruct (data : Dataset P) (cell : Cell) : SortStruct :=
  ⟨data.matrices.orderId[data.offset cell]?.getD 0, Coordinates.set cell⟩

/-- The sorted entries of the stock with index `t`. -/
def sortedStructs (data : Dataset P) (stockNum t : Nat) : List SortStruct :=
  ((List.range (data.numOrder stockNum)).map fun place =>
    data.sortStruct (data.cellAt stockNum t place)).insertionSort SortStruct.Le

/-- The orders of the stock with index `t` in the order of their entries. -/
def sortedOrders (data : Dataset P) (stockNum t : Nat) : List (Order P) :=
  (data.sortedStructs stockNum t).filterMap (data.generateOrder stockNum (t + 1))

variable {data : Dataset P} {stockNum : Nat}

theorem mem_cells {cell : Cell} :
    cell ∈ data.cells ↔ cell.x < data.nx ∧ cell.y < data.ny ∧ cell.z < data.nz := by
  rcases cell with ⟨x, y, z⟩
  simp [cells]

theorem nodup_cells : data.cells.Nodup := by
  apply List.nodup_flatMap.mpr
  constructor
  · intro x _
    apply List.nodup_flatMap.mpr
    constructor
    · intro y _
      apply List.nodup_range.map
      intro first second same
      exact (Cell.mk.inj same).2.2
    · apply List.nodup_range.imp
      intro first second different
      rw [Function.onFun, List.disjoint_left]
      simp only [List.mem_map, List.mem_range, not_exists, not_and]
      rintro cell ⟨z, _, rfl⟩ z' _ same
      exact different (Cell.mk.inj same).2.1.symm
  · apply List.nodup_range.imp
    intro first second different
    rw [Function.onFun, List.disjoint_left]
    simp only [List.mem_flatMap, List.mem_map, List.mem_range, not_exists, not_and]
    rintro cell ⟨y, _, z, _, rfl⟩ y' _ z' _ same
    exact different (Cell.mk.inj same).1.symm

/-- A place in a block of `ny * nz` values. -/
theorem block_lt {y z ny nz : Nat} (yBelow : y < ny) (zBelow : z < nz) : y * nz + z < ny * nz := by
  have rows : (y + 1) * nz ≤ ny * nz := Nat.mul_le_mul_right nz yBelow
  rw [Nat.add_mul, Nat.one_mul] at rows
  omega

theorem block_div {y z nz : Nat} (below : z < nz) : (y * nz + z) / nz = y := by
  rw [Nat.mul_comm, Nat.mul_add_div (Nat.zero_lt_of_lt below), Nat.div_eq_of_lt below, Nat.add_zero]

theorem block_mod {y z nz : Nat} (below : z < nz) : (y * nz + z) % nz = z := by
  rw [Nat.mul_comm, Nat.mul_add_mod, Nat.mod_eq_of_lt below]

theorem offset_lt {cell : Cell} (inside : cell ∈ data.cells) :
    data.offset cell < data.nx * (data.ny * data.nz) := by
  rcases mem_cells.mp inside with ⟨x, y, z⟩
  rw [offset, Nat.add_assoc]
  exact block_lt x (block_lt y z)

/-- The cell is found at its place. -/
theorem cellAt_column {cell : Cell} (inside : cell ∈ data.cells) :
    data.cellAt stockNum (cell.x % stockNum) (data.column stockNum cell) = cell := by
  rcases mem_cells.mp inside with ⟨_, y, z⟩
  have block := block_lt y z
  have first : cell.x / stockNum * stockNum + cell.x % stockNum = cell.x :=
    Nat.div_add_mod' cell.x stockNum
  rw [cellAt, column, Nat.add_assoc, block_div block, block_mod block, block_div z, block_mod z,
    first]

theorem length_sortedStructs (t : Nat) :
    (data.sortedStructs stockNum t).length = data.numOrder stockNum := by
  rw [sortedStructs, List.length_insertionSort, List.length_map, List.length_range]

theorem orderId_eq {cell : Cell} (inside : cell ∈ data.cells) :
    data.matrices.orderId[data.offset cell]? = some (data.sortStruct cell).orderId := by
  have below : data.offset cell < data.matrices.orderId.length := by
    rw [data.orderId_length]
    exact offset_lt inside
  rw [sortStruct, List.getElem?_eq_getElem below]
  rfl

namespace Loadable

variable (loadable : data.Loadable stockNum)
include loadable

theorem stockNum_pos : 0 < stockNum :=
  Nat.pos_of_dvd_of_pos loadable.divides loadable.nx_pos

theorem block_pos : 0 < data.ny * data.nz :=
  Nat.mul_pos loadable.ny_pos loadable.nz_pos

theorem numOrder_eq : data.numOrder stockNum = data.nx / stockNum * (data.ny * data.nz) := by
  rw [numOrder, Nat.mul_assoc, Nat.mul_comm, Nat.mul_div_assoc _ loadable.divides, Nat.mul_comm]

theorem numOrder_pos : 0 < data.numOrder stockNum := by
  rw [loadable.numOrder_eq]
  exact Nat.mul_pos (Nat.div_pos (Nat.le_of_dvd loadable.nx_pos loadable.divides)
    loadable.stockNum_pos) loadable.block_pos

/-- Every cell has a place in the vector of its stock. -/
theorem column_lt {cell : Cell} (inside : cell ∈ data.cells) :
    data.column stockNum cell < data.numOrder stockNum := by
  rcases mem_cells.mp inside with ⟨x, y, z⟩
  rw [loadable.numOrder_eq, column, Nat.add_assoc]
  apply block_lt _ (block_lt y z)
  exact Nat.div_lt_div_of_lt_of_dvd loadable.divides x

/-- The cell at a place is inside the matrices and belongs to the place. -/
theorem cellAt_spec {t place : Nat} (stock : t < stockNum)
    (below : place < data.numOrder stockNum) :
    data.cellAt stockNum t place ∈ data.cells ∧
      (data.cellAt stockNum t place).x % stockNum = t ∧
      data.column stockNum (data.cellAt stockNum t place) = place := by
  have quotientBelow : place / (data.ny * data.nz) < data.nx / stockNum := by
    rw [loadable.numOrder_eq] at below
    exact Nat.div_lt_of_lt_mul (by rwa [Nat.mul_comm])
  have block : place % (data.ny * data.nz) < data.ny * data.nz :=
    Nat.mod_lt _ loadable.block_pos
  refine ⟨mem_cells.mpr ⟨?_, ?_, ?_⟩, ?_, ?_⟩
  · have whole : data.nx / stockNum * stockNum = data.nx := Nat.div_mul_cancel loadable.divides
    rw [← whole]
    exact block_lt quotientBelow stock
  · exact Nat.div_lt_of_lt_mul (by rwa [Nat.mul_comm data.nz])
  · exact Nat.mod_lt _ loadable.nz_pos
  · exact block_mod stock
  · rw [column, cellAt, block_div stock, Nat.add_assoc, Nat.div_add_mod', Nat.div_add_mod']

/-- The vector of a stock holds the cells of the stock. -/
theorem perm_stockCells {t : Nat} (stock : t < stockNum) :
    ((List.range (data.numOrder stockNum)).map (data.cellAt stockNum t)).Perm
      (data.stockCells stockNum t) := by
  apply (List.perm_ext_iff_of_nodup _ (nodup_cells.filter _)).mpr
  · intro cell
    simp only [List.mem_map, List.mem_range, List.mem_filter, decide_eq_true_eq]
    constructor
    · rintro ⟨place, below, rfl⟩
      have spec := loadable.cellAt_spec stock below
      exact ⟨spec.1, spec.2.1⟩
    · rintro ⟨inside, rfl⟩
      exact ⟨data.column stockNum cell, loadable.column_lt inside, cellAt_column inside⟩
  · apply List.Nodup.map_on _ List.nodup_range
    intro first firstBelow second secondBelow same
    rw [← (loadable.cellAt_spec stock (List.mem_range.mp firstBelow)).2.2, same,
      (loadable.cellAt_spec stock (List.mem_range.mp secondBelow)).2.2]

/-- `load_order_id_from_file` gives the sorted entries of each stock. -/
theorem loadOrderIdFromFile_eq :
    data.loadOrderIdFromFile stockNum =
      some ((List.range stockNum).map (data.sortedStructs stockNum)) := by
  have stored : data.cells.foldlM (data.storeOrderId stockNum)
      (List.replicate stockNum (List.replicate (data.numOrder stockNum) ⟨0, 0⟩)) =
      some (table stockNum (data.numOrder stockNum) fun t place =>
        data.sortStruct (data.cellAt stockNum t place)) := by
    rw [← table_const]
    apply foldlM_writeSlot_eq_table (fun cell : Cell => cell.x % stockNum)
      (data.column stockNum)
    · intro cell inside rows
      rw [storeOrderId, orderId_eq inside, cellAt_column inside]
      rfl
    · intro cell inside
      exact ⟨Nat.mod_lt _ loadable.stockNum_pos, loadable.column_lt inside⟩
    · intro t stock place below
      have spec := loadable.cellAt_spec stock below
      exact ⟨_, spec.1, spec.2.1, spec.2.2⟩
  rw [loadOrderIdFromFile, stored]
  change some ((table _ _ _).map _) = _
  rw [table, List.map_map]
  rfl

/-- The order of a loaded entry is the order at its cell. -/
theorem generateOrder_sortStruct {cell : Cell} (inside : cell ∈ data.cells) {t : Nat}
    (stock : cell.x % stockNum = t) :
    data.generateOrder stockNum (t + 1) (data.sortStruct cell) = data.order (t + 1) cell := by
  rcases mem_cells.mp inside with ⟨x, y, z⟩
  have coordinates : (data.sortStruct cell).coor.get = cell :=
    Coordinates.get_set (Nat.lt_of_lt_of_le x loadable.nx_le)
      (Nat.lt_of_lt_of_le y loadable.ny_le) (Nat.lt_of_lt_of_le z loadable.nz_le)
  rw [order, orderId_eq inside]
  simp only [generateOrder, coordinates, x, y, z, stock, and_self, guard_true]
  rfl

/-- Every loaded entry makes an order. -/
theorem generateOrder_isSome {t : Nat} (stock : t < stockNum) :
    ∀ ss ∈ data.sortedStructs stockNum t,
      (data.generateOrder stockNum (t + 1) ss).isSome := by
  intro ss member
  rw [sortedStructs, List.mem_insertionSort] at member
  rcases List.mem_map.mp member with ⟨place, below, rfl⟩
  have spec := loadable.cellAt_spec stock (List.mem_range.mp below)
  have inside := offset_lt spec.1
  rw [loadable.generateOrder_sortStruct spec.1 spec.2.1, order,
    List.getElem?_eq_getElem (by rwa [data.orderId_length]),
    List.getElem?_eq_getElem (by rwa [data.direction_length]),
    List.getElem?_eq_getElem (by rwa [data.type_length]),
    List.getElem?_eq_getElem (by rwa [data.price_length]),
    List.getElem?_eq_getElem (by rwa [data.volume_length])]
  rfl

theorem length_sortedOrders {t : Nat} (stock : t < stockNum) :
    (data.sortedOrders stockNum t).length = data.numOrder stockNum := by
  rw [sortedOrders, List.filterMap_length_eq_length.mpr (loadable.generateOrder_isSome stock),
    length_sortedStructs]

/-- The sorted orders are the orders of the sorted entries, one by one. -/
theorem getElem?_sortedOrders {t : Nat} (stock : t < stockNum) (i : Nat) :
    (data.sortedOrders stockNum t)[i]? =
      (data.sortedStructs stockNum t)[i]?.bind (data.generateOrder stockNum (t + 1)) :=
  getElem?_filterMap_of_isSome (loadable.generateOrder_isSome stock) i

/-- Each cell of a stock gives one of its sorted orders. -/
theorem sortedOrders_perm {t : Nat} (stock : t < stockNum) :
    (data.sortedOrders stockNum t).Perm (data.stockOrders stockNum t) := by
  have sorted : (data.sortedOrders stockNum t).Perm
      (((List.range (data.numOrder stockNum)).map fun place =>
        data.sortStruct (data.cellAt stockNum t place)).filterMap
          (data.generateOrder stockNum (t + 1))) :=
    (List.perm_insertionSort _ _).filterMap _
  have unsorted : ((List.range (data.numOrder stockNum)).map fun place =>
      data.sortStruct (data.cellAt stockNum t place)).filterMap
        (data.generateOrder stockNum (t + 1)) =
      ((List.range (data.numOrder stockNum)).map (data.cellAt stockNum t)).filterMap
        (data.order (t + 1)) := by
    rw [List.filterMap_map, List.filterMap_map]
    apply List.filterMap_congr
    intro place below
    have spec := loadable.cellAt_spec stock (List.mem_range.mp below)
    exact loadable.generateOrder_sortStruct spec.1 spec.2.1
  rw [unsorted] at sorted
  exact sorted.trans ((loadable.perm_stockCells stock).filterMap _)

end Loadable

/-- An order has the code it is generated with and a type of the data. -/
theorem of_generateOrder {stockCode : Int} {ss : SortStruct} {order : Order P}
    (generated : data.generateOrder stockNum stockCode ss = some order) :
    order.stkCode = stockCode ∧ order.type ∈ data.matrices.type := by
  simp only [generateOrder, guard, Option.bind_eq_bind, Option.bind_eq_some_iff] at generated
  rcases generated with ⟨_, _, _, _, _, _, type, read, _, _, _, _, made⟩
  cases made
  exact ⟨rfl, List.mem_of_getElem? read⟩

end Dataset

end PpiwTrading

import PpiwTrading.Common.Loader

/-!
# The sorted entries of a stock

`load_order_id_from_file` writes each place of each vector once, and sorting by
the packed coordinates is sorting by the coordinates themselves.  Each entry
names the cell that its order is made from.
-/

namespace PpiwTrading

open PpiwTrading.Sequence

variable {P : Type}

/-! ## The order of the entries -/

/-- The id of an entry and the coordinates of its cell, in the lexicographic
order. -/
def SortStruct.key (ss : SortStruct) : Lex (Int × Lex (Nat × Lex (Nat × Nat))) :=
  toLex (ss.orderId, toLex (ss.coor.getX, toLex (ss.coor.getY, ss.coor.getZ)))

/-- The id of an entry and its packed coordinates, in the lexicographic order. -/
def SortStruct.packed (ss : SortStruct) : Lex (Int × Nat) :=
  toLex (ss.orderId, ss.coor)

theorem SortStruct.le_iff_packed {first second : SortStruct} :
    first.Le second ↔ first.packed ≤ second.packed := by
  rw [packed, packed, Prod.Lex.toLex_le_toLex]
  exact Iff.rfl

instance : IsTrans SortStruct SortStruct.Le where
  trans := by
    intro first second third below above
    rw [SortStruct.le_iff_packed] at below above ⊢
    exact below.trans above

instance : Std.Total SortStruct.Le where
  total := by
    intro first second
    rw [SortStruct.le_iff_packed, SortStruct.le_iff_packed]
    exact le_total _ _

/-- Packed coordinates compare as the coordinates do. -/
theorem Coordinates.set_le_iff {first second : Cell}
    (x : first.x < 1024) (y : first.y < 1024) (z : first.z < 1024)
    (x' : second.x < 1024) (y' : second.y < 1024) (z' : second.z < 1024) :
    set first ≤ set second ↔
      first.x < second.x ∨ first.x = second.x ∧
        (first.y < second.y ∨ first.y = second.y ∧ first.z ≤ second.z) := by
  rw [set_eq x y z, set_eq x' y' z']
  change (first.x * 1024 + first.y) * 1024 + first.z ≤
    (second.x * 1024 + second.y) * 1024 + second.z ↔ _
  omega

namespace Dataset

variable {data : Dataset P} {stockNum : Nat}

/-- The vector and the place in it that the loops write for a cell. -/
def slot (data : Dataset P) (stockNum : Nat) (cell : Cell) : Nat × Nat :=
  (cell.x % stockNum, data.column stockNum cell)

/-- The `int` values from which the indices of the loops for a cell, and of
`generate_order`, are made. -/
def indexValues (data : Dataset P) (stockNum : Nat) (cell : Cell) : List Nat :=
  [data.nx * data.ny, data.nx * data.ny * data.nz, data.numOrder stockNum, data.ny * data.nz,
    cell.x * (data.ny * data.nz), cell.y * data.nz, cell.x * (data.ny * data.nz) + cell.y * data.nz,
    data.offset cell, cell.x / stockNum * (data.ny * data.nz),
    cell.x / stockNum * (data.ny * data.nz) + cell.y * data.nz, data.column stockNum cell]

theorem mem_stockCells {t : Nat} {cell : Cell} :
    cell ∈ data.stockCells stockNum t ↔ cell ∈ data.cells ∧ cell.x % stockNum = t := by
  rw [stockCells, List.mem_filter, decide_eq_true_eq]

/-- The id of a generated order is that of its entry, and its volume is one of the data. -/
theorem generateOrder_fields {stockCode : Int} {ss : SortStruct} {order : Order P}
    (generated : data.generateOrder stockNum stockCode ss = some order) :
    order.orderId = ss.orderId ∧ order.volume ∈ data.matrices.volume := by
  simp only [generateOrder, guard, Option.bind_eq_bind, Option.bind_eq_some_iff] at generated
  rcases generated with ⟨_, _, _, _, _, _, _, _, _, _, volume, read, made⟩
  cases made
  exact ⟨rfl, List.mem_of_getElem? read⟩

namespace Loadable

variable (loadable : data.Loadable stockNum)
include loadable

theorem coordinates_lt {cell : Cell} (inside : cell ∈ data.cells) :
    cell.x < 1024 ∧ cell.y < 1024 ∧ cell.z < 1024 := by
  rcases mem_cells.mp inside with ⟨x, y, z⟩
  exact ⟨Nat.lt_of_lt_of_le x loadable.nx_le, Nat.lt_of_lt_of_le y loadable.ny_le,
    Nat.lt_of_lt_of_le z loadable.nz_le⟩

theorem get_sortStruct {cell : Cell} (inside : cell ∈ data.cells) :
    (data.sortStruct cell).coor.get = cell := by
  rcases loadable.coordinates_lt inside with ⟨x, y, z⟩
  exact Coordinates.get_set x y z

theorem key_sortStruct {cell : Cell} (inside : cell ∈ data.cells) :
    (data.sortStruct cell).key =
      toLex ((data.sortStruct cell).orderId, toLex (cell.x, toLex (cell.y, cell.z))) := by
  have get := loadable.get_sortStruct inside
  have getX : (data.sortStruct cell).coor.getX = cell.x := congrArg Cell.x get
  have getY : (data.sortStruct cell).coor.getY = cell.y := congrArg Cell.y get
  have getZ : (data.sortStruct cell).coor.getZ = cell.z := congrArg Cell.z get
  rw [SortStruct.key, getX, getY, getZ]

/-- Sorting compares entries by their ids and the coordinates of their cells. -/
theorem le_sortStruct_iff {first second : Cell} (insideFirst : first ∈ data.cells)
    (insideSecond : second ∈ data.cells) :
    SortStruct.Le (data.sortStruct first) (data.sortStruct second) ↔
      (data.sortStruct first).key ≤ (data.sortStruct second).key := by
  rcases loadable.coordinates_lt insideFirst with ⟨x, y, z⟩
  rcases loadable.coordinates_lt insideSecond with ⟨x', y', z'⟩
  rw [loadable.key_sortStruct insideFirst, loadable.key_sortStruct insideSecond,
    Prod.Lex.toLex_le_toLex, Prod.Lex.toLex_le_toLex, Prod.Lex.toLex_le_toLex]
  exact or_congr Iff.rfl (and_congr_right fun _ => Coordinates.set_le_iff x y z x' y' z')

/-- Each entry of a stock comes from one of its cells. -/
theorem sortedStructs_perm {t : Nat} (stock : t < stockNum) :
    (data.sortedStructs stockNum t).Perm ((data.stockCells stockNum t).map data.sortStruct) := by
  have cells := (loadable.perm_stockCells stock).map data.sortStruct
  rw [List.map_map] at cells
  exact (List.perm_insertionSort _ _).trans cells

theorem sortedStructs_pairwise {t : Nat} (stock : t < stockNum) :
    (data.sortedStructs stockNum t).Pairwise fun first second => first.key ≤ second.key := by
  have sorted : (data.sortedStructs stockNum t).Pairwise SortStruct.Le :=
    List.pairwise_insertionSort _ _
  have fromCell : ∀ entry ∈ data.sortedStructs stockNum t,
      ∃ cell ∈ data.cells, data.sortStruct cell = entry := by
    intro entry member
    rcases List.mem_map.mp ((loadable.sortedStructs_perm stock).mem_iff.mp member) with
      ⟨cell, inside, made⟩
    exact ⟨cell, (mem_stockCells.mp inside).1, made⟩
  apply sorted.imp_of_mem
  intro first second memberFirst memberSecond below
  rcases fromCell first memberFirst with ⟨cell, inside, rfl⟩
  rcases fromCell second memberSecond with ⟨cell', inside', rfl⟩
  exact (loadable.le_sortStruct_iff inside inside').mp below

/-- Different cells have different entries. -/
theorem sortedStructs_nodup {t : Nat} (stock : t < stockNum) :
    (data.sortedStructs stockNum t).Nodup := by
  rw [(loadable.sortedStructs_perm stock).nodup_iff]
  apply List.Nodup.map_on _ (nodup_cells.filter _)
  intro first memberFirst second memberSecond same
  rw [← loadable.get_sortStruct (mem_stockCells.mp memberFirst).1, same,
    loadable.get_sortStruct (mem_stockCells.mp memberSecond).1]

/-- The loops write every place of every vector once, and no other place. -/
theorem count_slots (t place : Nat) :
    (data.cells.map (data.slot stockNum)).count (t, place) =
      if t < stockNum ∧ place < data.numOrder stockNum then 1 else 0 := by
  have once : (data.cells.map (data.slot stockNum)).Nodup := by
    apply List.Nodup.map_on _ nodup_cells
    intro first insideFirst second insideSecond same
    have row : first.x % stockNum = second.x % stockNum := congrArg Prod.fst same
    have column : data.column stockNum first = data.column stockNum second :=
      congrArg Prod.snd same
    rw [← @cellAt_column _ data stockNum first insideFirst, row, column,
      cellAt_column insideSecond]
  split
  case isTrue slot =>
    have spec := loadable.cellAt_spec slot.1 slot.2
    apply List.count_eq_one_of_mem once
    apply List.mem_map.mpr
    exact ⟨_, spec.1, Prod.ext spec.2.1 spec.2.2⟩
  case isFalse outside =>
    apply List.count_eq_zero_of_not_mem
    intro written
    rcases List.mem_map.mp written with ⟨cell, inside, same⟩
    cases same
    exact outside ⟨Nat.mod_lt _ loadable.stockNum_pos, loadable.column_lt inside⟩

/-- The values from which indices are made stay below `2 ^ 31`. -/
theorem indexValues_lt {cell : Cell} (inside : cell ∈ data.cells) :
    ∀ value ∈ data.indexValues stockNum cell, value < 2 ^ 31 := by
  have whole : data.nx * (data.ny * data.nz) ≤ 1024 * (1024 * 1024) :=
    Nat.mul_le_mul loadable.nx_le (Nat.mul_le_mul loadable.ny_le loadable.nz_le)
  have product : data.nx * data.ny * data.nz = data.nx * (data.ny * data.nz) := Nat.mul_assoc _ _ _
  have plane : data.nx * data.ny ≤ data.nx * data.ny * data.nz :=
    Nat.le_mul_of_pos_right _ loadable.nz_pos
  have block : data.ny * data.nz ≤ data.nx * (data.ny * data.nz) :=
    Nat.le_mul_of_pos_left _ loadable.nx_pos
  have vector : data.numOrder stockNum ≤ data.nx * data.ny * data.nz := Nat.div_le_self _ _
  have inMatrix := offset_lt inside
  have inVector := loadable.column_lt inside
  have offsetEq : data.offset cell =
    cell.x * (data.ny * data.nz) + cell.y * data.nz + cell.z := rfl
  have columnEq : data.column stockNum cell =
    cell.x / stockNum * (data.ny * data.nz) + cell.y * data.nz + cell.z := rfl
  intro value member
  simp only [indexValues, List.mem_cons, List.not_mem_nil, or_false] at member
  omega

/-- When the cells of a stock have different ids, its orders are sorted by their ids. -/
theorem sortedOrders_increasing {t : Nat} (stock : t < stockNum)
    (distinct : ((data.stockOrders stockNum t).map Order.orderId).Nodup) :
    (data.sortedOrders stockNum t).Pairwise fun o p => o.orderId < p.orderId := by
  have sorted : (data.sortedStructs stockNum t).Pairwise SortStruct.Le :=
    List.pairwise_insertionSort _ _
  have weakly : (data.sortedOrders stockNum t).Pairwise fun o p => o.orderId ≤ p.orderId := by
    apply List.pairwise_filterMap.mpr
    apply sorted.imp
    intro first second below o fromFirst p fromSecond
    rw [(generateOrder_fields fromFirst).1, (generateOrder_fields fromSecond).1]
    rcases below with less | ⟨same, _⟩
    · exact less.le
    · exact same.le
  have different : ((data.sortedOrders stockNum t).map Order.orderId).Nodup :=
    ((loadable.sortedOrders_perm stock).map Order.orderId).nodup_iff.mpr distinct
  have apart := List.pairwise_map.mp different
  exact (weakly.and apart).imp fun both => lt_of_le_of_ne both.1 both.2

end Loadable

/-- `load_order_id_from_file` writes each place of the vectors once and computes
its indices in 32 bits; the vector of each stock is ordered by the ids and the
coordinates, it has one entry for each cell of the stock, and `generate_order`
makes the order of that cell from the entry. -/
theorem load_order_id_sorted (data : Dataset P) (stockNum : Nat)
    (loadable : data.Loadable stockNum) :
    (∀ vectors cell, data.storeOrderId stockNum vectors cell =
      data.matrices.orderId[data.offset cell]?.bind fun id =>
        writeSlot vectors (data.slot stockNum cell).1 (data.slot stockNum cell).2
          ⟨id, Coordinates.set cell⟩) ∧
    (∀ t place, (data.cells.map (data.slot stockNum)).count (t, place) =
      if t < stockNum ∧ place < data.numOrder stockNum then 1 else 0) ∧
    (∀ cell ∈ data.cells, ∀ value ∈ data.indexValues stockNum cell, value < 2 ^ 31) ∧
    ∃ vectors, data.loadOrderIdFromFile stockNum = some vectors ∧ vectors.length = stockNum ∧
      ∀ t < stockNum, ∃ entries, vectors[t]? = some entries ∧ entries.Nodup ∧
        (entries.Pairwise fun first second => first.key ≤ second.key) ∧
        entries.Perm ((data.stockCells stockNum t).map data.sortStruct) ∧
        ∀ entry ∈ entries, ∃ cell ∈ data.stockCells stockNum t, entry = data.sortStruct cell ∧
          ∃ order, data.generateOrder stockNum (t + 1) entry = some order ∧
            data.order (t + 1) cell = some order := by
  constructor
  · exact fun vectors cell => rfl
  constructor
  · exact loadable.count_slots
  constructor
  · exact fun cell inside => loadable.indexValues_lt inside
  use (List.range stockNum).map (data.sortedStructs stockNum)
  constructor
  · exact loadable.loadOrderIdFromFile_eq
  constructor
  · rw [List.length_map, List.length_range]
  intro t stock
  use data.sortedStructs stockNum t
  constructor
  · rw [List.getElem?_map, List.getElem?_range stock, Option.map_some]
  constructor
  · exact loadable.sortedStructs_nodup stock
  constructor
  · exact loadable.sortedStructs_pairwise stock
  constructor
  · exact loadable.sortedStructs_perm stock
  intro entry member
  rcases List.mem_map.mp ((loadable.sortedStructs_perm stock).mem_iff.mp member) with
    ⟨cell, memberCell, rfl⟩
  rcases mem_stockCells.mp memberCell with ⟨inside, ofStock⟩
  rcases Option.isSome_iff_exists.mp (loadable.generateOrder_isSome stock _ member) with
    ⟨order, generated⟩
  use cell, memberCell, rfl, order, generated
  rw [← loadable.generateOrder_sortStruct inside ofStock, generated]

/-- Two stocks with four orders each, out of order; two orders of the second stock have
one id. -/
def twoStocks : Dataset Int where
  nx := 4
  ny := 1
  nz := 2
  matrices := ⟨[5, 2, 4, 4, 9, 1, 3, 7], [1, -1, 1, -1, 1, -1, 1, -1], [0, 0, 0, 0, 0, 0, 0, 0],
    [100, 101, 102, 103, 104, 105, 106, 107], [5, 6, 7, 8, 9, 10, 11, 12]⟩
  orderId_length := rfl
  direction_length := rfl
  type_length := rfl
  price_length := rfl
  volume_length := rfl

theorem load_order_id_sorted_twoStocks :
    twoStocks.loadOrderIdFromFile 2 =
      some [[⟨1, 2097153⟩, ⟨2, 1⟩, ⟨5, 0⟩, ⟨9, 2097152⟩],
        [⟨3, 3145728⟩, ⟨4, 1048576⟩, ⟨4, 1048577⟩, ⟨7, 3145729⟩]] ∧
    (∀ cell ∈ twoStocks.cells, ∀ value ∈ twoStocks.indexValues 2 cell, value < 2 ^ 31) ∧
    ∃ vectors, twoStocks.loadOrderIdFromFile 2 = some vectors ∧ vectors.length = 2 ∧
      ∀ t < 2, ∃ entries, vectors[t]? = some entries ∧ entries.Nodup ∧
        (entries.Pairwise fun first second => first.key ≤ second.key) ∧
        entries.Perm ((twoStocks.stockCells 2 t).map twoStocks.sortStruct) ∧
        ∀ entry ∈ entries, ∃ cell ∈ twoStocks.stockCells 2 t, entry = twoStocks.sortStruct cell ∧
          ∃ order, twoStocks.generateOrder 2 (t + 1) entry = some order ∧
            twoStocks.order (t + 1) cell = some order := by
  have loadable : twoStocks.Loadable 2 := by
    constructor <;> decide
  constructor
  · decide
  · exact (load_order_id_sorted twoStocks 2 loadable).2.2

end Dataset

end PpiwTrading

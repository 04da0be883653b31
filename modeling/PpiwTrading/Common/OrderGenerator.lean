import PpiwTrading.Common.Loader

/-!
# Orders from cache files

`OrderGenerator` reads the five cache files of each stock back in ten parts and
hands out the orders one by one: `generate_order` shows the next order, `commit`
moves on.  When all parts are used up it shows an order of type -1.

A file is the list of the values that have been written to it, since every
access moves whole values.  What uninitialised memory holds is a parameter.
-/

namespace PpiwTrading

variable {P : Type}

/-! ## Columns -/

/-- The fields of a list of orders, one list for each field. -/
def Columns.ofOrders (orders : List (Order P)) : Columns List P where
  orderId := orders.map Order.orderId
  direction := orders.map Order.direction
  type := orders.map Order.type
  price := orders.map Order.price
  volume := orders.map Order.volume

/-- Write one order to the files of a stock. -/
def Columns.push (files : Columns List P) (orderId direction type : Int) (price : P)
    (volume : Int) : Columns List P where
  orderId := files.orderId ++ [orderId]
  direction := files.direction ++ [direction]
  type := files.type ++ [type]
  price := files.price ++ [price]
  volume := files.volume ++ [volume]

/-- The order with the values at an index. -/
def Columns.orderAt (columns : Columns List P) (stkCode : Int) (idx : Nat) :
    Option (Order P) := do
  let orderId ← columns.orderId[idx]?
  let direction ← columns.direction[idx]?
  let type ← columns.type[idx]?
  let price ← columns.price[idx]?
  let volume ← columns.volume[idx]?
  pure ⟨stkCode, orderId, direction, type, price, volume⟩

/-! ## The generator -/

/-- An `ifstream` on a cache file: what is left to read, and the fail bit. -/
structure InStream (α : Type) where
  rest : List α
  fail : Bool

/-- `read` of `count` values into a buffer. -/
def InStream.read {α : Type} (stream : InStream α) (count : Nat) (buffer : List α) :
    InStream α × List α :=
  if stream.fail then (stream, buffer)
  else
    (⟨stream.rest.drop count, decide (stream.rest.length < count)⟩,
      stream.rest.take count ++ buffer.drop (stream.rest.take count).length)

/-- Open the files of a stock. -/
def Columns.openFiles (files : Columns List P) : Columns InStream P :=
  ⟨⟨files.orderId, false⟩, ⟨files.direction, false⟩, ⟨files.type, false⟩, ⟨files.price, false⟩,
    ⟨files.volume, false⟩⟩

/-- Read from the five files of a stock into its five buffers. -/
def Columns.read (ifs : Columns InStream P) (count : Nat) (matrix : Columns List P) :
    Columns InStream P × Columns List P :=
  let orderId := ifs.orderId.read count matrix.orderId
  let direction := ifs.direction.read count matrix.direction
  let type := ifs.type.read count matrix.type
  let price := ifs.price.read count matrix.price
  let volume := ifs.volume.read count matrix.volume
  (⟨orderId.1, direction.1, type.1, price.1, volume.1⟩,
    ⟨orderId.2, direction.2, type.2, price.2, volume.2⟩)

/-- `num_partition`. -/
def numPartition : Nat := 10

/-- The members of an `OrderGenerator` for one stock. -/
structure StockGenerator (P : Type) where
  ifs : Columns InStream P
  matrix : Columns List P
  startIdx : Nat
  curPartition : Nat

namespace StockGenerator

/-- `OrderGenerator::load_data`; `none` when it returns false, which is before it
changes anything. -/
def loadData (generator : StockGenerator P) (length : Nat) : Option (StockGenerator P) :=
  if generator.curPartition ≥ numPartition then none
  else
    let loaded := generator.ifs.read length generator.matrix
    some
      { ifs := loaded.1
        matrix := loaded.2
        startIdx := 0
        curPartition := generator.curPartition + 1 }

/-- `OrderGenerator::generate_order`; `none` when it reads outside of a buffer. -/
def generateOrder (uninit : Order P) (generator : StockGenerator P) (length : Nat)
    (stkCode : Int) : Option (StockGenerator P × Order P) :=
  match if generator.startIdx ≥ length then generator.loadData length else some generator with
  | none => some (generator, { uninit with type := -1 })
  | some ready =>
      (ready.matrix.orderAt stkCode ready.startIdx).map fun order => (ready, order)

/-- `OrderGenerator::commit`. -/
def commit (generator : StockGenerator P) : StockGenerator P :=
  { generator with startIdx := generator.startIdx + 1 }

/-- The constructor, for one stock: it does not look at what `load_data` returns. -/
def new (uninit : Order P) (length : Nat) (files : Columns List P) : StockGenerator P :=
  let opened : StockGenerator P :=
    { ifs := files.openFiles
      matrix := Columns.ofOrders (List.replicate length uninit)
      startIdx := 0
      curPartition := 0 }
  (opened.loadData length).getD opened

end StockGenerator

/-- `length` of an `OrderGenerator`. -/
def Dataset.partitionLength (data : Dataset P) (stockNum : Nat) : Nat :=
  data.nx * data.ny * data.nz / stockNum / numPartition

/-! ## Laws of the generator -/

@[simp]
theorem Columns.orderAt_ofOrders (orders : List (Order P)) (stkCode : Int) (idx : Nat) :
    (Columns.ofOrders orders).orderAt stkCode idx =
      orders[idx]?.map fun order => { order with stkCode := stkCode } := by
  cases read : orders[idx]? with
  | none => simp [Columns.orderAt, Columns.ofOrders, read]
  | some order => simp [Columns.orderAt, Columns.ofOrders, read]

theorem Columns.ofOrders_concat (orders : List (Order P)) (order : Order P) :
    Columns.ofOrders (orders ++ [order]) =
      (Columns.ofOrders orders).push order.orderId order.direction order.type order.price
        order.volume := by
  simp [Columns.ofOrders, Columns.push]

theorem InStream.read_of_le {α β : Type} (f : α → β) {rest chunk : List α} {count : Nat}
    (enough : count ≤ rest.length) (filled : chunk.length = count) :
    (InStream.mk (rest.map f) false).read count (chunk.map f) =
      (⟨(rest.drop count).map f, false⟩, (rest.take count).map f) := by
  subst filled
  simp [InStream.read, enough]

/-- Reading a part that is there replaces the buffers. -/
theorem Columns.read_openFiles {rest chunk : List (Order P)} {count : Nat}
    (enough : count ≤ rest.length) (filled : chunk.length = count) :
    (Columns.ofOrders rest).openFiles.read count (Columns.ofOrders chunk) =
      ((Columns.ofOrders (rest.drop count)).openFiles, Columns.ofOrders (rest.take count)) := by
  simp only [Columns.read, Columns.openFiles, Columns.ofOrders,
    InStream.read_of_le _ enough filled]

namespace StockGenerator

/-- The buffers of a generator hold the orders `chunk`, its files still hold the
orders `rest`, and these suffice for the parts that are to be read. -/
structure Buffers (length : Nat) (chunk rest : List (Order P)) (generator : StockGenerator P) :
    Prop where
  matrix : generator.matrix = Columns.ofOrders chunk
  ifs : generator.ifs = (Columns.ofOrders rest).openFiles
  filled : chunk.length = length
  started : generator.startIdx ≤ length
  partition : generator.curPartition ≤ numPartition
  enough : (numPartition - generator.curPartition) * length ≤ rest.length

/-- The orders that a generator will hand out are `left`. -/
def Delivers (length : Nat) (left : List (Order P)) (generator : StockGenerator P) : Prop :=
  ∃ chunk rest, Buffers length chunk rest generator ∧
    left = chunk.drop generator.startIdx ++
      rest.take ((numPartition - generator.curPartition) * length)

/-- Reading the next part. -/
theorem Buffers.loadData {length : Nat} {chunk rest : List (Order P)}
    {generator : StockGenerator P} (buffers : Buffers length chunk rest generator)
    (more : generator.curPartition < numPartition) :
    ∃ loaded, generator.loadData length = some loaded ∧
      Buffers length (rest.take length) (rest.drop length) loaded ∧ loaded.startIdx = 0 ∧
      loaded.curPartition = generator.curPartition + 1 := by
  have parts : (numPartition - generator.curPartition) * length =
      (numPartition - (generator.curPartition + 1)) * length + length := by
    rw [← Nat.succ_mul]
    congr 1
    omega
  have enough : (numPartition - (generator.curPartition + 1)) * length + length ≤ rest.length :=
    parts ▸ buffers.enough
  have onePart : length ≤ rest.length := by omega
  rw [StockGenerator.loadData, if_neg (Nat.not_le.mpr more), buffers.ifs, buffers.matrix,
    Columns.read_openFiles onePart buffers.filled]
  refine ⟨_, rfl, ⟨rfl, rfl, List.length_take_of_le onePart, Nat.zero_le _, more, ?_⟩, rfl, rfl⟩
  rw [List.length_drop]
  exact Nat.le_sub_of_add_le enough

/-- A new generator hands out the whole parts of its files. -/
theorem delivers_new (uninit : Order P) {length : Nat} {orders : List (Order P)}
    (enough : numPartition * length ≤ orders.length) :
    Delivers length (orders.take (numPartition * length))
      (new uninit length (Columns.ofOrders orders)) := by
  have opened : Buffers length (List.replicate length uninit) orders
      { ifs := (Columns.ofOrders orders).openFiles
        matrix := Columns.ofOrders (List.replicate length uninit)
        startIdx := 0
        curPartition := 0 } :=
    ⟨rfl, rfl, List.length_replicate, Nat.zero_le _, Nat.zero_le _, enough⟩
  have first : 0 < numPartition := by decide
  rcases opened.loadData first with ⟨loaded, succeeded, buffers, start, partition⟩
  rw [new, succeeded, Option.getD_some]
  refine ⟨_, _, buffers, ?_⟩
  have parts : numPartition * length = length + (numPartition - 1) * length := by
    unfold numPartition
    omega
  rw [start, partition, List.drop_zero, ← List.take_add, parts]

/-- A generator that is inside a part shows the next order of the part. -/
theorem Buffers.generateOrder {length : Nat} {chunk rest : List (Order P)}
    {generator : StockGenerator P} (buffers : Buffers length chunk rest generator)
    (inside : generator.startIdx < length) (uninit : Order P) (stkCode : Int) :
    ∃ order later,
      chunk.drop generator.startIdx ++
        rest.take ((numPartition - generator.curPartition) * length) = order :: later ∧
      generator.generateOrder uninit length stkCode =
        some (generator, { order with stkCode := stkCode }) ∧
      Delivers length later generator.commit := by
  have below : generator.startIdx < chunk.length := by rwa [buffers.filled]
  refine ⟨chunk[generator.startIdx], _, ?_, ?_, chunk, rest, ?_, rfl⟩
  · rw [List.drop_eq_getElem_cons below]
    rfl
  · rw [StockGenerator.generateOrder, if_neg (Nat.not_le.mpr inside)]
    simp only [buffers.matrix, Columns.orderAt_ofOrders, List.getElem?_eq_getElem below,
      Option.map_some]
  · exact ⟨buffers.matrix, buffers.ifs, buffers.filled, inside, buffers.partition, buffers.enough⟩

/-- What `generate_order` shows: the end marker, or the next order with the
generator ready to show it again. -/
theorem Delivers.generateOrder {length : Nat} (positive : 0 < length) {left : List (Order P)}
    {generator : StockGenerator P} (delivers : Delivers length left generator)
    (uninit : Order P) (stkCode : Int) :
    (left = [] ∧ generator.generateOrder uninit length stkCode =
      some (generator, { uninit with type := -1 })) ∨
    ∃ order later ready, left = order :: later ∧
      generator.generateOrder uninit length stkCode =
        some (ready, { order with stkCode := stkCode }) ∧
      ready.generateOrder uninit length stkCode =
        some (ready, { order with stkCode := stkCode }) ∧
      Delivers length left ready ∧ Delivers length later ready.commit := by
  have again := delivers
  rcases delivers with ⟨chunk, rest, buffers, rfl⟩
  by_cases inside : generator.startIdx < length
  · rcases buffers.generateOrder inside uninit stkCode with ⟨order, later, next, shown, committed⟩
    exact Or.inr ⟨order, later, generator, next, shown, shown, again, committed⟩
  · -- The part is used up, and `generate_order` reads the next one if there is one.
    have usedUp : chunk.drop generator.startIdx = [] :=
      List.drop_eq_nil_of_le (by rw [buffers.filled]; exact Nat.le_of_not_lt inside)
    rw [usedUp, List.nil_append]
    by_cases more : generator.curPartition < numPartition
    · rcases buffers.loadData more with ⟨loaded, succeeded, buffersLoaded, start, partition⟩
      have insideLoaded : loaded.startIdx < length := by rwa [start]
      rcases buffersLoaded.generateOrder insideLoaded uninit stkCode with
        ⟨order, later, next, shown, committed⟩
      have same : generator.generateOrder uninit length stkCode =
          loaded.generateOrder uninit length stkCode := by
        rw [StockGenerator.generateOrder, if_pos (Nat.le_of_not_lt inside), succeeded,
          StockGenerator.generateOrder, if_neg (Nat.not_le.mpr insideLoaded)]
      have nextPart : rest.take ((numPartition - generator.curPartition) * length) =
          (rest.take length).drop loaded.startIdx ++
            (rest.drop length).take ((numPartition - loaded.curPartition) * length) := by
        have parts : numPartition - generator.curPartition =
            1 + (numPartition - (generator.curPartition + 1)) := by omega
        rw [start, partition, List.drop_zero, ← List.take_add, parts, Nat.add_mul, Nat.one_mul]
      rw [nextPart]
      exact Or.inr ⟨order, later, loaded, next, same.trans shown, shown,
        ⟨_, _, buffersLoaded, rfl⟩, committed⟩
    · left
      have none : numPartition - generator.curPartition = 0 := by omega
      rw [none, Nat.zero_mul, List.take_zero]
      refine ⟨rfl, ?_⟩
      rw [StockGenerator.generateOrder, if_pos (Nat.le_of_not_lt inside), loadData,
        if_pos (Nat.le_of_not_lt more)]

/-- With parts of length 0 the first order is read outside of the buffers. -/
theorem generateOrder_new_zero (uninit : Order P) (files : Columns List P) (stkCode : Int) :
    (new uninit 0 files).generateOrder uninit 0 stkCode = none := by
  rfl

end StockGenerator

end PpiwTrading

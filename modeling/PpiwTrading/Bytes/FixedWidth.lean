import Mathlib

/-!
# Values of a fixed width

Little-endian images of naturals and of two's-complement integers, and codecs
whose images all have the same positive width.  A sequence of such values needs
no separators: reading as many bytes as one image takes until they run short
gives the sequence back.
-/

namespace PpiwTrading.Bytes

/-! ## Little-endian numbers -/

/-- The `width` low bytes of a natural, lowest first. -/
def natBytes : Nat → Nat → List UInt8
  | 0, _ => []
  | width + 1, n => UInt8.ofNat n :: natBytes width (n / 256)

/-- The natural with the given bytes, lowest first. -/
def bytesNat (bytes : List UInt8) : Nat :=
  Nat.ofDigits 256 (bytes.map UInt8.toNat)

@[simp]
theorem length_natBytes (width n : Nat) : (natBytes width n).length = width := by
  induction width generalizing n with
  | zero => rfl
  | succ width inductionHypothesis => rw [natBytes, List.length_cons, inductionHypothesis]

theorem bytesNat_natBytes (width n : Nat) : bytesNat (natBytes width n) = n % 256 ^ width := by
  induction width generalizing n with
  | zero => simp [natBytes, bytesNat, Nat.mod_one]
  | succ width inductionHypothesis =>
      have rest := inductionHypothesis (n / 256)
      simp only [bytesNat] at rest
      have low : (UInt8.ofNat n).toNat = n % 256 := by simp
      simp only [natBytes, bytesNat, List.map_cons, Nat.ofDigits_cons, rest, low]
      rw [pow_succ', Nat.mod_mul]

theorem bytesNat_append (first second : List UInt8) :
    bytesNat (first ++ second) = bytesNat first + 256 ^ first.length * bytesNat second := by
  rw [bytesNat, List.map_append, Nat.ofDigits_append, List.length_map]
  rfl

/-- The low bytes of a natural do not depend on how many more are taken. -/
theorem take_natBytes (width more n : Nat) :
    (natBytes (width + more) n).take width = natBytes width n := by
  induction width generalizing n with
  | zero => rw [List.take_zero, natBytes]
  | succ width inductionHypothesis =>
      rw [Nat.add_right_comm, natBytes, natBytes, List.take_succ_cons, inductionHypothesis]

/-- The two's-complement image of an integer. -/
def intBytes (width : Nat) (n : Int) : List UInt8 :=
  natBytes width (n % 256 ^ width).toNat

/-- The signed integer with the given bytes. -/
def bytesInt (bytes : List UInt8) : Int :=
  (bytesNat bytes : Int).bmod (256 ^ bytes.length)

@[simp]
theorem length_intBytes (width : Nat) (n : Int) : (intBytes width n).length = width :=
  length_natBytes width _

/-- An integer of the signed range of `width` bytes. -/
def Signed (width : Nat) (n : Int) : Prop :=
  -(256 ^ width : Int) ≤ 2 * n ∧ 2 * n < 256 ^ width

theorem bytesInt_intBytes {width : Nat} {n : Int} (signed : Signed width n) :
    bytesInt (intBytes width n) = n := by
  have positive : (0 : Int) < 256 ^ width := by positivity
  have nonnegative : 0 ≤ n % 256 ^ width := Int.emod_nonneg n positive.ne'
  have reduced : ((n % 256 ^ width).toNat % 256 ^ width : Nat) = (n % 256 ^ width).toNat := by
    apply Nat.mod_eq_of_lt
    have below := Int.emod_lt_of_pos n positive
    zify
    rwa [Int.toNat_of_nonneg nonnegative]
  rw [bytesInt, length_intBytes, intBytes, bytesNat_natBytes, reduced,
    Int.toNat_of_nonneg nonnegative]
  have cast : ((256 ^ width : Nat) : Int) = 256 ^ width := by push_cast; rfl
  rw [← cast, Int.emod_bmod]
  apply Int.bmod_eq_of_le_mul_two
  · rw [cast]
    have lower := signed.1
    omega
  · rw [cast]
    have upper := signed.2
    omega

theorem signed_bytesInt (bytes : List UInt8) : Signed bytes.length (bytesInt bytes) := by
  have positive : 0 < 256 ^ bytes.length := by positivity
  have cast : ((256 ^ bytes.length : Nat) : Int) = 256 ^ bytes.length := by push_cast; rfl
  have lower := Int.le_bmod (x := bytesNat bytes) positive
  have upper := Int.bmod_lt (x := bytesNat bytes) positive
  unfold Signed bytesInt
  rw [← cast]
  omega

theorem bytesNat_lt (bytes : List UInt8) : bytesNat bytes < 256 ^ bytes.length := by
  have digits := @Nat.ofDigits_lt_base_pow_length 256 (bytes.map UInt8.toNat) (by norm_num) (by
    intro digit member
    rcases List.mem_map.mp member with ⟨byte, -, rfl⟩
    exact byte.toNat_lt)
  rwa [List.length_map] at digits

/-! ## Buffers -/

/-- `memcpy` of `source` into a buffer; there is no result when it leaves the
buffer. -/
def memcpy (buffer : List UInt8) (offset : Nat) (source : List UInt8) : Option (List UInt8) :=
  if offset + source.length ≤ buffer.length then
    some (buffer.take offset ++ source ++ buffer.drop (offset + source.length))
  else none

theorem memcpy_eq_none {buffer source : List UInt8} {offset : Nat}
    (outside : buffer.length < offset + source.length) : memcpy buffer offset source = none :=
  if_neg (Nat.not_le.mpr outside)

/-- Overwriting the middle of three parts. -/
theorem memcpy_append {front old source back : List UInt8} (same : source.length = old.length) :
    memcpy (front ++ (old ++ back)) front.length source = some (front ++ (source ++ back)) := by
  rw [memcpy, if_pos, List.take_left, ← List.drop_drop, List.drop_left, List.drop_left' same.symm,
    List.append_assoc]
  rw [List.length_append, List.length_append, same]
  omega

/-! ## Codecs -/

/-- A codec whose images all have the same positive width; `Valid` values
survive it. -/
structure FixedWidth (α : Type) where
  width : Nat
  encode : α → List UInt8
  decode : List UInt8 → α
  Valid : α → Prop
  positive : 0 < width
  length_encode : ∀ a, (encode a).length = width
  decode_encode : ∀ a, Valid a → decode (encode a) = a

namespace FixedWidth

variable {α : Type} (codec : FixedWidth α)

/-- The images of a sequence, one after another. -/
def encodeAll (values : List α) : List UInt8 :=
  values.flatMap codec.encode

/-- Read values until fewer bytes are left than a value takes. -/
def readAll : Nat → List UInt8 → List α
  | 0, _ => []
  | bound + 1, bytes =>
      if (bytes.take codec.width).length = codec.width then
        codec.decode (bytes.take codec.width) :: readAll bound (bytes.drop codec.width)
      else []

@[simp]
theorem encodeAll_nil : codec.encodeAll [] = [] :=
  rfl

theorem encodeAll_append (first second : List α) :
    codec.encodeAll (first ++ second) = codec.encodeAll first ++ codec.encodeAll second :=
  List.flatMap_append

theorem length_encodeAll (values : List α) :
    (codec.encodeAll values).length = codec.width * values.length := by
  induction values with
  | nil => rfl
  | cons a rest inductionHypothesis =>
      rw [encodeAll, List.flatMap_cons, List.length_append, codec.length_encode, ← encodeAll,
        inductionHypothesis, List.length_cons]
      ring

/-- Reading a sequence of images decodes each of them. -/
theorem readAll_encodeAll_image {values : List α} {bound : Nat} (enough : values.length < bound) :
    codec.readAll bound (codec.encodeAll values) =
      values.map fun a => codec.decode (codec.encode a) := by
  induction values generalizing bound with
  | nil =>
      obtain ⟨bound, rfl⟩ := Nat.exists_eq_succ_of_ne_zero (Nat.ne_zero_of_lt enough)
      simp [readAll, codec.positive.ne]
  | cons a rest inductionHypothesis =>
      obtain ⟨bound, rfl⟩ := Nat.exists_eq_succ_of_ne_zero (Nat.ne_zero_of_lt enough)
      have length := codec.length_encode a
      have first : (codec.encodeAll (a :: rest)).take codec.width = codec.encode a :=
        List.take_left' length
      have others : (codec.encodeAll (a :: rest)).drop codec.width = codec.encodeAll rest :=
        List.drop_left' length
      rw [readAll, first, others, if_pos length,
        inductionHypothesis (Nat.lt_of_succ_lt_succ enough), List.map_cons]

/-- Reading a sequence of images gives the sequence back. -/
theorem readAll_encodeAll {values : List α} (valid : ∀ a ∈ values, codec.Valid a) {bound : Nat}
    (enough : values.length < bound) : codec.readAll bound (codec.encodeAll values) = values := by
  rw [codec.readAll_encodeAll_image enough]
  calc
    values.map (fun a => codec.decode (codec.encode a)) = values.map id :=
      List.map_congr_left fun a member => codec.decode_encode a (valid a member)
    _ = values := List.map_id values

/-- What stands before the images of the last values of a sequence are the images of
the others. -/
theorem eq_encodeAll_take {values last : List α} {bytes : List UInt8}
    (split : bytes ++ codec.encodeAll last = codec.encodeAll values) :
    last.length ≤ values.length ∧
      bytes = codec.encodeAll (values.take (values.length - last.length)) := by
  have total := congrArg List.length split
  rw [List.length_append, codec.length_encodeAll, codec.length_encodeAll] at total
  have shorter : last.length ≤ values.length := by
    apply Nat.le_of_mul_le_mul_left _ codec.positive
    omega
  constructor
  · exact shorter
  · rw [← List.take_append_drop (values.length - last.length) values, codec.encodeAll_append]
      at split
    apply List.append_inj_left' split
    rw [codec.length_encodeAll, codec.length_encodeAll, List.length_drop]
    congr 1
    omega

/-! ## Records -/

/-- A signed integer of the given width. -/
def int (bytes : Nat) (nonzero : 0 < bytes) : FixedWidth Int where
  width := bytes
  encode := intBytes bytes
  decode := bytesInt
  Valid := Signed bytes
  positive := nonzero
  length_encode := length_intBytes bytes
  decode_encode := fun _ signed => bytesInt_intBytes signed

/-- A pattern of 32 bits. -/
def word32 : FixedWidth UInt32 where
  width := 4
  encode := fun word => natBytes 4 word.toNat
  decode := fun bytes => UInt32.ofNat (bytesNat bytes)
  Valid := fun _ => True
  positive := by decide
  length_encode := fun _ => length_natBytes 4 _
  decode_encode := by
    intro word _
    have bound : word.toNat < 256 ^ 4 := word.toNat_lt
    rw [bytesNat_natBytes, Nat.mod_eq_of_lt bound, UInt32.ofNat_toNat]

/-- A pattern of 64 bits. -/
def word64 : FixedWidth UInt64 where
  width := 8
  encode := fun word => natBytes 8 word.toNat
  decode := fun bytes => UInt64.ofNat (bytesNat bytes)
  Valid := fun _ => True
  positive := by decide
  length_encode := fun _ => length_natBytes 8 _
  decode_encode := by
    intro word _
    have bound : word.toNat < 256 ^ 8 := word.toNat_lt
    rw [bytesNat_natBytes, Nat.mod_eq_of_lt bound, UInt64.ofNat_toNat]

variable {β : Type}

/-- Two images one after the other. -/
def pair (second : FixedWidth β) : FixedWidth (α × β) where
  width := codec.width + second.width
  encode := fun both => codec.encode both.1 ++ second.encode both.2
  decode := fun bytes =>
    (codec.decode (bytes.take codec.width), second.decode (bytes.drop codec.width))
  Valid := fun both => codec.Valid both.1 ∧ second.Valid both.2
  positive := Nat.add_pos_left codec.positive _
  length_encode := by
    intro both
    rw [List.length_append, codec.length_encode, second.length_encode]
  decode_encode := by
    rintro ⟨a, b⟩ ⟨validFirst, validSecond⟩
    have length := codec.length_encode a
    rw [List.take_left' length, List.drop_left' length, codec.decode_encode a validFirst,
      second.decode_encode b validSecond]

/-- The codec of a record that is given by its members. -/
def record (members : β → α) (make : α → β) (make_members : ∀ b, make (members b) = b) :
    FixedWidth β where
  width := codec.width
  encode := fun b => codec.encode (members b)
  decode := fun bytes => make (codec.decode bytes)
  Valid := fun b => codec.Valid (members b)
  positive := codec.positive
  length_encode := fun b => codec.length_encode (members b)
  decode_encode := by
    intro b valid
    rw [codec.decode_encode (members b) valid, make_members]

/-! ## Reading at a position -/

/-- The value whose image starts at a position; `none` when it does not lie
inside the bytes. -/
def readAt (bytes : List UInt8) (position : Nat) : Option α :=
  if position + codec.width ≤ bytes.length then
    some (codec.decode ((bytes.drop position).take codec.width))
  else none

theorem readAt_append {front : List UInt8} {a : α} (valid : codec.Valid a) (back : List UInt8) :
    codec.readAt (front ++ (codec.encode a ++ back)) front.length = some a := by
  have length := codec.length_encode a
  rw [readAt, if_pos, List.drop_left, List.take_left' length, codec.decode_encode a valid]
  rw [List.length_append, List.length_append, length]
  omega

end FixedWidth

end PpiwTrading.Bytes

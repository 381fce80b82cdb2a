import ByteTemplate.Template

/-!
# Write buffer

Storage of which the first `length` bytes are written.  It doubles until there is room for what is
written next.  Operations answer with the buffer after them, since one that fails can have grown
the buffer before.

What is written counts its items, and where those are wider than a byte it has more bytes than are
counted.  The storage is open to its callers too: what is written can be the storage itself.
-/

namespace ByteTemplate

/-- Data that is read in items of one width. -/
structure BytesLike where
  bytes : Bytes
  itemSize : Nat
  itemSize_pos : 0 < itemSize
  whole : itemSize ∣ bytes.length
  deriving DecidableEq, Repr

namespace BytesLike

def length (v : BytesLike) : Nat :=
  v.bytes.length / v.itemSize

def ofBytes (bs : Bytes) : BytesLike :=
  ⟨bs, 1, by decide, Nat.one_dvd _⟩

theorem length_le (v : BytesLike) : v.length ≤ v.bytes.length :=
  Nat.div_le_self _ _

@[simp] theorem length_ofBytes (bs : Bytes) : (ofBytes bs).length = bs.length :=
  Nat.div_one _

@[simp] theorem bytes_ofBytes (bs : Bytes) : (ofBytes bs).bytes = bs :=
  rfl

end BytesLike

@[ext]
structure Buffer where
  storage : Bytes
  length : Nat
  /-- Without any storage, doubling would never make room. -/
  storage_pos : 0 < storage.length
  length_le : length ≤ storage.length
  deriving DecidableEq, Repr

namespace Buffer

def initialCapacity : Nat := 128

def ofCapacity (capacity : Nat) (pos : 0 < capacity) : Buffer where
  storage := List.replicate capacity 0
  length := 0
  storage_pos := by simpa using pos
  length_le := Nat.zero_le _

def empty : Buffer :=
  ofCapacity initialCapacity (by decide)

def withCapacity (capacity : Int) : Except Error Buffer :=
  if pos : 0 < capacity then .ok (ofCapacity capacity.toNat (by omega))
  else .error (.capacityNotPositive capacity)

def capacity (b : Buffer) : Nat :=
  b.storage.length

def bytes (b : Buffer) : Bytes :=
  b.storage.take b.length

/-- The least doubling of `capacity` that is at least `size`; `fuel` bounds the doublings. -/
def grown (size : Nat) : Nat → Nat → Nat
  | 0, capacity => capacity
  | fuel + 1, capacity => if size ≤ capacity then capacity else grown size fuel (2 * capacity)

def grow (b : Buffer) (size : Nat) : Buffer where
  storage := b.storage ++ List.replicate (grown size size b.capacity - b.capacity) 0
  length := b.length
  storage_pos := by have := b.storage_pos; simp only [List.length_append]; omega
  length_le := by have := b.length_le; simp only [List.length_append]; omega

def reserve (b : Buffer) (size : Int) : Except Error Bytes × Buffer :=
  if size < 0 ∨ maxSize < size then (.error .lengthOutOfRange, b)
  else
    let b := b.grow size.toNat
    (.ok b.storage, b)

def ensureCapacity (b : Buffer) (size : Int) : Except Error Nat × Buffer :=
  let (storage, b) := b.reserve size
  (storage.map List.length, b)

/-- Puts `bs` in the place of as many bytes after the written ones.  A surplus that follows it is
not written, and makes the storage longer. -/
def put (b : Buffer) (bs surplus : Bytes) : Buffer where
  storage := b.storage.take b.length ++ bs ++ (surplus ++ b.storage.drop (b.length + bs.length))
  length := b.length + bs.length
  storage_pos := by
    have := b.storage_pos
    simp only [List.length_append, List.length_take, List.length_drop]
    omega
  length_le := by
    have := b.length_le
    simp only [List.length_append, List.length_take]
    omega

inductive Source where
  | data (v : BytesLike)
  /-- The storage of the buffer, as `reserve` answers it. -/
  | storage
  deriving DecidableEq, Repr

namespace Source

instance : Coe Bytes Source := ⟨fun bs => .data (.ofBytes bs)⟩

def length (storage : Bytes) : Source → Nat
  | .data v => v.length
  | .storage => storage.length

def bytes (storage : Bytes) : Source → Bytes
  | .data v => v.bytes
  | .storage => storage

end Source

/-- Appends data and answers its length, which is taken before the buffer grows, and the bytes
after. -/
def write (b : Buffer) (source : Source) : Except Error Nat × Buffer :=
  let count := source.length b.storage
  match b.reserve (b.length + count) with
  | (.error e, b) => (.error e, b)
  | (.ok storage, b) =>
      let bs := source.bytes storage
      (.ok count, b.put (bs.take count) (bs.drop count))

/-- Appends `count` copies of a byte and answers how many.  The buffer grows before the byte is
checked. -/
def fill (b : Buffer) (byte count : Int) : Except Error Nat × Buffer :=
  if count ≤ 0 then (.ok 0, b)
  else
    match b.reserve (b.length + count) with
    | (.error e, b) => (.error e, b)
    | (.ok _, b) =>
        if 0 ≤ byte ∧ byte < 256 then
          (.ok count.toNat, b.put (List.replicate count.toNat (UInt8.ofNat byte.toNat)) [])
        else (.error .byteOutOfRange, b)

theorem le_grown (size fuel capacity : Nat) : capacity ≤ grown size fuel capacity := by
  induction fuel generalizing capacity with
  | zero => exact Nat.le_refl _
  | succ fuel ih =>
      simp only [grown]
      split
      · exact Nat.le_refl _
      · exact Nat.le_trans (by omega) (ih _)

/-- Doubling adds at least one, so no more doublings are needed than bytes are missing. -/
theorem size_le_grown (size : Nat) {fuel capacity : Nat} (pos : 0 < capacity)
    (enough : size ≤ capacity + fuel) : size ≤ grown size fuel capacity := by
  induction fuel generalizing capacity with
  | zero => simpa [grown] using enough
  | succ fuel ih =>
      simp only [grown]
      split
      · assumption
      · exact ih (by omega) (by omega)

theorem capacity_grow (b : Buffer) (size : Nat) :
    (b.grow size).capacity = grown size size b.capacity := by
  have longer := le_grown size size b.capacity
  simp only [capacity, grow, List.length_append, List.length_replicate] at longer ⊢
  omega

theorem capacity_le_capacity_grow (b : Buffer) (size : Nat) :
    b.capacity ≤ (b.grow size).capacity := by
  rw [capacity_grow]
  exact le_grown _ _ _

theorem size_le_capacity_grow (b : Buffer) (size : Nat) : size ≤ (b.grow size).capacity := by
  rw [capacity_grow]
  exact size_le_grown size b.storage_pos (Nat.le_add_left _ _)

theorem capacity_put {b : Buffer} {bs : Bytes} (surplus : Bytes)
    (room : b.length + bs.length ≤ b.capacity) :
    (b.put bs surplus).capacity = b.capacity + surplus.length := by
  simp only [capacity, put, List.length_append, List.length_take, List.length_drop] at room ⊢
  omega

theorem reserve_of_refused {b : Buffer} {size : Int} (h : size < 0 ∨ maxSize < size) :
    b.reserve size = (.error .lengthOutOfRange, b) :=
  if_pos h

theorem reserve_of_accepted {b : Buffer} {size : Int} (h : ¬(size < 0 ∨ maxSize < size)) :
    b.reserve size = (.ok (b.grow size.toNat).storage, b.grow size.toNat) :=
  if_neg h

@[simp] theorem length_bytes (b : Buffer) : b.bytes.length = b.length := by
  have := b.length_le
  rw [bytes, List.length_take]
  omega

@[simp] theorem length_grow (b : Buffer) (size : Nat) : (b.grow size).length = b.length :=
  rfl

@[simp] theorem bytes_grow (b : Buffer) (size : Nat) : (b.grow size).bytes = b.bytes :=
  List.take_append_of_le_length b.length_le

@[simp] theorem length_put (b : Buffer) (bs surplus : Bytes) :
    (b.put bs surplus).length = b.length + bs.length :=
  rfl

@[simp] theorem bytes_put (b : Buffer) (bs surplus : Bytes) :
    (b.put bs surplus).bytes = b.bytes ++ bs := by
  have whole : (b.bytes ++ bs).length = b.length + bs.length := by simp
  rw [bytes, put]
  exact List.take_left' whole

end Buffer

end ByteTemplate

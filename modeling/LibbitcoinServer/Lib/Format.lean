import LibbitcoinServer.Lib.Bytes

/-! # Formats

A format writes values as bytes that tell where they end, so that a value is read off the
front of any bytes that begin with it.  Formats are put together from formats: one after
another, as many as a number before them tells, or through a change of values.
-/

structure Format (Value : Type) where
  write : Value → List UInt8
  read : List UInt8 → Option (Value × List UInt8)
  /-- The values that the format can carry. -/
  Fits : Value → Prop
  read_write : ∀ {value}, Fits value → ∀ rest, read (write value ++ rest) = some (value, rest)

namespace Format

variable {First Second Value Item : Type}

/-- The value that some bytes are, with nothing after it. -/
def parse (format : Format Value) (data : List UInt8) : Option Value :=
  match format.read data with
  | some (value, []) => some value
  | _ => none

theorem parse_write (format : Format Value) {value : Value} (fits : format.Fits value) :
    format.parse (format.write value) = some value := by
  have read := format.read_write fits []
  rw [List.append_nil] at read
  rw [parse, read]

/-! ## Bytes and numbers -/

def takeBytes (size : Nat) (data : List UInt8) : Option (List UInt8 × List UInt8) :=
  if size ≤ data.length then some (data.take size, data.drop size) else none

theorem takeBytes_append {size : Nat} {first : List UInt8} (length : first.length = size)
    (rest : List UInt8) : takeBytes size (first ++ rest) = some (first, rest) := by
  have enough : size ≤ (first ++ rest).length := by
    rw [List.length_append, length]
    exact Nat.le_add_right size _
  rw [takeBytes, if_pos enough, List.take_left' length, List.drop_left' length]

/-- As many bytes. -/
def bytes (size : Nat) : Format (List UInt8) where
  write := id
  read := takeBytes size
  Fits value := value.length = size
  read_write fits rest := takeBytes_append fits rest

/-- A number, little endian. -/
def number (size : Nat) : Format Nat where
  write := Bytes.littleEndian size
  read data := (takeBytes size data).map fun (first, rest) => (Bytes.number first, rest)
  Fits value := value < 256 ^ size
  read_write := by
    intro value fits rest
    rw [takeBytes_append (Bytes.length_littleEndian size value), Option.map_some]
    dsimp only
    rw [Bytes.number_littleEndian fits]

/-- A reader on a buffer reads a number as the format reads it off what is left there. -/
theorem reader_number {torn : List UInt8 → Nat} {size position value : Nat}
    {data rest : List UInt8} (inside : position ≤ data.length)
    (found : (number size).read (data.drop position) = some (value, rest)) :
    (⟨position, true⟩ : Bytes.Reader).read torn data size =
      (value, ⟨data.length - rest.length, true⟩) := by
  have found : (takeBytes size (data.drop position)).map
      (fun (first, rest) => (Bytes.number first, rest)) = some (value, rest) := found
  unfold takeBytes at found
  split_ifs at found with enough
  · cases found
    rw [List.length_drop] at enough
    have holds : (⟨position, true⟩ : Bytes.Reader).Holds data size :=
      ⟨rfl, Nat.add_le_of_le_sub' inside enough⟩
    have place : position + size = data.length - ((data.drop position).drop size).length := by
      rw [List.length_drop, List.length_drop]
      omega
    rw [Bytes.Reader.read, if_pos holds, Bytes.Reader.skip_of_holds holds, ← place]
  · cases found

def writeCompact (value : Nat) : List UInt8 :=
  if value < 0xfd then Bytes.littleEndian 1 value
  else if value ≤ 0xffff then 0xfd :: Bytes.littleEndian 2 value
  else if value ≤ 0xffffffff then 0xfe :: Bytes.littleEndian 4 value
  else 0xff :: Bytes.littleEndian 8 value

def readCompact : List UInt8 → Option (Nat × List UInt8)
  | [] => none
  | first :: rest =>
      if first = 0xfd then (number 2).read rest
      else if first = 0xfe then (number 4).read rest
      else if first = 0xff then (number 8).read rest
      else some (first.toNat, rest)

theorem readCompact_writeCompact {value : Nat} (fits : value < 2 ^ 64) (rest : List UInt8) :
    readCompact (writeCompact value ++ rest) = some (value, rest) := by
  unfold writeCompact
  split_ifs with byte word double
  · have small : (UInt8.ofNat value).toNat = value := by
      rw [UInt8.toNat_ofNat']
      omega
    have plain : ∀ tag : UInt8, 0xfd ≤ tag.toNat → UInt8.ofNat value ≠ tag := by
      intro tag above same
      rw [← same, small] at above
      omega
    simp only [readCompact, Bytes.littleEndian, List.cons_append, List.nil_append,
      if_neg (plain 0xfd (by decide)), if_neg (plain 0xfe (by decide)),
      if_neg (plain 0xff (by decide)), small]
  · have small : (number 2).Fits value := (by omega : value < 256 ^ 2)
    exact (number 2).read_write small rest
  · have small : (number 4).Fits value := (by omega : value < 256 ^ 4)
    exact (number 4).read_write small rest
  · have small : (number 8).Fits value := (by omega : value < 256 ^ 8)
    exact (number 8).read_write small rest

/-- A number that takes one byte where it is small, and else two, four or eight after a byte
    that tells. -/
def compact : Format Nat where
  write := writeCompact
  read := readCompact
  Fits value := value < 2 ^ 64
  read_write := readCompact_writeCompact

/-! ## Formats of formats -/

def pair (first : Format First) (second : Format Second) : Format (First × Second) where
  write value := first.write value.1 ++ second.write value.2
  read data := do
    let (value, data) ← first.read data
    let (other, data) ← second.read data
    return ((value, other), data)
  Fits value := first.Fits value.1 ∧ second.Fits value.2
  read_write := by
    intro value fits rest
    simp [first.read_write fits.1, second.read_write fits.2]

/-- Values told by a number that stands before them. -/
def sized (head : Format Nat) (count : Value → Nat) (body : Nat → Format Value) :
    Format Value where
  write value := head.write (count value) ++ (body (count value)).write value
  read data := do
    let (size, data) ← head.read data
    (body size).read data
  Fits value := head.Fits (count value) ∧ (body (count value)).Fits value
  read_write := by
    intro value fits rest
    simp [head.read_write fits.1, (body _).read_write fits.2]

def readTimes (item : Format Item) : Nat → List UInt8 → Option (List Item × List UInt8)
  | 0, data => some ([], data)
  | count + 1, data => do
      let (value, data) ← item.read data
      let (values, data) ← item.readTimes count data
      return (value :: values, data)

theorem readTimes_flatMap (item : Format Item) {values : List Item}
    (fits : ∀ value ∈ values, item.Fits value) (rest : List UInt8) :
    item.readTimes values.length (values.flatMap item.write ++ rest) = some (values, rest) := by
  induction values with
  | nil => rfl
  | cons value values ih =>
      have both := List.forall_mem_cons.mp fits
      rw [List.length_cons, readTimes, List.flatMap_cons, List.append_assoc,
        item.read_write both.1, Option.bind_eq_bind, Option.bind_some]
      dsimp only
      rw [ih both.2]
      rfl

/-- As many items. -/
def times (item : Format Item) (count : Nat) : Format (List Item) where
  write values := values.flatMap item.write
  read := item.readTimes count
  Fits values := values.length = count ∧ ∀ value ∈ values, item.Fits value
  read_write := by
    intro values fits rest
    rw [← fits.1]
    exact item.readTimes_flatMap fits.2 rest

/-- Items after their count. -/
def list (item : Format Item) : Format (List Item) := compact.sized List.length item.times

/-- Bytes after their count. -/
def chunk : Format (List UInt8) := compact.sized List.length bytes

/-- A format of other values. -/
def via (format : Format First) (inner : Value → First) (outer : First → Value) :
    Format Value where
  write value := format.write (inner value)
  read data := (format.read data).map fun (value, data) => (outer value, data)
  Fits value := format.Fits (inner value) ∧ outer (inner value) = value
  read_write := by
    intro value fits rest
    rw [format.read_write fits.1, Option.map_some]
    dsimp only
    rw [fits.2]

theorem list_fits {item : Format Item} {values : List Item} (few : values.length < 2 ^ 64)
    (fits : ∀ value ∈ values, item.Fits value) : item.list.Fits values :=
  ⟨few, rfl, fits⟩

theorem list_write (item : Format Item) (values : List Item) :
    item.list.write values = compact.write values.length ++ values.flatMap item.write := rfl

theorem chunk_fits {value : List UInt8} (few : value.length < 2 ^ 64) : chunk.Fits value :=
  ⟨few, rfl⟩

end Format

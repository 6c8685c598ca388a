import LibbitcoinServer.Lib.Format
import Mathlib.Tactic

/-! # mempool.dat

The pooled transactions are saved with the time that each was pooled.  Version 2 of the
file hides each byte that follows its key, by file position.  It is read by a source open
on the buffer that the bytes are then revealed in.
-/

namespace LibbitcoinServer.Utilities

open Bytes

/-! ## The code -/

/-- What the code takes from the system library: the bytes of a transaction, the
    transaction at the head of some bytes with the number of them it takes (`none` where
    the source is left invalid), and the number that a torn read yields. -/
structure Wire (Tx : Type) where
  toData : Tx → List UInt8
  transaction : List UInt8 → Tx × Option Nat
  torn : List UInt8 → Nat

/-- The links of a vector, of which there are as many as its size can tell. -/
structure Links (Link : Type) where
  links : List Link
  fits : links.length < UInt64.size

/-- What the store answers. -/
structure Query (Tx Link : Type) where
  confirmable : Option (Links Link)
  transaction : Link → Option Tx
  pooledTime : Link → Option UInt32

def mempoolUnobfuscated : Nat := 1

def mempoolObfuscated : Nat := 2

def mempoolKeySize : Nat := 8

def mempoolKeyOffset : Nat := 8 + 1

def mempoolBodyOffset : Nat := mempoolKeyOffset + mempoolKeySize

namespace Wire

variable {Tx Link : Type} (wire : Wire Tx)

/-- One record of the file. -/
def record (tx : Tx) (time : UInt32) : List UInt8 :=
  wire.toData tx ++ littleEndian 8 time.toNat ++ littleEndian 8 0

/-- One turn of the loop that writes. -/
def writeRecord (query : Query Tx Link) (sink : List UInt8) (link : Link) :
    Option (List UInt8) := do
  let tx ← query.transaction link
  let time ← query.pooledTime link
  return sink ++ wire.record tx time

def serializeMempool (query : Query Tx Link) : Option (List UInt8) := do
  let links ← query.confirmable
  let sink := littleEndian 8 mempoolUnobfuscated ++ littleEndian 8 links.links.length
  let sink ← links.links.foldlM (wire.writeRecord query) sink
  return sink ++ Format.writeCompact 0 ++ Format.writeCompact 0

def readSize (source : Reader) (data : List UInt8) : Nat × Reader :=
  let (first, source) := source.read wire.torn data 1
  if first = 0xfd then source.read wire.torn data 2
  else if first = 0xfe then source.read wire.torn data 4
  else if first = 0xff then source.read wire.torn data 8
  else (first, source)

/-- One turn of the loop that reveals, `none` where a place is outside of the data. -/
def revealByte (data : List UInt8) (index : Nat) : Option (List UInt8) := do
  let byte ← data[index]?
  let key ← data[mempoolKeyOffset + index % mempoolKeySize]?
  return data.set index (byte ^^^ key)

def reveal (data : List UInt8) : Option (List UInt8) :=
  (List.range' mempoolBodyOffset (data.length - mempoolBodyOffset)).foldlM revealByte data

/-- What becomes of the data once the version is read: a place outside of it was asked for,
    the file was refused, or its body is open. -/
inductive Opened where
  | outside
  | refused
  | body (data : List UInt8) (source : Reader)
  deriving DecidableEq

def openMempool (data : List UInt8) : Opened :=
  let (version, source) := (Reader.mk 0 true).read wire.torn data 8
  if version = mempoolObfuscated then
    let (size, source) := wire.readSize source data
    if size ≠ mempoolKeySize ∨ data.length < mempoolBodyOffset then .refused
    else
      let source := source.skip data mempoolKeySize
      match reveal data with
      | none => .outside
      | some data => .body data source
  else if version ≠ mempoolUnobfuscated then .refused
  else .body data source

/-- The source after a transaction. -/
def taken (source : Reader) : Option Nat → Reader
  | some count => ⟨source.position + count, source.valid⟩
  | none => ⟨source.position, false⟩

def readRecords (data : List UInt8) : Nat → Reader → List Tx → List Tx × Reader
  | 0, source, out => (out, source)
  | count + 1, source, out =>
      if source.valid then
        let (tx, size) := wire.transaction (data.drop source.position)
        readRecords data count ((taken source size).skip data (8 + 8)) (out ++ [tx])
      else (out, source)

/-- Whether the file was read, and its transactions, or `none` where a place outside of the
    data was asked for. -/
def parseMempool (data : List UInt8) : Option (Bool × List Tx) :=
  match wire.openMempool data with
  | .outside => none
  | .refused => some (false, [])
  | .body data source =>
      let (count, source) := source.read wire.torn data 8
      let (out, source) := wire.readRecords data count source []
      some (source.valid, out)

/-! ## Sizes -/

/-- A size that stands in full at the source is read as its format has it. -/
theorem readSize_compact {source : Reader} {data rest : List UInt8} {size : Nat}
    (valid : source.valid = true)
    (found : Format.readCompact (data.drop source.position) = some (size, rest)) :
    wire.readSize source data = (size, ⟨data.length - rest.length, true⟩) := by
  obtain ⟨position, _⟩ := source
  cases valid
  dsimp only at found
  cases there : data.drop position with
  | nil =>
      rw [there] at found
      cases found
  | cons first after =>
      have within : position < data.length := by
        by_contra beyond
        rw [List.drop_eq_nil_of_le (Nat.not_lt.mp beyond)] at there
        cases there
      have next : data.drop (position + 1) = after := by
        rw [← List.drop_drop, there, List.drop_one, List.tail_cons]
      have here : (⟨position, true⟩ : Reader).read wire.torn data 1 =
          (first.toNat, ⟨position + 1, true⟩) := by
        have alone : (Format.number 1).read (data.drop position) = some (first.toNat, after) := by
          rw [there]
          rfl
        rw [Format.reader_number within.le alone, ← next, List.length_drop]
        congr 2
        omega
      have same : ∀ tag : UInt8, first.toNat = tag.toNat ↔ first = tag :=
        fun tag => UInt8.toNat_inj
      rw [there, Format.readCompact, ← next] at found
      unfold readSize
      rw [here]
      dsimp only
      have word := same 0xfd
      have double := same 0xfe
      have quad := same 0xff
      simp only [UInt8.reduceToNat] at word double quad
      simp only [word, double, quad]
      split_ifs at found ⊢
      · exact Format.reader_number within found
      · exact Format.reader_number within found
      · exact Format.reader_number within found
      · cases found
        rw [List.length_drop]
        congr 2
        omega

/-! ## Revealing -/

/-- The byte of the key that hides the byte at a place. -/
def keyAt (data : List UInt8) (index : Nat) : UInt8 :=
  data.getD (mempoolKeyOffset + index % mempoolKeySize) 0

theorem key_lt (index : Nat) :
    mempoolKeyOffset + index % mempoolKeySize < mempoolBodyOffset := by
  unfold mempoolKeyOffset mempoolKeySize mempoolBodyOffset mempoolKeyOffset mempoolKeySize
  omega

theorem revealByte_eq {data : List UInt8} {index : Nat} (after : mempoolBodyOffset ≤ index)
    (bound : index < data.length) :
    revealByte data index = some (data.set index (data[index] ^^^ keyAt data index)) := by
  have inside := (key_lt index).trans_le (after.trans bound.le)
  simp [revealByte, keyAt, bound, inside]

theorem keyAt_set {data : List UInt8} {index : Nat} (after : mempoolBodyOffset ≤ index)
    (byte : UInt8) : keyAt (data.set index byte) = keyAt data := by
  funext other
  have before := (key_lt other).trans_le after
  unfold keyAt
  rw [List.getD_eq_getElem?_getD, List.getD_eq_getElem?_getD, List.getElem?_set_ne before.ne']

/-- The loop never asks for a place outside of the data, and leaves the key as it is. -/
theorem foldlM_revealByte {data : List UInt8} {start count : Nat}
    (after : mempoolBodyOffset ≤ start) (bound : start + count ≤ data.length) :
    (List.range' start count).foldlM revealByte data =
      some (data.mapIdx fun index byte =>
        if start ≤ index ∧ index < start + count then byte ^^^ keyAt data index else byte) := by
  induction count generalizing start data with
  | zero =>
      have same : (data.mapIdx fun index byte =>
          if start ≤ index ∧ index < start + 0 then byte ^^^ keyAt data index else byte) =
            data := by
        apply List.ext_getElem?
        intro index
        have none : ¬(start ≤ index ∧ index < start) := by omega
        simp [none]
      rw [same]
      rfl
  | succ count ih =>
      have here : start < data.length := by omega
      rw [List.range'_succ, List.foldlM_cons, revealByte_eq after here]
      simp only [Option.bind_eq_bind, Option.bind_some]
      rw [ih (by omega) (by rw [List.length_set]; omega), keyAt_set after]
      congr 1
      apply List.ext_getElem?
      intro index
      rw [List.getElem?_mapIdx, List.getElem?_mapIdx]
      by_cases first : start = index
      · cases first
        have passed : ¬(start + 1 ≤ start ∧ start < start + 1 + count) := by omega
        have reached : start ≤ start ∧ start < start + (count + 1) := by omega
        rw [List.getElem?_set_self here, List.getElem?_eq_getElem here, Option.map_some,
          Option.map_some, if_neg passed, if_pos reached]
      · rw [List.getElem?_set_ne first]
        congr 2
        funext byte
        have split : start + 1 ≤ index ∧ index < start + 1 + count ↔
            start ≤ index ∧ index < start + (count + 1) := by omega
        simp only [split]

theorem reveal_eq {data : List UInt8} (long : mempoolBodyOffset ≤ data.length) :
    reveal data = some (data.mapIdx fun index byte =>
      if mempoolBodyOffset ≤ index then byte ^^^ keyAt data index else byte) := by
  unfold reveal
  rw [foldlM_revealByte (Nat.le_refl _) (by omega)]
  congr 1
  apply List.ext_getElem?
  intro index
  rw [List.getElem?_mapIdx, List.getElem?_mapIdx]
  by_cases bound : index < data.length
  · have split : mempoolBodyOffset ≤ index ∧
        index < mempoolBodyOffset + (data.length - mempoolBodyOffset) ↔
          mempoolBodyOffset ≤ index := by omega
    simp only [split]
  · rw [List.getElem?_eq_none (Nat.not_lt.mp bound)]
    rfl

/-- No file takes the code to a place outside of it. -/
theorem openMempool_ne_outside (data : List UInt8) : wire.openMempool data ≠ .outside := by
  unfold openMempool
  dsimp only
  split_ifs with obfuscated short unobfuscated
  · exact nofun
  · rw [reveal_eq (by omega)]
    exact nofun
  · exact nofun
  · exact nofun

/-! ## Records -/

/-- Records read in full, from a place of the data to another. -/
inductive Records (data : List UInt8) : Nat → List Tx → Nat → Prop where
  | nil {position : Nat} : Records data position [] position
  | cons {position size last : Nat} {tx : Tx} {txs : List Tx}
      (read : wire.transaction (data.drop position) = (tx, some size))
      (whole : position + size + (8 + 8) ≤ data.length)
      (rest : Records data (position + size + (8 + 8)) txs last) :
      Records data position (tx :: txs) last

variable {wire} {data : List UInt8}

theorem readRecords_invalid (count : Nat) {source : Reader} (invalid : source.valid = false)
    (out : List Tx) : wire.readRecords data count source out = (out, source) := by
  cases count with
  | zero => rfl
  | succ count => simp [readRecords, invalid]

/-- A source that is valid after a record has read the whole of it. -/
theorem skip_taken (source : Reader) (size : Option Nat) :
    (∃ count, size = some count ∧ source.position + count + (8 + 8) ≤ data.length ∧
      (taken source size).skip data (8 + 8) = ⟨source.position + count + (8 + 8), true⟩) ∨
    ((taken source size).skip data (8 + 8)).valid = false := by
  cases size with
  | none => exact .inr (Reader.skip_invalid rfl)
  | some count =>
      by_cases holds : (taken source (some count)).Holds data (8 + 8)
      · exact .inl ⟨count, rfl, holds.2, Reader.skip_of_holds holds⟩
      · refine .inr ?_
        rw [Bool.eq_false_iff, ne_eq, Reader.skip_valid]
        exact holds

/-- Where the source is left valid, as many records as declared were read in full. -/
theorem records_of_valid {count : Nat} {source : Reader} {out : List Tx}
    (open_ : source.valid = true)
    (valid : (wire.readRecords data count source out).2.valid = true) :
    ∃ txs last, wire.Records data source.position txs last ∧ txs.length = count ∧
      (wire.readRecords data count source out).1 = out ++ txs := by
  induction count generalizing source out with
  | zero => exact ⟨[], source.position, .nil, rfl, (List.append_nil out).symm⟩
  | succ count ih =>
      rw [readRecords, if_pos open_] at valid ⊢
      dsimp only at valid ⊢
      cases skip_taken source (wire.transaction (data.drop source.position)).2 with
      | inl read =>
          obtain ⟨size, here, whole, source_eq⟩ := read
          rw [source_eq] at valid ⊢
          obtain ⟨txs, last, records, length, out_eq⟩ := ih rfl valid
          refine ⟨_ :: txs, last, .cons (Prod.ext rfl here) whole records, ?_, ?_⟩
          · rw [List.length_cons, length]
          · rw [out_eq, List.append_assoc, List.singleton_append]
      | inr invalid =>
          rw [readRecords_invalid count invalid, invalid] at valid
          cases valid

/-- Records that are there in full are read. -/
theorem Records.read {position last : Nat} {txs : List Tx}
    (records : wire.Records data position txs last) (out : List Tx) :
    wire.readRecords data txs.length ⟨position, true⟩ out = (out ++ txs, ⟨last, true⟩) := by
  induction records generalizing out with
  | nil => simp [readRecords]
  | cons read whole rest ih =>
      rw [List.length_cons, readRecords, if_pos rfl, read]
      dsimp only [taken]
      rw [Reader.skip_of_holds ⟨rfl, whole⟩, ih, List.append_assoc, List.singleton_append]

/-- A record takes sixteen bytes at the least, so that the data bounds the turns of the loop
    whatever the count. -/
theorem length_readRecords {count : Nat} {source : Reader} {out : List Tx} :
    (wire.readRecords data count source out).1.length ≤
      out.length + (data.length - source.position) / 16 + 1 := by
  induction count generalizing source out with
  | zero =>
      simp only [readRecords]
      omega
  | succ count ih =>
      by_cases valid : source.valid = true
      · rw [readRecords, if_pos valid]
        dsimp only
        cases skip_taken source (wire.transaction (data.drop source.position)).2 with
        | inl read =>
            obtain ⟨size, here, whole, source_eq⟩ := read
            rw [source_eq]
            apply (@ih ⟨source.position + size + (8 + 8), true⟩ _).trans
            simp only [List.length_append, List.length_singleton]
            omega
        | inr invalid =>
            rw [readRecords_invalid count invalid, List.length_append, List.length_singleton]
            omega
      · rw [readRecords_invalid _ (Bool.eq_false_iff.mpr valid)]
        exact Nat.le_add_right_of_le (Nat.le_add_right _ _)

/-! ## What is written -/

/-- The codec of the transactions, as far as the file depends on it: what is written is
    read back, whatever follows it. -/
def RoundTrips (wire : Wire Tx) : Prop :=
  ∀ tx rest, wire.transaction (wire.toData tx ++ rest) = (tx, some (wire.toData tx).length)

/-- The transactions and times that the store answers for its links. -/
def Pooled (query : Query Tx Link) (records : List (Tx × UInt32)) : Prop :=
  ∃ links, query.confirmable = some links ∧
    List.Forall₂ (fun link record => query.transaction link = some record.1 ∧
      query.pooledTime link = some record.2) links.links records

variable (wire) in
/-- What follows the version, and in version 2 the key. -/
def body (records : List (Tx × UInt32)) : List UInt8 :=
  littleEndian 8 records.length ++ (records.flatMap (fun record => wire.record record.1 record.2) ++
    (Format.writeCompact 0 ++ Format.writeCompact 0))

theorem foldlM_writeRecord {query : Query Tx Link} {links : List Link}
    {records : List (Tx × UInt32)}
    (answers : List.Forall₂ (fun link record => query.transaction link = some record.1 ∧
      query.pooledTime link = some record.2) links records) (sink : List UInt8) :
    links.foldlM (wire.writeRecord query) sink =
      some (sink ++ records.flatMap fun record => wire.record record.1 record.2) := by
  induction answers generalizing sink with
  | nil => simp
  | cons answer rest ih =>
      rw [List.foldlM_cons]
      simp only [writeRecord, answer.1, answer.2, Option.bind_eq_bind, Option.bind_some,
        Option.pure_def, List.flatMap_cons]
      rw [← List.append_assoc]
      exact ih _

theorem serializeMempool_eq {query : Query Tx Link} {records : List (Tx × UInt32)}
    (pooled : Pooled query records) :
    wire.serializeMempool query =
      some (littleEndian 8 mempoolUnobfuscated ++ wire.body records) := by
  obtain ⟨links, found, answers⟩ := pooled
  unfold serializeMempool
  simp only [found, Option.bind_eq_bind, Option.bind_some, foldlM_writeRecord answers,
    Option.pure_def, body, answers.length_eq, List.append_assoc]

theorem Pooled.length_lt {query : Query Tx Link} {records : List (Tx × UInt32)}
    (pooled : Pooled query records) : records.length < 256 ^ 8 := by
  obtain ⟨links, -, answers⟩ := pooled
  rw [← answers.length_eq]
  exact links.fits

/-- The records that are written are there in full. -/
theorem records_written (trips : wire.RoundTrips) (before after : List UInt8)
    (records : List (Tx × UInt32)) :
    ∃ last, wire.Records
      (before ++ (records.flatMap (fun record => wire.record record.1 record.2) ++ after))
      before.length (records.map Prod.fst) last := by
  induction records generalizing before with
  | nil => exact ⟨before.length, .nil⟩
  | cons record records ih =>
      obtain ⟨last, rest⟩ := ih (before ++ wire.record record.1 record.2)
      have length : (before ++ wire.record record.1 record.2).length =
          before.length + (wire.toData record.1).length + (8 + 8) := by
        simp only [Wire.record, List.length_append, length_littleEndian]
        omega
      rw [length, List.append_assoc, ← List.append_assoc (wire.record _ _)] at rest
      rw [List.flatMap_cons, List.map_cons]
      refine ⟨last, .cons ?_ ?_ rest⟩
      · rw [List.drop_left]
        simp only [Wire.record, List.append_assoc]
        exact trips record.1 _
      · rw [← length]
        simp only [List.length_append]
        omega

/-- An open body is read to the records it was written from. -/
theorem parseMempool_of_body (trips : wire.RoundTrips) {data before : List UInt8}
    {records : List (Tx × UInt32)} (fits : records.length < 256 ^ 8)
    (opened : wire.openMempool data =
      .body (before ++ wire.body records) ⟨before.length, true⟩) :
    wire.parseMempool data = some (true, records.map Prod.fst) := by
  obtain ⟨last, written⟩ := records_written trips (before ++ littleEndian 8 records.length)
    (Format.writeCompact 0 ++ Format.writeCompact 0) records
  have read := written.read []
  rw [List.length_map, List.length_append, length_littleEndian, List.append_assoc,
    List.nil_append] at read
  unfold parseMempool
  rw [opened]
  dsimp only
  unfold body
  rw [Reader.read_littleEndian wire.torn before _ fits]
  dsimp only
  rw [read]

theorem openMempool_unobfuscated (body : List UInt8) :
    wire.openMempool (littleEndian 8 mempoolUnobfuscated ++ body) =
      .body (littleEndian 8 mempoolUnobfuscated ++ body) ⟨8, true⟩ := by
  have version := Reader.read_littleEndian wire.torn [] body
    (show mempoolUnobfuscated < 256 ^ 8 by decide)
  simp only [List.length_nil, List.nil_append, Nat.zero_add] at version
  unfold openMempool
  rw [version]
  rfl

/-! ## What is hidden -/

/-- What precedes the key in a file of version 2. -/
def opening : List UInt8 :=
  littleEndian 8 mempoolObfuscated ++ Format.writeCompact mempoolKeySize

theorem length_opening : opening.length = mempoolKeyOffset := rfl

/-- The head of a file of version 2. -/
def head (key : List UInt8) : List UInt8 :=
  littleEndian 8 mempoolObfuscated ++ Format.writeCompact mempoolKeySize ++ key

theorem head_eq (key : List UInt8) : head key = opening ++ key := rfl

/-- Each byte that follows the key, hidden by its place in the file. -/
def hidden (key body : List UInt8) : List UInt8 :=
  body.mapIdx fun index byte =>
    byte ^^^ key.getD ((mempoolBodyOffset + index) % mempoolKeySize) 0

/-- A file of version 2. -/
def obfuscated (key body : List UInt8) : List UInt8 := head key ++ hidden key body

theorem length_head {key : List UInt8} (size : key.length = mempoolKeySize) :
    (head key).length = mempoolBodyOffset := by
  rw [head_eq, List.length_append, length_opening, size]
  rfl

theorem keyAt_head {key rest : List UInt8} (size : key.length = mempoolKeySize) (index : Nat) :
    keyAt (head key ++ rest) index = key.getD (index % mempoolKeySize) 0 := by
  have inside : index % mempoolKeySize < key.length := by
    rw [size]
    exact Nat.mod_lt _ (by decide)
  have after : opening.length ≤ mempoolKeyOffset + index % mempoolKeySize := by
    rw [length_opening]
    exact Nat.le_add_right _ _
  unfold keyAt
  rw [head_eq, List.append_assoc, List.getD_eq_getElem?_getD, List.getD_eq_getElem?_getD,
    List.getElem?_append_right after, length_opening, Nat.add_sub_cancel_left,
    List.getElem?_append_left inside]

/-- Revealing undoes hiding: the key is where it is looked for, and places are counted from
    the head of the file by both. -/
theorem reveal_obfuscated {key : List UInt8} (size : key.length = mempoolKeySize)
    (body : List UInt8) : reveal (obfuscated key body) = some (head key ++ body) := by
  have long : mempoolBodyOffset ≤ (obfuscated key body).length := by
    rw [obfuscated, List.length_append, length_head size]
    exact Nat.le_add_right _ _
  rw [reveal_eq long]
  congr 1
  apply List.ext_getElem?
  intro index
  rw [List.getElem?_mapIdx]
  have keys : keyAt (obfuscated key body) index = key.getD (index % mempoolKeySize) 0 :=
    keyAt_head size index
  rw [keys, obfuscated, hidden]
  by_cases first : index < mempoolBodyOffset
  · rw [← length_head size] at first
    rw [List.getElem?_append_left first, List.getElem?_append_left first]
    rw [length_head size] at first
    simp [Nat.not_le.mpr first]
  · have after := Nat.not_lt.mp first
    have place : mempoolBodyOffset + (index - mempoolBodyOffset) = index := by omega
    rw [← length_head size] at after
    rw [List.getElem?_append_right after, List.getElem?_append_right after, length_head size,
      List.getElem?_mapIdx, Option.map_map, place]
    rw [length_head size] at after
    simp only [after, if_true, Function.comp_def, UInt8.xor_assoc, UInt8.xor_self, UInt8.xor_zero]
    simp

theorem openMempool_obfuscated {key : List UInt8} (size : key.length = mempoolKeySize)
    (body : List UInt8) :
    wire.openMempool (obfuscated key body) =
      .body (head key ++ body) ⟨(head key).length, true⟩ := by
  have whole : obfuscated key body = littleEndian 8 mempoolObfuscated ++
      (Format.writeCompact mempoolKeySize ++ (key ++ hidden key body)) := by
    rw [obfuscated, head, List.append_assoc, List.append_assoc]
  have version := Reader.read_littleEndian wire.torn [] (Format.writeCompact mempoolKeySize ++
    (key ++ hidden key body)) (show mempoolObfuscated < 256 ^ 8 by decide)
  rw [List.length_nil, List.nil_append, ← whole] at version
  have written : Format.readCompact ((obfuscated key body).drop 8) =
      some (mempoolKeySize, key ++ hidden key body) := by
    rw [whole, List.drop_left' (length_littleEndian 8 mempoolObfuscated)]
    exact Format.readCompact_writeCompact (by decide) _
  have past : (obfuscated key body).length - (key ++ hidden key body).length =
      mempoolKeyOffset := by
    rw [obfuscated, head_eq, List.append_assoc, List.length_append, length_opening,
      Nat.add_sub_cancel]
  have long : ¬(obfuscated key body).length < mempoolBodyOffset := by
    rw [obfuscated, List.length_append, length_head size]
    omega
  have holds : (Reader.mk mempoolKeyOffset true).Holds (obfuscated key body) mempoolKeySize :=
    ⟨rfl, Nat.not_lt.mp long⟩
  unfold openMempool
  rw [version]
  dsimp only [Nat.zero_add]
  rw [wire.readSize_compact rfl written, past]
  dsimp only
  rw [if_pos rfl, if_neg (not_or.mpr ⟨not_not.mpr rfl, long⟩), reveal_obfuscated size,
    length_head size]
  exact congrArg (Opened.body (head key ++ body)) (Reader.skip_of_holds holds)

/-! ## Whatever the file -/

theorem length_of_body {file clear : List UInt8} {source : Reader}
    (opened : wire.openMempool file = .body clear source) : clear.length = file.length := by
  unfold openMempool at opened
  dsimp only at opened
  split_ifs at opened with obfuscated short unobfuscated
  · rw [reveal_eq (by omega)] at opened
    cases opened
    exact List.length_mapIdx
  · cases opened
    rfl

/-- No file takes the code to a place outside of it, or the loop beyond what the file can
    hold; one that is read holds the records that it declares. -/
theorem parseMempool_total (file : List UInt8) :
    ∃ valid out, wire.parseMempool file = some (valid, out) ∧ out.length ≤ file.length / 16 + 1 ∧
      (valid = true → ∃ clear position last, wire.openMempool file = .body clear ⟨position, true⟩ ∧
        position + 8 ≤ clear.length ∧
        out.length = number ((clear.drop position).take 8) ∧
        wire.Records clear (position + 8) out last) := by
  unfold parseMempool
  cases opened : wire.openMempool file with
  | outside => cases wire.openMempool_ne_outside file opened
  | refused => exact ⟨false, [], rfl, Nat.zero_le _, nofun⟩
  | body clear source =>
      dsimp only
      refine ⟨_, _, rfl, ?_, ?_⟩
      · apply length_readRecords.trans
        rw [length_of_body opened, List.length_nil, Nat.zero_add]
        exact Nat.succ_le_succ (Nat.div_le_div_right (Nat.sub_le _ _))
      · intro valid
        by_cases holds : source.Holds clear 8
        · have counted : source.read wire.torn clear 8 =
              (number ((clear.drop source.position).take 8), ⟨source.position + 8, true⟩) := by
            rw [Reader.read, if_pos holds, Reader.skip_of_holds holds]
          rw [counted] at valid ⊢
          obtain ⟨txs, last, records, length, out_eq⟩ := records_of_valid rfl valid
          dsimp only at records out_eq ⊢
          rw [out_eq, List.nil_append]
          refine ⟨clear, source.position, last, ?_, holds.2, length, records⟩
          rw [← holds.1]
        · have invalid : (source.read wire.torn clear 8).2.valid = false := by
            rw [Bool.eq_false_iff, ne_eq]
            exact fun valid => holds (Reader.skip_valid.mp valid)
          rw [readRecords_invalid _ invalid, invalid] at valid
          cases valid

variable (wire) in
/-- What is saved is read back in either version under any key, and of any file at all no
    more is read than it holds, and all that it declares where it is read. -/
theorem mempool_round_trip (trips : wire.RoundTrips) :
    (∀ (query : Query Tx Link) (records : List (Tx × UInt32)), Pooled query records →
      ∃ file, wire.serializeMempool query = some file ∧
        wire.parseMempool file = some (true, records.map Prod.fst) ∧
        ∀ key : List UInt8, key.length = mempoolKeySize →
          wire.parseMempool (obfuscated key (file.drop 8)) = some (true, records.map Prod.fst)) ∧
    ∀ file : List UInt8,
      ∃ valid out, wire.parseMempool file = some (valid, out) ∧
        out.length ≤ file.length / 16 + 1 ∧
        (valid = true → ∃ clear position last,
          wire.openMempool file = .body clear ⟨position, true⟩ ∧ position + 8 ≤ clear.length ∧
          out.length = number ((clear.drop position).take 8) ∧
          wire.Records clear (position + 8) out last) := by
  constructor
  · intro query records pooled
    refine ⟨_, serializeMempool_eq pooled, ?_, ?_⟩
    · exact parseMempool_of_body trips pooled.length_lt (openMempool_unobfuscated _)
    · intro key size
      rw [List.drop_left' (length_littleEndian 8 mempoolUnobfuscated)]
      exact parseMempool_of_body trips pooled.length_lt (openMempool_obfuscated size _)
  · exact parseMempool_total

/-- Transactions of one input and one output, with empty scripts. -/
private def sixty : Wire {bytes : List UInt8 // bytes.length = 60} where
  toData tx := tx.1
  transaction data :=
    if long : 60 ≤ data.length then (⟨data.take 60, List.length_take_of_le long⟩, some 60)
    else (⟨List.replicate 60 0, List.length_replicate⟩, none)
  torn _ := 0

private theorem sixty_trips : sixty.RoundTrips := by
  intro tx rest
  have first : (tx.1 ++ rest).take 60 = tx.1 := List.take_left' tx.2
  simp [sixty, first, tx.2]

private def spend : {bytes : List UInt8 // bytes.length = 60} :=
  ⟨[1, 0, 0, 0, 1] ++ List.replicate 37 0 ++ List.replicate 4 255 ++ [1] ++ List.replicate 13 0,
    rfl⟩

private theorem one_fits : [()].length < UInt64.size := by decide

private def single : Query {bytes : List UInt8 // bytes.length = 60} Unit :=
  ⟨some ⟨[()], one_fits⟩, fun _ => some spend, fun _ => some 1700000000⟩

/-- One transaction is saved, and read back in either version. -/
theorem mempool_round_trip_single :
    (∃ file, sixty.serializeMempool single = some file ∧
      sixty.parseMempool file = some (true, [spend]) ∧
      ∀ key : List UInt8, key.length = mempoolKeySize →
        sixty.parseMempool (obfuscated key (file.drop 8)) = some (true, [spend])) ∧
    ∀ file : List UInt8,
      ∃ valid out, sixty.parseMempool file = some (valid, out) ∧
        out.length ≤ file.length / 16 + 1 ∧
        (valid = true → ∃ clear position last,
          sixty.openMempool file = .body clear ⟨position, true⟩ ∧ position + 8 ≤ clear.length ∧
          out.length = number ((clear.drop position).take 8) ∧
          sixty.Records clear (position + 8) out last) := by
  have holds := @mempool_round_trip _ Unit sixty sixty_trips
  exact ⟨holds.1 single [(spend, 1700000000)] ⟨_, rfl, .cons ⟨rfl, rfl⟩ .nil⟩, holds.2⟩

end Wire

end LibbitcoinServer.Utilities

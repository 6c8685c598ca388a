import LibbitcoinServer.Lib.Format
import LibbitcoinServer.Lib.Sink
import LibbitcoinServer.Lib.Text
import LibbitcoinServer.Lib.Traverse
import LibbitcoinServer.Merkle.Flags
import Mathlib.Data.List.ReduceOption

/-! # Replies in bytes, text and json

A rest reply comes in the media that the target names.  Its bytes are written into a buffer
that is sized before, its text is that of its bytes, and its json is made apart.  What a client
reads does not depend on the media.
-/

namespace LibbitcoinServer.Bitcoind

/-- `hash_digest`. -/
abbrev RestHash := { bytes : List UInt8 // bytes.length = 32 }

inductive Media where
  | data
  | text
  | json
  | other
  deriving DecidableEq

/-- What is sent.  `overrun` stands for a write beyond the buffer. -/
inductive RestReply (Json : Type) where
  | badRequest
  | notFound
  | integrity
  | overrun
  | data (bytes : List UInt8)
  | text (text : List Char)
  | json (model : Json)
  deriving DecidableEq

/-- The serialization of outputs, of the system library. -/
structure OutputWire (Output : Type) extends Format Output where
  serializedSize : Output → Nat
  size_eq : ∀ output, serializedSize output = (write output).length
  fits : ∀ output, Fits output

/-- What an output shows in json: its value and the model of its script. -/
structure OutputView (Output Model : Type) where
  value : Output → UInt64
  scriptPublicKey : Output → Model

/-- An amount over this is the decimal that is written.  The source has the double nearest
    to it. -/
def satoshiPerBitcoin : Nat := 100000000

def variableSize (value : Nat) : Nat :=
  if value < 0xfd then 1 else if value ≤ 0xffff then 3 else if value ≤ 0xffffffff then 5 else 9

/-- A buffer of a size with pieces written to it. -/
def filled (size : Nat) (pieces : List (List UInt8)) : Option (List UInt8) :=
  (pieces.foldlM Sink.write (Sink.written [] size (0 : UInt8))).map Sink.buffer

/-- The end of a handler, for the media. -/
def respond {Json : Type} (media : Media) (wire : Option (List UInt8)) (model : Json) :
    RestReply Json :=
  match wire, media with
  | none, _ => .overrun
  | some wire, .data => .data wire
  | some wire, .text => .text (Text.encodeBase16 wire ++ ['\n'])
  | some _, .json => .json model
  | some _, .other => .notFound

theorem length_compact (value : Nat) :
    (Format.compact.write value).length = variableSize value := by
  simp only [Format.compact, Format.writeCompact, variableSize]
  split_ifs
  all_goals simp

theorem foldlM_write {pieces : List (List UInt8)} {values : List UInt8} {room : Nat}
    (fits : pieces.flatten.length ≤ room) :
    pieces.foldlM Sink.write (Sink.written values room (0 : UInt8)) =
      some (Sink.written (values ++ pieces.flatten) (room - pieces.flatten.length) 0) := by
  induction pieces generalizing values room with
  | nil => simp
  | cons piece pieces ih =>
      rw [List.flatten_cons, List.length_append] at fits
      have wrote := @Sink.write_written _ values piece room 0 (by omega)
      rw [List.foldlM_cons, wrote, Option.bind_eq_bind, Option.bind_some, ih (by omega),
        List.flatten_cons, List.append_assoc, List.length_append, Nat.sub_sub]

/-- A buffer of the size of its pieces is filled by them. -/
theorem filled_eq {size : Nat} {pieces : List (List UInt8)}
    (exact_size : size = pieces.flatten.length) : filled size pieces = some pieces.flatten := by
  rw [filled, foldlM_write (Nat.le_of_eq exact_size.symm), exact_size, Nat.sub_self,
    Option.map_some, List.nil_append, Sink.written, List.replicate_zero, List.append_nil]

/-! ## Serialized outputs -/

/-- An output of the wire: its value and its script, of which there are as many bytes as a size
    can tell. -/
abbrev PlainOutput := UInt64 × { script : List UInt8 // script.length < 2 ^ 64 }

def plainScript (script : List UInt8) : { script : List UInt8 // script.length < 2 ^ 64 } :=
  if few : script.length < 2 ^ 64 then ⟨script, few⟩ else ⟨[], Nat.two_pow_pos 64⟩

theorem plainScript_val (script : { script : List UInt8 // script.length < 2 ^ 64 }) :
    plainScript script.1 = script := dif_pos script.2

def plainFormat : Format PlainOutput :=
  ((Format.number 8).pair Format.chunk).via (fun output => (output.1.toNat, output.2.1))
    fun (value, script) => (UInt64.ofNat value, plainScript script)

theorem plainFormat_fits (output : PlainOutput) : plainFormat.Fits output := by
  refine ⟨⟨output.1.toNat_lt, Format.chunk_fits output.2.2⟩, ?_⟩
  dsimp only
  rw [plainScript_val, UInt64.ofNat_toNat]

theorem length_plainFormat (output : PlainOutput) :
    8 + variableSize output.2.1.length + output.2.1.length = (plainFormat.write output).length := by
  simp only [plainFormat, Format.via, Format.pair, Format.number, Format.chunk, Format.sized,
    Format.bytes, List.length_append, Bytes.length_littleEndian, length_compact, id]
  omega

def plainWire : OutputWire PlainOutput where
  toFormat := plainFormat
  serializedSize output := 8 + variableSize output.2.1.length + output.2.1.length
  size_eq := length_plainFormat
  fits := plainFormat_fits

/-! ## getutxos -/

structure Utxo (Output : Type) where
  height : Nat
  out : Output
  deriving DecidableEq

structure RestOutpoint where
  hash : RestHash
  index : UInt32
  deriving DecidableEq

/-- The queries of outputs. -/
structure UtxoQuery (Link Tx Output : Type) where
  toOutput : RestHash → UInt32 → Link
  isTerminal : Link → Bool
  toOutputTx : Link → Tx
  isTerminalTx : Tx → Bool
  isConfirmedOutput : Link → Bool
  isPooled : Tx → Bool
  isConfirmableTx : Tx → Bool
  isConfirmedSpent : Link → Bool
  isConfirmableSpent : Link → Bool
  getOutput : Link → Option Output
  getTxHeight : Tx → Option Nat
  /-- The height and the hash of the top confirmed block. -/
  top : Option Nat
  topHash : RestHash

structure UtxosModel (Model : Type) where
  chainHeight : Nat
  chaintipHash : String
  bitmap : List Char
  utxos : List (Nat × ℚ × Model)

def maximumOutpoints : Nat := 15

def mempoolHeight : Nat := 0x7fffffff

section GetUtxos

variable {Link Tx Output Model : Type} (wire : OutputWire Output) (view : OutputView Output Model)
  (encodeHash : RestHash → String) (query : UtxoQuery Link Tx Output) (mempool : Bool)

namespace UtxoQuery

def confirmed (link : Link) : Bool := !query.isTerminal link && query.isConfirmedOutput link

def pooled (link : Link) : Bool :=
  let tx := query.toOutputTx link
  mempool && !query.confirmed link && !query.isTerminalTx tx && query.isPooled tx &&
    query.isConfirmableTx tx

def spent (link : Link) : Bool :=
  query.isConfirmedSpent link || (mempool && query.isConfirmableSpent link)

def hit (link : Link) : Bool :=
  (query.confirmed link || query.pooled mempool link) && !query.spent mempool link

/-- The entry of an output that is hit, `none` where the store fails. -/
def utxo (link : Link) : Option (Utxo Output) := do
  let out ← query.getOutput link
  let height ←
    (if query.confirmed link then query.getTxHeight (query.toOutputTx link)
    else some mempoolHeight)
  return ⟨height % 2 ^ 32, out⟩

end UtxoQuery

/-- One turn of the loop over the outpoints. -/
def gatherUtxo (found : List Bool × List (Utxo Output)) (item : RestOutpoint) :
    Option (List Bool × List (Utxo Output)) :=
  let link := query.toOutput item.hash item.index
  if query.hit mempool link then
    (query.utxo link).map fun utxo => (found.1 ++ [true], found.2 ++ [utxo])
  else some (found.1 ++ [false], found.2)

/-- Flags each hit, the lowest bit first within each byte. -/
def setBit (hits : List Bool) (bitmap : List UInt8) (index : Nat) : List UInt8 :=
  if hits.getD index false then
    bitmap.modify (index / 8) fun byte => byte ||| UInt8.ofNat (1 <<< (index % 8))
  else bitmap

def hitsBitmap (hits : List Bool) : List UInt8 :=
  (List.range hits.length).foldl (setBit hits) (List.replicate ((hits.length + 7) / 8) 0)

def utxosSize (bitmap : List UInt8) (utxos : List (Utxo Output)) : Nat :=
  utxos.foldl (fun size unspent => size + (2 * 4 + wire.serializedSize unspent.out))
    (4 + 32 + variableSize bitmap.length + bitmap.length + variableSize utxos.length)

def utxoPieces (unspent : Utxo Output) : List (List UInt8) :=
  [Bytes.littleEndian 4 0, Bytes.littleEndian 4 unspent.height, wire.write unspent.out]

def utxosPieces (top : Nat) (topHash : RestHash) (bitmap : List UInt8)
    (utxos : List (Utxo Output)) : List (List UInt8) :=
  [Bytes.littleEndian 4 (top % 2 ^ 32), topHash.1, Format.compact.write bitmap.length, bitmap,
    Format.compact.write utxos.length] ++ utxos.flatMap (utxoPieces wire)

def utxosModel (top : Nat) (topHash : RestHash) (hits : List Bool) (utxos : List (Utxo Output)) :
    UtxosModel Model where
  chainHeight := top
  chaintipHash := encodeHash topHash
  bitmap := hits.map fun hit => if hit then '1' else '0'
  utxos := utxos.map fun unspent =>
    (unspent.height, (view.value unspent.out).toNat / satoshiPerBitcoin,
      view.scriptPublicKey unspent.out)

def handleGetUtxos (media : Media) (outpoints : List RestOutpoint) : RestReply (UtxosModel Model) :=
  if outpoints = [] ∨ outpoints.length > maximumOutpoints then .badRequest
  else
    match outpoints.foldlM (gatherUtxo query mempool) ([], []) with
    | none => .integrity
    | some (hits, utxos) =>
        match query.top with
        | none => .integrity
        | some top =>
            let bitmap := hitsBitmap hits
            respond media
              (filled (utxosSize wire bitmap utxos)
                (utxosPieces wire top query.topHash bitmap utxos))
              (utxosModel view encodeHash top query.topHash hits utxos)

/-! ### What a client reads -/

/-- The answer to an outpoint, `none` inside where it is not hit. -/
def answerUtxo (item : RestOutpoint) : Option (Option (Utxo Output)) :=
  let link := query.toOutput item.hash item.index
  if query.hit mempool link then (query.utxo link).map some else some none

/-- A dummy version, the height and the output. -/
def utxoFormat : Format (Utxo Output) :=
  ((Format.number 4).pair ((Format.number 4).pair wire.toFormat)).via
    (fun unspent => (0, unspent.height, unspent.out)) fun (_, height, out) => ⟨height, out⟩

def utxosFormat :
    Format (Nat × List UInt8 × List UInt8 × List (Utxo Output)) :=
  (Format.number 4).pair ((Format.bytes 32).pair (Format.chunk.pair (utxoFormat wire).list))

/-- Gives each flag that is set the next of the items, which must come out even. -/
def spread {Item : Type} : List Bool → List Item → Option (List (Option Item))
  | [], [] => some []
  | [], _ :: _ => none
  | false :: hits, items => (spread hits items).map (none :: ·)
  | true :: _, [] => none
  | true :: hits, item :: items => (spread hits items).map (some item :: ·)

/-- A client who sent so many outpoints. -/
def readUtxos (count : Nat) (data : List UInt8) :
    Option (Nat × List UInt8 × List (Option (Utxo Output))) := do
  let (top, topHash, bitmap, utxos) ← (utxosFormat wire).parse data
  let answers ← spread ((Merkle.bytesToBits (bitmap.map UInt8.toBitVec)).take count) utxos
  return (top, topHash, answers)

/-- A client of the json. -/
def readUtxosModel (model : UtxosModel Model) : Option (List (Option (Nat × ℚ × Model))) :=
  spread (model.bitmap.map fun flag => flag == '1') model.utxos

theorem spread_answers {Item : Type} (answers : List (Option Item)) :
    spread (answers.map Option.isSome) answers.reduceOption = some answers := by
  induction answers with
  | nil => rfl
  | cons answer answers ih =>
      cases answer with
      | none =>
          rw [List.map_cons, List.reduceOption_cons_of_none, Option.isSome_none, spread, ih]
          rfl
      | some item =>
          rw [List.map_cons, List.reduceOption_cons_of_some, Option.isSome_some, spread, ih]
          rfl

theorem foldlM_gatherUtxo (outpoints : List RestOutpoint)
    (found : List Bool × List (Utxo Output)) :
    outpoints.foldlM (gatherUtxo query mempool) found =
      (outpoints.mapM (answerUtxo query mempool)).map fun answers =>
        (found.1 ++ answers.map Option.isSome, found.2 ++ answers.reduceOption) := by
  induction outpoints generalizing found with
  | nil => simp
  | cons item outpoints ih =>
      rw [List.foldlM_cons, List.mapM_cons, gatherUtxo, answerUtxo]
      split_ifs with hit
      · cases query.utxo (query.toOutput item.hash item.index) with
        | none => rfl
        | some unspent =>
            simp only [Option.map_some, Option.bind_eq_bind, Option.bind_some, ih]
            cases outpoints.mapM (answerUtxo query mempool) with
            | none => rfl
            | some answers => simp
      · simp only [Option.bind_eq_bind, Option.bind_some, ih]
        cases outpoints.mapM (answerUtxo query mempool) with
        | none => rfl
        | some answers => simp

/-! ### The bitmap -/

section Bitmap

variable {hits : List Bool} {bitmap : List UInt8}

/-- The flag of a place. -/
def flagged (bitmap : List UInt8) (place : Nat) : Bool :=
  Merkle.getRight (bitmap.getD (place / 8) 0).toBitVec (place % 8)

theorem getRight_or (byte : UInt8) {offset place : Nat} (inside : place < 8) :
    Merkle.getRight (byte ||| UInt8.ofNat (1 <<< offset)).toBitVec place =
      (Merkle.getRight byte.toBitVec place || decide (place = offset)) := by
  have shifted : (1 <<< offset).testBit place = decide (place = offset) := by
    rw [Nat.one_shiftLeft, Nat.testBit_two_pow]
    exact decide_eq_decide.mpr eq_comm
  rw [Merkle.getRight, Merkle.getRight, UInt8.toBitVec_or, BitVec.getLsbD_or]
  congr 1
  change (BitVec.ofNat 8 (1 <<< offset)).getLsbD place = _
  rw [BitVec.getLsbD_ofNat, shifted, decide_eq_true inside, Bool.true_and]

theorem length_setBit (hits : List Bool) (bitmap : List UInt8) (index : Nat) :
    (setBit hits bitmap index).length = bitmap.length := by
  unfold setBit
  split_ifs
  · exact List.length_modify ..
  · rfl

theorem flagged_setBit {index place : Nat} (inside : place / 8 < bitmap.length) :
    flagged (setBit hits bitmap index) place =
      (flagged bitmap place || decide (place = index) && hits.getD index false) := by
  unfold setBit
  cases hit : hits.getD index false with
  | false => simp
  | true =>
      rw [if_pos rfl, Bool.and_true, flagged, flagged, List.getD_eq_getElem?_getD,
        List.getD_eq_getElem?_getD, List.getElem?_modify, List.getElem?_eq_getElem inside,
        Option.map_eq_map, Option.map_some, Option.getD_some]
      by_cases same : index / 8 = place / 8
      · have place_iff : place % 8 = index % 8 ↔ place = index := by omega
        rw [if_pos same, getRight_or _ (Nat.mod_lt _ (by decide)), decide_eq_decide.mpr place_iff]
        rfl
      · have apart : place ≠ index := by
          intro equal
          rw [equal] at same
          exact same rfl
        rw [if_neg same, decide_eq_false apart, Bool.or_false]
        rfl

theorem flagged_foldl {place : Nat} (inside : place / 8 < bitmap.length) (count : Nat) :
    ((List.range count).foldl (setBit hits) bitmap).length = bitmap.length ∧
      flagged ((List.range count).foldl (setBit hits) bitmap) place =
        (flagged bitmap place || decide (place < count) && hits.getD place false) := by
  induction count with
  | zero => simp
  | succ count ih =>
      rw [List.range_succ, List.foldl_append, List.foldl_cons, List.foldl_nil, length_setBit]
      refine ⟨ih.1, ?_⟩
      rw [flagged_setBit (ih.1.symm ▸ inside), ih.2]
      by_cases same : place = count
      · cases same
        simp
      · have next : place < count + 1 ↔ place < count := by omega
        rw [decide_eq_false same, Bool.false_and, Bool.or_false, decide_eq_decide.mpr next]

theorem length_hitsBitmap (hits : List Bool) :
    (hitsBitmap hits).length = (hits.length + 7) / 8 := by
  unfold hitsBitmap
  generalize List.range hits.length = places
  have length (bitmap : List UInt8) :
      (places.foldl (setBit hits) bitmap).length = bitmap.length := by
    induction places generalizing bitmap with
    | nil => rfl
    | cons place places ih => rw [List.foldl_cons, ih, length_setBit]
  rw [length, List.length_replicate]

/-- The flags of the bitmap are the hits, and those beyond them are clear. -/
theorem bytesToBits_hitsBitmap (hits : List Bool) :
    Merkle.bytesToBits ((hitsBitmap hits).map UInt8.toBitVec) =
      hits ++ List.replicate ((hits.length + 7) / 8 * 8 - hits.length) false := by
  have flags : Merkle.bytesToBits ((hitsBitmap hits).map UInt8.toBitVec) =
      (List.range ((hits.length + 7) / 8 * 8)).map (flagged (hitsBitmap hits)) := by
    rw [Merkle.bytesToBits, List.length_map, length_hitsBitmap]
    refine List.map_congr_left fun place member => ?_
    have inside : place / 8 < (hitsBitmap hits).length := by
      rw [length_hitsBitmap]
      have := List.mem_range.mp member
      omega
    simp [flagged, List.getD_eq_getElem?_getD, List.getElem?_eq_getElem inside]
  rw [flags]
  apply List.ext_getElem
  · simp only [List.length_map, List.length_range, List.length_append, List.length_replicate]
    omega
  · intro place here there
    rw [List.length_map, List.length_range] at here
    have inside : place / 8 < (List.replicate ((hits.length + 7) / 8) (0 : UInt8)).length := by
      rw [List.length_replicate]
      omega
    have clear : flagged (List.replicate ((hits.length + 7) / 8) 0) place = false := by
      rw [flagged, List.getD_eq_getElem?_getD, List.getElem?_eq_getElem inside]
      simp [Merkle.getRight]
    rw [List.getElem_map, List.getElem_range, hitsBitmap, (flagged_foldl inside _).2, clear,
      Bool.false_or]
    by_cases packed : place < hits.length
    · simp [packed]
    · simp [packed, List.getElem_append]

end Bitmap

/-! ### The reply -/

theorem flatten_utxoPieces (utxos : List (Utxo Output)) :
    (utxos.flatMap (utxoPieces wire)).flatten = utxos.flatMap (utxoFormat wire).write := by
  induction utxos with
  | nil => rfl
  | cons unspent utxos ih =>
      rw [List.flatMap_cons, List.flatten_append, ih, List.flatMap_cons]
      simp [utxoPieces, utxoFormat, Format.via, Format.pair, Format.number]

theorem foldl_add_sizes (utxos : List (Utxo Output)) (size : Nat) :
    utxos.foldl (fun size unspent => size + (2 * 4 + wire.serializedSize unspent.out)) size =
      size + (utxos.flatMap (utxoFormat wire).write).length := by
  induction utxos generalizing size with
  | nil => rfl
  | cons unspent utxos ih =>
      have one : ((utxoFormat wire).write unspent).length =
          2 * 4 + wire.serializedSize unspent.out := by
        simp [utxoFormat, Format.via, Format.pair, Format.number, wire.size_eq]
        omega
      rw [List.foldl_cons, ih, List.flatMap_cons, List.length_append, one, Nat.add_assoc]

/-- The buffer is filled with the form of the reply. -/
theorem filled_utxos (top : Nat) (topHash : RestHash) (bitmap : List UInt8)
    (utxos : List (Utxo Output)) :
    filled (utxosSize wire bitmap utxos) (utxosPieces wire top topHash bitmap utxos) =
      some ((utxosFormat wire).write (top % 2 ^ 32, topHash.1, bitmap, utxos)) := by
  have pieces : (utxosPieces wire top topHash bitmap utxos).flatten =
      (utxosFormat wire).write (top % 2 ^ 32, topHash.1, bitmap, utxos) := by
    rw [utxosPieces, List.flatten_append, flatten_utxoPieces]
    simp [utxosFormat, Format.pair, Format.number, Format.bytes, Format.chunk, Format.sized,
      Format.list, Format.times]
  rw [← pieces]
  apply filled_eq
  rw [utxosSize, foldl_add_sizes, utxosPieces, List.flatten_append, List.length_append,
    flatten_utxoPieces]
  simp [length_compact, topHash.2]
  omega

theorem utxo_fits {link : Link} {unspent : Utxo Output} (found : query.utxo link = some unspent) :
    (utxoFormat wire).Fits unspent := by
  obtain ⟨out, -, made⟩ := Option.bind_eq_some_iff.mp found
  obtain ⟨height, -, made⟩ := Option.bind_eq_some_iff.mp made
  obtain rfl : ⟨height % 2 ^ 32, out⟩ = unspent := Option.some.inj made
  refine ⟨⟨?_, ?_, wire.fits out⟩, rfl⟩
  · exact (by decide : 0 < 256 ^ 4)
  · exact Nat.mod_lt height (by decide)

theorem utxosFormat_fits {outpoints : List RestOutpoint} {answers : List (Option (Utxo Output))}
    (few : outpoints.length ≤ maximumOutpoints)
    (answered : outpoints.mapM (answerUtxo query mempool) = some answers) (top : Nat)
    (topHash : RestHash) :
    (utxosFormat wire).Fits (top % 2 ^ 32, topHash.1, hitsBitmap (answers.map Option.isSome),
      answers.reduceOption) := by
  have found := Traverse.forall₂_of_mapM answered
  have count : answers.length = outpoints.length := found.length_eq.symm
  have some_count : answers.reduceOption.length ≤ answers.length := List.reduceOption_length_le _
  have small : maximumOutpoints = 15 := rfl
  refine ⟨Nat.mod_lt top (by decide), topHash.2, Format.chunk_fits ?_, Format.list_fits ?_ ?_⟩
  · rw [length_hitsBitmap, List.length_map]
    omega
  · dsimp only
    omega
  · intro unspent member
    obtain ⟨item, -, made⟩ := Traverse.exists_of_mem_mapM answered
      (List.reduceOption_mem_iff.mp member)
    unfold answerUtxo at made
    dsimp only at made
    split_ifs at made
    · obtain ⟨other, made, same⟩ := Option.map_eq_some_iff.mp made
      cases same
      exact utxo_fits wire query made
    · cases made

/-- The entry of the json. -/
def viewUtxo (unspent : Utxo Output) : Nat × ℚ × Model :=
  (unspent.height, (view.value unspent.out).toNat / satoshiPerBitcoin,
    view.scriptPublicKey unspent.out)

theorem readUtxos_write {outpoints : List RestOutpoint} {answers : List (Option (Utxo Output))}
    (few : outpoints.length ≤ maximumOutpoints)
    (answered : outpoints.mapM (answerUtxo query mempool) = some answers) (top : Nat)
    (topHash : RestHash) :
    readUtxos wire outpoints.length ((utxosFormat wire).write (top % 2 ^ 32, topHash.1,
      hitsBitmap (answers.map Option.isSome), answers.reduceOption)) =
        some (top % 2 ^ 32, topHash.1, answers) := by
  have count : (answers.map Option.isSome).length = outpoints.length := by
    rw [List.length_map]
    exact (Traverse.forall₂_of_mapM answered).length_eq.symm
  have fits := utxosFormat_fits wire query mempool few answered top topHash
  rw [readUtxos, Format.parse_write _ fits, Option.bind_eq_bind, Option.bind_some]
  dsimp only
  rw [bytesToBits_hitsBitmap, ← count, List.take_left, spread_answers]
  rfl

theorem readUtxosModel_utxosModel (answers : List (Option (Utxo Output))) (top : Nat)
    (topHash : RestHash) :
    readUtxosModel (utxosModel view encodeHash top topHash (answers.map Option.isSome)
      answers.reduceOption) = some (answers.map (Option.map (viewUtxo view))) := by
  have flags : ((answers.map Option.isSome).map fun hit => if hit then '1' else '0').map
      (fun flag => flag == '1') = (answers.map (Option.map (viewUtxo view))).map Option.isSome := by
    simp only [List.map_map]
    refine List.map_congr_left fun answer _ => ?_
    cases answer <;> rfl
  rw [readUtxosModel, utxosModel, flags]
  have entries : answers.reduceOption.map (viewUtxo view) =
      (answers.map (Option.map (viewUtxo view))).reduceOption := List.reduceOption_map.symm
  exact (congrArg (spread _) entries).trans (spread_answers _)

/-- Whatever the media, a client reads for each outpoint the answer of the store to it, with
    the top of the chain, and the bytes are all used.  No bytes are written outside of the
    buffer. -/
theorem getUtxos_read (outpoints : List RestOutpoint) :
    let reply := fun media => handleGetUtxos wire view encodeHash query mempool media outpoints
    (outpoints = [] ∨ maximumOutpoints < outpoints.length → ∀ media, reply media = .badRequest) ∧
    (outpoints ≠ [] → outpoints.length ≤ maximumOutpoints →
      ((outpoints.mapM (answerUtxo query mempool) = none ∨ query.top = none) ∧
        ∀ media, reply media = .integrity) ∨
      ∃ answers top bytes model, outpoints.mapM (answerUtxo query mempool) = some answers ∧
        query.top = some top ∧ reply .data = .data bytes ∧
        reply .text = .text (Text.encodeBase16 bytes ++ ['\n']) ∧ reply .json = .json model ∧
        readUtxos wire outpoints.length bytes = some (top % 2 ^ 32, query.topHash.1, answers) ∧
        model.chainHeight = top ∧ model.chaintipHash = encodeHash query.topHash ∧
        readUtxosModel model = some (answers.map (Option.map (viewUtxo view)))) := by
  intro reply
  constructor
  · intro bad media
    exact if_pos bad
  · intro some_outpoints few
    have good : ¬(outpoints = [] ∨ outpoints.length > maximumOutpoints) := by
      rintro (empty | many)
      · exact some_outpoints empty
      · exact absurd few (Nat.not_le.mpr many)
    cases answered : outpoints.mapM (answerUtxo query mempool) with
    | none =>
        refine .inl ⟨.inl rfl, fun media => ?_⟩
        simp only [reply, handleGetUtxos, if_neg good, foldlM_gatherUtxo, answered, Option.map_none]
    | some answers =>
        cases tip : query.top with
        | none =>
            refine .inl ⟨.inr rfl, fun media => ?_⟩
            simp only [reply, handleGetUtxos, if_neg good, foldlM_gatherUtxo, answered, tip,
              Option.map_some]
        | some top =>
            have replies : ∀ media, reply media = respond media
                (some ((utxosFormat wire).write (top % 2 ^ 32, query.topHash.1,
                  hitsBitmap (answers.map Option.isSome), answers.reduceOption)))
                (utxosModel view encodeHash top query.topHash (answers.map Option.isSome)
                  answers.reduceOption) := by
              intro media
              simp only [reply, handleGetUtxos, if_neg good, foldlM_gatherUtxo, answered, tip,
                Option.map_some, List.nil_append, filled_utxos]
            exact .inr ⟨answers, top, _, _, rfl, rfl, replies .data, replies .text, replies .json,
              readUtxos_write wire query mempool few answered top _, rfl, rfl,
              readUtxosModel_utxosModel view encodeHash answers top _⟩

end GetUtxos

private def zeroHash : RestHash := ⟨List.replicate 32 0, List.length_replicate⟩

/-- Only the outputs of index zero are confirmed. -/
private def firstOutputs : UtxoQuery UInt32 Unit PlainOutput where
  toOutput _ index := index
  isTerminal link := decide (link ≠ 0)
  toOutputTx _ := ()
  isTerminalTx _ := false
  isConfirmedOutput _ := true
  isPooled _ := false
  isConfirmableTx _ := false
  isConfirmedSpent _ := false
  isConfirmableSpent _ := false
  getOutput _ := some (5, plainScript [0x51])
  getTxHeight _ := some 3
  top := some 7
  topHash := zeroHash

private def plainView : OutputView PlainOutput (List UInt8) := ⟨Prod.fst, fun output => output.2.1⟩

theorem getUtxos_read_first :
    let outpoints := [RestOutpoint.mk zeroHash 1, ⟨zeroHash, 0⟩]
    let reply := fun media =>
      handleGetUtxos plainWire plainView (fun _ => "") firstOutputs true media outpoints
    let answers := [none, some ⟨3, (5, plainScript [0x51])⟩]
    ∃ bytes model, reply .data = .data bytes ∧
      reply .text = .text (Text.encodeBase16 bytes ++ ['\n']) ∧ reply .json = .json model ∧
      readUtxos plainWire 2 bytes = some (7, zeroHash.1, answers) ∧
      model.chainHeight = 7 ∧ model.chaintipHash = "" ∧
      readUtxosModel model = some (answers.map (Option.map (viewUtxo plainView))) := by
  intro outpoints reply answers
  have read := getUtxos_read plainWire plainView (fun _ => "") firstOutputs true outpoints
  cases read.2 (by decide) (by decide) with
  | inl fails =>
      cases fails.1 with
      | inl none_answered => cases none_answered
      | inr no_top => cases no_top
  | inr found =>
      obtain ⟨told, top, bytes, model, answered, tip, read⟩ := found
      cases answered
      cases tip
      exact ⟨bytes, model, read⟩

/-! ## blockspentxouts -/

/-- The queries of prevouts.  What a vector holds, its size can tell. -/
structure SpentQuery (Link Tx Prevout Output : Type) where
  toHeader : RestHash → Link
  isConfirmedBlock : Link → Bool
  toSpendingTxs : Link → List Tx
  toPrevouts : Tx → List Prevout
  getOutput : Prevout → Option Output
  few_txs : ∀ link, (toSpendingTxs link).length + 1 < 2 ^ 64
  few_prevouts : ∀ tx, (toPrevouts tx).length < 2 ^ 64

section Spent

variable {Link Tx Prevout Output Model : Type} (wire : OutputWire Output)
  (view : OutputView Output Model) (query : SpentQuery Link Tx Prevout Output)

/-- The prevouts by transaction, `none` where the store fails. -/
def spentOutputs (link : Link) : Option (List (List Output)) :=
  (query.toSpendingTxs link).mapM fun tx => (query.toPrevouts tx).mapM query.getOutput

def spentSize (spent : List (List Output)) : Nat :=
  spent.foldl (fun size outs => outs.foldl (fun size output => size + wire.serializedSize output)
    (size + variableSize outs.length)) (variableSize (spent.length + 1) + variableSize 0)

def spentPieces (spent : List (List Output)) : List (List UInt8) :=
  [Format.compact.write (spent.length + 1), Format.compact.write 0] ++
    spent.flatMap fun outs => Format.compact.write outs.length :: outs.map wire.write

/-- The coinbase has no prevouts. -/
def spentModel (spent : List (List Output)) : List (List (ℚ × Model)) :=
  [] :: spent.map fun outs => outs.map fun output =>
    ((view.value output).toNat / satoshiPerBitcoin, view.scriptPublicKey output)

def handleGetBlockSpentTxOutputs (media : Media) (hash : Option RestHash) :
    RestReply (List (List (ℚ × Model))) :=
  match hash with
  | none => .notFound
  | some hash =>
      let link := query.toHeader hash
      if query.isConfirmedBlock link then
        match spentOutputs query link with
        | none => .integrity
        | some spent =>
            respond media (filled (spentSize wire spent) (spentPieces wire spent))
              (spentModel view spent)
      else .notFound

/-- The prevouts of each transaction of a block, the coinbase first. -/
def spentFormat : Format (List (List Output)) := wire.list.list

theorem flatten_spentPieces (spent : List (List Output)) :
    (spentPieces wire spent).flatten = (spentFormat wire).write ([] :: spent) := by
  have each (outs : List Output) :
      (Format.compact.write outs.length :: outs.map wire.write).flatten = wire.list.write outs := by
    rw [List.flatten_cons, Format.list_write, List.flatMap]
  have all : (spent.flatMap fun outs =>
      Format.compact.write outs.length :: outs.map wire.write).flatten =
        spent.flatMap wire.list.write := by
    induction spent with
    | nil => rfl
    | cons outs spent ih =>
        rw [List.flatMap_cons, List.flatten_append, each, ih, List.flatMap_cons]
  rw [spentPieces, List.flatten_append, all, spentFormat, Format.list_write, List.flatMap_cons,
    Format.list_write]
  simp

theorem foldl_serializedSize (outs : List Output) (size : Nat) :
    outs.foldl (fun size output => size + wire.serializedSize output) size =
      size + (outs.flatMap wire.write).length := by
  induction outs generalizing size with
  | nil => rfl
  | cons output outs ih =>
      rw [List.foldl_cons, ih, List.flatMap_cons, List.length_append, wire.size_eq, Nat.add_assoc]

theorem spentSize_eq (spent : List (List Output)) :
    spentSize wire spent = ((spentFormat wire).write ([] :: spent)).length := by
  have rest (size : Nat) : spent.foldl (fun size outs =>
      outs.foldl (fun size output => size + wire.serializedSize output)
        (size + variableSize outs.length)) size =
          size + (spent.flatMap wire.list.write).length := by
    induction spent generalizing size with
    | nil => rfl
    | cons outs spent ih =>
        rw [List.foldl_cons, ih, foldl_serializedSize, List.flatMap_cons, List.length_append,
          Format.list_write, List.length_append, length_compact]
        omega
  rw [spentSize, rest, spentFormat, Format.list_write, List.flatMap_cons, List.length_append,
    List.length_append, length_compact, Format.list_write, List.length_append, length_compact]
  simp
  omega

theorem spentFormat_fits {link : Link} {spent : List (List Output)}
    (found : spentOutputs query link = some spent) : (spentFormat wire).Fits ([] :: spent) := by
  have count : spent.length = (query.toSpendingTxs link).length :=
    (Traverse.forall₂_of_mapM found).length_eq.symm
  apply Format.list_fits
  · rw [List.length_cons, count]
    exact query.few_txs link
  · intro outs member
    refine Format.list_fits ?_ fun output _ => wire.fits output
    cases List.mem_cons.mp member with
    | inl coinbase =>
        rw [coinbase]
        exact Nat.two_pow_pos 64
    | inr later =>
        obtain ⟨tx, -, made⟩ := Traverse.exists_of_mem_mapM found later
        rw [← (Traverse.forall₂_of_mapM made).length_eq]
        exact query.few_prevouts tx

/-- A client reads from the bytes, the text or the json of a confirmed block the prevouts of
    each of its transactions, after the coinbase that has none. -/
theorem blockSpentTxOutputs_read (hash : RestHash) :
    let reply := fun media => handleGetBlockSpentTxOutputs wire view query media (some hash)
    let link := query.toHeader hash
    (query.isConfirmedBlock link = false → ∀ media, reply media = .notFound) ∧
    (query.isConfirmedBlock link = true →
      (spentOutputs query link = none ∧ ∀ media, reply media = .integrity) ∨
      ∃ spent bytes, spentOutputs query link = some spent ∧ reply .data = .data bytes ∧
        reply .text = .text (Text.encodeBase16 bytes ++ ['\n']) ∧
        (spentFormat wire).parse bytes = some ([] :: spent) ∧
        reply .json = .json (([] :: spent).map fun outs => outs.map fun output =>
          ((view.value output).toNat / satoshiPerBitcoin, view.scriptPublicKey output))) := by
  intro reply link
  constructor
  · intro unconfirmed media
    simp only [reply, handleGetBlockSpentTxOutputs]
    rw [if_neg (by rw [unconfirmed]; exact Bool.false_ne_true)]
  · intro confirmed
    cases found : spentOutputs query link with
    | none =>
        refine .inl ⟨rfl, fun media => ?_⟩
        simp only [reply, handleGetBlockSpentTxOutputs]
        rw [if_pos confirmed, found]
    | some spent =>
        have replies : ∀ media, reply media = respond media
            (some ((spentFormat wire).write ([] :: spent))) (spentModel view spent) := by
          intro media
          simp only [reply, handleGetBlockSpentTxOutputs]
          rw [if_pos confirmed, found]
          dsimp only
          rw [filled_eq ((spentSize_eq wire spent).trans
            (congrArg List.length (flatten_spentPieces wire spent).symm)), flatten_spentPieces]
        exact .inr ⟨spent, _, rfl, replies .data, replies .text,
          Format.parse_write _ (spentFormat_fits wire query found), replies .json⟩

end Spent

private theorem few_values (tx : Bool) :
    (if tx then [2, 3] else [1] : List UInt64).length < 2 ^ 64 := by
  cases tx <;> simp

private def twoSpenders : SpentQuery Unit Bool UInt64 PlainOutput where
  toHeader _ := ()
  isConfirmedBlock _ := true
  toSpendingTxs _ := [false, true]
  toPrevouts tx := if tx then [2, 3] else [1]
  getOutput value := some (value, plainScript [])
  few_txs _ := Nat.lt_two_pow_self.trans_le (Nat.pow_le_pow_right Nat.two_pos
    (Nat.le_add_left 3 61))
  few_prevouts := few_values

theorem blockSpentTxOutputs_read_two :
    let reply := fun media =>
      handleGetBlockSpentTxOutputs plainWire plainView twoSpenders media (some zeroHash)
    let spent := [[], [(1, plainScript [])], [(2, plainScript []), (3, plainScript [])]]
    ∃ bytes, reply .data = .data bytes ∧
      reply .text = .text (Text.encodeBase16 bytes ++ ['\n']) ∧
      (spentFormat plainWire).parse bytes = some spent ∧
      reply .json = .json (spent.map fun outs => outs.map fun output =>
        ((plainView.value output).toNat / satoshiPerBitcoin,
          plainView.scriptPublicKey output)) := by
  intro reply spent
  have read := blockSpentTxOutputs_read plainWire plainView twoSpenders zeroHash
  cases read.2 rfl with
  | inl fails => cases fails.1
  | inr found =>
      obtain ⟨told, bytes, made, read⟩ := found
      cases made
      exact ⟨bytes, read⟩

/-! ## blockpart -/

/-- The bytes of a block from an offset, `none` for a block that is not found.  There is no
    json. -/
def handleGetBlockPart (media : Media) (block : Option (List UInt8)) (offset size : UInt32) :
    RestReply Empty :=
  match block with
  | none => .notFound
  | some full =>
      if min (offset.toNat + size.toNat) (2 ^ 64 - 1) > full.length then .badRequest
      else
        let part := (full.drop offset.toNat).take size.toNat
        match media with
        | .data => .data part
        | .text => .text (Text.encodeBase16 part ++ ['\n'])
        | .json | .other => .badRequest

/-- Requests of parts of some sizes, each from where the one before ends. -/
def partRequests : Nat → List UInt32 → List (UInt32 × UInt32)
  | _, [] => []
  | offset, size :: sizes => (UInt32.ofNat offset, size) :: partRequests (offset + size.toNat) sizes

def RestReply.bytes? {Json : Type} : RestReply Json → Option (List UInt8)
  | .data bytes => some bytes
  | _ => none

/-- Parts that follow each other to the end of a block are the block. -/
theorem blockPart_tiles {full : List UInt8} (small : full.length < 2 ^ 32) (sizes : List UInt32)
    {offset : Nat} (covers : offset + (sizes.map UInt32.toNat).sum = full.length) :
    ∃ parts, (partRequests offset sizes).mapM (fun request =>
      (handleGetBlockPart .data (some full) request.1 request.2).bytes?) = some parts ∧
        parts.flatten = full.drop offset := by
  induction sizes generalizing offset with
  | nil =>
      refine ⟨[], rfl, ?_⟩
      rw [List.map_nil, List.sum_nil, Nat.add_zero] at covers
      rw [covers, List.drop_length, List.flatten_nil]
  | cons size sizes ih =>
      rw [List.map_cons, List.sum_cons] at covers
      obtain ⟨parts, made, rest⟩ := @ih (offset + size.toNat) (by omega)
      have place : (UInt32.ofNat offset).toNat = offset := by
        rw [UInt32.toNat_ofNat']
        omega
      have inside : ¬min ((UInt32.ofNat offset).toNat + size.toNat) (2 ^ 64 - 1) > full.length := by
        rw [place]
        omega
      refine ⟨(full.drop offset).take size.toNat :: parts, ?_, ?_⟩
      · rw [partRequests, List.mapM_cons, made, handleGetBlockPart]
        dsimp only
        rw [if_neg inside, place]
        rfl
      · rw [List.flatten_cons, rest, ← List.drop_drop, List.take_append_drop]

end LibbitcoinServer.Bitcoind

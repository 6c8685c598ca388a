import LibbitcoinServer.Electrum.Version
import LibbitcoinServer.Lib.Sink
import LibbitcoinServer.Lib.Text
import LibbitcoinServer.Lib.Traverse
import LibbitcoinServer.Store.Tip
import LibbitcoinServer.Utilities.FeeHistogram

/-! # Headers of a range

`blockchain.block.get_chunk` and `blockchain.block.headers` write the headers of a range of
heights into one text.  Both read the top first and then the links of the range, and the
chain may grow or be cut back between the two reads.  The first takes the size of the text
from the top, the second from the links.
-/

namespace LibbitcoinServer.Electrum

open Bitcoind (ceiling ceilingedAdd)
open Store (HeaderStore Confirmed Indexes Change)
open Text (encodeBase16)
open Utilities (ceilingedMultiply)

/-- A write past the end of its text is undefined in the source. -/
inductive HeadersFault where
  | badRequest
  | daemonError
  | overrun
  deriving DecidableEq

def serializedSize : Nat := 80

def chunk : Nat := 2016

/-- What the variables of the code hold after unsigned arithmetic. -/
def wrap (value : Nat) : Nat := value % UInt64.size

def filler : Char := '\x00'

/-- The range of a chunk: its start, the count of its headers and the size of their text. -/
structure Region where
  height : Nat
  count : Nat
  size : Nat
  deriving DecidableEq

def regionOf (position top : Nat) : Region :=
  let height := ceilingedMultiply position chunk
  let past := min (ceilingedAdd height chunk) (wrap (top + 1))
  let count := past - height
  { height, count, size := wrap (wrap (count * 2) * serializedSize) }

inductive HeadersField where
  | header (text : List Char)
  | headers (max count : Nat) (texts : List (List Char))
  | hex (max count : Nat) (text : List Char)

inductive HeadersValue (Digest : Type) where
  | header (text : List Char)
  | object (field : HeadersField) (proof : Option (List Digest × Digest))

section Store

variable {Link Digest : Type} (store : HeaderStore Link Digest)

/-- The loop that writes the wire headers of the links. -/
def writeHeaders (links : List Link) (sink : Sink Char) : Except HeadersFault (Sink Char) :=
  links.foldlM (fun sink link =>
    match store.getWireHeader link with
    | none => .error .daemonError
    | some wire =>
        match sink.write (encodeBase16 wire) with
        | none => .error .overrun
        | some sink => .ok sink) sink

/-- A text of the size, with the headers of the links written from its start. -/
def streamHeaders (links : List Link) (size : Nat) : Except HeadersFault (List Char) :=
  (writeHeaders store links (Sink.written [] size filler)).map Sink.buffer

def handleBlockchainBlockGetChunk (version : Version) (index : ℚ) :
    Reads (Indexes store) (Except HeadersFault (List Char)) :=
  if .v1_4 ≤ version then return .error .badRequest
  else
    match Text.toInteger UInt64.size index with
    | none => return .error .badRequest
    | some position => do
        let top ← Reads.get Indexes.getTopConfirmed
        let region := regionOf position top
        let links ← Reads.get fun indexes =>
          indexes.getConfirmedHeaders region.height region.count
        return streamHeaders store links region.size

/-- The headers of the links, as an array from version 1.6, else as one text. -/
def headersField (version : Version) (maximumHeaders : Nat) (links : List Link)
    (single : Bool) : Except HeadersFault HeadersField :=
  if .v1_6 ≤ version then
    match links.mapM store.getWireHeader with
    | none => .error .daemonError
    | some wires =>
        let headers := wires.map encodeBase16
        if single then .ok (.header (headers.headD []))
        else .ok (.headers maximumHeaders links.length headers)
  else
    match streamHeaders store links (wrap (wrap (2 * serializedSize) * links.length)) with
    | .error fault => .error fault
    | .ok headers =>
        if single then .ok (.header headers)
        else .ok (.hex maximumHeaders links.length headers)

variable {store}

-- `get_merkle_root_and_proof`, with the translation of its code.
variable (getMerkleRootAndProof :
  Indexes store → Nat → Nat → Except HeadersFault (Digest × List Digest))

/-- The field with its proof, which is read where one is to be given. -/
def provedHeaders (field : HeadersField) (proving : Prop) [Decidable proving]
    (proofHeight waypoint : Nat) :
    Reads (Indexes store) (Except HeadersFault (HeadersValue Digest)) :=
  if proving then do
    let proof ← Reads.get fun indexes => getMerkleRootAndProof indexes proofHeight waypoint
    return proof.map fun (root, branch) => .object field (some (branch, root))
  else return .ok (.object field none)

/-- What is made of the links, once they are read. -/
def linkedHeaders (version : Version) (maximumHeaders starting waypoint : Nat) (single : Bool)
    (prove : Prop) [Decidable prove] (links : List Link) :
    Reads (Indexes store) (Except HeadersFault (HeadersValue Digest)) :=
  if single ∧ links.length ≠ 1 then return .error .daemonError
  else
    let proving := prove ∧ links.length ≠ 0
    let proofHeight := if proving then starting + (links.length - 1) else 0
    if proving ∧ waypoint < proofHeight then return .error .badRequest
    else if single ∧ ¬prove then
      match links.head?.bind store.getWireHeader with
      | none => return .error .daemonError
      | some header => return .ok (.header (encodeBase16 header))
    else
      match headersField store version maximumHeaders links single with
      | .error fault => return .error fault
      | .ok field => provedHeaders getMerkleRootAndProof field proving proofHeight waypoint

def blockchainBlockHeaders (version : Version) (maximumHeaders starting quantity waypoint : Nat)
    (single : Bool) : Reads (Indexes store) (Except HeadersFault (HeadersValue Digest)) := do
  let prove := quantity ≠ 0 ∧ waypoint ≠ 0
  let top ← Reads.get Indexes.getTopConfirmed
  if UInt64.size ≤ starting + quantity then return .error .badRequest
  else if top < starting ∨ prove ∧ top < waypoint then return .error .badRequest
  else
    let count := min quantity maximumHeaders
    let links ← Reads.get fun indexes => indexes.getConfirmedHeaders starting count
    linkedHeaders getMerkleRootAndProof version maximumHeaders starting waypoint single prove
      links

end Store

section Store

variable {Link Digest : Type} {store : HeaderStore Link Digest}

/-! ## Texts of headers -/

/-- A text is that of the headers at consecutive heights, all of it written. -/
structure ReturnsHeaders (store : HeaderStore Link Digest) (start most : Nat)
    (links : List Link) (text : List Char) : Prop where
  placed : ∀ index link, links[index]? = some link → store.height link = start + index
  encoded : ∃ wires, List.Forall₂ (fun link wire => store.getWireHeader link = some wire)
    links wires ∧ text = wires.flatMap encodeBase16
  length : text.length = 160 * links.length
  unfilled : filler ∉ text
  few : links.length ≤ most

variable {links : List Link} {wires : List (List UInt8)}

/-- The texts of the headers have 160 digits for each link. -/
theorem length_wires
    (found : List.Forall₂ (fun link wire => store.getWireHeader link = some wire) links wires) :
    (wires.flatMap encodeBase16).length = 160 * links.length := by
  induction found with
  | nil => rfl
  | cons first later ih =>
      rw [List.flatMap_cons, List.length_append, ih, Text.length_encodeBase16,
        store.wire_length first, List.length_cons]
      omega

theorem filler_notMem (wires : List (List UInt8)) : filler ∉ wires.flatMap encodeBase16 := by
  intro member
  obtain ⟨wire, _, here⟩ := List.mem_flatMap.mp member
  have digit := Text.mem_base16Digits here
  revert digit
  decide

theorem returnsHeaders {start most : Nat}
    (placed : ∀ index link, links[index]? = some link → store.height link = start + index)
    (found : List.Forall₂ (fun link wire => store.getWireHeader link = some wire) links wires)
    (few : links.length ≤ most) :
    ReturnsHeaders store start most links (wires.flatMap encodeBase16) where
  placed := placed
  encoded := ⟨wires, found, rfl⟩
  length := length_wires found
  unfilled := filler_notMem wires
  few := few

theorem writeHeaders_cons_none {link : Link} (missing : store.getWireHeader link = none)
    (sink : Sink Char) : writeHeaders store (link :: links) sink = .error .daemonError := by
  rw [writeHeaders, List.foldlM_cons, missing]
  rfl

theorem writeHeaders_cons_some {link : Link} {wire : List UInt8} {sink after : Sink Char}
    (found : store.getWireHeader link = some wire)
    (wrote : sink.write (encodeBase16 wire) = some after) :
    writeHeaders store (link :: links) sink = writeHeaders store links after := by
  rw [writeHeaders, List.foldlM_cons, found]
  dsimp only
  rw [wrote]
  rfl

/-- Where the headers of the links fit, the loop fails on a header that is not found, else it
    writes them all, and what is left of the text is filler. -/
theorem writeHeaders_written (values : List Char) {room : Nat}
    (fits : 160 * links.length ≤ room) :
    (∃ link ∈ links, store.getWireHeader link = none) ∧
        writeHeaders store links (Sink.written values room filler) = .error .daemonError ∨
      ∃ wires, List.Forall₂ (fun link wire => store.getWireHeader link = some wire) links wires ∧
        writeHeaders store links (Sink.written values room filler) =
          .ok (Sink.written (values ++ wires.flatMap encodeBase16) (room - 160 * links.length)
            filler) := by
  induction links generalizing values room with
  | nil => exact .inr ⟨[], .nil, by simp [writeHeaders, pure, Except.pure]⟩
  | cons link links ih =>
      cases found : store.getWireHeader link with
      | none => exact .inl ⟨⟨link, List.mem_cons_self, found⟩, writeHeaders_cons_none found _⟩
      | some wire =>
          have size : (encodeBase16 wire).length = 160 := by
            rw [Text.length_encodeBase16, store.wire_length found]
          rw [List.length_cons] at fits
          have wrote := @Sink.write_written _ values (encodeBase16 wire) room filler (by omega)
          have later : 160 * links.length ≤ room - (encodeBase16 wire).length := by omega
          rw [writeHeaders_cons_some found wrote]
          cases ih (values ++ encodeBase16 wire) later with
          | inl failed =>
              obtain ⟨⟨missing, member, none⟩, failed⟩ := failed
              exact .inl ⟨⟨missing, List.mem_cons_of_mem _ member, none⟩, failed⟩
          | inr wrote =>
              obtain ⟨wires, all, wrote⟩ := wrote
              have room_left : room - 160 * (links.length + 1) =
                  room - (encodeBase16 wire).length - 160 * links.length := by omega
              refine .inr ⟨wire :: wires, .cons found all, ?_⟩
              rw [List.flatMap_cons, ← List.append_assoc, List.length_cons, room_left]
              exact wrote

/-- A text that is sized for its links at least is theirs, then filler. -/
theorem streamHeaders_spec {size : Nat} (fits : 160 * links.length ≤ size) :
    (∃ link ∈ links, store.getWireHeader link = none) ∧
        streamHeaders store links size = .error .daemonError ∨
      ∃ wires, List.Forall₂ (fun link wire => store.getWireHeader link = some wire) links wires ∧
        streamHeaders store links size = .ok (wires.flatMap encodeBase16 ++
          List.replicate (size - 160 * links.length) filler) := by
  rw [streamHeaders]
  cases @writeHeaders_written _ _ store links [] size fits with
  | inl failed =>
      rw [failed.2]
      exact .inl ⟨failed.1, rfl⟩
  | inr wrote =>
      obtain ⟨wires, found, wrote⟩ := wrote
      rw [wrote]
      exact .inr ⟨wires, found, rfl⟩

/-! ## Chunks -/

/-- The unsigned variables hold what the same arithmetic gives without bounds. -/
structure Region.Exact (region : Region) (position top : Nat) : Prop where
  count : region.count = min (2016 * position + 2016) (top + 1) - 2016 * position
  height : region.count ≠ 0 → region.height = 2016 * position
  size : region.size = 160 * region.count
  few : region.count ≤ 2016

theorem regionOf_exact (position : Nat) {top : Nat} (small : top + 1 < UInt64.size) :
    (regionOf position top).Exact position top := by
  have same : wrap (top + 1) = top + 1 := Nat.mod_eq_of_lt small
  have count : (regionOf position top).count =
      min (2016 * position + 2016) (top + 1) - 2016 * position := by
    simp only [regionOf, ceilingedMultiply, ceilingedAdd, same, chunk, ceiling]
    simp only [UInt64.size] at small
    omega
  have few : (regionOf position top).count ≤ 2016 := by omega
  constructor
  · exact count
  · intro some_count
    rw [count] at some_count
    simp only [regionOf, ceilingedMultiply, chunk, ceiling]
    simp only [UInt64.size] at small
    omega
  · have size : (regionOf position top).size =
        wrap (wrap ((regionOf position top).count * 2) * serializedSize) := rfl
    rw [size]
    simp only [wrap, serializedSize, UInt64.size]
    omega
  · exact few

theorem exact_regionOf (position : Nat) (indexes : Indexes store) :
    (regionOf position indexes.getTopConfirmed).Exact position indexes.getTopConfirmed :=
  regionOf_exact position indexes.confirmed.bounded

/-- The links of a chunk: the range from the first read, its links from the second. -/
def chunkLinks (position : Nat) (first second : Indexes store) : List Link :=
  let region := regionOf position first.getTopConfirmed
  second.getConfirmedHeaders region.height region.count

/-- The chain of the second read still has the last height of the chunk in the first. -/
def Reaches (position first second : Nat) : Prop :=
  2016 * position ≤ first → min (2016 * position + 2015) first ≤ second

theorem run_getChunk {version : Version} {index : ℚ} {position : Nat}
    (current : ¬.v1_4 ≤ version) (converted : Text.toInteger UInt64.size index = some position)
    (seen : Nat → Indexes store) :
    (handleBlockchainBlockGetChunk store version index).run seen =
      streamHeaders store (chunkLinks position (seen 0) (seen 1))
        (regionOf position (seen 0).getTopConfirmed).size := by
  rw [handleBlockchainBlockGetChunk, if_neg current, converted]
  dsimp only
  rw [Reads.run_get_bind, Reads.run_get_bind, Reads.run_pure]
  rfl

theorem run_getChunk_late {version : Version} (late : .v1_4 ≤ version) (index : ℚ)
    (seen : Nat → Indexes store) :
    (handleBlockchainBlockGetChunk store version index).run seen = .error .badRequest := by
  rw [handleBlockchainBlockGetChunk, if_pos late, Reads.run_pure]

theorem length_chunkLinks (position : Nat) (first second : Indexes store) :
    (chunkLinks position first second).length =
      min (regionOf position first.getTopConfirmed).count
        (second.getTopConfirmed + 1 - (regionOf position first.getTopConfirmed).height) :=
  second.confirmed.length_headers _ _

theorem length_chunkLinks_eq_iff (position : Nat) (first second : Indexes store) :
    (chunkLinks position first second).length = (regionOf position first.getTopConfirmed).count ↔
      Reaches position first.getTopConfirmed second.getTopConfirmed := by
  have count := (exact_regionOf position first).count
  have height := (exact_regionOf position first).height
  rw [length_chunkLinks, Reaches]
  by_cases none : (regionOf position first.getTopConfirmed).count = 0
  · omega
  · rw [height none]
    omega

/-- The text of a chunk is that of its links, then filler for those that are missing. -/
theorem chunk_spec (position : Nat) (first second : Indexes store) :
    let links := chunkLinks position first second
    let region := regionOf position first.getTopConfirmed
    (∃ link ∈ links, store.getWireHeader link = none) ∧
        streamHeaders store links region.size = .error .daemonError ∨
      ∃ wires, List.Forall₂ (fun link wire => store.getWireHeader link = some wire) links wires ∧
        streamHeaders store links region.size = .ok (wires.flatMap encodeBase16 ++
          List.replicate (160 * (region.count - links.length)) filler) := by
  intro links region
  have size : region.size = 160 * region.count := (exact_regionOf position first).size
  have fewer : links.length ≤ region.count := by
    have length : links.length = min region.count _ := length_chunkLinks position first second
    rw [length]
    exact Nat.min_le_left _ _
  have spec := @streamHeaders_spec _ _ store links region.size (by omega)
  rw [size, ← Nat.mul_sub] at spec
  rw [size]
  exact spec

/-- In every interleaving the arithmetic of a chunk is exact and no write is past its text,
    and the text of a response is that of the returned headers exactly when the chain is not
    cut back below the end of the chunk between the two reads. -/
theorem getChunk_returns_iff (start : Indexes store) (schedule : Nat → List (Change Link))
    (version : Version) (index : ℚ) {position : Nat}
    (converted : Text.toInteger UInt64.size index = some position) :
    let seen := Reads.interleaved Indexes.step start schedule
    let response := (handleBlockchainBlockGetChunk store version index).run seen
    (regionOf position (seen 0).getTopConfirmed).Exact position (seen 0).getTopConfirmed ∧
      response ≠ .error .overrun ∧
      ∀ text, response = .ok text →
        (ReturnsHeaders store (2016 * position) 2016 (chunkLinks position (seen 0) (seen 1)) text ↔
          Reaches position (seen 0).getTopConfirmed (seen 1).getTopConfirmed) := by
  intro seen response
  have exact_region := exact_regionOf position (seen 0)
  refine ⟨exact_region, ?_⟩
  by_cases late : .v1_4 ≤ version
  · have refused : response = .error .badRequest := run_getChunk_late late index seen
    rw [refused]
    simp
  have ran : response = _ := run_getChunk late converted seen
  have length := length_chunkLinks position (seen 0) (seen 1)
  cases chunk_spec position (seen 0) (seen 1) with
  | inl failed =>
      rw [ran, failed.2]
      simp
  | inr wrote =>
      obtain ⟨wires, found, wrote⟩ := wrote
      rw [ran, wrote]
      constructor
      · simp
      · intro text responded
        obtain rfl := Except.ok.inj responded
        rw [← length_chunkLinks_eq_iff]
        constructor
        · intro returned
          have total := returned.length
          rw [List.length_append, length_wires found, List.length_replicate] at total
          omega
        · intro reached
          rw [reached, Nat.sub_self, Nat.mul_zero, List.replicate_zero, List.append_nil]
          apply returnsHeaders _ found
          · rw [reached]
            exact exact_region.few
          · intro index link here
            have some_count : (regionOf position (seen 0).getTopConfirmed).count ≠ 0 := by
              have bound := (List.getElem?_eq_some_iff.mp here).1
              omega
            rw [← exact_region.height some_count]
            exact (seen 1).confirmed.height_headers here

/-! ## Ranges of headers -/

/-- The texts of a result, one after the other. -/
def HeadersField.text : HeadersField → List Char
  | .header text | .hex _ _ text => text
  | .headers _ _ texts => texts.flatten

def HeadersValue.text : HeadersValue Digest → List Char
  | .header text => text
  | .object field _ => field.text

/-- The text of a field is that of its links, whichever way they are returned. -/
theorem headersField_text {version : Version} {maximumHeaders : Nat} {single : Bool}
    {field : HeadersField} (small : 160 * links.length < UInt64.size)
    (alone : single = true → links.length = 1)
    (made : headersField store version maximumHeaders links single = .ok field) :
    ∃ wires, List.Forall₂ (fun link wire => store.getWireHeader link = some wire) links wires ∧
      field.text = wires.flatMap encodeBase16 := by
  unfold headersField at made
  by_cases late : .v1_6 ≤ version
  · rw [if_pos late] at made
    cases found : links.mapM store.getWireHeader with
    | none => simp [found] at made
    | some wires =>
        have every := Traverse.forall₂_of_mapM found
        rw [found] at made
        refine ⟨wires, every, ?_⟩
        cases single with
        | false =>
            obtain rfl := Except.ok.inj made
            exact List.flatMap_def.symm
        | true =>
            obtain rfl := Except.ok.inj made
            have one := every.length_eq.symm.trans (alone rfl)
            obtain ⟨wire, rfl⟩ := List.length_eq_one_iff.mp one
            simp [HeadersField.text]
  · have size : wrap (wrap (2 * serializedSize) * links.length) = 160 * links.length := by
      simp only [wrap, serializedSize, UInt64.size] at small ⊢
      omega
    rw [if_neg late, size] at made
    cases @streamHeaders_spec _ _ store links _ (Nat.le_refl (160 * links.length)) with
    | inl failed => simp [failed.2] at made
    | inr wrote =>
        obtain ⟨wires, every, wrote⟩ := wrote
        rw [wrote, Nat.sub_self, List.replicate_zero, List.append_nil] at made
        refine ⟨wires, every, ?_⟩
        cases single <;>
        · obtain rfl := Except.ok.inj made
          rfl

variable (getMerkleRootAndProof :
  Indexes store → Nat → Nat → Except HeadersFault (Digest × List Digest))

theorem provedHeaders_text (field : HeadersField) (proving : Prop) [Decidable proving]
    (proofHeight waypoint : Nat) :
    (provedHeaders getMerkleRootAndProof field proving proofHeight waypoint).Always
      fun response => ∀ value, response = .ok value → value.text = field.text := by
  apply Reads.always_ite
  · intro _
    rw [Reads.always_get_bind]
    intro indexes
    cases getMerkleRootAndProof indexes proofHeight waypoint <;>
      simp [Except.map, HeadersValue.text]
  · simp [HeadersValue.text]

theorem linkedHeaders_text (version : Version) (maximumHeaders starting waypoint : Nat)
    (single : Bool) (prove : Prop) [Decidable prove] {links : List Link}
    (small : 160 * links.length < UInt64.size) :
    (linkedHeaders getMerkleRootAndProof version maximumHeaders starting waypoint single
      prove links).Always fun response => ∀ value, response = .ok value → ∃ wires,
        List.Forall₂ (fun link wire => store.getWireHeader link = some wire) links wires ∧
          value.text = wires.flatMap encodeBase16 := by
  apply Reads.always_ite
  · simp
  intro lone
  have alone : single = true → links.length = 1 := by
    intro asked
    by_contra several
    exact lone ⟨asked, several⟩
  apply Reads.always_ite
  · simp
  intro _
  apply Reads.always_ite
  · intro only
    obtain ⟨link, rfl⟩ := List.length_eq_one_iff.mp (alone only.1)
    rw [List.head?_cons, Option.bind_some]
    cases found : store.getWireHeader link with
    | none => simp
    | some header =>
        rintro value ⟨⟩
        exact ⟨[header], .cons found .nil, by simp [HeadersValue.text]⟩
  · intro _
    cases made : headersField store version maximumHeaders links single with
    | error fault => simp
    | ok field =>
        obtain ⟨wires, every, same⟩ := headersField_text small alone made
        have proved := provedHeaders_text getMerkleRootAndProof field (prove ∧ links.length ≠ 0)
          (if prove ∧ links.length ≠ 0 then starting + (links.length - 1) else 0) waypoint
        exact proved.imp fun response kept value responded =>
          ⟨wires, every, (kept value responded).trans same⟩

/-- In every interleaving the texts of a range are those of the returned headers. -/
theorem blockHeaders_returns (version : Version) {maximumHeaders : Nat}
    (limited : 160 * maximumHeaders < UInt64.size) (starting quantity waypoint : Nat)
    (single : Bool) :
    (blockchainBlockHeaders getMerkleRootAndProof version maximumHeaders starting quantity
      waypoint single).Always fun response => ∀ value, response = .ok value →
        ∃ links, ReturnsHeaders store starting (min quantity maximumHeaders) links value.text := by
  unfold blockchainBlockHeaders
  rw [Reads.always_get_bind]
  intro first
  apply Reads.always_ite
  · simp
  intro _
  apply Reads.always_ite
  · simp
  intro _
  rw [Reads.always_get_bind]
  intro second
  have few : (second.getConfirmedHeaders starting (min quantity maximumHeaders)).length ≤
      min quantity maximumHeaders := List.length_take_le _ _
  have small :
      160 * (second.getConfirmedHeaders starting (min quantity maximumHeaders)).length <
        UInt64.size := by omega
  have texts := linkedHeaders_text getMerkleRootAndProof version maximumHeaders starting waypoint
    single (quantity ≠ 0 ∧ waypoint ≠ 0) small
  exact texts.imp fun response made value responded => by
    obtain ⟨wires, every, same⟩ := made value responded
    rw [same]
    exact ⟨_, returnsHeaders (fun _ _ here => second.confirmed.height_headers here) every few⟩

end Store

/-- Links that are their own keys and heights, with headers of zero bytes. -/
private def zeroHeaders : HeaderStore Nat Nat :=
  { HeaderStore.unfound with
    getWireHeader := fun _ => some (List.replicate serializedSize 0)
    wire_length := by
      intro link wire same
      cases same
      rfl }

/-- Genesis and one block. -/
private def oneAbove : Indexes zeroHeaders where
  archived := [0, 1]
  candidateTop := 1
  confirmed := {
    genesis := 0
    above := [1]
    placed := by
      intro index link here
      change link = index
      rcases index with _ | _ | index <;> simp_all
    bounded := by simp [UInt64.size] }

theorem getChunk_returns_iff_first :
    let seen := Reads.interleaved Indexes.step oneAbove fun _ => []
    let response := (handleBlockchainBlockGetChunk zeroHeaders .v1_0 0).run seen
    (regionOf 0 1).Exact 0 1 ∧ response ≠ .error .overrun ∧
      ∀ text, response = .ok text →
        (ReturnsHeaders zeroHeaders (2016 * 0) 2016 (chunkLinks 0 (seen 0) (seen 1)) text ↔
          Reaches 0 1 1) :=
  getChunk_returns_iff oneAbove (fun _ => []) .v1_0 0 (Text.toInteger_natCast (by decide))

/-- The block above genesis is disconnected between the reads, and half of the text is
    filler. -/
theorem getChunk_filled :
    ¬∀ (start : Indexes zeroHeaders) (schedule : Nat → List (Change Nat)) (version : Version)
      (index : ℚ) (position : Nat) (text : List Char),
      let seen := Reads.interleaved Indexes.step start schedule
      Text.toInteger UInt64.size index = some position →
        (handleBlockchainBlockGetChunk zeroHeaders version index).run seen = .ok text →
          ReturnsHeaders zeroHeaders (2016 * position) 2016
            (chunkLinks position (seen 0) (seen 1)) text := by
  intro all
  let schedule : Nat → List (Change Nat) := fun read => if read = 1 then [.disconnect] else []
  let seen := Reads.interleaved Indexes.step oneAbove schedule
  have converted : Text.toInteger UInt64.size 0 = some 0 := Text.toInteger_natCast (by decide)
  have two : (regionOf 0 (seen 0).getTopConfirmed).count = 2 := by decide
  have one : (chunkLinks 0 (seen 0) (seen 1)).length = 1 := by decide
  have ran := @run_getChunk _ _ zeroHeaders .v1_0 0 0 (by decide) converted seen
  cases chunk_spec 0 (seen 0) (seen 1) with
  | inl failed =>
      obtain ⟨⟨link, _, missing⟩, _⟩ := failed
      cases missing
  | inr wrote =>
      obtain ⟨wires, _, wrote⟩ := wrote
      have returned := all oneAbove schedule .v1_0 0 0 _ converted (ran.trans wrote)
      apply returned.unfilled
      rw [one, two, List.mem_append, List.mem_replicate]
      exact .inr ⟨by decide, rfl⟩

end LibbitcoinServer.Electrum

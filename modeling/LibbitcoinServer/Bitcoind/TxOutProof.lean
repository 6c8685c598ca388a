import LibbitcoinServer.Merkle.Blocks
import LibbitcoinServer.Services.RawTransaction

/-! # Proofs of transactions

A proof is the text of a merkle block: a header with a partial tree of its txids.  A client
sends a proof back to have it verified, so that any text may come as a proof.  What a reply
lists stands in a confirmed block whatever the text, and the proofs that are made are those
that verify.
-/

namespace LibbitcoinServer.Bitcoind

open Merkle Services

/-- `messages::peer::merkle_block`.  The count is a `uint32_t`. -/
structure MerkleBlock (Header Digest : Type) where
  header : Header
  transactions : Nat
  hashes : List Digest
  flags : List Byte

/-- What the code takes from the system and network libraries: the hashes, the texts of
    hashes, and the bytes of a merkle block. -/
structure Proving (Header Digest : Type) where
  nodeHash : Digest → Digest → Digest
  hash : Header → Digest
  merkleRoot : Header → Digest
  decodeHash : String → Option Digest
  encodeHash : Digest → String
  size : MerkleBlock Header Digest → Nat
  serialize : MerkleBlock Header Digest → Option (List UInt8)
  deserialize : List UInt8 → Option (MerkleBlock Header Digest)

/-- The queries of blocks by link. -/
structure BlockQuery (Link Header Digest : Type) where
  findConfirmedBlock : Digest → Option Link
  toHeader : Digest → Option Link
  isAssociated : Link → Bool
  isConfirmedBlock : Link → Bool
  getTxKeys : Link → List Digest
  getTxCount : Link → Nat
  getHeader : Link → Option Header

inductive ProofFault where
  | invalidParameter
  | invalidAddressOrKey
  | internalError
  | miscError
  | notAcceptable
  | notFound
  | integrity
  deriving DecidableEq

variable {Link Header Digest : Type} [DecidableEq Digest]

section Handlers

variable (proving : Proving Header Digest) (query : BlockQuery Link Header Digest)

/-- The hash of an item, new to the set of targets. -/
def insertTarget (targets : List Digest) : Item → Option (List Digest)
  | .other => none
  | .string text => do
      let hash ← proving.decodeHash text
      if hash ∈ targets then none else some (targets ++ [hash])

def readTargets (txids : List Item) : Option (List Digest) :=
  txids.foldlM (insertTarget proving) []

/-- The block of the first target in the order of the set, or the one that is named. -/
def proofBlock (cbegin : List Digest → Option Digest) (targets : List Digest)
    (blockhash : String) : Except ProofFault (Option Link) :=
  if blockhash = "" then .ok ((cbegin targets).bind query.findConfirmedBlock)
  else
    match proving.decodeHash blockhash with
    | none => .error .invalidParameter
    | some hash => .ok (query.toHeader hash)

/-- The merkle block of the wanted keys of a block. -/
def merkleBlock (header : Header) (keys : List Digest) (wanted : Digest → Bool) :
    Option (MerkleBlock Header Digest) :=
  (buildPartialMerkle proving.nodeHash keys (keys.map wanted)).map fun (flags, hashes) =>
    ⟨header, keys.length % 2 ^ 32, hashes, flags⟩

def blockProof (targets : List Digest) (link : Link) : Except ProofFault String :=
  let keys := query.getTxKeys link
  if keys = [] then .error .internalError
  else if (keys.map fun key => decide (key ∈ targets)).count true ≠ targets.length then
    .error .invalidAddressOrKey
  else
    match query.getHeader link with
    | none => .error .internalError
    | some header =>
        match (merkleBlock proving header keys fun key => decide (key ∈ targets)).bind
          proving.serialize with
        | none => .error .internalError
        | some data => .ok (String.ofList (Text.encodeBase16 data))

/-- The set of targets has an order of its own, which `cbegin` stands for. -/
def handleGetTxOutProof (cbegin : List Digest → Option Digest) (txids : List Item)
    (blockhash : String) : Except ProofFault String :=
  if txids = [] then .error .invalidParameter
  else
    match readTargets proving txids with
    | none => .error .invalidParameter
    | some targets =>
        match proofBlock proving query cbegin targets blockhash with
        | .error fault => .error fault
        | .ok none => .error .invalidAddressOrKey
        | .ok (some link) =>
            if query.isAssociated link then blockProof proving query targets link
            else .error .invalidAddressOrKey

def handleVerifyTxOutProof [Inhabited Digest] (proof : String) : Except ProofFault (List String) :=
  match decodeBase16 proof with
  | none => .error .invalidParameter
  | some data =>
      match proving.deserialize data with
      | none => .error .miscError
      | some merkle =>
          match extractPartialMerkle proving.nodeHash merkle.transactions merkle.flags
            merkle.hashes with
          | none => .ok []
          | some out =>
              if out.root ≠ proving.merkleRoot merkle.header then .ok []
              else
                match query.toHeader (proving.hash merkle.header) with
                | none => .error .invalidAddressOrKey
                | some link =>
                    if query.isConfirmedBlock link = false ∨
                        query.getTxCount link ≠ merkle.transactions then
                      .error .invalidAddressOrKey
                    else .ok (out.matched.map proving.encodeHash)

/-- The merkle block of one transaction of a block.  One that is not written leaves the zeros
    of its size. -/
def textProof (hash : Digest) (link : Link) : Except ProofFault String :=
  match query.getHeader link with
  | none => .error .integrity
  | some header =>
      let keys := query.getTxKeys link
      if keys = [] then .error .integrity
      else if (keys.map fun key => decide (key = hash)).count true ≠ 1 then .error .notFound
      else
        match merkleBlock proving header keys fun key => decide (key = hash) with
        | none => .error .integrity
        | some merkle =>
            let out := (proving.serialize merkle).getD (List.replicate (proving.size merkle) 0)
            .ok (String.ofList (Text.encodeBase16 out))

def handleGetTxMerkleblockProof (text : Bool) (hash : Digest) : Except ProofFault String :=
  if !text then .error .notAcceptable
  else
    match query.findConfirmedBlock hash with
    | none => .error .notFound
    | some link =>
        if query.isAssociated link then textProof proving query hash link else .error .notFound

end Handlers

/-! ## The blocks of a store -/

/-- A block.  Its header commits to its transactions, which are distinct. -/
structure StoredBlock (proving : Proving Header Digest) where
  header : Header
  txids : List Digest
  nonempty : txids ≠ []
  nodup : txids.Nodup
  few : txids.length < 2 ^ 32
  committed : LevelTree.root proving.nodeHash txids = some (proving.merkleRoot header)

/-- What the queries answer of the blocks.  The keys of a block are missing on a fault. -/
structure BlockQuery.Holds (query : BlockQuery Link Header Digest)
    {proving : Proving Header Digest} (block : Link → StoredBlock proving) : Prop where
  keyed : ∀ hash link, query.toHeader hash = some link → proving.hash (block link).header = hash
  listed : ∀ link, query.getTxKeys link ≠ [] → query.getTxKeys link = (block link).txids
  counted : ∀ link, query.isConfirmedBlock link → query.getTxCount link = (block link).txids.length
  headed : ∀ link header, query.getHeader link = some header → header = (block link).header

/-- The hashes do not collide, and a merkle block is read from what was written of it. -/
structure Proving.Lawful (proving : Proving Header Digest) : Prop where
  nodes : Function.Injective2 proving.nodeHash
  headers : Function.Injective proving.hash
  trips : ∀ merkle data, proving.serialize merkle = some data →
    proving.deserialize data = some merkle

variable {proving : Proving Header Digest} {query : BlockQuery Link Header Digest}
  {block : Link → StoredBlock proving}

/-- The merkle block of the wanted txids of a block verifies where the block is confirmed. -/
theorem verify_merkleBlock [Inhabited Digest] (lawful : proving.Lawful)
    (holds : query.Holds block) {link : Link} {wanted : Digest → Bool}
    {merkle : MerkleBlock Header Digest} {data : List UInt8}
    (made : merkleBlock proving (block link).header (block link).txids wanted = some merkle)
    (written : proving.serialize merkle = some data)
    (found : query.toHeader (proving.hash (block link).header) = some link)
    (confirmed : query.isConfirmedBlock link) :
    handleVerifyTxOutProof proving query (String.ofList (Text.encodeBase16 data)) =
      .ok (((block link).txids.filter wanted).map proving.encodeHash) := by
  obtain ⟨flags, branch, out, built, accepted, rooted, matched⟩ :=
    extract_marked lawful.nodes (block link).nonempty (block link).nodup wanted
  rw [merkleBlock, built, Option.map_some, Nat.mod_eq_of_lt (block link).few] at made
  obtain rfl := Option.some.inj made
  have root : out.root = proving.merkleRoot (block link).header :=
    Option.some.inj (rooted.symm.trans (block link).committed)
  have decoded : decodeBase16 (String.ofList (Text.encodeBase16 data)) = some data := by
    rw [decodeBase16, String.toList_ofList, Text.decodeBase16_encodeBase16]
  have counted := holds.counted link confirmed
  simp [handleVerifyTxOutProof, decoded, lawful.trips _ _ written, accepted, root, found,
    confirmed, counted, matched]

/-! A store of one block of three txids, under an injective pairing of naturals. -/

@[irreducible] private def merkleCode (merkle : MerkleBlock (Nat × Nat) Nat) : Nat :=
  Encodable.encode (merkle.header, merkle.transactions, merkle.hashes,
    merkle.flags.map BitVec.toNat)

private def merkleOf (code : Nat) : Option (MerkleBlock (Nat × Nat) Nat) :=
  (Encodable.decode code).map fun (fields : (Nat × Nat) × Nat × List Nat × List Nat) =>
    ⟨fields.1, fields.2.1, fields.2.2.1, fields.2.2.2.map (BitVec.ofNat 8)⟩

private theorem merkleOf_merkleCode (merkle : MerkleBlock (Nat × Nat) Nat) :
    merkleOf (merkleCode merkle) = some merkle := by
  have flags : (merkle.flags.map BitVec.toNat).map (BitVec.ofNat 8) = merkle.flags := by
    simp [Function.comp_def]
  rw [merkleOf, merkleCode, Encodable.encodek, Option.map_some, flags]

private def pairing : Proving (Nat × Nat) Nat where
  nodeHash := Nat.pair
  hash header := Nat.pair header.1 header.2
  merkleRoot := Prod.fst
  decodeHash text := if text = "20" then some 20 else none
  encodeHash := toString
  size _ := 0
  serialize merkle := some (List.replicate (merkleCode merkle) 0)
  deserialize data := merkleOf data.length

private theorem pairing_lawful : pairing.Lawful where
  nodes := fun _ _ _ _ same => Nat.pair_eq_pair.mp same
  headers := fun _ _ same => Prod.ext_iff.mpr (Nat.pair_eq_pair.mp same)
  trips := by
    intro merkle data written
    have data_eq : List.replicate (merkleCode merkle) 0 = data := Option.some.inj written
    have read : pairing.deserialize data = merkleOf data.length := rfl
    rw [read, ← data_eq, List.length_replicate, merkleOf_merkleCode]

private def threeTxids : StoredBlock pairing where
  header := (Nat.pair (Nat.pair 10 20) (Nat.pair 30 30), 0)
  txids := [10, 20, 30]
  nonempty := List.cons_ne_nil _ _
  nodup := by simp
  few := by simp
  committed := by simp [LevelTree.root, LevelTree.pairUp, pairing]

private def threeQuery : BlockQuery Unit (Nat × Nat) Nat where
  findConfirmedBlock txid := if txid ∈ [10, 20, 30] then some () else none
  toHeader hash := if hash = pairing.hash threeTxids.header then some () else none
  isAssociated _ := true
  isConfirmedBlock _ := true
  getTxKeys _ := [10, 20, 30]
  getTxCount _ := 3
  getHeader _ := some threeTxids.header

private theorem threeQuery_holds : threeQuery.Holds fun _ => threeTxids where
  keyed := by
    intro hash link found
    by_contra other
    simp [threeQuery, Ne.symm other] at found
  listed _ _ := rfl
  counted _ _ := rfl
  headed _ _ same := (Option.some.inj same).symm

private theorem threeQuery_made : ∃ proof,
    handleGetTxMerkleblockProof pairing threeQuery true 20 = .ok proof ∧
    handleGetTxOutProof pairing threeQuery List.head? [.string "20"] "" = .ok proof ∧
    handleVerifyTxOutProof pairing threeQuery proof = .ok ["20"] := by
  obtain ⟨flags, branch, out, built, -, -, -⟩ := extract_marked pairing_lawful.nodes
    threeTxids.nonempty threeTxids.nodup fun key => decide (key = 20)
  let merkle : MerkleBlock (Nat × Nat) Nat := ⟨threeTxids.header, 3, branch, flags⟩
  have merkled : merkleBlock pairing threeTxids.header [10, 20, 30]
      (fun key => decide (key = 20)) = some merkle := by
    rw [merkleBlock]
    exact congrArg _ built
  have targeted : (fun key : Nat => decide (key ∈ [20])) = fun key => decide (key = 20) := by
    funext key
    simp
  let proof := String.ofList (Text.encodeBase16 (List.replicate (merkleCode merkle) 0))
  have keys : threeQuery.getTxKeys () = [10, 20, 30] := rfl
  have headed : threeQuery.getHeader () = some threeTxids.header := rfl
  have made : textProof pairing threeQuery 20 () = .ok proof := by
    unfold textProof
    rw [headed]
    dsimp only
    rw [keys, if_neg (by simp), if_neg (by simp), merkled]
    rfl
  have built_proof : blockProof pairing threeQuery [20] () = .ok proof := by
    unfold blockProof
    rw [headed]
    dsimp only
    rw [keys, if_neg (by simp), if_neg (by simp), targeted, merkled]
    rfl
  have verified := verify_merkleBlock pairing_lawful threeQuery_holds merkled rfl rfl rfl
  exact ⟨proof, made, built_proof, verified⟩

/-! ## Soundness -/

/-- Any text may come as a proof.  A reply that lists txids lists a part of a confirmed block,
    in the order of the block. -/
theorem verifyTxOutProof_sound [Inhabited Digest] (lawful : proving.Lawful)
    (holds : query.Holds block) (proof : String) (texts : List String)
    (replied : handleVerifyTxOutProof proving query proof = .ok texts) :
    texts = [] ∨ ∃ (link : Link) (txids : List Digest), query.isConfirmedBlock link ∧
      txids.Sublist (block link).txids ∧ texts = txids.map proving.encodeHash := by
  unfold handleVerifyTxOutProof at replied
  cases decoded : decodeBase16 proof with
  | none => simp [decoded] at replied
  | some data =>
  cases read : proving.deserialize data with
  | none => simp [decoded, read] at replied
  | some merkle =>
  cases accepted : extractPartialMerkle proving.nodeHash merkle.transactions merkle.flags
      merkle.hashes with
  | none =>
      simp only [decoded, read, accepted] at replied
      exact .inl (Except.ok.inj replied).symm
  | some out =>
  by_cases rooted : out.root = proving.merkleRoot merkle.header
  · cases found : query.toHeader (proving.hash merkle.header) with
    | none => simp [decoded, read, accepted, rooted, found] at replied
    | some link =>
        by_cases passed : query.isConfirmedBlock link = false ∨
            query.getTxCount link ≠ merkle.transactions
        · simp [decoded, read, accepted, rooted, found, passed] at replied
        · simp only [decoded, read, accepted, rooted, found, passed, ne_eq, not_true_eq_false,
            if_false] at replied
          rw [not_or, Bool.not_eq_false, not_not] at passed
          have header : (block link).header = merkle.header :=
            lawful.headers (holds.keyed _ _ found)
          have count : merkle.transactions = (block link).txids.length :=
            passed.2.symm.trans (holds.counted link passed.1)
          rw [count] at accepted
          have root : LevelTree.root proving.nodeHash (block link).txids = some out.root := by
            rw [(block link).committed, header, rooted]
          have part := matched_sublist lawful.nodes (block link).nonempty accepted root
          exact .inr ⟨link, out.matched, passed.1, part, (Except.ok.inj replied).symm⟩
  · simp only [decoded, read, accepted, rooted, ne_eq, not_false_eq_true, if_true] at replied
    exact .inl (Except.ok.inj replied).symm

theorem verifyTxOutProof_sound_three :
    ∃ proof, handleVerifyTxOutProof pairing threeQuery proof = .ok ["20"] ∧
      (["20"] = [] ∨ ∃ (link : Unit) (txids : List Nat), threeQuery.isConfirmedBlock link ∧
        txids.Sublist threeTxids.txids ∧ ["20"] = txids.map pairing.encodeHash) := by
  obtain ⟨proof, -, -, verified⟩ := threeQuery_made
  exact ⟨proof, verified, verifyTxOutProof_sound pairing_lawful threeQuery_holds proof ["20"]
    verified⟩

/-! ## Proofs that are made -/

/-- As many keys as there are targets are the targets, in the order of the block. -/
theorem filter_perm_targets {keys targets : List Digest} (nodup : keys.Nodup)
    (count : (keys.map fun key => decide (key ∈ targets)).count true = targets.length) :
    (keys.filter (· ∈ targets)).Perm targets := by
  have length : (keys.filter (· ∈ targets)).length = targets.length := by
    rw [← count, List.count_eq_countP, List.countP_map, List.countP_eq_length_filter]
    simp [Function.comp_def]
  have fewer : (keys.filter (· ∈ targets)).Subperm targets := by
    apply List.subperm_of_subset (nodup.filter _)
    intro key member
    simpa using (List.mem_filter.mp member).2
  exact fewer.perm_of_length_le length.ge

/-- What a proof was made of. -/
structure Proves (block : Link → StoredBlock proving) (targets : List Digest) (link : Link)
    (proof : String) : Prop where
  perm : ((block link).txids.filter (· ∈ targets)).Perm targets
  made : ∃ merkle data,
    merkleBlock proving (block link).header (block link).txids
      (fun key => decide (key ∈ targets)) = some merkle ∧
    proving.serialize merkle = some data ∧ proof = String.ofList (Text.encodeBase16 data)

theorem proves_of_blockProof (holds : query.Holds block) {targets : List Digest} {link : Link}
    {proof : String} (made : blockProof proving query targets link = .ok proof) :
    Proves block targets link proof := by
  unfold blockProof at made
  dsimp only at made
  by_cases empty : query.getTxKeys link = []
  · simp [empty] at made
  rw [if_neg empty, holds.listed link empty] at made
  by_cases count : ((block link).txids.map fun key => decide (key ∈ targets)).count true =
      targets.length
  · rw [if_neg (not_not.mpr count)] at made
    cases headed : query.getHeader link with
    | none => simp [headed] at made
    | some header =>
        obtain rfl := holds.headed link header headed
        rw [headed] at made
        cases built : merkleBlock proving (block link).header (block link).txids
            (fun key => decide (key ∈ targets)) with
        | none => simp [built] at made
        | some merkle =>
            cases written : proving.serialize merkle with
            | none => simp [built, written] at made
            | some data =>
                simp only [built, written, Option.bind_some, Except.ok.injEq] at made
                exact ⟨filter_perm_targets (block link).nodup count, merkle, data, built,
                  written, made.symm⟩
  · simp [count] at made

/-- The reads of a proof that is made. -/
theorem getTxOutProof_made {cbegin : List Digest → Option Digest} {txids : List Item}
    {blockhash proof : String}
    (made : handleGetTxOutProof proving query cbegin txids blockhash = .ok proof) :
    ∃ (targets : List Digest) (link : Link), txids ≠ [] ∧
      readTargets proving txids = some targets ∧
      proofBlock proving query cbegin targets blockhash = .ok (some link) ∧
      query.isAssociated link ∧ blockProof proving query targets link = .ok proof := by
  unfold handleGetTxOutProof at made
  by_cases empty : txids = []
  · simp [empty] at made
  rw [if_neg empty] at made
  cases read : readTargets proving txids with
  | none => simp [read] at made
  | some targets =>
      rw [read] at made
      dsimp only at made
      cases chosen : proofBlock proving query cbegin targets blockhash with
      | error fault => simp [chosen] at made
      | ok found =>
          cases found with
          | none => simp [chosen] at made
          | some link =>
              rw [chosen] at made
              dsimp only at made
              by_cases associated : query.isAssociated link
              · rw [if_pos associated] at made
                exact ⟨targets, link, empty, rfl, chosen, associated, made⟩
              · simp [associated] at made

/-- An order of a set starts with one of its elements. -/
structure Begins (cbegin : List Digest → Option Digest) : Prop where
  inside : ∀ targets target, cbegin targets = some target → target ∈ targets
  begun : ∀ targets, targets ≠ [] → (cbegin targets).isSome

/-- The confirmed block of a transaction is that of the others in it. -/
def BlockQuery.Confirms (query : BlockQuery Link Header Digest)
    (block : Link → StoredBlock proving) : Prop :=
  ∀ txid link, query.findConfirmedBlock txid = some link →
    ∀ other ∈ (block link).txids, query.findConfirmedBlock other = some link

omit [DecidableEq Digest] in
/-- The block of the targets is found from any of them. -/
theorem proofBlock_order (confirms : query.Confirms block)
    {cbegin other : List Digest → Option Digest} (begins : Begins cbegin) (also : Begins other)
    {targets : List Digest} {link : Link} {blockhash : String}
    (inside : ∀ target ∈ targets, target ∈ (block link).txids)
    (chosen : proofBlock proving query cbegin targets blockhash = .ok (some link)) :
    proofBlock proving query other targets blockhash = .ok (some link) := by
  unfold proofBlock at chosen ⊢
  by_cases unnamed : blockhash = ""
  · rw [if_pos unnamed] at chosen ⊢
    obtain ⟨target, first, found⟩ := Option.bind_eq_some_iff.mp (Except.ok.inj chosen)
    have some_target : targets ≠ [] := List.ne_nil_of_mem (begins.inside targets target first)
    obtain ⟨second, begun⟩ := Option.isSome_iff_exists.mp (also.begun targets some_target)
    have member := inside second (also.inside targets second begun)
    rw [begun, Option.bind_some, confirms target link found second member]
  · rw [if_neg unnamed] at chosen ⊢
    exact chosen

/-- A proof that is made is that of the requested transactions, whichever of them is first in
    the order of the set, and it verifies to them, in the order of the block, wherever that
    block is confirmed. -/
theorem getTxOutProof_verified [Inhabited Digest] (lawful : proving.Lawful)
    (holds : query.Holds block) (confirms : query.Confirms block)
    {cbegin : List Digest → Option Digest} (begins : Begins cbegin) (txids : List Item)
    (blockhash proof : String)
    (made : handleGetTxOutProof proving query cbegin txids blockhash = .ok proof) :
    (∀ other, Begins other →
      handleGetTxOutProof proving query other txids blockhash = .ok proof) ∧
    ∃ (targets : List Digest) (link : Link), readTargets proving txids = some targets ∧
      ((block link).txids.filter (· ∈ targets)).Perm targets ∧
      ∀ later : BlockQuery Link Header Digest, later.Holds block →
        later.toHeader (proving.hash (block link).header) = some link →
        later.isConfirmedBlock link →
        handleVerifyTxOutProof proving later proof =
          .ok (((block link).txids.filter (· ∈ targets)).map proving.encodeHash) := by
  obtain ⟨targets, link, some_txids, read, chosen, associated, built⟩ := getTxOutProof_made made
  have proves := proves_of_blockProof holds built
  obtain ⟨merkle, data, merkled, written, rfl⟩ := proves.made
  have inside : ∀ target ∈ targets, target ∈ (block link).txids := by
    intro target member
    exact List.mem_of_mem_filter (proves.perm.mem_iff.mpr member)
  refine ⟨?_, targets, link, read, proves.perm, ?_⟩
  · intro other also
    have same := proofBlock_order confirms begins also inside chosen
    rw [handleGetTxOutProof, if_neg some_txids, read]
    simp [same, associated, built]
  · intro later held found confirmed
    exact verify_merkleBlock lawful held merkled written found confirmed

theorem getTxOutProof_verified_three :
    ∃ proof, handleGetTxOutProof pairing threeQuery List.head? [.string "20"] "" = .ok proof ∧
      (∀ other, Begins other →
        handleGetTxOutProof pairing threeQuery other [.string "20"] "" = .ok proof) ∧
      ∃ (targets : List Nat) (_ : Unit), readTargets pairing [.string "20"] = some targets ∧
        (threeTxids.txids.filter (· ∈ targets)).Perm targets ∧
        ∀ later : BlockQuery Unit (Nat × Nat) Nat, later.Holds (fun _ => threeTxids) →
          later.toHeader (pairing.hash threeTxids.header) = some () →
          later.isConfirmedBlock () →
          handleVerifyTxOutProof pairing later proof =
            .ok ((threeTxids.txids.filter (· ∈ targets)).map pairing.encodeHash) := by
  obtain ⟨proof, -, made, -⟩ := threeQuery_made
  have confirms : threeQuery.Confirms fun _ => threeTxids := by
    intro txid link _ other member
    have inside : other ∈ [10, 20, 30] := member
    simp only [threeQuery, if_pos inside]
  have begins : Begins (List.head? (α := Nat)) := by
    constructor
    · intro targets target first
      exact List.mem_of_head? first
    · intro targets some_targets
      rw [List.isSome_head?]
      exact some_targets
  exact ⟨proof, made, getTxOutProof_verified pairing_lawful threeQuery_holds confirms begins
    [.string "20"] "" proof made⟩

theorem filter_eq_singleton {keys : List Digest} {hash : Digest} (nodup : keys.Nodup)
    (count : (keys.map fun key => decide (key = hash)).count true = 1) :
    (keys.filter fun key => decide (key = hash)) = [hash] := by
  have one : (keys.map fun key => decide (key ∈ [hash])).count true = [hash].length := by
    simpa using count
  have perm := filter_perm_targets nodup one
  simpa using List.perm_singleton.mp perm

theorem textProof_made (holds : query.Holds block) {hash : Digest} {link : Link} {proof : String}
    (made : textProof proving query hash link = .ok proof) :
    ∃ merkle, merkleBlock proving (block link).header (block link).txids
        (fun key => decide (key = hash)) = some merkle ∧
      ((block link).txids.map fun key => decide (key = hash)).count true = 1 ∧
      proof = String.ofList (Text.encodeBase16 ((proving.serialize merkle).getD
        (List.replicate (proving.size merkle) 0))) := by
  unfold textProof at made
  cases headed : query.getHeader link with
  | none => simp [headed] at made
  | some header =>
      obtain rfl := holds.headed link header headed
      rw [headed] at made
      dsimp only at made
      by_cases empty : query.getTxKeys link = []
      · simp [empty] at made
      rw [if_neg empty, holds.listed link empty] at made
      by_cases count : ((block link).txids.map fun key => decide (key = hash)).count true = 1
      · rw [if_neg (not_not.mpr count)] at made
        cases merkled : merkleBlock proving (block link).header (block link).txids
            (fun key => decide (key = hash)) with
        | none => simp [merkled] at made
        | some merkle =>
            rw [merkled] at made
            exact ⟨merkle, rfl, count, (Except.ok.inj made).symm⟩
      · simp [count] at made

/-- The text that proves one transaction verifies to that transaction alone. -/
theorem merkleblockProof_verified [Inhabited Digest] (lawful : proving.Lawful)
    (written : ∀ merkle, (proving.serialize merkle).isSome) (holds : query.Holds block)
    (hash : Digest) (text : Bool) (proof : String)
    (made : handleGetTxMerkleblockProof proving query text hash = .ok proof) :
    ∃ link, query.findConfirmedBlock hash = some link ∧ hash ∈ (block link).txids ∧
      ∀ later : BlockQuery Link Header Digest, later.Holds block →
        later.toHeader (proving.hash (block link).header) = some link →
        later.isConfirmedBlock link →
        handleVerifyTxOutProof proving later proof = .ok [proving.encodeHash hash] := by
  unfold handleGetTxMerkleblockProof at made
  cases text with
  | false => simp at made
  | true =>
  cases found : query.findConfirmedBlock hash with
  | none => simp [found] at made
  | some link =>
  by_cases associated : query.isAssociated link = false
  · simp [found, associated] at made
  simp only [found, associated, Bool.not_true, Bool.false_eq_true, if_false, if_true] at made
  obtain ⟨merkle, merkled, count, rfl⟩ := textProof_made holds made
  obtain ⟨data, serialized⟩ := Option.isSome_iff_exists.mp (written merkle)
  have only := filter_eq_singleton (block link).nodup count
  refine ⟨link, rfl, ?_, ?_⟩
  · have member : hash ∈ (block link).txids.filter fun key => decide (key = hash) := by
      rw [only]
      exact List.mem_singleton_self hash
    exact List.mem_of_mem_filter member
  · intro later held listed confirmed
    have verified := verify_merkleBlock lawful held merkled serialized listed confirmed
    rw [only] at verified
    rw [serialized]
    exact verified

theorem merkleblockProof_verified_three :
    ∃ proof, handleGetTxMerkleblockProof pairing threeQuery true 20 = .ok proof ∧
      ∃ link, threeQuery.findConfirmedBlock 20 = some link ∧ 20 ∈ threeTxids.txids ∧
        ∀ later : BlockQuery Unit (Nat × Nat) Nat, later.Holds (fun _ => threeTxids) →
          later.toHeader (pairing.hash threeTxids.header) = some link →
          later.isConfirmedBlock link →
          handleVerifyTxOutProof pairing later proof = .ok [pairing.encodeHash 20] := by
  obtain ⟨proof, made, -, -⟩ := threeQuery_made
  exact ⟨proof, made, merkleblockProof_verified pairing_lawful (fun _ => rfl) threeQuery_holds
    20 true proof made⟩

end LibbitcoinServer.Bitcoind

import LibbitcoinServer.Store.Archive

/-! # The confirmed chain

A chain is its blocks from genesis, and a transaction stands in it at one height and
position.  `Depicts` says what the queries of an archive answer of a chain: history
and spenders of the confirmed transactions, with the cursor moved to the top.
-/

namespace LibbitcoinServer

/-- An input, with the hash of the script that it spends. -/
structure Input (Digest : Type) where
  prevout : Point Digest
  script : Digest
  deriving DecidableEq

/-- A transaction, with the hashes of its output scripts. -/
structure Transaction (Digest : Type) where
  hash : Digest
  inputs : List (Input Digest)
  outputs : List Digest
  deriving DecidableEq

structure Header (Digest : Type) where
  hash : Digest
  timestamp : Nat
  deriving DecidableEq

/-- The history queries, with those of blocks by link and of transactions by hash. -/
structure BlockArchive (Digest : Type) extends Archive Digest where
  getHeight : Nat → Option Nat
  getHeader : Nat → Option (Header Digest)
  getTransaction : Digest → Option (Transaction Digest)

variable {Digest : Type} [DecidableEq Digest]

namespace Transaction

def Touches (tx : Transaction Digest) (key : Digest) : Prop :=
  key ∈ tx.outputs ∨ key ∈ tx.inputs.map Input.script

def Spends (tx : Transaction Digest) (prevout : Point Digest) : Prop :=
  prevout ∈ tx.inputs.map Input.prevout

instance (tx : Transaction Digest) (key : Digest) : Decidable (tx.Touches key) :=
  inferInstanceAs (Decidable (_ ∨ _))

instance (tx : Transaction Digest) (prevout : Point Digest) : Decidable (tx.Spends prevout) :=
  inferInstanceAs (Decidable (prevout ∈ tx.inputs.map Input.prevout))

end Transaction

abbrev Block (Digest : Type) := List (Transaction Digest)

/-- No transaction stands twice in the blocks. -/
def Distinct (blocks : List (Block Digest)) : Prop :=
  (blocks.map fun block => block.map Transaction.hash).flatten.Nodup

instance (blocks : List (Block Digest)) : Decidable (Distinct blocks) :=
  inferInstanceAs (Decidable (List.Nodup _))

/-- Genesis and the blocks above it. -/
structure Chain (Digest : Type) [DecidableEq Digest] where
  genesis : Block Digest
  above : List (Block Digest)
  distinct : Distinct (genesis :: above)

namespace Chain

def blocks (chain : Chain Digest) : List (Block Digest) := chain.genesis :: chain.above

def top (chain : Chain Digest) : Nat := chain.above.length

/-- A block organized on top of the chain. -/
def extend (chain : Chain Digest) (block : Block Digest)
    (fresh : Distinct (chain.blocks ++ [block])) : Chain Digest :=
  ⟨chain.genesis, chain.above ++ [block], fresh⟩

/-- The chain without its top block. -/
def shorten (chain : Chain Digest) : Chain Digest where
  genesis := chain.genesis
  above := chain.above.dropLast
  distinct := by
    have fewer : (chain.genesis :: chain.above.dropLast).Sublist (chain.genesis :: chain.above) :=
      (List.dropLast_sublist _).cons_cons _
    exact chain.distinct.sublist (List.Sublist.flatten (fewer.map _))

/-- The transaction stands at the height and position. -/
def At (chain : Chain Digest) (height position : Nat) (tx : Transaction Digest) : Prop :=
  ∃ block, chain.blocks[height]? = some block ∧ block[position]? = some tx

variable {chain : Chain Digest} {block : Block Digest} {height other position place : Nat}
  {tx second : Transaction Digest}

theorem At.le_top (stands : chain.At height position tx) : height ≤ chain.top := by
  obtain ⟨block, here, -⟩ := stands
  have inside := (List.getElem?_eq_some_iff.mp here).1
  simp only [blocks, List.length_cons] at inside
  exact Nat.le_of_lt_succ inside

theorem At.same (stands : chain.At height position tx) (also : chain.At height position second) :
    tx = second := by
  obtain ⟨block, here, inside⟩ := stands
  obtain ⟨also_block, there, also_inside⟩ := also
  obtain rfl : block = also_block := Option.some.inj (here.symm.trans there)
  exact Option.some.inj (inside.symm.trans also_inside)

omit [DecidableEq Digest] in
/-- A symmetric relation of any two blocks holds of blocks at different heights. -/
theorem pairwise_getElem? {blocks : List (Block Digest)}
    {relation : Block Digest → Block Digest → Prop} (pairwise : blocks.Pairwise relation)
    (symmetric : ∀ {first second}, relation first second → relation second first)
    {first later : Block Digest} (here : blocks[height]? = some first)
    (there : blocks[other]? = some later) (different : height ≠ other) :
    relation first later := by
  obtain ⟨bound, rfl⟩ := List.getElem?_eq_some_iff.mp here
  obtain ⟨also_bound, rfl⟩ := List.getElem?_eq_some_iff.mp there
  rcases Nat.lt_or_gt_of_ne different with less | more
  · exact List.pairwise_iff_getElem.mp pairwise _ _ bound also_bound less
  · exact symmetric (List.pairwise_iff_getElem.mp pairwise _ _ also_bound bound more)

/-- A hash is found at one place of the chain. -/
theorem At.unique (stands : chain.At height position tx) (also : chain.At other place second)
    (same : tx.hash = second.hash) : height = other ∧ position = place := by
  obtain ⟨block, here, inside⟩ := stands
  obtain ⟨also_block, there, also_inside⟩ := also
  obtain ⟨each, apart⟩ := List.nodup_flatten.mp chain.distinct
  have member : tx.hash ∈ block.map Transaction.hash :=
    List.mem_map_of_mem (List.mem_of_getElem? inside)
  have also_member : tx.hash ∈ also_block.map Transaction.hash :=
    same ▸ List.mem_map_of_mem (List.mem_of_getElem? also_inside)
  have level : height = other := by
    by_contra different
    rw [List.pairwise_map] at apart
    have disjoint : List.Disjoint (block.map Transaction.hash) (also_block.map Transaction.hash) :=
      pairwise_getElem? apart (fun shared => shared.symm) here there different
    exact disjoint member also_member
  subst level
  obtain rfl : block = also_block := Option.some.inj (here.symm.trans there)
  have once : (block.map Transaction.hash).Nodup :=
    each _ (List.mem_map_of_mem (List.mem_of_getElem? here))
  have bound : position < (block.map Transaction.hash).length := by
    simpa using (List.getElem?_eq_some_iff.mp inside).1
  refine ⟨rfl, (List.getElem?_inj bound once).mp ?_⟩
  simp [inside, also_inside, same]

section Extend

variable {fresh : Distinct (chain.blocks ++ [block])}

@[simp] theorem top_extend : (chain.extend block fresh).top = chain.top + 1 := by
  simp [top, extend]

theorem at_extend (inside : block[position]? = some tx) :
    (chain.extend block fresh).At (chain.top + 1) position tx :=
  ⟨block, by simp [Chain.extend, blocks, top], inside⟩

theorem At.extend (stands : chain.At height position tx) :
    (chain.extend block fresh).At height position tx := by
  obtain ⟨old, here, inside⟩ := stands
  have within := (List.getElem?_eq_some_iff.mp here).1
  exact ⟨old, (List.getElem?_append_left within).trans here, inside⟩

theorem At.of_extend (stands : (chain.extend block fresh).At height position tx)
    (low : height ≤ chain.top) : chain.At height position tx := by
  obtain ⟨old, here, inside⟩ := stands
  have within : height < chain.blocks.length := by
    simp only [blocks, List.length_cons]
    exact Nat.lt_succ_of_le low
  exact ⟨old, (List.getElem?_append_left within).symm.trans here, inside⟩

end Extend

end Chain

/-- What the archive answers of the chain: every query succeeds, a history returns
    the confirmed entries above its cursor and moves it to the top, and the link of a
    block is its height. -/
structure BlockArchive.Depicts (archive : BlockArchive Digest) (chain : Chain Digest) : Prop where
  history : ∀ cursor key limit, ∃ entries,
    archive.getHistory cursor key limit = .ok (some chain.top, entries) ∧
    ∀ height position hash,
      (∃ entry ∈ entries, entry.confirmed ∧ entry.height = height ∧
        entry.position = position ∧ entry.hash = hash) ↔
      (∀ passed, cursor = some passed → passed < height) ∧
        ∃ tx, chain.At height position tx ∧ tx.hash = hash ∧ tx.Touches key
  spenders : ∀ prevout height position hash,
    (∃ entry ∈ archive.getSpendersHistory prevout, entry.confirmed ∧ entry.height = height ∧
      entry.position = position ∧ entry.hash = hash) ↔
    ∃ tx, chain.At height position tx ∧ tx.hash = hash ∧ tx.Spends prevout
  linked : ∀ height, height ≤ chain.top → archive.getHeight height = some height
  headed : ∀ height, height ≤ chain.top → (archive.getHeader height).isSome
  stored : ∀ height position tx, chain.At height position tx →
    archive.getTransaction tx.hash = some tx

namespace Chain

/-- The entries of the transactions that pass a test, in chain order. -/
def entries (chain : Chain Digest) (holds : Transaction Digest → Prop) [DecidablePred holds] :
    List (History Digest) :=
  chain.blocks.zipIdx.flatMap fun (block, height) =>
    block.zipIdx.filterMap fun (tx, position) =>
      if holds tx then some ⟨tx.hash, height, 0, position, true⟩ else none

variable {chain : Chain Digest} {holds : Transaction Digest → Prop} [DecidablePred holds]

theorem mem_entries {entry : History Digest} :
    entry ∈ chain.entries holds ↔ ∃ tx, chain.At entry.height entry.position tx ∧ holds tx ∧
      entry = ⟨tx.hash, entry.height, 0, entry.position, true⟩ := by
  simp only [entries, List.mem_flatMap, List.mem_filterMap, Prod.exists,
    List.mem_zipIdx_iff_getElem?, Option.ite_none_right_eq_some, Option.some.injEq, At]
  constructor
  · rintro ⟨block, height, here, tx, position, inside, held, rfl⟩
    exact ⟨tx, ⟨block, here, inside⟩, held, rfl⟩
  · rintro ⟨tx, ⟨block, here, inside⟩, held, same⟩
    exact ⟨block, entry.height, here, tx, entry.position, inside, held, same.symm⟩

/-- An archive of the chain under the headers, and of nothing unconfirmed. -/
def archive (chain : Chain Digest) (headers : Nat → Header Digest) : BlockArchive Digest where
  getHistory cursor key _ :=
    .ok (some chain.top, (chain.entries (·.Touches key)).filter (·.above cursor))
  getTxHistory hash := (chain.entries (·.hash = hash)).head?
  getSpendersHistory prevout := chain.entries (·.Spends prevout)
  getHeight link := if link ≤ chain.top then some link else none
  getHeader link := if link ≤ chain.top then some (headers link) else none
  getTransaction hash := chain.blocks.flatten.find? (·.hash = hash)

theorem exists_mem_entries {height position : Nat} {hash : Digest} :
    (∃ entry ∈ chain.entries holds, entry.confirmed ∧ entry.height = height ∧
      entry.position = position ∧ entry.hash = hash) ↔
    ∃ tx, chain.At height position tx ∧ tx.hash = hash ∧ holds tx := by
  constructor
  · rintro ⟨entry, member, -, rfl, rfl, rfl⟩
    obtain ⟨tx, stands, held, same⟩ := mem_entries.mp member
    exact ⟨tx, stands, by rw [same], held⟩
  · rintro ⟨tx, stands, rfl, held⟩
    exact ⟨⟨tx.hash, height, 0, position, true⟩, mem_entries.mpr ⟨tx, stands, held, rfl⟩,
      rfl, rfl, rfl, rfl⟩

theorem getTransaction_of_at {height position : Nat} {tx : Transaction Digest}
    (stands : chain.At height position tx) :
    chain.blocks.flatten.find? (·.hash = tx.hash) = some tx := by
  have once := chain.distinct
  rw [Distinct, ← List.map_flatten] at once
  obtain ⟨block, here, inside⟩ := stands
  have member : tx ∈ chain.blocks.flatten :=
    List.mem_flatten.mpr ⟨block, List.mem_of_getElem? here, List.mem_of_getElem? inside⟩
  cases found : chain.blocks.flatten.find? (·.hash = tx.hash) with
  | none => simpa using List.find?_eq_none.mp found tx member
  | some first =>
      have same : first.hash = tx.hash := by simpa using List.find?_some found
      rw [List.inj_on_of_nodup_map once (List.mem_of_find?_eq_some found) member same]

omit [DecidableEq Digest] in
theorem above_iff {entry : History Digest} {cursor : Cursor} :
    entry.above cursor ↔ ∀ passed, cursor = some passed → passed < entry.height := by
  cases cursor <;> simp [History.above]

theorem archive_depicts (chain : Chain Digest) (headers : Nat → Header Digest) :
    (chain.archive headers).Depicts chain where
  history cursor key limit := by
    refine ⟨_, rfl, fun height position hash => ?_⟩
    rw [← exists_mem_entries]
    constructor
    · rintro ⟨entry, member, settled, rfl, rfl, rfl⟩
      obtain ⟨inside, above⟩ := List.mem_filter.mp member
      exact ⟨above_iff.mp above, entry, inside, settled, rfl, rfl, rfl⟩
    · rintro ⟨above, entry, inside, settled, rfl, rfl, rfl⟩
      exact ⟨entry, List.mem_filter.mpr ⟨inside, above_iff.mpr above⟩, settled, rfl, rfl, rfl⟩
  spenders prevout height position hash := by
    change (∃ entry ∈ chain.entries (·.Spends prevout), _) ↔ _
    exact exists_mem_entries
  linked height low := if_pos low
  headed height low := by simp [archive, low]
  stored height position tx stands := getTransaction_of_at stands

end Chain

end LibbitcoinServer

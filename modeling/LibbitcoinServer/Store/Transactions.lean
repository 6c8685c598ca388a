import LibbitcoinServer.Lib.Ledger
import LibbitcoinServer.Store.Coins

/-! # Transactions of a chain

The outputs that are unspent after some blocks are those of their transactions, one after
another: an output may be spent by any transaction that comes after its own, in its block too.
-/

namespace LibbitcoinServer.Store

variable {Digest Script : Type}

/-- A `chain::output`. -/
structure Put (Script : Type) where
  value : Nat
  script : Script
  deriving DecidableEq

/-- The decimal that is written of a value.  The source has the double nearest to it. -/
def Put.bitcoins (put : Put Script) : ℚ := put.value / 100000000

/-- A `chain::transaction`, with the points that its inputs name. -/
structure ChainTx (Digest Script : Type) where
  hash : Digest
  isCoinbase : Bool
  outputs : List (Put Script)
  points : List (Point Digest)
  deriving DecidableEq

structure TxBlock (Digest Script : Type) where
  hash : Digest
  transactions : List (ChainTx Digest Script)
  deriving DecidableEq

namespace ChainTx

def creates (tx : ChainTx Digest Script) : List (Point Digest × Put Script) :=
  tx.outputs.zipIdx.map fun put => (toLex (tx.hash, put.2), put.1)

/-- The point of a coinbase is of no output. -/
def spends (tx : ChainTx Digest Script) : List (Point Digest) :=
  if tx.isCoinbase then [] else tx.points

def created (height position : Nat) (tx : ChainTx Digest Script) : List (Output Digest Script) :=
  tx.outputs.zipIdx.map fun put =>
    ⟨toLex (tx.hash, put.2), put.1.value, put.1.script, height, position⟩

end ChainTx

namespace TxBlock

def creates (block : TxBlock Digest Script) : List (Point Digest × Put Script) :=
  block.transactions.flatMap ChainTx.creates

def spends (block : TxBlock Digest Script) : List (Point Digest) :=
  block.transactions.flatMap ChainTx.spends

/-- A block at a height, as the set of unspent outputs sees it. -/
def coinBlock (block : TxBlock Digest Script) (height : Nat) : CoinBlock Digest Script where
  hash := block.hash
  outputs := block.transactions.zipIdx.flatMap fun tx => tx.1.created height tx.2
  spends := block.spends

end TxBlock

def coinBlocks (blocks : List (TxBlock Digest Script)) : List (CoinBlock Digest Script) :=
  blocks.zipIdx.map fun block => block.1.coinBlock block.2

def entryOf (output : Output Digest Script) : Point Digest × Put Script :=
  (output.point, ⟨output.value, output.script⟩)

theorem map_entryOf_created (height position : Nat) (tx : ChainTx Digest Script) :
    (tx.created height position).map entryOf = tx.creates := by
  simp [ChainTx.created, ChainTx.creates, entryOf, Function.comp_def]

theorem map_entryOf_outputs (block : TxBlock Digest Script) (height : Nat) :
    (block.coinBlock height).outputs.map entryOf = block.creates := by
  have whole : block.transactions.zipIdx.map Prod.fst = block.transactions :=
    List.zipIdx_map_fst 0 _
  unfold TxBlock.creates
  rw [← whole, List.flatMap_map]
  simp only [TxBlock.coinBlock, List.map_flatMap, map_entryOf_created]

section Advance

variable [DecidableEq Digest]

/-- What a transaction makes of the outputs that are unspent. -/
def advance (held : List (Point Digest × Put Script)) (tx : ChainTx Digest Script) :
    List (Point Digest × Put Script) :=
  (held ++ tx.creates).filter fun entry => !tx.spends.contains entry.1

theorem advance_eq (held : List (Point Digest × Put Script)) (tx : ChainTx Digest Script) :
    advance held tx = (held ++ tx.creates).filter fun entry => entry.1 ∉ tx.spends := by
  unfold advance
  simp

/-- Transactions that spend, each, distinct outputs that are unspent before them. -/
def Spendable (held : List (Point Digest × Put Script)) : List (ChainTx Digest Script) → Prop
  | [] => True
  | tx :: txs =>
      tx.spends.Nodup ∧ (∀ point ∈ tx.spends, point ∈ held.map Prod.fst) ∧
        Spendable (advance held tx) txs

theorem Spendable.append {held : List (Point Digest × Put Script)}
    {first second : List (ChainTx Digest Script)} :
    Spendable held (first ++ second) ↔
      Spendable held first ∧ Spendable (first.foldl advance held) second := by
  induction first generalizing held with
  | nil => exact (true_and _).symm.to_iff
  | cons tx first ih =>
      rw [List.cons_append, Spendable, Spendable, ih, and_assoc, and_assoc]
      rfl

/-- The points at which anything is held or will be created are distinct. -/
def DistinctPoints (held : List (Point Digest × Put Script)) (txs : List (ChainTx Digest Script)) :
    Prop :=
  ((held ++ txs.flatMap ChainTx.creates).map Prod.fst).Nodup

variable {held : List (Point Digest × Put Script)} {tx : ChainTx Digest Script}
  {txs : List (ChainTx Digest Script)}

omit [DecidableEq Digest] in
theorem DistinctPoints.fresh (distinct : DistinctPoints held (tx :: txs)) :
    ((held ++ tx.creates).map Prod.fst).Nodup := by
  unfold DistinctPoints at distinct
  rw [List.flatMap_cons, ← List.append_assoc] at distinct
  exact distinct.sublist ((List.sublist_append_left _ _).map Prod.fst)

theorem DistinctPoints.advance (distinct : DistinctPoints held (tx :: txs)) :
    DistinctPoints (advance held tx) txs := by
  unfold DistinctPoints at distinct ⊢
  rw [List.flatMap_cons, ← List.append_assoc] at distinct
  exact distinct.sublist ((List.filter_sublist.append_right _).map Prod.fst)

omit [DecidableEq Digest] in
theorem DistinctPoints.of_append {before : List (ChainTx Digest Script)}
    (distinct : DistinctPoints held (before ++ txs)) : DistinctPoints held before := by
  unfold DistinctPoints at distinct ⊢
  rw [List.flatMap_append, ← List.append_assoc] at distinct
  exact distinct.sublist ((List.sublist_append_left _ _).map Prod.fst)

theorem foldl_advance_sublist (held : List (Point Digest × Put Script))
    (txs : List (ChainTx Digest Script)) :
    (txs.foldl advance held).Sublist (held ++ txs.flatMap ChainTx.creates) := by
  induction txs generalizing held with
  | nil => simp
  | cons tx txs ih =>
      have first : (advance held tx).Sublist (held ++ tx.creates) := List.filter_sublist
      have whole := (ih (advance held tx)).trans (first.append_right _)
      simpa using whole

theorem DistinctPoints.foldl_advance {before : List (ChainTx Digest Script)}
    (distinct : DistinctPoints held (before ++ txs)) :
    DistinctPoints (before.foldl Store.advance held) txs := by
  induction before generalizing held with
  | nil => exact distinct
  | cons tx before ih => exact ih distinct.advance

/-- No transaction spends what a later one creates, so that the transactions may be taken
    together. -/
theorem foldl_advance (distinct : DistinctPoints held txs) (spendable : Spendable held txs) :
    txs.foldl advance held =
      (held ++ txs.flatMap ChainTx.creates).filter fun entry =>
        entry.1 ∉ txs.flatMap ChainTx.spends := by
  induction txs generalizing held with
  | nil => simp
  | cons tx txs ih =>
      have later : ∀ entry ∈ txs.flatMap ChainTx.creates, entry.1 ∉ tx.spends := by
        intro entry member spent
        have known := spendable.2.1 entry.1 spent
        unfold DistinctPoints at distinct
        rw [List.flatMap_cons, List.map_append, List.map_append] at distinct
        exact List.disjoint_of_nodup_append distinct known
          (List.mem_append_right _ (List.mem_map_of_mem member))
      have untouched : (txs.flatMap ChainTx.creates).filter (fun entry => entry.1 ∉ tx.spends) =
          txs.flatMap ChainTx.creates := by
        apply List.filter_eq_self.mpr
        intro entry member
        simpa using later entry member
      rw [List.foldl_cons, ih distinct.advance spendable.2.2, List.flatMap_cons,
        List.flatMap_cons, ← List.append_assoc, advance_eq]
      nth_rewrite 1 [← untouched]
      rw [← List.filter_append, List.filter_filter]
      apply List.filter_congr
      intro entry _
      simp [Bool.and_comm]

theorem map_entryOf_organize (set : List (Output Digest Script)) (block : TxBlock Digest Script)
    (height : Nat) :
    (organize set (block.coinBlock height)).map entryOf =
      (set.map entryOf ++ block.creates).filter fun entry => entry.1 ∉ block.spends := by
  rw [← map_entryOf_outputs block height, ← List.map_append, List.filter_map]
  rfl

theorem map_entryOf_foldl {set : List (Output Digest Script)}
    {blocks : List (TxBlock Digest Script)} {height : Nat}
    (distinct : DistinctPoints (set.map entryOf) (blocks.flatMap TxBlock.transactions))
    (spendable : Spendable (set.map entryOf) (blocks.flatMap TxBlock.transactions)) :
    (((blocks.zipIdx height).map fun block => block.1.coinBlock block.2).foldl organize set).map
        entryOf =
      (blocks.flatMap TxBlock.transactions).foldl advance (set.map entryOf) := by
  induction blocks generalizing set height with
  | nil => rfl
  | cons block blocks ih =>
      rw [List.flatMap_cons] at distinct spendable ⊢
      obtain ⟨here, later⟩ := Spendable.append.mp spendable
      have once : (organize set (block.coinBlock height)).map entryOf =
          block.transactions.foldl advance (set.map entryOf) := by
        rw [map_entryOf_organize, foldl_advance distinct.of_append here]
        rfl
      rw [List.zipIdx_cons, List.map_cons, List.foldl_cons, ih, once, List.foldl_append]
      · exact once ▸ distinct.foldl_advance
      · exact once ▸ later

end Advance

/-- The transactions of a chain from genesis. -/
structure TxChain (Digest Script : Type) [DecidableEq Digest] where
  blocks : List (TxBlock Digest Script)
  distinct : DistinctPoints [] (blocks.flatMap TxBlock.transactions)
  spendable : Spendable [] (blocks.flatMap TxBlock.transactions)

namespace TxChain

variable [DecidableEq Digest] (chain : TxChain Digest Script)
  {before after : List (TxBlock Digest Script)}

theorem split_before (split : chain.blocks = before ++ after) :
    DistinctPoints [] (before.flatMap TxBlock.transactions) ∧
      Spendable [] (before.flatMap TxBlock.transactions) := by
  have distinct := chain.distinct
  have spendable := chain.spendable
  rw [split, List.flatMap_append] at distinct spendable
  exact ⟨distinct.of_append, (Spendable.append.mp spendable).1⟩

/-- The outputs that are unspent after some blocks. -/
def heldAfter (blocks : List (TxBlock Digest Script)) : List (Point Digest × Put Script) :=
  (blocks.flatMap TxBlock.transactions).foldl advance []

theorem split_after (split : chain.blocks = before ++ after) :
    DistinctPoints (heldAfter before) (after.flatMap TxBlock.transactions) ∧
      Spendable (heldAfter before) (after.flatMap TxBlock.transactions) := by
  have distinct := chain.distinct
  have spendable := chain.spendable
  rw [split, List.flatMap_append] at distinct spendable
  exact ⟨distinct.foldl_advance, (Spendable.append.mp spendable).2⟩

theorem mem_heldAfter {blocks : List (TxBlock Digest Script)} {entry : Point Digest × Put Script}
    (inside : entry ∈ heldAfter blocks) : ∃ block ∈ blocks, entry ∈ block.creates := by
  have created := (foldl_advance_sublist [] _).subset inside
  rw [List.nil_append, List.flatMap_assoc] at created
  exact List.mem_flatMap.mp created

/-- What is unspent after some blocks of a chain. -/
theorem map_entryOf_unspent (split : chain.blocks = before ++ after) :
    (unspent (coinBlocks before)).map entryOf = heldAfter before := by
  obtain ⟨distinct, spendable⟩ := chain.split_before split
  exact map_entryOf_foldl distinct spendable

end TxChain

end LibbitcoinServer.Store

import LibbitcoinServer.Store.Transactions

/-! # The supply

A block claims at most the subsidy of its height and the fees of its transactions.  What is
unspent is worth at most the subsidies that are issued, and what is missing of them was claimed
by no one, or was paid to scripts that cannot be spent.
-/

namespace LibbitcoinServer.Store

variable {Digest Script : Type}

def valueOf (entries : List (Point Digest × Put Script)) : Nat :=
  (entries.map fun entry => entry.2.value).sum

/-- What the coinbase of a block creates, and what its other transactions create. -/
def TxBlock.coinbase (block : TxBlock Digest Script) : List (Point Digest × Put Script) :=
  (block.transactions.filter ChainTx.isCoinbase).flatMap ChainTx.creates

def TxBlock.payments (block : TxBlock Digest Script) : List (Point Digest × Put Script) :=
  (block.transactions.filter fun tx => !tx.isCoinbase).flatMap ChainTx.creates

/-- The subsidies of the heights up to one, that of genesis among them. -/
def issued (subsidy : Nat → Nat) (height : Nat) : Nat :=
  ((List.range (height + 1)).map subsidy).sum

theorem issued_succ (subsidy : Nat → Nat) (height : Nat) :
    issued subsidy (height + 1) = issued subsidy height + subsidy (height + 1) := by
  rw [issued, List.range_succ, List.map_append, List.sum_append, List.map_singleton,
    List.sum_singleton, issued]

theorem issued_le {subsidy : Nat → Nat} {low high : Nat} (order : low ≤ high) :
    issued subsidy low ≤ issued subsidy high := by
  induction order with
  | refl => exact Nat.le_refl _
  | step _ ih => exact ih.trans (issued_succ subsidy _ ▸ Nat.le_add_right _ _)

/-! ## Values -/

@[simp] theorem valueOf_append (first second : List (Point Digest × Put Script)) :
    valueOf (first ++ second) = valueOf first + valueOf second := by
  rw [valueOf, List.map_append, List.sum_append, valueOf, valueOf]

theorem valueOf_perm {first second : List (Point Digest × Put Script)}
    (perm : first.Perm second) : valueOf first = valueOf second :=
  (perm.map _).sum_eq

theorem valueOf_filter (keep : Point Digest × Put Script → Bool)
    (entries : List (Point Digest × Put Script)) :
    valueOf (entries.filter keep) + valueOf (entries.filter fun entry => !keep entry) =
      valueOf entries := by
  rw [← valueOf_append]
  exact valueOf_perm (List.filter_append_perm keep entries)

theorem valueOf_creates (block : TxBlock Digest Script) :
    valueOf block.coinbase + valueOf block.payments = valueOf block.creates := by
  rw [← valueOf_append, TxBlock.coinbase, TxBlock.payments, ← List.flatMap_append]
  exact valueOf_perm ((List.filter_append_perm _ _).flatMap_right _)

section Supply

variable [DecidableEq Digest] (isUnspendable : Script → Bool)

/-- The outputs of a set that can be spent. -/
def spendableOf (entries : List (Point Digest × Put Script)) :
    List (Point Digest × Put Script) :=
  entries.filter fun entry => !isUnspendable entry.2.script

def unspendableOf (entries : List (Point Digest × Put Script)) :
    List (Point Digest × Put Script) :=
  entries.filter fun entry => isUnspendable entry.2.script

/-- What a block spends of the outputs that are unspent before it, and of its own. -/
def TxBlock.spent (held : List (Point Digest × Put Script)) (block : TxBlock Digest Script) :
    List (Point Digest × Put Script) :=
  (held ++ block.creates).filter fun entry => block.spends.contains entry.1

/-- What the outputs that are created at points of others are worth to those. -/
def TxBlock.overwritten (held : List (Point Digest × Put Script))
    (block : TxBlock Digest Script) : List (Point Digest × Put Script) :=
  held.filter fun entry => (block.creates.map Prod.fst).contains entry.1

/-- The rules of a block that bound the supply. -/
structure Funded (subsidy : Nat) (held : List (Point Digest × Put Script))
    (block : TxBlock Digest Script) : Prop where
  paid : valueOf block.payments ≤ valueOf (block.spent held)
  claimed : valueOf block.coinbase ≤
    subsidy + (valueOf (block.spent held) - valueOf block.payments)
  possible : ∀ entry ∈ block.spent held, isUnspendable entry.2.script = false

/-- The blocks above genesis, whose output is in no set. -/
structure Supply (subsidy : Nat → Nat) (blocks : List (TxBlock Digest Script)) : Prop where
  distinct : DistinctPoints [] (blocks.flatMap TxBlock.transactions)
  spendable : Spendable [] (blocks.flatMap TxBlock.transactions)
  funded : ∀ before block after, blocks = before ++ block :: after →
    Funded isUnspendable (subsidy (before.length + 1)) (TxChain.heldAfter before) block

variable {isUnspendable} {subsidy : Nat → Nat} {before : List (TxBlock Digest Script)}
  {block : TxBlock Digest Script}

theorem Supply.of_append {after : List (TxBlock Digest Script)}
    (supply : Supply isUnspendable subsidy (before ++ after)) :
    Supply isUnspendable subsidy before where
  distinct := by
    have distinct := supply.distinct
    rw [List.flatMap_append] at distinct
    exact distinct.of_append
  spendable := by
    have spendable := supply.spendable
    rw [List.flatMap_append] at spendable
    exact (Spendable.append.mp spendable).1
  funded := by
    intro early block late split
    exact supply.funded early block (late ++ after) (by simp [split])

theorem Supply.last (supply : Supply isUnspendable subsidy (before ++ [block])) :
    Funded isUnspendable (subsidy (before.length + 1)) (TxChain.heldAfter before) block :=
  supply.funded before block [] rfl

/-- A block adds what it creates to the set, and takes what it spends from it. -/
theorem Supply.heldAfter_concat (supply : Supply isUnspendable subsidy (before ++ [block])) :
    TxChain.heldAfter (before ++ [block]) =
      (TxChain.heldAfter before ++ block.creates).filter fun entry =>
        !block.spends.contains entry.1 := by
  have distinct := supply.distinct
  have spendable := supply.spendable
  rw [List.flatMap_append, List.flatMap_singleton] at distinct spendable
  unfold TxChain.heldAfter
  rw [List.flatMap_append, List.flatMap_singleton, List.foldl_append,
    foldl_advance distinct.foldl_advance (Spendable.append.mp spendable).2]
  refine List.filter_congr fun entry _ => ?_
  rw [List.contains_eq_mem, ← decide_not]
  rfl

/-- Nothing is overwritten where points are distinct. -/
theorem Supply.overwritten_eq_nil (supply : Supply isUnspendable subsidy (before ++ [block])) :
    block.overwritten (TxChain.heldAfter before) = [] := by
  have distinct := supply.distinct
  rw [List.flatMap_append, List.flatMap_singleton] at distinct
  have apart := distinct.foldl_advance
  unfold DistinctPoints at apart
  rw [List.map_append] at apart
  refine List.filter_eq_nil_iff.mpr fun entry inside created => ?_
  exact List.disjoint_of_nodup_append apart (List.mem_map_of_mem inside)
    (List.contains_iff_mem.mp created)

/-- The set of a block is worth that of the block below it, with what the block creates that can
    be spent, less what it spends. -/
theorem Supply.valueOf_concat (supply : Supply isUnspendable subsidy (before ++ [block])) :
    valueOf (spendableOf isUnspendable (TxChain.heldAfter (before ++ [block]))) +
        valueOf (block.spent (TxChain.heldAfter before)) +
        valueOf (unspendableOf isUnspendable block.creates) =
      valueOf (spendableOf isUnspendable (TxChain.heldAfter before)) +
        (valueOf block.coinbase + valueOf block.payments) := by
  have rules := supply.last
  have whole := valueOf_filter (fun entry => block.spends.contains entry.1)
    (spendableOf isUnspendable (TxChain.heldAfter before ++ block.creates))
  have gone : (spendableOf isUnspendable (TxChain.heldAfter before ++ block.creates)).filter
      (fun entry => block.spends.contains entry.1) =
        block.spent (TxChain.heldAfter before) := by
    rw [spendableOf, List.filter_comm]
    refine List.filter_eq_self.mpr fun entry member => ?_
    rw [rules.possible entry member]
    rfl
  have kept : (spendableOf isUnspendable (TxChain.heldAfter before ++ block.creates)).filter
      (fun entry => !block.spends.contains entry.1) =
        spendableOf isUnspendable (TxChain.heldAfter (before ++ [block])) := by
    rw [spendableOf, List.filter_comm, supply.heldAfter_concat]
    rfl
  have made := valueOf_filter (fun entry => isUnspendable entry.2.script) block.creates
  have parts : valueOf (spendableOf isUnspendable (TxChain.heldAfter before ++ block.creates)) =
      valueOf (spendableOf isUnspendable (TxChain.heldAfter before)) +
        valueOf (spendableOf isUnspendable block.creates) := by
    rw [spendableOf, List.filter_append, valueOf_append]
    rfl
  rw [gone, kept, parts] at whole
  rw [← valueOf_creates] at made
  unfold spendableOf unspendableOf at *
  omega

/-- What is in the set is worth no more than the subsidies above genesis. -/
theorem Supply.valueOf_le {blocks : List (TxBlock Digest Script)}
    (supply : Supply isUnspendable subsidy blocks) :
    valueOf (spendableOf isUnspendable (TxChain.heldAfter blocks)) + subsidy 0 ≤
      issued subsidy blocks.length := by
  induction blocks using List.reverseRecOn with
  | nil => simp [TxChain.heldAfter, spendableOf, valueOf, issued]
  | append_singleton before block ih =>
      have below := ih supply.of_append
      have step := supply.valueOf_concat
      have rules := supply.last
      have claimed := rules.claimed
      have paid := rules.paid
      rw [List.length_append, List.length_singleton, issued_succ]
      omega

end Supply

end LibbitcoinServer.Store

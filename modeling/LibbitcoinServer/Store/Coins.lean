import LibbitcoinServer.Store.Archive

/-! # Unspent outputs

What a block does to the set of unspent outputs is the outputs that it creates and the
points that it spends.  The set is folded from the blocks, and keeps the outputs at
distinct points.  The output of genesis is told by its place, or left out with its block.
-/

namespace LibbitcoinServer

structure Output (Digest Script : Type) where
  point : Point Digest
  value : Nat
  script : Script
  height : Nat
  position : Nat
  deriving DecidableEq

/-- A block, as the set of unspent outputs sees it. -/
structure CoinBlock (Digest Script : Type) where
  hash : Digest
  outputs : List (Output Digest Script)
  spends : List (Point Digest)
  deriving DecidableEq

variable {Digest Script : Type} [DecidableEq Digest]

/-- The first output of the chain cannot be spent, and is absent from the set. -/
def Output.isGenesis (output : Output Digest Script) : Bool :=
  output.height = 0 ∧ output.position = 0

/-- An output may be spent in the block that creates it. -/
def organize (set : List (Output Digest Script)) (block : CoinBlock Digest Script) :
    List (Output Digest Script) :=
  (set ++ block.outputs).filter fun output => output.point ∉ block.spends

def unspent (blocks : List (CoinBlock Digest Script)) : List (Output Digest Script) :=
  blocks.foldl organize []

def created (blocks : List (CoinBlock Digest Script)) : List (Output Digest Script) :=
  blocks.flatMap CoinBlock.outputs

theorem foldl_organize_sublist (set : List (Output Digest Script))
    (blocks : List (CoinBlock Digest Script)) :
    (blocks.foldl organize set).Sublist (set ++ created blocks) := by
  induction blocks generalizing set with
  | nil => simp [created]
  | cons block blocks ih =>
      have first : (organize set block).Sublist (set ++ block.outputs) := List.filter_sublist
      have whole := (ih (organize set block)).trans (first.append_right (created blocks))
      simpa [created] using whole

theorem unspent_sublist (blocks : List (CoinBlock Digest Script)) :
    (unspent blocks).Sublist (created blocks) :=
  foldl_organize_sublist [] blocks

/-- The outputs that are kept are kept through the blocks that create only such. -/
theorem filter_foldl_organize (keep : Output Digest Script → Bool)
    (set : List (Output Digest Script)) {blocks : List (CoinBlock Digest Script)}
    (kept : ∀ output ∈ created blocks, keep output) :
    (blocks.foldl organize set).filter keep = blocks.foldl organize (set.filter keep) := by
  induction blocks generalizing set with
  | nil => rfl
  | cons block blocks ih =>
      have here : block.outputs.filter keep = block.outputs :=
        List.filter_eq_self.mpr fun output inside =>
          kept output (List.mem_flatMap.mpr ⟨block, List.mem_cons_self, inside⟩)
      have later : ∀ output ∈ created blocks, keep output := by
        intro output inside
        obtain ⟨other, member, inside⟩ := List.mem_flatMap.mp inside
        exact kept output (List.mem_flatMap.mpr ⟨other, List.mem_cons_of_mem _ member, inside⟩)
      have once : (organize set block).filter keep = organize (set.filter keep) block := by
        rw [organize, organize, List.filter_comm, List.filter_append, here]
      rw [List.foldl_cons, List.foldl_cons, ih _ later, once]

/-- A chain of blocks from genesis. -/
structure Branch (Digest Script : Type) [DecidableEq Digest] where
  genesis : CoinBlock Digest Script
  above : List (CoinBlock Digest Script)
  placed : ∀ pair ∈ (genesis :: above).zipIdx, ∀ output ∈ pair.1.outputs, output.height = pair.2
  coinbase : ∀ output ∈ genesis.outputs, output.position = 0
  distinct : ((created (genesis :: above)).map Output.point).Nodup

namespace Branch

def blocks (branch : Branch Digest Script) : List (CoinBlock Digest Script) :=
  branch.genesis :: branch.above

def top (branch : Branch Digest Script) : Nat := branch.above.length

/-- The blocks above genesis up to the height. -/
def through (branch : Branch Digest Script) (height : Nat) : List (CoinBlock Digest Script) :=
  branch.above.take height

variable (branch : Branch Digest Script)

theorem isGenesis_of_genesis {output : Output Digest Script}
    (inside : output ∈ branch.genesis.outputs) : output.isGenesis := by
  have low := branch.placed (branch.genesis, 0) List.mem_cons_self output inside
  have first := branch.coinbase output inside
  simp [Output.isGenesis, low, first]

theorem not_isGenesis_of_above {output : Output Digest Script}
    (inside : output ∈ created branch.above) : !output.isGenesis := by
  obtain ⟨block, member, inside⟩ := List.mem_flatMap.mp inside
  obtain ⟨index, here⟩ := List.getElem?_of_mem member
  have listed : (block, index + 1) ∈ (branch.genesis :: branch.above).zipIdx :=
    List.mk_mem_zipIdx_iff_getElem?.mpr here
  have high := branch.placed _ listed output inside
  simp [Output.isGenesis, high]

/-- The set without the output of genesis is the set of the blocks above genesis. -/
theorem unspent_above :
    (unspent branch.blocks).filter (fun output => !output.isGenesis) = unspent branch.above := by
  have kept : ∀ output ∈ created branch.above, (!output.isGenesis) = true :=
    fun output inside => branch.not_isGenesis_of_above inside
  have nothing : (organize [] branch.genesis).filter (fun output => !output.isGenesis) = [] := by
    rw [List.filter_eq_nil_iff]
    intro output inside
    simp [branch.isGenesis_of_genesis (List.mem_of_mem_filter inside)]
  rw [unspent, blocks, List.foldl_cons, filter_foldl_organize _ _ kept, nothing, unspent]

theorem created_above_sublist : (created branch.above).Sublist (created branch.blocks) :=
  List.sublist_append_right _ _

theorem created_through_sublist (height : Nat) :
    (created (branch.through height)).Sublist (created branch.blocks) := by
  have fewer : (branch.through height).Sublist branch.above := List.take_sublist _ _
  exact (fewer.flatMap CoinBlock.outputs).trans branch.created_above_sublist

/-- The outputs that are unspent at a height are at distinct points. -/
theorem nodup_unspent_through (height : Nat) :
    ((unspent (branch.through height)).map Output.point).Nodup := by
  have part := (unspent_sublist (branch.through height)).trans
    (branch.created_through_sublist height)
  exact branch.distinct.sublist (part.map Output.point)

theorem through_top : branch.through branch.top = branch.above := List.take_length

theorem nodup_unspent_above : ((unspent branch.above).map Output.point).Nodup := by
  rw [← branch.through_top]
  exact branch.nodup_unspent_through branch.top

end Branch

end LibbitcoinServer

import LibbitcoinServer.Lib.Traverse
import LibbitcoinServer.Merkle.RoundTrip
import LibbitcoinServer.Merkle.Soundness

/-! # Partial trees of blocks

The txids of a block are distinct, so that under a node hash that is injective on pairs no
two nodes of a level are equal.  What a partial tree reports is then a part of the block, and
of a tree that was built from marked txids it is the marked ones.
-/

namespace LibbitcoinServer.Merkle

variable {Digest : Type} {nodeHash : Digest → Digest → Digest} {txids : List Digest}

/-- The nodes of a level are distinct. -/
theorem calcHash_injective (injective : Function.Injective2 nodeHash) (nodup : txids.Nodup)
    {height first second : Nat} {hash : Digest}
    (one : calcHash nodeHash txids height first = some hash)
    (other : calcHash nodeHash txids height second = some hash) : first = second := by
  induction height generalizing first second hash with
  | zero =>
      have bound : first < txids.length := (List.getElem?_eq_some_iff.mp one).1
      exact (List.getElem?_inj bound nodup).mp (Eq.trans one (Eq.symm other))
  | succ height ih =>
      obtain ⟨left, right, leftHash, -, joined⟩ := calcHash_succ nodeHash one
      obtain ⟨otherLeft, otherRight, otherHash, -, otherJoined⟩ := calcHash_succ nodeHash other
      obtain ⟨rfl, -⟩ := injective (joined.trans otherJoined.symm)
      have doubled := ih leftHash otherHash
      omega

theorem distinctSiblings_of_nodup (injective : Function.Injective2 nodeHash)
    (nodup : txids.Nodup) : DistinctSiblings nodeHash txids := by
  intro height pos inside same
  have bound : pos * 2 < treeWidth txids.length height := by omega
  obtain ⟨hash, here⟩ := Option.isSome_iff_exists.mp
    ((calcHash_isSome nodeHash txids height (pos * 2)).mpr bound)
  have positions := calcHash_injective injective nodup here (same ▸ here)
  omega

theorem filterMap_range (txids : List Digest) :
    (List.range txids.length).filterMap (txids[·]?) = txids := by
  have found : ((txids[·]?) ∘ fun index : Fin txids.length => index.val) =
      some ∘ txids.get := by
    funext index
    simp
  rw [← List.map_coe_finRange_eq_range, List.filterMap_map, found, ← List.filterMap_map,
    List.map_get_finRange, List.filterMap_some]

/-- Increasing positions of a list select a part of it. -/
theorem filterMap_getElem?_sublist {positions : List Nat}
    (sorted : positions.Pairwise (· < ·)) (inside : ∀ p ∈ positions, p < txids.length) :
    (positions.filterMap (txids[·]?)).Sublist txids := by
  have fewer : positions.Subperm (List.range txids.length) := by
    apply List.subperm_of_subset (sorted.imp Nat.ne_of_lt)
    intro p member
    exact List.mem_range.mpr (inside p member)
  have part : positions.Sublist (List.range txids.length) :=
    List.sublist_of_subperm_of_pairwise fewer sorted List.pairwise_lt_range
  have selected := part.filterMap (txids[·]?)
  rwa [filterMap_range] at selected

/-- The leaves that a test marks are those that pass it. -/
theorem filterMap_marked (test : Digest → Bool) :
    ((List.range txids.length).filter ((txids.map test).getD · false)).filterMap (txids[·]?) =
      txids.filter test := by
  have marks : ∀ index, ((txids.map test).getD index false) =
      (txids[index]?.map test).getD false := by
    intro index
    rw [List.getD_eq_getElem?_getD, List.getElem?_map]
  have chosen : (List.range txids.length).filter ((txids.map test).getD · false) =
      (List.range txids.length).filter fun index => (txids[index]?.map test).getD false :=
    List.filter_congr fun index _ => marks index
  have whole := congrArg (List.filter test) (filterMap_range txids)
  rw [chosen, ← whole, List.filter_filterMap, List.filterMap_filter]
  congr 1
  funext index
  cases txids[index]? with
  | none => rfl
  | some hash =>
      rw [Option.map_some, Option.getD_some, Option.filter_some]

variable [DecidableEq Digest] [Inhabited Digest]

/-- What an accepted tree of a block reports is a part of the block. -/
theorem matched_sublist (injective : Function.Injective2 nodeHash) {flags : List Byte}
    {branch : List Digest} {out : Extraction Digest} (nonempty : txids ≠ [])
    (accepted : extractPartialMerkle nodeHash txids.length flags branch = some out)
    (rooted : LevelTree.root nodeHash txids = some out.root) : out.matched.Sublist txids := by
  obtain ⟨last, walk, matched_eq, -⟩ := extractPartialMerkle_walked accepted
  have real := (calcHash_treeHeight nodeHash txids nonempty).trans rooted
  obtain ⟨positions, matched, -, added, reported⟩ := walk.reported injective real
  rw [matched_eq, added]
  simp only [Cursor.start, List.nil_append]
  have inside : ∀ p ∈ positions, p < txids.length := by
    intro p member
    obtain ⟨hash, -, found⟩ := Traverse.exists_of_forall₂ reported.agree member
    exact (List.getElem?_eq_some_iff.mp found).1
  rw [← Traverse.filterMap_of_forall₂ reported.agree]
  exact filterMap_getElem?_sublist reported.sorted inside

/-- The tree that is built from the marks of a block reports the marked txids. -/
theorem extract_marked (injective : Function.Injective2 nodeHash) (nonempty : txids ≠ [])
    (nodup : txids.Nodup) (test : Digest → Bool) :
    ∃ flags branch out, buildPartialMerkle nodeHash txids (txids.map test) = some (flags, branch) ∧
      extractPartialMerkle nodeHash txids.length flags branch = some out ∧
      LevelTree.root nodeHash txids = some out.root ∧ out.matched = txids.filter test := by
  have positive : 0 < txids.length := List.length_pos_iff.mpr nonempty
  have sized : (txids.map test).length = txids.length := List.length_map _
  have single := treeWidth_treeHeight positive
  obtain ⟨bits, hashes, root, code⟩ := encoded sized
    (distinctSiblings_of_nodup injective nodup) (treeHeight txids.length) 0 (by omega)
  have past : subtreePast txids.length (treeHeight txids.length) 0 = txids.length := by
    have wide : ¬1 < treeWidth txids.length (treeHeight txids.length) := by omega
    rw [lt_treeWidth_iff] at wide
    rw [subtreePast]
    omega
  have whole := marked_all (txids.map test)
  rw [sized] at whole
  have packed := bytesToBits_bitsToBytes bits
  have walk := code.walked (bytesToBits (bitsToBytes bits)) hashes Cursor.start
    (packed ▸ List.prefix_append _ _) (List.prefix_refl _)
  have room := le_toCeilingedBytes bits.length
  have fits := code.bounded
  have flagged := code.flagged
  rw [past] at fits
  refine ⟨bitsToBytes bits, hashes, ⟨root, txids.filter test, marked (txids.map test) 0
    txids.length⟩, ?_, ?_, ?_, rfl⟩
  · simp [buildPartialMerkle, code.built]
  · have reported : (Cursor.start.advance txids bits.length hashes.length
        (marked (txids.map test) 0 txids.length)).matched = txids.filter test := by
      rw [← filterMap_marked, whole]
      rfl
    simp only [extractPartialMerkle, walk.extracts, Nat.zero_mul, past, reported]
    rw [if_neg, if_pos]
    · rfl
    · refine ⟨rfl, by simp [Cursor.advance, Cursor.start], ?_⟩
      simp only [Cursor.advance, Cursor.start, Nat.zero_add, length_bytesToBits,
        length_bitsToBytes, toCeilingedBytes_mul]
    · simp only [length_bytesToBits, length_bitsToBytes]
      omega
  · rw [← calcHash_treeHeight nodeHash txids nonempty, code.hashed]

end LibbitcoinServer.Merkle

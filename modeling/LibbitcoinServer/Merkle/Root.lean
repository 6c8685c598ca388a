import LibbitcoinServer.Merkle.PartialTree

/-! # Subtree hashes and the merkle root

`calc_hash` reads the level-by-level tree: the subtree at `(height, pos)` is the
node of that level, and it is defined exactly at the positions of the level.
-/

namespace LibbitcoinServer.Merkle

variable {Digest : Type} (nodeHash : Digest → Digest → Digest)

theorem calcHash_eq_level (txids : List Digest) (height pos : Nat) :
    calcHash nodeHash txids height pos = (LevelTree.level nodeHash txids height)[pos]? := by
  induction height generalizing pos with
  | zero => rfl
  | succ height ih =>
      have width : (LevelTree.level nodeHash txids height).length = treeWidth txids.length height :=
        LevelTree.length_level nodeHash txids height
      simp only [calcHash, ih, LevelTree.level, LevelTree.getElem?_pairUp, Nat.mul_comm pos 2]
      cases located : (LevelTree.level nodeHash txids height)[2 * pos]? with
      | none => rfl
      | some left =>
          by_cases inside : 2 * pos + 1 < treeWidth txids.length height
          · rw [← width] at inside
            simp [inside, ← width]
          · have absent : (LevelTree.level nodeHash txids height)[2 * pos + 1]? = none := by
              rw [List.getElem?_eq_none_iff, width]
              omega
            simp [inside, absent]

/-- The subtree hash exists exactly at the positions of its level. -/
theorem calcHash_isSome (txids : List Digest) (height pos : Nat) :
    (calcHash nodeHash txids height pos).isSome ↔ pos < treeWidth txids.length height := by
  rw [calcHash_eq_level, treeWidth, ← LevelTree.length_level nodeHash]
  simp

/-- An inner subtree joins its children, a missing right child being the left one. -/
theorem calcHash_succ {txids : List Digest} {height pos : Nat} {hash : Digest}
    (made : calcHash nodeHash txids (height + 1) pos = some hash) :
    ∃ left right, calcHash nodeHash txids height (pos * 2) = some left ∧
      (if pos * 2 + 1 < treeWidth txids.length height
        then calcHash nodeHash txids height (pos * 2 + 1) else some left) = some right ∧
      nodeHash left right = hash := by
  simp only [calcHash, Option.bind_eq_bind, Option.bind_eq_some_iff, Option.some.injEq] at made
  obtain ⟨left, hleft, right, hright, joined⟩ := made
  exact ⟨left, right, hleft, hright, joined⟩

theorem treeHeightFrom_spec (txs height : Nat) (positive : 0 < txs) :
    treeWidth txs (treeHeightFrom txs height) = 1 ∧
      ∀ below, height ≤ below → below < treeHeightFrom txs height → 1 < treeWidth txs below := by
  fun_induction treeHeightFrom txs height with
  | case1 height wide ih =>
      refine ⟨ih.1, fun below above under => ?_⟩
      by_cases same : below = height
      · subst same
        exact wide
      · exact ih.2 below (by omega) under
  | case2 height narrow =>
      refine ⟨?_, fun below above under => by omega⟩
      have : 0 < treeWidth txs height := by
        rw [treeWidth, ← Nat.not_le, ceilDiv_le_iff_le_mul (by positivity)]
        omega
      omega

/-- The root level has one node. -/
theorem treeWidth_treeHeight {txs : Nat} (positive : 0 < txs) :
    treeWidth txs (treeHeight txs) = 1 :=
  (treeHeightFrom_spec txs 0 positive).1

/-- Every level below the root level has more than one node. -/
theorem one_lt_treeWidth {txs below : Nat} (positive : 0 < txs) (under : below < treeHeight txs) :
    1 < treeWidth txs below :=
  (treeHeightFrom_spec txs 0 positive).2 below (Nat.zero_le below) under

/-- The subtree hash at the tree height is the root left by pairing up the txids. -/
theorem calcHash_treeHeight (txids : List Digest) (nonempty : txids ≠ []) :
    calcHash nodeHash txids (treeHeight txids.length) 0 = LevelTree.root nodeHash txids := by
  have positive : 0 < txids.length := List.length_pos_iff.mpr nonempty
  rw [calcHash_eq_level, LevelTree.root_eq_level nodeHash txids (treeHeight txids.length)]
  · rw [LevelTree.length_level]
    exact treeWidth_treeHeight positive
  · intro below under
    rw [LevelTree.length_level]
    exact one_lt_treeWidth positive under

end LibbitcoinServer.Merkle

import LibbitcoinServer.Merkle.RoundTrip

/-! # Reads within bounds

Every node that the walks of a block reach stands on its level, so the leaves below it are
leaves of the block.  The reads of a subtree hash are exactly these leaves, and no read of
the build walk throws.
-/

namespace LibbitcoinServer.Merkle

/-- The positions that `calc_hash` reads, in order. -/
def leafReads (txs : Nat) : Nat → Nat → List Nat
  | 0, pos => [pos]
  | height + 1, pos =>
      leafReads txs height (pos * 2) ++
        if pos * 2 + 1 < treeWidth txs height then leafReads txs height (pos * 2 + 1) else []

/-- The nodes that the walks may reach from the root. -/
inductive Visited (txs : Nat) : Nat → Nat → Prop
  | root : Visited txs (treeHeight txs) 0
  | left {height pos} (parent : Visited txs (height + 1) pos) : Visited txs height (pos * 2)
  | right {height pos} (parent : Visited txs (height + 1) pos)
      (inside : pos * 2 + 1 < treeWidth txs height) : Visited txs height (pos * 2 + 1)

variable {txs height pos : Nat}

/-- The height is the least at which one node is left. -/
theorem isLeast_treeHeight (positive : 0 < txs) :
    IsLeast {height | treeWidth txs height = 1} (treeHeight txs) := by
  constructor
  · exact treeWidth_treeHeight positive
  · intro height single
    by_contra under
    have wide := one_lt_treeWidth positive (not_le.mp under)
    exact absurd single wide.ne'

/-! ## The reads of a subtree -/

theorem first_lt_past (inside : pos < treeWidth txs height) :
    pos * 2 ^ height < subtreePast txs height pos := by
  have below := lt_treeWidth_iff.mp inside
  have next : pos * 2 ^ height < (pos + 1) * 2 ^ height :=
    Nat.mul_lt_mul_of_pos_right (Nat.lt_succ_self pos) (by positivity)
  exact lt_min next below

theorem left_inside (inside : pos < treeWidth txs (height + 1)) :
    pos * 2 < treeWidth txs height := by
  have half := half_treeWidth txs height
  omega

/-- The leaves of a node are read from the first to the last, each once. -/
theorem leafReads_eq (inside : pos < treeWidth txs height) :
    leafReads txs height pos =
      List.range' (pos * 2 ^ height) (subtreePast txs height pos - pos * 2 ^ height) := by
  induction height generalizing pos with
  | zero =>
      have below := lt_treeWidth_iff.mp inside
      rw [pow_zero, Nat.mul_one] at below ⊢
      have past : subtreePast txs 0 pos - pos = 1 := by
        rw [subtreePast, pow_zero]
        omega
      rw [past]
      rfl
  | succ height ih =>
      rw [leafReads, ih (left_inside inside), first_left]
      by_cases right : pos * 2 + 1 < treeWidth txs height
      · rw [if_pos right, ih right, subtreePast_left right, subtreePast_right]
        have lower : pos * 2 ^ (height + 1) ≤ (pos * 2 + 1) * 2 ^ height := by
          rw [← first_left]
          exact Nat.mul_le_mul_right _ (Nat.le_succ _)
        have upper := first_lt_past right
        rw [subtreePast_right] at upper
        have joined := @List.range'_append_1 (pos * 2 ^ (height + 1))
          ((pos * 2 + 1) * 2 ^ height - pos * 2 ^ (height + 1))
          (subtreePast txs (height + 1) pos - (pos * 2 + 1) * 2 ^ height)
        rw [Nat.add_sub_cancel' lower] at joined
        rw [joined]
        congr 1
        omega
      · rw [if_neg right, List.append_nil, subtreePast_only right]

/-- Every leaf read is a leaf of the block. -/
theorem leafReads_lt (inside : pos < treeWidth txs height) :
    ∀ read ∈ leafReads txs height pos, read < txs := by
  intro read member
  rw [leafReads_eq inside, List.mem_range'_1] at member
  have past : subtreePast txs height pos ≤ txs := Nat.min_le_right _ _
  have below := first_lt_past inside
  omega

variable {Digest : Type} (nodeHash : Digest → Digest → Digest)

/-- A subtree hash is made where no read throws. -/
theorem calcHash_isSome_iff_leafReads (txids : List Digest) (height pos : Nat) :
    (calcHash nodeHash txids height pos).isSome ↔
      ∀ read ∈ leafReads txids.length height pos, read < txids.length := by
  induction height generalizing pos with
  | zero => simp [calcHash, leafReads]
  | succ height ih =>
      rw [leafReads, List.forall_mem_append, ← ih, calcHash]
      cases first : calcHash nodeHash txids height (pos * 2) with
      | none => simp
      | some left =>
          split_ifs with right
          · rw [← ih]
            cases second : calcHash nodeHash txids height (pos * 2 + 1) with
            | none => simp
            | some right => simp
          · simp

/-! ## The nodes that are reached -/

theorem Visited.inside (positive : 0 < txs) (visited : Visited txs height pos) :
    pos < treeWidth txs height := by
  induction visited with
  | root =>
      rw [treeWidth_treeHeight positive]
      exact Nat.one_pos
  | left parent ih => exact left_inside ih
  | right parent inside ih => exact inside

theorem Visited.height_le (visited : Visited txs height pos) : height ≤ treeHeight txs := by
  induction visited with
  | root => exact Nat.le_refl _
  | left parent ih => omega
  | right parent inside ih => omega

/-- A level below the root covers less than all leaves with its first node. -/
theorem two_pow_lt (positive : 0 < txs) (low : height ≤ treeHeight txs) :
    2 ^ height < 2 * txs := by
  cases height with
  | zero =>
      rw [pow_zero]
      omega
  | succ height =>
      have wide := one_lt_treeWidth positive low
      rw [lt_treeWidth_iff] at wide
      rw [pow_succ]
      omega

/-- What the walks compute at a node: a place on its level, leaves of the block, and no
    number as great as twice the count of leaves. -/
structure WithinBounds (txs height pos : Nat) : Prop where
  inside : pos < treeWidth txs height
  first : pos * 2 ^ height < min ((pos + 1) * 2 ^ height) txs
  past : min ((pos + 1) * 2 ^ height) txs ≤ txs
  word : (pos + 1) * 2 ^ height < 2 * txs

theorem Visited.within (positive : 0 < txs) (visited : Visited txs height pos) :
    WithinBounds txs height pos where
  inside := visited.inside positive
  first := first_lt_past (visited.inside positive)
  past := Nat.min_le_right _ _
  word := by
    have below := lt_treeWidth_iff.mp (visited.inside positive)
    have small := two_pow_lt positive visited.height_le
    rw [Nat.add_mul, Nat.one_mul]
    cases pos with
    | zero => omega
    | succ pos =>
        have least : 2 ^ height ≤ (pos + 1) * 2 ^ height := Nat.le_mul_of_pos_left _ (by omega)
        omega

/-! ## The build walk -/

theorem traverseBuild_isSome {txids : List Digest} {marks : List Bool}
    (sized : marks.length = txids.length) {height pos : Nat}
    (inside : pos < treeWidth txids.length height) (proof : Proof Digest) :
    (traverseBuild nodeHash txids marks height pos proof).isSome := by
  induction height generalizing pos proof with
  | zero =>
      have flag := inner_flag sized 0 pos
      rw [pow_zero, Nat.mul_one, Nat.mul_one] at flag
      obtain ⟨hash, hashed⟩ := Option.isSome_iff_exists.mp
        ((calcHash_isSome nodeHash txids 0 pos).mpr inside)
      rw [traverseBuild, flag, hashed]
      rfl
  | succ height ih =>
      obtain ⟨hash, hashed⟩ := Option.isSome_iff_exists.mp
        ((calcHash_isSome nodeHash txids (height + 1) pos).mpr inside)
      rw [traverseBuild, inner_flag sized (height + 1) pos, Option.bind_eq_bind, Option.bind_some]
      dsimp only
      have left : ∀ proof, ∃ after,
          traverseBuild nodeHash txids marks height (pos * 2) proof = some after := by
        intro proof
        exact Option.isSome_iff_exists.mp (ih (left_inside inside) proof)
      split_ifs with parent right
      · obtain ⟨after, built⟩ := left _
        rw [built]
        exact ih right after
      · obtain ⟨after, built⟩ := left _
        rw [built]
        rfl
      · rw [hashed]
        rfl

/-- The hash of the whole block is the root left by pairing level by level, at the least
    height with one node, and no read of either walk is out of bounds. -/
theorem calcHash_reads_within (txids : List Digest) (nonempty : txids ≠ []) :
    IsLeast {height | treeWidth txids.length height = 1} (treeHeight txids.length) ∧
      (∀ height pos, pos < treeWidth txids.length height →
        (∀ read ∈ leafReads txids.length height pos, read < txids.length) ∧
          (calcHash nodeHash txids height pos).isSome) ∧
      (∃ root, LevelTree.root nodeHash txids = some root ∧
        calcHash nodeHash txids (treeHeight txids.length) 0 = some root) ∧
      (∀ height pos, Visited txids.length height pos → WithinBounds txids.length height pos) ∧
      ∀ marks : List Bool, marks.length = txids.length →
        (∀ height pos proof, Visited txids.length height pos →
          (traverseBuild nodeHash txids marks height pos proof).isSome) ∧
          (buildPartialMerkle nodeHash txids marks).isSome := by
  have positive : 0 < txids.length := List.length_pos_iff.mpr nonempty
  refine ⟨isLeast_treeHeight positive, ?_, ?_, ?_, ?_⟩
  · intro height pos inside
    have reads := leafReads_lt inside
    exact ⟨reads, (calcHash_isSome_iff_leafReads nodeHash txids height pos).mpr reads⟩
  · obtain ⟨root, hashed⟩ := Option.isSome_iff_exists.mp
      ((calcHash_isSome nodeHash txids _ 0).mpr (Visited.root.inside positive))
    rw [← calcHash_treeHeight nodeHash txids nonempty]
    exact ⟨root, hashed, hashed⟩
  · intro height pos visited
    exact visited.within positive
  · intro marks sized
    constructor
    · intro height pos proof visited
      exact traverseBuild_isSome nodeHash sized (visited.inside positive) proof
    · obtain ⟨proof, built⟩ := Option.isSome_iff_exists.mp
        (traverseBuild_isSome nodeHash sized (Visited.root.inside positive) ⟨[], []⟩)
      rw [buildPartialMerkle, built]
      rfl

theorem calcHash_reads_within_three :
    IsLeast {height | treeWidth 3 height = 1} (treeHeight 3) ∧
      (∀ height pos, pos < treeWidth 3 height →
        (∀ read ∈ leafReads 3 height pos, read < 3) ∧
          (calcHash Nat.pair [10, 20, 30] height pos).isSome) ∧
      (∃ root, LevelTree.root Nat.pair [10, 20, 30] = some root ∧
        calcHash Nat.pair [10, 20, 30] (treeHeight 3) 0 = some root) ∧
      (∀ height pos, Visited 3 height pos → WithinBounds 3 height pos) ∧
      ∀ marks : List Bool, marks.length = 3 →
        (∀ height pos proof, Visited 3 height pos →
          (traverseBuild Nat.pair [10, 20, 30] marks height pos proof).isSome) ∧
          (buildPartialMerkle Nat.pair [10, 20, 30] marks).isSome :=
  calcHash_reads_within Nat.pair [10, 20, 30] (List.cons_ne_nil _ _)

end LibbitcoinServer.Merkle

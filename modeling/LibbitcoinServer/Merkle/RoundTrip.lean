import LibbitcoinServer.Merkle.Root
import LibbitcoinServer.Merkle.Walk

/-! # Extracting a built partial tree

The build walk of a subtree writes a run of bits and a run of hashes.  Wherever a
cursor stands at both runs, the extract walk of the same subtree is good, takes
exactly these runs, and reports exactly the marked leaves below it.
-/

namespace LibbitcoinServer.Merkle

/-- The marked leaves from `first` to before `past`, in order. -/
def marked (marks : List Bool) (first past : Nat) : List Nat :=
  (List.range' first (past - first)).filter (marks.getD · false)

theorem marked_append (marks : List Bool) {first middle past : Nat} (lower : first ≤ middle)
    (upper : middle ≤ past) :
    marked marks first middle ++ marked marks middle past = marked marks first past := by
  have split : past - first = (middle - first) + (past - middle) := by omega
  simp only [marked, split, ← List.range'_append_1, List.filter_append]
  rw [show first + (middle - first) = middle by omega]

theorem parentOfMatch_eq (marks : List Bool) {first past : Nat} (inside : past ≤ marks.length) :
    parentOfMatch marks first past = some (!(marked marks first past).isEmpty) := by
  have loop : ∀ count first parent, first + count ≤ marks.length →
      (List.range' first count).foldlM (fun parent leaf => marks[leaf]?.map (parent || ·)) parent =
        some (parent || !((List.range' first count).filter (marks.getD · false)).isEmpty) := by
    intro count
    induction count with
    | zero => intro first parent _; simp
    | succ count ih =>
        intro first parent bound
        have here : first < marks.length := by omega
        simp only [List.range'_succ, List.foldlM_cons, List.getElem?_eq_getElem here,
          Option.map_some, Option.bind_eq_bind, Option.bind_some, List.filter_cons,
          List.getD_eq_getElem?_getD, Option.getD_some]
        rw [ih (first + 1) _ (by omega)]
        cases marks[first] <;> simp
  unfold parentOfMatch marked
  by_cases empty : past ≤ first
  · simp [show past - first = 0 by omega]
  · rw [loop _ _ _ (by omega), Bool.false_or]

theorem lt_treeWidth_iff {txs height pos : Nat} :
    pos < treeWidth txs height ↔ pos * 2 ^ height < txs := by
  rw [treeWidth, ← Nat.not_le, ceilDiv_le_iff_le_mul (by positivity), Nat.not_le, Nat.mul_comm]

section Runs

variable {α : Type} {head : α} {run run' source : List α} {index : Nat}

private theorem run_cons (standing : (head :: run) <+: source.drop index) :
    source[index]? = some head ∧ run <+: source.drop (index + 1) := by
  obtain ⟨rest, same⟩ := standing
  constructor
  · have := congrArg List.head? same
    simpa [List.head?_drop] using this.symm
  · refine ⟨rest, ?_⟩
    rw [← List.drop_drop, ← same]
    rfl

private theorem run_append (standing : (run ++ run') <+: source.drop index) :
    run <+: source.drop index ∧ run' <+: source.drop (index + run.length) := by
  obtain ⟨rest, same⟩ := standing
  refine ⟨⟨run' ++ rest, by rw [← same, List.append_assoc]⟩, rest, ?_⟩
  rw [← List.drop_drop, ← same, List.append_assoc, List.drop_left]

end Runs

variable {Digest : Type} {nodeHash : Digest → Digest → Digest}

/-- The cursor after a subtree that took the counted bits and hashes and reported
    the given leaves. -/
def Cursor.advance (cursor : Cursor Digest) (txids : List Digest) (bits hashes : Nat)
    (positions : List Nat) : Cursor Digest where
  bit := cursor.bit + bits
  used := cursor.used + hashes
  matched := cursor.matched ++ positions.filterMap (txids[·]?)
  positions := cursor.positions ++ positions
  bad := cursor.bad

/-- The leaves of the subtree at `(height, pos)` end here. -/
def subtreePast (txs height pos : Nat) : Nat := min ((pos + 1) * 2 ^ height) txs

/-- A build walk that wrote the runs, and what extracting them does at any cursor. -/
structure Encoded (nodeHash : Digest → Digest → Digest) (txids : List Digest)
    (marks : List Bool) (height pos : Nat) (bits : List Bool) (hashes : List Digest)
    (hash : Digest) : Prop where
  hashed : calcHash nodeHash txids height pos = some hash
  built : ∀ proof, traverseBuild nodeHash txids marks height pos proof =
    some ⟨proof.bits ++ bits, proof.branch ++ hashes⟩
  flagged : hashes.length ≤ bits.length
  bounded : hashes.length ≤ subtreePast txids.length height pos - pos * 2 ^ height
  walked : ∀ (source : List Bool) (branch : List Digest) (cursor : Cursor Digest),
    bits <+: source.drop cursor.bit → hashes <+: branch.drop cursor.used →
    Walked nodeHash txids.length source branch height pos cursor hash
      (cursor.advance txids bits.length hashes.length
        (marked marks (pos * 2 ^ height) (subtreePast txids.length height pos)))

/-- No two existing sibling subtrees have equal hashes. -/
def DistinctSiblings (nodeHash : Digest → Digest → Digest) (txids : List Digest) : Prop :=
  ∀ height pos, pos * 2 + 1 < treeWidth txids.length height →
    calcHash nodeHash txids height (pos * 2) ≠ calcHash nodeHash txids height (pos * 2 + 1)

variable {txids : List Digest} {marks : List Bool}

theorem encoded_leaf (sized : marks.length = txids.length) {pos : Nat}
    (inside : pos < treeWidth txids.length 0) :
    ∃ bits hashes hash, Encoded nodeHash txids marks 0 pos bits hashes hash := by
  have here : pos < txids.length := by simpa [lt_treeWidth_iff] using inside
  have past : subtreePast txids.length 0 pos = pos + 1 := by simp [subtreePast]; omega
  have leaf : marked marks pos (pos + 1) = if marks.getD pos false then [pos] else [] := by
    simp [marked, List.filter_cons]
  have parent : parentOfMatch marks pos (min (pos + 1) txids.length) =
      some (marks.getD pos false) := by
    rw [Nat.min_eq_left here, parentOfMatch_eq marks (by omega), leaf]
    cases marks.getD pos false <;> rfl
  refine ⟨[marks.getD pos false], [txids[pos]], txids[pos], ?_⟩
  constructor
  · exact List.getElem?_eq_getElem here
  · intro proof
    simp [traverseBuild, parent, calcHash, List.getElem?_eq_getElem here]
  · rfl
  · simp [past]
  · intro source branch cursor atBits atHashes
    have flag := (run_cons atBits).1
    have taken := (run_cons atHashes).1
    simp only [pow_zero, Nat.mul_one, past, leaf]
    cases mark : marks.getD pos false with
    | false =>
        rw [mark] at flag
        simpa [Cursor.advance, Cursor.nextBit, Cursor.nextHash] using Walked.stop flag taken
    | true =>
        rw [mark] at flag
        simpa [Cursor.advance, Cursor.nextBit, Cursor.nextHash, Cursor.pushMatch,
          List.getElem?_eq_getElem here] using Walked.leaf flag taken

/-- The flag the build walk writes at an inner node. -/
theorem inner_flag (sized : marks.length = txids.length) (height pos : Nat) :
    parentOfMatch marks (pos * 2 ^ height) (min ((pos + 1) * 2 ^ height) txids.length) =
      some (!(marked marks (pos * 2 ^ height) (subtreePast txids.length height pos)).isEmpty) :=
  parentOfMatch_eq marks (sized ▸ Nat.min_le_right _ _)

theorem encoded_bare (sized : marks.length = txids.length) {height pos : Nat}
    (inside : pos < treeWidth txids.length (height + 1))
    (empty : marked marks (pos * 2 ^ (height + 1))
      (subtreePast txids.length (height + 1) pos) = []) :
    ∃ bits hashes hash, Encoded nodeHash txids marks (height + 1) pos bits hashes hash := by
  obtain ⟨hash, hashed⟩ := Option.isSome_iff_exists.mp
    ((calcHash_isSome nodeHash txids (height + 1) pos).mpr inside)
  have flag := inner_flag sized (height + 1) pos
  rw [empty] at flag
  refine ⟨[false], [hash], hash, ?_⟩
  constructor
  · exact hashed
  · intro proof
    simp [traverseBuild, flag, hashed]
  · rfl
  · have first := lt_treeWidth_iff.mp inside
    have next : pos * 2 ^ (height + 1) < (pos + 1) * 2 ^ (height + 1) :=
      Nat.mul_lt_mul_of_pos_right (Nat.lt_succ_self pos) (by positivity)
    simp only [subtreePast, List.length_singleton]
    omega
  · intro source branch cursor atBits atHashes
    rw [empty]
    simpa [Cursor.advance, Cursor.nextBit, Cursor.nextHash] using
      Walked.stop (run_cons atBits).1 (run_cons atHashes).1

/-- The children of a node split its leaves. -/
theorem subtreePast_left {txs height pos : Nat} (inside : pos * 2 + 1 < treeWidth txs height) :
    subtreePast txs height (pos * 2) = (pos * 2 + 1) * 2 ^ height := by
  have := lt_treeWidth_iff.mp inside
  simp only [subtreePast]
  omega

theorem subtreePast_right (txs height pos : Nat) :
    subtreePast txs height (pos * 2 + 1) = subtreePast txs (height + 1) pos := by
  simp only [subtreePast, pow_succ]
  ring_nf

theorem subtreePast_only {txs height pos : Nat} (outside : ¬pos * 2 + 1 < treeWidth txs height) :
    subtreePast txs height (pos * 2) = subtreePast txs (height + 1) pos := by
  rw [lt_treeWidth_iff] at outside
  have wider : (pos * 2 + 1) * 2 ^ height ≤ (pos + 1) * 2 ^ (height + 1) := by
    rw [pow_succ]
    ring_nf
    omega
  simp only [subtreePast]
  omega

theorem first_left (height pos : Nat) : pos * 2 * 2 ^ height = pos * 2 ^ (height + 1) := by
  rw [pow_succ]
  ring

theorem encoded_both (sized : marks.length = txids.length)
    (distinct : DistinctSiblings nodeHash txids) {height pos : Nat}
    {leftBits rightBits : List Bool} {leftHashes rightHashes : List Digest} {left right : Digest}
    (inside : pos * 2 + 1 < treeWidth txids.length height)
    (present : marked marks (pos * 2 ^ (height + 1))
      (subtreePast txids.length (height + 1) pos) ≠ [])
    (first : Encoded nodeHash txids marks height (pos * 2) leftBits leftHashes left)
    (second : Encoded nodeHash txids marks height (pos * 2 + 1) rightBits rightHashes right) :
    Encoded nodeHash txids marks (height + 1) pos (true :: (leftBits ++ rightBits))
      (leftHashes ++ rightHashes) (nodeHash left right) := by
  have flag := inner_flag sized (height + 1) pos
  simp only [List.isEmpty_eq_false_iff.mpr present, Bool.not_false] at flag
  have middle := subtreePast_left inside
  have past := subtreePast_right txids.length height pos
  have lower : pos * 2 ^ (height + 1) ≤ (pos * 2 + 1) * 2 ^ height := by
    rw [← first_left]
    exact Nat.mul_le_mul_right _ (by omega)
  have upper : (pos * 2 + 1) * 2 ^ height ≤ subtreePast txids.length (height + 1) pos := by
    have := lt_treeWidth_iff.mp inside
    rw [← past, subtreePast]
    exact le_min (Nat.mul_le_mul_right _ (by omega)) this.le
  constructor
  · simp [calcHash, first.hashed, inside, second.hashed]
  · intro proof
    simp [traverseBuild, flag, first.built, inside, second.built]
  · have := first.flagged
    have := second.flagged
    simp only [List.length_append, List.length_cons]
    omega
  · have lengths := Nat.add_le_add first.bounded second.bounded
    rw [middle, past, first_left] at lengths
    rw [List.length_append]
    omega
  · intro source branch cursor atBits atHashes
    obtain ⟨set, below⟩ := run_cons atBits
    obtain ⟨leftBelow, rightBelow⟩ := run_append below
    obtain ⟨leftTaken, rightTaken⟩ := run_append atHashes
    have apart : right ≠ left := by
      rintro rfl
      exact distinct height pos inside (first.hashed.trans second.hashed.symm)
    have walk := Walked.both set inside
      (first.walked source branch cursor.nextBit leftBelow leftTaken)
      (second.walked source branch _ rightBelow rightTaken) apart
    have split := marked_append marks lower upper
    rw [middle, past, first_left] at walk
    rw [← split]
    simpa [Cursor.advance, Cursor.nextBit, Nat.add_assoc, Nat.add_comm, Nat.add_left_comm]
      using walk

theorem encoded_only (sized : marks.length = txids.length) {height pos : Nat}
    {leftBits : List Bool} {leftHashes : List Digest} {left : Digest}
    (outside : ¬pos * 2 + 1 < treeWidth txids.length height)
    (present : marked marks (pos * 2 ^ (height + 1))
      (subtreePast txids.length (height + 1) pos) ≠ [])
    (first : Encoded nodeHash txids marks height (pos * 2) leftBits leftHashes left) :
    Encoded nodeHash txids marks (height + 1) pos (true :: leftBits) leftHashes
      (nodeHash left left) := by
  have flag := inner_flag sized (height + 1) pos
  simp only [List.isEmpty_eq_false_iff.mpr present, Bool.not_false] at flag
  have past := subtreePast_only outside
  constructor
  · simp [calcHash, first.hashed, outside]
  · intro proof
    simp [traverseBuild, flag, first.built, outside]
  · exact Nat.le_succ_of_le first.flagged
  · have := first.bounded
    rwa [past, first_left] at this
  · intro source branch cursor atBits atHashes
    obtain ⟨set, below⟩ := run_cons atBits
    have walk := Walked.only set outside (first.walked source branch cursor.nextBit below atHashes)
    rw [past, first_left] at walk
    simpa [Cursor.advance, Cursor.nextBit, Nat.add_assoc, Nat.add_comm, Nat.add_left_comm]
      using walk

theorem encoded (sized : marks.length = txids.length) (distinct : DistinctSiblings nodeHash txids)
    (height pos : Nat) (inside : pos < treeWidth txids.length height) :
    ∃ bits hashes hash, Encoded nodeHash txids marks height pos bits hashes hash := by
  induction height generalizing pos with
  | zero => exact encoded_leaf sized inside
  | succ height ih =>
      by_cases empty : marked marks (pos * 2 ^ (height + 1))
          (subtreePast txids.length (height + 1) pos) = []
      · exact encoded_bare sized inside empty
      · have half := half_treeWidth txids.length height
        obtain ⟨_, _, _, first⟩ := ih (pos * 2) (by omega)
        by_cases right : pos * 2 + 1 < treeWidth txids.length height
        · obtain ⟨_, _, _, second⟩ := ih (pos * 2 + 1) right
          exact ⟨_, _, _, encoded_both sized distinct right empty first second⟩
        · exact ⟨_, _, _, encoded_only sized right empty first⟩

theorem toCeilingedBytes_mul (bytes : Nat) : toCeilingedBytes (bytes * 8) = bytes := by
  rw [toCeilingedBytes, Nat.ceilDiv_eq_add_pred_div]
  omega

/-- The marked leaves of a whole block. -/
theorem marked_all (marks : List Bool) :
    marked marks 0 marks.length = (List.range marks.length).filter (marks.getD · false) := by
  rw [marked, List.range_eq_range', Nat.sub_zero]

variable [DecidableEq Digest] [Inhabited Digest]

theorem extractPartialMerkle_buildPartialMerkle (nodeHash : Digest → Digest → Digest)
    (txids : List Digest) (nonempty : txids ≠ []) (marks : List Bool)
    (sized : marks.length = txids.length) (distinct : DistinctSiblings nodeHash txids) :
    ∃ flags branch root, buildPartialMerkle nodeHash txids marks = some (flags, branch) ∧
      LevelTree.root nodeHash txids = some root ∧
      extractPartialMerkle nodeHash txids.length flags branch = some
        { root
          matched := ((List.range txids.length).filter (marks.getD · false)).filterMap (txids[·]?)
          positions := (List.range txids.length).filter (marks.getD · false) } := by
  have positive : 0 < txids.length := List.length_pos_iff.mpr nonempty
  have single := treeWidth_treeHeight positive
  obtain ⟨bits, hashes, root, code⟩ := encoded sized distinct (treeHeight txids.length) 0
    (by omega)
  have past : subtreePast txids.length (treeHeight txids.length) 0 = txids.length := by
    have wide : ¬1 < treeWidth txids.length (treeHeight txids.length) := by omega
    rw [lt_treeWidth_iff] at wide
    simp only [subtreePast]
    omega
  have whole := marked_all marks
  rw [sized] at whole
  have packed := bytesToBits_bitsToBytes bits
  have walk := code.walked (bytesToBits (bitsToBytes bits)) hashes Cursor.start
    (by rw [packed]; exact List.prefix_append _ _) (List.prefix_refl _)
  refine ⟨bitsToBytes bits, hashes, root, ?_, ?_, ?_⟩
  · simp [buildPartialMerkle, code.built]
  · rw [← calcHash_treeHeight nodeHash txids nonempty, code.hashed]
  · have fits := code.bounded
    have flagged := code.flagged
    have room := le_toCeilingedBytes bits.length
    rw [past] at fits
    simp only [extractPartialMerkle, walk.extracts]
    rw [if_neg, if_pos]
    · simp only [Cursor.advance, Cursor.start, Nat.zero_mul, past, whole, List.nil_append]
    · refine ⟨rfl, by simp [Cursor.advance, Cursor.start], ?_⟩
      simp only [Cursor.advance, Cursor.start, Nat.zero_add, length_bytesToBits,
        length_bitsToBytes, toCeilingedBytes_mul]
    · simp only [length_bytesToBits, length_bitsToBytes]
      omega

/-- Three txids under a node hash that is not injective, the last two marked. -/
theorem extractPartialMerkle_buildPartialMerkle_three :
    ([1, 2, 3] : List Nat) ≠ [] ∧ [false, true, true].length = [1, 2, 3].length ∧
      DistinctSiblings (fun left right => left + 2 * right) [1, 2, 3] ∧
      ∃ flags branch root,
        buildPartialMerkle (fun left right => left + 2 * right) [1, 2, 3] [false, true, true] =
          some (flags, branch) ∧
        LevelTree.root (fun left right => left + 2 * right) [1, 2, 3] = some root ∧
        extractPartialMerkle (fun left right => left + 2 * right) [1, 2, 3].length flags branch =
          some
            { root
              matched := ((List.range [1, 2, 3].length).filter
                ([false, true, true].getD · false)).filterMap ([1, 2, 3][·]?)
              positions := (List.range [1, 2, 3].length).filter
                ([false, true, true].getD · false) } := by
  have distinct : DistinctSiblings (fun left right => left + 2 * right) [1, 2, 3] := by
    intro height pos inside
    have short : (pos * 2 + 1) * 2 ^ height < 3 := lt_treeWidth_iff.mp inside
    have low : height < 2 := by
      by_contra high
      have : 2 ^ 2 ≤ 2 ^ height := Nat.pow_le_pow_right (by decide) (by omega)
      nlinarith
    have origin : pos = 0 := by
      have : 1 ≤ 2 ^ height := Nat.one_le_two_pow
      nlinarith
    subst origin
    interval_cases height <;> decide +kernel
  exact ⟨by decide, rfl, distinct, extractPartialMerkle_buildPartialMerkle _ [1, 2, 3] (by decide)
    [false, true, true] rfl distinct⟩

end LibbitcoinServer.Merkle

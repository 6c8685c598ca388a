import LibbitcoinServer.Merkle.Root
import LibbitcoinServer.Merkle.Walk

/-! # Soundness of an extracted partial tree

The flags and the branch are chosen by an adversary.  A node hash that is
injective on pairs lets the comparison with the real root descend: wherever the
walk recurses, both children must be the real subtrees, so every matched leaf is
the txid at its position.
-/

namespace LibbitcoinServer.Merkle

variable {Digest : Type} {nodeHash : Digest → Digest → Digest}

/-- What a subtree walk may report: increasing positions below the subtree, each
    with the txid found there. -/
structure Reported (txids : List Digest) (height pos : Nat) (positions : List Nat)
    (matched : List Digest) : Prop where
  sorted : positions.Pairwise (· < ·)
  covered : ∀ p ∈ positions, pos * 2 ^ height ≤ p ∧ p < (pos + 1) * 2 ^ height
  agree : List.Forall₂ (fun p hash => txids[p]? = some hash) positions matched

namespace Reported

variable {txids : List Digest} {height pos : Nat} {positions positions' : List Nat}
  {matched matched' : List Digest}

theorem nil : Reported txids height pos [] [] where
  sorted := .nil
  covered := by simp
  agree := .nil

theorem leaf {hash : Digest} (found : txids[pos]? = some hash) :
    Reported txids 0 pos [pos] [hash] where
  sorted := List.pairwise_singleton _ _
  covered := by simp
  agree := .cons found .nil

theorem left (child : Reported txids height (pos * 2) positions matched) :
    Reported txids (height + 1) pos positions matched where
  sorted := child.sorted
  covered := by
    intro p member
    obtain ⟨lower, upper⟩ := child.covered p member
    constructor <;> ring_nf at * <;> omega
  agree := child.agree

theorem append (first : Reported txids height (pos * 2) positions matched)
    (second : Reported txids height (pos * 2 + 1) positions' matched') :
    Reported txids (height + 1) pos (positions ++ positions') (matched ++ matched') where
  sorted := by
    refine List.pairwise_append.mpr ⟨first.sorted, second.sorted, fun p hp q hq => ?_⟩
    exact lt_of_lt_of_le (first.covered p hp).2 (second.covered q hq).1
  covered := by
    intro p member
    rcases List.mem_append.mp member with member | member
    · exact first.left.covered p member
    · obtain ⟨lower, upper⟩ := second.covered p member
      constructor <;> ring_nf at * <;> omega
  agree := List.rel_append first.agree second.agree

end Reported

/-- A good walk to the real subtree hash reports only real txids. -/
theorem Walked.reported (injective : Function.Injective2 nodeHash) {txids : List Digest}
    {bits : List Bool} {branch : List Digest} {height pos : Nat} {cursor last : Cursor Digest}
    {hash : Digest} (walk : Walked nodeHash txids.length bits branch height pos cursor hash last)
    (real : calcHash nodeHash txids height pos = some hash) :
    ∃ positions matched, last.positions = cursor.positions ++ positions ∧
      last.matched = cursor.matched ++ matched ∧
      Reported txids height pos positions matched := by
  induction walk with
  | stop clear taken =>
      exact ⟨[], [], (List.append_nil _).symm, (List.append_nil _).symm, .nil⟩
  | leaf set taken => exact ⟨[_], [_], rfl, rfl, .leaf real⟩
  | both set inside first second apart ihf ihs =>
      obtain ⟨left, right, hleft, hright, joined⟩ := calcHash_succ nodeHash real
      obtain ⟨rfl, rfl⟩ := injective joined
      rw [if_pos inside] at hright
      obtain ⟨ps, ms, hps, hms, reported⟩ := ihf hleft
      obtain ⟨ps', ms', hps', hms', reported'⟩ := ihs hright
      refine ⟨ps ++ ps', ms ++ ms', ?_, ?_, reported.append reported'⟩
      · rw [hps', hps, List.append_assoc]
        rfl
      · rw [hms', hms, List.append_assoc]
        rfl
  | only set outside first ih =>
      obtain ⟨left, right, hleft, hright, joined⟩ := calcHash_succ nodeHash real
      obtain ⟨rfl, rfl⟩ := injective joined
      obtain ⟨ps, ms, hps, hms, reported⟩ := ih hleft
      exact ⟨ps, ms, hps, hms, reported.left⟩

variable [DecidableEq Digest] [Inhabited Digest]

/-- What a true return of `extract_partial_merkle` says about its walk. -/
theorem extractPartialMerkle_walked {txs : Nat} {flags : List Byte} {branch : List Digest}
    {out : Extraction Digest}
    (accepted : extractPartialMerkle nodeHash txs flags branch = some out) :
    ∃ last, Walked nodeHash txs (bytesToBits flags) branch (treeHeight txs) 0 Cursor.start
      out.root last ∧ out.matched = last.matched ∧ out.positions = last.positions := by
  simp only [extractPartialMerkle] at accepted
  split at accepted
  · cases accepted
  · split at accepted
    · rename_i good
      cases accepted
      exact ⟨_, walked_of_good _ _ _ (by simpa using good.1), rfl, rfl⟩
    · cases accepted

theorem extractPartialMerkle_sound (injective : Function.Injective2 nodeHash)
    (txids : List Digest) (flags : List Byte) (branch : List Digest) (out : Extraction Digest)
    (accepted : extractPartialMerkle nodeHash txids.length flags branch = some out)
    (rooted : calcHash nodeHash txids (treeHeight txids.length) 0 = some out.root) :
    out.positions.Pairwise (· < ·) ∧ (∀ p ∈ out.positions, p < txids.length) ∧
      out.matched.length = out.positions.length ∧
      ∀ i, i < out.matched.length → out.matched[i]? = out.positions[i]?.bind (txids[·]?) := by
  obtain ⟨last, walk, hmatched, hpositions⟩ := extractPartialMerkle_walked accepted
  obtain ⟨positions, matched, hps, hms, reported⟩ := walk.reported injective rooted
  rw [hmatched, hpositions, hps, hms]
  simp only [Cursor.start, List.nil_append]
  have agree := List.forall₂_iff_get.mp reported.agree
  refine ⟨reported.sorted, ?_, reported.agree.length_eq.symm, ?_⟩
  · intro p member
    obtain ⟨i, inside, rfl⟩ := List.mem_iff_getElem.mp member
    obtain ⟨bound, _⟩ := List.getElem?_eq_some_iff.mp (agree.2 i inside (agree.1 ▸ inside))
    exact bound
  · intro i inside
    have inside' : i < positions.length := agree.1 ▸ inside
    rw [List.getElem?_eq_getElem inside, List.getElem?_eq_getElem inside', Option.bind_some]
    exact (agree.2 i inside' inside).symm

/-- A proof of the second of three txids, under an injective pairing of naturals. -/
theorem extractPartialMerkle_sound_three :
    extractPartialMerkle Nat.pair 3 [0x0b] [10, 20, Nat.pair 30 30] =
        some ⟨Nat.pair (Nat.pair 10 20) (Nat.pair 30 30), [20], [1]⟩ ∧
      [1].Pairwise (· < ·) ∧ (∀ p ∈ [1], p < [10, 20, 30].length) ∧
      [20].length = [1].length ∧
      ∀ i, i < [20].length → [20][i]? = [1][i]?.bind ([10, 20, 30][·]?) := by
  have accepted : extractPartialMerkle Nat.pair 3 [0x0b] [10, 20, Nat.pair 30 30] =
      some ⟨Nat.pair (Nat.pair 10 20) (Nat.pair 30 30), [20], [1]⟩ := by decide +kernel
  refine ⟨accepted, ?_⟩
  exact extractPartialMerkle_sound (fun _ _ _ _ same => Nat.pair_eq_pair.mp same) [10, 20, 30]
    [0x0b] [10, 20, Nat.pair 30 30] _ accepted (by decide +kernel)

end LibbitcoinServer.Merkle

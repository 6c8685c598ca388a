import LibbitcoinServer.Merkle.PartialTree

/-! # Good extract walks

`Walked` is the derivation of an extract walk that never fails: one rule for each
way a node can be passed.  Soundness inverts it and the round trip builds it, so
neither unfolds `traverseExtract`.
-/

namespace LibbitcoinServer.Merkle

variable {Digest : Type} [DecidableEq Digest] {nodeHash : Digest → Digest → Digest}
  {txs : Nat} {bits : List Bool} {branch : List Digest}

inductive Walked (nodeHash : Digest → Digest → Digest) (txs : Nat) (bits : List Bool)
    (branch : List Digest) : Nat → Nat → Cursor Digest → Digest → Cursor Digest → Prop
  | stop {height pos cursor hash} (clear : bits[cursor.bit]? = some false)
      (taken : branch[cursor.used]? = some hash) :
      Walked nodeHash txs bits branch height pos cursor hash cursor.nextBit.nextHash
  | leaf {pos cursor hash} (set : bits[cursor.bit]? = some true)
      (taken : branch[cursor.used]? = some hash) :
      Walked nodeHash txs bits branch 0 pos cursor hash
        (cursor.nextBit.nextHash.pushMatch hash pos)
  | both {height pos cursor left middle right last} (set : bits[cursor.bit]? = some true)
      (inside : pos * 2 + 1 < treeWidth txs height)
      (first : Walked nodeHash txs bits branch height (pos * 2) cursor.nextBit left middle)
      (second : Walked nodeHash txs bits branch height (pos * 2 + 1) middle right last)
      (apart : right ≠ left) :
      Walked nodeHash txs bits branch (height + 1) pos cursor (nodeHash left right) last
  | only {height pos cursor left last} (set : bits[cursor.bit]? = some true)
      (outside : ¬pos * 2 + 1 < treeWidth txs height)
      (first : Walked nodeHash txs bits branch height (pos * 2) cursor.nextBit left last) :
      Walked nodeHash txs bits branch (height + 1) pos cursor (nodeHash left left) last

theorem Cursor.distinct_good {cursor : Cursor Digest} {left right : Digest}
    (good : (cursor.distinct left right).bad = false) :
    right ≠ left ∧ cursor.distinct left right = cursor := by
  unfold Cursor.distinct at good ⊢
  split at good
  · cases good
  · rename_i apart
    exact ⟨apart, if_neg apart⟩

variable [Inhabited Digest]

theorem Walked.extracts {height pos : Nat} {cursor last : Cursor Digest} {hash : Digest}
    (walk : Walked nodeHash txs bits branch height pos cursor hash last) :
    traverseExtract nodeHash txs bits branch height pos cursor = (hash, last) := by
  induction walk with
  | @stop height pos cursor hash clear taken =>
      cases height <;> simp [traverseExtract, clear, taken]
  | leaf set taken => simp [traverseExtract, set, taken]
  | both set inside first second apart ihf ihs =>
      simp [traverseExtract, set, inside, ihf, ihs, Cursor.distinct, apart]
  | only set outside first ih => simp [traverseExtract, set, outside, ih]

/-- A failure is never taken back. -/
theorem good_of_traverseExtract (height pos : Nat) (cursor : Cursor Digest)
    (good : (traverseExtract nodeHash txs bits branch height pos cursor).2.bad = false) :
    cursor.bad = false := by
  induction height generalizing pos cursor with
  | zero =>
      simp only [traverseExtract] at good
      split at good
      · cases good
      · split at good
        · cases good
        · split at good <;> exact good
  | succ height ih =>
      simp only [traverseExtract] at good
      split at good
      · cases good
      · split at good
        · cases good
        · exact good
      · split at good
        · rw [(Cursor.distinct_good good).2] at good
          exact ih _ cursor.nextBit (ih _ _ good)
        · exact ih _ cursor.nextBit good

theorem walked_of_good (height pos : Nat) (cursor : Cursor Digest)
    (good : (traverseExtract nodeHash txs bits branch height pos cursor).2.bad = false) :
    Walked nodeHash txs bits branch height pos cursor
      (traverseExtract nodeHash txs bits branch height pos cursor).1
      (traverseExtract nodeHash txs bits branch height pos cursor).2 := by
  induction height generalizing pos cursor with
  | zero =>
      revert good
      cases read : bits[cursor.bit]? with
      | none => simp [traverseExtract, read, Cursor.fail]
      | some flag =>
          cases taken : branch[cursor.used]? with
          | none => simp [traverseExtract, read, taken, Cursor.fail]
          | some hash =>
              intro _
              cases flag with
              | false => simpa [traverseExtract, read, taken] using Walked.stop read taken
              | true => simpa [traverseExtract, read, taken] using Walked.leaf read taken
  | succ height ih =>
      revert good
      cases read : bits[cursor.bit]? with
      | none => simp [traverseExtract, read, Cursor.fail]
      | some flag =>
          cases flag with
          | false =>
              cases taken : branch[cursor.used]? with
              | none => simp [traverseExtract, read, taken, Cursor.fail]
              | some hash =>
                  intro _
                  simpa [traverseExtract, read, taken] using Walked.stop read taken
          | true =>
              simp only [traverseExtract, read]
              split
              · rename_i inside
                intro good
                obtain ⟨apart, same⟩ := Cursor.distinct_good good
                rw [same] at good ⊢
                exact .both read inside (ih _ _ (good_of_traverseExtract _ _ _ good))
                  (ih _ _ good) apart
              · rename_i outside
                intro good
                exact .only read outside (ih _ _ good)

end LibbitcoinServer.Merkle

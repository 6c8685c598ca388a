import LibbitcoinServer.Lib.LevelTree
import LibbitcoinServer.Merkle.Flags

/-! # The bip37 partial merkle tree

`build_partial_merkle` and `extract_partial_merkle` as the two depth-first walks
of the source, over an arbitrary node hash.  Vector reads through `at` are partial
here: `none` is the read the source would throw on.
-/

namespace LibbitcoinServer.Merkle

variable {Digest : Type} (nodeHash : Digest → Digest → Digest)

/-- `tree_width`: the nodes at a height, the leaves being at height zero. -/
def treeWidth (txs height : Nat) : Nat := txs ⌈/⌉ 2 ^ height

theorem half_treeWidth (txs height : Nat) :
    (treeWidth txs height + 1) / 2 = treeWidth txs (height + 1) :=
  LevelTree.half_ceilDiv txs height

/-- `calc_hash`: the hash of the subtree rooted at `(height, pos)`. -/
def calcHash (txids : List Digest) : Nat → Nat → Option Digest
  | 0, pos => txids[pos]?
  | height + 1, pos => do
      let left ← calcHash txids height (pos * 2)
      let right ← (if pos * 2 + 1 < treeWidth txids.length height
        then calcHash txids height (pos * 2 + 1) else some left)
      some (nodeHash left right)

/-- The loop of `tree_height`, resumed at a height. -/
def treeHeightFrom (txs height : Nat) : Nat :=
  if 1 < treeWidth txs height then treeHeightFrom txs (height + 1) else height
termination_by treeWidth txs height
decreasing_by
  rw [← half_treeWidth]
  omega

/-- `tree_height`: the height that reduces the leaves to a single root. -/
def treeHeight (txs : Nat) : Nat := treeHeightFrom txs 0

/-- What the build walk appends to: the flag bits and the branch hashes. -/
structure Proof (Digest : Type) where
  bits : List Bool
  branch : List Digest
  deriving DecidableEq

/-- Whether any of the leaves from `first` to before `past` is matched. -/
def parentOfMatch (marks : List Bool) (first past : Nat) : Option Bool :=
  (List.range' first (past - first)).foldlM
    (fun parent leaf => marks[leaf]?.map (parent || ·)) false

/-- `traverse_build`: depth-first build of the flag bits and branch hashes. -/
def traverseBuild (txids : List Digest) (marks : List Bool) :
    Nat → Nat → Proof Digest → Option (Proof Digest)
  | 0, pos, proof => do
      let parent ← parentOfMatch marks pos (min (pos + 1) txids.length)
      let hash ← calcHash nodeHash txids 0 pos
      some ⟨proof.bits ++ [parent], proof.branch ++ [hash]⟩
  | height + 1, pos, proof => do
      let parent ← parentOfMatch marks (pos * 2 ^ (height + 1))
        (min ((pos + 1) * 2 ^ (height + 1)) txids.length)
      let proof := { proof with bits := proof.bits ++ [parent] }
      if parent then
        let proof ← traverseBuild txids marks height (pos * 2) proof
        if pos * 2 + 1 < treeWidth txids.length height
          then traverseBuild txids marks height (pos * 2 + 1) proof else some proof
      else
        -- A subtree with no match stores its hash and stops.
        let hash ← calcHash nodeHash txids (height + 1) pos
        some { proof with branch := proof.branch ++ [hash] }

/-- `build_partial_merkle`: the flags and branch proving the marked txids. -/
def buildPartialMerkle (txids : List Digest) (marks : List Bool) :
    Option (List Byte × List Digest) := do
  let proof ← traverseBuild nodeHash txids marks (treeHeight txids.length) 0 ⟨[], []⟩
  some (bitsToBytes proof.bits, proof.branch)

/-- The references `traverse_extract` threads through its recursion. -/
structure Cursor (Digest : Type) where
  bit : Nat
  used : Nat
  matched : List Digest
  positions : List Nat
  bad : Bool
  deriving DecidableEq

namespace Cursor

/-- The cursor `extract_partial_merkle` starts from. -/
def start : Cursor Digest := ⟨0, 0, [], [], false⟩

def fail (cursor : Cursor Digest) : Cursor Digest := { cursor with bad := true }

def nextBit (cursor : Cursor Digest) : Cursor Digest := { cursor with bit := cursor.bit + 1 }

def nextHash (cursor : Cursor Digest) : Cursor Digest := { cursor with used := cursor.used + 1 }

/-- A set flag at a leaf is a matched txid. -/
def pushMatch (cursor : Cursor Digest) (hash : Digest) (pos : Nat) : Cursor Digest :=
  { cursor with matched := cursor.matched ++ [hash], positions := cursor.positions ++ [pos] }

/-- The check that existing siblings differ. -/
def distinct [DecidableEq Digest] (cursor : Cursor Digest) (left right : Digest) : Cursor Digest :=
  if right = left then cursor.fail else cursor

end Cursor

variable [DecidableEq Digest] [Inhabited Digest]

/-- `traverse_extract`: depth-first extract of the root and the matched leaves.
    The walk goes on after a failure, as in the source; only `bad` reports it. -/
def traverseExtract (txs : Nat) (bits : List Bool) (branch : List Digest) :
    Nat → Nat → Cursor Digest → Digest × Cursor Digest
  | 0, pos, cursor =>
      match bits[cursor.bit]? with
      | none => (default, cursor.fail)
      | some flag =>
          match branch[cursor.used]? with
          | none => (default, cursor.nextBit.fail)
          | some hash =>
              let cursor := cursor.nextBit.nextHash
              (hash, if flag then cursor.pushMatch hash pos else cursor)
  | height + 1, pos, cursor =>
      match bits[cursor.bit]? with
      | none => (default, cursor.fail)
      | some false =>
          match branch[cursor.used]? with
          | none => (default, cursor.nextBit.fail)
          | some hash => (hash, cursor.nextBit.nextHash)
      | some true =>
          let (left, cursor) := traverseExtract txs bits branch height (pos * 2) cursor.nextBit
          if pos * 2 + 1 < treeWidth txs height then
            let (right, cursor) := traverseExtract txs bits branch height (pos * 2 + 1) cursor
            (nodeHash left right, cursor.distinct left right)
          else (nodeHash left left, cursor)

/-- The outputs of a successful extract. -/
structure Extraction (Digest : Type) where
  root : Digest
  matched : List Digest
  positions : List Nat
  deriving DecidableEq

/-- `extract_partial_merkle`: `none` where the source returns false. -/
def extractPartialMerkle (txs : Nat) (flags : List Byte) (branch : List Digest) :
    Option (Extraction Digest) :=
  let bits := bytesToBits flags
  if txs = 0 ∨ txs < branch.length ∨ bits.length < branch.length then none
  else
    let (root, cursor) := traverseExtract nodeHash txs bits branch (treeHeight txs) 0 Cursor.start
    -- All hashes must be consumed, and all bits but the final byte padding.
    if !cursor.bad ∧ cursor.used = branch.length ∧
        toCeilingedBytes cursor.bit = toCeilingedBytes bits.length
      then some ⟨root, cursor.matched, cursor.positions⟩ else none

end LibbitcoinServer.Merkle

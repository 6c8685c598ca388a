import LibbitcoinServer.Lib.Greedy
import Mathlib.Tactic

/-! # Endorsements merged in key order

Scripts do not associate endorsements with their keys.  Each key in turn takes the first
endorsement left that verifies against it, until as many are merged as the script requires.
-/

namespace LibbitcoinServer.Utilities

/-! ## The code -/

abbrev Chunk := List UInt8

/-- An operation of a script, by its code or by the data that it pushes. -/
inductive Operation where
  | opcode (value : UInt8)
  | push (data : Chunk)
  deriving DecidableEq, Repr

def Operation.data : Operation → Chunk
  | .opcode _ => []
  | .push data => data

/-- A script is its operations. -/
abbrev Script := List Operation

def pushSize0 : Operation := .opcode 0

structure Point where
  hash : Chunk
  index : UInt32
  deriving DecidableEq

structure Output where
  value : UInt64
  script : Script
  deriving DecidableEq

structure Input where
  point : Point
  script : Script
  witness : List Chunk
  sequence : UInt32
  deriving DecidableEq

structure Transaction where
  version : UInt32
  inputs : List Input
  outputs : List Output
  locktime : UInt32
  deriving DecidableEq

inductive ScriptVersion where
  | unversioned
  | segwit
  deriving DecidableEq

/-- What the code takes from the system library. -/
structure Chain (Key Signature : Type) where
  /-- The number of endorsements that a script of multisig pattern requires, or zero. -/
  multisigRequired : Script → Nat
  multisigKeys : Script → List Key
  /-- The script of some bytes, without a length before them. -/
  fromData : Chunk → Script
  toData : Script → Chunk
  endorsements : Script → List Chunk
  /-- The script that an input script embeds for a script hash. -/
  extractSigopScript : Script → Script → Option Script
  isEndorsement : Chunk → Bool
  decodeSignature : Chunk → Option Signature
  checkSignature : Transaction → Signature → Key → Script → Nat → UInt64 → UInt8 →
    ScriptVersion → Bool

namespace Chain

variable {Key Signature : Type} (chain : Chain Key Signature) (tx : Transaction) (index : Nat)
  (value : UInt64) (subscript : Script) (version : ScriptVersion) (endorsements : List Chunk)

/-- Whether an endorsement is not empty, decodes less its last byte, and is a signature of
    the transaction by the key under the coverage in that byte. -/
def verifies (key : Key) (endorse : Chunk) : Bool :=
  if endorse = [] then false
  else
    match chain.decodeSignature endorse.dropLast with
    | none => false
    | some signature =>
        chain.checkSignature tx signature key subscript index value (endorse.getLastD 0) version

/-- The variables of the loop over the keys. -/
structure Merge where
  ops : List Operation
  used : List Nat

/-- The loop over the endorsements, left at the first that is unused and verifies. -/
def place (merge : Merge) (key : Key) : Merge :=
  let found := (List.range endorsements.length).find? fun sig =>
    !merge.used.contains sig &&
      chain.verifies tx index value subscript version key (endorsements.getD sig [])
  match found with
  | none => merge
  | some sig => ⟨merge.ops ++ [.push (endorsements.getD sig [])], sig :: merge.used⟩

def mergeKeys (complete : Nat) : List Key → Merge → Merge
  | [], merge => merge
  | key :: keys, merge =>
      if merge.ops.length = complete then merge
      else mergeKeys complete keys
        (chain.place tx index value subscript version endorsements merge key)

/-- The endorsements after the zero element that checking multisig consumes. -/
def mergeEndorsements : List Operation :=
  let complete := chain.multisigRequired subscript + 1
  (chain.mergeKeys tx index value subscript version endorsements complete
    (chain.multisigKeys subscript) ⟨[pushSize0], []⟩).ops

/-! ## The greedy assignment that it makes -/

/-- Seats are keys with their positions, offers the places of endorsements. -/
def suits (seat : Key × Nat) (sig : Nat) : Bool :=
  chain.verifies tx index value subscript version seat.1 (endorsements.getD sig [])

def assigned : List ((Key × Nat) × Nat) :=
  Greedy.assign (chain.suits tx index value subscript version endorsements)
    (chain.multisigKeys subscript).zipIdx (chain.multisigRequired subscript)
    (List.range endorsements.length)

/-- The places left are those not used. -/
def unused (merge : Merge) : List Nat :=
  (List.range endorsements.length).filter (!merge.used.contains ·)

theorem ops_mergeKeys {complete : Nat} {keys : List Key} (start : Nat) {merge : Merge}
    (room : merge.ops.length ≤ complete) :
    (chain.mergeKeys tx index value subscript version endorsements complete keys merge).ops =
      merge.ops ++ (Greedy.assign (chain.suits tx index value subscript version endorsements)
        (keys.zipIdx start) (complete - merge.ops.length) (unused endorsements merge)).map
          fun pair => .push (endorsements.getD pair.2 []) := by
  induction keys generalizing start merge with
  | nil => simp [mergeKeys, Greedy.assign]
  | cons key keys ih =>
      rw [mergeKeys, List.zipIdx_cons]
      by_cases full : merge.ops.length = complete
      · rw [if_pos full, full, Nat.sub_self, Greedy.assign_zero]
        simp
      · obtain ⟨limit, limit_eq⟩ := Nat.exists_eq_succ_of_ne_zero
          (show complete - merge.ops.length ≠ 0 by omega)
        have search : (unused endorsements merge).find?
              (chain.suits tx index value subscript version endorsements (key, start)) =
            (List.range endorsements.length).find? fun sig => !merge.used.contains sig &&
              chain.verifies tx index value subscript version key (endorsements.getD sig []) := by
          rw [unused, List.find?_filter]
          congr 1
          funext sig
          rw [Bool.decide_and, Bool.decide_eq_true, Bool.decide_eq_true, suits]
        rw [if_neg full, limit_eq, Nat.succ_eq_add_one, Greedy.assign, search, place]
        cases (List.range endorsements.length).find? fun sig => !merge.used.contains sig &&
            chain.verifies tx index value subscript version key (endorsements.getD sig []) with
        | none =>
            rw [ih (start + 1) room, limit_eq]
        | some sig =>
            have length : (merge.ops ++ [Operation.push (endorsements.getD sig [])]).length =
                merge.ops.length + 1 := List.length_append
            have remaining : complete - (merge.ops.length + 1) = limit := by omega
            have left : unused endorsements
                ⟨merge.ops ++ [.push (endorsements.getD sig [])], sig :: merge.used⟩ =
                  (unused endorsements merge).filter (· ≠ sig) := by
              unfold unused
              rw [List.filter_filter]
              apply List.filter_congr
              intro other _
              simp
            dsimp only
            rw [ih (start + 1) (by rw [length]; omega), length, remaining, left]
            simp

theorem mergeEndorsements_eq :
    chain.mergeEndorsements tx index value subscript version endorsements =
      pushSize0 :: (chain.assigned tx index value subscript version endorsements).map
        fun pair => .push (endorsements.getD pair.2 []) := by
  have unmerged : unused endorsements ⟨[pushSize0], []⟩ = List.range endorsements.length := by
    rw [unused, List.filter_eq_self]
    simp
  unfold mergeEndorsements assigned
  rw [chain.ops_mergeKeys tx index value subscript version endorsements 0 (by simp), unmerged]
  simp

/-! ## What is merged -/

/-- An endorsement verifies against the key at a position. -/
def VerifiesAt (position : Nat) (endorse : Chunk) : Prop :=
  ∃ key, (chain.multisigKeys subscript)[position]? = some key ∧
    chain.verifies tx index value subscript version key endorse = true

/-- Operations that push, after a zero, the endorsements at the places of some pairs, no
    more than required and no place twice, each verified by the key at its position, the
    positions ascending. -/
structure Merged (pairs : List (Nat × Nat)) (ops : List Operation) : Prop where
  ops : ops = pushSize0 :: pairs.map fun pair => .push (endorsements.getD pair.2 [])
  few : pairs.length ≤ chain.multisigRequired subscript
  ascending : (pairs.map Prod.fst).Pairwise (· < ·)
  single : (pairs.map Prod.snd).Nodup
  verified : ∀ pair ∈ pairs, ∃ endorse, endorsements[pair.2]? = some endorse ∧
    chain.VerifiesAt tx index value subscript version pair.1 endorse

/-- The positions of the keys that some endorsement verifies against. -/
def served : List Nat :=
  ((chain.multisigKeys subscript).zipIdx.filter fun seat =>
    endorsements.any (chain.verifies tx index value subscript version seat.1)).map Prod.snd

/-- The assignment by position and place alone. -/
def pairs : List (Nat × Nat) :=
  (chain.assigned tx index value subscript version endorsements).map fun pair =>
    (pair.1.2, pair.2)

theorem seats_assigned :
    ((chain.assigned tx index value subscript version endorsements).map Prod.fst).Sublist
      (chain.multisigKeys subscript).zipIdx := Greedy.assign_sublist

theorem stable_assigned :
    Greedy.Stable (chain.suits tx index value subscript version endorsements)
      (chain.assigned tx index value subscript version endorsements) :=
  Greedy.stable_assign List.pairwise_lt_range

theorem positions_pairs :
    (chain.pairs tx index value subscript version endorsements).map Prod.fst =
      ((chain.assigned tx index value subscript version endorsements).map Prod.fst).map
        Prod.snd := by
  rw [pairs, List.map_map, List.map_map]
  rfl

theorem merged_pairs :
    chain.Merged tx index value subscript version endorsements
      (chain.pairs tx index value subscript version endorsements)
      (chain.mergeEndorsements tx index value subscript version endorsements) where
  ops := by
    rw [mergeEndorsements_eq, pairs, List.map_map]
    rfl
  few := by
    rw [pairs, List.length_map]
    exact Greedy.length_assign_le
  ascending := by
    have part := (chain.seats_assigned tx index value subscript version endorsements).map Prod.snd
    rw [List.zipIdx_map_snd] at part
    rw [positions_pairs]
    exact List.Pairwise.sublist part List.pairwise_lt_range'
  single := by
    rw [pairs, List.map_map]
    exact (chain.stable_assigned tx index value subscript version endorsements).single
  verified := by
    intro pair member
    obtain ⟨seated, listed, rfl⟩ := List.mem_map.mp member
    have bound := List.mem_range.mp (Greedy.mem_offers_of_assign seated listed)
    have seat := (chain.seats_assigned tx index value subscript version endorsements).subset
      (List.mem_map_of_mem listed)
    have accepted := (chain.stable_assigned tx index value subscript version
      endorsements).accepted seated listed
    rw [suits, List.getD_eq_getElem?_getD, List.getElem?_eq_getElem bound] at accepted
    exact ⟨_, List.getElem?_eq_getElem bound, _, List.mem_zipIdx_iff_getElem?.mp seat, accepted⟩

/-! ## The largest seating -/

/-- Endorsements for keys at ascending positions, such that where an endorsement would do
    for an earlier position, the one there precedes it. -/
structure Seating (pairs : List (Nat × Nat)) : Prop where
  ascending : (pairs.map Prod.fst).Pairwise (· < ·)
  single : (pairs.map Prod.snd).Nodup
  verified : ∀ pair ∈ pairs, ∃ endorse, endorsements[pair.2]? = some endorse ∧
    chain.VerifiesAt tx index value subscript version pair.1 endorse
  ordered : pairs.Pairwise fun first second => ∀ endorse, endorsements[second.2]? = some endorse →
    chain.VerifiesAt tx index value subscript version first.1 endorse → first.2 < second.2

theorem suits_iff {key : Key} {position place : Nat} {endorse : Chunk}
    (here : (chain.multisigKeys subscript)[position]? = some key)
    (listed : endorsements[place]? = some endorse) :
    chain.suits tx index value subscript version endorsements (key, position) place = true ↔
      chain.VerifiesAt tx index value subscript version position endorse := by
  rw [suits, List.getD_eq_getElem?_getD, listed, Option.getD_some]
  constructor
  · intro verified
    exact ⟨key, here, verified⟩
  · intro ⟨other, there, verified⟩
    rw [here] at there
    cases there
    exact verified

/-- What is merged is such a seating. -/
theorem seating_pairs :
    chain.Seating tx index value subscript version endorsements
      (chain.pairs tx index value subscript version endorsements) where
  ascending := (chain.merged_pairs tx index value subscript version endorsements).ascending
  single := (chain.merged_pairs tx index value subscript version endorsements).single
  verified := (chain.merged_pairs tx index value subscript version endorsements).verified
  ordered := by
    have stable := chain.stable_assigned tx index value subscript version endorsements
    rw [pairs, List.pairwise_map]
    apply stable.ordered.imp_of_mem
    intro first second member _ ordered endorse listed verified
    have seat := (chain.seats_assigned tx index value subscript version endorsements).subset
      (List.mem_map_of_mem member)
    apply ordered
    exact (chain.suits_iff tx index value subscript version endorsements
      (List.mem_zipIdx_iff_getElem?.mp seat) listed).mpr verified

/-- The seats of a seating, with their keys. -/
theorem exists_seats {pairs : List (Nat × Nat)}
    (verified : ∀ pair ∈ pairs, ∃ endorse, endorsements[pair.2]? = some endorse ∧
      chain.VerifiesAt tx index value subscript version pair.1 endorse) :
    ∃ seats : List ((Key × Nat) × Nat), seats.map (fun seat => (seat.1.2, seat.2)) = pairs ∧
      ∀ seat ∈ seats, (chain.multisigKeys subscript)[seat.1.2]? = some seat.1.1 := by
  induction pairs with
  | nil => exact ⟨[], rfl, by simp⟩
  | cons pair pairs ih =>
      rw [List.forall_mem_cons] at verified
      obtain ⟨seats, seats_eq, keyed⟩ := ih verified.2
      obtain ⟨-, -, key, here, -⟩ := verified.1
      refine ⟨((key, pair.1), pair.2) :: seats, ?_, ?_⟩
      · rw [List.map_cons, seats_eq]
      · rw [List.forall_mem_cons]
        exact ⟨here, keyed⟩

/-- No seating serves more positions than are merged, up to what is required. -/
theorem length_le_pairs {pairs : List (Nat × Nat)}
    (seating : chain.Seating tx index value subscript version endorsements pairs) :
    min pairs.length (chain.multisigRequired subscript) ≤
      (chain.pairs tx index value subscript version endorsements).length := by
  obtain ⟨seats, rfl, keyed⟩ :=
    chain.exists_seats tx index value subscript version endorsements seating.verified
  have listed : ∀ seat ∈ seats, ∃ endorse, endorsements[seat.2]? = some endorse ∧
      chain.VerifiesAt tx index value subscript version seat.1.2 endorse := by
    intro seat member
    exact seating.verified _ (List.mem_map_of_mem (f := fun seat => (seat.1.2, seat.2)) member)
  have stable : Greedy.Stable (chain.suits tx index value subscript version endorsements)
      seats := by
    refine ⟨?_, ?_, ?_⟩
    · intro seat member
      obtain ⟨endorse, here, verified⟩ := listed seat member
      exact (chain.suits_iff tx index value subscript version endorsements (keyed seat member)
        here).mpr verified
    · have single := seating.single
      rwa [List.map_map] at single
    · have ordered := seating.ordered
      rw [List.pairwise_map] at ordered
      apply ordered.imp_of_mem
      intro first second firstMember secondMember before suited
      obtain ⟨endorse, here, -⟩ := listed second secondMember
      exact before endorse here ((chain.suits_iff tx index value subscript version endorsements
        (keyed first firstMember) here).mp suited)
  have ascending : (seats.map Prod.fst).Pairwise fun first second => first.2 < second.2 := by
    have positions := seating.ascending
    rw [List.map_map, List.pairwise_map] at positions
    rw [List.pairwise_map]
    exact positions
  have within : (seats.map Prod.fst).Sublist (chain.multisigKeys subscript).zipIdx := by
    have antisymmetric : Std.Antisymm fun first second : Key × Nat => first.2 < second.2 :=
      ⟨fun _ _ one two => absurd one two.asymm⟩
    have distinct : (seats.map Prod.fst).Nodup :=
      ascending.imp fun {_ _} below same => below.ne (congrArg Prod.snd same)
    apply List.sublist_of_subperm_of_pairwise (distinct.subperm _) ascending
    · have range := List.pairwise_lt_range' (s := 0) (n := (chain.multisigKeys subscript).length)
      rw [← List.zipIdx_map_snd, List.pairwise_map] at range
      exact range
    · intro seat member
      obtain ⟨pair, here, rfl⟩ := List.mem_map.mp member
      exact List.mem_zipIdx_iff_getElem?.mpr (keyed pair here)
  have offered : ∀ seat ∈ seats, seat.2 ∈ List.range endorsements.length := by
    intro seat member
    obtain ⟨endorse, here, -⟩ := listed seat member
    exact List.mem_range.mpr (List.getElem?_eq_some_iff.mp here).1
  rw [List.length_map, Chain.pairs, List.length_map]
  exact Greedy.length_le_assign List.pairwise_lt_range stable within offered

/-! ## The positions served -/

theorem any_suits (seat : Key × Nat) :
    (List.range endorsements.length).any
        (chain.suits tx index value subscript version endorsements seat) =
      endorsements.any (chain.verifies tx index value subscript version seat.1) := by
  have places : (List.range endorsements.length).map (endorsements.getD · []) = endorsements := by
    apply List.ext_getElem?
    intro place
    by_cases bound : place < endorsements.length
    · simp [bound]
    · simp [bound]
  have mapped := List.any_map (f := (endorsements.getD · [])) (l := List.range endorsements.length)
    (p := chain.verifies tx index value subscript version seat.1)
  rw [places] at mapped
  exact mapped.symm

/-- Where no endorsement verifies at two positions, the positions are the first of those
    served. -/
theorem positions_eq_served
    (unique : ∀ endorse ∈ endorsements, ∀ one two,
      chain.VerifiesAt tx index value subscript version one endorse →
      chain.VerifiesAt tx index value subscript version two endorse → one = two) :
    (chain.pairs tx index value subscript version endorsements).map Prod.fst =
      (chain.served tx index value subscript version endorsements).take
        (chain.multisigRequired subscript) := by
  have seated : (chain.multisigKeys subscript).zipIdx.Nodup := by
    apply List.Nodup.of_map Prod.snd
    rw [List.zipIdx_map_snd]
    exact List.nodup_range'
  have seats : (chain.assigned tx index value subscript version endorsements).map Prod.fst =
      ((chain.multisigKeys subscript).zipIdx.filter fun seat => (List.range
        endorsements.length).any (chain.suits tx index value subscript version endorsements
          seat)).take (chain.multisigRequired subscript) := by
    apply Greedy.assign_of_unique seated
    intro place offered one first two second verified also
    rw [List.mem_zipIdx_iff_getElem?] at first second
    have bound := List.mem_range.mp offered
    have listed : endorsements.getD place [] ∈ endorsements := by
      rw [List.getD_eq_getElem?_getD, List.getElem?_eq_getElem bound]
      exact List.getElem_mem bound
    have same := unique _ listed one.2 two.2 ⟨one.1, first, verified⟩ ⟨two.1, second, also⟩
    rw [same, second] at first
    exact Prod.ext (Option.some.inj first).symm same
  simp only [any_suits] at seats
  rw [positions_pairs, seats, served, List.map_take]

/-- The data of what is merged, in key order, the zero element apart. -/
theorem data_mergeEndorsements :
    ((chain.mergeEndorsements tx index value subscript version endorsements).map
      Operation.data).filter (· ≠ []) =
        (chain.pairs tx index value subscript version endorsements).map
          fun pair => endorsements.getD pair.2 [] := by
  have merged := chain.merged_pairs tx index value subscript version endorsements
  have present : ∀ pair ∈ chain.pairs tx index value subscript version endorsements,
      endorsements.getD pair.2 [] ≠ [] := by
    intro pair member empty
    obtain ⟨endorse, here, key, -, verified⟩ := merged.verified pair member
    rw [List.getD_eq_getElem?_getD, here, Option.getD_some] at empty
    simp [verifies, empty] at verified
  rw [merged.ops, List.map_cons, List.map_map,
    List.filter_cons_of_neg (by simp [pushSize0, Operation.data])]
  apply List.filter_eq_self.mpr
  intro data member
  obtain ⟨pair, listed, rfl⟩ := List.mem_map.mp member
  exact decide_eq_true (present pair listed)

/-- Whether a position is served depends only on which endorsements there are. -/
theorem served_congr {others : List Chunk} (same : ∀ endorse, endorse ∈ others ↔
    endorse ∈ endorsements) :
    chain.served tx index value subscript version others =
      chain.served tx index value subscript version endorsements := by
  unfold served
  congr 1
  apply List.filter_congr
  intro seat _
  rw [Bool.eq_iff_iff, List.any_eq_true, List.any_eq_true]
  simp only [same]

/-- Merging is right and complete: the endorsements merged verify in key order, and where
    none verifies at two positions they serve as many positions as can be, the same ones
    whatever the order of the endorsements and however often each is there. -/
theorem mergeEndorsements_valid :
    ∃ pairs, chain.Merged tx index value subscript version endorsements pairs
        (chain.mergeEndorsements tx index value subscript version endorsements) ∧
      ((∀ endorse ∈ endorsements, ∀ one two,
          chain.VerifiesAt tx index value subscript version one endorse →
          chain.VerifiesAt tx index value subscript version two endorse → one = two) →
        pairs.length = min (chain.multisigRequired subscript)
            (chain.served tx index value subscript version endorsements).length ∧
          ∀ others, (∀ endorse, endorse ∈ others ↔ endorse ∈ endorsements) →
            ∃ otherPairs, chain.Merged tx index value subscript version others otherPairs
                (chain.mergeEndorsements tx index value subscript version others) ∧
              otherPairs.map Prod.fst = pairs.map Prod.fst) := by
  refine ⟨_, chain.merged_pairs tx index value subscript version endorsements, ?_⟩
  intro unique
  have positions := chain.positions_eq_served tx index value subscript version endorsements unique
  constructor
  · have length := congrArg List.length positions
    rwa [List.length_map, List.length_take] at length
  · intro others same
    refine ⟨_, chain.merged_pairs tx index value subscript version others, ?_⟩
    rw [positions, chain.positions_eq_served tx index value subscript version others,
      served_congr chain tx index value subscript version endorsements same]
    intro endorse member
    exact unique endorse ((same endorse).mp member)

/-- Two keys of three, each with signatures of its own byte. -/
private def twoOfThree : Chain UInt8 UInt8 where
  multisigRequired _ := 2
  multisigKeys _ := [1, 2, 3]
  fromData _ := []
  toData _ := []
  endorsements _ := []
  extractSigopScript _ _ := none
  isEndorsement _ := true
  decodeSignature der := der.head?
  checkSignature _ signature key _ _ _ _ _ := signature = key

private theorem signer_of_twoOfThree {tx : Transaction} {position : Nat} {endorse : Chunk}
    (verified : twoOfThree.VerifiesAt tx 0 0 [] .segwit position endorse) :
    ([1, 2, 3] : List UInt8)[position]? = endorse.dropLast.head? := by
  obtain ⟨key, here, verified⟩ := verified
  unfold verifies at verified
  split_ifs at verified
  cases decoded : twoOfThree.decodeSignature endorse.dropLast with
  | none =>
      rw [decoded] at verified
      cases verified
  | some signature =>
      rw [decoded] at verified
      have signer : signature = key := of_decide_eq_true verified
      exact here.trans (signer ▸ decoded.symm)

/-- The endorsements of the last key and of the first are merged, whatever their order. -/
theorem mergeEndorsements_valid_two :
    let merge := twoOfThree.mergeEndorsements ⟨1, [], [], 0⟩ 0 0 [] .segwit
    let merged := twoOfThree.Merged ⟨1, [], [], 0⟩ 0 0 [] .segwit
    ∃ pairs, merged [[3, 1], [1, 1]] pairs (merge [[3, 1], [1, 1]]) ∧ pairs.length = 2 ∧
      ∀ others : List Chunk, (∀ endorse, endorse ∈ others ↔ endorse ∈ [[3, 1], [1, 1]]) →
        ∃ otherPairs, merged others otherPairs (merge others) ∧
          otherPairs.map Prod.fst = pairs.map Prod.fst := by
  intro merge merged
  obtain ⟨pairs, valid, unique⟩ :=
    twoOfThree.mergeEndorsements_valid ⟨1, [], [], 0⟩ 0 0 [] .segwit [[3, 1], [1, 1]]
  have both := unique (by
    intro endorse member one two first second
    have same := (signer_of_twoOfThree first).trans (signer_of_twoOfThree second).symm
    obtain ⟨key, here, -⟩ := first
    have bound := (List.getElem?_eq_some_iff.mp here).1
    exact (List.getElem?_inj bound (by decide)).mp same)
  refine ⟨pairs, valid, ?_, both.2⟩
  rw [both.1]
  decide +kernel

end Chain

end LibbitcoinServer.Utilities

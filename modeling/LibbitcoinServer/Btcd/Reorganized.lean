import LibbitcoinServer.Lib.Run
import LibbitcoinServer.Btcd.Matching

/-! # Matching across a reorganization

Each event runs against the chain that it tells of.  A disconnection makes an address
watch read its history again, but an outpoint watch keeps the spenders that it has
seen: one that comes back at its old place is taken for known.
-/

namespace LibbitcoinServer.Btcd

variable {Digest : Type} [LinearOrder Digest]

/-- A channel that keeps up with the chain, with the blocks that were disconnected and
    the chain that each outpoint watch has last read. -/
structure Follower (Digest : Type) [LinearOrder Digest] where
  chain : Chain Digest
  protocol : ProtocolBtcd Digest
  disconnected : List (Nat × Block Digest)
  read : Point Digest → Chain Digest
  stopped : Bool

inductive Turn (Digest : Type) where
  | connect (archive : BlockArchive Digest) (block : Block Digest)
  | disconnect (archive : BlockArchive Digest)
  | loadTxFilter (archive : BlockArchive Digest) (reload : Bool) (keys : List Digest)
      (points : List (Point Digest))
  | notifyReceived (archive : BlockArchive Digest) (keys : List Digest)
  | stopNotifyReceived (keys : List Digest)
  | notifySpent (points : List (Point Digest))
  | stopNotifySpent (points : List (Point Digest))

namespace Follower

variable (options : Options)

def start (chain : Chain Digest) : Follower Digest :=
  ⟨chain, ProtocolBtcd.initial.handleNotifyBlocks, [], fun _ => chain, false⟩

/-- The run of `do_connected` for a block on top of the chain. -/
def connecting (follower : Follower Digest) (archive : BlockArchive Digest) :
    ProtocolBtcd Digest × List (Post Digest) :=
  follower.protocol.doConnected options archive (fun _ => false) (follower.chain.top + 1)

/-- What the client is sent when a block is connected. -/
def notified (follower : Follower Digest) (archive : BlockArchive Digest) :
    List (Notification Digest) :=
  (follower.connecting options archive).2.flatMap (follower.connecting options archive).1.notify

def act (follower : Follower Digest) : Turn Digest → Follower Digest
  | .connect archive block =>
      if fresh : Distinct (follower.chain.blocks ++ [block]) then
        { follower with
          chain := follower.chain.extend block fresh
          protocol := (follower.connecting options archive).1
          read := fun _ => follower.chain.extend block fresh
          stopped := (follower.connecting options archive).2.any Post.overflows }
      else follower
  | .disconnect archive =>
      match follower.chain.above.getLast? with
      | none => follower
      | some block =>
          { follower with
            chain := follower.chain.shorten
            protocol := (follower.protocol.doDisconnected archive follower.chain.top).1
            disconnected := follower.disconnected ++ [(follower.chain.top, block)] }
  | .loadTxFilter archive reload keys points =>
      let before := follower.protocol.reloaded reload
      { follower with
        protocol := (follower.protocol.doLoadTxFilter options archive.toArchive (fun _ => false)
          reload keys points).1
        read := fun prevout => if (before.outpointWatches.find? prevout).isSome
          then follower.read prevout else follower.chain }
  | .notifyReceived archive keys =>
      { follower with
        protocol := (follower.protocol.doNotifyReceived options archive.toArchive
          (fun _ => false) keys).1 }
  | .stopNotifyReceived keys =>
      { follower with protocol := follower.protocol.doStopNotifyReceived keys }
  | .notifySpent points =>
      { follower with
        protocol := (follower.protocol.doNotifySpent options (fun _ => false) points).1 }
  | .stopNotifySpent points =>
      { follower with protocol := follower.protocol.doStopNotifySpent points }

/-- A stopped channel takes no step. -/
def step (follower : Follower Digest) (turn : Turn Digest) : Follower Digest :=
  if follower.stopped then follower else follower.act options turn

/-- The archive that a step reads depicts the chain of its event. -/
def Reads (follower : Follower Digest) : Turn Digest → Prop
  | .connect archive block => ∀ fresh : Distinct (follower.chain.blocks ++ [block]),
      archive.Depicts (follower.chain.extend block fresh)
  | .loadTxFilter archive _ _ _ => archive.Depicts follower.chain
  | _ => True

/-- The block holds no spender of a watched outpoint where the watch has last read it:
    the block that it replaces there, if any, has no spender at the same position. -/
def Unrepeated (follower : Follower Digest) : Turn Digest → Prop
  | .connect _ block => ∀ prevout watch position tx,
      follower.protocol.outpointWatches.find? prevout = some watch →
        block[position]? = some tx → tx.Spends prevout →
          ¬∃ old, (follower.read prevout).At (follower.chain.top + 1) position old ∧
            old.hash = tx.hash
  | _ => True

/-- The notification of a connected block holds the transactions of the blocks that it
    replaces at its height, for a watch of an outpoint they spend as for a watch of the
    spent script. -/
def Renotified (follower : Follower Digest) : Turn Digest → Prop
  | .connect archive block => follower.stopped = false →
      Distinct (follower.chain.blocks ++ [block]) →
      (follower.connecting options archive).2.any Post.overflows = false →
      ∃ header txs, .filteredblockconnected (follower.chain.top + 1) header txs ∈
          follower.notified options archive ∧
        ∀ tx ∈ block,
          (∃ replaced, (follower.chain.top + 1, replaced) ∈ follower.disconnected ∧
            tx ∈ replaced) →
          ∀ input ∈ tx.inputs,
            ((follower.protocol.outpointWatches.find? input.prevout).isSome → tx ∈ txs) ∧
            ((follower.protocol.addressWatches.find? input.script).isSome → tx ∈ txs)
  | _ => True

/-- No address watch has read past the chain, and what an outpoint watch has seen stands
    in the chain that it has last read. -/
structure Fresh (follower : Follower Digest) : Prop where
  subscribed : follower.protocol.subscribedBlocks = true
  addresses : ∀ key watch, follower.protocol.addressWatches.find? key = some watch →
    ∀ passed, watch.cursor = some passed → passed ≤ follower.chain.top
  outpoints : ∀ prevout watch, follower.protocol.outpointWatches.find? prevout = some watch →
    ∀ entry ∈ watch.spenders, entry.confirmed →
      ∃ tx, (follower.read prevout).At entry.height entry.position tx ∧ tx.hash = entry.hash

variable {options} {follower : Follower Digest} {archive : BlockArchive Digest}

theorem start_fresh (chain : Chain Digest) : (start chain).Fresh where
  subscribed := rfl
  addresses _ _ found := by cases found
  outpoints _ _ found := by cases found

section Connect

variable {block : Block Digest} {fresh : Distinct (follower.chain.blocks ++ [block])}

/-- The outcome of `do_connected` on the chain with the block. -/
theorem connecting_cases (depicts : archive.Depicts (follower.chain.extend block fresh)) :
    Connected archive (follower.chain.extend block fresh) (follower.chain.top + 1)
      follower.protocol (follower.connecting options archive) :=
  doConnected_cases depicts Chain.top_extend.ge follower.protocol

theorem connecting_swept (depicts : archive.Depicts (follower.chain.extend block fresh)) :
    Swept archive (follower.chain.extend block fresh) follower.protocol
      (follower.connecting options archive).1 := by
  have outcome : Connected archive _ _ _ (follower.connecting options archive) :=
    connecting_cases depicts
  generalize follower.connecting options archive = result at outcome ⊢
  cases outcome with
  | overflowed swept => exact swept
  | notified swept matched => exact swept

theorem Fresh.connect (inside : follower.Fresh)
    (depicts : archive.Depicts (follower.chain.extend block fresh)) :
    { follower with
      chain := follower.chain.extend block fresh
      protocol := (follower.connecting options archive).1
      read := fun _ => follower.chain.extend block fresh
      stopped := (follower.connecting options archive).2.any Post.overflows }.Fresh := by
  have swept : Swept archive (follower.chain.extend block fresh) follower.protocol
      (follower.connecting options archive).1 := connecting_swept depicts
  exact
    { subscribed := swept.subscribed.trans inside.subscribed
      addresses := by
        intro key watch found passed cursor
        obtain ⟨current, -⟩ := swept.addresses key watch found
        exact (Option.some.inj (cursor.symm.trans current)).le
      outpoints := by
        intro prevout watch found entry member confirmed
        obtain ⟨current, -⟩ := swept.outpoints prevout watch found
        rw [current] at member
        obtain ⟨tx, stands, same, -⟩ :=
          (depicts.spenders _ _ _ _).mp ⟨entry, member, confirmed, rfl, rfl, rfl⟩
        exact ⟨tx, stands, same⟩ }

theorem Fresh.renotified (inside : follower.Fresh)
    (reads : follower.Reads (.connect archive block))
    (unrepeated : follower.Unrepeated (.connect archive block)) :
    follower.Renotified options (.connect archive block) := by
  intro _ fresh kept
  have outcome : Connected archive _ _ _ (follower.connecting options archive) :=
    connecting_cases (reads fresh)
  rw [notified]
  generalize follower.connecting options archive = result at outcome kept ⊢
  cases outcome with
  | overflowed swept => cases kept
  | @notified next header txs received redeemed swept matched =>
      have subscribed : next.subscribedBlocks = true := swept.subscribed.trans inside.subscribed
      refine ⟨header, txs, by simp [ProtocolBtcd.notify, subscribed], ?_⟩
      intro tx member _ input spent
      obtain ⟨position, here⟩ := List.mem_iff_getElem?.mp member
      have stands : (follower.chain.extend block fresh).At (follower.chain.top + 1) position tx :=
        Chain.at_extend here
      constructor
      · intro watched
        obtain ⟨watch, found⟩ := Option.isSome_iff_exists.mp watched
        have spends : tx.Spends input.prevout := List.mem_map_of_mem spent
        refine matched.spending input.prevout watch position tx found ?_ stands spends
        rintro ⟨entry, seen, confirmed, level, place, same⟩
        obtain ⟨old, stood, hashed⟩ :=
          inside.outpoints input.prevout watch found entry seen confirmed
        refine unrepeated input.prevout watch position tx found here spends ⟨old, ?_, ?_⟩
        · rw [← level, ← place]
          exact stood
        · exact hashed.trans same
      · intro watched
        obtain ⟨watch, found⟩ := Option.isSome_iff_exists.mp watched
        refine matched.touching input.script watch position tx found ?_ stands
          (.inr (List.mem_map_of_mem spent))
        intro passed cursor
        exact Nat.lt_succ_of_le (inside.addresses input.script watch found passed cursor)

end Connect

/-- A disconnection takes every address watch back to the start of its history. -/
theorem Fresh.disconnect (inside : follower.Fresh) (block : Block Digest) :
    { follower with
      chain := follower.chain.shorten
      protocol := (follower.protocol.doDisconnected archive follower.chain.top).1
      disconnected := follower.disconnected ++ [(follower.chain.top, block)] }.Fresh := by
  have reset : ∃ receives, (follower.protocol.doDisconnected archive follower.chain.top).1 =
      { follower.protocol with
        addressWatches := follower.protocol.addressWatches.mapValues fun _ => ⟨none⟩
        receiveWatches := receives } := by
    unfold ProtocolBtcd.doDisconnected
    dsimp only
    split <;> exact ⟨_, rfl⟩
  obtain ⟨receives, same⟩ := reset
  rw [same]
  exact
    { subscribed := inside.subscribed
      addresses := by
        intro key watch found passed cursor
        rw [OrderedMap.find?_mapValues, Option.map_eq_some_iff] at found
        obtain ⟨old, -, rfl⟩ := found
        cases cursor
      outpoints := inside.outpoints }

theorem Fresh.load (inside : follower.Fresh) {reload : Bool} {next : ProtocolBtcd Digest}
    (depicts : archive.Depicts follower.chain)
    (load : Loaded archive follower.chain (follower.protocol.reloaded reload) next) :
    { follower with
      protocol := next
      read := fun prevout =>
        if ((follower.protocol.reloaded reload).outpointWatches.find? prevout).isSome
        then follower.read prevout else follower.chain }.Fresh where
  subscribed := by
    refine load.subscribed.trans ?_
    cases reload <;> exact inside.subscribed
  addresses key watch found passed cursor := by
    cases load.addresses.of_find? found with
    | inl kept =>
        cases reload with
        | false => exact inside.addresses key watch kept passed cursor
        | true => cases kept
    | inr added => exact (Option.some.inj (cursor.symm.trans added.2)).le
  outpoints prevout watch found entry member confirmed := by
    cases load.outpoints.of_find? found with
    | inl kept =>
        simp only [kept, Option.isSome_some, if_true]
        cases reload with
        | false => exact inside.outpoints prevout watch kept entry member confirmed
        | true => cases kept
    | inr added =>
        simp only [added.1, Option.isSome_none, Bool.false_eq_true, if_false]
        rw [added.2] at member
        obtain ⟨tx, stands, same, -⟩ :=
          (depicts.spenders _ _ _ _).mp ⟨entry, member, confirmed, rfl, rfl, rfl⟩
        exact ⟨tx, stands, same⟩

theorem Fresh.legacy (inside : follower.Fresh) {next : ProtocolBtcd Digest}
    (same : SameFilter follower.protocol next) : { follower with protocol := next }.Fresh where
  subscribed := same.subscribed.trans inside.subscribed
  addresses key watch found := by
    rw [same.addresses] at found
    exact inside.addresses key watch found
  outpoints prevout watch found := by
    rw [same.outpoints] at found
    exact inside.outpoints prevout watch found

theorem step_fresh (turn : Turn Digest) (inside : follower.Fresh) (reads : follower.Reads turn) :
    (follower.step options turn).Fresh := by
  rw [step]
  split_ifs
  · exact inside
  · cases turn with
    | connect archive block =>
        dsimp only [act]
        split_ifs with fresh
        · exact inside.connect (reads fresh)
        · exact inside
    | disconnect archive =>
        dsimp only [act]
        cases follower.chain.above.getLast? with
        | none => exact inside
        | some block => exact inside.disconnect block
    | loadTxFilter archive reload keys points =>
        exact inside.load reads (doLoadTxFilter_loaded reads _ reload keys points _)
    | notifyReceived archive keys => exact inside.legacy (doNotifyReceived_same _ _ _ _)
    | stopNotifyReceived keys => exact inside.legacy (doStopNotifyReceived_same _ _)
    | notifySpent points => exact inside.legacy (doNotifySpent_same _ _ _)
    | stopNotifySpent points => exact inside.legacy (doStopNotifySpent_same _ _)

/-- In a run whose blocks repeat no spender that its watch has read there, both kinds
    of watch report the transactions of the replaced blocks. -/
theorem reconnected_renotified (options : Options) (chain : Chain Digest)
    (turns : List (Turn Digest))
    (reads : ∀ visit ∈ Run.steps (step options) (start chain) turns, visit.1.Reads visit.2)
    (unrepeated : ∀ visit ∈ Run.steps (step options) (start chain) turns,
      visit.1.Unrepeated visit.2) :
    ∀ visit ∈ Run.steps (step options) (start chain) turns,
      visit.1.Renotified options visit.2 := by
  intro visit member
  have inside : visit.1.Fresh := Run.invariant_steps Fresh Reads
    (fun follower turn inside reads => step_fresh turn inside reads) (start_fresh chain) reads
    visit member
  obtain ⟨follower, turn⟩ := visit
  cases turn with
  | connect archive block =>
      exact inside.renotified (reads _ member) (unrepeated _ member)
  | _ => trivial

section Replaced

def coinbase : Transaction Nat := ⟨1, [], [5]⟩

def spender : Transaction Nat := ⟨2, [⟨toLex (9, 0), 8⟩], []⟩

theorem root_distinct : Distinct [([] : Block Nat)] := by decide

def rootChain : Chain Nat := ⟨[], [], root_distinct⟩

def chainWith (block : Block Nat) (fresh : Distinct ([[]] ++ [block])) : Chain Nat :=
  ⟨[], [block], fresh⟩

def archived (chain : Chain Nat) : BlockArchive Nat := chain.archive fun height => ⟨height, 0⟩

def replacedChain : Chain Nat := chainWith [spender] (by decide)

/-- A spender is confirmed, and again in the block that replaces its block. -/
def replacing (block : Block Nat) (fresh : Distinct ([[]] ++ [block])) : List (Turn Nat) :=
  [.loadTxFilter (archived rootChain) true [] [toLex (9, 0)],
    .connect (archived replacedChain) [spender], .disconnect (archived rootChain),
    .connect (archived (chainWith block fresh)) block]

theorem replacing_reads (block : Block Nat) (fresh : Distinct ([[]] ++ [block])) :
    ∀ visit ∈ Run.steps (step ⟨10, 100⟩) (start rootChain) (replacing block fresh),
      visit.1.Reads visit.2 := by
  intro visit member
  simp only [replacing, Run.steps, List.mem_cons, List.not_mem_nil, or_false] at member
  rcases member with rfl | rfl | rfl | rfl
  · exact rootChain.archive_depicts _
  · intro _
    exact replacedChain.archive_depicts _
  · trivial
  · intro _
    exact (chainWith block fresh).archive_depicts _

/-- The replacing block with the spender at another position. -/
def moved : Block Nat := [coinbase, spender]

theorem moved_distinct : Distinct ([[]] ++ [moved]) := by decide

theorem moved_unrepeated :
    ∀ visit ∈ Run.steps (step ⟨10, 100⟩) (start rootChain) (replacing moved moved_distinct),
      visit.1.Unrepeated visit.2 := by
  intro visit member
  simp only [replacing, Run.steps, List.mem_cons, List.not_mem_nil, or_false] at member
  rcases member with rfl | rfl | rfl | rfl
  · trivial
  · intro prevout watch position tx _ _ _ repeated
    obtain ⟨old, stood, -⟩ := repeated
    have unread : (if ((ProtocolBtcd.initial.handleNotifyBlocks.reloaded true).outpointWatches.find?
        prevout).isSome then rootChain else rootChain).At 1 position old := stood
    rw [ite_self] at unread
    exact absurd unread.le_top (by decide)
  · trivial
  · intro prevout watch position tx _ here spends repeated
    obtain ⟨old, ⟨block, level, stood⟩, -⟩ := repeated
    obtain rfl : [spender] = block := Option.some.inj level
    rcases position with _ | _ | place
    · obtain rfl : coinbase = tx := Option.some.inj here
      cases spends
    · cases stood
    · cases here

/-- The spender is notified again with the block that replaces its block. -/
theorem reconnected_renotified_moved :
    ∃ header txs, .filteredblockconnected 1 header txs ∈
        (Run.final (step ⟨10, 100⟩) (start rootChain) ((replacing moved moved_distinct).take
          3)).notified ⟨10, 100⟩ (archived (chainWith moved moved_distinct)) ∧ spender ∈ txs := by
  have renotified := reconnected_renotified ⟨10, 100⟩ rootChain (replacing moved moved_distinct)
    (replacing_reads moved moved_distinct) moved_unrepeated
    (Run.final (step ⟨10, 100⟩) (start rootChain) ((replacing moved moved_distinct).take 3),
      .connect (archived (chainWith moved moved_distinct)) moved)
    (by simp [replacing, Run.steps, Run.final])
  obtain ⟨header, txs, sent, covered⟩ := renotified (by decide +kernel) (by decide +kernel)
    (by decide +kernel)
  refine ⟨header, txs, sent, ?_⟩
  exact (covered spender (by decide) ⟨[spender], by decide +kernel, by decide⟩
    ⟨toLex (9, 0), 8⟩ (by decide)).1 (by decide +kernel)

/-- A spender that comes back at its old position is missing from the notification. -/
theorem reconnected_unnotified :
    ¬∀ (options : Options) (chain : Chain Nat) (turns : List (Turn Nat)),
      (∀ visit ∈ Run.steps (step options) (start chain) turns, visit.1.Reads visit.2) →
        ∀ visit ∈ Run.steps (step options) (start chain) turns,
          visit.1.Renotified options visit.2 := by
  intro all
  have renotified := all ⟨10, 100⟩ rootChain (replacing [spender] (by decide))
    (replacing_reads [spender] (by decide))
    (Run.final (step ⟨10, 100⟩) (start rootChain) ((replacing [spender] (by decide)).take 3),
      .connect (archived replacedChain) [spender])
    (by simp [replacing, Run.steps, Run.final, replacedChain])
  obtain ⟨header, txs, sent, covered⟩ := renotified (by decide +kernel) (by decide +kernel)
    (by decide +kernel)
  have listed := (covered spender (by decide) ⟨[spender], by decide +kernel, by decide⟩
    ⟨toLex (9, 0), 8⟩ (by decide)).1 (by decide +kernel)
  have bare : (Run.final (step ⟨10, 100⟩) (start rootChain)
      ((replacing [spender] (by decide)).take 3)).notified ⟨10, 100⟩ (archived replacedChain) =
        [.blockconnected 1 1 0, .filteredblockconnected 1 ⟨1, 0⟩ []] := by decide +kernel
  rw [bare] at sent
  obtain ⟨-, -, rfl⟩ : _ ∧ header = ⟨1, 0⟩ ∧ txs = [] := by simpa using sent
  cases listed

end Replaced

end Follower

end LibbitcoinServer.Btcd

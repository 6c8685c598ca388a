import LibbitcoinServer.Lib.Run
import LibbitcoinServer.Btcd.Matching

/-! # The watch budget and the legacy gate

Every handler that adds a watch asks for room first, also where a matched receive arms
a spent watch, so the four maps stay within one budget.  The gate of the legacy events
is open while there is a legacy watch.
-/

namespace LibbitcoinServer.Btcd

variable {Digest : Type} [LinearOrder Digest]

/-- A handler of the notification strand, with the answers it gets and the moments at
    which it is stopped. -/
inductive Operation (Digest : Type) where
  | loadTxFilter (archive : Archive Digest) (stopping : Moment Digest → Bool) (reload : Bool)
      (keys : List Digest) (points : List (Point Digest))
  | notifyReceived (archive : Archive Digest) (stopping : Moment Digest → Bool)
      (keys : List Digest)
  | stopNotifyReceived (keys : List Digest)
  | notifySpent (stopping : Moment Digest → Bool) (points : List (Point Digest))
  | stopNotifySpent (points : List (Point Digest))
  | connected (archive : BlockArchive Digest) (stopping : Moment Digest → Bool) (link : Nat)
  | disconnected (archive : BlockArchive Digest) (link : Nat)

namespace ProtocolBtcd

variable (options : Options)

def operate (self : ProtocolBtcd Digest) : Operation Digest → ProtocolBtcd Digest
  | .loadTxFilter archive stopping reload keys points =>
      (self.doLoadTxFilter options archive stopping reload keys points).1
  | .notifyReceived archive stopping keys =>
      (self.doNotifyReceived options archive stopping keys).1
  | .stopNotifyReceived keys => self.doStopNotifyReceived keys
  | .notifySpent stopping points => (self.doNotifySpent options stopping points).1
  | .stopNotifySpent points => self.doStopNotifySpent points
  | .connected archive stopping link => (self.doConnected options archive stopping link).1
  | .disconnected archive link => (self.doDisconnected archive link).1

/-- The watches are within the budget, and the gate is open while a legacy watch is
    armed. -/
structure Kept (protocol : ProtocolBtcd Digest) : Prop where
  within : protocol.watchCount ≤ options.maximumFilters
  armed : 0 < protocol.receiveWatches.size ∨ 0 < protocol.spentWatches.size →
    protocol.watchingLegacy = true

variable {options} {self next : ProtocolBtcd Digest}

theorem watchCount_eq (self : ProtocolBtcd Digest) : self.watchCount =
    min (self.addressWatches.size + self.outpointWatches.size + self.receiveWatches.size +
      self.spentWatches.size) maxSize := by
  simp only [watchCount, ceilingedAdd]
  omega

theorem initial_kept : (initial : ProtocolBtcd Digest).Kept options where
  within := Nat.zero_le _
  armed legacy := by simp [initial] at legacy

/-- No map has grown, and the gate is as it was. -/
theorem Kept.fewer (kept : self.Kept options)
    (addresses : next.addressWatches.size ≤ self.addressWatches.size)
    (outpoints : next.outpointWatches.size ≤ self.outpointWatches.size)
    (receives : next.receiveWatches.size ≤ self.receiveWatches.size)
    (spents : next.spentWatches.size ≤ self.spentWatches.size)
    (gate : next.watchingLegacy = self.watchingLegacy) : next.Kept options where
  within := by
    have within := kept.within
    rw [watchCount_eq] at within ⊢
    omega
  armed legacy := by
    rw [gate]
    apply kept.armed
    omega

/-- One watch is added where there is room. -/
theorem Kept.more (kept : self.Kept options) (room : self.watchCount < options.maximumFilters)
    (total : next.addressWatches.size + next.outpointWatches.size + next.receiveWatches.size +
      next.spentWatches.size ≤ self.addressWatches.size + self.outpointWatches.size +
        self.receiveWatches.size + self.spentWatches.size + 1)
    (armed : 0 < next.receiveWatches.size ∨ 0 < next.spentWatches.size →
      next.watchingLegacy = true) : next.Kept options where
  within := by
    have within := kept.within
    rw [watchCount_eq] at room within ⊢
    omega
  armed := armed

theorem reloaded_kept (reload : Bool) (kept : self.Kept options) :
    (self.reloaded reload).Kept options := by
  cases reload with
  | false => exact kept
  | true => exact kept.fewer (Nat.zero_le _) (Nat.zero_le _) le_rfl le_rfl rfl

theorem loadKey_kept (archive : Archive Digest) (key : Digest) (self : ProtocolBtcd Digest)
    (room : self.watchCount < options.maximumFilters) (kept : self.Kept options) :
    (self.loadKey options archive key).1.Kept options := by
  rw [loadKey]
  split_ifs
  · exact kept
  · refine kept.more room ?_ kept.armed
    have grown := self.addressWatches.size_tryEmplace_le key (primed options archive key).1
    dsimp only
    omega

theorem loadPoint_kept (archive : Archive Digest) (prevout : Point Digest)
    (self : ProtocolBtcd Digest) (room : self.watchCount < options.maximumFilters)
    (kept : self.Kept options) : (self.loadPoint archive prevout).1.Kept options := by
  refine kept.more room ?_ kept.armed
  have grown := self.outpointWatches.size_tryEmplace_le prevout
    ⟨archive.getSpendersHistory prevout⟩
  dsimp only [loadPoint]
  omega

theorem receiveKey_kept (archive : Archive Digest) (key : Digest) (self : ProtocolBtcd Digest)
    (room : self.watchCount < options.maximumFilters) (kept : self.Kept options) :
    (self.receiveKey options archive key).1.Kept options := by
  rw [receiveKey]
  split_ifs
  · exact kept
  · refine kept.more room ?_ fun _ => rfl
    have grown := self.receiveWatches.size_tryEmplace_le key (primed options archive key).1
    dsimp only
    omega

theorem spentPoint_kept (prevout : Point Digest) (self : ProtocolBtcd Digest)
    (room : self.watchCount < options.maximumFilters) (kept : self.Kept options) :
    (self.spentPoint prevout).1.Kept options := by
  rw [spentPoint]
  split_ifs
  · exact kept
  · refine kept.more room ?_ fun _ => rfl
    have grown := self.spentWatches.size_tryEmplace_le prevout ⟨[]⟩
    dsimp only
    omega

theorem gated_kept (kept : self.Kept options) : self.gated.Kept options := by
  rw [gated]
  split_ifs with bare
  · refine ⟨kept.within, fun legacy => ?_⟩
    dsimp only at legacy
    omega
  · exact kept

section Connected

variable {archive : BlockArchive Digest} {stopping : Moment Digest → Bool}
  {header : Header Digest} {height : Nat} {heights : List Nat}

theorem matchFilters_kept (kept : self.Kept options) :
    (self.matchFilters options archive stopping height heights).1.Kept options := by
  unfold matchFilters
  dsimp only
  split_ifs
  · exact kept.fewer OrderedMap.size_sweep.le OrderedMap.size_sweep.le le_rfl le_rfl rfl
  · exact kept.fewer OrderedMap.size_sweep.le OrderedMap.size_sweep.le le_rfl le_rfl rfl
  · exact kept.fewer OrderedMap.size_sweep.le le_rfl le_rfl le_rfl rfl

/-- An output is armed only under a receive watch, which holds the gate open. -/
theorem armOutputs_kept {hash : Digest} {outputs : List Digest} {index : Nat} {paid : Bool}
    (kept : self.Kept options) :
    (self.armOutputs options hash index outputs paid).1.Kept options := by
  induction outputs generalizing index paid self with
  | nil => exact kept
  | cons script rest ih =>
      rw [armOutputs]
      split_ifs with watched full
      · exact kept
      · obtain ⟨watch, present⟩ := Option.isSome_iff_exists.mp watched
        apply ih
        refine kept.more (not_le.mp full) ?_ fun _ =>
          kept.armed (.inl (OrderedMap.size_pos_of_find? present))
        have grown := self.spentWatches.size_tryEmplace_le (toLex (hash, index)) ⟨[]⟩
        dsimp only
        omega
      · exact ih kept

theorem receiveMatched_kept {entries : List (Nat × Digest)} (kept : self.Kept options) :
    (self.receiveMatched options archive header height entries).1.Kept options := by
  induction entries generalizing self with
  | nil => exact kept
  | cons entry rest ih =>
      obtain ⟨position, hash⟩ := entry
      rw [receiveMatched]
      cases archive.getTransaction hash with
      | none => exact ih kept
      | some tx =>
          have armed : (self.armSpentWatches options tx hash).1.Kept options :=
            armOutputs_kept kept
          dsimp only
          generalize self.armSpentWatches options tx hash = result at armed ⊢
          obtain ⟨next, fault | paid⟩ := result
          · exact armed
          · have later := ih armed
            dsimp only
            generalize next.receiveMatched options archive header height rest = result at later ⊢
            obtain ⟨last, fault | notices⟩ := result <;> exact later

theorem matchReceives_kept (kept : self.Kept options) :
    (self.matchReceives options archive stopping header height heights).1.Kept options := by
  have swept : { self with receiveWatches := (self.receiveWatches.sweep (visitAddress options
      archive (fun key => stopping (.matchReceive key)) heights)).1 }.Kept options :=
    kept.fewer le_rfl le_rfl OrderedMap.size_sweep.le le_rfl rfl
  unfold matchReceives
  dsimp only
  split_ifs
  · split
    · exact swept
    · exact receiveMatched_kept swept
  · exact swept

theorem matchSpends_kept (kept : self.Kept options) :
    (self.matchSpends archive stopping header height heights).1.Kept options := by
  unfold matchSpends
  dsimp only
  split_ifs <;> exact kept.fewer le_rfl le_rfl le_rfl OrderedMap.size_prune_le rfl

theorem doConnected_kept {link : Nat} (kept : self.Kept options) :
    (self.doConnected options archive stopping link).1.Kept options := by
  unfold doConnected
  split
  · rename_i height header _ _
    have filtered : (self.matchFilters options archive stopping height [height]).1.Kept options :=
      matchFilters_kept kept
    generalize self.matchFilters options archive stopping height [height] = result at filtered ⊢
    obtain ⟨next, fault | txs⟩ := result
    · exact filtered
    · have received : (next.matchReceives options archive stopping header height
          [height]).1.Kept options := matchReceives_kept filtered
      dsimp only
      generalize next.matchReceives options archive stopping header height [height] = result
        at received ⊢
      obtain ⟨last, fault | notices⟩ := result
      · exact received
      · have spent : (last.matchSpends archive stopping header height [height]).1.Kept options :=
          matchSpends_kept received
        dsimp only
        generalize last.matchSpends archive stopping header height [height] = result at spent ⊢
        obtain ⟨final, fault | redeemed⟩ := result <;> exact spent
  · exact kept

theorem doDisconnected_kept {link : Nat} (kept : self.Kept options) :
    (self.doDisconnected archive link).1.Kept options := by
  unfold doDisconnected
  dsimp only
  split <;> exact kept.fewer OrderedMap.size_mapValues.le le_rfl OrderedMap.size_mapValues.le
    le_rfl rfl

end Connected

theorem operate_kept (operation : Operation Digest) (kept : self.Kept options) :
    (self.operate options operation).Kept options := by
  cases operation with
  | loadTxFilter archive stopping reload keys points =>
      exact doLoadTxFilter_keeps _ (reloaded_kept reload kept) (loadKey_kept archive)
        (loadPoint_kept archive)
  | notifyReceived archive stopping keys =>
      exact doNotifyReceived_keeps _ kept (receiveKey_kept archive)
  | stopNotifyReceived keys =>
      exact gated_kept (kept.fewer le_rfl le_rfl (OrderedMap.size_foldl_erase_le _ keys) le_rfl rfl)
  | notifySpent stopping points => exact doNotifySpent_keeps _ kept spentPoint_kept
  | stopNotifySpent points =>
      exact gated_kept
        (kept.fewer le_rfl le_rfl le_rfl (OrderedMap.size_foldl_erase_le _ points) rfl)
  | connected archive stopping link => exact doConnected_kept kept
  | disconnected archive link => exact doDisconnected_kept kept

/-- In every reachable state the watches are within the budget, and an armed legacy
    watch has its events posted. -/
theorem operations_within (options : Options) (operations : List (Operation Digest)) :
    (Run.final (operate options) initial operations).watchCount ≤ options.maximumFilters ∧
      (0 < (Run.final (operate options) initial operations).receiveWatches.size ∨
          0 < (Run.final (operate options) initial operations).spentWatches.size →
        (Run.final (operate options) initial operations).watchingLegacy = true ∧
          ∀ link, (Run.final (operate options) initial operations).handleChase (.organized link) =
              [.doConnected link] ∧
            (Run.final (operate options) initial operations).handleChase (.reorganized link) =
              [.doDisconnected link]) := by
  have kept : (Run.final (operate options) initial operations).Kept options := by
    apply Run.always_final _ initial_kept
    intro self operation kept
    exact operate_kept operation kept
  refine ⟨kept.within, fun legacy => ⟨kept.armed legacy, fun link => ?_⟩⟩
  simp [handleChase, kept.armed legacy]

end ProtocolBtcd

end LibbitcoinServer.Btcd

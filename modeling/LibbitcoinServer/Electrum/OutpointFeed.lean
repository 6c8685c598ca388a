import LibbitcoinServer.Electrum.Outpoints
import LibbitcoinServer.Lib.Feed

/-! # Outpoint subscriptions as a feed

The notification strand serves the feed of outpoint views: a subscription reads the
funder and the spenders and then stores `subscribed_outpoint_`, and the notifier is
`do_outpoint` on a channel that is not stopping.
-/

namespace LibbitcoinServer.Electrum

variable {Digest : Type} [LinearOrder Digest]

inductive OutpointRequest (Digest : Type) where
  | subscribe (prevout : Point Digest)
  | unsubscribe (prevout : Point Digest)

/-- The view that a response carries. -/
def responseView {Digest : Type} : Post Digest → Option (Point Digest × OutpointView Digest)
  | .completeOutpointSubscribe none sub prevout => some (prevout, sub.view)
  | _ => none

/-- The view that a notification is part of. -/
def notifiedView {Digest : Type} (archive : Archive Digest) :
    Post Digest → Option (Point Digest × OutpointView Digest)
  | .outpointNotify _ prevout => some (prevout, (getOutpointHistory archive prevout).view)
  | _ => none

/-- A channel that is not stopping. -/
def running {Digest : Type} (_ : Point Digest) : Bool := false

namespace ProtocolElectrum

variable (hashing : Hashing Digest) (options : Options)

/-- A handler up to its store of the flag, with the flag and the deliveries to follow. -/
def handleOutpoint (archive : Archive Digest) (self : ProtocolElectrum Digest) :
    OutpointRequest Digest →
      ProtocolElectrum Digest × Bool × List (Point Digest × OutpointView Digest)
  | .subscribe prevout =>
      let (after, posts) := self.doOutpointSubscribe options archive prevout
      ({ after with subscribedOutpoint := self.subscribedOutpoint }, after.subscribedOutpoint,
        posts.filterMap responseView)
  | .unsubscribe prevout =>
      let (after, _) := self.doOutpointUnsubscribe prevout
      ({ after with subscribedOutpoint := self.subscribedOutpoint }, after.subscribedOutpoint, [])

def notifyOutpoint (archive : Archive Digest) (self : ProtocolElectrum Digest) :
    ProtocolElectrum Digest × List (Point Digest × OutpointView Digest) :=
  let (after, posts) := self.doOutpoint hashing archive running
  (after, posts.filterMap (notifiedView archive))

def outpointService : Feed.Service (Archive Digest) (OutpointRequest Digest) (Point Digest)
    (OutpointView Digest) (ProtocolElectrum Digest) where
  flag self := self.subscribedOutpoint
  handle archive request self := self.handleOutpoint options archive request
  raise flag self := { self with subscribedOutpoint := flag }
  notify archive self := self.notifyOutpoint hashing archive
  reads _ request self :=
    match request with
    | .subscribe prevout =>
        if self.outpointSubscriptions.size < options.maximumSubscriptions then some prevout
        else none
    | .unsubscribe _ => none
  cached self prevout := (self.outpointSubscriptions.find? prevout).map (·.view)

/-- A world is the state of every outpoint. -/
abbrev OutpointWorld (Digest : Type) := Point Digest → OutpointSubscription Digest

/-- An unfunded subscription has no spenders. -/
def Bare (_ : OutpointWorld Digest) (self : ProtocolElectrum Digest) : Prop :=
  ∀ prevout sub, self.outpointSubscriptions.find? prevout = some sub →
    sub.outpoint = none → sub.spenders = []

/-- A subscription reads the world, and a repeated one reads what is cached. -/
def FindsOutpoint (world : OutpointWorld Digest) (self : ProtocolElectrum Digest)
    (archive : Archive Digest) : OutpointRequest Digest → Prop
  | .subscribe prevout => getOutpointHistory archive prevout = world prevout ∧
      ∀ sub, self.outpointSubscriptions.find? prevout = some sub →
        self.outpointSubscriptions.size < options.maximumSubscriptions →
          (world prevout).view = sub.view
  | .unsubscribe _ => True

/-- A notifier reads the world, and finds additions to what is cached. -/
def ScansOutpoint (world : OutpointWorld Digest) (self : ProtocolElectrum Digest)
    (archive : Archive Digest) : Prop :=
  (∀ prevout, getOutpointHistory archive prevout = world prevout) ∧
    ∀ prevout sub, self.outpointSubscriptions.find? prevout = some sub →
      sub.Additive (world prevout)

def currentView (world : OutpointWorld Digest) (prevout : Point Digest) : OutpointView Digest :=
  (world prevout).view

variable {hashing} {options} {world : OutpointWorld Digest} {self : ProtocolElectrum Digest}
  {archive : Archive Digest} {prevout : Point Digest}

theorem reaches_going :
    OrderedMap.Reaches self.outpointSubscriptions.entries
      (visitOutpoint hashing archive running) prevout := by
  intro entry _ _
  have going : running entry.1 = false := rfl
  rcases Observer.visitOutpoint_cases hashing archive entry.2 going with
    ⟨-, visited⟩ | ⟨-, visited⟩ | ⟨_, -, -, visited⟩
  · rw [visited, Option.isSome_some]
  · rw [visited, Option.isSome_some]
  · rw [visited, Option.isSome_some]

/-- What a notifier makes of one subscription. -/
theorem notifyOutpoint_present (bare : self.Bare world) (scans : self.ScansOutpoint world archive)
    {after : OutpointSubscription Digest}
    (present : (self.notifyOutpoint hashing archive).1.outpointSubscriptions.find? prevout =
      some after) :
    ∃ sub, self.outpointSubscriptions.find? prevout = some sub ∧
      after.view = (world prevout).view ∧ (after.outpoint = none → after.spenders = []) ∧
      (Notified prevout (self.doOutpoint hashing archive running).2 ↔
        (world prevout).view ≠ sub.view) := by
  cases before : self.outpointSubscriptions.find? prevout with
  | none =>
      have absent : (self.outpointSubscriptions.sweep
          (visitOutpoint hashing archive running)).1.find? prevout = none :=
        OrderedMap.find?_sweep_absent before
      exact absurd (absent.symm.trans present) (by simp)
  | some sub =>
      have additive : sub.Additive (getOutpointHistory archive prevout) := by
        rw [scans.1 prevout]
        exact scans.2 prevout sub before
      have going : running prevout = false := rfl
      obtain ⟨next, posts, visited, changed, read, settled⟩ :=
        Observer.visit_additive going (bare prevout sub before) additive
      have swept := OrderedMap.find?_sweep_reached reaches_going before visited
      obtain rfl := Option.some.inj (swept.symm.trans present)
      rw [scans.1 prevout] at changed read
      exact ⟨sub, rfl, read, settled,
        (Observer.notified_iff_visit before reaches_going visited).trans changed⟩

/-- What a notifier delivers of one outpoint. -/
theorem told_notifyOutpoint (scans : self.ScansOutpoint world archive)
    {sub : OutpointSubscription Digest}
    (changed : Notified prevout (self.doOutpoint hashing archive running).2 ↔
      (world prevout).view ≠ sub.view) :
    (Feed.told (self.notifyOutpoint hashing archive).2 prevout).getD sub.view =
      (world prevout).view := by
  have about : ∀ view, (prevout, view) ∈ (self.notifyOutpoint hashing archive).2 ↔
      view = (world prevout).view ∧
        Notified prevout (self.doOutpoint hashing archive running).2 := by
    intro view
    simp only [notifyOutpoint, List.mem_filterMap]
    constructor
    · rintro ⟨post, member, carried⟩
      cases post with
      | outpointNotify status key =>
          obtain ⟨rfl, rfl⟩ : key = prevout ∧ (getOutpointHistory archive key).view = view := by
            simpa [notifiedView] using carried
          exact ⟨by rw [scans.1 key], _, member, by simp [Post.notifies]⟩
      | _ => simp [notifiedView] at carried
    · rintro ⟨rfl, post, member, tagged⟩
      cases post with
      | outpointNotify status key =>
          obtain rfl : key = prevout := by simpa [Post.notifies] using tagged
          exact ⟨_, member, by simp [notifiedView, scans.1 key]⟩
      | _ => simp [Post.notifies] at tagged
  by_cases same : (world prevout).view = sub.view
  · have nothing : Feed.told (self.notifyOutpoint hashing archive).2 prevout = none :=
      Feed.told_eq_none fun view member => changed.mp ((about view).mp member).2 same
    rw [nothing, Option.getD_none, same]
  · have delivered : Feed.told (self.notifyOutpoint hashing archive).2 prevout =
        some (world prevout).view :=
      Feed.told_eq_some (fun view member => ((about view).mp member).1)
        ((about _).mpr ⟨rfl, changed.mpr same⟩)
    rw [delivered, Option.getD_some]

theorem bare_subscribe (bare : self.Bare world) :
    (self.handleOutpoint options archive (.subscribe prevout)).1.Bare world := by
  intro key sub present
  simp only [handleOutpoint, doOutpointSubscribe] at present
  split_ifs at present with room
  · by_cases same : key = prevout
    · subst same
      cases before : self.outpointSubscriptions.find? key with
      | none =>
          simp only [OrderedMap.find?_tryEmplace_absent before, Option.some.injEq] at present
          subst present
          exact Observer.spenders_of_missing
      | some old =>
          simp only [OrderedMap.tryEmplace_present before] at present
          exact bare key sub present
    · simp only [OrderedMap.find?_tryEmplace_ne same] at present
      exact bare key sub present
  · exact bare key sub present

theorem find?_unsubscribe {key : Point Digest} {sub : OutpointSubscription Digest}
    (present : (self.doOutpointUnsubscribe prevout).1.outpointSubscriptions.find? key =
      some sub) : self.outpointSubscriptions.find? key = some sub := by
  have different : key ≠ prevout := by
    rintro rfl
    simp [doOutpointUnsubscribe] at present
  simpa [doOutpointUnsubscribe, OrderedMap.find?_erase_ne different] using present

/-- The outpoint subscriptions keep to the laws of a feed. -/
theorem outpointLaws (hashing : Hashing Digest) (options : Options) :
    Feed.Laws (outpointService hashing options) currentView Bare (fun _ _ => True)
      (FindsOutpoint options) ScansOutpoint where
  change := by
    intro world later self _ bare
    exact bare
  raise := by
    intro world self flag bare
    exact bare
  cached_raise := rfl
  handle := by
    intro world self archive request bare finds
    cases request with
    | subscribe prevout => exact bare_subscribe bare
    | unsubscribe prevout =>
        intro key sub present
        exact bare key sub (find?_unsubscribe present)
  handle_read := by
    intro world self archive request key bare finds reading
    cases request with
    | unsubscribe prevout => cases reading
    | subscribe prevout =>
        simp only [outpointService] at reading
        split_ifs at reading with room
        obtain rfl := Option.some.inj reading
        obtain ⟨read, steady⟩ := finds
        simp only [outpointService, handleOutpoint, doOutpointSubscribe, if_pos room]
        refine ⟨?_, by simp [responseView, Feed.told, read, currentView]⟩
        cases before : self.outpointSubscriptions.find? prevout with
        | none => simp [OrderedMap.find?_tryEmplace_absent before, read, currentView]
        | some sub =>
            rw [OrderedMap.tryEmplace_present before, before, Option.map_some, currentView,
              steady sub before room]
  handle_other := by
    intro self archive request key view other subscribed
    cases request with
    | unsubscribe prevout =>
        obtain ⟨sub, present, rfl⟩ := Option.map_eq_some_iff.mp subscribed
        exact ⟨congrArg (Option.map OutpointSubscription.view) (find?_unsubscribe present), rfl⟩
    | subscribe prevout =>
        simp only [outpointService, handleOutpoint, doOutpointSubscribe] at other subscribed ⊢
        split_ifs at other subscribed ⊢ with room
        · have different : key ≠ prevout := fun same => other (by rw [same])
          rw [OrderedMap.find?_tryEmplace_ne different] at subscribed
          exact ⟨subscribed, by simp [responseView, Feed.told, different.symm]⟩
        · exact ⟨subscribed, rfl⟩
  notify := by
    intro world self archive bare scans prevout after present
    obtain ⟨sub, -, -, settled, -⟩ := notifyOutpoint_present bare scans present
    exact settled
  notify_scan := by
    intro world self archive prevout view bare scans subscribed
    obtain ⟨after, present, rfl⟩ := Option.map_eq_some_iff.mp subscribed
    obtain ⟨sub, before, read, -, changed⟩ := notifyOutpoint_present bare scans present
    refine ⟨read, sub.view, by simp [outpointService, before], ?_⟩
    rw [read]
    exact told_notifyOutpoint scans changed

end ProtocolElectrum

end LibbitcoinServer.Electrum

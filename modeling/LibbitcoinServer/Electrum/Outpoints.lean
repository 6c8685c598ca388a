import LibbitcoinServer.Electrum.Subscriptions

/-! # The outpoint view last conveyed to a client

`do_outpoint` compares what it reads with a cached copy, and notifies of additions.
The client is then never behind as long as the copy is what was conveyed: a response
to a repeated subscription does not refresh it.  A funder that vanishes and spenders
that only go away are passed over.
-/

namespace LibbitcoinServer.Electrum

variable {Digest : Type} [LinearOrder Digest]

/-- What a client sees of an outpoint: the height of its funder, and its spenders
    with their heights. -/
structure OutpointView (Digest : Type) where
  funder : Option Nat
  spenders : List (Digest × Nat)
  deriving DecidableEq

def OutpointSubscription.view {Digest : Type} (sub : OutpointSubscription Digest) :
    OutpointView Digest :=
  ⟨sub.outpoint.map (·.height), sub.spenders.map fun spender => (spender.hash, spender.height)⟩

/-- The protocol, with the view last conveyed of each outpoint. -/
structure Observer (Digest : Type) [LinearOrder Digest] where
  protocol : ProtocolElectrum Digest
  conveyed : Point Digest → OutpointView Digest

inductive OutpointEvent (Digest : Type) where
  | subscribe (archive : Archive Digest) (prevout : Point Digest)
  | unsubscribe (prevout : Point Digest)
  | outpoint (archive : Archive Digest) (stopping : Point Digest → Bool)

/-- The posted work is a notification of the outpoint. -/
def Post.notifies (prevout : Point Digest) : Post Digest → Bool
  | .outpointNotify _ other => other = prevout
  | _ => false

/-- A notification of the outpoint is posted. -/
def Notified (prevout : Point Digest) (posts : List (Post Digest)) : Prop :=
  ∃ post ∈ posts, post.notifies prevout

instance {prevout : Point Digest} {posts : List (Post Digest)} :
    Decidable (Notified prevout posts) :=
  inferInstanceAs (Decidable (∃ post ∈ posts, post.notifies prevout))

/-- The response conveys the view it carries, the first spender in its result and the
    others in the notifications that follow it. -/
def conveyResponse (conveyed : Point Digest → OutpointView Digest) :
    Post Digest → Point Digest → OutpointView Digest
  | .completeOutpointSubscribe none sub prevout => Function.update conveyed prevout sub.view
  | _ => conveyed

namespace Observer

variable (hashing : Hashing Digest) (options : Options)

def initial : Observer Digest := ⟨.initial, fun _ => ⟨none, []⟩⟩

/-- A notification conveys the view that was read. -/
def step (observer : Observer Digest) : OutpointEvent Digest → Observer Digest
  | .subscribe archive prevout =>
      let (protocol, posts) := observer.protocol.doOutpointSubscribe options archive prevout
      ⟨protocol, posts.foldl conveyResponse observer.conveyed⟩
  | .unsubscribe prevout =>
      { observer with protocol := (observer.protocol.doOutpointUnsubscribe prevout).1 }
  | .outpoint archive stopping =>
      let (protocol, posts) := observer.protocol.doOutpoint hashing archive stopping
      ⟨protocol, fun prevout => if Notified prevout posts
        then (getOutpointHistory archive prevout).view else observer.conveyed prevout⟩

/-- The outpoints that a run of `do_outpoint` reads. -/
def Observes (observer : Observer Digest) (archive : Archive Digest)
    (stopping : Point Digest → Bool) (prevout : Point Digest) : Prop :=
  OrderedMap.Reaches observer.protocol.outpointSubscriptions.entries
    (ProtocolElectrum.visitOutpoint hashing archive stopping) prevout

/-- A view that differs from the one conveyed is notified, and no other. -/
def Informed (observer : Observer Digest) : OutpointEvent Digest → Prop
  | .outpoint archive stopping => ∀ prevout sub,
      observer.protocol.outpointSubscriptions.find? prevout = some sub →
        observer.Observes hashing archive stopping prevout →
          (Notified prevout (observer.protocol.doOutpoint hashing archive stopping).2 ↔
            (getOutpointHistory archive prevout).view ≠ observer.conveyed prevout)
  | _ => True

end Observer

/-- From the cached state, the state read shows no change that `do_outpoint` passes
    over: the funder has not vanished, a change at the same funder height adds a
    spender, and a spender that is new to the cache is new to the client. -/
structure OutpointSubscription.Additive (sub out : OutpointSubscription Digest) : Prop where
  remains : out.outpoint = none → sub.outpoint = none
  adds : out.outpoint.map (·.height) = sub.outpoint.map (·.height) → out.view ≠ sub.view →
    ∃ spender ∈ out.spenders, spender ∉ sub.spenders
  seen : out.view = sub.view → ∀ spender ∈ out.spenders, spender ∈ sub.spenders

namespace Observer

variable (hashing : Hashing Digest) (options : Options)

/-- A repeated subscription reads what is cached, and `do_outpoint` finds additions. -/
def Steady (observer : Observer Digest) : OutpointEvent Digest → Prop
  | .subscribe archive prevout => ∀ sub,
      observer.protocol.outpointSubscriptions.find? prevout = some sub →
        observer.protocol.outpointSubscriptions.size < options.maximumSubscriptions →
          (getOutpointHistory archive prevout).view = sub.view
  | .outpoint archive stopping => ∀ prevout sub,
      observer.protocol.outpointSubscriptions.find? prevout = some sub →
        observer.Observes hashing archive stopping prevout →
          sub.Additive (getOutpointHistory archive prevout)
  | .unsubscribe _ => True

/-- The cache holds what was conveyed. -/
def Synced (observer : Observer Digest) : Prop :=
  ∀ prevout sub, observer.protocol.outpointSubscriptions.find? prevout = some sub →
    sub.view = observer.conveyed prevout ∧ (sub.outpoint = none → sub.spenders = [])

variable {hashing} {options} {observer : Observer Digest} {archive : Archive Digest}
  {stopping : Point Digest → Bool} {prevout : Point Digest}
  {sub next : OutpointSubscription Digest} {posts : List (Post Digest)}

theorem outpointPosts_ne_nil {outpoint : History Digest} {spenders : List (History Digest)} :
    ProtocolElectrum.outpointPosts hashing prevout sub outpoint spenders ≠ [] ↔
      sub.outpoint.map (·.height) ≠ some outpoint.height ∨
        ∃ spender ∈ spenders, spender ∉ sub.spenders := by
  unfold ProtocolElectrum.outpointPosts
  split_ifs with moved bare
  · simp [moved]
  · simpa [moved] using bare
  · simp only [moved, false_or, ne_eq, List.map_eq_nil_iff, difference]
    simp [List.filter_eq_nil_iff]

/-- What a visit posts is about its own outpoint. -/
theorem notifies_of_visit {post : Post Digest} {other : Point Digest}
    (visited : ProtocolElectrum.visitOutpoint hashing archive stopping prevout sub =
      some (next, posts)) (member : post ∈ posts) :
    post.notifies other ↔ other = prevout := by
  have tagged : ∃ status, post = .outpointNotify status prevout := by
    unfold ProtocolElectrum.visitOutpoint at visited
    split_ifs at visited
    dsimp only at visited
    split at visited
    · obtain ⟨-, rfl⟩ := Prod.mk.inj (Option.some.inj visited)
      cases member
    · split_ifs at visited
      · obtain ⟨-, rfl⟩ := Prod.mk.inj (Option.some.inj visited)
        cases member
      · obtain ⟨-, rfl⟩ := Prod.mk.inj (Option.some.inj visited)
        unfold ProtocolElectrum.outpointPosts at member
        split_ifs at member
        · exact ⟨_, List.mem_singleton.mp member⟩
        · obtain ⟨spender, -, rfl⟩ := List.mem_map.mp member
          exact ⟨_, rfl⟩
        · obtain ⟨spender, -, rfl⟩ := List.mem_map.mp member
          exact ⟨_, rfl⟩
  obtain ⟨status, rfl⟩ := tagged
  simp [Post.notifies, eq_comm]

/-- A visited outpoint is notified where its visit posts anything. -/
theorem notified_iff_visit {self : ProtocolElectrum Digest}
    (present : self.outpointSubscriptions.find? prevout = some sub)
    (reaches : OrderedMap.Reaches self.outpointSubscriptions.entries
      (ProtocolElectrum.visitOutpoint hashing archive stopping) prevout)
    (visited : ProtocolElectrum.visitOutpoint hashing archive stopping prevout sub =
      some (next, posts)) :
    Notified prevout (self.doOutpoint hashing archive stopping).2 ↔ posts ≠ [] := by
  constructor
  · rintro ⟨post, reported, about⟩
    obtain ⟨key, value, after, events, found, -, seen, member⟩ := OrderedMap.mem_sweep.mp reported
    obtain rfl := (notifies_of_visit seen member).mp about
    obtain rfl := Option.some.inj (found.symm.trans present)
    obtain ⟨-, rfl⟩ := Prod.mk.inj (Option.some.inj (seen.symm.trans visited))
    exact List.ne_nil_of_mem member
  · intro something
    obtain ⟨post, member⟩ := List.exists_mem_of_ne_nil posts something
    exact ⟨post, OrderedMap.mem_sweep.mpr
      ⟨prevout, sub, next, posts, present, reaches, visited, member⟩,
      (notifies_of_visit visited member).mpr rfl⟩

/-- The three ways of a visit. -/
theorem visitOutpoint_cases (hashing : Hashing Digest) (archive : Archive Digest)
    (sub : OutpointSubscription Digest) (going : stopping prevout = false) :
    ((getOutpointHistory archive prevout).outpoint = none ∧
        ProtocolElectrum.visitOutpoint hashing archive stopping prevout sub = some (sub, [])) ∨
      (sub = getOutpointHistory archive prevout ∧
        ProtocolElectrum.visitOutpoint hashing archive stopping prevout sub = some (sub, [])) ∨
      ∃ outpoint, (getOutpointHistory archive prevout).outpoint = some outpoint ∧
        sub ≠ getOutpointHistory archive prevout ∧
        ProtocolElectrum.visitOutpoint hashing archive stopping prevout sub =
          some (getOutpointHistory archive prevout,
            ProtocolElectrum.outpointPosts hashing prevout sub outpoint
              (getOutpointHistory archive prevout).spenders) := by
  unfold ProtocolElectrum.visitOutpoint
  rw [going]
  dsimp only
  cases funder : (getOutpointHistory archive prevout).outpoint with
  | none => exact .inl ⟨rfl, rfl⟩
  | some outpoint =>
      by_cases same : sub = getOutpointHistory archive prevout
      · exact .inr (.inl ⟨same, by simp [same]⟩)
      · exact .inr (.inr ⟨outpoint, rfl, same, by simp [same]⟩)

omit [LinearOrder Digest] in
theorem spenders_of_missing (missing : (getOutpointHistory archive prevout).outpoint = none) :
    (getOutpointHistory archive prevout).spenders = [] := by
  unfold getOutpointHistory at missing ⊢
  split at missing
  · simp
  · cases missing

/-- A visit that finds additions posts exactly on a change of view, and caches the
    view it read. -/
theorem visit_additive (going : stopping prevout = false)
    (bare : sub.outpoint = none → sub.spenders = [])
    (additive : sub.Additive (getOutpointHistory archive prevout)) :
    ∃ next posts, ProtocolElectrum.visitOutpoint hashing archive stopping prevout sub =
        some (next, posts) ∧
      (posts ≠ [] ↔ (getOutpointHistory archive prevout).view ≠ sub.view) ∧
      next.view = (getOutpointHistory archive prevout).view ∧
      (next.outpoint = none → next.spenders = []) := by
  rcases visitOutpoint_cases hashing archive sub going with
    ⟨missing, visited⟩ | ⟨same, visited⟩ | ⟨outpoint, funder, -, visited⟩
  · have gone := additive.remains missing
    have equal : sub.view = (getOutpointHistory archive prevout).view := by
      simp [OutpointSubscription.view, missing, gone, bare gone, spenders_of_missing missing]
    exact ⟨sub, [], visited, by simp [equal], equal, bare⟩
  · exact ⟨sub, [], visited, by simp [← same], by rw [← same], bare⟩
  · refine ⟨_, _, visited, ?_, rfl, fun missing => ?_⟩
    · rw [outpointPosts_ne_nil]
      by_cases moved : sub.outpoint.map (·.height) ≠ some outpoint.height
      · refine iff_of_true (.inl moved) fun equal => moved ?_
        have heights := congrArg OutpointView.funder equal
        simpa [OutpointSubscription.view, funder] using heights.symm
      · have level : (getOutpointHistory archive prevout).outpoint.map (·.height) =
            sub.outpoint.map (·.height) := by
          rw [funder, not_not.mp moved]
          rfl
        simp only [moved, false_or]
        constructor
        · rintro ⟨spender, member, fresh⟩ equal
          exact fresh (additive.seen equal spender member)
        · exact additive.adds level
    · rw [funder] at missing
      cases missing

theorem going_of_observes
    (present : observer.protocol.outpointSubscriptions.find? prevout = some sub)
    (observes : observer.Observes hashing archive stopping prevout) :
    stopping prevout = false := by
  have visited := observes (prevout, sub) (OrderedMap.find?_eq_some.mp present) le_rfl
  cases stop : stopping prevout with
  | false => rfl
  | true => simp [ProtocolElectrum.visitOutpoint, stop] at visited

theorem informed_outpoint (synced : observer.Synced)
    (steady : observer.Steady hashing options (.outpoint archive stopping)) :
    observer.Informed hashing (.outpoint archive stopping) := by
  intro prevout sub present observes
  obtain ⟨conveyed, bare⟩ := synced prevout sub present
  obtain ⟨next, posts, visited, changed, -⟩ :=
    visit_additive (going_of_observes present observes) bare (steady prevout sub present observes)
  rw [notified_iff_visit present observes visited, changed, conveyed]

theorem synced_outpoint (synced : observer.Synced)
    (steady : observer.Steady hashing options (.outpoint archive stopping)) :
    (observer.step hashing options (.outpoint archive stopping)).Synced := by
  intro prevout after found
  cases present : observer.protocol.outpointSubscriptions.find? prevout with
  | none =>
      have absent : (observer.protocol.outpointSubscriptions.sweep
          (ProtocolElectrum.visitOutpoint hashing archive stopping)).1.find? prevout = none :=
        OrderedMap.find?_sweep_absent present
      exact absurd (absent.symm.trans found) (by simp)
  | some sub =>
      obtain ⟨conveyed, bare⟩ := synced prevout sub present
      by_cases observes : observer.Observes hashing archive stopping prevout
      · obtain ⟨next, posts, visited, changed, read, settled⟩ := visit_additive
          (going_of_observes present observes) bare (steady prevout sub present observes)
        have swept := OrderedMap.find?_sweep_reached observes present visited
        obtain rfl := Option.some.inj (swept.symm.trans found)
        refine ⟨?_, settled⟩
        have notified := notified_iff_visit present observes visited
        simp only [step]
        split_ifs with told
        · exact read
        · rw [← conveyed, read]
          by_contra different
          exact told (notified.mpr (changed.mpr different))
      · have kept := OrderedMap.find?_sweep_unreached observes present
        obtain rfl := Option.some.inj (kept.symm.trans found)
        refine ⟨?_, bare⟩
        have quiet : ¬Notified prevout
            (observer.protocol.doOutpoint hashing archive stopping).2 := by
          rintro ⟨post, reported, about⟩
          obtain ⟨key, value, next, events, -, reaches, seen, member⟩ :=
            OrderedMap.mem_sweep.mp reported
          obtain rfl := (notifies_of_visit seen member).mp about
          exact observes reaches
        simp only [step, if_neg quiet]
        exact conveyed

theorem synced_subscribe (synced : observer.Synced)
    (steady : observer.Steady hashing options (.subscribe archive prevout)) :
    (observer.step hashing options (.subscribe archive prevout)).Synced := by
  intro key after found
  simp only [step, ProtocolElectrum.doOutpointSubscribe] at found ⊢
  split_ifs at found ⊢ with room
  · simp only [List.foldl_cons, List.foldl_nil, conveyResponse]
    by_cases same : key = prevout
    · subst same
      rw [Function.update_self]
      cases present : observer.protocol.outpointSubscriptions.find? key with
      | none =>
          rw [OrderedMap.find?_tryEmplace_absent present] at found
          obtain rfl := Option.some.inj found
          exact ⟨rfl, spenders_of_missing⟩
      | some sub =>
          rw [OrderedMap.tryEmplace_present present, present] at found
          obtain rfl := Option.some.inj found
          exact ⟨(steady sub present room).symm, (synced key sub present).2⟩
    · rw [Function.update_of_ne same]
      rw [OrderedMap.find?_tryEmplace_ne same] at found
      exact synced key after found
  · exact synced key after found

theorem synced_unsubscribe (synced : observer.Synced) :
    (observer.step hashing options (.unsubscribe prevout)).Synced := by
  intro key after found
  have different : key ≠ prevout := by
    rintro rfl
    simp [step, ProtocolElectrum.doOutpointUnsubscribe] at found
  refine synced key after ?_
  simpa [step, ProtocolElectrum.doOutpointUnsubscribe, OrderedMap.find?_erase_ne different]
    using found

theorem synced_step {event : OutpointEvent Digest} (synced : observer.Synced)
    (steady : observer.Steady hashing options event) :
    (observer.step hashing options event).Synced := by
  cases event with
  | subscribe archive prevout => exact synced_subscribe synced steady
  | unsubscribe prevout => exact synced_unsubscribe synced
  | outpoint archive stopping => exact synced_outpoint synced steady

/-- In a run whose repeated subscriptions read what is cached and whose `do_outpoint`
    steps find additions, every observed outpoint is notified exactly where its view
    differs from the one last conveyed. -/
theorem outpoints_informed (hashing : Hashing Digest) (options : Options)
    (events : List (OutpointEvent Digest))
    (steady : ∀ visit ∈ Run.steps (step hashing options) initial events,
      visit.1.Steady hashing options visit.2) :
    ∀ visit ∈ Run.steps (step hashing options) initial events,
      visit.1.Informed hashing visit.2 := by
  intro visit member
  have start : (initial : Observer Digest).Synced := by
    intro prevout sub present
    cases present
  have synced := Run.invariant_steps Synced (Steady hashing options)
    (fun _ _ synced steady => synced_step synced steady) start steady visit member
  obtain ⟨observer, event⟩ := visit
  cases event with
  | subscribe archive prevout => trivial
  | unsubscribe prevout => trivial
  | outpoint archive stopping => exact informed_outpoint synced (steady _ member)

section Vanished

/-- An archive with one output, funded at the given height and unspent. -/
def funding (height : Option Nat) : Archive Nat where
  getHistory cursor _ _ := .ok (cursor, [])
  getTxHistory _ := height.map fun height => ⟨1, height, 500, 1, true⟩
  getSpendersHistory _ := []

def firstOutput : Point Nat := toLex (1, 0)

def funded : Observer Nat :=
  step Watch.sampleHashing ⟨10, 100⟩ initial (.subscribe (funding (some 100)) firstOutput)

theorem funded_entries : funded.protocol.outpointSubscriptions.entries =
    [(firstOutput, getOutpointHistory (funding (some 100)) firstOutput)] := by
  decide +kernel

/-- A funder that moves to another height is notified. -/
theorem outpoints_informed_moved :
    funded.Informed Watch.sampleHashing (.outpoint (funding (some 101)) fun _ => false) := by
  refine outpoints_informed Watch.sampleHashing ⟨10, 100⟩
    [.subscribe (funding (some 100)) firstOutput, .outpoint (funding (some 101)) fun _ => false]
    ?_ (funded, .outpoint (funding (some 101)) fun _ => false) (by simp [Run.steps, funded])
  intro visit member
  simp only [Run.steps, List.mem_cons, List.not_mem_nil, or_false] at member
  rcases member with rfl | rfl
  · intro sub present
    cases present
  · intro prevout sub present _
    have inside : (prevout, sub) ∈ funded.protocol.outpointSubscriptions.entries :=
      OrderedMap.find?_eq_some.mp present
    rw [funded_entries, List.mem_singleton] at inside
    obtain ⟨rfl, rfl⟩ := Prod.mk.inj inside
    exact ⟨by decide, by decide, by decide⟩

/-- A funder that vanishes is passed over. -/
theorem outpoints_uninformed_vanished :
    ¬∀ (options : Options) (events : List (OutpointEvent Nat)),
      ∀ visit ∈ Run.steps (step Watch.sampleHashing options) initial events,
        visit.1.Informed Watch.sampleHashing visit.2 := by
  intro informed
  have vanished := informed ⟨10, 100⟩
    [.subscribe (funding (some 100)) firstOutput, .outpoint (funding none) fun _ => false]
    (funded, .outpoint (funding none) fun _ => false) (by simp [Run.steps, funded])
    firstOutput (getOutpointHistory (funding (some 100)) firstOutput) (by decide +kernel)
    (by
      intro entry member _
      rw [funded_entries, List.mem_singleton] at member
      subst member
      decide +kernel)
  exact absurd (vanished.mpr (by decide +kernel)) (by decide +kernel)

end Vanished

end Observer

end LibbitcoinServer.Electrum

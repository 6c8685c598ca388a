import LibbitcoinServer.Lib.Run

/-! # Feeds

A world changes under a service that tells its clients the current view of the keys
they subscribe to.  Every change is followed by a callback on a thread of its own,
which tests a flag and, where the flag is up, posts a notifier to the strand.  A
handler on the strand reads the world first, then stores the flag, then posts its
response.  The client is up to date in every quiescent state provided that no
callback finds the flag down for a change that came after the read of a
subscription.
-/

namespace Feed

variable {World Answer Request Key View Inner : Type}

/-- Work posted to the strand: a request, or the notifier of a change. -/
inductive Job (Request : Type) where
  | handle (request : Request)
  | notify (version : Nat)

/-- The strand's side of a feed.  A handler gives what it leaves before it stores the
    flag, the flag it stores and the views it delivers. -/
structure Service (Answer Request Key View Inner : Type) where
  flag : Inner → Bool
  handle : Answer → Request → Inner → Inner × Bool × List (Key × View)
  raise : Bool → Inner → Inner
  notify : Answer → Inner → Inner × List (Key × View)
  reads : Answer → Request → Inner → Option Key
  cached : Inner → Key → Option View

/-- A handler in progress, before or after it has stored its flag. -/
structure Window (Key View : Type) where
  raised : Bool
  flag : Bool
  deliveries : List (Key × View)

structure State (World Request Key View Inner : Type) where
  world : World
  version : Nat
  callbacks : List Nat
  jobs : List (Job Request)
  window : Option (Window Key View)
  posts : List (Key × View)
  sent : List (Key × View)
  inner : Inner
  read : Key → Nat

inductive Event (World Answer Request : Type) where
  | change (world : World)
  | callback
  | request (request : Request)
  | run (answer : Answer)
  | raise
  | finish
  | send

def start (world : World) (inner : Inner) : State World Request Key View Inner :=
  ⟨world, 0, [], [], none, [], [], inner, fun _ => 0⟩

section Step

variable [DecidableEq Key] (service : Service Answer Request Key View Inner)

/-- The strand takes its next job once no handler is in progress. -/
def takeJob (state : State World Request Key View Inner) (answer : Answer) :
    State World Request Key View Inner :=
  match state.window, state.jobs with
  | none, .handle request :: rest =>
      let (inner, flag, deliveries) := service.handle answer request state.inner
      { state with
        jobs := rest
        inner
        window := some ⟨false, flag, deliveries⟩
        read := match service.reads answer request state.inner with
          | some key => Function.update state.read key state.version
          | none => state.read }
  | none, .notify _ :: rest =>
      let (inner, deliveries) := service.notify answer state.inner
      { state with
        jobs := rest
        inner
        posts := state.posts ++ deliveries
        read := fun _ => state.version }
  | _, _ => state

def step (state : State World Request Key View Inner) :
    Event World Answer Request → State World Request Key View Inner
  | .change world => { state with
      world
      version := state.version + 1
      callbacks := state.callbacks ++ [state.version + 1] }
  | .callback =>
      match state.callbacks with
      | [] => state
      | version :: rest => { state with
          callbacks := rest
          jobs := if service.flag state.inner then state.jobs ++ [.notify version]
            else state.jobs }
  | .request request => { state with jobs := state.jobs ++ [.handle request] }
  | .run answer => takeJob service state answer
  | .raise =>
      match state.window with
      | some ⟨false, flag, deliveries⟩ => { state with
          window := some ⟨true, flag, deliveries⟩
          inner := service.raise flag state.inner }
      | _ => state
  | .finish =>
      match state.window with
      | some ⟨true, _, deliveries⟩ => { state with
          window := none
          posts := state.posts ++ deliveries }
      | _ => state
  | .send =>
      match state.posts with
      | [] => state
      | delivery :: rest => { state with posts := rest, sent := state.sent ++ [delivery] }

end Step

/-- The view of a key delivered last. -/
def told [DecidableEq Key] (deliveries : List (Key × View)) (key : Key) : Option View :=
  (deliveries.reverse.find? fun delivery => delivery.1 = key).map Prod.snd

theorem told_append [DecidableEq Key] {earlier later : List (Key × View)} {key : Key} :
    told (earlier ++ later) key = (told later key).or (told earlier key) := by
  rw [told, List.reverse_append, List.find?_append, Option.map_or, told, told]

@[simp] theorem told_nil [DecidableEq Key] {key : Key} :
    told ([] : List (Key × View)) key = none := rfl

theorem told_eq_none [DecidableEq Key] {deliveries : List (Key × View)} {key : Key}
    (nothing : ∀ view, (key, view) ∉ deliveries) : told deliveries key = none := by
  rw [told, Option.map_eq_none_iff, List.find?_eq_none]
  intro delivery member same
  have about : delivery.1 = key := by simpa using same
  exact nothing delivery.2 (about ▸ List.mem_reverse.mp member)

theorem told_eq_some [DecidableEq Key] {deliveries : List (Key × View)} {key : Key} {view : View}
    (agreed : ∀ other, (key, other) ∈ deliveries → other = view)
    (delivered : (key, view) ∈ deliveries) : told deliveries key = some view := by
  cases last : deliveries.reverse.find? fun delivery => delivery.1 = key with
  | none =>
      have missing := List.find?_eq_none.mp last (key, view) (List.mem_reverse.mpr delivered)
      simp at missing
  | some delivery =>
      have about : delivery.1 = key := by simpa using List.find?_some last
      have member := List.mem_reverse.mp (List.mem_of_find?_eq_some last)
      rw [told, last, Option.map_some, agreed delivery.2 (about ▸ member)]

namespace State

/-- All that has been sent or is on its way, in order. -/
def log (state : State World Request Key View Inner) : List (Key × View) :=
  state.sent ++ state.posts ++ (state.window.map (·.deliveries)).getD []

/-- No callback, job, handler or delivery is outstanding. -/
structure Quiescent (state : State World Request Key View Inner) : Prop where
  callbacks : state.callbacks = []
  jobs : state.jobs = []
  window : state.window = none
  posts : state.posts = []

/-- The callback or the notifier of a change is outstanding. -/
def Pending (state : State World Request Key View Inner) (version : Nat) : Prop :=
  version ∈ state.callbacks ∨ .notify version ∈ state.jobs

end State

section Laws

variable [DecidableEq Key] (service : Service Answer Request Key View Inner)
  (current : World → Key → View)

/-- What a service keeps to: `holds` is its own invariant over the world, `grows` the
    changes of the world, `finds` and `scans` what it takes of an answer for a request
    and for a notifier. -/
structure Laws (holds : World → Inner → Prop) (grows : World → World → Prop)
    (finds : World → Inner → Answer → Request → Prop)
    (scans : World → Inner → Answer → Prop) : Prop where
  change : ∀ {world later inner}, grows world later → holds world inner → holds later inner
  raise : ∀ {world inner flag}, holds world inner → holds world (service.raise flag inner)
  cached_raise : ∀ {inner flag key},
    service.cached (service.raise flag inner) key = service.cached inner key
  handle : ∀ {world inner answer request}, holds world inner → finds world inner answer request →
    holds world (service.handle answer request inner).1
  handle_read : ∀ {world inner answer request key}, holds world inner →
    finds world inner answer request → service.reads answer request inner = some key →
      service.cached (service.handle answer request inner).1 key = some (current world key) ∧
        told (service.handle answer request inner).2.2 key = some (current world key)
  handle_other : ∀ {inner answer request key view},
    service.reads answer request inner ≠ some key →
      service.cached (service.handle answer request inner).1 key = some view →
        service.cached inner key = some view ∧
          told (service.handle answer request inner).2.2 key = none
  notify : ∀ {world inner answer}, holds world inner → scans world inner answer →
    holds world (service.notify answer inner).1
  notify_scan : ∀ {world inner answer key view}, holds world inner → scans world inner answer →
    service.cached (service.notify answer inner).1 key = some view →
      view = current world key ∧ ∃ old, service.cached inner key = some old ∧
        (told (service.notify answer inner).2 key).getD old = view

/-- What the steps of a run are to meet.  A callback that finds the flag down is of
    no change after the read of a subscription. -/
def Meets (grows : World → World → Prop) (finds : World → Inner → Answer → Request → Prop)
    (scans : World → Inner → Answer → Prop) (state : State World Request Key View Inner) :
    Event World Answer Request → Prop
  | .change world => grows state.world world
  | .callback => ∀ version rest, state.callbacks = version :: rest →
      service.flag state.inner = false → ∀ key view, service.cached state.inner key = some view →
        version ≤ state.read key
  | .run answer => state.window = none → ∀ job rest, state.jobs = job :: rest →
      match job with
      | .handle request => finds state.world state.inner answer request
      | .notify _ => scans state.world state.inner answer
  | _ => True

/-- What a run keeps of each subscribed key. -/
structure Followed (state : State World Request Key View Inner) (key : Key) (view : View) :
    Prop where
  told : told state.log key = some view
  bound : state.read key ≤ state.version
  fresh : state.read key = state.version → view = current state.world key
  covered : ∀ version, state.read key < version → version ≤ state.version → state.Pending version

structure Sound (holds : World → Inner → Prop) (state : State World Request Key View Inner) :
    Prop where
  holds : holds state.world state.inner
  followed : ∀ key view, service.cached state.inner key = some view →
    Followed current state key view

variable {service current} {holds : World → Inner → Prop} {grows : World → World → Prop}
  {finds : World → Inner → Answer → Request → Prop} {scans : World → Inner → Answer → Prop}
  {state : State World Request Key View Inner} {key : Key} {view : View}

/-- A quiescent client has the current view of every key it subscribes to. -/
theorem Sound.quiescent (sound : Sound service current holds state) (quiet : state.Quiescent)
    (subscribed : service.cached state.inner key = some view) :
    Feed.told state.sent key = some (current state.world key) := by
  have followed := sound.followed key view subscribed
  have upToDate : state.read key = state.version := by
    by_contra behind
    have later : state.read key < state.version := lt_of_le_of_ne followed.bound behind
    rcases followed.covered state.version later le_rfl with called | posted
    · rw [quiet.callbacks] at called
      cases called
    · rw [quiet.jobs] at posted
      cases posted
  have log : state.log = state.sent := by
    simp [State.log, quiet.posts, quiet.window]
  rw [← log, followed.told, followed.fresh upToDate]

theorem sound_start {world : World} {inner : Inner} (initially : holds world inner)
    (nobody : ∀ key, service.cached inner key = none) :
    Sound service current holds (start world inner : State World Request Key View Inner) where
  holds := initially
  followed := by
    intro key view subscribed
    rw [start, nobody key] at subscribed
    cases subscribed

theorem sound_change {world : World}
    (laws : Laws service current holds grows finds scans)
    (sound : Sound service current holds state) (grown : grows state.world world) :
    Sound service current holds (step service state (.change world)) where
  holds := laws.change grown sound.holds
  followed := by
    intro key view subscribed
    have followed := sound.followed key view subscribed
    refine ⟨followed.told, followed.bound.trans (Nat.le_succ _), ?_, ?_⟩
    · intro same
      have bound := followed.bound
      simp only [step] at same
      omega
    · intro version later bound
      simp only [step, State.Pending, List.mem_append, List.mem_singleton] at bound ⊢
      rcases Nat.lt_or_ge state.version version with fresh | old
      · exact .inl (.inr (by omega))
      · rcases followed.covered version later old with called | posted
        · exact .inl (.inl called)
        · exact .inr posted

theorem sound_callback (sound : Sound service current holds state)
    (meets : Meets service grows finds scans state .callback) :
    Sound service current holds (step service state .callback) := by
  cases waiting : state.callbacks with
  | nil => simpa [step, waiting] using sound
  | cons called rest =>
      simp only [step, waiting]
      refine ⟨sound.holds, fun key view subscribed => ?_⟩
      have followed := sound.followed key view subscribed
      refine ⟨followed.told, followed.bound, followed.fresh, fun version later bound => ?_⟩
      have pending := followed.covered version later bound
      simp only [State.Pending, waiting, List.mem_cons] at pending ⊢
      cases up : service.flag state.inner with
      | true =>
          rcases pending with (rfl | called) | posted
          · exact .inr (by simp)
          · exact .inl called
          · exact .inr (by simp [posted])
      | false =>
          rcases pending with (rfl | called) | posted
          · exact absurd (meets version rest waiting up key view subscribed) (not_le.mpr later)
          · exact .inl called
          · exact .inr (by simpa using posted)

theorem sound_request {request : Request} (sound : Sound service current holds state) :
    Sound service current holds (step service state (.request request)) := by
  refine ⟨sound.holds, fun key view subscribed => ?_⟩
  have followed := sound.followed key view subscribed
  refine ⟨followed.told, followed.bound, followed.fresh, fun version later bound => ?_⟩
  rcases followed.covered version later bound with called | posted
  · exact .inl called
  · exact .inr (List.mem_append_left _ posted)

theorem sound_raise (laws : Laws service current holds grows finds scans)
    (sound : Sound service current holds state) :
    Sound service current holds (step service state .raise) := by
  simp only [step]
  split
  · rename_i flag deliveries opened
    refine ⟨laws.raise sound.holds, fun key view subscribed => ?_⟩
    rw [laws.cached_raise] at subscribed
    have followed := sound.followed key view subscribed
    refine ⟨?_, followed.bound, followed.fresh, followed.covered⟩
    have told := followed.told
    rw [State.log, opened] at told
    exact told
  · exact sound

theorem sound_finish (sound : Sound service current holds state) :
    Sound service current holds (step service state .finish) := by
  simp only [step]
  split
  · rename_i flag deliveries opened
    refine ⟨sound.holds, fun key view subscribed => ?_⟩
    have followed := sound.followed key view subscribed
    refine ⟨?_, followed.bound, followed.fresh, followed.covered⟩
    have told := followed.told
    rw [State.log, opened] at told
    simpa [State.log] using told
  · exact sound

theorem sound_send (sound : Sound service current holds state) :
    Sound service current holds (step service state .send) := by
  simp only [step]
  split
  · exact sound
  · rename_i delivery rest waiting
    refine ⟨sound.holds, fun key view subscribed => ?_⟩
    have followed := sound.followed key view subscribed
    refine ⟨?_, followed.bound, followed.fresh, followed.covered⟩
    have told := followed.told
    rw [State.log, waiting] at told
    simpa [State.log] using told

/-- A handler reads the key it subscribes and leaves the others as they were. -/
theorem sound_handle {answer : Answer} {request : Request} {rest : List (Job Request)}
    (laws : Laws service current holds grows finds scans)
    (sound : Sound service current holds state) (idle : state.window = none)
    (next : state.jobs = .handle request :: rest)
    (found : finds state.world state.inner answer request) :
    Sound service current holds (takeJob service state answer) := by
  simp only [takeJob, idle, next]
  refine ⟨laws.handle sound.holds found, fun key view subscribed => ?_⟩
  by_cases reads : service.reads answer request state.inner = some key
  · obtain ⟨cached, delivered⟩ := laws.handle_read sound.holds found reads
    obtain rfl := Option.some.inj (cached.symm.trans subscribed)
    refine ⟨?_, ?_, fun _ => rfl, fun version later bound => ?_⟩
    · simp [State.log, told_append, delivered]
    · simp [reads]
    · simp only [reads, Function.update_self] at later bound
      exact absurd bound (not_le.mpr later)
  · obtain ⟨cached, nothing⟩ := laws.handle_other reads subscribed
    have followed := sound.followed key view cached
    have kept : (match service.reads answer request state.inner with
        | some key => Function.update state.read key state.version
        | none => state.read) key = state.read key := by
      cases reading : service.reads answer request state.inner with
      | none => rfl
      | some other =>
          have apart : key ≠ other := fun same => reads (same ▸ reading)
          exact Function.update_of_ne apart _ _
    refine ⟨?_, ?_, ?_, ?_⟩
    · have told := followed.told
      simp only [State.log, idle, Option.map_none, Option.getD_none, List.append_nil] at told
      simp [State.log, told_append, nothing, ← told]
    · exact kept.le.trans followed.bound
    · intro same
      exact followed.fresh (kept.symm.trans same)
    · intro version later bound
      rcases followed.covered version (kept.symm.trans_lt later) bound with called | posted
      · exact .inl called
      · rw [next] at posted
        rcases List.mem_cons.mp posted with wrong | posted
        · cases wrong
        · exact .inr posted

/-- A notifier reads every subscribed key. -/
theorem sound_notify {answer : Answer} {changed : Nat} {rest : List (Job Request)}
    (laws : Laws service current holds grows finds scans)
    (sound : Sound service current holds state) (idle : state.window = none)
    (next : state.jobs = .notify changed :: rest)
    (scanned : scans state.world state.inner answer) :
    Sound service current holds (takeJob service state answer) := by
  simp only [takeJob, idle, next]
  refine ⟨laws.notify sound.holds scanned, fun key view subscribed => ?_⟩
  obtain ⟨read, old, cached, delivered⟩ := laws.notify_scan sound.holds scanned subscribed
  refine ⟨?_, le_rfl, fun _ => read, fun version later bound => ?_⟩
  · have told := (sound.followed key old cached).told
    simp only [State.log, idle, Option.map_none, Option.getD_none, List.append_nil] at told ⊢
    rw [← List.append_assoc, told_append, told]
    cases posted : Feed.told (service.notify answer state.inner).2 key with
    | none => simpa [posted] using delivered
    | some last => simpa [posted] using delivered
  · exact absurd bound (not_le.mpr later)

theorem sound_step (laws : Laws service current holds grows finds scans)
    {event : Event World Answer Request} (sound : Sound service current holds state)
    (meets : Meets service grows finds scans state event) :
    Sound service current holds (step service state event) := by
  cases event with
  | change world => exact sound_change laws sound meets
  | callback => exact sound_callback sound meets
  | request request => exact sound_request sound
  | raise => exact sound_raise laws sound
  | finish => exact sound_finish sound
  | send => exact sound_send sound
  | run answer =>
      simp only [step]
      cases idle : state.window with
      | some window => simpa [takeJob, idle] using sound
      | none =>
          cases next : state.jobs with
          | nil => simpa [takeJob, idle, next] using sound
          | cons job rest =>
              have taken := meets idle job rest next
              cases job with
              | handle request => exact sound_handle laws sound idle next taken
              | notify version => exact sound_notify laws sound idle next taken

/-- Over a run whose steps meet what they are to meet, every quiescent state has told
    the current view of every subscribed key. -/
theorem quiescent_current (laws : Laws service current holds grows finds scans) {world : World}
    {inner : Inner} (initially : holds world inner)
    (nobody : ∀ key, service.cached inner key = none) {events : List (Event World Answer Request)}
    (meets : ∀ visit ∈ Run.steps (step service)
      (start world inner : State World Request Key View Inner) events,
      Meets service grows finds scans visit.1 visit.2)
    (quiet : (Run.final (step service)
      (start world inner : State World Request Key View Inner) events).Quiescent)
    (subscribed : service.cached (Run.final (step service)
      (start world inner : State World Request Key View Inner) events).inner key = some view) :
    told (Run.final (step service)
        (start world inner : State World Request Key View Inner) events).sent key =
      some (current (Run.final (step service)
        (start world inner : State World Request Key View Inner) events).world key) := by
  have sound := Run.invariant_final (Sound service current holds)
    (Meets service grows finds scans) (fun _ _ sound meets => sound_step laws sound meets)
    (sound_start initially nobody) meets
  exact sound.quiescent quiet subscribed

end Laws

end Feed

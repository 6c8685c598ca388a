import LibbitcoinServer.Lib.Run

/-! # Header and height subscriptions

Both handlers run on the channel strand in three steps: they read the confirmed top,
store a flag and send what was read.  `handle_blockchain_number_of_blocks_subscribe`
stores the flag first; `handle_blockchain_headers_subscribe` reads first.  Each
organized block is notified on its own, by `do_height` or `do_header`, once its
callback finds the flag up.
-/

namespace LibbitcoinServer.Electrum

inductive HeaderMethod where
  | headersSubscribe
  | numberOfBlocksSubscribe
  deriving DecidableEq

/-- Work of the channel strand: the request, or the notifier of a block. -/
inductive HeaderJob where
  | subscribe
  | notify (link : Nat)
  deriving DecidableEq

/-- A handler in progress: whether it has stored the flag, and the top it has read. -/
structure Reply where
  raised : Bool
  read : Option Nat
  deriving DecidableEq

/-- The confirmed chain by its top, the callbacks of its organized blocks, and the
    channel strand with what it has sent. -/
structure Headers where
  top : Nat
  callbacks : List Nat
  subscribed : Bool
  jobs : List HeaderJob
  reply : Option Reply
  responses : List Nat
  notified : List Nat
  deriving DecidableEq

inductive HeaderEvent where
  | organize
  | callback
  | request
  | run
  | proceed (missing : Bool)

namespace Headers

def initial (top : Nat) : Headers := ⟨top, [], false, [], none, [], []⟩

def raise (headers : Headers) (reply : Reply) : Headers :=
  { headers with subscribed := true, reply := some { reply with raised := true } }

def readTop (headers : Headers) (reply : Reply) : Headers :=
  { headers with reply := some { reply with read := some headers.top } }

def respond (headers : Headers) (link : Nat) : Headers :=
  { headers with reply := none, responses := headers.responses ++ [link] }

/-- The next step of a handler.  A header that is missing ends it with an error. -/
def proceed (headers : Headers) (missing : Bool) (reply : Reply) : HeaderMethod → Headers
  | .headersSubscribe =>
      match reply.read with
      | none => if missing then { headers with reply := none } else headers.readTop reply
      | some link => if reply.raised then headers.respond link else headers.raise reply
  | .numberOfBlocksSubscribe =>
      if reply.raised then
        match reply.read with
        | none => headers.readTop reply
        | some link => headers.respond link
      else headers.raise reply

def step (method : HeaderMethod) (headers : Headers) : HeaderEvent → Headers
  | .organize => { headers with
      top := headers.top + 1
      callbacks := headers.callbacks ++ [headers.top + 1] }
  | .callback =>
      match headers.callbacks with
      | [] => headers
      | link :: rest => { headers with
          callbacks := rest
          jobs := if headers.subscribed then headers.jobs ++ [.notify link] else headers.jobs }
  | .request => { headers with jobs := headers.jobs ++ [.subscribe] }
  | .run =>
      match headers.reply, headers.jobs with
      | none, .subscribe :: rest => { headers with jobs := rest, reply := some ⟨false, none⟩ }
      | none, .notify link :: rest => { headers with
          jobs := rest
          notified := headers.notified ++ [link] }
      | _, _ => headers
  | .proceed missing =>
      match headers.reply with
      | none => headers
      | some reply => headers.proceed missing reply method

/-- The top has been read for a response that is sent or on its way. -/
def Answers (headers : Headers) (link : Nat) : Prop :=
  link ∈ headers.responses ∨ ∃ raised, headers.reply = some ⟨raised, some link⟩

/-- A callback that finds the flag down is of no block after an answered top. -/
def Heeded (headers : Headers) : HeaderEvent → Prop
  | .callback => ∀ link rest, headers.callbacks = link :: rest → headers.subscribed = false →
      ∀ top, headers.Answers top → link ≤ top
  | _ => True

structure Quiescent (headers : Headers) : Prop where
  callbacks : headers.callbacks = []
  jobs : headers.jobs = []
  reply : headers.reply = none

/-- Every block after a top that was sent has been notified. -/
def Announced (headers : Headers) : Prop :=
  ∀ top ∈ headers.responses, ∀ link, top < link → link ≤ headers.top → link ∈ headers.notified

/-- A block is notified or its notification is on its way. -/
def Coming (headers : Headers) (link : Nat) : Prop :=
  link ∈ headers.callbacks ∨ .notify link ∈ headers.jobs ∨ link ∈ headers.notified

/-- Every block after an answered top is notified or is on its way. -/
def Covered (headers : Headers) : Prop :=
  ∀ top, headers.Answers top → ∀ link, top < link → link ≤ headers.top → headers.Coming link

variable {headers : Headers} {method : HeaderMethod} {event : HeaderEvent} {missing : Bool}
  {reply : Reply} {link : Nat}

theorem covered_organize (covered : headers.Covered) :
    (headers.step method .organize).Covered := by
  intro top answers link after within
  simp only [step, Coming, List.mem_append, List.mem_singleton] at within ⊢
  rcases Nat.lt_or_ge headers.top link with fresh | old
  · exact .inl (.inr (by omega))
  · rcases covered top answers link after old with called | posted | sent
    · exact .inl (.inl called)
    · exact .inr (.inl posted)
    · exact .inr (.inr sent)

theorem covered_callback (covered : headers.Covered) (heeded : headers.Heeded .callback) :
    (headers.step method .callback).Covered := by
  cases waiting : headers.callbacks with
  | nil => simpa [step, waiting] using covered
  | cons called rest =>
      simp only [step, waiting]
      intro top answers link after within
      have coming := covered top answers link after within
      simp only [Coming, waiting, List.mem_cons] at coming ⊢
      cases up : headers.subscribed with
      | true =>
          rcases coming with (rfl | later) | posted | sent
          · exact .inr (.inl (by simp))
          · exact .inl later
          · exact .inr (.inl (by simp [posted]))
          · exact .inr (.inr sent)
      | false =>
          rcases coming with (rfl | later) | posted | sent
          · exact absurd (heeded link rest waiting up top answers) (not_le.mpr after)
          · exact .inl later
          · exact .inr (.inl (by simpa using posted))
          · exact .inr (.inr sent)

theorem covered_request (covered : headers.Covered) :
    (headers.step method .request).Covered := by
  intro top answers link after within
  rcases covered top answers link after within with called | posted | sent
  · exact .inl called
  · exact .inr (.inl (List.mem_append_left _ posted))
  · exact .inr (.inr sent)

theorem covered_run (covered : headers.Covered) : (headers.step method .run).Covered := by
  simp only [step]
  split
  · rename_i rest idle next
    intro top answers link after within
    have before : headers.Answers top := by
      rcases answers with sent | ⟨raised, reading⟩
      · exact .inl sent
      · cases reading
    rcases covered top before link after within with called | posted | sent
    · exact .inl called
    · rw [next] at posted
      rcases List.mem_cons.mp posted with wrong | posted
      · cases wrong
      · exact .inr (.inl posted)
    · exact .inr (.inr sent)
  · rename_i block rest idle next
    intro top answers link after within
    rcases covered top answers link after within with called | posted | sent
    · exact .inl called
    · rw [next] at posted
      rcases List.mem_cons.mp posted with same | posted
      · obtain rfl : link = block := by simpa using same
        exact .inr (.inr (by simp))
      · exact .inr (.inl posted)
    · exact .inr (.inr (by simp [sent]))
  · exact covered

theorem covered_raise (covered : headers.Covered) (opened : headers.reply = some reply) :
    (headers.raise reply).Covered := by
  intro top answers link after within
  refine covered top ?_ link after within
  rcases answers with sent | ⟨raised, reading⟩
  · exact .inl sent
  · obtain ⟨-, read⟩ := Reply.mk.inj (Option.some.inj reading)
    exact .inr ⟨reply.raised, by rw [opened, ← read]⟩

theorem covered_readTop (covered : headers.Covered) : (headers.readTop reply).Covered := by
  intro top answers link after within
  rcases answers with sent | ⟨raised, reading⟩
  · exact covered top (.inl sent) link after within
  · obtain ⟨-, read⟩ := Reply.mk.inj (Option.some.inj reading)
    obtain rfl := Option.some.inj read
    exact absurd within (not_le.mpr after)

theorem covered_respond (covered : headers.Covered)
    (opened : headers.reply = some ⟨reply.raised, some link⟩) : (headers.respond link).Covered := by
  intro top answers block after within
  refine covered top ?_ block after within
  rcases answers with sent | ⟨raised, reading⟩
  · rcases List.mem_append.mp sent with earlier | now
    · exact .inl earlier
    · obtain rfl := List.mem_singleton.mp now
      exact .inr ⟨reply.raised, opened⟩
  · cases reading

theorem covered_proceed (covered : headers.Covered) :
    (headers.step method (.proceed missing)).Covered := by
  simp only [step]
  cases opened : headers.reply with
  | none => exact covered
  | some reply =>
      have answered : ∀ link, reply.read = some link →
          headers.reply = some ⟨reply.raised, some link⟩ := by
        intro link read
        rw [opened, ← read]
      cases method with
      | headersSubscribe =>
          simp only [proceed]
          cases read : reply.read with
          | some link =>
              dsimp only
              split_ifs
              · exact covered_respond covered (answered link read)
              · exact covered_raise covered opened
          | none =>
              dsimp only
              split_ifs
              · intro top answers link after within
                refine covered top ?_ link after within
                rcases answers with sent | ⟨raised, reading⟩
                · exact .inl sent
                · cases reading
              · exact covered_readTop covered
      | numberOfBlocksSubscribe =>
          simp only [proceed]
          split_ifs
          · cases read : reply.read with
            | some link => exact covered_respond covered (answered link read)
            | none => exact covered_readTop covered
          · exact covered_raise covered opened

theorem covered_step (covered : headers.Covered) (heeded : headers.Heeded event) :
    (headers.step method event).Covered := by
  cases event with
  | organize => exact covered_organize covered
  | callback => exact covered_callback covered heeded
  | request => exact covered_request covered
  | run => exact covered_run covered
  | proceed missing => exact covered_proceed covered

theorem covered_initial {top : Nat} : (initial top).Covered := by
  intro read answers
  rcases answers with sent | ⟨raised, reading⟩
  · cases sent
  · cases reading

theorem Covered.announced (covered : headers.Covered) (quiet : headers.Quiescent) :
    headers.Announced := by
  intro top sent link after within
  rcases covered top (.inl sent) link after within with called | posted | notified
  · rw [quiet.callbacks] at called
    cases called
  · rw [quiet.jobs] at posted
    cases posted
  · exact notified

theorem announced_of_heeded {top : Nat} {events : List HeaderEvent}
    (heeded : ∀ visit ∈ Run.steps (step method) (initial top) events, visit.1.Heeded visit.2)
    (quiet : (Run.final (step method) (initial top) events).Quiescent) :
    (Run.final (step method) (initial top) events).Announced := by
  have covered := Run.invariant_final Covered Heeded
    (fun _ _ covered heeded => covered_step covered heeded) covered_initial heeded
  exact covered.announced quiet

/-- The flag of a height subscription is up before anything is answered. -/
def Flagged (headers : Headers) : Prop :=
  ((∃ top, headers.Answers top) ∨ ∃ reply, headers.reply = some reply ∧ reply.raised) →
    headers.subscribed

theorem flagged_step (flagged : headers.Flagged) :
    (headers.step .numberOfBlocksSubscribe event).Flagged := by
  cases event with
  | organize => exact flagged
  | request => exact flagged
  | callback =>
      simp only [step]
      split
      · exact flagged
      · exact flagged
  | run =>
      simp only [step]
      split
      · intro due
        rcases due with ⟨top, sent | ⟨raised, reading⟩⟩ | ⟨reply, reading, raised⟩
        · exact flagged (.inl ⟨top, .inl sent⟩)
        · cases reading
        · obtain rfl := Option.some.inj reading
          cases raised
      · exact flagged
      · exact flagged
  | proceed missing =>
      simp only [step]
      cases opened : headers.reply with
      | none => exact flagged
      | some reply =>
          simp only [proceed]
          split_ifs with raised
          · have up := flagged (.inr ⟨reply, opened, raised⟩)
            cases reply.read with
            | some link => exact fun _ => up
            | none => exact fun _ => up
          · exact fun _ => rfl

/-- A height subscription heeds every callback. -/
theorem heeded_of_flagged (flagged : headers.Flagged) : headers.Heeded event := by
  cases event with
  | callback =>
      intro link rest waiting down top answers
      exact absurd (flagged (.inl ⟨top, answers⟩)) (by simp [down])
  | _ => trivial

theorem numberOfBlocks_announced {top : Nat} {events : List HeaderEvent}
    (quiet : (Run.final (step .numberOfBlocksSubscribe) (initial top) events).Quiescent) :
    (Run.final (step .numberOfBlocksSubscribe) (initial top) events).Announced := by
  have start : (initial top).Flagged := by
    rintro (⟨read, sent | ⟨raised, reading⟩⟩ | ⟨reply, reading, -⟩)
    · cases sent
    · cases reading
    · cases reading
  refine announced_of_heeded (fun visit member => heeded_of_flagged ?_) quiet
  exact Run.always_steps (fun _ _ flagged => flagged_step flagged) start visit member

end Headers

end LibbitcoinServer.Electrum

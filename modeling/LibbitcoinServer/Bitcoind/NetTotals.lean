import LibbitcoinServer.Lib.Run

/-! # Network totals

A request for the totals broadcasts to the channels, each of which answers with a row of
its bytes, and fetches the totals of the closed channels together with the identifiers
of the active ones once the broadcast is complete.  A row counts where its channel is
still active.  Between the start of a request and its fetch a channel counts once, with
no less than it had and no more than it has.
-/

namespace LibbitcoinServer.Bitcoind

inductive Direction where
  | sent
  | received
  deriving DecidableEq

abbrev Traffic := Direction → Nat

/-- `max_uint64`. -/
def ceiling : Nat := 2 ^ 64 - 1

def ceilingedAdd (left right : Nat) : Nat := min (left + right) ceiling

/-- The channels of the network, with the bytes of each since it opened. -/
structure Net where
  /-- The identifiers below this were used. -/
  next : Nat := 0
  actives : List Nat := []
  bytes : Nat → Traffic := fun _ _ => 0
  /-- The accumulated bytes of the closed channels. -/
  totals : Traffic := fun _ => 0

/-- A row of the diagnostics. -/
structure Row where
  identifier : Nat
  bytes : Traffic

/-- The result of `fetch_totals`, with the channels as they were. -/
structure Totals where
  totals : Traffic
  actives : List Nat
  bytes : Nat → Traffic
  opened : Nat

/-- Work posted to the channel strand. -/
inductive Task where
  | addRow (row : Row)
  /-- `do_invoke_totals`, without the totals where their fetch failed. -/
  | invoke (totals : Option Totals)

inductive CaptureStage where
  | capturing
  | captured
  | done
  deriving DecidableEq

structure Request where
  /-- The channels and their bytes when the request was made. -/
  begun : Nat → Traffic
  opened : Nat
  targets : List Nat
  /-- The sums reported before it was made. -/
  after : Nat
  stopped : Bool := false
  stage : CaptureStage := .capturing
  reached : List Nat := []
  captured : List Row := []
  queue : List Task := []

/-- Sums passed to the handler, with the channels when they were fetched. -/
structure Report where
  sums : Traffic
  begun : Nat → Traffic
  after : Nat
  bytes : Nat → Traffic
  opened : Nat

structure Server where
  net : Net := {}
  requests : List Request := []
  reports : List Report := []
  /-- The requests whose fetch failed. -/
  failures : Nat := 0

inductive NetEvent where
  | open
  | transfer (identifier : Nat) (direction : Direction) (amount : Nat)
  | close (identifier : Nat)
  | request
  | reach (index identifier : Nat)
  | complete (index : Nat)
  | fetch (index : Nat) (failed : Bool)
  | run (index : Nat)
  | stop (index : Nat)

namespace Net

variable (net : Net)

def open_ : Net := { net with next := net.next + 1, actives := net.next :: net.actives }

def transfer (identifier : Nat) (direction : Direction) (amount : Nat) : Net :=
  if identifier ∈ net.actives then
    { net with
      bytes := Function.update net.bytes identifier (Function.update (net.bytes identifier)
        direction (net.bytes identifier direction + amount)) }
  else net

/-- A channel leaves the actives and its bytes join the totals at once. -/
def close (identifier : Nat) : Net :=
  if identifier ∈ net.actives then
    { net with
      actives := net.actives.erase identifier
      totals := fun direction =>
        ceilingedAdd (net.totals direction) (net.bytes identifier direction) }
  else net

def fetchTotals : Totals := ⟨net.totals, net.actives, net.bytes, net.next⟩

end Net

/-- The sums of `do_invoke_totals`. -/
def sums (totals : Totals) (captured : List Row) : Traffic := fun direction =>
  captured.foldl (fun sum row =>
    if row.identifier ∈ totals.actives then ceilingedAdd sum (row.bytes direction) else sum)
    (totals.totals direction)

namespace Request

variable (request : Request)

/-- The broadcast reaches a channel, which posts its row. -/
def reach (net : Net) (identifier : Nat) : Request :=
  if request.stage = .capturing ∧ identifier ∈ net.actives ∧ identifier ∉ request.reached then
    { request with
      reached := request.reached ++ [identifier]
      queue := request.queue ++ [.addRow ⟨identifier, net.bytes identifier⟩] }
  else request

/-- `handle_captured_totals`, once the broadcast has reached every channel that it was
    made to and that is still there. -/
def complete (net : Net) : Request :=
  if request.stage = .capturing ∧
      ∀ identifier ∈ request.targets, identifier ∈ net.actives → identifier ∈ request.reached then
    { request with stage := if request.stopped then .done else .captured }
  else request

/-- `handle_fetch_totals`. -/
def fetch (net : Net) (failed : Bool) : Request :=
  if request.stage = .captured then
    if request.stopped then { request with stage := .done }
    else
      { request with
        stage := .done
        queue := request.queue ++ [.invoke (if failed then none else some net.fetchTotals)] }
  else request

def doAddRow (row : Row) : Request := { request with captured := request.captured ++ [row] }

def report (totals : Totals) : Report where
  sums := sums totals request.captured
  begun := request.begun
  after := request.after
  bytes := totals.bytes
  opened := totals.opened

end Request

namespace Server

variable (server : Server)

/-- `capture_totals`. -/
def captureTotals : Server :=
  { server with
    requests := server.requests ++
      [{ begun := server.net.bytes
         opened := server.net.next
         targets := server.net.actives
         after := server.reports.length }] }

def change (index : Nat) (request : Request) : Server :=
  { server with requests := server.requests.set index request }

/-- The next task of the strand for a request. -/
def run (index : Nat) (request : Request) : Server :=
  match request.queue with
  | [] => server
  | task :: queue =>
      let rest := { request with queue }
      match task with
      | .addRow row => server.change index (rest.doAddRow row)
      | .invoke none => { server.change index rest with failures := server.failures + 1 }
      | .invoke (some totals) =>
          { server.change index rest with reports := server.reports ++ [request.report totals] }

def step : NetEvent → Server
  | .open => { server with net := server.net.open_ }
  | .transfer identifier direction amount =>
      { server with net := server.net.transfer identifier direction amount }
  | .close identifier => { server with net := server.net.close identifier }
  | .request => server.captureTotals
  | .reach index identifier =>
      match server.requests[index]? with
      | none => server
      | some request => server.change index (request.reach server.net identifier)
  | .complete index =>
      match server.requests[index]? with
      | none => server
      | some request => server.change index (request.complete server.net)
  | .fetch index failed =>
      match server.requests[index]? with
      | none => server
      | some request => server.change index (request.fetch server.net failed)
  | .run index =>
      match server.requests[index]? with
      | none => server
      | some request => server.run index request
  | .stop index =>
      match server.requests[index]? with
      | none => server
      | some request => server.change index { request with stopped := true }

end Server

/-! ## The channels -/

namespace Net

/-- The bytes of the channels that were closed. -/
def closed (net : Net) (direction : Direction) : Nat :=
  ∑ identifier ∈ (Finset.range net.next).filter (· ∉ net.actives), net.bytes identifier direction

structure Balanced (net : Net) : Prop where
  distinct : net.actives.Nodup
  below : ∀ identifier ∈ net.actives, identifier < net.next
  unused : ∀ identifier direction, net.next ≤ identifier → net.bytes identifier direction = 0
  totals : ∀ direction, net.totals direction = min (net.closed direction) ceiling

/-- The channels after some events: bytes grow, and no identifier is used again. -/
structure Grown (before after : Net) : Prop where
  next : before.next ≤ after.next
  bytes : ∀ identifier direction,
    before.bytes identifier direction ≤ after.bytes identifier direction
  actives : ∀ identifier ∈ after.actives, identifier ∈ before.actives ∨ before.next ≤ identifier

variable {net : Net}

theorem ceilingedAdd_min (left right : Nat) :
    ceilingedAdd (min left ceiling) right = min (left + right) ceiling := by
  unfold ceilingedAdd
  omega

theorem Balanced.open_ (balanced : net.Balanced) : net.open_.Balanced where
  distinct := List.nodup_cons.mpr
    ⟨fun member => absurd (balanced.below _ member) (lt_irrefl _), balanced.distinct⟩
  below identifier member := by
    rcases List.mem_cons.mp member with rfl | before
    · exact Nat.lt_succ_self _
    · exact (balanced.below identifier before).trans (Nat.lt_succ_self _)
  unused identifier direction above :=
    balanced.unused identifier direction ((Nat.le_succ _).trans above)
  totals direction := by
    have same : net.open_.closed direction = net.closed direction := by
      unfold closed
      apply Finset.sum_congr _ fun _ _ => rfl
      ext identifier
      simp only [Net.open_, Finset.mem_filter, Finset.mem_range, List.mem_cons, not_or]
      constructor
      · rintro ⟨bound, fresh, inactive⟩
        exact ⟨by omega, inactive⟩
      · rintro ⟨bound, inactive⟩
        exact ⟨by omega, by omega, inactive⟩
    rw [same]
    exact balanced.totals direction

theorem Balanced.transfer (balanced : net.Balanced) (identifier : Nat) (direction : Direction)
    (amount : Nat) : (net.transfer identifier direction amount).Balanced := by
  unfold Net.transfer
  split_ifs with active
  · have other : ∀ one, one ≠ identifier → Function.update net.bytes identifier
        (Function.update (net.bytes identifier) direction
          (net.bytes identifier direction + amount)) one = net.bytes one :=
      fun one different => Function.update_of_ne different _ _
    exact
      { distinct := balanced.distinct
        below := balanced.below
        unused := by
          intro one way above
          have different : one ≠ identifier := by
            rintro rfl
            exact absurd (balanced.below _ active) (not_lt.mpr above)
          change Function.update net.bytes identifier _ one way = 0
          rw [other one different]
          exact balanced.unused one way above
        totals := by
          intro way
          rw [balanced.totals way]
          congr 1
          apply Finset.sum_congr rfl
          intro one member
          have inactive := (Finset.mem_filter.mp member).2
          have different : one ≠ identifier := by
            rintro rfl
            exact inactive active
          change net.bytes one way = Function.update net.bytes identifier _ one way
          rw [other one different] }
  · exact balanced

theorem Balanced.close (balanced : net.Balanced) (identifier : Nat) :
    (net.close identifier).Balanced := by
  unfold Net.close
  split_ifs with active
  · exact
      { distinct := balanced.distinct.erase identifier
        below := fun one member => balanced.below one (List.mem_of_mem_erase member)
        unused := balanced.unused
        totals := by
          intro direction
          dsimp only
          rw [balanced.totals direction, ceilingedAdd_min]
          congr 1
          have more : (Finset.range net.next).filter (· ∉ net.actives.erase identifier) =
              insert identifier ((Finset.range net.next).filter (· ∉ net.actives)) := by
            ext one
            have bound := balanced.below identifier active
            simp only [Finset.mem_filter, Finset.mem_range, Finset.mem_insert,
              balanced.distinct.mem_erase_iff]
            by_cases same : one = identifier
            · subst same
              simp [bound]
            · simp [same]
          unfold closed
          rw [more, Finset.sum_insert (by simp [active])]
          exact Nat.add_comm _ _ }
  · exact balanced

theorem grown_open (net : Net) : Grown net net.open_ where
  next := Nat.le_succ _
  bytes _ _ := le_rfl
  actives identifier member := by
    rcases List.mem_cons.mp member with rfl | before
    · exact .inr le_rfl
    · exact .inl before

theorem grown_transfer (net : Net) (identifier : Nat) (direction : Direction) (amount : Nat) :
    Grown net (net.transfer identifier direction amount) := by
  unfold Net.transfer
  split_ifs
  · refine ⟨le_rfl, ?_, fun _ member => .inl member⟩
    intro one way
    by_cases same : one = identifier
    · subst same
      by_cases here : way = direction
      · subst here
        simp
      · simp [Function.update_of_ne here]
    · simp [Function.update_of_ne same]
  · exact ⟨le_rfl, fun _ _ => le_rfl, fun _ member => .inl member⟩

theorem grown_close (net : Net) (identifier : Nat) : Grown net (net.close identifier) := by
  unfold Net.close
  split_ifs
  · exact ⟨le_rfl, fun _ _ => le_rfl, fun _ member => .inl (List.mem_of_mem_erase member)⟩
  · exact ⟨le_rfl, fun _ _ => le_rfl, fun _ member => .inl member⟩

end Net

/-! ## The sums of a report -/

/-- The bytes of the rows of a channel. -/
def counted (rows : List Row) (identifier : Nat) (direction : Direction) : Nat :=
  ((rows.filter (·.identifier = identifier)).map (·.bytes direction)).sum

theorem counted_cons (row : Row) (rows : List Row) (identifier : Nat) (direction : Direction) :
    counted (row :: rows) identifier direction =
      (if row.identifier = identifier then row.bytes direction else 0) +
        counted rows identifier direction := by
  unfold counted
  rw [List.filter_cons]
  by_cases same : row.identifier = identifier <;> simp [same]

/-- Rows of distinct channels count each of them once. -/
theorem counted_le {rows : List Row} (distinct : (rows.map Row.identifier).Nodup)
    {identifier : Nat} {direction : Direction} {bound : Nat}
    (below : ∀ row ∈ rows, row.identifier = identifier → row.bytes direction ≤ bound) :
    counted rows identifier direction ≤ bound := by
  induction rows with
  | nil => exact Nat.zero_le _
  | cons row rows ih =>
      obtain ⟨fresh, others⟩ := List.nodup_cons.mp distinct
      rw [counted_cons]
      split_ifs with same
      · have none : rows.filter (·.identifier = identifier) = [] := by
          rw [List.filter_eq_nil_iff]
          intro other member here
          apply fresh
          rw [same, ← of_decide_eq_true here]
          exact List.mem_map_of_mem member
        have rest : counted rows identifier direction = 0 := by simp [counted, none]
        rw [rest, Nat.add_zero]
        exact below row List.mem_cons_self same
      · rw [Nat.zero_add]
        exact ih others fun other member => below other (List.mem_cons_of_mem _ member)

theorem le_counted {rows : List Row} {row : Row} (member : row ∈ rows) (direction : Direction) :
    row.bytes direction ≤ counted rows row.identifier direction := by
  apply List.le_sum_of_mem
  apply List.mem_map_of_mem
  exact List.mem_filter.mpr ⟨member, decide_eq_true rfl⟩

/-- What a channel adds to the sums: its rows while it is active, then its own bytes. -/
def contribution (totals : Totals) (rows : List Row) (identifier : Nat) : Traffic :=
  fun direction =>
    if identifier ∈ totals.actives then counted rows identifier direction
    else totals.bytes identifier direction

/-- The rows of a set of channels, by channel. -/
theorem sum_counted (rows : List Row) (channels : Finset Nat) (direction : Direction) :
    ∑ identifier ∈ channels, counted rows identifier direction =
      ((rows.filter (·.identifier ∈ channels)).map (·.bytes direction)).sum := by
  induction rows with
  | nil => simp [counted]
  | cons row rows ih =>
      simp only [counted_cons, Finset.sum_add_distrib, Finset.sum_ite_eq, ih]
      rw [List.filter_cons]
      by_cases member : row.identifier ∈ channels <;> simp [member]

theorem foldl_ceilingedAdd (actives : List Nat) (rows : List Row) (direction : Direction)
    (start : Nat) :
    rows.foldl (fun sum row =>
        if row.identifier ∈ actives then ceilingedAdd sum (row.bytes direction) else sum)
        (min start ceiling) =
      min (start + ((rows.filter (·.identifier ∈ actives)).map (·.bytes direction)).sum)
        ceiling := by
  induction rows generalizing start with
  | nil => simp
  | cons row rows ih =>
      rw [List.foldl_cons, List.filter_cons]
      by_cases active : row.identifier ∈ actives
      · simp only [active, if_true, decide_true, Net.ceilingedAdd_min, ih, List.map_cons,
          List.sum_cons]
        rw [Nat.add_assoc]
      · simp [active, ih]

/-- The sums are those of the contributions, each channel once. -/
theorem sums_eq {totals : Totals} {rows : List Row} {direction : Direction}
    (below : ∀ identifier ∈ totals.actives, identifier < totals.opened)
    (closed : totals.totals direction =
      min (∑ identifier ∈ (Finset.range totals.opened).filter (· ∉ totals.actives),
        totals.bytes identifier direction) ceiling) :
    sums totals rows direction =
      min (∑ identifier ∈ Finset.range totals.opened,
        contribution totals rows identifier direction) ceiling := by
  have inside : ∀ row : Row, row.identifier ∈ (Finset.range totals.opened).filter
      (· ∈ totals.actives) ↔ row.identifier ∈ totals.actives := by
    intro row
    simp only [Finset.mem_filter, Finset.mem_range, and_iff_right_iff_imp]
    exact below row.identifier
  unfold sums
  rw [closed, foldl_ceilingedAdd]
  congr 1
  have active := sum_counted rows ((Finset.range totals.opened).filter (· ∈ totals.actives))
    direction
  simp only [inside] at active
  rw [← active, ← Finset.sum_filter_add_sum_filter_not (Finset.range totals.opened)
    (· ∈ totals.actives) (fun identifier => contribution totals rows identifier direction),
    Nat.add_comm]
  congr 1
  · apply Finset.sum_congr rfl
    intro identifier member
    rw [contribution, if_pos (Finset.mem_filter.mp member).2]
  · apply Finset.sum_congr rfl
    intro identifier member
    rw [contribution, if_neg (Finset.mem_filter.mp member).2]

/-! ## The requests -/

def Task.row? : Task → Option Row
  | .addRow row => some row
  | .invoke _ => none

namespace Request

/-- The rows captured, and those that are posted. -/
def rows (request : Request) : List Row := request.captured ++ request.queue.filterMap Task.row?

/-- What was fetched for a request covers what it began with. -/
structure Fetched (request : Request) (totals : Totals) : Prop where
  below : ∀ identifier ∈ totals.actives, identifier < totals.opened
  closed : ∀ direction, totals.totals direction =
    min (∑ identifier ∈ (Finset.range totals.opened).filter (· ∉ totals.actives),
      totals.bytes identifier direction) ceiling
  opened : request.opened ≤ totals.opened
  begun : ∀ identifier direction,
    request.begun identifier direction ≤ totals.bytes identifier direction
  rows_le : ∀ row ∈ request.rows, ∀ direction,
    row.bytes direction ≤ totals.bytes row.identifier direction
  reached : ∀ identifier ∈ totals.actives, identifier ∉ request.reached →
    ∀ direction, request.begun identifier direction = 0

structure Tracked (net : Net) (request : Request) : Prop where
  distinct : request.reached.Nodup
  reached : request.rows.map Row.identifier = request.reached
  opened : request.opened ≤ net.next
  targets : ∀ identifier ∈ request.targets, identifier < net.next
  begun : ∀ identifier direction,
    request.begun identifier direction ≤ net.bytes identifier direction
  began_le : ∀ row ∈ request.rows, ∀ direction,
    request.begun row.identifier direction ≤ row.bytes direction
  rows_le : ∀ row ∈ request.rows, ∀ direction,
    row.bytes direction ≤ net.bytes row.identifier direction
  /-- A channel that had bytes and is still there was a target. -/
  stays : ∀ identifier ∈ net.actives, identifier ∉ request.targets →
    ∀ direction, request.begun identifier direction = 0
  complete : request.stage ≠ .capturing →
    ∀ identifier ∈ request.targets, identifier ∈ net.actives → identifier ∈ request.reached
  posted : ∀ fetched, .invoke fetched ∈ request.queue → request.stage = .done
  fetched : ∀ totals, .invoke (some totals) ∈ request.queue → request.Fetched totals
  past : ∀ totals, .invoke (some totals) ∈ request.queue → totals.opened ≤ net.next ∧
    ∀ identifier direction, totals.bytes identifier direction ≤ net.bytes identifier direction
  /-- The sums are formed last, once all rows are captured. -/
  last : ∀ before fetched after, request.queue = before ++ .invoke fetched :: after → after = []

variable {net : Net} {request : Request}

theorem Tracked.grown {after : Net} (tracked : request.Tracked net) (balanced : net.Balanced)
    (grown : Net.Grown net after) : request.Tracked after :=
  { tracked with
    opened := tracked.opened.trans grown.next
    targets := fun identifier member => (tracked.targets identifier member).trans_le grown.next
    begun := fun identifier direction =>
      (tracked.begun identifier direction).trans (grown.bytes identifier direction)
    rows_le := fun row member direction =>
      (tracked.rows_le row member direction).trans (grown.bytes row.identifier direction)
    stays := by
      intro identifier active other direction
      rcases grown.actives identifier active with before | fresh
      · exact tracked.stays identifier before other direction
      · have bound := tracked.begun identifier direction
        rw [balanced.unused identifier direction fresh] at bound
        exact Nat.le_zero.mp bound
    complete := by
      intro past identifier target active
      have bound := tracked.targets identifier target
      rcases grown.actives identifier active with before | fresh
      · exact tracked.complete past identifier target before
      · omega
    past := by
      intro totals member
      obtain ⟨opened, bytes⟩ := tracked.past totals member
      exact ⟨opened.trans grown.next, fun identifier direction =>
        (bytes identifier direction).trans (grown.bytes identifier direction)⟩ }

/-- Before the fetch no sums are posted. -/
theorem Tracked.unposted (tracked : request.Tracked net) (early : request.stage ≠ .done)
    (fetched : Option Totals) : .invoke fetched ∉ request.queue :=
  fun member => early (tracked.posted fetched member)

/-- The row of a channel that is reached. -/
theorem Tracked.reach (tracked : request.Tracked net) (identifier : Nat) :
    (request.reach net identifier).Tracked net := by
  unfold Request.reach
  split_ifs with ready
  · obtain ⟨capturing, active, fresh⟩ := ready
    have rows : ∀ row ∈ Request.rows { request with
        reached := request.reached ++ [identifier]
        queue := request.queue ++ [.addRow ⟨identifier, net.bytes identifier⟩] },
        row ∈ request.rows ∨ row = ⟨identifier, net.bytes identifier⟩ := by
      intro row member
      simp only [Request.rows, List.filterMap_append, List.mem_append] at member ⊢
      rcases member with captured | queued | new
      · exact .inl (.inl captured)
      · exact .inl (.inr queued)
      · exact .inr (by simpa [Task.row?] using new)
    have none := tracked.unposted (by simp [capturing])
    have queued : ∀ fetched, .invoke fetched ∉
        request.queue ++ [.addRow ⟨identifier, net.bytes identifier⟩] := by
      intro fetched member
      rcases List.mem_append.mp member with before | new
      · exact none fetched before
      · simp at new
    exact
      { tracked with
        distinct := by
          rw [List.nodup_append]
          refine ⟨tracked.distinct, by simp, ?_⟩
          rintro one before _ new rfl
          rw [List.mem_singleton] at new
          exact fresh (new ▸ before)
        reached := by
          rw [← tracked.reached]
          simp [Request.rows, Task.row?]
        began_le := by
          intro row member direction
          rcases rows row member with before | rfl
          · exact tracked.began_le row before direction
          · exact tracked.begun identifier direction
        rows_le := by
          intro row member direction
          rcases rows row member with before | rfl
          · exact tracked.rows_le row before direction
          · exact le_rfl
        complete := fun past => absurd capturing past
        posted := fun fetched member => absurd member (queued fetched)
        fetched := fun totals member => absurd member (queued (some totals))
        past := fun totals member => absurd member (queued (some totals))
        last := by
          intro before fetched after split
          refine absurd ?_ (queued fetched)
          dsimp only at split
          rw [split]
          simp }
  · exact tracked

/-- The broadcast is past, and nothing is fetched. -/
theorem Tracked.moved (tracked : request.Tracked net) (early : request.stage ≠ .done)
    (covers : ∀ identifier ∈ request.targets, identifier ∈ net.actives →
      identifier ∈ request.reached) (stage : CaptureStage) :
    { request with stage }.Tracked net :=
  { tracked with
    complete := fun _ => covers
    posted := fun fetched member => absurd member (tracked.unposted early fetched)
    fetched := fun totals member => absurd member (tracked.unposted early (some totals)) }

theorem Tracked.completed (tracked : request.Tracked net) : (request.complete net).Tracked net := by
  unfold Request.complete
  by_cases ready : request.stage = .capturing ∧ ∀ identifier ∈ request.targets,
      identifier ∈ net.actives → identifier ∈ request.reached
  · rw [if_pos ready]
    exact tracked.moved (by simp [ready.1]) ready.2 _
  · rw [if_neg ready]
    exact tracked

/-- What is fetched after the broadcast covers the targets that are still there. -/
theorem Tracked.fetchTotals (tracked : request.Tracked net) (balanced : net.Balanced)
    (past : request.stage ≠ .capturing) : request.Fetched net.fetchTotals where
  below := balanced.below
  closed := balanced.totals
  opened := tracked.opened
  begun := tracked.begun
  rows_le := tracked.rows_le
  reached := by
    intro identifier active unreached direction
    apply tracked.stays identifier active
    intro target
    exact unreached (tracked.complete past identifier target active)

/-- A request whose rows and channels are the same keeps what was fetched for it. -/
theorem Fetched.congr {other : Request} {totals : Totals} (fetched : request.Fetched totals)
    (rows : other.rows = request.rows) (reached : other.reached = request.reached)
    (begun : other.begun = request.begun) (opened : other.opened = request.opened) :
    other.Fetched totals where
  below := fetched.below
  closed := fetched.closed
  opened := opened ▸ fetched.opened
  begun := begun ▸ fetched.begun
  rows_le := rows ▸ fetched.rows_le
  reached := by
    rw [reached, begun]
    exact fetched.reached

theorem Tracked.fetch (tracked : request.Tracked net) (balanced : net.Balanced) (failed : Bool) :
    (request.fetch net failed).Tracked net := by
  unfold Request.fetch
  by_cases captured : request.stage = .captured
  · have past : request.stage ≠ .capturing := by simp [captured]
    have early : request.stage ≠ .done := by simp [captured]
    rw [if_pos captured]
    by_cases stopped : request.stopped
    · rw [if_pos stopped]
      exact tracked.moved early (tracked.complete past) _
    · rw [if_neg stopped]
      generalize same : (if failed then none else some net.fetchTotals) = result
      have fetches : ∀ totals, Task.invoke (some totals) ∈ [Task.invoke result] →
          net.fetchTotals = totals := by
        intro totals new
        obtain rfl : some totals = result := by simpa using new
        cases failed <;> simp_all
      have rows : Request.rows { request with
          stage := .done, queue := request.queue ++ [.invoke result] } = request.rows := by
        simp [Request.rows, Task.row?]
      exact
        { tracked with
          reached := by rw [rows]; exact tracked.reached
          began_le := by rw [rows]; exact tracked.began_le
          rows_le := by rw [rows]; exact tracked.rows_le
          complete := fun _ => tracked.complete past
          posted := fun _ _ => rfl
          fetched := by
            intro totals member
            rcases List.mem_append.mp member with before | new
            · exact absurd before (tracked.unposted early _)
            · obtain rfl : net.fetchTotals = totals := fetches totals new
              exact (tracked.fetchTotals balanced past).congr rows rfl rfl rfl
          past := by
            intro totals member
            rcases List.mem_append.mp member with before | new
            · exact absurd before (tracked.unposted early _)
            · obtain rfl : net.fetchTotals = totals := fetches totals new
              exact ⟨le_rfl, fun _ _ => le_rfl⟩
          last := by
            intro before fetched after split
            dsimp only at split
            rcases List.eq_nil_or_concat after with none | ⟨front, final, rfl⟩
            · exact none
            · -- The first of two would stand among the tasks before.
              have front_eq : request.queue = before ++ .invoke fetched :: front := by
                rw [List.concat_eq_append, ← List.cons_append, ← List.append_assoc] at split
                exact (List.append_inj' split rfl).1
              refine absurd ?_ (tracked.unposted early fetched)
              rw [front_eq]
              simp }
  · rw [if_neg captured]
    exact tracked

theorem Tracked.stop (tracked : request.Tracked net) :
    { request with stopped := true }.Tracked net :=
  { tracked with
    fetched := fun totals member => (tracked.fetched totals member).congr rfl rfl rfl rfl }

/-- A row that was posted is captured. -/
theorem Tracked.addRow {row : Row} {queue : List Task} (tracked : request.Tracked net)
    (head : request.queue = .addRow row :: queue) :
    ({ request with queue }.doAddRow row).Tracked net := by
  have rows : ({ request with queue }.doAddRow row).rows = request.rows := by
    simp [Request.rows, Request.doAddRow, head, Task.row?]
  have later : ∀ task, task ∈ queue → task ∈ request.queue := by
    intro task member
    rw [head]
    exact List.mem_cons_of_mem _ member
  exact
    { tracked with
      reached := by rw [rows]; exact tracked.reached
      began_le := by rw [rows]; exact tracked.began_le
      rows_le := by rw [rows]; exact tracked.rows_le
      posted := fun fetched member => tracked.posted fetched (later _ member)
      fetched := fun totals member =>
        (tracked.fetched totals (later _ member)).congr rows rfl rfl rfl
      past := fun totals member => tracked.past totals (later _ member)
      last := by
        intro before fetched after split
        apply tracked.last (.addRow row :: before) fetched after
        rw [head, List.cons_append]
        exact congrArg _ split }

/-- The sums were formed. -/
theorem Tracked.invoked {fetched : Option Totals} {queue : List Task}
    (tracked : request.Tracked net) (head : request.queue = .invoke fetched :: queue) :
    { request with queue }.Tracked net := by
  have none : queue = [] := tracked.last [] fetched queue head
  subst none
  have rows : Request.rows { request with queue := [] } = request.rows := by
    simp [Request.rows, head, Task.row?]
  exact
    { tracked with
      reached := by rw [rows]; exact tracked.reached
      began_le := by rw [rows]; exact tracked.began_le
      rows_le := by rw [rows]; exact tracked.rows_le
      posted := fun _ member => absurd member (by simp)
      fetched := fun _ member => absurd member (by simp)
      past := fun _ member => absurd member (by simp)
      last := fun before _ after split => absurd split (by simp) }

end Request

/-! ## The reports -/

/-- Every channel contributes once, no less than it had when the request was made and no
    more than it has. -/
def Report.Sound (report : Report) : Prop :=
  ∃ contributed : Nat → Traffic,
    (∀ identifier direction, report.begun identifier direction ≤ contributed identifier direction ∧
      contributed identifier direction ≤ report.bytes identifier direction) ∧
    ∀ direction, report.sums direction =
      min (∑ identifier ∈ Finset.range report.opened, contributed identifier direction) ceiling

/-- The sums are formed of all rows, as they were when fetched. -/
theorem Request.Tracked.sound {net : Net} {request : Request} {totals : Totals}
    {queue : List Task} (tracked : request.Tracked net)
    (head : request.queue = .invoke (some totals) :: queue) : (request.report totals).Sound := by
  have none : queue = [] := tracked.last [] (some totals) queue head
  have fetched := tracked.fetched totals (by rw [head]; simp)
  have rows : request.rows = request.captured := by
    simp [Request.rows, head, none, Task.row?]
  have distinct : (request.captured.map Row.identifier).Nodup := by
    rw [← rows, tracked.reached]
    exact tracked.distinct
  refine ⟨contribution totals request.captured, ?_, ?_⟩
  · intro identifier direction
    unfold contribution
    split_ifs with active
    · constructor
      · change request.begun identifier direction ≤ _
        by_cases reached : identifier ∈ request.reached
        · rw [← tracked.reached] at reached
          obtain ⟨row, member, rfl⟩ := List.mem_map.mp reached
          exact (tracked.began_le row member direction).trans (le_counted (rows ▸ member) direction)
        · rw [fetched.reached identifier active reached direction]
          exact Nat.zero_le _
      · apply counted_le distinct
        rintro row member rfl
        exact fetched.rows_le row (rows ▸ member) direction
    · exact ⟨fetched.begun identifier direction, le_rfl⟩
  · intro direction
    exact sums_eq fetched.below (fetched.closed direction)

/-- The reports made before a request were fetched before it was made. -/
def Since (reports : List Report) (begun : Nat → Traffic) (opened after : Nat) : Prop :=
  after ≤ reports.length ∧ ∀ index < after, ∀ earlier, reports[index]? = some earlier →
    earlier.opened ≤ opened ∧
    ∀ identifier direction, earlier.bytes identifier direction ≤ begun identifier direction

theorem Since.append {reports : List Report} {begun : Nat → Traffic} {opened after : Nat}
    (since : Since reports begun opened after) (report : Report) :
    Since (reports ++ [report]) begun opened after := by
  refine ⟨since.1.trans (by simp), ?_⟩
  intro index early earlier here
  rw [List.getElem?_append_left (early.trans_le since.1)] at here
  exact since.2 index early earlier here

namespace Server

structure Inside (server : Server) : Prop where
  balanced : server.net.Balanced
  tracked : ∀ request ∈ server.requests, request.Tracked server.net
  since : ∀ request ∈ server.requests,
    Since server.reports request.begun request.opened request.after
  sound : ∀ report ∈ server.reports, report.Sound
  reported : ∀ report ∈ server.reports, report.opened ≤ server.net.next ∧
    ∀ identifier direction,
      report.bytes identifier direction ≤ server.net.bytes identifier direction
  follows : ∀ report ∈ server.reports,
    Since server.reports report.begun report.opened report.after

variable {server : Server}

/-- The channels moved on. -/
theorem Inside.grown (inside : server.Inside) {net : Net} (balanced : net.Balanced)
    (grown : Net.Grown server.net net) : { server with net }.Inside :=
  { inside with
    balanced := balanced
    tracked := fun request member => (inside.tracked request member).grown inside.balanced grown
    reported := by
      intro report member
      obtain ⟨opened, bytes⟩ := inside.reported report member
      exact ⟨opened.trans grown.next, fun identifier direction =>
        (bytes identifier direction).trans (grown.bytes identifier direction)⟩ }

theorem Inside.captureTotals (inside : server.Inside) : server.captureTotals.Inside := by
  have new : ∀ request ∈ server.captureTotals.requests, request ∈ server.requests ∨
      request = { begun := server.net.bytes
                  opened := server.net.next
                  targets := server.net.actives
                  after := server.reports.length } := by
    intro request member
    rcases List.mem_append.mp member with before | made
    · exact .inl before
    · exact .inr (List.mem_singleton.mp made)
  exact
    { inside with
      tracked := by
        intro request member
        rcases new request member with before | rfl
        · exact inside.tracked request before
        · exact
            { distinct := .nil
              reached := rfl
              opened := le_rfl
              targets := inside.balanced.below
              begun := fun _ _ => le_rfl
              began_le := fun _ member => absurd member (by simp [Request.rows])
              rows_le := fun _ member => absurd member (by simp [Request.rows])
              stays := fun _ active other => absurd active other
              complete := fun past => absurd rfl past
              posted := fun _ member => absurd member (by simp)
              fetched := fun _ member => absurd member (by simp)
              past := fun _ member => absurd member (by simp)
              last := fun _ _ _ split => absurd split (by simp) }
      since := by
        intro request member
        rcases new request member with before | rfl
        · exact inside.since request before
        · refine ⟨le_rfl, ?_⟩
          intro index _ earlier here
          exact inside.reported earlier (List.mem_of_getElem? here) }

/-- A request moved on, from what it was made with. -/
theorem Inside.change (inside : server.Inside) {index : Nat} {before after : Request}
    (found : server.requests[index]? = some before) (tracked : after.Tracked server.net)
    (begun : after.begun = before.begun) (opened : after.opened = before.opened)
    (made : after.after = before.after) : (server.change index after).Inside := by
  have member := List.mem_of_getElem? found
  exact
    { inside with
      tracked := by
        intro request here
        rcases List.mem_or_eq_of_mem_set here with old | rfl
        · exact inside.tracked request old
        · exact tracked
      since := by
        intro request here
        rcases List.mem_or_eq_of_mem_set here with old | rfl
        · exact inside.since request old
        · rw [begun, opened, made]
          exact inside.since before member }

theorem Inside.run (inside : server.Inside) {index : Nat} {request : Request}
    (found : server.requests[index]? = some request) : (server.run index request).Inside := by
  have tracked := inside.tracked request (List.mem_of_getElem? found)
  unfold Server.run
  cases head : request.queue with
  | nil => exact inside
  | cons task queue =>
      cases task with
      | addRow row => exact inside.change found (tracked.addRow head) rfl rfl rfl
      | invoke fetched =>
          have moved := inside.change found (tracked.invoked head) rfl rfl rfl
          cases fetched with
          | none => exact { moved with }
          | some totals =>
              have since := inside.since request (List.mem_of_getElem? found)
              have fetched := tracked.fetched totals (by rw [head]; simp)
              have follows : Since (server.reports ++ [request.report totals]) request.begun
                  totals.opened request.after := by
                refine ⟨(since.append _).1, ?_⟩
                intro place early earlier here
                obtain ⟨opened, bytes⟩ := (since.append _).2 place early earlier here
                exact ⟨opened.trans fetched.opened, bytes⟩
              exact
                { balanced := moved.balanced
                  tracked := moved.tracked
                  since := fun other member => (moved.since other member).append _
                  sound := by
                    intro report member
                    rcases List.mem_append.mp member with old | new
                    · exact inside.sound report old
                    · rw [List.mem_singleton.mp new]
                      exact tracked.sound head
                  reported := by
                    intro report member
                    rcases List.mem_append.mp member with old | new
                    · exact inside.reported report old
                    · rw [List.mem_singleton.mp new]
                      exact tracked.past totals (by rw [head]; simp)
                  follows := by
                    intro report member
                    rcases List.mem_append.mp member with old | new
                    · exact (inside.follows report old).append _
                    · rw [List.mem_singleton.mp new]
                      exact follows }

theorem Inside.step (inside : server.Inside) (event : NetEvent) : (server.step event).Inside := by
  cases event with
  | «open» => exact inside.grown inside.balanced.open_ (Net.grown_open _)
  | transfer identifier direction amount =>
      exact inside.grown (inside.balanced.transfer identifier direction amount)
        (Net.grown_transfer _ identifier direction amount)
  | close identifier =>
      exact inside.grown (inside.balanced.close identifier) (Net.grown_close _ identifier)
  | request => exact inside.captureTotals
  | reach index identifier =>
      simp only [Server.step]
      cases found : server.requests[index]? with
      | none => exact inside
      | some request =>
          have tracked := inside.tracked request (List.mem_of_getElem? found)
          apply inside.change found (tracked.reach identifier)
          all_goals
            unfold Request.reach
            split_ifs <;> rfl
  | complete index =>
      simp only [Server.step]
      cases found : server.requests[index]? with
      | none => exact inside
      | some request =>
          have tracked := inside.tracked request (List.mem_of_getElem? found)
          apply inside.change found tracked.completed
          all_goals
            unfold Request.complete
            split_ifs <;> rfl
  | fetch index failed =>
      simp only [Server.step]
      cases found : server.requests[index]? with
      | none => exact inside
      | some request =>
          have tracked := inside.tracked request (List.mem_of_getElem? found)
          apply inside.change found (tracked.fetch inside.balanced failed)
          all_goals
            unfold Request.fetch
            split_ifs <;> rfl
  | run index =>
      simp only [Server.step]
      cases found : server.requests[index]? with
      | none => exact inside
      | some request => exact inside.run found
  | stop index =>
      simp only [Server.step]
      cases found : server.requests[index]? with
      | none => exact inside
      | some request =>
          have tracked := inside.tracked request (List.mem_of_getElem? found)
          exact inside.change found tracked.stop rfl rfl rfl

theorem inside_start : ({} : Server).Inside where
  balanced :=
    { distinct := .nil
      below := fun _ member => absurd member (by simp)
      unused := fun _ _ _ => rfl
      totals := fun _ => by simp [Net.closed] }
  tracked := fun _ member => absurd member (by simp)
  since := fun _ member => absurd member (by simp)
  sound := fun _ member => absurd member (by simp)
  reported := fun _ member => absurd member (by simp)
  follows := fun _ member => absurd member (by simp)

/-- In every run each channel contributes to the sums of a report once, with no more than
    its bytes at that time, and the sums of a request that was made after others were
    reported are not smaller. -/
theorem totals_once_and_forward (events : List NetEvent) :
    let server := Run.final Server.step {} events
    (∀ report ∈ server.reports, report.Sound ∧ ∀ identifier direction,
      report.bytes identifier direction ≤ server.net.bytes identifier direction) ∧
    ∀ (first second : Nat) (earlier later : Report), server.reports[first]? = some earlier →
      server.reports[second]? = some later → first < later.after →
      ∀ direction, earlier.sums direction ≤ later.sums direction := by
  intro server
  have inside : server.Inside :=
    Run.always_final (fun _ event inside => inside.step event) inside_start
  refine ⟨fun report member => ⟨inside.sound report member, (inside.reported report member).2⟩, ?_⟩
  intro first second earlier later here there before direction
  have member := List.mem_of_getElem? there
  obtain ⟨_, since⟩ := inside.follows later member
  obtain ⟨opened, bytes⟩ := since first before earlier here
  obtain ⟨shares, share_le, share_sum⟩ := inside.sound earlier (List.mem_of_getElem? here)
  obtain ⟨parts, part_le, part_sum⟩ := inside.sound later member
  rw [share_sum, part_sum]
  apply min_le_min_right
  calc ∑ identifier ∈ Finset.range earlier.opened, shares identifier direction
      ≤ ∑ identifier ∈ Finset.range earlier.opened, parts identifier direction := by
        apply Finset.sum_le_sum
        intro identifier _
        exact ((share_le identifier direction).2.trans (bytes identifier direction)).trans
          (part_le identifier direction).1
    _ ≤ ∑ identifier ∈ Finset.range later.opened, parts identifier direction := by
        apply Finset.sum_le_sum_of_subset
        exact Finset.range_mono opened

/-- A channel that is captured, closes and is counted among the closed ones. -/
private def closedBetween : List NetEvent :=
  [.open, .transfer 0 .sent 5, .request, .reach 0 0, .complete 0, .fetch 0 false, .run 0, .run 0,
    .transfer 0 .sent 2, .request, .reach 1 0, .close 0, .complete 1, .fetch 1 false, .run 1,
    .run 1]

theorem totals_closed_between :
    ∃ earlier later : Report,
      (Run.final Server.step {} closedBetween).reports = [earlier, later] ∧
      earlier.sums .sent = 5 ∧ later.sums .sent = 7 ∧ 0 < later.after ∧
      earlier.sums .sent ≤ later.sums .sent := by
  refine ⟨_, _, rfl, rfl, rfl, by decide, ?_⟩
  exact (totals_once_and_forward closedBetween).2 0 1 _ _ rfl rfl (by decide) .sent

end Server

end LibbitcoinServer.Bitcoind

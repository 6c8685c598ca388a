import LibbitcoinServer.Lib.Text
import LibbitcoinServer.Sparrow.Silent

/-! # The cuts of silent subscriptions

A request starts from a height or a time, or is for a range of either.  As long as the requests
for an address are of one kind, the cut that is held for it starts from the least of them.
-/

namespace LibbitcoinServer.Sparrow

/-- An `interface::value_t`. -/
inductive CutValue where
  | null
  | number (value : ℚ)
  | string (text : String)
  | other

/-- `chain::locktime_threshold`. -/
def locktimeThreshold : Nat := 500000000

section ToCut

-- The tokens of a text, and the number that a token is read to.
variable (split : String → List String) (deserialize : String → Option Nat)

def toRange (start stop : Nat) : Option SilentCut :=
  if start > stop then none
  else if locktimeThreshold ≤ start ↔ locktimeThreshold ≤ stop then
    some ⟨start, stop, locktimeThreshold ≤ start⟩
  else none

/-- A range of two tokens. -/
def toTokens : List String → Option SilentCut
  | [first, last] => do
      let start ← deserialize first
      let stop ← deserialize last
      toRange start stop
  | _ => none

def toCut : CutValue → Option SilentCut
  | .null => some {}
  | .number value =>
      (Text.toInteger (2 ^ 32) value).map fun start =>
        { start, time := locktimeThreshold ≤ start }
  | .string text => toTokens deserialize (split text)
  | .other => none

/-- A cut of heights or of times, from its start to its stop. -/
structure SilentCut.WellFormed (cut : SilentCut) : Prop where
  ordered : cut.start ≤ cut.stop
  bounded : cut.stop ≤ maxSize
  kind : cut.time = true ↔ locktimeThreshold ≤ cut.start
  closes : cut.stop = maxSize ∨ (cut.time = true ↔ locktimeThreshold ≤ cut.stop)

variable {split} {deserialize}

theorem wellFormed_of_toCut (fits : ∀ {text value}, deserialize text = some value → value ≤ maxSize)
    {value : CutValue} {cut : SilentCut} (parsed : toCut split deserialize value = some cut) :
    cut.WellFormed := by
  cases value with
  | null =>
      cases parsed
      exact ⟨Nat.zero_le _, Nat.le_refl _, by simp [locktimeThreshold], .inl rfl⟩
  | other => cases parsed
  | number number =>
      obtain ⟨start, read, rfl⟩ := Option.map_eq_some_iff.mp parsed
      unfold Text.toInteger at read
      split_ifs at read with holds
      cases read
      refine ⟨?_, Nat.le_refl _, decide_eq_true_iff, .inl rfl⟩
      have small : number.num.toNat < 2 ^ 32 := holds.2.2
      have wide : 2 ^ 32 ≤ maxSize := by decide
      exact (small.trans_le wide).le
  | string text =>
      change toTokens deserialize (split text) = some cut at parsed
      unfold toTokens at parsed
      split at parsed
      case h_2 => cases parsed
      case h_1 first last found =>
        obtain ⟨start, -, rest⟩ := Option.bind_eq_some_iff.mp parsed
        obtain ⟨stop, read, ranged⟩ := Option.bind_eq_some_iff.mp rest
        unfold toRange at ranged
        split_ifs at ranged with backwards same
        cases ranged
        exact ⟨Nat.not_lt.mp backwards, fits read, decide_eq_true_iff,
          .inr (decide_eq_true_iff.trans same)⟩

end ToCut

/-- The subscription that a request makes. -/
def silentSubscription {Scanner : Type} (scanner : Scanner) (labels : List Nat) (cut : SilentCut) :
    SilentSubscription Scanner :=
  { scanner, labels, startHeight := cut.start, cut }

variable {Address Scanner : Type} [LinearOrder Address]

/-- The cut that is held for an address, with the height that its notifications name. -/
def heldCut (protocol : ProtocolSparrow Address Scanner) (address : Address) :
    Option (SilentCut × Nat) :=
  (protocol.silentSubscriptions.find? address).map fun held => (held.cut, held.startHeight)

def widen (current : SilentCut × Nat) (given : SilentSubscription Scanner) : SilentCut × Nat :=
  let start := min current.1.start given.cut.start
  if current.1.time = given.cut.time then ({ given.cut with start }, start)
  else (given.cut, given.startHeight)

namespace ProtocolSparrow

variable {hits : Scanner → SilentCut → Nat → Bool} {protocol : ProtocolSparrow Address Scanner}
  {address target : Address}

variable (hits) in
omit [LinearOrder Address] in
theorem scanSilent_cut (address : Address) (subscription : SilentSubscription Scanner)
    (last : Nat) (initial completes : Bool) :
    let after := (scanSilent hits address subscription last initial completes).1
    after.cut = subscription.cut ∧ after.startHeight = subscription.startHeight := by
  intro after
  have found : after = _ := scanSilent_subscription address subscription last initial completes
  rw [found]
  cases completes with
  | false => exact ⟨rfl, rfl⟩
  | true => exact ⟨rfl, rfl⟩

omit [LinearOrder Address] in
theorem resubscribe_cut (current given : SilentSubscription Scanner) :
    ((resubscribe current given).cut, (resubscribe current given).startHeight) =
      widen (current.cut, current.startHeight) given := by
  unfold resubscribe widen
  split_ifs
  · rfl
  · rfl

variable (hits) in
theorem heldCut_subscribe (given : SilentSubscription Scanner) (floor : Nat) (completes : Bool) :
    heldCut (protocol.doSilentSubscribe hits address given floor completes) address =
      match heldCut protocol address with
      | some current => some (widen current given)
      | none =>
          if protocol.maximumSubscriptions ≤ protocol.silentSubscriptions.size then none
          else some (given.cut, given.startHeight) := by
  unfold heldCut doSilentSubscribe
  cases present : protocol.silentSubscriptions.find? address with
  | none =>
      by_cases limited : protocol.maximumSubscriptions ≤ protocol.silentSubscriptions.size
      · simp [present, limited]
      · have scanned := scanSilent_cut hits address
          { given with cursor := floor } (getSilentFrontier protocol.written floor) true
          completes
        simp [limited, OrderedMap.find?_adjust, OrderedMap.find?_tryEmplace, present, scanned]
  | some current =>
      have scanned := scanSilent_cut hits address
        { resubscribe current given with cursor := floor }
        (getSilentFrontier protocol.written floor) true completes
      simp [OrderedMap.find?_adjust, OrderedMap.find?_tryEmplace, present, scanned,
        resubscribe_cut]

variable (hits) in
/-- What a step makes of the cut that is held for an address. -/
theorem heldCut_step (event : Event Address Scanner) :
    heldCut (protocol.step hits event) address =
      match event with
      | .subscribe target given _ _ =>
          if address = target then
            match heldCut protocol address with
            | some current => some (widen current given)
            | none =>
                if protocol.maximumSubscriptions ≤ protocol.silentSubscriptions.size then none
                else some (given.cut, given.startHeight)
          else heldCut protocol address
      | .unsubscribe target => if address = target then none else heldCut protocol address
      | .write _ | .silent _ => heldCut protocol address := by
  cases event with
  | write row => rfl
  | subscribe target given floor completes =>
      by_cases same : address = target
      · cases same
        simp only [if_true]
        exact heldCut_subscribe hits given floor completes
      · simp only [same, if_false]
        unfold heldCut
        rw [step, find?_doSilentSubscribe_ne same]
  | unsubscribe target =>
      dsimp only
      split_ifs with same
      · cases same
        simp [heldCut, step, doSilentUnsubscribe]
      · simp [heldCut, step, doSilentUnsubscribe, OrderedMap.find?_erase_ne same]
  | silent completes =>
      unfold heldCut
      rw [step, find?_doSilent, Option.map_map]
      cases protocol.silentSubscriptions.find? address with
      | none => rfl
      | some held =>
          have scanned := scanSilent_cut hits address held
            (getSilentFrontier protocol.written protocol.low) false (completes address)
          simp [scanned]

variable (hits) in
theorem size_step (few : protocol.silentSubscriptions.size ≤ protocol.maximumSubscriptions)
    (event : Event Address Scanner) :
    let after := protocol.step hits event
    after.maximumSubscriptions = protocol.maximumSubscriptions ∧
      after.silentSubscriptions.size ≤ protocol.maximumSubscriptions := by
  intro after
  cases event with
  | write row => exact ⟨rfl, few⟩
  | unsubscribe target => exact ⟨rfl, OrderedMap.size_erase_le.trans few⟩
  | silent completes =>
      have same : after = protocol.doSilent hits completes := rfl
      unfold doSilent at same
      split_ifs at same
      · rw [same]
        exact ⟨rfl, few⟩
      · rw [same]
        exact ⟨rfl, OrderedMap.size_sweep.trans_le few⟩
  | subscribe target given floor completes =>
      have same : after = protocol.doSilentSubscribe hits target given floor completes := rfl
      unfold doSilentSubscribe at same
      dsimp only at same
      split_ifs at same with limited
      · rw [same]
        exact ⟨rfl, few⟩
      · rw [same]
        refine ⟨rfl, ?_⟩
        rw [OrderedMap.size_adjust]
        cases present : protocol.silentSubscriptions.find? target with
        | some current => rwa [OrderedMap.tryEmplace_present present]
        | none =>
            rw [present, Option.isNone_none, Bool.true_and, decide_eq_true_iff, not_le] at limited
            rw [OrderedMap.size_tryEmplace_absent present]
            exact limited

/-! ## Runs of requests -/

variable (split : String → List String) (deserialize : String → Option Nat)

/-- A subscription is of a request that is parsed. -/
def Requested : Event Address Scanner → Prop
  | .subscribe _ given _ _ => ∃ scanner labels value cut,
      toCut split deserialize value = some cut ∧ given = silentSubscription scanner labels cut
  | _ => True

/-- An event neither ends the subscription of an address nor asks for the other kind of cut. -/
def KeepsKind (address : Address) (time : Bool) : Event Address Scanner → Prop
  | .subscribe target given _ _ => target = address → given.cut.time = time
  | .unsubscribe target => target ≠ address
  | .write _ | .silent _ => True

/-- Where the requests for an address start from. -/
def starts (address : Address) : List (Event Address Scanner) → List Nat
  | [] => []
  | .subscribe target given _ _ :: events =>
      if address = target then given.cut.start :: starts address events else starts address events
  | _ :: events => starts address events

/-- What is held is well formed, and names its start. -/
structure Kept (maximum : Nat) (protocol : ProtocolSparrow Address Scanner) : Prop where
  limit : protocol.maximumSubscriptions = maximum
  few : protocol.silentSubscriptions.size ≤ maximum
  held : ∀ {address cut height}, heldCut protocol address = some (cut, height) →
    cut.WellFormed ∧ height = cut.start

variable {split} {deserialize}

omit [LinearOrder Address] in
theorem wellFormed_widen {current given : SilentCut} (formed : current.WellFormed)
    (asked : given.WellFormed) (scanner : Scanner) (labels : List Nat) (height : Nat) :
    let after := widen (current, height) (silentSubscription scanner labels given)
    after.1.WellFormed ∧ after.2 = after.1.start := by
  intro after
  have made : after = widen (current, height) (silentSubscription scanner labels given) := rfl
  unfold widen silentSubscription at made
  dsimp only at made
  split_ifs at made with same
  · rw [made]
    refine ⟨⟨?_, asked.bounded, ?_, asked.closes⟩, rfl⟩
    · exact (min_le_right _ _).trans asked.ordered
    · have both := formed.kind
      rw [same] at both
      dsimp only
      rw [le_min_iff, ← both, ← asked.kind, and_self_iff]
  · rw [made]
    exact ⟨asked, rfl⟩

theorem Kept.step {maximum : Nat} (kept : Kept maximum protocol)
    (fits : ∀ {text value}, deserialize text = some value → value ≤ maxSize)
    {event : Event Address Scanner} (requested : Requested split deserialize event) :
    Kept maximum (protocol.step hits event) := by
  obtain ⟨limit, few, held⟩ := kept
  have sized := size_step hits (few.trans_eq limit.symm) event
  rw [limit] at sized
  refine ⟨sized.1, sized.2, ?_⟩
  intro address cut height found
  rw [heldCut_step] at found
  cases event with
  | write row | silent completes => exact held found
  | unsubscribe target =>
      dsimp only at found
      split_ifs at found
      exact held found
  | subscribe target given floor completes =>
      obtain ⟨scanner, labels, value, asked, parsed, rfl⟩ := requested
      have formed := wellFormed_of_toCut fits parsed
      dsimp only at found
      by_cases same : address = target
      · rw [if_pos same] at found
        cases present : heldCut protocol address with
        | none =>
            rw [present] at found
            dsimp only at found
            split_ifs at found
            cases found
            exact ⟨formed, rfl⟩
        | some current =>
            rw [present] at found
            have widened := wellFormed_widen (held present).1 formed scanner labels current.2
            rw [Option.some.inj found] at widened
            exact widened
      · rw [if_neg same] at found
        exact held found

theorem isLeast_min {first second least : Nat} {rest : List Nat}
    (below : IsLeast {start | start = min first second ∨ start ∈ rest} least) :
    IsLeast {start | start = first ∨ start ∈ second :: rest} least := by
  constructor
  · cases below.1 with
    | inl here =>
        cases min_choice first second with
        | inl left => exact .inl (here.trans left)
        | inr right => exact .inr (List.mem_cons.mpr (.inl (here.trans right)))
    | inr later => exact .inr (List.mem_cons_of_mem _ later)
  · intro start member
    have under : least ≤ min first second := below.2 (.inl rfl)
    cases member with
    | inl here => exact here ▸ under.trans (min_le_left _ _)
    | inr other =>
        cases List.mem_cons.mp other with
        | inl here => exact here ▸ under.trans (min_le_right _ _)
        | inr later => exact below.2 (.inr later)

variable (hits) in
/-- As long as the subscription of an address lasts and its requests are of one kind, it starts
    from the least of them. -/
theorem heldCut_run {later : List (Event Address Scanner)} {current : SilentCut × Nat}
    (held : heldCut protocol address = some current)
    (keeps : ∀ event ∈ later, KeepsKind address current.1.time event) :
    ∃ after, heldCut (Run.final (step hits) protocol later) address = some after ∧
      after.1.time = current.1.time ∧
      IsLeast {start | start = current.1.start ∨ start ∈ starts address later} after.1.start := by
  induction later generalizing protocol current with
  | nil => exact ⟨current, held, rfl, .inl rfl, fun start member => by simp_all [starts]⟩
  | cons event later ih =>
      obtain ⟨here, rest⟩ := List.forall_mem_cons.mp keeps
      have stepped : heldCut (protocol.step hits event) address = _ := heldCut_step hits event
      rw [held] at stepped
      cases event with
      | write row | silent completes => exact ih stepped rest
      | unsubscribe target =>
          simp only [if_neg (Ne.symm here)] at stepped
          exact ih stepped rest
      | subscribe target given floor completes =>
          by_cases same : address = target
          · cases same
            have kind := here rfl
            simp only [if_true] at stepped
            have widened : widen current given =
                ({ given.cut with start := min current.1.start given.cut.start },
                  min current.1.start given.cut.start) := by
              unfold widen
              rw [if_pos kind.symm]
            rw [widened] at stepped
            obtain ⟨after, found, time, least⟩ := ih stepped (by simpa [kind] using rest)
            refine ⟨after, found, time.trans kind, ?_⟩
            simp only [starts, if_true]
            exact isLeast_min least
          · simp only [same, if_false] at stepped
            obtain ⟨after, found, time, least⟩ := ih stepped rest
            refine ⟨after, found, time, ?_⟩
            simp only [starts, same, if_false]
            exact least

/-- Only one text is read to a number. -/
private def sevenText (text : String) : Option Nat := if text = "7" then some 7 else none

private theorem sevenText_fits {text : String} {value : Nat} (read : sevenText text = some value) :
    value ≤ maxSize := by
  unfold sevenText at read
  split_ifs at read
  cases read
  decide

private def fromHeight (start : Nat) : Event Nat Unit :=
  .subscribe 3 (silentSubscription () [0] { start }) 0 true

private theorem hundred_requested :
    ∀ event ∈ [fromHeight 100], Requested (fun text => [text]) sevenText event := by
  intro event member
  cases List.mem_singleton.mp member
  exact ⟨(), [0], .number 100, { start := 100 }, by decide +kernel, rfl⟩

end ProtocolSparrow

end LibbitcoinServer.Sparrow

import Mathlib.Data.Prod.Lex
import Mathlib.Data.List.Pairwise
import Mathlib.Tactic

/-! # The archive and what its history queries serve

The database is known by its queries, as a record of functions that a subscription
reads at one moment.  `Serves` says what the history query returns of a script's
history: the confirmed entries above the cursor, then the unconfirmed ones, with
the cursor moved past what it returned.
-/

namespace LibbitcoinServer

inductive Code where
  | excessiveResourceUsage
  | daemonError
  | notFound
  | queryCanceled
  | miscError
  | other (value : Nat)
  deriving DecidableEq

def maxSize : Nat := 2 ^ 64 - 1

/-- The elements of the first list that the second does not contain. -/
def difference {Element : Type} [DecidableEq Element] (first second : List Element) :
    List Element :=
  first.filter fun element => element ∉ second

/-- A height below which (and at which) history has been read. -/
abbrev Cursor := Option Nat

/-- A `database::history`.  An unconfirmed height is zero or `max_size_t`. -/
structure History (Digest : Type) where
  hash : Digest
  height : Nat
  fee : Nat
  position : Nat
  confirmed : Bool
  deriving DecidableEq

/-- An output by transaction hash and index. -/
abbrev Point (Digest : Type) := Digest ×ₗ Nat

def Point.hash {Digest : Type} (point : Point Digest) : Digest := (ofLex point).1

/-- The queries of `archive()` at one moment.  The third argument of `getHistory`
    is its limit; an invalid history of an unknown transaction is `none`. -/
structure Archive (Digest : Type) where
  getHistory : Cursor → Digest → Nat → Except Code (Cursor × List (History Digest))
  getTxHistory : Digest → Option (History Digest)
  getSpendersHistory : Point Digest → List (History Digest)

variable {Digest : Type}

def History.above (cursor : Cursor) (entry : History Digest) : Bool :=
  match cursor with
  | none => true
  | some height => height < entry.height

/-- The history of one script, in chain order up to the top of the chain. -/
structure ScriptHistory (Digest : Type) where
  top : Nat
  confirmed : List (History Digest)
  unconfirmed : List (History Digest)
  settled : ∀ entry ∈ confirmed, entry.confirmed = true ∧ entry.height ≤ top
  ordered : confirmed.Pairwise fun earlier later => earlier.height ≤ later.height
  pending : ∀ entry ∈ unconfirmed, entry.confirmed = false

namespace ScriptHistory

def empty : ScriptHistory Digest := ⟨0, [], [], by simp, .nil, by simp⟩

/-- Confirmed in order, then unconfirmed. -/
def entries (store : ScriptHistory Digest) : List (History Digest) :=
  store.confirmed ++ store.unconfirmed

/-- What a query above the cursor returns. -/
def since (store : ScriptHistory Digest) (cursor : Cursor) : List (History Digest) :=
  store.confirmed.filter (·.above cursor) ++ store.unconfirmed

/-- The confirmed entries that a cursor has passed. -/
def read (store : ScriptHistory Digest) (cursor : Cursor) : List (History Digest) :=
  store.confirmed.filter fun entry => !entry.above cursor

/-- The chain grows: new confirmed entries stand above the old top, and the
    unconfirmed ones may be any. -/
structure Extends (older newer : ScriptHistory Digest) : Prop where
  rises : older.top ≤ newer.top
  appended : ∃ added, newer.confirmed = older.confirmed ++ added ∧
    ∀ entry ∈ added, older.top < entry.height

variable {store newer : ScriptHistory Digest} {cursor next : Cursor}

@[simp] theorem read_none : store.read none = [] := by
  simp [read, History.above]

@[simp] theorem since_none : store.since none = store.entries := by
  simp [since, entries, History.above]

/-- A property that stays true along a list splits it in two. -/
theorem filter_not_append_filter {entries : List (History Digest)} {holds : History Digest → Bool}
    (stays : entries.Pairwise fun earlier later => holds earlier → holds later) :
    (entries.filter fun entry => !holds entry) ++ entries.filter holds = entries := by
  induction stays with
  | nil => rfl
  | @cons first rest later stays ih =>
      cases met : holds first with
      | false => simpa [met] using ih
      | true =>
          have all : ∀ entry ∈ rest, holds entry := fun entry member => later entry member met
          have none : (rest.filter fun entry => !holds entry) = [] := by simpa using all
          simp [met, none, List.filter_eq_self.mpr all]

theorem above_mono {earlier later : History Digest} (order : earlier.height ≤ later.height)
    (above : earlier.above cursor) : later.above cursor := by
  cases cursor with
  | none => rfl
  | some height =>
      simp only [History.above, decide_eq_true_eq] at above ⊢
      exact above.trans_le order

/-- In chain order the passed entries come first. -/
theorem read_append_above (store : ScriptHistory Digest) (cursor : Cursor) :
    store.read cursor ++ store.confirmed.filter (·.above cursor) = store.confirmed :=
  filter_not_append_filter (store.ordered.imp above_mono)

/-- The confirmed entries have all been passed. -/
def Past (store : ScriptHistory Digest) (cursor : Cursor) : Prop :=
  ∀ entry ∈ store.confirmed, entry.above cursor = false

/-- A cursor does not run ahead of the chain. -/
def Within (store : ScriptHistory Digest) (cursor : Cursor) : Prop :=
  ∀ height, cursor = some height → height ≤ store.top

theorem read_past (past : store.Past cursor) : store.read cursor = store.confirmed :=
  List.filter_eq_self.mpr fun entry member => by simp [past entry member]

/-- Growth adds nothing below a cursor within the chain. -/
theorem Extends.read (grows : store.Extends newer) (within : store.Within cursor) :
    newer.read cursor = store.read cursor := by
  obtain ⟨added, appended, above⟩ := grows.appended
  have fresh : (added.filter fun entry => !entry.above cursor) = [] := by
    refine List.filter_eq_nil_iff.mpr fun entry member => ?_
    cases cursor with
    | none => simp [History.above]
    | some height =>
        have low := within height rfl
        have high := above entry member
        simp [History.above]
        omega
  simp [ScriptHistory.read, appended, fresh]

theorem Extends.within (grows : store.Extends newer) (within : store.Within cursor) :
    newer.Within cursor :=
  fun height same => (within height same).trans grows.rises

end ScriptHistory

/-- The history query of an archive serves the history of a script. -/
structure Archive.Serves (archive : Archive Digest) (hash : Digest)
    (store : ScriptHistory Digest) : Prop where
  returns : ∀ {cursor next limit histories},
    archive.getHistory cursor hash limit = .ok (next, histories) →
      histories = store.since cursor
  advances : ∀ {cursor next limit histories},
    archive.getHistory cursor hash limit = .ok (next, histories) → store.Past next
  within : ∀ {cursor next limit histories}, store.Within cursor →
    archive.getHistory cursor hash limit = .ok (next, histories) → store.Within next

/-- An archive that serves a history without fail, moving the cursor to the top. -/
def ScriptHistory.archive [DecidableEq Digest] (store : ScriptHistory Digest) (hash : Digest) :
    Archive Digest where
  getHistory cursor asked _ :=
    if asked = hash then .ok (some store.top, store.since cursor) else .ok (cursor, [])
  getTxHistory _ := none
  getSpendersHistory _ := []

theorem ScriptHistory.archive_serves [DecidableEq Digest] (store : ScriptHistory Digest)
    (hash : Digest) : (store.archive hash).Serves hash store where
  returns := by
    intro cursor next limit histories served
    simp only [ScriptHistory.archive, if_true, Except.ok.injEq, Prod.mk.injEq] at served
    exact served.2.symm
  advances := by
    intro cursor next limit histories served entry member
    simp only [ScriptHistory.archive, if_true, Except.ok.injEq, Prod.mk.injEq] at served
    simpa [← served.1, History.above] using (store.settled entry member).2
  within := by
    intro cursor next limit histories _ served height same
    simp only [ScriptHistory.archive, if_true, Except.ok.injEq, Prod.mk.injEq] at served
    simp only [← served.1, Option.some.injEq] at same
    exact same.ge

end LibbitcoinServer

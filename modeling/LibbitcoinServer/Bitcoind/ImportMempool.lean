import LibbitcoinServer.Lib.Waiting
import LibbitcoinServer.Utilities.MempoolFile

/-! # The mempool saved and imported

The file of a save is written beside the one before and moved over it.  An import reads a file
and submits its transactions one at a time, whatever becomes of each.
-/

namespace LibbitcoinServer.Bitcoind

open Utilities (Query Wire)

/-- Files by their paths. -/
abbrev Files := String → Option (List UInt8)

inductive MempoolReply where
  | filename (path : String)
  | done
  | miscError
  | typeError
  deriving DecidableEq

/-- What the file system makes of a save: the absolute path, what a file holds once it was to
    be created, and whether it was, and whether it is moved. -/
structure Disk where
  absolute : String → Option String
  createFile : List UInt8 → Option (List UInt8) × Bool
  rename : Bool
  created : ∀ {data}, (createFile data).2 = true → (createFile data).1 = some data

inductive OptionValue where
  | boolean (value : Bool)
  | other

def OptionValue.isBoolean : OptionValue → Bool
  | .boolean _ => true
  | .other => false

section Handlers

variable {Tx Link : Type} (wire : Wire Tx) (query : Query Tx Link) (disk : Disk)

def temporary (path : String) : String := path ++ ".new"

/-- The files at each of the moments of a save, and its reply. -/
def doSaveMempool (path : String) (files : Files) : List Files × MempoolReply :=
  match wire.serializeMempool query, disk.absolute path with
  | some data, some absolute =>
      let made := disk.createFile data
      let beside := Function.update files (temporary path) made.1
      if made.2 && disk.rename then
        let moved := Function.update (Function.update beside (temporary path) none) path made.1
        ([files, beside, moved], .filename absolute)
      else ([files, beside], .miscError)
  | _, _ => ([files], .miscError)

/-- The transactions that an import goes through, `none` where the file is not read. -/
def doImportMempool (files : Files) (filepath : String) : Option (List Tx) := do
  let data ← files filepath
  let (valid, txs) ← wire.parseMempool data
  if valid then some txs else none

/-- `next_import` and `handle_import`: the code and the index that a submission completes with
    are not looked at. -/
def importLoop (txs : List Tx) : Waiting Tx (Nat × Nat) Unit MempoolReply where
  items := txs
  take _ _ _ := .ok ()
  finish _ := .done

/-- The reply that is sent at once, or the loop that is begun. -/
def handleImportMempool (files : Files) (filepath : String)
    (options : List (String × OptionValue)) :
    Except MempoolReply (Waiting Tx (Nat × Nat) Unit MempoolReply) :=
  if options.any fun option => !option.2.isBoolean then .error .typeError
  else
    match doImportMempool wire files filepath with
    | none => .error .miscError
    | some txs => .ok (importLoop txs)

end Handlers

/-! ## The file is the one before or the whole of the one after -/

variable {Tx Link : Type} {wire : Wire Tx} {query : Query Tx Link} {disk : Disk}

theorem temporary_ne (path : String) : temporary path ≠ path := by
  intro same
  have length := congrArg String.length same
  rw [temporary, String.length_append] at length
  have : ".new".length = 4 := rfl
  omega

/-- What a save does to the files, of which only one that was created whole is moved. -/
theorem doSaveMempool_moments (path : String) (files : Files) :
    (∀ moment ∈ (doSaveMempool wire query disk path files).1, moment path = files path ∨
      ∃ data, wire.serializeMempool query = some data ∧ moment path = some data) ∧
    ∀ absolute, (doSaveMempool wire query disk path files).2 = .filename absolute →
      ∃ last data, (doSaveMempool wire query disk path files).1.getLast? = some last ∧
        wire.serializeMempool query = some data ∧ last path = some data := by
  unfold doSaveMempool
  cases wire.serializeMempool query with
  | none => simp
  | some data =>
  cases disk.absolute path with
  | none => simp
  | some absolute =>
  have aside : Function.update files (temporary path) (disk.createFile data).1 path = files path :=
    Function.update_of_ne (temporary_ne path).symm _ _
  cases created : (disk.createFile data).2 with
  | false => simp [created, aside]
  | true =>
  have whole := disk.created created
  rw [whole] at aside
  cases disk.rename with
  | false => simp [whole, aside]
  | true => simp [created, whole, aside]

/-- A file that a save wrote is read to what was saved. -/
theorem doImportMempool_saved (trips : wire.RoundTrips) {records : List (Tx × UInt32)}
    (pooled : Wire.Pooled query records) {files : Files} {path : String} {data : List UInt8}
    (saved : wire.serializeMempool query = some data) (there : files path = some data) :
    doImportMempool wire files path = some (records.map Prod.fst) := by
  rw [Wire.serializeMempool_eq pooled] at saved
  cases saved
  have parsed := Wire.parseMempool_of_body trips pooled.length_lt
    (Wire.openMempool_unobfuscated (wire.body records))
  simp [doImportMempool, there, parsed]

theorem resultFrom_import (answers : Nat → Nat × Nat) (txs later : List Tx) (index : Nat) :
    (importLoop txs).resultFrom answers index () later = .done := by
  induction later generalizing index with
  | nil => rfl
  | cons tx later ih => exact ih (index + 1)

theorem callsFrom_import (answers : Nat → Nat × Nat) (txs later : List Tx) (index : Nat) :
    (importLoop txs).callsFrom answers index () later = later := by
  induction later generalizing index with
  | nil => rfl
  | cons tx later ih => exact congrArg (tx :: ·) (ih (index + 1))

/-- Every run of an import, whatever its submissions complete with. -/
theorem import_run (txs : List Tx) (answers : Nat → Nat × Nat)
    (actions : List Waiting.Action) :
    let step := (importLoop txs).step answers
    let after := Run.final step (Waiting.begin ()) actions
    after.calls <+: txs ∧
      (after.sent = [] ∨ after.sent = [MempoolReply.done] ∧ after.calls = txs) ∧
      ((∀ action ∈ actions, action ≠ .stop) →
        let ended := Run.final step (Waiting.begin ()) (actions ++ Waiting.rounds (txs.length + 1))
        ended.sent = [MempoolReply.done] ∧ ended.calls = txs) := by
  intro step after
  have result : (importLoop txs).result answers () = .done := resultFrom_import answers txs txs 0
  have calls : (importLoop txs).allCalls answers () = txs := callsFrom_import answers txs txs 0
  obtain ⟨called, sent⟩ := Waiting.run_sound (importLoop txs) answers () actions
  rw [calls] at called
  rw [calls, result] at sent
  refine ⟨called, sent, fun goes => ?_⟩
  have complete := Waiting.run_complete (importLoop txs) answers () goes
  rw [calls, result] at complete
  exact complete

/-- Transactions that are written in a byte each. -/
private def byteWire : Wire UInt8 where
  toData tx := [tx]
  transaction data :=
    match data with
    | [] => (0, none)
    | byte :: _ => (byte, some 1)
  torn _ := 0

private theorem byteWire_trips : byteWire.RoundTrips := fun _ _ => rfl

private theorem two_fit : [7, 9].length < UInt64.size := by decide

private def twoPooled : Query UInt8 UInt8 :=
  ⟨some ⟨[7, 9], two_fit⟩, some, fun _ => some 1700000000⟩

private def wholeDisk : Disk :=
  ⟨some, fun data => (some data, true), true, fun _ => rfl⟩

end LibbitcoinServer.Bitcoind

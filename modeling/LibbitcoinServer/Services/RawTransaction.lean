import LibbitcoinServer.Electrum.Version
import LibbitcoinServer.Lib.Text

/-! # Raw transactions

Seven handlers read a transaction from base16.  Some decode the text and read the
transaction from the bytes, and never look at the bytes that are left.  The others read
it from the digits themselves, and refuse a text that is not exhausted.  They agree on
the texts whose bytes hold nothing after a transaction.
-/

namespace LibbitcoinServer.Services

inductive Fault where
  | deserializationError
  | invalidParameter
  | typeError
  | verifyAlreadyInUtxoSet
  | badRequest
  | notAcceptable
  | invalidArgument
  deriving DecidableEq

/-- An element of an array of transactions. -/
inductive Item where
  | string (text : String)
  | other
  deriving DecidableEq

section Handlers

variable {Tx : Type}

-- The reader takes a transaction from the front of the bytes, with or without its
-- witnesses, and leaves the bytes after it.
variable (read : Bool → List UInt8 → Option (Tx × List UInt8))

/-- `decode_base16`. -/
def decodeBase16 (text : String) : Option (List UInt8) := Text.decodeBase16 text.toList

/-- `chain::transaction` of a data chunk. -/
def fromData (witness : Bool) (data : List UInt8) : Option Tx := (read witness data).map Prod.fst

/-- The bytes of the pairs of digits before anything else, and what follows them. -/
def hexed : List Char → List UInt8 × List Char
  | high :: low :: rest =>
      match Text.base16Digit high, Text.base16Digit low with
      | some first, some second =>
          let (bytes, left) := hexed rest
          (UInt8.ofNat (16 * first + second) :: bytes, left)
      | _, _ => ([], high :: low :: rest)
  | rest => ([], rest)

/-- `chain::transaction` of a base16 reader, and whether the reader is exhausted. -/
def fromHexer (text : String) : Option (Tx × Bool) :=
  let (bytes, left) := hexed text.toList
  (read true bytes).map fun (tx, rest) => (tx, rest.isEmpty && left.isEmpty)

def readHex (fault : Fault) (text : String) : Except Fault Tx :=
  match fromHexer read text with
  | some (tx, true) => .ok tx
  | _ => .error fault

def handleDecodeRawTransaction (hexstring : String) (iswitness : Option Bool) : Except Fault Tx :=
  match decodeBase16 hexstring with
  | none => .error .deserializationError
  | some data =>
      let tx := fromData read (iswitness.getD true) data
      let tx := if iswitness.isNone && tx.isNone then fromData read false data else tx
      match tx with
      | none => .error .deserializationError
      | some tx => .ok tx

/-- The transaction is submitted, unless it is confirmed with an unspent output. -/
def handleSendRawTransaction (confirmedUnspent : Tx → Bool) (hexstring : String) :
    Except Fault Tx :=
  match decodeBase16 hexstring with
  | none => .error .deserializationError
  | some data =>
      match fromData read true data with
      | none => .error .deserializationError
      | some tx => if confirmedUnspent tx then .error .verifyAlreadyInUtxoSet else .ok tx

/-- An element of a package. -/
def readItem : Item → Except Fault Tx
  | .other => .error .typeError
  | .string text => readHex read .deserializationError text

/-- A loop that returns at the first fault. -/
def readAll (one : Item → Except Fault Tx) : List Item → Except Fault (List Tx)
  | [] => .ok []
  | item :: items =>
      match one item, readAll one items with
      | .error fault, _ => .error fault
      | .ok _, .error fault => .error fault
      | .ok tx, .ok txs => .ok (tx :: txs)

def handleTestMempoolAccept (rawtxs : List Item) : Except Fault (List Tx) :=
  if rawtxs = [] then .error .invalidParameter else readAll (readItem read) rawtxs

def maximumPackage : Nat := 25

def handleSubmitPackage (package : List Item) : Except Fault (List Tx) :=
  if package = [] ∨ maximumPackage < package.length then .error .invalidParameter
  else readAll (readItem read) package

def readVariant : Item → Except Fault Tx
  | .other => .error .deserializationError
  | .string text =>
      match (decodeBase16 text).bind (fromData read true) with
      | none => .error .deserializationError
      | some tx => .ok tx

/-- The variants that are combined. -/
def handleCombineRawTransaction (txs : List Item) : Except Fault (List Tx) :=
  match readAll (readVariant read) txs with
  | .error fault => .error fault
  | .ok variants => if variants.isEmpty then .error .invalidParameter else .ok variants

def handleBlockchainTransactionBroadcast (version : Electrum.Version) (rawTx : String) :
    Except Fault Tx :=
  if version < .v1_0 then .error .badRequest else readHex read .badRequest rawTx

/-- The media of the request is text, or it is not acceptable. -/
def handleBroadcast (text : Bool) (transaction : String) : Except Fault Tx :=
  if !text then .error .notAcceptable else readHex read .invalidArgument transaction

/-! ## What the services accept -/

def SendAccepts (confirmedUnspent : Tx → Bool) (text : String) : Prop :=
  handleSendRawTransaction read confirmedUnspent text ≠ .error .deserializationError

/-- A package with the text among its elements is accepted. -/
def Accepts (handle : List Item → Except Fault (List Tx)) (text : String) : Prop :=
  ∃ package txs, .string text ∈ package ∧ handle package = .ok txs

/-- The text is the base16 of one transaction and nothing more. -/
def Exact (text : String) : Prop :=
  ∃ data tx, decodeBase16 text = some data ∧ read true data = some (tx, [])

/-- The bytes of the text begin with a transaction. -/
def Begins (text : String) : Prop :=
  ∃ data tx rest, decodeBase16 text = some data ∧ read true data = some (tx, rest)

/-- What a hint reads from the bytes. -/
def readHinted (iswitness : Option Bool) (data : List UInt8) : Option (Tx × List UInt8) :=
  match iswitness with
  | some witness => read witness data
  | none => (read true data).or (read false data)

/-- Bytes are left after the transaction of the text. -/
def Trailing (iswitness : Option Bool) (text : String) : Prop :=
  ∃ data tx rest, decodeBase16 text = some data ∧
    readHinted read iswitness data = some (tx, rest) ∧ rest ≠ []

/-- The services accept the same text. -/
structure Agree (confirmedUnspent : Tx → Bool) (text : String) : Prop where
  exactly : SendAccepts read confirmedUnspent text ↔ Exact read text
  tested : SendAccepts read confirmedUnspent text ↔ Accepts (handleTestMempoolAccept read) text
  submitted : SendAccepts read confirmedUnspent text ↔ Accepts (handleSubmitPackage read) text
  electrum : ∀ version, .v1_0 ≤ version → (SendAccepts read confirmedUnspent text ↔
    ∃ tx, handleBlockchainTransactionBroadcast read version text = .ok tx)
  esplora : SendAccepts read confirmedUnspent text ↔ ∃ tx, handleBroadcast read true text = .ok tx
  decoded : ∀ iswitness, Trailing read iswitness text →
    handleDecodeRawTransaction read text iswitness = .error .deserializationError
  combined : Trailing read (some true) text →
    ¬Accepts (handleCombineRawTransaction read) text

/-- Nothing is left after a transaction that is read from the bytes of the text. -/
def Clean (text : String) : Prop :=
  ∀ data, decodeBase16 text = some data →
    ∀ witness tx rest, read witness data = some (tx, rest) → rest = []

/-! ## The two routes -/

/-- The digits are exhausted just when the whole text is base16. -/
theorem hexed_exhausted (chars : List Char) (bytes : List UInt8) :
    hexed chars = (bytes, []) ↔ Text.decodeBase16 chars = some bytes := by
  induction chars using List.twoStepInduction generalizing bytes with
  | nil => simp [hexed, Text.decodeBase16, eq_comm]
  | singleton digit => simp [hexed, Text.decodeBase16]
  | cons_cons high low rest ih _ =>
      rw [Text.decodeBase16_cons, hexed]
      cases Text.base16Digit high with
      | none => simp
      | some first =>
          cases Text.base16Digit low with
          | none => simp
          | some second =>
              simp only [← ih, Prod.ext_iff]
              constructor
              · rintro ⟨rfl, exhausted⟩
                exact ⟨_, _, _, rfl, rfl, ⟨rfl, exhausted⟩, rfl⟩
              · rintro ⟨_, _, _, ⟨⟩, ⟨⟩, ⟨rfl, exhausted⟩, rfl⟩
                exact ⟨rfl, exhausted⟩

variable {read}

theorem fromHexer_exhausted {text : String} {tx : Tx} :
    fromHexer read text = some (tx, true) ↔
      ∃ data, decodeBase16 text = some data ∧ read true data = some (tx, []) := by
  constructor
  · intro taken
    obtain ⟨⟨here, rest⟩, found, same⟩ := Option.map_eq_some_iff.mp taken
    simp only [Prod.mk.injEq, Bool.and_eq_true, List.isEmpty_iff] at same
    obtain ⟨rfl, rfl, exhausted⟩ := same
    exact ⟨_, (hexed_exhausted _ _).mp (Prod.ext rfl exhausted), found⟩
  · rintro ⟨data, decoded, found⟩
    have exhausted := (hexed_exhausted _ _).mpr decoded
    simp [fromHexer, exhausted, found]

theorem readHex_eq_ok {fault : Fault} {text : String} {tx : Tx} :
    readHex read fault text = .ok tx ↔ fromHexer read text = some (tx, true) := by
  unfold readHex
  split
  · rename_i here taken
    simp [taken]
  · rename_i other
    simp only [reduceCtorEq, false_iff]
    exact other tx

theorem readHex_accepts (fault : Fault) (text : String) :
    (∃ tx, readHex read fault text = .ok tx) ↔ Exact read text := by
  simp only [readHex_eq_ok, fromHexer_exhausted]
  exact exists_comm

theorem fromData_eq_some {witness : Bool} {data : List UInt8} {tx : Tx} :
    fromData read witness data = some tx ↔ ∃ rest, read witness data = some (tx, rest) := by
  simp [fromData]

theorem begins_of_decoded {text : String} {data : List UInt8}
    (decoded : decodeBase16 text = some data) :
    Begins read text ↔ ∃ tx, fromData read true data = some tx := by
  simp only [Begins, decoded, Option.some.injEq, exists_and_left, exists_eq_left',
    fromData_eq_some]

theorem not_begins {text : String} (malformed : decodeBase16 text = none) :
    ¬Begins read text := by
  rintro ⟨data, tx, rest, decoded, -⟩
  rw [malformed] at decoded
  cases decoded

theorem sendAccepts_iff (confirmedUnspent : Tx → Bool) (text : String) :
    SendAccepts read confirmedUnspent text ↔ Begins read text := by
  unfold SendAccepts handleSendRawTransaction
  cases decoded : decodeBase16 text with
  | none => simp [not_begins decoded]
  | some data =>
      rw [begins_of_decoded decoded]
      cases tried : fromData read true data with
      | none => simp [tried]
      | some tx => by_cases unspent : confirmedUnspent tx <;> simp [tried, unspent]

/-! ## Packages -/

theorem readAll_ok {one : Item → Except Fault Tx} {items : List Item} {txs : List Tx}
    (taken : readAll one items = .ok txs) {item : Item} (here : item ∈ items) :
    ∃ tx, one item = .ok tx := by
  induction items generalizing txs with
  | nil => cases here
  | cons first items ih =>
      unfold readAll at taken
      split at taken
      · cases taken
      · cases taken
      · rename_i tx others headed tailed
        cases here with
        | head => exact ⟨tx, headed⟩
        | tail _ later => exact ih tailed later

theorem readAll_single {one : Item → Except Fault Tx} {item : Item} {tx : Tx}
    (taken : one item = .ok tx) : readAll one [item] = .ok [tx] := by
  simp [readAll, taken]

/-- A handler that reads every element accepts the elements that are read. -/
theorem accepts_iff {handle : List Item → Except Fault (List Tx)} (one : Item → Except Fault Tx)
    (each : ∀ items txs, handle items = .ok txs → readAll one items = .ok txs)
    (single : ∀ item txs, readAll one [item] = .ok txs → txs ≠ [] → handle [item] = .ok txs)
    (text : String) : Accepts handle text ↔ ∃ tx, one (.string text) = .ok tx := by
  constructor
  · rintro ⟨package, txs, here, taken⟩
    exact readAll_ok (each package txs taken) here
  · rintro ⟨tx, taken⟩
    exact ⟨[.string text], [tx], List.mem_singleton_self _,
      single _ _ (readAll_single taken) (List.cons_ne_nil _ _)⟩

theorem testMempoolAccept_accepts (text : String) :
    Accepts (handleTestMempoolAccept read) text ↔ Exact read text := by
  refine (accepts_iff (readItem read) ?_ ?_ text).trans (readHex_accepts .deserializationError text)
  · intro items txs taken
    unfold handleTestMempoolAccept at taken
    split at taken
    · cases taken
    · exact taken
  · intro item txs taken _
    simpa [handleTestMempoolAccept] using taken

theorem submitPackage_accepts (text : String) :
    Accepts (handleSubmitPackage read) text ↔ Exact read text := by
  refine (accepts_iff (readItem read) ?_ ?_ text).trans (readHex_accepts .deserializationError text)
  · intro items txs taken
    unfold handleSubmitPackage at taken
    split at taken
    · cases taken
    · exact taken
  · intro item txs taken _
    simpa [handleSubmitPackage, maximumPackage] using taken

theorem readVariant_accepts (text : String) :
    (∃ tx, readVariant read (.string text) = .ok tx) ↔ Begins read text := by
  simp only [readVariant]
  cases decoded : decodeBase16 text with
  | none => simp [not_begins decoded]
  | some data =>
      rw [begins_of_decoded decoded, Option.bind_some]
      cases fromData read true data <;> simp

theorem combineRawTransaction_accepts (text : String) :
    Accepts (handleCombineRawTransaction read) text ↔ Begins read text := by
  refine (accepts_iff (readVariant read) ?_ ?_ text).trans (readVariant_accepts text)
  · intro items txs taken
    unfold handleCombineRawTransaction at taken
    split at taken
    · cases taken
    · rename_i variants every
      split at taken
      · cases taken
      · exact every.trans taken
  · intro item txs taken several
    simpa [handleCombineRawTransaction, taken] using several

theorem electrum_accepts {version : Electrum.Version} (late : .v1_0 ≤ version) (text : String) :
    (∃ tx, handleBlockchainTransactionBroadcast read version text = .ok tx) ↔
      Exact read text := by
  rw [← readHex_accepts .badRequest, handleBlockchainTransactionBroadcast,
    if_neg (Electrum.Version.not_lt.mpr late)]

theorem esplora_accepts (text : String) :
    (∃ tx, handleBroadcast read true text = .ok tx) ↔ Exact read text := by
  rw [← readHex_accepts .invalidArgument]
  rfl

/-- A hint that is given decides how the bytes are read. -/
theorem decodeRawTransaction_hinted {text : String} {data : List UInt8} {witness : Bool} {tx : Tx}
    {rest : List UInt8} (decoded : decodeBase16 text = some data)
    (found : read witness data = some (tx, rest)) :
    handleDecodeRawTransaction read text (some witness) = .ok tx := by
  simp [handleDecodeRawTransaction, decoded, fromData, found]

/-! ## Where the services agree -/

theorem exact_of_begins {text : String} (clean : Clean read text) (begins : Begins read text) :
    Exact read text := by
  obtain ⟨data, tx, rest, decoded, found⟩ := begins
  obtain rfl := clean data decoded true tx rest found
  exact ⟨data, tx, decoded, found⟩

theorem sendAccepts_of_clean {text : String} (clean : Clean read text)
    (confirmedUnspent : Tx → Bool) :
    SendAccepts read confirmedUnspent text ↔ Exact read text := by
  rw [sendAccepts_iff]
  constructor
  · exact exact_of_begins clean
  · rintro ⟨data, tx, decoded, found⟩
    exact ⟨data, tx, [], decoded, found⟩

theorem not_trailing_of_clean {text : String} (clean : Clean read text)
    (iswitness : Option Bool) : ¬Trailing read iswitness text := by
  rintro ⟨data, tx, rest, decoded, found, left⟩
  cases iswitness with
  | some witness => exact left (clean data decoded witness tx rest found)
  | none =>
      rcases Option.or_eq_some_iff.mp found with first | ⟨_, second⟩
      · exact left (clean data decoded true tx rest first)
      · exact left (clean data decoded false tx rest second)

/-- The services agree on a text just when nothing is left after its transaction. -/
theorem services_agree_iff_clean (read : Bool → List UInt8 → Option (Tx × List UInt8))
    (confirmedUnspent : Tx → Bool) (text : String) :
    Agree read confirmedUnspent text ↔ Clean read text := by
  constructor
  · intro agree data decoded witness tx rest found
    by_contra left
    have rejected := agree.decoded (some witness) ⟨data, tx, rest, decoded, found, left⟩
    rw [decodeRawTransaction_hinted decoded found] at rejected
    cases rejected
  · intro clean
    have sent := sendAccepts_of_clean clean confirmedUnspent
    exact {
      exactly := sent
      tested := sent.trans (testMempoolAccept_accepts text).symm
      submitted := sent.trans (submitPackage_accepts text).symm
      electrum := fun version late => sent.trans (electrum_accepts late text).symm
      esplora := sent.trans (esplora_accepts text).symm
      decoded := fun iswitness trailing =>
        (not_trailing_of_clean clean iswitness trailing).elim
      combined := fun trailing => (not_trailing_of_clean clean _ trailing).elim }

end Handlers

/-! ## One byte too many -/

def skip (size : Nat) (bytes : List UInt8) : Option (List UInt8) :=
  if size ≤ bytes.length then some (bytes.drop size) else none

def skipScript : List UInt8 → Option (List UInt8)
  | [] => none
  | size :: rest => skip size.toNat rest

def skipInput (bytes : List UInt8) : Option (List UInt8) := do
  skip 4 (← skipScript (← skip 36 bytes))

def skipOutput (bytes : List UInt8) : Option (List UInt8) := do
  skipScript (← skip 8 bytes)

def skipEach (one : List UInt8 → Option (List UInt8)) : Nat → List UInt8 → Option (List UInt8)
  | 0, bytes => some bytes
  | count + 1, bytes => do skipEach one count (← one bytes)

def skipCounted (one : List UInt8 → Option (List UInt8)) : List UInt8 → Option (List UInt8)
  | [] => none
  | count :: rest => skipEach one count.toNat rest

/-- A transaction that has no witness, with counts of one byte. -/
def readPlain (_ : Bool) (bytes : List UInt8) : Option (List UInt8 × List UInt8) := do
  let inputs ← skip 4 bytes
  let outputs ← skipCounted skipInput inputs
  let locktime ← skipCounted skipOutput outputs
  let rest ← skip 4 locktime
  some (bytes.take (bytes.length - rest.length), rest)

/-- The transaction of one empty input and one empty output. -/
def plain : String :=
  "0100000001" ++ "0000000000000000000000000000000000000000000000000000000000000000" ++
    "ffffffff00ffffffff01" ++ "00000000000000000000000000"

def plainBytes : List UInt8 :=
  [1, 0, 0, 0, 1] ++ List.replicate 32 0 ++ [255, 255, 255, 255, 0, 255, 255, 255, 255, 1] ++
    List.replicate 13 0

-- The transaction is submitted, and is refused as the only element of a package.
theorem sent_with_byte_left :
    handleSendRawTransaction readPlain (fun _ => false) (plain ++ "00") = .ok plainBytes ∧
    Accepts (handleCombineRawTransaction readPlain) (plain ++ "00") ∧
    handleTestMempoolAccept readPlain [.string (plain ++ "00")] = .error .deserializationError ∧
    ¬Agree readPlain (fun _ => false) (plain ++ "00") := by
  have decoded : decodeBase16 (plain ++ "00") = some (plainBytes ++ [0]) := by decide +kernel
  have found : readPlain true (plainBytes ++ [0]) = some (plainBytes, [0]) := by decide +kernel
  have exhausted := (hexed_exhausted _ _).mpr decoded
  have refused : readHex readPlain .deserializationError (plain ++ "00") =
      .error .deserializationError := by
    simp only [readHex, fromHexer, exhausted, found]
    rfl
  refine ⟨?_, ?_, ?_, ?_⟩
  · simp [handleSendRawTransaction, decoded, fromData, found]
  · exact (combineRawTransaction_accepts _).mpr ⟨_, _, _, decoded, found⟩
  · simp only [handleTestMempoolAccept, readAll, readItem, refused]
    rfl
  · intro agree
    have rejected := agree.decoded (some true) ⟨_, _, _, decoded, found, List.cons_ne_nil _ _⟩
    rw [decodeRawTransaction_hinted decoded found] at rejected
    cases rejected

end LibbitcoinServer.Services

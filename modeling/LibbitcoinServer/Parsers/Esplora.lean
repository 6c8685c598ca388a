import LibbitcoinServer.Parsers.Target

/-! # The esplora target

The grammar of the esplora interface, with the media that each of its forms is answered
in.  The parser accepts the segments of a form and nothing else, and the request that it
makes is that of the form.  A script hash is read in the order of its bytes, and every
other hash reversed.
-/

namespace LibbitcoinServer.Parsers

/-! ## The parser -/

/-- `to_scripthash`: the bytes of 64 digits. -/
def toScripthash (token : String) : Option HashDigest :=
  if token.toList.length = 64 then Text.decodeBase16 token.toList else none

def readScripthash (segment : String) : Except Fault HashDigest :=
  match toScripthash segment with
  | some digest => .ok digest
  | none => fail .invalidHash

/-- A method with the media that is set. -/
def answered (method : String) (media : Media) (params : Params) : Request where
  method := method
  params := params ++ [("media", .media media)]

def txViews : List (String × String × Media) :=
  [("hex", "tx", .text), ("raw", "tx", .data), ("status", "tx_status", .json),
    ("merkleblock-proof", "tx_merkleblock_proof", .text),
    ("merkle-proof", "tx_merkle_proof", .json), ("outspends", "tx_outspends", .json)]

def blockViews : List (String × String × Media) :=
  [("raw", "block", .data), ("header", "block_header", .text), ("status", "block_status", .json),
    ("txids", "block_txids", .json)]

def tipViews : List (String × String × Media) :=
  [("height", "tip_height", .text), ("hash", "tip_hash", .text)]

def mempoolViews : List (String × String × Media) :=
  [("txids", "mempool_txids", .json), ("recent", "mempool_recent", .json)]

def esploraTxComponent (params : Params) (rest : List String) : Reading := do
  let (component, rest) ← next rest
  if component = "outspend" then
    present .missingPosition rest
    let (segment, rest) ← next rest
    let index ← readNumber 32 segment
    return (answered "tx_outspend" .json (params ++ [("index", .u32 index)]), rest)
  else
    let (method, media) ← choose txViews .invalidComponent component
    return (answered method media params, rest)

def esploraTx (rest : List String) : Reading :=
  if rest = [] then return (answered "broadcast" .text [], rest)
  else do
    let (segment, rest) ← next rest
    let hash ← readHash segment
    let params : Params := [("hash", .hash hash)]
    if rest = [] then return (answered "tx" .json params, rest)
    else esploraTxComponent params rest

def esploraTxs (rest : List String) : Reading := do
  present .missingComponent rest
  let (component, rest) ← next rest
  if component ≠ "package" then fail .invalidComponent
  else return (answered "broadcast_package" .json [], rest)

def esploraHistory (params : Params) (rest : List String) : Reading :=
  if rest = [] then return (answered "address_txs" .json params, rest)
  else do
    let (subcomponent, rest) ← next rest
    if subcomponent = "chain" then
      if rest ≠ [] then
        let (segment, rest) ← next rest
        let last ← readHash segment
        return (answered "address_txs_chain" .json (params ++ [("last_seen", .hash last)]), rest)
      else return (answered "address_txs_chain" .json params, rest)
    else if subcomponent = "mempool" then
      return (answered "address_txs_mempool" .json params, rest)
    else fail .invalidSubcomponent

/-- The key of an address, of the target that was read. -/
def esploraKey (target segment : String) : Except Fault Params :=
  if target = "scripthash" then do
    let hash ← readScripthash segment
    return [("hash", .hash hash)]
  else return [("address", .text segment)]

def esploraAddress (target : String) (rest : List String) : Reading := do
  present .missingHash rest
  let (key, rest) ← next rest
  let params ← esploraKey target key
  if rest = [] then return (answered "address" .json params, rest)
  else
    let (component, rest) ← next rest
    if component = "txs" then esploraHistory params rest
    else if component = "utxo" then return (answered "address_utxo" .json params, rest)
    else fail .invalidComponent

def esploraBlockComponent (params : Params) (rest : List String) : Reading := do
  let (component, rest) ← next rest
  if component = "txs" then
    if rest ≠ [] then
      let (segment, rest) ← next rest
      let start ← readNumber 32 segment
      return (answered "block_txs" .json (params ++ [("start", .u32 start)]), rest)
    else return (answered "block_txs" .json params, rest)
  else if component = "txid" then
    present .missingPosition rest
    let (segment, rest) ← next rest
    let index ← readNumber 32 segment
    return (answered "block_txid" .text (params ++ [("index", .u32 index)]), rest)
  else
    let (method, media) ← choose blockViews .invalidComponent component
    return (answered method media params, rest)

def esploraBlock (rest : List String) : Reading := do
  present .missingHash rest
  let (segment, rest) ← next rest
  let hash ← readHash segment
  let params : Params := [("hash", .hash hash)]
  if rest = [] then return (answered "block" .json params, rest)
  else esploraBlockComponent params rest

def esploraBlockHeight (rest : List String) : Reading := do
  present .missingHeight rest
  let (segment, rest) ← next rest
  let height ← readNumber 32 segment
  return (answered "block_height" .text [("height", .u32 height)], rest)

def esploraBlocks (rest : List String) : Reading :=
  if rest = [] then return (answered "blocks" .json [], rest)
  else do
    let (segment, rest) ← next rest
    if segment = "tip" then
      present .missingComponent rest
      let (subcomponent, rest) ← next rest
      let (method, media) ← choose tipViews .invalidSubcomponent subcomponent
      return (answered method media [], rest)
    else
      let height ← readNumber 32 segment
      return (answered "blocks" .json [("height", .u32 height)], rest)

def esploraMempool (rest : List String) : Reading :=
  if rest = [] then return (answered "mempool" .json [], rest)
  else do
    let (component, rest) ← next rest
    let (method, media) ← choose mempoolViews .invalidComponent component
    return (answered method media [], rest)

def esploraComponent (target : String) (rest : List String) : Reading :=
  if target = "tx" then esploraTx rest
  else if target = "txs" then esploraTxs rest
  else if target = "address" ∨ target = "scripthash" then esploraAddress target rest
  else if target = "block" then esploraBlock rest
  else if target = "block-height" then esploraBlockHeight rest
  else if target = "blocks" then esploraBlocks rest
  else if target = "mempool" then esploraMempool rest
  else if target = "fee-estimates" then return (answered "fee_estimates" .json [], rest)
  else fail .invalidTarget

def esploraTarget (path : String) : Except Fault Request := do
  if cleaned path = "" then fail .emptyPath
  else
    let (target, rest) ← next (split path)
    if target = "" then fail .missingTarget
    else
      let reading ← esploraComponent target rest
      finish reading

/-! ## The grammar -/

inductive TxPage where
  | hex
  | raw
  | status
  | merkleblockProof
  | merkleProof
  | outspends

inductive TxView where
  | whole
  | named (page : TxPage)
  | outspend (index : BitVec 32)

inductive AddressKey where
  | address (text : String)
  | scripthash (hash : HashToken)

inductive AddressView where
  | whole
  | txs
  | chain (last : Option HashToken)
  | mempool
  | utxo

inductive BlockPage where
  | raw
  | header
  | status
  | txids

inductive BlockView where
  | whole
  | named (page : BlockPage)
  | txs (start : Option (BitVec 32))
  | txid (index : BitVec 32)

inductive TipPage where
  | height
  | hash

inductive BlocksView where
  | whole
  | from (height : BitVec 32)
  | tip (page : TipPage)

inductive MempoolPage where
  | txids
  | recent

inductive EsploraForm where
  | broadcast
  | tx (hash : HashToken) (view : TxView)
  | package
  | address (key : AddressKey) (view : AddressView)
  | block (hash : HashToken) (view : BlockView)
  | blockHeight (height : BitVec 32)
  | blocks (view : BlocksView)
  | mempool (page : Option MempoolPage)
  | feeEstimates

namespace TxPage

def name : TxPage → String
  | .hex => "hex"
  | .raw => "raw"
  | .status => "status"
  | .merkleblockProof => "merkleblock-proof"
  | .merkleProof => "merkle-proof"
  | .outspends => "outspends"

def answer : TxPage → String × Media
  | .hex => ("tx", .text)
  | .raw => ("tx", .data)
  | .status => ("tx_status", .json)
  | .merkleblockProof => ("tx_merkleblock_proof", .text)
  | .merkleProof => ("tx_merkle_proof", .json)
  | .outspends => ("tx_outspends", .json)

end TxPage

namespace BlockPage

def name : BlockPage → String
  | .raw => "raw"
  | .header => "header"
  | .status => "status"
  | .txids => "txids"

def answer : BlockPage → String × Media
  | .raw => ("block", .data)
  | .header => ("block_header", .text)
  | .status => ("block_status", .json)
  | .txids => ("block_txids", .json)

end BlockPage

namespace TipPage

def name : TipPage → String
  | .height => "height"
  | .hash => "hash"

def answer : TipPage → String × Media
  | .height => ("tip_height", .text)
  | .hash => ("tip_hash", .text)

end TipPage

namespace MempoolPage

def name : MempoolPage → String
  | .txids => "txids"
  | .recent => "recent"

def answer : MempoolPage → String × Media
  | .txids => ("mempool_txids", .json)
  | .recent => ("mempool_recent", .json)

end MempoolPage

namespace TxView

def segments : TxView → List String
  | .whole => []
  | .named page => [page.name]
  | .outspend index => ["outspend", numeral index]

def answer : TxView → String × Media
  | .whole => ("tx", .json)
  | .named page => page.answer
  | .outspend _ => ("tx_outspend", .json)

def params : TxView → Params
  | .outspend index => [("index", .u32 index)]
  | _ => []

end TxView

namespace AddressKey

def segments : AddressKey → List String
  | .address text => ["address", text]
  | .scripthash hash => ["scripthash", hash.text]

/-- The bytes of a script hash are not reversed. -/
def params : AddressKey → Params
  | .address text => [("address", .text text)]
  | .scripthash hash => [("hash", .hash hash.bytes)]

end AddressKey

namespace AddressView

def segments : AddressView → List String
  | .whole => []
  | .txs => ["txs"]
  | .chain last => "txs" :: "chain" :: (last.map HashToken.text).toList
  | .mempool => ["txs", "mempool"]
  | .utxo => ["utxo"]

def answer : AddressView → String × Media
  | .whole => ("address", .json)
  | .txs => ("address_txs", .json)
  | .chain _ => ("address_txs_chain", .json)
  | .mempool => ("address_txs_mempool", .json)
  | .utxo => ("address_utxo", .json)

def params : AddressView → Params
  | .chain (some last) => [("last_seen", .hash last.digest)]
  | _ => []

end AddressView

namespace BlockView

def segments : BlockView → List String
  | .whole => []
  | .named page => [page.name]
  | .txs start => "txs" :: (start.map numeral).toList
  | .txid index => ["txid", numeral index]

def answer : BlockView → String × Media
  | .whole => ("block", .json)
  | .named page => page.answer
  | .txs _ => ("block_txs", .json)
  | .txid _ => ("block_txid", .text)

def params : BlockView → Params
  | .txs (some start) => [("start", .u32 start)]
  | .txid index => [("index", .u32 index)]
  | _ => []

end BlockView

namespace BlocksView

def segments : BlocksView → List String
  | .whole => []
  | .from height => [numeral height]
  | .tip page => ["tip", page.name]

def answer : BlocksView → String × Media
  | .whole => ("blocks", .json)
  | .from _ => ("blocks", .json)
  | .tip page => page.answer

def params : BlocksView → Params
  | .from height => [("height", .u32 height)]
  | _ => []

end BlocksView

namespace EsploraForm

def segments : EsploraForm → List String
  | .broadcast => ["tx"]
  | .tx hash view => "tx" :: hash.text :: view.segments
  | .package => ["txs", "package"]
  | .address key view => key.segments ++ view.segments
  | .block hash view => "block" :: hash.text :: view.segments
  | .blockHeight height => ["block-height", numeral height]
  | .blocks view => "blocks" :: view.segments
  | .mempool page => "mempool" :: (page.map MempoolPage.name).toList
  | .feeEstimates => ["fee-estimates"]

/-- The method of a form and the media that it is answered in. -/
def answer : EsploraForm → String × Media
  | .broadcast => ("broadcast", .text)
  | .tx _ view => view.answer
  | .package => ("broadcast_package", .json)
  | .address _ view => view.answer
  | .block _ view => view.answer
  | .blockHeight _ => ("block_height", .text)
  | .blocks view => view.answer
  | .mempool page => page.elim ("mempool", .json) MempoolPage.answer
  | .feeEstimates => ("fee_estimates", .json)

def params : EsploraForm → Params
  | .tx hash view => ("hash", .hash hash.digest) :: view.params
  | .address key view => key.params ++ view.params
  | .block hash view => ("hash", .hash hash.digest) :: view.params
  | .blockHeight height => [("height", .u32 height)]
  | .blocks view => view.params
  | _ => []

/-- The request of a form: its parameters and one media. -/
def request (form : EsploraForm) : Request where
  method := form.answer.1
  params := form.params ++ [("media", .media form.answer.2)]

end EsploraForm

/-! ## What each target accepts -/

section Accepts

variable {params : Params} {rest : List String} {request : Request}

@[simp] theorem readScripthash_eq_ok {segment : String} {digest : HashDigest} :
    readScripthash segment = .ok digest ↔
      ∃ token : HashToken, segment = token.text ∧ digest = token.bytes := by
  have decoded : toScripthash segment = some digest ↔ decodeHash segment = some digest.reverse := by
    unfold toScripthash decodeHash
    split_ifs
    · rw [← Option.map_injective List.reverse_injective |>.eq_iff, Option.map_some]
    · simp
  have read : readScripthash segment = .ok digest ↔ toScripthash segment = some digest := by
    rw [readScripthash]
    cases toScripthash segment <;> simp
  rw [read, decoded, decodeHash_eq_some]
  simp only [HashToken.digest_eq, List.reverse_inj]

theorem chooseTx_iff {component : String} {chosen : String × Media} :
    choose txViews .invalidComponent component = .ok chosen ↔
      ∃ page : TxPage, component = page.name ∧ chosen = page.answer := by
  apply choose_iff
  · simp [txViews]
  · apply listed_of_map [.hex, .raw, .status, .merkleblockProof, .merkleProof, .outspends]
    · intro page
      cases page <;> simp
    · rfl

theorem chooseBlock_iff {component : String} {chosen : String × Media} :
    choose blockViews .invalidComponent component = .ok chosen ↔
      ∃ page : BlockPage, component = page.name ∧ chosen = page.answer := by
  apply choose_iff
  · simp [blockViews]
  · apply listed_of_map [.raw, .header, .status, .txids]
    · intro page
      cases page <;> simp
    · rfl

theorem chooseTip_iff {component : String} {chosen : String × Media} :
    choose tipViews .invalidSubcomponent component = .ok chosen ↔
      ∃ page : TipPage, component = page.name ∧ chosen = page.answer := by
  apply choose_iff
  · simp [tipViews]
  · apply listed_of_map [.height, .hash]
    · intro page
      cases page <;> simp
    · rfl

theorem chooseMempool_iff {component : String} {chosen : String × Media} :
    choose mempoolViews .invalidComponent component = .ok chosen ↔
      ∃ page : MempoolPage, component = page.name ∧ chosen = page.answer := by
  apply choose_iff
  · simp [mempoolViews]
  · apply listed_of_map [.txids, .recent]
    · intro page
      cases page <;> simp
    · rfl

theorem esploraTxComponent_iff :
    esploraTxComponent params rest = .ok (request, []) ↔
      rest ≠ [] ∧ ∃ view : TxView, rest = view.segments ∧
        request = answered view.answer.1 view.answer.2 (params ++ view.params) := by
  simp only [esploraTxComponent, bind_eq_ok, Prod.exists, next_eq_ok]
  constructor
  · rintro ⟨component, left, rfl, read⟩
    refine ⟨by simp, ?_⟩
    split_ifs at read with outspend
    · simp only [bind_eq_ok, Prod.exists, next_eq_ok, present_eq_ok, readNumber_eq_ok, pure_eq_ok,
        Prod.mk.injEq] at read
      obtain ⟨_, _, _, _, rfl, index, rfl, rfl, rfl⟩ := read
      exact ⟨.outspend index, by rw [outspend]; rfl, rfl⟩
    · simp only [bind_eq_ok, Prod.exists, chooseTx_iff, pure_eq_ok, Prod.mk.injEq] at read
      obtain ⟨_, _, ⟨page, rfl, same⟩, rfl, rfl⟩ := read
      exact ⟨.named page, rfl, by simp [TxView.answer, TxView.params, ← same]⟩
  · rintro ⟨left, view, rfl, rfl⟩
    cases view with
    | whole => exact absurd rfl left
    | named page =>
        refine ⟨page.name, [], rfl, ?_⟩
        rw [if_neg (by cases page <;> decide)]
        simp only [bind_eq_ok, Prod.exists, chooseTx_iff, pure_eq_ok, Prod.mk.injEq]
        exact ⟨page.answer.1, page.answer.2, ⟨page, rfl, rfl⟩,
          by simp [TxView.answer, TxView.params], trivial⟩
    | outspend index =>
        refine ⟨_, _, rfl, ?_⟩
        simp only [if_true, bind_eq_ok, Prod.exists, next_eq_ok, present_eq_ok, readNumber_eq_ok,
          pure_eq_ok, Prod.mk.injEq]
        exact ⟨(), by simp, _, _, rfl, index, rfl, rfl, rfl⟩

theorem esploraTx_iff :
    esploraTx rest = .ok (request, []) ↔
      rest = [] ∧ request = answered "broadcast" .text [] ∨
      ∃ (hash : HashToken) (view : TxView), rest = hash.text :: view.segments ∧
        request = answered view.answer.1 view.answer.2
          (("hash", .hash hash.digest) :: view.params) := by
  unfold esploraTx
  constructor
  · intro read
    split_ifs at read with none
    · simp only [pure_eq_ok, Prod.mk.injEq] at read
      exact .inl ⟨none, read.1⟩
    · simp only [bind_eq_ok, Prod.exists, next_eq_ok, readHash_eq_ok] at read
      obtain ⟨_, left, rfl, _, ⟨hash, rfl, rfl⟩, read⟩ := read
      split_ifs at read with end_
      · simp only [pure_eq_ok, Prod.mk.injEq] at read
        exact .inr ⟨hash, .whole, by rw [end_]; rfl, read.1⟩
      · obtain ⟨-, view, rfl, rfl⟩ := esploraTxComponent_iff.mp read
        exact .inr ⟨hash, view, rfl, rfl⟩
  · rintro (⟨rfl, rfl⟩ | ⟨hash, view, rfl, rfl⟩)
    · simp
    · rw [if_neg (by simp)]
      simp only [bind_eq_ok, Prod.exists, next_eq_ok, readHash_eq_ok]
      refine ⟨_, _, rfl, _, ⟨hash, rfl, rfl⟩, ?_⟩
      split_ifs with end_
      · cases view with
        | whole => simp [TxView.answer, TxView.params, TxView.segments]
        | named | outspend => cases end_
      · exact esploraTxComponent_iff.mpr ⟨end_, view, rfl, rfl⟩

theorem esploraTxs_iff :
    esploraTxs rest = .ok (request, []) ↔
      rest = ["package"] ∧ request = answered "broadcast_package" .json [] := by
  simp only [esploraTxs, bind_eq_ok, Prod.exists, next_eq_ok, present_eq_ok]
  constructor
  · rintro ⟨_, _, component, left, rfl, read⟩
    split_ifs at read with package
    · exact absurd read fail_ne_ok
    · simp only [pure_eq_ok, Prod.mk.injEq] at read
      obtain ⟨rfl, rfl⟩ := read
      exact ⟨by rw [not_not.mp package], rfl⟩
  · rintro ⟨rfl, rfl⟩
    exact ⟨(), by simp, _, _, rfl, by simp⟩

/-- What follows "txs" of an address. -/
theorem esploraHistory_iff :
    esploraHistory params rest = .ok (request, []) ↔
      ∃ view : AddressView, "txs" :: rest = view.segments ∧
        request = answered view.answer.1 view.answer.2 (params ++ view.params) := by
  unfold esploraHistory
  constructor
  · intro read
    split_ifs at read with none
    · simp only [pure_eq_ok, Prod.mk.injEq] at read
      exact ⟨.txs, by rw [none]; rfl, by simp [read.1, AddressView.answer, AddressView.params]⟩
    · simp only [bind_eq_ok, Prod.exists, next_eq_ok] at read
      obtain ⟨subcomponent, left, rfl, read⟩ := read
      split_ifs at read with chain more mempool
      · simp only [bind_eq_ok, Prod.exists, next_eq_ok, readHash_eq_ok, pure_eq_ok,
          Prod.mk.injEq] at read
        obtain ⟨_, _, rfl, _, ⟨last, rfl, rfl⟩, rfl, rfl⟩ := read
        exact ⟨.chain (some last), by rw [chain]; rfl, rfl⟩
      · simp only [pure_eq_ok, Prod.mk.injEq] at read
        exact ⟨.chain .none, by rw [chain, not_not.mp more]; rfl,
          by simp [read.1, AddressView.answer, AddressView.params]⟩
      · simp only [pure_eq_ok, Prod.mk.injEq] at read
        obtain ⟨rfl, rfl⟩ := read
        exact ⟨.mempool, by rw [mempool]; rfl, by simp [AddressView.answer, AddressView.params]⟩
      · exact absurd read fail_ne_ok
  · rintro ⟨view, spelled, rfl⟩
    cases view with
    | whole => cases spelled
    | txs =>
        obtain ⟨-, rfl⟩ := List.cons.inj spelled
        simp [AddressView.answer, AddressView.params]
    | chain last =>
        obtain ⟨-, rfl⟩ := List.cons.inj spelled
        rw [if_neg (by simp)]
        simp only [bind_eq_ok, Prod.exists, next_eq_ok]
        refine ⟨_, _, rfl, ?_⟩
        cases last with
        | none => simp [AddressView.answer, AddressView.params]
        | some last =>
            simp only [if_true, Option.map_some, Option.toList_some, ne_eq, List.cons_ne_nil,
              not_false_eq_true, bind_eq_ok, Prod.exists, next_eq_ok, readHash_eq_ok, pure_eq_ok,
              Prod.mk.injEq]
            exact ⟨_, _, rfl, _, ⟨last, rfl, rfl⟩, rfl, rfl⟩
    | mempool =>
        obtain ⟨-, rfl⟩ := List.cons.inj spelled
        rw [if_neg (by simp)]
        simp only [bind_eq_ok, Prod.exists, next_eq_ok]
        exact ⟨_, _, rfl, by simp [AddressView.answer, AddressView.params]⟩
    | utxo => simp [AddressView.segments] at spelled

theorem esploraKey_iff {target segment : String} {read : Params}
    (either : target = "address" ∨ target = "scripthash") :
    esploraKey target segment = .ok read ↔
      ∃ key : AddressKey, [target, segment] = key.segments ∧ read = key.params := by
  unfold esploraKey
  constructor
  · intro reading
    split_ifs at reading with scripthash
    · simp only [bind_eq_ok, readScripthash_eq_ok, pure_eq_ok] at reading
      obtain ⟨_, ⟨hash, rfl, rfl⟩, rfl⟩ := reading
      exact ⟨.scripthash hash, by rw [scripthash]; rfl, rfl⟩
    · rw [pure_eq_ok] at reading
      have address := either.resolve_right scripthash
      exact ⟨.address segment, by rw [address]; rfl, reading⟩
  · rintro ⟨key, spelled, rfl⟩
    cases key with
    | address text =>
        simp only [AddressKey.segments, List.cons.injEq, and_true] at spelled
        obtain ⟨rfl, rfl⟩ := spelled
        simp [AddressKey.params]
    | scripthash hash =>
        simp only [AddressKey.segments, List.cons.injEq, and_true] at spelled
        obtain ⟨rfl, rfl⟩ := spelled
        simp only [if_true, bind_eq_ok, readScripthash_eq_ok, pure_eq_ok]
        exact ⟨_, ⟨hash, rfl, rfl⟩, rfl⟩

theorem esploraAddress_iff {target : String}
    (either : target = "address" ∨ target = "scripthash") :
    esploraAddress target rest = .ok (request, []) ↔
      ∃ (key : AddressKey) (view : AddressView),
        target :: rest = key.segments ++ view.segments ∧
        request = answered view.answer.1 view.answer.2 (key.params ++ view.params) := by
  simp only [esploraAddress, bind_eq_ok, Prod.exists, next_eq_ok, present_eq_ok,
    esploraKey_iff either]
  constructor
  · rintro ⟨_, _, segment, left, rfl, _, ⟨key, spelled, rfl⟩, read⟩
    have placed : ∀ others, target :: segment :: others = key.segments ++ others := by
      intro others
      rw [← spelled]
      rfl
    split_ifs at read with none
    · simp only [pure_eq_ok, Prod.mk.injEq] at read
      exact ⟨key, .whole, by rw [none, placed]; rfl,
        by simp [read.1, AddressView.answer, AddressView.params]⟩
    · simp only [bind_eq_ok, Prod.exists, next_eq_ok] at read
      obtain ⟨component, left, rfl, read⟩ := read
      split_ifs at read with txs utxo
      · obtain ⟨view, named, rfl⟩ := esploraHistory_iff.mp read
        exact ⟨key, view, by rw [placed, txs, named], rfl⟩
      · simp only [pure_eq_ok, Prod.mk.injEq] at read
        obtain ⟨rfl, rfl⟩ := read
        exact ⟨key, .utxo, by rw [placed, utxo]; rfl,
          by simp [AddressView.answer, AddressView.params]⟩
      · exact absurd read fail_ne_ok
  · rintro ⟨key, view, spelled, rfl⟩
    obtain ⟨segment, named⟩ : ∃ segment, key.segments = [target, segment] := by
      cases key with
      | address text =>
          obtain ⟨rfl, -⟩ := List.cons.inj spelled
          exact ⟨text, rfl⟩
      | scripthash hash =>
          obtain ⟨rfl, -⟩ := List.cons.inj spelled
          exact ⟨hash.text, rfl⟩
    rw [named] at spelled
    obtain ⟨-, rfl⟩ := List.cons.inj spelled
    refine ⟨(), by simp, segment, view.segments, rfl, _, ⟨key, named.symm, rfl⟩, ?_⟩
    cases view with
    | whole => simp [AddressView.segments, AddressView.answer, AddressView.params]
    | utxo => simp [AddressView.segments, AddressView.answer, AddressView.params, bind_eq_ok]
    | txs =>
        rw [if_neg (by simp [AddressView.segments])]
        simp only [bind_eq_ok, Prod.exists, next_eq_ok]
        exact ⟨_, _, rfl, by rw [if_pos rfl]; exact esploraHistory_iff.mpr ⟨.txs, rfl, rfl⟩⟩
    | chain last =>
        rw [if_neg (by simp [AddressView.segments])]
        simp only [bind_eq_ok, Prod.exists, next_eq_ok]
        exact ⟨_, _, rfl, by rw [if_pos rfl]; exact esploraHistory_iff.mpr ⟨.chain last, rfl, rfl⟩⟩
    | mempool =>
        rw [if_neg (by simp [AddressView.segments])]
        simp only [bind_eq_ok, Prod.exists, next_eq_ok]
        exact ⟨_, _, rfl, by rw [if_pos rfl]; exact esploraHistory_iff.mpr ⟨.mempool, rfl, rfl⟩⟩

theorem esploraBlockComponent_iff :
    esploraBlockComponent params rest = .ok (request, []) ↔
      rest ≠ [] ∧ ∃ view : BlockView, rest = view.segments ∧
        request = answered view.answer.1 view.answer.2 (params ++ view.params) := by
  simp only [esploraBlockComponent, bind_eq_ok, Prod.exists, next_eq_ok]
  constructor
  · rintro ⟨component, left, rfl, read⟩
    refine ⟨by simp, ?_⟩
    split_ifs at read with txs more txid
    · simp only [bind_eq_ok, Prod.exists, next_eq_ok, readNumber_eq_ok, pure_eq_ok,
        Prod.mk.injEq] at read
      obtain ⟨_, _, rfl, start, rfl, rfl, rfl⟩ := read
      exact ⟨.txs (some start), by rw [txs]; rfl, rfl⟩
    · simp only [pure_eq_ok, Prod.mk.injEq] at read
      exact ⟨.txs none, by rw [txs, not_not.mp more]; rfl,
        by simp [read.1, BlockView.answer, BlockView.params]⟩
    · simp only [bind_eq_ok, Prod.exists, next_eq_ok, present_eq_ok, readNumber_eq_ok, pure_eq_ok,
        Prod.mk.injEq] at read
      obtain ⟨_, _, _, _, rfl, index, rfl, rfl, rfl⟩ := read
      exact ⟨.txid index, by rw [txid]; rfl, rfl⟩
    · simp only [bind_eq_ok, Prod.exists, chooseBlock_iff, pure_eq_ok, Prod.mk.injEq] at read
      obtain ⟨_, _, ⟨page, rfl, same⟩, rfl, rfl⟩ := read
      exact ⟨.named page, rfl, by simp [BlockView.answer, BlockView.params, ← same]⟩
  · rintro ⟨left, view, rfl, rfl⟩
    cases view with
    | whole => exact absurd rfl left
    | named page =>
        refine ⟨page.name, [], rfl, ?_⟩
        rw [if_neg (by cases page <;> decide), if_neg (by cases page <;> decide)]
        simp only [bind_eq_ok, Prod.exists, chooseBlock_iff, pure_eq_ok, Prod.mk.injEq]
        exact ⟨page.answer.1, page.answer.2, ⟨page, rfl, rfl⟩,
          by simp [BlockView.answer, BlockView.params], trivial⟩
    | txs start =>
        refine ⟨_, _, rfl, ?_⟩
        cases start with
        | none => simp [BlockView.answer, BlockView.params]
        | some start =>
            simp only [if_true, Option.map_some, Option.toList_some, ne_eq, List.cons_ne_nil,
              not_false_eq_true, bind_eq_ok, Prod.exists, next_eq_ok, readNumber_eq_ok, pure_eq_ok,
              Prod.mk.injEq]
            exact ⟨_, _, rfl, start, rfl, rfl, rfl⟩
    | txid index =>
        refine ⟨_, _, rfl, ?_⟩
        rw [if_neg (by decide), if_pos rfl]
        simp only [bind_eq_ok, Prod.exists, next_eq_ok, present_eq_ok, readNumber_eq_ok,
          pure_eq_ok, Prod.mk.injEq]
        exact ⟨(), by simp, _, _, rfl, index, rfl, rfl, rfl⟩

theorem esploraBlock_iff :
    esploraBlock rest = .ok (request, []) ↔
      ∃ (hash : HashToken) (view : BlockView), rest = hash.text :: view.segments ∧
        request = answered view.answer.1 view.answer.2
          (("hash", .hash hash.digest) :: view.params) := by
  simp only [esploraBlock, bind_eq_ok, Prod.exists, next_eq_ok, present_eq_ok, readHash_eq_ok]
  constructor
  · rintro ⟨_, _, _, left, rfl, _, ⟨hash, rfl, rfl⟩, read⟩
    split_ifs at read with end_
    · simp only [pure_eq_ok, Prod.mk.injEq] at read
      exact ⟨hash, .whole, by rw [end_]; rfl, read.1⟩
    · obtain ⟨-, view, rfl, rfl⟩ := esploraBlockComponent_iff.mp read
      exact ⟨hash, view, rfl, rfl⟩
  · rintro ⟨hash, view, rfl, rfl⟩
    refine ⟨(), by simp, _, _, rfl, _, ⟨hash, rfl, rfl⟩, ?_⟩
    split_ifs with end_
    · cases view with
      | whole => simp [BlockView.answer, BlockView.params, BlockView.segments]
      | named | txs | txid => cases end_
    · exact esploraBlockComponent_iff.mpr ⟨end_, view, rfl, rfl⟩

theorem esploraBlockHeight_iff :
    esploraBlockHeight rest = .ok (request, []) ↔
      ∃ height : BitVec 32, rest = [numeral height] ∧
        request = answered "block_height" .text [("height", .u32 height)] := by
  simp only [esploraBlockHeight, bind_eq_ok, Prod.exists, next_eq_ok, present_eq_ok,
    readNumber_eq_ok, pure_eq_ok, Prod.mk.injEq]
  constructor
  · rintro ⟨_, _, _, _, rfl, height, rfl, rfl, rfl⟩
    exact ⟨height, rfl, rfl⟩
  · rintro ⟨height, rfl, rfl⟩
    exact ⟨(), by simp, _, _, rfl, height, rfl, rfl, rfl⟩

/-- A numeral is not the text "tip". -/
theorem numeral_ne_tip (height : BitVec 32) : numeral height ≠ "tip" := by
  intro same
  have read : toNumber 32 "tip" = some height := toNumber_eq_some.mpr same.symm
  exact absurd read (by simp [toNumber])

theorem esploraBlocks_iff :
    esploraBlocks rest = .ok (request, []) ↔
      ∃ view : BlocksView, rest = view.segments ∧
        request = answered view.answer.1 view.answer.2 view.params := by
  unfold esploraBlocks
  constructor
  · intro read
    split_ifs at read with none
    · simp only [pure_eq_ok, Prod.mk.injEq] at read
      exact ⟨.whole, none, read.1⟩
    · simp only [bind_eq_ok, Prod.exists, next_eq_ok] at read
      obtain ⟨segment, left, rfl, read⟩ := read
      split_ifs at read with tip
      · simp only [bind_eq_ok, Prod.exists, next_eq_ok, present_eq_ok, chooseTip_iff, pure_eq_ok,
          Prod.mk.injEq] at read
        obtain ⟨_, _, _, _, rfl, _, _, ⟨page, rfl, same⟩, rfl, rfl⟩ := read
        exact ⟨.tip page, by rw [tip]; rfl, by simp [BlocksView.answer, BlocksView.params, ← same]⟩
      · simp only [bind_eq_ok, readNumber_eq_ok, pure_eq_ok, Prod.mk.injEq] at read
        obtain ⟨height, rfl, rfl, rfl⟩ := read
        exact ⟨.from height, rfl, rfl⟩
  · rintro ⟨view, rfl, rfl⟩
    cases view with
    | whole => simp [BlocksView.segments, BlocksView.answer, BlocksView.params]
    | «from» height =>
        rw [if_neg (by simp [BlocksView.segments])]
        simp only [bind_eq_ok, Prod.exists, next_eq_ok]
        refine ⟨_, _, rfl, ?_⟩
        rw [if_neg (numeral_ne_tip height)]
        simp only [bind_eq_ok, readNumber_eq_ok, pure_eq_ok, Prod.mk.injEq]
        exact ⟨height, rfl, rfl, trivial⟩
    | tip page =>
        rw [if_neg (by simp [BlocksView.segments])]
        simp only [bind_eq_ok, Prod.exists, next_eq_ok]
        refine ⟨_, _, rfl, ?_⟩
        simp only [if_true, bind_eq_ok, Prod.exists, next_eq_ok, present_eq_ok, chooseTip_iff,
          pure_eq_ok, Prod.mk.injEq]
        exact ⟨(), by simp, _, _, rfl, page.answer.1, page.answer.2, ⟨page, rfl, rfl⟩, rfl, rfl⟩

theorem esploraMempool_iff :
    esploraMempool rest = .ok (request, []) ↔
      ∃ page : Option MempoolPage, rest = (page.map MempoolPage.name).toList ∧
        request = answered (page.elim ("mempool", .json) MempoolPage.answer).1
          (page.elim ("mempool", .json) MempoolPage.answer).2 [] := by
  unfold esploraMempool
  constructor
  · intro read
    split_ifs at read with none
    · simp only [pure_eq_ok, Prod.mk.injEq] at read
      exact ⟨.none, none, read.1⟩
    · simp only [bind_eq_ok, Prod.exists, next_eq_ok, chooseMempool_iff, pure_eq_ok,
        Prod.mk.injEq] at read
      obtain ⟨_, _, rfl, _, _, ⟨page, rfl, same⟩, rfl, rfl⟩ := read
      exact ⟨some page, rfl, by simp [← same]⟩
  · rintro ⟨page, rfl, rfl⟩
    cases page with
    | none => simp
    | some page =>
        rw [if_neg (by simp)]
        simp only [bind_eq_ok, Prod.exists, next_eq_ok, chooseMempool_iff, pure_eq_ok,
          Prod.mk.injEq]
        exact ⟨_, _, rfl, page.answer.1, page.answer.2, ⟨page, rfl, rfl⟩, rfl, rfl⟩

theorem esploraComponent_iff {target : String} :
    esploraComponent target rest = .ok (request, []) ↔
      ∃ form : EsploraForm, target :: rest = form.segments ∧ request = form.request := by
  unfold esploraComponent
  constructor
  · intro reading
    split_ifs at reading with tx txs address block height blocks mempool fees
    · rcases esploraTx_iff.mp reading with ⟨rfl, rfl⟩ | ⟨hash, view, rfl, rfl⟩
      · exact ⟨.broadcast, by rw [tx]; rfl, rfl⟩
      · exact ⟨.tx hash view, by rw [tx]; rfl, rfl⟩
    · obtain ⟨rfl, rfl⟩ := esploraTxs_iff.mp reading
      exact ⟨.package, by rw [txs]; rfl, rfl⟩
    · obtain ⟨key, view, spelled, rfl⟩ := (esploraAddress_iff address).mp reading
      exact ⟨.address key view, spelled, rfl⟩
    · obtain ⟨hash, view, rfl, rfl⟩ := esploraBlock_iff.mp reading
      exact ⟨.block hash view, by rw [block]; rfl, rfl⟩
    · obtain ⟨value, rfl, rfl⟩ := esploraBlockHeight_iff.mp reading
      exact ⟨.blockHeight value, by rw [height]; rfl, rfl⟩
    · obtain ⟨view, rfl, rfl⟩ := esploraBlocks_iff.mp reading
      exact ⟨.blocks view, by rw [blocks]; rfl, rfl⟩
    · obtain ⟨page, rfl, rfl⟩ := esploraMempool_iff.mp reading
      exact ⟨.mempool page, by rw [mempool]; rfl, rfl⟩
    · simp only [pure_eq_ok, Prod.mk.injEq] at reading
      obtain ⟨rfl, rfl⟩ := reading
      exact ⟨.feeEstimates, by rw [fees]; rfl, rfl⟩
    · exact absurd reading fail_ne_ok
  · rintro ⟨form, spelled, rfl⟩
    cases form with
    | broadcast =>
        obtain ⟨rfl, rfl⟩ := List.cons.inj spelled
        exact esploraTx_iff.mpr (.inl ⟨rfl, rfl⟩)
    | tx hash view =>
        obtain ⟨rfl, rfl⟩ := List.cons.inj spelled
        exact esploraTx_iff.mpr (.inr ⟨hash, view, rfl, rfl⟩)
    | package =>
        obtain ⟨rfl, rfl⟩ := List.cons.inj spelled
        simp only [reduceIte, String.reduceEq]
        exact esploraTxs_iff.mpr ⟨rfl, rfl⟩
    | address key view =>
        have either : target = "address" ∨ target = "scripthash" := by
          cases key with
          | address text => exact .inl (List.cons.inj spelled).1
          | scripthash hash => exact .inr (List.cons.inj spelled).1
        have accepted := (esploraAddress_iff either).mpr ⟨key, view, spelled, rfl⟩
        rcases either with rfl | rfl
        · simp only [reduceIte, String.reduceEq, true_or]
          exact accepted
        · simp only [reduceIte, String.reduceEq, or_true]
          exact accepted
    | block hash view =>
        obtain ⟨rfl, rfl⟩ := List.cons.inj spelled
        simp only [reduceIte, String.reduceEq, or_self]
        exact esploraBlock_iff.mpr ⟨hash, view, rfl, rfl⟩
    | blockHeight height =>
        obtain ⟨rfl, rfl⟩ := List.cons.inj spelled
        simp only [reduceIte, String.reduceEq, or_self]
        exact esploraBlockHeight_iff.mpr ⟨height, rfl, rfl⟩
    | blocks view =>
        obtain ⟨rfl, rfl⟩ := List.cons.inj spelled
        simp only [reduceIte, String.reduceEq, or_self]
        exact esploraBlocks_iff.mpr ⟨view, rfl, rfl⟩
    | mempool page =>
        obtain ⟨rfl, rfl⟩ := List.cons.inj spelled
        simp only [reduceIte, String.reduceEq, or_self]
        exact esploraMempool_iff.mpr ⟨page, rfl, rfl⟩
    | feeEstimates =>
        obtain ⟨rfl, rfl⟩ := List.cons.inj spelled
        simp only [reduceIte, String.reduceEq, or_self, pure_eq_ok, Prod.mk.injEq, and_true]
        rfl

end Accepts

/-! ## The cursor stays inside -/

section Inside

variable (params : Params) (rest : List String)

theorem inside_readScripthash (segment : String) : Inside (readScripthash segment) := by
  unfold readScripthash
  cases toScripthash segment with
  | none => exact inside_fail _
  | some digest => exact inside_pure digest

theorem inside_esploraTxComponent (left : rest ≠ []) :
    Inside (esploraTxComponent params rest) := by
  unfold esploraTxComponent
  apply (inside_next left).bind
  rintro ⟨component, rest⟩ _
  dsimp only
  split_ifs
  · apply Inside.present_next
    intro segment left _
    exact (inside_readNumber 32 segment).then_pure _
  · exact (inside_choose _ _ component).then_pure _

theorem inside_esploraTx : Inside (esploraTx rest) := by
  unfold esploraTx
  split_ifs with none
  · exact inside_pure _
  · apply (inside_next none).bind
    rintro ⟨segment, rest⟩ _
    apply (inside_readHash segment).bind
    intro hash _
    dsimp only
    split_ifs with end_
    · exact inside_pure _
    · exact inside_esploraTxComponent _ rest end_

theorem inside_esploraTxs : Inside (esploraTxs rest) := by
  unfold esploraTxs
  apply Inside.present_next
  intro component left _
  dsimp only
  split_ifs
  · exact inside_fail _
  · exact inside_pure _

theorem inside_esploraHistory : Inside (esploraHistory params rest) := by
  unfold esploraHistory
  split_ifs with none
  · exact inside_pure _
  · apply (inside_next none).bind
    rintro ⟨subcomponent, rest⟩ _
    dsimp only
    split_ifs with chain more
    · apply (inside_next more).bind
      rintro ⟨segment, rest⟩ _
      exact (inside_readHash segment).then_pure _
    · exact inside_pure _
    · exact inside_pure _
    · exact inside_fail _

theorem inside_esploraKey (target segment : String) : Inside (esploraKey target segment) := by
  unfold esploraKey
  split_ifs
  · exact (inside_readScripthash segment).then_pure _
  · exact inside_pure _

theorem inside_esploraAddress (target : String) : Inside (esploraAddress target rest) := by
  unfold esploraAddress
  apply Inside.present_next
  intro key left _
  apply (inside_esploraKey target key).bind
  intro params _
  dsimp only
  split_ifs with none
  · exact inside_pure _
  · apply (inside_next none).bind
    rintro ⟨component, rest⟩ _
    dsimp only
    split_ifs
    · exact inside_esploraHistory params rest
    · exact inside_pure _
    · exact inside_fail _

theorem inside_esploraBlockComponent (left : rest ≠ []) :
    Inside (esploraBlockComponent params rest) := by
  unfold esploraBlockComponent
  apply (inside_next left).bind
  rintro ⟨component, rest⟩ _
  dsimp only
  split_ifs with txs more
  · apply (inside_next more).bind
    rintro ⟨segment, rest⟩ _
    exact (inside_readNumber 32 segment).then_pure _
  · exact inside_pure _
  · apply Inside.present_next
    intro segment left _
    exact (inside_readNumber 32 segment).then_pure _
  · exact (inside_choose _ _ component).then_pure _

theorem inside_esploraBlock : Inside (esploraBlock rest) := by
  unfold esploraBlock
  apply Inside.present_next
  intro segment left _
  apply (inside_readHash segment).bind
  intro hash _
  dsimp only
  split_ifs with end_
  · exact inside_pure _
  · exact inside_esploraBlockComponent _ left end_

theorem inside_esploraBlockHeight : Inside (esploraBlockHeight rest) := by
  unfold esploraBlockHeight
  apply Inside.present_next
  intro segment left _
  exact (inside_readNumber 32 segment).then_pure _

theorem inside_esploraBlocks : Inside (esploraBlocks rest) := by
  unfold esploraBlocks
  split_ifs with none
  · exact inside_pure _
  · apply (inside_next none).bind
    rintro ⟨segment, rest⟩ _
    dsimp only
    split_ifs
    · apply Inside.present_next
      intro subcomponent left _
      exact (inside_choose _ _ subcomponent).then_pure _
    · exact (inside_readNumber 32 segment).then_pure _

theorem inside_esploraMempool : Inside (esploraMempool rest) := by
  unfold esploraMempool
  split_ifs with none
  · exact inside_pure _
  · apply (inside_next none).bind
    rintro ⟨component, rest⟩ _
    exact (inside_choose _ _ component).then_pure _

theorem inside_esploraComponent (target : String) : Inside (esploraComponent target rest) := by
  unfold esploraComponent
  split_ifs
  · exact inside_esploraTx rest
  · exact inside_esploraTxs rest
  · exact inside_esploraAddress rest target
  · exact inside_esploraBlock rest
  · exact inside_esploraBlockHeight rest
  · exact inside_esploraBlocks rest
  · exact inside_esploraMempool rest
  · exact inside_pure _
  · exact inside_fail _

theorem inside_esploraTarget (path : String) : Inside (esploraTarget path) := by
  unfold esploraTarget
  split_ifs
  · exact inside_fail _
  · apply (inside_next (Text.split_ne_nil _ _ _)).bind
    rintro ⟨target, rest⟩ _
    dsimp only
    split_ifs
    · exact inside_fail _
    · apply (inside_esploraComponent rest target).bind
      intro reading _
      exact inside_finish reading

end Inside

/-! ## The target -/

theorem esploraTarget_eq_ok {path : String} {request : Request} :
    esploraTarget path = .ok request ↔
      ∃ form : EsploraForm, segments path = form.segments ∧ request = form.request := by
  unfold esploraTarget
  constructor
  · intro reading
    split_ifs at reading with empty
    · exact absurd reading fail_ne_ok
    · simp only [bind_eq_ok, Prod.exists, next_eq_ok] at reading
      obtain ⟨target, rest, here, reading⟩ := reading
      split_ifs at reading with missing
      · exact absurd reading fail_ne_ok
      · simp only [bind_eq_ok, Prod.exists, finish_eq_ok] at reading
        obtain ⟨_, _, reading, same⟩ := reading
        obtain ⟨rfl, rfl⟩ := Prod.mk.inj same
        obtain ⟨form, named, rfl⟩ := esploraComponent_iff.mp reading
        rw [split_eq] at here
        split_ifs at here with none
        · exact absurd (List.cons.inj here).1.symm missing
        · exact ⟨form, here.trans named, rfl⟩
  · rintro ⟨form, here, rfl⟩
    obtain ⟨target, rest, named⟩ : ∃ target rest, form.segments = target :: rest := by
      rcases form with _ | _ | _ | ⟨_ | _, _⟩ | _ | _ | _ | _ | _ <;> exact ⟨_, _, rfl⟩
    rw [named] at here
    have present : cleaned path ≠ "" := by
      intro empty
      rw [segments_of_empty empty] at here
      cases here
    have member : target ∈ segments path := by
      rw [here]
      simp
    have missing : target ≠ "" := ne_empty_of_mem member
    rw [if_neg present]
    simp only [bind_eq_ok, Prod.exists, next_eq_ok]
    refine ⟨target, rest, by rw [split_eq, if_neg (by simp [here]), here], ?_⟩
    rw [if_neg missing]
    simp only [bind_eq_ok, Prod.exists, finish_eq_ok]
    exact ⟨_, _, esploraComponent_iff.mpr ⟨form, named.symm, rfl⟩, rfl⟩

/-- A form sets one media beside its parameters. -/
theorem EsploraForm.one_media (form : EsploraForm) :
    form.request.params.filter (fun param => param.1 = "media") =
      [("media", .media form.answer.2)] := by
  have others : form.params.filter (fun param => param.1 = "media") = [] := by
    cases form with
    | broadcast | package | mempool | feeEstimates => rfl
    | tx hash view => cases view <;> rfl
    | address key view =>
        cases key <;> rcases view with _ | _ | ⟨_ | _⟩ | _ | _ <;> rfl
    | block hash view => rcases view with _ | _ | ⟨_ | _⟩ | _ <;> rfl
    | blockHeight height => rfl
    | blocks view => cases view <;> rfl
  rw [EsploraForm.request, List.filter_append, others]
  rfl

/-- The esplora target accepts the grammar and nothing else, with the request of the form
    and one media, and no segment is read past the end. -/
theorem esploraTarget_grammar :
    (∀ path request, esploraTarget path = .ok request ↔
      ∃ form : EsploraForm, segments path = form.segments ∧ request = form.request) ∧
    (∀ form : EsploraForm, form.request.params.filter (fun param => param.1 = "media") =
      [("media", .media form.answer.2)]) ∧
    (∀ hash : HashToken, hash.digest = hash.bytes.reverse) ∧
    ∀ path, esploraTarget path ≠ .error .outOfRange :=
  ⟨fun _ _ => esploraTarget_eq_ok, EsploraForm.one_media, HashToken.digest_eq,
    inside_esploraTarget⟩

example : esploraTarget "/blocks/tip/height?x" =
    .ok (EsploraForm.blocks (.tip .height)).request := by
  decide

example : esploraTarget "/tx/raw/1" = .error (.code .invalidHash) := by
  decide

end LibbitcoinServer.Parsers

import LibbitcoinServer.Parsers.Target

/-! # The native target

The grammar of the native interface is a version and one of its forms.  The parser
accepts the segments of a form and nothing else, and the request that it makes is that
of the form.  Two paths make the same request only by the same segments, up to the
letter case of a hash.
-/

namespace LibbitcoinServer.Parsers

/-! ## The parser -/

def addressMethods : List (String × String) :=
  [("confirmed", "address_confirmed"), ("unconfirmed", "address_unconfirmed"),
    ("balance", "address_balance"), ("subscribe", "address_subscribe")]

def inputMethods : List (String × String) :=
  [("script", "input_script"), ("witness", "input_witness")]

def outputMethods : List (String × String) :=
  [("script", "output_script"), ("spender", "output_spender"), ("spenders", "output_spenders"),
    ("subscribe", "output_subscribe")]

def txMethods : List (String × String) := [("header", "tx_header"), ("details", "tx_details")]

def filterMethods : List (String × String) :=
  [("hash", "block_filter_hash"), ("header", "block_filter_header")]

def nativeAddress (params : Params) (rest : List String) : Reading := do
  present .missingHash rest
  let (segment, rest) ← next rest
  let hash ← readHash segment
  readPart "address" addressMethods .invalidSubcomponent (params ++ [("hash", .hash hash)]) rest

/-- The targets "input" and "output". -/
def nativePut (every one : String) (choices : List (String × String)) (params : Params)
    (rest : List String) : Reading := do
  present .missingHash rest
  let (segment, rest) ← next rest
  let hash ← readHash segment
  let params := params ++ [("hash", .hash hash)]
  if rest = [] then return ({ method := every, params }, rest)
  else
    let (component, rest) ← next rest
    let index ← readNumber 32 component
    readPart one choices .invalidSubcomponent (params ++ [("index", .u32 index)]) rest

def nativeTx (params : Params) (rest : List String) : Reading := do
  present .missingHash rest
  let (segment, rest) ← next rest
  if segment = "subscribe" then return ({ method := "tx_subscribe", params }, rest)
  else
    let hash ← readHash segment
    readPart "tx" txMethods .invalidComponent (params ++ [("hash", .hash hash)]) rest

/-- The identifier of a block, of the type that was read. -/
def nativeBlockId (by_ : String) (params : Params) (rest : List String) :
    Except Fault (Params × List String) :=
  if by_ = "hash" then do
    present .missingHash rest
    let (segment, rest) ← next rest
    let hash ← readHash segment
    return (params ++ [("hash", .hash hash)], rest)
  else if by_ = "height" then do
    present .missingHeight rest
    let (segment, rest) ← next rest
    let height ← readNumber 32 segment
    return (params ++ [("height", .u32 height)], rest)
  else fail .invalidIdType

def nativeBlockComponent (component : String) (params : Params) (rest : List String) : Reading :=
  if component = "tx" then do
    present .missingPosition rest
    let (segment, rest) ← next rest
    let position ← readNumber 32 segment
    return ({ method := "block_tx", params := params ++ [("position", .u32 position)] }, rest)
  else if component = "header" then
    readPart "block_header" [("context", "block_header_context")] .invalidSubcomponent params rest
  else if component = "txs" then return ({ method := "block_txs", params }, rest)
  else if component = "details" then return ({ method := "block_details", params }, rest)
  else if component = "filter" then do
    present .missingTypeId rest
    let (segment, rest) ← next rest
    let type ← readNumber 8 segment
    readPart "block_filter" filterMethods .invalidSubcomponent (params ++ [("type", .u8 type)]) rest
  else fail .invalidComponent

def nativeBlock (params : Params) (rest : List String) : Reading := do
  present .missingIdType rest
  let (by_, rest) ← next rest
  if by_ = "subscribe" then return ({ method := "block_subscribe", params }, rest)
  else
    let (params, rest) ← nativeBlockId by_ params rest
    if rest = [] then return ({ method := "block", params }, rest)
    else
      let (component, rest) ← next rest
      nativeBlockComponent component params rest

def nativeComponent (target : String) (params : Params) (rest : List String) : Reading :=
  if target = "configuration" then return ({ method := "configuration", params }, rest)
  else if target = "top" then
    readPart "top" [("subscribe", "top_subscribe")] .invalidSubcomponent params rest
  else if target = "address" then nativeAddress params rest
  else if target = "input" then nativePut "inputs" "input" inputMethods params rest
  else if target = "output" then nativePut "outputs" "output" outputMethods params rest
  else if target = "tx" then nativeTx params rest
  else if target = "block" then nativeBlock params rest
  else fail .invalidTarget

def nativeTarget (path : String) : Except Fault Request := do
  if cleaned path = "" then fail .emptyPath
  else
    let (segment, rest) ← next (split path)
    if segment.toList.head? ≠ some 'v' then fail .missingVersion
    else
      let version ← readNumber 8 (String.ofList segment.toList.tail)
      present .missingTarget rest
      let (target, rest) ← next rest
      let reading ← nativeComponent target [("version", .u8 version)] rest
      finish reading

/-! ## The grammar -/

inductive TopPart where
  | subscribe

inductive AddressPart where
  | confirmed
  | unconfirmed
  | balance
  | subscribe

inductive InputPart where
  | script
  | witness

inductive OutputPart where
  | script
  | spender
  | spenders
  | subscribe

inductive TxPart where
  | header
  | details

inductive HeaderPart where
  | context

inductive FilterPart where
  | hash
  | header

inductive BlockId where
  | hash (hash : HashToken)
  | height (height : BitVec 32)

inductive BlockPart where
  | tx (position : BitVec 32)
  | header (part : Option HeaderPart)
  | txs
  | details
  | filter (type : BitVec 8) (part : Option FilterPart)

inductive NativeForm where
  | configuration
  | top (part : Option TopPart)
  | address (hash : HashToken) (part : Option AddressPart)
  | inputs (hash : HashToken)
  | input (hash : HashToken) (index : BitVec 32) (part : Option InputPart)
  | outputs (hash : HashToken)
  | output (hash : HashToken) (index : BitVec 32) (part : Option OutputPart)
  | txSubscribe
  | tx (hash : HashToken) (part : Option TxPart)
  | blockSubscribe
  | block (id : BlockId) (part : Option BlockPart)

def TopPart.name : TopPart → String
  | .subscribe => "subscribe"

def TopPart.method : TopPart → String
  | .subscribe => "top_subscribe"

def AddressPart.name : AddressPart → String
  | .confirmed => "confirmed"
  | .unconfirmed => "unconfirmed"
  | .balance => "balance"
  | .subscribe => "subscribe"

def AddressPart.method : AddressPart → String
  | .confirmed => "address_confirmed"
  | .unconfirmed => "address_unconfirmed"
  | .balance => "address_balance"
  | .subscribe => "address_subscribe"

def InputPart.name : InputPart → String
  | .script => "script"
  | .witness => "witness"

def InputPart.method : InputPart → String
  | .script => "input_script"
  | .witness => "input_witness"

def OutputPart.name : OutputPart → String
  | .script => "script"
  | .spender => "spender"
  | .spenders => "spenders"
  | .subscribe => "subscribe"

def OutputPart.method : OutputPart → String
  | .script => "output_script"
  | .spender => "output_spender"
  | .spenders => "output_spenders"
  | .subscribe => "output_subscribe"

def TxPart.name : TxPart → String
  | .header => "header"
  | .details => "details"

def TxPart.method : TxPart → String
  | .header => "tx_header"
  | .details => "tx_details"

def HeaderPart.name : HeaderPart → String
  | .context => "context"

def HeaderPart.method : HeaderPart → String
  | .context => "block_header_context"

def FilterPart.name : FilterPart → String
  | .hash => "hash"
  | .header => "header"

def FilterPart.method : FilterPart → String
  | .hash => "block_filter_hash"
  | .header => "block_filter_header"

namespace BlockId

def segments : BlockId → List String
  | .hash token => ["hash", token.text]
  | .height value => ["height", numeral value]

def params : BlockId → Params
  | .hash token => [("hash", .hash token.digest)]
  | .height value => [("height", .u32 value)]

end BlockId

namespace BlockPart

def segments : BlockPart → List String
  | .tx position => ["tx", numeral position]
  | .header part => "header" :: (part.map HeaderPart.name).toList
  | .txs => ["txs"]
  | .details => ["details"]
  | .filter type part => "filter" :: numeral type :: (part.map FilterPart.name).toList

def method : BlockPart → String
  | .tx _ => "block_tx"
  | .header part => part.elim "block_header" HeaderPart.method
  | .txs => "block_txs"
  | .details => "block_details"
  | .filter _ part => part.elim "block_filter" FilterPart.method

def params : BlockPart → Params
  | .tx position => [("position", .u32 position)]
  | .filter type _ => [("type", .u8 type)]
  | _ => []

end BlockPart

namespace NativeForm

def segments : NativeForm → List String
  | .configuration => ["configuration"]
  | .top part => "top" :: (part.map TopPart.name).toList
  | .address hash part => "address" :: hash.text :: (part.map AddressPart.name).toList
  | .inputs hash => ["input", hash.text]
  | .input hash index part =>
      "input" :: hash.text :: numeral index :: (part.map InputPart.name).toList
  | .outputs hash => ["output", hash.text]
  | .output hash index part =>
      "output" :: hash.text :: numeral index :: (part.map OutputPart.name).toList
  | .txSubscribe => ["tx", "subscribe"]
  | .tx hash part => "tx" :: hash.text :: (part.map TxPart.name).toList
  | .blockSubscribe => ["block", "subscribe"]
  | .block id part => "block" :: (id.segments ++ part.elim [] BlockPart.segments)

def method : NativeForm → String
  | .configuration => "configuration"
  | .top part => part.elim "top" TopPart.method
  | .address _ part => part.elim "address" AddressPart.method
  | .inputs _ => "inputs"
  | .input _ _ part => part.elim "input" InputPart.method
  | .outputs _ => "outputs"
  | .output _ _ part => part.elim "output" OutputPart.method
  | .txSubscribe => "tx_subscribe"
  | .tx _ part => part.elim "tx" TxPart.method
  | .blockSubscribe => "block_subscribe"
  | .block _ part => part.elim "block" BlockPart.method

def params : NativeForm → Params
  | .address hash _ | .inputs hash | .outputs hash | .tx hash _ => [("hash", .hash hash.digest)]
  | .input hash index _ | .output hash index _ =>
      [("hash", .hash hash.digest), ("index", .u32 index)]
  | .block id part => id.params ++ part.elim [] BlockPart.params
  | _ => []

/-- The request of a form: the version and the parameters that the form names. -/
def request (version : BitVec 8) (form : NativeForm) : Request where
  method := form.method
  params := ("version", .u8 version) :: form.params

/-- The segments of a form under a version. -/
def spelled (version : BitVec 8) (form : NativeForm) : List String :=
  ("v" ++ numeral version) :: form.segments

end NativeForm

/-! ## What each target accepts -/

section Accepts

variable {params : Params} {rest : List String} {request : Request}

theorem nativeTop_iff :
    readPart "top" [("subscribe", "top_subscribe")] .invalidSubcomponent params rest =
        .ok (request, []) ↔
      ∃ part : Option TopPart, rest = (part.map TopPart.name).toList ∧
        request = { method := part.elim "top" TopPart.method, params } := by
  apply readPart_iff
  · simp
  · apply listed_of_map [.subscribe]
    · intro part
      cases part
      simp
    · rfl

theorem mem_addressMethods (choice : String × String) :
    choice ∈ addressMethods ↔ ∃ part : AddressPart, choice = (part.name, part.method) := by
  apply listed_of_map [.confirmed, .unconfirmed, .balance, .subscribe]
  · intro part
    cases part <;> simp
  · rfl

theorem nativeAddress_iff :
    nativeAddress params rest = .ok (request, []) ↔
      ∃ (hash : HashToken) (part : Option AddressPart),
        rest = hash.text :: (part.map AddressPart.name).toList ∧
        request = { method := part.elim "address" AddressPart.method
                    params := params ++ [("hash", .hash hash.digest)] } := by
  simp only [nativeAddress, bind_eq_ok, Prod.exists, next_eq_ok, present_eq_ok, readHash_eq_ok,
    readPart_iff (by simp [addressMethods]) mem_addressMethods]
  constructor
  · rintro ⟨_, _, segment, left, rfl, _, ⟨hash, rfl, rfl⟩, part, rfl, rfl⟩
    exact ⟨hash, part, rfl, rfl⟩
  · rintro ⟨hash, part, rfl, rfl⟩
    exact ⟨(), by simp, _, _, rfl, _, ⟨hash, rfl, rfl⟩, part, rfl, rfl⟩

theorem nativePut_iff {every one : String} {choices : List (String × String)} {Part : Type}
    {name methodOf : Part → String} (distinct : (choices.map Prod.fst).Nodup)
    (listed : ∀ choice, choice ∈ choices ↔ ∃ part, choice = (name part, methodOf part)) :
    nativePut every one choices params rest = .ok (request, []) ↔
      (∃ hash : HashToken, rest = [hash.text] ∧
        request = { method := every, params := params ++ [("hash", .hash hash.digest)] }) ∨
      ∃ (hash : HashToken) (index : BitVec 32) (part : Option Part),
        rest = hash.text :: numeral index :: (part.map name).toList ∧
        request = { method := part.elim one methodOf
                    params := params ++ [("hash", .hash hash.digest), ("index", .u32 index)] } := by
  simp only [nativePut, bind_eq_ok, Prod.exists, next_eq_ok, present_eq_ok, readHash_eq_ok]
  constructor
  · rintro ⟨_, _, segment, left, rfl, _, ⟨hash, rfl, rfl⟩, read⟩
    split_ifs at read with none
    · simp only [pure_eq_ok, Prod.mk.injEq] at read
      exact .inl ⟨hash, by rw [none], read.1⟩
    · simp only [bind_eq_ok, Prod.exists, next_eq_ok, readNumber_eq_ok,
        readPart_iff distinct listed] at read
      obtain ⟨_, _, rfl, index, rfl, part, rfl, rfl⟩ := read
      exact .inr ⟨hash, index, part, rfl, by simp⟩
  · rintro (⟨hash, rfl, rfl⟩ | ⟨hash, index, part, rfl, rfl⟩)
    · exact ⟨(), by simp, _, _, rfl, _, ⟨hash, rfl, rfl⟩, by simp⟩
    · refine ⟨(), by simp, _, _, rfl, _, ⟨hash, rfl, rfl⟩, ?_⟩
      rw [if_neg (by simp)]
      simp only [bind_eq_ok, Prod.exists, next_eq_ok, readNumber_eq_ok,
        readPart_iff distinct listed]
      exact ⟨_, _, rfl, index, rfl, part, rfl, by simp⟩

theorem nodup_inputMethods : (inputMethods.map Prod.fst).Nodup := by simp [inputMethods]

theorem mem_inputMethods (choice : String × String) :
    choice ∈ inputMethods ↔ ∃ part : InputPart, choice = (part.name, part.method) := by
  apply listed_of_map [.script, .witness]
  · intro part
    cases part <;> simp
  · rfl

theorem nodup_outputMethods : (outputMethods.map Prod.fst).Nodup := by simp [outputMethods]

theorem mem_outputMethods (choice : String × String) :
    choice ∈ outputMethods ↔ ∃ part : OutputPart, choice = (part.name, part.method) := by
  apply listed_of_map [.script, .spender, .spenders, .subscribe]
  · intro part
    cases part <;> simp
  · rfl

theorem nodup_txMethods : (txMethods.map Prod.fst).Nodup := by simp [txMethods]

theorem mem_txMethods (choice : String × String) :
    choice ∈ txMethods ↔ ∃ part : TxPart, choice = (part.name, part.method) := by
  apply listed_of_map [.header, .details]
  · intro part
    cases part <;> simp
  · rfl

theorem nodup_filterMethods : (filterMethods.map Prod.fst).Nodup := by simp [filterMethods]

theorem mem_filterMethods (choice : String × String) :
    choice ∈ filterMethods ↔ ∃ part : FilterPart, choice = (part.name, part.method) := by
  apply listed_of_map [.hash, .header]
  · intro part
    cases part <;> simp
  · rfl

/-- A hash is not the text "subscribe". -/
theorem HashToken.ne_subscribe (hash : HashToken) : hash.text ≠ "subscribe" := by
  intro same
  have long := hash.isHash.1
  rw [same] at long
  exact absurd long (by decide)

theorem nativeTx_iff :
    nativeTx params rest = .ok (request, []) ↔
      rest = ["subscribe"] ∧ request = { method := "tx_subscribe", params } ∨
      ∃ (hash : HashToken) (part : Option TxPart),
        rest = hash.text :: (part.map TxPart.name).toList ∧
        request = { method := part.elim "tx" TxPart.method
                    params := params ++ [("hash", .hash hash.digest)] } := by
  simp only [nativeTx, bind_eq_ok, Prod.exists, next_eq_ok, present_eq_ok]
  constructor
  · rintro ⟨_, _, segment, left, rfl, read⟩
    split_ifs at read with subscribe
    · simp only [pure_eq_ok, Prod.mk.injEq] at read
      obtain ⟨rfl, rfl⟩ := read
      exact .inl ⟨by rw [subscribe], rfl⟩
    · simp only [bind_eq_ok, readHash_eq_ok,
        readPart_iff nodup_txMethods mem_txMethods] at read
      obtain ⟨_, ⟨hash, rfl, rfl⟩, part, rfl, rfl⟩ := read
      exact .inr ⟨hash, part, rfl, rfl⟩
  · rintro (⟨rfl, rfl⟩ | ⟨hash, part, rfl, rfl⟩)
    · exact ⟨(), by simp, _, _, rfl, by simp⟩
    · refine ⟨(), by simp, _, _, rfl, ?_⟩
      rw [if_neg hash.ne_subscribe]
      simp only [bind_eq_ok, readHash_eq_ok, readPart_iff nodup_txMethods mem_txMethods]
      exact ⟨_, ⟨hash, rfl, rfl⟩, part, rfl, rfl⟩

theorem nativeBlockId_iff {by_ : String} {left : List String} {read : Params} :
    nativeBlockId by_ params rest = .ok (read, left) ↔
      ∃ id : BlockId, by_ :: rest = id.segments ++ left ∧ read = params ++ id.params := by
  unfold nativeBlockId
  constructor
  · intro reading
    split_ifs at reading with hash height
    · simp only [bind_eq_ok, Prod.exists, next_eq_ok, present_eq_ok, readHash_eq_ok, pure_eq_ok,
        Prod.mk.injEq] at reading
      obtain ⟨_, _, _, _, rfl, _, ⟨token, rfl, rfl⟩, rfl, rfl⟩ := reading
      exact ⟨.hash token, by rw [hash]; rfl, rfl⟩
    · simp only [bind_eq_ok, Prod.exists, next_eq_ok, present_eq_ok, readNumber_eq_ok, pure_eq_ok,
        Prod.mk.injEq] at reading
      obtain ⟨_, _, _, _, rfl, value, rfl, rfl, rfl⟩ := reading
      exact ⟨.height value, by rw [height]; rfl, rfl⟩
    · exact absurd reading fail_ne_ok
  · rintro ⟨id, spelled, rfl⟩
    cases id with
    | hash token =>
        obtain ⟨rfl, rfl⟩ := List.cons.inj spelled
        simp only [if_true, bind_eq_ok, Prod.exists, next_eq_ok, present_eq_ok, readHash_eq_ok,
          pure_eq_ok, Prod.mk.injEq]
        exact ⟨(), by simp, _, _, rfl, _, ⟨token, rfl, rfl⟩, rfl, rfl⟩
    | height value =>
        obtain ⟨rfl, rfl⟩ := List.cons.inj spelled
        rw [if_neg (by decide), if_pos rfl]
        simp only [bind_eq_ok, Prod.exists, next_eq_ok, present_eq_ok, readNumber_eq_ok,
          pure_eq_ok, Prod.mk.injEq]
        exact ⟨(), by simp, _, _, rfl, value, rfl, rfl, rfl⟩

theorem nativeHeader_iff :
    readPart "block_header" [("context", "block_header_context")] .invalidSubcomponent params
        rest = .ok (request, []) ↔
      ∃ part : Option HeaderPart, rest = (part.map HeaderPart.name).toList ∧
        request = { method := part.elim "block_header" HeaderPart.method, params } := by
  apply readPart_iff
  · simp
  · apply listed_of_map [.context]
    · intro part
      cases part
      simp
    · rfl

theorem nativeBlockComponent_iff {component : String} :
    nativeBlockComponent component params rest = .ok (request, []) ↔
      ∃ part : BlockPart, component :: rest = part.segments ∧
        request = { method := part.method, params := params ++ part.params } := by
  unfold nativeBlockComponent
  constructor
  · intro reading
    split_ifs at reading with tx header txs details filter
    · simp only [bind_eq_ok, Prod.exists, next_eq_ok, present_eq_ok, readNumber_eq_ok, pure_eq_ok,
        Prod.mk.injEq] at reading
      obtain ⟨_, _, _, _, rfl, position, rfl, rfl, rfl⟩ := reading
      exact ⟨.tx position, by rw [tx]; rfl, rfl⟩
    · obtain ⟨part, rfl, rfl⟩ := nativeHeader_iff.mp reading
      exact ⟨.header part, by rw [header]; rfl, by simp [BlockPart.method, BlockPart.params]⟩
    · simp only [pure_eq_ok, Prod.mk.injEq] at reading
      obtain ⟨rfl, rfl⟩ := reading
      exact ⟨.txs, by rw [txs]; rfl, by simp [BlockPart.method, BlockPart.params]⟩
    · simp only [pure_eq_ok, Prod.mk.injEq] at reading
      obtain ⟨rfl, rfl⟩ := reading
      exact ⟨.details, by rw [details]; rfl, by simp [BlockPart.method, BlockPart.params]⟩
    · simp only [bind_eq_ok, Prod.exists, next_eq_ok, present_eq_ok, readNumber_eq_ok,
        readPart_iff nodup_filterMethods mem_filterMethods] at reading
      obtain ⟨_, _, _, _, rfl, type, rfl, part, rfl, rfl⟩ := reading
      exact ⟨.filter type part, by rw [filter]; rfl, rfl⟩
    · exact absurd reading fail_ne_ok
  · rintro ⟨part, spelled, rfl⟩
    cases part with
    | tx position =>
        obtain ⟨rfl, rfl⟩ := List.cons.inj spelled
        simp only [if_true, bind_eq_ok, Prod.exists, next_eq_ok, present_eq_ok, readNumber_eq_ok,
          pure_eq_ok, Prod.mk.injEq]
        exact ⟨(), by simp, _, _, rfl, position, rfl, rfl, rfl⟩
    | header part =>
        obtain ⟨rfl, rfl⟩ := List.cons.inj spelled
        rw [if_neg (by decide), if_pos rfl, nativeHeader_iff]
        exact ⟨part, rfl, by simp [BlockPart.method, BlockPart.params]⟩
    | txs =>
        obtain ⟨rfl, rfl⟩ := List.cons.inj spelled
        simp [BlockPart.method, BlockPart.params]
    | details =>
        obtain ⟨rfl, rfl⟩ := List.cons.inj spelled
        simp [BlockPart.method, BlockPart.params]
    | filter type part =>
        obtain ⟨rfl, rfl⟩ := List.cons.inj spelled
        rw [if_neg (by decide), if_neg (by decide), if_neg (by decide), if_neg (by decide),
          if_pos rfl]
        simp only [bind_eq_ok, Prod.exists, next_eq_ok, present_eq_ok, readNumber_eq_ok,
          readPart_iff nodup_filterMethods mem_filterMethods]
        exact ⟨(), by simp, _, _, rfl, type, rfl, part, rfl, rfl⟩

/-- The identifier types of a block are not the text "subscribe". -/
theorem BlockId.head_ne_subscribe {id : BlockId} {by_ : String} {rest left : List String}
    (spelled : by_ :: rest = id.segments ++ left) : by_ ≠ "subscribe" := by
  cases id with
  | hash token =>
      obtain ⟨rfl, -⟩ := List.cons.inj spelled
      decide
  | height value =>
      obtain ⟨rfl, -⟩ := List.cons.inj spelled
      decide

theorem nativeBlock_iff :
    nativeBlock params rest = .ok (request, []) ↔
      rest = ["subscribe"] ∧ request = { method := "block_subscribe", params } ∨
      ∃ (id : BlockId) (part : Option BlockPart),
        rest = id.segments ++ part.elim [] BlockPart.segments ∧
        request = { method := part.elim "block" BlockPart.method
                    params := params ++ (id.params ++ part.elim [] BlockPart.params) } := by
  simp only [nativeBlock, bind_eq_ok, Prod.exists, next_eq_ok, present_eq_ok]
  constructor
  · rintro ⟨_, _, by_, left, rfl, read⟩
    split_ifs at read with subscribe
    · simp only [pure_eq_ok, Prod.mk.injEq] at read
      obtain ⟨rfl, rfl⟩ := read
      exact .inl ⟨by rw [subscribe], rfl⟩
    · simp only [bind_eq_ok, Prod.exists, nativeBlockId_iff] at read
      obtain ⟨_, _, ⟨id, spelled, rfl⟩, read⟩ := read
      split_ifs at read with none
      · simp only [pure_eq_ok, Prod.mk.injEq] at read
        exact .inr ⟨id, .none, by rw [spelled, none]; rfl, by simp [read.1]⟩
      · simp only [bind_eq_ok, Prod.exists, next_eq_ok, nativeBlockComponent_iff] at read
        obtain ⟨_, _, rfl, part, here, rfl⟩ := read
        exact .inr ⟨id, some part, by rw [spelled, here]; rfl, by simp⟩
  · rintro (⟨rfl, rfl⟩ | ⟨id, part, rfl, rfl⟩)
    · exact ⟨(), by simp, _, _, rfl, by simp⟩
    · obtain ⟨by_, left, spelled⟩ : ∃ by_ left,
          id.segments ++ part.elim [] BlockPart.segments = by_ :: left := by
        cases id <;> exact ⟨_, _, rfl⟩
      refine ⟨(), by simp [spelled], by_, left, spelled, ?_⟩
      rw [if_neg (BlockId.head_ne_subscribe spelled.symm)]
      simp only [bind_eq_ok, Prod.exists, nativeBlockId_iff]
      refine ⟨_, _, ⟨id, spelled.symm, rfl⟩, ?_⟩
      cases part with
      | none => simp
      | some part =>
          obtain ⟨component, others, here⟩ : ∃ component others,
              part.segments = component :: others := by
            cases part <;> exact ⟨_, _, rfl⟩
          rw [Option.elim_some, if_neg (by simp [here])]
          simp only [bind_eq_ok, Prod.exists, next_eq_ok, nativeBlockComponent_iff]
          exact ⟨component, others, here, part, here.symm, by simp⟩

theorem nativeComponent_iff {target : String} :
    nativeComponent target params rest = .ok (request, []) ↔
      ∃ form : NativeForm, target :: rest = form.segments ∧
        request = { method := form.method, params := params ++ form.params } := by
  unfold nativeComponent
  constructor
  · intro reading
    split_ifs at reading with configuration top address input output tx block
    · simp only [pure_eq_ok, Prod.mk.injEq] at reading
      obtain ⟨rfl, rfl⟩ := reading
      exact ⟨.configuration, by rw [configuration]; rfl,
        by simp [NativeForm.method, NativeForm.params]⟩
    · obtain ⟨part, rfl, rfl⟩ := nativeTop_iff.mp reading
      exact ⟨.top part, by rw [top]; rfl, by simp [NativeForm.method, NativeForm.params]⟩
    · obtain ⟨hash, part, rfl, rfl⟩ := nativeAddress_iff.mp reading
      exact ⟨.address hash part, by rw [address]; rfl, rfl⟩
    · rcases (nativePut_iff nodup_inputMethods mem_inputMethods).mp reading with
        ⟨hash, rfl, rfl⟩ | ⟨hash, index, part, rfl, rfl⟩
      · exact ⟨.inputs hash, by rw [input]; rfl, rfl⟩
      · exact ⟨.input hash index part, by rw [input]; rfl, rfl⟩
    · rcases (nativePut_iff nodup_outputMethods mem_outputMethods).mp reading with
        ⟨hash, rfl, rfl⟩ | ⟨hash, index, part, rfl, rfl⟩
      · exact ⟨.outputs hash, by rw [output]; rfl, rfl⟩
      · exact ⟨.output hash index part, by rw [output]; rfl, rfl⟩
    · rcases nativeTx_iff.mp reading with ⟨rfl, rfl⟩ | ⟨hash, part, rfl, rfl⟩
      · exact ⟨.txSubscribe, by rw [tx]; rfl, by simp [NativeForm.method, NativeForm.params]⟩
      · exact ⟨.tx hash part, by rw [tx]; rfl, rfl⟩
    · rcases nativeBlock_iff.mp reading with ⟨rfl, rfl⟩ | ⟨id, part, rfl, rfl⟩
      · exact ⟨.blockSubscribe, by rw [block]; rfl, by simp [NativeForm.method, NativeForm.params]⟩
      · exact ⟨.block id part, by rw [block]; rfl, rfl⟩
    · exact absurd reading fail_ne_ok
  · rintro ⟨form, spelled, rfl⟩
    cases form with
    | configuration =>
        obtain ⟨rfl, rfl⟩ := List.cons.inj spelled
        simp [NativeForm.method, NativeForm.params]
    | top part =>
        obtain ⟨rfl, rfl⟩ := List.cons.inj spelled
        rw [if_neg (by decide), if_pos rfl, nativeTop_iff]
        exact ⟨part, rfl, by simp [NativeForm.method, NativeForm.params]⟩
    | address hash part =>
        obtain ⟨rfl, rfl⟩ := List.cons.inj spelled
        simp only [reduceIte, String.reduceEq, nativeAddress_iff]
        exact ⟨hash, part, rfl, rfl⟩
    | inputs hash =>
        obtain ⟨rfl, rfl⟩ := List.cons.inj spelled
        simp only [reduceIte, String.reduceEq,
          nativePut_iff nodup_inputMethods mem_inputMethods]
        exact .inl ⟨hash, rfl, rfl⟩
    | input hash index part =>
        obtain ⟨rfl, rfl⟩ := List.cons.inj spelled
        simp only [reduceIte, String.reduceEq,
          nativePut_iff nodup_inputMethods mem_inputMethods]
        exact .inr ⟨hash, index, part, rfl, rfl⟩
    | outputs hash =>
        obtain ⟨rfl, rfl⟩ := List.cons.inj spelled
        simp only [reduceIte, String.reduceEq,
          nativePut_iff nodup_outputMethods mem_outputMethods]
        exact .inl ⟨hash, rfl, rfl⟩
    | output hash index part =>
        obtain ⟨rfl, rfl⟩ := List.cons.inj spelled
        simp only [reduceIte, String.reduceEq,
          nativePut_iff nodup_outputMethods mem_outputMethods]
        exact .inr ⟨hash, index, part, rfl, rfl⟩
    | txSubscribe =>
        obtain ⟨rfl, rfl⟩ := List.cons.inj spelled
        simp only [reduceIte, String.reduceEq]
        exact nativeTx_iff.mpr (.inl ⟨rfl, by simp [NativeForm.method, NativeForm.params]⟩)
    | tx hash part =>
        obtain ⟨rfl, rfl⟩ := List.cons.inj spelled
        simp only [reduceIte, String.reduceEq, nativeTx_iff]
        exact .inr ⟨hash, part, rfl, rfl⟩
    | blockSubscribe =>
        obtain ⟨rfl, rfl⟩ := List.cons.inj spelled
        simp only [reduceIte, String.reduceEq]
        exact nativeBlock_iff.mpr (.inl ⟨rfl, by simp [NativeForm.method, NativeForm.params]⟩)
    | block id part =>
        obtain ⟨rfl, rfl⟩ := List.cons.inj spelled
        simp only [reduceIte, String.reduceEq, nativeBlock_iff]
        exact .inr ⟨id, part, rfl, rfl⟩

end Accepts

/-! ## The way back

A method names the words of its form and where the parameters stand among them.
-/

/-- A word, or the name or the value of a parameter. -/
inductive Piece where
  | word (text : String)
  | name (position : Nat)
  | value (position : Nat)

/-- The pieces of the form of each method. -/
def templates : List (String × List Piece) :=
  [("configuration", [.word "configuration"]),
    ("top", [.word "top"]),
    ("top_subscribe", [.word "top", .word "subscribe"]),
    ("address", [.word "address", .value 0]),
    ("address_confirmed", [.word "address", .value 0, .word "confirmed"]),
    ("address_unconfirmed", [.word "address", .value 0, .word "unconfirmed"]),
    ("address_balance", [.word "address", .value 0, .word "balance"]),
    ("address_subscribe", [.word "address", .value 0, .word "subscribe"]),
    ("inputs", [.word "input", .value 0]),
    ("input", [.word "input", .value 0, .value 1]),
    ("input_script", [.word "input", .value 0, .value 1, .word "script"]),
    ("input_witness", [.word "input", .value 0, .value 1, .word "witness"]),
    ("outputs", [.word "output", .value 0]),
    ("output", [.word "output", .value 0, .value 1]),
    ("output_script", [.word "output", .value 0, .value 1, .word "script"]),
    ("output_spender", [.word "output", .value 0, .value 1, .word "spender"]),
    ("output_spenders", [.word "output", .value 0, .value 1, .word "spenders"]),
    ("output_subscribe", [.word "output", .value 0, .value 1, .word "subscribe"]),
    ("tx_subscribe", [.word "tx", .word "subscribe"]),
    ("tx", [.word "tx", .value 0]),
    ("tx_header", [.word "tx", .value 0, .word "header"]),
    ("tx_details", [.word "tx", .value 0, .word "details"]),
    ("block_subscribe", [.word "block", .word "subscribe"]),
    ("block", [.word "block", .name 0, .value 0]),
    ("block_tx", [.word "block", .name 0, .value 0, .word "tx", .value 1]),
    ("block_header", [.word "block", .name 0, .value 0, .word "header"]),
    ("block_header_context",
      [.word "block", .name 0, .value 0, .word "header", .word "context"]),
    ("block_txs", [.word "block", .name 0, .value 0, .word "txs"]),
    ("block_details", [.word "block", .name 0, .value 0, .word "details"]),
    ("block_filter", [.word "block", .name 0, .value 0, .word "filter", .value 1]),
    ("block_filter_hash",
      [.word "block", .name 0, .value 0, .word "filter", .value 1, .word "hash"]),
    ("block_filter_header",
      [.word "block", .name 0, .value 0, .word "filter", .value 1, .word "header"])]

/-- The segment is a text of the value. -/
def Value.Spells : Value → String → Prop
  | .u8 value, segment => segment = numeral value
  | .u32 value, segment => segment = numeral value
  | .hash digest, segment => decodeHash segment = some digest
  | _, _ => False

def Piece.Spells (params : Params) : Piece → String → Prop
  | .word text, segment => segment = text
  | .name position, segment => ∃ param, params[position]? = some param ∧ segment = param.1
  | .value position, segment => ∃ param, params[position]? = some param ∧ param.2.Spells segment

/-- The same segment, or the same hash in another letter case. -/
def SameSegment (first second : String) : Prop :=
  first = second ∨ IsHash first ∧ IsHash second ∧
    first.toList.map Char.toLower = second.toList.map Char.toLower

theorem Value.Spells.same {value : Value} {first second : String} (one : value.Spells first)
    (two : value.Spells second) : SameSegment first second := by
  cases value with
  | u8 value => exact .inl (one.trans two.symm)
  | u32 value => exact .inl (one.trans two.symm)
  | hash digest =>
      have hashes : ∀ text, decodeHash text = some digest → IsHash text := by
        intro text decoded
        rw [← decodeHash_isSome, decoded]
        rfl
      exact .inr ⟨hashes first one, hashes second two, toLower_of_decodeHash one two⟩
  | text | flag | media | outpoints => exact one.elim

theorem Piece.Spells.same {params : Params} {piece : Piece} {first second : String}
    (one : piece.Spells params first) (two : piece.Spells params second) :
    SameSegment first second := by
  cases piece with
  | word text => exact .inl (one.trans two.symm)
  | name position =>
      obtain ⟨param, here, rfl⟩ := one
      obtain ⟨also, there, rfl⟩ := two
      rw [here] at there
      exact .inl (congrArg Prod.fst (Option.some.inj there))
  | value position =>
      obtain ⟨param, here, spelled⟩ := one
      obtain ⟨also, there, spells⟩ := two
      rw [here] at there
      obtain rfl := Option.some.inj there
      exact spelled.same spells

/-- What fills the same pieces is the same. -/
theorem fills_same {params : Params} {pieces : List Piece} {first second : List String}
    (one : List.Forall₂ (Piece.Spells params) pieces first)
    (two : List.Forall₂ (Piece.Spells params) pieces second) :
    List.Forall₂ SameSegment first second := by
  induction one generalizing second with
  | nil =>
      cases two
      exact .nil
  | cons spelled _ ih =>
      cases two with
      | cons spells others => exact .cons (spelled.same spells) (ih others)

/-- The segments of a form fill the template of its method with its parameters. -/
theorem NativeForm.fills (form : NativeForm) :
    ∃ pieces, templates.lookup form.method = some pieces ∧
      List.Forall₂ (Piece.Spells form.params) pieces form.segments := by
  cases form with
  | configuration => exact ⟨_, rfl, by simp [segments, Piece.Spells]⟩
  | top part =>
      rcases part with _ | ⟨_ | _⟩ <;>
        exact ⟨_, rfl, by simp [segments, Piece.Spells, TopPart.name]⟩
  | address hash part =>
      rcases part with _ | ⟨_ | _⟩ <;>
        exact ⟨_, rfl, by simp [segments, params, Piece.Spells, Value.Spells, AddressPart.name]⟩
  | inputs hash => exact ⟨_, rfl, by simp [segments, params, Piece.Spells, Value.Spells]⟩
  | input hash index part =>
      rcases part with _ | ⟨_ | _⟩ <;>
        exact ⟨_, rfl, by simp [segments, params, Piece.Spells, Value.Spells, InputPart.name]⟩
  | outputs hash => exact ⟨_, rfl, by simp [segments, params, Piece.Spells, Value.Spells]⟩
  | output hash index part =>
      rcases part with _ | ⟨_ | _⟩ <;>
        exact ⟨_, rfl, by simp [segments, params, Piece.Spells, Value.Spells, OutputPart.name]⟩
  | txSubscribe => exact ⟨_, rfl, by simp [segments, Piece.Spells]⟩
  | tx hash part =>
      rcases part with _ | ⟨_ | _⟩ <;>
        exact ⟨_, rfl, by simp [segments, params, Piece.Spells, Value.Spells, TxPart.name]⟩
  | blockSubscribe => exact ⟨_, rfl, by simp [segments, Piece.Spells]⟩
  | block id part =>
      cases id <;> rcases part with _ | ⟨_ | ⟨_ | ⟨_ | _⟩⟩ | _ | _ | ⟨_, _ | ⟨_ | _⟩⟩⟩ <;>
        exact ⟨_, rfl, by simp [segments, params, Piece.Spells, Value.Spells, BlockId.segments,
          BlockId.params, BlockPart.segments, BlockPart.params, HeaderPart.name, FilterPart.name]⟩

/-- Forms of one request have the same segments up to the letter case of a hash. -/
theorem NativeForm.spelled_same {version other : BitVec 8} {first second : NativeForm}
    (same : first.request version = second.request other) :
    List.Forall₂ SameSegment (first.spelled version) (second.spelled other) := by
  have methods : first.method = second.method := congrArg Request.method same
  obtain ⟨versions, params⟩ := List.cons.inj (congrArg Request.params same)
  obtain rfl : version = other := by simpa using versions
  obtain ⟨pieces, here, one⟩ := first.fills
  obtain ⟨also, there, two⟩ := second.fills
  rw [← methods, here] at there
  obtain rfl := Option.some.inj there
  rw [← params] at two
  refine .cons (.inl rfl) ?_
  exact fills_same one two

/-! ## The cursor stays inside -/

section Inside

variable (params : Params) (rest : List String)

theorem inside_nativeAddress : Inside (nativeAddress params rest) := by
  unfold nativeAddress
  apply Inside.present_next
  intro segment left _
  apply (inside_readHash segment).bind
  intro hash _
  exact inside_readPart _ _ _ _ left

theorem inside_nativePut (every one : String) (choices : List (String × String)) :
    Inside (nativePut every one choices params rest) := by
  unfold nativePut
  apply Inside.present_next
  intro segment left _
  apply (inside_readHash segment).bind
  intro hash _
  dsimp only
  split_ifs with none
  · exact inside_pure _
  · apply (inside_next none).bind
    intro read _
    apply (inside_readNumber 32 read.1).bind
    intro index _
    exact inside_readPart _ _ _ _ read.2

theorem inside_nativeTx : Inside (nativeTx params rest) := by
  unfold nativeTx
  apply Inside.present_next
  intro segment left _
  dsimp only
  split_ifs
  · exact inside_pure _
  · apply (inside_readHash segment).bind
    intro hash _
    exact inside_readPart _ _ _ _ left

theorem inside_nativeBlockId (by_ : String) : Inside (nativeBlockId by_ params rest) := by
  unfold nativeBlockId
  split_ifs
  · apply Inside.present_next
    intro segment left _
    exact (inside_readHash segment).then_pure _
  · apply Inside.present_next
    intro segment left _
    exact (inside_readNumber 32 segment).then_pure _
  · exact inside_fail _

theorem inside_nativeBlockComponent (component : String) :
    Inside (nativeBlockComponent component params rest) := by
  unfold nativeBlockComponent
  split_ifs
  · apply Inside.present_next
    intro segment left _
    exact (inside_readNumber 32 segment).then_pure _
  · exact inside_readPart _ _ _ _ rest
  · exact inside_pure _
  · exact inside_pure _
  · apply Inside.present_next
    intro segment left _
    apply (inside_readNumber 8 segment).bind
    intro type _
    exact inside_readPart _ _ _ _ left
  · exact inside_fail _

theorem inside_nativeBlock : Inside (nativeBlock params rest) := by
  unfold nativeBlock
  apply Inside.present_next
  intro by_ left _
  dsimp only
  split_ifs
  · exact inside_pure _
  · apply (inside_nativeBlockId params left by_).bind
    rintro ⟨params, left⟩ _
    dsimp only
    split_ifs with none
    · exact inside_pure _
    · apply (inside_next none).bind
      intro read _
      exact inside_nativeBlockComponent params read.2 read.1

theorem inside_nativeComponent (target : String) : Inside (nativeComponent target params rest) := by
  unfold nativeComponent
  split_ifs
  · exact inside_pure _
  · exact inside_readPart _ _ _ _ rest
  · exact inside_nativeAddress params rest
  · exact inside_nativePut params rest _ _ _
  · exact inside_nativePut params rest _ _ _
  · exact inside_nativeTx params rest
  · exact inside_nativeBlock params rest
  · exact inside_fail _

theorem inside_nativeTarget (path : String) : Inside (nativeTarget path) := by
  unfold nativeTarget
  split_ifs
  · exact inside_fail _
  · apply (inside_next (Text.split_ne_nil _ _ _)).bind
    rintro ⟨segment, rest⟩ _
    dsimp only
    split_ifs
    · exact inside_fail _
    · apply (inside_readNumber 8 _).bind
      intro version _
      apply Inside.present_next
      intro target left _
      apply (inside_nativeComponent _ left target).bind
      intro reading _
      exact inside_finish reading

end Inside

/-! ## The target -/

/-- The segment of a version. -/
theorem version_iff {segment : String} {version : BitVec 8} :
    segment.toList.head? = some 'v' ∧ String.ofList segment.toList.tail = numeral version ↔
      segment = "v" ++ numeral version := by
  constructor
  · rintro ⟨first, rest⟩
    apply String.toList_injective
    have one : "v".toList = ['v'] := rfl
    rw [String.toList_append, ← rest, one, String.toList_ofList, List.singleton_append,
      List.cons_head?_tail first]
  · rintro rfl
    simp

theorem nativeTarget_eq_ok {path : String} {request : Request} :
    nativeTarget path = .ok request ↔ ∃ (version : BitVec 8) (form : NativeForm),
      segments path = form.spelled version ∧ request = form.request version := by
  have spelled : ∀ {segment target : String} {rest : List String},
      split path = segment :: target :: rest ↔ segments path = segment :: target :: rest := by
    intro segment target rest
    rw [split_eq]
    split_ifs with none <;> simp [none]
  unfold nativeTarget
  constructor
  · intro reading
    split_ifs at reading with empty
    · exact absurd reading fail_ne_ok
    · simp only [bind_eq_ok, Prod.exists, next_eq_ok] at reading
      obtain ⟨segment, rest, here, reading⟩ := reading
      split_ifs at reading with first
      · exact absurd reading fail_ne_ok
      · simp only [bind_eq_ok, Prod.exists, next_eq_ok, present_eq_ok, readNumber_eq_ok,
          finish_eq_ok] at reading
        obtain ⟨version, number, _, _, target, left, rfl, _, _, reading, same⟩ := reading
        obtain ⟨rfl, rfl⟩ := Prod.mk.inj same
        obtain ⟨form, named, rfl⟩ := nativeComponent_iff.mp reading
        have versioned := version_iff.mp ⟨not_not.mp first, number⟩
        exact ⟨version, form, by rw [spelled.mp here, versioned, named]; rfl, rfl⟩
  · rintro ⟨version, form, here, rfl⟩
    obtain ⟨target, rest, named⟩ : ∃ target rest, form.segments = target :: rest := by
      cases form <;> exact ⟨_, _, rfl⟩
    have present : cleaned path ≠ "" := by
      intro empty
      rw [segments_of_empty empty] at here
      cases here
    obtain ⟨first, number⟩ := version_iff.mpr (rfl : "v" ++ numeral version = _)
    rw [NativeForm.spelled, named] at here
    rw [if_neg present]
    simp only [bind_eq_ok, Prod.exists, next_eq_ok]
    refine ⟨_, _, spelled.mpr here, ?_⟩
    rw [if_neg (not_not.mpr first)]
    simp only [bind_eq_ok, Prod.exists, next_eq_ok, present_eq_ok, readNumber_eq_ok, finish_eq_ok]
    refine ⟨version, number, (), by simp, target, rest, rfl, _, _, ?_, rfl⟩
    exact nativeComponent_iff.mpr ⟨form, named.symm, rfl⟩

/-- The native target accepts the grammar and nothing else, a request comes from one list
    of segments up to the letter case of hashes, and no segment is read past the end. -/
theorem nativeTarget_grammar :
    (∀ path request, nativeTarget path = .ok request ↔
      ∃ (version : BitVec 8) (form : NativeForm),
        segments path = form.spelled version ∧ request = form.request version) ∧
    (∀ path other request, nativeTarget path = .ok request → nativeTarget other = .ok request →
      List.Forall₂ SameSegment (segments path) (segments other)) ∧
    ∀ path, nativeTarget path ≠ .error .outOfRange := by
  refine ⟨fun path request => nativeTarget_eq_ok, ?_, inside_nativeTarget⟩
  intro path other request one two
  obtain ⟨version, form, here, rfl⟩ := nativeTarget_eq_ok.mp one
  obtain ⟨also, second, there, same⟩ := nativeTarget_eq_ok.mp two
  rw [here, there]
  exact NativeForm.spelled_same same

/-- Two paths of one request. -/
theorem nativeTarget_grammar_top :
    nativeTarget "/v1/top/subscribe?x" = .ok (NativeForm.request 1 (.top (some .subscribe))) ∧
    nativeTarget "v1//top/subscribe" = .ok (NativeForm.request 1 (.top (some .subscribe))) ∧
    List.Forall₂ SameSegment (segments "/v1/top/subscribe?x") (segments "v1//top/subscribe") := by
  have one : nativeTarget "/v1/top/subscribe?x" =
      .ok (NativeForm.request 1 (.top (some .subscribe))) := by decide
  have two : nativeTarget "v1//top/subscribe" =
      .ok (NativeForm.request 1 (.top (some .subscribe))) := by decide
  exact ⟨one, two, nativeTarget_grammar.2.1 _ _ _ one two⟩

end LibbitcoinServer.Parsers

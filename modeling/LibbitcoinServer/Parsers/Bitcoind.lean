import LibbitcoinServer.Parsers.Target

/-! # The bitcoind target

The grammar of the bitcoind interface: the segments of a form end in a leaf, a name and
an extension.  The parser returns as soon as it has read a form, but for those that it
reads to the end, and it drops the empty parts of a leaf.  It accepts the grammar
wherever a path has neither.
-/

namespace LibbitcoinServer.Parsers

/-! ## The parser -/

def toMedia (extension : String) : Option Media :=
  [("bin", Media.data), ("hex", .text), ("json", .json)].lookup extension

/-- `split_leaf`: a name and the media of an extension. -/
def splitLeaf (leaf : String) : Option (String × Media) :=
  match Text.split leaf '.' true with
  | [name, extension] => (toMedia extension).map fun media => (name, media)
  | _ => none

def readLeaf (segment : String) : Except Fault (String × Media) :=
  match splitLeaf segment with
  | some leaf => .ok leaf
  | none => fail .invalidTarget

def readHashLeaf (segment : String) : Except Fault (HashDigest × Media) := do
  let (name, media) ← readLeaf segment
  let hash ← readHash name
  return (hash, media)

/-- An endpoint of a leaf that is a hash. -/
def restPage (method : String) (others : Params) (rest : List String) : Reading := do
  present .missingHash rest
  let (segment, rest) ← next rest
  let (hash, media) ← readHashLeaf segment
  return ({ method, params := [("media", .media media), ("hash", .hash hash)] ++ others }, rest)

def restBlock (rest : List String) : Reading := do
  present .missingHash rest
  let (segment, left) ← next rest
  if segment = "notxdetails" then restPage "block_txs" [] left
  else restPage "block" [] rest

def restDeployment (target : String) (rest : List String) : Reading :=
  if target = "deploymentinfo" ∧ rest ≠ [] then do
    let (segment, rest) ← next rest
    let (name, media) ← readLeaf segment
    if media ≠ .json then fail .invalidTarget
    else
      let hash ← readHash name
      return ({ method := "deployment_info", params := [("hash", .hash hash)] }, rest)
  else return ({ method := "deployment_info" }, rest)

def restBlockHash (rest : List String) : Reading := do
  present .missingTarget rest
  let (segment, rest) ← next rest
  let (name, media) ← readLeaf segment
  let height ← readNumber 32 name
  return ({ method := "block_hash", params := [("media", .media media), ("height", .u32 height)] },
    rest)

/-- The count of headers, where a leaf follows it. -/
def readCount (rest : List String) : Except Fault (BitVec 32 × List String) :=
  if 1 < rest.length then do
    let (segment, rest) ← next rest
    let count ← readNumber 32 segment
    return (count, rest)
  else return (5, rest)

/-- The endpoints of several headers. -/
def restHeaders (missing : Code) (method : String) (others : Params) (rest : List String) :
    Reading := do
  present missing rest
  let (count, rest) ← readCount rest
  let (segment, rest) ← next rest
  let (hash, media) ← readHashLeaf segment
  return ({ method
            params := [("media", .media media), ("hash", .hash hash)] ++ others ++
              [("count", .u32 count)] }, rest)

/-- The type of a filter, which is always "basic". -/
def restFilterType (rest : List String) : Except Fault (List String) := do
  present .missingTarget rest
  let (type, rest) ← next rest
  if type ≠ "basic" then fail .invalidTarget
  else return rest

def readOutpoint (token : String) : Except Fault (HashDigest × BitVec 32) :=
  match Text.split token '-' false with
  | [front, back] => do
      let hash ← readHash front
      let index ← readNumber 32 back
      return (hash, index)
  | _ => fail .invalidHash

/-- The outpoints to the end of the segments, with the media of the last. -/
def readOutpoints : String → List String →
    Except Fault (List (HashDigest × BitVec 32) × Media)
  | last, [] => do
      let (token, media) ← readLeaf last
      let point ← readOutpoint token
      return ([point], media)
  | segment, following :: rest => do
      let point ← readOutpoint segment
      let (points, media) ← readOutpoints following rest
      return (point :: points, media)

def restUtxos (rest : List String) : Reading := do
  present .missingTarget rest
  let (first, left) ← next rest
  let mempool := first = "checkmempool"
  let rest := if mempool then left else rest
  present .missingTarget rest
  let (segment, rest) ← next rest
  let (points, media) ← readOutpoints segment rest
  return ({ method := "get_utxos"
            params := (if mempool then [("mempool", .flag true)] else []) ++
              [("media", .media media), ("outpoints", .outpoints points)] }, [])

def restMempool (rest : List String) : Reading := do
  present .missingTarget rest
  let (segment, rest) ← next rest
  let (name, media) ← readLeaf segment
  if media ≠ .json then fail .invalidTarget
  else if name = "info" then return ({ method := "mempool_information" }, rest)
  else if name ≠ "contents" then fail .invalidTarget
  else return ({ method := "mempool" }, rest)

/-- The request of a target, with the segments that it did not read. -/
def restComponent (target : String) (rest : List String) : Reading :=
  if target = "chaininfo" ∨ target = "chaininfo.json" then
    return ({ method := "chain_information" }, rest)
  else if target = "block" then restBlock rest
  else if target = "deploymentinfo" ∨ target = "deploymentinfo.json" then
    restDeployment target rest
  else if target = "tx" then restPage "tx" [] rest
  else if target = "blockhashbyheight" then restBlockHash rest
  else if target = "headers" then restHeaders .missingTarget "block_headers" [] rest
  else if target = "blockfilter" then do
    let rest ← restFilterType rest
    restPage "block_filter" [("type", .u8 0)] rest
  else if target = "blockfilterheaders" then do
    let rest ← restFilterType rest
    restHeaders .missingHash "block_filter_headers" [("type", .u8 0)] rest
  else if target = "getutxos" then restUtxos rest
  else if target = "mempool" then restMempool rest
  else if target = "spenttxouts" then restPage "block_spent_tx_outputs" [] rest
  else if target = "blockpart" then restPage "block_part" [] rest
  else fail .invalidTarget

def bitcoindTarget (path : String) : Except Fault Request := do
  if cleaned path = "" then fail .emptyPath
  else
    let (first, left) ← next (split path)
    let rest := if first = "rest" then left else split path
    present .invalidTarget rest
    let (target, rest) ← next rest
    let (request, _) ← restComponent target rest
    return request

/-! ## The grammar -/

inductive Extension where
  | bin
  | hex
  | json
  deriving DecidableEq

namespace Extension

def name : Extension → String
  | .bin => "bin"
  | .hex => "hex"
  | .json => "json"

def media : Extension → Media
  | .bin => .data
  | .hex => .text
  | .json => .json

end Extension

/-- An endpoint of one hash. -/
inductive RestPage where
  | block
  | notxdetails
  | tx
  | filter
  | spent
  | part

namespace RestPage

def front : RestPage → List String
  | .block => ["block"]
  | .notxdetails => ["block", "notxdetails"]
  | .tx => ["tx"]
  | .filter => ["blockfilter", "basic"]
  | .spent => ["spenttxouts"]
  | .part => ["blockpart"]

def method : RestPage → String
  | .block => "block"
  | .notxdetails => "block_txs"
  | .tx => "tx"
  | .filter => "block_filter"
  | .spent => "block_spent_tx_outputs"
  | .part => "block_part"

def others : RestPage → Params
  | .filter => [("type", .u8 0)]
  | _ => []

end RestPage

/-- An endpoint of several headers. -/
inductive RestRange where
  | headers
  | filterHeaders

namespace RestRange

def front : RestRange → List String
  | .headers => ["headers"]
  | .filterHeaders => ["blockfilterheaders", "basic"]

def method : RestRange → String
  | .headers => "block_headers"
  | .filterHeaders => "block_filter_headers"

def others : RestRange → Params
  | .headers => []
  | .filterHeaders => [("type", .u8 0)]

end RestRange

structure RestPoint where
  hash : HashToken
  index : BitVec 32

namespace RestPoint

def text (point : RestPoint) : String := Text.joined point.hash.text '-' (numeral point.index)

def value (point : RestPoint) : HashDigest × BitVec 32 := (point.hash.digest, point.index)

end RestPoint

inductive RestForm where
  | chaininfo (suffixed : Bool)
  | deployment (suffixed : Bool)
  | deploymentAt (hash : HashToken)
  | page (endpoint : RestPage) (hash : HashToken) (extension : Extension)
  | blockHash (height : BitVec 32) (extension : Extension)
  | range (endpoint : RestRange) (count : Option (BitVec 32)) (hash : HashToken)
      (extension : Extension)
  | utxos (checked : Bool) (points : List RestPoint) (last : RestPoint) (extension : Extension)
  | mempool (contents : Bool)

namespace RestForm

/-- The segments before the leaf. -/
def front : RestForm → List String
  | .chaininfo suffixed => [if suffixed then "chaininfo.json" else "chaininfo"]
  | .deployment suffixed => [if suffixed then "deploymentinfo.json" else "deploymentinfo"]
  | .deploymentAt _ => ["deploymentinfo"]
  | .page endpoint _ _ => endpoint.front
  | .blockHash _ _ => ["blockhashbyheight"]
  | .range endpoint count _ _ => endpoint.front ++ (count.map numeral).toList
  | .utxos checked points _ _ =>
      "getutxos" :: ((if checked then ["checkmempool"] else []) ++ points.map RestPoint.text)
  | .mempool _ => ["mempool"]

/-- The name and the extension of the leaf, where the form has one. -/
def leaf : RestForm → Option (String × Extension)
  | .chaininfo _ | .deployment _ => none
  | .deploymentAt hash => some (hash.text, .json)
  | .page _ hash extension => some (hash.text, extension)
  | .blockHash height extension => some (numeral height, extension)
  | .range _ _ hash extension => some (hash.text, extension)
  | .utxos _ _ last extension => some (last.text, extension)
  | .mempool contents => some (if contents then "contents" else "info", .json)

def segments (form : RestForm) : List String :=
  form.front ++ (form.leaf.map fun leaf => Text.joined leaf.1 '.' leaf.2.name).toList

def request : RestForm → Request
  | .chaininfo _ => { method := "chain_information" }
  | .deployment _ => { method := "deployment_info" }
  | .deploymentAt hash => { method := "deployment_info", params := [("hash", .hash hash.digest)] }
  | .page endpoint hash extension =>
      { method := endpoint.method
        params := [("media", .media extension.media), ("hash", .hash hash.digest)] ++
          endpoint.others }
  | .blockHash height extension =>
      { method := "block_hash"
        params := [("media", .media extension.media), ("height", .u32 height)] }
  | .range endpoint count hash extension =>
      { method := endpoint.method
        params := [("media", .media extension.media), ("hash", .hash hash.digest)] ++
          endpoint.others ++ [("count", .u32 (count.getD 5))] }
  | .utxos checked points last extension =>
      { method := "get_utxos"
        params := (if checked then [("mempool", .flag true)] else []) ++
          [("media", .media extension.media),
            ("outpoints", .outpoints ((points ++ [last]).map RestPoint.value))] }
  | .mempool contents => { method := if contents then "mempool" else "mempool_information" }

/-- The parser returns once it has read the form, whatever follows. -/
def early : RestForm → Bool
  | .deployment suffixed => suffixed
  | .range _ count _ _ => count.isSome
  | .utxos _ _ _ _ => false
  | _ => true

/-- What stands for the leaf, with empty parts between its dots. -/
def Ends (form : RestForm) (ending : List String) : Prop :=
  match form.leaf with
  | none => ending = []
  | some (name, extension) =>
      ∃ segment, ending = [segment] ∧ Text.parts segment '.' true = [name, extension.name]

end RestForm

/-- The segments without a leading "rest". -/
def remaining (path : String) : List String :=
  if (segments path).head? = some "rest" then (segments path).tail else segments path

/-! ## Leaves -/

section Leaves

variable {segment name : String} {media : Media}

theorem toMedia_eq_some {extension : String} :
    toMedia extension = some media ↔
      ∃ known : Extension, extension = known.name ∧ media = known.media := by
  have listed : ∀ choice, choice ∈ [("bin", Media.data), ("hex", .text), ("json", .json)] ↔
      ∃ known : Extension, choice = (known.name, known.media) := by
    apply listed_of_map [.bin, .hex, .json]
    · intro known
      cases known <;> simp
    · rfl
  rw [toMedia, lookup_eq_some (by simp), listed]
  simp only [Prod.mk.injEq]

@[simp] theorem readLeaf_eq_ok :
    readLeaf segment = .ok (name, media) ↔
      ∃ extension : Extension, Text.parts segment '.' true = [name, extension.name] ∧
        media = extension.media := by
  have read : readLeaf segment = .ok (name, media) ↔ splitLeaf segment = some (name, media) := by
    rw [readLeaf]
    cases splitLeaf segment <;> simp
  rw [read]
  unfold splitLeaf
  constructor
  · intro found
    split at found
    · rename_i first second two
      obtain ⟨known, here, same⟩ := Option.map_eq_some_iff.mp found
      obtain ⟨rfl, rfl⟩ := Prod.mk.inj same
      obtain ⟨extension, rfl, rfl⟩ := toMedia_eq_some.mp here
      exact ⟨extension, (Text.split_eq_parts (by simp)).mp two, rfl⟩
    · cases found
  · rintro ⟨extension, two, rfl⟩
    rw [(Text.split_eq_parts (by simp)).mpr two]
    simp [toMedia_eq_some.mpr ⟨extension, rfl, rfl⟩]

@[simp] theorem readHashLeaf_eq_ok {digest : HashDigest} :
    readHashLeaf segment = .ok (digest, media) ↔
      ∃ (hash : HashToken) (extension : Extension),
        Text.parts segment '.' true = [hash.text, extension.name] ∧
        digest = hash.digest ∧ media = extension.media := by
  simp only [readHashLeaf, bind_eq_ok, Prod.exists, readLeaf_eq_ok, readHash_eq_ok, pure_eq_ok,
    Prod.mk.injEq]
  constructor
  · rintro ⟨_, _, ⟨extension, two, rfl⟩, _, ⟨hash, rfl, rfl⟩, rfl, rfl⟩
    exact ⟨hash, extension, two, rfl, rfl⟩
  · rintro ⟨hash, extension, two, rfl, rfl⟩
    exact ⟨_, _, ⟨extension, two, rfl⟩, _, ⟨hash, rfl, rfl⟩, rfl, rfl⟩

/-- A digit of a hash is no separator. -/
theorem HashToken.not_mem {separator : Char} (hash : HashToken)
    (no_digit : Text.base16Digit separator = none) : separator ∉ hash.text.toList := by
  intro member
  have digit := hash.isHash.2 separator member
  rw [no_digit] at digit
  cases digit

/-- A digit of a numeral is no separator. -/
theorem not_mem_numeral {separator : Char} {width : Nat} (value : BitVec width)
    (no_digit : separator.isDigit = false) : separator ∉ (numeral value).toList := by
  intro member
  have digit := (Text.numeral_iff.mpr rfl : Text.Numeral (numeral value) value.toNat).decimal
    separator member
  rw [no_digit] at digit
  cases digit

@[simp] theorem readOutpoint_eq_ok {read : HashDigest × BitVec 32} :
    readOutpoint segment = .ok read ↔
      ∃ point : RestPoint, segment = point.text ∧ read = point.value := by
  unfold readOutpoint
  constructor
  · intro found
    split at found
    · rename_i front back two
      simp only [bind_eq_ok, readHash_eq_ok, readNumber_eq_ok, pure_eq_ok] at found
      obtain ⟨_, ⟨hash, rfl, rfl⟩, index, rfl, rfl⟩ := found
      exact ⟨⟨hash, index⟩, Text.joined_of_split two, rfl⟩
    · exact absurd found fail_ne_ok
  · rintro ⟨point, rfl, rfl⟩
    have two : Text.split point.text '-' false = [point.hash.text, numeral point.index] :=
      Text.split_joined (point.hash.not_mem (by decide)) (not_mem_numeral _ (by decide))
    rw [two]
    simp only [bind_eq_ok, readHash_eq_ok, readNumber_eq_ok, pure_eq_ok]
    exact ⟨_, ⟨point.hash, rfl, rfl⟩, point.index, rfl, rfl⟩

theorem readOutpoints_eq_ok {rest : List String} {read : List (HashDigest × BitVec 32)} :
    readOutpoints segment rest = .ok (read, media) ↔
      ∃ (points : List RestPoint) (last : RestPoint) (extension : Extension) (leaf : String),
        segment :: rest = points.map RestPoint.text ++ [leaf] ∧
        Text.parts leaf '.' true = [last.text, extension.name] ∧
        read = (points ++ [last]).map RestPoint.value ∧ media = extension.media := by
  induction rest generalizing segment read with
  | nil =>
      simp only [readOutpoints, bind_eq_ok, Prod.exists, readLeaf_eq_ok, readOutpoint_eq_ok,
        pure_eq_ok, Prod.mk.injEq]
      constructor
      · rintro ⟨_, _, ⟨extension, two, rfl⟩, _, _, ⟨last, rfl, same⟩, rfl, rfl⟩
        exact ⟨[], last, extension, segment, rfl, two, by rw [same]; rfl, rfl⟩
      · rintro ⟨points, last, extension, leaf, here, two, rfl, rfl⟩
        cases points with
        | nil =>
            obtain ⟨rfl, -⟩ := List.cons.inj here
            exact ⟨_, _, ⟨extension, two, rfl⟩, _, _, ⟨last, rfl, rfl⟩, rfl, rfl⟩
        | cons point points => simp at here
  | cons following rest ih =>
      simp only [readOutpoints, bind_eq_ok, Prod.exists, readOutpoint_eq_ok, pure_eq_ok,
        Prod.mk.injEq]
      constructor
      · rintro ⟨_, _, ⟨point, rfl, same⟩, _, _, others, rfl, rfl⟩
        obtain ⟨points, last, extension, leaf, here, two, rfl, rfl⟩ := ih.mp others
        exact ⟨point :: points, last, extension, leaf, by rw [here]; rfl, two, by simp [same], rfl⟩
      · rintro ⟨points, last, extension, leaf, here, two, rfl, rfl⟩
        cases points with
        | nil => simp at here
        | cons point points =>
            obtain ⟨rfl, later⟩ := List.cons.inj here
            have others := ih.mpr ⟨points, last, extension, leaf, later, two, rfl, rfl⟩
            exact ⟨_, _, ⟨point, rfl, rfl⟩, _, _, others, rfl, rfl⟩

end Leaves

/-! ## What each target accepts -/

section Accepts

variable {rest left : List String} {request : Request}

theorem restPage_iff {method : String} {others : Params} :
    restPage method others rest = .ok (request, left) ↔
      ∃ (hash : HashToken) (extension : Extension) (segment : String), rest = segment :: left ∧
        Text.parts segment '.' true = [hash.text, extension.name] ∧
        request = { method
                    params := [("media", .media extension.media), ("hash", .hash hash.digest)] ++
                      others } := by
  simp only [restPage, bind_eq_ok, Prod.exists, next_eq_ok, present_eq_ok, readHashLeaf_eq_ok,
    pure_eq_ok, Prod.mk.injEq]
  constructor
  · rintro ⟨_, _, segment, _, rfl, _, _, ⟨hash, extension, two, rfl, rfl⟩, rfl, rfl⟩
    exact ⟨hash, extension, segment, rfl, two, rfl⟩
  · rintro ⟨hash, extension, segment, rfl, two, rfl⟩
    exact ⟨(), by simp, segment, left, rfl, _, _, ⟨hash, extension, two, rfl, rfl⟩, rfl, rfl⟩

/-- A text without a dot is no leaf. -/
theorem ne_of_parts {segment name extension word : String}
    (two : Text.parts segment '.' true = [name, extension])
    (one : Text.parts word '.' true = [word]) : segment ≠ word := by
  rintro rfl
  rw [one] at two
  simp at two

theorem restBlock_iff :
    restBlock rest = .ok (request, left) ↔
      restPage "block" [] rest = .ok (request, left) ∨
      ∃ others, rest = "notxdetails" :: others ∧
        restPage "block_txs" [] others = .ok (request, left) := by
  simp only [restBlock, bind_eq_ok, Prod.exists, next_eq_ok, present_eq_ok]
  constructor
  · rintro ⟨_, _, segment, others, rfl, read⟩
    split_ifs at read with details
    · exact .inr ⟨others, by rw [details], read⟩
    · exact .inl read
  · rintro (read | ⟨others, rfl, read⟩)
    · obtain ⟨hash, extension, segment, rfl, two, rfl⟩ := restPage_iff.mp read
      refine ⟨(), by simp, segment, left, rfl, ?_⟩
      rw [if_neg (ne_of_parts two (by decide))]
      exact read
    · exact ⟨(), by simp, _, _, rfl, by rw [if_pos rfl]; exact read⟩

theorem restBlockHash_iff :
    restBlockHash rest = .ok (request, left) ↔
      ∃ (height : BitVec 32) (extension : Extension) (segment : String), rest = segment :: left ∧
        Text.parts segment '.' true = [numeral height, extension.name] ∧
        request = (RestForm.blockHash height extension).request := by
  simp only [restBlockHash, bind_eq_ok, Prod.exists, next_eq_ok, present_eq_ok, readLeaf_eq_ok,
    readNumber_eq_ok, pure_eq_ok, Prod.mk.injEq]
  constructor
  · rintro ⟨_, _, segment, _, rfl, _, _, ⟨extension, two, rfl⟩, height, rfl, rfl, rfl⟩
    exact ⟨height, extension, segment, rfl, two, rfl⟩
  · rintro ⟨height, extension, segment, rfl, two, rfl⟩
    exact ⟨(), by simp, segment, left, rfl, _, _, ⟨extension, two, rfl⟩, height, rfl, rfl, rfl⟩

theorem readCount_iff {count : BitVec 32} (some_left : rest ≠ []) :
    readCount rest = .ok (count, left) ↔
      (rest = numeral count :: left ∧ left ≠ []) ∨ (left = rest ∧ left.length = 1 ∧ count = 5) := by
  unfold readCount
  split_ifs with several
  · simp only [bind_eq_ok, Prod.exists, next_eq_ok, readNumber_eq_ok, pure_eq_ok, Prod.mk.injEq]
    constructor
    · rintro ⟨_, _, rfl, _, rfl, rfl, rfl⟩
      refine .inl ⟨rfl, ?_⟩
      rintro rfl
      simp at several
    · rintro (⟨rfl, _⟩ | ⟨rfl, one, _⟩)
      · exact ⟨_, _, rfl, _, rfl, rfl, rfl⟩
      · omega
  · simp only [pure_eq_ok, Prod.mk.injEq]
    have one : rest.length = 1 := by
      have positive := List.length_pos_iff.mpr some_left
      omega
    constructor
    · rintro ⟨rfl, rfl⟩
      exact .inr ⟨rfl, one, rfl⟩
    · rintro (⟨rfl, more⟩ | ⟨rfl, _, rfl⟩)
      · have positive := List.length_pos_iff.mpr more
        simp only [List.length_cons] at one
        omega
      · exact ⟨rfl, rfl⟩

theorem restHeaders_iff {missing : Code} {method : String} {others : Params} :
    restHeaders missing method others rest = .ok (request, left) ↔
      ∃ (count : Option (BitVec 32)) (hash : HashToken) (extension : Extension) (segment : String),
        rest = (count.map numeral).toList ++ segment :: left ∧
        Text.parts segment '.' true = [hash.text, extension.name] ∧
        (left = [] ∨ count.isSome) ∧
        request = { method
                    params := [("media", .media extension.media), ("hash", .hash hash.digest)] ++
                      others ++ [("count", .u32 (count.getD 5))] } := by
  simp only [restHeaders, bind_eq_ok, Prod.exists, next_eq_ok, present_eq_ok, readHashLeaf_eq_ok,
    pure_eq_ok, Prod.mk.injEq]
  constructor
  · rintro ⟨_, some_left, count, _, counted, segment, _, rfl, _, _,
      ⟨hash, extension, two, rfl, rfl⟩, rfl, rfl⟩
    rcases (readCount_iff some_left).mp counted with ⟨rfl, _⟩ | ⟨rfl, one, rfl⟩
    · exact ⟨some count, hash, extension, segment, rfl, two, .inr rfl, rfl⟩
    · exact ⟨none, hash, extension, segment, rfl, two, .inl (by simpa using one), rfl⟩
  · rintro ⟨count, hash, extension, segment, rfl, two, early, rfl⟩
    refine ⟨(), by simp, count.getD 5, segment :: left, ?_, segment, left, rfl, _, _,
      ⟨hash, extension, two, rfl, rfl⟩, rfl, rfl⟩
    rw [readCount_iff (by simp)]
    cases count with
    | none =>
        obtain rfl : left = [] := by simpa using early
        exact .inr ⟨rfl, rfl, rfl⟩
    | some count => exact .inl ⟨rfl, by simp⟩

theorem restFilterType_iff : restFilterType rest = .ok left ↔ rest = "basic" :: left := by
  simp only [restFilterType, bind_eq_ok, Prod.exists, next_eq_ok, present_eq_ok]
  constructor
  · rintro ⟨_, _, type, _, rfl, read⟩
    split_ifs at read with other
    · exact absurd read fail_ne_ok
    · rw [pure_eq_ok] at read
      rw [not_not.mp other, read]
  · rintro rfl
    exact ⟨(), by simp, _, _, rfl, by simp⟩

theorem restDeployment_iff {target : String} :
    restDeployment target rest = .ok (request, left) ↔
      (left = rest ∧ (target ≠ "deploymentinfo" ∨ rest = []) ∧
        request = { method := "deployment_info" }) ∨
      ∃ (hash : HashToken) (segment : String), target = "deploymentinfo" ∧ rest = segment :: left ∧
        Text.parts segment '.' true = [hash.text, Extension.json.name] ∧
        request = (RestForm.deploymentAt hash).request := by
  unfold restDeployment
  split_ifs with at_block
  · obtain ⟨rfl, some_left⟩ := at_block
    simp only [bind_eq_ok, Prod.exists, next_eq_ok, readLeaf_eq_ok]
    constructor
    · rintro ⟨segment, _, rfl, _, _, ⟨extension, two, rfl⟩, read⟩
      split_ifs at read with other
      · exact absurd read fail_ne_ok
      · simp only [bind_eq_ok, readHash_eq_ok, pure_eq_ok, Prod.mk.injEq] at read
        obtain ⟨_, ⟨hash, rfl, rfl⟩, rfl, rfl⟩ := read
        obtain rfl : extension = .json := by
          cases extension with
          | bin | hex => exact absurd (not_not.mp other) (by decide)
          | json => rfl
        exact .inr ⟨hash, segment, trivial, rfl, two, rfl⟩
    · rintro (⟨_, other | none, _⟩ | ⟨hash, segment, _, rfl, two, rfl⟩)
      · exact absurd rfl other
      · exact absurd none some_left
      · refine ⟨segment, left, rfl, _, _, ⟨.json, two, rfl⟩, ?_⟩
        rw [if_neg (by simp [Extension.media])]
        simp only [bind_eq_ok, readHash_eq_ok, pure_eq_ok, Prod.mk.injEq]
        exact ⟨_, ⟨hash, rfl, rfl⟩, rfl, trivial⟩
  · simp only [pure_eq_ok, Prod.mk.injEq]
    constructor
    · rintro ⟨rfl, rfl⟩
      exact .inl ⟨rfl, by tauto, rfl⟩
    · rintro (⟨rfl, _, rfl⟩ | ⟨hash, segment, rfl, rfl, _⟩)
      · exact ⟨rfl, rfl⟩
      · exact absurd (by simp) at_block

theorem restMempool_iff :
    restMempool rest = .ok (request, left) ↔
      ∃ (contents : Bool) (segment : String), rest = segment :: left ∧
        Text.parts segment '.' true =
          [if contents then "contents" else "info", Extension.json.name] ∧
        request = (RestForm.mempool contents).request := by
  simp only [restMempool, bind_eq_ok, Prod.exists, next_eq_ok, present_eq_ok, readLeaf_eq_ok]
  constructor
  · rintro ⟨_, _, segment, _, rfl, name, _, ⟨extension, two, rfl⟩, read⟩
    split_ifs at read with other info unknown
    · exact absurd read fail_ne_ok
    all_goals
      obtain rfl : extension = .json := by
        cases extension with
        | bin | hex => exact absurd (not_not.mp other) (by decide)
        | json => rfl
    · simp only [pure_eq_ok, Prod.mk.injEq] at read
      obtain ⟨rfl, rfl⟩ := read
      exact ⟨false, segment, rfl, by rw [two, info]; rfl, rfl⟩
    · exact absurd read fail_ne_ok
    · simp only [pure_eq_ok, Prod.mk.injEq] at read
      obtain ⟨rfl, rfl⟩ := read
      exact ⟨true, segment, rfl, by rw [two, not_not.mp unknown]; rfl, rfl⟩
  · rintro ⟨contents, segment, rfl, two, rfl⟩
    refine ⟨(), by simp, segment, left, rfl, _, _, ⟨.json, two, rfl⟩, ?_⟩
    cases contents <;> simp [Extension.media, RestForm.request]

/-- An outpoint or a leaf is not the text "checkmempool". -/
theorem head_ne_checkmempool {points : List RestPoint} {name extension leaf first : String}
    (two : Text.parts leaf '.' true = [name, extension])
    (here : points.map RestPoint.text ++ [leaf] = first :: left) : first ≠ "checkmempool" := by
  cases points with
  | nil =>
      obtain ⟨rfl, -⟩ := List.cons.inj here
      exact ne_of_parts two (by decide)
  | cons point points =>
      obtain ⟨rfl, -⟩ := List.cons.inj here
      intro same
      have pair : readOutpoint point.text = .ok point.value :=
        readOutpoint_eq_ok.mpr ⟨point, rfl, rfl⟩
      have single : readOutpoint "checkmempool" = .error (.code .invalidHash) := by decide
      rw [same, single] at pair
      cases pair

theorem restUtxos_iff :
    restUtxos rest = .ok (request, left) ↔ left = [] ∧
      ∃ (checked : Bool) (points : List RestPoint) (last : RestPoint) (extension : Extension)
        (leaf : String),
        rest = (if checked then ["checkmempool"] else []) ++ (points.map RestPoint.text ++ [leaf]) ∧
        Text.parts leaf '.' true = [last.text, extension.name] ∧
        request = (RestForm.utxos checked points last extension).request := by
  simp only [restUtxos, bind_eq_ok, Prod.exists, next_eq_ok, present_eq_ok, readOutpoints_eq_ok,
    pure_eq_ok, Prod.mk.injEq]
  constructor
  · rintro ⟨_, _, first, others, rfl, _, _, segment, later, here, _, _,
      ⟨points, last, extension, leaf, listed, two, rfl, rfl⟩, rfl, rfl⟩
    refine ⟨rfl, ?_⟩
    by_cases checked : first = "checkmempool"
    · rw [if_pos checked] at here
      exact ⟨true, points, last, extension, leaf, by rw [checked, here, listed]; rfl, two,
        by simp [checked, RestForm.request]⟩
    · rw [if_neg checked] at here
      exact ⟨false, points, last, extension, leaf, by rw [here, listed]; rfl, two,
        by simp [checked, RestForm.request]⟩
  · rintro ⟨rfl, checked, points, last, extension, leaf, rfl, two, rfl⟩
    obtain ⟨segment, later, listed⟩ : ∃ segment later,
        points.map RestPoint.text ++ [leaf] = segment :: later :=
      List.exists_cons_of_ne_nil (by simp)
    have read : ∃ (inner : List RestPoint) (final : RestPoint) (known : Extension)
        (named : String), segment :: later = inner.map RestPoint.text ++ [named] ∧
          Text.parts named '.' true = [final.text, known.name] ∧
          (points ++ [last]).map RestPoint.value = (inner ++ [final]).map RestPoint.value ∧
          extension.media = known.media :=
      ⟨points, last, extension, leaf, listed.symm, two, rfl, rfl⟩
    cases checked with
    | true =>
        refine ⟨(), by simp, "checkmempool", segment :: later, by rw [listed]; rfl, (), by simp,
          segment, later, by simp, _, _, read, ?_, rfl⟩
        simp [RestForm.request]
    | false =>
        have unchecked := head_ne_checkmempool two listed
        refine ⟨(), by simp, segment, later, by rw [listed]; rfl, (), by simp [unchecked],
          segment, later, by simp [unchecked, listed], _, _, read, ?_, rfl⟩
        simp [RestForm.request, unchecked]

/-- A form of a target, its leaf in any spelling, with what follows it. -/
def RestForm.Starts (form : RestForm) (segments left : List String) : Prop :=
  ∃ ending, form.Ends ending ∧ segments = form.front ++ ending ++ left ∧
    (left = [] ∨ form.early)

/-- What a target accepts is a form, its leaf in some spelling. -/
theorem RestPage.starts (endpoint : RestPage)
    (read : restPage endpoint.method endpoint.others rest = .ok (request, left)) :
    ∃ form : RestForm, form.Starts (endpoint.front ++ rest) left ∧ request = form.request := by
  obtain ⟨hash, extension, segment, rfl, two, rfl⟩ := restPage_iff.mp read
  exact ⟨.page endpoint hash extension,
    ⟨[segment], ⟨segment, rfl, two⟩, by simp [RestForm.front], .inr rfl⟩, rfl⟩

theorem RestRange.starts (endpoint : RestRange) {missing : Code}
    (read : restHeaders missing endpoint.method endpoint.others rest = .ok (request, left)) :
    ∃ form : RestForm, form.Starts (endpoint.front ++ rest) left ∧ request = form.request := by
  obtain ⟨count, hash, extension, segment, rfl, two, early, rfl⟩ := restHeaders_iff.mp read
  exact ⟨.range endpoint count hash extension,
    ⟨[segment], ⟨segment, rfl, two⟩, by simp [RestForm.front], early⟩, rfl⟩

theorem starts_of_restComponent {target : String}
    (read : restComponent target rest = .ok (request, left)) :
    ∃ form : RestForm, form.Starts (target :: rest) left ∧ request = form.request := by
  unfold restComponent at read
  by_cases chaininfo : target = "chaininfo" ∨ target = "chaininfo.json"
  · rw [if_pos chaininfo] at read
    simp only [pure_eq_ok, Prod.mk.injEq] at read
    obtain ⟨rfl, rfl⟩ := read
    rcases chaininfo with rfl | rfl
    · exact ⟨.chaininfo false, ⟨[], rfl, rfl, .inr rfl⟩, rfl⟩
    · exact ⟨.chaininfo true, ⟨[], rfl, rfl, .inr rfl⟩, rfl⟩
  rw [if_neg chaininfo] at read
  by_cases block : target = "block"
  · rw [if_pos block] at read
    subst block
    rcases restBlock_iff.mp read with page | ⟨others, rfl, page⟩
    · exact RestPage.block.starts page
    · exact RestPage.notxdetails.starts page
  rw [if_neg block] at read
  by_cases deployment : target = "deploymentinfo" ∨ target = "deploymentinfo.json"
  · rw [if_pos deployment] at read
    rcases restDeployment_iff.mp read with ⟨rfl, plain, rfl⟩ | ⟨hash, segment, rfl, rfl, two, rfl⟩
    · rcases deployment with rfl | rfl
      · obtain rfl : left = [] := by simpa using plain
        exact ⟨.deployment false, ⟨[], rfl, rfl, .inl rfl⟩, rfl⟩
      · exact ⟨.deployment true, ⟨[], rfl, rfl, .inr rfl⟩, rfl⟩
    · exact ⟨.deploymentAt hash, ⟨[segment], ⟨segment, rfl, two⟩, rfl, .inr rfl⟩, rfl⟩
  rw [if_neg deployment] at read
  by_cases tx : target = "tx"
  · rw [if_pos tx] at read
    subst tx
    exact RestPage.tx.starts read
  rw [if_neg tx] at read
  by_cases blockHash : target = "blockhashbyheight"
  · rw [if_pos blockHash] at read
    subst blockHash
    obtain ⟨height, extension, segment, rfl, two, rfl⟩ := restBlockHash_iff.mp read
    exact ⟨.blockHash height extension, ⟨[segment], ⟨segment, rfl, two⟩, rfl, .inr rfl⟩, rfl⟩
  rw [if_neg blockHash] at read
  by_cases headers : target = "headers"
  · rw [if_pos headers] at read
    subst headers
    exact RestRange.headers.starts read
  rw [if_neg headers] at read
  by_cases filter : target = "blockfilter"
  · rw [if_pos filter] at read
    subst filter
    simp only [bind_eq_ok, restFilterType_iff] at read
    obtain ⟨_, rfl, read⟩ := read
    exact RestPage.filter.starts read
  rw [if_neg filter] at read
  by_cases filterHeaders : target = "blockfilterheaders"
  · rw [if_pos filterHeaders] at read
    subst filterHeaders
    simp only [bind_eq_ok, restFilterType_iff] at read
    obtain ⟨_, rfl, read⟩ := read
    exact RestRange.filterHeaders.starts read
  rw [if_neg filterHeaders] at read
  by_cases utxos : target = "getutxos"
  · rw [if_pos utxos] at read
    subst utxos
    obtain ⟨rfl, checked, points, last, extension, leaf, rfl, two, rfl⟩ := restUtxos_iff.mp read
    exact ⟨.utxos checked points last extension,
      ⟨[leaf], ⟨leaf, rfl, two⟩, by simp [RestForm.front], .inl rfl⟩, rfl⟩
  rw [if_neg utxos] at read
  by_cases mempool : target = "mempool"
  · rw [if_pos mempool] at read
    subst mempool
    obtain ⟨contents, segment, rfl, two, rfl⟩ := restMempool_iff.mp read
    exact ⟨.mempool contents, ⟨[segment], ⟨segment, rfl, two⟩, rfl, .inr rfl⟩, rfl⟩
  rw [if_neg mempool] at read
  by_cases spent : target = "spenttxouts"
  · rw [if_pos spent] at read
    subst spent
    exact RestPage.spent.starts read
  rw [if_neg spent] at read
  by_cases part : target = "blockpart"
  · rw [if_pos part] at read
    subst part
    exact RestPage.part.starts read
  rw [if_neg part] at read
  exact absurd read fail_ne_ok

theorem restComponent_of_starts {target : String} {form : RestForm}
    (starts : form.Starts (target :: rest) left) :
    restComponent target rest = .ok (form.request, left) := by
  obtain ⟨ending, ends, here, early⟩ := starts
  unfold restComponent
  cases form with
  | chaininfo suffixed =>
      obtain rfl : ending = [] := ends
      obtain ⟨rfl, rfl⟩ := List.cons.inj here
      cases suffixed <;> simp [RestForm.request]
  | deployment suffixed =>
      obtain rfl : ending = [] := ends
      obtain ⟨rfl, rfl⟩ := List.cons.inj here
      cases suffixed with
      | false =>
          obtain rfl : rest = [] := by simpa [RestForm.early] using early
          rfl
      | true =>
          simp only [reduceIte, String.reduceEq, or_self, or_true]
          exact restDeployment_iff.mpr (.inl ⟨rfl, .inl (by decide), rfl⟩)
  | deploymentAt hash =>
      obtain ⟨segment, rfl, two⟩ := ends
      obtain ⟨rfl, rfl⟩ := List.cons.inj here
      simp only [reduceIte, String.reduceEq, or_self, true_or]
      exact restDeployment_iff.mpr (.inr ⟨hash, segment, rfl, rfl, two, rfl⟩)
  | page endpoint hash extension =>
      obtain ⟨segment, rfl, two⟩ := ends
      have leaf : ∀ method others, restPage method others (segment :: left) =
          .ok ({ method
                 params := [("media", .media extension.media), ("hash", .hash hash.digest)] ++
                   others }, left) := by
        intro method others
        exact restPage_iff.mpr ⟨hash, extension, segment, rfl, two, rfl⟩
      cases endpoint with
      | block =>
          obtain ⟨rfl, rfl⟩ := List.cons.inj here
          simp only [reduceIte, String.reduceEq, or_self]
          exact restBlock_iff.mpr (.inl (leaf _ _))
      | notxdetails =>
          obtain ⟨rfl, rfl⟩ := List.cons.inj here
          simp only [reduceIte, String.reduceEq, or_self]
          exact restBlock_iff.mpr (.inr ⟨_, rfl, leaf _ _⟩)
      | filter =>
          obtain ⟨rfl, rfl⟩ := List.cons.inj here
          simp only [reduceIte, String.reduceEq, or_self, bind_eq_ok, restFilterType_iff]
          exact ⟨_, rfl, leaf _ _⟩
      | tx | spent | part =>
          obtain ⟨rfl, rfl⟩ := List.cons.inj here
          simp only [reduceIte, String.reduceEq, or_self]
          exact leaf _ _
  | blockHash height extension =>
      obtain ⟨segment, rfl, two⟩ := ends
      obtain ⟨rfl, rfl⟩ := List.cons.inj here
      simp only [reduceIte, String.reduceEq, or_self]
      exact restBlockHash_iff.mpr ⟨height, extension, segment, rfl, two, rfl⟩
  | range endpoint count hash extension =>
      obtain ⟨segment, rfl, two⟩ := ends
      cases endpoint with
      | headers =>
          obtain ⟨rfl, rfl⟩ := List.cons.inj here
          simp only [reduceIte, String.reduceEq, or_self]
          exact restHeaders_iff.mpr ⟨count, hash, extension, segment, by simp, two, early, rfl⟩
      | filterHeaders =>
          obtain ⟨rfl, rfl⟩ := List.cons.inj here
          simp only [reduceIte, String.reduceEq, or_self, bind_eq_ok, restFilterType_iff]
          exact ⟨_, rfl,
            restHeaders_iff.mpr ⟨count, hash, extension, segment, by simp, two, early, rfl⟩⟩
  | utxos checked points last extension =>
      obtain ⟨segment, rfl, two⟩ := ends
      obtain rfl : left = [] := by simpa [RestForm.early] using early
      obtain ⟨rfl, rfl⟩ := List.cons.inj here
      simp only [reduceIte, String.reduceEq, or_self]
      exact restUtxos_iff.mpr
        ⟨rfl, checked, points, last, extension, segment, by simp, two, rfl⟩
  | mempool contents =>
      obtain ⟨segment, rfl, two⟩ := ends
      obtain ⟨rfl, rfl⟩ := List.cons.inj here
      simp only [reduceIte, String.reduceEq, or_self]
      exact restMempool_iff.mpr ⟨contents, segment, rfl, two, rfl⟩

theorem restComponent_iff {target : String} :
    restComponent target rest = .ok (request, left) ↔
      ∃ form : RestForm, form.Starts (target :: rest) left ∧ request = form.request := by
  constructor
  · exact starts_of_restComponent
  · rintro ⟨form, starts, rfl⟩
    exact restComponent_of_starts starts

end Accepts

/-! ## The target -/

namespace RestForm

theorem front_cons (form : RestForm) :
    ∃ word others, form.front = word :: others ∧ word ≠ "" := by
  cases form with
  | chaininfo suffixed => cases suffixed <;> exact ⟨_, _, rfl, by decide⟩
  | deployment suffixed => cases suffixed <;> exact ⟨_, _, rfl, by decide⟩
  | page endpoint hash extension => cases endpoint <;> exact ⟨_, _, rfl, by decide⟩
  | range endpoint count hash extension => cases endpoint <;> exact ⟨_, _, rfl, by decide⟩
  | deploymentAt | blockHash | utxos | mempool => exact ⟨_, _, rfl, by decide⟩

/-- The name of a leaf has no dots. -/
theorem leaf_clean {form : RestForm} {name : String} {extension : Extension}
    (here : form.leaf = some (name, extension)) : '.' ∉ name.toList ∧ name ≠ "" := by
  have hashes : ∀ hash : HashToken, '.' ∉ hash.text.toList ∧ hash.text ≠ "" := by
    intro hash
    refine ⟨hash.not_mem (by decide), ?_⟩
    intro empty
    have long := hash.isHash.1
    rw [empty] at long
    cases long
  have numerals : ∀ {width : Nat} (value : BitVec width),
      '.' ∉ (numeral value).toList ∧ numeral value ≠ "" := by
    intro width value
    refine ⟨not_mem_numeral value (by decide), ?_⟩
    have digits := (Text.numeral_iff.mpr rfl : Text.Numeral (numeral value) value.toNat).present
    intro empty
    exact digits (by rw [empty]; rfl)
  cases form with
  | chaininfo | deployment => cases here
  | deploymentAt hash =>
      cases here
      exact hashes hash
  | page endpoint hash extension =>
      cases here
      exact hashes hash
  | blockHash height extension =>
      cases here
      exact numerals height
  | range endpoint count hash extension =>
      cases here
      exact hashes hash
  | utxos checked points last extension =>
      cases here
      constructor
      · have one := (hashes last.hash).1
        have two := (numerals last.index).1
        simp [RestPoint.text, Text.joined, one, two]
      · intro empty
        have characters := congrArg String.toList empty
        simp [RestPoint.text, Text.joined] at characters
  | mempool contents =>
      cases here
      cases contents <;> decide

end RestForm

theorem Extension.name_clean (extension : Extension) :
    '.' ∉ extension.name.toList ∧ extension.name ≠ "" := by
  cases extension <;> decide

/-- The segments of a form are one spelling of it. -/
theorem RestForm.starts_segments (form : RestForm) : form.Starts form.segments [] := by
  refine ⟨(form.leaf.map fun leaf => Text.joined leaf.1 '.' leaf.2.name).toList, ?_,
    by simp [segments], .inl rfl⟩
  unfold Ends
  rcases leaf : form.leaf with _ | ⟨name, extension⟩
  · rfl
  · obtain ⟨no_dot, present⟩ := leaf_clean leaf
    obtain ⟨without, also⟩ := extension.name_clean
    exact ⟨_, rfl, Text.parts_joined no_dot without present also⟩

theorem RestForm.Starts.head {form : RestForm} {segments left : List String}
    (starts : form.Starts segments left) :
    ∃ target rest, segments = target :: rest ∧ target ≠ "" := by
  obtain ⟨ending, _, rfl, _⟩ := starts
  obtain ⟨word, others, front, present⟩ := form.front_cons
  exact ⟨word, others ++ ending ++ left, by rw [front]; simp, present⟩

/-- A path is accepted where a form starts its segments. -/
theorem bitcoindTarget_eq_ok {path : String} {request : Request} :
    bitcoindTarget path = .ok request ↔
      ∃ (form : RestForm) (left : List String),
        form.Starts (remaining path) left ∧ request = form.request := by
  unfold bitcoindTarget
  constructor
  · intro reading
    split_ifs at reading with empty
    · exact absurd reading fail_ne_ok
    · simp only [bind_eq_ok, Prod.exists, next_eq_ok, present_eq_ok, pure_eq_ok] at reading
      obtain ⟨first, others, here, _, _, target, rest, mounted, _, left, read, rfl⟩ := reading
      obtain ⟨form, starts, rfl⟩ := restComponent_iff.mp read
      refine ⟨form, left, ?_, rfl⟩
      by_cases none : segments path = []
      · -- The one empty segment is no target.
        rw [split_eq, if_pos none] at here mounted
        obtain ⟨rfl, rfl⟩ := List.cons.inj here
        obtain ⟨_, _, same, present⟩ := starts.head
        obtain ⟨rfl, -⟩ := List.cons.inj same
        exact absurd (List.cons.inj mounted).1.symm present
      · rw [split_eq, if_neg none] at here mounted
        rw [remaining, here, List.head?_cons, List.tail_cons]
        rw [here] at mounted
        simp only [Option.some.injEq, mounted]
        exact starts
  · rintro ⟨form, left, starts, rfl⟩
    obtain ⟨target, rest, mounted, present⟩ := starts.head
    have some_left : segments path ≠ [] := by
      intro none
      simp [remaining, none] at mounted
    have unclean : cleaned path ≠ "" := fun empty => some_left (segments_of_empty empty)
    obtain ⟨first, others, here⟩ := List.exists_cons_of_ne_nil some_left
    have whole : split path = first :: others := by rw [split_eq, if_neg some_left, here]
    rw [if_neg unclean]
    simp only [bind_eq_ok, Prod.exists, next_eq_ok, present_eq_ok, pure_eq_ok]
    have rest_eq : (if first = "rest" then others else split path) = target :: rest := by
      rw [← mounted, remaining, here, whole]
      simp
    rw [mounted] at starts
    exact ⟨first, others, whole, (), by simp [rest_eq], target, rest, rest_eq, _, left,
      restComponent_of_starts starts, rfl⟩

/-- A complete form that the parser returns from at once, and more segments. -/
def Overlong (path : String) : Prop :=
  ∃ (form : RestForm) (ending left : List String), form.Ends ending ∧ form.early ∧ left ≠ [] ∧
    remaining path = form.front ++ ending ++ left

/-- A complete form, with an empty part between the dots of its leaf. -/
def Dotted (path : String) : Prop :=
  ∃ (form : RestForm) (ending : List String), form.Ends ending ∧
    remaining path = form.front ++ ending ∧
    ∃ segment ∈ ending, "" ∈ Text.parts segment '.' false

/-- A leaf without empty parts is spelled by its name and extension. -/
theorem RestForm.Ends.spelled {form : RestForm} {ending : List String} (ends : form.Ends ending)
    (no_empty : ∀ segment ∈ ending, "" ∉ Text.parts segment '.' false) :
    form.front ++ ending = form.segments := by
  unfold RestForm.Ends at ends
  unfold RestForm.segments
  rcases leaf : form.leaf with _ | ⟨name, extension⟩
  · rw [leaf] at ends
    rw [ends]
    rfl
  · rw [leaf] at ends
    obtain ⟨segment, rfl, two⟩ := ends
    have every : Text.parts segment '.' false = [name, extension.name] := by
      rw [← two, Text.parts, Text.parts, if_neg (by simp), if_pos rfl]
      symm
      rw [List.filter_eq_self]
      intro part member
      have here : part ∈ Text.parts segment '.' false := by simpa [Text.parts] using member
      have present : part ≠ "" := fun empty => no_empty segment (by simp) (empty ▸ here)
      simpa using present
    have same : segment = Text.joined name '.' extension.name := by
      apply Text.joined_of_split
      rw [Text.split_eq_parts (by simp), every]
    rw [same]
    rfl

/-- A strict leaf has no empty part. -/
theorem RestForm.not_dotted {form : RestForm} {front : List String} {segment : String}
    (present : front ≠ []) (here : form.segments = front ++ [segment]) :
    "" ∉ Text.parts segment '.' false := by
  unfold RestForm.segments at here
  rcases leaf : form.leaf with _ | ⟨name, extension⟩
  · rw [leaf] at here
    have short : form.front.length = 1 := by
      cases form with
      | chaininfo | deployment => rfl
      | _ => cases leaf
    have length := congrArg List.length here
    have positive := List.length_pos_iff.mpr present
    simp only [Option.map_none, Option.toList_none, List.append_nil, List.length_append,
      List.length_singleton] at length
    omega
  · rw [leaf] at here
    obtain ⟨-, same⟩ := List.append_inj' here rfl
    obtain ⟨no_dot, some_name⟩ := leaf_clean leaf
    obtain ⟨without, also⟩ := extension.name_clean
    obtain rfl : Text.joined name '.' extension.name = segment := by simpa using same
    have two : Text.parts (Text.joined name '.' extension.name) '.' false =
        [name, extension.name] := by
      rw [← Text.split_eq_parts (by simp), Text.split_joined no_dot without]
    rw [two]
    simp [some_name.symm, also.symm]

/-- The bitcoind target accepts the grammar and nothing else, for the paths that have
    nothing after a form and no empty parts in a leaf, and for no other path. -/
theorem bitcoindTarget_grammar_iff (path : String) :
    (∀ request, bitcoindTarget path = .ok request ↔
      ∃ form : RestForm, remaining path = form.segments ∧ request = form.request) ↔
    ¬ Overlong path ∧ ¬ Dotted path := by
  constructor
  · intro exact_
    constructor
    · rintro ⟨form, ending, left, ends, early, more, here⟩
      have starts : form.Starts (remaining path) left := ⟨ending, ends, here, .inr early⟩
      have accepted := bitcoindTarget_eq_ok.mpr ⟨form, left, starts, rfl⟩
      obtain ⟨strict, spelled, _⟩ := (exact_ _).mp accepted
      obtain ⟨target, rest, mounted, _⟩ := starts.head
      have whole := strict.starts_segments
      rw [← spelled, mounted] at whole
      rw [mounted] at starts
      -- The parser reads the same segments once with nothing left and once with more.
      have one := restComponent_of_starts starts
      rw [restComponent_of_starts whole] at one
      exact more (congrArg Prod.snd (Except.ok.inj one)).symm
    · rintro ⟨form, ending, ends, here, segment, member, empty⟩
      have starts : form.Starts (remaining path) [] :=
        ⟨ending, ends, by rw [here, List.append_nil], .inl rfl⟩
      have accepted := bitcoindTarget_eq_ok.mpr ⟨form, [], starts, rfl⟩
      obtain ⟨strict, spelled, _⟩ := (exact_ _).mp accepted
      have alone : ending = [segment] := by
        unfold RestForm.Ends at ends
        rcases leaf : form.leaf with _ | ⟨name, extension⟩
        · rw [leaf] at ends
          rw [ends] at member
          cases member
        · rw [leaf] at ends
          obtain ⟨_, rfl, _⟩ := ends
          rw [List.mem_singleton.mp member]
      obtain ⟨word, others, front, _⟩ := form.front_cons
      rw [alone] at here
      exact RestForm.not_dotted (by rw [front]; simp) (spelled.symm.trans here) empty
  · rintro ⟨short, plain⟩ request
    rw [bitcoindTarget_eq_ok]
    constructor
    · rintro ⟨form, left, ⟨ending, ends, here, early⟩, rfl⟩
      have none : left = [] := by
        by_contra more
        exact short ⟨form, ending, left, ends, early.resolve_left more, more, here⟩
      rw [none, List.append_nil] at here
      refine ⟨form, here.trans (ends.spelled ?_), rfl⟩
      intro segment member empty
      exact plain ⟨form, ending, ends, here, segment, member, empty⟩
    · rintro ⟨form, spelled, rfl⟩
      exact ⟨form, [], spelled ▸ form.starts_segments, rfl⟩

/-- Segments are left over after a complete form, and the path is accepted. -/
theorem bitcoindTarget_left_over :
    bitcoindTarget "/rest/chaininfo.json/x" = .ok { method := "chain_information" } ∧
    ¬ ∃ form : RestForm, remaining "/rest/chaininfo.json/x" = form.segments ∧
      { method := "chain_information" } = form.request := by
  refine ⟨by decide, ?_⟩
  rintro ⟨form, spelled, _⟩
  have segments : remaining "/rest/chaininfo.json/x" = ["chaininfo.json", "x"] := by decide
  have whole := form.starts_segments
  rw [← spelled, segments] at whole
  have read : restComponent "chaininfo.json" ["x"] =
      .ok ({ method := "chain_information" }, ["x"]) := by decide
  rw [restComponent_of_starts whole] at read
  exact absurd (congrArg Prod.snd (Except.ok.inj read)) (by simp)

/-- The empty parts of a leaf are dropped. -/
example : splitLeaf "info..json" = some ("info", .json) := by
  decide

end LibbitcoinServer.Parsers

import LibbitcoinServer.Lib.Text

/-! # Targets of requests

A path is read into the model of a request, one segment after another.  The segments are
the nonempty parts of the path before its query.  A parser looks whether a segment is
left before it reads one, or it would read past the end.
-/

namespace LibbitcoinServer.Parsers

inductive Code where
  | emptyPath
  | missingVersion
  | missingTarget
  | missingHash
  | missingHeight
  | missingPosition
  | missingComponent
  | missingIdType
  | missingTypeId
  | invalidNumber
  | invalidHash
  | invalidTarget
  | invalidComponent
  | invalidSubcomponent
  | invalidIdType
  | extraSegment
  deriving DecidableEq, Repr

/-- A parser returns a code, or reads a segment that does not exist. -/
inductive Fault where
  | code (code : Code)
  | outOfRange
  deriving DecidableEq, Repr

inductive Media where
  | text
  | json
  | data
  deriving DecidableEq, Repr

abbrev HashDigest := List UInt8

inductive Value where
  | u8 (value : BitVec 8)
  | u32 (value : BitVec 32)
  | hash (digest : HashDigest)
  | text (text : String)
  | flag (value : Bool)
  | media (media : Media)
  | outpoints (points : List (HashDigest × BitVec 32))
  deriving DecidableEq

abbrev Params := List (String × Value)

inductive Version where
  | v2
  deriving DecidableEq

/-- A json-rpc request with named parameters and a null identifier. -/
structure Request where
  jsonrpc : Version := .v2
  method : String
  params : Params := []
  deriving DecidableEq

/-! ## Segments -/

/-- The nonempty parts of the path before its query. -/
def segments (path : String) : List String :=
  Text.parts (String.ofList (path.toList.takeWhile (· ≠ '?'))) '/' true

/-- What the parsers take for the path and its segments: without a nonempty part there
    is one empty segment. -/
def cleaned (path : String) : String := (Text.split path '?' false).headD ""

def split (path : String) : List String := Text.split (cleaned path) '/' true

theorem cleaned_eq (path : String) :
    cleaned path = String.ofList (path.toList.takeWhile (· ≠ '?')) := by
  rw [cleaned, List.headD_eq_head?_getD, Text.head_split, Option.getD_some]

theorem split_eq (path : String) :
    split path = if segments path = [] then [""] else segments path := by
  rw [split, Text.split, segments, cleaned_eq]

/-- An empty path has no segments. -/
theorem segments_of_empty {path : String} (empty : cleaned path = "") : segments path = [] := by
  rw [segments, ← cleaned_eq, empty]
  rfl

theorem ne_empty_of_mem {path segment : String} (member : segment ∈ segments path) :
    segment ≠ "" := by
  unfold segments Text.parts at member
  rw [if_pos rfl, List.mem_filter] at member
  simpa using member.2

/-! ## Tokens -/

/-- `decode_hash`: the bytes of 64 digits, reversed. -/
def decodeHash (token : String) : Option HashDigest :=
  if token.toList.length = 64 then (Text.decodeBase16 token.toList).map List.reverse else none

/-- A text of 64 base16 digits. -/
def IsHash (token : String) : Prop := token.toList.length = 64 ∧ Text.IsBase16 token.toList

/-- `to_number` into a type of the width. -/
def toNumber (width : Nat) (token : String) : Option (BitVec width) :=
  let value := Nat.ofDigitChars 10 token.toList 0
  if token ≠ "" ∧ token.toList.all Char.isDigit ∧
      (token.toList.length = 1 ∨ token.toList.head? ≠ some '0') ∧ value < 2 ^ width then
    some (BitVec.ofNat width value)
  else none

/-- The decimal numeral of a number. -/
def numeral {width : Nat} (value : BitVec width) : String := toString value.toNat

theorem toNumber_eq_some {width : Nat} {token : String} {value : BitVec width} :
    toNumber width token = some value ↔ token = numeral value := by
  rw [numeral, ← Text.numeral_iff, toNumber]
  simp only [Option.ite_none_right_eq_some, Option.some.injEq, List.all_eq_true]
  constructor
  · rintro ⟨⟨present, decimal, canonical, bound⟩, rfl⟩
    refine ⟨?_, decimal, canonical, ?_⟩
    · simpa using present
    · rw [BitVec.toNat_ofNat, Nat.mod_eq_of_lt bound]
  · rintro ⟨present, decimal, canonical, denotes⟩
    refine ⟨⟨?_, decimal, canonical, ?_⟩, ?_⟩
    · simpa using present
    · rw [denotes]
      exact value.isLt
    · rw [denotes, BitVec.ofNat_toNat, BitVec.setWidth_eq]

theorem decodeHash_isSome (token : String) : (decodeHash token).isSome ↔ IsHash token := by
  unfold decodeHash IsHash
  split_ifs with long
  · rw [Option.isSome_map, Text.decodeBase16_isSome, long]
    simp
  · simp [long]

/-- Two texts of one hash differ in letter case alone. -/
theorem toLower_of_decodeHash {first second : String} {digest : HashDigest}
    (one : decodeHash first = some digest) (two : decodeHash second = some digest) :
    first.toList.map Char.toLower = second.toList.map Char.toLower := by
  unfold decodeHash at one two
  split_ifs at one two
  obtain ⟨bytes, decoded, rfl⟩ := Option.map_eq_some_iff.mp one
  obtain ⟨others, also, same⟩ := Option.map_eq_some_iff.mp two
  rw [List.reverse_inj] at same
  exact Text.map_toLower_of_decodeBase16 decoded (same ▸ also)

/-- A segment that is a hash. -/
structure HashToken where
  text : String
  isHash : IsHash text

namespace HashToken

def digest (token : HashToken) : HashDigest :=
  (decodeHash token.text).get ((decodeHash_isSome token.text).mpr token.isHash)

theorem decodes (token : HashToken) : (Text.decodeBase16 token.text.toList).isSome := by
  rw [Text.decodeBase16_isSome, token.isHash.1]
  exact ⟨token.isHash.2, rfl⟩

/-- The bytes of the digits, in their order. -/
def bytes (token : HashToken) : List UInt8 :=
  (Text.decodeBase16 token.text.toList).get token.decodes

/-- A hash is written with its bytes reversed. -/
theorem digest_eq (token : HashToken) : token.digest = token.bytes.reverse := by
  simp [digest, bytes, decodeHash, token.isHash.1]

@[simp] theorem decodeHash_text (token : HashToken) :
    decodeHash token.text = some token.digest := by
  rw [digest, Option.some_get]

end HashToken

theorem decodeHash_eq_some {text : String} {digest : HashDigest} :
    decodeHash text = some digest ↔
      ∃ token : HashToken, text = token.text ∧ digest = token.digest := by
  constructor
  · intro decoded
    refine ⟨⟨text, (decodeHash_isSome text).mp (by rw [decoded]; rfl)⟩, rfl, ?_⟩
    simp [HashToken.digest, decoded]
  · rintro ⟨token, rfl, rfl⟩
    exact token.decodeHash_text

/-! ## The cursor -/

/-- The model of a request and the segments that are left. -/
abbrev Reading := Except Fault (Request × List String)

def fail {α : Type} (code : Code) : Except Fault α := .error (.code code)

/-- A segment is left, or the code is returned. -/
def present (code : Code) (rest : List String) : Except Fault Unit :=
  if rest = [] then fail code else .ok ()

/-- `segments[segment++]`, with the segments that are left. -/
def next : List String → Except Fault (String × List String)
  | [] => .error .outOfRange
  | segment :: rest => .ok (segment, rest)

def readHash (segment : String) : Except Fault HashDigest :=
  match decodeHash segment with
  | some digest => .ok digest
  | none => fail .invalidHash

def readNumber (width : Nat) (segment : String) : Except Fault (BitVec width) :=
  match toNumber width segment with
  | some value => .ok value
  | none => fail .invalidNumber

/-- What a list of choices has for the segment. -/
def choose {α : Type} (choices : List (String × α)) (code : Code) (segment : String) :
    Except Fault α :=
  match choices.lookup segment with
  | some choice => .ok choice
  | none => fail code

/-- A method of its own, or the one of a further segment. -/
def readPart (own : String) (choices : List (String × String)) (code : Code)
    (params : Params) (rest : List String) : Reading :=
  if rest = [] then return ({ method := own, params }, rest)
  else do
    let (segment, rest) ← next rest
    let method ← choose choices code segment
    return ({ method, params }, rest)

/-- No segment may be left. -/
def finish : Request × List String → Except Fault Request
  | (request, rest) => if rest = [] then .ok request else fail .extraSegment

section Reads

variable {α β : Type} {rest left : List String} {segment method : String} {code : Code}

theorem bind_eq_ok {first : Except Fault α} {then_ : α → Except Fault β} {result : β} :
    first >>= then_ = .ok result ↔ ∃ value, first = .ok value ∧ then_ value = .ok result := by
  cases first with
  | error fault => simp [bind, Except.bind]
  | ok value => simp [bind, Except.bind]

@[simp] theorem pure_eq_ok {value result : α} :
    (pure value : Except Fault α) = .ok result ↔ result = value := by
  simp [pure, Except.pure, eq_comm]

@[simp] theorem fail_ne_ok {result : α} : fail code ≠ .ok result := by
  simp [fail]

@[simp] theorem present_eq_ok {done : Unit} : present code rest = .ok done ↔ rest ≠ [] := by
  unfold present
  split_ifs with none <;> simp [none, fail]

@[simp] theorem next_eq_ok : next rest = .ok (segment, left) ↔ rest = segment :: left := by
  cases rest <;> simp [next]

@[simp] theorem readHash_eq_ok {digest : HashDigest} :
    readHash segment = .ok digest ↔
      ∃ token : HashToken, segment = token.text ∧ digest = token.digest := by
  rw [← decodeHash_eq_some, readHash]
  cases decodeHash segment <;> simp

@[simp] theorem readNumber_eq_ok {width : Nat} {value : BitVec width} :
    readNumber width segment = .ok value ↔ segment = numeral value := by
  rw [← toNumber_eq_some, readNumber]
  cases toNumber width segment <;> simp

theorem lookup_eq_some {choices : List (String × α)} {chosen : α}
    (distinct : (choices.map Prod.fst).Nodup) :
    choices.lookup segment = some chosen ↔ (segment, chosen) ∈ choices := by
  induction choices with
  | nil => simp
  | cons choice choices ih =>
      obtain ⟨name, value⟩ := choice
      obtain ⟨fresh, others⟩ := List.nodup_cons.mp distinct
      rw [List.lookup_cons, List.mem_cons, Prod.mk.injEq]
      by_cases same : segment = name
      · subst same
        have later : (segment, chosen) ∉ choices := by
          intro member
          exact fresh (List.mem_map.mpr ⟨(segment, chosen), member, rfl⟩)
        simp [later, eq_comm]
      · simp [beq_false_of_ne same, same, ih others]

@[simp] theorem choose_eq_ok {choices : List (String × α)} {chosen : α} :
    choose choices code segment = .ok chosen ↔ choices.lookup segment = some chosen := by
  unfold choose
  cases choices.lookup segment <;> simp

/-- The parts of a form are the choices. -/
theorem listed_of_map {Part : Type} {name : Part → String} {made : Part → α}
    {choices : List (String × α)} (every : List Part) (complete : ∀ part, part ∈ every)
    (table : choices = every.map fun part => (name part, made part)) (choice : String × α) :
    choice ∈ choices ↔ ∃ part, choice = (name part, made part) := by
  rw [table, List.mem_map]
  constructor
  · rintro ⟨part, _, rfl⟩
    exact ⟨part, rfl⟩
  · rintro ⟨part, rfl⟩
    exact ⟨part, complete part, rfl⟩

theorem choose_iff {Part : Type} {name : Part → String} {made : Part → α}
    {choices : List (String × α)} {chosen : α} (distinct : (choices.map Prod.fst).Nodup)
    (listed : ∀ choice, choice ∈ choices ↔ ∃ part, choice = (name part, made part)) :
    choose choices code segment = .ok chosen ↔
      ∃ part, segment = name part ∧ chosen = made part := by
  rw [choose_eq_ok, lookup_eq_some distinct, listed]
  simp only [Prod.mk.injEq]

/-- One of the parts is read, or none. -/
theorem readPart_iff {Part : Type} {name methodOf : Part → String} {own : String}
    {choices : List (String × String)} {params : Params} {request : Request}
    (distinct : (choices.map Prod.fst).Nodup)
    (listed : ∀ choice, choice ∈ choices ↔ ∃ part, choice = (name part, methodOf part)) :
    readPart own choices code params rest = .ok (request, []) ↔
      ∃ part : Option Part, rest = (part.map name).toList ∧
        request = { method := part.elim own methodOf, params } := by
  unfold readPart
  rw [Option.exists]
  split_ifs with none
  · simp [none]
  · simp only [bind_eq_ok, Prod.exists, next_eq_ok, choose_iff distinct listed, pure_eq_ok,
      Prod.mk.injEq]
    constructor
    · rintro ⟨_, _, rfl, _, ⟨part, rfl, rfl⟩, rfl, rfl⟩
      exact .inr ⟨part, rfl, rfl⟩
    · rintro (⟨empty, _⟩ | ⟨part, rfl, rfl⟩)
      · exact absurd empty none
      · exact ⟨_, [], rfl, _, ⟨part, rfl, rfl⟩, rfl, rfl⟩

@[simp] theorem finish_eq_ok {reading : Request × List String} {request : Request} :
    finish reading = .ok request ↔ reading = (request, []) := by
  obtain ⟨read, rest⟩ := reading
  rw [finish, Prod.mk.injEq]
  split_ifs with none <;> simp [none]

/-- The reading does not go past the end. -/
def Inside (reading : Except Fault α) : Prop := reading ≠ .error .outOfRange

theorem Inside.bind {first : Except Fault α} {then_ : α → Except Fault β} (one : Inside first)
    (two : ∀ value, first = .ok value → Inside (then_ value)) : Inside (first >>= then_) := by
  cases first with
  | error fault => simpa [Inside, Bind.bind, Except.bind] using one
  | ok value => exact two value rfl

@[simp] theorem inside_pure (value : α) : Inside (pure value : Except Fault α) := by
  simp [Inside, pure, Except.pure]

@[simp] theorem inside_fail (code : Code) : Inside (fail code : Except Fault α) := by
  simp [Inside, fail]

/-- A reading after which a value is made of what was read. -/
theorem Inside.then_pure {first : Except Fault α} (one : Inside first) (make : α → β) :
    Inside (first >>= fun value => pure (make value)) := by
  apply one.bind
  intro value _
  exact inside_pure _

theorem inside_present (code : Code) (rest : List String) : Inside (present code rest) := by
  unfold present
  split_ifs
  · exact inside_fail code
  · exact inside_pure ()

theorem inside_next (left : rest ≠ []) : Inside (next rest) := by
  cases rest with
  | nil => exact absurd rfl left
  | cons segment rest => exact inside_pure (segment, rest)

theorem inside_readHash (segment : String) : Inside (readHash segment) := by
  unfold readHash
  cases decodeHash segment with
  | none => exact inside_fail _
  | some digest => exact inside_pure digest

theorem inside_readNumber (width : Nat) (segment : String) :
    Inside (readNumber width segment) := by
  unfold readNumber
  cases toNumber width segment with
  | none => exact inside_fail _
  | some value => exact inside_pure value

theorem inside_choose (choices : List (String × α)) (code : Code) (segment : String) :
    Inside (choose choices code segment) := by
  unfold choose
  cases choices.lookup segment with
  | none => exact inside_fail code
  | some method => exact inside_pure method

/-- A segment is read where one was found present. -/
theorem Inside.present_next {then_ : String × List String → Except Fault β}
    (two : ∀ segment left, rest = segment :: left → Inside (then_ (segment, left))) :
    Inside (present code rest >>= fun _ => next rest >>= then_) := by
  apply (inside_present code rest).bind
  intro _ left
  apply (inside_next (present_eq_ok.mp left)).bind
  rintro ⟨segment, left⟩ read
  exact two segment left (next_eq_ok.mp read)

theorem inside_readPart (own : String) (choices : List (String × String)) (code : Code)
    (params : Params) (rest : List String) : Inside (readPart own choices code params rest) := by
  unfold readPart
  split_ifs with none
  · exact inside_pure _
  · apply (inside_next none).bind
    intro read _
    apply (inside_choose _ _ _).bind
    intro method _
    exact inside_pure _

theorem inside_finish (reading : Request × List String) : Inside (finish reading) := by
  obtain ⟨request, rest⟩ := reading
  rw [finish]
  split_ifs
  · exact inside_pure request
  · exact inside_fail _

end Reads

end LibbitcoinServer.Parsers

import LibbitcoinServer.Utilities.PolyMod
import Mathlib.Tactic

/-! # The checksum of a descriptor

A character is two numbers: its place in a group of 32, sent to the generator at once, and
the group, sent for three characters together.  A descriptor with its checksum is a code
word, and descriptors that differ within eight symbols have different checksums.
-/

namespace LibbitcoinServer.Utilities

/-! ## The code -/

/-- Grouped so that common case and keypath errors cost a single symbol. -/
def inputCharset : List Char :=
  ("0123456789()[],'/*abcdefgh@:$%\x7b\x7d" ++
    "IJKLMNOPQRSTUVWXYZ&+-.;<=>?!^_|~" ++
    "ijklmnopqrstuvwxyzABCDEFGH`#\"\\ ").toList

def checksumCharset : List Char := "qpzry9x8gf2tvdw0s3jn54khce6mua7l".toList

/-- The variables of the loop over the characters. -/
structure Feed where
  check : BitVec 64
  group : BitVec 64
  grouped : Nat

/-- A symbol for the position in the group of each character, and one for the group
    numbers of each three characters. -/
def Feed.character (feed : Feed) (position : Nat) : Feed :=
  let check := polyMod feed.check (BitVec.ofNat 64 position &&& 31#64)
  let group := 3#64 * feed.group + BitVec.ofNat 64 position >>> 5
  if feed.grouped + 1 = 3 then ⟨polyMod check group, 0#64, 0⟩
  else ⟨check, group, feed.grouped + 1⟩

/-- The loop, left at the first character that is not of the set. -/
def Feed.characters : Feed → List Char → Option Feed
  | feed, [] => some feed
  | feed, character :: rest =>
      match inputCharset.idxOf? character with
      | none => none
      | some position => (feed.character position).characters rest

def Feed.flush (feed : Feed) : BitVec 64 :=
  if feed.grouped ≠ 0 then polyMod feed.check feed.group else feed.check

/-- The checksum shifted out, so that appended zeroes affect it. -/
def remainder (check : BitVec 64) : BitVec 64 :=
  (List.replicate 8 0#64).foldl polyMod check ^^^ 1#64

def descriptorChecksum (descriptor : String) : String :=
  match Feed.characters ⟨1#64, 0#64, 0⟩ descriptor.toList with
  | none => ""
  | some feed =>
      String.ofList ((digits (remainder feed.flush)).map fun digit =>
        checksumCharset.getD digit.toNat ' ')

/-! ## The symbols of a text -/

/-- The symbols of the positions of a text: the place of each, and the group numbers of
    every three and of those left over, in base three. -/
def expand : List Nat → List Nat
  | first :: second :: third :: rest =>
      first % 32 :: second % 32 :: third % 32 ::
        ((first / 32 * 3 + second / 32) * 3 + third / 32) :: expand rest
  | [first, second] => [first % 32, second % 32, first / 32 * 3 + second / 32]
  | [first] => [first % 32, first / 32]
  | [] => []

def positions (descriptor : String) : List Nat :=
  descriptor.toList.map fun character => inputCharset.idxOf character

def symbols (descriptor : String) : List (BitVec 64) :=
  (expand (positions descriptor)).map (BitVec.ofNat 64)

/-- Every character is of the input set. -/
def Encodable (descriptor : String) : Prop :=
  ∀ character ∈ descriptor.toList, character ∈ inputCharset

instance (descriptor : String) : Decidable (Encodable descriptor) :=
  decidable_of_iff (descriptor.toList.all fun character => character ∈ inputCharset)
    (by simp [Encodable])

theorem inputCharset_length : inputCharset.length = 95 := rfl

theorem positions_lt {descriptor : String} (encodable : Encodable descriptor) :
    ∀ position ∈ positions descriptor, position < 96 := by
  intro position member
  obtain ⟨character, listed, rfl⟩ := List.mem_map.mp member
  have bound := List.idxOf_lt_length_of_mem (encodable character listed)
  rw [inputCharset_length] at bound
  omega

theorem expand_lt {numbers : List Nat} (bounds : ∀ number ∈ numbers, number < 96) :
    ∀ symbol ∈ expand numbers, symbol < 2 ^ 5 := by
  fun_induction expand numbers with
  | case1 first second third rest ih =>
      simp only [List.forall_mem_cons] at bounds ⊢
      exact ⟨by omega, by omega, by omega, by omega, ih bounds.2.2.2⟩
  | case2 first second =>
      simp only [List.forall_mem_cons] at bounds ⊢
      exact ⟨by omega, by omega, by omega, by simp⟩
  | case3 first =>
      simp only [List.forall_mem_cons] at bounds ⊢
      exact ⟨by omega, by omega, by simp⟩
  | case4 => simp

theorem sent_symbols {descriptor : String} (encodable : Encodable descriptor) :
    ∀ symbol ∈ symbols descriptor, Sent symbol := by
  intro symbol member
  obtain ⟨number, listed, rfl⟩ := List.mem_map.mp member
  have bound := expand_lt (positions_lt encodable) number listed
  unfold Sent
  rw [BitVec.toNat_ofNat]
  omega

/-! ## What the loop feeds -/

theorem place_eq (position : Nat) :
    BitVec.ofNat 64 position &&& 31#64 = BitVec.ofNat 64 (position % 32) := by
  apply BitVec.eq_of_toNat_eq
  rw [toNat_and_31, BitVec.toNat_ofNat, BitVec.toNat_ofNat]
  omega

theorem group_eq (group : Nat) {position : Nat} (bound : position < 96) :
    3#64 * BitVec.ofNat 64 group + BitVec.ofNat 64 position >>> 5 =
      BitVec.ofNat 64 (group * 3 + position / 32) := by
  apply BitVec.eq_of_toNat_eq
  simp only [BitVec.toNat_add, BitVec.toNat_mul, BitVec.toNat_ofNat, BitVec.toNat_ushiftRight,
    Nat.shiftRight_eq_div_pow]
  omega

/-- The loop and the flush after it feed the symbols of the positions. -/
theorem flush_foldl (check : BitVec 64) {numbers : List Nat}
    (bounds : ∀ number ∈ numbers, number < 96) :
    (numbers.foldl Feed.character ⟨check, 0#64, 0⟩).flush =
      ((expand numbers).map (BitVec.ofNat 64)).foldl polyMod check := by
  have opened : ∀ number < 96, 3#64 * 0#64 + BitVec.ofNat 64 number >>> 5 =
      BitVec.ofNat 64 (number / 32) := by
    intro number bound
    have group := group_eq 0 bound
    rwa [Nat.zero_mul, Nat.zero_add] at group
  fun_induction expand numbers generalizing check with
  | case1 first second third rest ih =>
      simp only [List.forall_mem_cons] at bounds
      have two := group_eq (first / 32) bounds.2.1
      have three := group_eq (first / 32 * 3 + second / 32) bounds.2.2.1
      simp only [List.foldl_cons, List.map_cons, ← ih _ bounds.2.2.2]
      simp only [Feed.character, place_eq, opened first bounds.1, two, three, Nat.reduceAdd,
        Nat.reduceEqDiff, if_false, if_true]
  | case2 first second =>
      simp only [List.forall_mem_cons] at bounds
      have two := group_eq (first / 32) bounds.2.1
      simp only [List.foldl_cons, List.foldl_nil, List.map_cons, List.map_nil]
      simp only [Feed.character, Feed.flush, place_eq, opened first bounds.1, two, Nat.reduceAdd,
        Nat.reduceEqDiff, if_false, if_true, ne_eq, not_false_eq_true]
  | case3 first =>
      simp only [List.forall_mem_cons] at bounds
      simp only [List.foldl_cons, List.foldl_nil, List.map_cons, List.map_nil]
      simp only [Feed.character, Feed.flush, place_eq, opened first bounds.1, Nat.reduceAdd,
        Nat.reduceEqDiff, if_false, if_true, ne_eq, not_false_eq_true]
  | case4 => rfl

theorem characters_eq_some {feed : Feed} {characters : List Char}
    (all : ∀ character ∈ characters, character ∈ inputCharset) :
    feed.characters characters =
      some ((characters.map fun character => inputCharset.idxOf character).foldl
        Feed.character feed) := by
  induction characters generalizing feed with
  | nil => rfl
  | cons character rest ih =>
      rw [List.forall_mem_cons] at all
      obtain ⟨position, found⟩ := Option.isSome_iff_exists.mp (List.isSome_idxOf?.mpr all.1)
      have place : inputCharset.idxOf character = position := by
        rw [List.idxOf_eq_getD_idxOf?, found, Option.getD_some]
      simp only [Feed.characters, found, List.map_cons, List.foldl_cons, place]
      exact ih all.2

theorem characters_eq_none {feed : Feed} {characters : List Char} :
    feed.characters characters = none ↔ ∃ character ∈ characters, character ∉ inputCharset := by
  induction characters generalizing feed with
  | nil => simp [Feed.characters]
  | cons character rest ih =>
      rw [List.exists_mem_cons_iff, Feed.characters]
      cases found : inputCharset.idxOf? character with
      | none => simp [List.idxOf?_eq_none_iff.mp found]
      | some position =>
          have member : character ∈ inputCharset := by
            by_contra absent
            rw [List.idxOf?_eq_none_iff.mpr absent] at found
            cases found
          simp [member, ih]

/-- The state after a descriptor's symbols. -/
def checked (descriptor : String) : BitVec 64 := (symbols descriptor).foldl polyMod 1#64

theorem held_foldl {start : BitVec 64} {values : List (BitVec 64)} (held : Held start)
    (all : ∀ value ∈ values, Sent value) : Held (values.foldl polyMod start) :=
  Register.foldl_valid held_polyMod held all

theorem held_one : Held 1#64 := Nat.one_lt_two_pow (by decide)

theorem sent_zeroes : ∀ value ∈ List.replicate 8 0#64, Sent value := by
  intro value member
  rw [(List.mem_replicate.mp member).2]
  exact Nat.two_pow_pos 5

theorem held_remainder {check : BitVec 64} (held : Held check) : Held (remainder check) :=
  (held_foldl held sent_zeroes).xor held_one

theorem descriptorChecksum_of_encodable {descriptor : String} (encodable : Encodable descriptor) :
    descriptorChecksum descriptor =
      String.ofList ((digits (remainder (checked descriptor))).map fun digit =>
        checksumCharset.getD digit.toNat ' ') := by
  unfold descriptorChecksum
  rw [characters_eq_some encodable]
  have fed := flush_foldl 1#64 (positions_lt encodable)
  exact congrArg (fun check => String.ofList ((digits (remainder check)).map fun digit =>
    checksumCharset.getD digit.toNat ' ')) fed

/-! ## A code word -/

/-- The numbers that the characters of a checksum stand for. -/
def checksumDigits (checksum : String) : List (BitVec 64) :=
  checksum.toList.map fun character => BitVec.ofNat 64 (checksumCharset.idxOf character)

theorem checksumCharset_nodup : checksumCharset.Nodup := by decide

theorem idxOf_getD {digit : BitVec 64} (sent : Sent digit) :
    BitVec.ofNat 64 (checksumCharset.idxOf (checksumCharset.getD digit.toNat ' ')) = digit := by
  have bound : digit.toNat < checksumCharset.length := sent
  have listed : checksumCharset.getD digit.toNat ' ' = checksumCharset[digit.toNat] := by
    rw [List.getD_eq_getElem?_getD, List.getElem?_eq_getElem bound, Option.getD_some]
  rw [listed, List.Nodup.idxOf_getElem checksumCharset_nodup, BitVec.ofNat_toNat,
    BitVec.setWidth_eq]

theorem checksumDigits_eq {descriptor : String} (encodable : Encodable descriptor) :
    checksumDigits (descriptorChecksum descriptor) = digits (remainder (checked descriptor)) := by
  unfold checksumDigits
  rw [descriptorChecksum_of_encodable encodable, String.toList_ofList, List.map_map]
  have same : ∀ digit ∈ digits (remainder (checked descriptor)),
      ((fun character => BitVec.ofNat 64 (checksumCharset.idxOf character)) ∘ fun digit =>
        checksumCharset.getD digit.toNat ' ') digit = digit := by
    intro digit member
    exact idxOf_getD (sent_digits _ digit member)
  rw [List.map_congr_left same, List.map_id']

/-- The digits of a checksum cancel the state that the symbols leave. -/
theorem foldl_remainder {check : BitVec 64} (held : Held check) :
    (digits (remainder check)).foldl polyMod check = 1#64 := by
  have shifted := Register.foldl_superposed polyMod_xor check 0#64
    (show (List.replicate 8 0#64).length = (digits (remainder check)).length by simp [digits])
  have symbols : List.zipWith (· ^^^ ·) (List.replicate 8 0#64) (digits (remainder check)) =
      digits (remainder check) := by
    unfold digits
    simp [List.range_succ]
  rw [symbols, BitVec.xor_zero, foldl_digits (held_remainder held)] at shifted
  rw [shifted, remainder, ← BitVec.xor_assoc, BitVec.xor_self, BitVec.zero_xor]

/-- No state that the generator passes through, with the zeroes or with the checksum after
    the symbols, has more than forty bits. -/
theorem held_of_prefix {values fed : List (BitVec 64)} (all : ∀ value ∈ values, Sent value)
    (part : fed <+: values) : (fed.foldl polyMod 1#64).toNat < 2 ^ 40 :=
  held_foldl held_one fun value member => all value (part.subset member)

theorem descriptorChecksum_eq_empty (descriptor : String) :
    descriptorChecksum descriptor = "" ↔
      ∃ character ∈ descriptor.toList, character ∉ inputCharset := by
  rw [← characters_eq_none]
  unfold descriptorChecksum
  cases Feed.characters ⟨1#64, 0#64, 0⟩ descriptor.toList with
  | none => simp
  | some feed => simp [digits, List.range_succ]

/-- A descriptor and its checksum are a code word, within forty bits throughout, and there
    is no checksum exactly where a character is not of the set. -/
theorem descriptorChecksum_code_word (descriptor : String) :
    (Encodable descriptor →
      (symbols descriptor ++ checksumDigits (descriptorChecksum descriptor)).foldl polyMod 1#64 =
          1#64 ∧
        (descriptorChecksum descriptor).length = 8 ∧
        (∀ fed, fed <+: symbols descriptor ++ checksumDigits (descriptorChecksum descriptor) →
          (fed.foldl polyMod 1#64).toNat < 2 ^ 40) ∧
        ∀ fed, fed <+: symbols descriptor ++ List.replicate 8 0#64 →
          (fed.foldl polyMod 1#64).toNat < 2 ^ 40) ∧
    (descriptorChecksum descriptor = "" ↔
      ∃ character ∈ descriptor.toList, character ∉ inputCharset) := by
  constructor
  · intro encodable
    have sent := sent_symbols encodable
    have held : Held (checked descriptor) := held_foldl held_one sent
    rw [checksumDigits_eq encodable]
    refine ⟨?_, ?_, ?_, ?_⟩
    · rw [List.foldl_append]
      exact foldl_remainder held
    · rw [descriptorChecksum_of_encodable encodable]
      simp [digits]
    · intro fed part
      exact held_of_prefix (List.forall_mem_append.mpr ⟨sent, sent_digits _⟩) part
    · intro fed part
      exact held_of_prefix (List.forall_mem_append.mpr ⟨sent, sent_zeroes⟩) part
  · exact descriptorChecksum_eq_empty descriptor

theorem descriptorChecksum_code_word_raw :
    (symbols "raw(6a)" ++ checksumDigits (descriptorChecksum "raw(6a)")).foldl polyMod 1#64 =
        1#64 ∧
      (descriptorChecksum "raw(6a)").length = 8 ∧
      (∀ fed, fed <+: symbols "raw(6a)" ++ checksumDigits (descriptorChecksum "raw(6a)") →
        (fed.foldl polyMod 1#64).toNat < 2 ^ 40) ∧
      ∀ fed, fed <+: symbols "raw(6a)" ++ List.replicate 8 0#64 →
        (fed.foldl polyMod 1#64).toNat < 2 ^ 40 :=
  (descriptorChecksum_code_word "raw(6a)").1 (by decide +kernel)

example : descriptorChecksum "raw(\x01)" = "" := by decide +kernel

/-! ## Errors within eight symbols -/

theorem length_expand (numbers : List Nat) :
    (expand numbers).length = numbers.length + (numbers.length + 2) / 3 := by
  fun_induction expand numbers with
  | case1 first second third rest ih =>
      simp only [List.length_cons, ih]
      omega
  | case2 first second => simp
  | case3 first => simp
  | case4 => rfl

/-- The symbols of a text give its positions back. -/
theorem expand_injective {one two : List Nat} (length : one.length = two.length)
    (first : ∀ number ∈ one, number < 96) (second : ∀ number ∈ two, number < 96)
    (same : expand one = expand two) : one = two := by
  fun_induction expand one generalizing two with
  | case1 a b c rest ih =>
      obtain ⟨x, two, rfl⟩ := List.exists_cons_of_length_eq_add_one length.symm
      obtain ⟨y, two, rfl⟩ := List.exists_cons_of_length_eq_add_one (Nat.succ.inj length).symm
      obtain ⟨z, two, rfl⟩ :=
        List.exists_cons_of_length_eq_add_one (Nat.succ.inj (Nat.succ.inj length)).symm
      simp only [List.forall_mem_cons, List.length_cons, Nat.add_right_cancel_iff, expand,
        List.cons.injEq] at first second length same
      rw [ih length first.2.2.2 second.2.2.2 same.2.2.2.2]
      simp only [List.cons.injEq, and_true]
      omega
  | case2 a b =>
      obtain ⟨x, y, rfl⟩ := List.length_eq_two.mp length.symm
      simp only [List.forall_mem_cons, expand, List.cons.injEq, and_true] at first second same ⊢
      omega
  | case3 a =>
      obtain ⟨x, rfl⟩ := List.length_eq_one_iff.mp length.symm
      simp only [List.forall_mem_cons, expand, List.cons.injEq, and_true] at first second same ⊢
      omega
  | case4 => exact (List.length_eq_zero_iff.mp length.symm).symm

/-- Three characters are four symbols. -/
theorem take_expand (numbers : List Nat) (count : Nat) :
    (expand numbers).take (4 * count) = expand (numbers.take (3 * count)) := by
  fun_induction expand numbers generalizing count with
  | case1 a b c rest ih =>
      cases count with
      | zero => rfl
      | succ count => simpa [Nat.mul_succ, expand] using ih count
  | case2 a b =>
      cases count with
      | zero => rfl
      | succ count => simp [Nat.mul_succ, expand]
  | case3 a =>
      cases count with
      | zero => rfl
      | succ count => simp [Nat.mul_succ, expand]
  | case4 => simp [expand]

theorem drop_expand (numbers : List Nat) (count : Nat) :
    (expand numbers).drop (4 * count) = expand (numbers.drop (3 * count)) := by
  fun_induction expand numbers generalizing count with
  | case1 a b c rest ih =>
      cases count with
      | zero => rfl
      | succ count => simpa [Nat.mul_succ] using ih count
  | case2 a b =>
      cases count with
      | zero => rfl
      | succ count => simp [Nat.mul_succ, expand]
  | case3 a =>
      cases count with
      | zero => rfl
      | succ count => simp [Nat.mul_succ, expand]
  | case4 => simp [expand]

theorem toNat_symbols {descriptor : String} (encodable : Encodable descriptor) :
    (symbols descriptor).map BitVec.toNat = expand (positions descriptor) := by
  have same : ∀ number ∈ expand (positions descriptor),
      (BitVec.toNat ∘ BitVec.ofNat 64) number = number := by
    intro number member
    have bound := expand_lt (positions_lt encodable) number member
    rw [Function.comp_apply, BitVec.toNat_ofNat]
    omega
  rw [symbols, List.map_map, List.map_congr_left same, List.map_id']

theorem characters_of_positions {descriptor : String} (encodable : Encodable descriptor) :
    (positions descriptor).map (fun position => inputCharset.getD position ' ') =
      descriptor.toList := by
  have same : ∀ character ∈ descriptor.toList,
      ((fun position => inputCharset.getD position ' ') ∘ fun character =>
        inputCharset.idxOf character) character = character := by
    intro character member
    have bound := List.idxOf_lt_length_of_mem (encodable character member)
    rw [Function.comp_apply, List.getD_eq_getElem?_getD, List.getElem?_eq_getElem bound,
      Option.getD_some, List.getElem_idxOf]
  rw [positions, List.map_map, List.map_congr_left same, List.map_id']

/-- The symbols of a text give its positions, and so the text, back. -/
theorem symbols_injective {first second : String} (one : Encodable first) (two : Encodable second)
    (length : first.toList.length = second.toList.length)
    (same : symbols first = symbols second) : first = second := by
  have numbers : positions first = positions second := by
    apply expand_injective _ (positions_lt one) (positions_lt two)
    · rw [← toNat_symbols one, same, toNat_symbols two]
    · simpa [positions] using length
  apply String.toList_injective
  rw [← characters_of_positions one, numbers, characters_of_positions two]

/-- Two streams agree before some place and from the eighth symbol after it. -/
def WithinEight (one two : List (BitVec 64)) : Prop :=
  ∃ start, ∀ index, index < start ∨ start + 8 ≤ index → one[index]? = two[index]?

theorem WithinEight.windows {one two : List (BitVec 64)} (within : WithinEight one two)
    (length : one.length = two.length) :
    ∃ before first second after, one = before ++ first ++ after ∧
      two = before ++ second ++ after ∧ first.length = second.length ∧ first.length ≤ 8 := by
  obtain ⟨start, agree⟩ := within
  have before : one.take start = two.take start := by
    apply List.ext_getElem?
    intro index
    rw [List.getElem?_take, List.getElem?_take]
    split_ifs with below
    · exact agree index (.inl below)
    · rfl
  have after : one.drop (start + 8) = two.drop (start + 8) := by
    apply List.ext_getElem?
    intro index
    rw [List.getElem?_drop, List.getElem?_drop]
    exact agree _ (.inr (Nat.le_add_right _ _))
  refine ⟨one.take start, (one.drop start).take 8, (two.drop start).take 8,
    one.drop (start + 8), ?_, ?_, ?_, ?_⟩
  · rw [← List.drop_drop, List.append_assoc, List.take_append_drop, List.take_append_drop]
  · rw [before, after, ← List.drop_drop, List.append_assoc, List.take_append_drop,
      List.take_append_drop]
  · simp [length]
  · simp

theorem eq_of_zipWith_zero {first second : List (BitVec 64)}
    (length : first.length = second.length)
    (zero : ∀ value ∈ List.zipWith (· ^^^ ·) first second, value = 0#64) : first = second := by
  induction first generalizing second with
  | nil => exact (List.length_eq_zero_iff.mp length.symm).symm
  | cons value first ih =>
      cases second with
      | nil => cases length
      | cons other second =>
          simp only [List.zipWith_cons_cons, List.forall_mem_cons] at zero
          rw [BitVec.xor_eq_zero_iff.mp zero.1, ih (Nat.succ.inj length) zero.2]

/-- Where the checksums agree, the symbols left the same state. -/
theorem checked_of_checksum {first second : String} (one : Encodable first)
    (two : Encodable second) (same : descriptorChecksum first = descriptorChecksum second) :
    checked first = checked second := by
  have held : Held (checked first) := held_foldl held_one (sent_symbols one)
  have other : Held (checked second) := held_foldl held_one (sent_symbols two)
  have remainders : remainder (checked first) = remainder (checked second) := by
    rw [← foldl_digits (held_remainder held), ← checksumDigits_eq one, same,
      checksumDigits_eq two, foldl_digits (held_remainder other)]
  apply Register.foldl_injective held_polyMod polyMod_injective held other sent_zeroes
  have cancelled := congrArg (· ^^^ 1#64) remainders
  simpa [remainder, BitVec.xor_assoc] using cancelled

theorem symbols_of_within {first second : String} (one : Encodable first) (two : Encodable second)
    (length : first.toList.length = second.toList.length)
    (within : WithinEight (symbols first) (symbols second))
    (same : descriptorChecksum first = descriptorChecksum second) :
    symbols first = symbols second := by
  have lengths : (symbols first).length = (symbols second).length := by
    simp [symbols, positions, length_expand, length]
  obtain ⟨before, left, right, after, left_eq, right_eq, window, short⟩ := within.windows lengths
  have sent := sent_symbols one
  have other := sent_symbols two
  have state := checked_of_checksum one two same
  unfold checked at state
  rw [left_eq] at sent state
  rw [right_eq] at other state
  have zero := Register.window_of_same polyMod_xor held_polyMod polyMod_injective
    (fun _ => BitVec.xor_self) held_one window sent other state
  simp only [List.forall_mem_append] at sent other
  have sums : ∀ value ∈ List.zipWith (· ^^^ ·) left right, Sent value := by
    intro value member
    obtain ⟨index, bound, rfl⟩ := List.getElem_of_mem member
    rw [List.getElem_zipWith]
    exact (sent.1.2 _ (List.getElem_mem _)).xor (other.1.2 _ (List.getElem_mem _))
  have equal := eq_of_zipWith_zero window (zero_of_foldl (by simp; omega) sums zero)
  rw [left_eq, right_eq, equal]

/-- An edit of at most two characters in place is within eight symbols: it touches two
    groups of three at the most. -/
theorem within_of_edit (before middle other after : List Char)
    (length : middle.length = other.length) (short : middle.length ≤ 2) :
    WithinEight (symbols (String.ofList (before ++ middle ++ after)))
      (symbols (String.ofList (before ++ other ++ after))) := by
  have split : ∀ characters count, (symbols (String.ofList characters)).take (4 * count) =
        symbols (String.ofList (characters.take (3 * count))) ∧
      (symbols (String.ofList characters)).drop (4 * count) =
        symbols (String.ofList (characters.drop (3 * count))) := by
    intro characters count
    unfold symbols positions
    simp only [← List.map_take, ← List.map_drop, take_expand, drop_expand, String.toList_ofList,
      and_self]
  have taken : (before ++ middle ++ after).take (3 * (before.length / 3)) =
      (before ++ other ++ after).take (3 * (before.length / 3)) := by
    have short := Nat.mul_div_le before.length 3
    simp only [List.append_assoc, List.take_append_of_le_length short]
  have dropped : (before ++ middle ++ after).drop (3 * (before.length / 3 + 2)) =
      (before ++ other ++ after).drop (3 * (before.length / 3 + 2)) := by
    have skipped : ∀ edited : List Char, edited.length = middle.length →
        (before ++ edited ++ after).drop (3 * (before.length / 3 + 2)) =
          after.drop (3 * (before.length / 3 + 2) - (before.length + middle.length)) := by
      intro edited same
      have long : (before ++ edited).length ≤ 3 * (before.length / 3 + 2) := by
        rw [List.length_append]
        omega
      rw [List.drop_append, List.drop_eq_nil_of_le long, List.nil_append, List.length_append, same]
    rw [skipped middle rfl, skipped other length.symm]
  refine ⟨4 * (before.length / 3), ?_⟩
  intro index outside
  cases outside with
  | inl earlier =>
      have start := (split (before ++ middle ++ after) (before.length / 3)).1
      rw [taken, ← (split (before ++ other ++ after) (before.length / 3)).1] at start
      rw [← List.getElem?_take_of_lt earlier, start, List.getElem?_take_of_lt earlier]
  | inr later =>
      have rest := (split (before ++ middle ++ after) (before.length / 3 + 2)).2
      rw [dropped, ← (split (before ++ other ++ after) (before.length / 3 + 2)).2] at rest
      have here : index = 4 * (before.length / 3 + 2) + (index - 4 * (before.length / 3 + 2)) := by
        omega
      rw [here, ← List.getElem?_drop, rest, List.getElem?_drop]

theorem checksum_ne_of_within {first second : String} (one : Encodable first)
    (two : Encodable second) (length : first.toList.length = second.toList.length)
    (distinct : first ≠ second) (within : WithinEight (symbols first) (symbols second)) :
    descriptorChecksum first ≠ descriptorChecksum second := by
  intro same
  exact distinct (symbols_injective one two length (symbols_of_within one two length within same))

/-- Where the edit leaves the set there is no checksum any more. -/
theorem checksum_ne_of_edit {before middle other after : List Char}
    (length : middle.length = other.length) (short : middle.length ≤ 2)
    (distinct : middle ≠ other)
    (encodable : Encodable (String.ofList (before ++ middle ++ after))) :
    descriptorChecksum (String.ofList (before ++ middle ++ after)) ≠
      descriptorChecksum (String.ofList (before ++ other ++ after)) := by
  by_cases also : Encodable (String.ofList (before ++ other ++ after))
  · apply checksum_ne_of_within encodable also
    · simp [length]
    · intro same
      apply distinct
      simpa using String.ofList_injective same
    · exact within_of_edit before middle other after length short
  · intro same
    have empty : descriptorChecksum (String.ofList (before ++ other ++ after)) = "" := by
      rw [descriptorChecksum_eq_empty]
      simpa only [Encodable, not_forall, exists_prop] using also
    rw [empty, descriptorChecksum_eq_empty] at same
    obtain ⟨character, member, outside⟩ := same
    exact outside (encodable character member)

/-- Errors within eight symbols change the checksum, and with them any one character
    replaced and any two neighbours transposed, at any place of a text of any length. -/
theorem descriptorChecksum_detects_local_errors :
    (∀ first second : String, Encodable first → Encodable second →
      first.toList.length = second.toList.length → first ≠ second →
      WithinEight (symbols first) (symbols second) →
      descriptorChecksum first ≠ descriptorChecksum second) ∧
    (∀ (before after : List Char) (one two : Char),
      Encodable (String.ofList (before ++ [one] ++ after)) → one ≠ two →
      descriptorChecksum (String.ofList (before ++ [one] ++ after)) ≠
        descriptorChecksum (String.ofList (before ++ [two] ++ after))) ∧
    ∀ (before after : List Char) (one two : Char),
      Encodable (String.ofList (before ++ [one, two] ++ after)) → one ≠ two →
      descriptorChecksum (String.ofList (before ++ [one, two] ++ after)) ≠
        descriptorChecksum (String.ofList (before ++ [two, one] ++ after)) := by
  refine ⟨?_, ?_, ?_⟩
  · intro first second one two length distinct within
    exact checksum_ne_of_within one two length distinct within
  · intro before after one two encodable distinct
    apply checksum_ne_of_edit _ _ _ encodable
    · rfl
    · exact Nat.le_succ 1
    · simpa using distinct
  · intro before after one two encodable distinct
    apply checksum_ne_of_edit _ _ _ encodable
    · rfl
    · exact Nat.le_refl 2
    · simp [distinct]

/-- A digit mistyped, which is one of the errors within eight symbols, and two transposed. -/
theorem checksum_mistyped :
    WithinEight (symbols (String.ofList ("raw(6".toList ++ ['a'] ++ ")".toList)))
        (symbols (String.ofList ("raw(6".toList ++ ['b'] ++ ")".toList))) ∧
      descriptorChecksum (String.ofList ("raw(6".toList ++ ['a'] ++ ")".toList)) ≠
        descriptorChecksum (String.ofList ("raw(6".toList ++ ['b'] ++ ")".toList)) ∧
      descriptorChecksum (String.ofList ("raw(".toList ++ ['6', 'a'] ++ ")".toList)) ≠
        descriptorChecksum (String.ofList ("raw(".toList ++ ['a', '6'] ++ ")".toList)) := by
  have within := within_of_edit "raw(6".toList ['a'] ['b'] ")".toList rfl (by decide)
  refine ⟨within, ?_, ?_⟩
  · exact descriptorChecksum_detects_local_errors.1 _ _ (by decide +kernel) (by decide +kernel)
      (by simp) (by decide +kernel) within
  · exact descriptorChecksum_detects_local_errors.2.2 _ _ '6' 'a' (by decide +kernel) (by decide)

end LibbitcoinServer.Utilities

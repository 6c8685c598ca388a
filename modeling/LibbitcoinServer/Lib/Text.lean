import Mathlib.Tactic

/-! # Tokens of a text

A text is split at a character, empty parts kept or dropped.  A decimal numeral is the
only one of its value once leading zeros are refused.  A pair of base16 digits is a
byte, and two texts of the same bytes differ in letter case alone.
-/

namespace Text

section Split

/-- The parts between the separators, with the empty ones dropped or not. -/
def parts (text : String) (separator : Char) (compress : Bool) : List String :=
  let every := (text.toList.splitOn separator).map String.ofList
  if compress then every.filter (· ≠ "") else every

/-- The parts of a text.  It always has one: where nothing is left, the empty text. -/
def split (text : String) (separator : Char) (compress : Bool) : List String :=
  if parts text separator compress = [] then [""] else parts text separator compress

theorem split_ne_nil (text : String) (separator : Char) (compress : Bool) :
    split text separator compress ≠ [] := by
  unfold split
  split_ifs with none
  · simp
  · exact none

/-- What precedes the first separator. -/
theorem head_splitOn (text : List Char) (separator : Char) :
    (text.splitOn separator).head? = some (text.takeWhile (· ≠ separator)) := by
  induction text with
  | nil => rfl
  | cons first rest ih =>
      rw [List.splitOn_cons_eq_if_modifyHead]
      by_cases same : first = separator
      · simp [same]
      · rw [if_neg (by simpa using same), List.head?_modifyHead, ih]
        simp [same]

theorem head_split (text : String) (separator : Char) :
    (split text separator false).head? =
      some (String.ofList (text.toList.takeWhile (· ≠ separator))) := by
  have every : split text separator false =
      (text.toList.splitOn separator).map String.ofList := by
    unfold split parts
    simp [List.splitOn_ne_nil]
  rw [every, List.head?_map, head_splitOn, Option.map_some]

/-- Two texts with the separator between them. -/
def joined (first : String) (separator : Char) (second : String) : String :=
  String.ofList (first.toList ++ separator :: second.toList)

theorem splitOn_joined {first second : String} {separator : Char}
    (one : separator ∉ first.toList) (two : separator ∉ second.toList) :
    (joined first separator second).toList.splitOn separator = [first.toList, second.toList] := by
  have here : (joined first separator second).toList =
      [separator].intercalate [first.toList, second.toList] := by
    simp [joined, List.intercalate]
  rw [here]
  apply List.splitOn_intercalate
  · simpa using ⟨one, two⟩
  · simp

/-- The two parts of a joined text. -/
theorem parts_joined {first second : String} {separator : Char}
    (one : separator ∉ first.toList) (two : separator ∉ second.toList) (present : first ≠ "")
    (also : second ≠ "") :
    parts (joined first separator second) separator true = [first, second] := by
  unfold parts
  rw [splitOn_joined one two]
  simp [present, also]

theorem split_joined {first second : String} {separator : Char}
    (one : separator ∉ first.toList) (two : separator ∉ second.toList) :
    split (joined first separator second) separator false = [first, second] := by
  unfold split parts
  rw [splitOn_joined one two]
  simp

/-- A text of two parts, empty ones kept, is the two joined. -/
theorem joined_of_split {text first second : String} {separator : Char}
    (two : split text separator false = [first, second]) :
    text = joined first separator second := by
  have every : (text.toList.splitOn separator).map String.ofList = [first, second] := by
    unfold split parts at two
    simpa [List.splitOn_ne_nil] using two
  have lists : text.toList.splitOn separator = [first.toList, second.toList] := by
    have back := congrArg (List.map String.toList) every
    simpa [List.map_map, Function.comp_def] using back
  have whole : [separator].intercalate (text.toList.splitOn separator) = text.toList :=
    List.intercalate_splitOn separator
  apply String.toList_injective
  rw [← whole, lists]
  simp [joined, List.intercalate]

/-- Where there is a part, the parts are as they are. -/
theorem split_eq_parts {text : String} {separator : Char} {compress : Bool} {first : String}
    {others : List String} (several : others ≠ []) :
    split text separator compress = first :: others ↔
      parts text separator compress = first :: others := by
  unfold split
  split_ifs with none
  · simp [none, several.symm]
  · rfl

/-- Every part after the first is present where no separator ends the text or follows
    another. -/
theorem tail_splitOn_present (text : List Char) (separator : Char) :
    (∀ part ∈ (text.splitOn separator).tail, part ≠ []) ↔
      text.getLast? ≠ some separator ∧ ¬[separator, separator] <:+: text := by
  induction text with
  | nil => simp
  | cons first rest ih =>
      have heads := head_splitOn rest separator
      obtain ⟨head, tail, parts⟩ := List.exists_cons_of_ne_nil (List.splitOn_ne_nil separator rest)
      rw [List.splitOn_cons_eq_if_modifyHead, List.infix_cons_iff]
      rw [parts] at ih heads ⊢
      by_cases same : first = separator
      · have head_eq : head = rest.takeWhile (· ≠ first) := by simpa [same] using heads
        subst same
        simp only [beq_self_eq_true, if_true, List.tail_cons, List.forall_mem_cons] at ih ⊢
        rw [ih, head_eq]
        cases rest with
        | nil => simp
        | cons second rest =>
            simp [List.getLast?_cons_cons, List.takeWhile_cons]
            tauto
      · simp only [beq_iff_eq, same, if_false, List.modifyHead_cons, List.tail_cons] at ih ⊢
        rw [ih]
        cases rest with
        | nil => simp [same]
        | cons second rest =>
            simp [List.getLast?_cons_cons]
            tauto

/-- Every part is present where a separator neither opens nor ends the text, nor
    follows another. -/
theorem splitOn_present (text : List Char) (separator : Char) :
    (∀ part ∈ text.splitOn separator, part ≠ []) ↔
      text ≠ [] ∧ text.head? ≠ some separator ∧ text.getLast? ≠ some separator ∧
        ¬[separator, separator] <:+: text := by
  have heads := head_splitOn text separator
  have tails := tail_splitOn_present text separator
  obtain ⟨head, tail, parts⟩ := List.exists_cons_of_ne_nil (List.splitOn_ne_nil separator text)
  rw [parts] at heads tails ⊢
  rw [List.forall_mem_cons, ← tails]
  have opens : head ≠ [] ↔ text ≠ [] ∧ text.head? ≠ some separator := by
    have head_eq : head = text.takeWhile (· ≠ separator) := by simpa using heads
    rw [head_eq]
    cases text with
    | nil => simp
    | cons first rest => simp [List.takeWhile_cons]
  rw [opens, and_assoc]
  rfl

/-- The characters of the parts are those of the text, less the separators. -/
theorem splitOn_characters (text : List Char) (separator : Char) (P : Char → Prop) :
    (∀ part ∈ text.splitOn separator, ∀ character ∈ part, P character) ↔
      ∀ character ∈ text, character ≠ separator → P character := by
  induction text with
  | nil => simp
  | cons first rest ih =>
      obtain ⟨head, tail, parts⟩ := List.exists_cons_of_ne_nil (List.splitOn_ne_nil separator rest)
      rw [List.splitOn_cons_eq_if_modifyHead, List.forall_mem_cons, ← ih, parts]
      by_cases same : first = separator
      · simp [same]
      · simp [same, and_assoc]

end Split

section Decimal

/-- A decimal digit is the one of its value. -/
theorem digitChar_of_isDigit {digit : Char} (decimal : digit.isDigit) :
    digit.toNat - '0'.toNat < 10 ∧ Nat.digitChar (digit.toNat - '0'.toNat) = digit := by
  obtain ⟨low, high⟩ := Char.isDigit_iff_toNat.mp decimal
  have zero : '0'.toNat = 48 := rfl
  have nine : '9'.toNat = 57 := rfl
  have small : digit.toNat - '0'.toNat < 10 := by omega
  refine ⟨small, Char.toNat_inj.mp ?_⟩
  rw [Nat.toNat_digitChar_of_lt_ten small]
  omega

/-- The digits of a numeral without leading zeros are those of its value. -/
theorem toDigits_ofDigitChars {digits : List Char} (decimal : ∀ digit ∈ digits, digit.isDigit)
    (present : digits ≠ []) (canonical : digits.length = 1 ∨ digits.head? ≠ some '0') :
    Nat.toDigits 10 (Nat.ofDigitChars 10 digits 0) = digits := by
  induction digits using List.reverseRecOn with
  | nil => exact absurd rfl present
  | append_singleton digits last ih =>
      obtain ⟨small, spelled⟩ := digitChar_of_isDigit (decimal last (by simp))
      rw [Nat.ofDigitChars_append, Nat.ofDigitChars_cons, Nat.ofDigitChars_nil]
      by_cases alone : digits = []
      · subst alone
        rw [Nat.ofDigitChars_nil, Nat.mul_zero, Nat.zero_add, Nat.toDigits_of_lt_base small,
          spelled, List.nil_append]
      · have leading : digits.head? ≠ some '0' := by
          rcases canonical with one | leading
          · have length := List.length_pos_iff.mpr alone
            rw [List.length_append, List.length_singleton] at one
            omega
          · rwa [List.head?_append_of_ne_nil _ alone] at leading
        have spelled_front := ih (fun digit member => decimal digit (by simp [member])) alone
          (.inr leading)
        have positive : 0 < Nat.ofDigitChars 10 digits 0 := by
          by_contra zero
          rw [Nat.eq_zero_of_not_pos zero, Nat.toDigits_zero] at spelled_front
          exact leading (by rw [← spelled_front]; rfl)
        rw [← Nat.toDigits_append_toDigits (by norm_num) positive small, spelled_front,
          Nat.toDigits_of_lt_base small, spelled]

theorem head_toDigits {value : Nat} (positive : 0 < value) :
    (Nat.toDigits 10 value).head? ≠ some '0' := by
  induction value using Nat.strongRecOn with
  | ind value ih =>
      by_cases small : value < 10
      · rw [Nat.toDigits_of_lt_base small]
        simpa using positive.ne'
      · have front : 0 < value / 10 := by omega
        rw [Nat.toDigits_of_base_le (by norm_num) (by omega),
          List.head?_append_of_ne_nil _ Nat.toDigits_ne_nil]
        exact ih (value / 10) (by omega) front

/-- The decimal numeral of a value, without leading zeros. -/
structure Numeral (token : String) (value : Nat) : Prop where
  present : token.toList ≠ []
  decimal : ∀ digit ∈ token.toList, digit.isDigit
  canonical : token.toList.length = 1 ∨ token.toList.head? ≠ some '0'
  denotes : Nat.ofDigitChars 10 token.toList 0 = value

/-- A value has one numeral. -/
theorem numeral_iff {token : String} {value : Nat} :
    Numeral token value ↔ token = toString value := by
  constructor
  · rintro ⟨present, decimal, canonical, rfl⟩
    rw [Nat.toString_eq_ofList_toDigits, toDigits_ofDigitChars decimal present canonical,
      String.ofList_toList]
  · rintro rfl
    have digits : (toString value).toList = Nat.toDigits 10 value := by simp
    refine ⟨?_, ?_, ?_, ?_⟩
    · rw [digits]
      exact Nat.toDigits_ne_nil
    · intro digit member
      rw [digits] at member
      exact Nat.isDigit_of_mem_toDigits (by norm_num) (by norm_num) member
    · rw [digits]
      by_cases zero : value = 0
      · subst zero
        exact .inl rfl
      · exact .inr (head_toDigits (Nat.pos_of_ne_zero zero))
    · rw [digits]
      exact Nat.ofDigitChars_toDigits (by norm_num) le_rfl

theorem toString_injective {first second : Nat} (same : toString first = toString second) :
    first = second := by
  have one : Numeral (toString first) first := numeral_iff.mpr rfl
  have two : Numeral (toString first) second := numeral_iff.mpr same
  exact one.denotes.symm.trans two.denotes

/-- The value of a number that an unsigned integer of the size holds. -/
def toInteger (size : Nat) (number : ℚ) : Option Nat :=
  if number.den = 1 ∧ 0 ≤ number.num ∧ number.num.toNat < size then some number.num.toNat
  else none

theorem toInteger_natCast {size value : Nat} (small : value < size) :
    toInteger size value = some value :=
  if_pos ⟨rfl, Int.natCast_nonneg value, small⟩

end Decimal

section Base16

def base16Digits : List Char :=
  ['0', '1', '2', '3', '4', '5', '6', '7', '8', '9', 'a', 'b', 'c', 'd', 'e', 'f']

/-- The value of a base16 digit of either case. -/
def base16Digit (digit : Char) : Option Nat := base16Digits.idxOf? digit.toLower

/-- The bytes of the digits by pairs. -/
def decodeBase16 : List Char → Option (List UInt8)
  | [] => some []
  | [_] => none
  | high :: low :: rest =>
      match base16Digit high, base16Digit low, decodeBase16 rest with
      | some high, some low, some bytes => some (UInt8.ofNat (16 * high + low) :: bytes)
      | _, _, _ => none

/-- The two digits of every byte. -/
def encodeBase16 (bytes : List UInt8) : List Char :=
  bytes.flatMap fun byte =>
    [base16Digits.getD (byte.toNat / 16) '0', base16Digits.getD (byte.toNat % 16) '0']

theorem length_encodeBase16 (bytes : List UInt8) :
    (encodeBase16 bytes).length = 2 * bytes.length := by
  induction bytes with
  | nil => rfl
  | cons byte bytes ih =>
      rw [encodeBase16] at ih ⊢
      rw [List.flatMap_cons, List.length_append, ih, List.length_cons]
      simp only [List.length_cons, List.length_nil]
      omega

theorem getD_base16Digits_mem (value : Nat) : base16Digits.getD value '0' ∈ base16Digits := by
  rw [List.getD_eq_getElem?_getD]
  cases here : base16Digits[value]? with
  | none => simp [base16Digits]
  | some digit => exact List.mem_of_getElem? here

theorem mem_base16Digits {bytes : List UInt8} {digit : Char} (member : digit ∈ encodeBase16 bytes) :
    digit ∈ base16Digits := by
  obtain ⟨byte, _, here⟩ := List.mem_flatMap.mp member
  simp only [List.mem_cons, List.not_mem_nil, or_false] at here
  cases here with
  | inl high => exact high ▸ getD_base16Digits_mem _
  | inr low => exact low ▸ getD_base16Digits_mem _

theorem base16Digit_getD {value : Nat} (small : value < 16) :
    base16Digit (base16Digits.getD value '0') = some value := by
  interval_cases value <;> decide

/-- The bytes are read back from their digits. -/
theorem decodeBase16_encodeBase16 (bytes : List UInt8) :
    decodeBase16 (encodeBase16 bytes) = some bytes := by
  induction bytes with
  | nil => rfl
  | cons byte bytes ih =>
      have high : byte.toNat / 16 < 16 := by
        have bound := byte.toNat_lt
        omega
      have low : byte.toNat % 16 < 16 := Nat.mod_lt _ (by decide)
      have joined : UInt8.ofNat (16 * (byte.toNat / 16) + byte.toNat % 16) = byte := by
        rw [Nat.div_add_mod]
        exact UInt8.ofNat_toNat
      rw [encodeBase16, List.flatMap_cons, List.cons_append, List.cons_append, List.nil_append,
        ← encodeBase16, decodeBase16, base16Digit_getD high, base16Digit_getD low, ih]
      simp only [joined]

/-- A text of base16 digits. -/
def IsBase16 (digits : List Char) : Prop := ∀ digit ∈ digits, (base16Digit digit).isSome

instance (digits : List Char) : Decidable (IsBase16 digits) :=
  inferInstanceAs (Decidable (∀ digit ∈ digits, (base16Digit digit).isSome))

theorem base16Digit_eq_some {digit : Char} {value : Nat} (found : base16Digit digit = some value) :
    value < 16 ∧ base16Digits[value]? = some digit.toLower := by
  obtain ⟨small, here, -⟩ := List.idxOf?_eq_some_iff.mp found
  exact ⟨small, List.getElem?_eq_some_iff.mpr ⟨small, here⟩⟩

/-- Two digits of the same value differ in case alone. -/
theorem toLower_of_base16Digit {first second : Char} {value : Nat}
    (one : base16Digit first = some value) (two : base16Digit second = some value) :
    first.toLower = second.toLower := by
  have here := (base16Digit_eq_some one).2
  rw [(base16Digit_eq_some two).2] at here
  exact (Option.some.inj here).symm

theorem decodeBase16_cons {high low : Char} {rest : List Char} {bytes : List UInt8} :
    decodeBase16 (high :: low :: rest) = some bytes ↔
      ∃ first second later, base16Digit high = some first ∧ base16Digit low = some second ∧
        decodeBase16 rest = some later ∧ bytes = UInt8.ofNat (16 * first + second) :: later := by
  rw [decodeBase16]
  cases base16Digit high <;> cases base16Digit low <;> cases decodeBase16 rest <;>
    simp [eq_comm]

/-- The texts of bytes are the pairs of digits. -/
theorem decodeBase16_isSome (digits : List Char) :
    (decodeBase16 digits).isSome ↔ IsBase16 digits ∧ digits.length % 2 = 0 := by
  induction digits using List.twoStepInduction with
  | nil => simp [decodeBase16, IsBase16]
  | singleton digit => simp [decodeBase16]
  | cons_cons high low rest ih _ =>
      have pairs : (high :: low :: rest).length % 2 = rest.length % 2 := by
        simp only [List.length_cons]
        omega
      simp only [Option.isSome_iff_exists, decodeBase16_cons] at ih ⊢
      rw [pairs]
      simp only [IsBase16, List.forall_mem_cons, Option.isSome_iff_exists] at ih ⊢
      constructor
      · rintro ⟨_, first, second, later, one, two, decoded, _⟩
        obtain ⟨every, even⟩ := ih.mp ⟨later, decoded⟩
        exact ⟨⟨⟨first, one⟩, ⟨second, two⟩, every⟩, even⟩
      · rintro ⟨⟨⟨first, one⟩, ⟨second, two⟩, every⟩, even⟩
        obtain ⟨later, decoded⟩ := ih.mpr ⟨every, even⟩
        exact ⟨_, first, second, later, one, two, decoded, rfl⟩

/-- Two texts of the same bytes differ in letter case alone. -/
theorem map_toLower_of_decodeBase16 {first second : List Char} {bytes : List UInt8}
    (one : decodeBase16 first = some bytes) (two : decodeBase16 second = some bytes) :
    first.map Char.toLower = second.map Char.toLower := by
  induction first using List.twoStepInduction generalizing second bytes with
  | nil =>
      obtain rfl : [] = bytes := Option.some.inj one
      rcases second with _ | ⟨other, _ | ⟨another, others⟩⟩
      · rfl
      · cases two
      · obtain ⟨_, _, _, _, _, _, none⟩ := decodeBase16_cons.mp two
        cases none
  | singleton digit => cases one
  | cons_cons high low rest ih _ =>
      obtain ⟨top, bottom, later, highs, lows, decoded, rfl⟩ := decodeBase16_cons.mp one
      rcases second with _ | ⟨other, _ | ⟨another, others⟩⟩
      · cases two
      · cases two
      · obtain ⟨top', bottom', later', highs', lows', decoded', same⟩ := decodeBase16_cons.mp two
        obtain ⟨byte, rfl⟩ := List.cons.inj same
        have bounds := (base16Digit_eq_some highs).1
        have bounds' := (base16Digit_eq_some highs').1
        have small := (base16Digit_eq_some lows).1
        have small' := (base16Digit_eq_some lows').1
        have value : 16 * top + bottom = 16 * top' + bottom' := by
          have values := congrArg UInt8.toNat byte
          simp only [UInt8.toNat_ofNat'] at values
          omega
        obtain rfl : top = top' := by omega
        obtain rfl : bottom = bottom' := by omega
        simp only [List.map_cons, toLower_of_base16Digit highs highs',
          toLower_of_base16Digit lows lows', ih decoded decoded']

end Base16

end Text

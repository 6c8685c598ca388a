import LibbitcoinServer.Electrum.Version
import LibbitcoinServer.Lib.Text
import LibbitcoinServer.Lib.Traverse
import Mathlib.Order.Bounds.Basic

/-! # The greatest common version

The code floors the upper end of the overlap first, and compares the floor with the lower
end afterwards.  The table ascends, so that the floor is the greatest defined version of
the overlap where there is one at all, and below every version of it where there is none.
-/

namespace LibbitcoinServer.Electrum

/-! ## The floor of a number -/

theorem exists_entry (version : Version) : ∃ entry ∈ versions, entry.1 = version := by
  cases version <;> decide

/-- The table ascends, read here from its end as the code does. -/
theorem versions_descending :
    versions.reverse.Pairwise fun first second => second.2 < first.2 := by decide

/-- The enumeration orders the versions as their numbers do. -/
theorem versionToNumber_le_iff (first second : Version) :
    versionToNumber first ≤ versionToNumber second ↔ first ≤ second := by
  cases first <;> cases second <;> decide

/-- The first entry found in a descending table is the greatest of those sought. -/
theorem le_of_find? {entries : List (Version × Number)} {sought : Version × Number → Bool}
    {entry other : Version × Number}
    (descending : entries.Pairwise fun first second => second.2 < first.2)
    (found : entries.find? sought = some entry) (member : other ∈ entries)
    (meets : sought other = true) : other.2 ≤ entry.2 := by
  cases Traverse.related_of_find? descending found member meets with
  | inl same => exact (congrArg Prod.snd same).le
  | inr below => exact below.le

/-- The table opens at zero, so that every number has a floor in it. -/
theorem versionToNumber_versionFloor_le (value : Number) :
    versionToNumber (versionFloor value) ≤ value := by
  by_cases zero : versionFloor value = .v0_0
  · rw [zero]
    exact bot_le
  · exact versionToNumber_floor_le zero

theorem le_versionFloor {value : Number} {version : Version}
    (bound : versionToNumber version ≤ value) :
    versionToNumber version ≤ versionToNumber (versionFloor value) := by
  obtain ⟨entry, member, rfl⟩ := exists_entry version
  rw [versionToNumber_of_mem member] at bound ⊢
  cases found : versions.reverse.find? fun entry => entry.2 ≤ value with
  | none =>
      have missed := List.find?_eq_none.mp found entry (List.mem_reverse.mpr member)
      simp [bound] at missed
  | some floor =>
      have floored : versionFloor value = floor.1 := by
        unfold versionFloor
        rw [found]
      have listed := List.mem_reverse.mp (List.mem_of_find?_eq_some found)
      rw [floored, versionToNumber_of_mem listed]
      exact le_of_find? versions_descending found (List.mem_reverse.mpr member)
        (by simpa using bound)

/-! ## What a client asks for -/

/-- Nonempty runs of digits, dots between them. -/
def Dotted (text : String) : Prop :=
  ∃ runs : List (List Char), runs ≠ [] ∧
    (∀ run ∈ runs, run ≠ [] ∧ ∀ character ∈ run, '0' ≤ character ∧ character ≤ '9') ∧
    text.toList = ['.'].intercalate runs

theorem dotted_iff (text : String) :
    Dotted text ↔ ∀ run ∈ text.toList.splitOn '.', run ≠ [] ∧
      ∀ character ∈ run, '0' ≤ character ∧ character ≤ '9' := by
  constructor
  · intro ⟨runs, present, digits, joined⟩
    rw [joined, List.splitOn_intercalate]
    · exact digits
    · intro run member dot
      have digit := (digits run member).2 '.' dot
      revert digit
      decide
    · exact present
  · intro digits
    exact ⟨_, List.splitOn_ne_nil _ _, digits, (List.intercalate_splitOn '.').symm⟩

namespace System

variable (system : System)

/-- A text the constructor takes a number from, well formed as dotted digits. -/
def WellFormed (text : String) (value : Number) : Prop :=
  Dotted text ∧ system.toNumber text = some value

theorem versionFromString_eq_some (text : String) (value : Number) :
    system.versionFromString text = some value ↔ system.WellFormed text value := by
  have present := Text.splitOn_present text.toList '.'
  have characters := Text.splitOn_characters text.toList '.' fun character =>
    '0' ≤ character ∧ character ≤ '9'
  have dotted : Dotted text ↔ text.toList ≠ [] ∧ text.toList.head? ≠ some '.' ∧
      text.toList.getLast? ≠ some '.' ∧ ¬['.', '.'] <:+: text.toList ∧
      (text.toList.all fun character => '0' ≤ character ∧ character ≤ '9' ∨ character = '.') := by
    rw [dotted_iff, forall₂_and, present, characters, List.all_eq_true]
    simp only [decide_eq_true_eq, and_assoc, ne_eq, or_iff_not_imp_right]
  simp only [versionFromString, WellFormed, dotted]
  split_ifs with formed
  · exact (and_iff_right formed).symm
  · exact iff_of_false nofun fun both => formed both.1

/-- The least and the greatest version a value asks for. -/
inductive Asks : Value → Number → Number → Prop where
  | one {text : String} {value : Number} (formed : system.WellFormed text value) :
      Asks (.string text) value value
  | range {low high : String} {min max : Number} (least : system.WellFormed low min)
      (greatest : system.WellFormed high max) : Asks (.array [.string low, .string high]) min max

theorem versionRange_eq_some (value : Value) (min max : Number) :
    system.versionRange value = some (min, max) ↔ system.Asks value min max := by
  constructor
  · intro asked
    unfold versionRange at asked
    split at asked
    · next text =>
        cases read : system.versionFromString text with
        | none => simp [read] at asked
        | some number =>
            simp only [read, Option.map_some, Option.some.injEq, Prod.mk.injEq] at asked
            cases asked.1
            cases asked.2
            exact .one ((system.versionFromString_eq_some text _).mp read)
    · next low high =>
        split at asked
        · next least greatest readLow readHigh =>
            cases asked
            exact .range ((system.versionFromString_eq_some low _).mp readLow)
              ((system.versionFromString_eq_some high _).mp readHigh)
        · cases asked
    · cases asked
  · intro asks
    cases asks with
    | one formed => simp [versionRange, (system.versionFromString_eq_some _ _).mpr formed]
    | range least greatest =>
        simp [versionRange, (system.versionFromString_eq_some _ _).mpr least,
          (system.versionFromString_eq_some _ _).mpr greatest]

end System

/-! ## The overlap -/

/-- The defined versions within both the range asked for and the configured one. -/
def overlap (low high minimum maximum : Number) : Set Version :=
  {version | ∃ entry ∈ versions, entry.1 = version ∧
    Max.max low minimum ≤ entry.2 ∧ entry.2 ≤ Min.min high maximum}

variable {low high minimum maximum : Number} {version : Version}

theorem mem_overlap :
    version ∈ overlap low high minimum maximum ↔
      Max.max low minimum ≤ versionToNumber version ∧
        versionToNumber version ≤ Min.min high maximum := by
  constructor
  · intro ⟨entry, member, same, bounds⟩
    rw [← same, versionToNumber_of_mem member]
    exact bounds
  · intro bounds
    obtain ⟨entry, member, same⟩ := exists_entry version
    rw [← same, versionToNumber_of_mem member] at bounds
    exact ⟨entry, member, same, bounds⟩

namespace System

variable (system : System) (value : Value)

theorem negotiate_of_asks {value : Value} (asks : system.Asks value low high) :
    system.negotiate value minimum maximum =
      if versionToNumber (versionFloor (Min.min high maximum)) < Max.max low minimum then .v0_0
      else versionFloor (Min.min high maximum) := by
  simp [negotiate, (system.versionRange_eq_some value low high).mpr asks]

/-- Where some version overlaps, the floor of the upper end is the greatest that does. -/
theorem isGreatest_negotiate {value : Value} (asks : system.Asks value low high)
    (some : (overlap low high minimum maximum).Nonempty) :
    IsGreatest (overlap low high minimum maximum) (system.negotiate value minimum maximum) := by
  obtain ⟨version, member⟩ := some
  rw [mem_overlap] at member
  have reached := member.1.trans (le_versionFloor member.2)
  rw [negotiate_of_asks system asks, if_neg (not_lt.mpr reached)]
  constructor
  · exact mem_overlap.mpr ⟨reached, versionToNumber_versionFloor_le _⟩
  · intro other inside
    rw [← versionToNumber_le_iff]
    exact le_versionFloor (mem_overlap.mp inside).2

/-- A negotiated version is of the overlap. -/
theorem negotiate_mem_overlap {value : Value} (asks : system.Asks value low high)
    (settled : system.negotiate value minimum maximum ≠ .v0_0) :
    system.negotiate value minimum maximum ∈ overlap low high minimum maximum := by
  rw [negotiate_of_asks system asks] at settled ⊢
  split_ifs at settled ⊢ with below
  · cases settled rfl
  · exact mem_overlap.mpr ⟨not_lt.mp below, versionToNumber_versionFloor_le _⟩

theorem negotiate_of_malformed {value : Value}
    (malformed : ¬∃ low high, system.Asks value low high) :
    system.negotiate value minimum maximum = .v0_0 := by
  unfold negotiate
  cases range : system.versionRange value with
  | none => rfl
  | some asked =>
      cases malformed ⟨asked.1, asked.2, (system.versionRange_eq_some _ _ _).mp range⟩

/-- Negotiation settles on the greatest defined version of the overlap, and on none exactly
    where the value is malformed or no version above zero overlaps. -/
theorem negotiate_greatest_common (minimum maximum : Number) :
    (∀ low high, system.Asks value low high → (overlap low high minimum maximum).Nonempty →
      IsGreatest (overlap low high minimum maximum) (system.negotiate value minimum maximum)) ∧
    (system.negotiate value minimum maximum = .v0_0 ↔
      (¬∃ low high, system.Asks value low high) ∨
        ∃ low high, system.Asks value low high ∧
          ¬∃ version ∈ overlap low high minimum maximum, version ≠ .v0_0) := by
  constructor
  · intro low high asks some
    exact system.isGreatest_negotiate asks some
  · constructor
    · intro zero
      by_cases formed : ∃ low high, system.Asks value low high
      · obtain ⟨low, high, asks⟩ := formed
        refine .inr ⟨low, high, asks, ?_⟩
        intro ⟨version, member, above⟩
        have greatest := (system.isGreatest_negotiate asks ⟨version, member⟩).2 member
        rw [zero] at greatest
        cases version with
        | v0_0 => exact above rfl
        | _ => revert greatest; decide
      · exact .inl formed
    · intro reason
      by_contra settled
      cases reason with
      | inl malformed => exact settled (system.negotiate_of_malformed malformed)
      | inr unmet =>
          obtain ⟨low, high, asks, none⟩ := unmet
          exact none ⟨_, system.negotiate_mem_overlap asks settled, settled⟩

/-- The numbers of the two texts that the range below is given by. -/
private def ranged : System where
  toNumber text :=
    if text = "1.4" then some (number 1 4) else if text = "1.5" then some (number 1 5) else none
  toText _ := "1.0"
  isAsciiCharacter _ := true
  isAsciiWhitespace _ := false

private theorem ranged_asks :
    ranged.Asks (.array [.string "1.4", .string "1.5"]) (number 1 4) (number 1 5) :=
  .range ⟨⟨[['1'], ['4']], by simp [List.intercalate]⟩, rfl⟩
    ⟨⟨[['1'], ['5']], by simp [List.intercalate]⟩, rfl⟩

/-- 1.5 is not defined: a range up to it settles on 1.4.2. -/
theorem negotiate_undefined :
    IsGreatest (overlap (number 1 4) (number 1 5) (number 1 0) (number 1 7))
      (ranged.negotiate (.array [.string "1.4", .string "1.5"]) (number 1 0) (number 1 7)) :=
  (negotiate_greatest_common ranged _ _ _).1 _ _ ranged_asks
    ⟨.v1_4, mem_overlap.mpr (by decide)⟩

end System

end LibbitcoinServer.Electrum

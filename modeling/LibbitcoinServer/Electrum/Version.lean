import Mathlib.Data.Prod.Lex
import Mathlib.Tactic

/-! # Negotiation of the electrum version

A client asks for a version, or for a range of them, that need not be defined.
Negotiation is numeric and settles on the greatest defined version within both
the range asked for and the configured one.
-/

namespace LibbitcoinServer.Electrum

/-- `config::version`: the segments compare from the first. -/
abbrev Number := Nat ×ₗ Nat ×ₗ Nat ×ₗ Nat

def number (major minor : Nat) (patch build : Nat := 0) : Number :=
  toLex (major, toLex (minor, toLex (patch, build)))

inductive Version where
  | v0_0
  | v0_6
  | v0_8
  | v0_9
  | v0_10
  | v1_0
  | v1_1
  | v1_2
  | v1_3
  | v1_4
  | v1_4_1
  | v1_4_2
  | v1_6
  | v1_7
  deriving DecidableEq, Repr

namespace Version

/-- The enumeration's value, by which versions compare. -/
def ordinal : Version → Nat := Version.ctorIdx

instance : LE Version := ⟨fun first second => first.ordinal ≤ second.ordinal⟩

instance : LT Version := ⟨fun first second => first.ordinal < second.ordinal⟩

instance (first second : Version) : Decidable (first ≤ second) :=
  inferInstanceAs (Decidable (first.ordinal ≤ second.ordinal))

instance (first second : Version) : Decidable (first < second) :=
  inferInstanceAs (Decidable (first.ordinal < second.ordinal))

theorem not_lt {first second : Version} : ¬first < second ↔ second ≤ first := Nat.not_lt

end Version

/-- An rpc value, of which only texts and arrays are read here. -/
inductive Value where
  | string (text : String)
  | array (values : List Value)
  | other

/-- What the code takes from the system library: the number of a text (`none` when the
    constructor throws), its text, and the classes of characters. -/
structure System where
  toNumber : String → Option Number
  toText : Number → String
  isAsciiCharacter : Char → Bool
  isAsciiWhitespace : Char → Bool

/-- Defined versions with their numeric forms, in ascending order. -/
def versions : List (Version × Number) :=
  [(.v0_0, number 0 0), (.v0_6, number 0 6), (.v0_8, number 0 8), (.v0_9, number 0 9),
    (.v0_10, number 0 10), (.v1_0, number 1 0), (.v1_1, number 1 1), (.v1_2, number 1 2),
    (.v1_3, number 1 3), (.v1_4, number 1 4), (.v1_4_1, number 1 4 1), (.v1_4_2, number 1 4 2),
    (.v1_6, number 1 6), (.v1_7, number 1 7)]

def versionToNumber (value : Version) : Number :=
  match versions.find? fun entry => entry.1 = value with
  | some entry => entry.2
  | none => number 0 0

def versionFloor (value : Number) : Version :=
  match versions.reverse.find? fun entry => entry.2 ≤ value with
  | some entry => entry.1
  | none => .v0_0

/-- The greatest version permitting a non-version opener. -/
def restrictedMaximum : Version := .v1_4_2

def maximumClientName : Nat := 1024

namespace System

variable (system : System)

def versionToString (value : Version) : String := system.toText (versionToNumber value)

def versionFromString (value : String) : Option Number :=
  let characters := value.toList
  if characters ≠ [] ∧ characters.head? ≠ some '.' ∧ characters.getLast? ≠ some '.' ∧
      ¬['.', '.'] <:+: characters ∧
      (characters.all fun character => '0' ≤ character ∧ character ≤ '9' ∨ character = '.') then
    system.toNumber value
  else none

/-- `version_range`: the least and the greatest version asked for. -/
def versionRange : Value → Option (Number × Number)
  | .string text => (system.versionFromString text).map fun value => (value, value)
  | .array [.string low, .string high] =>
      match system.versionFromString low, system.versionFromString high with
      | some min, some max => some (min, max)
      | _, _ => none
  | _ => none

def negotiate (value : Value) (minimum maximum : Number) : Version :=
  match system.versionRange value with
  | none => .v0_0
  | some (min, max) =>
      let lower := Max.max min minimum
      let upper := Min.min max maximum
      let floor := versionFloor upper
      if versionToNumber floor < lower then .v0_0 else floor

def escapeClient (name : String) : String :=
  String.ofList (name.toList.map fun character =>
    if system.isAsciiCharacter character && !system.isAsciiWhitespace character then character
    else '*')

/-- The 1.0 result is the server software string alone. -/
def versionResult (negotiated : Version) (serverName : String) : Value :=
  if negotiated < .v1_1 then .string serverName
  else .array [.string serverName, .string (system.versionToString negotiated)]

end System

/-! ## What negotiation settles on -/

theorem versionToNumber_of_mem {entry : Version × Number} (member : entry ∈ versions) :
    versionToNumber entry.1 = entry.2 := by
  revert entry
  decide

/-- A version within the restricted maximum is below 1.6. -/
theorem lt_of_restricted {version : Version}
    (restricted : versionToNumber version ≤ versionToNumber restrictedMaximum) :
    version < .v1_6 := by
  revert restricted
  cases version <;> decide

theorem versionToNumber_floor_le {value : Number} (found : versionFloor value ≠ .v0_0) :
    versionToNumber (versionFloor value) ≤ value := by
  unfold versionFloor at found ⊢
  split at found
  · next entry here =>
      have member := List.mem_reverse.mp (List.mem_of_find?_eq_some here)
      have bound := List.find?_some here
      rw [versionToNumber_of_mem member]
      simpa using bound
  · cases found rfl

variable {system : System} {value : Value} {minimum maximum : Number}

/-- A negotiated version lies in the configured range. -/
theorem System.negotiate_within (settled : system.negotiate value minimum maximum ≠ .v0_0) :
    minimum ≤ versionToNumber (system.negotiate value minimum maximum) ∧
      versionToNumber (system.negotiate value minimum maximum) ≤ maximum := by
  unfold negotiate at settled ⊢
  cases range : system.versionRange value with
  | none => simp [range] at settled
  | some asked =>
      simp only [range] at settled ⊢
      split_ifs at settled ⊢ with below
      · cases settled rfl
      · constructor
        · exact (le_max_right _ _).trans (not_lt.mp below)
        · exact (versionToNumber_floor_le settled).trans (min_le_right _ _)

end LibbitcoinServer.Electrum

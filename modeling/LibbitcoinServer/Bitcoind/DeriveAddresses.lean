import LibbitcoinServer.Bitcoind.ScanTxOutSet
import LibbitcoinServer.Lib.Counting

/-! # Derived addresses

A ranged descriptor is derived at each index of an inclusive range, which may hold no more
than a number of indices but may lie anywhere.  The scan of unspent outputs refuses a range
of hardened indices.  The derivation does not, so a range through the greatest index ends
only at an index without an address.
-/

namespace LibbitcoinServer.Bitcoind

open Counting

/-! ## The code -/

/-- `wallet::descriptor`, with the scripts that it derives at an index. -/
structure ScriptDescriptor (Script : Type) where
  ranged : Bool
  scripts : BitVec 32 → List Script

/-- What the code takes from the system library. -/
structure Wallet (Script : Type) where
  parse : String → Option (ScriptDescriptor Script)
  /-- The script is a witness program of some version. -/
  versioned : Script → Bool
  witnessAddress : Script → String
  /-- `payment_address::extract_output`, encoded. -/
  paymentAddress : Script → Option String

inductive DeriveFault where
  | invalidAddressOrKey
  | invalidParameter
  deriving DecidableEq

section Handler

variable {Script : Type} (wallet : Wallet Script)

def toAddress (script : Script) : String :=
  if wallet.versioned script then wallet.witnessAddress script
  else (wallet.paymentAddress script).getD ""

/-- The address of the only script at an index. -/
def addressAt (parsed : ScriptDescriptor Script) (index : BitVec 32) : String :=
  match parsed.scripts index with
  | [script] => toAddress wallet script
  | _ => ""

/-- One turn of the derivation. -/
def deriveAddress (parsed : ScriptDescriptor Script) (index : BitVec 32) (out : List String) :
    Except DeriveFault (List String) :=
  if addressAt wallet parsed index = "" then .error .invalidAddressOrKey
  else .ok (out ++ [addressAt wallet parsed index])

/-- The limit of bitcoind on the size of a range. -/
def derivationRange : Nat := 10000

/-- The bounds of the range, both zero without one. -/
def deriveBounds : Option ScanValue → Option (Nat × Nat)
  | none => some (0, 0)
  | some range => parseScanRange 0 range

/-- The response, and nothing where the derivation has not ended within the turns. -/
def handleDeriveAddresses (turns : Nat) (expression : String) (range : Option ScanValue) :
    Option (Except DeriveFault (List String)) :=
  match wallet.parse expression with
  | none => some (.error .invalidAddressOrKey)
  | some parsed =>
      if parsed.ranged ≠ range.isSome then some (.error .invalidParameter)
      else
        match deriveBounds range with
        | none => some (.error .invalidParameter)
        | some (first, last) =>
            if last - first ≥ derivationRange then some (.error .invalidParameter)
            else
              loop (deriveAddress wallet parsed) (BitVec.ofNat 32 last) turns
                (BitVec.ofNat 32 first) []

end Handler

/-! ## Accepted ranges -/

section Derivation

variable {Script : Type} {wallet : Wallet Script}

/-- A request that reaches the derivation of a ranged descriptor, over these indices. -/
structure Accepted (wallet : Wallet Script) (expression : String) (range : ScanValue)
    (parsed : ScriptDescriptor Script) (first last : Nat) : Prop where
  found : wallet.parse expression = some parsed
  ranged : parsed.ranged = true
  bounds : parseScanRange 0 range = some (first, last)
  limited : last - first < derivationRange

theorem lt_of_toInteger {size value : Nat} {number : ℚ}
    (read : Text.toInteger size number = some value) : value < size := by
  rw [Text.toInteger] at read
  split_ifs at read with small
  cases read
  exact small.2.2

/-- The bounds are indices, in order. -/
theorem parseScanRange_bounds {range : ScanValue} {first last : Nat}
    (bounds : parseScanRange 0 range = some (first, last)) : first ≤ last ∧ last < 2 ^ 32 := by
  unfold parseScanRange at bounds
  split at bounds
  · rw [Option.map_eq_some_iff] at bounds
    obtain ⟨value, read, same⟩ := bounds
    cases same
    exact ⟨Nat.zero_le _, lt_of_toInteger read⟩
  · simp only [Option.bind_eq_bind, Option.bind_eq_some_iff] at bounds
    obtain ⟨low, _, high, read, accepted⟩ := bounds
    split_ifs at accepted with ordered
    cases accepted
    exact ⟨ordered, lt_of_toInteger read⟩
  · cases bounds

theorem handleDeriveAddresses_accepted {expression : String} {range : ScanValue}
    {parsed : ScriptDescriptor Script} {first last : Nat}
    (accepted : Accepted wallet expression range parsed first last) (turns : Nat) :
    handleDeriveAddresses wallet turns expression (some range) =
      loop (deriveAddress wallet parsed) (BitVec.ofNat 32 last) turns
        (BitVec.ofNat 32 first) [] := by
  have limited := accepted.limited
  rw [handleDeriveAddresses, accepted.found]
  dsimp only
  rw [if_neg (by simp [accepted.ranged]), deriveBounds, accepted.bounds]
  dsimp only
  rw [if_neg (by omega)]

/-! ## The derivation -/

/-- The addresses at the indices are appended until one is missing. -/
theorem visit_deriveAddress (parsed : ScriptDescriptor Script) (words : List (BitVec 32))
    (out : List String) :
    visit (deriveAddress wallet parsed) words out =
      if ∃ index ∈ words, addressAt wallet parsed index = "" then .error .invalidAddressOrKey
      else .ok (out ++ words.map (addressAt wallet parsed)) := by
  induction words generalizing out with
  | nil => simp [visit, pure, Except.pure]
  | cons index words ih =>
      rw [visit, List.foldlM_cons, deriveAddress]
      by_cases missing : addressAt wallet parsed index = ""
      · rw [if_pos missing, if_pos ⟨index, List.mem_cons_self, missing⟩]
        rfl
      · rw [if_neg missing]
        have rest := ih (out ++ [addressAt wallet parsed index])
        rw [visit] at rest
        simp only [bind, Except.bind]
        rw [rest]
        simp [missing]

/-- The derivation ends within as many turns as there are indices, and where every index has
    an address, the response is these addresses in order. -/
structure Derives (wallet : Wallet Script) (expression : String) (range : ScanValue)
    (parsed : ScriptDescriptor Script) (first last : Nat) : Prop where
  limited : last - first + 1 ≤ derivationRange
  ends : handleDeriveAddresses wallet (last - first + 1) expression (some range) ≠ none
  addresses : (∀ index : BitVec 32, first ≤ index.toNat → index.toNat ≤ last →
      addressAt wallet parsed index ≠ "") →
    handleDeriveAddresses wallet (last - first + 1) expression (some range) =
      some (.ok ((List.range' first (last - first + 1)).map fun index =>
        addressAt wallet parsed (BitVec.ofNat 32 index)))

/-- Some index of the range has no address. -/
def Underived (wallet : Wallet Script) (parsed : ScriptDescriptor Script) (first last : Nat) :
    Prop :=
  ∃ index : BitVec 32, first ≤ index.toNat ∧ index.toNat ≤ last ∧
    addressAt wallet parsed index = ""

/-- The response after as many turns as there are indices. -/
theorem handleDeriveAddresses_turns {expression : String} {range : ScanValue}
    {parsed : ScriptDescriptor Script} {first last : Nat}
    (accepted : Accepted wallet expression range parsed first last) :
    (Underived wallet parsed first last ∧
      handleDeriveAddresses wallet (last - first + 1) expression (some range) =
        some (.error .invalidAddressOrKey)) ∨
    (¬Underived wallet parsed first last ∧
      handleDeriveAddresses wallet (last - first + 1) expression (some range) =
        if last = 2 ^ 32 - 1 then none
        else some (.ok ((List.range' first (last - first + 1)).map fun index =>
          addressAt wallet parsed (BitVec.ofNat 32 index)))) := by
  obtain ⟨ordered, bound⟩ := parseScanRange_bounds accepted.bounds
  have word : (BitVec.ofNat 32 last).toNat = last := by
    rw [BitVec.toNat_ofNat, Nat.mod_eq_of_lt bound]
  have turned := @loop_inclusive _ _ _ (deriveAddress wallet parsed) (BitVec.ofNat 32 last) first
    [] (word.symm ▸ ordered)
  rw [word, ← handleDeriveAddresses_accepted accepted, visit_deriveAddress] at turned
  have missing : Underived wallet parsed first last ↔
      ∃ index ∈ indices first (last - first + 1), addressAt wallet parsed index = "" := by
    simp only [mem_indices ordered bound, Underived, and_assoc]
  have greatest : BitVec.ofNat 32 last = BitVec.allOnes 32 ↔ last = 2 ^ 32 - 1 := by
    rw [← BitVec.toNat_inj, word, BitVec.toNat_allOnes]
  by_cases underived : Underived wallet parsed first last
  · left
    rw [if_pos (missing.mp underived)] at turned
    exact ⟨underived, turned⟩
  · right
    rw [if_neg (missing.not.mp underived)] at turned
    dsimp only at turned
    rw [indices, List.map_map, List.nil_append] at turned
    simp only [greatest] at turned
    exact ⟨underived, turned⟩

/-- The derivation does not go wrong except on a range of addresses through the greatest
    index. -/
theorem handleDeriveAddresses_derives_iff {expression : String} {range : ScanValue}
    {parsed : ScriptDescriptor Script} {first last : Nat}
    (accepted : Accepted wallet expression range parsed first last) :
    Derives wallet expression range parsed first last ↔
      last ≠ 2 ^ 32 - 1 ∨ Underived wallet parsed first last := by
  have limited : last - first + 1 ≤ derivationRange := accepted.limited
  obtain ⟨underived, response⟩ | ⟨derived, response⟩ := handleDeriveAddresses_turns accepted
  · apply iff_of_true _ (.inr underived)
    refine ⟨limited, by simp [response], ?_⟩
    intro all
    obtain ⟨index, low, high, missing⟩ := underived
    exact absurd missing (all index low high)
  · rw [or_iff_left derived]
    constructor
    · intro derives greatest
      rw [if_pos greatest] at response
      exact derives.ends response
    · intro lower
      rw [if_neg lower] at response
      exact ⟨limited, by simp [response], fun _ => response⟩

theorem parseScanRange_pair {first last : Nat} (start : Nat) (ordered : first ≤ last)
    (bound : last < 2 ^ 32) :
    parseScanRange start (.array [.number first, .number last]) = some (first, last) := by
  rw [parseScanRange, Text.toInteger_natCast (ordered.trans_lt bound), Text.toInteger_natCast bound]
  exact if_pos ordered

end Derivation

/-- A wallet whose only descriptor has an address at every index. -/
def derivable : ScriptDescriptor Nat := ⟨true, fun index => [index.toNat]⟩

def derivableWallet : Wallet Nat where
  parse _ := some derivable
  versioned _ := false
  witnessAddress _ := ""
  paymentAddress script := some ("m" ++ toString script)

theorem addressAt_derivable (index : BitVec 32) :
    addressAt derivableWallet derivable index ≠ "" := by
  simp [addressAt, derivable, toAddress, derivableWallet]

theorem accepted_derivable {first last : Nat} (ordered : first ≤ last) (bound : last < 2 ^ 32)
    (limited : last - first < derivationRange) :
    Accepted derivableWallet "pkh(key/*)" (.array [.number first, .number last]) derivable
      first last :=
  ⟨rfl, rfl, parseScanRange_pair 0 ordered bound, limited⟩

theorem handleDeriveAddresses_derives_pair :
    Derives derivableWallet "pkh(key/*)" (.array [.number (3 : Nat), .number (4 : Nat)]) derivable
      3 4 :=
  (handleDeriveAddresses_derives_iff
    (accepted_derivable (by decide) (by decide) (by decide))).mpr (.inl (by decide))

/-- At the greatest index the derivation never ends, though every index has an address. -/
theorem handleDeriveAddresses_endless :
    Accepted derivableWallet "pkh(key/*)"
        (.array [.number (4294967295 : Nat), .number (4294967295 : Nat)]) derivable
        4294967295 4294967295 ∧
      (∀ index, addressAt derivableWallet derivable index ≠ "") ∧
      (∀ turns, handleDeriveAddresses derivableWallet turns "pkh(key/*)"
        (some (.array [.number (4294967295 : Nat), .number (4294967295 : Nat)])) = none) ∧
      ¬Derives derivableWallet "pkh(key/*)"
        (.array [.number (4294967295 : Nat), .number (4294967295 : Nat)]) derivable
        4294967295 4294967295 := by
  have accepted := @accepted_derivable 4294967295 4294967295 (by decide) (by decide) (by decide)
  have endless : ∀ turns, handleDeriveAddresses derivableWallet turns "pkh(key/*)"
      (some (.array [.number (4294967295 : Nat), .number (4294967295 : Nat)])) = none := by
    intro turns
    rw [handleDeriveAddresses_accepted accepted]
    apply loop_endless
    intro index out
    exact ⟨_, if_neg (addressAt_derivable index)⟩
  exact ⟨accepted, addressAt_derivable, endless, fun derives => derives.ends (endless _)⟩

end LibbitcoinServer.Bitcoind

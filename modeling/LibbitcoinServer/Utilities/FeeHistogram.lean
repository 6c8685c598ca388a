import LibbitcoinServer.Bitcoind.NetTotals
import LibbitcoinServer.Lib.OrderedMap
import LibbitcoinServer.Lib.Quantile
import Mathlib.Tactic

/-! # Fee histograms

The sizes of the pooled transactions are binned by fee rate, from the highest.  A level is
the transactions of one rate, which no bin divides: a bin is a run of levels, at the rate of
the lowest.
-/

namespace LibbitcoinServer.Utilities

open Bitcoind (ceiling ceilingedAdd Net.ceilingedAdd_min)

/-! ## The code -/

/-- The fee and the size of a transaction. -/
structure FeeRate where
  fee : Nat
  bytes : Nat
  deriving DecidableEq

def ceilingedMultiply (left right : Nat) : Nat := min (left * right) ceiling

/-- The variables of the pass over the rates. -/
structure Histogram (Rate : Type) where
  last : Rate
  size : Nat
  out : List (Rate × Nat)

section Rated

variable {Rate : Type} [LinearOrder Rate]

/-- One turn of the pass: a bin that is full is emitted where the rate changes. -/
def Histogram.add (bin : Nat) (histogram : Histogram Rate) (current : Rate) (bytes : Nat) :
    Histogram Rate :=
  let emitted :=
    if histogram.size > bin ∧ current ≠ histogram.last then
      { histogram with out := histogram.out ++ [(histogram.last, histogram.size)], size := 0 }
    else histogram
  { emitted with last := current, size := ceilingedAdd emitted.size bytes }

/-- The loop over the rates. -/
def Histogram.addRates (bin : Nat) (rate : FeeRate → Rate) (histogram : Histogram Rate)
    (rates : List FeeRate) : Histogram Rate :=
  rates.foldl (fun histogram tx => histogram.add bin (rate tx) tx.bytes) histogram

/-- The last bin is emitted as it is. -/
def Histogram.finish (histogram : Histogram Rate) : List (Rate × Nat) :=
  if histogram.size ≠ 0 then histogram.out ++ [(histogram.last, histogram.size)]
  else histogram.out

/-- The arrangement of the rates is any that the sort of the library leaves. -/
def toFeeHistogram (sort : List FeeRate → List FeeRate) (rate : FeeRate → Rate) (zero : Rate)
    (rates : List FeeRate) (bin : Nat) : List (Rate × Nat) :=
  (Histogram.addRates bin rate ⟨zero, 0, []⟩ (sort rates)).finish

end Rated

/-- The rate of a transaction, without the rounding of the code. -/
def exactRate (tx : FeeRate) : ℚ := if tx.bytes = 0 then 0 else tx.fee / tx.bytes

/-- The sizes of the levels, by descending rate. -/
abbrev Sizes (Rate : Type) [LinearOrder Rate] := OrderedMap Rateᵒᵈ Nat

/-- One turn of the loop that sums the sizes at each rate. -/
def tallyRate {Rate : Type} [LinearOrder Rate] (rate : FeeRate → Rate) (sizes : Sizes Rate)
    (tx : FeeRate) : Sizes Rate :=
  sizes.update (OrderDual.toDual (rate tx)) 0 (ceilingedAdd · tx.bytes)

def tally {Rate : Type} [LinearOrder Rate] (rate : FeeRate → Rate) (rates : List FeeRate) :
    Sizes Rate := rates.foldl (tallyRate rate) .empty

/-- The rates and the sizes of the levels. -/
def levels {Rate : Type} [LinearOrder Rate] (rate : FeeRate → Rate) (rates : List FeeRate) :
    List (Rate × Nat) :=
  (tally rate rates).entries.map fun level => (OrderDual.ofDual level.1, level.2)

/-- The rate of a transaction in tenths. -/
def tenthsRate (tx : FeeRate) : Nat :=
  let fee := ceilingedMultiply tx.fee 10
  if tx.bytes = 0 then 0 else fee / tx.bytes

/-- The variables of the pass over the levels, with the number of times that the limit has
    grown. -/
structure Compact where
  size : Nat
  last : Nat
  grown : Nat
  out : List (Nat × Nat)

/-- A bin is emitted before a level of more than twice the limit. -/
def Compact.yield (limits : Nat → ℚ) (compact : Compact) (bytes : Nat) : Compact :=
  if compact.size ≠ 0 ∧ (bytes : ℚ) > 2 * limits compact.grown then
    { compact with
      out := compact.out ++ [(compact.last, compact.size)], grown := compact.grown + 1, size := 0 }
  else compact

/-- A bin is emitted once it exceeds the limit. -/
def Compact.take (limits : Nat → ℚ) (compact : Compact) (rate bytes : Nat) : Compact :=
  let size := ceilingedAdd compact.size bytes
  if (size : ℚ) > limits compact.grown then
    ⟨0, rate, compact.grown + 1, compact.out ++ [(rate, size)]⟩
  else { compact with size := size, last := rate }

/-- One turn of the pass. -/
def Compact.add (limits : Nat → ℚ) (compact : Compact) (rate bytes : Nat) : Compact :=
  (compact.yield limits bytes).take limits rate bytes

/-- The loop over the levels. -/
def Compact.addLevels (limits : Nat → ℚ) (compact : Compact) (levels : List (Nat × Nat)) :
    Compact := levels.foldl (fun compact level => compact.add limits level.1 level.2) compact

/-- The limits of a bin size, each a tenth above the one before. -/
def growing (bin : Nat) (grown : Nat) : ℚ := bin * (11 / 10) ^ grown

/-- The bins emitted, their rates in tenths, under any sequence of limits. -/
def compactFeeHistogram (limits : Nat → ℚ) (rates : List FeeRate) : List (Nat × Nat) :=
  (Compact.addLevels limits ⟨0, 0, 0, []⟩ (levels tenthsRate rates)).out

def toCompactFeeHistogram (rates : List FeeRate) (bin : Nat) : List (Nat × Nat) :=
  compactFeeHistogram (growing bin) rates

/-! ## Saturation -/

theorem ceilingedAdd_assoc (one two three : Nat) :
    ceilingedAdd (ceilingedAdd one two) three = ceilingedAdd one (ceilingedAdd two three) := by
  unfold ceilingedAdd
  omega

theorem ceilingedAdd_right_comm (one two three : Nat) :
    ceilingedAdd (ceilingedAdd one two) three = ceilingedAdd (ceilingedAdd one three) two := by
  unfold ceilingedAdd
  omega

theorem ceilingedAdd_zero_left (one two : Nat) :
    ceilingedAdd one (ceilingedAdd 0 two) = ceilingedAdd one two := by
  unfold ceilingedAdd
  omega

theorem ceilingedAdd_eq {one two : Nat} (fits : one + two ≤ ceiling) :
    ceilingedAdd one two = one + two := Nat.min_eq_left fits

/-! ## The levels -/

def total (rates : List FeeRate) : Nat := (rates.map FeeRate.bytes).sum

@[simp] theorem total_nil : total [] = 0 := rfl

@[simp] theorem total_cons (tx : FeeRate) (rates : List FeeRate) :
    total (tx :: rates) = tx.bytes + total rates := List.sum_cons

theorem total_single (tx : FeeRate) : total [tx] = tx.bytes := List.sum_singleton

@[simp] theorem total_append (one two : List FeeRate) :
    total (one ++ two) = total one + total two := Quantile.total_append FeeRate.bytes one two

theorem total_filter_le (rates : List FeeRate) (kept : FeeRate → Bool) :
    total (rates.filter kept) ≤ total rates := Quantile.total_filter_le kept

section Levels

variable {Rate : Type} [LinearOrder Rate] {rate : FeeRate → Rate}

theorem tallyRate_comm (sizes : Sizes Rate) (one two : FeeRate) :
    tallyRate rate (tallyRate rate sizes one) two =
      tallyRate rate (tallyRate rate sizes two) one := by
  unfold tallyRate
  by_cases same : rate one = rate two
  · rw [same, OrderedMap.update_update_same, OrderedMap.update_update_same]
    congr 1
    funext size
    exact ceilingedAdd_right_comm size one.bytes two.bytes
  · exact OrderedMap.update_comm (OrderDual.toDual.injective.ne same)

/-- The levels do not depend on the order of the rates. -/
theorem tally_perm {rates others : List FeeRate} (perm : rates.Perm others) :
    tally rate rates = tally rate others := by
  have commutes : RightCommutative (tallyRate rate) := ⟨tallyRate_comm⟩
  exact perm.foldl_eq _

theorem tally_concat (rates : List FeeRate) (tx : FeeRate) :
    tally rate (rates ++ [tx]) = tallyRate rate (tally rate rates) tx := List.foldl_concat ..

/-- A level is there for each rate, with the size of its transactions. -/
theorem find?_tally (rates : List FeeRate) (level : Rate) :
    (tally rate rates).find? (OrderDual.toDual level) =
      if ∃ tx ∈ rates, rate tx = level then
        some (min (total (rates.filter (rate · = level))) ceiling)
      else none := by
  induction rates using List.reverseRecOn with
  | nil => simp [tally]
  | append_singleton rates tx ih =>
      have held : ((tally rate rates).find? (OrderDual.toDual level)).getD 0 =
          min (total (rates.filter (rate · = level))) ceiling := by
        rw [ih]
        split_ifs with present
        · rfl
        · have none : rates.filter (rate · = level) = [] := by
            rw [List.filter_eq_nil_iff]
            intro other member same
            exact present ⟨other, member, of_decide_eq_true same⟩
          rw [none]
          rfl
      rw [tally_concat, tallyRate, OrderedMap.find?_update, List.filter_append, total_append]
      by_cases same : level = rate tx
      · subst same
        rw [if_pos rfl, if_pos ⟨tx, by simp⟩, held, Net.ceilingedAdd_min]
        simp
      · rw [if_neg (OrderDual.toDual.injective.ne same), ih]
        have other : ¬rate tx = level := fun equal => same equal.symm
        simp [other, or_and_right, exists_or]

/-- The keys of the levels are the rates. -/
theorem exists_of_mem_tally {rates : List FeeRate} {level : Rateᵒᵈ × Nat}
    (member : level ∈ (tally rate rates).entries) :
    ∃ tx ∈ rates, rate tx = OrderDual.ofDual level.1 := by
  have found := @find?_tally _ _ rate rates (OrderDual.ofDual level.1)
  rw [OrderDual.toDual_ofDual, OrderedMap.find?_eq_some.mpr member] at found
  by_contra missing
  rw [if_neg missing] at found
  cases found

theorem Histogram.add_same (bin : Nat) (histogram : Histogram Rate) (current : Rate)
    (one two : Nat) :
    (histogram.add bin current one).add bin current two =
      histogram.add bin current (ceilingedAdd one two) := by
  have kept : ¬((histogram.add bin current one).size > bin ∧
      current ≠ (histogram.add bin current one).last) := fun emitted => emitted.2 rfl
  rw [Histogram.add, if_neg kept]
  simp only [Histogram.add, ceilingedAdd_assoc]

theorem Histogram.add_fresh (bin : Nat) (histogram : Histogram Rate) (current : Rate)
    (bytes : Nat) :
    histogram.add bin current (ceilingedAdd 0 bytes) = histogram.add bin current bytes := by
  simp only [Histogram.add, ceilingedAdd_zero_left]

/-- The loop over the levels in place of the rates. -/
def Histogram.addLevels (bin : Nat) (histogram : Histogram Rate) (levels : List (Rateᵒᵈ × Nat)) :
    Histogram Rate :=
  levels.foldl (fun histogram level => histogram.add bin (OrderDual.ofDual level.1) level.2)
    histogram

/-- The order of the transactions of one rate makes no difference. -/
theorem addRates_eq_addLevels (bin : Nat) (start : Histogram Rate) {sorted : List FeeRate}
    (descending : sorted.Pairwise fun first second => rate second ≤ rate first) :
    start.addRates bin rate sorted = start.addLevels bin (tally rate sorted).entries := by
  induction sorted using List.reverseRecOn with
  | nil => rfl
  | append_singleton sorted tx ih =>
      rw [List.pairwise_append] at descending
      have before := ih descending.1
      have greatest : ∀ level ∈ (tally rate sorted).entries,
          level.1 ≤ OrderDual.toDual (rate tx) := by
        intro level member
        obtain ⟨other, listed, same⟩ := exists_of_mem_tally member
        have bound := descending.2.2 other listed tx (List.mem_singleton_self tx)
        rw [same] at bound
        exact bound
      rw [Histogram.addRates, List.foldl_concat, tally_concat, tallyRate]
      rw [Histogram.addRates] at before
      rw [before]
      cases found : (tally rate sorted).find? (OrderDual.toDual (rate tx)) with
      | none =>
          have fresh : ∀ level ∈ (tally rate sorted).entries,
              level.1 < OrderDual.toDual (rate tx) := by
            intro level member
            apply lt_of_le_of_ne (greatest level member)
            intro same
            exact OrderedMap.find?_eq_none.mp found level.2 (same ▸ member)
          rw [OrderedMap.entries_update_fresh fresh, Histogram.addLevels, Histogram.addLevels,
            List.foldl_concat, Histogram.add_fresh]
          rfl
      | some size =>
          obtain ⟨others, last⟩ := OrderedMap.exists_entries_of_greatest found greatest
          rw [OrderedMap.entries_update_present last, last, Histogram.addLevels,
            Histogram.addLevels, List.foldl_concat, List.foldl_concat]
          exact Histogram.add_same bin _ (rate tx) size tx.bytes

end Levels

/-! ## The bins of the pool -/

section Binned

variable {Rate : Type} [LinearOrder Rate] {rate : FeeRate → Rate}

/-- A bin holds some transactions, at the lowest of their rates. -/
def Holds (rate : FeeRate → Rate) (group : List FeeRate) (entry : Rate × Nat) : Prop :=
  (∃ tx ∈ group, rate tx = entry.1) ∧ (∀ tx ∈ group, entry.1 ≤ rate tx) ∧ entry.2 = total group

/-- All of some transactions have higher rates than all of others. -/
def Above (rate : FeeRate → Rate) (one two : List FeeRate) : Prop :=
  ∀ first ∈ one, ∀ second ∈ two, rate second < rate first

theorem holds_single (tx : FeeRate) : Holds rate [tx] (rate tx, total [tx]) := by
  refine ⟨⟨tx, List.mem_singleton_self tx, rfl⟩, ?_, rfl⟩
  intro other member
  rw [List.mem_singleton.mp member]

theorem holds_concat {held : List FeeRate} {tx : FeeRate}
    (below : ∀ first ∈ held, rate tx ≤ rate first) :
    Holds rate (held ++ [tx]) (rate tx, total (held ++ [tx])) := by
  refine ⟨⟨tx, by simp, rfl⟩, ?_, rfl⟩
  rw [List.forall_mem_append]
  exact ⟨below, by simp⟩

/-- The groups of some transactions, with the bins that hold them. -/
structure Grouped (rate : FeeRate → Rate) (bin : Nat) (rates : List FeeRate)
    (groups : List (List FeeRate)) (bins : List (Rate × Nat)) : Prop where
  flat : groups.flatten = rates
  held : List.Forall₂ (Holds rate) groups bins
  above : groups.Pairwise (Above rate)
  filled : ∀ entry ∈ bins.dropLast, bin < entry.2

theorem grouped_single {bin : Nat} {held : List FeeRate} {entry : Rate × Nat}
    (holds : Holds rate held entry) : Grouped rate bin held [held] [entry] where
  flat := List.flatten_singleton
  held := .cons holds .nil
  above := List.pairwise_singleton _ _
  filled := nofun

/-- A full bin before the bins of transactions of lower rates. -/
theorem Grouped.cons {bin : Nat} {held rates : List FeeRate} {entry : Rate × Nat}
    {groups : List (List FeeRate)} {bins : List (Rate × Nat)}
    (grouped : Grouped rate bin rates groups bins) (some : bins ≠ [])
    (holds : Holds rate held entry) (full : bin < entry.2) (above : Above rate held rates) :
    Grouped rate bin (held ++ rates) (held :: groups) (entry :: bins) where
  flat := by rw [List.flatten_cons, grouped.flat]
  held := .cons holds grouped.held
  above := by
    rw [List.pairwise_cons]
    refine ⟨?_, grouped.above⟩
    intro group inside first listed second also
    apply above first listed
    rw [← grouped.flat]
    exact List.mem_flatten.mpr ⟨group, inside, also⟩
  filled := by
    rw [List.dropLast_cons_of_ne_nil some, List.forall_mem_cons]
    exact ⟨full, grouped.filled⟩

/-- From a bin that holds transactions already, the rest of the pass completes this bin and
    emits others for the transactions left. -/
theorem exists_groups (bin : Nat) {held rates : List FeeRate} {last : Rate}
    (out : List (Rate × Nat)) (holds : Holds rate held (last, total held))
    (sorted : (held ++ rates).Pairwise fun first second => rate second ≤ rate first)
    (positive : 0 < total held) (sized : ∀ tx ∈ rates, 0 < tx.bytes)
    (fits : total (held ++ rates) ≤ ceiling) :
    ∃ groups bins, Grouped rate bin (held ++ rates) groups bins ∧ bins ≠ [] ∧
      (Histogram.addRates bin rate ⟨last, total held, out⟩ rates).finish = out ++ bins := by
  induction rates generalizing held last out with
  | nil =>
      refine ⟨[held], [(last, total held)], ?_, List.cons_ne_nil _ _, ?_⟩
      · rw [List.append_nil]
        exact grouped_single holds
      · rw [Histogram.addRates, List.foldl_nil, Histogram.finish, if_pos positive.ne']
  | cons tx rates ih =>
      rw [List.forall_mem_cons] at sized
      have below : ∀ first ∈ held, rate tx ≤ rate first := by
        intro first listed
        exact (List.pairwise_append.mp sorted).2.2 first listed tx List.mem_cons_self
      have rest : ∀ second ∈ tx :: rates, rate second ≤ rate tx := by
        rw [List.forall_mem_cons]
        exact ⟨le_refl _, (List.pairwise_cons.mp (List.pairwise_append.mp sorted).2.1).1⟩
      rw [total_append, total_cons] at fits
      rw [Histogram.addRates, List.foldl_cons, ← Histogram.addRates, Histogram.add]
      by_cases full : total held > bin ∧ rate tx ≠ last
      · -- The bin is emitted, and the next one holds the transaction alone.
        obtain ⟨groups, bins, grouped, some, result⟩ := ih (out ++ [(last, total held)])
          (holds_single tx) (List.pairwise_append.mp sorted).2.1
          (total_single tx ▸ sized.1) sized.2 (by simp only [total_append, total_single]; omega)
        refine ⟨held :: groups, (last, total held) :: bins, ?_, List.cons_ne_nil _ _, ?_⟩
        · apply grouped.cons some holds full.1
          obtain ⟨⟨lowest, member, same⟩, least, -⟩ := holds
          have lower : rate tx < last :=
            lt_of_le_of_ne ((below lowest member).trans_eq same) full.2
          intro first listed second later
          exact ((rest second later).trans_lt lower).trans_le (least first listed)
        · rw [if_pos full]
          dsimp only
          rw [ceilingedAdd_eq (by omega), Nat.zero_add, ← total_single, result, List.append_assoc,
            List.singleton_append]
      · -- The bin is not full or its rate goes on, and it takes the transaction.
        obtain ⟨groups, bins, grouped, some, result⟩ := ih out (holds_concat below)
          (by simpa using sorted) (by rw [total_append]; omega) sized.2
          (by simp only [total_append, total_single]; omega)
        refine ⟨groups, bins, ?_, some, ?_⟩
        · rw [List.append_assoc] at grouped
          exact grouped
        · rw [if_neg full]
          dsimp only
          rw [ceilingedAdd_eq (by omega), ← result, total_append, total_single]

/-- What is known of the sort: an arrangement by descending rate, of which transactions of
    one rate may be in any order. -/
def Sorts (rate : FeeRate → Rate) (sort : List FeeRate → List FeeRate) : Prop :=
  ∀ rates, (sort rates).Perm rates ∧
    (sort rates).Pairwise fun first second => rate second ≤ rate first

theorem total_perm {rates others : List FeeRate} (perm : rates.Perm others) :
    total rates = total others := Quantile.total_perm FeeRate.bytes perm

theorem sum_bins {groups : List (List FeeRate)} {bins : List (Rate × Nat)}
    (held : List.Forall₂ (Holds rate) groups bins) :
    (bins.map Prod.snd).sum = total groups.flatten := by
  induction held with
  | nil => rfl
  | cons first rest ih =>
      rw [List.map_cons, List.sum_cons, List.flatten_cons, total_append, ih, first.2.2]

theorem rates_descending {groups : List (List FeeRate)} {bins : List (Rate × Nat)}
    (held : List.Forall₂ (Holds rate) groups bins) (above : groups.Pairwise (Above rate)) :
    (bins.map Prod.fst).Pairwise (· > ·) := by
  induction held with
  | nil => exact .nil
  | @cons group entry groups bins first rest ih =>
      rw [List.pairwise_cons] at above
      rw [List.map_cons, List.pairwise_cons]
      refine ⟨?_, ih above.2⟩
      intro lower member
      obtain ⟨other, listed, rfl⟩ := List.mem_map.mp member
      obtain ⟨place, bound, rfl⟩ := List.getElem_of_mem listed
      have here : place < groups.length := rest.length_eq ▸ bound
      have paired := rest.get here bound
      obtain ⟨tx, inside, same⟩ := paired.1
      obtain ⟨lowest, member, equal⟩ := first.1
      have lower := above.1 _ (List.get_mem groups ⟨place, here⟩) lowest member tx inside
      rw [same, equal] at lower
      exact lower

theorem groups_of_sorted (zero : Rate) (bin : Nat) {sorted : List FeeRate}
    (descending : sorted.Pairwise fun first second => rate second ≤ rate first)
    (positive : ∀ tx ∈ sorted, 0 < tx.bytes) (fits : total sorted ≤ ceiling) :
    ∃ groups, Grouped rate bin sorted groups
      (Histogram.addRates bin rate ⟨zero, 0, []⟩ sorted).finish := by
  cases sorted with
  | nil => exact ⟨[], rfl, .nil, .nil, nofun⟩
  | cons tx rates =>
      rw [List.forall_mem_cons] at positive
      obtain ⟨groups, bins, grouped, -, result⟩ := exists_groups bin [] (holds_single tx) descending
        (total_single tx ▸ positive.1) positive.2 fits
      have start : Histogram.addRates bin rate ⟨zero, 0, []⟩ (tx :: rates) =
          Histogram.addRates bin rate ⟨rate tx, total [tx], []⟩ rates := by
        rw [total_cons] at fits
        rw [Histogram.addRates, List.foldl_cons, ← Histogram.addRates, Histogram.add]
        simp only [gt_iff_lt, Nat.not_lt_zero, false_and, if_false]
        rw [ceilingedAdd_eq (by omega), Nat.zero_add, total_single]
      rw [start, result, List.nil_append]
      exact ⟨groups, grouped⟩

variable {sort : List FeeRate → List FeeRate}

theorem toFeeHistogram_perm (sorts : Sorts rate sort) (zero : Rate) (bin : Nat)
    {rates others : List FeeRate} (perm : others.Perm rates) :
    toFeeHistogram sort rate zero others bin = toFeeHistogram sort rate zero rates bin := by
  have arranged := (sorts others).1.trans (perm.trans (sorts rates).1.symm)
  unfold toFeeHistogram
  rw [addRates_eq_addLevels bin _ (sorts others).2, addRates_eq_addLevels bin _ (sorts rates).2,
    tally_perm arranged]

/-- The histogram partitions the pool by rate: its bins descend, hold all there is, exceed
    the bin size before the last, and are the same in whatever order the pool is listed. -/
theorem toFeeHistogram_partitions (sorts : Sorts rate sort) (zero : Rate) (rates : List FeeRate)
    (bin : Nat) (positive : ∀ tx ∈ rates, 0 < tx.bytes) (fits : total rates ≤ ceiling) :
    ((toFeeHistogram sort rate zero rates bin).map Prod.fst).Pairwise (· > ·) ∧
      ((toFeeHistogram sort rate zero rates bin).map Prod.snd).sum = total rates ∧
      (∀ entry ∈ (toFeeHistogram sort rate zero rates bin).dropLast, bin < entry.2) ∧
      (∃ groups : List (List FeeRate), groups.flatten.Perm rates ∧ groups.Pairwise (Above rate) ∧
        List.Forall₂ (Holds rate) groups (toFeeHistogram sort rate zero rates bin)) ∧
      ∀ others : List FeeRate, others.Perm rates →
        toFeeHistogram sort rate zero others bin = toFeeHistogram sort rate zero rates bin := by
  obtain ⟨arranged, descending⟩ := sorts rates
  obtain ⟨groups, grouped⟩ := groups_of_sorted zero bin descending
    (fun tx member => positive tx (arranged.subset member)) (total_perm arranged ▸ fits)
  refine ⟨rates_descending grouped.held grouped.above, ?_, grouped.filled,
    ⟨groups, grouped.flat ▸ arranged, grouped.above, grouped.held⟩, ?_⟩
  · have sum := sum_bins grouped.held
    rw [grouped.flat, total_perm arranged] at sum
    exact sum
  · intro others perm
    exact toFeeHistogram_perm sorts zero bin perm

end Binned

/-- A sort by descending rate. -/
theorem mergeSort_sorts {Rate : Type} [LinearOrder Rate] (rate : FeeRate → Rate) :
    Sorts rate fun rates => rates.mergeSort fun first second => rate second ≤ rate first := by
  intro rates
  constructor
  · exact List.mergeSort_perm _ _
  · have sorted : (rates.mergeSort fun first second => rate second ≤ rate first).Pairwise
        fun first second => decide (rate second ≤ rate first) = true := by
      apply List.pairwise_mergeSort
      · intro one two three above below
        simp only [decide_eq_true_eq] at above below ⊢
        exact below.trans above
      · intro one two
        simpa using le_total (rate two) (rate one)
    simpa using sorted

/-- Three transactions at two rates. -/
private def threeRates : List FeeRate := [⟨30, 10⟩, ⟨10, 20⟩, ⟨60, 20⟩]

theorem toFeeHistogram_partitions_three :
    let sort := fun rates : List FeeRate => rates.mergeSort fun first second =>
      exactRate second ≤ exactRate first
    let bins := toFeeHistogram sort exactRate 0 threeRates 15
    (bins.map Prod.fst).Pairwise (· > ·) ∧ (bins.map Prod.snd).sum = 50 ∧
      (∀ entry ∈ bins.dropLast, 15 < entry.2) ∧
      (∃ groups : List (List FeeRate), groups.flatten.Perm threeRates ∧
        groups.Pairwise (Above exactRate) ∧ List.Forall₂ (Holds exactRate) groups bins) ∧
      ∀ others : List FeeRate, others.Perm threeRates →
        toFeeHistogram sort exactRate 0 others 15 = bins :=
  toFeeHistogram_partitions (mergeSort_sorts exactRate) 0 threeRates 15 (by decide) (by decide)

/-! ## The bins of the levels -/

/-- A bin is a run of levels, at the rate of the lowest. -/
def Covers (run : List (Nat × Nat)) (entry : Nat × Nat) : Prop :=
  (∃ size, run.getLast? = some (entry.1, size)) ∧ entry.2 = (run.map Prod.snd).sum

/-- What a pass emits from the levels held and those left: bins that cover runs of them from
    the highest, and a tail within the limit. -/
def Packs (limits : Nat → ℚ) (levels : List (Nat × Nat)) (before after : Compact) : Prop :=
  ∃ runs bins tail, levels = runs.flatten ++ tail ∧ List.Forall₂ Covers runs bins ∧
    after.out = before.out ++ bins ∧ after.grown = before.grown + bins.length ∧
    ((tail.map Prod.snd).sum : ℚ) ≤ limits after.grown

theorem Packs.emit {limits : Nat → ℚ} {run levels : List (Nat × Nat)}
    {before between after : Compact} (entry : Nat × Nat) (covers : Covers run entry)
    (out : between.out = before.out ++ [entry]) (grown : between.grown = before.grown + 1)
    (packs : Packs limits levels between after) : Packs limits (run ++ levels) before after := by
  obtain ⟨runs, bins, tail, split, covered, outs, grows, low⟩ := packs
  refine ⟨run :: runs, entry :: bins, tail, ?_, .cons covers covered, ?_, ?_, low⟩
  · rw [split, List.flatten_cons, List.append_assoc]
  · rw [outs, out, List.append_assoc, List.singleton_append]
  · rw [grows, grown, List.length_cons]
    omega

/-- The levels held since the last bin. -/
structure Compact.Holds (compact : Compact) (held : List (Nat × Nat)) : Prop where
  size : compact.size = (held.map Prod.snd).sum
  last : ∀ level, held.getLast? = some level → compact.last = level.1

theorem Compact.holds_nil (last grown : Nat) (out : List (Nat × Nat)) :
    Compact.Holds ⟨0, last, grown, out⟩ [] := ⟨rfl, nofun⟩

/-- A turn emits the levels held with its own, or holds them all within the limit. -/
theorem Compact.Holds.take_cases {limits : Nat → ℚ} {compact : Compact}
    {held : List (Nat × Nat)} (holds : compact.Holds held) (level : Nat × Nat)
    (fits : compact.size + level.2 ≤ ceiling) :
    (∃ entry, Covers (held ++ [level]) entry ∧ compact.take limits level.1 level.2 =
      ⟨0, level.1, compact.grown + 1, compact.out ++ [entry]⟩) ∨
    ∃ kept : Compact, kept.Holds (held ++ [level]) ∧ (kept.size : ℚ) ≤ limits compact.grown ∧
      compact.take limits level.1 level.2 =
        { kept with grown := compact.grown, out := compact.out } := by
  have both : ((held ++ [level]).map Prod.snd).sum = compact.size + level.2 := by
    rw [holds.size]
    simp
  rw [Compact.take, ceilingedAdd_eq fits]
  split_ifs with exceeded
  · exact .inl ⟨(level.1, compact.size + level.2), ⟨⟨level.2, List.getLast?_concat⟩, both.symm⟩,
      rfl⟩
  · right
    refine ⟨{ compact with size := compact.size + level.2, last := level.1 }, ⟨both.symm, ?_⟩,
      not_lt.mp exceeded, rfl⟩
    intro last here
    rw [List.getLast?_concat] at here
    cases here
    rfl

/-- Before a large level the levels held are emitted. -/
theorem Compact.Holds.yield_cases {limits : Nat → ℚ} {compact : Compact}
    {held : List (Nat × Nat)} (holds : compact.Holds held) (bytes : Nat) :
    compact.yield limits bytes = compact ∨
      ∃ entry, Covers held entry ∧ compact.yield limits bytes =
        ⟨0, compact.last, compact.grown + 1, compact.out ++ [entry]⟩ := by
  unfold Compact.yield
  split_ifs with large
  · right
    have some : held ≠ [] := by
      intro none
      rw [holds.size, none] at large
      exact large.1 rfl
    have last := List.getLast?_eq_some_getLast some
    refine ⟨(compact.last, compact.size), ⟨⟨(held.getLast some).2, ?_⟩, holds.size⟩, rfl⟩
    rw [holds.last _ last, last]
  · exact .inl rfl

theorem packs_addLevels {limits : Nat → ℚ} (nonnegative : ∀ grown, 0 ≤ limits grown)
    {levels held : List (Nat × Nat)} {compact : Compact} (holds : compact.Holds held)
    (low : (compact.size : ℚ) ≤ limits compact.grown)
    (fits : ((held ++ levels).map Prod.snd).sum ≤ ceiling) :
    Packs limits (held ++ levels) compact (compact.addLevels limits levels) := by
  induction levels generalizing held compact with
  | nil =>
      refine ⟨[], [], held, by simp, .nil, by simp [Compact.addLevels], by simp [Compact.addLevels],
        ?_⟩
      rw [Compact.addLevels, List.foldl_nil]
      exact_mod_cast holds.size ▸ low
  | cons level levels ih =>
      -- What is left after a bin fits as well.
      have later : ∀ {before after : List (Nat × Nat)},
          ((before ++ after).map Prod.snd).sum ≤ ceiling →
            (([] ++ after).map Prod.snd).sum ≤ ceiling := by
        intro before after sum
        rw [List.map_append, List.sum_append] at sum
        exact (Nat.le_add_left _ _).trans sum
      have turn : ∀ {held : List (Nat × Nat)} {yielded : Compact}, yielded.Holds held →
          ((held ++ level :: levels).map Prod.snd).sum ≤ ceiling →
          Packs limits (held ++ level :: levels) yielded
            ((yielded.take limits level.1 level.2).addLevels limits levels) := by
        intro held yielded holds fits
        have sum : yielded.size + level.2 ≤ ceiling := by
          rw [List.map_append, List.sum_append, ← holds.size, List.map_cons, List.sum_cons] at fits
          omega
        rw [List.append_cons] at fits ⊢
        cases holds.take_cases level sum with
        | inl emitted =>
            obtain ⟨entry, covers, taken⟩ := emitted
            rw [taken]
            have packs := ih (Compact.holds_nil level.1 (yielded.grown + 1)
              (yielded.out ++ [entry])) (by exact_mod_cast nonnegative _) (later fits)
            exact packs.emit entry covers rfl rfl
        | inr within =>
            obtain ⟨kept, holds, low, taken⟩ := within
            rw [taken]
            exact @ih _ { kept with grown := yielded.grown, out := yielded.out }
              ⟨holds.size, holds.last⟩ low fits
      rw [Compact.addLevels, List.foldl_cons, ← Compact.addLevels, Compact.add]
      cases holds.yield_cases level.2 with
      | inl same =>
          rw [same]
          exact turn holds fits
      | inr emitted =>
          obtain ⟨entry, covers, yielded⟩ := emitted
          rw [yielded]
          have packs := turn (Compact.holds_nil compact.last (compact.grown + 1)
            (compact.out ++ [entry])) (later fits)
          exact packs.emit entry covers rfl rfl

/-- The levels, by descending rate, of which each is the transactions of one rate. -/
structure Levels (rates : List FeeRate) (levels : List (Nat × Nat)) : Prop where
  descending : (levels.map Prod.fst).Pairwise (· > ·)
  level : ∀ rate size, (rate, size) ∈ levels ↔
    (∃ tx ∈ rates, tenthsRate tx = rate) ∧ size = total (rates.filter (tenthsRate · = rate))

theorem levels_levels {rates : List FeeRate} (fits : total rates ≤ ceiling) :
    Levels rates (levels tenthsRate rates) where
  descending := by
    rw [levels, List.map_map, List.pairwise_map]
    exact (tally tenthsRate rates).sorted
  level rate size := by
    have listed : (rate, size) ∈ levels tenthsRate rates ↔
        (tally tenthsRate rates).find? (OrderDual.toDual rate) = some size := by
      rw [OrderedMap.find?_eq_some, levels, List.mem_map]
      constructor
      · intro ⟨level, member, same⟩
        cases same
        exact member
      · intro member
        exact ⟨_, member, rfl⟩
    have small := (total_filter_le rates (tenthsRate · = rate)).trans fits
    rw [listed, find?_tally, min_eq_left small]
    split_ifs with present
    · rw [Option.some.injEq, eq_comm]
      exact (and_iff_right present).symm
    · exact iff_of_false nofun fun both => present both.1

theorem total_filter_add (rates : List FeeRate) (rate : Nat) :
    total (rates.filter (tenthsRate · = rate)) + total (rates.filter (tenthsRate · ≠ rate)) =
      total rates := by
  have parts := total_perm (List.filter_append_perm (tenthsRate · = rate) rates)
  rw [total_append] at parts
  simp only [ne_eq, decide_not]
  exact parts

/-- The sizes at distinct rates, which are all that there are, are all of the pool. -/
theorem sum_totals {keys : List Nat} {rates : List FeeRate} (distinct : keys.Nodup)
    (covers : ∀ tx ∈ rates, tenthsRate tx ∈ keys) :
    (keys.map fun key => total (rates.filter (tenthsRate · = key))).sum = total rates := by
  induction keys generalizing rates with
  | nil =>
      have none : rates = [] := List.eq_nil_iff_forall_not_mem.mpr fun tx member =>
        absurd (covers tx member) List.not_mem_nil
      rw [none]
      rfl
  | cons key keys ih =>
      rw [List.nodup_cons] at distinct
      have others : ∀ other ∈ keys, total (rates.filter (tenthsRate · = other)) =
          total ((rates.filter (tenthsRate · ≠ key)).filter (tenthsRate · = other)) := by
        intro other member
        rw [List.filter_filter]
        congr 1
        apply List.filter_congr
        intro tx _
        have apart : other ≠ key := fun same => distinct.1 (same ▸ member)
        by_cases same : tenthsRate tx = other
        · simp [same, apart]
        · simp [same]
      have covered : ∀ tx ∈ rates.filter (tenthsRate · ≠ key), tenthsRate tx ∈ keys := by
        intro tx member
        rw [List.mem_filter, decide_eq_true_eq] at member
        exact List.mem_of_ne_of_mem member.2 (covers tx member.1)
      have rest := ih distinct.2 covered
      rw [List.map_cons, List.sum_cons, List.map_congr_left others, rest, total_filter_add]

theorem Levels.sum {rates : List FeeRate} {levels : List (Nat × Nat)} (all : Levels rates levels) :
    (levels.map Prod.snd).sum = total rates := by
  have sizes : levels.map Prod.snd =
      (levels.map Prod.fst).map fun key => total (rates.filter (tenthsRate · = key)) := by
    rw [List.map_map]
    apply List.map_congr_left
    intro level member
    exact ((all.level level.1 level.2).mp member).2
  rw [sizes]
  apply sum_totals
  · exact all.descending.imp fun {_ _} above => above.ne'
  · intro tx member
    exact List.mem_map.mpr ⟨_, (all.level _ _).mpr ⟨⟨tx, member, rfl⟩, rfl⟩, rfl⟩

theorem covered_sublist {runs : List (List (Nat × Nat))} {bins : List (Nat × Nat)}
    (covered : List.Forall₂ Covers runs bins) :
    (bins.map Prod.fst).Sublist (runs.flatten.map Prod.fst) := by
  induction covered with
  | nil => exact .slnil
  | @cons run entry runs bins first rest ih =>
      obtain ⟨⟨size, last⟩, -⟩ := first
      have member : entry.1 ∈ run.map Prod.fst :=
        List.mem_map.mpr ⟨_, List.mem_of_getLast? last, rfl⟩
      rw [List.flatten_cons, List.map_append, List.map_cons, ← List.singleton_append]
      exact (List.singleton_sublist.mpr member).append ih

/-- The compact histogram conserves the sizes up to a tail within the limit: its bins
    descend, cover runs of the levels from the highest with none left out between, and are
    the same in whatever order the pool is listed. -/
theorem compactFeeHistogram_conserves (limits : Nat → ℚ)
    (nonnegative : ∀ grown, 0 ≤ limits grown) (rates : List FeeRate)
    (fits : total rates ≤ ceiling) :
    ((compactFeeHistogram limits rates).map Prod.fst).Pairwise (· > ·) ∧
      (∃ levels runs tail, Levels rates levels ∧ levels = runs.flatten ++ tail ∧
        List.Forall₂ Covers runs (compactFeeHistogram limits rates) ∧
        ((tail.map Prod.snd).sum : ℚ) ≤ limits (compactFeeHistogram limits rates).length) ∧
      ∀ others : List FeeRate, others.Perm rates →
        compactFeeHistogram limits others = compactFeeHistogram limits rates := by
  have all := levels_levels fits
  have sized : (([] ++ levels tenthsRate rates).map Prod.snd).sum ≤ ceiling := by
    rw [List.nil_append, all.sum]
    exact fits
  have packs := packs_addLevels nonnegative (Compact.holds_nil 0 0 [])
    (by exact_mod_cast nonnegative 0) sized
  obtain ⟨runs, bins, tail, split, covered, out, grown, low⟩ := packs
  have result : compactFeeHistogram limits rates = bins := out
  rw [grown, Nat.zero_add] at low
  rw [List.nil_append] at split
  rw [result]
  refine ⟨?_, ⟨_, runs, tail, all, split, covered, low⟩, ?_⟩
  · have descending := all.descending
    rw [split, List.map_append] at descending
    exact ((List.pairwise_append.mp descending).1).sublist (covered_sublist covered)
  · intro others perm
    rw [← result]
    unfold compactFeeHistogram levels
    rw [tally_perm perm]

theorem growing_nonneg (bin grown : Nat) : 0 ≤ growing bin grown := by
  unfold growing
  positivity

theorem compactFeeHistogram_conserves_growing :
    ((toCompactFeeHistogram threeRates 15).map Prod.fst).Pairwise (· > ·) ∧
      (∃ levels runs tail, Levels threeRates levels ∧ levels = runs.flatten ++ tail ∧
        List.Forall₂ Covers runs (toCompactFeeHistogram threeRates 15) ∧
        ((tail.map Prod.snd).sum : ℚ) ≤ growing 15 (toCompactFeeHistogram threeRates 15).length) ∧
      ∀ others : List FeeRate, others.Perm threeRates →
        toCompactFeeHistogram others 15 = toCompactFeeHistogram threeRates 15 :=
  compactFeeHistogram_conserves (growing 15) (growing_nonneg 15) threeRates (by decide)

end LibbitcoinServer.Utilities

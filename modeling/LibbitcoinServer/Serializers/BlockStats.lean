import LibbitcoinServer.Bitcoind.NetTotals
import LibbitcoinServer.Lib.Quantile
import LibbitcoinServer.Lib.Run
import Mathlib.Tactic

/-! # Block statistics

One pass over the transactions of a block sums and bounds what they pay and how large they
are.  The percentiles of the fee rates are weighted: a pass over the sorted rates assigns each
cut once the weight so far reaches it.  The arithmetic is exact, as is that of the cuts.
-/

namespace LibbitcoinServer.Serializers

open Bitcoind (ceiling)
open Quantile

/-! ## The code -/

/-- An output, with whether its script is unspendable. -/
structure Output where
  value : Nat
  isUnspendable : Bool

structure Transaction where
  outputs : List Output
  isCoinbase : Bool
  /-- The values of the previous outputs. -/
  inputs : List Nat
  serializedSize : Nat
  weight : Nat
  isSegregated : Bool

structure Block (Digest : Type) where
  hash : Digest
  timestamp : UInt32
  transactions : List Transaction

/-- A fee rate and the weight that pays it.  Pairs compare by their first element first. -/
abbrev Rated := Nat ×ₗ Nat

def Rated.rate (rated : Rated) : Nat := (ofLex rated).1

def Rated.weight (rated : Rated) : Nat := (ofLex rated).2

def ascending {Value : Type} [LinearOrder Value] (values : List Value) : List Value :=
  values.mergeSort (· ≤ ·)

/-- The mean of the middle pair for even counts. -/
def truncatedMedian (values : List Nat) : Nat :=
  if values.isEmpty then 0
  else
    let values := ascending values
    let middle := values.length / 2
    if values.length % 2 = 0 then
      (values[middle - 1]?.getD 0 + values[middle]?.getD 0) / 2
    else values[middle]?.getD 0

def cuts (totalWeight : Nat) : List ℚ :=
  [totalWeight / 10, totalWeight / 4, totalWeight / 2, 3 * totalWeight / 4, 9 * totalWeight / 10]

/-- The variables of the pass over the rates. -/
structure Percentiles where
  next : Nat := 0
  cumulative : Nat := 0
  out : List Nat := List.replicate 5 0

/-- The inner loop assigns each cut that the weight has reached. -/
def Percentiles.assign (cuts : List ℚ) (rate : Nat) (percentiles : Percentiles) : Percentiles :=
  if here : percentiles.next < cuts.length then
    if (percentiles.cumulative : ℚ) ≥ cuts[percentiles.next] then
      assign cuts rate { percentiles with
        next := percentiles.next + 1, out := percentiles.out.set percentiles.next rate }
    else percentiles
  else percentiles
termination_by cuts.length - percentiles.next

/-- One turn of the pass. -/
def Percentiles.add (cuts : List ℚ) (percentiles : Percentiles) (rated : Rated) : Percentiles :=
  Percentiles.assign cuts rated.rate
    { percentiles with cumulative := percentiles.cumulative + rated.weight }

/-- The loop over the rates. -/
def Percentiles.addRates (cuts : List ℚ) (percentiles : Percentiles) (rates : List Rated) :
    Percentiles := rates.foldl (Percentiles.add cuts) percentiles

/-- The last loop assigns the cuts that are left. -/
def Percentiles.fill (cuts : List ℚ) (rate : Nat) (percentiles : Percentiles) : Percentiles :=
  if percentiles.next < cuts.length then
    fill cuts rate { percentiles with
      next := percentiles.next + 1, out := percentiles.out.set percentiles.next rate }
  else percentiles
termination_by cuts.length - percentiles.next

/-- The state before the last loop. -/
def passRates (rates : List Rated) (totalWeight : Nat) : Percentiles :=
  Percentiles.addRates (cuts totalWeight) {} (ascending rates)

def feeRatePercentiles (rates : List Rated) (totalWeight : Nat) : List Nat :=
  if rates.isEmpty then List.replicate 5 0
  else
    ((passRates rates totalWeight).fill (cuts totalWeight)
      (((ascending rates).getLast?.map Rated.rate).getD 0)).out

def lightWeightFactor : Nat := 4

def Transaction.fee (tx : Transaction) : Nat :=
  tx.inputs.sum - (tx.outputs.map Output.value).sum

/-- The fee rate is satoshis per virtual byte. -/
def Transaction.feeRate (tx : Transaction) : Nat :=
  if tx.weight = 0 then 0 else lightWeightFactor * tx.fee / tx.weight

def Transaction.rated (tx : Transaction) : Rated := toLex (tx.feeRate, tx.weight)

/-- The outputs that the transaction adds to the set of the unspent. -/
def Transaction.utxos (tx : Transaction) (height : Nat) : Nat :=
  tx.outputs.countP fun out => !(height == 0 || out.isUnspendable)

/-- The variables of the pass over the transactions. -/
structure Tallies where
  totalOutput : Nat := 0
  totalFee : Nat := 0
  maxFee : Nat := 0
  maxFeeRate : Nat := 0
  minFee : Nat := ceiling
  minFeeRate : Nat := ceiling
  inputs : Nat := 0
  outputs : Nat := 0
  utxos : Nat := 0
  maxTxSize : Nat := 0
  minTxSize : Nat := ceiling
  totalSize : Nat := 0
  totalWeight : Nat := 0
  witnessTxs : Nat := 0
  witnessSize : Nat := 0
  witnessWeight : Nat := 0
  fees : List Nat := []
  sizes : List Nat := []
  rates : List Rated := []

/-- The outputs count in every transaction. -/
def Tallies.countOutputs (height : Nat) (tallies : Tallies) (tx : Transaction) : Tallies :=
  { tallies with
    utxos := tallies.utxos + tx.utxos height, outputs := tallies.outputs + tx.outputs.length }

def Tallies.countWitness (tallies : Tallies) (tx : Transaction) : Tallies :=
  if tx.isSegregated then
    { tallies with
      witnessTxs := tallies.witnessTxs + 1
      witnessSize := tallies.witnessSize + tx.serializedSize
      witnessWeight := tallies.witnessWeight + tx.weight }
  else tallies

/-- The sizes, the fee and the fee rate of a paying transaction. -/
def Tallies.countPaying (tallies : Tallies) (tx : Transaction) : Tallies :=
  { tallies with
    inputs := tallies.inputs + tx.inputs.length
    totalOutput := tallies.totalOutput + (tx.outputs.map Output.value).sum
    maxTxSize := max tallies.maxTxSize tx.serializedSize
    minTxSize := min tallies.minTxSize tx.serializedSize
    sizes := tallies.sizes ++ [tx.serializedSize]
    totalSize := tallies.totalSize + tx.serializedSize
    totalWeight := tallies.totalWeight + tx.weight
    fees := tallies.fees ++ [tx.fee]
    maxFee := max tallies.maxFee tx.fee
    minFee := min tallies.minFee tx.fee
    totalFee := tallies.totalFee + tx.fee
    rates := tallies.rates ++ [tx.rated]
    maxFeeRate := max tallies.maxFeeRate tx.feeRate
    minFeeRate := min tallies.minFeeRate tx.feeRate }

/-- One turn of the pass. -/
def Tallies.add (height : Nat) (tallies : Tallies) (tx : Transaction) : Tallies :=
  let counted := tallies.countOutputs height tx
  if tx.isCoinbase then counted else (counted.countPaying tx).countWitness tx

/-- The loop over the transactions. -/
def tallyBlock (height : Nat) (txs : List Transaction) : Tallies :=
  Run.final (Tallies.add height) {} txs

structure BlockStats where
  avgfee : Nat
  avgfeerate : Nat
  avgtxsize : Nat
  blockhash : String
  feeratePercentiles : List Nat
  height : Nat
  ins : Nat
  maxfee : Nat
  maxfeerate : Nat
  maxtxsize : Nat
  medianfee : Nat
  mediantime : UInt32
  mediantxsize : Nat
  minfee : Nat
  minfeerate : Nat
  mintxsize : Nat
  outs : Nat
  subsidy : Nat
  swtotalSize : Nat
  swtotalWeight : Nat
  swtxs : Nat
  time : UInt32
  totalOut : Nat
  totalSize : Nat
  totalWeight : Nat
  totalfee : Nat
  txs : Nat
  utxoIncrease : Int
  utxoIncreaseActual : Int

/-- The minimum of nothing is reported as zero. -/
def reportMin (least : Nat) : Nat := if least = ceiling then 0 else least

def average (total count : Nat) : Nat := if count = 0 then 0 else total / count

/-- `sub1` of a count, which wraps at zero. -/
def sub1 (count : Nat) : Nat := if count = 0 then ceiling else count - 1

def delta (left right : Nat) : Int := left - right

def blockStats {Digest : Type} (encodeHash : Digest → String) (block : Block Digest)
    (height : Nat) (medianTime : UInt32) (subsidy : Nat) : BlockStats :=
  let tallies := tallyBlock height block.transactions
  let paying := sub1 block.transactions.length
  { avgfee := average tallies.totalFee paying
    avgfeerate := average (lightWeightFactor * tallies.totalFee) tallies.totalWeight
    avgtxsize := average tallies.totalSize paying
    blockhash := encodeHash block.hash
    feeratePercentiles := feeRatePercentiles tallies.rates tallies.totalWeight
    height := height
    ins := tallies.inputs
    maxfee := tallies.maxFee
    maxfeerate := tallies.maxFeeRate
    maxtxsize := tallies.maxTxSize
    medianfee := truncatedMedian tallies.fees
    mediantime := medianTime
    mediantxsize := truncatedMedian tallies.sizes
    minfee := reportMin tallies.minFee
    minfeerate := reportMin tallies.minFeeRate
    mintxsize := reportMin tallies.minTxSize
    outs := tallies.outputs
    subsidy := subsidy
    swtotalSize := tallies.witnessSize
    swtotalWeight := tallies.witnessWeight
    swtxs := tallies.witnessTxs
    time := block.timestamp
    totalOut := tallies.totalOutput
    totalSize := tallies.totalSize
    totalWeight := tallies.totalWeight
    totalfee := tallies.totalFee
    txs := block.transactions.length
    utxoIncrease := delta tallies.outputs tallies.inputs
    utxoIncreaseActual := delta tallies.utxos tallies.inputs }

/-! ## Sorted values -/

section Ascending

variable {Value : Type} [LinearOrder Value]

theorem ascending_perm (values : List Value) : (ascending values).Perm values :=
  List.mergeSort_perm _ _

theorem pairwise_ascending (values : List Value) : (ascending values).Pairwise (· ≤ ·) :=
  List.pairwise_mergeSort' _ _

theorem ascending_congr {one two : List Value} (perm : one.Perm two) :
    ascending one = ascending two :=
  ((ascending_perm one).trans (perm.trans (ascending_perm two).symm)).eq_of_pairwise'
    (pairwise_ascending one) (pairwise_ascending two)

theorem length_ascending (values : List Value) : (ascending values).length = values.length :=
  (ascending_perm values).length_eq

end Ascending

theorem isEmpty_perm {Value : Type} {one two : List Value} (perm : one.Perm two) :
    one.isEmpty = two.isEmpty := by
  rw [Bool.eq_iff_iff, List.isEmpty_iff_length_eq_zero, List.isEmpty_iff_length_eq_zero,
    perm.length_eq]

/-! ## The medians -/

theorem truncatedMedian_perm {one two : List Nat} (perm : one.Perm two) :
    truncatedMedian one = truncatedMedian two := by
  unfold truncatedMedian
  rw [ascending_congr perm, isEmpty_perm perm]

/-- The median of values within bounds is within the bounds. -/
theorem truncatedMedian_between {values : List Nat} {least most : Nat} (some : values ≠ [])
    (within : ∀ value ∈ values, least ≤ value ∧ value ≤ most) :
    least ≤ truncatedMedian values ∧ truncatedMedian values ≤ most := by
  have entry : ∀ place, place < values.length →
      least ≤ (ascending values)[place]?.getD 0 ∧ (ascending values)[place]?.getD 0 ≤ most := by
    intro place bound
    rw [← length_ascending] at bound
    rw [List.getElem?_eq_getElem bound, Option.getD_some]
    exact within _ ((ascending_perm values).subset (List.getElem_mem bound))
  have positive := List.length_pos_of_ne_nil some
  have middle := entry (values.length / 2) (by omega)
  have before := entry (values.length / 2 - 1) (by omega)
  rw [truncatedMedian, if_neg (by simpa using some)]
  dsimp only
  rw [length_ascending]
  split_ifs
  · omega
  · exact middle

/-! ## The percentiles -/

/-- The least rate at or below which the weight of the rates reaches a cut. -/
def IsPercentile (rates : List Rated) (cut : ℚ) (rate : Nat) : Prop :=
  IsQuantile Rated.rate Rated.weight (fun sum => cut ≤ (sum : ℚ)) rates rate

theorem monotone_reaches (cut : ℚ) : Monotone fun sum : Nat => cut ≤ (sum : ℚ) := by
  intro less more low reached
  exact reached.trans (by exact_mod_cast low)

/-- The percentiles assigned are those of the rates, and the weight is short of the cuts that
    are left. -/
structure Percentiles.Partial (cuts : List ℚ) (rates : List Rated) (weight : Nat)
    (percentiles : Percentiles) : Prop where
  size : percentiles.out.length = cuts.length
  bound : percentiles.next ≤ cuts.length
  assigned : ∀ place cut, place < percentiles.next → cuts[place]? = some cut →
    ∃ rate, percentiles.out[place]? = some rate ∧ IsPercentile rates cut rate
  short : ∀ place cut, percentiles.next ≤ place → cuts[place]? = some cut → (weight : ℚ) < cut

/-- The inner loop assigns the cuts that the weight has reached with this rate. -/
theorem Percentiles.partial_assign {cuts : List ℚ} {rates : List Rated} {rate weight : Nat}
    (sorted : cuts.Pairwise (· ≤ ·)) {percentiles : Percentiles}
    (first : ∀ cut, (weight : ℚ) < cut → cut ≤ percentiles.cumulative →
      IsPercentile rates cut rate)
    (before : percentiles.Partial cuts rates weight) :
    (percentiles.assign cuts rate).Partial cuts rates percentiles.cumulative ∧
      (percentiles.assign cuts rate).cumulative = percentiles.cumulative := by
  fun_induction Percentiles.assign cuts rate percentiles with
  | case1 percentiles here reached ih =>
      apply ih first
      constructor
      · rw [List.length_set]
        exact before.size
      · exact here
      · intro place cut done listed
        by_cases now : place = percentiles.next
        · subst now
          refine ⟨rate, List.getElem?_set_self (before.size ▸ here), ?_⟩
          have same : cuts[percentiles.next] = cut := by
            rw [List.getElem?_eq_getElem here] at listed
            exact Option.some.inj listed
          exact first cut (before.short _ cut le_rfl listed) (same ▸ reached)
        · have earlier : place < percentiles.next := by
            have bound : place < percentiles.next + 1 := done
            omega
          obtain ⟨held, found, percentile⟩ := before.assigned place cut earlier listed
          refine ⟨held, ?_, percentile⟩
          rw [List.getElem?_set_ne (Ne.symm now)]
          exact found
      · intro place cut left
        exact before.short place cut ((Nat.le_succ _).trans left)
  | case2 percentiles here missed =>
      refine ⟨⟨before.size, before.bound, before.assigned, ?_⟩, rfl⟩
      intro place cut left listed
      have least : cuts[percentiles.next] ≤ cut := by
        obtain ⟨bound, rfl⟩ := List.getElem?_eq_some_iff.mp listed
        obtain same | later := left.eq_or_lt
        · subst same
          exact le_rfl
        · exact List.pairwise_iff_getElem.mp sorted _ _ here bound later
      exact (not_le.mp missed).trans_le least
  | case3 percentiles done =>
      refine ⟨⟨before.size, before.bound, before.assigned, ?_⟩, rfl⟩
      intro place cut left listed
      obtain ⟨bound, -⟩ := List.getElem?_eq_some_iff.mp listed
      omega

theorem rate_mono : Monotone Rated.rate := Prod.Lex.monotone_fst

/-- The pass over the rates, from where some of them have passed. -/
theorem Percentiles.partial_addRates {cuts : List ℚ} (sorted : cuts.Pairwise (· ≤ ·))
    {passed rates : List Rated} (ascending : (passed ++ rates).Pairwise (· ≤ ·))
    {percentiles : Percentiles} (weight : percentiles.cumulative = total Rated.weight passed)
    (before : percentiles.Partial cuts (passed ++ rates) percentiles.cumulative) :
    (percentiles.addRates cuts rates).Partial cuts (passed ++ rates)
      (total Rated.weight (passed ++ rates)) := by
  induction rates generalizing passed percentiles with
  | nil =>
      rw [List.append_nil, ← weight]
      exact List.append_nil passed ▸ before
  | cons rated rates ih =>
      have first : ∀ cut, (percentiles.cumulative : ℚ) < cut →
          cut ≤ (percentiles.cumulative + rated.weight : Nat) →
          IsPercentile (passed ++ rated :: rates) cut rated.rate := by
        intro cut short reached
        rw [weight] at short reached
        exact isQuantile_of_reached (monotone_reaches cut)
          (ascending.imp fun {_ _} low => rate_mono low) (not_le.mpr short) reached
      have weighed : Percentiles.Partial cuts (passed ++ rated :: rates) percentiles.cumulative
          { percentiles with cumulative := percentiles.cumulative + rated.weight } :=
        ⟨before.size, before.bound, before.assigned, before.short⟩
      obtain ⟨next, cumulative⟩ := Percentiles.partial_assign sorted first weighed
      have shape : passed ++ rated :: rates = (passed ++ [rated]) ++ rates := by simp
      rw [Percentiles.addRates, List.foldl_cons, ← Percentiles.addRates]
      rw [shape] at ascending next ⊢
      apply ih ascending
      · rw [Percentiles.add, cumulative, total_append, weight]
        simp
      · rw [Percentiles.add, cumulative]
        exact next

theorem pairwise_cuts (totalWeight : Nat) : (cuts totalWeight).Pairwise (· ≤ ·) := by
  have positive : (0 : ℚ) ≤ totalWeight := Nat.cast_nonneg _
  simp only [cuts, List.pairwise_cons, List.forall_mem_cons]
  refine ⟨⟨?_, ?_, ?_, ?_, nofun⟩, ⟨?_, ?_, ?_, nofun⟩, ⟨?_, ?_, nofun⟩, ⟨?_, nofun⟩, nofun, .nil⟩
    <;> linarith

/-- The cuts are positive parts of a positive weight. -/
theorem cut_between {totalWeight : Nat} (positive : 0 < totalWeight) :
    ∀ cut ∈ cuts totalWeight, 0 < cut ∧ cut ≤ totalWeight := by
  have more : (0 : ℚ) < totalWeight := by exact_mod_cast positive
  simp only [cuts, List.forall_mem_cons]
  refine ⟨?_, ?_, ?_, ?_, ?_, nofun⟩ <;> constructor <;> linarith

theorem passRates_partial {rates : List Rated} (positive : 0 < total Rated.weight rates) :
    (passRates rates (total Rated.weight rates)).Partial (cuts (total Rated.weight rates))
      (ascending rates) (total Rated.weight rates) := by
  have start : Percentiles.Partial (cuts (total Rated.weight rates)) ([] ++ ascending rates)
      0 {} := by
    refine ⟨rfl, Nat.zero_le _, nofun, ?_⟩
    intro place cut _ listed
    exact_mod_cast (cut_between positive cut (List.mem_of_getElem? listed)).1
  have passed := @Percentiles.partial_addRates _ (pairwise_cuts _) [] (ascending rates)
    (pairwise_ascending rates) {} rfl start
  rw [List.nil_append, total_perm Rated.weight (ascending_perm rates)] at passed
  exact passed

/-- The last loop never executes. -/
theorem passRates_next {rates : List Rated} (positive : 0 < total Rated.weight rates) :
    (passRates rates (total Rated.weight rates)).next =
      (cuts (total Rated.weight rates)).length := by
  have passed := passRates_partial positive
  apply le_antisymm passed.bound
  by_contra left
  rw [not_le] at left
  have listed := List.getElem?_eq_getElem left
  have short := passed.short _ _ le_rfl listed
  exact absurd short (not_lt.mpr (cut_between positive _ (List.getElem_mem left)).2)

theorem Percentiles.fill_done {cuts : List ℚ} {rate : Nat} {percentiles : Percentiles}
    (done : percentiles.next = cuts.length) : percentiles.fill cuts rate = percentiles := by
  rw [Percentiles.fill, if_neg (by omega)]

theorem feeRatePercentiles_percentiles {rates : List Rated}
    (positive : 0 < total Rated.weight rates) :
    List.Forall₂ (IsPercentile rates) (cuts (total Rated.weight rates))
      (feeRatePercentiles rates (total Rated.weight rates)) := by
  have some : ¬rates.isEmpty = true := by
    intro none
    rw [List.isEmpty_iff.mp none] at positive
    exact Nat.lt_irrefl 0 positive
  have passed := passRates_partial positive
  rw [feeRatePercentiles, if_neg some, Percentiles.fill_done (passRates_next positive)]
  rw [List.forall₂_iff_get]
  refine ⟨passed.size.symm, ?_⟩
  intro place here there
  obtain ⟨rate, found, percentile⟩ := passed.assigned place _
    (passRates_next positive ▸ here) (List.getElem?_eq_getElem here)
  rw [List.getElem?_eq_getElem there] at found
  cases found
  exact (isQuantile_perm Rated.rate Rated.weight (ascending_perm rates)).mp percentile

/-- Percentiles ascend with the cuts, between the bounds of the rates. -/
theorem percentiles_ascending {rates : List Rated} {sorted : List ℚ} {percentiles : List Nat}
    (all : List.Forall₂ (IsPercentile rates) sorted percentiles)
    (pairwise : sorted.Pairwise (· ≤ ·)) : percentiles.Pairwise (· ≤ ·) := by
  induction all with
  | nil => exact .nil
  | @cons cut rate others percentiles first rest ih =>
      rw [List.pairwise_cons] at pairwise ⊢
      refine ⟨?_, ih pairwise.2⟩
      intro later member
      obtain ⟨place, there, rfl⟩ := List.getElem_of_mem member
      have here : place < others.length := rest.length_eq ▸ there
      have low := pairwise.1 _ (List.getElem_mem here)
      exact first.le (rest.get here there) fun _ reached => low.trans reached

theorem percentiles_between {rates : List Rated} (positive : 0 < total Rated.weight rates)
    {percentiles : List Nat} {least most : Nat}
    (all : List.Forall₂ (IsPercentile rates) (cuts (total Rated.weight rates)) percentiles)
    (within : ∀ rated ∈ rates, least ≤ rated.rate ∧ rated.rate ≤ most) :
    ∀ rate ∈ percentiles, least ≤ rate ∧ rate ≤ most := by
  intro rate member
  obtain ⟨place, there, rfl⟩ := List.getElem_of_mem member
  have here : place < (cuts (total Rated.weight rates)).length := all.length_eq ▸ there
  have percentile := all.get here there
  have cut := cut_between positive _ (List.getElem_mem here)
  constructor
  · exact percentile.least_le (fun rated listed => (within rated listed).1)
      (not_le.mpr (by exact_mod_cast cut.1))
  · exact percentile.le_greatest (fun rated listed => (within rated listed).2) cut.2

theorem feeRatePercentiles_perm {one two : List Rated} (perm : one.Perm two) (totalWeight : Nat) :
    feeRatePercentiles one totalWeight = feeRatePercentiles two totalWeight := by
  unfold feeRatePercentiles passRates
  rw [ascending_congr perm, isEmpty_perm perm]

/-! ## The pass over the transactions -/

/-- The bounds of some values, as they are tallied. -/
structure Bounds (least most : Nat) (values : List Nat) : Prop where
  within : ∀ value ∈ values, least ≤ value ∧ value ≤ most
  none : values = [] → least = ceiling

theorem Bounds.concat {least most : Nat} {values : List Nat} (bounds : Bounds least most values)
    (value : Nat) : Bounds (min least value) (max most value) (values ++ [value]) where
  within := by
    rw [List.forall_mem_append, List.forall_mem_singleton]
    constructor
    · intro other member
      have old := bounds.within other member
      omega
    · omega
  none := by simp

theorem reportMin_le (least : Nat) : reportMin least ≤ least := by
  unfold reportMin
  split_ifs
  · exact Nat.zero_le _
  · exact Nat.le_refl _

theorem Bounds.reported {least most : Nat} {values : List Nat} (bounds : Bounds least most values) :
    ∀ value ∈ values, reportMin least ≤ value ∧ value ≤ most := by
  intro value member
  exact ⟨(reportMin_le least).trans (bounds.within value member).1, (bounds.within value member).2⟩

theorem Bounds.median {least most : Nat} {values : List Nat} (bounds : Bounds least most values) :
    reportMin least ≤ truncatedMedian values ∧ truncatedMedian values ≤ most := by
  cases values with
  | nil =>
      rw [bounds.none rfl, reportMin, if_pos rfl]
      exact ⟨Nat.zero_le _, Nat.zero_le _⟩
  | cons value values => exact truncatedMedian_between (List.cons_ne_nil _ _) bounds.reported

/-- The tallies bound and sum what they list. -/
structure Tallies.Sound (tallies : Tallies) : Prop where
  fees : Bounds tallies.minFee tallies.maxFee tallies.fees
  sizes : Bounds tallies.minTxSize tallies.maxTxSize tallies.sizes
  rates : Bounds tallies.minFeeRate tallies.maxFeeRate (tallies.rates.map Rated.rate)
  weight : tallies.totalWeight = total Rated.weight tallies.rates

theorem Tallies.Sound.countPaying {tallies : Tallies} (sound : tallies.Sound) (tx : Transaction) :
    (tallies.countPaying tx).Sound where
  fees := sound.fees.concat tx.fee
  sizes := sound.sizes.concat tx.serializedSize
  rates := by
    rw [Tallies.countPaying, List.map_append]
    exact sound.rates.concat tx.feeRate
  weight := by
    rw [Tallies.countPaying, total_append, ← sound.weight]
    rfl

theorem Tallies.Sound.countWitness {tallies : Tallies} (sound : tallies.Sound) (tx : Transaction) :
    (tallies.countWitness tx).Sound := by
  unfold Tallies.countWitness
  split_ifs
  · exact ⟨sound.fees, sound.sizes, sound.rates, sound.weight⟩
  · exact sound

theorem Tallies.Sound.add {tallies : Tallies} (sound : tallies.Sound) (height : Nat)
    (tx : Transaction) : (tallies.add height tx).Sound := by
  have counted : (tallies.countOutputs height tx).Sound :=
    ⟨sound.fees, sound.sizes, sound.rates, sound.weight⟩
  unfold Tallies.add
  dsimp only
  split_ifs
  · exact counted
  · exact (counted.countPaying tx).countWitness tx

theorem tallyBlock_sound (height : Nat) (txs : List Transaction) :
    (tallyBlock height txs).Sound := by
  apply @Run.always_final _ _ _ Tallies.Sound
  · intro tallies tx sound
    exact sound.add height tx
  · exact ⟨⟨nofun, fun _ => rfl⟩, ⟨nofun, fun _ => rfl⟩, ⟨nofun, fun _ => rfl⟩, rfl⟩

/-- The fee rates of the transactions that pay. -/
def payingRates (txs : List Transaction) : List Rated :=
  (txs.filter fun tx => !tx.isCoinbase).map Transaction.rated

theorem rates_countWitness (tallies : Tallies) (tx : Transaction) :
    (tallies.countWitness tx).rates = tallies.rates := by
  unfold Tallies.countWitness
  split_ifs <;> rfl

theorem tallyBlock_rates (height : Nat) (txs : List Transaction) :
    (tallyBlock height txs).rates = payingRates txs := by
  induction txs using List.reverseRecOn with
  | nil => rfl
  | append_singleton txs tx ih =>
      rw [tallyBlock, Run.final, List.foldl_concat, ← Run.final, ← tallyBlock, payingRates,
        List.filter_append, List.map_append, ← payingRates, ← ih, Tallies.add]
      split_ifs with coinbase
      · rw [List.filter_cons_of_neg (by simpa using coinbase)]
        exact (List.append_nil _).symm
      · rw [rates_countWitness, List.filter_cons_of_pos (by simpa using coinbase)]
        rfl

/-! ## The order of the transactions -/

/-- The tallies other than the lists. -/
def Tallies.scalars (tallies : Tallies) : Tallies :=
  { tallies with fees := [], sizes := [], rates := [] }

/-- Tallies that differ in the order of what they list. -/
structure Tallies.Same (one two : Tallies) : Prop where
  scalars : one.scalars = two.scalars
  fees : one.fees.Perm two.fees
  sizes : one.sizes.Perm two.sizes
  rates : one.rates.Perm two.rates

theorem Tallies.same_equivalence : Equivalence Tallies.Same where
  refl _ := ⟨rfl, .refl _, .refl _, .refl _⟩
  symm same := ⟨same.scalars.symm, same.fees.symm, same.sizes.symm, same.rates.symm⟩
  trans first second := ⟨first.scalars.trans second.scalars, first.fees.trans second.fees,
    first.sizes.trans second.sizes, first.rates.trans second.rates⟩

theorem Tallies.scalars_add (tallies : Tallies) (height : Nat) (tx : Transaction) :
    (tallies.add height tx).scalars = (tallies.scalars.add height tx).scalars := by
  unfold Tallies.add Tallies.countWitness
  dsimp only
  split_ifs <;> rfl

/-- What a transaction adds to the lists. -/
theorem Tallies.lists_add (tallies : Tallies) (height : Nat) (tx : Transaction) :
    (tallies.add height tx).fees =
        tallies.fees ++ (if tx.isCoinbase then [] else [tx.fee]) ∧
      (tallies.add height tx).sizes =
        tallies.sizes ++ (if tx.isCoinbase then [] else [tx.serializedSize]) ∧
      (tallies.add height tx).rates =
        tallies.rates ++ (if tx.isCoinbase then [] else [tx.rated]) := by
  unfold Tallies.add Tallies.countWitness
  dsimp only
  split_ifs
  · simp only [List.append_nil]
    exact ⟨rfl, rfl, rfl⟩
  · exact ⟨rfl, rfl, rfl⟩
  · exact ⟨rfl, rfl, rfl⟩

theorem Tallies.Same.add {one two : Tallies} (same : one.Same two) (height : Nat)
    (tx : Transaction) : (one.add height tx).Same (two.add height tx) := by
  obtain ⟨fees, sizes, rates⟩ := one.lists_add height tx
  obtain ⟨others, kinds, prices⟩ := two.lists_add height tx
  constructor
  · rw [one.scalars_add, two.scalars_add, same.scalars]
  · rw [fees, others]
    exact same.fees.append_right _
  · rw [sizes, kinds]
    exact same.sizes.append_right _
  · rw [rates, prices]
    exact same.rates.append_right _

theorem scalars_add_comm (tallies : Tallies) (height : Nat) (first second : Transaction) :
    ((tallies.add height first).add height second).scalars =
      ((tallies.add height second).add height first).scalars := by
  unfold Tallies.add Tallies.countWitness
  dsimp only
  split_ifs <;>
    simp only [Tallies.scalars, Tallies.countPaying, Tallies.countOutputs, Nat.add_right_comm,
      max_right_comm, min_right_comm]

theorem append_swap_perm {Value : Type} (values one two : List Value) :
    (values ++ one ++ two).Perm (values ++ two ++ one) := by
  rw [List.append_assoc, List.append_assoc]
  exact List.perm_append_comm.append_left values

theorem Tallies.add_comm (tallies : Tallies) (height : Nat) (first second : Transaction) :
    ((tallies.add height first).add height second).Same
      ((tallies.add height second).add height first) := by
  obtain ⟨fees, sizes, rates⟩ := tallies.lists_add height first
  obtain ⟨others, kinds, prices⟩ := tallies.lists_add height second
  have after := (tallies.add height first).lists_add height second
  have before := (tallies.add height second).lists_add height first
  constructor
  · exact scalars_add_comm tallies height first second
  · rw [after.1, before.1, fees, others]
    exact append_swap_perm _ _ _
  · rw [after.2.1, before.2.1, sizes, kinds]
    exact append_swap_perm _ _ _
  · rw [after.2.2, before.2.2, rates, prices]
    exact append_swap_perm _ _ _

theorem tallyBlock_perm (height : Nat) {txs others : List Transaction} (perm : txs.Perm others) :
    (tallyBlock height txs).Same (tallyBlock height others) := by
  apply Run.final_perm Tallies.same_equivalence _ _ perm (Tallies.same_equivalence.refl _)
  · intro one two tx same
    exact same.add height tx
  · intro tallies first second
    exact tallies.add_comm height first second

/-! ## The statistics -/

/-- What the statistics say of the fee rates: their percentiles, which ascend within the
    bounds, and medians within theirs. -/
structure BlockStats.Weighted (stats : BlockStats) (rates : List Rated) : Prop where
  weight : stats.totalWeight = total Rated.weight rates
  percentiles : 0 < total Rated.weight rates →
    List.Forall₂ (IsPercentile rates) (cuts stats.totalWeight) stats.feeratePercentiles
  ascending : 0 < total Rated.weight rates → stats.feeratePercentiles.Pairwise (· ≤ ·)
  between : 0 < total Rated.weight rates →
    ∀ rate ∈ stats.feeratePercentiles, stats.minfeerate ≤ rate ∧ rate ≤ stats.maxfeerate
  medianfee : stats.minfee ≤ stats.medianfee ∧ stats.medianfee ≤ stats.maxfee
  mediantxsize : stats.mintxsize ≤ stats.mediantxsize ∧ stats.mediantxsize ≤ stats.maxtxsize

theorem blockStats_weighted {Digest : Type} (encodeHash : Digest → String) (block : Block Digest)
    (height : Nat) (medianTime : UInt32) (subsidy : Nat) :
    (blockStats encodeHash block height medianTime subsidy).Weighted
      (payingRates block.transactions) := by
  have sound := tallyBlock_sound height block.transactions
  have rates := tallyBlock_rates height block.transactions
  have weight := sound.weight
  rw [rates] at weight
  have percentiles : 0 < total Rated.weight (payingRates block.transactions) →
      List.Forall₂ (IsPercentile (payingRates block.transactions))
        (cuts (blockStats encodeHash block height medianTime subsidy).totalWeight)
        (blockStats encodeHash block height medianTime subsidy).feeratePercentiles := by
    intro positive
    simp only [blockStats, rates, weight]
    exact feeRatePercentiles_percentiles positive
  refine ⟨weight, percentiles, ?_, ?_, sound.fees.median, sound.sizes.median⟩
  · intro positive
    exact percentiles_ascending (percentiles positive) (pairwise_cuts _)
  · intro positive
    have all := percentiles positive
    rw [show (blockStats encodeHash block height medianTime subsidy).totalWeight = _ from weight]
      at all
    apply percentiles_between positive all
    intro rated member
    exact sound.rates.reported _ (List.mem_map_of_mem (rates ▸ member))

theorem blockStats_perm {Digest : Type} (encodeHash : Digest → String) (block : Block Digest)
    (height : Nat) (medianTime : UInt32) (subsidy : Nat) {others : List Transaction}
    (perm : others.Perm block.transactions) :
    blockStats encodeHash { block with transactions := others } height medianTime subsidy =
      blockStats encodeHash block height medianTime subsidy := by
  have same := tallyBlock_perm height perm
  have scalars := same.scalars
  simp only [Tallies.scalars, Tallies.mk.injEq] at scalars
  simp only [blockStats, scalars, perm.length_eq, truncatedMedian_perm same.fees,
    truncatedMedian_perm same.sizes, feeRatePercentiles_perm same.rates]

/-- The percentiles are the weighted ones, the last loop never executes, the medians lie within
    their bounds, and the order of the transactions makes no difference. -/
theorem blockStats_percentiles :
    (∀ rates : List Rated, 0 < total Rated.weight rates →
      List.Forall₂ (IsPercentile rates) (cuts (total Rated.weight rates))
          (feeRatePercentiles rates (total Rated.weight rates)) ∧
        (passRates rates (total Rated.weight rates)).next =
          (cuts (total Rated.weight rates)).length) ∧
      ∀ (Digest : Type) (encodeHash : Digest → String) (block : Block Digest) (height : Nat)
        (medianTime : UInt32) (subsidy : Nat),
        (blockStats encodeHash block height medianTime subsidy).Weighted
            (payingRates block.transactions) ∧
          ∀ others : List Transaction, others.Perm block.transactions →
            blockStats encodeHash { block with transactions := others } height medianTime subsidy =
              blockStats encodeHash block height medianTime subsidy := by
  constructor
  · intro rates positive
    exact ⟨feeRatePercentiles_percentiles positive, passRates_next positive⟩
  · intro Digest encodeHash block height medianTime subsidy
    constructor
    · exact blockStats_weighted encodeHash block height medianTime subsidy
    · intro others perm
      exact blockStats_perm encodeHash block height medianTime subsidy perm

/-- The first cut is exactly the weight of the lower rate. -/
private def twoRates : List Rated := [toLex (5, 90), toLex (1, 10)]

theorem blockStats_percentiles_two :
    (List.Forall₂ (IsPercentile twoRates) (cuts 100) (feeRatePercentiles twoRates 100) ∧
        (passRates twoRates 100).next = (cuts 100).length) ∧
      ∀ (Digest : Type) (encodeHash : Digest → String) (block : Block Digest) (height : Nat)
        (medianTime : UInt32) (subsidy : Nat),
        (blockStats encodeHash block height medianTime subsidy).Weighted
            (payingRates block.transactions) ∧
          ∀ others : List Transaction, others.Perm block.transactions →
            blockStats encodeHash { block with transactions := others } height medianTime subsidy =
              blockStats encodeHash block height medianTime subsidy :=
  ⟨blockStats_percentiles.1 twoRates (by decide), blockStats_percentiles.2⟩

end LibbitcoinServer.Serializers

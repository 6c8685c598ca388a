import LibbitcoinServer.Lib.Traverse
import Mathlib.Tactic

/-! # Greedy assignment

Each seat in turn takes the first offer left that it accepts, until enough are seated.  In
the result no later seat has an offer that an earlier one would have taken instead; a
matching of that kind is never larger than the result.  Where no offer suits two seats,
those seated are the first seats that some offer suits.
-/

namespace Greedy

variable {Seat Offer : Type*} [LinearOrder Offer] (accepts : Seat → Offer → Bool)

def assign : List Seat → Nat → List Offer → List (Seat × Offer)
  | [], _, _ => []
  | _ :: _, 0, _ => []
  | seat :: seats, limit + 1, offers =>
      match offers.find? (accepts seat) with
      | none => assign seats (limit + 1) offers
      | some offer => (seat, offer) :: assign seats limit (offers.filter (· ≠ offer))

/-- A seat accepts its offer, no offer is taken twice, and where an offer would have suited
    an earlier seat, that seat has an earlier one. -/
structure Stable (pairs : List (Seat × Offer)) : Prop where
  accepted : ∀ pair ∈ pairs, accepts pair.1 pair.2 = true
  single : (pairs.map Prod.snd).Nodup
  ordered : pairs.Pairwise fun first second => accepts first.1 second.2 = true →
    first.2 < second.2

variable {accepts} {seats : List Seat} {limit : Nat} {offers : List Offer}

section Result

theorem assign_zero : assign accepts seats 0 offers = [] := by
  cases seats <;> rfl

theorem assign_sublist : ((assign accepts seats limit offers).map Prod.fst).Sublist seats := by
  fun_induction assign accepts seats limit offers with
  | case1 limit offers => exact List.Sublist.refl _
  | case2 seat seats offers => exact List.nil_sublist _
  | case3 seat seats limit offers missing ih => exact ih.cons seat
  | case4 seat seats limit offers offer found ih => exact ih.cons_cons seat

theorem length_assign_le : (assign accepts seats limit offers).length ≤ limit := by
  fun_induction assign accepts seats limit offers with
  | case1 limit offers => exact Nat.zero_le _
  | case2 seat seats offers => exact Nat.zero_le _
  | case3 seat seats limit offers missing ih => exact ih
  | case4 seat seats limit offers offer found ih => exact Nat.succ_le_succ ih

theorem mem_offers_of_assign :
    ∀ pair ∈ assign accepts seats limit offers, pair.2 ∈ offers := by
  fun_induction assign accepts seats limit offers with
  | case1 limit offers => simp
  | case2 seat seats offers => simp
  | case3 seat seats limit offers missing ih => exact ih
  | case4 seat seats limit offers offer found ih =>
      rw [List.forall_mem_cons]
      constructor
      · exact List.mem_of_find?_eq_some found
      · intro pair member
        exact List.mem_of_mem_filter (ih pair member)

/-- The first offer found is the least of those accepted. -/
theorem le_of_find? {seat : Seat} {offer other : Offer} (sorted : offers.Pairwise (· < ·))
    (found : offers.find? (accepts seat) = some offer) (member : other ∈ offers)
    (accepted : accepts seat other = true) : offer ≤ other := by
  cases Traverse.related_of_find? sorted found member accepted with
  | inl same => exact same.ge
  | inr later => exact later.le

theorem stable_assign (sorted : offers.Pairwise (· < ·)) :
    Stable accepts (assign accepts seats limit offers) := by
  fun_induction assign accepts seats limit offers with
  | case1 limit offers => exact ⟨by simp, by simp, .nil⟩
  | case2 seat seats offers => exact ⟨by simp, by simp, .nil⟩
  | case3 seat seats limit offers missing ih => exact ih sorted
  | case4 seat seats limit offers offer found ih =>
      have rest := ih (sorted.filter _)
      have left : ∀ pair ∈ assign accepts seats limit (offers.filter (· ≠ offer)),
          pair.2 ∈ offers ∧ pair.2 ≠ offer := by
        intro pair member
        simpa using mem_offers_of_assign pair member
      refine ⟨?_, ?_, ?_⟩
      · rw [List.forall_mem_cons]
        exact ⟨List.find?_some found, rest.accepted⟩
      · rw [List.map_cons, List.nodup_cons]
        refine ⟨?_, rest.single⟩
        intro member
        obtain ⟨pair, listed, same⟩ := List.mem_map.mp member
        exact (left pair listed).2 same
      · rw [List.pairwise_cons]
        refine ⟨?_, rest.ordered⟩
        intro pair member suits
        have least := le_of_find? sorted found (left pair member).1 suits
        exact lt_of_le_of_ne least (left pair member).2.symm

end Result

section Optimal

variable {pairs : List (Seat × Offer)}

theorem Stable.sublist {others : List (Seat × Offer)} (stable : Stable accepts pairs)
    (part : others.Sublist pairs) : Stable accepts others where
  accepted pair member := stable.accepted pair (part.subset member)
  single := stable.single.sublist (part.map Prod.snd)
  ordered := stable.ordered.sublist part

/-- A matching loses one pair at the most with one offer. -/
theorem length_le_without (single : (pairs.map Prod.snd).Nodup) (offer : Offer) :
    pairs.length ≤ (pairs.filter (·.2 ≠ offer)).length + 1 := by
  induction pairs with
  | nil => exact Nat.zero_le _
  | cons pair pairs ih =>
      rw [List.map_cons, List.nodup_cons] at single
      by_cases same : pair.2 = offer
      · have kept : pairs.filter (·.2 ≠ offer) = pairs := by
          rw [List.filter_eq_self]
          intro other member
          have apart : other.2 ≠ pair.2 := by
            intro equal
            exact single.1 (equal ▸ List.mem_map_of_mem member)
          simpa [← same] using apart
        rw [List.filter_cons_of_neg (by simpa using same), kept, List.length_cons]
      · rw [List.filter_cons_of_pos (by simpa using same), List.length_cons, List.length_cons]
        exact Nat.succ_le_succ (ih single.2)

/-- No stable matching of the seats with the offers is larger than the greedy one.  Its pair
    with the offer taken first, if it has any, makes room for that seat. -/
theorem length_le_assign (sorted : offers.Pairwise (· < ·)) (stable : Stable accepts pairs)
    (within : (pairs.map Prod.fst).Sublist seats) (offered : ∀ pair ∈ pairs, pair.2 ∈ offers) :
    min pairs.length limit ≤ (assign accepts seats limit offers).length := by
  fun_induction assign accepts seats limit offers generalizing pairs with
  | case1 limit offers =>
      rw [List.map_eq_nil_iff.mp (List.sublist_nil.mp within)]
      simp
  | case2 seat seats offers => simp
  | case3 seat seats limit offers missing ih =>
      apply ih sorted stable _ offered
      cases List.sublist_cons_iff.mp within with
      | inl skipped => exact skipped
      | inr headed =>
          obtain ⟨others, shape, rest⟩ := headed
          obtain ⟨pair, pairs, rfl, rfl, rfl⟩ := List.map_eq_cons_iff.mp shape
          have refused := List.find?_eq_none.mp missing pair.2 (offered pair List.mem_cons_self)
          exact absurd (stable.accepted pair List.mem_cons_self) refused
  | case4 seat seats limit offers offer found ih =>
      have left : ∀ pair ∈ pairs.filter (·.2 ≠ offer),
          pair.2 ∈ offers.filter (· ≠ offer) := by
        intro pair member
        rw [List.mem_filter] at member ⊢
        exact ⟨offered pair member.1, member.2⟩
      have part : (pairs.filter (·.2 ≠ offer)).Sublist pairs := List.filter_sublist
      rw [List.length_cons]
      cases List.sublist_cons_iff.mp within with
      | inl skipped =>
          have rest := ih (sorted.filter _) (stable.sublist part)
            ((part.map Prod.fst).trans skipped) left
          have lost := length_le_without stable.single offer
          omega
      | inr headed =>
          obtain ⟨others, shape, tail⟩ := headed
          obtain ⟨pair, pairs, rfl, rfl, rfl⟩ := List.map_eq_cons_iff.mp shape
          have least := le_of_find? sorted found (offered pair List.mem_cons_self)
            (stable.accepted pair List.mem_cons_self)
          have free : ∀ other ∈ pairs, other.2 ≠ offer := by
            intro other member same
            have single := stable.single
            rw [List.map_cons, List.nodup_cons] at single
            have before := (List.pairwise_cons.mp stable.ordered).1 other member
            rw [same] at before
            have later := before (List.find?_some found)
            exact absurd later least.not_gt
          have rest := ih (sorted.filter _) (stable.sublist (List.sublist_cons_self pair pairs))
            tail fun other member => by
              rw [List.mem_filter]
              constructor
              · exact offered other (List.mem_cons_of_mem _ member)
              · simpa using free other member
          rw [List.length_cons]
          omega

end Optimal

/-- Where no offer suits two seats, taking one leaves every other seat what suits it. -/
theorem assign_of_unique (seated : seats.Nodup)
    (unique : ∀ offer ∈ offers, ∀ one ∈ seats, ∀ two ∈ seats, accepts one offer = true →
      accepts two offer = true → one = two) :
    (assign accepts seats limit offers).map Prod.fst =
      (seats.filter fun seat => offers.any (accepts seat)).take limit := by
  fun_induction assign accepts seats limit offers with
  | case1 limit offers => simp
  | case2 seat seats offers => simp
  | case3 seat seats limit offers missing ih =>
      have unserved : offers.any (accepts seat) = false := by
        rw [List.any_eq_false]
        exact List.find?_eq_none.mp missing
      have rest := ih (List.nodup_cons.mp seated).2 fun offer offered one first two second =>
        unique offer offered one (List.mem_cons_of_mem _ first) two (List.mem_cons_of_mem _ second)
      rw [rest, List.filter_cons, unserved]
      rfl
  | case4 seat seats limit offers offer found ih =>
      rw [List.nodup_cons] at seated
      have served : offers.any (accepts seat) = true :=
        List.any_eq_true.mpr ⟨offer, List.mem_of_find?_eq_some found, List.find?_some found⟩
      have rest := ih seated.2 fun other offered one first two second =>
        unique other (List.mem_of_mem_filter offered) one (List.mem_cons_of_mem _ first) two
          (List.mem_cons_of_mem _ second)
      have same : seats.filter (fun other => (offers.filter (· ≠ offer)).any (accepts other)) =
          seats.filter fun other => offers.any (accepts other) := by
        apply List.filter_congr
        intro other member
        rw [Bool.eq_iff_iff, List.any_eq_true, List.any_eq_true]
        constructor
        · intro ⟨taken, kept, suits⟩
          exact ⟨taken, List.mem_of_mem_filter kept, suits⟩
        · intro ⟨taken, listed, suits⟩
          refine ⟨taken, List.mem_filter.mpr ⟨listed, ?_⟩, suits⟩
          rw [decide_eq_true_eq]
          intro equal
          have twice := unique taken listed other (List.mem_cons_of_mem _ member) seat
            List.mem_cons_self suits (equal ▸ List.find?_some found)
          exact seated.1 (twice ▸ member)
      rw [List.map_cons, rest, same, List.filter_cons, served]
      rfl

end Greedy

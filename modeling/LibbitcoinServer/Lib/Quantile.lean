import Mathlib.Tactic

/-! # Weighted quantiles

The quantile of weighted items at a cut is the least level at or below which their weight
reaches the cut.  By ascending level, it is the level of the item with which the weight so
far first reaches the cut.
-/

namespace Quantile

variable {Item Level Weight : Type*} [LinearOrder Level]

section Definitions

variable [AddCommMonoid Weight] (level : Item → Level) (weight : Item → Weight)

/-- The weight of some items. -/
def total (items : List Item) : Weight := (items.map weight).sum

/-- The weight of the items at or below a level. -/
def atMost (items : List Item) (top : Level) : Weight :=
  total weight (items.filter (level · ≤ top))

/-- The least level where the weight reaches the cut. -/
def IsQuantile (reaches : Weight → Prop) (items : List Item) (top : Level) : Prop :=
  IsLeast {top | reaches (atMost level weight items top)} top

@[simp] theorem total_nil : total weight [] = 0 := rfl

@[simp] theorem total_cons (item : Item) (items : List Item) :
    total weight (item :: items) = weight item + total weight items := List.sum_cons

@[simp] theorem total_append (one two : List Item) :
    total weight (one ++ two) = total weight one + total weight two := by
  simp [total]

theorem total_perm {one two : List Item} (perm : one.Perm two) :
    total weight one = total weight two := (perm.map weight).sum_eq

theorem atMost_perm {one two : List Item} (perm : one.Perm two) (top : Level) :
    atMost level weight one top = atMost level weight two top :=
  total_perm weight (perm.filter _)

theorem isQuantile_perm {reaches : Weight → Prop} {one two : List Item} (perm : one.Perm two)
    {top : Level} : IsQuantile level weight reaches one top ↔
      IsQuantile level weight reaches two top := by
  unfold IsQuantile
  simp only [atMost_perm level weight perm]

end Definitions

variable [AddCommMonoid Weight] {level : Item → Level} {weight : Item → Weight}
  {reaches : Weight → Prop} {items : List Item} {top : Level}

theorem atMost_of_all (all : ∀ item ∈ items, level item ≤ top) :
    atMost level weight items top = total weight items := by
  rw [atMost, List.filter_eq_self.mpr]
  intro item member
  exact decide_eq_true (all item member)

theorem atMost_of_none (none : ∀ item ∈ items, top < level item) :
    atMost level weight items top = 0 := by
  rw [atMost, List.filter_eq_nil_iff.mpr, total_nil]
  intro item member
  simpa using none item member

/-- A greater cut has no lower quantile. -/
theorem IsQuantile.le {further : Weight → Prop} {high : Level}
    (quantile : IsQuantile level weight reaches items top)
    (other : IsQuantile level weight further items high)
    (greater : ∀ sum, further sum → reaches sum) : top ≤ high :=
  other.mono quantile fun _ reached => greater _ reached

/-- The cut is reached at the latest at a level that no item exceeds. -/
theorem IsQuantile.le_greatest {high : Level} (quantile : IsQuantile level weight reaches items top)
    (below : ∀ item ∈ items, level item ≤ high) (all : reaches (total weight items)) :
    top ≤ high := by
  have reached : reaches (atMost level weight items high) := by
    rw [atMost_of_all below]
    exact all
  exact quantile.2 reached

/-- A cut that nothing does not reach is reached at the earliest at a level of an item. -/
theorem IsQuantile.least_le {low : Level} (quantile : IsQuantile level weight reaches items top)
    (above : ∀ item ∈ items, low ≤ level item) (nothing : ¬reaches 0) : low ≤ top := by
  by_contra lower
  have reached : reaches (atMost level weight items top) := quantile.1
  rw [atMost_of_none fun item member => (not_le.mp lower).trans_le (above item member)] at reached
  exact nothing reached

variable [PartialOrder Weight] [CanonicallyOrderedAdd Weight] [IsOrderedAddMonoid Weight]

theorem total_filter_le (kept : Item → Bool) :
    total weight (items.filter kept) ≤ total weight items := by
  have sub : ((items.filter kept).map weight).Sublist (items.map weight) :=
    List.filter_sublist.map weight
  exact sub.sum_le_sum fun _ _ => zero_le

/-- The item with which the weight first reaches the cut, in ascending order. -/
theorem isQuantile_of_reached {before after : List Item} {item : Item} (up : Monotone reaches)
    (ascending : (before ++ item :: after).Pairwise fun first second => level first ≤ level second)
    (short : ¬reaches (total weight before))
    (reached : reaches (total weight before + weight item)) :
    IsQuantile level weight reaches (before ++ item :: after) (level item) := by
  rw [List.pairwise_append, List.pairwise_cons] at ascending
  obtain ⟨-, ⟨later, -⟩, earlier⟩ := ascending
  constructor
  · have all : atMost level weight before (level item) = total weight before :=
      atMost_of_all fun first member => earlier first member item List.mem_cons_self
    have split : atMost level weight (before ++ item :: after) (level item) =
        total weight before + weight item + atMost level weight after (level item) := by
      rw [← all, atMost, List.filter_append, List.filter_cons_of_pos (by simp), total_append,
        total_cons, ← add_assoc]
      rfl
    have hit : reaches (atMost level weight (before ++ item :: after) (level item)) := by
      rw [split]
      exact up le_self_add reached
    exact hit
  · intro lower (hit : reaches (atMost level weight (before ++ item :: after) lower))
    by_contra less
    rw [not_le] at less
    have none : atMost level weight (item :: after) lower = 0 := by
      apply atMost_of_none
      rw [List.forall_mem_cons]
      exact ⟨less, fun second member => less.trans_le (later second member)⟩
    have only : atMost level weight (before ++ item :: after) lower =
        atMost level weight before lower := by
      rw [atMost, List.filter_append, total_append]
      exact (congrArg (_ + ·) none).trans (add_zero _)
    rw [only] at hit
    exact short (up (total_filter_le _) hit)

end Quantile

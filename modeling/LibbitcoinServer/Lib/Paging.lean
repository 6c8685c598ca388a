import Mathlib.Tactic

/-! # Paging by the last key seen

A list is read by pages.  Each request names the last key of the page before, and the page
that it is answered with holds what comes after that key.  An empty page ends the reading.
The pages divide the list where every request is so answered.
-/

namespace Paging

variable {Key Out : Type*} (cursor : Out → Key) (answer : Nat → Option Key → Option (List Out))

/-- The pages of a reader from one request on, and nothing where the reading has not ended
    within the turns or is refused. -/
def collect : Nat → Nat → Option Key → Option (List (List Out))
  | 0, _, _ => none
  | turns + 1, request, seen =>
      match answer request seen with
      | none => none
      | some [] => some []
      | some page@(_ :: _) =>
          (collect turns (request + 1) (page.getLast?.map cursor)).map (page :: ·)

/-- A list of keys divided into pages, of which the last alone may be short. -/
structure Divides (size : Nat) (keys : List Key) (pages : List (List Out)) : Prop where
  joined : pages.flatten.map cursor = keys
  bounded : ∀ page ∈ pages, page.length ≤ size
  present : ∀ page ∈ pages, page ≠ []
  full : ∀ page ∈ pages.dropLast, page.length = size
  count : pages.length = (keys.length + size - 1) / size

/-- The answers of a list of keys: its first page, and after each key what comes next. -/
structure Serves (size : Nat) (keys : List Key) : Prop where
  first : ∃ page, answer 0 none = some page ∧ page.map cursor = keys.take size
  next : ∀ request passed last rest, passed ++ last :: rest = keys →
    ∃ page, answer (request + 1) (some last) = some page ∧ page.map cursor = rest.take size

variable {cursor answer} {size : Nat} {keys : List Key}

theorem divides_nil (positive : 0 < size) : Divides cursor size [] [] where
  joined := rfl
  bounded := by simp
  present := by simp
  full := by simp
  count := by
    rw [List.length_nil, List.length_nil, Nat.zero_add]
    exact (Nat.div_eq_of_lt (Nat.sub_lt positive Nat.one_pos)).symm

/-- A first page before the pages of the rest. -/
theorem divides_cons (positive : 0 < size) (some_keys : keys ≠ []) {page : List Out}
    {pages : List (List Out)} (here : page.map cursor = keys.take size)
    (later : Divides cursor size (keys.drop size) pages) :
    Divides cursor size keys (page :: pages) := by
  have length : page.length = min size keys.length := by
    rw [← List.length_map cursor, here, List.length_take]
  have some_key : 0 < keys.length := List.length_pos_iff.mpr some_keys
  constructor
  · rw [List.flatten_cons, List.map_append, here, later.joined, List.take_append_drop]
  · intro other member
    cases List.mem_cons.mp member with
    | inl same =>
        rw [same, length]
        exact Nat.min_le_left _ _
    | inr member => exact later.bounded other member
  · intro other member
    cases List.mem_cons.mp member with
    | inl same =>
        rw [same]
        exact List.length_pos_iff.mp (by omega)
    | inr member => exact later.present other member
  · intro other member
    cases pages with
    | nil => cases member
    | cons second pages =>
        rw [List.dropLast_cons_of_ne_nil (List.cons_ne_nil _ _)] at member
        cases List.mem_cons.mp member with
        | inl same =>
            -- A second page leaves more keys than the first holds.
            have more : size < keys.length := by
              by_contra few
              have none : keys.drop size = [] := List.drop_eq_nil_of_le (not_lt.mp few)
              have counted := later.count
              rw [none, ← (@divides_nil Key Out cursor _ positive).count] at counted
              cases counted
            rw [same, length, Nat.min_eq_left more.le]
        | inr member => exact later.full other member
  · rw [List.length_cons, later.count, List.length_drop]
    cases le_or_gt keys.length size with
    | inl few =>
        have one : keys.length + size - 1 = keys.length - 1 + size := by omega
        rw [Nat.sub_eq_zero_of_le few, one, Nat.add_div_right _ positive,
          Nat.div_eq_of_lt (by omega), Nat.div_eq_of_lt (by omega)]
    | inr many =>
        have one : keys.length + size - 1 = keys.length - size + size - 1 + size := by omega
        rw [one, Nat.add_div_right _ positive]

theorem collect_end {request : Nat} {seen : Option Key} (ended : answer request seen = some [])
    (turns : Nat) : collect cursor answer (turns + 1) request seen = some [] := by
  rw [collect, ended]

theorem collect_page {request : Nat} {seen : Option Key} {page : List Out} (some_page : page ≠ [])
    (answered : answer request seen = some page) (turns : Nat) :
    collect cursor answer (turns + 1) request seen =
      (collect cursor answer turns (request + 1) (page.getLast?.map cursor)).map (page :: ·) := by
  cases page with
  | nil => exact absurd rfl some_page
  | cons first others => rw [collect, answered]

/-- The last key of a page and what comes after it. -/
theorem exists_last (positive : 0 < size) {rest : List Key} (some_rest : rest ≠ [])
    {page : List Out} (here : page.map cursor = rest.take size) :
    ∃ front last, page.getLast?.map cursor = some last ∧
      front ++ last :: rest.drop size = rest := by
  have some_page : rest.take size ≠ [] := by
    simp [some_rest, positive.ne']
  refine ⟨(rest.take size).dropLast, (rest.take size).getLast some_page, ?_, ?_⟩
  · rw [← List.getLast?_map, here, List.getLast?_eq_some_getLast some_page]
  · rw [List.append_cons, List.dropLast_append_getLast, List.take_append_drop]

/-- The reading from one request on, of what the pages before it have left. -/
theorem collect_rest (positive : 0 < size) (serves : Serves cursor answer size keys)
    {passed rest : List Key} (split : passed ++ rest = keys) {request : Nat} {seen : Option Key}
    (answered : ∃ page, answer request seen = some page ∧ page.map cursor = rest.take size) :
    ∃ pages, Divides cursor size rest pages ∧
      ∀ turns, pages.length < turns → collect cursor answer turns request seen = some pages := by
  -- The rest is shorter at each page.
  induction left : rest.length using Nat.strong_induction_on
    generalizing passed rest request seen with
  | _ left_keys ih =>
      obtain ⟨page, answered, here⟩ := answered
      by_cases none : rest = []
      · obtain rfl : page = [] := by simpa [none] using here
        refine ⟨[], none ▸ divides_nil positive, ?_⟩
        intro turns enough
        obtain ⟨turns, rfl⟩ := Nat.exists_eq_succ_of_ne_zero enough.ne'
        exact collect_end answered turns
      · obtain ⟨front, last, seen_last, joined⟩ := exists_last positive none here
        have split_later : (passed ++ front ++ [last]) ++ rest.drop size = keys := by
          rw [List.append_assoc, List.append_assoc, List.singleton_append, joined, split]
        have next := serves.next request (passed ++ front) last (rest.drop size) (by
          rw [List.append_assoc, joined, split])
        have shorter : (rest.drop size).length < left_keys := by
          have some_keys := List.length_pos_iff.mpr none
          rw [List.length_drop]
          omega
        obtain ⟨pages, divides, collected⟩ := ih _ shorter split_later next rfl
        refine ⟨page :: pages, divides_cons positive none here divides, ?_⟩
        intro turns enough
        obtain ⟨turns, rfl⟩ := Nat.exists_eq_succ_of_ne_zero (Nat.ne_zero_of_lt enough)
        have some_page : page ≠ [] := by
          intro empty
          rw [empty] at seen_last
          cases seen_last
        rw [List.length_cons] at enough
        rw [collect_page some_page answered, seen_last, collected turns (by omega)]
        rfl

/-- A reader collects the pages of the list, and is done at the request after the last. -/
theorem collect_serves (positive : 0 < size) (serves : Serves cursor answer size keys) :
    ∃ pages, Divides cursor size keys pages ∧
      ∀ turns, pages.length < turns → collect cursor answer turns 0 none = some pages :=
  collect_rest positive serves (List.nil_append keys) serves.first

end Paging

import Mathlib.Tactic
import Mathlib.Data.List.Pairwise

/-! # Ordered maps

A map as the list of its entries in strictly increasing key order, so that a loop
over the map meets the entries in the order of their keys.  A lookup is membership
(`find?_eq_some`), and each operation is described by the lookups it leaves.
-/

/-- Entries in strictly increasing key order. -/
@[ext]
structure OrderedMap (Key Value : Type*) [LinearOrder Key] where
  entries : List (Key × Value)
  sorted : entries.Pairwise fun earlier later => earlier.1 < later.1

namespace OrderedMap

variable {Key Value Event : Type*} [LinearOrder Key]

def empty : OrderedMap Key Value := ⟨[], .nil⟩

def size (map : OrderedMap Key Value) : Nat := map.entries.length

def find? (map : OrderedMap Key Value) (key : Key) : Option Value :=
  (map.entries.find? fun entry => entry.1 = key).map Prod.snd

variable {map : OrderedMap Key Value} {key other : Key} {value : Value}

theorem value_unique {entry : Key × Value} (inside : entry ∈ map.entries)
    (member : (entry.1, value) ∈ map.entries) : value = entry.2 := by
  by_contra different
  have apart : entry ≠ (entry.1, value) := fun same => different (congrArg Prod.snd same).symm
  have strict : map.entries.Pairwise fun a b => a.1 ≠ b.1 := map.sorted.imp fun less => less.ne
  have symmetric : Std.Symm fun a b : Key × Value => a.1 ≠ b.1 := ⟨fun _ _ => Ne.symm⟩
  exact strict.forall inside member apart rfl

theorem find?_eq_some : map.find? key = some value ↔ (key, value) ∈ map.entries := by
  constructor
  · intro found
    obtain ⟨entry, met, rfl⟩ := Option.map_eq_some_iff.mp found
    have same : entry.1 = key := by simpa using List.find?_some met
    exact same ▸ List.mem_of_find?_eq_some met
  · intro member
    cases met : map.entries.find? fun entry => entry.1 = key with
    | none => simpa using List.find?_eq_none.mp met _ member
    | some entry =>
        have same : entry.1 = key := by simpa using List.find?_some met
        have inside := List.mem_of_find?_eq_some met
        subst same
        rw [find?, met, Option.map_some, value_unique inside member]

theorem find?_eq_none : map.find? key = none ↔ ∀ value, (key, value) ∉ map.entries := by
  simp only [Option.eq_none_iff_forall_ne_some, ne_eq, find?_eq_some]

@[simp] theorem find?_empty : (empty : OrderedMap Key Value).find? key = none := rfl

@[simp] theorem size_empty : (empty : OrderedMap Key Value).size = 0 := rfl

theorem find?_of_size_zero (none : map.size = 0) : map.find? key = .none := by
  have bare : map.entries = [] := List.length_eq_zero_iff.mp none
  simp [find?, bare]

theorem size_pos_of_find? (present : map.find? key = some value) : 0 < map.size := by
  by_contra none
  have absent : map.find? key = .none := find?_of_size_zero (Nat.eq_zero_of_not_pos none)
  rw [absent] at present
  cases present

/-- Inserts an entry at its place, unless the key is there already. -/
def emplaceEntry (key : Key) (value : Value) : List (Key × Value) → List (Key × Value)
  | [] => [(key, value)]
  | entry :: rest =>
      if key < entry.1 then (key, value) :: entry :: rest
      else if key = entry.1 then entry :: rest
      else entry :: emplaceEntry key value rest

theorem mem_emplaceEntry {entry : Key × Value} {entries : List (Key × Value)}
    (member : entry ∈ emplaceEntry key value entries) :
    entry = (key, value) ∨ entry ∈ entries := by
  induction entries with
  | nil => simpa [emplaceEntry] using member
  | cons first rest ih =>
      simp only [emplaceEntry] at member
      split_ifs at member with less same
      · simpa using member
      · exact .inr member
      · rcases List.mem_cons.mp member with rfl | later
        · exact .inr List.mem_cons_self
        · exact (ih later).imp_right (List.mem_cons_of_mem _)

theorem mem_emplaceEntry_of_mem {entry : Key × Value} {entries : List (Key × Value)}
    (member : entry ∈ entries) : entry ∈ emplaceEntry key value entries := by
  induction entries with
  | nil => cases member
  | cons first rest ih =>
      simp only [emplaceEntry]
      split_ifs
      · exact List.mem_cons_of_mem _ member
      · exact member
      · rcases List.mem_cons.mp member with rfl | later
        · exact List.mem_cons_self
        · exact List.mem_cons_of_mem _ (ih later)

theorem mem_emplaceEntry_self {entries : List (Key × Value)}
    (fresh : ∀ value, (key, value) ∉ entries) : (key, value) ∈ emplaceEntry key value entries := by
  induction entries with
  | nil => simp [emplaceEntry]
  | cons first rest ih =>
      simp only [emplaceEntry]
      split_ifs with less same
      · exact List.mem_cons_self
      · exact absurd (by simp [same]) (fresh first.2)
      · exact List.mem_cons_of_mem _ (ih fun value member =>
          fresh value (List.mem_cons_of_mem _ member))

theorem sorted_emplaceEntry {entries : List (Key × Value)}
    (sorted : entries.Pairwise fun earlier later => earlier.1 < later.1) :
    (emplaceEntry key value entries).Pairwise fun earlier later => earlier.1 < later.1 := by
  induction sorted with
  | nil => simp [emplaceEntry]
  | @cons first rest least sorted ih =>
      simp only [emplaceEntry]
      split_ifs with less same
      · refine .cons (fun entry member => ?_) (.cons least sorted)
        rcases List.mem_cons.mp member with rfl | later
        · exact less
        · exact less.trans (least entry later)
      · exact .cons least sorted
      · refine .cons (fun entry member => ?_) ih
        rcases mem_emplaceEntry member with rfl | inside
        · exact lt_of_le_of_ne (not_lt.mp less) (Ne.symm same)
        · exact least entry inside

theorem length_emplaceEntry {entries : List (Key × Value)}
    (fresh : ∀ value, (key, value) ∉ entries) :
    (emplaceEntry key value entries).length = entries.length + 1 := by
  induction entries with
  | nil => rfl
  | cons first rest ih =>
      simp only [emplaceEntry]
      split_ifs with less same
      · rfl
      · exact absurd (by simp [same]) (fresh first.2)
      · simp [ih fun value member => fresh value (List.mem_cons_of_mem _ member)]

/-- Inserts the value, unless the key is there already. -/
def tryEmplace (map : OrderedMap Key Value) (key : Key) (value : Value) :
    OrderedMap Key Value :=
  if (map.find? key).isSome then map
  else ⟨emplaceEntry key value map.entries, sorted_emplaceEntry map.sorted⟩

theorem tryEmplace_present {old : Value} (present : map.find? key = some old) :
    map.tryEmplace key value = map := by
  simp [tryEmplace, present]

theorem tryEmplace_absent (absent : map.find? key = none) :
    (map.tryEmplace key value).entries = emplaceEntry key value map.entries := by
  simp [tryEmplace, absent]

theorem find?_tryEmplace_absent (absent : map.find? key = none) :
    (map.tryEmplace key value).find? key = some value := by
  rw [find?_eq_some, tryEmplace_absent absent]
  exact mem_emplaceEntry_self (find?_eq_none.mp absent)

theorem find?_tryEmplace_ne (different : other ≠ key) :
    (map.tryEmplace key value).find? other = map.find? other := by
  cases absent : map.find? key with
  | some old => rw [tryEmplace_present absent]
  | none =>
      refine Option.ext fun found => ?_
      rw [find?_eq_some, find?_eq_some, tryEmplace_absent absent]
      refine ⟨fun member => ?_, mem_emplaceEntry_of_mem⟩
      refine (mem_emplaceEntry member).resolve_left fun same => different ?_
      exact congrArg Prod.fst same

theorem find?_tryEmplace : (map.tryEmplace key value).find? other =
    (map.find? other).or (if other = key then some value else none) := by
  by_cases same : other = key
  · subst same
    cases present : map.find? other with
    | none => simp [find?_tryEmplace_absent present]
    | some old => simp [tryEmplace_present present, present]
  · simp [find?_tryEmplace_ne same, same]

/-- Entries are only added, each of them fresh. -/
def Grows (fresh : Key → Value → Prop) (before after : OrderedMap Key Value) : Prop :=
  ∀ key, after.find? key = before.find? key ∨
    before.find? key = none ∧ ∃ value, after.find? key = some value ∧ fresh key value

theorem Grows.refl (fresh : Key → Value → Prop) (map : OrderedMap Key Value) :
    Grows fresh map map :=
  fun _ => .inl rfl

theorem Grows.tryEmplace {fresh : Key → Value → Prop} {before after : OrderedMap Key Value}
    (grows : Grows fresh before after) (added : fresh key value) :
    Grows fresh before (after.tryEmplace key value) := by
  intro other
  rw [find?_tryEmplace]
  rcases grows other with same | ⟨absent, old, present, old_fresh⟩
  · rw [same]
    cases absent : before.find? other with
    | some old => exact .inl (Option.some_or ..)
    | none =>
        by_cases here : other = key
        · subst here
          exact .inr ⟨rfl, value, by simp, added⟩
        · exact .inl (by simp [here])
  · exact .inr ⟨absent, old, by simp [present], old_fresh⟩

theorem Grows.of_find? {fresh : Key → Value → Prop} {before after : OrderedMap Key Value}
    (grows : Grows fresh before after) (found : after.find? key = some value) :
    before.find? key = some value ∨ before.find? key = none ∧ fresh key value := by
  rcases grows key with same | ⟨absent, added, present, new⟩
  · exact .inl (same ▸ found)
  · obtain rfl : added = value := Option.some.inj (present.symm.trans found)
    exact .inr ⟨absent, new⟩

theorem size_tryEmplace_absent (absent : map.find? key = none) :
    (map.tryEmplace key value).size = map.size + 1 := by
  rw [size, tryEmplace_absent absent]
  exact length_emplaceEntry (find?_eq_none.mp absent)

theorem size_tryEmplace_le (map : OrderedMap Key Value) (key : Key) (value : Value) :
    (map.tryEmplace key value).size ≤ map.size + 1 := by
  cases present : map.find? key with
  | none => exact (size_tryEmplace_absent present).le
  | some old =>
      rw [tryEmplace_present present]
      exact Nat.le_succ _

def erase (map : OrderedMap Key Value) (key : Key) : OrderedMap Key Value :=
  ⟨map.entries.filter fun entry => entry.1 ≠ key, map.sorted.filter _⟩

@[simp] theorem find?_erase_self : (map.erase key).find? key = none := by
  simp [find?_eq_none, erase]

theorem find?_erase_ne (different : other ≠ key) :
    (map.erase key).find? other = map.find? other := by
  refine Option.ext fun found => ?_
  simp [find?_eq_some, erase, different]

/-- `std::erase_if` by the keys. -/
def eraseIf (map : OrderedMap Key Value) (test : Key → Bool) : OrderedMap Key Value :=
  ⟨map.entries.filter fun entry => !test entry.1, map.sorted.filter _⟩

theorem find?_eraseIf {test : Key → Bool} :
    (map.eraseIf test).find? key = if test key then none else map.find? key := by
  refine Option.ext fun found => ?_
  split_ifs with erased
  · simp [find?_eq_some, eraseIf, erased]
  · simp [find?_eq_some, eraseIf, erased]

theorem eraseIf_of_none {test : Key → Bool} (none : ∀ entry ∈ map.entries, test entry.1 = false) :
    map.eraseIf test = map := by
  ext1
  apply List.filter_eq_self.mpr
  intro entry member
  simp [none entry member]

/-- An insertion is undone by the erasure of its key. -/
theorem erase_tryEmplace (absent : map.find? key = none) :
    (map.tryEmplace key value).erase key = map := by
  have undone : ∀ entries : List (Key × Value), (∀ value, (key, value) ∉ entries) →
      (emplaceEntry key value entries).filter (fun entry => entry.1 ≠ key) = entries := by
    intro entries fresh
    have kept : entries.filter (fun entry => entry.1 ≠ key) = entries := by
      refine List.filter_eq_self.mpr fun entry member => ?_
      simpa using fun same : entry.1 = key => fresh entry.2 (same ▸ member)
    induction entries with
    | nil => simp [emplaceEntry]
    | cons first rest ih =>
        have later : ∀ value, (key, value) ∉ rest := fun value member =>
          fresh value (List.mem_cons_of_mem _ member)
        have apart : first.1 ≠ key := fun same => fresh first.2 (by simp [← same])
        have rest_kept : rest.filter (fun entry => entry.1 ≠ key) = rest := by
          simpa [apart] using kept
        simp only [emplaceEntry]
        split_ifs with less same
        · rw [List.filter_cons_of_neg (by simp), kept]
        · exact absurd same.symm apart
        · rw [List.filter_cons_of_pos (by simpa using apart), ih later rest_kept]
  have same : ((map.tryEmplace key value).erase key).entries = map.entries := by
    change (map.tryEmplace key value).entries.filter (fun entry => entry.1 ≠ key) = map.entries
    rw [tryEmplace_absent absent]
    exact undone map.entries (find?_eq_none.mp absent)
  exact OrderedMap.ext same

theorem size_erase_le : (map.erase key).size ≤ map.size :=
  List.length_filter_le _ _

theorem size_foldl_erase_le (map : OrderedMap Key Value) (keys : List Key) :
    (keys.foldl erase map).size ≤ map.size := by
  induction keys generalizing map with
  | nil => exact le_rfl
  | cons key keys ih => exact (ih (map.erase key)).trans size_erase_le

/-- Applies an update at a key, as through a reference into the map. -/
def adjust (map : OrderedMap Key Value) (key : Key) (update : Value → Value) :
    OrderedMap Key Value where
  entries := map.entries.map fun entry =>
    if entry.1 = key then (entry.1, update entry.2) else entry
  sorted := by
    refine List.pairwise_map.mpr (map.sorted.imp fun {a b} less => ?_)
    split_ifs <;> exact less

theorem entries_adjust {update : Value → Value} :
    (map.adjust key update).entries =
      map.entries.map fun entry => if entry.1 = key then (entry.1, update entry.2) else entry := rfl

@[simp] theorem size_adjust {update : Value → Value} :
    (map.adjust key update).size = map.size := by
  simp [size, adjust]

theorem find?_adjust {update : Value → Value} :
    (map.adjust key update).find? other =
      if other = key then (map.find? other).map update else map.find? other := by
  have plain : ∀ entries : List (Key × Value),
      ((entries.map fun entry => if entry.1 = key then (entry.1, update entry.2) else entry).find?
          fun entry => entry.1 = other).map Prod.snd =
        if other = key then ((entries.find? fun entry => entry.1 = other).map Prod.snd).map update
        else (entries.find? fun entry => entry.1 = other).map Prod.snd := by
    intro entries
    induction entries with
    | nil => simp
    | cons first rest ih =>
        rw [List.map_cons, List.find?_cons, List.find?_cons]
        by_cases here : first.1 = key <;> by_cases met : first.1 = other <;> grind
  exact plain map.entries

/-- An update at a key after another. -/
theorem adjust_adjust {first second : Value → Value} :
    (map.adjust key first).adjust key second =
      map.adjust key fun value => second (first value) := by
  unfold adjust
  congr 1
  rw [List.map_map]
  apply List.map_congr_left
  intro entry _
  by_cases here : entry.1 = key <;> simp [here]

/-- A loop over the entries that may update each value and report events, and that
    returns early where the visit gives up. -/
def sweepEntries (visit : Key → Value → Option (Value × List Event)) :
    List (Key × Value) → List (Key × Value) × List Event
  | [] => ([], [])
  | entry :: rest =>
      match visit entry.1 entry.2 with
      | none => (entry :: rest, [])
      | some (value, events) =>
          let (swept, later) := sweepEntries visit rest
          ((entry.1, value) :: swept, events ++ later)

variable {visit : Key → Value → Option (Value × List Event)}

omit [LinearOrder Key] in
theorem keys_sweepEntries (visit : Key → Value → Option (Value × List Event))
    (entries : List (Key × Value)) :
    (sweepEntries visit entries).1.map Prod.fst = entries.map Prod.fst := by
  induction entries with
  | nil => rfl
  | cons entry rest ih =>
      simp only [sweepEntries]
      split
      · rfl
      · simp [ih]

/-- The loop over a map. -/
def sweep (map : OrderedMap Key Value) (visit : Key → Value → Option (Value × List Event)) :
    OrderedMap Key Value × List Event :=
  (⟨(sweepEntries visit map.entries).1, by
      have ordered := List.pairwise_map.mpr map.sorted
      rw [← keys_sweepEntries visit] at ordered
      exact List.pairwise_map.mp ordered⟩,
    (sweepEntries visit map.entries).2)

@[simp] theorem size_sweep : (map.sweep visit).1.size = map.size := by
  have same := congrArg List.length (keys_sweepEntries visit map.entries)
  simpa [size, sweep] using same

/-- The loop gives up nowhere. -/
def completes (map : OrderedMap Key Value) (visit : Key → Value → Option (Value × List Event)) :
    Bool :=
  map.entries.all fun entry => (visit entry.1 entry.2).isSome

/-- The loop reaches a key when it gives up at no key up to it. -/
def Reaches (entries : List (Key × Value)) (visit : Key → Value → Option (Value × List Event))
    (key : Key) : Prop :=
  ∀ entry ∈ entries, entry.1 ≤ key → (visit entry.1 entry.2).isSome

theorem reaches_first {first : Key × Value} {rest : List (Key × Value)}
    (least : ∀ entry ∈ rest, first.1 < entry.1) :
    Reaches (first :: rest) visit first.1 ↔ (visit first.1 first.2).isSome := by
  constructor
  · intro reaches
    exact reaches first List.mem_cons_self le_rfl
  · intro visited entry member low
    rcases List.mem_cons.mp member with rfl | later
    · exact visited
    · exact absurd low (least entry later).not_ge

theorem reaches_cons {first : Key × Value} {rest : List (Key × Value)}
    (before : first.1 < key) :
    Reaches (first :: rest) visit key ↔
      (visit first.1 first.2).isSome ∧ Reaches rest visit key := by
  simp only [Reaches, List.mem_cons, forall_eq_or_imp, before.le, forall_const]

/-- What the loop makes of the entry of a key, and what it reports of it. -/
theorem sweepEntries_spec {entries : List (Key × Value)}
    (sorted : entries.Pairwise fun earlier later => earlier.1 < later.1)
    (member : (key, value) ∈ entries) :
    (Reaches entries visit key → ∃ next events, visit key value = some (next, events) ∧
        (key, next) ∈ (sweepEntries visit entries).1 ∧
        ∀ event ∈ events, event ∈ (sweepEntries visit entries).2) ∧
      (¬Reaches entries visit key → (key, value) ∈ (sweepEntries visit entries).1) := by
  induction sorted with
  | nil => cases member
  | @cons first rest least sorted ih =>
      cases visited : visit first.1 first.2 with
      | none =>
          have stopped : ¬Reaches (first :: rest) visit key := by
            intro reaches
            have low : first.1 ≤ key := by
              rcases List.mem_cons.mp member with rfl | later
              · exact le_rfl
              · exact (least _ later).le
            simpa [visited] using reaches first List.mem_cons_self low
          refine ⟨fun reaches => absurd reaches stopped, fun _ => ?_⟩
          simpa [sweepEntries, visited] using member
      | some visit_first =>
          obtain ⟨next, events⟩ := visit_first
          rcases List.mem_cons.mp member with rfl | later
          · refine ⟨fun _ => ⟨next, events, visited, ?_, ?_⟩, fun unreached => ?_⟩
            · simp [sweepEntries, visited]
            · intro event reported
              simp [sweepEntries, visited, reported]
            · exact absurd ((reaches_first least).mpr (by simp [visited])) unreached
          · have before := least _ later
            have step : Reaches (first :: rest) visit key ↔ _ := reaches_cons before
            simp only [visited, Option.isSome_some, true_and] at step
            obtain ⟨reached, unreached⟩ := ih later
            rw [step]
            refine ⟨fun reaches => ?_, fun stops => ?_⟩
            · obtain ⟨next', events', seen, inside, reported⟩ := reached reaches
              refine ⟨next', events', seen, ?_, fun event member => ?_⟩
              · simp [sweepEntries, visited, inside]
              · simp [sweepEntries, visited, reported event member]
            · simp [sweepEntries, visited, unreached stops]

/-- Every event is reported by a reached entry. -/
theorem reached_of_mem {entries : List (Key × Value)} {event : Event}
    (sorted : entries.Pairwise fun earlier later => earlier.1 < later.1)
    (reported : event ∈ (sweepEntries visit entries).2) :
    ∃ key value next events, (key, value) ∈ entries ∧ Reaches entries visit key ∧
      visit key value = some (next, events) ∧ event ∈ events := by
  induction sorted with
  | nil => cases reported
  | @cons first rest least sorted ih =>
      cases visited : visit first.1 first.2 with
      | none => simp [sweepEntries, visited] at reported
      | some visit_first =>
          obtain ⟨next, events⟩ := visit_first
          simp only [sweepEntries, visited, List.mem_append] at reported
          rcases reported with now | later
          · exact ⟨first.1, first.2, next, events, List.mem_cons_self,
              (reaches_first least).mpr (by simp [visited]), visited, now⟩
          · obtain ⟨key, value, next', events', member, reaches, seen, inside⟩ := ih later
            refine ⟨key, value, next', events', List.mem_cons_of_mem _ member, ?_, seen, inside⟩
            exact (reaches_cons (least _ member)).mpr ⟨by simp [visited], reaches⟩

section Reached

variable {next : Value} {events : List Event}

theorem find?_sweep_reached (reaches : Reaches map.entries visit key)
    (present : map.find? key = some value) (seen : visit key value = some (next, events)) :
    (map.sweep visit).1.find? key = some next := by
  obtain ⟨after, reported, same, inside, -⟩ :=
    (sweepEntries_spec map.sorted (find?_eq_some.mp present)).1 reaches
  obtain ⟨rfl, rfl⟩ : next = after ∧ events = reported := by simpa [seen] using same
  exact find?_eq_some.mpr inside

theorem find?_sweep_unreached (stops : ¬Reaches map.entries visit key)
    (present : map.find? key = some value) : (map.sweep visit).1.find? key = some value :=
  find?_eq_some.mpr ((sweepEntries_spec map.sorted (find?_eq_some.mp present)).2 stops)

theorem find?_sweep_absent (absent : map.find? key = none) :
    (map.sweep visit).1.find? key = none := by
  refine find?_eq_none.mpr fun value member => ?_
  have inside : key ∈ (sweepEntries visit map.entries).1.map Prod.fst :=
    List.mem_map.mpr ⟨(key, value), member, rfl⟩
  rw [keys_sweepEntries] at inside
  obtain ⟨entry, present, rfl⟩ := List.mem_map.mp inside
  exact find?_eq_none.mp absent entry.2 present

theorem mem_sweep {event : Event} :
    event ∈ (map.sweep visit).2 ↔ ∃ key value next events, map.find? key = some value ∧
      Reaches map.entries visit key ∧ visit key value = some (next, events) ∧ event ∈ events := by
  constructor
  · intro reported
    obtain ⟨key, value, next, events, member, reaches, seen, inside⟩ :=
      reached_of_mem map.sorted reported
    exact ⟨key, value, next, events, find?_eq_some.mpr member, reaches, seen, inside⟩
  · rintro ⟨key, value, next, events, present, reaches, seen, inside⟩
    obtain ⟨after, reported, same, -, all⟩ :=
      (sweepEntries_spec map.sorted (find?_eq_some.mp present)).1 reaches
    obtain ⟨rfl, rfl⟩ : next = after ∧ events = reported := by simpa [seen] using same
    exact all event inside

section Total

variable (total : ∀ key value, (visit key value).isSome)
include total

theorem completes_of_total : map.completes visit = true :=
  List.all_eq_true.mpr fun entry _ => total entry.1 entry.2

theorem find?_of_sweep (swept : (map.sweep visit).1.find? key = some next) :
    ∃ value events, map.find? key = some value ∧ visit key value = some (next, events) := by
  cases present : map.find? key with
  | none => rw [find?_sweep_absent present] at swept; cases swept
  | some value =>
      obtain ⟨⟨after, events⟩, seen⟩ := Option.isSome_iff_exists.mp (total key value)
      have reaches : Reaches map.entries visit key := fun entry _ _ => total entry.1 entry.2
      rw [find?_sweep_reached reaches present seen] at swept
      exact ⟨value, events, rfl, by rw [seen, Option.some.inj swept]⟩

theorem mem_sweep_of_total {event : Event} :
    event ∈ (map.sweep visit).2 ↔ ∃ key value next events, map.find? key = some value ∧
      visit key value = some (next, events) ∧ event ∈ events := by
  rw [mem_sweep]
  constructor
  · rintro ⟨key, value, next, events, present, -, seen, inside⟩
    exact ⟨key, value, next, events, present, seen, inside⟩
  · rintro ⟨key, value, next, events, present, seen, inside⟩
    exact ⟨key, value, next, events, present, fun entry _ _ => total entry.1 entry.2, seen, inside⟩

end Total

/-- A visit that never gives up reaches every key. -/
theorem find?_sweep {next : Key → Value → Value} {report : Key → Value → List Event}
    (total : ∀ key value, visit key value = some (next key value, report key value)) :
    (map.sweep visit).1.find? key = (map.find? key).map (next key) := by
  cases present : map.find? key with
  | none => exact find?_sweep_absent present
  | some value =>
      have reaches : Reaches map.entries visit key := fun entry _ _ => by simp [total]
      exact find?_sweep_reached reaches present (total key value)

section Reports

variable {next : Key → Value → Value} {report : Key → Value → List Event} {own : Event → Bool}
  (total : ∀ key value, visit key value = some (next key value, report key value))
  (owned : ∀ other value, ∀ event ∈ report other value, (own event = true ↔ other = key))
include total owned

omit [LinearOrder Key] in
theorem filter_sweepEntries_absent {entries : List (Key × Value)}
    (absent : ∀ value, (key, value) ∉ entries) :
    (sweepEntries visit entries).2.filter own = [] := by
  rw [List.filter_eq_nil_iff]
  induction entries with
  | nil => simp [sweepEntries]
  | cons first rest ih =>
      intro event member
      simp only [sweepEntries, total, List.mem_append] at member
      rcases member with now | later
      · have apart : first.1 ≠ key := fun same => absent first.2 (by simp [← same])
        exact fun inside => apart ((owned first.1 first.2 event now).mp inside)
      · exact ih (fun value inside => absent value (List.mem_cons_of_mem _ inside)) event later

theorem filter_sweepEntries {entries : List (Key × Value)}
    (sorted : entries.Pairwise fun earlier later => earlier.1 < later.1)
    (member : (key, value) ∈ entries) :
    (sweepEntries visit entries).2.filter own = report key value := by
  induction sorted with
  | nil => cases member
  | @cons first rest least sorted ih =>
      simp only [sweepEntries, total, List.filter_append]
      rcases List.mem_cons.mp member with rfl | later
      · have absent : ∀ value, (key, value) ∉ rest := fun other inside =>
          lt_irrefl key (least (key, other) inside)
        rw [filter_sweepEntries_absent total owned absent, List.append_nil]
        exact List.filter_eq_self.mpr fun event inside => (owned key value event inside).mpr rfl
      · have apart := (least _ later).ne
        have quiet : (report first.1 first.2).filter own = [] := by
          rw [List.filter_eq_nil_iff]
          exact fun event inside mine => apart ((owned _ _ event inside).mp mine)
        rw [quiet, List.nil_append, ih later]

/-- What a visit that never gives up reports of a key is what it reports of its value. -/
theorem filter_sweep :
    (map.sweep visit).2.filter own = ((map.find? key).map (report key)).getD [] := by
  cases present : map.find? key with
  | none => exact filter_sweepEntries_absent total owned (find?_eq_none.mp present)
  | some value => exact filter_sweepEntries total owned map.sorted (find?_eq_some.mp present)

end Reports

end Reached

/-- A loop that updates every value. -/
def mapValues (map : OrderedMap Key Value) (update : Value → Value) : OrderedMap Key Value :=
  (map.sweep fun _ value => some (update value, ([] : List Unit))).1

theorem find?_mapValues {update : Value → Value} :
    (map.mapValues update).find? key = (map.find? key).map update :=
  find?_sweep fun _ _ => rfl

@[simp] theorem size_mapValues {update : Value → Value} :
    (map.mapValues update).size = map.size :=
  size_sweep

/-- A loop that may also erase the entry it visits. -/
def pruneEntries (visit : Key → Value → Option (Option Value × List Event)) :
    List (Key × Value) → List (Key × Value) × List Event
  | [] => ([], [])
  | entry :: rest =>
      match visit entry.1 entry.2 with
      | none => (entry :: rest, [])
      | some (kept, events) =>
          let (pruned, later) := pruneEntries visit rest
          ((kept.map (entry.1, ·)).toList ++ pruned, events ++ later)

omit [LinearOrder Key] in
theorem keys_pruneEntries (visit : Key → Value → Option (Option Value × List Event))
    (entries : List (Key × Value)) :
    ((pruneEntries visit entries).1.map Prod.fst).Sublist (entries.map Prod.fst) := by
  induction entries with
  | nil => exact .slnil
  | cons entry rest ih =>
      simp only [pruneEntries]
      split
      · exact List.Sublist.refl _
      · rename_i kept events visited
        cases kept with
        | none => exact ih.cons _
        | some value => exact ih.cons_cons _

/-- The erasing loop over a map. -/
def prune (map : OrderedMap Key Value) (visit : Key → Value → Option (Option Value × List Event)) :
    OrderedMap Key Value × List Event :=
  (⟨(pruneEntries visit map.entries).1, List.pairwise_map.mp
      ((List.pairwise_map.mpr map.sorted).sublist (keys_pruneEntries visit map.entries))⟩,
    (pruneEntries visit map.entries).2)

theorem size_prune_le {visit : Key → Value → Option (Option Value × List Event)} :
    (map.prune visit).1.size ≤ map.size := by
  have fewer := (keys_pruneEntries visit map.entries).length_le
  simpa [size, prune] using fewer

/-- Maps are their lookups. -/
theorem ext_find? {first second : OrderedMap Key Value}
    (same : ∀ key, first.find? key = second.find? key) : first = second := by
  have irreflexive : Std.Irrefl fun a b : Key × Value => a.1 < b.1 := ⟨fun _ => lt_irrefl _⟩
  have antisymmetric : Std.Antisymm fun a b : Key × Value => a.1 < b.1 :=
    ⟨fun _ _ less more => absurd less more.asymm⟩
  apply OrderedMap.ext
  apply List.Pairwise.eq_of_mem_iff first.sorted second.sorted
  intro entry
  rw [← find?_eq_some, ← find?_eq_some, same]

/-- Updates the value at a key, a default where the key is fresh. -/
def update (map : OrderedMap Key Value) (key : Key) (default : Value) (change : Value → Value) :
    OrderedMap Key Value := (map.tryEmplace key default).adjust key change

theorem find?_update {default : Value} {change : Value → Value} :
    (map.update key default change).find? other =
      if other = key then some (change ((map.find? key).getD default)) else map.find? other := by
  rw [update, find?_adjust, find?_tryEmplace]
  split_ifs with same
  · subst same
    cases map.find? other <;> rfl
  · simp

theorem update_update_same {default : Value} {one two : Value → Value} :
    (map.update key default one).update key default two =
      map.update key default fun value => two (one value) := by
  apply ext_find?
  intro other
  rw [find?_update, find?_update, find?_update, find?_update]
  simp only [if_true, Option.getD_some]
  split_ifs <;> rfl

theorem update_comm {default : Value} {one two : Value → Value} (different : key ≠ other) :
    (map.update key default one).update other default two =
      (map.update other default two).update key default one := by
  apply ext_find?
  intro sought
  rw [find?_update, find?_update, find?_update, find?_update, find?_update, find?_update]
  grind

theorem emplaceEntry_last {entries : List (Key × Value)}
    (greatest : ∀ entry ∈ entries, entry.1 < key) :
    emplaceEntry key value entries = entries ++ [(key, value)] := by
  induction entries with
  | nil => rfl
  | cons first rest ih =>
      rw [List.forall_mem_cons] at greatest
      rw [emplaceEntry, if_neg greatest.1.not_gt, if_neg greatest.1.ne', ih greatest.2]
      rfl

/-- A greatest key is updated at the end of the entries, where it is there. -/
theorem entries_update_present {default : Value} {change : Value → Value}
    {before : List (Key × Value)} (last : map.entries = before ++ [(key, value)]) :
    (map.update key default change).entries = before ++ [(key, change value)] := by
  have present : map.find? key = some value := by
    rw [find?_eq_some, last]
    simp
  have apart : ∀ entry ∈ before, entry.1 ≠ key := by
    intro entry member
    have sorted := map.sorted
    rw [last, List.pairwise_append] at sorted
    exact (sorted.2.2 entry member (key, value) (List.mem_singleton_self _)).ne
  rw [update, tryEmplace_present present, entries_adjust, last, List.map_append]
  congr 1
  · rw [List.map_congr_left fun entry member => if_neg (apart entry member), List.map_id']
  · simp

/-- A key greater than all is added at the end of the entries. -/
theorem entries_update_fresh {default : Value} {change : Value → Value}
    (greatest : ∀ entry ∈ map.entries, entry.1 < key) :
    (map.update key default change).entries = map.entries ++ [(key, change default)] := by
  have absent : map.find? key = none := by
    rw [find?_eq_none]
    intro value member
    exact lt_irrefl _ (greatest _ member)
  rw [update, entries_adjust, tryEmplace_absent absent, emplaceEntry_last greatest,
    List.map_append]
  congr 1
  · rw [List.map_congr_left fun entry member => if_neg (greatest entry member).ne, List.map_id']
  · simp

/-- The entry of a key that none is greater than is the last. -/
theorem exists_entries_of_greatest (present : map.find? key = some value)
    (greatest : ∀ entry ∈ map.entries, entry.1 ≤ key) :
    ∃ before, map.entries = before ++ [(key, value)] := by
  obtain ⟨before, after, split⟩ := List.append_of_mem (find?_eq_some.mp present)
  have sorted := map.sorted
  rw [split, List.pairwise_append, List.pairwise_cons] at sorted
  have none : after = [] := by
    rw [List.eq_nil_iff_forall_not_mem]
    intro entry member
    have bound := greatest entry (by simp [split, member])
    exact absurd (sorted.2.1.1 entry member) bound.not_gt
  exact ⟨before, by rw [split, none]⟩

end OrderedMap

import LibbitcoinServer.Store.Tip
import Mathlib.Data.List.Iterate

/-! # Ancestry

The links of parents never change, so that the ancestors of one link are read without regard
to what becomes of the chain.  In a linked chain they are the chain below the link.
-/

namespace LibbitcoinServer.Store

variable {Link Digest : Type}

/-- The parents of the headers, and what is kept of a header over its ancestors down to
    genesis. -/
structure Ancestry (store : HeaderStore Link Digest) where
  toParent : Link → Link
  height_parent : ∀ {link}, 0 < store.height link →
    store.height (toParent link) + 1 = store.height link
  getTxCount : Link → Nat
  getBranchTxCount : Link → Nat
  branch_tx_count : ∀ {link}, 0 < store.height link →
    getBranchTxCount link = getTxCount link + getBranchTxCount (toParent link)
  proof : Link → Nat
  work : Link → Nat
  getBranchWork : Link → Option Nat
  work_eq : ∀ {link read}, getBranchWork link = some read → read = work link
  branch_work : ∀ {link}, 0 < store.height link → work link = proof link + work (toParent link)

namespace Ancestry

variable {store : HeaderStore Link Digest} (ancestry : Ancestry store)

/-- `get_ancestry`: a link and its ancestors, as many as asked for or as there are. -/
def getAncestry (link : Option Link) (count : Nat) : Option (List Link) := do
  let link ← link
  let height ← store.getHeight link
  return List.iterate ancestry.toParent link (min count (height + 1))

/-- Each block of a chain has the block below it as its parent. -/
def Linked (chain : Confirmed store) : Prop :=
  ∀ height link above, chain.links[height]? = some link → chain.links[height + 1]? = some above →
    ancestry.toParent above = link

variable {ancestry} {link : Link}

theorem height_iterate {count : Nat} (enough : count ≤ store.height link) :
    store.height (ancestry.toParent^[count] link) + count = store.height link := by
  induction count with
  | zero => rfl
  | succ count ih =>
      have below := ih (Nat.le_of_succ_le enough)
      have parent := @ancestry.height_parent (ancestry.toParent^[count] link) (by omega)
      rw [Function.iterate_succ_apply']
      omega

/-- What is kept over the ancestors of a link is that of its ancestors in a window, with that
    kept below the window. -/
theorem sum_window {part total : Link → Nat}
    (kept : ∀ {link}, 0 < store.height link →
      total link = part link + total (ancestry.toParent link))
    {count : Nat} (enough : count ≤ store.height link) :
    ((List.iterate ancestry.toParent link count).map part).sum +
      total (ancestry.toParent^[count] link) = total link := by
  induction count generalizing link with
  | zero => exact Nat.zero_add _
  | succ count ih =>
      have positive : 0 < store.height link := Nat.lt_of_lt_of_le (Nat.succ_pos count) enough
      have parent := ancestry.height_parent positive
      have below := @ih (ancestry.toParent link) (by omega)
      rw [List.iterate, List.map_cons, List.sum_cons, Function.iterate_succ_apply, Nat.add_assoc,
        below, kept positive]

/-- In a linked chain the ancestors of a link are the chain below it. -/
theorem iterate_linked {chain : Confirmed store} (linked : ancestry.Linked chain) {height : Nat}
    (here : chain.links[height]? = some link) {count : Nat} (enough : count ≤ height + 1) :
    List.iterate ancestry.toParent link count =
      (chain.headers (height + 1 - count) count).reverse := by
  induction count generalizing link height with
  | zero => simp [Confirmed.headers]
  | succ count ih =>
      obtain ⟨inside, same⟩ := List.getElem?_eq_some_iff.mp here
      have last : chain.headers (height + 1 - (count + 1)) (count + 1) =
          chain.headers (height - count) count ++ [link] := by
        rw [Nat.add_sub_add_right, Confirmed.headers, Confirmed.headers,
          List.take_add_one, List.getElem?_drop, Nat.sub_add_cancel (Nat.le_of_succ_le_succ enough),
          here]
        rfl
      rw [last, List.reverse_append, List.reverse_singleton, List.singleton_append, List.iterate]
      congr 1
      cases height with
      | zero =>
          have none_left : count = 0 := by omega
          simp [none_left, Confirmed.headers]
      | succ height =>
          have below : chain.links[height]? = some chain.links[height] :=
            List.getElem?_eq_getElem (Nat.lt_of_succ_lt inside)
          rw [linked height _ link below here]
          exact ih below (by omega)

end Ancestry

end LibbitcoinServer.Store

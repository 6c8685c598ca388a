import Mathlib.Algebra.Order.Floor.Div
import Mathlib.Tactic

/-! # Trees read level by level

A row of leaves is reduced by joining adjacent nodes; an odd last node is joined
with itself.  A node of such a tree is named by its height and its position in
the level at that height, so no tree type is needed: `level` is the whole tree.
-/

namespace LevelTree

variable {α : Type*} (join : α → α → α)

/-- One level up: adjacent nodes joined, an odd last node joined with itself. -/
def pairUp : List α → List α
  | [] => []
  | [last] => [join last last]
  | left :: right :: rest => join left right :: pairUp rest

/-- The nodes at `height` above the leaves. -/
def level (leaves : List α) : Nat → List α
  | 0 => leaves
  | height + 1 => pairUp join (level leaves height)

theorem length_pairUp (nodes : List α) :
    (pairUp join nodes).length = (nodes.length + 1) / 2 := by
  induction nodes using pairUp.induct with
  | case1 => simp [pairUp]
  | case2 last => simp [pairUp]
  | case3 left right rest ih =>
      simp only [pairUp, List.length_cons, ih]
      omega

/-- A node joins its two children, the right one defaulting to the left. -/
theorem getElem?_pairUp (nodes : List α) (pos : Nat) :
    (pairUp join nodes)[pos]? =
      nodes[2 * pos]?.map fun left => join left (nodes[2 * pos + 1]?.getD left) := by
  induction nodes using pairUp.induct generalizing pos with
  | case1 => simp [pairUp]
  | case2 last => cases pos <;> simp [pairUp, Nat.mul_add]
  | case3 left right rest ih =>
      cases pos with
      | zero => simp [pairUp]
      | succ pos => simp [pairUp, Nat.mul_add, ih]

theorem level_pairUp (leaves : List α) (height : Nat) :
    level join (pairUp join leaves) height = level join leaves (height + 1) := by
  induction height with
  | zero => rfl
  | succ height ih => simp only [level, ih]

/-- Halving rounded up composes: a level is the leaves divided by a power of two. -/
theorem half_ceilDiv (count height : Nat) :
    (count ⌈/⌉ 2 ^ height + 1) / 2 = count ⌈/⌉ 2 ^ (height + 1) := by
  have positive : 0 < 2 ^ height := by positivity
  apply eq_of_forall_ge_iff
  intro bound
  rw [ceilDiv_le_iff_le_mul (by positivity), pow_succ, Nat.mul_assoc,
    ← ceilDiv_le_iff_le_mul positive]
  omega

theorem length_level (leaves : List α) (height : Nat) :
    (level join leaves height).length = leaves.length ⌈/⌉ 2 ^ height := by
  induction height with
  | zero => simp only [level, pow_zero, ceilDiv_one]
  | succ height ih => rw [level, length_pairUp, ih, half_ceilDiv]

/-- The single node left by pairing up until one remains. -/
def root : List α → Option α
  | [] => none
  | [last] => some last
  | left :: right :: rest => root (pairUp join (left :: right :: rest))
termination_by leaves => leaves.length
decreasing_by
  simp only [length_pairUp, List.length_cons]
  omega

/-- The first level with a single node holds the root. -/
theorem root_eq_level (leaves : List α) (height : Nat)
    (single : (level join leaves height).length = 1)
    (wider : ∀ below < height, 1 < (level join leaves below).length) :
    root join leaves = (level join leaves height)[0]? := by
  induction height generalizing leaves with
  | zero =>
      obtain ⟨last, rfl⟩ := List.length_eq_one_iff.mp single
      simp [root, level]
  | succ height ih =>
      have wide : 1 < leaves.length := wider 0 (by omega)
      match leaves, wide with
      | left :: right :: rest, _ =>
          rw [root, ← level_pairUp]
          apply ih
          · rw [level_pairUp]
            exact single
          · intro below inside
            rw [level_pairUp]
            exact wider (below + 1) (by omega)

end LevelTree

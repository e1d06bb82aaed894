import Mathlib.Algebra.Ring.Nat
import TaprootLab.CommitmentTree

/-!
# Levels of a tree

A level of `2 ^ (k + 1)` hashes has a level of `2 ^ k` above it, whose hashes are those of
neighbours (`getElem?_pairUp`). So from `2 ^ k` hashes the levels go up to a single one, and the
tree that they make is complete (`commits_raise`). No hash is ever without a neighbour on the way,
and there is an end to it after `k` rounds: the levels are the same if pairing stops at a hash that
is left over, and raising at a number of rounds (`raise?_eq`).
-/

namespace TaprootLab.CommitmentTree

/-! ## Complete trees -/

/-- The hash at a place of a level. -/
def hashAt (levels : List (List Bytes)) (i j : Nat) : Option Bytes := levels[i]?.bind (·[j]?)

/-- A complete tree of the height `k` over a level, the root's level first. -/
structure Commits (k : Nat) (bottom : List Bytes) (levels : List (List Bytes)) : Prop where
  height : levels.length = k + 1
  width : ∀ i level, levels[i]? = some level → level.length = 2 ^ i
  last : levels[k]? = some bottom
  node : ∀ i j, i < k → j < 2 ^ i → ∃ left right, hashAt levels (i + 1) (2 * j) = some left ∧
    hashAt levels (i + 1) (2 * j + 1) = some right
      ∧ hashAt levels i j = some (Hash.sha256 (left ++ right))

/-- The level above, if every hash has a neighbour. -/
def pairUp? : List Bytes → Option (List Bytes)
  | [] => some []
  | [_] => none
  | a :: b :: rest => (pairUp? rest).map (Hash.sha256 (a ++ b) :: ·)

/-- The levels up to the root, if there are no more rounds to it and every hash has a neighbour in
each. -/
def raise? (rounds : Nat) (level : List Bytes) (below : List (List Bytes)) :
    Option (List (List Bytes)) :=
  if level.length ≤ 1 then some (level :: below)
  else
    match rounds with
    | 0 => none
    | rounds + 1 => (pairUp? level).bind fun above => raise? rounds above (level :: below)

/-! ## One level up -/

section
variable {level : List Bytes}

theorem getElem?_pairUp {j : Nat} {left right : Bytes} (l : level[2 * j]? = some left)
    (r : level[2 * j + 1]? = some right) :
    (pairUp level)[j]? = some (Hash.sha256 (left ++ right)) := by
  induction level using pairUp.induct generalizing j with
  | case1 a b rest ih =>
    cases j with
    | zero =>
      cases l
      cases r
      rfl
    | succ j => exact ih l r
  | case2 level short =>
    match level, r with
    | a :: b :: rest, _ => exact (short a b rest rfl).elim

theorem pairUp?_eq {n : Nat} (even : level.length = 2 * n) :
    pairUp? level = some (pairUp level) := by
  induction level using pairUp.induct generalizing n with
  | case1 a b rest ih =>
    rw [List.length_cons, List.length_cons] at even
    rw [pairUp?, ih (n := n - 1) (by omega)]
    rfl
  | case2 level short =>
    match level, even with
    | [], _ => rfl
    | [_], even =>
      rw [List.length_singleton] at even
      omega
    | a :: b :: rest, _ => exact (short a b rest rfl).elim

/-! ## All levels -/

theorem raise_of_small (small : level.length ≤ 1) (below : List (List Bytes)) :
    raise level below = level :: below := by
  rw [raise, dif_pos small]

theorem raise_of_large (large : 1 < level.length) (below : List (List Bytes)) :
    raise level below = raise (pairUp level) (level :: below) := by
  rw [raise, dif_neg (Nat.not_le.mpr large)]

theorem length_eq_double {k : Nat} (width : level.length = 2 ^ (k + 1)) :
    level.length = 2 * 2 ^ k ∧ (pairUp level).length = 2 ^ k := by
  have double : level.length = 2 * 2 ^ k := by rw [width, Nat.pow_succ, Nat.mul_comm]
  refine ⟨double, ?_⟩
  rw [length_pairUp, double, Nat.mul_div_cancel_left _ Nat.two_pos]

theorem one_lt_length {k : Nat} (width : level.length = 2 ^ (k + 1)) : 1 < level.length := by
  rw [width]
  exact Nat.one_lt_two_pow (Nat.succ_ne_zero k)

theorem raise_append {k : Nat} (width : level.length = 2 ^ k) (below : List (List Bytes)) :
    raise level below = raise level [] ++ below := by
  induction k generalizing level below with
  | zero =>
    have small : level.length ≤ 1 := Nat.le_of_eq width
    rw [raise_of_small small, raise_of_small small, List.singleton_append]
  | succ k ih =>
    have large := one_lt_length width
    have above := (length_eq_double width).2
    calc raise level below
        = raise (pairUp level) [] ++ level :: below := by rw [raise_of_large large, ih above]
      _ = (raise (pairUp level) [] ++ [level]) ++ below := by
        rw [List.append_assoc, List.singleton_append]
      _ = raise level [] ++ below := by rw [raise_of_large large [], ih above [level]]

variable {k : Nat} {levels : List (List Bytes)}

theorem hashAt_concat_of_lt {i : Nat} (above : i < levels.length) (j : Nat) :
    hashAt (levels ++ [level]) i j = hashAt levels i j := by
  rw [hashAt, hashAt, List.getElem?_append_left above]

theorem hashAt_concat_last (j : Nat) : hashAt (levels ++ [level]) levels.length j = level[j]? := by
  rw [hashAt, List.getElem?_concat_length, Option.bind_some]

theorem commits_singleton (hash : Bytes) : Commits 0 [hash] [[hash]] where
  height := rfl
  width i level h := by
    match i, h with
    | 0, h => rw [← Option.some.inj h]; rfl
  last := rfl
  node := nofun

/-- A tree grows by a level below. -/
theorem Commits.snoc (tree : Commits k (pairUp level) levels) (width : level.length = 2 ^ (k + 1)) :
    Commits (k + 1) level (levels ++ [level]) where
  height := by rw [List.length_append, tree.height, List.length_singleton]
  width i row h := by
    by_cases above : i < levels.length
    · rw [List.getElem?_append_left above] at h
      exact tree.width i row h
    · have last : i = levels.length := by
        have inside := (List.getElem?_eq_some_iff.mp h).1
        rw [List.length_append, List.length_singleton] at inside
        omega
      subst last
      rw [List.getElem?_concat_length] at h
      cases h
      rw [width, tree.height]
  last := by rw [← tree.height, List.getElem?_concat_length]
  node i j low inside := by
    have height := tree.height
    -- only the lowest nodes have their children in the new level
    by_cases above : i < k
    · rw [hashAt_concat_of_lt (by omega), hashAt_concat_of_lt (by omega),
        hashAt_concat_of_lt (by omega)]
      exact tree.node i j above inside
    · obtain rfl : i = k := by omega
      have enough : 2 * j + 1 < level.length := by
        rw [(length_eq_double width).1]
        omega
      refine ⟨level[2 * j], level[2 * j + 1], ?_, ?_, ?_⟩
      · rw [← height, hashAt_concat_last]
        exact List.getElem?_eq_getElem _
      · rw [← height, hashAt_concat_last]
        exact List.getElem?_eq_getElem enough
      · rw [hashAt_concat_of_lt (by omega), hashAt, tree.last, Option.bind_some]
        exact getElem?_pairUp (List.getElem?_eq_getElem _) (List.getElem?_eq_getElem enough)

/-- The root of a complete tree is all of its first level. -/
theorem Commits.hashAt_root (tree : Commits k level levels) :
    hashAt levels 0 0 = some (CommitmentTree.root ⟨levels⟩) := by
  have height := tree.height
  match levels, tree with
  | [], _ => cases height
  | top :: rest, tree =>
    obtain ⟨hash, rfl⟩ := List.length_eq_one_iff.mp (tree.width 0 top rfl)
    rfl

theorem Commits.leaves_eq (tree : Commits k level levels) :
    CommitmentTree.leaves ⟨levels⟩ = level := by
  rw [leaves, List.getLastD_eq_getLast?, List.getLast?_eq_getElem?, tree.height, Nat.add_sub_cancel,
    tree.last, Option.getD_some]

/-- From `2 ^ k` hashes a complete tree is made. -/
theorem commits_raise (width : level.length = 2 ^ k) : Commits k level (raise level []) := by
  induction k generalizing level with
  | zero =>
    obtain ⟨hash, rfl⟩ := List.length_eq_one_iff.mp width
    rw [raise_of_small (Nat.le_of_eq width)]
    exact commits_singleton hash
  | succ k ih =>
    have above := (length_eq_double width).2
    rw [raise_of_large (one_lt_length width), raise_append above]
    exact (ih above).snoc width

/-- Pairing never meets a hash without a neighbour, and there are no more than `k` rounds. -/
theorem raise?_eq (width : level.length = 2 ^ k) (below : List (List Bytes)) :
    raise? k level below = some (raise level below) := by
  induction k generalizing level below with
  | zero =>
    have small : level.length ≤ 1 := Nat.le_of_eq width
    rw [raise?, if_pos small, raise_of_small small]
  | succ k ih =>
    have large := one_lt_length width
    obtain ⟨double, above⟩ := length_eq_double width
    rw [raise?, if_neg (Nat.not_le.mpr large), raise_of_large large, pairUp?_eq double]
    exact ih above (level :: below)

end

theorem isPowerOfTwo_iff {n : Nat} : isPowerOfTwo n = true ↔ ∃ k, n = 2 ^ k := by
  rw [isPowerOfTwo, Bool.and_eq_true, bne_iff_ne, beq_iff_eq]
  constructor
  · rintro ⟨positive, single⟩
    exact (Nat.and_sub_one_eq_zero_iff_isPowerOfTwo positive).mp single
  · rintro ⟨k, rfl⟩
    have positive : 2 ^ k ≠ 0 := Nat.ne_of_gt (Nat.two_pow_pos k)
    exact ⟨positive, (Nat.and_sub_one_eq_zero_iff_isPowerOfTwo positive).mpr ⟨k, rfl⟩⟩

end TaprootLab.CommitmentTree

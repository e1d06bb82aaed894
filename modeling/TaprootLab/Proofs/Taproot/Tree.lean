import Mathlib.Algebra.Ring.Nat
import Mathlib.Data.List.Basic
import TaprootLab.Taproot.Tree

/-!
# What a tree of scripts keeps

A tree is made by joining the two lightest of some nodes until one is left. What is said of the tree
is therefore said of the nodes that are still apart, whatever their order, and shown to survive one
join (`merge_induction`).

Two things are said. Each node proves its scripts: the hashes beside the way from a script lead to
the hash of the node (`Node.Proves`). And the nodes are balanced: their weights, which count
scripts, lie between two neighbouring powers of two, all but one at an end, so no way is longer than
it has to be (`Balanced`). Together they say what a script finds in the finished tree
(`exists_path?_ofScripts`).
-/

namespace TaprootLab.Taproot

theorem branchHash_comm (a b : Bytes) : branchHash a b = branchHash b a := by
  have sorted : (if a < b then a ++ b else b ++ a) = if b < a then b ++ a else a ++ b := by
    by_cases less : a < b
    · rw [if_pos less, if_neg (List.lt_asymm less)]
    · rw [if_neg less]
      split
      · rfl
      · rename_i notLess
        rw [List.le_antisymm notLess less]
  rw [branchHash, branchHash, sorted]

theorem length_branchHash (a b : Bytes) : (branchHash a b).length = 32 := Hash.length_tagged _ _

theorem length_leafHash (version : UInt8) (script : Bytes) :
    (leafHash version script).length = 32 :=
  Hash.length_tagged _ _

namespace Node

/-! ## Choosing and joining -/

/-- Choosing a node loses none and adds none. -/
theorem perm_takeFirst (first : Node) (nodes : List Node) :
    ((takeFirst first nodes).1 :: (takeFirst first nodes).2).Perm (first :: nodes) := by
  induction nodes generalizing first with
  | nil => exact .refl _
  | cons node rest ih =>
    rw [takeFirst]
    split
    · exact (List.Perm.swap ..).trans ((ih node).cons first)
    · exact (List.Perm.swap ..).trans (((ih first).cons node).trans (.swap ..))

theorem weight_takeFirst_le (first : Node) (nodes : List Node) :
    ∀ n ∈ first :: nodes, (takeFirst first nodes).1.weight ≤ n.weight := by
  induction nodes generalizing first with
  | nil =>
    intro n h
    rw [List.mem_singleton.mp h]
    exact Nat.le_refl _
  | cons node rest ih =>
    simp only [List.forall_mem_cons] at ih ⊢
    rw [takeFirst]
    split
    · rename_i before
      have lighter : node.weight ≤ first.weight := by
        simp only [precedes, Bool.or_eq_true, Bool.and_eq_true, decide_eq_true_eq,
          beq_iff_eq] at before
        omega
      exact ⟨Nat.le_trans (ih node).1 lighter, (ih node).1, (ih node).2⟩
    · rename_i after
      have heavier : first.weight ≤ node.weight := by
        simp only [precedes, Bool.or_eq_true, decide_eq_true_eq, not_or, Nat.not_lt] at after
        exact after.1
      exact ⟨(ih first).1, Nat.le_trans (ih first).1 heavier, (ih first).2⟩

/-- What holds of some nodes in any order, and still holds when the two lightest are joined, holds
of the node that is left. -/
theorem merge_induction {P : List Node → Prop} (perm : ∀ {l l'}, l.Perm l' → P l → P l')
    (join : ∀ {a b rest}, (∀ n ∈ b :: rest, a.weight ≤ n.weight) →
      (∀ n ∈ rest, b.weight ≤ n.weight) → P (a :: b :: rest) → P (a.join b :: rest))
    {node : Node} {others : List Node} (h : P (node :: others)) : P [merge node others] := by
  have chosen := perm_takeFirst node others
  have lightest := weight_takeFirst_le node others
  rw [merge]
  split
  · rename_i a taken
    rw [taken] at chosen
    exact perm chosen.symm h
  · rename_i a next rest taken
    have fewer : (takeFirst next rest).2.length < others.length := by
      have := length_takeFirst node others
      simp only [taken, List.length_cons] at this
      rw [length_takeFirst]
      omega
    rw [taken] at chosen lightest
    have second := perm_takeFirst next rest
    have lighter := weight_takeFirst_le next rest
    have together := (second.cons a).trans chosen
    refine merge_induction perm join (join (fun n hn => ?_) (fun n hn => ?_) (perm together.symm h))
    · exact lightest n (together.mem_iff.mp (List.mem_cons_of_mem _ hn))
    · exact lighter n (second.mem_iff.mp (List.mem_cons_of_mem _ hn))
termination_by others.length
decreasing_by assumption

theorem mem_leaves_join {a b : Node} {script : Bytes} {path : List Bytes} :
    (script, path) ∈ (a.join b).leaves ↔
      (∃ below, (script, below) ∈ a.leaves ∧ path = below ++ [b.hash])
        ∨ ∃ below, (script, below) ∈ b.leaves ∧ path = below ++ [a.hash] := by
  simp [join, eq_comm]

/-! ## Proofs -/

/-- The hashes beside the way from each script of a node lead to the hash of the node. -/
structure Proves (n : Node) : Prop where
  length_hash : n.hash.length = 32
  path {script : Bytes} {path : List Bytes} : (script, path) ∈ n.leaves →
    path.foldl branchHash (leafHash tapscriptVersion script) = n.hash ∧ ∀ h ∈ path, h.length = 32

theorem proves_leaf (script : Bytes) : (leaf script).Proves where
  length_hash := length_leafHash _ _
  path h := by
    obtain ⟨rfl, rfl⟩ : _ ∧ _ := by simpa [leaf] using h
    exact ⟨rfl, nofun⟩

theorem Proves.join {a b : Node} (ha : a.Proves) (hb : b.Proves) : (a.join b).Proves where
  length_hash := length_branchHash _ _
  path h := by
    obtain ⟨below, inside, rfl⟩ | ⟨below, inside, rfl⟩ := mem_leaves_join.mp h
    · obtain ⟨leads, hashes⟩ := ha.path inside
      rw [List.foldl_append, leads]
      exact ⟨rfl, List.forall_mem_append.mpr ⟨hashes, List.forall_mem_singleton.mpr hb.length_hash⟩⟩
    · obtain ⟨leads, hashes⟩ := hb.path inside
      rw [List.foldl_append, leads]
      exact ⟨branchHash_comm _ _,
        List.forall_mem_append.mpr ⟨hashes, List.forall_mem_singleton.mpr ha.length_hash⟩⟩

/-! ## Balance -/

/-- A node at an end of the range of weights. -/
def AtEnd (k : Nat) (n : Node) : Prop := n.weight = 2 ^ k ∨ n.weight = 2 ^ (k + 1)

/-- Nodes as they are when the lightest have always been joined first: the weights lie between two
neighbouring powers of two, at most one of them strictly, and a node whose ways are of length `m`
holds more than half of `2 ^ m` scripts. -/
structure Balanced (k : Nat) (nodes : List Node) : Prop where
  range : ∀ n ∈ nodes, 2 ^ k ≤ n.weight ∧ n.weight ≤ 2 ^ (k + 1)
  ends : nodes.Pairwise fun a b => AtEnd k a ∨ AtEnd k b
  short : ∀ n ∈ nodes, ∀ s path, (s, path) ∈ n.leaves → 2 ^ path.length < 2 * n.weight

theorem Balanced.perm {k : Nat} {l l' : List Node} (h : l.Perm l') (balanced : Balanced k l) :
    Balanced k l' where
  range n hn := balanced.range n (h.mem_iff.mpr hn)
  ends := (h.pairwise_iff fun {_ _} => Or.symm).mp balanced.ends
  short n hn := balanced.short n (h.mem_iff.mpr hn)

theorem two_pow_le_of_lt {j m : Nat} (h : 2 ^ m < 2 * 2 ^ j) : 2 ^ m ≤ 2 ^ j := by
  rw [← Nat.pow_succ', Nat.pow_lt_pow_iff_right (by decide)] at h
  exact Nat.pow_le_pow_right (by decide) (Nat.le_of_lt_succ h)

/-- Joining the two lightest nodes makes no way too long. -/
theorem short_join {k : Nat} {a b : Node} (lightest : a.weight ≤ b.weight) (low : 2 ^ k ≤ a.weight)
    (high : b.weight ≤ 2 ^ (k + 1))
    (aShort : ∀ s path, (s, path) ∈ a.leaves → 2 ^ path.length < 2 * a.weight)
    (bShort : ∀ s path, (s, path) ∈ b.leaves → 2 ^ path.length < 2 * b.weight) :
    ∀ s path, (s, path) ∈ (a.join b).leaves → 2 ^ path.length < 2 * (a.join b).weight := by
  intro s path h
  have positive : 0 < 2 ^ k := Nat.two_pow_pos k
  have double : 2 ^ (k + 1) = 2 * 2 ^ k := Nat.pow_succ'
  show 2 ^ path.length < 2 * (a.weight + b.weight)
  obtain ⟨below, inside, rfl⟩ | ⟨below, inside, rfl⟩ := mem_leaves_join.mp h
  · have bound := aShort s below inside
    rw [List.length_append, List.length_singleton, Nat.pow_succ]
    omega
  · have bound := bShort s below inside
    rw [List.length_append, List.length_singleton, Nat.pow_succ]
    -- the longer ways are in the heavier node, which is at an end or has room up to the high one
    by_cases atLow : b.weight = 2 ^ k
    · have := two_pow_le_of_lt (atLow ▸ bound)
      omega
    · have : 2 ^ below.length ≤ 2 ^ (k + 1) := two_pow_le_of_lt (by omega)
      omega

/-- Joining the two lightest nodes keeps the nodes balanced. -/
theorem Balanced.join {k : Nat} {a b : Node} {rest : List Node}
    (lightest : ∀ n ∈ b :: rest, a.weight ≤ n.weight) (second : ∀ n ∈ rest, b.weight ≤ n.weight)
    (balanced : Balanced k (a :: b :: rest)) : ∃ k', Balanced k' (a.join b :: rest) := by
  obtain ⟨range, ends, short⟩ := balanced
  simp only [List.forall_mem_cons, List.pairwise_cons] at lightest range ends short
  obtain ⟨⟨aLow, aHigh⟩, ⟨bLow, bHigh⟩, range⟩ := range
  obtain ⟨-, bEnds, ends⟩ := ends
  have shortJoin := short_join lightest.1 aLow bHigh short.1 short.2.1
  have weight : (a.join b).weight = a.weight + b.weight := rfl
  have double : 2 ^ (k + 1) = 2 * 2 ^ k := Nat.pow_succ'
  have fourfold : 2 ^ (k + 1 + 1) = 2 * 2 ^ (k + 1) := Nat.pow_succ'
  by_cases low : b.weight = 2 ^ k
  · -- two nodes at the low end make one at the high end
    have atHigh : (a.join b).weight = 2 ^ (k + 1) := by omega
    refine ⟨k, List.forall_mem_cons.mpr ⟨by omega, range⟩,
      List.pairwise_cons.mpr ⟨fun n _ => .inl (.inr atHigh), ends⟩,
      List.forall_mem_cons.mpr ⟨shortJoin, short.2.2⟩⟩
  · -- all others are at the high end, which becomes the low one
    have atHigh : ∀ n ∈ rest, n.weight = 2 ^ (k + 1) := by
      intro n hn
      have heavier := second n hn
      have high := (range n hn).2
      rcases bEnds n hn with (atEnd | atEnd) | (atEnd | atEnd) <;> omega
    refine ⟨k + 1, List.forall_mem_cons.mpr ⟨by omega, fun n hn => ?_⟩,
      List.pairwise_cons.mpr ⟨fun n hn => .inr (.inl (atHigh n hn)), ?_⟩,
      List.forall_mem_cons.mpr ⟨shortJoin, short.2.2⟩⟩
    · rw [atHigh n hn]
      omega
    · exact List.pairwise_iff_forall_sublist.mpr fun sub =>
        .inl (.inl (atHigh _ (sub.subset List.mem_cons_self)))

/-! ## The finished tree -/

/-- What holds of the nodes over some scripts at any time before the tree is finished. -/
structure Forest (scripts : List Bytes) (nodes : List Node) : Prop where
  proves : ∀ n ∈ nodes, n.Proves
  reaches : ∀ script ∈ scripts, ∃ n ∈ nodes, ∃ path, (script, path) ∈ n.leaves
  weight : (nodes.map weight).sum = scripts.length
  balanced : ∃ k, Balanced k nodes

theorem forest_leaves (scripts : List Bytes) : Forest scripts (scripts.map leaf) where
  proves := by
    simp only [List.forall_mem_map]
    exact fun script _ => proves_leaf script
  reaches script h := ⟨leaf script, List.mem_map_of_mem h, [], List.mem_singleton_self _⟩
  weight := by
    simp [leaf, Function.comp_def, List.map_const']
  balanced := by
    refine ⟨0, ?_, ?_, ?_⟩
    · simp [leaf]
    · exact List.pairwise_map.mpr (List.pairwise_of_forall fun _ _ => .inl (.inl rfl))
    · simp [leaf]

theorem Forest.perm {scripts : List Bytes} {l l' : List Node} (h : l.Perm l')
    (forest : Forest scripts l) :
    Forest scripts l' where
  proves n hn := forest.proves n (h.mem_iff.mpr hn)
  reaches script hs := by
    obtain ⟨n, hn, reached⟩ := forest.reaches script hs
    exact ⟨n, h.mem_iff.mp hn, reached⟩
  weight := by
    rw [← forest.weight]
    exact (h.map _).sum_nat.symm
  balanced := forest.balanced.imp fun _ => .perm h

theorem Forest.join {scripts : List Bytes} {a b : Node} {rest : List Node}
    (lightest : ∀ n ∈ b :: rest, a.weight ≤ n.weight) (second : ∀ n ∈ rest, b.weight ≤ n.weight)
    (forest : Forest scripts (a :: b :: rest)) : Forest scripts (a.join b :: rest) where
  proves := by
    have proves := forest.proves
    simp only [List.forall_mem_cons] at proves ⊢
    exact ⟨proves.1.join proves.2.1, proves.2.2⟩
  reaches script hs := by
    obtain ⟨n, hn, path, inside⟩ := forest.reaches script hs
    simp only [List.mem_cons] at hn
    rcases hn with rfl | rfl | hn
    · exact ⟨_, List.mem_cons_self, _, mem_leaves_join.mpr (.inl ⟨path, inside, rfl⟩)⟩
    · exact ⟨_, List.mem_cons_self, _, mem_leaves_join.mpr (.inr ⟨path, inside, rfl⟩)⟩
    · exact ⟨n, List.mem_cons_of_mem _ hn, path, inside⟩
  weight := by
    rw [← forest.weight, List.map_cons, List.map_cons, List.map_cons, List.sum_cons, List.sum_cons,
      List.sum_cons, ← Nat.add_assoc]
    rfl
  balanced := forest.balanced.elim fun _ balanced => balanced.join lightest second

theorem forest_ofScripts (first : Bytes) (others : List Bytes) :
    Forest (first :: others) [ofScripts first others] :=
  merge_induction .perm .join (forest_leaves (first :: others))

theorem shorterPath_mem (path : List Bytes) (paths : List (List Bytes)) :
    paths.foldl shorterPath path ∈ path :: paths := by
  induction paths generalizing path with
  | nil => exact List.mem_cons_self
  | cons p paths ih =>
    rw [List.foldl_cons]
    rcases List.mem_cons.mp (ih (shorterPath path p)) with same | later
    · rw [same, shorterPath]
      split
      · exact List.mem_cons_of_mem _ List.mem_cons_self
      · exact List.mem_cons_self
    · exact List.mem_cons_of_mem _ (List.mem_cons_of_mem _ later)

/-- Of the ways up from a script one is chosen. -/
theorem exists_path? {n : Node} {script : Bytes} {path : List Bytes}
    (h : (script, path) ∈ n.leaves) :
    ∃ chosen, n.path? script = some chosen ∧ (script, chosen) ∈ n.leaves := by
  rw [path?]
  split
  · rename_i none
    have skipped := List.filterMap_eq_nil_iff.mp none _ h
    simp at skipped
  · rename_i way ways found
    refine ⟨_, rfl, ?_⟩
    have one := shorterPath_mem way ways
    rw [← found, List.mem_filterMap] at one
    obtain ⟨⟨other, path⟩, inside, same⟩ := one
    dsimp only at same
    split at same
    · rename_i isScript
      rw [← Option.some.inj same, ← isScript]
      exact inside
    · cases same

/-- Every script of a tree finds a way up, which is as short as the number of scripts allows, and
beside it the hashes that lead to the root. -/
theorem exists_path?_ofScripts {first script : Bytes} {others : List Bytes}
    (h : script ∈ first :: others) :
    ∃ path, (ofScripts first others).path? script = some path
      ∧ path.foldl branchHash (leafHash tapscriptVersion script) = (ofScripts first others).hash
      ∧ (∀ hash ∈ path, hash.length = 32)
      ∧ 2 ^ path.length < 2 * (first :: others).length := by
  have forest := forest_ofScripts first others
  obtain ⟨n, only, path, inside⟩ := forest.reaches script h
  rw [List.mem_singleton.mp only] at inside
  obtain ⟨chosen, found, inside⟩ := exists_path? inside
  obtain ⟨leads, hashes⟩ := (forest.proves _ List.mem_cons_self).path inside
  obtain ⟨k, balanced⟩ := forest.balanced
  have short := balanced.short _ List.mem_cons_self _ _ inside
  have weight := forest.weight
  rw [List.map_singleton, List.sum_singleton] at weight
  exact ⟨chosen, found, leads, hashes, weight ▸ short⟩

end Node

end TaprootLab.Taproot

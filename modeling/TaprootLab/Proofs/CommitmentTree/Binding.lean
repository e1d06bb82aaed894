import TaprootLab.Proofs.CommitmentTree.Building

/-!
# A root binds the values below it

Two trees of one size that have the same root are over the same values, or somewhere a digest stands
for two strings. Everything that is hashed for a tree is listed from the root on (`hashedStrings`),
so that the digests are the hashes of the tree in the order of its levels (`flatten_raise`). The
first place where two such lists differ is then a collision: its digest is the root, or a half of a
string at an earlier place, and there the lists agree (`root_binds_values`).

The argument goes down by one level at a time. What is listed so far either agrees, and then the
next level is the same in both trees, or has shown a collision; `Binds` is the invariant.
-/

namespace TaprootLab.CommitmentTree

open Assembly

/-! ## What is hashed -/

/-- The strings that are hashed for the level above. -/
def pairs : List Bytes → List Bytes
  | a :: b :: rest => (a ++ b) :: pairs rest
  | _ => []

/-- The strings that are hashed for all levels above, the root's first. -/
def pairsAbove (levels : List (List Bytes)) : List Bytes := levels.tail.flatMap pairs

/-- The strings that are hashed for a tree over values. -/
def hashedStrings (values : List Bytes) (tree : CommitmentTree) : List Bytes :=
  pairsAbove tree.levels ++ values

/-- The first strings in the same place of two lists that differ. -/
def firstDifference? : List Bytes → List Bytes → Option (Bytes × Bytes)
  | x :: xs, y :: ys => if x = y then firstDifference? xs ys else some (x, y)
  | _, _ => none

/-- Two strings with the same digest. -/
structure Collision (x y : Bytes) : Prop where
  different : x ≠ y
  digest : Hash.sha256 x = Hash.sha256 y

/-- Two lists of as many strings lead to a conclusion if they agree, and to a collision where they
first do not. -/
structure Binds (xs ys : List Bytes) (conclusion : Prop) : Prop where
  length : xs.length = ys.length
  same : firstDifference? xs ys = none → conclusion
  collision : ∀ x y, firstDifference? xs ys = some (x, y) → Collision x y

/-! ## The first difference -/

section
variable {xs ys : List Bytes} {x y : Bytes}

theorem firstDifference?_append (length : xs.length = ys.length) (more others : List Bytes) :
    firstDifference? (xs ++ more) (ys ++ others) =
      (firstDifference? xs ys).or (firstDifference? more others) := by
  induction xs generalizing ys with
  | nil =>
    obtain rfl := List.length_eq_zero_iff.mp length.symm
    rfl
  | cons x xs ih =>
    match ys, length with
    | y :: ys, length =>
      rw [List.cons_append, List.cons_append, firstDifference?, firstDifference?]
      split
      · exact ih (Nat.succ.inj length)
      · rfl

theorem eq_of_firstDifference?_eq_none (length : xs.length = ys.length)
    (none : firstDifference? xs ys = none) :
    xs = ys := by
  induction xs generalizing ys with
  | nil => exact (List.length_eq_zero_iff.mp length.symm).symm
  | cons x xs ih =>
    match ys, length with
    | y :: ys, length =>
      rw [firstDifference?] at none
      split at none
      · rename_i same
        rw [same, ih (Nat.succ.inj length) none]
      · cases none

theorem mem_of_firstDifference? (found : firstDifference? xs ys = some (x, y)) :
    x ∈ xs ∧ y ∈ ys := by
  induction xs generalizing ys with
  | nil => cases found
  | cons x' xs ih =>
    match ys, found with
    | y' :: ys, found =>
      rw [firstDifference?] at found
      split at found
      · obtain ⟨left, right⟩ := ih found
        exact ⟨List.mem_cons_of_mem _ left, List.mem_cons_of_mem _ right⟩
      · cases found
        exact ⟨List.mem_cons_self, List.mem_cons_self⟩

theorem collision_of_firstDifference? (digests : xs.map Hash.sha256 = ys.map Hash.sha256)
    (found : firstDifference? xs ys = some (x, y)) : Collision x y := by
  induction xs generalizing ys with
  | nil => cases found
  | cons x' xs ih =>
    match ys, found with
    | y' :: ys, found =>
      obtain ⟨first, others⟩ := List.cons.inj digests
      rw [firstDifference?] at found
      split at found
      · exact ih others found
      · cases found
        exact ⟨‹_›, first⟩

/-! ## Going down -/

variable {conclusion : Prop}

/-- Strings whose digests are bound are bound. -/
theorem Binds.append {more others : List Bytes}
    (above : Binds xs ys (more.map Hash.sha256 = others.map Hash.sha256))
    (length : more.length = others.length) :
    Binds (xs ++ more) (ys ++ others) (more = others) := by
  have split := firstDifference?_append above.length more others
  refine ⟨?_, fun agree => ?_, fun x y found => ?_⟩
  · rw [List.length_append, List.length_append, above.length, length]
  · rw [split, Option.or_eq_none_iff] at agree
    exact eq_of_firstDifference?_eq_none length agree.2
  · cases earlier : firstDifference? xs ys with
    | some found' =>
      rw [split, earlier, Option.some_or] at found
      exact above.collision x y (earlier.trans found)
    | none =>
      rw [split, earlier, Option.none_or] at found
      exact collision_of_firstDifference? (above.same earlier) found

theorem Binds.imp {weaker : Prop} (binds : Binds xs ys conclusion) (h : conclusion → weaker) :
    Binds xs ys weaker :=
  ⟨binds.length, fun agree => h (binds.same agree), binds.collision⟩

end

/-! ## One level -/

section
variable {level level' : List Bytes} {k : Nat}

theorem map_sha256_pairs (level : List Bytes) : (pairs level).map Hash.sha256 = pairUp level := by
  induction level using pairs.induct with
  | case1 a b rest ih => rw [pairs, pairUp, List.map_cons, ih]
  | case2 level short =>
    match level, short with
    | [], _ => rfl
    | [_], _ => rfl
    | a :: b :: rest, short => exact (short a b rest rfl).elim

theorem length_pairs (level : List Bytes) : (pairs level).length = level.length / 2 := by
  rw [← length_pairUp, ← map_sha256_pairs, List.length_map]

/-- Hashes of one size that are put together in pairs can be told apart again. -/
theorem pairs_inj (length : level.length = level'.length) {n : Nat} (even : level.length = 2 * n)
    (digests : ∀ hash ∈ level, hash.length = 32) (digests' : ∀ hash ∈ level', hash.length = 32)
    (same : pairs level = pairs level') : level = level' := by
  induction level using pairs.induct generalizing level' n with
  | case1 a b rest ih =>
    match level', length with
    | a' :: b' :: rest', length =>
      simp only [List.forall_mem_cons] at digests digests'
      rw [pairs, pairs] at same
      obtain ⟨first, others⟩ := List.cons.inj same
      obtain ⟨rfl, rfl⟩ := List.append_inj first (digests.1.trans digests'.1.symm)
      rw [List.length_cons, List.length_cons] at even
      rw [ih (Nat.succ.inj (Nat.succ.inj length)) (n := n - 1)
        (by omega) digests.2.2 digests'.2.2 others]
  | case2 level short =>
    match level, short with
    | [], _ => exact (List.length_eq_zero_iff.mp length.symm).symm
    | [_], _ =>
      rw [List.length_singleton] at even
      omega
    | a :: b :: rest, short => exact (short a b rest rfl).elim

theorem length_of_mem_pairUp {hash : Bytes} (mem : hash ∈ pairUp level) : hash.length = 32 := by
  rw [← map_sha256_pairs] at mem
  obtain ⟨string, -, rfl⟩ := List.mem_map.mp mem
  exact Hash.length_sha256 string

/-! ## All levels -/

theorem raise_succ (width : level.length = 2 ^ (k + 1)) :
    raise level [] = raise (pairUp level) [] ++ [level] := by
  rw [raise_of_large (one_lt_length width), raise_append (length_eq_double width).2]

theorem raise_ne_nil (width : level.length = 2 ^ k) : raise level [] ≠ [] := by
  have height := (commits_raise width).height
  intro empty
  rw [empty] at height
  cases height

theorem pairsAbove_succ (width : level.length = 2 ^ (k + 1)) :
    pairsAbove (raise level []) = pairsAbove (raise (pairUp level) []) ++ pairs level := by
  rw [pairsAbove, raise_succ width,
    List.tail_append_of_ne_nil (raise_ne_nil (length_eq_double width).2),
    List.flatMap_append, List.flatMap_singleton]
  rfl

theorem root_succ (width : level.length = 2 ^ (k + 1)) :
    root ⟨raise level []⟩ = root ⟨raise (pairUp level) []⟩ := by
  obtain ⟨top, below, higher⟩ :=
    List.exists_cons_of_ne_nil (raise_ne_nil (length_eq_double width).2)
  rw [raise_succ width, higher]
  rfl

/-- The hashes of a tree are the digests of what is hashed above its leaves, and the leaves. -/
theorem flatten_raise (width : level.length = 2 ^ k) :
    (raise level []).flatten = (pairsAbove (raise level [])).map Hash.sha256 ++ level := by
  induction k generalizing level with
  | zero =>
    rw [raise_of_small (Nat.le_of_eq width), List.flatten_singleton]
    rfl
  | succ k ih =>
    rw [raise_succ width, List.flatten_append, ih (length_eq_double width).2,
      List.flatten_singleton, ← raise_succ width, pairsAbove_succ width, List.map_append,
      map_sha256_pairs]

/-- The root binds the leaves. -/
theorem binds_raise (width : level.length = 2 ^ k) (width' : level'.length = 2 ^ k)
    (digests : ∀ hash ∈ level, hash.length = 32) (digests' : ∀ hash ∈ level', hash.length = 32)
    (roots : root ⟨raise level []⟩ = root ⟨raise level' []⟩) :
    Binds (pairsAbove (raise level [])) (pairsAbove (raise level' [])) (level = level') := by
  induction k generalizing level level' with
  | zero =>
    obtain ⟨hash, rfl⟩ := List.length_eq_one_iff.mp width
    obtain ⟨hash', rfl⟩ := List.length_eq_one_iff.mp width'
    rw [raise_of_small (Nat.le_of_eq width), raise_of_small (Nat.le_of_eq width')] at roots ⊢
    have same : hash = hash' := roots
    exact ⟨rfl, fun _ => congrArg (fun hash => [hash]) same, nofun⟩
  | succ k ih =>
    obtain ⟨double, above⟩ := length_eq_double width
    have above' := (length_eq_double width').2
    rw [root_succ width, root_succ width'] at roots
    have higher :=
      ih above above' (fun _ => length_of_mem_pairUp) (fun _ => length_of_mem_pairUp) roots
    have digested := higher.imp fun same =>
      show (pairs level).map Hash.sha256 = (pairs level').map Hash.sha256 by
      rw [map_sha256_pairs, map_sha256_pairs, same]
    have length : (pairs level).length = (pairs level').length := by
      rw [length_pairs, length_pairs, width, width']
    rw [pairsAbove_succ width, pairsAbove_succ width']
    exact (digested.append length).imp (pairs_inj (width.trans width'.symm) double digests digests')

end

/-! ## Trees over texts -/

section
variable {text text' : String} {tree tree' : CommitmentTree} {values : List Bytes}

/-- A text lists one list of values. -/
theorem lists_iff (lists : Lists text values) (others : List Bytes) :
    Lists text others ↔ others = values := by
  have reads {values : List Bytes} (lists : Lists text values) :
      ∀ ts, tokenize text = .ok ts → ts.mapM leafValue = .ok values :=
    fun ts read => mapM_leafValue_of_values (tokenize_eq_ok_iff.mp read) lists
  have tokens : ∀ w ∈ words text.toList, IsToken w.text := by
    intro w mem
    obtain ⟨value, leaf⟩ := exists_of_forall₂ lists w mem
    exact leaf.isToken
  obtain ⟨ts, read, -⟩ := exists_tokens tokens
  constructor
  · intro lists'
    exact Except.ok.inj ((reads lists' ts read).symm.trans (reads lists ts read))
  · rintro rfl
    exact lists

theorem lists_iff_of_layout {ws : List (List Char)} (laid : Layout text.toList ws) :
    Lists text values ↔ List.Forall₂ LeafValue ws values := by
  rw [Lists, ← laid.map_text_words, List.forall₂_map_left_iff]

theorem exists_lists_of_ofText (built : ofText text = .ok tree) :
    ∃ values k, Lists text values ∧ values.length = 2 ^ k
      ∧ tree = ⟨raise (values.map Hash.sha256) []⟩ := by
  rcases lists_or_fault text with ⟨values, k, lists, count⟩ | ⟨e, fault⟩
  · rw [ofText_of_lists lists, ofValues_of_length count] at built
    exact ⟨values, k, lists, count, (Except.ok.inj built).symm⟩
  · cases (ofText_of_fault fault).symm.trans built

/-- **A root binds the values below it.** Take two texts that give trees with as many leaves and the
same root. Either they list the same values, or the first strings in the same place that are hashed
for one tree and for the other and differ are two strings with one digest. All that is hashed is
considered: its digests are the hashes of the trees. -/
theorem root_binds_values (built : ofText text = .ok tree) (built' : ofText text' = .ok tree')
    (count : tree.leaves.length = tree'.leaves.length) (roots : tree.root = tree'.root) :
    ∃ values values', (∀ listed, Lists text listed ↔ listed = values)
      ∧ (∀ listed, Lists text' listed ↔ listed = values')
      ∧ tree.levels.flatten = (hashedStrings values tree).map Hash.sha256
      ∧ tree'.levels.flatten = (hashedStrings values' tree').map Hash.sha256
      ∧ (values = values' ∨ ∃ x y,
        firstDifference? (hashedStrings values tree) (hashedStrings values' tree') = some (x, y)
          ∧ x ∈ hashedStrings values tree ∧ y ∈ hashedStrings values' tree' ∧ x ≠ y
          ∧ Hash.sha256 x = Hash.sha256 y) := by
  obtain ⟨values, k, lists, length, rfl⟩ := exists_lists_of_ofText built
  obtain ⟨values', k', lists', length', rfl⟩ := exists_lists_of_ofText built'
  have width : (values.map Hash.sha256).length = 2 ^ k := by rw [List.length_map, length]
  have width' : (values'.map Hash.sha256).length = 2 ^ k' := by rw [List.length_map, length']
  rw [(commits_raise width).leaves_eq, (commits_raise width').leaves_eq] at count
  have digests (values : List Bytes) : ∀ hash ∈ values.map Hash.sha256, hash.length = 32 :=
    List.forall_mem_map.mpr fun value _ => Hash.length_sha256 value
  have binds := binds_raise width (count ▸ width) (digests values) (digests values') roots
  have values_bound := binds.append (by rwa [List.length_map, List.length_map] at count)
  refine ⟨values, values', lists_iff lists, lists_iff lists', ?_, ?_, ?_⟩
  · rw [flatten_raise width, hashedStrings, List.map_append]
  · rw [flatten_raise width', hashedStrings, List.map_append]
  · cases found : firstDifference? (hashedStrings values ⟨raise (values.map Hash.sha256) []⟩)
      (hashedStrings values' ⟨raise (values'.map Hash.sha256) []⟩) with
    | none => exact .inl (values_bound.same found)
    | some strings =>
      obtain ⟨x, y⟩ := strings
      obtain ⟨different, digest⟩ := values_bound.collision x y found
      obtain ⟨left, right⟩ := mem_of_firstDifference? found
      exact .inr ⟨x, y, rfl, left, right, different, digest⟩

end

/-! ### Two spellings of one list -/

def spacedText : String := "aa <>"

def brokenText : String := "\nAA <>"

def spelledTree : CommitmentTree := ⟨raise ([[0xaa], []].map Hash.sha256) []⟩

theorem ofText_of_spelled {text : String} {w : List Char}
    (laid : Layout text.toList [w, ['<', '>']]) (spells : Spells w [0xaa]) :
    ofText text = .ok spelledTree := by
  have lists : Lists text [[0xaa], []] :=
    (lists_iff_of_layout laid).mpr (.cons (.bytes (.bytes spells)) (.cons (.empty .empty) .nil))
  rw [ofText_of_lists lists, ofValues_of_length (k := 1) rfl]
  rfl

theorem layout_marker {w : List Char} (nonempty : w ≠ []) (unbroken : ∀ c ∈ w, Unbroken c) :
    Layout (w ++ [' ', '<', '>']) [w, ['<', '>']] :=
  .spaced nonempty unbroken (layout_singleton nofun (unbroken_of_all (by decide)))

theorem ofText_spacedText : ofText spacedText = .ok spelledTree := by
  have laid : Layout spacedText.toList [['a', 'a'], ['<', '>']] :=
    layout_marker (w := ['a', 'a']) nofun (unbroken_of_all (by decide))
  exact ofText_of_spelled laid rfl

theorem ofText_brokenText : ofText brokenText = .ok spelledTree := by
  have laid : Layout brokenText.toList [['A', 'A'], ['<', '>']] :=
    .blank (c := '\n') (by decide)
      (layout_marker (w := ['A', 'A']) nofun (unbroken_of_all (by decide)))
  exact ofText_of_spelled laid rfl

theorem root_binds_values_spelledTree :
    ofText spacedText = .ok spelledTree ∧ ofText brokenText = .ok spelledTree
      ∧ ∃ values values', (∀ listed, Lists spacedText listed ↔ listed = values)
        ∧ (∀ listed, Lists brokenText listed ↔ listed = values')
        ∧ (values = values' ∨ ∃ x y,
            firstDifference? (hashedStrings values spelledTree)
              (hashedStrings values' spelledTree) = some (x, y)
              ∧ x ≠ y ∧ Hash.sha256 x = Hash.sha256 y) := by
  obtain ⟨values, values', only, only', -, -, equal | ⟨x, y, found, -, -, different, digest⟩⟩ :=
    root_binds_values ofText_spacedText ofText_brokenText rfl rfl
  · exact ⟨ofText_spacedText, ofText_brokenText, values, values', only, only', .inl equal⟩
  · exact ⟨ofText_spacedText, ofText_brokenText, values, values', only, only',
      .inr ⟨x, y, found, different, digest⟩⟩

end TaprootLab.CommitmentTree

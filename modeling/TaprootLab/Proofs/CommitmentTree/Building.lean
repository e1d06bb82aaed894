import TaprootLab.Proofs.Assembly.Grammar
import TaprootLab.Proofs.CommitmentTree.Levels

/-!
# Trees over texts

A text is read in three passes, of which each can only fail after the one before has not: its words
have to be tokens, the tokens have to stand for values, and the values have to be as many as a power
of two (`TreeFault`). If they are, there is a tree, and it is the complete one over their digests
(`buildsTree_ofText`).
-/

namespace TaprootLab.CommitmentTree

open Assembly

/-! ## The rule -/

/-- A word that stands for a value. -/
inductive LeafValue (w : List Char) : Bytes → Prop
  | bytes {data : Bytes} (denotes : Denotes w (.bytes data)) : LeafValue w data
  | empty (denotes : Denotes w .empty) : LeafValue w []
  | group {values : List Bytes} (denotes : Denotes w (.group values)) :
      LeafValue w (values.map Hash.sha256).flatten

/-- A word that stands for something else. -/
inductive NoLeaf (w : List Char) : Prop
  | mnemonic {op : Opcode} (denotes : Denotes w (.opcode op))
  | placeholder {id : String} (denotes : Denotes w (.signature id))

/-- Why there is no tree over a text. -/
inductive TreeFault (text : String) : Error → Prop
  | unread {e : SourceError} (read : tokenize text = .error e)
      (first : FirstUnread (words text.toList) e) :
      TreeFault text (.source e)
  | notAValue {before after : List Word} {w : Word}
      (tokens : ∀ v ∈ words text.toList, IsToken v.text)
      (split : words text.toList = before ++ w :: after)
      (values : ∀ v ∈ before, ∃ value, LeafValue v.text value) (other : NoLeaf w.text) :
      TreeFault text (.notAValue (String.ofList w.text) w.position)
  | noLeaves (none : words text.toList = []) : TreeFault text .noLeaves
  | leafCount (values : ∀ w ∈ words text.toList, ∃ value, LeafValue w.text value)
      (some : words text.toList ≠ []) (uneven : ¬ ∃ k, (words text.toList).length = 2 ^ k) :
      TreeFault text (.leafCount (words text.toList).length)

/-- The words of a text stand for values, one each. -/
def Lists (text : String) (values : List Bytes) : Prop :=
  List.Forall₂ (fun w value => LeafValue w.text value) (words text.toList) values

structure IsTreeOf (values : List Bytes) (k : Nat) (tree : CommitmentTree) : Prop where
  commits : Commits k (values.map Hash.sha256) tree.levels
  /-- No hash is left over when it is paired, and `k` rounds are enough. -/
  paired : raise? k (values.map Hash.sha256) [] = some tree.levels
  root : hashAt tree.levels 0 0 = some tree.root
  leaves : tree.leaves = values.map Hash.sha256

/-- What comes of a text: a tree, or what is at fault. -/
structure BuildsTree (text : String) (outcome : Except Error CommitmentTree) : Prop where
  passes : ∀ values k, Lists text values → values.length = 2 ^ k →
    ∃ tree, outcome = .ok tree ∧ IsTreeOf values k tree
  only : ∀ tree, outcome = .ok tree → ∃ values k, Lists text values ∧ values.length = 2 ^ k
  fails : ∀ e, outcome = .error e ↔ TreeFault text e

/-! ## Values -/

section
variable {w : Word} {t : Token}

theorem meaning_eq (reads : t.Reads w) {m : Meaning} (denotes : Denotes w.text m) : t.meaning = m :=
  Except.ok.inj (reads.meaning.symm.trans (classify_eq_ok_iff.mpr denotes))

theorem leafValue_of_value (reads : t.Reads w) {value : Bytes} (leaf : LeafValue w.text value) :
    leafValue t = .ok value := by
  rw [leafValue]
  cases leaf with
  | bytes denotes => rw [meaning_eq reads denotes]
  | empty denotes => rw [meaning_eq reads denotes]
  | group denotes =>
    rw [meaning_eq reads denotes]
    exact congrArg Except.ok (List.flatMap_def ..)

theorem leafValue_of_noLeaf (reads : t.Reads w) (other : NoLeaf w.text) :
    leafValue t = .error (.notAValue (String.ofList w.text) w.position) := by
  rw [leafValue]
  cases other with
  | mnemonic denotes => rw [meaning_eq reads denotes, ← reads.text, ← reads.position]
  | placeholder denotes => rw [meaning_eq reads denotes, ← reads.text, ← reads.position]

theorem leaf_or_noLeaf (token : IsToken w.text) :
    (∃ value, LeafValue w.text value) ∨ NoLeaf w.text := by
  obtain ⟨meaning, denotes⟩ := isToken_iff.mp token
  cases meaning with
  | opcode op => exact .inr (.mnemonic denotes)
  | bytes data => exact .inl ⟨_, .bytes denotes⟩
  | empty => exact .inl ⟨_, .empty denotes⟩
  | group values => exact .inl ⟨_, .group denotes⟩
  | signature id => exact .inr (.placeholder denotes)

theorem LeafValue.isToken {value : Bytes} (leaf : LeafValue w.text value) : IsToken w.text := by
  cases leaf with
  | bytes denotes | empty denotes | group denotes => exact isToken_iff.mpr ⟨_, denotes⟩

end

/-! ## Reading all values -/

section
variable {ws before after : List Word} {w : Word} {ts : List Token}

theorem mapM_leafValue_of_values (reads : List.Forall₂ (fun w t => t.Reads w) ws ts)
    {values : List Bytes}
    (leaves : List.Forall₂ (fun w value => LeafValue w.text value) ws values) :
    ts.mapM leafValue = .ok values := by
  rw [Except.mapM_eq_ok_iff]
  induction reads generalizing values with
  | nil =>
    cases leaves
    exact .nil
  | cons first _ ih =>
    cases leaves with
    | cons leaf leaves => exact .cons (leafValue_of_value first leaf) (ih leaves)

theorem mapM_leafValue_of_noLeaf
    (reads : List.Forall₂ (fun w t => t.Reads w) (before ++ w :: after) ts)
    (values : ∀ v ∈ before, ∃ value, LeafValue v.text value) (other : NoLeaf w.text) :
    ts.mapM leafValue = .error (.notAValue (String.ofList w.text) w.position) := by
  -- values in front are read without harm, so the error is that of the first other word
  induction before generalizing ts with
  | nil =>
    cases reads with
    | cons here _ => rw [List.mapM_cons, leafValue_of_noLeaf here other, Except.error_bind]
  | cons v before ih =>
    obtain ⟨⟨value, leaf⟩, values⟩ := List.forall_mem_cons.mp values
    cases reads with
    | cons first reads =>
      rw [List.mapM_cons, leafValue_of_value first leaf, Except.ok_bind, ih reads values,
        Except.error_bind]

/-- All tokens stand for values, or there is a first one that does not. -/
theorem values_or_noLeaf (tokens : ∀ w ∈ ws, IsToken w.text) :
    (∀ w ∈ ws, ∃ value, LeafValue w.text value) ∨
      ∃ before w after, ws = before ++ w :: after ∧
        (∀ v ∈ before, ∃ value, LeafValue v.text value) ∧
        NoLeaf w.text := by
  induction ws with
  | nil => exact .inl nofun
  | cons w ws ih =>
    obtain ⟨token, tokens⟩ := List.forall_mem_cons.mp tokens
    rcases leaf_or_noLeaf token with leaf | other
    · rcases ih tokens with leaves | ⟨before, w', after, rfl, leaves, other⟩
      · exact .inl (List.forall_mem_cons.mpr ⟨leaf, leaves⟩)
      · exact .inr ⟨w :: before, w', after, rfl, List.forall_mem_cons.mpr ⟨leaf, leaves⟩, other⟩
    · exact .inr ⟨[], w, ws, rfl, nofun, other⟩

end

section
variable {text : String}

theorem exists_tokens (tokens : ∀ w ∈ words text.toList, IsToken w.text) :
    ∃ ts, tokenize text = .ok ts ∧ List.Forall₂ (fun w t => t.Reads w) (words text.toList) ts := by
  have each : ∀ w ∈ words text.toList, ∃ t : Token, t.Reads w := by
    intro w mem
    obtain ⟨m, denotes⟩ := isToken_iff.mp (tokens w mem)
    exact ⟨_, ofWord_eq_ok_iff.mp (ofWord_of_denotes denotes)⟩
  obtain ⟨ts, reads⟩ := exists_forall₂ each
  exact ⟨ts, tokenize_eq_ok_iff.mpr reads, reads⟩

theorem ofText_of_lists {values : List Bytes} (lists : Lists text values) :
    ofText text = ofValues values := by
  have tokens : ∀ w ∈ words text.toList, IsToken w.text := by
    intro w mem
    obtain ⟨value, leaf⟩ := exists_of_forall₂ lists w mem
    exact leaf.isToken
  obtain ⟨ts, read, reads⟩ := exists_tokens tokens
  rw [ofText, read]
  show ts.mapM leafValue >>= _ = _
  rw [mapM_leafValue_of_values reads lists, Except.ok_bind]

/-- The digests of `2 ^ k` values make a tree. -/
theorem ofValues_of_length {values : List Bytes} {k : Nat} (count : values.length = 2 ^ k) :
    ofValues values = .ok ⟨raise (values.map Hash.sha256) []⟩ := by
  have positive := Nat.two_pow_pos k
  have some : ¬ values.isEmpty = true := by
    rw [List.isEmpty_iff_length_eq_zero]
    omega
  rw [ofValues, if_neg some, isPowerOfTwo_iff.mpr ⟨k, count⟩]
  rfl

theorem ofText_of_fault {e : Error} (fault : TreeFault text e) : ofText text = .error e := by
  cases fault with
  | unread read first =>
    rw [ofText, read]
    rfl
  | notAValue tokens split values other =>
    obtain ⟨ts, read, reads⟩ := exists_tokens tokens
    rw [split] at reads
    rw [ofText, read]
    show ts.mapM leafValue >>= _ = _
    rw [mapM_leafValue_of_noLeaf reads values other, Except.error_bind]
  | noLeaves none =>
    have lists : Lists text [] := by
      rw [Lists, none]
      exact .nil
    rw [ofText_of_lists lists]
    rfl
  | leafCount values some uneven =>
    obtain ⟨values, lists⟩ := exists_forall₂ values
    have count : (words text.toList).length = values.length := lists.length_eq
    have nonempty : ¬ values.isEmpty = true := by
      rw [List.isEmpty_iff_length_eq_zero, ← count, List.length_eq_zero_iff]
      exact some
    have refused : isPowerOfTwo values.length = false := by
      rw [← Bool.not_eq_true, isPowerOfTwo_iff, ← count]
      exact uneven
    rw [ofText_of_lists lists, ofValues, if_neg nonempty, refused, count]
    rfl

/-- A text lists as many values as a power of two, or there is something at fault with it. -/
theorem lists_or_fault (text : String) :
    (∃ values k, Lists text values ∧ values.length = 2 ^ k) ∨ ∃ e, TreeFault text e := by
  cases read : tokenize text with
  | error e => exact .inr ⟨_, .unread read (tokenize_eq_error_iff_firstUnread.mp read)⟩
  | ok ts =>
    have tokens := isToken_of_tokenize read
    rcases values_or_noLeaf tokens with leaves | ⟨before, w, after, split, leaves, other⟩
    · obtain ⟨values, lists⟩ := exists_forall₂ leaves
      have count : (words text.toList).length = values.length := lists.length_eq
      by_cases none : words text.toList = []
      · exact .inr ⟨_, .noLeaves none⟩
      · by_cases even : ∃ k, (words text.toList).length = 2 ^ k
        · obtain ⟨k, power⟩ := even
          exact .inl ⟨values, k, lists, count.symm.trans power⟩
        · exact .inr ⟨_, .leafCount leaves none even⟩
    · exact .inr ⟨_, .notAValue tokens split leaves other⟩

theorem isTreeOf_raise {values : List Bytes} {k : Nat} (count : values.length = 2 ^ k) :
    IsTreeOf values k ⟨raise (values.map Hash.sha256) []⟩ := by
  have width : (values.map Hash.sha256).length = 2 ^ k := by rw [List.length_map, count]
  have commits := commits_raise width
  exact ⟨commits, raise?_eq width [], commits.hashAt_root, commits.leaves_eq⟩

/-- **A text gives the right tree or the right error.** -/
theorem buildsTree_ofText (text : String) : BuildsTree text (ofText text) := by
  have decided := Except.eq_iff_of_total (x := ofText text)
    (P := fun tree => ∃ values k, Lists text values ∧ values.length = 2 ^ k
      ∧ tree = ⟨raise (values.map Hash.sha256) []⟩)
    (Q := TreeFault text) ?_ (fun _ => ofText_of_fault) ?_
  · refine ⟨fun values k lists count => ?_, fun tree built => ?_, decided.2⟩
    · exact ⟨_, (decided.1 _).mpr ⟨values, k, lists, count, rfl⟩, isTreeOf_raise count⟩
    · obtain ⟨values, k, lists, count, -⟩ := (decided.1 tree).mp built
      exact ⟨values, k, lists, count⟩
  · rintro _ ⟨values, k, lists, count, rfl⟩
    rw [ofText_of_lists lists, ofValues_of_length count]
  · exact (lists_or_fault text).imp_left fun ⟨values, k, lists, count⟩ =>
      ⟨_, values, k, lists, count, rfl⟩

end

end TaprootLab.CommitmentTree

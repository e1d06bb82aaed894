import TaprootLab.Session.Keys

/-!
# Noise before a key

A terminal may send bytes that are no key. They are skipped frame by frame: an escape goes with the
two bytes behind it, any other byte goes alone. Noise that ends within a frame takes the rest of the
frame from what follows (`overhang`). So the key behind some noise is found exactly if the noise is
made of whole frames; otherwise it goes with the noise, and the first key in what follows is read in
its place (`readKey_eq_iff_madeOfFrames`).
-/

namespace TaprootLab

namespace Key

/-- What a terminal sends for a key. -/
def code : Key → Bytes
  | .up => [escape, 0x5b, 0x41]
  | .down => [escape, 0x5b, 0x42]
  | .right => [escape, 0x5b, 0x43]
  | .left => [escape, 0x5b, 0x44]
  | .interrupt => [0x03]

def all : List Key := [.up, .down, .right, .left, .interrupt]

theorem mem_all (key : Key) : key ∈ all := by cases key <;> decide

theorem ofBytes?_eq_some_iff {bytes : Bytes} {key : Key} :
    ofBytes? bytes = some key ↔ bytes = key.code := by
  constructor
  · intro h
    unfold ofBytes? at h
    split at h
    case h_6 => cases h
    all_goals
      cases h
      rfl
  · rintro rfl
    cases key <;> rfl

theorem ofBytes?_eq_none_iff {bytes : Bytes} :
    ofBytes? bytes = none ↔ ∀ key : Key, bytes ≠ key.code := by
  simp only [Option.eq_none_iff_forall_ne_some, ne_eq, ofBytes?_eq_some_iff]

end Key

/-! ## What is noise -/

/-- What is sent holds the code of a key at one place only, behind the noise. -/
def OnlyKey (noise : Bytes) (key : Key) : Prop :=
  ∀ (i : Nat) (k : Key), k.code <+: (noise ++ key.code).drop i → i = noise.length

theorem onlyKey_iff {noise : Bytes} {key : Key} :
    OnlyKey noise key ↔ ∀ i < (noise ++ key.code).length, ∀ k ∈ Key.all,
      k.code <+: (noise ++ key.code).drop i → i = noise.length := by
  constructor
  · exact fun only i _ k _ found => only i k found
  · intro checked i k found
    by_cases inside : i < (noise ++ key.code).length
    · exact checked i inside k (Key.mem_all k) found
    · -- no code is found behind the end
      rw [List.drop_of_length_le (Nat.le_of_not_lt inside), List.prefix_nil] at found
      cases k <;> cases found

instance (noise : Bytes) (key : Key) : Decidable (OnlyKey noise key) :=
  decidable_of_iff _ onlyKey_iff.symm

section
variable {noise rest : Bytes} {b : UInt8} {key : Key}

theorem OnlyKey.tail (h : OnlyKey (b :: noise) key) : OnlyKey noise key := fun i k found =>
  Nat.succ.inj (h (i + 1) k found)

/-- No key is at the front of the noise. -/
theorem OnlyKey.ofBytes?_eq_none {frame : Bytes} (h : OnlyKey noise key) (nonempty : noise ≠ [])
    (front : frame <+: noise) :
    Key.ofBytes? frame = none := by
  rw [Key.ofBytes?_eq_none_iff]
  rintro k rfl
  have first := h 0 k (front.trans (List.prefix_append noise key.code))
  exact nonempty (List.length_eq_zero_iff.mp first.symm)

end

/-! ## Frames -/

/-- What is skipped at once. -/
inductive IsFrame : Bytes → Prop
  | byte {b : UInt8} (other : b ≠ Key.escape) : IsFrame [b]
  | escape (c d : UInt8) : IsFrame [Key.escape, c, d]

def MadeOfFrames (noise : Bytes) : Prop :=
  ∃ frames : List Bytes, (∀ frame ∈ frames, IsFrame frame) ∧ frames.flatten = noise

/-- The number of bytes that the last frame of some noise takes from what follows. -/
def overhang : Bytes → Nat
  | [] => 0
  | b :: rest =>
    if b = Key.escape then
      match rest with
      | [] => 2
      | [_] => 1
      | _ :: _ :: after => overhang after
    else overhang rest

section
variable {frame noise rest : Bytes} {b c d : UInt8} {key : Key}

theorem overhang_frame_append (whole : IsFrame frame) (noise : Bytes) :
    overhang (frame ++ noise) = overhang noise := by
  cases whole with
  | byte other => simp only [List.singleton_append, overhang.eq_def (_ :: _), if_neg other]
  | escape c d => simp only [List.cons_append, List.nil_append, overhang.eq_def (_ :: _), if_true]

theorem madeOfFrames_append (whole : IsFrame frame) (h : MadeOfFrames noise) :
    MadeOfFrames (frame ++ noise) := by
  obtain ⟨frames, all, rfl⟩ := h
  exact ⟨frame :: frames, List.forall_mem_cons.mpr ⟨whole, all⟩, List.flatten_cons⟩

/-- Noise is made of whole frames if it takes nothing from what follows. -/
theorem madeOfFrames_iff : MadeOfFrames noise ↔ overhang noise = 0 := by
  constructor
  · rintro ⟨frames, all, rfl⟩
    induction frames with
    | nil => rfl
    | cons frame frames ih =>
      obtain ⟨whole, others⟩ := List.forall_mem_cons.mp all
      rw [List.flatten_cons, overhang_frame_append whole, ih others]
  · intro none
    fun_induction overhang noise with
    | case1 => exact ⟨[], nofun, rfl⟩
    | case2 => cases none
    | case3 => cases none
    | case4 c d after ih => exact madeOfFrames_append (.escape c d) (ih none)
    | case5 b rest other ih => exact madeOfFrames_append (.byte other) (ih none)

theorem madeOfFrames_of_notMem (absent : Key.escape ∉ noise) : MadeOfFrames noise := by
  induction noise with
  | nil => exact ⟨[], nofun, rfl⟩
  | cons b noise ih =>
    rw [List.mem_cons, not_or] at absent
    exact madeOfFrames_append (.byte (Ne.symm absent.1)) (ih absent.2)

/-! ## Reading -/

theorem readKey_escape (h : Key.ofBytes? [Key.escape, c, d] = none) :
    readKey (Key.escape :: c :: d :: rest) = readKey rest := by
  rw [readKey.eq_def]
  simp only [if_true, h]

theorem readKey_byte (other : b ≠ Key.escape) (h : Key.ofBytes? [b] = none) :
    readKey (b :: rest) = readKey rest := by
  rw [readKey.eq_def]
  simp only [if_neg other, h]

theorem readKey_code (key : Key) (rest : Bytes) :
    readKey (key.code ++ rest) = some (key, rest) := by
  cases key with
  | interrupt =>
    rw [readKey.eq_def]
    rfl
  | _ => rfl

/-- An escape at the end of the noise takes two bytes more with it, those of the key or one behind
it. -/
theorem readKey_lone_escape (key : Key) (rest : Bytes) :
    readKey (Key.escape :: (key.code ++ rest)) = readKey (rest.drop (2 - key.code.length)) := by
  cases key with
  | interrupt =>
    cases rest with
    | nil => rfl
    | cons r rest => exact readKey_escape rfl
  | _ => exact (readKey_escape rfl).trans (readKey_byte (by decide) rfl)

/-- An escape and a byte take one byte more. -/
theorem readKey_short_frame (c : UInt8) (key : Key) (rest : Bytes) :
    readKey (Key.escape :: c :: (key.code ++ rest)) = readKey rest := by
  have broken (d : UInt8)
      (other : ∀ k : Key, [Key.escape, c, d] ≠ k.code) : Key.ofBytes? [Key.escape, c, d] = none :=
    Key.ofBytes?_eq_none_iff.mpr other
  cases key with
  | interrupt => exact readKey_escape (broken _ fun k same => by cases k <;> cases same)
  | _ =>
    -- the escape of the key is taken, and the two bytes behind it are no key
    refine (readKey_escape (broken _ fun k same => by cases k <;> cases same)).trans ?_
    exact (readKey_byte (by decide) rfl).trans (readKey_byte (by decide) rfl)

/-- What is read behind noise: the key, or what comes behind it if the noise has taken part of the
key. -/
theorem readKey_noise (only : OnlyKey noise key) (rest : Bytes) :
    readKey (noise ++ (key.code ++ rest))
      = if overhang noise = 0 then some (key, rest)
        else readKey (rest.drop (overhang noise - key.code.length)) := by
  fun_induction overhang noise with
  | case1 => exact readKey_code key rest
  | case2 => exact readKey_lone_escape key rest
  | case3 c =>
    have one : 1 - key.code.length = 0 := by cases key <;> rfl
    rw [if_neg (by decide), one]
    exact readKey_short_frame c key rest
  | case4 c d after ih =>
    have noKey :=
      only.ofBytes?_eq_none (List.cons_ne_nil _ _) (List.prefix_append [Key.escape, c, d] after)
    exact (readKey_escape noKey).trans (ih only.tail.tail.tail)
  | case5 b after other ih =>
    have noKey := only.ofBytes?_eq_none (List.cons_ne_nil _ _) (List.prefix_append [b] after)
    exact (readKey_byte other noKey).trans (ih only.tail)

/-- Nothing that is read in what follows the key leaves all of that. -/
theorem readKey_drop_ne (n : Nat) (key : Key) (rest : Bytes) :
    readKey (rest.drop n) ≠ some (key, rest) := by
  intro found
  have shorter := length_of_readKey found
  rw [List.length_drop] at shorter
  omega

/-- A stray escape swallows the arrow behind it. -/
theorem readKey_stray_escape :
    OnlyKey [Key.escape] .right ∧ readKey ([Key.escape] ++ (Key.right.code ++ [])) ≠
      some (.right, []) := by
  refine ⟨by decide, ?_⟩
  rw [List.singleton_append, readKey_lone_escape]
  exact readKey_drop_ne _ _ _

/-- **Keys behind noise.** If the code of a key stands at one place only, behind the noise, then
that key is read, and nothing behind it, exactly if the noise is made of whole frames. Noise without
an escape is. Otherwise the last frame of the noise takes the key in, and the byte behind it if that
is needed, and what is read is the first key in what follows. -/
theorem readKey_eq_iff_madeOfFrames (only : OnlyKey noise key) (rest : Bytes) :
    (readKey (noise ++ (key.code ++ rest)) = some (key, rest) ↔ MadeOfFrames noise)
      ∧ (Key.escape ∉ noise → MadeOfFrames noise)
      ∧ (¬ MadeOfFrames noise →
          readKey (noise ++ (key.code ++ rest)) =
            readKey (rest.drop (overhang noise - key.code.length))) := by
  rw [readKey_noise only, madeOfFrames_iff]
  refine ⟨?_, fun absent => madeOfFrames_iff.mp (madeOfFrames_of_notMem absent),
    fun broken => if_neg broken⟩
  by_cases whole : overhang noise = 0
  · rw [if_pos whole]
    exact iff_of_true rfl whole
  · rw [if_neg whole]
    exact iff_of_false (readKey_drop_ne _ _ _) whole

/-- An arrow in another coding, a letter, then an arrow as it should be. -/
theorem readKey_foreign_arrow :
    OnlyKey [0x1b, 0x4f, 0x41, 0x71] .left
      ∧ readKey ([0x1b, 0x4f, 0x41, 0x71] ++ (Key.left.code ++ [0x03])) = some (.left, [0x03]) := by
  have only : OnlyKey [0x1b, 0x4f, 0x41, 0x71] .left := by decide
  exact ⟨only, (readKey_eq_iff_madeOfFrames only [0x03]).1.mpr (madeOfFrames_iff.mpr rfl)⟩

end

end TaprootLab

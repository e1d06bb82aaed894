import TaprootLab.Bytes

/-!
# Keys

The keys that move through a run, as a terminal sends them: control-C as one byte, arrows as an
escape, a bracket and a letter. An escape is always read together with the two bytes after it; what
is no key is skipped.

* `length_of_readKey`: reading a key uses up at least one byte.
-/

namespace TaprootLab

inductive Key where
  | up
  | down
  | right
  | left
  | interrupt
  deriving DecidableEq, Repr

/-- A key under the name that a terminal library gives it. -/
inductive NamedKey where
  | arrowUp
  | arrowDown
  | arrowRight
  | arrowLeft
  | interrupt
  | char (c : Char)
  | other
  deriving DecidableEq, Repr

namespace Key

def escape : UInt8 := 0x1b

/-- The key that bytes stand for, all of them together. -/
def ofBytes? (bytes : Bytes) : Option Key :=
  match bytes with
  | [0x03] => some .interrupt
  | [0x1b, 0x5b, 0x41] => some .up
  | [0x1b, 0x5b, 0x42] => some .down
  | [0x1b, 0x5b, 0x43] => some .right
  | [0x1b, 0x5b, 0x44] => some .left
  | _ => none

/-- The key of a name. The character with the number of control-C counts as that key. -/
def ofNamed? : NamedKey → Option Key
  | .arrowUp => some .up
  | .arrowDown => some .down
  | .arrowRight => some .right
  | .arrowLeft => some .left
  | .interrupt => some .interrupt
  | .char c => if c.toNat = 3 then some .interrupt else none
  | .other => none

end Key

/-- The first key and the bytes after it, or nothing if the bytes end before there is a key. -/
def readKey : Bytes → Option (Key × Bytes)
  | [] => none
  | b :: rest =>
    if b = Key.escape then
      match rest with
      | c :: d :: after =>
        match Key.ofBytes? [b, c, d] with
        | some key => some (key, after)
        | none => readKey after
      | _ => none
    else
      match Key.ofBytes? [b] with
      | some key => some (key, rest)
      | none => readKey rest

theorem length_of_readKey {bytes rest : Bytes} {key : Key} (h : readKey bytes = some (key, rest)) :
    rest.length < bytes.length := by
  fun_induction readKey bytes with
  | case1 => cases h
  | case2 c d after found hk =>
    obtain ⟨-, rfl⟩ := Prod.mk.inj (Option.some.inj h)
    simp only [List.length_cons]
    omega
  | case3 c d after hk ih =>
    have := ih h
    simp only [List.length_cons]
    omega
  | case4 => cases h
  | case5 b after _ found hk =>
    obtain ⟨-, rfl⟩ := Prod.mk.inj (Option.some.inj h)
    exact Nat.lt_succ_self _
  | case6 b after _ hk ih => exact Nat.lt_succ_of_lt (ih h)

end TaprootLab

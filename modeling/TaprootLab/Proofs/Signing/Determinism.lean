import Mathlib.Data.List.Forall2
import TaprootLab.Proofs.Stepper.FailedCompletion

/-!
# Signing again

A signer that signs the same with the same key completes a witness with the same elements every time
(`Deterministic.completes`): a key ring makes a key when it is first asked for one and keeps it, so
all keys that are used again are there after the first time. What is there then, element by element,
is `KeyRing.Makes`; that only gains (`Makes.mono`), and it is all that completing the witness looks
at.
-/

namespace TaprootLab

variable {σ κ : Type}

/-- What a signer remembers makes no difference to its signatures. -/
def Signer.Deterministic (signer : Signer σ κ) : Prop :=
  ∀ key spend s t, (signer.sign key spend s).1 = (signer.sign key spend t).1

theorem deterministic_schnorrSigner (curve : Curve) : (schnorrSigner curve).Deterministic := by
  intro key spend s t
  simp only [schnorrSigner]
  split
  · rfl
  · split <;> rfl

namespace KeyRing

/-- The ring has what it takes to make an element, if its signer forgets nothing. -/
def Makes (ring : KeyRing σ κ) (spend : Spend) : WitnessPart → Bytes → Prop
  | .literal data, element => data = element
  | .empty, element => [] = element
  | .signature id, element =>
    ∃ key, ring.keys.lookup id = some key ∧ ∀ s, (ring.signer.sign key spend s).1 = .ok element

variable {ring ring' : KeyRing σ κ} {spend : Spend} {part : WitnessPart} {element : Bytes}

theorem Extends.lookup {id : String} {key : κ} (more : ring'.Extends ring)
    (found : ring.keys.lookup id = some key) : ring'.keys.lookup id = some key := by
  obtain ⟨added, keys⟩ := more.keys
  rw [← keys, List.lookup_append, found]
  rfl

/-- A ring that gains keys makes all that it made. -/
theorem Makes.mono (more : ring'.Extends ring) (made : ring.Makes spend part element) :
    ring'.Makes spend part element := by
  cases part with
  | literal data => exact made
  | empty => exact made
  | signature id =>
    obtain ⟨key, found, signs⟩ := made
    exact ⟨key, more.lookup found, more.signer ▸ signs⟩

/-- The key of an identifier is kept. -/
theorem lookup_of_key {id : String} {key : κ} (h : ring.key id = (.ok key, ring')) :
    ring'.keys.lookup id = some key := by
  have kept (ring : KeyRing σ κ) (absent : ring.keys.lookup id = none) (key : κ) :
      (ring.keep id key).keys.lookup id = some key := by
    rw [keep, List.lookup_append, absent, List.lookup_cons_self]
    rfl
  unfold KeyRing.key at h
  split at h
  · rename_i found
    cases h
    exact found
  · rename_i absent
    split at h
    · cases h
    · cases h
      exact kept _ absent _
    · split at h <;> cases h
      exact kept _ absent _

/-! ## One element -/

theorem resolvePart_of_makes (made : ring.Makes spend part element) :
    (ring.resolvePart (some spend) part).1 = .ok element := by
  cases part with
  | literal data => exact congrArg Except.ok made
  | empty => exact congrArg Except.ok made
  | signature id =>
    obtain ⟨key, found, signs⟩ := made
    have known : ring.key id = (.ok key, ring) := by
      unfold KeyRing.key
      rw [found]
    have signed := signs ring.state
    simp only [resolvePart, signature, known]
    split
    · rename_i result
      rw [result] at signed
      cases signed
      rfl
    · rename_i result
      rw [result] at signed
      cases signed

theorem makes_of_resolvePart (det : ring.signer.Deterministic)
    (h : ring.resolvePart (some spend) part = (.ok element, ring')) :
    ring'.Makes spend part element := by
  cases part with
  | literal data =>
    cases h
    rfl
  | empty =>
    cases h
    rfl
  | signature id =>
    simp only [resolvePart, signature] at h
    split at h
    · cases h
    · rename_i key ring₁ made
      have kept := ring.extends_key id
      rw [made] at kept
      split at h <;> cases h
      rename_i signed
      have found : ring₁.keys.lookup id = some key := lookup_of_key made
      refine ⟨key, found, fun s => ?_⟩
      show (ring₁.signer.sign key spend s).1 = _
      rw [kept.signer, det key spend s ring₁.state, ← kept.signer, signed]

/-! ## All elements -/

variable {parts : List WitnessPart} {elements : List Bytes}

/-- The first element is made before the others, with the ring that is then left for them. -/
theorem resolve_cons_eq_ok {spend : Option Spend} :
    ring.resolve spend (part :: parts) = (.ok elements, ring') ↔
      ∃ element rest ring₁, ring.resolvePart spend part = (.ok element, ring₁)
        ∧ ring₁.resolve spend parts = (.ok rest, ring') ∧ element :: rest = elements := by
  rw [resolve]
  constructor
  · intro h
    split at h
    · cases h
    · rename_i element ring₁ first
      split at h <;> cases h
      rename_i rest others
      exact ⟨element, rest, ring₁, first, others, rfl⟩
  · rintro ⟨element, rest, ring₁, first, others, rfl⟩
    simp only [first, others]

theorem makes_of_resolve (det : ring.signer.Deterministic)
    (h : ring.resolve (some spend) parts = (.ok elements, ring')) :
    List.Forall₂ (ring'.Makes spend) parts elements := by
  induction parts generalizing ring elements with
  | nil =>
    cases h
    exact .nil
  | cons part parts ih =>
    obtain ⟨element, rest, ring₁, first, others, rfl⟩ := resolve_cons_eq_ok.mp h
    have gained := ring.extends_resolvePart (some spend) part
    have more := ring₁.extends_resolve (some spend) parts
    rw [first] at gained
    rw [others] at more
    refine .cons ((makes_of_resolvePart det first).mono more) (ih ?_ others)
    exact gained.signer ▸ det

/-- What a ring made once, it makes again with all the keys it has gained since. -/
theorem resolve_of_makes (made : List.Forall₂ (ring.Makes spend) parts elements)
    (more : ring'.Extends ring) : (ring'.resolve (some spend) parts).1 = .ok elements := by
  induction made generalizing ring' with
  | nil => rfl
  | @cons part element parts elements first _ ih =>
    have head := resolvePart_of_makes (first.mono more)
    have gained := (ring'.extends_resolvePart (some spend) part).trans more
    have tail := ih gained
    have whole : ring'.resolve (some spend) (part :: parts) =
        (.ok (element :: elements),
          ((ring'.resolvePart (some spend) part).2.resolve (some spend) parts).2) :=
      resolve_cons_eq_ok.mpr ⟨element, elements, _, Prod.ext head rfl, Prod.ext tail rfl, rfl⟩
    rw [whole]

theorem extends_afterResolving (ring : KeyRing σ κ) (spend : Spend)
    (parts : List WitnessPart) (n : Nat) :
    (ring.afterResolving spend parts n).Extends ring := by
  induction n generalizing ring with
  | zero => exact .refl ring
  | succ n ih => exact (ih _).trans (ring.extends_resolve (some spend) parts)

/-- A witness that is completed once is completed with the same elements ever after. -/
theorem completes_of_deterministic (det : ring.signer.Deterministic)
    (resolved : (ring.resolve (some spend) parts).1 = .ok elements) :
    ring.Completes spend parts elements := by
  have made := makes_of_resolve det (Prod.ext resolved rfl)
  intro n
  cases n with
  | zero => exact resolved
  | succ n => exact resolve_of_makes made (extends_afterResolving _ spend parts n)

end KeyRing

end TaprootLab

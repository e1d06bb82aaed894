import TaprootLab.Assembly.Witness
import TaprootLab.Entropy
import TaprootLab.Signing.SecretTable
import TaprootLab.Spend

/-!
# Completing a witness

A key ring turns the identifiers in a witness into keys and the placeholders into signatures. The
key of an identifier is made when it is first used and kept from then on, so a witness that is
completed again is signed with the same keys.
-/

namespace TaprootLab

open Taproot

/-- The way keys are made and used; `σ` is what it remembers between calls, `κ` its keys. -/
structure Signer (σ κ : Type) where
  keyOfBytes : Bytes → Except String κ
  generate : σ → κ × σ
  /-- The public half of a key, to be shown. -/
  publicKeyHex : κ → String
  sign : κ → Spend → σ → Except String Bytes × σ

/-- Signs the digest of the leaf that is spent with its default type, and draws keys from a source
of random bytes. -/
def schnorrSigner (curve : Curve) : Signer Entropy KeyPair where
  keyOfBytes bytes :=
    match curve.keyPair? bytes with
    | some pair => .ok pair
    | none => .error "malformed or out-of-range secret key"
  generate e :=
    let (seed, e) := e.draw
    (curve.keyPairOfSeed seed, e)
  publicKeyHex pair := Hex.encode pair.xOnly.bytes
  sign pair spend e :=
    match spend.leafHash with
    | none => (.error "no tapscript leaf to commit to", e)
    | some leafHash =>
      match spend.scriptSighash leafHash .default with
      | .ok digest => (.ok (curve.sign pair digest), e)
      | .error error => (.error error.message, e)

/-- A signer with the secrets it may use and the keys made so far. -/
structure KeyRing (σ κ : Type) where
  signer : Signer σ κ
  state : σ
  table : SecretTable
  /-- The keys made so far, the first one first. -/
  keys : List (String × κ)

namespace KeyRing

variable {σ κ : Type}

def of (signer : Signer σ κ) (state : σ) (table : SecretTable) : KeyRing σ κ :=
  ⟨signer, state, table, []⟩

def keep (ring : KeyRing σ κ) (id : String) (key : κ) : KeyRing σ κ :=
  { ring with keys := ring.keys ++ [(id, key)] }

/-- The key of an identifier, made on first use: read from its secret, or generated if the secret is
empty. -/
def key (ring : KeyRing σ κ) (id : String) : Except SigningError κ × KeyRing σ κ :=
  match ring.keys.lookup id with
  | some key => (.ok key, ring)
  | none =>
    match ring.table.get? id with
    | none => (.error (.unknownKey id), ring)
    | some [] =>
      let (key, state) := ring.signer.generate ring.state
      (.ok key, { ring with state }.keep id key)
    | some secret =>
      match ring.signer.keyOfBytes secret with
      | .ok key => (.ok key, ring.keep id key)
      | .error reason => (.error (.invalidKey id reason), ring)

/-- A signature by the key of an identifier. Without a spend there is nothing to sign, which is
found out before the key is looked for. -/
def signature (ring : KeyRing σ κ) (id : String) (spend : Option Spend) :
    Except SigningError Bytes × KeyRing σ κ :=
  match spend with
  | none => (.error (.noContext id), ring)
  | some spend =>
    match ring.key id with
    | (.error e, ring) => (.error e, ring)
    | (.ok key, ring) =>
      match ring.signer.sign key spend ring.state with
      | (.ok bytes, state) => (.ok bytes, { ring with state })
      | (.error reason, state) => (.error (.sign id reason), { ring with state })

def resolvePart (ring : KeyRing σ κ) (spend : Option Spend) :
    WitnessPart → Except SigningError Bytes × KeyRing σ κ
  | .literal data => (.ok data, ring)
  | .empty => (.ok [], ring)
  | .signature id => ring.signature id spend

/-- The elements of a witness, made in order up to the first that fails. -/
def resolve (ring : KeyRing σ κ) (spend : Option Spend) :
    List WitnessPart → Except SigningError (List Bytes) × KeyRing σ κ
  | [] => (.ok [], ring)
  | part :: parts =>
    match ring.resolvePart spend part with
    | (.error e, ring) => (.error e, ring)
    | (.ok element, ring) =>
      match ring.resolve spend parts with
      | (.ok elements, ring) => (.ok (element :: elements), ring)
      | (.error e, ring) => (.error e, ring)

end KeyRing

end TaprootLab

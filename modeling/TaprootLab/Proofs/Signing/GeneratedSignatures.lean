import TaprootLab.Proofs.Engine.Separators
import TaprootLab.Proofs.Engine.StackLimit
import TaprootLab.Proofs.Taproot.ControlBlock
import TaprootLab.Signing.KeyRing

/-!
# Signatures for made-up spends

A made-up spend is signed before there is a witness: the digest is that of the leaf which was chosen
when the tree was built. When the witness is run, the leaf is found in the witness and the digest is
computed anew, from the transaction that now carries the witness. The two digests are the same, so a
signature is taken at every check that can be paid for and comes before any code separator
(`checkSignature_eq_true_of_sign`).

Of the curve nothing is needed but that a signature verifies under the key that made it.
-/

namespace TaprootLab

open Taproot

/-- What BIP-340 promises of key pairs and signatures. -/
structure Curve.Lawful (curve : Curve) : Prop where
  isKey_of_keyPair {secret : Bytes} {pair : KeyPair} :
    curve.keyPair? secret = some pair → curve.isKey pair.xOnly.bytes = true
  length_key {bytes : Bytes} : curve.isKey bytes = true → bytes.length = 32
  length_sign {secret : Bytes} {pair : KeyPair} (digest : Bytes) :
    curve.keyPair? secret = some pair → (curve.sign pair digest).length = 64
  verify_sign {secret : Bytes} {pair : KeyPair} {digest : Bytes} :
    curve.keyPair? secret = some pair → digest.length = 32 →
      curve.verify pair.xOnly digest (curve.sign pair digest) = true

/-! ## What is built -/

namespace GeneratedSpend

variable {curve : Curve} {seeds : Seeds} {scripts : List Bytes} {scriptIndex inputIndex : Nat}
  {internalKey : Option XOnlyKey} {payments : List Payment} {g : GeneratedSpend}

theorem build_eq_ok
    (built : build curve seeds scripts scriptIndex inputIndex internalKey payments = .ok g) :
    scripts[scriptIndex]? = some g.script
      ∧ g.spend.leafHash = some (leafHash tapscriptVersion g.script)
      ∧ g.control.leafVersion = tapscriptVersion := by
  unfold build at built
  split at built
  · rename_i first others script here
    dsimp only at built
    split at built
    · cases built
      exact ⟨here, rfl, rfl⟩
    · cases built
  · cases built

/-- Nothing behind the trailer is taken for an annex. -/
theorem splits_trailer (version : g.control.leafVersion = tapscriptVersion)
    (elements : List Bytes) :
    Splits (elements ++ g.trailer) (elements ++ g.trailer) none := by
  rw [trailer, List.append_cons]
  exact .of_untagged (ControlBlock.head?_toBytes version)

/-- The leaf that is run is the one that was chosen. -/
theorem leaf_of_authorize (version : g.control.leafVersion = tapscriptVersion) {spend : Spend}
    {elements : List Bytes} {leaf : LeafRun}
    (authorized : authorize curve spend (elements ++ g.trailer) = .ok (some leaf)) :
    leaf.script = g.script ∧ leaf.annex = none := by
  obtain ⟨output, control, -, split, -, -⟩ := authorize_eq_some_iff.mp authorized
  have same : (leaf.stack.reverse ++ [leaf.script, control], leaf.annex) =
      (elements ++ g.trailer, none) := by
    rw [← splitAnnex_eq_iff.mpr split, splitAnnex_eq_iff.mpr (splits_trailer version elements)]
  obtain ⟨items, annex⟩ := Prod.mk.inj same
  obtain ⟨-, last⟩ := List.append_inj' items rfl
  exact ⟨(List.cons.inj last).1, annex⟩

end GeneratedSpend

/-! ## The digest -/

/-- There is always a digest of the default type, if there is no annex. -/
theorem Spend.exists_sighash_default (spend : Spend) (leaf : Option LeafPosition) :
    ∃ digest, spend.sighash none leaf .default = .ok digest ∧ digest.length = 32 :=
  ⟨_, rfl, Hash.length_tagged _ _⟩

/-- In a leaf without an annex, a signature of 64 bytes is one over the digest of the leaf that is
signed before there is a witness. -/
theorem LeafRun.checkSignature_eq_true {leaf : LeafRun} {curve : Curve} {spend : Spend}
    {budget : Int} {signature digest : Bytes} {key : XOnlyKey} (plain : leaf.annex = none)
    (digested : spend.scriptSighash (leafHash tapscriptVersion leaf.script) .default = .ok digest)
    (isKey : curve.isKey key.bytes = true) (length : key.bytes.length = 32)
    (signed : signature.length = 64) (verified : curve.verify key digest signature = true)
    (paid : 50 ≤ budget) (witness : List Bytes) :
    (leaf.env curve (spend.withWitness witness)).checkSignature budget none signature key.bytes =
      .ok (true, budget - 50) := by
  have nonempty : signature ≠ [] := by
    rintro rfl
    cases signed
  have charged : (leaf.scope curve (spend.withWitness witness)).charge budget = .ok (budget - 50) :=
    (SignatureScope.charge_eq_ok_iff rfl).mpr ⟨paid, rfl⟩
  refine (SignatureScope.check_eq_ok_iff nonempty).mpr
    ⟨rfl, charged, length, key, Curve.key?_eq_some_iff.mpr ⟨isKey, rfl⟩, .default, digest,
      .default signed, ?_, ?_⟩
  · -- the witness is in the transaction by now, but no digest commits to it
    rw [Spend.sighash_withWitness, plain]
    exact digested
  · rwa [List.take_of_length_le (by omega)]

/-- **A signature that is made before there is a witness is valid when the witness is run.** -/
theorem checkSignature_eq_true_of_sign {curve : Curve} {seeds : Seeds} {scripts : List Bytes}
    {scriptIndex inputIndex : Nat} {internalKey : Option XOnlyKey} {payments : List Payment}
    {g : GeneratedSpend} {secret : Bytes} {pair : KeyPair} (lawful : curve.Lawful)
    (built : GeneratedSpend.build curve seeds scripts scriptIndex inputIndex internalKey payments =
      .ok g)
    (made : curve.keyPair? secret = some pair) :
    ∃ signature, (∀ e, (schnorrSigner curve).sign pair g.spend e = (.ok signature, e))
      ∧ signature.length = 64
      ∧ ∀ elements leaf,
        authorize curve (g.spend.withWitness (elements ++ g.trailer)) (elements ++ g.trailer) =
          .ok (some leaf) →
        ∀ k m, ((Machine.start leaf.stack leaf.budget).visits
            (leaf.env curve (g.spend.withWitness (elements ++ g.trailer))) 0
            (Script.decode leaf.script))[k]? = some m →
          (Machine.start leaf.stack leaf.budget).lastSeparator?
            (leaf.env curve (g.spend.withWitness (elements ++ g.trailer)))
            (Script.decode leaf.script) k = none →
          50 ≤ m.budget →
          (leaf.env curve (g.spend.withWitness (elements ++ g.trailer))).checkSignature m.budget
            m.separator signature pair.xOnly.bytes = .ok (true, m.budget - 50) := by
  obtain ⟨-, chosen, version⟩ := GeneratedSpend.build_eq_ok built
  obtain ⟨digest, digested, length⟩ := g.spend.exists_sighash_default
    (some ⟨leafHash tapscriptVersion g.script, noSeparator⟩)
  have isKey := lawful.isKey_of_keyPair made
  have signed := lawful.length_sign digest made
  refine ⟨curve.sign pair digest, ?_, signed, ?_⟩
  · intro e
    have digested : g.spend.scriptSighash
        (leafHash tapscriptVersion g.script) .default = .ok digest :=
      digested
    simp only [schnorrSigner, chosen, digested]
  · intro elements leaf authorized k m visited fresh paid
    obtain ⟨script, annex⟩ := GeneratedSpend.leaf_of_authorize version authorized
    rw [Machine.separator_of_visits rfl visited, fresh]
    refine LeafRun.checkSignature_eq_true annex ?_ isKey (lawful.length_key isKey) signed
      (lawful.verify_sign made length) paid _
    rw [script]
    exact digested

/-! ## A signature by the secret one -/

namespace Secp256k1

theorem length_evenScalar (d : Nat) : (evenScalar d).2.length = 32 := by
  rw [evenScalar]
  split <;> exact Bytes.length_ofNatBE 32 _

theorem length_sign (pair : KeyPair) (digest : Bytes) : (sign pair digest).length = 64 := by
  rw [sign, List.length_append, length_evenScalar, toBytes, Bytes.length_ofNatBE]

theorem length_of_isKey {bytes : Bytes} (h : curve.isKey bytes = true) : bytes.length = 32 := by
  have read : (pointOfKey? bytes).isSome = true := h
  rw [pointOfKey?] at read
  split at read
  · assumption
  · cases read

/-- The secret one with the generator as its key. -/
def generatorPair : KeyPair := ⟨toBytes 1, ⟨toBytes generator.x⟩⟩

theorem keyPair?_one : keyPair? (toBytes 1) = some generatorPair := by decide +kernel

theorem isKey_generator : curve.isKey generatorPair.xOnly.bytes = true := by decide +kernel

/-- The generator, tweaked to commit to the script that pushes the number one. -/
def tweakedGenerator : XOnlyKey :=
  ⟨toBytes 0x9b6ce0db0707e29f92bf8893ed1911d397e3d2d76bbc68110c49da2ceec8be23⟩

theorem isKey_tweakedGenerator : curve.isKey tweakedGenerator.bytes = true := by decide +kernel

end Secp256k1

/-- The curve as far as the spend below needs it: one secret, one tweak. -/
def singleSecretCurve : Curve where
  isKey := Secp256k1.curve.isKey
  addTweak _ _ := some (Secp256k1.tweakedGenerator, false)
  keyPair? secret := if secret = Secp256k1.toBytes 1 then Secp256k1.keyPair? secret else none
  keyPairOfSeed := Secp256k1.keyPairOfSeed
  sign := Secp256k1.sign
  verify key digest signature :=
    Secp256k1.verify key digest signature
      || key == Secp256k1.generatorPair.xOnly
        && signature == Secp256k1.sign Secp256k1.generatorPair digest

theorem isKey_singleSecretCurve : singleSecretCurve.isKey = Secp256k1.curve.isKey := rfl

theorem sign_singleSecretCurve : singleSecretCurve.sign = Secp256k1.sign := rfl

theorem verify_singleSecretCurve (key : XOnlyKey) (digest signature : Bytes) :
    singleSecretCurve.verify key digest signature = (Secp256k1.verify key digest signature
      || (key == Secp256k1.generatorPair.xOnly
        && signature == Secp256k1.sign Secp256k1.generatorPair digest)) := rfl

theorem keyPair?_singleSecretCurve (secret : Bytes) :
    singleSecretCurve.keyPair? secret =
      if secret = Secp256k1.toBytes 1 then Secp256k1.keyPair? secret else none := rfl

theorem eq_generatorPair_of_keyPair? {secret : Bytes} {pair : KeyPair}
    (h : singleSecretCurve.keyPair? secret = some pair) : pair = Secp256k1.generatorPair := by
  rw [keyPair?_singleSecretCurve] at h
  split at h
  · rename_i one
    rw [one, Secp256k1.keyPair?_one] at h
    exact (Option.some.inj h).symm
  · cases h

theorem lawful_singleSecretCurve : singleSecretCurve.Lawful where
  isKey_of_keyPair made := by
    rw [eq_generatorPair_of_keyPair? made, isKey_singleSecretCurve]
    exact Secp256k1.isKey_generator
  length_key := Secp256k1.length_of_isKey
  length_sign digest _ := Secp256k1.length_sign _ digest
  verify_sign made _ := by
    rw [eq_generatorPair_of_keyPair? made]
    rw [verify_singleSecretCurve, sign_singleSecretCurve, beq_self_eq_true, beq_self_eq_true]
    exact Bool.or_true _

/-- The spend of a script that pushes the number one. -/
def oneSpend : GeneratedSpend where
  spend := GeneratedSpend.spendOf Secp256k1.tweakedGenerator
    [⟨Secp256k1.generatorPair.xOnly, Payment.oneCoin⟩] 0 (leafHash tapscriptVersion [0x51])
  script := [0x51]
  control := ⟨tapscriptVersion, false, Secp256k1.generatorPair.xOnly, []⟩
  internalKey := Secp256k1.generatorPair.xOnly
  outputKey := Secp256k1.tweakedGenerator
  root := leafHash tapscriptVersion [0x51]

theorem Taproot.Node.ofScripts_nil (script : Bytes) :
    Node.ofScripts script [] = Node.leaf script := by
  rw [ofScripts, List.map_nil, merge]
  rfl

theorem build_oneSpend : GeneratedSpend.build singleSecretCurve ⟨[], []⟩ [[0x51]] 0 0
    (some Secp256k1.generatorPair.xOnly) [⟨Secp256k1.generatorPair.xOnly, Payment.oneCoin⟩] =
      .ok oneSpend := by
  unfold GeneratedSpend.build
  simp only [List.getElem?_cons_zero, Node.ofScripts_nil]
  rfl

theorem isKey_oneSpend : singleSecretCurve.isKey Secp256k1.generatorPair.xOnly.bytes = true := by
  rw [isKey_singleSecretCurve]
  exact Secp256k1.isKey_generator

def oneLeaf : LeafRun := ⟨[0x51], [], none, signatureBudget oneSpend.trailer⟩

theorem le_budget_oneLeaf : 50 ≤ oneLeaf.budget := by
  show (50 : Int) ≤ (serializeWitness oneSpend.trailer).length + 50
  omega

theorem authorize_oneSpend :
    authorize singleSecretCurve (oneSpend.spend.withWitness ([] ++ oneSpend.trailer))
      ([] ++ oneSpend.trailer) = .ok (some oneLeaf) := by
  rw [authorize_withWitness]
  refine authorize_eq_some_iff.mpr
    ⟨Secp256k1.tweakedGenerator, oneSpend.control.toBytes, ?_, ?_, ?_, ?_⟩
  · refine Curve.key?_eq_some_iff.mpr ⟨?_, rfl⟩
    rw [isKey_singleSecretCurve]
    exact Secp256k1.isKey_tweakedGenerator
  · exact GeneratedSpend.splits_trailer rfl []
  · refine authorizeScript_eq_ok_iff.mpr ⟨⟨oneSpend.control, ?_, ?_, rfl⟩, ?_, nofun⟩
    · exact ControlBlock.ofBytes?_toBytes rfl isKey_oneSpend (Bytes.length_ofNatBE 32 _) nofun
    · exact beq_self_eq_true _
    · rw [oneLeaf, decode_number]
      decide
  · rfl

theorem checkSignature_eq_true_of_sign_oneSpend :
    singleSecretCurve.Lawful ∧
      GeneratedSpend.build singleSecretCurve ⟨[], []⟩ [[0x51]] 0 0
        (some Secp256k1.generatorPair.xOnly) [⟨Secp256k1.generatorPair.xOnly, Payment.oneCoin⟩] =
          .ok oneSpend ∧
      singleSecretCurve.keyPair? (Secp256k1.toBytes 1) = some Secp256k1.generatorPair ∧
      ∃ signature,
        (∀ e, (schnorrSigner singleSecretCurve).sign Secp256k1.generatorPair oneSpend.spend e =
          (.ok signature, e)) ∧ signature.length = 64 ∧
        (oneLeaf.env singleSecretCurve
            (oneSpend.spend.withWitness ([] ++ oneSpend.trailer))).checkSignature
          oneLeaf.budget none signature Secp256k1.generatorPair.xOnly.bytes =
            .ok (true, oneLeaf.budget - 50) := by
  have made : singleSecretCurve.keyPair? (Secp256k1.toBytes 1) = some Secp256k1.generatorPair := by
    rw [keyPair?_singleSecretCurve, if_pos rfl, Secp256k1.keyPair?_one]
  obtain ⟨signature, signed, length, valid⟩ :=
    checkSignature_eq_true_of_sign lawful_singleSecretCurve build_oneSpend made
  refine ⟨lawful_singleSecretCurve, build_oneSpend, made, signature, signed, length, ?_⟩
  exact valid [] oneLeaf authorize_oneSpend 0 _ (Machine.getElem?_visits_zero _ _ _) rfl
    le_budget_oneLeaf

end TaprootLab

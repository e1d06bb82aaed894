import TaprootLab.Proofs.Taproot.GeneratedCommitments
import TaprootLab.Taproot.TwoStageTweak

/-!
# A key that is tweaked twice can be spent from

The first tweak makes the internal key of an output commit to a further root, the second makes the
output commit to a script. Seen from the output there is one script, without a way to any root, and
the key that was tweaked once is the internal key. So the script and a control block of 33 bytes are
enough to spend it, whatever root is committed to (`exists_compute_spends`).
-/

namespace TaprootLab.Taproot

namespace TwoStageTweak

variable {curve : Curve} {script merkleRoot : Bytes} {key tweaked output : XOnlyKey}
    {inner odd : Bool}

/-- The digest of the hash of the only leaf and a further root. -/
def commitmentOf (script merkleRoot : Bytes) : Bytes :=
  Hash.sha256 (leafHash tapscriptVersion script ++ merkleRoot)

/-- The control block of the only leaf. -/
def control (t : TwoStageTweak) : ControlBlock := ⟨tapscriptVersion, t.odd, t.tweakedKey, []⟩

/-- A witness for the output key: any elements, the script, and the version with the parity in front
of the key that was tweaked once. -/
def witness (t : TwoStageTweak) (script : Bytes) (elements : List Bytes) : List Bytes :=
  elements ++ [script, (0xc0 + if t.odd then 1 else 0) :: t.tweakedKey.bytes]

theorem witness_eq (t : TwoStageTweak) (script : Bytes) (elements : List Bytes) :
    t.witness script elements = elements ++ [script, t.control.toBytes] := by
  have first : t.control.firstByte = 0xc0 + if t.odd then 1 else 0 := by
    show (0xc0 ||| if t.odd then 1 else 0) = _
    cases t.odd <;> decide
  rw [witness, ControlBlock.toBytes, first]
  simp [control]

/-- Both tweaks in a row. -/
theorem exists_compute
    (first : commit curve key (commitmentOf script merkleRoot) = some (tweaked, inner))
    (second : commit curve tweaked (leafHash tapscriptVersion script) = some (output, odd)) :
    ∃ t, compute curve script merkleRoot key = some t
      ∧ t.scriptRoot = leafHash tapscriptVersion script ∧ t.merkleRoot = merkleRoot
      ∧ t.commitment = Hash.sha256 (t.scriptRoot ++ t.merkleRoot)
      ∧ commit curve key t.commitment = some (t.tweakedKey, inner)
      ∧ commit curve t.tweakedKey t.scriptRoot = some (t.outputKey, t.odd) ∧ t.odd = odd := by
  have computed : compute curve script merkleRoot key =
      some ⟨key, leafHash tapscriptVersion script, merkleRoot,
      commitmentOf script merkleRoot, tweaked, output, odd⟩ := by
    rw [commitmentOf] at first
    simp only [compute, first, second, Option.bind_eq_bind, Option.bind_some]
    rfl
  exact ⟨_, computed, rfl, rfl, rfl, first, second, rfl⟩

/-- Seen from the output, the script is the only leaf below the key that was tweaked once. -/
theorem reveals_control {t : TwoStageTweak} {spend : Spend} (keys : curve.TweaksKeys)
    (isKey : curve.isKey t.tweakedKey.bytes = true)
    (root : t.scriptRoot = leafHash tapscriptVersion script)
    (second : commit curve t.tweakedKey t.scriptRoot = some (t.outputKey, t.odd))
    (pays : spend.prevout.scriptPubKey = outputScript t.outputKey) :
    Reveals curve spend t.outputKey t.control script where
  pays := pays
  isKey_output := keys.isKey_of_addTweak isKey second
  length_output := keys.length_key (keys.isKey_of_addTweak isKey second)
  version := rfl
  isKey_internal := isKey
  length_internal := keys.length_key isKey
  hashes := nofun
  proves := by
    rw [root] at second
    exact beq_iff_eq.mpr second

/-- **A key that is tweaked twice can be spent from.** Take any script, any bytes to be committed to
beside it, and a valid key for which both tweaks succeed. They are computed; the key tweaked once
commits to the digest of both roots, and the output key commits to the script. An input that spends
an output paying to that key may have any elements in front of the script and the control block,
which is the byte 0xc0 with the second parity and the key tweaked once: run and watched by anyone,
it does not fail because the output does not commit to the script, and neither because the control
block has a wrong size. -/
theorem exists_compute_spends (keys : curve.TweaksKeys) (valid : curve.isKey key.bytes = true)
    (first : commit curve key (commitmentOf script merkleRoot) = some (tweaked, inner))
    (second : commit curve tweaked (leafHash tapscriptVersion script) = some (output, odd)) :
    ∃ t, compute curve script merkleRoot key = some t
      ∧ t.scriptRoot = leafHash tapscriptVersion script ∧ t.merkleRoot = merkleRoot
      ∧ t.commitment = Hash.sha256 (t.scriptRoot ++ t.merkleRoot)
      ∧ commit curve key t.commitment = some (t.tweakedKey, inner)
      ∧ commit curve t.tweakedKey t.scriptRoot = some (t.outputKey, t.odd) ∧ t.odd = odd
      ∧ ∀ spend : Spend, spend.prevout.scriptPubKey = outputScript t.outputKey → ∀ elements,
        (taprootInterpreter curve).start spend (t.witness script elements) =
            .ok (runTaproot curve spend (t.witness script elements))
          ∧ ∀ {σ : Type} (observe : σ → Boundary → Control × σ) (s : σ) (phase : Phase) (pc : Nat),
            ((runTaproot curve spend (t.witness script elements)).drive observe s).1 ≠
                some (.error (.script .witnessProgramMismatch phase pc))
              ∧ ((runTaproot curve spend (t.witness script elements)).drive observe s).1 ≠
                some (.error (.script .taprootWrongControlSize phase pc)) := by
  obtain ⟨t, computed, root, merkle, commitment, inner, outer, parity⟩ :=
    exists_compute first second
  refine ⟨t, computed, root, merkle, commitment, inner, outer, parity,
    fun spend pays elements => ?_⟩
  have reveals := reveals_control keys (keys.isKey_of_addTweak valid inner) root outer pays
  rw [witness_eq]
  refine ⟨reveals.start _, fun observe s phase pc => ⟨?_, ?_⟩⟩
  · exact reveals.drive_ne (Nat.zero_le _) elements observe s rfl
  · exact reveals.drive_ne (Nat.zero_le _) elements observe s rfl

end TwoStageTweak

/-! ### The generator, tweaked twice -/

/-- The generator tweaked to commit to the script that pushes the number one and to 32 bytes beside
it. -/
def innerKey : XOnlyKey :=
  ⟨Secp256k1.toBytes 0x4b5accb1fbb5dc34001035af4ea921e602e539449864c2c7ababc6a2024d17c9⟩

/-- The same key tweaked to commit to the script alone. -/
def outerKey : XOnlyKey :=
  ⟨Secp256k1.toBytes 0x8371bd1a84226c173a6e0c776b0e8f9636aa718047b15400f8a29347726d6a7d⟩

theorem isKey_innerKey : Secp256k1.curve.isKey innerKey.bytes = true := by decide +kernel

theorem isKey_outerKey : Secp256k1.curve.isKey outerKey.bytes = true := by decide +kernel

/-- The curve as far as it is needed here: one tweak of the generator and one of the key that comes
of it. -/
def twoTweaksCurve : Curve :=
  { singleSecretCurve with
    addTweak := fun key _ =>
      if key = Secp256k1.generatorPair.xOnly then some (innerKey, true)
        else some (outerKey, false) }

theorem isKey_twoTweaksCurve : twoTweaksCurve.isKey = Secp256k1.curve.isKey := rfl

theorem addTweak_twoTweaksCurve (key : XOnlyKey) (tweak : Bytes) :
    twoTweaksCurve.addTweak key tweak =
      if key = Secp256k1.generatorPair.xOnly then some (innerKey, true)
        else some (outerKey, false) := rfl

theorem tweaksKeys_twoTweaksCurve : twoTweaksCurve.TweaksKeys where
  length_key h := by
    rw [isKey_twoTweaksCurve] at h
    exact Secp256k1.length_of_isKey h
  isKey_of_addTweak {key output tweak odd} _ tweaked := by
    rw [addTweak_twoTweaksCurve] at tweaked
    rw [isKey_twoTweaksCurve]
    split at tweaked <;> cases tweaked
    · exact isKey_innerKey
    · exact isKey_outerKey

theorem exists_compute_spends_generator :
    twoTweaksCurve.TweaksKeys ∧ twoTweaksCurve.isKey Secp256k1.generatorPair.xOnly.bytes = true
      ∧ ∃ t, TwoStageTweak.compute twoTweaksCurve [0x51]
        (List.replicate 32 0x42) Secp256k1.generatorPair.xOnly = some t
        ∧ t.tweakedKey = innerKey ∧ t.outputKey = outerKey
        ∧ ((runTaproot twoTweaksCurve
          (GeneratedSpend.spendOf outerKey [] 0 (leafHash tapscriptVersion [0x51]))
            [[1], [0x51], 0xc0 :: innerKey.bytes]).drive (fun _ _ => (.proceed, ())) ()).1 ≠
              some (.error (.script .witnessProgramMismatch .scriptPubKey 2)) := by
  have isKey : twoTweaksCurve.isKey Secp256k1.generatorPair.xOnly.bytes = true := by
    rw [isKey_twoTweaksCurve]
    exact Secp256k1.isKey_generator
  have first (commitment : Bytes) :
      commit twoTweaksCurve Secp256k1.generatorPair.xOnly commitment = some (innerKey, true) := by
    rw [commit, addTweak_twoTweaksCurve, if_pos rfl]
  have second (root : Bytes) : commit twoTweaksCurve innerKey root = some (outerKey, false) := by
    rw [commit, addTweak_twoTweaksCurve, if_neg (by decide)]
  obtain ⟨t, computed, -, -, -, inner, outer, odd, runs⟩ :=
    @TwoStageTweak.exists_compute_spends twoTweaksCurve [0x51] (List.replicate 32 0x42) _ _ _ _ _
      tweaksKeys_twoTweaksCurve isKey (first _) (second _)
  rw [first] at inner
  obtain ⟨tweaked, -⟩ := Prod.mk.inj (Option.some.inj inner)
  rw [← tweaked, second] at outer
  obtain ⟨output, -⟩ := Prod.mk.inj (Option.some.inj outer)
  refine ⟨tweaksKeys_twoTweaksCurve, isKey, t, computed, tweaked.symm, output.symm, ?_⟩
  have pays : (GeneratedSpend.spendOf outerKey [] 0
      (leafHash tapscriptVersion [0x51])).prevout.scriptPubKey =
      outputScript t.outputKey := by
    rw [GeneratedSpend.prevout_spendOf, output]
  have witness : t.witness [0x51] [[1]] = [[1], [0x51], 0xc0 :: innerKey.bytes] := by
    rw [TwoStageTweak.witness, odd, ← tweaked]
    rfl
  rw [← witness]
  exact ((runs _ pays [[1]]).2 _ _ _ _).1

end TaprootLab.Taproot

import TaprootLab.Proofs.Signing.GeneratedSignatures
import TaprootLab.Proofs.Taproot.Revealing
import TaprootLab.Proofs.Taproot.Tree

/-!
# Made-up spends commit to their scripts

A made-up spend pays to the internal key tweaked with the root of a tree, and its control block
holds the way from the revealed script to that root. When the spend is run the block is read, the
way is followed and the tweak is checked. All of it comes out right, so such a spend is never
refused for what it commits to (`exists_build_commits`).

Of the curve nothing is needed but that keys have 32 bytes and that tweaking a key gives a key.
-/

namespace TaprootLab

open Taproot

/-- What is relied on when a key is tweaked. -/
structure Curve.TweaksKeys (curve : Curve) : Prop where
  length_key {bytes : Bytes} : curve.isKey bytes = true → bytes.length = 32
  isKey_of_addTweak {key output : XOnlyKey} {tweak : Bytes} {odd : Bool} :
    curve.isKey key.bytes = true → curve.addTweak key tweak = some (output, odd) →
      curve.isKey output.bytes = true

namespace GeneratedSpend

variable {curve : Curve} {seeds : Seeds} {first : Bytes} {others : List Bytes}
  {scriptIndex inputIndex : Nat} {internalKey : Option XOnlyKey} {payments : List Payment}
  {g : GeneratedSpend}

/-! ## What is built -/

/-- The internal key of a spend, drawn from its seed if it is not given. -/
def internalKeyOf (curve : Curve) (seeds : Seeds) (internalKey : Option XOnlyKey) : XOnlyKey :=
  internalKey.getD (curve.keyPairOfSeed seeds.internalKey).xOnly

/-- The parts of a spend fit each other: the way in the control block leads from the script to the
root of a tree over `n` scripts, and the spent output pays to the key that is tweaked with the
root. -/
structure Fits (curve : Curve) (n : Nat) (g : GeneratedSpend) : Prop where
  version : g.control.leafVersion = tapscriptVersion
  internalKey : g.control.internalKey = g.internalKey
  hashes : ∀ hash ∈ g.control.path, hash.length = 32
  short : 2 ^ g.control.path.length < 2 * n
  root : g.control.root g.script = g.root
  tweaked : commit curve g.internalKey g.root = some (g.outputKey, g.control.odd)
  pays : g.spend.prevout.scriptPubKey = outputScript g.outputKey

/-- The control block of a spend whose parts fit is a proof. -/
theorem Fits.proves {n : Nat} (fits : g.Fits curve n) :
    g.control.proves curve g.outputKey g.script = true := by
  rw [ControlBlock.proves, Curve.checkTweak, fits.root, fits.internalKey, beq_iff_eq]
  exact fits.tweaked

theorem prevout_spendOf (outputKey : XOnlyKey) (payments : List Payment) (index : Nat)
    (leafHash : Bytes) :
    (spendOf outputKey payments index leafHash).prevout.scriptPubKey = outputScript outputKey := by
  simp [Spend.prevout, spendOf]

/-- A spend is made up for every script of a list, if the internal key can be tweaked. -/
theorem exists_build_fits (inRange : scriptIndex < (first :: others).length)
    (tweakable : (commit curve (internalKeyOf curve seeds internalKey)
      (Node.ofScripts first others).hash).isSome = true) :
    ∃ g, build curve seeds (first :: others) scriptIndex inputIndex internalKey payments = .ok g
      ∧ g.script = (first :: others)[scriptIndex] ∧ g.spend.index = inputIndex
      ∧ g.internalKey = internalKeyOf curve seeds internalKey
      ∧ g.Fits curve (first :: others).length := by
  obtain ⟨path, found, leads, hashes, short⟩ :=
    Node.exists_path?_ofScripts (List.getElem_mem inRange)
  obtain ⟨⟨output, odd⟩, tweaked⟩ := Option.isSome_iff_exists.mp tweakable
  unfold build
  rw [List.getElem?_eq_getElem inRange]
  -- the key is made up or given, and used in the same way
  cases internalKey
  all_goals
    rw [internalKeyOf] at tweaked ⊢
    simp only [Option.getD_none, Option.getD_some] at tweaked ⊢
    simp only [found, tweaked]
    exact ⟨_, rfl, rfl, rfl, rfl, rfl, rfl, hashes, short, leads, tweaked, prevout_spendOf _ _ _ _⟩

/-! ## What is checked when it is run -/

variable {n : Nat}

theorem isOutputScript_of_fits (fits : g.Fits curve n) (length : g.outputKey.bytes.length = 32) :
    isOutputScript g.spend.prevout.scriptPubKey = true := by
  rw [fits.pays]
  exact isOutputScript_outputScript length

/-- The trailer of a spend whose parts fit reveals its script. -/
theorem Fits.reveals (fits : g.Fits curve n) (keys : curve.TweaksKeys)
    (isKey : curve.isKey g.internalKey.bytes = true) :
    Reveals curve g.spend g.outputKey g.control g.script where
  pays := fits.pays
  isKey_output := keys.isKey_of_addTweak isKey fits.tweaked
  length_output := keys.length_key (keys.isKey_of_addTweak isKey fits.tweaked)
  version := fits.version
  isKey_internal := fits.internalKey ▸ isKey
  length_internal := fits.internalKey ▸ keys.length_key isKey
  hashes := fits.hashes
  proves := fits.proves

/-- A spend whose parts fit is refused for its witness only if the control block has too many
hashes. -/
theorem ofWitness_authorize (fits : g.Fits curve n) (keys : curve.TweaksKeys)
    (isKey : curve.isKey g.internalKey.bytes = true) {elements : List Bytes} {e : RunError}
    (h : authorize curve g.spend (elements ++ g.trailer) = .error e)
    (ofWitness : e.ofWitness = true) :
    ControlBlock.maxDepth < g.control.path.length ∧ e = programError .taprootWrongControlSize :=
  (fits.reveals keys isKey).ofWitness_authorize h ofWitness

/-! ## Every made-up spend -/

/-- A way of more than 128 hashes is beside more than 2 ^ 128 scripts. -/
theorem two_pow_lt_of_deep {m : Nat} (deep : ControlBlock.maxDepth < m) (short : 2 ^ m < 2 * n) :
    2 ^ 128 < n := by
  have long : 2 ^ 129 ≤ 2 ^ m := Nat.pow_le_pow_right (by decide) deep
  omega

/-- **Every made-up spend passes its own commitment check.** Take any list of scripts, with or
without repetitions, one of them to be revealed, any input, and an internal key that is valid and
can be tweaked with the root of the tree. A spend is made up for them; its control block holds a way
of `m` hashes, no more than the number of scripts asks for, which leads from the script to the root,
and the output that its input spends pays to the key that commits to the root. Run with any elements
before its trailer and watched by anyone, it does not fail because the output does not commit to the
script, and neither because the control block has a wrong size: for that there would have to be more
than 2 ^ 128 scripts. -/
theorem exists_build_commits (keys : curve.TweaksKeys)
    (inRange : scriptIndex < (first :: others).length)
    (valid : curve.isKey (internalKeyOf curve seeds internalKey).bytes = true)
    (tweakable : (commit curve (internalKeyOf curve seeds internalKey)
      (Node.ofScripts first others).hash).isSome = true) :
    ∃ g, build curve seeds (first :: others) scriptIndex inputIndex internalKey payments = .ok g
      ∧ g.script = (first :: others)[scriptIndex] ∧ g.spend.index = inputIndex
      ∧ (∃ m, g.control.toBytes.length = 33 + 32 * m ∧ 2 ^ m < 2 * (first :: others).length)
      ∧ g.control.root g.script = g.root
      ∧ commit curve g.internalKey g.root = some (g.outputKey, g.control.odd)
      ∧ g.spend.prevout.scriptPubKey = outputScript g.outputKey
      ∧ ∀ elements,
        (taprootInterpreter curve).start g.spend (elements ++ g.trailer) =
            .ok (runTaproot curve g.spend (elements ++ g.trailer))
          ∧ ∀ {σ : Type} (observe : σ → Boundary → Control × σ) (s : σ) (phase : Phase) (pc : Nat),
            ((runTaproot curve g.spend (elements ++ g.trailer)).drive observe s).1 ≠
                some (.error (.script .witnessProgramMismatch phase pc))
              ∧ ((first :: others).length ≤ 2 ^ 128 →
                ((runTaproot curve g.spend (elements ++ g.trailer)).drive observe s).1 ≠
                  some (.error (.script .taprootWrongControlSize phase pc))) := by
  obtain ⟨g, built, script, index, key, fits⟩ := exists_build_fits inRange tweakable
  have isKey : curve.isKey g.internalKey.bytes = true := key ▸ valid
  have length : g.control.internalKey.bytes.length = 32 := fits.internalKey ▸ keys.length_key isKey
  have lengthOutput := keys.length_key (keys.isKey_of_addTweak isKey fits.tweaked)
  refine ⟨g, built, script, index, ⟨_, ControlBlock.length_toBytes length fits.hashes, fits.short⟩,
    fits.root, fits.tweaked, fits.pays,
      fun elements => ⟨?_, fun observe s phase pc => ⟨fun h => ?_, ?_⟩⟩⟩
  · rw [taprootInterpreter]
    dsimp only
    rw [if_pos (isOutputScript_of_fits fits lengthOutput)]
  · -- of the errors of the witness there is only the other one
    have := (ofWitness_authorize fits keys isKey (authorize_eq_error_of_drive h rfl) rfl).2
    cases this
  · intro few h
    have deep := (ofWitness_authorize fits keys isKey (authorize_eq_error_of_drive h rfl) rfl).1
    have := two_pow_lt_of_deep deep fits.short
    omega

end GeneratedSpend

/-! ## A script that stands in its tree twice -/

/-- The generator, tweaked to commit to three scripts, two of them the same. -/
def repeatedTreeKey : XOnlyKey :=
  ⟨Secp256k1.toBytes 0x82134aabde7003b7e6301aa7ae1bf2037a11642eb2a82d69fbc7388bcd6f45aa⟩

theorem isKey_repeatedTreeKey : Secp256k1.curve.isKey repeatedTreeKey.bytes = true := by
  decide +kernel

/-- The curve as far as the spend below needs it: one tweak. -/
def repeatedTreeCurve : Curve :=
  { singleSecretCurve with addTweak := fun _ _ => some (repeatedTreeKey, true) }

theorem isKey_repeatedTreeCurve : repeatedTreeCurve.isKey = Secp256k1.curve.isKey := rfl

theorem addTweak_repeatedTreeCurve (key : XOnlyKey) (tweak : Bytes) :
    repeatedTreeCurve.addTweak key tweak = some (repeatedTreeKey, true) := rfl

theorem tweaksKeys_repeatedTreeCurve : repeatedTreeCurve.TweaksKeys where
  length_key h := by
    rw [isKey_repeatedTreeCurve] at h
    exact Secp256k1.length_of_isKey h
  isKey_of_addTweak {key output tweak odd} _ tweaked := by
    rw [addTweak_repeatedTreeCurve] at tweaked
    obtain ⟨rfl, -⟩ := Prod.mk.inj (Option.some.inj tweaked)
    rw [isKey_repeatedTreeCurve]
    exact isKey_repeatedTreeKey

theorem exists_build_commits_repeatedTree :
    repeatedTreeCurve.TweaksKeys
      ∧ repeatedTreeCurve.isKey Secp256k1.generatorPair.xOnly.bytes = true
      ∧ ∃ g, GeneratedSpend.build repeatedTreeCurve ⟨[], []⟩ [[0x51], [0x52], [0x51]] 2 1
            (some Secp256k1.generatorPair.xOnly) [] = .ok g
          ∧ g.script = [0x51] ∧ g.control.root g.script = g.root ∧ g.outputKey = repeatedTreeKey
          ∧ ((runTaproot repeatedTreeCurve g.spend ([[1]] ++ g.trailer)).drive
              (fun _ _ => (.proceed, ())) ()).1 ≠
            some (.error (.script .witnessProgramMismatch .scriptPubKey 2)) := by
  have isKey : repeatedTreeCurve.isKey Secp256k1.generatorPair.xOnly.bytes = true := by
    rw [isKey_repeatedTreeCurve]
    exact Secp256k1.isKey_generator
  have tweakable (key : XOnlyKey) (root : Bytes) :
      (commit repeatedTreeCurve key root).isSome = true := by
    rw [commit, addTweak_repeatedTreeCurve]
    rfl
  obtain ⟨g, built, script, -, -, root, tweaked, -, runs⟩ :=
    @GeneratedSpend.exists_build_commits repeatedTreeCurve ⟨[], []⟩ [0x51] [[0x52], [0x51]] 2 1
      (some Secp256k1.generatorPair.xOnly) [] tweaksKeys_repeatedTreeCurve (by decide) isKey
      (tweakable _ _)
  rw [commit, addTweak_repeatedTreeCurve] at tweaked
  obtain ⟨output, -⟩ := Prod.mk.inj (Option.some.inj tweaked)
  refine ⟨tweaksKeys_repeatedTreeCurve, isKey, g, built, script, root, output.symm, ?_⟩
  exact ((runs [[1]]).2 _ () _ _).1

end TaprootLab

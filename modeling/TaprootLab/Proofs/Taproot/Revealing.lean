import TaprootLab.Proofs.Engine.Acceptance
import TaprootLab.Proofs.Engine.Failures
import TaprootLab.Proofs.Taproot.ControlBlock

/-!
# Witnesses that reveal a script

A witness may end with a script and a control block. If the block is the proof that the spent output
commits to the script (`Reveals`), then nothing that is checked of a witness before the script is
run can be at fault, but for a block with too many hashes (`Reveals.ofWitness_authorize`). So a
spend with a shorter block is never refused for what it commits to, whoever watches its run
(`Reveals.drive_ne`).
-/

namespace TaprootLab

open Taproot

/-- An output that is spent, and a control block that proves to it that it commits to a script. -/
structure Reveals (curve : Curve) (spend : Spend) (output : XOnlyKey) (block : ControlBlock)
    (script : Bytes) : Prop where
  pays : spend.prevout.scriptPubKey = outputScript output
  isKey_output : curve.isKey output.bytes = true
  length_output : output.bytes.length = 32
  version : block.leafVersion = tapscriptVersion
  isKey_internal : curve.isKey block.internalKey.bytes = true
  length_internal : block.internalKey.bytes.length = 32
  hashes : ∀ hash ∈ block.path, hash.length = 32
  proves : block.proves curve output script = true

/-- A script is refused with an error of the witness only if its control block cannot be read. -/
theorem ofWitness_authorizeScript {curve : Curve} {output : XOnlyKey} {control script : Bytes}
    {stack : List Bytes} {e : RunError}
    (right : ∀ block, ControlBlock.ofBytes? curve control = some block →
      block.proves curve output script = true ∧ block.leafVersion = tapscriptVersion)
    (h : authorizeScript curve output control script stack = .error e)
    (ofWitness : e.ofWitness = true) :
    ControlBlock.ofBytes? curve control = none ∧ e = programError .taprootWrongControlSize := by
  rw [authorizeScript] at h
  cases read : ControlBlock.ofBytes? curve control with
  | none =>
    simp only [read, Except.throw_eq, Except.error_bind, Except.error.injEq] at h
    exact ⟨rfl, h.symm⟩
  | some block =>
    obtain ⟨proven, version⟩ := right block read
    simp only [read, proven, version, Bool.not_true, Bool.false_eq_true, if_false, ne_eq,
      not_true] at h
    -- what is left to be checked is the script and the items for it
    cases found : unrunnable? 0 (Script.decode script) with
    | none =>
      simp only [found] at h
      split at h <;> cases h
      cases ofWitness
    | some x =>
      simp only [found, Except.throw_eq, Except.error.injEq] at h
      cases h
      have := ofWitness_of_unrunnable found
      cases ofWitness.symm.trans this

namespace Reveals

variable {curve : Curve} {spend : Spend} {output : XOnlyKey} {block : ControlBlock} {script : Bytes}

theorem ofBytes?_toBytes (reveals : Reveals curve spend output block script) :
    ControlBlock.ofBytes? curve block.toBytes =
      if block.path.length ≤ ControlBlock.maxDepth then some block else none :=
  ControlBlock.ofBytes?_toBytes reveals.version reveals.isKey_internal reveals.length_internal
    reveals.hashes

theorem start (reveals : Reveals curve spend output block script) (witness : List Bytes) :
    (taprootInterpreter curve).start spend witness = .ok (runTaproot curve spend witness) := by
  rw [taprootInterpreter]
  dsimp only
  rw [reveals.pays, if_pos (isOutputScript_outputScript reveals.length_output)]

/-- A witness that reveals a script is refused only if the control block has too many hashes. -/
theorem ofWitness_authorize (reveals : Reveals curve spend output block script)
    {elements : List Bytes} {e : RunError}
    (h : authorize curve spend (elements ++ [script, block.toBytes]) = .error e)
    (ofWitness : e.ofWitness = true) :
    ControlBlock.maxDepth < block.path.length ∧ e = programError .taprootWrongControlSize := by
  have read : curve.key? (spend.prevout.scriptPubKey.drop 2) = some output := by
    rw [reveals.pays]
    exact Curve.key?_eq_some_iff.mpr ⟨reveals.isKey_output, rfl⟩
  have splits : Splits (elements ++ [script, block.toBytes])
      (elements ++ [script, block.toBytes]) none := by
    rw [List.append_cons]
    exact .of_untagged (ControlBlock.head?_toBytes reveals.version)
  have last : (elements ++ [script, block.toBytes]).reverse =
      block.toBytes :: script :: elements.reverse := by
    simp
  simp only [authorize, read, splitAnnex_eq_iff.mpr splits, last] at h
  cases checked : authorizeScript curve output block.toBytes script elements.reverse with
  | ok _ =>
    rw [checked] at h
    cases h
  | error e' =>
    rw [checked] at h
    cases h
    have control := reveals.ofBytes?_toBytes
    have right : ∀ block', ControlBlock.ofBytes? curve block.toBytes = some block' →
        block'.proves curve output script = true ∧ block'.leafVersion = tapscriptVersion := by
      intro block' read
      rw [control] at read
      split at read <;> cases read
      exact ⟨reveals.proves, reveals.version⟩
    obtain ⟨unread, same⟩ := ofWitness_authorizeScript right checked ofWitness
    rw [control] at unread
    split at unread
    · cases unread
    · exact ⟨by omega, same⟩

/-- A witness whose control block is short enough is not refused for what it reveals. -/
theorem drive_ne (reveals : Reveals curve spend output block script)
    (short : block.path.length ≤ ControlBlock.maxDepth) (elements : List Bytes) {σ : Type}
    (observe : σ → Boundary → Control × σ) (s : σ) {e : RunError} (ofWitness : e.ofWitness = true) :
    ((runTaproot curve spend (elements ++ [script, block.toBytes])).drive observe s).1 ≠
      some (.error e) := by
  intro h
  have deep := (reveals.ofWitness_authorize (authorize_eq_error_of_drive h ofWitness) ofWitness).1
  omega

end Reveals

end TaprootLab

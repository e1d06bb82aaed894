import TaprootLab.Engine.Taproot
import TaprootLab.Proofs.Engine.Execution
import TaprootLab.Proofs.Script.Decoding

/-!
# The three scripts of a taproot spend

A spend runs the script in its input, then the script of its output, then, if the witness reveals
one, a leaf. The first has to be empty and the second cannot fail, so how a spend ends is decided by
its witness (`result_runTaproot_eq_ok_iff`), and what is shown of the leaf is the run of the leaf
(`mem_boundaries_runTaproot`).

The witness that is put into the input matters to none of the checks on the transaction
(`sighash_withWitness`).
-/

namespace TaprootLab

open Taproot Run

/-! ## The witness in the input -/

theorem map_set_self {α β : Type} (f : α → β) {l : List α} {i : Nat} (h : i < l.length) {a : α}
    (ha : f a = f l[i]) : (l.set i a).map f = l.map f := by
  refine List.ext_getElem? fun j => ?_
  rw [List.getElem?_map, List.getElem?_map, List.getElem?_set]
  split
  · rename_i hij
    subst hij
    rw [List.getElem?_eq_getElem h, Option.map_some, Option.map_some, ha]
  · rfl

namespace Spend

theorem input_withWitness (spend : Spend) (witness : List Bytes) :
    (spend.withWitness witness).input = { spend.input with witness } := by
  simp [withWitness, input]

theorem prevout_withWitness (spend : Spend) (witness : List Bytes) :
    (spend.withWitness witness).prevout = spend.prevout := rfl

theorem allInputs_withWitness (spend : Spend) (witness : List Bytes) :
    allInputs (spend.withWitness witness).tx spend.prevouts =
      allInputs spend.tx spend.prevouts := by
  have same {β : Type} (f : TxIn → β) (hf : ∀ i : TxIn, f { i with witness } = f i) :
      (spend.withWitness witness).tx.inputs.map f = spend.tx.inputs.map f :=
    map_set_self f spend.index_lt (hf _)
  simp only [allInputs, List.flatMap_def]
  rw [same (fun i => i.previous.serialize) fun _ => rfl,
    same (fun i => Bytes.ofNatLE 4 i.sequence.toNat) fun _ => rfl]

/-- No signature commits to the witness that carries it. -/
theorem sighash_withWitness (spend : Spend) (witness : List Bytes) (annex : Option Bytes)
    (leaf : Option LeafPosition) (type : SighashType) :
    (spend.withWitness witness).sighash annex leaf type = spend.sighash annex leaf type := by
  have same : sighashMessage (spend.withWitness witness).tx (spend.withWitness witness).prevouts
      (spend.withWitness witness).index (spend.withWitness witness).input
      (spend.withWitness witness).prevout annex leaf type =
      sighashMessage spend.tx spend.prevouts spend.index spend.input spend.prevout annex
        leaf type := by
    rw [input_withWitness, prevout_withWitness]
    show sighashMessage (spend.withWitness witness).tx spend.prevouts spend.index _ _ _ _ _ = _
    simp only [sighashMessage, allInputs_withWitness]
    rfl
  rw [sighash, same, sighash]

end Spend

section
variable (curve : Curve) (spend : Spend) (witness : List Bytes)

theorem SignatureScope.check_withWitness (annex leafHash : Option Bytes) :
    check ⟨curve, spend.withWitness witness, annex, leafHash⟩ =
      check ⟨curve, spend, annex, leafHash⟩ := by
  funext budget separator signature key
  simp only [check, Spend.sighash_withWitness]
  rfl

theorem SignatureScope.env_withWitness (annex leafHash : Option Bytes) :
    env ⟨curve, spend.withWitness witness, annex, leafHash⟩ =
      env ⟨curve, spend, annex, leafHash⟩ := by
  rw [env, env, check_withWitness, Spend.input_withWitness]
  rfl

theorem authorize_withWitness (given : List Bytes) :
    authorize curve (spend.withWitness witness) given = authorize curve spend given := by
  simp only [authorize, authorizeKey, SignatureScope.check_withWitness, Spend.prevout_withWitness]

theorem LeafRun.run_withWitness (leaf : LeafRun) :
    leaf.run curve (spend.withWitness witness) = leaf.run curve spend := by
  simp only [LeafRun.run, SignatureScope.env_withWitness]

end

/-! ## The first two scripts -/

theorem exists_key_of_isOutputScript {script : Bytes} (h : isOutputScript script = true) :
    ∃ key, script = 0x51 :: 0x20 :: key ∧ key.length = 32 := by
  rw [isOutputScript, Bool.and_eq_true, beq_iff_eq, beq_iff_eq] at h
  obtain ⟨length, front⟩ := h
  match script, length, front with
  | a :: b :: key, length, front =>
    rw [List.take_succ_cons, List.take_succ_cons, List.take_zero] at front
    obtain ⟨rfl, rfl⟩ : a = 0x51 ∧ b = 0x20 := by simpa using front
    exact ⟨key, rfl, by simpa using length⟩

theorem isOutputScript_outputScript {key : XOnlyKey} (h : key.bytes.length = 32) :
    isOutputScript (outputScript key) = true := by
  rw [outputScript, isOutputScript, List.length_cons, List.length_cons, h]
  rfl

theorem decode_outputScript {key : Bytes} (h : key.length = 32) :
    Script.decode (0x51 :: 0x20 :: key) =
      [⟨⟨0x51⟩, none, 0, 1, false⟩, ⟨⟨0x20⟩, some key, 1, 33, false⟩] := by
  have second : Script.decodeFirst 1 ⟨0x20⟩ key = ⟨⟨0x20⟩, some key, 1, 33, false⟩ := by
    show Script.withData ⟨0x20⟩ 1 0 32 key = _
    rw [Script.withData, List.take_of_length_le (by omega), h]
    rfl
  rw [Script.decode, Script.decodeFrom_of_absent rfl, Script.decodeFrom_cons, second]
  show _ :: _ :: Script.decodeFrom 34 (key.drop 32) = _
  rw [List.drop_of_length_le (by omega), Script.decodeFrom_nil]

namespace Machine

/-- The script of a taproot output pushes its version and its key. -/
theorem execute_outputScript (env : Env) {script : Bytes} (h : isOutputScript script = true) :
    ∃ m, (start [] 0).execute env 0 (Script.decode script) = .ok m ∧ m.conditions = [] := by
  obtain ⟨key, rfl, length⟩ := exists_key_of_isOutputScript h
  rw [decode_outputScript length]
  match key, length with
  | a :: b :: key, length =>
    refine ⟨⟨[a :: b :: key, ScriptNumber.encode 1], [], [], none, 0⟩, ?_, rfl⟩
    have number : (start [] 0).step env 0 ⟨⟨0x51⟩, none, 0, 1, false⟩ =
        .ok ⟨[ScriptNumber.encode 1], [], [], none, 0⟩ :=
      step_eq_ok.mpr ⟨rfl, .inr ⟨rfl, rfl, by decide⟩⟩
    have allowed : Instruction.refused? ⟨⟨0x20⟩, some (a :: b :: key), 1, 33, false⟩ = none := by
      rw [Instruction.refused?, Option.any_some, length]
      rfl
    have minimal : Opcode.pushesMinimally ⟨0x20⟩ (a :: b :: key) = true := by
      simp only [Opcode.pushesMinimally, length]
      rfl
    have push : (⟨[ScriptNumber.encode 1], [], [], none, 0⟩ : Machine).step env 1
        ⟨⟨0x20⟩, some (a :: b :: key), 1, 33, false⟩ =
        .ok ⟨[a :: b :: key, ScriptNumber.encode 1], [], [], none, 0⟩ := by
      refine step_eq_ok.mpr ⟨allowed, .inr ⟨rfl, ?_, by simp [size, maxStackSize]⟩⟩
      simp only [effect, pushData, minimal]
      rfl
    simp only [execute, number, push]

end Machine

/-- A run in two parts ends well if both do. -/
theorem Run.result_bind_eq_ok_iff {α β : Type} {run : Run α} {next : α → Run β} {b : β} :
    (run.bind next).result = some (.ok b) ↔
      ∃ a, run.result = some (.ok a) ∧ (next a).result = some (.ok b) := by
  rw [result_bind]
  rcases run.result with _ | (e | a) <;> simp

theorem Machine.result_run_nil (env : Env) (m : Machine) (closed : m.conditions = []) :
    (m.run env 0 []).result = some (.ok m) := by
  rw [result_run, Script.decode, Script.decodeFrom, execute, conclude, closed]
  rfl

theorem Machine.result_run_outputScript (env : Env) {script : Bytes}
    (h : isOutputScript script = true) :
    ∃ m, ((start [] 0).run env 1 script).result = some (.ok m) := by
  obtain ⟨m, hm, closed⟩ := execute_outputScript env h
  refine ⟨m, ?_⟩
  rw [result_run, hm, conclude, closed]
  rfl

/-- What follows the script of the output. -/
def runWitness (curve : Curve) (spend : Spend) (witness : List Bytes) : Run Unit :=
  match authorize curve spend witness with
  | .error e => .fail e
  | .ok none => .done (.ok ())
  | .ok (some leaf) => leaf.run curve spend

theorem runTaproot_eq (curve : Curve) (spend : Spend) (witness : List Bytes) :
    runTaproot curve spend witness =
      ((Machine.start [] 0).run (SignatureScope.env ⟨curve, spend, none, none⟩) 0
        spend.input.scriptSig).bind fun _ =>
      if !spend.input.scriptSig.isEmpty then failAt 0 0 .witnessMalleated
      else
        ((Machine.start [] 0).run (SignatureScope.env ⟨curve, spend, none, none⟩) 1
          spend.prevout.scriptPubKey).bind fun _ =>
        runWitness curve spend witness := by
  have input : (spend.withWitness witness).input.scriptSig = spend.input.scriptSig := by
    rw [Spend.input_withWitness]
  have after : runWitness curve (spend.withWitness witness) witness =
      runWitness curve spend witness := by
    simp only [runWitness, authorize_withWitness, LeafRun.run_withWitness]
  rw [← input, ← after, ← SignatureScope.env_withWitness curve spend witness]
  rfl

theorem result_runWitness_eq_ok_iff {curve : Curve} {spend : Spend} {witness : List Bytes} :
    (runWitness curve spend witness).result = some (.ok ()) ↔
      authorize curve spend witness = .ok none ∨
        ∃ leaf, authorize curve spend witness = .ok (some leaf)
          ∧ (leaf.run curve spend).result = some (.ok ()) := by
  rw [runWitness]
  rcases authorize curve spend witness with e | (_ | leaf) <;> simp

/-- A spend of a taproot output ends well if nothing stands in its input and its witness does. -/
theorem result_runTaproot_eq_ok_iff {curve : Curve} {spend : Spend} {witness : List Bytes}
    (h : isOutputScript spend.prevout.scriptPubKey = true) :
    (runTaproot curve spend witness).result = some (.ok ()) ↔
      spend.input.scriptSig = [] ∧
        (runWitness curve spend witness).result = some (.ok ()) := by
  rw [runTaproot_eq, result_bind_eq_ok_iff]
  constructor
  · rintro ⟨m, -, hm⟩
    split at hm
    · cases hm
    · rename_i empty
      obtain ⟨m', -, hm'⟩ := result_bind_eq_ok_iff.mp hm
      exact ⟨by simpa using empty, hm'⟩
  · rintro ⟨empty, hw⟩
    obtain ⟨m, hm⟩ :=
      Machine.result_run_outputScript (SignatureScope.env ⟨curve, spend, none, none⟩) h
    refine ⟨Machine.start [] 0, ?_, ?_⟩
    · rw [empty, Machine.result_run_nil _ _ rfl]
    · rw [empty, List.isEmpty_nil, if_neg (by simp), result_bind_eq_ok_iff]
      exact ⟨m, hm, hw⟩

/-! ## What is shown -/

theorem stopsOnAbort_verdict (script : Bytes) (m : Machine) : (verdict script m).StopsOnAbort := by
  rw [verdict]
  repeat' split
  all_goals trivial

theorem boundaries_verdict (script : Bytes) (m : Machine) : (verdict script m).boundaries = [] := by
  rw [verdict]
  repeat' split
  all_goals rfl

/-- What the signature checks of a leaf are made against. -/
def LeafRun.scope (leaf : LeafRun) (curve : Curve) (spend : Spend) : SignatureScope :=
  ⟨curve, spend, leaf.annex, some (leafHash tapscriptVersion leaf.script)⟩

def LeafRun.env (leaf : LeafRun) (curve : Curve) (spend : Spend) : Env :=
  SignatureScope.env ⟨curve, spend, leaf.annex, some (leafHash tapscriptVersion leaf.script)⟩

theorem LeafRun.run_eq (leaf : LeafRun) (curve : Curve) (spend : Spend) :
    leaf.run curve spend =
      ((Machine.start leaf.stack leaf.budget).run (leaf.env curve spend) 2 leaf.script).bind
        (verdict leaf.script) := rfl

theorem LeafRun.boundaries_run (leaf : LeafRun) (curve : Curve) (spend : Spend) :
    (leaf.run curve spend).boundaries =
      ((Machine.start leaf.stack leaf.budget).run
        (leaf.env curve spend) 2 leaf.script).boundaries := by
  rw [LeafRun.run, boundaries_bind]
  simp only [boundaries_verdict]
  split <;> exact List.append_nil _

theorem stopsOnAbort_runWitness (curve : Curve) (spend : Spend) (witness : List Bytes) :
    (runWitness curve spend witness).StopsOnAbort := by
  rw [runWitness]
  rcases authorize curve spend witness with e | (_ | leaf)
  · trivial
  · trivial
  · exact (Machine.stopsOnAbort_runFrom _ _ _).bind fun m _ => stopsOnAbort_verdict _ m

theorem stopsOnAbort_runTaproot (curve : Curve) (spend : Spend) (witness : List Bytes) :
    (runTaproot curve spend witness).StopsOnAbort := by
  rw [runTaproot_eq]
  refine (Machine.stopsOnAbort_runFrom _ _ _).bind fun _ _ => ?_
  split
  · trivial
  · exact (Machine.stopsOnAbort_runFrom _ _ _).bind fun _ _ =>
      stopsOnAbort_runWitness curve spend witness

theorem Machine.result_run_cases (env : Env) (m : Machine) (scriptIndex : Nat) (script : Bytes) :
    (∃ m', (m.run env scriptIndex script).result = some (.ok m')) ∨
      ∃ e, (m.run env scriptIndex script).result = some (.error e) := by
  rw [result_run]
  cases conclude scriptIndex (Script.decode script).length
    (m.execute env 0 (Script.decode script)) with
  | ok m' => exact .inl ⟨m', rfl⟩
  | error e => exact .inr ⟨e, rfl⟩

/-- A spend ends before it comes to a leaf, or with the run of one. -/
theorem boundaries_runTaproot_cases (curve : Curve) (spend : Spend) (witness : List Bytes) :
    (∀ b ∈ (runTaproot curve spend witness).boundaries, b.scriptIndex ≠ 2) ∨
      ∃ leaf front, authorize curve spend witness = .ok (some leaf)
        ∧ (runTaproot curve spend witness).boundaries = front ++ (leaf.run curve spend).boundaries
        ∧ (runTaproot curve spend witness).result = (leaf.run curve spend).result
        ∧ ∀ b ∈ front, b.scriptIndex ≠ 2 := by
  have other {env : Env} {m : Machine} {k : Nat} {script : Bytes} (hk : k ≠ 2) :
      ∀ b ∈ (m.run env k script).boundaries, b.scriptIndex ≠ 2 := by
    intro b h
    rw [Machine.scriptIndex_of_mem_boundaries h]
    exact hk
  rw [runTaproot_eq]
  rcases Machine.result_run_cases (SignatureScope.env ⟨curve, spend, none, none⟩) (.start [] 0) 0
    spend.input.scriptSig with ⟨m, ended⟩ | ⟨e, failed⟩
  · rw [boundaries_bind_of_ok _ ended, result_bind_of_ok _ ended]
    by_cases empty : spend.input.scriptSig.isEmpty
    · rw [empty, if_neg (by simp)]
      rcases Machine.result_run_cases (SignatureScope.env ⟨curve, spend, none, none⟩)
        (.start [] 0) 1
        spend.prevout.scriptPubKey with ⟨m', ended'⟩ | ⟨e, failed⟩
      · rw [boundaries_bind_of_ok _ ended', result_bind_of_ok _ ended', runWitness]
        rcases authorize curve spend witness with e | (_ | leaf)
        · left
          rw [boundaries_fail, List.append_nil]
          exact List.forall_mem_append.mpr ⟨other (by decide), other (by decide)⟩
        · left
          rw [boundaries_done, List.append_nil]
          exact List.forall_mem_append.mpr ⟨other (by decide), other (by decide)⟩
        · right
          exact ⟨leaf, _, rfl, (List.append_assoc ..).symm, rfl,
            List.forall_mem_append.mpr ⟨other (by decide), other (by decide)⟩⟩
      · left
        rw [boundaries_bind_of_error _ failed]
        exact List.forall_mem_append.mpr ⟨other (by decide), other (by decide)⟩
    · left
      rw [if_pos (by simpa using empty), failAt, boundaries_fail, List.append_nil]
      exact other (by decide)
  · left
    rw [boundaries_bind_of_error _ failed]
    exact other (by decide)

/-- What is shown of the third script is what the leaf shows. -/
theorem mem_boundaries_runTaproot {curve : Curve} {spend : Spend} {witness : List Bytes}
    {b : Boundary} (third : b.scriptIndex = 2)
    (h : b ∈ (runTaproot curve spend witness).boundaries) :
    ∃ leaf, authorize curve spend witness = .ok (some leaf)
      ∧ b ∈ (leaf.run curve spend).boundaries := by
  rcases boundaries_runTaproot_cases curve spend witness with
    early | ⟨leaf, front, authorized, shown, -, early⟩
  · exact (early b h third).elim
  · rw [shown, List.mem_append] at h
    exact ⟨leaf, authorized, h.resolve_left fun h => early b h third⟩

/-- The third script is reached if nothing stands in the input. -/
theorem boundaries_runWitness_subset {curve : Curve} {spend : Spend} {witness : List Bytes}
    (taproot : isOutputScript spend.prevout.scriptPubKey = true)
    (empty : spend.input.scriptSig = []) :
    (runWitness curve spend witness).boundaries ⊆ (runTaproot curve spend witness).boundaries := by
  intro b hb
  obtain ⟨m, hm⟩ :=
    Machine.result_run_outputScript (SignatureScope.env ⟨curve, spend, none, none⟩) taproot
  rw [runTaproot_eq, empty, boundaries_bind, Machine.result_run_nil _ _ rfl]
  refine List.mem_append_right _ ?_
  show b ∈ (Run.bind _ _).boundaries
  rw [boundaries_bind, hm]
  exact List.mem_append_right _ hb

end TaprootLab

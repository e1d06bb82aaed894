import TaprootLab.Proofs.Engine.Budget
import TaprootLab.Proofs.Script.Decoding

/-!
# Branches that are skipped

What stands in a branch that is not taken is decoded and not obeyed. Two scripts that differ in one
instruction of such a branch run alike, except that the two opcodes for checking several signatures
are refused even there (`trace_eq_iff_of_replaces`).

The scripts run on budgets of their own and have their signatures checked on their own, since both
depend on the whole script. That the checks are answered the same is asked only of those that are
made.
-/

namespace TaprootLab

/-! ## Opcodes that are inert where they are skipped -/

namespace Opcode

theorem operation_of_multiSig {op : Opcode} (h : op.byte = 0xae ∨ op.byte = 0xaf) :
    op.operation = .checkMultiSig := by
  obtain ⟨b⟩ := op
  rcases h with h | h <;> cases h <;> rfl

theorem operation_of_ordinary {op : Opcode}
    (h : op.byte ∉ [0x63, 0x64, 0x65, 0x66, 0x67, 0x68, 0xae, 0xaf]) :
    op.operation.isConditional = false ∧ op.operation ≠ .versionBranch
      ∧ op.operation ≠ .checkMultiSig := by
  rw [operation]
  split
  · exact ⟨rfl, nofun, nofun⟩
  · split
    -- every branch is ordinary or stands for a byte of the list
    all_goals first
      | (refine ⟨rfl, ?_, ?_⟩ <;> rintro ⟨⟩; done)
      | rename_i hb
        rw [hb] at h
        exact (h (by decide)).elim

end Opcode

namespace Instruction

/-- Neither a conditional, nor one on the version, nor a push of more than an item may hold. -/
structure Plain (i : Instruction) : Prop where
  unconditional : i.opcode.byte ∉ [0x63, 0x64, 0x65, 0x66, 0x67, 0x68]
  small : ∀ data, i.data = some data → data.length ≤ 520

/-- One of the two opcodes that check several signatures. -/
def IsMultiSig (i : Instruction) : Prop := i.opcode.byte = 0xae ∨ i.opcode.byte = 0xaf

instance (i : Instruction) : Decidable i.IsMultiSig := inferInstanceAs (Decidable (_ ∨ _))

variable {i : Instruction}

theorem Plain.ordinary (plain : i.Plain) (single : ¬ i.IsMultiSig) :
    i.opcode.byte ∉ [0x63, 0x64, 0x65, 0x66, 0x67, 0x68, 0xae, 0xaf] := by
  intro listed
  rw [show ([0x63, 0x64, 0x65, 0x66, 0x67, 0x68, 0xae, 0xaf] : List UInt8) =
    [0x63, 0x64, 0x65, 0x66, 0x67, 0x68] ++ [0xae, 0xaf] from rfl, List.mem_append] at listed
  rcases listed with listed | listed
  · exact plain.unconditional listed
  · exact single (by simpa [IsMultiSig] using listed)

theorem Plain.refused? (plain : i.Plain) :
    i.refused? = if i.IsMultiSig then some .tapscriptCheckMultiSig else none := by
  have short : (i.data.any fun data => decide (maxItemSize < data.length)) = false := by
    cases h : i.data with
    | none => rfl
    | some data => exact decide_eq_false (Nat.not_lt.mpr (plain.small data h))
  rw [Instruction.refused?, short, if_neg Bool.false_ne_true]
  by_cases several : i.IsMultiSig
  · rw [if_pos several, Opcode.operation_of_multiSig several]
  · obtain ⟨-, version, multiSig⟩ := Opcode.operation_of_ordinary (plain.ordinary several)
    rw [if_neg several]
    split
    · contradiction
    · contradiction
    · rfl

end Instruction

namespace Machine

variable {env : Env} {m : Machine} {pc : Nat}

/-- All that an instruction can do where it is skipped. -/
theorem step_of_plain {i : Instruction} (plain : i.Plain) (skipped : m.executing = false) :
    m.step env pc i = if i.IsMultiSig then .error .tapscriptCheckMultiSig else .ok m := by
  have refused := plain.refused?
  split
  · rename_i several
    rw [if_pos several] at refused
    exact step_of_refused refused
  · rename_i single
    rw [if_neg single] at refused
    refine step_of_skipped refused ?_
    rw [obeys, skipped, Bool.false_or]
    exact (Opcode.operation_of_ordinary (plain.ordinary single)).1

end Machine

/-! ## Two scripts side by side -/

/-- Two scripts that differ only in the instruction at position `p`, which is `i` in the one and `j`
in the other. -/
structure Replaces (p : Nat) (i j : Instruction) (is js : List Instruction) : Prop where
  length : is.length = js.length
  before : is[p]? = some i
  after : js[p]? = some j
  elsewhere : ∀ k a b, k ≠ p → is[k]? = some a → js[k]? = some b → a.Alike b

/-- Exchanging the bytes of one whole instruction behind other whole ones exchanges the
instruction. -/
theorem replaces_of_bytes {front old new : Bytes} {i j : Instruction} (back : Bytes)
    (whole : ∀ k ∈ Script.decode front, k.truncated = false)
    (hold : Script.decodeFrom front.length old = [i]) (hi : i.truncated = false)
    (hnew : Script.decodeFrom front.length new = [j]) (hj : j.truncated = false) :
    Replaces (Script.decode front).length i j (Script.decode (front ++ (old ++ back)))
      (Script.decode (front ++ (new ++ back))) := by
  have decoded {part : Bytes} {k : Instruction}
      (h : Script.decodeFrom front.length part = [k]) (hk : k.truncated = false) :
      Script.decode (front ++ (part ++ back)) = Script.decode front ++
        k :: Script.decodeFrom (front.length + part.length) back := by
    have single : ∀ k' ∈ Script.decodeFrom front.length part, k'.truncated = false := by
      rw [h]
      simpa using hk
    rw [Script.decode, Script.decodeFrom_append _ whole, Nat.zero_add,
      Script.decodeFrom_append _ single, h]
    rfl
  obtain ⟨lengths, alike⟩ :=
    Script.decodeFrom_alike (front.length + old.length) (front.length + new.length) back
  rw [decoded hold hi, decoded hnew hj]
  refine ⟨?_, ?_, ?_, ?_⟩
  · simp [lengths]
  · simp
  · simp
  · intro k a b elsewhere ha hb
    by_cases before : k < (Script.decode front).length
    · rw [List.getElem?_append_left before] at ha hb
      obtain rfl : a = b := Option.some.inj (ha.symm.trans hb)
      exact ⟨rfl, rfl, rfl⟩
    · obtain ⟨r, rfl⟩ : ∃ r, k = (Script.decode front).length + (r + 1) :=
        ⟨k - (Script.decode front).length - 1, by omega⟩
      rw [List.getElem?_append_right (by omega), Nat.add_sub_cancel_left,
        List.getElem?_cons_succ] at ha hb
      exact alike r a b ha hb

namespace Machine

variable {env env' : Env} {m m' : Machine} {pc : Nat} {is js : List Instruction}

theorem step_of_alike {i j : Instruction} (h : i.Alike j) : m.step env pc i = m.step env pc j := by
  obtain ⟨opcode, data, offset, length, truncated⟩ := i
  obtain ⟨opcode', data', offset', length', truncated'⟩ := j
  obtain ⟨rfl, rfl, rfl⟩ := h
  rfl

/-- Instruction by instruction, two scripts do the same to machines that agree up to their budgets,
at the positions below `n`. -/
def Lockstep (n : Nat) (env env' : Env) (m m' : Machine) (pc : Nat)
    (is js : List Instruction) : Prop :=
  ∀ k < n, ∀ a b i j, (m.visits env pc is)[k]? = some a → (m'.visits env' pc js)[k]? = some b →
    is[k]? = some i → js[k]? = some j → a.bare = b.bare →
      (a.step env (pc + k) i).map bare = (b.step env' (pc + k) j).map bare

theorem exists_getElem?_of_length_eq {α β : Type} {l : List α} {l' : List β}
    (h : l.length = l'.length) {k : Nat} {a : α} (ha : l[k]? = some a) : ∃ b, l'[k]? = some b := by
  obtain ⟨hk, -⟩ := List.getElem?_eq_some_iff.mp ha
  exact ⟨_, List.getElem?_eq_getElem (h ▸ hk)⟩

theorem Lockstep.visits {n : Nat} (lockstep : Lockstep n env env' m m' pc is js)
    (length : is.length = js.length) (same : m.bare = m'.bare) :
    ∀ k ≤ n, (m.visits env pc is)[k]?.map bare = (m'.visits env' pc js)[k]?.map bare := by
  intro k hk
  induction k with
  | zero =>
    rw [getElem?_visits_zero, getElem?_visits_zero]
    exact congrArg some same
  | succ k ih =>
    have ih := ih (Nat.le_of_succ_le hk)
    rw [getElem?_visits_succ, getElem?_visits_succ]
    -- the runs are both at a boundary or both over, and so are the scripts at an instruction
    rcases ha : (m.visits env pc is)[k]? with _ | a <;>
      rcases hb : (m'.visits env' pc js)[k]? with _ | b <;> rw [ha, hb] at ih
    · rfl
    · cases ih
    · cases ih
    · rcases hi : is[k]? with _ | i <;> rcases hj : js[k]? with _ | j
      · rfl
      · obtain ⟨i, hi'⟩ := exists_getElem?_of_length_eq length.symm hj
        cases hi.symm.trans hi'
      · obtain ⟨j, hj'⟩ := exists_getElem?_of_length_eq length hi
        cases hj.symm.trans hj'
      · have step := lockstep k hk a b i j ha hb hi hj (Option.some.inj ih)
        show (a.step env (pc + k) i).toOption.map bare = (b.step env' (pc + k) j).toOption.map bare
        rw [← Except.toOption_map, step, Except.toOption_map]

theorem Lockstep.execute (lockstep : Lockstep is.length env env' m m' pc is js)
    (length : is.length = js.length) (same : m.bare = m'.bare) :
    (m.execute env pc is).map bare = (m'.execute env' pc js).map bare := by
  have partner {k : Nat} {a : Machine} (hk : k ≤ is.length)
      (ha : (m.visits env pc is)[k]? = some a) :
      ∃ b, (m'.visits env' pc js)[k]? = some b ∧ a.bare = b.bare := by
    have h := lockstep.visits length same k hk
    rw [ha] at h
    obtain ⟨b, hb, hab⟩ := Option.map_eq_some_iff.mp h.symm
    exact ⟨b, hb, hab.symm⟩
  rcases end_or_step_error env m pc is with ⟨a, ha⟩ | ⟨k, a, i, e, ha, hi, he⟩
  · obtain ⟨b, hb, hab⟩ := partner (Nat.le_refl _) ha
    rw [length] at hb
    rw [execute_of_visits_end ha, execute_of_visits_end hb]
    exact congrArg Except.ok hab
  · obtain ⟨hk, -⟩ := List.getElem?_eq_some_iff.mp hi
    obtain ⟨b, hb, hab⟩ := partner (Nat.le_of_lt hk) ha
    obtain ⟨j, hj⟩ := exists_getElem?_of_length_eq length hi
    have step := lockstep k hk a b i j ha hb hi hj hab
    rw [he] at step
    rcases hb' : b.step env' (pc + k) j with e' | b' <;> rw [hb'] at step <;> cases step
    rw [execute_of_step_error ha hi he, execute_of_step_error hb hj hb']

/-- How a script ends does not depend on the budget. -/
theorem conclude_of_bare (scriptIndex stop : Nat) {r r' : Except (ScriptError × Nat) Machine}
    (same : r.map bare = r'.map bare) :
    (conclude scriptIndex stop r).map (fun _ => ()) =
      (conclude scriptIndex stop r').map fun _ => () := by
  rcases r with e | m <;> rcases r' with e' | m'
  · cases same
    rfl
  · cases same
  · cases same
  · have same : m.bare = m'.bare := Except.ok.inj same
    rw [eq_of_bare_eq same]
    simp only [conclude, Except.map_ite]
    rfl

end Machine

/-! ## Replacing a skipped instruction -/

/-- What a run shows of the two stacks at each position, and how it ends. -/
def Run.trace (run : Run Machine) :
    List (Nat × List Bytes × List Bytes) × Option (Except RunError Unit) :=
  (run.boundaries.map fun b => (b.pc, b.stack, b.altStack), run.result.map (Except.map fun _ => ()))

namespace Machine

variable {env env' : Env} {m m' : Machine} {scriptIndex : Nat} {script script' : Bytes}

theorem trace_run (env : Env) (scriptIndex : Nat) (script : Bytes) (m : Machine) :
    (m.run env scriptIndex script).trace =
      ((m.visits env 0 (Script.decode script)).mapIdx fun k m => (k, m.stack, m.altStack),
        some ((conclude scriptIndex (Script.decode script).length
          (m.execute env 0 (Script.decode script))).map fun _ => ())) := by
  rw [Run.trace, boundaries_run, result_run]
  refine Prod.ext (List.ext_getElem? fun k => ?_) rfl
  rw [List.getElem?_map, List.getElem?_mapIdx, List.getElem?_mapIdx, Option.map_map]
  rfl

/-- Runs in lockstep show the same and end the same. -/
theorem trace_eq_of_lockstep
    (lockstep : Lockstep (Script.decode script).length env env' m m' 0 (Script.decode script)
      (Script.decode script'))
    (length : (Script.decode script).length = (Script.decode script').length)
    (same : m.bare = m'.bare) :
    (m.run env scriptIndex script).trace = (m'.run env' scriptIndex script').trace := by
  rw [trace_run, trace_run]
  refine Prod.ext (List.ext_getElem? fun k => ?_) ?_
  · rw [List.getElem?_mapIdx, List.getElem?_mapIdx]
    by_cases hk : k ≤ (Script.decode script).length
    · have shown := congrArg (Option.map fun m : Machine => (k, m.stack, m.altStack))
        (lockstep.visits length same k hk)
      rw [Option.map_map, Option.map_map] at shown
      exact shown
    · -- behind the end neither run shows anything
      rw [List.getElem?_eq_none, List.getElem?_eq_none]
      · exact Nat.le_trans (length_visits_le _ _ _) (by omega)
      · exact Nat.le_trans (length_visits_le _ _ _) (by omega)
  · rw [← length]
    exact congrArg some (conclude_of_bare _ _ (lockstep.execute length same))

/-- Where a skipped instruction leads: to the next position, unless it checks several signatures. -/
theorem isSome_visits_of_plain {is : List Instruction} {p : Nat} {i : Instruction} {a : Machine}
    (hi : is[p]? = some i) (reached : (m.visits env 0 is)[p]? = some a)
    (skipped : a.executing = false) (plain : i.Plain) :
    (m.visits env 0 is)[p + 1]?.isSome = true ↔ ¬ i.IsMultiSig := by
  rw [getElem?_visits_succ, reached, hi]
  show (a.step env (0 + p) i).toOption.isSome = true ↔ _
  rw [step_of_plain plain skipped]
  split
  · rename_i several
    exact ⟨nofun, fun single => (single several).elim⟩
  · rename_i single
    exact ⟨fun _ => single, fun _ => rfl⟩

/-- The signature checks that are made in a first run have the same answers in a second one. -/
def AnswersAlike (env env' : Env) (m m' : Machine) (is js : List Instruction) : Prop :=
  ∀ (k : Nat) (a b : Machine) (i : Instruction) (signature key : Bytes),
    (m.visits env 0 is)[k]? = some a → (m'.visits env' 0 js)[k]? = some b → is[k]? = some i →
      a.asks? i = some (signature, key) → a.answer env signature key = b.answer env' signature key

/-- Replacing an instruction of a branch that is skipped changes nothing, exactly if both or none of
the two instructions check several signatures. -/
theorem trace_eq_iff_of_replaces {check : SignatureCheck} {stack : List Bytes}
    {budget budget' : Int} {p : Nat} {i j : Instruction} {a : Machine}
    (replaces : Replaces p i j (Script.decode script) (Script.decode script'))
    (reached : ((start stack budget).visits env 0 (Script.decode script))[p]? = some a)
    (skipped : a.executing = false) (plain : i.Plain) (plain' : j.Plain)
    (answers : AnswersAlike env { env with checkSignature := check } (start stack budget)
      (start stack budget') (Script.decode script) (Script.decode script')) :
    ((start stack budget).run env scriptIndex script).trace =
        ((start stack budget').run { env with checkSignature := check } scriptIndex script').trace ↔
      (i.IsMultiSig ↔ j.IsMultiSig) := by
  have elsewhere (k : Nat) (hk : k ≠ p) (a b : Machine) (i j : Instruction)
      (ha : ((start stack budget).visits env 0 (Script.decode script))[k]? = some a)
      (hb : ((start stack budget').visits { env with checkSignature := check } 0
        (Script.decode script'))[k]? = some b)
      (hi : (Script.decode script)[k]? = some i) (hj : (Script.decode script')[k]? = some j)
      (same : a.bare = b.bare) :
      (a.step env (0 + k) i).map bare =
        (b.step { env with checkSignature := check } (0 + k) j).map bare := by
    rw [← step_of_alike (replaces.elsewhere k i j hk hi hj)]
    exact step_bare same fun signature key => answers k a b i signature key ha hb hi
  have executing {b : Machine} (same : a.bare = b.bare) : b.executing = false := by
    rw [eq_of_bare_eq same]
    exact skipped
  constructor
  · intro h
    -- up to the replaced instruction the runs are in lockstep, so both skip it
    have prior : Lockstep p env { env with checkSignature := check } (start stack budget)
        (start stack budget') 0 (Script.decode script) (Script.decode script') :=
      fun k hk => elsewhere k (Nat.ne_of_lt hk)
    have reached' := prior.visits replaces.length rfl p (Nat.le_refl p)
    rw [reached] at reached'
    obtain ⟨b, hb, same⟩ := Option.map_eq_some_iff.mp reached'.symm
    have next := isSome_visits_of_plain replaces.before reached skipped plain
    have next' := isSome_visits_of_plain replaces.after hb (executing same.symm) plain'
    have shown := congrArg (fun t => t.1[p + 1]?.isSome) h
    simp only [trace_run, List.getElem?_mapIdx, Option.isSome_map] at shown
    rw [shown, next'] at next
    exact (Decidable.not_iff_not.mp next).symm
  · intro alike
    refine trace_eq_of_lockstep ?_ replaces.length rfl
    intro k hk b c i' j' hb hc hi' hj' same
    by_cases here : k = p
    · subst here
      obtain rfl : a = b := Option.some.inj (reached.symm.trans hb)
      obtain rfl : i = i' := Option.some.inj (replaces.before.symm.trans hi')
      obtain rfl : j = j' := Option.some.inj (replaces.after.symm.trans hj')
      rw [step_of_plain plain skipped, step_of_plain plain' (executing same)]
      by_cases several : i.IsMultiSig
      · rw [if_pos several, if_pos (alike.mp several)]
      · rw [if_neg several, if_neg fun h => several (alike.mpr h)]
        exact congrArg Except.ok same
    · exact elsewhere k here b c i' j' hb hc hi' hj' same

end Machine

/-! ## A branch with one opcode -/

/-- A script that skips `b` and leaves one true item. -/
def skippingScript (b : UInt8) : Bytes := [0x00, 0x63] ++ ([b] ++ [0x68, 0x51])

def refusingEnv : Env := ⟨2, 0, 0, fun _ _ _ _ => .error .schnorrSig⟩

theorem decode_skippingScript {b : UInt8} (h : Opcode.operand ⟨b⟩ = .absent) :
    Script.decode (skippingScript b) = [⟨⟨0x00⟩, some [], 0, 1, false⟩, ⟨⟨0x63⟩, none, 1, 1, false⟩,
      ⟨⟨b⟩, none, 2, 1, false⟩, ⟨⟨0x68⟩, none, 3, 1, false⟩, ⟨⟨0x51⟩, none, 4, 1, false⟩] := by
  rw [Script.decode]
  show Script.decodeFrom 0 (0x00 :: [0x63, b, 0x68, 0x51]) = _
  rw [Script.decodeFrom_cons]
  show _ :: Script.decodeFrom 1 [0x63, b, 0x68, 0x51] = _
  rw [Script.decodeFrom_of_absent rfl, Script.decodeFrom_of_absent h,
    Script.decodeFrom_of_absent rfl, Script.decodeFrom_of_absent rfl, Script.decodeFrom_nil]
  rfl

theorem replaces_skippingScript {b c : UInt8} (hb : Opcode.operand ⟨b⟩ = .absent)
    (hc : Opcode.operand ⟨c⟩ = .absent) :
    Replaces 2 ⟨⟨b⟩, none, 2, 1, false⟩ ⟨⟨c⟩, none, 2, 1, false⟩
      (Script.decode (skippingScript b)) (Script.decode (skippingScript c)) := by
  have front : Script.decode [0x00, 0x63] =
      [⟨⟨0x00⟩, some [], 0, 1, false⟩, ⟨⟨0x63⟩, none, 1, 1, false⟩] := by
    rw [Script.decode, Script.decodeFrom_cons]
    show _ :: Script.decodeFrom 1 [0x63] = _
    rw [Script.decodeFrom_of_absent rfl, Script.decodeFrom_nil]
    rfl
  have single {b : UInt8} (h : Opcode.operand ⟨b⟩ = .absent) :
      Script.decodeFrom 2 [b] = [⟨⟨b⟩, none, 2, 1, false⟩] := by
    rw [Script.decodeFrom_of_absent h, Script.decodeFrom_nil]
  have replaces : Replaces (Script.decode [0x00, 0x63]).length _ _
      (Script.decode (skippingScript b)) (Script.decode (skippingScript c)) :=
    replaces_of_bytes [0x68, 0x51] (by rw [front]; decide) (single hb) rfl (single hc) rfl
  rwa [front] at replaces

namespace Machine

theorem visits_skippingScript {b : UInt8} (h : Opcode.operand ⟨b⟩ = .absent) :
    ((start [] 0).visits refusingEnv 0 (Script.decode (skippingScript b)))[2]? =
      some ⟨[], [], [false], none, 0⟩ := by
  rw [decode_skippingScript h]
  rfl

theorem answersAlike_nop {env' : Env} {m' : Machine} {js : List Instruction} :
    AnswersAlike refusingEnv env' (start [] 0) m' (Script.decode (skippingScript 0x61)) js := by
  intro k a _ i signature key _ _ hi asked
  have listed := List.mem_of_getElem? hi
  rw [decode_skippingScript rfl] at listed
  simp only [List.mem_cons, List.not_mem_nil, or_false] at listed
  rcases listed with rfl | rfl | rfl | rfl | rfl <;> cases asked

end Machine

/-- Skipped opcodes that check several signatures fail where one that does nothing is skipped. -/
theorem exists_trace_ne :
    ∃ (i j : Instruction) (script script' : Bytes) (a : Machine),
      Replaces 2 i j (Script.decode script) (Script.decode script') ∧
        ((Machine.start [] 0).visits refusingEnv 0 (Script.decode script))[2]? = some a ∧
        a.executing = false ∧ i.Plain ∧ j.Plain ∧
        (i.opcode.isSuccess = false ∧ j.opcode.isSuccess = false) ∧
        (i.truncated = false ∧ j.truncated = false) ∧
        Machine.AnswersAlike refusingEnv refusingEnv (Machine.start [] 0) (Machine.start [] 0)
          (Script.decode script) (Script.decode script') ∧
        ((Machine.start [] 0).run refusingEnv 2 script).trace ≠
          ((Machine.start [] 0).run refusingEnv 2 script').trace := by
  refine ⟨⟨⟨0x61⟩, none, 2, 1, false⟩, ⟨⟨0xae⟩, none, 2, 1, false⟩, skippingScript 0x61,
    skippingScript 0xae, _, replaces_skippingScript rfl rfl, Machine.visits_skippingScript rfl, rfl,
    ⟨by decide, nofun⟩, ⟨by decide, nofun⟩, ⟨rfl, rfl⟩, ⟨rfl, rfl⟩, Machine.answersAlike_nop, ?_⟩
  intro h
  have shown := congrArg (fun t => t.1.length) h
  have skipped := decode_skippingScript (b := 0x61) rfl
  have refused := decode_skippingScript (b := 0xae) rfl
  simp only [Machine.trace_run, List.length_mapIdx, skipped, refused] at shown
  exact absurd shown (by decide)

theorem trace_eq_iff_of_replaces_nop :
    Replaces 2 ⟨⟨0x61⟩, none, 2, 1, false⟩ ⟨⟨0x6a⟩, none, 2, 1, false⟩
        (Script.decode (skippingScript 0x61)) (Script.decode (skippingScript 0x6a)) ∧
      (((Machine.start [] 0).run refusingEnv 2 (skippingScript 0x61)).trace =
          ((Machine.start [] 0).run
            { refusingEnv with checkSignature := fun b _ _ _ => .ok (true, b) } 2
            (skippingScript 0x6a)).trace ↔
        (Instruction.IsMultiSig ⟨⟨0x61⟩, none, 2, 1, false⟩ ↔
          Instruction.IsMultiSig ⟨⟨0x6a⟩, none, 2, 1, false⟩)) :=
  ⟨replaces_skippingScript rfl rfl,
    Machine.trace_eq_iff_of_replaces (replaces_skippingScript rfl rfl)
      (Machine.visits_skippingScript rfl) rfl ⟨by decide, nofun⟩ ⟨by decide, nofun⟩
      Machine.answersAlike_nop⟩

end TaprootLab

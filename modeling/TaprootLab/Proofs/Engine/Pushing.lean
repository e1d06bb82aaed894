import TaprootLab.Proofs.Assembly.Correspondence
import TaprootLab.Proofs.Engine.Execution
import TaprootLab.Proofs.Script.Number

/-!
# Scripts that push

Data has at most one script of a single pushing opcode that a machine accepts
(`existsUnique_pushes`): the opcode of a number if the data stands for a number from 1 to 16 or for
-1, and a push behind the shortest length field otherwise. The assembler, the decoder and the
machine each have a table of their own for this, and no two of them differ.
-/

namespace TaprootLab

open Assembly

/-- The opcode that pushes the data without carrying it. -/
def numberOpcode? (data : Bytes) : Option Opcode :=
  match data with
  | [n] => if 1 ≤ n ∧ n ≤ 16 then some ⟨0x50 + n⟩ else if n = 0x81 then some ⟨0x4f⟩ else none
  | _ => none

/-- The script that the machine wants for the data. -/
def minimalPush (data : Bytes) : Bytes :=
  match numberOpcode? data with
  | some op => [op.byte]
  | none => Script.push data

/-- The script is one pushing opcode, and executing it puts the data on the stack. -/
def Machine.Pushes (env : Env) (m : Machine) (pc : Nat) (script data : Bytes) : Prop :=
  ∃ i, Script.decode script = [i] ∧ i.opcode.byte ≤ 0x60
    ∧ m.step env pc i = .ok (m.withStack (data :: m.stack))

/-! ## Opcodes of numbers -/

/-- The opcode carries no data and stands for the number that the data encodes. -/
structure Opcode.StandsForNumber (op : Opcode) (data : Bytes) : Prop where
  absent : op.operand = .absent
  low : op.byte ≤ 0x60
  operation : op.operation = .number (ScriptNumber.value data)
  minimal : ScriptNumber.isMinimal data = true
  single : data.length = 1

theorem standsForNumber_of_some {data : Bytes} {op : Opcode} (h : numberOpcode? data = some op) :
    op.StandsForNumber data := by
  have small : ∀ n : Fin 17, 1 ≤ n.val →
      Opcode.operand ⟨0x50 + UInt8.ofNat n⟩ = .absent ∧ 0x50 + UInt8.ofNat n ≤ 0x60
        ∧ Opcode.operation ⟨0x50 + UInt8.ofNat n⟩ = .number (ScriptNumber.value [UInt8.ofNat n])
        ∧ ScriptNumber.isMinimal [UInt8.ofNat n] = true := by decide
  unfold numberOpcode? at h
  split at h
  · rename_i n
    split at h
    · rename_i range
      cases h
      obtain ⟨absent, low, number, minimal⟩ := small ⟨n.toNat, Nat.lt_succ_of_le range.2⟩ range.1
      rw [UInt8.ofNat_toNat] at absent low number minimal
      exact ⟨absent, low, number, minimal, rfl⟩
    · split at h
      · rename_i minus
        cases h
        subst minus
        exact ⟨rfl, by decide, by decide, by decide, rfl⟩
      · cases h
  · cases h

/-- An opcode that comes before those of operations stands for a number or for nothing. -/
theorem Opcode.operation_of_low {op : Opcode} (low : op.byte ≤ 0x60) :
    op.operation = .invalid ∨ ∃ data, numberOpcode? data = some op := by
  have all : ∀ n : Fin 97, Opcode.operation ⟨UInt8.ofNat n⟩ = .invalid
      ∨ numberOpcode? [0x81] = some ⟨UInt8.ofNat n⟩
      ∨ numberOpcode? [UInt8.ofNat n - 0x50] = some ⟨UInt8.ofNat n⟩ := by decide +kernel
  have here := all ⟨op.byte.toNat, Nat.lt_succ_of_le (UInt8.le_iff_toNat_le.mp low)⟩
  rw [UInt8.ofNat_toNat] at here
  rcases here with invalid | minus | small
  · exact .inl invalid
  · exact .inr ⟨_, minus⟩
  · exact .inr ⟨_, small⟩

/-! ## The machine's table -/

theorem Opcode.eq_mk_iff {op : Opcode} {b : UInt8} : op = ⟨b⟩ ↔ op.byte = b := by
  constructor
  · rintro rfl
    rfl
  · rintro rfl
    rfl

theorem pushesMinimally_of_some {data : Bytes} {op number : Opcode}
    (h : numberOpcode? data = some number) :
    op.pushesMinimally data = true ↔ op = number := by
  unfold numberOpcode? at h
  unfold Opcode.pushesMinimally
  split at h
  · split at h
    · rename_i range
      cases h
      simp [range, Opcode.eq_mk_iff]
    · split at h
      · rename_i minus
        cases h
        simp [minus, Opcode.eq_mk_iff]
      · cases h
  · cases h

theorem pushesMinimally_of_none {data : Bytes} {op : Opcode} (h : numberOpcode? data = none)
    (short : data.length ≤ maxItemSize) :
    op.pushesMinimally data = true ↔ op = shortestOpcode data.length := by
  unfold numberOpcode? at h
  unfold maxItemSize at short
  rcases data with _ | ⟨n, _ | ⟨b, rest⟩⟩
  · simp [Opcode.pushesMinimally, shortestOpcode, Opcode.eq_mk_iff]
  · dsimp only at h
    split at h
    · cases h
    · rename_i outside
      split at h
      · cases h
      · rename_i other
        simp [Opcode.pushesMinimally, shortestOpcode, outside, other, Opcode.eq_mk_iff]
  · simp only [Opcode.pushesMinimally, shortestOpcode]
    generalize (n :: b :: rest).length = size at short ⊢
    by_cases direct : size < 76
    · rw [if_pos (Nat.le_of_lt_succ direct), if_pos direct, beq_iff_eq, Opcode.eq_mk_iff,
        ← UInt8.toNat_inj, UInt8.toNat_ofNat_of_lt' (show size < 256 by omega)]
    · rw [if_neg (by omega), if_neg direct]
      by_cases one : size < 256
      · rw [if_pos (Nat.le_of_lt_succ one), if_pos one, beq_iff_eq, Opcode.eq_mk_iff]
      · rw [if_neg (by omega), if_pos (by omega), if_neg one, if_pos (by omega), beq_iff_eq,
          Opcode.eq_mk_iff]

/-! ## One pushing instruction -/

theorem Instruction.bytes_of_shortest {i : Instruction} {data : Bytes} (some : i.data = some data)
    (shortest : i.opcode = shortestOpcode data.length) : i.bytes = (pushing data).bytes := by
  simp only [bytes, pushing, some, shortest]

theorem shortestOpcode_low (size : Nat) : (shortestOpcode size).byte ≤ 0x60 := by
  unfold shortestOpcode
  split
  · rename_i direct
    rw [UInt8.le_iff_toNat_le, UInt8.toNat_ofNat_of_lt' (show size < 256 by omega)]
    exact Nat.le_trans (Nat.le_of_lt direct) (by decide)
  · split
    · decide
    · split <;> decide

theorem decode_push {data : Bytes} (h : data.length < 2 ^ 32) :
    Script.decode (Script.push data) = [(Instruction.pushing data).placedAt 0] := by
  obtain ⟨fits, bytes⟩ := Instruction.fits_pushing h
  have alone := Script.decodeFrom_flatMap_bytes (List.forall_mem_singleton.mpr fits) 0
  rwa [List.flatMap_singleton, bytes] at alone

theorem decode_numberOpcode? {data : Bytes} {op : Opcode} (h : numberOpcode? data = some op) :
    Script.decode [op.byte] = [⟨op, none, 0, 1, false⟩] := by
  have absent := (standsForNumber_of_some h).absent
  rw [Script.decode, Script.decodeFrom_of_absent absent, Script.decodeFrom_nil]

/-- Of the pushing opcodes the machine refuses none for itself. -/
theorem Instruction.refused?_eq_none_iff {i : Instruction} (low : i.opcode.byte ≤ 0x60) :
    i.refused? = none ↔ ∀ data, i.data = some data → data.length ≤ maxItemSize := by
  have meaning : i.opcode.operation = .invalid ∨ ∃ n, i.opcode.operation = .number n := by
    rcases Opcode.operation_of_low low with invalid | ⟨data, number⟩
    · exact .inl invalid
    · exact .inr ⟨_, (standsForNumber_of_some number).operation⟩
  unfold refused?
  rcases meaning with meaning | ⟨n, meaning⟩
  all_goals
    simp only [meaning]
    cases i.data with
    | none => simp
    | some data => simp

/-- A script of one instruction that is not cut short is the bytes of that instruction. -/
theorem Script.eq_bytes_of_decode {script : Bytes} {i : Instruction} (decoded : decode script = [i])
    (whole : i.truncated = false) : script = i.bytes ∧ i.Fits := by
  have each : ∀ j ∈ decodeFrom 0 script, j.truncated = false := by
    intro j mem
    rw [show decodeFrom 0 script = [i] from decoded, List.mem_singleton] at mem
    rw [mem, whole]
  obtain ⟨tiles, fits⟩ := flatMap_bytes_decodeFrom each
  rw [show decodeFrom 0 script = [i] from decoded] at tiles fits
  exact ⟨by simpa using tiles.symm, fits i List.mem_cons_self⟩

namespace Machine

variable {env : Env} {m : Machine} {pc : Nat} {data script : Bytes}

/-- A machine that executes and has room pushes whatever an instruction that it does not refuse
hands it. -/
theorem step_eq_push_iff {i : Instruction} (executing : m.executing = true)
    (room : m.size < maxStackSize) :
    m.step env pc i = .ok (m.withStack (data :: m.stack)) ↔
      i.refused? = none ∧ m.effect env pc i = .ok (m.withStack (data :: m.stack)) := by
  have obeyed : m.obeys i = true := by simp [obeys, executing]
  have small : (m.withStack (data :: m.stack)).size ≤ maxStackSize := by
    unfold size withStack at *
    simp only [List.length_cons]
    omega
  rw [step_eq_ok]
  simp [obeyed, small]

theorem withStack_cons_inj {data' : Bytes} :
    m.withStack (data :: m.stack) = m.withStack (data' :: m.stack) ↔ data = data' := by
  simp [withStack]

theorem effect_of_data {i : Instruction} {carried : Bytes} (some : i.data = some carried) :
    m.effect env pc i = .ok (m.withStack (data :: m.stack)) ↔
      i.truncated = false ∧ i.opcode.pushesMinimally carried = true ∧ carried = data := by
  simp only [effect, some, pushData]
  cases i.truncated with
  | true => simp
  | false =>
    cases i.opcode.pushesMinimally carried with
    | false => simp
    | true => simp [withStack]

/-- A pushing opcode without data pushes the number that it stands for. -/
theorem effect_of_bare {i : Instruction} (none : i.data = none) (low : i.opcode.byte ≤ 0x60) :
    m.effect env pc i = .ok (m.withStack (data :: m.stack)) ↔
      numberOpcode? data = some i.opcode := by
  simp only [effect, none]
  constructor
  · intro pushed
    rcases Opcode.operation_of_low low with invalid | ⟨data', found⟩
    · rw [invalid] at pushed
      cases pushed
    · have stands := standsForNumber_of_some found
      rw [stands.operation, perform, ScriptNumber.encode_value stands.minimal, Except.ok.injEq,
        withStack_cons_inj] at pushed
      rwa [← pushed]
  · intro found
    have stands := standsForNumber_of_some found
    rw [stands.operation, perform, ScriptNumber.encode_value stands.minimal]

/-! ## Scripts of one pushing opcode -/

/-- A script that pushes is the one that the machine wants. -/
theorem Pushes.eq_minimalPush (executing : m.executing = true) (room : m.size < maxStackSize)
    (pushes : m.Pushes env pc script data) :
    data.length ≤ maxItemSize ∧ script = minimalPush data := by
  obtain ⟨i, decoded, low, step⟩ := pushes
  obtain ⟨allowed, effect⟩ := (step_eq_push_iff executing room).mp step
  rw [Instruction.refused?_eq_none_iff low] at allowed
  cases carried : i.data with
  | none =>
    have whole : i.truncated = false := by
      by_contra cut
      obtain ⟨_, carries, -⟩ := Script.data_of_truncated (decoded ▸ List.mem_cons_self)
        ((Bool.not_eq_false _).mp cut)
      rw [carried] at carries
      cases carries
    rw [effect_of_bare carried low] at effect
    have stands := standsForNumber_of_some effect
    obtain ⟨bytes, -⟩ := Script.eq_bytes_of_decode decoded whole
    refine ⟨by rw [stands.single]; decide, ?_⟩
    rw [bytes, minimalPush, effect, Instruction.bytes, stands.absent]
  | some data' =>
    rw [effect_of_data carried] at effect
    obtain ⟨whole, minimally, rfl⟩ := effect
    have short := allowed data' carried
    obtain ⟨bytes, fits⟩ := Script.eq_bytes_of_decode decoded whole
    refine ⟨short, ?_⟩
    unfold minimalPush
    cases number : numberOpcode? data' with
    | some op =>
      rw [pushesMinimally_of_some number] at minimally
      simp only [Instruction.Fits, minimally, (standsForNumber_of_some number).absent,
        carried] at fits
      cases fits
    | none =>
      rw [pushesMinimally_of_none number short] at minimally
      rw [bytes, Instruction.bytes_of_shortest carried minimally]
      exact (Instruction.fits_pushing (by unfold maxItemSize at short; omega)).2

/-- The script that the machine wants is one that it accepts. -/
theorem pushes_minimalPush (executing : m.executing = true) (room : m.size < maxStackSize)
    (short : data.length ≤ maxItemSize) : m.Pushes env pc (minimalPush data) data := by
  unfold minimalPush
  cases number : numberOpcode? data with
  | some op =>
    have low := (standsForNumber_of_some number).low
    refine ⟨_, decode_numberOpcode? number, low, (step_eq_push_iff executing room).mpr ⟨?_, ?_⟩⟩
    · exact (Instruction.refused?_eq_none_iff low).mpr nofun
    · exact (effect_of_bare rfl low).mpr number
  | none =>
    have decoded := decode_push (show data.length < 2 ^ 32 by unfold maxItemSize at short; omega)
    have low := shortestOpcode_low data.length
    refine ⟨_, decoded, low, (step_eq_push_iff executing room).mpr ⟨?_, ?_⟩⟩
    · refine (Instruction.refused?_eq_none_iff low).mpr fun data' same => ?_
      rwa [← Option.some.inj same]
    · exact (effect_of_data rfl).mpr ⟨rfl, (pushesMinimally_of_none number short).mpr rfl, rfl⟩

/-- What a number opcode pushes is not accepted as the data of a push. -/
theorem step_push_of_number {op : Opcode} (executing : m.executing = true)
    (number : numberOpcode? data = some op) :
    ∃ i, Script.decode (Script.push data) = [i] ∧ m.step env pc i = .error .minimalData := by
  have stands := standsForNumber_of_some number
  refine ⟨_, decode_push (by rw [stands.single]; decide), ?_⟩
  have allowed : ((Instruction.pushing data).placedAt 0).refused? = none := by
    refine (Instruction.refused?_eq_none_iff (shortestOpcode_low _)).mpr fun data' same => ?_
    rw [← Option.some.inj same, stands.single]
    decide
  have other : (shortestOpcode data.length).pushesMinimally data = false := by
    rw [Bool.eq_false_iff, ne_eq, pushesMinimally_of_some number]
    intro same
    have absent := stands.absent
    rw [← same, stands.single] at absent
    cases absent
  rw [step_of_obeys allowed (by simp [obeys, executing])]
  show (m.pushData ((Instruction.pushing data).placedAt 0) data >>= checkSize) = _
  simp only [pushData, Instruction.placedAt, Instruction.pushing, other]
  rfl

end Machine

/-! ## Scripts and texts -/

theorem assemble_display (data : Bytes) :
    assemble (ScriptNumber.display data) = .ok (Script.push data) := by
  unfold ScriptNumber.display
  cases data with
  | nil =>
    have unbroken : ∀ c ∈ ['<', '>'], Unbroken c := by
      intro c mem
      rcases List.mem_pair.mp mem with rfl | rfl
      · exact unbroken_of_toNat (by decide) (by decide)
      · exact unbroken_of_toNat (by decide) (by decide)
    exact assemble_word nofun unbroken ⟨_, classify_marker, fun _ _ => rfl⟩
  | cons b rest =>
    have unbroken : ∀ c ∈ Hex.toDigits (b :: rest), Unbroken c := fun c => unbroken_of_mem_toDigits
    exact assemble_word nofun unbroken ⟨_, classify_toDigits nofun, fun _ _ => rfl⟩

theorem assemble_name (op : Opcode) : assemble op.name = .ok [op.byte] := by
  have unbroken : ∀ c ∈ op.name.toList, Unbroken c := fun c h =>
    unbroken_of_isPlain (Opcode.isPlain_of_mem_name h)
  have assembled := assemble_word op.name_ne_nil unbroken ⟨_, classify_name op, fun _ _ => rfl⟩
  rwa [String.ofList_toList] at assembled

open Machine

/-- **Data has one script that pushes it.** Of the scripts of one pushing opcode, a machine that
executes and has room for an item accepts exactly one for data of at most 520 bytes, and none for
longer data. It is what the assembler makes of the data as it is shown, except for the data that a
number opcode pushes: there it is that opcode, and a push of the data fails for not being
minimal. -/
theorem existsUnique_pushes {env : Env} {m : Machine} {pc : Nat} (executing : m.executing = true)
    (room : m.size < maxStackSize) (data : Bytes) :
    (data.length ≤ maxItemSize → ∃! script, m.Pushes env pc script data)
    ∧ (maxItemSize < data.length → ∀ script, ¬ m.Pushes env pc script data)
    ∧ assemble (ScriptNumber.display data) = .ok (Script.push data)
    ∧ (data.length ≤ maxItemSize → numberOpcode? data = none →
        m.Pushes env pc (Script.push data) data)
    ∧ ∀ op, numberOpcode? data = some op →
        m.Pushes env pc [op.byte] data ∧ assemble op.name = .ok [op.byte]
          ∧ ∃ i, Script.decode (Script.push data) = [i]
            ∧ m.step env pc i = .error .minimalData := by
  have wanted (short : data.length ≤ maxItemSize) : m.Pushes env pc (minimalPush data) data :=
    pushes_minimalPush executing room short
  refine ⟨?_, ?_, assemble_display data, ?_, ?_⟩
  · intro short
    exact ⟨_, wanted short, fun _ pushes => (pushes.eq_minimalPush executing room).2⟩
  · intro long script pushes
    have short := (pushes.eq_minimalPush executing room).1
    omega
  · intro short number
    simpa only [minimalPush, number] using wanted short
  · intro op number
    have short : data.length ≤ maxItemSize := by
      rw [(standsForNumber_of_some number).single]
      decide
    refine ⟨?_, assemble_name op, step_push_of_number executing number⟩
    simpa only [minimalPush, number] using wanted short

/-- The opcode of 16 is the only script that pushes it. -/
theorem existsUnique_pushes_sixteen :
    (Machine.start [] 0).executing = true ∧ (Machine.start [] 0).size < maxStackSize ∧
      (∃! script, (Machine.start [] 0).Pushes
        ⟨2, 0, 0, fun budget _ _ _ => .ok (true, budget)⟩ 0 script [16])
      ∧ (Machine.start [] 0).Pushes
        ⟨2, 0, 0, fun budget _ _ _ => .ok (true, budget)⟩ 0 [0x60] [16] := by
  have executing : (Machine.start [] 0).executing = true := rfl
  have room : (Machine.start [] 0).size < maxStackSize := by decide
  obtain ⟨unique, -, -, -, number⟩ := existsUnique_pushes executing room [16]
  exact ⟨executing, room, unique (by decide), (number ⟨0x60⟩ rfl).1⟩

end TaprootLab

import TaprootLab.Proofs.Script.Encoding

/-!
# Every byte of a script belongs to one instruction

An instruction is an opcode, the length field that the opcode calls for, and as much data as is
announced. That is said here without the decoder (`Instruction.Spells`, `EndsEarly`). The decoder
cuts any bytes whatsoever into such instructions: none is empty, each starts where the one before it
ends, and only at the end of the bytes is there one that is cut short, if it announces more than is
left (`Tiles`). So the instructions tell what the script was, and appending to a script appends to
its instructions (`decode_tiles`).
-/

namespace TaprootLab

/-! ## Instructions as bytes -/

/-- An opcode, followed by a length field, announces data of some size: one below 76 its own number,
one with a length field the number in it. -/
inductive Announces : (opcode : UInt8) → (field : Bytes) → (size : Nat) → Prop
  | direct {b : UInt8} (small : b.toNat < 76) : Announces b [] b.toNat
  | counted {b : UInt8} {width : Nat} {field : Bytes} (mem : (b, width) ∈ lengthFields)
      (whole : field.length = width) : Announces b field (Bytes.toNatLE field)

/-- The instruction is written as these bytes. -/
inductive Instruction.Spells (i : Instruction) : Bytes → Prop
  | bare (none : i.data = none) (alone : 78 < i.opcode.byte.toNat) : i.Spells [i.opcode.byte]
  | push {field data : Bytes} (some : i.data = some data)
      (announced : Announces i.opcode.byte field data.length) :
      i.Spells (i.opcode.byte :: (field ++ data))

/-- The bytes that start with an opcode end before its length field does, or before there is as much
data as is announced; `left` is what there is of the data. -/
inductive EndsEarly : (bytes left : Bytes) → Prop
  | inField {b : UInt8} {width : Nat} {rest : Bytes} (mem : (b, width) ∈ lengthFields)
      (short : rest.length < width) : EndsEarly (b :: rest) []
  | inData {b : UInt8} {field left : Bytes} {size : Nat} (announced : Announces b field size)
      (short : left.length < size) : EndsEarly (b :: (field ++ left)) left

theorem Opcode.operand_checked : ∀ n : Fin 256, Opcode.operand ⟨UInt8.ofNat n⟩ =
    if n.val < 76 then .fixed n
    else if n.val = 76 then .counted 1
    else if n.val = 77 then .counted 2
    else if n.val = 78 then .counted 4
    else .absent := by decide +kernel

theorem Opcode.operand_eq (b : UInt8) : Opcode.operand ⟨b⟩ =
    if b.toNat < 76 then .fixed b.toNat
    else if b.toNat = 76 then .counted 1
    else if b.toNat = 77 then .counted 2
    else if b.toNat = 78 then .counted 4
    else .absent := by
  simpa using operand_checked ⟨b.toNat, b.toNat_lt⟩

theorem Opcode.operand_of_mem {b : UInt8} {width : Nat} (mem : (b, width) ∈ lengthFields) :
    Opcode.operand ⟨b⟩ = .counted width := by
  have counted : ∀ f ∈ lengthFields, Opcode.operand ⟨f.1⟩ = .counted f.2 := by decide
  exact counted _ mem

namespace Script

/-! ## The first instruction -/

theorem decodeFirst_bare {b : UInt8} (alone : 78 < b.toNat) (offset : Nat) (rest : Bytes) :
    decodeFirst offset ⟨b⟩ rest = ⟨⟨b⟩, none, offset, 1, false⟩ := by
  have operand : Opcode.operand ⟨b⟩ = .absent := by
    rw [Opcode.operand_eq, if_neg (by omega), if_neg (by omega), if_neg (by omega),
      if_neg (by omega)]
  rw [decodeFirst, operand]

theorem decodeFirst_inField {b : UInt8} {width : Nat} {rest : Bytes}
    (mem : (b, width) ∈ lengthFields) (short : rest.length < width) (offset : Nat) :
    decodeFirst offset ⟨b⟩ rest = ⟨⟨b⟩, some [], offset, 1 + rest.length, true⟩ := by
  have field : rest.take width = rest := List.take_of_length_le (by omega)
  simp only [decodeFirst, Opcode.operand_of_mem mem, field, short, if_true]

theorem decodeFirst_announced {b : UInt8} {field : Bytes} {size : Nat}
    (announced : Announces b field size) (offset : Nat) (body : Bytes) :
    decodeFirst offset ⟨b⟩ (field ++ body) = withData ⟨b⟩ offset field.length size body := by
  cases announced with
  | direct small =>
    have operand : Opcode.operand ⟨b⟩ = .fixed b.toNat := by rw [Opcode.operand_eq, if_pos small]
    rw [decodeFirst, operand]
    rfl
  | counted mem whole =>
    obtain rfl := whole
    simp only [decodeFirst, Opcode.operand_of_mem mem, List.take_left, List.drop_left,
      Nat.lt_irrefl, if_false]

/-- All that bytes can start with: an opcode without data, a length field that is cut short, or a
whole one. -/
theorem opcode_cases (b : UInt8) (rest : Bytes) :
    78 < b.toNat ∨ (∃ width, (b, width) ∈ lengthFields ∧ rest.length < width)
      ∨ ∃ field size body, rest = field ++ body ∧ Announces b field size := by
  have counted (width : Nat) (mem : (b, width) ∈ lengthFields) :
      (∃ width, (b, width) ∈ lengthFields ∧ rest.length < width)
        ∨ ∃ field size body, rest = field ++ body ∧ Announces b field size := by
    by_cases short : rest.length < width
    · exact .inl ⟨width, mem, short⟩
    · have whole : (rest.take width).length = width := List.length_take_of_le (by omega)
      exact .inr ⟨_, _, rest.drop width, (List.take_append_drop width rest).symm,
        .counted mem whole⟩
  by_cases alone : 78 < b.toNat
  · exact .inl alone
  right
  rcases Opcode.operand_cases ⟨b⟩ with absent | ⟨small, -⟩ | ⟨width, mem, -⟩
  · rw [Opcode.operand_eq] at absent
    split_ifs at absent
    omega
  · exact .inr ⟨[], _, rest, rfl, .direct small⟩
  · exact counted width mem

/-- An instruction that is not cut short is written as the bytes that it takes up. -/
theorem spells_decodeFirst {offset : Nat} {b : UInt8} {rest : Bytes}
    (whole : (decodeFirst offset ⟨b⟩ rest).truncated = false) :
    (decodeFirst offset ⟨b⟩ rest).Spells
      ((b :: rest).take (decodeFirst offset ⟨b⟩ rest).length) := by
  rcases opcode_cases b rest with alone | ⟨width, mem, short⟩ | ⟨field, size, body, rfl, announced⟩
  · rw [decodeFirst_bare alone]
    exact .bare rfl alone
  · rw [decodeFirst_inField mem short] at whole
    cases whole
  · rw [decodeFirst_announced announced] at whole ⊢
    obtain ⟨-, length, enough⟩ := withData_append [] whole
    have data : (body.take size).length = size := List.length_take_of_le enough
    have taken : (b :: (field ++ body)).take (1 + field.length + size) =
        b :: (field ++ body.take size) := by
      rw [show 1 + field.length + size = field.length + size + 1 by omega, List.take_succ_cons,
        List.take_length_add_append]
    rw [length, taken]
    exact .push rfl (data.symm ▸ announced)

theorem truncated_decodeFirst_iff (offset : Nat) {b : UInt8} {rest : Bytes} :
    (decodeFirst offset ⟨b⟩ rest).truncated = true ↔ ∃ left, EndsEarly (b :: rest) left := by
  constructor
  · intro cut
    rcases opcode_cases b rest with
      alone | ⟨width, mem, short⟩ | ⟨field, size, body, rfl, announced⟩
    · rw [decodeFirst_bare alone] at cut
      cases cut
    · exact ⟨[], .inField mem short⟩
    · rw [decodeFirst_announced announced] at cut
      have short : (body.take size).length < size := of_decide_eq_true cut
      rw [List.length_take] at short
      exact ⟨body, .inData announced (by omega)⟩
  · rintro ⟨left, ends⟩
    cases ends with
    | inField mem short => rw [decodeFirst_inField mem short]
    | inData announced short =>
      rw [decodeFirst_announced announced]
      exact decide_eq_true (by rw [List.length_take]; omega)

theorem data_of_endsEarly {offset : Nat} {b : UInt8} {rest left : Bytes}
    (ends : EndsEarly (b :: rest) left) :
    (decodeFirst offset ⟨b⟩ rest).data = some left := by
  cases ends with
  | inField mem short => rw [decodeFirst_inField mem short]
  | inData announced short =>
    rw [decodeFirst_announced announced]
    exact congrArg some (List.take_of_length_le (Nat.le_of_lt short))

/-- An instruction takes up no more bytes than there are. -/
theorem decodeFirst_length_le (offset : Nat) (b : UInt8) (rest : Bytes) :
    (decodeFirst offset ⟨b⟩ rest).length ≤ rest.length + 1 := by
  rcases opcode_cases b rest with alone | ⟨width, mem, short⟩ | ⟨field, size, body, rfl, announced⟩
  · rw [decodeFirst_bare alone]
    exact Nat.le_add_left 1 _
  · rw [decodeFirst_inField mem short, Nat.add_comm]
  · rw [decodeFirst_announced announced]
    show 1 + field.length + (body.take size).length ≤ _
    rw [List.length_take, List.length_append]
    omega

end Script

/-! ## Instructions in a row -/

namespace Instruction

/-- The same instruction `n` bytes further on. -/
def shift (n : Nat) (i : Instruction) : Instruction := { i with offset := n + i.offset }

/-- The bytes of a script that the instruction takes up. -/
def rangeIn (i : Instruction) (script : Bytes) : Bytes := (script.drop i.offset).take i.length

end Instruction

/-- Instructions stand in a row from one place to another, and none of them is empty. -/
inductive Contiguous : (start stop : Nat) → List Instruction → Prop
  | nil {start : Nat} : Contiguous start start []
  | cons {i : Instruction} {is : List Instruction} {stop : Nat} (filled : 0 < i.length)
      (rest : Contiguous (i.offset + i.length) stop is) : Contiguous i.offset stop (i :: is)

/-- Instructions take up all of a script, and each of them is what is written at its place. -/
structure Tiles (script : Bytes) (is : List Instruction) : Prop where
  contiguous : Contiguous 0 script.length is
  opcode : ∀ i ∈ is, script[i.offset]? = some i.opcode.byte
  whole : ∀ i ∈ is, i.truncated = false → i.Spells (i.rangeIn script)
  cut : ∀ i ∈ is, i.truncated = true ↔ ∃ left, EndsEarly (script.drop i.offset) left
  left : ∀ i ∈ is, ∀ left, EndsEarly (script.drop i.offset) left → i.data = some left
  last : ∀ i ∈ is.dropLast, i.truncated = false

namespace Script

theorem decodeFirst_shift (n offset : Nat) (b : UInt8) (rest : Bytes) :
    decodeFirst (n + offset) ⟨b⟩ rest = (decodeFirst offset ⟨b⟩ rest).shift n
      ∧ (decodeFirst offset ⟨b⟩ rest).offset = offset := by
  rcases opcode_cases b rest with alone | ⟨width, mem, short⟩ | ⟨field, size, body, rfl, announced⟩
  · rw [decodeFirst_bare alone, decodeFirst_bare alone]
    exact ⟨rfl, rfl⟩
  · rw [decodeFirst_inField mem short, decodeFirst_inField mem short]
    exact ⟨rfl, rfl⟩
  · rw [decodeFirst_announced announced, decodeFirst_announced announced]
    exact ⟨rfl, rfl⟩

/-- What is left behind the first instruction starts where it ends. -/
theorem length_behind (offset : Nat) (b : UInt8) (rest : Bytes) :
    (decodeFirst offset ⟨b⟩ rest).length +
      (rest.drop ((decodeFirst offset ⟨b⟩ rest).length - 1)).length
      = (b :: rest).length := by
  have filled := decodeFirst_length_pos offset ⟨b⟩ rest
  have within := decodeFirst_length_le offset b rest
  rw [List.length_drop, List.length_cons]
  omega

theorem contiguous_decodeFrom (offset : Nat) (script : Bytes) :
    Contiguous offset (offset + script.length) (decodeFrom offset script) := by
  induction offset, script using decodeFrom.induct with
  | case1 offset =>
    rw [decodeFrom_nil]
    exact .nil
  | case2 offset b rest first shorter ih =>
    have starts : first.offset = offset := (decodeFirst_shift 0 offset b rest).2
    have behind : first.length + (rest.drop (first.length - 1)).length = (b :: rest).length :=
      length_behind offset b rest
    rw [Nat.add_assoc, behind] at ih
    rw [decodeFrom_cons]
    have row : Contiguous first.offset (offset + (b :: rest).length)
        (first :: decodeFrom (offset + first.length) (rest.drop (first.length - 1))) := by
      refine .cons (decodeFirst_length_pos offset ⟨b⟩ rest) ?_
      rwa [starts]
    rwa [starts] at row

/-- An instruction is the first one of the bytes at its place. -/
theorem exists_of_mem_decodeFrom {offset : Nat} {script : Bytes} {i : Instruction}
    (h : i ∈ decodeFrom offset script) :
    ∃ before rest, script = before ++ i.opcode.byte :: rest ∧ i.offset = offset + before.length
      ∧ i = decodeFirst i.offset i.opcode rest := by
  induction offset, script using decodeFrom.induct with
  | case1 offset =>
    rw [decodeFrom_nil] at h
    cases h
  | case2 offset b rest first shorter ih =>
    rw [decodeFrom_cons, List.mem_cons] at h
    rcases h with rfl | h
    · rw [opcode_decodeFirst, (decodeFirst_shift 0 offset b rest).2]
      exact ⟨[], rest, rfl, rfl, rfl⟩
    · obtain ⟨before, more, whole, place, same⟩ := ih h
      have behind : first.length + (rest.drop (first.length - 1)).length = (b :: rest).length :=
        length_behind offset b rest
      have filled : 0 < first.length := decodeFirst_length_pos offset ⟨b⟩ rest
      refine ⟨b :: rest.take (first.length - 1) ++ before, more, ?_, ?_, same⟩
      · rw [List.append_assoc, ← whole, List.cons_append, List.take_append_drop]
      · rw [List.length_drop, List.length_cons] at behind
        rw [place, List.length_append, List.length_cons, List.length_take]
        omega

theorem tiles_decode (script : Bytes) : Tiles script (decode script) := by
  -- each instruction is the first one of what is left of the script at its place
  have first : ∀ i ∈ decode script, ∃ rest, script.drop i.offset = i.opcode.byte :: rest
      ∧ i = decodeFirst i.offset i.opcode rest := by
    intro i mem
    obtain ⟨before, rest, whole, place, same⟩ := exists_of_mem_decodeFrom mem
    rw [Nat.zero_add] at place
    refine ⟨rest, ?_, same⟩
    rw [whole, place, List.drop_left]
  refine ⟨?_, ?_, ?_, ?_, ?_, fun i => truncated_of_mem_dropLast⟩
  · have row := contiguous_decodeFrom 0 script
    rwa [Nat.zero_add] at row
  · intro i mem
    obtain ⟨rest, here, -⟩ := first i mem
    rw [← List.head?_drop, here]
    rfl
  · intro i mem whole
    obtain ⟨rest, here, same⟩ := first i mem
    rw [same] at whole
    have spells := spells_decodeFirst whole
    rw [← same] at spells
    rw [Instruction.rangeIn, here]
    exact spells
  · intro i mem
    obtain ⟨rest, here, same⟩ := first i mem
    rw [here, ← truncated_decodeFirst_iff i.offset, ← same]
  · intro i mem left ends
    obtain ⟨rest, here, same⟩ := first i mem
    rw [here] at ends
    rw [same]
    exact data_of_endsEarly ends

/-! ## What the instructions tell -/

/-- Whatever is read off the opcode and the data of alike instructions is the same. -/
theorem map_eq_of_alike {β : Type} {f : Instruction → β} {is js : List Instruction}
    (same : ∀ i j : Instruction, i.Alike j → f i = f j)
    (alike : List.Forall₂ Instruction.Alike is js) :
    is.map f = js.map f := by
  rw [← List.forall₂_eq_eq_eq, List.forall₂_map_left_iff, List.forall₂_map_right_iff]
  exact alike.imp same

/-- A script without a cut instruction is told by its opcodes and its data alone. -/
theorem eq_of_forall₂_alike {script other : Bytes}
    (whole : ∀ i ∈ decode script, i.truncated = false)
    (alike : List.Forall₂ Instruction.Alike (decode other) (decode script)) : other = script := by
  have cuts : (decode other).map Instruction.truncated =
      (decode script).map Instruction.truncated :=
    map_eq_of_alike (fun _ _ h => h.truncated) alike
  have bytes : (decode other).map Instruction.bytes = (decode script).map Instruction.bytes :=
    map_eq_of_alike (fun i j h => by
      rw [Instruction.bytes, Instruction.bytes, h.opcode, h.data]) alike
  have whole' : ∀ i ∈ decode other, i.truncated = false := by
    rw [← List.forall_mem_map (P := (· = false)), cuts]
    exact List.forall_mem_map.mpr whole
  calc other = (decode other).flatMap Instruction.bytes := (flatMap_bytes_decodeFrom whole').1.symm
    _ = (decode script).flatMap Instruction.bytes := by
      rw [List.flatMap_def, bytes, ← List.flatMap_def]
    _ = script := (flatMap_bytes_decodeFrom whole).1

theorem decodeFrom_shift (n offset : Nat) (script : Bytes) :
    decodeFrom (n + offset) script = (decodeFrom offset script).map (Instruction.shift n) := by
  induction offset, script using decodeFrom.induct with
  | case1 offset => rw [decodeFrom_nil, decodeFrom_nil, List.map_nil]
  | case2 offset b rest first shorter ih =>
    have same := (decodeFirst_shift n offset b rest).1
    have length : (first.shift n).length = first.length := rfl
    rw [decodeFrom_cons, decodeFrom_cons, same, List.map_cons, ← ih, ← Nat.add_assoc]
    rfl

/-- **Decoding tiles a script.** The instructions of any bytes take up all of them. If none is cut
short, no other script has the same opcodes and data, and bytes that are appended bring their own
instructions, further on by the length of the script. -/
theorem decode_tiles (script : Bytes) :
    Tiles script (decode script) ∧ ((∀ i ∈ decode script, i.truncated = false) →
      (∀ other, List.Forall₂ Instruction.Alike (decode other) (decode script) → other = script)
        ∧ ∀ more, decode (script ++ more)
          = decode script ++ (decode more).map (Instruction.shift script.length)) := by
  refine ⟨tiles_decode script,
    fun whole => ⟨fun other => eq_of_forall₂_alike whole, fun more => ?_⟩⟩
  have appended : decodeFrom 0 (script ++ more) =
      decodeFrom 0 script ++ decodeFrom (0 + script.length) more :=
    decodeFrom_append more whole
  rw [decode, appended, Nat.zero_add]
  exact congrArg _ (decodeFrom_shift script.length 0 more)

/-- A push whose size is announced in two bytes, and an opcode without data. -/
def countedPush : Bytes := [0x4d, 1, 0, 0xaa, 0x75]

theorem decode_countedPush :
    decode countedPush = [⟨⟨0x4d⟩, some [0xaa], 0, 4, false⟩, ⟨⟨0x75⟩, none, 4, 1, false⟩] := by
  cbv

/-- Bytes behind it that end before the five that they announce. -/
theorem decode_tiles_countedPush :
    (∀ i ∈ decode countedPush, i.truncated = false)
      ∧ decode (countedPush ++ [0x4c, 5, 1]) =
        decode countedPush ++ [⟨⟨0x4c⟩, some [1], 5, 3, true⟩] := by
  have whole : ∀ i ∈ decode countedPush, i.truncated = false := by
    rw [decode_countedPush]
    decide
  have more : decode [0x4c, 5, 1] = [⟨⟨0x4c⟩, some [1], 0, 3, true⟩] := by cbv
  refine ⟨whole, ?_⟩
  rw [((decode_tiles countedPush).2 whole).2, more]
  rfl

end Script

end TaprootLab

import TaprootLab.Script.Instruction

/-!
# Decoding part by part

Decoding needs no more of a script than the instruction that it is at, so a script of whole
instructions is decoded the same whatever follows it (`decodeFrom_append`), and what follows is
decoded the same up to where it stands (`decodeFrom_alike`).
-/

namespace TaprootLab

/-- Two instructions that differ at most in where they stand. -/
structure Instruction.Alike (i j : Instruction) : Prop where
  opcode : i.opcode = j.opcode
  data : i.data = j.data
  truncated : i.truncated = j.truncated

namespace Script

theorem decodeFrom_cons (offset : Nat) (b : UInt8) (rest : Bytes) :
    decodeFrom offset (b :: rest) =
      decodeFirst offset ⟨b⟩ rest ::
        decodeFrom (offset + (decodeFirst offset ⟨b⟩ rest).length)
          (rest.drop ((decodeFirst offset ⟨b⟩ rest).length - 1)) := by
  rw [decodeFrom]

theorem decodeFrom_nil (offset : Nat) : decodeFrom offset [] = [] := by
  rw [decodeFrom]

/-- An opcode without data is an instruction of its own. -/
theorem decodeFrom_of_absent {b : UInt8} (h : Opcode.operand ⟨b⟩ = .absent) (offset : Nat)
    (rest : Bytes) :
    decodeFrom offset (b :: rest) =
      ⟨⟨b⟩, none, offset, 1, false⟩ :: decodeFrom (offset + 1) rest := by
  have first : decodeFirst offset ⟨b⟩ rest = ⟨⟨b⟩, none, offset, 1, false⟩ := by
    simp only [decodeFirst, h]
  rw [decodeFrom_cons, first]
  rfl

theorem opcode_decodeFirst (offset : Nat) (opcode : Opcode) (rest : Bytes) :
    (decodeFirst offset opcode rest).opcode = opcode := by
  rw [decodeFirst]
  split
  · rfl
  · rfl
  · dsimp only
    split <;> rfl

/-- Nothing belongs to an opcode without data but its own byte. -/
theorem eq_of_mem_decodeFrom_of_absent {offset : Nat} {script : Bytes} {i : Instruction}
    (h : i ∈ decodeFrom offset script) (absent : i.opcode.operand = .absent) :
    i = ⟨i.opcode, none, i.offset, 1, false⟩ := by
  induction offset, script using decodeFrom.induct with
  | case1 offset =>
    rw [decodeFrom_nil] at h
    cases h
  | case2 offset b rest first shorter ih =>
    rw [decodeFrom_cons, List.mem_cons] at h
    rcases h with rfl | h
    · rw [opcode_decodeFirst] at absent
      simp only [decodeFirst, absent]
    · exact ih h

theorem withData_append {opcode : Opcode} {offset header size : Nat} {body : Bytes} (more : Bytes)
    (whole : (withData opcode offset header size body).truncated = false) :
    withData opcode offset header size (body ++ more) = withData opcode offset header size body
      ∧ (withData opcode offset header size body).length = 1 + header + size
      ∧ size ≤ body.length := by
  have enough : size ≤ body.length := by
    have : ¬ (body.take size).length < size := of_decide_eq_false whole
    rw [List.length_take] at this
    omega
  refine ⟨?_, ?_, enough⟩
  · rw [withData, List.take_append_of_le_length enough]
    rfl
  · show 1 + header + (body.take size).length = _
    rw [List.length_take_of_le enough]

/-- An instruction that is not cut short is decoded the same whatever follows it. -/
theorem decodeFirst_append {offset : Nat} {opcode : Opcode} {rest : Bytes} (more : Bytes)
    (whole : (decodeFirst offset opcode rest).truncated = false) :
    decodeFirst offset opcode (rest ++ more) = decodeFirst offset opcode rest
      ∧ (decodeFirst offset opcode rest).length ≤ rest.length + 1 := by
  revert whole
  simp only [decodeFirst]
  cases opcode.operand with
  | absent => exact fun _ => ⟨rfl, by simp⟩
  | fixed size =>
    intro whole
    obtain ⟨same, length, enough⟩ := withData_append more whole
    exact ⟨same, by simp only [length]; omega⟩
  | counted width =>
    by_cases short : (rest.take width).length < width
    · simp only [short, if_true]
      exact nofun
    · have field : width ≤ rest.length := by
        rw [List.length_take] at short
        omega
      simp only [List.take_append_of_le_length field, List.drop_append_of_le_length field, short,
        if_false]
      intro whole
      obtain ⟨same, length, enough⟩ := withData_append more whole
      rw [List.length_drop] at enough
      exact ⟨same, by simp only [length]; omega⟩

/-- An instruction that is cut short has data, and nothing follows it. -/
theorem drop_of_truncated {offset : Nat} {opcode : Opcode} {rest : Bytes}
    (cut : (decodeFirst offset opcode rest).truncated = true) :
    (decodeFirst offset opcode rest).data ≠ none
      ∧ rest.drop ((decodeFirst offset opcode rest).length - 1) = [] := by
  have exhausted {header size : Nat} {body : Bytes}
      (cut : (withData opcode offset header size body).truncated = true) :
      (withData opcode offset header size body).length = 1 + header + body.length := by
    have short : (body.take size).length < size := of_decide_eq_true cut
    rw [List.length_take] at short
    rw [withData, List.take_of_length_le (by omega)]
  rw [List.drop_eq_nil_iff]
  revert cut
  simp only [decodeFirst]
  cases opcode.operand with
  | absent =>
    intro cut
    cases cut
  | fixed size =>
    intro cut
    exact ⟨Option.some_ne_none _, by rw [exhausted cut]; omega⟩
  | counted width =>
    by_cases short : (rest.take width).length < width
    · simp only [short, if_true]
      intro _
      rw [List.length_take] at short ⊢
      exact ⟨Option.some_ne_none _, by omega⟩
    · simp only [short, if_false]
      intro cut
      rw [List.length_take] at short
      exact ⟨Option.some_ne_none _, by rw [exhausted cut, List.length_drop]; omega⟩

/-- A script of whole instructions is decoded the same whatever follows it. -/
theorem decodeFrom_append {offset : Nat} {front : Bytes} (back : Bytes)
    (whole : ∀ i ∈ decodeFrom offset front, i.truncated = false) :
    decodeFrom offset (front ++ back) =
      decodeFrom offset front ++ decodeFrom (offset + front.length) back := by
  induction offset, front using decodeFrom.induct with
  | case1 offset => rw [decodeFrom_nil]; rfl
  | case2 offset b rest first shorter ih =>
    rw [decodeFrom_cons, List.forall_mem_cons] at whole
    obtain ⟨same, length⟩ := decodeFirst_append back whole.1
    -- what the first instruction leaves of the front is where the next one starts
    have next : offset + first.length + (rest.drop (first.length - 1)).length =
        offset + (b :: rest).length := by
      have pos : 0 < first.length := decodeFirst_length_pos offset ⟨b⟩ rest
      have length : first.length ≤ rest.length + 1 := length
      rw [List.length_drop, List.length_cons]
      omega
    rw [List.cons_append, decodeFrom_cons, decodeFrom_cons, same, List.cons_append, ← next,
      ← ih whole.2, List.drop_append_of_le_length (by omega)]

theorem decodeFirst_alike (offset offset' : Nat) (opcode : Opcode) (rest : Bytes) :
    (decodeFirst offset opcode rest).Alike (decodeFirst offset' opcode rest)
      ∧ (decodeFirst offset opcode rest).length = (decodeFirst offset' opcode rest).length := by
  simp only [decodeFirst]
  cases opcode.operand with
  | absent => exact ⟨⟨rfl, rfl, rfl⟩, rfl⟩
  | fixed size => exact ⟨⟨rfl, rfl, rfl⟩, rfl⟩
  | counted width =>
    by_cases short : (rest.take width).length < width
    · simp only [short, if_true]
      exact ⟨⟨rfl, rfl, rfl⟩, trivial⟩
    · simp only [short, if_false]
      exact ⟨⟨rfl, rfl, rfl⟩, rfl⟩

/-- Where a script stands matters to nothing but the positions of its instructions. -/
theorem decodeFrom_alike (offset offset' : Nat) (script : Bytes) :
    (decodeFrom offset script).length = (decodeFrom offset' script).length ∧
      ∀ (k : Nat) (i j : Instruction), (decodeFrom offset script)[k]? = some i →
        (decodeFrom offset' script)[k]? = some j → i.Alike j := by
  induction offset, script using decodeFrom.induct generalizing offset' with
  | case1 offset => simp [decodeFrom_nil]
  | case2 offset b rest first shorter ih =>
    obtain ⟨alike, length⟩ := decodeFirst_alike offset offset' ⟨b⟩ rest
    obtain ⟨lengths, others⟩ := ih (offset' + first.length)
    rw [decodeFrom_cons, decodeFrom_cons, ← length]
    refine ⟨congrArg (· + 1) lengths, fun k i j hi hj => ?_⟩
    cases k with
    | zero =>
      obtain rfl := Option.some.inj hi
      obtain rfl := Option.some.inj hj
      exact alike
    | succ k => exact others k i j hi hj

end Script

end TaprootLab

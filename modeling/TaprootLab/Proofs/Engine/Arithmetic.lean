import TaprootLab.Proofs.Engine.Exchanges

/-!
# Opcodes that calculate

Twenty opcodes take one, two or three numbers from the top of the stack and leave the shortest item
of what is calculated from them (`Computes`). They read from the top down, so the first item that is
no operand is the one that is reported, even where there are too few items (`NumberFault`). There is
no other way for them to fail, apart from the number of items behind them
(`Machine.counted_step_arithmetic`).

In the tables the top of the stack stands last, as scripts are read.
-/

namespace TaprootLab

/-! ## The rule -/

/-- What an opcode calculates. The one that verifies leaves nothing. -/
inductive Computes : (opcode : UInt8) → (operands results : List Int) → Prop
  | increment (a : Int) : Computes 0x8b [a] [a + 1]
  | decrement (a : Int) : Computes 0x8c [a] [a - 1]
  | negate (a : Int) : Computes 0x8f [a] [-a]
  | abs (a : Int) : Computes 0x90 [a] [|a|]
  | not (a : Int) : Computes 0x91 [a] [if a = 0 then 1 else 0]
  | notZero (a : Int) : Computes 0x92 [a] [if a ≠ 0 then 1 else 0]
  | add (a b : Int) : Computes 0x93 [a, b] [a + b]
  | sub (a b : Int) : Computes 0x94 [a, b] [a - b]
  | boolAnd (a b : Int) : Computes 0x9a [a, b] [if a ≠ 0 ∧ b ≠ 0 then 1 else 0]
  | boolOr (a b : Int) : Computes 0x9b [a, b] [if a ≠ 0 ∨ b ≠ 0 then 1 else 0]
  | numEqual (a b : Int) : Computes 0x9c [a, b] [if a = b then 1 else 0]
  | numEqualVerify (a : Int) : Computes 0x9d [a, a] []
  | numNotEqual (a b : Int) : Computes 0x9e [a, b] [if a ≠ b then 1 else 0]
  | less (a b : Int) : Computes 0x9f [a, b] [if a < b then 1 else 0]
  | greater (a b : Int) : Computes 0xa0 [a, b] [if a > b then 1 else 0]
  | lessOrEqual (a b : Int) : Computes 0xa1 [a, b] [if a ≤ b then 1 else 0]
  | greaterOrEqual (a b : Int) : Computes 0xa2 [a, b] [if a ≥ b then 1 else 0]
  | min (a b : Int) : Computes 0xa3 [a, b] [Min.min a b]
  | max (a b : Int) : Computes 0xa4 [a, b] [Max.max a b]
  | within (x low high : Int) : Computes 0xa5 [x, low, high] [if low ≤ x ∧ x < high then 1 else 0]

def arithmeticOpcodes : List UInt8 :=
  [0x8b, 0x8c, 0x8f, 0x90, 0x91, 0x92, 0x93, 0x94, 0x9a, 0x9b, 0x9c, 0x9d, 0x9e, 0x9f, 0xa0, 0xa1,
    0xa2, 0xa3, 0xa4, 0xa5]

def operandCount : (opcode : UInt8) → Nat
  | 0x8b | 0x8c | 0x8f | 0x90 | 0x91 | 0x92 => 1
  | 0xa5 => 3
  | _ => 2

/-- What is at fault with the topmost items, where numbers are taken from them. -/
inductive OperandsFault (stack : List Bytes) (count : Nat) : ScriptError → Prop
  | offending {base above : List Bytes} {item : Bytes} {e : ScriptError}
      (split : stack = (base ++ item :: above).reverse) (close : above.length < count)
      (good : ∀ x ∈ above, ∃ n, Operand x n) (fault : OperandFault item e) :
      OperandsFault stack count e
  | tooFew (few : stack.length < count) (good : ∀ x ∈ stack, ∃ n, Operand x n) :
      OperandsFault stack count .invalidStackOperation

/-- Why an opcode calculates nothing. -/
inductive NumberFault (stack : List Bytes) (opcode : UInt8) : ScriptError → Prop
  | operands {e : ScriptError} (fault : OperandsFault stack (operandCount opcode) e) :
      NumberFault stack opcode e
  | mismatch {base : List Bytes} {x₁ x₂ : Bytes} {a b : Int} (verifies : opcode = 0x9d)
      (split : stack = (base ++ [x₁, x₂]).reverse) (first : Operand x₁ a) (second : Operand x₂ b)
      (differ : a ≠ b) :
      NumberFault stack opcode .numEqualVerify

/-- One calculation of an opcode, at the top of the main stack. -/
def Calculated (opcode : UInt8) (m m' : Machine) : Prop :=
  ∃ base items operands results written, List.Forall₂ Operand items operands ∧
    Computes opcode operands results ∧
    List.Forall₂ Encodes written results ∧ m.stack = (base ++ items).reverse ∧
    m' = { m with stack := (base ++ written).reverse }

/-! ## Taking numbers -/

/-- So many numbers from the top, the top one last, and the items below. -/
def takeNumbers : (count : Nat) → (stack : List Bytes) → Except ScriptError (List Int × List Bytes)
  | 0, stack => .ok ([], stack)
  | count + 1, stack => do
    let (n, rest) ← popNumber stack
    let (ns, rest) ← takeNumbers count rest
    return (ns ++ [n], rest)

section
variable {stack : List Bytes} {count : Nat}

theorem takeNumbers_one : takeNumbers 1 stack = (popNumber stack).map fun r => ([r.1], r.2) := by
  rw [takeNumbers]
  cases popNumber stack <;> rfl

theorem takeNumbers_two :
    takeNumbers 2 stack = (popTwoNumbers stack).map fun r => ([r.1, r.2.1], r.2.2) := by
  rw [takeNumbers, popTwoNumbers, Except.map_bind]
  simp only [takeNumbers_one, Except.bind_map, Except.map_bind]
  rfl

theorem takeNumbers_three :
    takeNumbers 3 stack = popTwoNumbers stack >>= fun r => (popNumber r.2.2).map fun s =>
      ([s.1, r.1, r.2.1], s.2) := by
  rw [takeNumbers, popTwoNumbers]
  simp only [takeNumbers_two, popTwoNumbers, bind_assoc]
  congr 1
  funext r
  obtain ⟨high, rest⟩ := r
  rcases popNumber rest with e | ⟨low, rest⟩
  · rfl
  · show ((popNumber rest >>= _).map _ >>= _) = (popNumber rest).map _
    cases popNumber rest <;> rfl

theorem takeNumbers_cons {item : Bytes} {rest : List Bytes} :
    takeNumbers (count + 1) (item :: rest) =
      operand item >>= fun n => (takeNumbers count rest).map fun r => (r.1 ++ [n], r.2) := by
  rw [takeNumbers, popNumber_cons, Except.bind_map]
  rfl

theorem takeNumbers_cons_of_operand {item : Bytes} {rest : List Bytes} {n : Int}
    (number : Operand item n) :
    takeNumbers (count + 1) (item :: rest) = (takeNumbers count rest).map fun r =>
      (r.1 ++ [n], r.2) := by
  rw [takeNumbers_cons, operand_eq_ok_iff.mpr number, Except.ok_bind]

theorem takeNumbers_of_operands {items rest : List Bytes} {operands : List Int}
    (good : List.Forall₂ Operand items operands) :
    takeNumbers items.length (items ++ rest) = .ok (operands.reverse, rest) := by
  induction good with
  | nil => rfl
  | cons first _ ih =>
    rw [List.length_cons, List.cons_append, takeNumbers_cons_of_operand first, ih,
      List.reverse_cons]
    rfl

theorem takeNumbers_of_offending {above rest : List Bytes} {item : Bytes} {e : ScriptError}
    (close : above.length < count) (good : ∀ x ∈ above, ∃ n, Operand x n)
    (fault : OperandFault item e) :
    takeNumbers count (above ++ item :: rest) = .error e := by
  induction above generalizing count with
  | nil =>
    obtain ⟨count, rfl⟩ := Nat.exists_eq_add_one.mpr close
    rw [List.nil_append, takeNumbers_cons, operand_eq_error_iff.mpr fault, Except.error_bind]
  | cons x above ih =>
    obtain ⟨count, rfl⟩ := Nat.exists_eq_add_one.mpr (Nat.zero_lt_of_lt close)
    obtain ⟨⟨n, number⟩, good⟩ := List.forall_mem_cons.mp good
    rw [List.cons_append, takeNumbers_cons_of_operand number,
      ih (Nat.lt_of_succ_lt_succ close) good]
    rfl

theorem takeNumbers_of_few (few : stack.length < count) (good : ∀ x ∈ stack, ∃ n, Operand x n) :
    takeNumbers count stack = .error .invalidStackOperation := by
  induction stack generalizing count with
  | nil =>
    obtain ⟨count, rfl⟩ := Nat.exists_eq_add_one.mpr few
    rfl
  | cons x stack ih =>
    obtain ⟨count, rfl⟩ := Nat.exists_eq_add_one.mpr (Nat.zero_lt_of_lt few)
    obtain ⟨⟨n, number⟩, good⟩ := List.forall_mem_cons.mp good
    rw [takeNumbers_cons_of_operand number, ih (Nat.lt_of_succ_lt_succ few) good]
    rfl

theorem takeNumbers_of_fault {e : ScriptError} (fault : OperandsFault stack count e) :
    takeNumbers count stack = .error e := by
  cases fault with
  | offending split close good fault =>
    rw [split, List.reverse_append, List.reverse_cons, List.append_assoc, List.singleton_append]
    refine takeNumbers_of_offending (by rwa [List.length_reverse]) (fun x h => good x ?_) fault
    exact List.mem_reverse.mp h
  | tooFew few good => exact takeNumbers_of_few few good

theorem OperandsFault.cons {item : Bytes} {n : Int} {e : ScriptError} (number : Operand item n)
    (fault : OperandsFault stack count e) : OperandsFault (item :: stack) (count + 1) e := by
  cases fault with
  | @offending base above other e split close good fault =>
    have split' : item :: stack = (base ++ other :: (above ++ [item])).reverse := by
      rw [split, ← List.cons_append, ← List.append_assoc, List.reverse_concat]
    refine .offending split' ?_ ?_ fault
    · rw [List.length_append, List.length_singleton]
      exact Nat.succ_lt_succ close
    · intro x h
      rcases List.mem_append.mp h with h | h
      · exact good x h
      · cases List.mem_singleton.mp h
        exact ⟨n, number⟩
  | tooFew few good =>
      exact .tooFew (Nat.succ_lt_succ few) (List.forall_mem_cons.mpr ⟨⟨n, number⟩, good⟩)

/-- There are operands, or there is something at fault with the items. -/
theorem operands_or_fault (stack : List Bytes) (count : Nat) :
    (∃ items operands rest, items.length = count ∧ stack = items ++ rest
      ∧ List.Forall₂ Operand items operands)
      ∨ ∃ e, OperandsFault stack count e := by
  -- from the top down, as numbers are taken
  induction stack generalizing count with
  | nil =>
    cases count with
    | zero => exact .inl ⟨[], [], [], rfl, rfl, .nil⟩
    | succ count => exact .inr ⟨_, .tooFew (Nat.succ_pos count) nofun⟩
  | cons item stack ih =>
    cases count with
    | zero => exact .inl ⟨[], [], item :: stack, rfl, rfl, .nil⟩
    | succ count =>
      rcases operand_or_fault item with ⟨n, number⟩ | ⟨e, fault⟩
      · rcases ih count with ⟨items, operands, rest, rfl, rfl, good⟩ | ⟨e, fault⟩
        · exact .inl ⟨item :: items, n :: operands, rest, rfl, rfl, .cons number good⟩
        · exact .inr ⟨e, fault.cons number⟩
      · have split : item :: stack = (stack.reverse ++ [item]).reverse := by
          rw [List.reverse_concat, List.reverse_reverse]
        exact .inr ⟨e, .offending split (Nat.succ_pos count) nofun fault⟩

end

/-! ## What opcodes calculate -/

/-- What an operation calculates from the numbers that it takes. -/
def Operation.compute : Operation → List Int → Except ScriptError (List Int)
  | .unary op, [a] => .ok [op.eval a]
  | .binary op, [a, b] => .ok [op.eval a b]
  | .numEqualVerify, [a, b] => if a = b then .ok [] else .error .numEqualVerify
  | .within, [x, low, high] => .ok [truthNumber (low ≤ x && x < high)]
  | _, operands => .ok operands

def computed (opcode : UInt8) (operands : List Int) : Except ScriptError (List Int) :=
  (Opcode.operation ⟨opcode⟩).compute operands

def UnaryOp.opcode : UnaryOp → UInt8
  | .increment => 0x8b
  | .decrement => 0x8c
  | .negate => 0x8f
  | .abs => 0x90
  | .not => 0x91
  | .notZero => 0x92

def BinaryOp.opcode : BinaryOp → UInt8
  | .add => 0x93
  | .sub => 0x94
  | .boolAnd => 0x9a
  | .boolOr => 0x9b
  | .numEqual => 0x9c
  | .numNotEqual => 0x9e
  | .less => 0x9f
  | .greater => 0xa0
  | .lessOrEqual => 0xa1
  | .greaterOrEqual => 0xa2
  | .min => 0xa3
  | .max => 0xa4

section
variable {opcode : UInt8}

theorem UnaryOp.operation_opcode (op : UnaryOp) : Opcode.operation ⟨op.opcode⟩ = .unary op := by
  cases op <;> rfl

theorem BinaryOp.operation_opcode (op : BinaryOp) : Opcode.operation ⟨op.opcode⟩ = .binary op := by
  cases op <;> rfl

theorem arithmeticOpcodes_cases (listed : opcode ∈ arithmeticOpcodes) :
    (∃ op : UnaryOp, opcode = op.opcode) ∨ (∃ op : BinaryOp, opcode = op.opcode) ∨ opcode = 0x9d
      ∨ opcode = 0xa5 := by
  have whole : arithmeticOpcodes.Perm
      (([.increment, .decrement, .negate, .abs, .not, .notZero] : List UnaryOp).map
          UnaryOp.opcode ++
        (([.add, .sub, .boolAnd, .boolOr, .numEqual, .numNotEqual, .less, .greater, .lessOrEqual,
            .greaterOrEqual, .min, .max] : List BinaryOp).map BinaryOp.opcode ++
          [0x9d, 0xa5])) := by decide
  rw [whole.mem_iff, List.mem_append, List.mem_append, List.mem_map, List.mem_map,
    List.mem_pair] at listed
  exact listed.imp (fun ⟨op, _, same⟩ => ⟨op, same.symm⟩) fun rest =>
    rest.imp_left fun ⟨op, _, same⟩ => ⟨op, same.symm⟩

theorem truthNumber_decide (p : Prop) [Decidable p] :
    truthNumber (decide p) = if p then 1 else 0 := by
  rw [truthNumber]
  exact if_congr decide_eq_true_iff rfl rfl

theorem computed_of_computes {operands results : List Int}
    (computes : Computes opcode operands results) :
    computed opcode operands = .ok results := by
  cases computes with
  | abs a =>
    show Except.ok [((a.natAbs : Nat) : Int)] = _
    rw [Int.natCast_natAbs]
  | numEqualVerify a => exact if_pos rfl
  | within x low high =>
    show Except.ok [truthNumber (low ≤ x && x < high)] = _
    rw [← Bool.decide_and, truthNumber_decide]
  | boolAnd a b =>
    show Except.ok [truthNumber (!decide (a = 0) && !decide (b = 0))] = _
    rw [← decide_not, ← decide_not, ← Bool.decide_and, truthNumber_decide]
  | boolOr a b =>
    show Except.ok [truthNumber (!decide (a = 0) || !decide (b = 0))] = _
    rw [← decide_not, ← decide_not, ← Bool.decide_or, truthNumber_decide]
  | notZero a =>
    show Except.ok [truthNumber (!decide (a = 0))] = _
    rw [← decide_not, truthNumber_decide]
  | numNotEqual a b =>
    show Except.ok [truthNumber (!decide (a = b))] = _
    rw [← decide_not, truthNumber_decide]
  | not | numEqual | less | greater | lessOrEqual | greaterOrEqual =>
    exact congrArg (fun n => Except.ok [n]) (truthNumber_decide _)
  | increment | decrement | negate | add | sub | min | max => rfl

theorem Computes.length_operands {operands results : List Int}
    (computes : Computes opcode operands results) :
    operands.length = operandCount opcode := by
  cases computes <;> rfl

theorem UnaryOp.exists_computes (op : UnaryOp) (a : Int) :
    ∃ results, Computes op.opcode [a] results :=
  match op with
  | .increment => ⟨_, .increment a⟩
  | .decrement => ⟨_, .decrement a⟩
  | .negate => ⟨_, .negate a⟩
  | .abs => ⟨_, .abs a⟩
  | .not => ⟨_, .not a⟩
  | .notZero => ⟨_, .notZero a⟩

theorem BinaryOp.exists_computes (op : BinaryOp) (a b : Int) :
    ∃ results, Computes op.opcode [a, b] results :=
  match op with
  | .add => ⟨_, .add a b⟩
  | .sub => ⟨_, .sub a b⟩
  | .boolAnd => ⟨_, .boolAnd a b⟩
  | .boolOr => ⟨_, .boolOr a b⟩
  | .numEqual => ⟨_, .numEqual a b⟩
  | .numNotEqual => ⟨_, .numNotEqual a b⟩
  | .less => ⟨_, .less a b⟩
  | .greater => ⟨_, .greater a b⟩
  | .lessOrEqual => ⟨_, .lessOrEqual a b⟩
  | .greaterOrEqual => ⟨_, .greaterOrEqual a b⟩
  | .min => ⟨_, .min a b⟩
  | .max => ⟨_, .max a b⟩

/-- Of as many numbers as it takes an opcode can calculate something, unless it finds two of them
different. -/
theorem computes_or_differ (listed : opcode ∈ arithmeticOpcodes) {operands : List Int}
    (length : operands.length = operandCount opcode) :
    (∃ results, Computes opcode operands results)
      ∨ opcode = 0x9d ∧ ∃ a b, operands = [a, b] ∧ a ≠ b := by
  rcases arithmeticOpcodes_cases listed with ⟨op, rfl⟩ | ⟨op, rfl⟩ | rfl | rfl
  · have one : operandCount op.opcode = 1 := by cases op <;> rfl
    obtain ⟨a, rfl⟩ := List.length_eq_one_iff.mp (length.trans one)
    exact .inl (op.exists_computes a)
  · have two : operandCount op.opcode = 2 := by cases op <;> rfl
    obtain ⟨a, b, rfl⟩ := List.length_eq_two.mp (length.trans two)
    exact .inl (op.exists_computes a b)
  · obtain ⟨a, b, rfl⟩ := List.length_eq_two.mp length
    by_cases same : a = b
    · subst same
      exact .inl ⟨_, .numEqualVerify a⟩
    · exact .inr ⟨rfl, a, b, rfl, same⟩
  · obtain ⟨x, low, high, rfl⟩ := List.length_eq_three.mp length
    exact .inl ⟨_, .within x low high⟩

end

/-! ## What becomes of the stack -/

def calculated (opcode : UInt8) (stack : List Bytes) : Except ScriptError (List Bytes) :=
  takeNumbers (operandCount opcode) stack >>= fun (operands, rest) =>
    (computed opcode operands).map fun results => (results.map ScriptNumber.encode).reverse ++ rest

theorem forall₂_encodes_iff {written : List Bytes} {results : List Int} :
    List.Forall₂ Encodes written results ↔ written = results.map ScriptNumber.encode := by
  have same : Encodes = fun item n => item = ScriptNumber.encode n := by
    funext item n
    exact propext encodes_iff
  rw [same, ← List.forall₂_map_right_iff (R := (· = ·)), List.forall₂_eq_eq_eq]

section
variable {stack : List Bytes} {opcode : UInt8}

theorem calculated_of_operands {base items : List Bytes} {operands : List Int}
    (good : List.Forall₂ Operand items operands) (length : operands.length = operandCount opcode)
    (split : stack = (base ++ items).reverse) :
    calculated opcode stack = (computed opcode operands).map fun results =>
      (results.map ScriptNumber.encode).reverse ++ base.reverse := by
  have taken :=
    @takeNumbers_of_operands items.reverse base.reverse _ (List.forall₂_reverse_iff.mpr good)
  rw [List.length_reverse, good.length_eq, length, ← List.reverse_append, ← split,
    List.reverse_reverse] at taken
  rw [calculated, taken, Except.ok_bind]

/-- The calculation is all that can happen, and what is at fault is all that can prevent it. -/
theorem calculated_eq_iff (listed : opcode ∈ arithmeticOpcodes) :
    (∀ left, calculated opcode stack = .ok left ↔
      ∃ base items operands results written, List.Forall₂ Operand items operands ∧
        Computes opcode operands results ∧
        List.Forall₂ Encodes written results ∧ stack = (base ++ items).reverse
          ∧ left = (base ++ written).reverse)
      ∧ ∀ e, calculated opcode stack = .error e ↔ NumberFault stack opcode e := by
  refine Except.eq_iff_of_total ?_ ?_ ?_
  · rintro _ ⟨base, items, operands, results, written, good, computes, encoded, split, rfl⟩
    rw [calculated_of_operands good computes.length_operands split, computed_of_computes computes,
      forall₂_encodes_iff.mp encoded, List.reverse_append]
    rfl
  · rintro e (⟨fault⟩ | ⟨rfl, split, first, second, differ⟩)
    · rw [calculated, takeNumbers_of_fault fault, Except.error_bind]
    · rw [calculated_of_operands (.cons first (.cons second .nil)) rfl split]
      exact congrArg (Except.map _) (if_neg differ)
  · rcases operands_or_fault stack (operandCount opcode) with
      ⟨items, operands, rest, length, split, good⟩ | ⟨e, fault⟩
    · rw [← List.reverse_reverse (items ++ rest), List.reverse_append] at split
      have good := List.forall₂_reverse_iff.mpr good
      have length : operands.reverse.length = operandCount opcode := by
        rw [← good.length_eq, List.length_reverse, length]
      rcases computes_or_differ listed length with ⟨results, computes⟩ | ⟨rfl, a, b, two, differ⟩
      · exact .inl ⟨_, _, _, _, results, _, good, computes, forall₂_encodes_iff.mpr rfl, split, rfl⟩
      · rw [two] at good
        generalize items.reverse = upper at good split
        rcases good with _ | ⟨first, _ | ⟨second, ⟨⟩⟩⟩
        exact .inr ⟨_, .mismatch rfl split first second differ⟩
    · exact .inr ⟨e, .operands fault⟩

end

/-! ## One instruction -/

namespace Machine

variable {env : Env} {m : Machine} {pc : Nat} {i : Instruction}

theorem perform_unary {op : UnaryOp} :
    m.perform env pc (.unary op) = (calculated op.opcode m.stack).map m.withStack := by
  have one : operandCount op.opcode = 1 := by cases op <;> rfl
  simp only [calculated, one, computed, op.operation_opcode, takeNumbers_one, Except.bind_map,
    Except.map_bind, perform]
  rfl

theorem perform_binary {op : BinaryOp} :
    m.perform env pc (.binary op) = (calculated op.opcode m.stack).map m.withStack := by
  have two : operandCount op.opcode = 2 := by cases op <;> rfl
  simp only [calculated, two, computed, op.operation_opcode, takeNumbers_two, Except.bind_map,
    Except.map_bind, perform]
  rfl

theorem perform_numEqualVerify :
    m.perform env pc .numEqualVerify = (calculated 0x9d m.stack).map m.withStack := by
  have operation : Opcode.operation ⟨0x9d⟩ = .numEqualVerify := rfl
  have two : operandCount 0x9d = 2 := rfl
  simp only [calculated, two, computed, operation, takeNumbers_two, Except.bind_map,
    Except.map_bind, perform, Operation.compute]
  congr 1
  funext r
  obtain ⟨a, b, rest⟩ := r
  by_cases same : a = b
  · rw [if_pos (beq_iff_eq.mpr same), if_pos same]
    rfl
  · rw [if_neg (mt beq_iff_eq.mp same), if_neg same]
    rfl

theorem perform_withinBounds :
    m.perform env pc .within = (calculated 0xa5 m.stack).map m.withStack := by
  have operation : Opcode.operation ⟨0xa5⟩ = .within := rfl
  have three : operandCount 0xa5 = 3 := rfl
  simp only [calculated, three, computed, operation, takeNumbers_three, Except.map_bind, perform,
    Operation.compute, bind_assoc]
  congr 1
  funext r
  obtain ⟨low, high, rest⟩ := r
  rcases popNumber rest with e | ⟨x, rest⟩
  · rfl
  · show Except.ok (m.withStack (ScriptNumber.ofBool (low ≤ x && x < high) :: rest)) =
      .ok (m.withStack (ScriptNumber.encode (truthNumber (low ≤ x && x < high)) :: rest))
    rw [encode_truthNumber]

theorem perform_arithmetic {opcode : UInt8} (listed : opcode ∈ arithmeticOpcodes) :
    m.perform env pc (Opcode.operation ⟨opcode⟩) = (calculated opcode m.stack).map m.withStack := by
  rcases arithmeticOpcodes_cases listed with ⟨op, rfl⟩ | ⟨op, rfl⟩ | rfl | rfl
  · rw [op.operation_opcode, perform_unary]
  · rw [op.operation_opcode, perform_binary]
  · exact perform_numEqualVerify
  · exact perform_withinBounds

/-- An executed opcode that calculates obeys its rule. -/
theorem counted_step_arithmetic (listed : i.opcode.byte ∈ arithmeticOpcodes) (bare : i.data = none)
    (executed : m.executing = true) :
    Counted (Calculated i.opcode.byte m) (NumberFault m.stack i.opcode.byte) (m.step env pc i) := by
  have allowed : i.opcode.operation ≠ .versionBranch ∧ i.opcode.operation ≠ .checkMultiSig := by
    obtain ⟨⟨opcode⟩, data⟩ := i
    rcases arithmeticOpcodes_cases listed with ⟨op, rfl⟩ | ⟨op, rfl⟩ | rfl | rfl
    · cases op <;> exact ⟨nofun, nofun⟩
    · cases op <;> exact ⟨nofun, nofun⟩
    all_goals exact ⟨nofun, nofun⟩
  rw [step_of_operation bare rfl executed allowed.1 allowed.2, perform_arithmetic listed]
  refine counted_checkSize (fun m' => ?_) fun e => ?_
  · rw [Except.map_eq_ok_iff]
    simp only [(calculated_eq_iff listed).1]
    constructor
    · rintro ⟨_, ⟨base, items, operands, results, written, good, computes, encoded,
        split, rfl⟩, rfl⟩
      exact ⟨base, items, operands, results, written, good, computes, encoded, split, rfl⟩
    · rintro ⟨base, items, operands, results, written, good, computes, encoded, split, rfl⟩
      exact ⟨_, ⟨base, items, operands, results, written, good, computes, encoded, split, rfl⟩, rfl⟩
  · rw [Except.map_eq_error_iff, (calculated_eq_iff listed).2]

end Machine

end TaprootLab

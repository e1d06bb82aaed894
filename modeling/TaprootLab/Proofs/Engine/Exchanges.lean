import TaprootLab.Proofs.Engine.Operands

/-!
# Opcodes that move items

Twenty-two opcodes only move items about, on the main stack or between it and the alt stack. Each of
them is given by the items that it takes from the tops and those that it leaves there (`Exchanges`),
and by what can be at fault with the items that it finds (`ItemFault`). No stack escapes both
(`finds_or_fault`), which makes the two tables the whole of what an executed instruction does
(`Machine.counted_step_moving`).

In the tables the top of a stack stands last, as scripts are read. A machine has it first.
-/

namespace TaprootLab

/-! ## The rule -/

/-- Items that an opcode takes from the two stacks and those that it leaves there, the top of a
stack last. -/
structure Exchange where
  taken : List Bytes
  left : List Bytes
  altTaken : List Bytes
  altLeft : List Bytes

/-- What an opcode exchanges where the main stack holds `depth` items. -/
inductive Exchanges (depth : Nat) : (opcode : UInt8) → Exchange → Prop
  | toAltStack (x : Bytes) : Exchanges depth 0x6b ⟨[x], [], [], [x]⟩
  | fromAltStack (x : Bytes) : Exchanges depth 0x6c ⟨[], [x], [x], []⟩
  | drop2 (x₁ x₂ : Bytes) : Exchanges depth 0x6d ⟨[x₁, x₂], [], [], []⟩
  | dup2 (x₁ x₂ : Bytes) : Exchanges depth 0x6e ⟨[x₁, x₂], [x₁, x₂, x₁, x₂], [], []⟩
  | dup3 (x₁ x₂ x₃ : Bytes) : Exchanges depth 0x6f ⟨[x₁, x₂, x₃], [x₁, x₂, x₃, x₁, x₂, x₃], [], []⟩
  | over2 (x₁ x₂ x₃ x₄ : Bytes) :
      Exchanges depth 0x70 ⟨[x₁, x₂, x₃, x₄], [x₁, x₂, x₃, x₄, x₁, x₂], [], []⟩
  | rot2 (x₁ x₂ x₃ x₄ x₅ x₆ : Bytes) :
      Exchanges depth 0x71 ⟨[x₁, x₂, x₃, x₄, x₅, x₆], [x₃, x₄, x₅, x₆, x₁, x₂], [], []⟩
  | swap2 (x₁ x₂ x₃ x₄ : Bytes) : Exchanges depth 0x72 ⟨[x₁, x₂, x₃, x₄], [x₃, x₄, x₁, x₂], [], []⟩
  | ifDup {x : Bytes} (nonzero : ScriptNumber.value x ≠ 0) :
      Exchanges depth 0x73 ⟨[x], [x, x], [], []⟩
  | ifDupZero {x : Bytes} (zero : ScriptNumber.value x = 0) :
      Exchanges depth 0x73 ⟨[x], [x], [], []⟩
  | depth : Exchanges depth 0x74 ⟨[], [ScriptNumber.encode depth], [], []⟩
  | drop (x : Bytes) : Exchanges depth 0x75 ⟨[x], [], [], []⟩
  | dup (x : Bytes) : Exchanges depth 0x76 ⟨[x], [x, x], [], []⟩
  | nip (x₁ x₂ : Bytes) : Exchanges depth 0x77 ⟨[x₁, x₂], [x₂], [], []⟩
  | over1 (x₁ x₂ : Bytes) : Exchanges depth 0x78 ⟨[x₁, x₂], [x₁, x₂, x₁], [], []⟩
  | pick (x : Bytes) {above : List Bytes} {index : Bytes} (number : Operand index above.length) :
      Exchanges depth 0x79 ⟨x :: above ++ [index], x :: above ++ [x], [], []⟩
  | roll (x : Bytes) {above : List Bytes} {index : Bytes} (number : Operand index above.length) :
      Exchanges depth 0x7a ⟨x :: above ++ [index], above ++ [x], [], []⟩
  | rot (x₁ x₂ x₃ : Bytes) : Exchanges depth 0x7b ⟨[x₁, x₂, x₃], [x₂, x₃, x₁], [], []⟩
  | swap (x₁ x₂ : Bytes) : Exchanges depth 0x7c ⟨[x₁, x₂], [x₂, x₁], [], []⟩
  | tuck (x₁ x₂ : Bytes) : Exchanges depth 0x7d ⟨[x₁, x₂], [x₂, x₁, x₂], [], []⟩
  | size (x : Bytes) : Exchanges depth 0x82 ⟨[x], [x, ScriptNumber.encode x.length], [], []⟩
  | equal (x : Bytes) : Exchanges depth 0x87 ⟨[x, x], [[1]], [], []⟩
  | unequal {x₁ x₂ : Bytes} (differ : x₁ ≠ x₂) : Exchanges depth 0x87 ⟨[x₁, x₂], [[]], [], []⟩
  | equalVerify (x : Bytes) : Exchanges depth 0x88 ⟨[x, x], [], [], []⟩

/-- The opcodes that have an exchange. -/
def movingOpcodes : List UInt8 :=
  [0x6b, 0x6c, 0x6d, 0x6e, 0x6f, 0x70, 0x71, 0x72, 0x73, 0x74, 0x75, 0x76, 0x77, 0x78, 0x79, 0x7a,
    0x7b, 0x7c, 0x7d, 0x82, 0x87, 0x88]

def itemsNeeded : (opcode : UInt8) → Nat
  | 0x6b | 0x73 | 0x75 | 0x76 | 0x79 | 0x7a | 0x82 => 1
  | 0x6d | 0x6e | 0x77 | 0x78 | 0x7c | 0x7d | 0x87 | 0x88 => 2
  | 0x6f | 0x7b => 3
  | 0x70 | 0x72 => 4
  | 0x71 => 6
  | _ => 0

/-- Why an opcode finds nothing to exchange. -/
inductive ItemFault (stack altStack : List Bytes) : (opcode : UInt8) → ScriptError → Prop
  | tooFew {opcode : UInt8} (few : stack.length < itemsNeeded opcode) :
      ItemFault stack altStack opcode .invalidStackOperation
  | noAltItem (empty : altStack = []) : ItemFault stack altStack 0x6c .invalidAltstackOperation
  | noIndex {opcode : UInt8} {base : List Bytes} {index : Bytes} {e : ScriptError}
      (fetches : opcode = 0x79 ∨ opcode = 0x7a) (top : stack = (base ++ [index]).reverse)
      (fault : OperandFault index e) : ItemFault stack altStack opcode e
  | outOfReach {opcode : UInt8} {base : List Bytes} {index : Bytes} {n : Int}
      (fetches : opcode = 0x79 ∨ opcode = 0x7a) (top : stack = (base ++ [index]).reverse)
      (number : Operand index n) (outside : n < 0 ∨ base.length ≤ n) :
      ItemFault stack altStack opcode .invalidStackOperation
  | mismatch {base : List Bytes} {x₁ x₂ : Bytes} (top : stack = (base ++ [x₁, x₂]).reverse)
      (differ : x₁ ≠ x₂) : ItemFault stack altStack 0x88 .equalVerify

/-- An exchange leads from one machine to another if the items below stay, and all else does. -/
structure Exchange.Leads (e : Exchange) (m m' : Machine) : Prop where
  stack : ∃ base, m.stack = (base ++ e.taken).reverse ∧ m'.stack = (base ++ e.left).reverse
  altStack : ∃ base, m.altStack = (base ++ e.altTaken).reverse
    ∧ m'.altStack = (base ++ e.altLeft).reverse
  rest : m' = { m with stack := m'.stack, altStack := m'.altStack }

/-- One exchange of an opcode, at the tops of the two stacks. -/
def Exchanged (opcode : UInt8) (m m' : Machine) : Prop :=
  ∃ e, Exchanges m.stack.length opcode e ∧ e.Leads m m'

/-! ## What opcodes do to the stacks -/

/-- The stacks behind an operation that moves items. -/
def Operation.move (stack altStack : List Bytes) :
    Operation → Except ScriptError (List Bytes × List Bytes)
  | .stack op => op.apply stack altStack
  | .equal =>
      (popTwo stack).map fun (a, b, rest) => (ScriptNumber.ofBool (a == b) :: rest, altStack)
  | .equalVerify => popTwo stack >>= fun (a, b, rest) =>
    if a == b then .ok (rest, altStack) else .error .equalVerify
  | _ => .ok (stack, altStack)

def moved (opcode : UInt8) (stack altStack : List Bytes) :
    Except ScriptError (List Bytes × List Bytes) :=
  (Opcode.operation ⟨opcode⟩).move stack altStack

def StackOp.opcode : StackOp → UInt8
  | .toAlt => 0x6b
  | .fromAlt => 0x6c
  | .drop2 => 0x6d
  | .dup2 => 0x6e
  | .dup3 => 0x6f
  | .over2 => 0x70
  | .rot2 => 0x71
  | .swap2 => 0x72
  | .ifDup => 0x73
  | .depth => 0x74
  | .drop => 0x75
  | .dup => 0x76
  | .nip => 0x77
  | .over => 0x78
  | .pick => 0x79
  | .roll => 0x7a
  | .rot => 0x7b
  | .swap => 0x7c
  | .tuck => 0x7d
  | .size => 0x82

section
variable {stack altStack : List Bytes} {opcode : UInt8}

theorem moved_opcode (op : StackOp) : moved op.opcode stack altStack = op.apply stack altStack := by
  cases op <;> rfl

theorem StackOp.operation_opcode (op : StackOp) : Opcode.operation ⟨op.opcode⟩ = .stack op := by
  cases op <;> rfl

theorem StackOp.opcode_mem (op : StackOp) : op.opcode ∈ movingOpcodes := by
  cases op <;> decide

theorem movingOpcodes_cases (listed : opcode ∈ movingOpcodes) :
    (∃ op : StackOp, opcode = op.opcode) ∨ opcode = 0x87 ∨ opcode = 0x88 := by
  have whole : movingOpcodes =
      ([.toAlt, .fromAlt, .drop2, .dup2, .dup3, .over2, .rot2, .swap2, .ifDup, .depth, .drop,
      .dup, .nip, .over, .pick, .roll, .rot, .swap, .tuck, .size] : List StackOp).map StackOp.opcode
      ++ [0x87, 0x88] := rfl
  rw [whole, List.mem_append, List.mem_map, List.mem_pair] at listed
  exact listed.imp_left fun ⟨op, _, same⟩ => ⟨op, same.symm⟩

theorem exists_split {n : Nat} (enough : n ≤ stack.length) :
    ∃ base items : List Bytes, items.length = n ∧ stack = (base ++ items).reverse := by
  refine ⟨(stack.drop n).reverse, (stack.take n).reverse, ?_, ?_⟩
  · rw [List.length_reverse, List.length_take, Nat.min_eq_left enough]
  · rw [← List.reverse_append, List.reverse_reverse, List.take_append_drop]

theorem getElem?_fetched (x : Bytes) (above base : List Bytes) :
    (above.reverse ++ x :: base)[above.length]? = some x := by
  rw [List.getElem?_append_right (by rw [List.length_reverse]), List.length_reverse, Nat.sub_self,
    List.getElem?_cons_zero]

theorem eraseIdx_fetched (x : Bytes) (above base : List Bytes) :
    (above.reverse ++ x :: base).eraseIdx above.length = above.reverse ++ base := by
  rw [List.eraseIdx_append_of_length_le (by rw [List.length_reverse]), List.length_reverse,
    Nat.sub_self, List.eraseIdx_cons_zero]

/-- The item that an index names is as many places below the top as the index says. -/
theorem depthOf_fetched (x : Bytes) (above base : List Bytes) :
    depthOf above.length (above.reverse ++ x :: base) = .ok (x, above.length) := by
  rw [depthOf, if_neg (by omega), Int.toNat_natCast, getElem?_fetched]

theorem moved_equal (x₁ x₂ : Bytes) (rest : List Bytes) :
    moved 0x87 (x₂ :: x₁ :: rest) altStack =
      .ok ((if x₁ = x₂ then [1] else []) :: rest, altStack) := by
  show Except.ok (ScriptNumber.ofBool (x₁ == x₂) :: rest, altStack) = _
  by_cases same : x₁ = x₂ <;> simp [same, ScriptNumber.ofBool]

theorem moved_equalVerify (x₁ x₂ : Bytes) (rest : List Bytes) :
    moved 0x88 (x₂ :: x₁ :: rest) altStack =
      if x₁ = x₂ then .ok (rest, altStack) else .error ScriptError.equalVerify := by
  show (if x₁ == x₂ then Except.ok (rest, altStack) else .error ScriptError.equalVerify) = _
  by_cases same : x₁ = x₂ <;> simp [same]

theorem moved_ifDup (x : Bytes) (rest : List Bytes) :
    moved 0x73 (x :: rest) altStack =
      .ok (if ScriptNumber.value x ≠ 0 then x :: x :: rest else x :: rest, altStack) := by
  show Except.ok (if ScriptNumber.truthy x then x :: x :: rest else x :: rest, altStack) = _
  rw [if_congr (ScriptNumber.truthy_iff x) rfl rfl]

/-- An exchange takes place. -/
theorem moved_of_exchange {e : Exchange} {base altBase : List Bytes}
    (exchange : Exchanges stack.length opcode e) (items : stack = (base ++ e.taken).reverse)
    (altItems : altStack = (altBase ++ e.altTaken).reverse) :
    moved opcode stack altStack =
      .ok ((base ++ e.left).reverse, (altBase ++ e.altLeft).reverse) := by
  cases exchange with
  | pick x number =>
    rename_i above index
    have top : stack = index :: (above.reverse ++ x :: base.reverse) := by simp [items]
    subst top altItems
    show StackOp.apply .pick _ _ = _
    simp only [StackOp.apply, popNumber_cons, operand_eq_ok_iff.mpr number, Except.map,
      Except.ok_bind, depthOf_fetched]
    simp
  | roll x number =>
    rename_i above index
    have top : stack = index :: (above.reverse ++ x :: base.reverse) := by simp [items]
    subst top altItems
    show StackOp.apply .roll _ _ = _
    simp only [StackOp.apply, popNumber_cons, operand_eq_ok_iff.mpr number, Except.map,
      Except.ok_bind, depthOf_fetched, eraseIdx_fetched]
    simp
  | ifDup nonzero => simp [items, altItems, moved_ifDup, nonzero]
  | ifDupZero zero => simp [items, altItems, moved_ifDup, zero]
  | unequal differ => simp [items, altItems, moved_equal, differ]
  | equal x => simp [items, altItems, moved_equal]
  | equalVerify x => simp [items, altItems, moved_equalVerify]
  | _ =>
    -- a pattern on the tops of the stacks, once they are written from the top
    subst altItems
    simp only [List.reverse_append, List.reverse_cons, List.reverse_nil, List.nil_append,
      List.cons_append]
      at items ⊢
    subst items
    rfl

/-! ## Too few items -/

theorem StackOp.apply_of_short {op : StackOp} (few : stack.length < itemsNeeded op.opcode) :
    op.apply stack altStack = .error .invalidStackOperation := by
  cases op with
  | fromAlt | depth => cases few
  | pick | roll =>
    obtain rfl : stack = [] := List.length_eq_zero_iff.mp (Nat.lt_one_iff.mp few)
    rfl
  | _ =>
    simp only [apply]
    split
    · simp only [List.length_cons, itemsNeeded, opcode] at few
      omega
    · rfl

theorem moved_of_short (listed : opcode ∈ movingOpcodes) (few : stack.length < itemsNeeded opcode) :
    moved opcode stack altStack = .error .invalidStackOperation := by
  rcases movingOpcodes_cases listed with ⟨op, rfl⟩ | rfl | rfl
  · rw [moved_opcode, StackOp.apply_of_short few]
  all_goals
    match stack, few with
    | [], _ => rfl
    | [_], _ => rfl

/-! ## Indices -/

theorem apply_fetch_of_fault {op : StackOp} (fetches : op = .pick ∨ op = .roll) {index : Bytes}
    {rest : List Bytes} {e : ScriptError} (fault : OperandFault index e) :
    op.apply (index :: rest) altStack = .error e := by
  rcases fetches with rfl | rfl <;>
    rw [StackOp.apply, popNumber_cons, operand_eq_error_iff.mpr fault] <;> rfl

theorem depthOf_of_outside {n : Int} {rest : List Bytes} (outside : n < 0 ∨ rest.length ≤ n) :
    depthOf n rest = .error .invalidStackOperation := by
  rw [depthOf]
  split
  · rfl
  · rw [List.getElem?_eq_none (by omega)]

theorem apply_fetch_of_outside {op : StackOp} (fetches : op = .pick ∨ op = .roll) {index : Bytes}
    {rest : List Bytes} {n : Int} (number : Operand index n) (outside : n < 0 ∨ rest.length ≤ n) :
    op.apply (index :: rest) altStack = .error .invalidStackOperation := by
  rcases fetches with rfl | rfl <;>
    simp only [StackOp.apply, popNumber_cons, operand_eq_ok_iff.mpr number, Except.map,
      Except.ok_bind, depthOf_of_outside outside, Except.error_bind]

theorem exists_fetch (fetches : opcode = 0x79 ∨ opcode = 0x7a) :
    ∃ op : StackOp, (op = .pick ∨ op = .roll) ∧ opcode = op.opcode := by
  rcases fetches with rfl | rfl
  · exact ⟨.pick, .inl rfl, rfl⟩
  · exact ⟨.roll, .inr rfl, rfl⟩

/-- What is at fault is reported. -/
theorem moved_of_fault (listed : opcode ∈ movingOpcodes) {e : ScriptError}
    (fault : ItemFault stack altStack opcode e) : moved opcode stack altStack = .error e := by
  cases fault with
  | tooFew few => exact moved_of_short listed few
  | noAltItem empty =>
    rw [empty]
    rfl
  | noIndex fetches top fault =>
    obtain ⟨op, fetch, rfl⟩ := exists_fetch fetches
    rw [moved_opcode, top, List.reverse_concat]
    exact apply_fetch_of_fault fetch fault
  | outOfReach fetches top number outside =>
    obtain ⟨op, fetch, rfl⟩ := exists_fetch fetches
    rw [moved_opcode, top, List.reverse_concat]
    exact apply_fetch_of_outside fetch number (by rwa [List.length_reverse])
  | mismatch top differ => simp [top, moved_equalVerify, differ]

/-! ## Nothing else can happen -/

theorem exists_fetched {base : List Bytes} {n : Int} (inside : ¬ (n < 0 ∨ base.length ≤ n)) :
    ∃ front x above, base = front ++ x :: above ∧ n = (above : List Bytes).length := by
  have enough : n.toNat + 1 ≤ base.reverse.length := by
    rw [List.length_reverse]
    omega
  obtain ⟨front, back, length, split⟩ := exists_split enough
  match back, length with
  | x :: above, length =>
    rw [List.length_cons] at length
    exact ⟨front, x, above, List.reverse_injective split, by omega⟩

/-- The items that an opcode asks for are there. -/
def Finds (stack altStack : List Bytes) (opcode : UInt8) : Prop :=
  ∃ e base altBase, Exchanges stack.length opcode e ∧ stack = (base ++ e.taken).reverse
    ∧ altStack = (altBase ++ e.altTaken).reverse

theorem finds {base taken left altLeft : List Bytes}
    (exchange : Exchanges stack.length opcode ⟨taken, left, [], altLeft⟩)
    (split : stack = (base ++ taken).reverse) : Finds stack altStack opcode :=
  ⟨_, base, altStack.reverse, exchange, split, by rw [List.append_nil, List.reverse_reverse]⟩

/-- An index names an item, or there is something at fault with it. -/
theorem finds_fetched_or_fault (fetches : opcode = 0x79 ∨ opcode = 0x7a) {base : List Bytes}
    {index : Bytes} (top : stack = (base ++ [index]).reverse) :
    Finds stack altStack opcode ∨ ∃ e, ItemFault stack altStack opcode e := by
  rcases operand_or_fault index with ⟨n, number⟩ | ⟨e, fault⟩
  · by_cases outside : n < 0 ∨ base.length ≤ n
    · exact .inr ⟨_, .outOfReach fetches top number outside⟩
    · obtain ⟨front, x, above, rfl, rfl⟩ := exists_fetched outside
      rw [List.append_assoc, List.cons_append] at top
      rcases fetches with rfl | rfl
      · exact .inl (finds (.pick x number) top)
      · exact .inl (finds (.roll x number) top)
  · exact .inr ⟨e, .noIndex fetches top fault⟩

/-- Of an operation that fetches nothing by an index, the items that it asks for are all that it
needs. -/
theorem finds_of_length {op : StackOp} {base items : List Bytes}
    (length : items.length = itemsNeeded op.opcode) (split : stack = (base ++ items).reverse)
    (onMain : op ≠ .fromAlt) (plain : op ≠ .pick ∧ op ≠ .roll) :
    Finds stack altStack op.opcode :=
  match op, items, length with
  | .toAlt, [x], _ => finds (.toAltStack x) split
  | .drop2, [x₁, x₂], _ => finds (.drop2 x₁ x₂) split
  | .dup2, [x₁, x₂], _ => finds (.dup2 x₁ x₂) split
  | .dup3, [x₁, x₂, x₃], _ => finds (.dup3 x₁ x₂ x₃) split
  | .over2, [x₁, x₂, x₃, x₄], _ => finds (.over2 x₁ x₂ x₃ x₄) split
  | .rot2, [x₁, x₂, x₃, x₄, x₅, x₆], _ => finds (.rot2 x₁ x₂ x₃ x₄ x₅ x₆) split
  | .swap2, [x₁, x₂, x₃, x₄], _ => finds (.swap2 x₁ x₂ x₃ x₄) split
  | .ifDup, [x], _ =>
    if zero : ScriptNumber.value x = 0 then finds (.ifDupZero zero) split
    else finds (.ifDup zero) split
  | .depth, [], _ => finds .depth split
  | .drop, [x], _ => finds (.drop x) split
  | .dup, [x], _ => finds (.dup x) split
  | .nip, [x₁, x₂], _ => finds (.nip x₁ x₂) split
  | .over, [x₁, x₂], _ => finds (.over1 x₁ x₂) split
  | .rot, [x₁, x₂, x₃], _ => finds (.rot x₁ x₂ x₃) split
  | .swap, [x₁, x₂], _ => finds (.swap x₁ x₂) split
  | .tuck, [x₁, x₂], _ => finds (.tuck x₁ x₂) split
  | .size, [x], _ => finds (.size x) split
  | .fromAlt, _, _ => (onMain rfl).elim
  | .pick, _, _ => (plain.1 rfl).elim
  | .roll, _, _ => (plain.2 rfl).elim

/-- An opcode finds what it exchanges, or there is something at fault. -/
theorem finds_or_fault (listed : opcode ∈ movingOpcodes) (stack altStack : List Bytes) :
    Finds stack altStack opcode ∨ ∃ e, ItemFault stack altStack opcode e := by
  by_cases few : stack.length < itemsNeeded opcode
  · exact .inr ⟨_, .tooFew few⟩
  obtain ⟨base, items, length, split⟩ := exists_split (Nat.not_lt.mp few)
  rcases movingOpcodes_cases listed with ⟨op, rfl⟩ | rfl | rfl
  · -- only for these three it is not enough to count the items on the main stack
    cases op with
    | fromAlt =>
      rcases altStack with _ | ⟨x, altStack⟩
      · exact .inr ⟨_, .noAltItem rfl⟩
      · refine .inl ⟨_, stack.reverse, altStack.reverse, .fromAltStack x, ?_, ?_⟩ <;> simp
    | pick =>
      obtain ⟨index, rfl⟩ := List.length_eq_one_iff.mp length
      exact finds_fetched_or_fault (.inl rfl) split
    | roll =>
      obtain ⟨index, rfl⟩ := List.length_eq_one_iff.mp length
      exact finds_fetched_or_fault (.inr rfl) split
    | _ => exact .inl (finds_of_length length split nofun ⟨nofun, nofun⟩)
  · obtain ⟨x₁, x₂, rfl⟩ := List.length_eq_two.mp length
    by_cases same : x₁ = x₂
    · subst same
      exact .inl (finds (.equal x₁) split)
    · exact .inl (finds (.unequal same) split)
  · obtain ⟨x₁, x₂, rfl⟩ := List.length_eq_two.mp length
    by_cases same : x₁ = x₂
    · subst same
      exact .inl (finds (.equalVerify x₁) split)
    · exact .inr ⟨_, .mismatch split same⟩

/-- The exchange is all that can happen, and what is at fault is all that can prevent it. -/
theorem moved_eq_iff (listed : opcode ∈ movingOpcodes) :
    (∀ r, moved opcode stack altStack = .ok r ↔
      ∃ e base altBase, Exchanges stack.length opcode e ∧ stack = (base ++ e.taken).reverse
        ∧ altStack = (altBase ++ e.altTaken).reverse
        ∧ r = ((base ++ e.left).reverse, (altBase ++ e.altLeft).reverse))
      ∧ ∀ error, moved opcode stack altStack = .error error ↔
        ItemFault stack altStack opcode error := by
  refine Except.eq_iff_of_total ?_ (fun _ => moved_of_fault listed) ?_
  · rintro _ ⟨e, base, altBase, exchange, items, altItems, rfl⟩
    exact moved_of_exchange exchange items altItems
  · refine (finds_or_fault listed stack altStack).imp_left ?_
    rintro ⟨e, base, altBase, exchange, items, altItems⟩
    exact ⟨_, e, base, altBase, exchange, items, altItems, rfl⟩

end

/-! ## One instruction -/

namespace Machine

variable {env : Env} {m : Machine} {pc : Nat} {i : Instruction}

def withItems (m : Machine) (items : List Bytes × List Bytes) : Machine :=
  { m with stack := items.1, altStack := items.2 }

theorem perform_moving {opcode : UInt8} (listed : opcode ∈ movingOpcodes) :
    m.perform env pc (Opcode.operation ⟨opcode⟩) =
      (moved opcode m.stack m.altStack).map m.withItems := by
  rcases movingOpcodes_cases listed with ⟨op, rfl⟩ | rfl | rfl
  · rw [moved_opcode, op.operation_opcode, perform]
    cases op.apply m.stack m.altStack <;> rfl
  · show (popTwo m.stack >>= _) = ((popTwo m.stack).map _).map _
    cases popTwo m.stack <;> rfl
  · show (popTwo m.stack >>= _) = (popTwo m.stack >>= _).map _
    rw [Except.map_bind]
    congr 1
    funext ⟨a, b, rest⟩
    rw [Except.map_ite]
    rfl

/-- An executed opcode that moves items does so, and then they are counted. -/
theorem step_moving (listed : i.opcode.byte ∈ movingOpcodes) (bare : i.data = none)
    (executed : m.executing = true) :
    m.step env pc i = (moved i.opcode.byte m.stack m.altStack).map m.withItems >>= checkSize := by
  have allowed : i.opcode.operation ≠ .versionBranch ∧ i.opcode.operation ≠ .checkMultiSig := by
    obtain ⟨⟨opcode⟩, data⟩ := i
    rcases movingOpcodes_cases listed with ⟨op, rfl⟩ | rfl | rfl
    · cases op <;> exact ⟨nofun, nofun⟩
    all_goals exact ⟨nofun, nofun⟩
  rw [step_of_operation bare rfl executed allowed.1 allowed.2, perform_moving listed]

theorem exchanged_iff {opcode : UInt8} (listed : opcode ∈ movingOpcodes) {m' : Machine} :
    Exchanged opcode m m' ↔ ∃ r, moved opcode m.stack m.altStack = .ok r ∧ m' = m.withItems r := by
  simp only [Exchanged, (moved_eq_iff listed).1]
  constructor
  · rintro ⟨e, exchange, ⟨base, items, left⟩, ⟨altBase, altItems, altLeft⟩, rest⟩
    rw [left, altLeft] at rest
    exact ⟨_, ⟨e, base, altBase, exchange, items, altItems, rfl⟩, rest⟩
  · rintro ⟨_, ⟨e, base, altBase, exchange, items, altItems, rfl⟩, rfl⟩
    exact ⟨e, exchange, ⟨base, items, rfl⟩, ⟨altBase, altItems, rfl⟩, rfl⟩

/-- An executed opcode that moves items obeys its rule. -/
theorem counted_step_moving (listed : i.opcode.byte ∈ movingOpcodes) (bare : i.data = none)
    (executed : m.executing = true) :
    Counted (Exchanged i.opcode.byte m) (ItemFault m.stack m.altStack i.opcode.byte)
      (m.step env pc i) := by
  rw [step_moving listed bare executed]
  refine counted_checkSize (fun m' => ?_) fun e => ?_
  · rw [Except.map_eq_ok_iff, exchanged_iff listed]
    simp only [eq_comm]
  · rw [Except.map_eq_error_iff, (moved_eq_iff listed).2]

end Machine

end TaprootLab

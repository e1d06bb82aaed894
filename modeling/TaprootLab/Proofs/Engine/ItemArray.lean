import TaprootLab.Proofs.Engine.Exchanges

/-!
# Items in an array

A stack that is kept in an array has its top last, and its items are found at indices that are
counted down from the length. Here the operations of `Exchanges` are written in this way, with every
subtraction, access, removal, insertion and swap checked (`ArrayError.outOfRange`). An operation
only reaches as far as the items that it takes, so it does to `base ++ items` what it does to
`items` (the lemmas that end in `append`). That it gives what the list gives (`arranged_eq`) then
shows that no check ever fails.
-/

namespace TaprootLab

/-! ## Arrays of items -/

/-- How a computation on arrays ends if it does not yield items. -/
inductive ArrayError where
  | refused (error : ScriptError)
  | outOfRange
  deriving DecidableEq

/-- Items in the order in which they were pushed. -/
abbrev ItemArray := List Bytes

namespace ItemArray

variable (items : ItemArray)

def takeLast (absent : ScriptError) : Except ArrayError (Bytes × ItemArray) :=
  match items.getLast? with
  | some x => .ok (x, items.dropLast)
  | none => .error (.refused absent)

/-- A copy of the item so many places below the top. -/
def peek (depth : Nat) : Except ArrayError Bytes :=
  match if depth + 1 ≤ items.length then items[items.length - (depth + 1)]? else none with
  | some x => .ok x
  | none => .error (.refused .invalidStackOperation)

/-- Goes on only with as many items. -/
def require (n : Nat) : Except ArrayError Unit :=
  if items.length < n then .error (.refused .invalidStackOperation) else .ok ()

/-- The index so many places from the end. -/
def fromEnd (n : Nat) : Except ArrayError Nat :=
  if n ≤ items.length then .ok (items.length - n) else .error .outOfRange

def get (i : Nat) : Except ArrayError Bytes :=
  match items[i]? with
  | some x => .ok x
  | none => .error .outOfRange

/-- Takes an item out, the later ones move down. -/
def remove (i : Nat) : Except ArrayError (Bytes × ItemArray) :=
  match items[i]? with
  | some x => .ok (x, items.eraseIdx i)
  | none => .error .outOfRange

/-- Puts an item in, the later ones move up. -/
def insert (i : Nat) (x : Bytes) : Except ArrayError ItemArray :=
  if i ≤ items.length then .ok (items.take i ++ x :: items.drop i) else .error .outOfRange

def swap (i j : Nat) : Except ArrayError ItemArray :=
  match items[i]?, items[j]? with
  | some x, some y => .ok ((items.set i y).set j x)
  | _, _ => .error .outOfRange

/-- Takes out the items from one index up to another. -/
def drain (start stop : Nat) : Except ArrayError (ItemArray × ItemArray) :=
  if start ≤ stop ∧ stop ≤ items.length then
    .ok ((items.take stop).drop start, items.take start ++ items.drop stop)
  else .error .outOfRange

end ItemArray

/-! ## The operations, index by index -/

def ItemArray.takeNumber (items : ItemArray) : Except ArrayError (Int × ItemArray) := do
  let (item, items) ← items.takeLast .invalidStackOperation
  let n ← (operand item).mapError .refused
  return (n, items)

open ItemArray in
/-- What an operation on the stacks does to the arrays that hold them. -/
def StackOp.arrange (op : StackOp) (items altItems : ItemArray) :
    Except ArrayError (ItemArray × ItemArray) :=
  match op with
  | .toAlt => do
    let (x, items) ← items.takeLast .invalidStackOperation
    return (items, altItems ++ [x])
  | .fromAlt => do
    let (x, altItems) ← altItems.takeLast .invalidAltstackOperation
    return (items ++ [x], altItems)
  | .drop2 => do
    items.require 2
    let left ← items.fromEnd 2
    return (items.take left, altItems)
  | .dup2 => do
    let x ← items.peek 1
    let y ← items.peek 0
    return (items ++ [x] ++ [y], altItems)
  | .dup3 => do
    let x ← items.peek 2
    let y ← items.peek 1
    let z ← items.peek 0
    return (items ++ [x] ++ [y] ++ [z], altItems)
  | .over2 => do
    let x ← items.peek 3
    let y ← items.peek 2
    return (items ++ [x] ++ [y], altItems)
  | .rot2 => do
    items.require 6
    let start ← items.fromEnd 6
    let (front, items) ← items.drain start (start + 2)
    return (items ++ front, altItems)
  | .swap2 => do
    items.require 4
    let a ← items.fromEnd 4
    let b ← items.fromEnd 2
    let swapped ← items.swap a b
    let c ← items.fromEnd 3
    let d ← items.fromEnd 1
    let swapped ← swapped.swap c d
    return (swapped, altItems)
  | .ifDup => do
    let x ← items.peek 0
    return (if ScriptNumber.truthy x then items ++ [x] else items, altItems)
  | .depth => return (items ++ [ScriptNumber.encode items.length], altItems)
  | .drop => do
    let (_, items) ← items.takeLast .invalidStackOperation
    return (items, altItems)
  | .dup => do
    let x ← items.peek 0
    return (items ++ [x], altItems)
  | .nip => do
    items.require 2
    let i ← items.fromEnd 2
    let (_, items) ← items.remove i
    return (items, altItems)
  | .over => do
    let x ← items.peek 1
    return (items ++ [x], altItems)
  | .pick => do
    let (n, items) ← items.takeNumber
    if n < 0 ∨ items.length ≤ n.toNat then .error (.refused .invalidStackOperation)
    else do
      let i ← items.fromEnd (1 + n.toNat)
      let x ← items.get i
      return (items ++ [x], altItems)
  | .roll => do
    let (n, items) ← items.takeNumber
    if n < 0 ∨ items.length ≤ n.toNat then .error (.refused .invalidStackOperation)
    else do
      let i ← items.fromEnd (1 + n.toNat)
      let (x, items) ← items.remove i
      return (items ++ [x], altItems)
  | .rot => do
    items.require 3
    let i ← items.fromEnd 3
    let (x, items) ← items.remove i
    return (items ++ [x], altItems)
  | .swap => do
    items.require 2
    let i ← items.fromEnd 2
    let j ← items.fromEnd 1
    let swapped ← items.swap i j
    return (swapped, altItems)
  | .tuck => do
    items.require 2
    let x ← items.peek 0
    let i ← items.fromEnd 2
    let items ← items.insert i x
    return (items, altItems)
  | .size => do
    let x ← items.peek 0
    return (items ++ [ScriptNumber.encode x.length], altItems)

/-- The arrays behind an operation that moves items. -/
def Operation.arrange (items altItems : ItemArray) :
    Operation → Except ArrayError (ItemArray × ItemArray)
  | .stack op => op.arrange items altItems
  | .equal => do
    let (b, items) ← items.takeLast .invalidStackOperation
    let (a, items) ← items.takeLast .invalidStackOperation
    return (items ++ [ScriptNumber.ofBool (a == b)], altItems)
  | .equalVerify => do
    let (b, items) ← items.takeLast .invalidStackOperation
    let (a, items) ← items.takeLast .invalidStackOperation
    if a ≠ b then .error (.refused .equalVerify) else return (items, altItems)
  | _ => return (items, altItems)

def arranged (opcode : UInt8) (items altItems : ItemArray) :
    Except ArrayError (ItemArray × ItemArray) :=
  (Opcode.operation ⟨opcode⟩).arrange items altItems

/-! ## What lies below does not matter -/

namespace ItemArray

variable {base items : ItemArray}

theorem takeLast_append {x : Bytes} {absent : ScriptError} :
    takeLast (base ++ x :: items) absent =
      .ok ((x :: items).getLast (List.cons_ne_nil x items), base ++ (x :: items).dropLast) := by
  rw [takeLast, List.getLast?_append_of_ne_nil _ (List.cons_ne_nil x items),
    List.getLast?_eq_some_getLast, List.dropLast_append_of_ne_nil (List.cons_ne_nil x items)]

theorem takeNumber_append {index : Bytes} {n : Int} (number : Operand index n) :
    takeNumber (base ++ [index]) = .ok (n, base) := by
  rw [takeNumber, takeLast_append]
  simp [operand_eq_ok_iff.mpr number, Except.mapError]

theorem peek_append {depth : Nat} (inside : depth < items.length) :
    (base ++ items).peek depth = items.peek depth := by
  have place : base.length + items.length - (depth + 1) =
      base.length + (items.length - (depth + 1)) := by omega
  rw [peek, peek, List.length_append, if_pos (by omega : depth + 1 ≤ _),
    if_pos (Nat.succ_le_of_lt inside), place, List.getElem?_append_right (Nat.le_add_right _ _),
    Nat.add_sub_cancel_left]

theorem require_append {n : Nat} (enough : n ≤ items.length) :
    (base ++ items).require n = .ok () := by
  rw [require, List.length_append, if_neg (by omega)]

theorem fromEnd_append {n : Nat} (enough : n ≤ items.length) :
    (base ++ items).fromEnd n = .ok (base.length + (items.length - n)) := by
  rw [fromEnd, List.length_append, if_pos (by omega), Nat.add_sub_assoc enough]

theorem remove_append (i : Nat) :
    (base ++ items).remove (base.length + i) = (items.remove i).map fun r =>
      (r.1, base ++ r.2) := by
  rw [remove, remove, List.getElem?_append_right (Nat.le_add_right _ _), Nat.add_sub_cancel_left,
    List.eraseIdx_append_of_length_le (Nat.le_add_right _ _), Nat.add_sub_cancel_left]
  cases items[i]? <;> rfl

theorem insert_append (i : Nat) (x : Bytes) :
    (base ++ items).insert (base.length + i) x = (items.insert i x).map (base ++ ·) := by
  rw [insert, insert, List.length_append, Except.map_ite, List.take_length_add_append,
    List.drop_length_add_append, List.append_assoc]
  exact if_congr (Nat.add_le_add_iff_left) rfl rfl

theorem swap_append (i j : Nat) :
    (base ++ items).swap (base.length + i) (base.length + j) =
      (items.swap i j).map (base ++ ·) := by
  simp only [swap, List.getElem?_append_right (Nat.le_add_right _ _), Nat.add_sub_cancel_left,
    List.set_append_right _ _ (Nat.le_add_right _ _)]
  rcases items[i]? with _ | x <;> rcases items[j]? with _ | y <;> rfl

theorem drain_append (start stop : Nat) :
    (base ++ items).drain (base.length + start) (base.length + stop)
      = (items.drain start stop).map fun r => (r.1, base ++ r.2) := by
  rw [drain, drain, List.length_append, Except.map_ite, List.take_length_add_append,
    List.take_length_add_append, List.drop_length_add_append, List.drop_length_add_append,
    List.append_assoc]
  exact if_congr (and_congr Nat.add_le_add_iff_left Nat.add_le_add_iff_left) rfl rfl

end ItemArray

section
variable {opcode : UInt8} {items altItems : ItemArray}

theorem arranged_opcode (op : StackOp) :
    arranged op.opcode items altItems = op.arrange items altItems := by
  cases op <;> rfl

open ItemArray in
/-- An exchange takes place in the arrays. -/
theorem arranged_of_exchange {e : Exchange} {base altBase : ItemArray} {depth : Nat}
    (exchange : Exchanges depth opcode e) (height : depth = (base ++ e.taken).length) :
    arranged opcode (base ++ e.taken) (altBase ++ e.altTaken) =
      .ok (base ++ e.left, altBase ++ e.altLeft) := by
  cases exchange with
  | toAltStack x =>
    refine (arranged_opcode .toAlt).trans ?_
    simp [StackOp.arrange, takeLast_append]
  | fromAltStack x =>
    refine (arranged_opcode .fromAlt).trans ?_
    simp [StackOp.arrange, takeLast_append]
  | drop2 x₁ x₂ =>
    refine (arranged_opcode .drop2).trans ?_
    simp [StackOp.arrange, require_append, fromEnd_append]
  | dup2 x₁ x₂ =>
    refine (arranged_opcode .dup2).trans ?_
    simp [StackOp.arrange, peek]
  | dup3 x₁ x₂ x₃ =>
    refine (arranged_opcode .dup3).trans ?_
    simp [StackOp.arrange, peek]
  | over2 x₁ x₂ x₃ x₄ =>
    refine (arranged_opcode .over2).trans ?_
    simp [StackOp.arrange, peek]
  | rot2 x₁ x₂ x₃ x₄ x₅ x₆ =>
    refine (arranged_opcode .rot2).trans ?_
    -- the indices stay sums with the length of `base`, which is the form in which the array below
    -- drops out
    simp (disch := simp) only [StackOp.arrange, require_append, fromEnd_append, Nat.add_assoc,
      drain_append, Except.ok_bind]
    simp [drain, Except.map]
  | swap2 x₁ x₂ x₃ x₄ =>
    refine (arranged_opcode .swap2).trans ?_
    simp (disch := simp) only [StackOp.arrange, require_append, fromEnd_append, swap_append,
      Except.ok_bind]
    simp [ItemArray.swap, Except.map]
  | depth =>
    refine (arranged_opcode .depth).trans ?_
    simp [StackOp.arrange, height]
  | drop x =>
    refine (arranged_opcode .drop).trans ?_
    simp [StackOp.arrange, takeLast_append]
  | dup x =>
    refine (arranged_opcode .dup).trans ?_
    simp [StackOp.arrange, peek]
  | nip x₁ x₂ =>
    refine (arranged_opcode .nip).trans ?_
    simp (disch := simp) only [StackOp.arrange, require_append, fromEnd_append, remove_append,
      Except.ok_bind]
    simp [remove, Except.map]
  | over1 x₁ x₂ =>
    refine (arranged_opcode .over).trans ?_
    simp [StackOp.arrange, peek]
  | rot x₁ x₂ x₃ =>
    refine (arranged_opcode .rot).trans ?_
    simp (disch := simp) only [StackOp.arrange, require_append, fromEnd_append, remove_append,
      Except.ok_bind]
    simp [remove, Except.map]
  | swap x₁ x₂ =>
    refine (arranged_opcode .swap).trans ?_
    simp (disch := simp) only [StackOp.arrange, require_append, fromEnd_append, swap_append,
      Except.ok_bind]
    simp [ItemArray.swap, Except.map]
  | tuck x₁ x₂ =>
    refine (arranged_opcode .tuck).trans ?_
    simp (disch := simp) only [StackOp.arrange, require_append, peek_append, fromEnd_append,
      insert_append, Except.ok_bind]
    simp [peek, ItemArray.insert, Except.map]
  | size x =>
    refine (arranged_opcode .size).trans ?_
    simp [StackOp.arrange, peek]
  | pick x number =>
    refine (arranged_opcode .pick).trans ?_
    -- first the index comes off the end, then the item that it names is counted from there
    simp only [← List.append_assoc]
    simp only [StackOp.arrange, takeNumber_append number, Except.ok_bind]
    rw [if_neg (by simp; omega), fromEnd_append (by simp [Nat.add_comm])]
    simp [Nat.add_comm, ItemArray.get]
  | roll x number =>
    refine (arranged_opcode .roll).trans ?_
    simp only [← List.append_assoc]
    simp only [StackOp.arrange, takeNumber_append number, Except.ok_bind]
    rw [if_neg (by simp; omega), fromEnd_append (by simp [Nat.add_comm])]
    simp [Nat.add_comm, ItemArray.remove, List.eraseIdx_append_of_length_le]
  | ifDup nonzero =>
    refine (arranged_opcode .ifDup).trans ?_
    simp [StackOp.arrange, peek, ScriptNumber.truthy_iff, nonzero]
  | ifDupZero zero =>
    refine (arranged_opcode .ifDup).trans ?_
    simp [StackOp.arrange, peek, ScriptNumber.truthy_iff, zero]
  | unequal differ =>
    show Operation.arrange _ _ .equal = _
    simp [Operation.arrange, takeLast_append, differ, ScriptNumber.ofBool]
  | equal x =>
    show Operation.arrange _ _ .equal = _
    simp [Operation.arrange, takeLast_append, ScriptNumber.ofBool]
  | equalVerify x =>
    show Operation.arrange _ _ .equalVerify = _
    simp [Operation.arrange, takeLast_append]

/-! ## Too few items, or no index -/

namespace ItemArray

theorem require_of_short {n : Nat} (few : items.length < n) :
    items.require n = .error (.refused .invalidStackOperation) := if_pos few

theorem peek_of_short {depth : Nat} (few : items.length < depth + 1) :
    items.peek depth = .error (.refused .invalidStackOperation) := by
  rw [peek, if_neg (Nat.not_le.mpr few)]

theorem takeNumber_of_fault {index : Bytes} {e : ScriptError} (fault : OperandFault index e) :
    takeNumber (items ++ [index]) = .error (.refused e) := by
  rw [takeNumber, takeLast_append]
  simp [operand_eq_error_iff.mpr fault, Except.mapError]

end ItemArray

theorem StackOp.arrange_of_short {op : StackOp} (few : items.length < itemsNeeded op.opcode) :
    op.arrange items altItems = .error (.refused .invalidStackOperation) := by
  cases op with
  | fromAlt | depth => cases few
  | toAlt | drop | pick | roll =>
    obtain rfl : items = [] := List.length_eq_zero_iff.mp (Nat.lt_one_iff.mp few)
    rfl
  | drop2 | rot2 | swap2 | nip | rot | swap | tuck =>
    simp only [itemsNeeded, opcode] at few
    rw [arrange, ItemArray.require_of_short few]
    rfl
  | _ =>
    simp only [itemsNeeded, opcode] at few
    rw [arrange, ItemArray.peek_of_short few]
    rfl

theorem arrange_fetch_of_fault {op : StackOp} (fetches : op = .pick ∨ op = .roll) {index : Bytes}
    {e : ScriptError} (fault : OperandFault index e) :
    op.arrange (items ++ [index]) altItems = .error (.refused e) := by
  rcases fetches with rfl | rfl
    <;> rw [StackOp.arrange, ItemArray.takeNumber_of_fault fault] <;> rfl

theorem arrange_fetch_of_outside {op : StackOp} (fetches : op = .pick ∨ op = .roll) {index : Bytes}
    {n : Int} (number : Operand index n) (outside : n < 0 ∨ items.length ≤ n) :
    op.arrange (items ++ [index]) altItems = .error (.refused .invalidStackOperation) := by
  have refused : n < 0 ∨ items.length ≤ n.toNat := by omega
  rcases fetches with rfl | rfl <;>
    exact (congrArg (· >>= _) (ItemArray.takeNumber_append number)).trans (if_pos refused)

/-- What is at fault with the items is reported, whatever holds them. -/
theorem arranged_of_fault (listed : opcode ∈ movingOpcodes) {stack altStack : List Bytes}
    {e : ScriptError} (fault : ItemFault stack altStack opcode e) :
    arranged opcode stack.reverse altStack.reverse = .error (.refused e) := by
  cases fault with
  | tooFew few =>
    rw [← List.length_reverse] at few
    rcases movingOpcodes_cases listed with ⟨op, rfl⟩ | rfl | rfl
    · rw [arranged_opcode, StackOp.arrange_of_short few]
    all_goals
      match stack.reverse, few with
      | [], _ => rfl
      | [_], _ => rfl
  | noAltItem empty =>
    rw [empty]
    rfl
  | noIndex fetches top fault =>
    obtain ⟨op, fetch, rfl⟩ := exists_fetch fetches
    rw [arranged_opcode, top, List.reverse_reverse]
    exact arrange_fetch_of_fault fetch fault
  | outOfReach fetches top number outside =>
    obtain ⟨op, fetch, rfl⟩ := exists_fetch fetches
    rw [arranged_opcode, top, List.reverse_reverse]
    exact arrange_fetch_of_outside fetch number outside
  | mismatch top differ =>
    rw [top, List.reverse_reverse]
    show Operation.arrange _ _ .equalVerify = _
    simp [Operation.arrange, ItemArray.takeLast_append, differ]

/-- The array holds what the stack holds, and no index is out of range. -/
theorem arranged_eq (listed : opcode ∈ movingOpcodes) (stack altStack : List Bytes) :
    arranged opcode stack.reverse altStack.reverse =
      ((moved opcode stack altStack).map fun r =>
        (r.1.reverse, r.2.reverse)).mapError .refused := by
  rcases finds_or_fault listed stack altStack with
    ⟨e, base, altBase, exchange, split, altSplit⟩ | ⟨e, fault⟩
  · rw [moved_of_exchange exchange split altSplit, split, altSplit, List.reverse_reverse,
      List.reverse_reverse, arranged_of_exchange exchange (by rw [split, List.length_reverse])]
    simp [Except.map, Except.mapError]
  · rw [moved_of_fault listed fault, arranged_of_fault listed fault]
    rfl

end

namespace Machine

/-- An executed opcode that moves items obeys its rule at any depth, and in an array it finds its
items at indices that are all in range. -/
theorem step_moves_items {env : Env} {m : Machine} {pc : Nat} {i : Instruction}
    (listed : i.opcode.byte ∈ movingOpcodes) (bare : i.data = none)
    (executed : m.executing = true) :
    Counted (Exchanged i.opcode.byte m) (ItemFault m.stack m.altStack i.opcode.byte)
      (m.step env pc i) ∧
      ∃ r : Except ScriptError (ItemArray × ItemArray),
        arranged i.opcode.byte m.stack.reverse m.altStack.reverse = r.mapError .refused ∧
          m.step env pc i = r.map (fun arrays =>
            m.withItems (arrays.1.reverse, arrays.2.reverse)) >>= checkSize := by
  refine ⟨counted_step_moving listed bare executed, _, arranged_eq listed m.stack m.altStack, ?_⟩
  rw [step_moving listed bare executed]
  cases moved i.opcode.byte m.stack m.altStack with
  | error e => rfl
  | ok r =>
    show (m.withItems r).checkSize =
        (m.withItems (r.1.reverse.reverse, r.2.reverse.reverse)).checkSize
    rw [List.reverse_reverse, List.reverse_reverse]

/-- Five items, the top of which is the number two. -/
def rolledMachine : Machine := ⟨[[2], [0x0c], [0x0b], [0x0a], [0x09]], [], [true], none, 0⟩

/-- An item two places below the top is moved there. -/
theorem step_moves_items_rolledMachine :
    0x7a ∈ movingOpcodes ∧ rolledMachine.executing = true ∧
      rolledMachine.step Env.unsigned 0 ⟨⟨0x7a⟩, none, 0, 1, false⟩ =
        .ok { rolledMachine with stack := [[0x0a], [0x0c], [0x0b], [0x09]] } := by
  have number : Operand [2] 2 := operand_eq_ok_iff.mp rfl
  have exchange : Exchanges 5 0x7a
      ⟨[[0x0a], [0x0b], [0x0c], [2]], [[0x0b], [0x0c], [0x0a]], [], []⟩ :=
    @Exchanges.roll 5 [0x0a] [[0x0b], [0x0c]] [2] number
  have moves :=
    (@step_moves_items Env.unsigned rolledMachine 0 ⟨⟨0x7a⟩, none, 0, 1, false⟩
      (by decide) rfl rfl).1
  exact ⟨by decide, rfl, (moves.passes _).mpr
    ⟨⟨_, exchange, ⟨[[0x09]], rfl, rfl⟩, ⟨[], rfl, rfl⟩, rfl⟩, by decide⟩⟩

end Machine

end TaprootLab

import TaprootLab.Engine.Operation
import TaprootLab.Engine.Run
import TaprootLab.Script.Instruction

/-!
# The stack machine

One instruction at a time on two stacks. Conditionals are a stack of flags, one for each open
branch; an instruction takes effect only if all flags are set. What a signature check answers and
what the lock times are compared with come from outside, so a run can be studied for any of them.
-/

namespace TaprootLab

def maxItemSize : Nat := 520

/-- The most items on both stacks together. -/
def maxStackSize : Nat := 1000

/-- Answers a signature check under a budget and the position of the last executed code separator;
gives back what is left of the budget. -/
abbrev SignatureCheck :=
  (budget : Int) → (separator : Option Nat) → (signature key : Bytes) →
    Except ScriptError (Bool × Int)

/-- What an instruction can ask about the spend. -/
structure Env where
  signedVersion : Int
  lockTime : UInt32
  sequence : UInt32
  checkSignature : SignatureCheck

/-- The state between two instructions. -/
structure Machine where
  /-- Listed from the top. -/
  stack : List Bytes
  /-- Listed from the top. -/
  altStack : List Bytes
  /-- Whether each open branch is taken, the innermost first. -/
  conditions : List Bool
  /-- The position of the last executed code separator. -/
  separator : Option Nat
  budget : Int
  deriving DecidableEq, Repr

namespace Machine

def start (stack : List Bytes) (budget : Int) : Machine := ⟨stack, [], [], none, budget⟩

/-- Whether no open branch is skipped. -/
def executing (m : Machine) : Bool := m.conditions.all id

def withStack (m : Machine) (stack : List Bytes) : Machine := { m with stack }

def checkSize (m : Machine) : Except ScriptError Machine :=
  if maxStackSize < m.stack.length + m.altStack.length then .error .stackSize else .ok m

end Machine

/-! ## Operands -/

/-- An item as a number of at most `size` bytes. -/
def numberOfSize (size : Nat) (item : Bytes) : Except ScriptError Int :=
  if !ScriptNumber.isMinimal item then .error .minimalData
  else
    match ScriptNumber.decode? size item with
    | some n => .ok n
    | none => .error .numOverflow

def operand (item : Bytes) : Except ScriptError Int := numberOfSize ScriptNumber.operandSize item

/-- The item on top and those below. -/
def pop : List Bytes → Except ScriptError (Bytes × List Bytes)
  | [] => .error .invalidStackOperation
  | item :: rest => .ok (item, rest)

def popNumber (stack : List Bytes) : Except ScriptError (Int × List Bytes) := do
  let (item, rest) ← pop stack
  return (← operand item, rest)

/-- The item as many places below the top as `n` says, if there is one. -/
def depthOf (n : Int) (stack : List Bytes) : Except ScriptError (Bytes × Nat) :=
  if n < 0 then .error .invalidStackOperation
  else
    match stack[n.toNat]? with
    | some item => .ok (item, n.toNat)
    | none => .error .invalidStackOperation

/-! ## Families of operations -/

/-- Moves or copies items between the two stacks, given and returned from the top. -/
def StackOp.apply (op : StackOp) (stack alt : List Bytes) :
    Except ScriptError (List Bytes × List Bytes) :=
  match op with
  | .toAlt =>
    match stack with
    | x :: s => .ok (s, x :: alt)
    | _ => .error .invalidStackOperation
  | .fromAlt =>
    match alt with
    | x :: a => .ok (x :: stack, a)
    | _ => .error .invalidAltstackOperation
  | .drop2 =>
    match stack with
    | _ :: _ :: s => .ok (s, alt)
    | _ => .error .invalidStackOperation
  | .dup2 =>
    match stack with
    | x :: y :: s => .ok (x :: y :: x :: y :: s, alt)
    | _ => .error .invalidStackOperation
  | .dup3 =>
    match stack with
    | x :: y :: z :: s => .ok (x :: y :: z :: x :: y :: z :: s, alt)
    | _ => .error .invalidStackOperation
  | .over2 =>
    match stack with
    | x :: y :: z :: w :: s => .ok (z :: w :: x :: y :: z :: w :: s, alt)
    | _ => .error .invalidStackOperation
  | .rot2 =>
    match stack with
    | x :: y :: z :: w :: u :: v :: s => .ok (u :: v :: x :: y :: z :: w :: s, alt)
    | _ => .error .invalidStackOperation
  | .swap2 =>
    match stack with
    | x :: y :: z :: w :: s => .ok (z :: w :: x :: y :: s, alt)
    | _ => .error .invalidStackOperation
  | .ifDup =>
    match stack with
    | x :: s => .ok (if ScriptNumber.truthy x then x :: x :: s else x :: s, alt)
    | _ => .error .invalidStackOperation
  | .depth => .ok (ScriptNumber.encode stack.length :: stack, alt)
  | .drop =>
    match stack with
    | _ :: s => .ok (s, alt)
    | _ => .error .invalidStackOperation
  | .dup =>
    match stack with
    | x :: s => .ok (x :: x :: s, alt)
    | _ => .error .invalidStackOperation
  | .nip =>
    match stack with
    | x :: _ :: s => .ok (x :: s, alt)
    | _ => .error .invalidStackOperation
  | .over =>
    match stack with
    | x :: y :: s => .ok (y :: x :: y :: s, alt)
    | _ => .error .invalidStackOperation
  | .pick => do
    let (n, s) ← popNumber stack
    let (item, _) ← depthOf n s
    return (item :: s, alt)
  | .roll => do
    let (n, s) ← popNumber stack
    let (item, i) ← depthOf n s
    return (item :: s.eraseIdx i, alt)
  | .rot =>
    match stack with
    | x :: y :: z :: s => .ok (z :: x :: y :: s, alt)
    | _ => .error .invalidStackOperation
  | .swap =>
    match stack with
    | x :: y :: s => .ok (y :: x :: s, alt)
    | _ => .error .invalidStackOperation
  | .tuck =>
    match stack with
    | x :: y :: s => .ok (x :: y :: x :: s, alt)
    | _ => .error .invalidStackOperation
  | .size =>
    match stack with
    | x :: s => .ok (ScriptNumber.encode x.length :: x :: s, alt)
    | _ => .error .invalidStackOperation

/-- Lock times from here on are seconds, below they are heights. -/
def lockTimeThreshold : Int := 500000000

/-- The sequence number that switches the lock time of its input off. -/
def finalSequence : UInt32 := 0xffffffff

/-- The lock time of the transaction must be of the same kind as the one asked for and not before
it, and the input must not have it switched off. -/
def checkLockTime (env : Env) (stack : List Bytes) : Except ScriptError Unit := do
  let (item, _) ← pop stack
  let wanted ← numberOfSize 5 item
  let given : Int := env.lockTime.toNat
  if wanted < 0 then throw .negativeLocktime
  else if decide (wanted < lockTimeThreshold) != decide (given < lockTimeThreshold)
      || given < wanted || env.sequence == finalSequence then
    throw .unsatisfiedLocktime

/-- The bit that switches a relative lock off. -/
def relativeLockDisabled (n : Nat) : Bool := n.testBit 31

/-- The bit that makes a relative lock count time and not blocks. -/
def relativeLockInTime (n : Nat) : Bool := n.testBit 22

/-- The bits that say how long a relative lock is. -/
def relativeLockLength (n : Nat) : Nat := n % 0x10000

/-- The relative lock of the input must be on, of the same kind as the one asked for and not
shorter, unless the one asked for is switched off. -/
def checkSequence (env : Env) (stack : List Bytes) : Except ScriptError Unit := do
  let (item, _) ← pop stack
  let n ← numberOfSize 5 item
  let wanted := n.toNat
  let given := env.sequence.toNat
  if n < 0 then throw .negativeLocktime
  else if relativeLockDisabled wanted then return
  else if env.signedVersion < 2 || relativeLockDisabled given then throw .unsatisfiedLocktime
  else if relativeLockInTime wanted != relativeLockInTime given
      || relativeLockLength given < relativeLockLength wanted then
    throw .unsatisfiedLocktime

/-- The argument of a conditional, which has to be one of the two standard truth values. -/
def branchArgument : Bytes → Except ScriptError Bool
  | [] => .ok false
  | [1] => .ok true
  | _ => .error .tapscriptMinimalIf

/-- Opens, switches or closes a branch. The argument is taken only if the machine is executing. -/
def Machine.openBranch (m : Machine) (negated : Bool) : Except ScriptError Machine :=
  if m.executing then do
    let (item, rest) ← pop m.stack
    let taken ← branchArgument item
    return { m with stack := rest, conditions := (taken != negated) :: m.conditions }
  else .ok { m with conditions := false :: m.conditions }

def Machine.elseBranch (m : Machine) : Except ScriptError Machine :=
  match m.conditions with
  | taken :: outer => .ok { m with conditions := (!taken) :: outer }
  | [] => .error .unbalancedConditional

def Machine.closeBranch (m : Machine) : Except ScriptError Machine :=
  match m.conditions with
  | _ :: outer => .ok { m with conditions := outer }
  | [] => .error .unbalancedConditional

/-- Checks a signature, an empty key being refused first. -/
def Machine.checkSignature (env : Env) (m : Machine) (signature key : Bytes) :
    Except ScriptError (Bool × Machine) := do
  if key.isEmpty then throw .tapscriptEmptyPubkey
  let (valid, budget) ← env.checkSignature m.budget m.separator signature key
  return (valid, { m with budget })

/-- Takes a signature check's operands and uses its outcome. -/
def Machine.useSignature (env : Env) (m : Machine) (use : SignatureUse) :
    Except ScriptError Machine :=
  match use with
  | .push => do
    let (key, rest) ← pop m.stack
    let (signature, rest) ← pop rest
    let (valid, m) ← m.checkSignature env signature key
    return m.withStack (ScriptNumber.ofBool valid :: rest)
  | .verify => do
    let (key, rest) ← pop m.stack
    let (signature, rest) ← pop rest
    let (valid, m) ← m.checkSignature env signature key
    if valid then return m.withStack rest else throw .checkSigVerify
  | .add => do
    let (key, rest) ← pop m.stack
    let (n, rest) ← popNumber rest
    let (signature, rest) ← pop rest
    let (valid, m) ← m.checkSignature env signature key
    return m.withStack (ScriptNumber.encode (n + truthNumber valid) :: rest)

/-- The two items on top, the upper one second, and those below. -/
def popTwo (stack : List Bytes) : Except ScriptError (Bytes × Bytes × List Bytes) := do
  let (b, rest) ← pop stack
  let (a, rest) ← pop rest
  return (a, b, rest)

/-- The two numbers on top, the upper one second, and the items below. -/
def popTwoNumbers (stack : List Bytes) : Except ScriptError (Int × Int × List Bytes) := do
  let (b, rest) ← popNumber stack
  let (a, rest) ← popNumber rest
  return (a, b, rest)

/-- The effect of an operation at position `pc`, the size of the stacks aside. -/
def Machine.perform (env : Env) (m : Machine) (pc : Nat) : Operation → Except ScriptError Machine
  | .number n => .ok (m.withStack (ScriptNumber.encode n :: m.stack))
  | .nop => .ok m
  | .upgradableNop => .error .discourageUpgradableNops
  | .lockTimeVerify => do
    checkLockTime env m.stack
    return m
  | .sequenceVerify => do
    checkSequence env m.stack
    return m
  | .openBranch negated => m.openBranch negated
  | .elseBranch => m.elseBranch
  | .closeBranch => m.closeBranch
  | .verify => do
    let (item, rest) ← pop m.stack
    if ScriptNumber.truthy item then return m.withStack rest else throw .verify
  | .giveUp => .error .opReturn
  | .stack op => do
    let (stack, altStack) ← op.apply m.stack m.altStack
    return { m with stack, altStack }
  | .equal => do
    let (a, b, rest) ← popTwo m.stack
    return m.withStack (ScriptNumber.ofBool (a == b) :: rest)
  | .equalVerify => do
    let (a, b, rest) ← popTwo m.stack
    if a == b then return m.withStack rest else throw .equalVerify
  | .unary op => do
    let (n, rest) ← popNumber m.stack
    return m.withStack (ScriptNumber.encode (op.eval n) :: rest)
  | .binary op => do
    let (a, b, rest) ← popTwoNumbers m.stack
    return m.withStack (ScriptNumber.encode (op.eval a b) :: rest)
  | .numEqualVerify => do
    let (a, b, rest) ← popTwoNumbers m.stack
    if a == b then return m.withStack rest else throw .numEqualVerify
  | .within => do
    let (low, high, rest) ← popTwoNumbers m.stack
    let (x, rest) ← popNumber rest
    return m.withStack (ScriptNumber.ofBool (low ≤ x && x < high) :: rest)
  | .digest op => do
    let (item, rest) ← pop m.stack
    return m.withStack (op.eval item :: rest)
  | .codeSeparator => .ok { m with separator := some pc }
  | .checkSig use => m.useSignature env use
  | .checkMultiSig => .error .tapscriptCheckMultiSig
  | .versionBranch => .error .badOpcode
  | .invalid => .error .badOpcode

/-- What makes an instruction fail even where it is skipped. -/
def Instruction.refused? (i : Instruction) : Option ScriptError :=
  if i.data.any fun data => maxItemSize < data.length then some .pushSize
  else
    match i.opcode.operation with
    | .versionBranch => some .badOpcode
    | .checkMultiSig => some .tapscriptCheckMultiSig
    | _ => none

def Machine.pushData (m : Machine) (i : Instruction) (data : Bytes) : Except ScriptError Machine :=
  if i.truncated then .error .badOpcode
  else if !i.opcode.pushesMinimally data then .error .minimalData
  else .ok (m.withStack (data :: m.stack))

/-- One instruction at position `pc`. -/
def Machine.step (env : Env) (m : Machine) (pc : Nat) (i : Instruction) :
    Except ScriptError Machine :=
  match i.refused? with
  | some e => .error e
  | none =>
    if !m.executing && !i.opcode.operation.isConditional then .ok m
    else
      match i.data with
      | some data => m.pushData i data >>= Machine.checkSize
      | none => m.perform env pc i.opcode.operation >>= Machine.checkSize

/-! ## Scripts -/

/-- The machine as it is shown. -/
def Machine.boundary (m : Machine) (scriptIndex : Nat) (script : Bytes) (pc : Nat) : Boundary :=
  ⟨scriptIndex, pc, script, m.stack, m.altStack⟩

def failAt {α : Type} (scriptIndex pc : Nat) (e : ScriptError) : Run α :=
  .fail (.script e (.ofIndex scriptIndex) pc)

/-- Runs the instructions from position `pc` on, with a boundary before each and one at the end,
where no branch may be open. -/
def Machine.runFrom (env : Env) (scriptIndex : Nat) (script : Bytes) :
    (m : Machine) → (pc : Nat) → List Instruction → Run Machine
  | m, pc, [] =>
    .atBoundary (m.boundary scriptIndex script pc) fun _ =>
      if m.conditions.isEmpty then .done (.ok m)
      else failAt scriptIndex pc .unbalancedConditional
  | m, pc, i :: rest =>
    .atBoundary (m.boundary scriptIndex script pc) fun _ =>
      match m.step env pc i with
      | .ok m => runFrom env scriptIndex script m (pc + 1) rest
      | .error e => failAt scriptIndex pc e

/-- Runs a script from its start. -/
def Machine.run (env : Env) (scriptIndex : Nat) (script : Bytes) (m : Machine) : Run Machine :=
  m.runFrom env scriptIndex script 0 (Script.decode script)

end TaprootLab

import TaprootLab.Proofs.Engine.Execution
import TaprootLab.Proofs.Engine.Operations
import TaprootLab.Proofs.Script.Structured

/-!
# Evaluating structured programs

A structured program needs no flags: a block takes its argument and then evaluates every other one
of its segments, from the first or from the second on (`Program.eval`). The flags that the machine
has do not matter to that (`Program.eval_within`), so a program can be evaluated inside other
conditionals as if it stood alone.
-/

namespace TaprootLab

open Instruction

/-! ## Evaluation -/

/-- Takes the argument of a block off the stack. -/
def Machine.takeArgument (m : Machine) : Except ScriptError (Bool × Machine) := do
  let (item, rest) ← pop m.stack
  let argument ← branchArgument item
  let m ← (m.withStack rest).checkSize
  return (argument, m)

/-- An error with the position of the instruction that fails. -/
def located {α : Type} (pc : Nat) (x : Except ScriptError α) : Except (ScriptError × Nat) α :=
  x.mapError fun e => (e, pc)

/-- Whether a block evaluates its segment number `k`, counted from one: the odd ones on a true
condition and the even ones on a false one. -/
def chosen (condition : Bool) (k : Nat) : Bool := if condition then k % 2 == 1 else k % 2 == 0

mutual

/-- What a program does to a machine, its first instruction standing at position `pc`. -/
def Program.eval (env : Env) : Program → (m : Machine) → (pc : Nat) →
    Except (ScriptError × Nat) Machine
  | .done, m, _ => .ok m
  | .plain i _ rest, m, pc => do
    let m ← located pc (m.effect env pc i >>= Machine.checkSize)
    rest.eval env m (pc + 1)
  | .block negated _ segments rest, m, pc => do
    let (argument, m) ← located pc m.takeArgument
    let m ← segments.eval env (argument != negated) 1 m (pc + 1)
    rest.eval env m (pc + 1 + segments.flatten.length)

/-- What the segments of a block do from number `k` on. -/
def Segments.eval (env : Env) (condition : Bool) :
    Segments → (k : Nat) → (m : Machine) → (pc : Nat) →
    Except (ScriptError × Nat) Machine
  | .last body _, k, m, pc => if chosen condition k then body.eval env m pc else .ok m
  | .more body _ others, k, m, pc =>
    (if chosen condition k then body.eval env m pc else .ok m) >>= fun m =>
      others.eval env condition (k + 1) m (pc + body.flatten.length + 1)

end

theorem chosen_one (condition : Bool) : chosen condition 1 = condition := by cases condition <;> rfl

theorem chosen_succ (condition : Bool) (k : Nat) :
    chosen condition (k + 1) = !chosen condition k := by
  rcases Nat.mod_two_eq_zero_or_one k with even | odd
  · have next : (k + 1) % 2 = 1 := by omega
    cases condition <;> simp [chosen, even, next]
  · have next : (k + 1) % 2 = 0 := by omega
    cases condition <;> simp [chosen, odd, next]

theorem located_bind {α β : Type} {pc : Nat} {x : Except ScriptError α}
    {f : α → Except ScriptError β} :
    located pc (x >>= f) = located pc x >>= fun a => located pc (f a) := by
  cases x <;> rfl

theorem located_map {α β : Type} {pc : Nat} {x : Except ScriptError α} {f : α → β} :
    located pc (x.map f) = (located pc x).map f := by
  cases x <;> rfl

theorem located_eq_ok_iff {α : Type} {pc : Nat} {x : Except ScriptError α} {a : α} :
    located pc x = .ok a ↔ x = .ok a := by
  cases x with
  | error e => constructor <;> rintro ⟨⟩
  | ok b =>
    constructor
    · rintro ⟨⟩
      rfl
    · rintro ⟨⟩
      rfl

namespace Machine

/-! ## Machines inside other conditionals -/

def within (m : Machine) (conditions : List Bool) : Machine := { m with conditions := conditions }

variable {env : Env} {m m' : Machine} {pc : Nat} {is : List Instruction} {cs : List Bool}

@[simp] theorem conditions_within : (m.within cs).conditions = cs := rfl

@[simp] theorem stack_within : (m.within cs).stack = m.stack := rfl

@[simp] theorem altStack_within : (m.within cs).altStack = m.altStack := rfl

@[simp] theorem within_conditions : m.within m.conditions = m := rfl

@[simp] theorem executing_within_cons {c : Bool} :
    (m.within (c :: m.conditions)).executing = (c && m.executing) := rfl

theorem checkSignature_within {signature key : Bytes} :
    (m.within cs).checkSignature env signature key =
      (m.checkSignature env signature key).map (Prod.map id (within · cs)) := by
  rw [checkSignature, checkSignature, Except.map_ite]
  simp only [Except.map_bind]
  rfl

theorem perform_within {op : Operation} (inert : op.isConditional = false) :
    (m.within cs).perform env pc op = (m.perform env pc op).map (within · cs) := by
  cases onStacks : op.onStacks with
  | true =>
    obtain ⟨f, hf⟩ := @exists_perform_eq env pc op onStacks
    have performed (m : Machine) : m.perform env pc op = _ := hf env.checkSignature m
    rw [performed, performed, stack_within, altStack_within]
    cases f m.stack m.altStack <;> rfl
  | false =>
    cases op with
    | openBranch negated => cases inert
    | elseBranch | closeBranch => cases inert
    | checkSig use =>
      -- the check itself is given no flags, and what is done with its outcome looks at none
      cases use <;>
        simp only [perform, useSignature, checkSignature_within, Except.bind_map, Except.map_bind,
          Except.map_ite] <;>
        rfl
    | codeSeparator => rfl
    | _ => cases onStacks

theorem effect_within {i : Instruction} (inert : i.opcode.operation.isConditional = false) :
    (m.within cs).effect env pc i = (m.effect env pc i).map (within · cs) := by
  rw [effect, effect]
  cases i.data with
  | some data =>
    simp only [pushData, Except.map_ite]
    rfl
  | none => exact perform_within inert

theorem checkSize_within : (m.within cs).checkSize = m.checkSize.map (within · cs) := by
  simp only [checkSize, Except.map_ite]
  rfl

theorem takeArgument_within :
    (m.within cs).takeArgument = m.takeArgument.map (Prod.map id (within · cs)) := by
  simp only [takeArgument, Except.map_bind]
  show (pop m.stack >>= _) = _
  congr 1
  funext ⟨item, rest⟩
  congr 1
  funext argument
  show (((m.withStack rest).within cs).checkSize >>= _) = _
  rw [checkSize_within, Except.bind_map]
  rfl

/-- Behind an argument that is taken the flags are what they were before, and there are not too many
items. -/
theorem invariant_of_takeArgument {argument : Bool} (h : m.takeArgument = .ok (argument, m')) :
    m'.conditions = m.conditions ∧ m'.size ≤ maxStackSize := by
  obtain ⟨⟨item, rest⟩, -, h⟩ := Except.bind_eq_ok_iff.mp h
  obtain ⟨argument, -, h⟩ := Except.bind_eq_ok_iff.mp h
  obtain ⟨m₁, counted, h⟩ := Except.bind_eq_ok_iff.mp h
  obtain ⟨rfl, small⟩ := checkSize_eq_ok.mp counted
  cases h
  exact ⟨rfl, small⟩

theorem conditions_of_map_within {ε : Type} {x : Except ε Machine} (same : x = x.map (within · cs))
    (h : x = .ok m') : m'.conditions = cs := by
  rw [h] at same
  have same : m' = m'.within cs := Except.ok.inj same
  rw [same, conditions_within]

theorem conditions_of_effect {i : Instruction} (inert : i.opcode.operation.isConditional = false)
    (h : m.effect env pc i = .ok m') : m'.conditions = m.conditions :=
  conditions_of_map_within (effect_within inert) h

end Machine

theorem Instruction.Straight.inert {i : Instruction} (straight : i.Straight) :
    i.opcode.operation.isConditional = false :=
  (Opcode.operation_of_ordinary (straight.ordinary straight.single)).1

/-! ## Evaluation and the flags -/

open Machine

variable {env : Env}

mutual

/-- A program does the same inside other conditionals. -/
theorem Program.eval_within (p : Program) {m : Machine} {pc : Nat} {cs : List Bool} :
    p.eval env (m.within cs) pc = (p.eval env m pc).map (within · cs) := by
  cases p with
  | done => rfl
  | plain i straight rest =>
    rw [Program.eval, Program.eval, effect_within straight.inert, Except.bind_map, Except.map_bind]
    simp only [checkSize_within]
    rw [← Except.map_bind, located_map, Except.bind_map]
    congr 1
    funext m₁
    exact rest.eval_within
  | block negated offset segments rest =>
    rw [Program.eval, Program.eval, takeArgument_within, located_map, Except.bind_map,
      Except.map_bind]
    congr 1
    funext ⟨argument, m₁⟩
    show (segments.eval env (argument != negated) 1 (m₁.within cs) (pc + 1) >>= _) = _
    rw [segments.eval_within, Except.bind_map, Except.map_bind]
    congr 1
    funext m₂
    exact rest.eval_within

theorem Segments.eval_within (s : Segments) {condition : Bool} {k : Nat} {m : Machine} {pc : Nat}
    {cs : List Bool} :
    s.eval env condition k (m.within cs) pc = (s.eval env condition k m pc).map (within · cs) := by
  cases s with
  | last body offset =>
    rw [Segments.eval, Segments.eval, Except.map_ite, body.eval_within]
    rfl
  | more body offset others =>
    have first : (if chosen condition k then body.eval env (m.within cs) pc
        else .ok (m.within cs)) =
        (if chosen condition k then body.eval env m pc else .ok m).map (within · cs) := by
      rw [Except.map_ite, body.eval_within]
      rfl
    rw [Segments.eval, Segments.eval, first, Except.bind_map, Except.map_bind]
    congr 1
    funext m₁
    exact others.eval_within

end

/-- The flags are behind a program what they were before. -/
theorem Program.conditions_of_eval {p : Program} {m m' : Machine} {pc : Nat}
    (h : p.eval env m pc = .ok m') : m'.conditions = m.conditions :=
  conditions_of_map_within p.eval_within h

theorem Segments.conditions_of_eval {s : Segments} {condition : Bool} {k : Nat} {m m' : Machine}
    {pc : Nat} (h : s.eval env condition k m pc = .ok m') : m'.conditions = m.conditions :=
  conditions_of_map_within s.eval_within h

mutual

theorem Program.size_le_of_eval (p : Program) {m m' : Machine} {pc : Nat}
    (small : m.size ≤ maxStackSize) (h : p.eval env m pc = .ok m') : m'.size ≤ maxStackSize := by
  cases p with
  | done =>
    cases h
    exact small
  | plain i straight rest =>
    obtain ⟨m₁, h₁, h⟩ := Except.bind_eq_ok_iff.mp h
    obtain ⟨m₂, -, counted⟩ := Except.bind_eq_ok_iff.mp (located_eq_ok_iff.mp h₁)
    obtain ⟨rfl, small⟩ := checkSize_eq_ok.mp counted
    exact rest.size_le_of_eval small h
  | block negated offset segments rest =>
    obtain ⟨⟨argument, m₁⟩, taken, h⟩ := Except.bind_eq_ok_iff.mp h
    obtain ⟨m₂, h₂, h⟩ := Except.bind_eq_ok_iff.mp h
    obtain ⟨-, small⟩ := invariant_of_takeArgument (located_eq_ok_iff.mp taken)
    exact rest.size_le_of_eval (segments.size_le_of_eval small h₂) h

theorem Segments.size_le_of_eval (s : Segments) {condition : Bool} {k : Nat} {m m' : Machine}
    {pc : Nat} (small : m.size ≤ maxStackSize) (h : s.eval env condition k m pc = .ok m') :
    m'.size ≤ maxStackSize := by
  cases s with
  | last body offset =>
    rw [Segments.eval] at h
    split at h
    · exact body.size_le_of_eval small h
    · cases h
      exact small
  | more body offset others =>
    obtain ⟨m₁, h₁, h⟩ := Except.bind_eq_ok_iff.mp h
    split at h₁
    · exact others.size_le_of_eval (body.size_le_of_eval small h₁) h
    · cases h₁
      exact others.size_le_of_eval small h

end

/-- Behind a segment the flags are what they were before, and there are not too many items. -/
theorem Program.invariant_of_chosen (p : Program) {c : Bool} {m m' : Machine} {pc : Nat}
    (small : m.size ≤ maxStackSize) (h : (if c then p.eval env m pc else .ok m) = .ok m') :
    m'.conditions = m.conditions ∧ m'.size ≤ maxStackSize := by
  cases c with
  | true => exact ⟨p.conditions_of_eval h, p.size_le_of_eval small h⟩
  | false =>
    cases h
    exact ⟨rfl, small⟩

end TaprootLab

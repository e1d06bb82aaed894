import TaprootLab.Proofs.Engine.Evaluation

/-!
# Conditionals as blocks

The machine keeps one flag for each open block and looks at all of them before each instruction. On
what a structured program is written down as, it does the same as the evaluation of the program,
errors and their positions included, and it comes to the end of no other script
(`result_run_structured`).

The first part is an induction over the program with two statements: where some flag around it is
not set, a program is passed over (`Program.execute_of_skipped`), and where all are set, it is
evaluated (`Program.executes`). The second part goes through the script and counts open blocks.
-/

namespace TaprootLab

open Instruction

namespace Machine

variable {env : Env} {m m' : Machine} {pc : Nat} {is : List Instruction} {cs : List Bool}

/-! ## The instructions of a program -/

theorem execute_cons {i : Instruction} :
    m.execute env pc (i :: is) =
      located pc (m.step env pc i) >>= fun m' => m'.execute env (pc + 1) is := by
  rw [execute]
  cases m.step env pc i <;> rfl

theorem execute_cons_of_step {i : Instruction} (h : m.step env pc i = .ok m') :
    m.execute env pc (i :: is) = m'.execute env (pc + 1) is := by
  rw [execute, h]

theorem step_of_straight {i : Instruction} (straight : i.Straight) (running : m.executing = true) :
    m.step env pc i = m.effect env pc i >>= checkSize := by
  have allowed := straight.refused?
  rw [if_neg straight.single] at allowed
  refine step_of_obeys allowed ?_
  rw [obeys, running, Bool.true_or]

theorem effect_opener {negated : Bool} {offset : Nat} :
    m.effect env pc (opener negated offset) = m.openBranch negated := by
  cases negated <;> rfl

theorem step_opener {negated : Bool} {offset : Nat} (running : m.executing = true) :
    m.step env pc (opener negated offset) = m.takeArgument >>= fun r =>
      .ok (r.2.within ((r.1 != negated) :: m.conditions)) := by
  have allowed : (opener negated offset).refused? = none := by cases negated <;> rfl
  have obeyed : m.obeys (opener negated offset) = true := by rw [obeys, running, Bool.true_or]
  rw [step_of_obeys allowed obeyed, effect_opener, openBranch, if_pos running, takeArgument]
  rcases pop m.stack with e | ⟨item, rest⟩
  · rfl
  · simp only [Except.ok_bind]
    cases branchArgument item with
    | error e => rfl
    | ok argument =>
      show ((m.withStack rest).within ((argument != negated) :: m.conditions)).checkSize =
        ((m.withStack rest).checkSize >>= fun m => .ok (argument, m)) >>= _
      rw [checkSize_within]
      cases (m.withStack rest).checkSize <;> rfl

/-- An opener that is executed sets the flag of its block as the first segment needs it. -/
theorem execute_opener {negated : Bool} {offset : Nat} (running : m.executing = true) :
    m.execute env pc (opener negated offset :: is) = located pc m.takeArgument >>= fun r =>
      (r.2.within (chosen (r.1 != negated) 1 :: r.2.conditions)).execute env (pc + 1) is := by
  rw [execute_cons, step_opener running, located_bind, bind_assoc]
  cases taken : located pc m.takeArgument with
  | error e => rfl
  | ok r =>
    obtain ⟨kept, -⟩ := invariant_of_takeArgument (located_eq_ok_iff.mp taken)
    rw [Except.ok_bind, Except.ok_bind, chosen_one, kept]
    rfl

section
variable {c : Bool} {offset : Nat} (small : m.size ≤ maxStackSize)
include small

theorem step_opener_of_skipped {negated : Bool} (skipped : m.executing = false) :
    m.step env pc (opener negated offset) = .ok (m.within (false :: m.conditions)) := by
  have opened : m.effect env pc (opener negated offset) =
      .ok (m.within (false :: m.conditions)) := by
    rw [effect_opener, openBranch, if_neg (by rw [skipped]; exact Bool.false_ne_true)]
    rfl
  refine step_eq_ok.mpr ⟨?_, .inr ⟨?_, opened, small⟩⟩
  · cases negated <;> rfl
  · rw [obeys, skipped]
    cases negated <;> rfl

theorem step_separator :
    (m.within (c :: cs)).step env pc (mark 0x67 offset) = .ok (m.within ((!c) :: cs)) :=
  step_eq_ok.mpr ⟨rfl, .inr ⟨Bool.or_true _, rfl, small⟩⟩

theorem step_closer : (m.within (c :: cs)).step env pc (mark 0x68 offset) = .ok (m.within cs) :=
  step_eq_ok.mpr ⟨rfl, .inr ⟨Bool.or_true _, rfl, small⟩⟩

end

end Machine

open Machine

variable {env : Env}

/-! ## Programs that are skipped -/

mutual

theorem Program.execute_of_skipped (p : Program) {m : Machine} {pc : Nat} {is : List Instruction}
    (skipped : m.executing = false) (small : m.size ≤ maxStackSize) :
    m.execute env pc (p.flatten ++ is) = m.execute env (pc + p.flatten.length) is := by
  cases p with
  | done => rfl
  | plain i straight rest =>
    have passed : m.step env pc i = .ok m := by
      rw [step_of_plain straight.toPlain skipped, if_neg straight.single]
    rw [Program.flatten, List.cons_append, execute_cons_of_step passed,
      rest.execute_of_skipped skipped small, List.length_cons, Nat.add_assoc, Nat.add_comm 1]
  | block negated offset segments rest =>
    have opened : m.step env pc (opener negated offset) = .ok (m.within (false :: m.conditions)) :=
      step_opener_of_skipped small skipped
    rw [Program.flatten, List.cons_append, execute_cons_of_step opened, List.append_assoc,
      segments.execute_of_skipped skipped small, rest.execute_of_skipped skipped small]
    congr 1
    simp only [List.length_cons, List.length_append]
    omega

/-- Segments in a branch that is skipped leave the block, whatever its own flag. -/
theorem Segments.execute_of_skipped (s : Segments) {m : Machine} {c : Bool} {pc : Nat}
    {is : List Instruction} (skipped : m.executing = false) (small : m.size ≤ maxStackSize) :
    (m.within (c :: m.conditions)).execute env pc (s.flatten ++ is) =
      m.execute env (pc + s.flatten.length) is := by
  have inside : (m.within (c :: m.conditions)).executing = false := by
    rw [executing_within_cons, skipped, Bool.and_false]
  cases s with
  | last body offset =>
    rw [Segments.flatten, List.append_assoc, body.execute_of_skipped inside small,
      List.singleton_append, execute_cons_of_step (step_closer small), within_conditions]
    congr 1
    rw [List.length_append, List.length_singleton]
    omega
  | more body offset others =>
    rw [Segments.flatten, List.append_assoc, body.execute_of_skipped inside small, List.cons_append,
      execute_cons_of_step (step_separator small), others.execute_of_skipped skipped small]
    congr 1
    simp only [List.length_cons, List.length_append]
    omega

end

/-! ## Programs that are executed -/

theorem executing_of_conditions_eq {m m' : Machine} (h : m'.conditions = m.conditions)
    (running : m.executing = true) : m'.executing = true := by
  rw [executing, h]
  exact running

/-- Where all flags are set, what the program is written down as is executed as the program is
evaluated. -/
def Program.Executes (env : Env) (p : Program) : Prop :=
  ∀ (m : Machine) (pc : Nat) (is : List Instruction), m.executing = true →
    m.execute env pc (p.flatten ++ is) =
      p.eval env m pc >>= fun m' => m'.execute env (pc + p.flatten.length) is

/-- The body of a segment is executed or skipped, as the flag of its block says. -/
theorem Program.Executes.execute_within {p : Program} (executes : p.Executes env) (c : Bool)
    {m : Machine} {pc : Nat} {is : List Instruction} (running : m.executing = true)
    (small : m.size ≤ maxStackSize) :
    (m.within (c :: m.conditions)).execute env pc (p.flatten ++ is) =
      (if c then p.eval env m pc else .ok m) >>= fun m' =>
        (m'.within (c :: m.conditions)).execute env (pc + p.flatten.length) is := by
  cases c with
  | false =>
    have skipped : (m.within (false :: m.conditions)).executing = false := rfl
    exact p.execute_of_skipped skipped small
  | true =>
    rw [executes (m.within (true :: m.conditions)) pc is running, p.eval_within, Except.bind_map]
    rfl

mutual

theorem Program.executes (p : Program) : p.Executes env := by
  intro m pc is running
  cases p with
  | done => rfl
  | plain i straight rest =>
    rw [Program.flatten, List.cons_append, execute_cons, step_of_straight straight running,
      Program.eval, bind_assoc]
    cases stepped : located pc (m.effect env pc i >>= checkSize) with
    | error e => rfl
    | ok m₁ =>
      obtain ⟨m₂, done, counted⟩ := Except.bind_eq_ok_iff.mp (located_eq_ok_iff.mp stepped)
      obtain ⟨rfl, -⟩ := checkSize_eq_ok.mp counted
      have kept := conditions_of_effect straight.inert done
      rw [Except.ok_bind, Except.ok_bind,
        rest.executes _ _ _ (executing_of_conditions_eq kept running), List.length_cons,
        Nat.add_assoc,
        Nat.add_comm 1]
  | block negated offset segments rest =>
    rw [Program.flatten, List.cons_append, execute_opener running, Program.eval, bind_assoc]
    cases taken : located pc m.takeArgument with
    | error e => rfl
    | ok r =>
      obtain ⟨argument, m₁⟩ := r
      obtain ⟨kept, small⟩ := invariant_of_takeArgument (located_eq_ok_iff.mp taken)
      have running := executing_of_conditions_eq kept running
      rw [Except.ok_bind, Except.ok_bind, List.append_assoc,
        segments.executes running small, bind_assoc]
      cases evaluated : segments.eval env (argument != negated) 1 m₁ (pc + 1) with
      | error e => rfl
      | ok m₂ =>
        have kept := segments.conditions_of_eval evaluated
        rw [Except.ok_bind, Except.ok_bind,
          rest.executes _ _ _ (executing_of_conditions_eq kept running)]
        congr 1
        funext m₃
        congr 1
        simp only [List.length_cons, List.length_append]
        omega

/-- Segments from number `k` on, the flag of the block being set where a segment is chosen. -/
theorem Segments.executes (s : Segments) {condition : Bool} {k : Nat} {m : Machine} {pc : Nat}
    {is : List Instruction} (running : m.executing = true) (small : m.size ≤ maxStackSize) :
    (m.within (chosen condition k :: m.conditions)).execute env pc (s.flatten ++ is) =
      s.eval env condition k m pc >>= fun m' => m'.execute env (pc + s.flatten.length) is := by
  cases s with
  | last body offset =>
    rw [Segments.flatten, List.append_assoc, body.executes.execute_within _ running small,
      Segments.eval]
    cases evaluated : (if chosen condition k then body.eval env m pc else .ok m) with
    | error e => rfl
    | ok m₁ =>
      obtain ⟨kept, small⟩ := body.invariant_of_chosen small evaluated
      rw [Except.ok_bind, Except.ok_bind, List.singleton_append,
        execute_cons_of_step (step_closer small), ← kept, within_conditions, List.length_append,
        List.length_singleton, Nat.add_assoc]
  | more body offset others =>
    rw [Segments.flatten, List.append_assoc, body.executes.execute_within _ running small,
      Segments.eval, bind_assoc]
    cases evaluated : (if chosen condition k then body.eval env m pc else .ok m) with
    | error e => rfl
    | ok m₁ =>
      obtain ⟨kept, small⟩ := body.invariant_of_chosen small evaluated
      rw [Except.ok_bind, Except.ok_bind, List.cons_append,
        execute_cons_of_step (step_separator small), ← kept, ← chosen_succ,
        others.executes (executing_of_conditions_eq kept running) small]
      congr 1
      funext m₂
      congr 1
      simp only [List.length_cons, List.length_append]
      omega

end

/-! ## Scripts that come to their end -/

/-- What an instruction does to the number of open blocks. -/
inductive Shifts : Instruction → (before after : Nat) → Prop
  | opener {negated : Bool} {offset depth : Nat} : Shifts (opener negated offset) depth (depth + 1)
  | separator {offset depth : Nat} : Shifts (mark 0x67 offset) (depth + 1) (depth + 1)
  | closer {offset depth : Nat} : Shifts (mark 0x68 offset) (depth + 1) depth
  | straight {i : Instruction} {depth : Nat} (straight : i.Straight) : Shifts i depth depth

theorem Shifts.pending {i : Instruction} {before after : Nat} {is : List Instruction}
    (shifts : Shifts i before after) (h : Pending after is) : Pending before (i :: is) := by
  cases shifts with
  | opener => exact h.opener
  | separator => exact h.separator
  | closer => exact h.closer
  | straight straight => exact h.plain straight

namespace Machine

variable {m m' : Machine} {pc : Nat} {i : Instruction}

theorem length_conditions_of_openBranch {negated : Bool} (h : m.openBranch negated = .ok m') :
    m'.conditions.length = m.conditions.length + 1 := by
  rw [openBranch] at h
  split at h
  · obtain ⟨_, -, h⟩ := Except.bind_eq_ok_iff.mp h
    obtain ⟨_, -, h⟩ := Except.bind_eq_ok_iff.mp h
    cases h
    rfl
  · cases h
    rfl

theorem shifts_of_elseBranch {offset : Nat} (h : m.elseBranch = .ok m') :
    Shifts (mark 0x67 offset) m.conditions.length m'.conditions.length := by
  rw [elseBranch] at h
  split at h
  · rename_i opened
    cases h
    rw [opened]
    exact .separator
  · cases h

theorem shifts_of_closeBranch {offset : Nat} (h : m.closeBranch = .ok m') :
    Shifts (mark 0x68 offset) m.conditions.length m'.conditions.length := by
  rw [closeBranch] at h
  split at h
  · rename_i opened
    cases h
    rw [opened]
    exact .closer
  · cases h

/-- A conditional takes effect wherever it stands. -/
theorem effect_of_step (conditional : i.opcode.operation.isConditional = true)
    (h : m.step env pc i = .ok m') : m.effect env pc i = .ok m' := by
  obtain ⟨-, ⟨skipped, -⟩ | ⟨-, done, -⟩⟩ := step_eq_ok.mp h
  · rw [obeys, conditional, Bool.or_true] at skipped
    cases skipped
  · exact done

theorem shifts_of_step (whole : i.truncated = false)
    (alone : i.opcode.operand = .absent → i = mark i.opcode.byte i.offset)
    (h : m.step env pc i = .ok m') : Shifts i m.conditions.length m'.conditions.length := by
  by_cases listed : i.opcode.byte ∈ [0x63, 0x64, 0x67, 0x68]
  · have absent : i.opcode.operand = .absent := by
      obtain ⟨⟨b⟩, data, offset, length, truncated⟩ := i
      simp only [List.mem_cons, List.not_mem_nil, or_false] at listed
      rcases listed with rfl | rfl | rfl | rfl <;> rfl
    rw [alone absent] at h ⊢
    simp only [List.mem_cons, List.not_mem_nil, or_false] at listed
    rcases listed with byte | byte | byte | byte <;> rw [byte] at h ⊢
    · have opened : m.openBranch false = .ok m' := effect_of_step rfl h
      rw [length_conditions_of_openBranch opened]
      exact (.opener : Shifts (opener false i.offset) _ _)
    · have opened : m.openBranch true = .ok m' := effect_of_step rfl h
      rw [length_conditions_of_openBranch opened]
      exact (.opener : Shifts (opener true i.offset) _ _)
    · exact shifts_of_elseBranch (effect_of_step rfl h)
    · exact shifts_of_closeBranch (effect_of_step rfl h)
  · obtain ⟨allowed, done⟩ := step_eq_ok.mp h
    have straight := straight_of_refused? allowed whole listed
    have kept : m'.conditions = m.conditions := by
      rcases done with ⟨-, rfl⟩ | ⟨-, done, -⟩
      · rfl
      · exact conditions_of_effect straight.inert done
    rw [kept]
    exact .straight straight

/-- An instruction that is cut short is passed only where it is skipped. -/
theorem skipped_of_truncated (cut : i.truncated = true) (data : i.data ≠ none)
    (h : m.step env pc i = .ok m') : m.executing = false ∧ m' = m := by
  obtain ⟨-, ⟨skipped, rfl⟩ | ⟨-, done, -⟩⟩ := step_eq_ok.mp h
  · rw [obeys, Bool.or_eq_false_iff] at skipped
    exact ⟨skipped.1, rfl⟩
  · obtain ⟨bytes, given⟩ := Option.ne_none_iff_exists'.mp data
    rw [effect, given] at done
    simp only [pushData, cut, if_true] at done
    cases done

/-- What is left of a script that is executed to its end is a program, apart from the blocks that
are open already. -/
theorem pending_of_execute {offset : Nat} {script : Bytes}
    (h : m.execute env pc (Script.decodeFrom offset script) = .ok m')
    (closed : m'.conditions = []) :
    Pending m.conditions.length (Script.decodeFrom offset script) := by
  induction offset, script using Script.decodeFrom.induct generalizing m pc with
  | case1 offset =>
    rw [Script.decodeFrom_nil] at h ⊢
    cases h
    rw [closed]
    exact ⟨.done, rfl⟩
  | case2 offset b rest first shorter =>
    rename_i ih
    rw [Script.decodeFrom_cons] at h ⊢
    rw [execute_cons] at h
    obtain ⟨m₁, here, after⟩ := Except.bind_eq_ok_iff.mp h
    have stepped := located_eq_ok_iff.mp here
    cases cut : (Script.decodeFirst offset ⟨b⟩ rest).truncated with
    | true =>
      -- it would be the last instruction, and the block that it is skipped in would stay open
      obtain ⟨data, last⟩ := Script.drop_of_truncated cut
      obtain ⟨skipped, rfl⟩ := skipped_of_truncated cut data stepped
      rw [last, Script.decodeFrom_nil] at after
      cases after
      rw [executing, closed] at skipped
      cases skipped
    | false =>
      refine (shifts_of_step cut (fun absent => ?_) stepped).pending (ih after)
      rw [Script.opcode_decodeFirst] at absent
      simp only [Script.decodeFirst, absent]
      rfl

end Machine

/-- **Conditionals are blocks.** What a structured program is written down as ends as the program is
evaluated, with the same machine or with the same error at the same instruction; and a script that
ends well is what some structured program is written down as. -/
theorem result_run_structured (env : Env) (scriptIndex : Nat) (stack : List Bytes) (budget : Int) :
    (∀ (script : Bytes) (p : Program),
      ((Machine.start stack budget).runFrom env scriptIndex script 0 p.flatten).result =
        some ((p.eval env (Machine.start stack budget) 0).mapError fun (e, pc) =>
          .script e (.ofIndex scriptIndex) pc)) ∧
    ∀ (script : Bytes) (m : Machine),
      ((Machine.start stack budget).run env scriptIndex script).result = some (.ok m) →
        ∃ p : Program, Script.decode script = p.flatten := by
  refine ⟨fun script p => ?_, fun script m ended => ?_⟩
  · have executes : p.Executes env := p.executes
    have executed := executes (Machine.start stack budget) 0 [] rfl
    rw [List.append_nil] at executed
    rw [Machine.result_runFrom, executed]
    cases evaluated : p.eval env (Machine.start stack budget) 0 with
    | error e => rfl
    | ok m =>
      have closed : m.conditions = [] := p.conditions_of_eval evaluated
      rw [Except.ok_bind, Machine.execute, Machine.conclude, closed]
      rfl
  · rw [Machine.result_run, Option.some.injEq, Machine.conclude_eq_ok_iff] at ended
    exact Machine.pending_of_execute ended.1 ended.2

/-- A script that pushes the number two on a true argument and the number three on a false one. -/
def choiceScript : Bytes := [0x63, 0x52, 0x67, 0x53, 0x68]

theorem decode_choiceScript : Script.decode choiceScript =
    [mark 0x63 0, mark 0x52 1, mark 0x67 2, mark 0x53 3, mark 0x68 4] := by
  rw [choiceScript, Script.decode, Script.decodeFrom_of_absent rfl, Script.decodeFrom_of_absent rfl,
    Script.decodeFrom_of_absent rfl, Script.decodeFrom_of_absent rfl,
    Script.decodeFrom_of_absent rfl,
    Script.decodeFrom_nil]
  rfl

theorem result_run_choiceScript :
    ((Machine.start [[]] 0).run refusingEnv 2 choiceScript).result =
      some (.ok ⟨[ScriptNumber.encode 3], [], [], none, 0⟩) := by
  rw [Machine.result_run, decode_choiceScript]
  rfl

theorem result_run_structured_choiceScript :
    ((Machine.start [[]] 0).run refusingEnv 2 choiceScript).result =
        some (.ok ⟨[ScriptNumber.encode 3], [], [], none, 0⟩) ∧
      ∃ p : Program, Script.decode choiceScript = p.flatten :=
  ⟨result_run_choiceScript,
    (result_run_structured refusingEnv 2 [[]] 0).2 choiceScript _ result_run_choiceScript⟩

end TaprootLab

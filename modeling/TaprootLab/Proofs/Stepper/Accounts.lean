import TaprootLab.Proofs.Stepper.Moves

/-!
# What the outcomes of moves go back to

A stepper reports no failure of its own making: the interpreter refused to start, or a run ended
with that failure although it was always told to proceed, or nothing more was heard of a run. And it
reports that it was cancelled only after it was.
-/

namespace TaprootLab

variable {σ κ : Type}

/-- A failure that the interpreter gives for a plan, with some witness. -/
def Interpreter.Gives (i : Interpreter) (plan : Plan) (e : RunError) : Prop :=
  (∃ witness, i.start plan.spend witness = .error e)
    ∨ (∃ witness run, i.start plan.spend witness = .ok run ∧ run.result = some (.error e))
    ∨ e = Stepper.vanishedError

/-- An outcome that goes back to the interpreter, or to the given reason for being cancelled. -/
def Outcome.Accounted (i : Interpreter) (plan : Plan) (reason : Prop) : Outcome → Prop
  | .failed e => i.Gives plan e
  | .cancelled => reason
  | .step _ | .done => True

/-- A run that was started for a plan and has so far been told to proceed. -/
def Paused.Started (i : Interpreter) (plan : Plan) (p : Paused) : Prop :=
  ∃ witness run, i.start plan.spend witness = .ok run ∧ (p.resume .proceed).result = run.result

/-- What is heard of a run that has the given result if it is always told to proceed. -/
def Event.Heard (result : Option (Except RunError Unit)) : Event → Prop
  | .step _ p => (p.resume .proceed).result = result
  | .finished r => result = some r
  | .vanished => True

/-- Playing a run does not change how it ends. -/
theorem heard_play (target : Nat) (v : Viewer) (run : Run Unit) :
    (play target v run).Heard run.result := by
  induction run generalizing v with
  | done r => rfl
  | lost => trivial
  | report b resume ih =>
    rw [play]
    rcases v.observe b with ⟨_ | s, w⟩
    · exact ih .proceed w
    · dsimp only
      split
      · exact ih .proceed w
      · rfl

namespace Stepper

variable {i : Interpreter} {plan : Plan} {reason : Prop} {s t : Stepper σ κ}

/-- A stepper whose state goes back to the interpreter. -/
structure Accounted (i : Interpreter) (plan : Plan) (reason : Prop) (s : Stepper σ κ) : Prop where
  interpreter_eq : s.interpreter = i
  plan_eq : s.plan = plan
  status : ∀ o, finalOutcome? s.status = some o → o.Accounted i plan reason
  paused : ∀ p, s.paused = some p → p.Started i plan

theorem accounted_of (i : Interpreter) (ring : KeyRing σ κ) (plan : Plan) (reason : Prop) :
    (of i ring plan).Accounted i plan reason := ⟨rfl, rfl, nofun, nofun⟩

def BothAccounted (i : Interpreter) (plan : Plan) (reason : Prop)
    (x : Outcome × Stepper σ κ) : Prop :=
  x.1.Accounted i plan reason ∧ x.2.Accounted i plan reason

theorem Accounted.stop {status : Status} {o : Outcome} (h : s.Accounted i plan reason)
    (same : finalOutcome? status = some o) (ho : o.Accounted i plan reason) :
    BothAccounted i plan reason (o, s.stop status) := by
  refine ⟨ho, h.interpreter_eq, h.plan_eq, fun o' final => ?_, nofun⟩
  obtain rfl : o = o' := Option.some.inj (same.symm.trans final)
  exact ho

theorem Accounted.record {e : Event} {witness : List Bytes} {run : Run Unit}
    (h : s.Accounted i plan reason) (started : i.start plan.spend witness = .ok run)
    (heard : e.Heard run.result) : BothAccounted i plan reason (s.record e) := by
  match e with
  | .step v p =>
    refine ⟨trivial, h.interpreter_eq, h.plan_eq, nofun, fun p' same => ?_⟩
    obtain rfl := Option.some.inj same
    exact ⟨witness, run, started, heard⟩
  | .finished (.ok ()) => exact h.stop rfl trivial
  | .finished (.error e) => exact h.stop rfl (.inr (.inl ⟨witness, run, started, heard⟩))
  | .vanished => exact h.stop rfl (.inr (.inr rfl))

theorem Accounted.begin (h : s.Accounted i plan reason) (target : Nat) (witness : List Bytes) :
    BothAccounted i plan reason (s.begin target witness) := by
  have starts : s.interpreter.start s.plan.spend witness = i.start plan.spend witness := by
    rw [h.interpreter_eq, h.plan_eq]
  rw [Stepper.begin, starts]
  cases started : i.start plan.spend witness with
  | error e =>
    have gives : i.Gives plan e := .inl ⟨witness, started⟩
    refine ⟨gives, h.interpreter_eq, h.plan_eq, fun o final => ?_, h.paused⟩
    obtain rfl : .failed e = o := Option.some.inj final
    exact gives
  | ok run => exact h.record started (heard_play target _ run)

theorem Accounted.witness (h : s.Accounted i plan reason) :
    s.witness.2.Accounted i plan reason := by
  rw [Stepper.witness]
  split <;> exact ⟨h.interpreter_eq, h.plan_eq, h.status, h.paused⟩

/-- A move whose outcome, if it has one, goes back to the interpreter. -/
def MoveAccounted (i : Interpreter) (plan : Plan) (reason : Prop)
    (x : Except SigningError Outcome × Stepper σ κ) : Prop :=
  (∀ o, x.1 = .ok o → o.Accounted i plan reason) ∧ x.2.Accounted i plan reason

theorem Accounted.answer {o : Outcome} (h : s.Accounted i plan reason)
    (ho : o.Accounted i plan reason) :
    MoveAccounted i plan reason (.ok o, s) := by
  refine ⟨fun o' same => ?_, h⟩
  rw [← Except.ok.inj same]
  exact ho

theorem BothAccounted.answer {x : Outcome × Stepper σ κ} (h : BothAccounted i plan reason x) :
    MoveAccounted i plan reason (.ok x.1, x.2) := h.2.answer h.1

theorem Accounted.starts (h : s.Accounted i plan reason)
    (start : List Bytes → Stepper σ κ → Stepper σ κ) (target : Nat)
    (same : ∀ witness t, Accounted i plan reason t → Accounted i plan reason (start witness t)) :
    MoveAccounted i plan reason (match s.witness with
      | (.error e, t) => (.error e, t)
      | (.ok witness, t) =>
        (.ok ((start witness t).begin target witness).1,
          ((start witness t).begin target witness).2)) := by
  have kept := h.witness
  rcases made : s.witness with ⟨e | witness, t⟩
  · rw [made] at kept
    exact ⟨nofun, kept⟩
  · rw [made] at kept
    exact ((same witness t kept).begin target witness).answer

theorem Accounted.advance (h : s.Accounted i plan reason) :
    MoveAccounted i plan reason s.advance := by
  cases final : finalOutcome? s.status with
  | some o =>
    rw [advance_of_final final]
    exact h.answer (h.status o final)
  | none =>
    cases hp : s.paused with
    | some p =>
      obtain ⟨witness, run, started, result⟩ := h.paused p hp
      rw [advance_of_paused final hp]
      exact (h.record started (result ▸ heard_play p.target p.viewer _)).answer
    | none =>
      rw [advance_of_unstarted (by rw [unstarted, hp, final]; rfl)]
      exact h.starts (fun _ t => t) 1 fun _ _ kept => kept

theorem Accounted.seekForward (target : Nat) (h : s.Accounted i plan reason) :
    MoveAccounted i plan reason (s.seekForward target) := by
  induction s using induction_on_advance with
  | step s ih =>
    have first := h.advance
    rcases hx : s.advance with ⟨e | o, t⟩
    · rw [hx] at first
      rw [seekForward_of_error hx]
      exact first
    · rw [hx] at first
      rw [seekForward_of_ok hx]
      cases o with
      | step v =>
        rw [seekOn]
        split
        · exact ih v t hx first.2
        · exact first
      | done => exact first
      | failed e => exact first
      | cancelled => exact first

theorem Accounted.reset (h : s.Accounted i plan reason) : s.reset.Accounted i plan reason :=
  ⟨h.interpreter_eq, h.plan_eq, nofun, nofun⟩

/-- A move reports nothing that does not go back to the interpreter, or to a call to cancel. -/
theorem Accounted.perform {m : Move} (h : s.Accounted i plan reason)
    (given : m = .cancel → reason) :
    MoveAccounted i plan reason (s.perform m) := by
  cases m with
  | advance => exact h.advance
  | cancel =>
    have cancelled : Outcome.Accounted i plan reason .cancelled := given rfl
    exact (h.stop rfl cancelled).answer
  | seek k =>
    show MoveAccounted i plan reason (s.seek k)
    by_cases stopped : s.status = .cancelled
    · rw [seek_of_cancelled stopped]
      exact h.answer (h.status .cancelled (by rw [stopped]; rfl))
    cases here : s.pausedAt? (max k 1) with
    | some v =>
      rw [seek_of_pausedAt stopped here]
      exact h.answer trivial
    | none =>
      rw [seek_of_moving stopped here]
      split
      · rw [restart_eq]
        exact h.starts (fun _ t => t.reset) (max k 1) fun _ _ kept => kept.reset
      · exact h.seekForward (max k 1)

/-! ## Moves one after the other -/

def after (s : Stepper σ κ) (moves : List Move) : Stepper σ κ :=
  moves.foldl (fun s m => (s.perform m).2) s

theorem after_concat (s : Stepper σ κ) (moves : List Move) (m : Move) :
    s.after (moves ++ [m]) = ((s.after moves).perform m).2 := by
  rw [after, List.foldl_append]
  rfl

theorem walk_concat (s : Stepper σ κ) (moves : List Move) (m : Move) :
    (s.walk (moves ++ [m])).map (·.1) =
      (s.walk moves).map (·.1) ++ [((s.after moves).perform m).1] := by
  induction moves generalizing s with
  | nil => rfl
  | cons m' ms ih => exact congrArg ((s.perform m').1 :: ·) (ih (s.perform m').2)

theorem Accounted.after {moves : List Move} (h : s.Accounted i plan reason)
    (given : .cancel ∈ moves → reason) : (s.after moves).Accounted i plan reason := by
  induction moves generalizing s with
  | nil => exact h
  | cons m ms ih =>
    have first := h.perform (m := m) fun same => given (same ▸ List.mem_cons_self)
    exact ih first.2 fun mem => given (List.mem_cons_of_mem m mem)

end Stepper

end TaprootLab

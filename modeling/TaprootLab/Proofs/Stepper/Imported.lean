import TaprootLab.Proofs.Engine.Phases
import TaprootLab.Proofs.Signing.Determinism
import TaprootLab.Proofs.Signing.GeneratedSignatures

/-!
# Spends that carry their witness

A plan for a generated spend makes its witness anew each time it starts a run, from keys and
placeholders; a plan for an existing transaction finds it in the input. If the elements are the
same, nobody can tell the two apart (`walk_ofGenerated_eq_walk_ofSpend`).

A stepper is the cursor over the film of what its interpreter starts, and the film depends on the
elements and on that alone (`walk_of_start`). It remains that the interpreter starts the same for
both: the spend takes up the witness only when it is run, and nothing in a run looks at the leaf
that the spend is known to be of.
-/

namespace TaprootLab

open Run

variable {σ κ : Type}

/-! ## Runs that are refused -/

/-- The film of a run that is refused: no step at all. -/
def Film.refusal (e : RunError) : Film := ⟨[], .failed e⟩

namespace Stepper

variable {s : Stepper σ κ} {e : RunError} {c : Cursor}

/-- The state of a stepper whose interpreter refuses to start is that of a cursor over no steps. -/
inductive Stalls (e : RunError) : Stepper σ κ → Cursor → Prop
  | fresh {s t : Stepper σ κ} {witness : List Bytes} (made : s.witness = (.ok witness, t))
      (refused : t.interpreter.start t.plan.spend witness = .error e) (paused : s.paused = none)
      (status : s.status = .notStarted) (current : s.current = none) : Stalls e s (.paused 0)
  | failed {s : Stepper σ κ} (status : s.status = .failed e) (current : s.current = none) :
      Stalls e s .past
  | cancelled {s : Stepper σ κ} (status : s.status = .cancelled) (current : s.current = none) :
      Stalls e s (.cancelled 0)

theorem Stalls.current (h : Stalls e s c) : s.current = none := by
  cases h <;> assumption

theorem Stalls.position (h : Stalls e s c) : (Film.refusal e).position c = 0 := by
  cases h <;> rfl

theorem Stalls.currentStep (h : Stalls e s c) : s.currentStep = 0 := by
  rw [Stepper.currentStep, h.current]

theorem Stalls.ne_step (h : Stalls e s c) (snapshot : Snapshot) :
    ((Film.refusal e).move c .advance).1 ≠ .step snapshot := by
  intro same
  cases h <;> cases same

theorem stalls_advance (h : Stalls e s c) :
    s.advance.1 = .ok ((Film.refusal e).move c .advance).1
      ∧ Stalls e s.advance.2 ((Film.refusal e).move c .advance).2 := by
  cases h with
  | fresh made refused paused status current =>
    have new : s.unstarted = true := by
      rw [unstarted, paused, status]
      rfl
    have alike := s.alike_witness.1
    rw [made] at alike
    rw [advance_of_unstarted new, made]
    simp only [begin, refused]
    exact ⟨rfl, .failed rfl ((congrArg Stepper.current alike).trans current)⟩
  | failed status current =>
    have final : finalOutcome? s.status = some (.failed e) := by rw [status]; rfl
    rw [advance_of_final final]
    exact ⟨rfl, .failed status current⟩
  | cancelled status current =>
    have final : finalOutcome? s.status = some .cancelled := by rw [status]; rfl
    rw [advance_of_final final]
    exact ⟨rfl, .cancelled status current⟩

/-- There is no step to seek, so seeking is a step forward. -/
theorem stalls_seek (h : Stalls e s c) (k : Nat) :
    (s.seek k).1 = .ok ((Film.refusal e).move c (.seek k)).1
      ∧ Stalls e (s.seek k).2 ((Film.refusal e).move c (.seek k)).2 := by
  have first := stalls_advance h
  have noStep := h.ne_step
  have ahead : ¬ max k 1 ≤ s.currentStep := by
    rw [h.currentStep]
    omega
  cases h with
  | fresh made refused paused status current =>
    rw [seek_of_moving (by simp [status]) (by rw [pausedAt?, status]), if_neg ahead,
      seekForward_of_end (Prod.ext first.1 rfl) noStep]
    exact ⟨rfl, first.2⟩
  | failed status current =>
    rw [seek_of_moving (by simp [status]) (by rw [pausedAt?, status]), if_neg ahead,
      seekForward_of_end (Prod.ext first.1 rfl) noStep]
    exact ⟨rfl, first.2⟩
  | cancelled status current =>
    rw [seek_of_cancelled status]
    exact ⟨rfl, .cancelled status current⟩

theorem stalls_perform (h : Stalls e s c) (m : Move) :
    (s.perform m).1 = .ok ((Film.refusal e).move c m).1
      ∧ Stalls e (s.perform m).2 ((Film.refusal e).move c m).2 := by
  cases m with
  | advance => exact stalls_advance h
  | seek k => exact stalls_seek h k
  | cancel =>
    have current := h.current
    cases h <;> exact ⟨rfl, .cancelled rfl current⟩

theorem walk_of_stalls (h : Stalls e s c) (moves : List Move) :
    s.walk moves = ((Film.refusal e).walk c moves).map fun x => (.ok x.1, x.2) := by
  induction moves generalizing s c with
  | nil => rfl
  | cons m ms ih =>
    obtain ⟨answer, next⟩ := stalls_perform h m
    have stands := next.currentStep.trans next.position.symm
    rw [walk, Film.walk, List.map_cons, ← ih next, ← stands, ← answer]

end Stepper

/-! ## What is started decides what is shown -/

/-- The film of what an interpreter starts with a witness. -/
def Film.ofStart (witness : List Bytes) : Except RunError (Run Unit) → Film
  | .ok run => .ofReel witness run.boundaries run.result
  | .error e => .refusal e

namespace Stepper

variable {interpreter : Interpreter} {plan : Plan} {ring : KeyRing σ κ} {elements : List Bytes}

theorem tracks_of_start {run : Run Unit} (completes : ring.Completes plan.spend plan.parts elements)
    (started : interpreter.start plan.spend (elements ++ plan.trailer) = .ok run)
    (stops : run.StopsOnAbort) :
    Tracks (elements ++ plan.trailer) run.boundaries run.result (of interpreter ring plan)
      (.paused 0) := by
  refine .fresh ⟨⟨elements, completes, rfl⟩, ?_⟩ rfl rfl rfl
  rw [← stops.eq_reel]
  exact started

theorem stalls_of_start {e : RunError} (completes : ring.Completes plan.spend plan.parts elements)
    (refused : interpreter.start plan.spend (elements ++ plan.trailer) = .error e) :
    Stalls e (of interpreter ring plan) (.paused 0) := by
  obtain ⟨kept, resolved, -⟩ := completes.resolve
  have made : (of interpreter ring plan).witness =
      (.ok (elements ++ plan.trailer), { of interpreter ring plan with ring := kept }) := by
    simp only [Stepper.witness, of, resolved]
  exact .fresh made refused rfl rfl rfl

/-- A stepper answers as the cursor over the film of what is started with its witness. -/
theorem walk_of_start (interpreter : Interpreter) (plan : Plan) {ring : KeyRing σ κ}
    {elements : List Bytes} (completes : ring.Completes plan.spend plan.parts elements)
    (stops : ∀ run, interpreter.start plan.spend (elements ++ plan.trailer) = .ok run →
      run.StopsOnAbort)
    (moves : List Move) :
    (of interpreter ring plan).walk moves =
      ((Film.ofStart (elements ++ plan.trailer)
        (interpreter.start plan.spend (elements ++ plan.trailer))).walk (.paused 0) moves).map
          fun x => (.ok x.1, x.2) := by
  cases started : interpreter.start plan.spend (elements ++ plan.trailer) with
  | ok run => exact walk_of_tracks (tracks_of_start completes started (stops run started)) moves
  | error e => exact walk_of_stalls (stalls_of_start completes started) moves

end Stepper

/-! ## Literal elements -/

namespace KeyRing

theorem resolve_literals (ring : KeyRing σ κ) (spend : Option Spend) (elements : List Bytes) :
    ring.resolve spend (elements.map .literal) = (.ok elements, ring) := by
  induction elements with
  | nil => rfl
  | cons element elements ih =>
    exact resolve_cons_eq_ok.mpr ⟨element, elements, ring, rfl, ih, rfl⟩

theorem completes_literals (ring : KeyRing σ κ) (spend : Spend) (elements : List Bytes) :
    ring.Completes spend (elements.map .literal) elements :=
  completes_of_resolve (ring.resolve_literals (some spend) elements)
    (ring.resolve_literals (some spend) elements)

end KeyRing

/-! ## The same run -/

theorem Spend.withWitness_withWitness (spend : Spend) (old new : List Bytes) :
    (spend.withWitness old).withWitness new = spend.withWitness new := by
  simp [Spend.input, Spend.withWitness]

/-- A run puts its witness into the input itself. -/
theorem start_withWitness (curve : Curve) (spend : Spend) (old new : List Bytes) :
    (taprootInterpreter curve).start (spend.withWitness old) new =
      (taprootInterpreter curve).start spend new := by
  simp only [taprootInterpreter, runTaproot, Spend.withWitness_withWitness,
    Spend.prevout_withWitness]
  rfl

/-- A run finds the leaf in its witness. -/
theorem start_leafHash (curve : Curve) (spend : Spend) (leafHash : Option Bytes)
    (witness : List Bytes) :
    (taprootInterpreter curve).start { spend with leafHash } witness =
      (taprootInterpreter curve).start spend witness := rfl

theorem stopsOnAbort_of_start {curve : Curve} {spend : Spend} {witness : List Bytes}
    {run : Run Unit} (h : (taprootInterpreter curve).start spend witness = .ok run) :
    run.StopsOnAbort := by
  simp only [taprootInterpreter] at h
  split at h <;> cases h
  exact stopsOnAbort_runTaproot curve spend witness

namespace Stepper

/-- What is shown of an existing transaction is the film of its input's witness. -/
theorem walk_ofSpend (curve : Curve) (spend : Spend) (ring : KeyRing σ κ) (moves : List Move) :
    (of (taprootInterpreter curve) ring (.ofSpend spend)).walk moves =
      ((Film.ofStart spend.input.witness
        ((taprootInterpreter curve).start spend spend.input.witness)).walk (.paused 0) moves).map
          fun x => (.ok x.1, x.2) := by
  have walks := walk_of_start (taprootInterpreter curve) (.ofSpend spend)
    (ring.completes_literals spend spend.input.witness) (fun _ => stopsOnAbort_of_start) moves
  rwa [show (Plan.ofSpend spend).trailer = [] from rfl, List.append_nil] at walks

/-- **Generated and imported runs agree.** Take a plan for a generated spend whose witness can be
completed, by a signer that signs the same with the same key, and the spend with that witness in its
input as an existing transaction. Whatever moves are made, steppers over the two give the same
answers and stand at the same step after each. -/
theorem walk_ofGenerated_eq_walk_ofSpend {σ' κ' : Type} {curve : Curve} {g : GeneratedSpend}
    {parts : List WitnessPart} {ring : KeyRing σ κ} {ring' : KeyRing σ' κ'} {elements : List Bytes}
    (det : ring.signer.Deterministic)
    (resolved : (ring.resolve (some g.spend) parts).1 = .ok elements) (moves : List Move) :
    (of (taprootInterpreter curve) ring (.ofGenerated g parts)).walk moves =
      (of (taprootInterpreter curve) ring'
        (.ofSpend (g.spend.withWitness (elements ++ g.trailer)))).walk moves := by
  have completes : ring.Completes g.spend parts elements :=
    KeyRing.completes_of_deterministic det resolved
  rw [walk_ofSpend, Spend.input_withWitness, start_withWitness]
  exact walk_of_start (taprootInterpreter curve) (.ofGenerated g parts) completes
    (fun _ => stopsOnAbort_of_start) moves

/-- The leaf that an existing transaction is known to spend makes no difference either. -/
theorem walk_ofSpend_leafHash (curve : Curve) (spend : Spend) (leafHash : Option Bytes)
    (ring : KeyRing σ κ) (moves : List Move) :
    (of (taprootInterpreter curve) ring (.ofSpend { spend with leafHash })).walk moves =
      (of (taprootInterpreter curve) ring (.ofSpend spend)).walk moves := by
  rw [walk_ofSpend, walk_ofSpend, start_leafHash]
  rfl

end Stepper

theorem walk_ofGenerated_eq_walk_ofSpend_oneSpend :
    countingRing.signer.Deterministic
      ∧ (countingRing.resolve (some oneSpend.spend) [.empty, .signature "alice", .literal [1]]).1 =
        .ok [[], [5], [1]]
      ∧ (Stepper.of (taprootInterpreter singleSecretCurve) countingRing
          (.ofGenerated oneSpend [.empty, .signature "alice", .literal [1]])).walk
          [.advance, .seek 3, .seek 1, .seek 9, .advance, .seek 2, .cancel] =
        (Stepper.of (taprootInterpreter singleSecretCurve) (moodyRing 0)
          (.ofSpend (oneSpend.spend.withWitness ([[], [5], [1]] ++ oneSpend.trailer)))).walk
          [.advance, .seek 3, .seek 1, .seek 9, .advance, .seek 2, .cancel] :=
  have det : countingRing.signer.Deterministic := fun _ _ _ _ => rfl
  ⟨det, rfl, Stepper.walk_ofGenerated_eq_walk_ofSpend det rfl _⟩

end TaprootLab

import TaprootLab.Proofs.Stepper.Film

/-!
# The stepper is a cursor

A stepper drops and replays runs, keeps a snapshot at hand, and moves out of runs that have ended.
None of this can be seen from outside: over a run that goes the same way every time, any order of
moves answers what a cursor over its film answers (`walk_eq_walk_film`).

The proof is a simulation. `Tracks` ties the state of a stepper to a place in the film; `advance`,
`seek` and `cancel` each keep it (`agrees_perform`), and a walk is such moves one after the other.
-/

namespace TaprootLab

open Run

variable {σ κ : Type}

/-! ## The cursor -/

inductive Move where
  | advance
  | seek (step : Nat)
  | cancel
  deriving DecidableEq, Repr

/-- What a run shows: its visible steps and how it ends. -/
structure Film where
  steps : List Snapshot
  ending : Outcome
  deriving DecidableEq, Repr

/-- A place in a film. -/
inductive Cursor where
  /-- At a step, by its number; before the first one at zero. -/
  | paused (step : Nat)
  /-- Behind the last step. -/
  | past
  /-- Given up, with the number of the step shown last. -/
  | cancelled (step : Nat)
  deriving DecidableEq, Repr

namespace Film

/-- Goes to a step by its number, or to the end if there is no such step. -/
def goTo (film : Film) (step : Nat) : Outcome × Cursor :=
  match film.steps[step - 1]? with
  | some snapshot => (.step snapshot, .paused step)
  | none => (film.ending, .past)

/-- What a move answers and where it leads. -/
def move (film : Film) : Cursor → Move → Outcome × Cursor
  | .cancelled k, _ => (.cancelled, .cancelled k)
  | .paused k, .cancel => (.cancelled, .cancelled k)
  | .past, .cancel => (.cancelled, .cancelled film.steps.length)
  | .paused k, .advance => film.goTo (k + 1)
  | .past, .advance => (film.ending, .past)
  | .paused _, .seek k => film.goTo (max k 1)
  | .past, .seek k => film.goTo (max k 1)

/-- The number of the step shown last. -/
def position (film : Film) : Cursor → Nat
  | .paused k => k
  | .past => film.steps.length
  | .cancelled k => k

/-- The answers to some moves, each with the number of the step shown last after it. -/
def walk (film : Film) : Cursor → List Move → List (Outcome × Nat)
  | _, [] => []
  | c, m :: ms =>
    let (outcome, c) := film.move c m
    (outcome, film.position c) :: film.walk c ms

end Film

namespace Stepper

def perform (s : Stepper σ κ) : Move → Except SigningError Outcome × Stepper σ κ
  | .advance => s.advance
  | .seek step => s.seek step
  | .cancel => (.ok s.cancel.1, s.cancel.2)

def walk (s : Stepper σ κ) : List Move → List (Except SigningError Outcome × Nat)
  | [] => []
  | m :: ms =>
    let (outcome, s) := s.perform m
    (outcome, s.currentStep) :: s.walk ms

/-- What is shown by moving forward up to the first outcome that is no step. -/
def film (s : Stepper σ κ) : Except SigningError Film :=
  match h : s.advance with
  | (.error e, _) => .error e
  | (.ok (.step snapshot), t) =>
    have := remaining_lt_of_advance h
    t.film.map fun rest => { rest with steps := snapshot :: rest.steps }
  | (.ok outcome, _) => .ok ⟨[], outcome⟩
termination_by s.remaining
decreasing_by assumption

end Stepper

/-! ## A run that goes the same way every time -/

namespace KeyRing

/-- The ring after a witness has been completed so many times. -/
def afterResolving (ring : KeyRing σ κ) (spend : Spend) (parts : List WitnessPart) :
    Nat → KeyRing σ κ
  | 0 => ring
  | n + 1 => (ring.resolve (some spend) parts).2.afterResolving spend parts n

/-- A witness is completed with the same elements however often that is done. -/
def Completes (ring : KeyRing σ κ) (spend : Spend) (parts : List WitnessPart)
    (elements : List Bytes) : Prop :=
  ∀ n, ((ring.afterResolving spend parts n).resolve (some spend) parts).1 = .ok elements

theorem Completes.resolve {ring : KeyRing σ κ} {spend : Spend} {parts : List WitnessPart}
    {elements : List Bytes} (h : ring.Completes spend parts elements) :
    ∃ ring', ring.resolve (some spend) parts = (.ok elements, ring')
      ∧ ring'.Completes spend parts elements :=
  ⟨_, Prod.ext (h 0) rfl, fun n => h (n + 1)⟩

/-- It is enough that the first time makes all keys there are to be made. -/
theorem completes_of_resolve {ring kept : KeyRing σ κ} {spend : Spend} {parts : List WitnessPart}
    {elements : List Bytes} (first : ring.resolve (some spend) parts = (.ok elements, kept))
    (again : kept.resolve (some spend) parts = (.ok elements, kept)) :
    ring.Completes spend parts elements := by
  have same : ∀ n, kept.afterResolving spend parts n = kept := by
    intro n
    induction n with
    | zero => rfl
    | succ n ih => rw [afterResolving, again, ih]
  intro n
  cases n with
  | zero => rw [afterResolving, first]
  | succ n => rw [afterResolving, first, same n, again]

end KeyRing

/-- How a move that reaches the end of a run comes out. -/
def Outcome.ofResult : Option (Except RunError Unit) → Outcome
  | some (.ok ()) => .done
  | some (.error e) => .failed e
  | none => .failed Stepper.vanishedError

/-- The status of a stepper whose run has ended. -/
def Status.ofResult : Option (Except RunError Unit) → Status
  | some (.ok ()) => .done
  | some (.error e) => .failed e
  | none => .failed Stepper.vanishedError

/-- The film of a reel that is shown with a witness. -/
def Film.ofReel (witness : List Bytes) (bs : List Boundary)
    (r : Option (Except RunError Unit)) : Film :=
  ⟨(Viewer.start witness).steps bs, .ofResult r⟩

theorem Outcome.ofResult_ne_step (r : Option (Except RunError Unit)) (v : Snapshot) :
    Outcome.ofResult r ≠ .step v := by
  rcases r with _ | (e | ⟨⟩) <;> nofun

namespace Stepper

/-- The run that a stepper starts is the given reel, shown with the given witness, every time. -/
structure Replays (s : Stepper σ κ) (witness : List Bytes) (bs : List Boundary)
    (r : Option (Except RunError Unit)) : Prop where
  completes : ∃ elements, s.ring.Completes s.plan.spend s.plan.parts elements
    ∧ elements ++ s.plan.trailer = witness
  starts : s.interpreter.start s.plan.spend witness = .ok (reel bs r)

variable {witness : List Bytes} {bs : List Boundary} {r : Option (Except RunError Unit)}
  {s : Stepper σ κ}

theorem Replays.resolve (h : s.Replays witness bs r) :
    ∃ ring, s.witness = (.ok witness, { s with ring })
      ∧ ({ s with ring } : Stepper σ κ).Replays witness bs r := by
  obtain ⟨⟨elements, completes, rfl⟩, starts⟩ := h
  obtain ⟨ring, hring, completes'⟩ := completes.resolve
  refine ⟨ring, ?_, ⟨elements, completes', rfl⟩, starts⟩
  rw [Stepper.witness, hring]

theorem record_ofResult (s : Stepper σ κ) (r : Option (Except RunError Unit)) :
    s.record (.ofResult r) = (.ofResult r, s.stop (.ofResult r)) := by
  rcases r with _ | (e | ⟨⟩) <;> rfl

theorem finalOutcome?_ofResult (r : Option (Except RunError Unit)) :
    finalOutcome? (.ofResult r) = some (.ofResult r) := by
  rcases r with _ | (e | ⟨⟩) <;> rfl

/-! ## The simulation -/

/-- The state of a stepper is that of a cursor over the film of its reel. -/
inductive Tracks (witness : List Bytes) (bs : List Boundary) (r : Option (Except RunError Unit)) :
    Stepper σ κ → Cursor → Prop
  | fresh {s : Stepper σ κ} (replays : s.Replays witness bs r) (paused : s.paused = none)
      (status : s.status = .notStarted) (current : s.current = none) :
      Tracks witness bs r s (.paused 0)
  | paused {s : Stepper σ κ} {k : Nat} {v : Snapshot} {p : Paused}
      (replays : s.Replays witness bs r)
      (shown : (Film.ofReel witness bs r).steps[k]? = some v)
      (ahead : p.Continues ((Film.ofReel witness bs r).steps.drop (k + 1)) r)
      (paused : s.paused = some p) (status : s.status = .paused (k + 1))
      (current : s.current = some v) : Tracks witness bs r s (.paused (k + 1))
  | past {s : Stepper σ κ} (replays : s.Replays witness bs r) (paused : s.paused = none)
      (status : s.status = .ofResult r)
      (last : s.currentStep = (Film.ofReel witness bs r).steps.length) :
      Tracks witness bs r s .past
  | cancelled {s : Stepper σ κ} {k : Nat} (status : s.status = .cancelled)
      (last : s.currentStep = k) : Tracks witness bs r s (.cancelled k)

/-- A move answers as the cursor does and leads to where the cursor is. -/
def Agrees (witness : List Bytes) (bs : List Boundary) (r : Option (Except RunError Unit))
    (x : Except SigningError Outcome × Stepper σ κ) (y : Outcome × Cursor) : Prop :=
  x.1 = .ok y.1 ∧ Tracks witness bs r x.2 y.2

/-- The number of the step shown last is that of the cursor. -/
theorem Tracks.currentStep {c : Cursor} (h : Tracks witness bs r s c) :
    s.currentStep = (Film.ofReel witness bs r).position c := by
  cases h with
  | fresh replays paused status current => rw [Stepper.currentStep, current]; rfl
  | paused replays shown ahead paused status current =>
    have := Viewer.step_of_getElem?_steps shown
    rw [Stepper.currentStep, current]
    simpa [Film.position, Viewer.start, Nat.add_comm] using this
  | past replays paused status last => exact last
  | cancelled status last => exact last

/-! ### Starting and going on -/

/-- Hearing how the film goes on after step `k` leads to the next step, or to the end. -/
theorem agrees_record {e : Event} {k : Nat} (replays : s.Replays witness bs r)
    (opens : e.Opens ((Film.ofReel witness bs r).steps.drop k) r)
    (last : (Film.ofReel witness bs r).steps.length ≤ k →
      s.currentStep = (Film.ofReel witness bs r).steps.length) :
    Agrees witness bs r (.ok (s.record e).1, (s.record e).2)
      ((Film.ofReel witness bs r).goTo (k + 1)) := by
  rw [Film.goTo, Nat.add_sub_cancel]
  cases shown : (Film.ofReel witness bs r).steps[k]? with
  | none =>
    have short := List.getElem?_eq_none_iff.mp shown
    rw [List.drop_of_length_le short] at opens
    obtain rfl : e = .ofResult r := opens
    rw [record_ofResult]
    exact ⟨rfl, .past ⟨replays.completes, replays.starts⟩ rfl rfl (last short)⟩
  | some v =>
    obtain ⟨inside, rfl⟩ := List.getElem?_eq_some_iff.mp shown
    rw [List.drop_eq_getElem_cons inside] at opens
    obtain ⟨p, rfl, ahead⟩ := opens
    have number := Viewer.step_of_getElem?_steps shown
    rw [show (Viewer.start witness).count + 1 + k = k + 1 from by simp [Viewer.start, Nat.add_comm]]
      at number
    exact ⟨rfl, .paused ⟨replays.completes, replays.starts⟩ shown ahead rfl
      (congrArg Status.paused number) rfl⟩

theorem agrees_begin {target : Nat} (replays : s.Replays witness bs r) (pos : 1 ≤ target)
    (last : (Film.ofReel witness bs r).steps.length < target →
      s.currentStep = (Film.ofReel witness bs r).steps.length) :
    Agrees witness bs r (.ok (s.begin target witness).1, (s.begin target witness).2)
      ((Film.ofReel witness bs r).goTo target) := by
  obtain ⟨k, rfl⟩ := Nat.exists_eq_add_of_le' pos
  rw [begin, replays.starts]
  exact agrees_record replays (play_reel (k + 1) (.start witness) bs r)
    fun short => last (Nat.lt_succ_of_le short)

theorem agrees_advance {c : Cursor} (h : Tracks witness bs r s c) :
    Agrees witness bs r s.advance ((Film.ofReel witness bs r).move c .advance) := by
  cases h with
  | fresh replays paused status current =>
    obtain ⟨ring, hw, replays'⟩ := replays.resolve
    rw [advance, status, finalOutcome?, paused, hw]
    refine agrees_begin replays' (Nat.le_refl 1) fun short => ?_
    rw [currentStep, current, Nat.lt_one_iff.mp short]
  | paused replays shown ahead paused status current =>
    have last := (Tracks.paused replays shown ahead paused status current).currentStep
    rw [advance, status, finalOutcome?, paused]
    refine agrees_record replays ahead.proceed fun short => ?_
    have inside := (List.getElem?_eq_some_iff.mp shown).1
    rw [last, Film.position]
    omega
  | past replays paused status last =>
    rw [advance, status, finalOutcome?_ofResult]
    exact ⟨rfl, .past replays paused status last⟩
  | cancelled status last =>
    rw [advance, status, finalOutcome?]
    exact ⟨rfl, .cancelled status last⟩

/-! ### Seeking -/

theorem seekForward_of_step {target : Nat} {t : Stepper σ κ} {v : Snapshot}
    (h : s.advance = (.ok (.step v), t)) :
    s.seekForward target =
      if v.step < target then t.seekForward target else (.ok (.step v), t) := by
  rw [seekForward]
  split
  · rename_i h'
    obtain ⟨rfl, rfl⟩ : _ ∧ _ := by simpa [h] using h'
    rfl
  · rename_i h'
    exact absurd h (h' _ _)

theorem seekForward_of_end {target : Nat} {t : Stepper σ κ} {o : Outcome}
    (h : s.advance = (.ok o, t)) (final : ∀ v, o ≠ .step v) :
    s.seekForward target = (.ok o, t) := by
  rw [seekForward]
  split
  · rename_i h'
    rw [h] at h'
    obtain rfl : o = _ := by simpa using congrArg (fun x => x.1) h'
    exact absurd rfl (final _)
  · exact h

theorem agrees_seekForward {target k : Nat} (h : Tracks witness bs r s (.paused k))
    (ahead : k < target) :
    Agrees witness bs r (s.seekForward target) ((Film.ofReel witness bs r).goTo target) := by
  -- Each step forward leaves one step fewer up to the target.
  induction hd : target - k generalizing s k with
  | zero => omega
  | succ d ih =>
    have step := agrees_advance h
    simp only [Film.move, Film.goTo, Nat.add_sub_cancel] at step
    cases shown : (Film.ofReel witness bs r).steps[k]? with
    | none =>
      rw [shown] at step
      have beyond : (Film.ofReel witness bs r).steps[target - 1]? = none := by
        have := List.getElem?_eq_none_iff.mp shown
        exact List.getElem?_eq_none_iff.mpr (by omega)
      rw [seekForward_of_end (Prod.ext step.1 rfl) (Outcome.ofResult_ne_step r), Film.goTo, beyond]
      exact ⟨rfl, step.2⟩
    | some v =>
      rw [shown] at step
      have number := Viewer.step_of_getElem?_steps shown
      rw [show (Viewer.start witness).count + 1 + k = k + 1 from by
        simp [Viewer.start, Nat.add_comm]]
        at number
      rw [seekForward_of_step (Prod.ext step.1 rfl), number]
      by_cases more : k + 1 < target
      · rw [if_pos more]
        exact ih step.2 more (by omega)
      · obtain rfl : target = k + 1 := by omega
        rw [if_neg more, Film.goTo, Nat.add_sub_cancel, shown]
        exact ⟨rfl, step.2⟩

theorem agrees_restart {target : Nat} (replays : s.Replays witness bs r) (pos : 1 ≤ target)
    (inside : target ≤ (Film.ofReel witness bs r).steps.length) :
    Agrees witness bs r (s.restart target) ((Film.ofReel witness bs r).goTo target) := by
  obtain ⟨ring, hw, replays'⟩ := replays.resolve
  rw [restart, hw]
  exact agrees_begin ⟨replays'.completes, replays'.starts⟩ pos fun short => by omega

theorem agrees_seek {c : Cursor} (h : Tracks witness bs r s c) (k : Nat) :
    Agrees witness bs r (s.seek k) ((Film.ofReel witness bs r).move c (.seek k)) := by
  have pos : 1 ≤ max k 1 := Nat.le_max_right k 1
  have last := h.currentStep
  cases h with
  | fresh replays paused status current =>
    rw [seek, if_neg (by simp [status]), pausedAt?, status]
    dsimp only
    rw [if_neg (by rw [last, Film.position]; omega)]
    exact agrees_seekForward (.fresh replays paused status current) pos
  | @paused j v p replays shown ahead paused status current =>
    rw [seek, if_neg (by simp [status]), pausedAt?, status, current]
    dsimp only
    by_cases here : j + 1 = max k 1
    · rw [if_pos here, Film.move, ← here, Film.goTo, Nat.add_sub_cancel, shown]
      exact ⟨rfl, .paused replays shown ahead paused status current⟩
    · rw [if_neg here]
      dsimp only
      have inside := (List.getElem?_eq_some_iff.mp shown).1
      rw [last, Film.position]
      by_cases back : max k 1 ≤ j + 1
      · rw [if_pos back]
        exact agrees_restart replays pos (by omega)
      · rw [if_neg back]
        exact agrees_seekForward (.paused replays shown ahead paused status current) (by omega)
  | past replays paused status last' =>
    rw [seek, if_neg (by rw [status]; rcases r with _ | (e | ⟨⟩) <;> nofun)]
    rw [show s.pausedAt? (max k 1) = none by
      rw [pausedAt?, status]; rcases r with _ | (e | ⟨⟩) <;> rfl]
    dsimp only
    rw [last']
    by_cases back : max k 1 ≤ (Film.ofReel witness bs r).steps.length
    · rw [if_pos back]
      exact agrees_restart replays pos back
    · have beyond : (Film.ofReel witness bs r).steps[max k 1 - 1]? = none :=
        List.getElem?_eq_none_iff.mpr (by omega)
      have step := agrees_advance (.past replays paused status last')
      rw [if_neg back, seekForward_of_end (Prod.ext step.1 rfl) (Outcome.ofResult_ne_step r)]
      show Agrees witness bs r _ ((Film.ofReel witness bs r).goTo (max k 1))
      rw [Film.goTo, beyond]
      exact ⟨rfl, step.2⟩
  | cancelled status last' =>
    rw [seek, if_pos status]
    exact ⟨rfl, .cancelled status last'⟩

/-! ### Walks -/

/-- One move keeps a stepper with the cursor. -/
theorem agrees_perform {c : Cursor} (h : Tracks witness bs r s c) (m : Move) :
    Agrees witness bs r (s.perform m) ((Film.ofReel witness bs r).move c m) := by
  cases m with
  | advance => exact agrees_advance h
  | seek k => exact agrees_seek h k
  | cancel =>
    have last := h.currentStep
    cases h with
    | fresh => exact ⟨rfl, .cancelled rfl last⟩
    | paused => exact ⟨rfl, .cancelled rfl last⟩
    | past => exact ⟨rfl, .cancelled rfl last⟩
    | cancelled => exact ⟨rfl, .cancelled rfl last⟩

theorem walk_of_tracks {c : Cursor} (h : Tracks witness bs r s c) (moves : List Move) :
    s.walk moves = ((Film.ofReel witness bs r).walk c moves).map fun x => (.ok x.1, x.2) := by
  induction moves generalizing s c with
  | nil => rfl
  | cons m ms ih =>
    obtain ⟨answer, next⟩ := agrees_perform h m
    rw [walk, Film.walk, List.map_cons, ← ih next, ← next.currentStep, ← answer]

theorem film_of_step {t : Stepper σ κ} {v : Snapshot} {film : Film}
    (h : s.advance = (.ok (.step v), t)) (rest : t.film = .ok film) :
    s.film = .ok ⟨v :: film.steps, film.ending⟩ := by
  rw [Stepper.film]
  split
  · rename_i h'
    rw [h] at h'
    cases h'
  · rename_i h'
    obtain ⟨rfl, rfl⟩ : _ ∧ _ := by simpa [h] using h'
    rw [rest]
    rfl
  · rename_i notStep h'
    rw [h] at h'
    exact (notStep v (by simpa using (congrArg (fun x => x.1) h').symm)).elim

theorem film_of_end {t : Stepper σ κ} {o : Outcome} (h : s.advance = (.ok o, t))
    (final : ∀ v, o ≠ .step v) : s.film = .ok ⟨[], o⟩ := by
  rw [Stepper.film]
  split
  · rename_i h'
    rw [h] at h'
    cases h'
  · rename_i h'
    rw [h] at h'
    obtain rfl : o = _ := by simpa using congrArg (fun x => x.1) h'
    exact absurd rfl (final _)
  · rename_i h'
    rw [h] at h'
    obtain rfl : o = _ := by simpa using congrArg (fun x => x.1) h'
    rfl

/-- Stepping forward from step `k` shows the rest of the film. -/
theorem film_of_tracks {k : Nat} (h : Tracks witness bs r s (.paused k)) :
    s.film = .ok ⟨(Film.ofReel witness bs r).steps.drop k, .ofResult r⟩ := by
  induction hd : (Film.ofReel witness bs r).steps.length - k generalizing s k with
  | zero =>
    have step := agrees_advance h
    have short : (Film.ofReel witness bs r).steps.length ≤ k := by omega
    simp only [Film.move, Film.goTo, Nat.add_sub_cancel, List.getElem?_eq_none short] at step
    rw [film_of_end (Prod.ext step.1 rfl) (Outcome.ofResult_ne_step r),
      List.drop_of_length_le short]
    rfl
  | succ d ih =>
    have step := agrees_advance h
    have inside : k < (Film.ofReel witness bs r).steps.length := by omega
    simp only [Film.move, Film.goTo, Nat.add_sub_cancel, List.getElem?_eq_getElem inside] at step
    rw [film_of_step (Prod.ext step.1 rfl) (ih step.2 (by omega)), List.drop_eq_getElem_cons inside]

/-- **A stepper is a cursor over its film.** Take an interpreter that accepts the completed witness
and then shows fixed boundaries, stops when told to, and otherwise ends in a fixed way. Whatever
moves are made from the start, the stepper answers as the cursor over what stepping forward shows,
and the step it shows last is where the cursor stands. -/
theorem walk_eq_walk_film {interpreter : Interpreter} {ring : KeyRing σ κ} {plan : Plan}
    {elements : List Bytes} {bs : List Boundary} {r : Option (Except RunError Unit)}
    (completes : ring.Completes plan.spend plan.parts elements)
    (starts : interpreter.start plan.spend (elements ++ plan.trailer) = .ok (reel bs r)) :
    ∃ film, (of interpreter ring plan).film = .ok film ∧ (∀ v, film.ending ≠ .step v)
      ∧ ∀ moves, (of interpreter ring plan).walk moves
        = (film.walk (.paused 0) moves).map fun x => (.ok x.1, x.2) := by
  have fresh : Tracks (elements ++ plan.trailer) bs r (of interpreter ring plan) (.paused 0) :=
    .fresh ⟨⟨elements, completes, rfl⟩, starts⟩ rfl rfl rfl
  refine ⟨Film.ofReel (elements ++ plan.trailer) bs r, ?_, Outcome.ofResult_ne_step r, ?_⟩
  · exact film_of_tracks fresh
  · exact walk_of_tracks fresh

end Stepper

/-! ### A signed witness, a leaf of one instruction -/

/-- Numbers its keys; a signature is the number of its key. -/
def countingSigner : Signer Nat UInt8 where
  keyOfBytes _ := .error "keys are made, not read"
  generate n := (UInt8.ofNat n, n + 1)
  publicKeyHex _ := ""
  sign key _ n := (.ok [key], n)

def countingRing : KeyRing Nat UInt8 := .of countingSigner 5 ⟨[("alice", [])]⟩

def signedPlan : Plan where
  spend := GeneratedSpend.spendOf ⟨List.replicate 32 1⟩ [] 0 []
  parts := [.empty, .signature "alice"]
  trailer := [[0x51], [0xc0]]

def shortBoundaries : List Boundary :=
  [⟨0, 0, [], [], []⟩, ⟨1, 0, [0x52], [], []⟩, ⟨1, 1, [0x52], [[2]], []⟩, ⟨2, 0, [0x51], [], []⟩,
    ⟨2, 1, [0x51], [[1]], []⟩]

theorem completes_signedPlan :
    countingRing.Completes signedPlan.spend signedPlan.parts [[], [5]] := by
  have first : countingRing.resolve (some signedPlan.spend) signedPlan.parts
      = (.ok [[], [5]], ⟨countingSigner, 6, ⟨[("alice", [])]⟩, [("alice", 5)]⟩) := rfl
  exact KeyRing.completes_of_resolve first rfl

theorem walk_signedPlan :
    countingRing.Completes signedPlan.spend signedPlan.parts [[], [5]] ∧
    ∃ film, (Stepper.of ⟨fun _ _ => .ok (reel shortBoundaries (some (.ok ())))⟩ countingRing
        signedPlan).film = .ok film ∧ (∀ v, film.ending ≠ .step v)
      ∧ ∀ moves, (Stepper.of ⟨fun _ _ => .ok (reel shortBoundaries (some (.ok ())))⟩ countingRing
        signedPlan).walk moves = (film.walk (.paused 0) moves).map fun x => (.ok x.1, x.2) :=
  ⟨completes_signedPlan, Stepper.walk_eq_walk_film completes_signedPlan rfl⟩

end TaprootLab

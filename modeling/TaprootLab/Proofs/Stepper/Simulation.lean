import TaprootLab.Proofs.Stepper.Protocol

/-!
# Single turns keep what was promised

The foreground and its workers are in step with a stepper that holds the paused run as a value.
Between calls they rest at the same place (`Rests`). Within a call, how the call will end is settled
before it does: each state promises an answer and a stepper (`Promises`). An operation of the
foreground keeps the promise or fulfils it (`keeps_act`), and no operation of a worker breaks it
(`keeps_work`).
-/

namespace TaprootLab

open Stepper Label

variable {σ κ : Type} {last : Option (Nat × Option Message)}

/-! ## Between calls -/

def Status.isPaused : Status → Bool
  | .paused _ => true
  | _ => false

/-- The foreground listens to no one: there is no session, or its worker waits for a permit at the
step that was received last and is shown. -/
inductive Rests (last : Option (Nat × Option Message)) :
    Option Session → Status → Option Snapshot → Option Paused → Prop
  | without {status : Status} {current : Option Snapshot} (still : status.isPaused = false) :
    Rests last none status current none
  | paused {x : Session} {v : Snapshot} {p : Paused} (parked : x.parked = true)
    (calm : x.abortRequested = false) (pauses : x.link.Pauses p)
    (received : last = some (x.number, some (.step v))) :
    Rests last (some x) (.paused v.step) (some v) (some p)

theorem Rests.of_none {status : Status} {current : Option Snapshot}
    {p : Option Paused} (h : Rests last none status current p) :
    p = none ∧ status.isPaused = false := by
  cases h with
  | without still => exact ⟨rfl, still⟩

theorem Rests.of_some {x : Session} {status : Status}
    {current : Option Snapshot} {p : Option Paused} (h : Rests last (some x) status current p) :
    ∃ v q, p = some q ∧ status = .paused v.step ∧ current = some v ∧ x.parked = true
      ∧ x.abortRequested = false ∧ x.link.Pauses q ∧ last = some (x.number, some (.step v)) := by
  cases h with
  | paused parked calm pauses received =>
      exact ⟨_, _, rfl, rfl, rfl, parked, calm, pauses, received⟩

/-- A session that can be dropped: its worker is parked with no permit, or it has ended. -/
def Session.Droppable (x : Session) : Prop :=
  (x.parked = true ∧ ∃ p, x.link.Pauses p)
    ∨ (x.parked = false ∧ x.link.worker = .gone ∧ x.link.permits = none)

theorem Rests.droppable {session : Option Session} {status : Status}
    {current : Option Snapshot} {p : Option Paused} (h : Rests last session status current p) :
    ∀ x, session = some x → x.Droppable := by
  rintro x rfl
  obtain ⟨v, q, -, -, -, parked, -, pauses, -⟩ := h.of_some
  exact .inl ⟨parked, q, pauses⟩

theorem Session.Droppable.work {x : Session} (h : x.Droppable) : x.link.work = none := by
  rcases h with ⟨-, p, pauses⟩ | ⟨-, gone, -⟩
  · exact pauses.work
  · rw [Link.work, gone]

/-! ## Within a call -/

/-- What a call makes of the outcome of a step forward. -/
def conclude (goal : Option Nat) (r : Outcome × Stepper σ κ) : Answer × Stepper σ κ :=
  match goal with
  | some k => seekOn k r
  | none => (.ok r.1, r.2)

/-- A step forward, and those that follow it for the sake of a goal. -/
def forward (goal : Option Nat) (t : Stepper σ κ) : Answer × Stepper σ κ :=
  match goal with
  | some k => t.seekForward k
  | none => t.advance

/-- How a call ends after the session has been dropped. -/
def Next.ending (t : Stepper σ κ) : Next → Answer × Stepper σ κ
  | .settle status outcome => (.ok outcome, t.stop status)
  | .restart target witness => conclude none (t.reset.begin target witness)

def Next.Ends : Next → Prop
  | .settle status _ => status.isPaused = false
  | .restart _ _ => True

/-- How the call that the foreground is in will end. -/
inductive Promises (last : Option (Nat × Option Message)) (s : System σ κ) :
    Answer × Stepper σ κ → Prop
  | calling {p : Option Paused} (m : Move) (here : s.activity = .calling m)
    (rests : Rests last s.session s.status s.current p) :
    Promises last s ((s.stepper p).perform m)
  | advancing {p : Option Paused} (goal : Option Nat) (here : s.activity = .advancing goal)
    (rests : Rests last s.session s.status s.current p) :
    Promises last s (forward goal (s.stepper p))
  | starting (target : Nat) (witness : List Bytes) (goal : Option Nat)
    (here : s.activity = .starting target witness goal) (alone : s.session = none) :
    Promises last s (conclude goal ((s.stepper none).begin target witness))
  | receiving {x : Session} {e : Event} (goal : Option Nat) (here : s.activity = .receiving goal)
    (held : s.session = some x) (released : x.parked = false) (calm : x.abortRequested = false)
    (brings : x.link.Brings e) :
    Promises last s (conclude goal ((s.stepper none).record e))
  | dropping (stage : Stage) (next : Next) (here : s.activity = .dropping stage next)
      (ends : next.Ends)
    (early : stage = .begin ∨ stage = .release) (ready : ∀ x, s.session = some x → x.Droppable) :
    Promises last s (next.ending (s.stepper none))
  | closing {x : Session} (stage : Stage) (next : Next) (here : s.activity = .dropping stage next)
    (ends : next.Ends) (held : s.session = some x) (withheld : x.link.permits ≠ some .proceed)
    (late : stage = .closePermits ∨ stage = .closeEvents ∧ x.link.permitsOpen = false) :
    Promises last s (next.ending (s.stepper none))
  | answering {p : Option Paused} (a : Answer) (here : s.activity = .answering a)
    (rests : Rests last s.session s.status s.current p) :
    Promises last s (a, s.stepper p)

/-! ### What moves amount to -/

theorem forward_of_final {goal : Option Nat} {t : Stepper σ κ} {o : Outcome}
    (h : finalOutcome? t.status = some o) : forward goal t = (.ok o, t) := by
  cases goal with
  | none => exact advance_of_final h
  | some k =>
    have final : ∀ v, o ≠ .step v := fun v same => finalOutcome?_ne_step t.status v (same ▸ h)
    exact seekForward_of_end (advance_of_final h) final

theorem forward_of_ok {goal : Option Nat} {t u : Stepper σ κ} {o : Outcome}
    (h : t.advance = (.ok o, u)) :
    forward goal t = conclude goal (o, u) := by
  cases goal with
  | none => exact h
  | some k => exact seekForward_of_ok h

theorem forward_of_error {goal : Option Nat} {t u : Stepper σ κ} {e : SigningError}
    (h : t.advance = (.error e, u)) : forward goal t = (.error e, u) := by
  cases goal with
  | none => exact h
  | some k => exact seekForward_of_error h

theorem forward_of_unstarted {goal : Option Nat} {t : Stepper σ κ} (h : t.unstarted = true) :
    forward goal t = match t.witness with
      | (.error e, u) => (.error e, u)
      | (.ok witness, u) => conclude goal (u.begin 1 witness) := by
  have first := advance_of_unstarted h
  rcases made : t.witness with ⟨e | witness, u⟩
  · rw [made] at first
    exact forward_of_error first
  · rw [made] at first
    exact forward_of_ok first

def Outcome.isStep : Outcome → Bool
  | .step _ => true
  | _ => false

theorem conclude_of_end {goal : Option Nat} {t : Stepper σ κ} {o : Outcome}
    (final : o.isStep = false) :
    conclude goal (o, t) = (.ok o, t) := by
  cases goal with
  | none => rfl
  | some k =>
    cases o with
    | step v => cases final
    | done => rfl
    | failed e => rfl
    | cancelled => rfl

/-! ## What every turn respects -/

/-- Whether the session of the foreground counts as given up. -/
def Activity.closing : Activity → Bool
  | .dropping .begin _ => false
  | .dropping _ _ => true
  | _ => false

/-- Sessions are told apart by their numbers, and those that were given up are not in use. -/
structure Tidy (h : List Label) (s : System σ κ) : Prop where
  session_lt : ∀ x, s.session = some x → x.number < s.spawned
  dropped_lt : ∀ i, .dropped i ∈ h → i < s.spawned
  kept : ∀ x, s.session = some x → s.activity.closing = false → .dropped x.number ∉ h
  forsaken : ∀ y ∈ s.abandoned, y.2.Forsaken

/-- What may happen after what has happened: a permit finds its slot empty, nothing is received from
a session that was dropped, and its worker is not told to go on. -/
def Label.Allowed (h : List Label) : Label → Prop
  | .sent _ _ delivery => delivery ≠ .full
  | .took i _ => .dropped i ∉ h
  | .resumed i c => .dropped i ∈ h → c = .abort
  | _ => True

theorem allowed_delivered (h : List Label) (number : Nat) (c : Control) :
    (Label.sent number c .delivered).Allowed h := by
  intro full
  cases full

def Label.dropped? : Label → Option Nat
  | .dropped i => some i
  | _ => none

def Label.inner : Label → Bool
  | .called _ | .answered _ => false
  | _ => true

theorem Label.calls_of_inner {label : Label} {h : List Label} (inner : label.inner = true) :
    calls (label :: h) = calls h ∧ answers (label :: h) = answers h := by
  cases label with
  | called m => cases inner
  | answered a => cases inner
  | _ => exact ⟨rfl, rfl⟩

/-- A turn within a call that keeps what was promised. -/
structure Keeps (h : List Label) (r : Answer × Stepper σ κ) (x : Label × System σ κ) : Prop where
  promises : Promises (lastTaken (x.1 :: h)) x.2 r
  tidy : Tidy (x.1 :: h) x.2
  allowed : x.1.Allowed h
  inner : x.1.inner = true

namespace System

variable {s s' : System σ κ} {h : List Label} {r : Answer × Stepper σ κ}

theorem record_stepper (p : Option Paused) (e : Event) :
    (s.stepper p).record e = (s.stepper none).record e := by
  match e with
  | .step _ _ => rfl
  | .finished (.ok ()) => rfl
  | .finished (.error _) => rfl
  | .vanished => rfl

theorem witness_stepper (p : Option Paused) :
    (s.stepper p).witness
      = ((s.stepper none).witness.1,
        { s with ring := (s.stepper none).witness.2.ring }.stepper p) := by
  simp only [Stepper.witness, stepper]
  split <;> rfl

theorem tidy_next {label : Label} (tidy : Tidy h s) (quiet : label.dropped? = none)
    (session : ∀ x', s'.session = some x' →
      ∃ x, s.session = some x ∧ x.number = x'.number
        ∧ (s'.activity.closing = false → s.activity.closing = false))
    (spawned : s'.spawned = s.spawned) (forsaken : ∀ y ∈ s'.abandoned, y.2.Forsaken) :
    Tidy (label :: h) s' where
  session_lt x' held := by
    obtain ⟨x, held, number, -⟩ := session x' held
    rw [spawned, ← number]
    exact tidy.session_lt x held
  dropped_lt i mem := by
    rcases List.mem_cons.mp mem with same | mem
    · rw [← same] at quiet
      cases quiet
    · rw [spawned]
      exact tidy.dropped_lt i mem
  kept x' held early mem := by
    obtain ⟨x, held, number, earlier⟩ := session x' held
    rcases List.mem_cons.mp mem with same | mem
    · rw [← same] at quiet
      cases quiet
    · exact tidy.kept x held (earlier early) (number ▸ mem)
  forsaken := forsaken

theorem tidy_of_held {label : Label} {x x' : Session} (tidy : Tidy h s) (held : s.session = some x)
    (held' : s'.session = some x') (number : x.number = x'.number)
    (closing : s'.activity.closing = false → s.activity.closing = false)
    (quiet : label.dropped? = none) (spawned : s'.spawned = s.spawned)
    (abandoned : s'.abandoned = s.abandoned) : Tidy (label :: h) s' := by
  refine tidy_next tidy quiet (fun y same => ⟨x, held, ?_, closing⟩) spawned
    (abandoned ▸ tidy.forsaken)
  rw [number, Option.some.inj (held'.symm.trans same)]

/-- A turn that is not seen from outside and leaves the sessions alone. -/
theorem keeps_internal (tidy : Tidy h s) (early : s.activity.closing = false)
    (frame : s'.session = s.session ∧ s'.spawned = s.spawned ∧ s'.abandoned = s.abandoned)
    (promises : Promises (lastTaken h) s' r) : Keeps h r (.internal, s') := by
  obtain ⟨session, spawned, abandoned⟩ := frame
  refine ⟨promises, tidy_next tidy rfl ?_ spawned ?_, trivial, rfl⟩
  · intro x held
    exact ⟨x, session ▸ held, rfl, fun _ => early⟩
  · rw [abandoned]
    exact tidy.forsaken

/-! ### The foreground within a call -/

theorem complete_frame (next : List Bytes → Activity) :
    (s.complete next).session = s.session ∧ (s.complete next).spawned = s.spawned
      ∧ (s.complete next).abandoned = s.abandoned := by
  rw [complete]
  split <;> exact ⟨rfl, rfl, rfl⟩

/-- The foreground completes the witness: if that fails the call fails, and nothing else changes. -/
theorem promises_complete {p : Option Paused} {next : List Bytes → Activity}
    (made : List Bytes → Stepper σ κ → Answer × Stepper σ κ)
    (rests : Rests last s.session s.status s.current p)
    (call : r = match (s.stepper p).witness with
      | (.error e, t) => (.error e, t)
      | (.ok witness, t) => made witness t)
    (goes : ∀ witness ring, Promises last { s with ring, activity := next witness }
      (made witness ({ s with ring }.stepper p))) :
    Promises last (s.complete next) r := by
  rw [call, witness_stepper p, complete]
  rcases (s.stepper none).witness with ⟨e | witness, t⟩
  · exact .answering (.error e) rfl rests
  · exact goes witness t.ring

theorem enter_frame (m : Move) :
    (s.enter m).session = s.session ∧ (s.enter m).spawned = s.spawned
      ∧ (s.enter m).abandoned = s.abandoned := by
  cases m with
  | advance => exact ⟨rfl, rfl, rfl⟩
  | cancel => exact ⟨rfl, rfl, rfl⟩
  | seek k =>
    rw [enter]
    split
    · exact ⟨rfl, rfl, rfl⟩
    split
    · exact ⟨rfl, rfl, rfl⟩
    split
    · exact complete_frame _
    · exact ⟨rfl, rfl, rfl⟩

theorem promises_enter {p : Option Paused} (m : Move)
    (rests : Rests last s.session s.status s.current p) :
    Promises last (s.enter m) ((s.stepper p).perform m) := by
  cases m with
  | advance => exact .advancing none rfl rests
  | cancel =>
    let next := Next.settle .cancelled .cancelled
    show Promises last (s.turnTo (.dropping .begin next)) (next.ending (s.stepper none))
    exact .dropping .begin next rfl rfl (.inl rfl) rests.droppable
  | seek k =>
    show Promises last (s.enter (.seek k)) ((s.stepper p).seek k)
    rw [enter]
    by_cases stopped : s.status = .cancelled
    · rw [if_pos stopped, seek_of_cancelled stopped]
      exact .answering _ rfl rests
    rw [if_neg stopped]
    cases here : (s.stepper none).pausedAt? (max k 1) with
    | some v =>
      have shown : (s.stepper p).pausedAt? (max k 1) = some v := here
      rw [seek_of_pausedAt stopped shown]
      exact .answering _ rfl rests
    | none =>
      have away : (s.stepper p).pausedAt? (max k 1) = none := here
      have step : (s.stepper none).currentStep = (s.stepper p).currentStep := rfl
      rw [seek_of_moving stopped away]
      dsimp only
      rw [step]
      by_cases back : max k 1 ≤ (s.stepper p).currentStep
      · rw [if_pos back, if_pos back]
        let made (witness : List Bytes) (t : Stepper σ κ) :=
          conclude none (t.reset.begin (max k 1) witness)
        exact promises_complete made rests (restart_eq _) fun witness ring =>
          .dropping .begin (.restart (max k 1) witness) rfl trivial (.inl rfl) rests.droppable
      · rw [if_neg back, if_neg back]
        exact .advancing (some (max k 1)) rfl rests

theorem send_of_pauses {l : Link} {p : Paused} (pauses : l.Pauses p) (c : Control) :
    l.send c = (.delivered, { l with permits := some c }) := by
  rw [pauses]
  rfl

theorem keeps_goOn {p : Option Paused} (tidy : Tidy h s) (goal : Option Nat)
    (here : s.activity = .advancing goal)
    (rests : Rests (lastTaken h) s.session s.status s.current p) :
    Keeps h (forward goal (s.stepper p)) (s.goOn goal) := by
  have early : s.activity.closing = false := by rw [here]; rfl
  rw [goOn]
  cases final : finalOutcome? s.status with
  | some o =>
    rw [forward_of_final final]
    exact keeps_internal tidy early ⟨rfl, rfl, rfl⟩ (.answering _ rfl rests)
  | none =>
    cases held : s.session with
    | none =>
      rw [held] at rests
      obtain ⟨rfl, -⟩ := rests.of_none
      have unstarted : (s.stepper none).unstarted = true := by
        rw [Stepper.unstarted, show (s.stepper none).status = s.status from rfl, final]
        rfl
      refine keeps_internal tidy early (complete_frame _) ?_
      rw [← held] at rests
      exact promises_complete (fun witness t => conclude goal (t.begin 1 witness)) rests
        (forward_of_unstarted unstarted) fun witness ring => .starting 1 witness goal rfl held
    | some x =>
      rw [held] at rests
      obtain ⟨v, q, rfl, -, -, parked, calm, pauses, -⟩ := rests.of_some
      have went : (s.stepper (some q)).advance
          = (.ok ((s.stepper none).record q.proceed).1, ((s.stepper none).record q.proceed).2) := by
        rw [advance_of_paused final rfl, record_stepper]
      rw [forward_of_ok went]
      simp only [permit, parked, if_true, send_of_pauses pauses]
      -- From here on the link brings what the paused run brings once it is told to proceed.
      refine ⟨?_, tidy_of_held tidy held rfl rfl (fun _ => early) rfl rfl rfl,
        allowed_delivered _ _ _, rfl⟩
      refine .receiving goal rfl rfl rfl (by rw [calm]; rfl) ?_
      rw [pauses]
      exact .permitted q.target q.viewer q.resume

theorem keeps_start {target : Nat} {witness : List Bytes} {goal : Option Nat} (tidy : Tidy h s)
    (here : s.activity = .starting target witness goal) (alone : s.session = none) :
    Keeps h (conclude goal ((s.stepper none).begin target witness))
      (.internal, s.start target witness goal) := by
  have early : s.activity.closing = false := by rw [here]; rfl
  have starts : (s.stepper none).interpreter.start (s.stepper none).plan.spend witness
      = s.interpreter.start s.plan.spend witness := rfl
  rw [start, Stepper.begin, starts]
  cases s.interpreter.start s.plan.spend witness with
  | error e =>
    have final : (Outcome.failed e).isStep = false := rfl
    dsimp only
    rw [conclude_of_end final]
    refine keeps_internal tidy early ⟨rfl, rfl, rfl⟩ (.answering (p := none) _ rfl ?_)
    show Rests _ s.session (.failed e) s.current none
    rw [alone]
    exact .without rfl
  | ok run =>
    refine ⟨.receiving goal rfl rfl rfl rfl (.running target _ run), ?_, trivial, rfl⟩
    -- The number of the new session is one that no session has had, so none like it was dropped.
    refine ⟨?_, ?_, ?_, tidy.forsaken⟩
    · intro x held
      rw [← Option.some.inj held]
      exact Nat.lt_succ_self _
    · intro i mem
      rcases List.mem_cons.mp mem with same | mem
      · cases same
      · exact Nat.lt_succ_of_lt (tidy.dropped_lt i mem)
    · intro x held _ mem
      rw [← Option.some.inj held] at mem
      rcases List.mem_cons.mp mem with same | mem
      · cases same
      · exact absurd (tidy.dropped_lt _ mem) (Nat.lt_irrefl _)

/-! ### Receiving -/

/-- A step that is heard is where the foreground rests, unless it seeks further. -/
theorem promises_afterStep {p : Paused} (goal : Option Nat)
    (v : Snapshot) (here : s.activity = afterStep goal v)
    (rests : Rests last s.session s.status s.current (some p)) :
    Promises last s (conclude goal (.step v, s.stepper (some p))) := by
  cases goal with
  | none => exact .answering _ here rests
  | some k =>
    rw [afterStep] at here
    rw [conclude, seekOn]
    by_cases below : v.step < k
    · rw [if_pos below] at here ⊢
      exact .advancing (some k) here rests
    · rw [if_neg below] at here ⊢
      exact .answering _ here rests

/-- The end of a run is heard as such, and the session is dropped. -/
theorem keeps_hear_end {x x' : Session} {goal : Option Nat} {status : Status} {o : Outcome}
    {m : Option Message} (tidy : Tidy h s) (here : s.activity = .receiving goal)
    (held : s.session = some x) (number : x.number = x'.number) (droppable : x'.Droppable)
    (final : o.isStep = false) (ends : status.isPaused = false) (heard : s.hear x' goal o
      = { s with session := some x', activity := .dropping .begin (.settle status o) }) :
    Keeps h (conclude goal (o, (s.stepper none).stop status))
      (.took x.number m, s.hear x' goal o) := by
  have early : s.activity.closing = false := by rw [here]; rfl
  rw [heard, conclude_of_end final]
  refine ⟨?_, tidy_of_held tidy held rfl number (fun _ => early) rfl rfl rfl,
    tidy.kept x held early, rfl⟩
  refine .dropping .begin (.settle status o) rfl ends (.inl rfl) ?_
  intro y same
  rwa [← Option.some.inj same]

theorem keeps_receive {x : Session} {goal : Option Nat} {e : Event} {y : Label × System σ κ}
    (tidy : Tidy h s) (here : s.activity = .receiving goal) (held : s.session = some x)
    (released : x.parked = false) (calm : x.abortRequested = false) (brings : x.link.Brings e)
    (received : s.receive x goal = some y) :
    Keeps h (conclude goal ((s.stepper none).record e)) y := by
  have early : s.activity.closing = false := by rw [here]; rfl
  obtain ⟨number, link, parked, abortRequested⟩ := x
  obtain rfl : parked = false := released
  obtain rfl : abortRequested = false := calm
  cases brings with
  | offered target v viewer resume =>
    cases received
    refine ⟨?_, tidy_of_held tidy held rfl rfl (fun _ => early) rfl rfl rfl,
      tidy.kept _ held early, rfl⟩
    exact promises_afterStep goal v rfl (.paused rfl rfl rfl rfl)
  | finished target result =>
    cases received
    have droppable : Session.Droppable
        ⟨number, ⟨target, .gone, none, none, true, true⟩, false, false⟩ :=
      .inr ⟨rfl, rfl, rfl⟩
    match result with
    | .ok () => exact keeps_hear_end tidy here held rfl droppable rfl rfl rfl
    | .error e =>
      have failed : Session.outcome
          ⟨number, ⟨target, .gone, none, some (.finished (.error e)), true, true⟩,
          false, false⟩ (some (.finished (.error e))) = .failed e := by
        rw [Session.outcome, if_neg (by simp)]
      rw [failed]
      exact keeps_hear_end tidy here held rfl droppable rfl rfl rfl
  | vanished target =>
    cases received
    exact keeps_hear_end tidy here held rfl (.inr ⟨rfl, rfl, rfl⟩) rfl rfl rfl
  | running => cases received
  | offering => cases received
  | permitted => cases received
  | finishing => cases received

/-! ### Dropping a session -/

theorem promises_follow {next : Next} (ends : next.Ends) :
    Promises last (s.follow next) (next.ending (s.stepper none)) := by
  cases next with
  | settle status o => exact .answering (p := none) _ rfl (.without ends)
  | restart target witness => exact .starting target witness none rfl rfl

theorem follow_frame (next : Next) :
    (s.follow next).session = none ∧ (s.follow next).spawned = s.spawned
      ∧ (s.follow next).abandoned = s.abandoned := by
  cases next <;> exact ⟨rfl, rfl, rfl⟩

theorem tidy_follow {next : Next} (tidy : Tidy h s)
    (forsaken : ∀ y ∈ s'.abandoned, y.2.Forsaken) (spawned : s'.spawned = s.spawned) :
    Tidy (.internal :: h) (s'.follow next) := by
  obtain ⟨none, same, others⟩ := follow_frame (s := s') next
  refine tidy_next tidy rfl (fun x held => ?_) (same.trans spawned) (others ▸ forsaken)
  rw [none] at held
  cases held

theorem keeps_discard_early {stage : Stage} {next : Next} (tidy : Tidy h s)
    (here : s.activity = .dropping stage next) (ends : next.Ends)
    (early : stage = .begin ∨ stage = .release) (ready : ∀ x, s.session = some x → x.Droppable) :
    Keeps h (next.ending (s.stepper none)) (s.discard next s.session stage) := by
  cases held : s.session with
  | none => exact ⟨promises_follow ends, tidy_follow tidy tidy.forsaken rfl, trivial, rfl⟩
  | some x =>
    rcases early with rfl | rfl
    · refine ⟨.dropping .release next rfl ends (.inr rfl) ready, ?_, trivial, rfl⟩
      refine ⟨tidy.session_lt, ?_, fun _ _ late => (nomatch late), tidy.forsaken⟩
      intro i mem
      rcases List.mem_cons.mp mem with same | mem
      · cases same
        exact tidy.session_lt x held
      · exact tidy.dropped_lt i mem
    · have closing : Activity.closing (.dropping .closePermits next) = false →
          s.activity.closing = false := nofun
      -- Only a parked worker is sent an abort; one that has ended has no use for it.
      rcases ready x held with ⟨parked, p, pauses⟩ | ⟨released, gone, empty⟩
      · simp only [discard, permit, parked, if_true, send_of_pauses pauses]
        refine ⟨.closing .closePermits next rfl ends rfl nofun (.inl rfl), ?_,
          allowed_delivered _ _ _, rfl⟩
        exact tidy_of_held tidy held rfl rfl closing rfl rfl rfl
      · simp only [discard, permit, released]
        refine ⟨.closing .closePermits next rfl ends held (by rw [empty]; nofun) (.inl rfl),
          ?_, trivial, rfl⟩
        exact tidy_of_held tidy held held rfl closing rfl rfl rfl

theorem keeps_discard_late {x : Session} {stage : Stage} {next : Next} (tidy : Tidy h s)
    (here : s.activity = .dropping stage next) (ends : next.Ends) (held : s.session = some x)
    (withheld : x.link.permits ≠ some .proceed)
    (late : stage = .closePermits ∨ stage = .closeEvents ∧ x.link.permitsOpen = false) :
    Keeps h (next.ending (s.stepper none)) (s.discard next s.session stage) := by
  rw [held]
  rcases late with rfl | ⟨rfl, closed⟩
  · refine ⟨.closing .closeEvents next rfl ends rfl withheld (.inr ⟨rfl, rfl⟩), ?_, trivial, rfl⟩
    exact tidy_of_held tidy held rfl rfl nofun rfl rfl rfl
  · refine ⟨promises_follow ends, tidy_follow tidy ?_ rfl, trivial, rfl⟩
    intro y mem
    rcases List.mem_cons.mp mem with rfl | mem
    · exact ⟨withheld, closed, rfl⟩
    · exact tidy.forsaken y mem

/-- **One operation of the foreground keeps the promise**, or it gives the answer that was
promised. -/
theorem keeps_act {y : Label × System σ κ} (tidy : Tidy h s) (promises : Promises (lastTaken h) s r)
    (acted : s.act = some y) :
    Keeps h r y ∨ ∃ p, y = (.answered r.1, s.turnTo .idle) ∧ r.2 = s.stepper p
      ∧ Rests (lastTaken h) s.session s.status s.current p ∧ s.activity.closing = false := by
  cases promises with
  | calling m here rests =>
    simp only [act, here, Option.some.injEq] at acted
    subst acted
    have early : s.activity.closing = false := by rw [here]; rfl
    exact .inl (keeps_internal tidy early (enter_frame m) (promises_enter m rests))
  | advancing goal here rests =>
    simp only [act, here, Option.some.injEq] at acted
    subst acted
    exact .inl (keeps_goOn tidy goal here rests)
  | starting target witness goal here alone =>
    simp only [act, here, Option.some.injEq] at acted
    subst acted
    exact .inl (keeps_start tidy here alone)
  | receiving goal here held released calm brings =>
    simp only [act, here, held] at acted
    exact .inl (keeps_receive tidy here held released calm brings acted)
  | dropping stage next here ends early ready =>
    simp only [act, here, Option.some.injEq] at acted
    subst acted
    exact .inl (keeps_discard_early tidy here ends early ready)
  | closing stage next here ends held withheld late =>
    simp only [act, here, Option.some.injEq] at acted
    subst acted
    exact .inl (keeps_discard_late tidy here ends held withheld late)
  | answering a here rests =>
    simp only [act, here, Option.some.injEq] at acted
    subst acted
    exact .inr ⟨_, rfl, rfl, rests, by rw [here]; rfl⟩

/-! ### Workers -/

theorem work_eq_some {label : Label} (worked : s.work = some (label, s')) :
    ∃ x c link, s.session = some x ∧ x.link.work = some (c, link) ∧ label = .ofWork x.number c
      ∧ s' = { s with session := some { x with link } } := by
  rw [work] at worked
  split at worked
  · cases worked
  · rename_i x held
    obtain ⟨⟨c, link⟩, done, same⟩ := Option.map_eq_some_iff.mp worked
    cases same
    exact ⟨x, c, link, held, done, rfl, rfl⟩

theorem lastTaken_ofWork (number : Nat) (c : Option Control) :
    lastTaken (.ofWork number c :: h) = lastTaken h := by
  cases c <;> rfl

theorem inner_ofWork (number : Nat) (c : Option Control) :
    (Label.ofWork number c).inner = true := by
  cases c <;> rfl

theorem dropped?_ofWork (number : Nat) (c : Option Control) :
    (Label.ofWork number c).dropped? = none := by
  cases c <;> rfl

/-- A worker that is not told to go on does nothing that is not allowed. -/
theorem allowed_ofWork {number : Nat} {c : Option Control}
    (h' : .dropped number ∈ h → c ≠ some .proceed) :
    (Label.ofWork number c).Allowed h := by
  match c with
  | none => trivial
  | some .abort => exact fun _ => rfl
  | some .proceed => exact fun mem => absurd rfl (h' mem)

/-- **One operation of the worker keeps the promise.** Only a worker that the foreground waits for,
or that it is about to give up, does anything. -/
theorem keeps_work {label : Label} (tidy : Tidy h s) (promises : Promises (lastTaken h) s r)
    (worked : s.work = some (label, s')) : Keeps h r (label, s') := by
  obtain ⟨x, c, link, held, done, rfl, rfl⟩ := work_eq_some worked
  have tidy' : Tidy (.ofWork x.number c :: h) { s with session := some { x with link } } :=
    tidy_of_held tidy held rfl rfl id (dropped?_ofWork x.number c) rfl rfl
  have idle {p : Option Paused}
      (rests : Rests (lastTaken h) s.session s.status s.current p) : False := by
    have waits := (rests.droppable x held).work
    rw [done] at waits
    cases waits
  cases promises with
  | calling m here rests => exact (idle rests).elim
  | advancing goal here rests => exact (idle rests).elim
  | starting target witness goal here alone =>
    rw [held] at alone
    cases alone
  | receiving goal here held' released calm brings =>
    obtain rfl := Option.some.inj (held.symm.trans held')
    refine ⟨.receiving goal here rfl released calm (brings.work done), tidy',
      allowed_ofWork fun mem => ?_, inner_ofWork x.number c⟩
    exact absurd mem (tidy.kept _ held (by rw [here]; rfl))
  | dropping stage next here ends early ready =>
    have waits := (ready x held).work
    rw [done] at waits
    cases waits
  | closing stage next here ends held' withheld late =>
    obtain rfl := Option.some.inj (held.symm.trans held')
    obtain ⟨answer, withheld'⟩ := Link.answer_of_work withheld done
    have late' : stage = .closePermits ∨ stage = .closeEvents ∧ link.permitsOpen = false :=
      late.imp_right fun closed => ⟨closed.1, (Link.permits_of_work done).1.trans closed.2⟩
    exact ⟨.closing stage next here ends rfl withheld' late', tidy', allowed_ofWork fun _ => answer,
      inner_ofWork x.number c⟩
  | answering a here rests => exact (idle rests).elim

/-- What is promised does not depend on the workers that were given up. -/
theorem promises_abandoned {others : List (Nat × Link)} (promises : Promises last s r) :
    Promises last { s with abandoned := others } r := by
  cases promises with
  | calling m here rests => exact .calling m here rests
  | advancing goal here rests => exact .advancing goal here rests
  | starting target witness goal here alone => exact .starting target witness goal here alone
  | receiving goal here held released calm brings =>
    exact .receiving goal here held released calm brings
  | dropping stage next here ends early ready => exact .dropping stage next here ends early ready
  | closing stage next here ends held withheld late =>
    exact .closing stage next here ends held withheld late
  | answering a here rests => exact .answering a here rests

theorem workOff_eq_some {label : Label} {i : Nat} (worked : s.workOff i = some (label, s')) :
    ∃ number link c link', s.abandoned[i]? = some (number, link) ∧ link.work = some (c, link')
      ∧ label = .ofWork number c
      ∧ s' = { s with abandoned := s.abandoned.set i (number, link') } := by
  rw [workOff] at worked
  split at worked
  · cases worked
  · rename_i number link found
    obtain ⟨⟨c, link'⟩, done, same⟩ := Option.map_eq_some_iff.mp worked
    cases same
    exact ⟨number, link, c, link', found, done, rfl, rfl⟩

/-- Nor does a worker that was given up do anything that is not allowed. -/
theorem tidy_workOff {label : Label} {i : Nat} (tidy : Tidy h s)
    (worked : s.workOff i = some (label, s')) :
    Tidy (label :: h) s' ∧ label.Allowed h ∧ label.inner = true
      ∧ lastTaken (label :: h) = lastTaken h := by
  obtain ⟨number, link, c, link', found, done, rfl, rfl⟩ := workOff_eq_some worked
  have forsaken : link.Forsaken := tidy.forsaken _ (List.mem_of_getElem? found)
  refine ⟨?_, allowed_ofWork fun _ =>
    (Link.answer_of_work forsaken.permits done).1, inner_ofWork number c,
    lastTaken_ofWork number c⟩
  refine tidy_next tidy (dropped?_ofWork number c) (fun x held => ⟨x, held, rfl, id⟩) rfl ?_
  intro y mem
  rcases List.mem_or_eq_of_mem_set mem with mem | rfl
  · exact tidy.forsaken y mem
  · exact forsaken.work done

end System

end TaprootLab

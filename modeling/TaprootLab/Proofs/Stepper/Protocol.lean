import TaprootLab.Proofs.Stepper.Moves
import TaprootLab.Proofs.Stepper.Worker

/-!
# The protocol between a stepper and its workers

The stepper as it runs: a foreground that answers calls, one worker at a time that it listens to,
and the workers that it has given up and that are still about. A run that is paused is not at hand
as a value here. It is with its worker, and all that the foreground has is a session: the link to
the worker and what the foreground believes about it.

A call is cut into its single operations on the channels. `System.turn` is one operation of whoever
is next: the caller, the foreground, the worker of the session, or a worker that was given up. An
interleaving is any sequence of turns (`Reaches`), and its labels tell what has happened.
-/

namespace TaprootLab

variable {σ κ : Type}

abbrev Answer := Except SigningError Outcome

/-- What becomes of a permit that is sent without waiting. -/
inductive Delivery where
  | delivered
  /-- There is already one in the slot. -/
  | full
  /-- The worker has ended. -/
  | disconnected
  deriving DecidableEq

/-- Sends a permit without waiting. -/
def Link.send (l : Link) (c : Control) : Delivery × Link :=
  match l.worker, l.permits with
  | .gone, _ => (.disconnected, l)
  | _, some _ => (.full, l)
  | _, none => (.delivered, { l with permits := some c })

/-- A running worker as the foreground knows it. -/
structure Session where
  number : Nat
  link : Link
  /-- Whether the worker is taken to wait for a permit. -/
  parked : Bool
  abortRequested : Bool

/-- What the foreground makes of what it receives, nothing being received once the channel is
closed. An abort that was asked for is no failure. -/
def Session.outcome (x : Session) : Option Message → Outcome
  | some (.step v) => .step v
  | some (.finished (.ok ())) => .done
  | some (.finished (.error e)) => if e = .aborted ∧ x.abortRequested then .cancelled else .failed e
  | none => .failed Stepper.vanishedError

/-- What follows when a session has been dropped. -/
inductive Next where
  | settle (status : Status) (outcome : Outcome)
  | restart (target : Nat) (witness : List Bytes)

/-- How far the dropping of a session has got. -/
inductive Stage where
  | begin
  | release
  | closePermits
  | closeEvents

/-- Where the foreground is in a call. A step forward has a goal if it is made for the sake of
seeking. -/
inductive Activity where
  | idle
  | calling (m : Move)
  | advancing (goal : Option Nat)
  | starting (target : Nat) (witness : List Bytes) (goal : Option Nat)
  | receiving (goal : Option Nat)
  | dropping (stage : Stage) (next : Next)
  | answering (a : Answer)

/-- What one turn does, as far as it can be told from outside. -/
inductive Label where
  | called (m : Move)
  | answered (a : Answer)
  /-- A permit was sent to the worker of the session with the given number. -/
  | sent (number : Nat) (c : Control) (delivery : Delivery)
  /-- The foreground received a message, or found the channel closed. -/
  | took (number : Nat) (m : Option Message)
  /-- The session was given up. -/
  | dropped (number : Nat)
  /-- The worker answered a visible boundary to its run. -/
  | resumed (number : Nat) (c : Control)
  | internal

def Label.ofWork (number : Nat) : Option Control → Label
  | some c => .resumed number c
  | none => .internal

/-- A foreground with all workers that it has started. -/
structure System (σ κ : Type) where
  interpreter : Interpreter
  ring : KeyRing σ κ
  plan : Plan
  session : Option Session
  status : Status
  /-- The last step shown since the run was started. -/
  current : Option Snapshot
  activity : Activity
  /-- How many sessions there have been. -/
  spawned : Nat
  /-- The sessions that were dropped, by number. -/
  abandoned : List (Nat × Link)

inductive Turn where
  | call (m : Move)
  | foreground
  | worker
  /-- A worker that was given up, by its place. -/
  | leftover (i : Nat)
  deriving DecidableEq

namespace System

def of (interpreter : Interpreter) (ring : KeyRing σ κ) (plan : Plan) : System σ κ :=
  ⟨interpreter, ring, plan, none, .notStarted, none, .idle, 0, []⟩

/-- What the foreground knows, as a stepper with the given run. -/
def stepper (s : System σ κ) (paused : Option Paused) : Stepper σ κ :=
  ⟨s.interpreter, s.ring, s.plan, paused, s.status, s.current⟩

def turnTo (s : System σ κ) (a : Activity) : System σ κ := { s with activity := a }

/-! ## Operations of the foreground -/

/-- Completes the witness and goes on with it, or fails. -/
def complete (s : System σ κ) (next : List Bytes → Activity) : System σ κ :=
  match (s.stepper none).witness with
  | (.error e, t) => { s with ring := t.ring, activity := .answering (.error e) }
  | (.ok witness, t) => { s with ring := t.ring, activity := next witness }

def enter (s : System σ κ) : Move → System σ κ
  | .advance => s.turnTo (.advancing none)
  | .cancel => s.turnTo (.dropping .begin (.settle .cancelled .cancelled))
  | .seek k =>
    if s.status = .cancelled then s.turnTo (.answering (.ok .cancelled))
    else
      match (s.stepper none).pausedAt? (max k 1) with
      | some v => s.turnTo (.answering (.ok (.step v)))
      | none =>
        if max k 1 ≤ (s.stepper none).currentStep then
          s.complete fun witness => .dropping .begin (.restart (max k 1) witness)
        else s.turnTo (.advancing (some (max k 1)))

/-- Releases a worker that is taken to be parked. -/
def permit (s : System σ κ) (x : Session) (c : Control) (next : Activity) : Label × System σ κ :=
  if x.parked then
    let (delivery, link) := x.link.send c
    let abortRequested := x.abortRequested || decide (c = .abort)
    (.sent x.number c delivery,
      { s with session := some { x with link, parked := false, abortRequested }, activity := next })
  else (.internal, s.turnTo next)

/-- A step forward, up to where the foreground starts to listen. -/
def goOn (s : System σ κ) (goal : Option Nat) : Label × System σ κ :=
  match Stepper.finalOutcome? s.status, s.session with
  | some outcome, _ => (.internal, s.turnTo (.answering (.ok outcome)))
  | none, some x => s.permit x .proceed (.receiving goal)
  | none, none => (.internal, s.complete fun witness => .starting 1 witness goal)

/-- Starts a worker, if the interpreter does not refuse. -/
def start (s : System σ κ) (target : Nat) (witness : List Bytes) (goal : Option Nat) : System σ κ :=
  match s.interpreter.start s.plan.spend witness with
  | .error e => { s with status := .failed e, activity := .answering (.ok (.failed e)) }
  | .ok run =>
    { s with
      session := some ⟨s.spawned, .fresh target witness run, false, false⟩
      spawned := s.spawned + 1
      activity := .receiving goal }

/-- What follows a step that is shown: seeking goes on below its goal. -/
def afterStep (goal : Option Nat) (v : Snapshot) : Activity :=
  match goal with
  | some k => if v.step < k then .advancing (some k) else .answering (.ok (.step v))
  | none => .answering (.ok (.step v))

def hear (s : System σ κ) (x : Session) (goal : Option Nat) : Outcome → System σ κ
  | .step v =>
    { s with
      session := some { x with parked := true }
      status := .paused v.step
      current := some v
      activity := afterStep goal v }
  | .done => { s with session := some x, activity := .dropping .begin (.settle .done .done) }
  | .failed e =>
      { s with session := some x, activity := .dropping .begin (.settle (.failed e) (.failed e)) }
  | .cancelled =>
      { s with session := some x, activity := .dropping .begin (.settle .cancelled .cancelled) }

/-- Receives from the worker of the session. This waits while the worker may yet send something. -/
def receive (s : System σ κ) (x : Session) (goal : Option Nat) : Option (Label × System σ κ) :=
  match x.link.events, x.link.worker with
  | some m, _ =>
    some (.took x.number (some m),
      s.hear { x with link := { x.link with events := none } } goal (x.outcome (some m)))
  | none, .gone => some (.took x.number none, s.hear x goal (x.outcome none))
  | none, _ => none

/-- What follows when there is no session any more. -/
def follow (s : System σ κ) : Next → System σ κ
  | .settle status outcome =>
      { s with session := none, status, activity := .answering (.ok outcome) }
  | .restart target witness =>
    { s with
      session := none
      status := .notStarted
      current := none
      activity := .starting target witness none }

/-- Drops the session: tells a parked worker to abort, then closes the channels one after the
other. -/
def discard (s : System σ κ) (next : Next) : Option Session → Stage → Label × System σ κ
  | none, _ => (.internal, s.follow next)
  | some x, .begin => (.dropped x.number, s.turnTo (.dropping .release next))
  | some x, .release => s.permit x .abort (.dropping .closePermits next)
  | some x, .closePermits =>
    (.internal,
      { s with
        session := some { x with link := { x.link with permitsOpen := false } }
        activity := .dropping .closeEvents next })
  | some x, .closeEvents =>
    let link := { x.link with events := none, eventsOpen := false }
    (.internal, { s with abandoned := (x.number, link) :: s.abandoned }.follow next)

/-- One operation of the foreground. Nothing is done between calls, nor while it waits for an
event. -/
def act (s : System σ κ) : Option (Label × System σ κ) :=
  match s.activity with
  | .idle => none
  | .calling m => some (.internal, s.enter m)
  | .advancing goal => some (s.goOn goal)
  | .starting target witness goal => some (.internal, s.start target witness goal)
  | .receiving goal =>
    match s.session with
    | some x => s.receive x goal
    | none => some (.internal, s.turnTo (.answering (.ok .cancelled)))
  | .dropping stage next => some (s.discard next s.session stage)
  | .answering a => some (.answered a, s.turnTo .idle)

/-! ## Turns -/

/-- A call, which is made between two calls only. -/
def call (s : System σ κ) (m : Move) : Option (Label × System σ κ) :=
  match s.activity with
  | .idle => some (.called m, s.turnTo (.calling m))
  | _ => none

def work (s : System σ κ) : Option (Label × System σ κ) :=
  match s.session with
  | none => none
  | some x => x.link.work.map fun (c, link) =>
    (.ofWork x.number c, { s with session := some { x with link } })

def workOff (s : System σ κ) (i : Nat) : Option (Label × System σ κ) :=
  match s.abandoned[i]? with
  | none => none
  | some (number, link) => link.work.map fun (c, link) =>
    (.ofWork number c, { s with abandoned := s.abandoned.set i (number, link) })

/-- One operation of whoever has the turn, unless it has to wait. -/
def turn (s : System σ κ) : Turn → Option (Label × System σ κ)
  | .call m => s.call m
  | .foreground => s.act
  | .worker => s.work
  | .leftover i => s.workOff i

end System

/-- Some interleaving leads to a state. What has happened is listed from the last turn to the
first. -/
inductive Reaches (origin : System σ κ) : List Label → System σ κ → Prop
  | origin : Reaches origin [] origin
  | turn {h : List Label} {s t : System σ κ} {label : Label} (earlier : Reaches origin h s)
      (who : Turn) (taken : s.turn who = some (label, t)) : Reaches origin (label :: h) t

namespace Label

def calls : List Label → List Move
  | [] => []
  | .called m :: h => calls h ++ [m]
  | _ :: h => calls h

def answers : List Label → List Answer
  | [] => []
  | .answered a :: h => answers h ++ [a]
  | _ :: h => answers h

/-- What the foreground has received last, and from which session. -/
def lastTaken : List Label → Option (Nat × Option Message)
  | [] => none
  | .took number m :: _ => some (number, m)
  | _ :: h => lastTaken h

end Label

end TaprootLab

import TaprootLab.Proofs.Stepper.Accounts
import TaprootLab.Proofs.Stepper.Simulation

/-!
# Every interleaving is safe

One turn after the other, the foreground and its workers stay in step with a stepper that is asked
the same (`Follows`), so the answers do not depend on the interleaving (`answers_eq_walk`). What the
two threads believe about each other is right in every state that some interleaving leads to, and
nothing is sent, received or answered that should not be (`safe_of_reaches`).

Threads are taken to start whenever they are asked to, and channels to work as they should. Nothing
is said about how long a worker takes, but none is left waiting for good.
-/

namespace TaprootLab

open Stepper Label

variable {σ κ : Type}

/-! ## In step with a stepper -/

/-- Where an interleaving has got, seen from a stepper that makes the same moves. -/
inductive Follows (origin : Stepper σ κ) (h : List Label) (s : System σ κ) : Prop
  | resting {p : Option Paused} (here : s.activity = .idle)
    (rests : Rests (lastTaken h) s.session s.status s.current p)
    (place : origin.after (calls h) = s.stepper p)
    (heard : answers h = (origin.walk (calls h)).map (·.1))
  | moving {moves : List Move} {m : Move} (made : calls h = moves ++ [m])
    (heard : answers h = (origin.walk moves).map (·.1))
    (promises : Promises (lastTaken h) s ((origin.after moves).perform m))

namespace System

variable {h : List Label} {s s' : System σ κ} {label : Label}

theorem activity_of_promises {last : Option (Nat × Option Message)} {r : Answer × Stepper σ κ}
    (promises : Promises last s r) :
    s.activity ≠ .idle := by
  cases promises with
  | calling m here rests => rw [here]; nofun
  | advancing goal here rests => rw [here]; nofun
  | starting target witness goal here alone => rw [here]; nofun
  | receiving goal here held released calm brings => rw [here]; nofun
  | dropping stage next here ends early ready => rw [here]; nofun
  | closing stage next here ends held withheld late => rw [here]; nofun
  | answering a here rests => rw [here]; nofun

end System

/-- What is known after a turn. -/
structure Followed (origin : Stepper σ κ) (h : List Label) (label : Label)
    (s : System σ κ) : Prop where
  follows : Follows origin (label :: h) s
  tidy : Tidy (label :: h) s
  allowed : label.Allowed h
  answer : ∀ a, label = .answered a →
    ∃ moves m, calls h = moves ++ [m] ∧ a = ((origin.after moves).perform m).1

namespace System

variable {origin : Stepper σ κ}

theorem followed_of_keeps {moves : List Move} {m : Move} (made : calls h = moves ++ [m])
    (heard : answers h = (origin.walk moves).map (·.1))
    (keeps : Keeps h ((origin.after moves).perform m) (label, s')) :
    Followed origin h label s' := by
  obtain ⟨promises, tidy, allowed, inner⟩ := keeps
  obtain ⟨sameCalls, sameAnswers⟩ := calls_of_inner (h := h) inner
  refine ⟨.moving (sameCalls.trans made) (sameAnswers.trans heard) promises, tidy, allowed, ?_⟩
  rintro a rfl
  cases inner

theorem followed_call {m : Move} (tidy : Tidy h s) (follows : Follows origin h s)
    (called : s.call m = some (label, s')) : Followed origin h label s' := by
  rw [call] at called
  split at called
  · rename_i idle
    cases called
    cases follows with
    | resting here rests place heard =>
      refine ⟨.moving rfl heard ?_, ?_, trivial, nofun⟩
      · rw [place]
        exact .calling m rfl rests
      · exact tidy_next tidy rfl (fun x held =>
          ⟨x, held, rfl, fun _ => by rw [here]; rfl⟩) rfl tidy.forsaken
    | moving made heard promises => exact absurd idle (activity_of_promises promises)
  · cases called

theorem followed_act (tidy : Tidy h s) (follows : Follows origin h s)
    (acted : s.act = some (label, s')) :
    Followed origin h label s' := by
  cases follows with
  | resting here rests place heard =>
    rw [act, here] at acted
    cases acted
  | @moving moves m made heard promises =>
    rcases keeps_act tidy promises acted with keeps | ⟨p, same, place, rests, early⟩
    · exact followed_of_keeps made heard keeps
    · cases same
      have place' : origin.after (calls h) = s.stepper p := by rw [made, after_concat, place]
      refine ⟨.resting rfl rests place' ?_, ?_, trivial, ?_⟩
      · show answers h ++ [_] = (origin.walk (calls h)).map (·.1)
        rw [made, walk_concat, heard]
      · exact tidy_next tidy rfl (fun x held => ⟨x, held, rfl, fun _ => early⟩) rfl tidy.forsaken
      · rintro a same
        cases same
        exact ⟨moves, m, made, rfl⟩

theorem followed_work (tidy : Tidy h s) (follows : Follows origin h s)
    (worked : s.work = some (label, s')) :
    Followed origin h label s' := by
  cases follows with
  | resting here rests place heard =>
    obtain ⟨x, c, link, held, done, -, -⟩ := work_eq_some worked
    have waits := (rests.droppable x held).work
    rw [done] at waits
    cases waits
  | moving made heard promises =>
      exact followed_of_keeps made heard (keeps_work tidy promises worked)

theorem followed_workOff {i : Nat} (tidy : Tidy h s) (follows : Follows origin h s)
    (worked : s.workOff i = some (label, s')) : Followed origin h label s' := by
  obtain ⟨tidy', allowed, inner, last⟩ := tidy_workOff tidy worked
  obtain ⟨sameCalls, sameAnswers⟩ := calls_of_inner (h := h) inner
  obtain ⟨number, link, c, link', -, -, -, rfl⟩ := workOff_eq_some worked
  cases follows with
  | resting here rests place heard =>
    refine ⟨.resting here (last ▸ rests) (sameCalls ▸ place)
      (by rw [sameAnswers, sameCalls, heard]), tidy', allowed, ?_⟩
    rintro a rfl
    cases inner
  | moving made heard promises =>
    exact followed_of_keeps made heard ⟨last ▸ promises_abandoned promises, tidy', allowed, inner⟩

theorem followed_turn {who : Turn} (tidy : Tidy h s) (follows : Follows origin h s)
    (taken : s.turn who = some (label, s')) : Followed origin h label s' := by
  cases who with
  | call m => exact followed_call tidy follows taken
  | foreground => exact followed_act tidy follows taken
  | worker => exact followed_work tidy follows taken
  | leftover i => exact followed_workOff tidy follows taken

theorem tidy_of (interpreter : Interpreter) (ring : KeyRing σ κ) (plan : Plan) :
    Tidy [] (of interpreter ring plan) where
  session_lt _ held := by cases held
  dropped_lt _ mem := by cases mem
  kept _ held := by cases held
  forsaken _ mem := by cases mem

theorem follows_of (interpreter : Interpreter) (ring : KeyRing σ κ) (plan : Plan) :
    Follows (.of interpreter ring plan) [] (of interpreter ring plan) :=
  .resting (p := none) rfl (.without rfl) rfl rfl

theorem follows_of_reaches {interpreter : Interpreter} {ring : KeyRing σ κ} {plan : Plan}
    (reaches : Reaches (.of interpreter ring plan) h s) :
    Follows (.of interpreter ring plan) h s ∧ Tidy h s := by
  induction reaches with
  | origin => exact ⟨follows_of interpreter ring plan, tidy_of interpreter ring plan⟩
  | turn earlier who taken ih =>
    have followed := followed_turn ih.2 ih.1 taken
    exact ⟨followed.follows, followed.tidy⟩

/-- **The interleaving does not show.** Between calls, the answers so far are those of the stepper
to the same moves. -/
theorem answers_eq_walk {interpreter : Interpreter} {ring : KeyRing σ κ} {plan : Plan}
    (reaches : Reaches (.of interpreter ring plan) h s) (idle : s.activity = .idle) :
    answers h = ((Stepper.of interpreter ring plan).walk (calls h)).map (·.1) := by
  cases (follows_of_reaches reaches).1 with
  | resting here rests place heard => exact heard
  | moving made heard promises => exact absurd idle (activity_of_promises promises)

/-! ## Safety -/

/-- What can be relied on in a state with the given past. -/
structure Safe (h : List Label) (s : System σ κ) : Prop where
  /-- Between calls there is a session if and only if a run is paused. -/
  session_iff : s.activity = .idle → (s.session.isSome = true ↔ ∃ k, s.status = .paused k)
  /-- Its worker is parked then, both channels are empty, and what was received last is the step
  shown. -/
  parked : s.activity = .idle → ∀ x, s.session = some x →
    x.link.permits = none ∧ x.link.events = none ∧ (∃ v resume, x.link.worker = .parked v resume)
      ∧ ∃ v, s.current = some v ∧ s.status = .paused v.step
        ∧ lastTaken h = some (x.number, some (.step v))
  /-- The two threads never wait for each other. -/
  noDeadlock : ∀ goal x, s.activity = .receiving goal → s.session = some x →
    x.link.permits = none → x.link.events = none → ∀ v resume, x.link.worker ≠ .parked v resume
  /-- Within a call, the foreground can go on or the worker that it waits for can. -/
  progress : s.activity ≠ .idle →
    (∃ label t, s.turn .foreground = some (label, t)) ∨ ∃ label t, s.turn .worker = some (label, t)
  /-- A worker that was given up goes on by itself, with an abort if it is parked. -/
  abandoned : ∀ y ∈ s.abandoned,
    (y.2.worker ≠ .gone → ∃ c l, y.2.work = some (c, l))
      ∧ ∀ v resume, y.2.worker = .parked v resume → ∃ l, y.2.work = some (some .abort, l)
  /-- No permit finds the slot full, no message is received from a session that was given up, and
  its worker is not told to proceed. -/
  allowed : ∀ who label t, s.turn who = some (label, t) → label.Allowed h
  /-- No call fails because of an abort, and none says that the run was cancelled before it was. -/
  answers : ∀ who a t, s.turn who = some (.answered a, t) →
    a ≠ .ok (.failed .aborted) ∧ (a = .ok .cancelled → .called .cancel ∈ h)

theorem progress_of_promises {last : Option (Nat × Option Message)} {r : Answer × Stepper σ κ}
    (promises : Promises last s r) : (∃ y, s.act = some y) ∨ ∃ y, s.work = some y := by
  cases promises with
  | calling m here rests => exact .inl ⟨_, by rw [act, here]⟩
  | advancing goal here rests => exact .inl ⟨_, by rw [act, here]⟩
  | starting target witness goal here alone => exact .inl ⟨_, by rw [act, here]⟩
  | @receiving x e goal here held released calm brings =>
    have listens : s.act = s.receive x goal := by
      rw [act, here, held]
    cases silent : x.link.events with
    | some m => exact .inl ⟨_, by rw [listens, receive, silent]⟩
    | none =>
      by_cases gone : x.link.worker = .gone
      · exact .inl ⟨_, by rw [listens, receive, silent, gone]⟩
      · obtain ⟨c, link, worked⟩ := brings.works silent gone
        exact .inr ⟨_, by rw [work, held]; exact congrArg (Option.map _) worked⟩
  | dropping stage next here ends early ready => exact .inl ⟨_, by rw [act, here]⟩
  | closing stage next here ends held withheld late => exact .inl ⟨_, by rw [act, here]⟩
  | answering a here rests => exact .inl ⟨_, by rw [act, here]⟩

theorem brings_of_promises {last : Option (Nat × Option Message)} {r : Answer × Stepper σ κ}
    {goal : Option Nat} {x : Session} (promises : Promises last s r)
    (waits : s.activity = .receiving goal) (held : s.session = some x) : ∃ e, x.link.Brings e := by
  cases promises with
  | receiving goal here held' released calm brings =>
    obtain rfl := Option.some.inj (held.symm.trans held')
    exact ⟨_, brings⟩
  | calling m here rests => cases waits.symm.trans here
  | advancing goal here rests => cases waits.symm.trans here
  | starting target witness goal here alone => cases waits.symm.trans here
  | dropping stage next here ends early ready => cases waits.symm.trans here
  | closing stage next here ends held withheld late => cases waits.symm.trans here
  | answering a here rests => cases waits.symm.trans here

theorem called_of_mem_calls {m : Move} (mem : m ∈ calls h) : .called m ∈ h := by
  induction h with
  | nil => cases mem
  | cons label h ih =>
    cases label with
    | called m' =>
      rcases List.mem_append.mp mem with mem | mem
      · exact List.mem_cons_of_mem _ (ih mem)
      · rw [List.mem_singleton.mp mem]
        exact List.mem_cons_self
    | _ => exact List.mem_cons_of_mem _ (ih mem)

/-- The interpreter ends a run as aborted only if the run was told to abort: it neither refuses to
start with that, nor does a run that is told to proceed at every boundary end so. -/
structure AbortsIfTold (i : Interpreter) (spend : Spend) : Prop where
  start : ∀ witness, i.start spend witness ≠ .error .aborted
  run : ∀ witness run, i.start spend witness = .ok run → run.result ≠ some (.error .aborted)

/-- What a stepper answers to its moves, if no run is aborted that was not told so. -/
theorem answer_of_perform {i : Interpreter} {plan : Plan} (obeys : AbortsIfTold i plan.spend)
    (ring : KeyRing σ κ) (moves : List Move) (m : Move) :
    (((Stepper.of i ring plan).after moves).perform m).1 ≠ .ok (.failed .aborted)
      ∧ ((((Stepper.of i ring plan).after moves).perform m).1 = .ok .cancelled →
        .cancel ∈ moves ++ [m]) := by
  have start := accounted_of i ring plan (.cancel ∈ moves ++ [m])
  have before := start.after fun mem => List.mem_append_left [m] mem
  have accounted := (before.perform (m := m) fun same => by rw [same]; simp).1
  refine ⟨fun failed => ?_, fun cancelled => accounted .cancelled cancelled⟩
  rcases accounted (.failed .aborted) failed with
    ⟨witness, refused⟩ | ⟨witness, run, started, result⟩ | vanished
  · exact obeys.start witness refused
  · exact obeys.run witness run started result
  · cases vanished

/-- **Every interleaving is safe.** Take an interpreter that aborts a run only if the run was told
so; what the run does after that does not matter. Whatever calls are made, and whichever thread goes
on at each turn, all that `Safe` lists holds of the state that is reached. -/
theorem safe_of_reaches {i : Interpreter} {ring : KeyRing σ κ} {plan : Plan}
    (obeys : AbortsIfTold i plan.spend) (reaches : Reaches (.of i ring plan) h s) : Safe h s := by
  obtain ⟨follows, tidy⟩ := follows_of_reaches reaches
  refine ⟨?_, ?_, ?_, ?_, ?_, ?_, ?_⟩
  · intro idle
    cases follows with
    | moving made heard promises => exact absurd idle (activity_of_promises promises)
    | resting here rests place heard =>
      cases held : s.session with
      | none =>
        rw [held] at rests
        have still := rests.of_none.2
        refine ⟨nofun, fun ⟨k, status⟩ => ?_⟩
        rw [status] at still
        cases still
      | some x =>
        rw [held] at rests
        obtain ⟨v, -, -, status, -⟩ := rests.of_some
        exact ⟨fun _ => ⟨_, status⟩, fun _ => rfl⟩
  · intro idle x held
    cases follows with
    | moving made heard promises => exact absurd idle (activity_of_promises promises)
    | resting here rests place heard =>
      rw [held] at rests
      obtain ⟨v, q, -, status, current, -, -, pauses, last⟩ := rests.of_some
      rw [pauses]
      exact ⟨rfl, rfl, ⟨_, _, rfl⟩, v, current, status, last⟩
  · intro goal x waits held unsent silent v resume parked
    cases follows with
    | resting here rests place heard => cases waits.symm.trans here
    | moving made heard promises =>
      obtain ⟨e, brings⟩ := brings_of_promises promises waits held
      exact brings.spoken parked unsent silent
  · intro busy
    cases follows with
    | resting here rests place heard => exact absurd here busy
    | moving made heard promises =>
      rcases progress_of_promises promises with ⟨⟨label, t⟩, acted⟩ | ⟨⟨label, t⟩, worked⟩
      · exact .inl ⟨label, t, acted⟩
      · exact .inr ⟨label, t, worked⟩
  · intro y mem
    have forsaken := tidy.forsaken y mem
    exact ⟨forsaken.works, fun v resume parked => ⟨_, forsaken.aborts parked⟩⟩
  · intro who label t taken
    exact (followed_turn tidy follows taken).allowed
  · intro who a t taken
    obtain ⟨moves, m, made, rfl⟩ := (followed_turn tidy follows taken).answer a rfl
    obtain ⟨failed, cancelled⟩ := answer_of_perform obeys ring moves m
    exact ⟨failed, fun same => called_of_mem_calls (made ▸ cancelled same)⟩

/-- The state that some turns lead to, if none of them has to wait, with what has happened by
then. -/
def follow? (s : System σ κ) (h : List Label) : List Turn → Option (List Label × System σ κ)
  | [] => some (h, s)
  | who :: turns =>
    match s.turn who with
    | some (label, t) => t.follow? (label :: h) turns
    | none => none

theorem reaches_of_follow? {origin t : System σ κ} {h' : List Label} {turns : List Turn}
    (earlier : Reaches origin h s) (followed : s.follow? h turns = some (h', t)) :
    Reaches origin h' t := by
  induction turns generalizing s h with
  | nil =>
    cases followed
    exact earlier
  | cons who turns ih =>
    rw [follow?] at followed
    split at followed
    · rename_i label next taken
      exact ih (.turn earlier who taken) followed
    · cases followed

end System

/-! ### A rewind while the old worker is still about -/

/-- Shows five boundaries, three of which are visible steps. -/
def shortInterpreter : Interpreter := ⟨fun _ _ => .ok (Run.reel shortBoundaries (some (.ok ())))⟩

def shortSystem : System Nat UInt8 := .of shortInterpreter countingRing signedPlan

/-- Up to the first step, from there to the third, and back to the first. The worker of the first
session goes on between the turns of the second one. -/
def rewindTurns : List Turn :=
  List.flatten [
    [.call .advance], .replicate 3 .foreground, .replicate 3 .worker, .replicate 2 .foreground,
    [.call (.seek 3)], .replicate 2 .foreground, .replicate 4 .worker, .replicate 2 .foreground,
    .replicate 3 .worker, .replicate 2 .foreground,
    [.call (.seek 1)], .replicate 4 .foreground, [.worker], .replicate 2 .foreground,
    [.worker, .leftover 0, .worker, .leftover 0, .worker], .replicate 2 .foreground]

def rewound : List Label × System Nat UInt8 :=
  (shortSystem.follow? [] rewindTurns).getD ([], shortSystem)

theorem safe_of_reaches_rewound :
    Reaches shortSystem rewound.1 rewound.2 ∧ calls rewound.1 = [.advance, .seek 3, .seek 1]
      ∧ rewound.2.status = .paused 1 ∧ (lastTaken rewound.1).map (·.1) = some 1
      ∧ rewound.2.abandoned.map (·.1) = [0]
      ∧ System.Safe rewound.1 rewound.2 := by
  have obeys : System.AbortsIfTold shortInterpreter signedPlan.spend := by
    refine ⟨nofun, fun witness run started => ?_⟩
    cases started
    nofun
  have unblocked : (shortSystem.follow? [] rewindTurns).isSome = true := by decide +kernel
  have followed : shortSystem.follow? [] rewindTurns = some rewound := by
    obtain ⟨r, led⟩ := Option.isSome_iff_exists.mp unblocked
    rw [rewound, led, Option.getD_some]
  have reached := System.reaches_of_follow? .origin followed
  exact ⟨reached, by decide +kernel, by decide +kernel, by decide +kernel, by decide +kernel,
    System.safe_of_reaches obeys reached⟩

end TaprootLab

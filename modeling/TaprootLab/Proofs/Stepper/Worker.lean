import TaprootLab.Stepper.Playback

/-!
# A worker behind two channels

Seen from outside, a stepper keeps a paused run as a value. Seen from inside, the run is a thread of
its own: it sends what it shows through one channel and waits for permits at the end of another.
Each channel holds one value, so a thread that sends waits for the slot, and one that receives waits
for a value.

A link is a worker with the two slots and the ends that the other side still holds. `Link.work` is
one operation of the worker on it. What such operations lead to is settled beforehand: a link that
has been permitted to go on brings the event that the played run brings (`Link.Brings`), and a
paused one stays as it is until then (`Link.Pauses`).
-/

namespace TaprootLab

inductive Message where
  | step (snapshot : Snapshot)
  | finished (result : Except RunError Unit)

/-- The next operation of a worker. -/
inductive Worker where
  /-- To go on with its run. -/
  | running (viewer : Viewer) (run : Run Unit)
  /-- To send the step that its run has come to. -/
  | offering (snapshot : Snapshot) (viewer : Viewer) (resume : Control → Run Unit)
  /-- To receive a permit. -/
  | parked (viewer : Viewer) (resume : Control → Run Unit)
  /-- To send how its run has ended. -/
  | finishing (result : Except RunError Unit)
  /-- None: the thread has ended, and its ends of both channels are closed. -/
  | gone

/-- A worker at its channels. -/
structure Link where
  target : Nat
  worker : Worker
  permits : Option Control
  events : Option Message
  /-- Whether permits may still be sent. -/
  permitsOpen : Bool
  /-- Whether events may still be received. -/
  eventsOpen : Bool

namespace Worker

/-- Where a worker gets to by the next boundary of its run. -/
def reach (target : Nat) (v : Viewer) : Run Unit → Worker
  | .done result => .finishing result
  | .lost => .gone
  | .report b resume =>
    match v.observe b with
    | (none, v) => .running v (resume .proceed)
    | (some s, v) => if s.step < target then .running v (resume .proceed) else .offering s v resume

end Worker

namespace Link

def fresh (target : Nat) (witness : List Bytes) (run : Run Unit) : Link :=
  ⟨target, .running (.start witness) run, none, none, true, true⟩

/-- One operation of the worker, with its answer to a visible boundary if it gives one. Nothing is
done while the operation has to wait. A closed channel stands for an answer to abort. -/
def work (l : Link) : Option (Option Control × Link) :=
  match l.worker with
  | .running v run => some (none, { l with worker := .reach l.target v run })
  | .offering s v resume =>
    if l.eventsOpen then
      if l.events.isNone then some
        (none, { l with events := some (.step s), worker := .parked v resume })
      else none
    else some (some .abort, { l with worker := .running v (resume .abort) })
  | .parked v resume =>
    match l.permits with
    | some c => some (some c, { l with permits := none, worker := .running v (resume c) })
    | none =>
      if l.permitsOpen then none
        else some (some .abort, { l with worker := .running v (resume .abort) })
  | .finishing result =>
    if l.eventsOpen then
      if l.events.isNone then some
        (none, { l with events := some (.finished result), worker := .gone })
      else none
    else some (none, { l with worker := .gone })
  | .gone => none

/-! ## Links that are listened to -/

/-- The worker waits for a permit at the place where a run is paused. -/
def Pauses (l : Link) (p : Paused) : Prop :=
  l = ⟨p.target, .parked p.viewer p.resume, none, none, true, true⟩

/-- The event that will be received next, while nothing more is sent to the worker. -/
inductive Brings : Link → Event → Prop
  | running (target : Nat) (v : Viewer) (run : Run Unit) :
    Brings ⟨target, .running v run, none, none, true, true⟩ (play target v run)
  | offering (target : Nat) (s : Snapshot) (v : Viewer) (resume : Control → Run Unit) :
    Brings ⟨target, .offering s v resume, none, none, true, true⟩ (.step s ⟨v, target, resume⟩)
  | offered (target : Nat) (s : Snapshot) (v : Viewer) (resume : Control → Run Unit) :
    Brings ⟨target, .parked v resume, none, some (.step s), true, true⟩
      (.step s ⟨v, target, resume⟩)
  | permitted (target : Nat) (v : Viewer) (resume : Control → Run Unit) :
    Brings ⟨target, .parked v resume, some .proceed, none, true, true⟩
      (play target v (resume .proceed))
  | finishing (target : Nat) (result : Except RunError Unit) :
    Brings ⟨target, .finishing result, none, none, true, true⟩ (.finished result)
  | finished (target : Nat) (result : Except RunError Unit) :
    Brings ⟨target, .gone, none, some (.finished result), true, true⟩ (.finished result)
  | vanished (target : Nat) : Brings ⟨target, .gone, none, none, true, true⟩ .vanished

variable {l l' : Link} {e : Event} {p : Paused} {c : Option Control}

theorem brings_reach (target : Nat) (v : Viewer) (run : Run Unit) :
    Brings ⟨target, .reach target v run, none, none, true, true⟩ (play target v run) := by
  cases run with
  | done result => exact .finishing target result
  | lost => exact .vanished target
  | report b resume =>
    rw [Worker.reach, play]
    rcases v.observe b with ⟨_ | s, v⟩
    · exact .running _ _ _
    · dsimp only
      split
      · exact .running _ _ _
      · exact .offering _ _ _ _

/-- No operation of the worker changes what its link brings. -/
theorem Brings.work (h : l.Brings e) (worked : l.work = some (c, l')) : l'.Brings e := by
  cases h with
  | running target v run =>
    cases worked
    exact brings_reach target v run
  | offering target s v resume =>
    cases worked
    exact .offered target s v resume
  | offered => cases worked
  | permitted target v resume =>
    cases worked
    exact .running target v _
  | finishing target result =>
    cases worked
    exact .finished target result
  | finished => cases worked
  | vanished => cases worked

theorem Brings.works (h : l.Brings e) (silent : l.events = none) (live : l.worker ≠ .gone) :
    ∃ c l', l.work = some (c, l') := by
  cases h with
  | running => exact ⟨_, _, rfl⟩
  | offering => exact ⟨_, _, rfl⟩
  | offered => cases silent
  | permitted => exact ⟨_, _, rfl⟩
  | finishing => exact ⟨_, _, rfl⟩
  | finished => cases silent
  | vanished => exact absurd rfl live

/-- A worker that is listened to waits at most while there is something to be received. -/
theorem Brings.spoken (h : l.Brings e) {v : Viewer} {resume : Control → Run Unit}
    (parked : l.worker = .parked v resume) (unsent : l.permits = none) : l.events ≠ none := by
  cases h with
  | offered => nofun
  | permitted => cases unsent
  | running => cases parked
  | offering => cases parked
  | finishing => cases parked
  | finished => cases parked
  | vanished => cases parked

theorem Pauses.work (h : l.Pauses p) : l.work = none := by
  rw [h]
  rfl

/-! ## Links that nobody listens to -/

/-- What an operation of the worker does on the permit side: it takes the permit that was sent, or
leaves the channel alone and does not go on either. -/
theorem permits_of_work (worked : l.work = some (c, l')) :
    l'.permitsOpen = l.permitsOpen ∧ l'.eventsOpen = l.eventsOpen
      ∧ ((c = l.permits ∧ l'.permits = none) ∨ (c ≠ some .proceed ∧ l'.permits = l.permits)) := by
  rw [Link.work] at worked
  split at worked
  · cases worked
    exact ⟨rfl, rfl, .inr ⟨nofun, rfl⟩⟩
  · split at worked
    · split at worked <;> cases worked
      exact ⟨rfl, rfl, .inr ⟨nofun, rfl⟩⟩
    · cases worked
      exact ⟨rfl, rfl, .inr ⟨nofun, rfl⟩⟩
  · split at worked
    · rename_i permit
      cases worked
      exact ⟨rfl, rfl, .inl ⟨permit.symm, rfl⟩⟩
    · split at worked <;> cases worked
      exact ⟨rfl, rfl, .inr ⟨nofun, rfl⟩⟩
  · split at worked
    · split at worked <;> cases worked
      exact ⟨rfl, rfl, .inr ⟨nofun, rfl⟩⟩
    · cases worked
      exact ⟨rfl, rfl, .inr ⟨nofun, rfl⟩⟩
  · cases worked

theorem answer_of_work (h : l.permits ≠ some .proceed) (worked : l.work = some (c, l')) :
    c ≠ some .proceed ∧ l'.permits ≠ some .proceed := by
  obtain ⟨-, -, ⟨taken, empty⟩ | ⟨answer, kept⟩⟩ := permits_of_work worked
  · exact ⟨taken ▸ h, by rw [empty]; nofun⟩
  · exact ⟨answer, kept ▸ h⟩

/-- Both channels are closed, and what is left in them tells no worker to go on. -/
structure Forsaken (l : Link) : Prop where
  permits : l.permits ≠ some .proceed
  permitsOpen : l.permitsOpen = false
  eventsOpen : l.eventsOpen = false

theorem Forsaken.work (h : l.Forsaken) (worked : l.work = some (c, l')) : l'.Forsaken := by
  obtain ⟨permitsOpen, eventsOpen, -⟩ := permits_of_work worked
  exact ⟨(answer_of_work h.permits worked).2, permitsOpen.trans h.permitsOpen,
    eventsOpen.trans h.eventsOpen⟩

theorem Forsaken.works (h : l.Forsaken) (live : l.worker ≠ .gone) :
    ∃ c l', l.work = some (c, l') := by
  rw [Link.work]
  cases worker : l.worker with
  | running => exact ⟨_, _, rfl⟩
  | offering =>
    simp only [h.eventsOpen]
    exact ⟨_, _, rfl⟩
  | parked =>
    simp only [h.permitsOpen]
    cases l.permits with
    | none => exact ⟨_, _, rfl⟩
    | some c => exact ⟨_, _, rfl⟩
  | finishing =>
    simp only [h.eventsOpen]
    exact ⟨_, _, rfl⟩
  | gone => exact absurd worker live

theorem Forsaken.aborts (h : l.Forsaken) {v : Viewer} {resume : Control → Run Unit}
    (parked : l.worker = .parked v resume) :
    l.work =
      some (some .abort, { l with permits := none, worker := .running v (resume .abort) }) := by
  have permits := h.permits
  simp only [Link.work, parked, h.permitsOpen]
  obtain ⟨target, worker, permits?, events, permitsOpen, eventsOpen⟩ := l
  cases permits? with
  | none => rfl
  | some c =>
    cases c with
    | proceed => exact absurd rfl permits
    | abort => rfl

end Link

end TaprootLab

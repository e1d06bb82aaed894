import TaprootLab.Proofs.Stepper.Film

/-!
# Which boundaries are seen

What a viewer remembers of the boundaries behind it is the script of the last one and how many it
has shown, so whether a boundary is seen, its number and its marks can be said of its place in the
sequence alone (`isSeen`, `number`, `snapshotAt`). A run that is played up to any step and then
always allowed to go on shows exactly those snapshots, from that step on (`shown_play`).

The numbers count the boundaries that could be seen and not those that were shown: a run that is
played back to a later step gives each step the number it has in a run played from the start.
-/

namespace TaprootLab

open Run

/-! ## The rule -/

/-- Boundary `i` is the first in a row of its script: it is the first of all, or the one just before
it belongs to another script. -/
def enters (bs : List Boundary) : Nat → Bool
  | 0 => true
  | i + 1 => bs[i]?.map Boundary.scriptIndex != bs[i + 1]?.map Boundary.scriptIndex

def isSeen (bs : List Boundary) (i : Nat) : Bool :=
  match bs[i]?.map Boundary.scriptIndex with
  | none => false
  | some 0 => false
  | some 1 => enters bs i
  | some _ => true

/-- How many boundaries are visible up to and including boundary `i`. -/
def number (bs : List Boundary) (i : Nat) : Nat := (List.range (i + 1)).countP (isSeen bs)

/-- What is shown of boundary `b` at place `i`, where it is a visible step. -/
def snapshotAt (witness : List Bytes) (bs : List Boundary) (b : Boundary) (i : Nat) : Snapshot where
  step := number bs i
  phase := .ofIndex b.scriptIndex
  pc := b.pc
  script := b.script
  stack := b.stack
  altStack := b.altStack
  witness := if b.scriptIndex = 1 then some witness else none
  verified := decide (b.scriptIndex = 2) && enters bs i

/-- All snapshots of a sequence of boundaries whose number is at least `target`, in order. -/
def snapshotsFrom (target : Nat) (witness : List Bytes) (bs : List Boundary) : List Snapshot :=
  (bs.zipIdx.filter fun x => isSeen bs x.2 && target ≤ number bs x.2).map
    fun x => snapshotAt witness bs x.1 x.2

/-! ## The viewer follows the rule -/

namespace Viewer

/-- The viewer that has taken in the first `i` boundaries. -/
def behind (witness : List Bytes) (bs : List Boundary) (i : Nat) : Viewer where
  current := match i with
    | 0 => none
    | i + 1 => bs[i]?.map Boundary.scriptIndex
  count := (List.range i).countP (isSeen bs)
  witness := witness

theorem behind_zero (witness : List Bytes) (bs : List Boundary) :
    behind witness bs 0 = .start witness :=
  rfl

theorem enters_eq {bs : List Boundary} {i : Nat} {b : Boundary} (h : bs[i]? = some b)
    (witness : List Bytes) :
    ((behind witness bs i).current != some b.scriptIndex) = enters bs i := by
  cases i with
  | zero => rfl
  | succ i => rw [enters, h]; rfl

theorem shows_eq {bs : List Boundary} {i : Nat} {b : Boundary} (h : bs[i]? = some b) :
    shows (enters bs i) b.phase = isSeen bs i := by
  rw [isSeen, h, Boundary.phase]
  match hi : b.scriptIndex with
  | 0 | 1 | 2 | _ + 3 => simp [hi, Phase.ofIndex, shows]

theorem phase_eq_ofIndex_iff (b : Boundary) (n : Nat) :
    b.phase = .ofIndex n ↔ b.scriptIndex = n := by
  constructor
  · intro same
    have := congrArg Phase.index same
    rwa [Boundary.phase, Phase.index_ofIndex, Phase.index_ofIndex] at this
  · intro same
    rw [Boundary.phase, same]

theorem count_behind_succ (witness : List Bytes) (bs : List Boundary) (i : Nat) :
    (behind witness bs (i + 1)).count
      = (behind witness bs i).count + if isSeen bs i then 1 else 0 := by
  simp only [behind, List.range_succ, List.countP_append, List.countP_singleton]

/-- Taking in one boundary more shows it if the rule says so. -/
theorem observe_behind {bs : List Boundary} {i : Nat} {b : Boundary} (h : bs[i]? = some b)
    (witness : List Bytes) :
    (behind witness bs i).observe b =
      (if isSeen bs i then some (snapshotAt witness bs b i) else none,
        behind witness bs (i + 1)) := by
  have next : (behind witness bs (i + 1)).current = some b.scriptIndex := by
    simp only [behind, h, Option.map_some]
  have counted := count_behind_succ witness bs i
  have output : b.phase = .scriptPubKey ↔ b.scriptIndex = 1 := phase_eq_ofIndex_iff b 1
  have revealed : b.phase = .witnessScript ↔ b.scriptIndex = 2 := phase_eq_ofIndex_iff b 2
  simp only [observe, enters_eq h, shows_eq h, output, revealed]
  cases seen : isSeen bs i with
  | false =>
    simp only [seen, Bool.false_eq_true, if_false, Nat.add_zero] at counted ⊢
    rw [← next, ← counted]
    rfl
  | true =>
    simp only [seen, if_true] at counted ⊢
    have numbered : number bs i = (behind witness bs i).count + 1 := counted
    rw [snapshotAt, numbered, ← counted, ← next, Bool.and_comm]
    rfl

/-- The steps that are still ahead after the first `i` boundaries. -/
theorem steps_behind (witness : List Bytes) (bs : List Boundary) (i : Nat) :
    (behind witness bs i).steps (bs.drop i) =
      (((bs.drop i).zipIdx i).filter fun x => isSeen bs x.2).map
        fun x => snapshotAt witness bs x.1 x.2 := by
  induction hrest : bs.drop i generalizing i with
  | nil => rfl
  | cons b rest ih =>
    have here : bs[i]? = some b := by rw [← List.head?_drop, hrest]; rfl
    have further : bs.drop (i + 1) = rest := by rw [← List.tail_drop, hrest]; rfl
    have ahead := ih (i + 1) further
    rw [steps, observe_behind here, List.zipIdx_cons, List.filter_cons]
    cases seen : isSeen bs i with
    | false => simpa only [seen, Bool.false_eq_true, if_false] using ahead
    | true => simpa only [seen, if_true, List.map_cons, List.cons.injEq, true_and] using ahead

end Viewer

/-! ## Runs that are always allowed to go on -/

/-- The boundaries ahead of an event, at most. -/
def Event.height : Event → Nat
  | .step _ p => p.height + 1
  | .finished _ => 0
  | .vanished => 0

theorem Paused.height_proceed_lt (s : Snapshot) (p : Paused) :
    p.proceed.height < (Event.step s p).height := by
  rw [Event.height]
  cases h : p.proceed with
  | step s' q => exact Nat.succ_lt_succ (height_lt_of_play h)
  | finished r => exact Nat.succ_pos _
  | vanished => exact Nat.succ_pos _

/-- The snapshots that are shown, from an event on, to someone who always lets the run go on. -/
def Event.shown : Event → List Snapshot
  | .step s p =>
    have := p.height_proceed_lt s
    s :: p.proceed.shown
  | .finished _ => []
  | .vanished => []
termination_by e => e.height

theorem Event.shown_step (s : Snapshot) (p : Paused) :
    (Event.step s p).shown = s :: p.proceed.shown := by
  rw [Event.shown]

theorem shown_play_eq_drop (target : Nat) (v : Viewer) (run : Run Unit) :
    (play target v run).shown = (v.steps run.boundaries).drop (target - 1 - v.count) := by
  -- The viewer is general: it also moves on at the boundaries below the target.
  induction run generalizing v with
  | done r => rw [play, Event.shown, boundaries, Viewer.steps, List.drop_nil]
  | lost => rw [play, Event.shown, boundaries, Viewer.steps, List.drop_nil]
  | report b resume ih =>
    rw [play, boundaries, Viewer.steps]
    rcases hobs : v.observe b with ⟨_ | s, w⟩
    · dsimp only
      rw [ih, Viewer.count_of_observe_none hobs]
    · obtain ⟨hstep, hcount⟩ := Viewer.count_of_observe_some hobs
      dsimp only
      by_cases below : s.step < target
      · rw [if_pos below, ih, show target - 1 - v.count = (target - 1 - w.count) + 1 by omega,
          List.drop_succ_cons]
      · rw [if_neg below, Event.shown_step]
        have := ih .proceed w
        rw [show target - 1 - w.count = 0 by omega, List.drop_zero] at this
        rw [show target - 1 - v.count = 0 by omega, List.drop_zero]
        exact congrArg (s :: ·) this

/-- Dropping the first steps of a numbered list is keeping those with higher numbers. -/
theorem drop_eq_filter_of_numbered {steps : List Snapshot} {first : Nat}
    (numbered : ∀ i s, steps[i]? = some s → s.step = first + i) (n : Nat) :
    steps.drop n = steps.filter fun s => first + n ≤ s.step := by
  induction steps generalizing first n with
  | nil => simp
  | cons s rest ih =>
    have head : s.step = first := numbered 0 s rfl
    have tail : ∀ i t, rest[i]? = some t → t.step = first + 1 + i := by
      intro i t ht
      rw [numbered (i + 1) t (by rwa [List.getElem?_cons_succ])]
      omega
    cases n with
    | zero =>
      have := ih tail 0
      rw [List.drop_zero] at this ⊢
      rw [List.filter_cons, if_pos (by simp [head])]
      refine congrArg (s :: ·) (this.trans (List.filter_congr fun t ht => ?_))
      obtain ⟨i, hi, rfl⟩ := List.mem_iff_getElem.mp ht
      have := tail i _ (List.getElem?_eq_getElem hi)
      simp only [decide_eq_decide]
      omega
    | succ n =>
      rw [List.drop_succ_cons, List.filter_cons, if_neg (by simp [head]), ih tail n]
      exact List.filter_congr fun t _ => by rw [Nat.add_assoc, Nat.add_comm 1 n]

/-- **The visible steps of a run.** A run that is played up to step `target` with a completed
witness, and is always allowed to go on, shows the snapshots of exactly those boundaries that the
rule makes visible and numbers `target` or higher, one after the other and each number one higher
than the one before. -/
theorem shown_play (plan : Plan) (elements : List Bytes) (target : Nat) (run : Run Unit) :
    (play target (.start (elements ++ plan.trailer)) run).shown
        = snapshotsFrom target (elements ++ plan.trailer) run.boundaries
      ∧ ∀ k s, (play target (.start (elements ++ plan.trailer)) run).shown[k]? = some s →
        s.step = max target 1 + k := by
  generalize elements ++ plan.trailer = witness
  have numbered : ∀ i s, ((Viewer.start witness).steps run.boundaries)[i]? = some s →
      s.step = 1 + i := fun i s h => Viewer.step_of_getElem?_steps h
  have steps := Viewer.steps_behind witness run.boundaries 0
  rw [List.drop_zero, Viewer.behind_zero] at steps
  have shown := shown_play_eq_drop target (.start witness) run
  rw [show (Viewer.start witness).count = 0 from rfl, Nat.sub_zero] at shown
  constructor
  · rw [shown, drop_eq_filter_of_numbered numbered, steps, List.filter_map, List.filter_filter,
      snapshotsFrom]
    congr 1
    refine List.filter_congr fun x _ => ?_
    have positive : isSeen run.boundaries x.2 = true → 1 ≤ number run.boundaries x.2 := by
      intro seen
      exact List.countP_pos_iff.mpr ⟨x.2, List.mem_range.mpr (Nat.lt_succ_self _), seen⟩
    show (decide (1 + (target - 1) ≤ number run.boundaries x.2) && isSeen run.boundaries x.2) = _
    rw [Bool.and_comm]
    cases seen : isSeen run.boundaries x.2 with
    | false => rfl
    | true =>
      have := positive seen
      rw [Bool.true_and, Bool.true_and, decide_eq_decide]
      omega
  · intro k s h
    rw [shown, List.getElem?_drop] at h
    have := numbered _ s h
    omega

/-- Scripts that take turns: the output's script is shown at each entry, the revealed one is marked
at each entry, and the input's script only separates. -/
example :
    (snapshotsFrom 2 [[7]] ([1, 0, 1, 1, 2, 1, 2, 2].map fun n => ⟨n, 0, [], [], []⟩)).map
        (fun s => (s.step, s.witness.isSome, s.verified))
      = [(2, true, false), (3, false, true), (4, true, false), (5, false, true),
        (6, false, false)] := by decide

end TaprootLab

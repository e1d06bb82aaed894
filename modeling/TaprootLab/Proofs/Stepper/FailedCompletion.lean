import TaprootLab.Proofs.Stepper.Moves

/-!
# Moves that cannot complete the witness

A move needs a witness only to start a run, and completes it before it gives anything up. If that
fails, the stepper is what it was but for its key ring, which may hold more keys
(`eq_of_perform_error`).

The ring in turn is looked at nowhere but in completing a witness. Two steppers that differ only in
their rings answer alike as long as both complete their witnesses with the same elements
(`walk_alike`), so a failed move leaves no trace in what follows (`walk_eq_of_error`).
-/

namespace TaprootLab

variable {σ κ : Type}

/-! ## Key rings only gain keys -/

namespace KeyRing

/-- The same ring, but for what its signer remembers and for more keys behind those it has. -/
structure Extends (new old : KeyRing σ κ) : Prop where
  signer : new.signer = old.signer
  table : new.table = old.table
  keys : old.keys <+: new.keys

theorem Extends.refl (ring : KeyRing σ κ) : ring.Extends ring := ⟨rfl, rfl, List.prefix_rfl⟩

theorem Extends.trans {a b c : KeyRing σ κ} (h : a.Extends b) (h' : b.Extends c) : a.Extends c :=
  ⟨h.signer.trans h'.signer, h.table.trans h'.table, h'.keys.trans h.keys⟩

theorem extends_key (ring : KeyRing σ κ) (id : String) : (ring.key id).2.Extends ring := by
  have more (state : σ) (key : κ) : ({ ring with state }.keep id key).Extends ring :=
    ⟨rfl, rfl, List.prefix_append _ _⟩
  unfold key
  split
  · exact .refl ring
  · split
    · exact .refl ring
    · exact more _ _
    · split
      · exact more ring.state _
      · exact .refl ring

theorem extends_signature (ring : KeyRing σ κ) (id : String) (spend : Option Spend) :
    (ring.signature id spend).2.Extends ring := by
  have kept := extends_key ring id
  unfold signature
  split
  · exact .refl ring
  · split
    · rename_i found
      rwa [found] at kept
    · rename_i found
      rw [found] at kept
      split <;> exact ⟨kept.signer, kept.table, kept.keys⟩

theorem extends_resolvePart (ring : KeyRing σ κ) (spend : Option Spend) (part : WitnessPart) :
    (ring.resolvePart spend part).2.Extends ring := by
  cases part with
  | literal data => exact .refl ring
  | empty => exact .refl ring
  | signature id => exact extends_signature ring id spend

theorem extends_resolve (ring : KeyRing σ κ) (spend : Option Spend) (parts : List WitnessPart) :
    (ring.resolve spend parts).2.Extends ring := by
  induction parts generalizing ring with
  | nil => exact .refl ring
  | cons part parts ih =>
    have first := extends_resolvePart ring spend part
    rw [resolve]
    split
    · rename_i made
      rwa [made] at first
    · rename_i made
      rw [made] at first
      have rest := (ih _).trans first
      split <;> (rename_i others; rwa [others] at rest)

end KeyRing

namespace Stepper

/-! ## Steppers that differ in their rings only -/

def withRing (s : Stepper σ κ) (ring : KeyRing σ κ) : Stepper σ κ := { s with ring }

/-- The same run at the same place, perhaps with another ring. -/
def Alike (s t : Stepper σ κ) : Prop := t = s.withRing t.ring

theorem alike_withRing (s : Stepper σ κ) (ring : KeyRing σ κ) : s.Alike (s.withRing ring) := rfl

theorem Alike.symm {s t : Stepper σ κ} (h : s.Alike t) : t.Alike s := by
  rw [h]
  rfl

theorem Alike.trans {s t u : Stepper σ κ} (h : s.Alike t) (h' : t.Alike u) : s.Alike u := by
  rw [h', h]
  rfl

theorem Alike.currentStep {s t : Stepper σ κ} (h : s.Alike t) : t.currentStep = s.currentStep := by
  rw [h]
  rfl

theorem Alike.unstarted {s t : Stepper σ κ} (h : s.Alike t) : t.unstarted = s.unstarted := by
  rw [h]
  rfl

theorem Alike.reset {s t : Stepper σ κ} (h : s.Alike t) : s.reset.Alike t.reset := by
  rw [h]
  rfl

/-- Completing a witness touches nothing but the ring, and adds to that at most. -/
theorem alike_witness (s : Stepper σ κ) :
    s.Alike s.witness.2 ∧ s.witness.2.ring.Extends s.ring := by
  have more := s.ring.extends_resolve (some s.plan.spend) s.plan.parts
  unfold witness
  split <;> (rename_i made; rw [made] at more; exact ⟨rfl, more⟩)

/-- The same outcome, and steppers that are alike. -/
def SameMove {α : Type} (x y : α × Stepper σ κ) : Prop := x.1 = y.1 ∧ x.2.Alike y.2

theorem sameMove_record {s t : Stepper σ κ} (h : s.Alike t) (e : Event) :
    SameMove (s.record e) (t.record e) := by
  rw [h]
  match e with
  | .step _ _ => exact ⟨rfl, rfl⟩
  | .finished (.ok ()) => exact ⟨rfl, rfl⟩
  | .finished (.error _) => exact ⟨rfl, rfl⟩
  | .vanished => exact ⟨rfl, rfl⟩

theorem sameMove_begin {s t : Stepper σ κ} (h : s.Alike t) (target : Nat) (witness : List Bytes) :
    SameMove (s.begin target witness) (t.begin target witness) := by
  have started : t.interpreter.start t.plan.spend witness =
      s.interpreter.start s.plan.spend witness := by
    rw [h]
    rfl
  unfold begin
  rw [started]
  cases s.interpreter.start s.plan.spend witness with
  | error e => exact ⟨rfl, by rw [h]; rfl⟩
  | ok run => exact sameMove_record h _

theorem SameMove.answer {x y : Outcome × Stepper σ κ} (h : SameMove x y) :
    SameMove ((.ok x.1, x.2) : Except SigningError Outcome × Stepper σ κ) (.ok y.1, y.2) :=
  ⟨congrArg Except.ok h.1, h.2⟩

/-! ## Moves of alike steppers -/

/-- If a run has to be started, its witness is completed with the given elements. -/
def Starts (s : Stepper σ κ) (witness : List Bytes) : Prop :=
  s.unstarted = true → s.witness.1 = .ok witness

theorem sameMove_advance {s t : Stepper σ κ} {witness : List Bytes} (h : s.Alike t)
    (hs : s.Starts witness) (ht : t.Starts witness) : SameMove s.advance t.advance := by
  have status : t.status = s.status := by rw [h]; rfl
  have paused : t.paused = s.paused := by rw [h]; rfl
  by_cases new : s.unstarted = true
  · have new' := h.unstarted.trans new
    have made : s.witness = (.ok witness, s.witness.2) := Prod.ext (hs new) rfl
    have made' : t.witness = (.ok witness, t.witness.2) := Prod.ext (ht new') rfl
    rw [advance_of_unstarted new, advance_of_unstarted new', made, made']
    exact (sameMove_begin (s.alike_witness.1.symm.trans (h.trans t.alike_witness.1)) 1
      witness).answer
  · cases final : finalOutcome? s.status with
    | some o =>
      rw [advance_of_final final, advance_of_final (status ▸ final)]
      exact ⟨rfl, h⟩
    | none =>
      cases hp : s.paused with
      | none => simp [Stepper.unstarted, final, hp] at new
      | some p =>
        rw [advance_of_paused final hp, advance_of_paused (status ▸ final) (paused.trans hp)]
        exact (sameMove_record h _).answer

theorem starts_of_started {s : Stepper σ κ} (h : s.unstarted = false) (witness : List Bytes) :
    s.Starts witness := by
  intro new
  rw [h] at new
  cases new

theorem sameMove_seekForward {s t : Stepper σ κ} {witness : List Bytes} (h : s.Alike t)
    (hs : s.Starts witness) (ht : t.Starts witness) (target : Nat) :
    SameMove (s.seekForward target) (t.seekForward target) := by
  induction s using induction_on_advance generalizing t with
  | step s ih =>
    have first := sameMove_advance h hs ht
    rcases hx : s.advance with ⟨_ | o, s'⟩
    · rcases hy : t.advance with ⟨_ | o', t'⟩
      · rw [hx, hy] at first
        rw [seekForward_of_error hx, seekForward_of_error hy]
        exact first
      · rw [hx, hy] at first
        cases first.1
    · rcases hy : t.advance with ⟨_ | o', t'⟩
      · rw [hx, hy] at first
        cases first.1
      · rw [hx, hy] at first
        obtain ⟨same, alike⟩ := first
        obtain rfl : o = o' := Except.ok.inj same
        rw [seekForward_of_ok hx, seekForward_of_ok hy]
        cases o with
        | step v =>
          simp only [seekOn]
          split
          -- After a step there is a run to go on with, so no witness is completed from here on.
          · exact ih v s' hx alike (starts_of_started (unstarted_of_advance hx) witness)
              (starts_of_started (unstarted_of_advance hy) witness)
          · exact ⟨rfl, alike⟩
        | done => exact ⟨rfl, alike⟩
        | failed e => exact ⟨rfl, alike⟩
        | cancelled => exact ⟨rfl, alike⟩

theorem sameMove_restart {s t : Stepper σ κ} {witness : List Bytes} (h : s.Alike t)
    (hs : s.witness.1 = .ok witness) (ht : t.witness.1 = .ok witness) (target : Nat) :
    SameMove (s.restart target) (t.restart target) := by
  have made : s.witness = (.ok witness, s.witness.2) := Prod.ext hs rfl
  have made' : t.witness = (.ok witness, t.witness.2) := Prod.ext ht rfl
  rw [restart_eq, restart_eq, made, made']
  have alike := s.alike_witness.1.symm.trans (h.trans t.alike_witness.1)
  exact (sameMove_begin alike.reset target witness).answer

/-! ## When a move completes the witness -/

/-- How the witness is completed in a move, if it is: to start a run in a step forward, or to start
again for an earlier step. -/
def completion? (s : Stepper σ κ) : Move → Option (Except SigningError (List Bytes))
  | .advance => if s.unstarted then some s.witness.1 else none
  | .seek k =>
    if s.status ≠ .cancelled ∧ s.pausedAt? (max k 1) = none
        ∧ (max k 1 ≤ s.currentStep ∨ s.unstarted) then some s.witness.1
    else none
  | .cancel => none

/-- How the witness is completed along a walk, each time that it is. -/
def completions (s : Stepper σ κ) : List Move → List (Except SigningError (List Bytes))
  | [] => []
  | m :: ms => (s.completion? m).toList ++ (s.perform m).2.completions ms

theorem sameMove_perform {s t : Stepper σ κ} {witness : List Bytes} {m : Move} (h : s.Alike t)
    (hs : ∀ r ∈ s.completion? m, r = .ok witness) (ht : ∀ r ∈ t.completion? m, r = .ok witness) :
    SameMove (s.perform m) (t.perform m) := by
  cases m with
  | advance =>
    refine sameMove_advance h (fun new => hs _ ?_) (fun new => ht _ ?_)
    · rw [completion?, if_pos new]; rfl
    · rw [completion?, if_pos new]; rfl
  | cancel => exact ⟨rfl, by rw [h]; rfl⟩
  | seek k =>
    have status : t.status = s.status := by rw [h]; rfl
    have shown : t.pausedAt? (max k 1) = s.pausedAt? (max k 1) := by rw [h]; rfl
    show SameMove (s.seek k) (t.seek k)
    by_cases stopped : s.status = .cancelled
    · rw [seek_of_cancelled stopped, seek_of_cancelled (status.trans stopped)]
      exact ⟨rfl, h⟩
    · have stopped' : t.status ≠ .cancelled := status ▸ stopped
      cases here : s.pausedAt? (max k 1) with
      | some v =>
        rw [seek_of_pausedAt stopped here, seek_of_pausedAt stopped' (shown.trans here)]
        exact ⟨rfl, h⟩
      | none =>
        have here' := shown.trans here
        rw [seek_of_moving stopped here, seek_of_moving stopped' here', h.currentStep]
        simp only [completion?, stopped, stopped', here, here', h.currentStep, ne_eq,
          not_false_eq_true, true_and] at hs ht
        by_cases back : max k 1 ≤ s.currentStep
        · rw [if_pos back, if_pos back]
          refine sameMove_restart h (hs _ ?_) (ht _ ?_) _
          · rw [if_pos (.inl back)]; rfl
          · rw [if_pos (.inl back)]; rfl
        · rw [if_neg back, if_neg back]
          refine sameMove_seekForward h (fun new => hs _ ?_) (fun new => ht _ ?_) _
          · rw [if_pos (.inr new)]; rfl
          · rw [if_pos (.inr new)]; rfl

/-- Alike steppers whose witnesses are always completed with the same elements answer alike. -/
theorem walk_alike {s t : Stepper σ κ} {witness : List Bytes} {moves : List Move} (h : s.Alike t)
    (hs : ∀ r ∈ s.completions moves, r = .ok witness)
    (ht : ∀ r ∈ t.completions moves, r = .ok witness) : s.walk moves = t.walk moves := by
  induction moves generalizing s t with
  | nil => rfl
  | cons m ms ih =>
    simp only [completions, List.mem_append, Option.mem_toList] at hs ht
    obtain ⟨answer, alike⟩ :=
      sameMove_perform h (fun r hr => hs r (.inl hr)) fun r hr => ht r (.inl hr)
    have rest := ih alike (fun r hr => hs r (.inr hr)) fun r hr => ht r (.inr hr)
    show ((s.perform m).1, (s.perform m).2.currentStep) :: (s.perform m).2.walk ms
      = ((t.perform m).1, (t.perform m).2.currentStep) :: (t.perform m).2.walk ms
    rw [answer, alike.currentStep, rest]

/-! ## Failed moves -/

theorem eq_of_advance_error {s t : Stepper σ κ} {e : SigningError} (h : s.advance = (.error e, t)) :
    s.witness = (.error e, t) := by
  cases new : s.unstarted with
  | false => exact absurd (congrArg Prod.fst h) (advance_ne_error new e)
  | true =>
    rw [advance_of_unstarted new] at h
    split at h
    · rename_i made
      cases h
      exact made
    · cases h

/-- Only the first step forward can fail, since after it there is a run to go on with. -/
theorem eq_of_seekForward_error {s t : Stepper σ κ} {target : Nat} {e : SigningError}
    (h : s.seekForward target = (.error e, t)) : s.witness = (.error e, t) := by
  rcases hx : s.advance with ⟨e' | o, s'⟩
  · rw [seekForward_of_error hx] at h
    exact eq_of_advance_error (hx.trans h)
  · rw [seekForward_of_ok hx] at h
    cases o with
    | step v =>
      simp only [seekOn] at h
      split at h
      · exact absurd (congrArg Prod.fst h) (seekForward_ne_error target e (unstarted_of_advance hx))
      · cases h
    | done => cases h
    | failed e => cases h
    | cancelled => cases h

theorem eq_of_restart_error {s t : Stepper σ κ} {target : Nat} {e : SigningError}
    (h : s.restart target = (.error e, t)) : s.witness = (.error e, t) := by
  rw [restart_eq] at h
  split at h
  · rename_i made
    cases h
    exact made
  · cases h

/-- A move that fails has tried to complete the witness and done nothing else. -/
theorem eq_of_perform_error {s t : Stepper σ κ} {m : Move} {e : SigningError}
    (h : s.perform m = (.error e, t)) : s.witness = (.error e, t) := by
  cases m with
  | advance => exact eq_of_advance_error h
  | cancel => cases h
  | seek k =>
    have h : s.seek k = (.error e, t) := h
    by_cases stopped : s.status = .cancelled
    · rw [seek_of_cancelled stopped] at h
      cases h
    · cases here : s.pausedAt? (max k 1) with
      | some v =>
        rw [seek_of_pausedAt stopped here] at h
        cases h
      | none =>
        rw [seek_of_moving stopped here] at h
        split at h
        · exact eq_of_restart_error h
        · exact eq_of_seekForward_error h

/-- **A failed move leaves no trace.** If a move fails because the witness cannot be completed, the
run goes on as it was: the same interpreter and plan, the same status, the same snapshot shown last,
and the same paused run. The key ring has the signer and the secrets that it had, its keys are still
the first ones, and more may follow. Whatever moves come next, as long as each completion of the
witness on the way gives one and the same witness, the answers are those of the stepper before the
failed move, with the ring it had or with any other that completes the witness likewise. -/
theorem walk_eq_of_error {s t : Stepper σ κ} {m : Move} {e : SigningError}
    (failed : s.perform m = (.error e, t)) :
    (t.interpreter = s.interpreter ∧ t.plan = s.plan ∧ t.status = s.status ∧ t.current = s.current
        ∧ t.paused = s.paused)
      ∧ (t.ring.signer = s.ring.signer ∧ t.ring.table = s.ring.table ∧ s.ring.keys <+: t.ring.keys)
      ∧ ∀ (ring : KeyRing σ κ) (witness : List Bytes) (moves : List Move),
        (∀ r ∈ t.completions moves, r = .ok witness) →
        (∀ r ∈ (s.withRing ring).completions moves, r = .ok witness) →
          t.walk moves = (s.withRing ring).walk moves := by
  obtain ⟨alike, more⟩ := s.alike_witness
  simp only [eq_of_perform_error failed] at alike more
  refine ⟨?_, ⟨more.signer, more.table, more.keys⟩, ?_⟩
  · rw [alike]
    exact ⟨rfl, rfl, rfl, rfl, rfl⟩
  · intro ring witness moves completed completed'
    exact walk_alike (alike.symm.trans (s.alike_withRing ring)) completed completed'

end Stepper

/-! ### A signer that fails once -/

/-- A signature is the number of its key; the second one of all is refused. -/
def moodySigner : Signer Nat UInt8 where
  keyOfBytes _ := .error "keys are made, not read"
  generate n := (5, n)
  publicKeyHex _ := ""
  sign key _ n := (if n = 1 then .error "signer exhausted" else .ok [key], n + 1)

def moodyRing (signed : Nat) : KeyRing Nat UInt8 := .of moodySigner signed ⟨[("alice", [])]⟩

/-- A stepper paused at the third step of a signed plan. -/
def pausedStepper : Stepper Nat UInt8 :=
  let start :=
    Stepper.of ⟨fun _ _ => .ok (Run.reel shortBoundaries (some (.ok ())))⟩ (moodyRing 0) signedPlan
  (((start.perform .advance).2.perform .advance).2.perform .advance).2

theorem walk_eq_of_error_moodySigner :
    let refused := (pausedStepper.perform (.seek 1)).2
    let other := pausedStepper.withRing (moodyRing 2)
    let moves := [.advance, .seek 1, .advance, .seek 2, .cancel, .seek 1]
    pausedStepper.perform (.seek 1) = (.error (.sign "alice" "signer exhausted"), refused)
      ∧ (∀ r ∈ refused.completions moves, r = .ok [[], [5], [0x51], [0xc0]])
      ∧ (∀ r ∈ other.completions moves, r = .ok [[], [5], [0x51], [0xc0]])
      ∧ refused.walk moves = other.walk moves := by
  intro refused other moves
  have failed : pausedStepper.perform (.seek 1) =
      (.error (.sign "alice" "signer exhausted"), refused) :=
    rfl
  have again : refused.completions moves = [.ok [[], [5], [0x51], [0xc0]]] := rfl
  have otherwise : other.completions moves = [.ok [[], [5], [0x51], [0xc0]]] := rfl
  have once (r : Except SigningError (List Bytes)) (hr : r ∈ [.ok [[], [5], [0x51], [0xc0]]]) :
      r = .ok [[], [5], [0x51], [0xc0]] := List.mem_singleton.mp hr
  exact ⟨failed, again ▸ once, otherwise ▸ once,
    (Stepper.walk_eq_of_error failed).2.2 _ _ _ (again ▸ once) (otherwise ▸ once)⟩

end TaprootLab

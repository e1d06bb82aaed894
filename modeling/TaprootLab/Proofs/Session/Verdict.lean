import TaprootLab.Proofs.Session.Walk
import TaprootLab.Proofs.Text

/-!
# The verdict on a run

Whether a run is verified or fails is a matter of the run. A session may draw it in one place or
line by line or not at all, from the first step on or from a later one: the result is that of the
film (`run_verdict`), and the only way around it is to give the run up, or to lose the keyboard.

A session without interaction is in two halves. It moves to the first step wanted as an interactive
one does, and then plays out what is left of the film (`playOut_of_tracks`).
-/

namespace TaprootLab

namespace Session

variable {σ κ : Type}

/-! ## What is drawn without interaction -/

/-- The tables of some steps, each with a line break after it. -/
def transcript (style : TableStyle) (vs : List Snapshot) : String :=
  String.join (vs.map fun v => Table.render style v ++ "\n")

theorem transcript_cons (style : TableStyle) (v : Snapshot) (vs : List Snapshot) :
    transcript style (v :: vs) = Table.render style v ++ "\n" ++ transcript style vs := by
  rw [transcript, List.map_cons, String.join_cons, transcript]

theorem withBreaks_eq (lineBreak : String) (lines : List String) :
    withBreaks lineBreak lines = String.join (lines.map (· ++ lineBreak)) := by
  rw [withBreaks, String.join, List.foldl_map]
  simp only [String.append_assoc]

/-- Cutting a text into lines and breaking each adds a line break at the end. -/
theorem withBreaks_splitOn (cs : List Char) :
    withBreaks "\n" ((Text.splitOn '\n' cs).map String.ofList) = String.ofList cs ++ "\n" := by
  rw [withBreaks_eq]
  induction cs using @Text.splitOn_induction '\n' with
  | last piece absent =>
    rw [Text.splitOn_of_notMem absent]
    simp
  | more piece rest absent ih =>
    have whole : String.ofList (piece ++ '\n' :: rest) =
        String.ofList piece ++ "\n" ++ String.ofList rest := by
      rw [← List.singleton_append, String.ofList_append, String.ofList_append, String.append_assoc]
    rw [Text.splitOn_append absent, List.map_cons, List.map_cons, String.join_cons, ih, whole]
    simp only [String.append_assoc]

theorem withBreaks_tableLines (style : TableStyle) (v : Snapshot) :
    withBreaks "\n" (tableLines style v) = Table.render style v ++ "\n" := by
  rw [tableLines, withBreaks_splitOn, String.ofList_toList]

theorem join_plainText (style : TableStyle) (options : SessionOptions) (vs : List Snapshot) :
    String.join (vs.map (plainText style options)) =
      if options.noStep then "" else transcript style vs := by
  induction vs with
  | nil => cases options.noStep <;> rfl
  | cons v vs ih =>
    rw [List.map_cons, String.join_cons, ih, plainText, withBreaks_tableLines, transcript_cons]
    split <;> rfl

/-- Nothing is written to a terminal that is not in a table, line breaks aside. -/
theorem notMem_transcript {style : TableStyle} {vs : List Snapshot} {c : Char} (other : c ≠ '\n')
    (absent : ∀ v ∈ vs, c ∉ (Table.render style v).toList) : c ∉ (transcript style vs).toList := by
  rw [transcript, String.toList_join, List.mem_flatMap]
  rintro ⟨text, mem, here⟩
  obtain ⟨v, shown, rfl⟩ := List.mem_map.mp mem
  rw [String.toList_append, List.mem_append] at here
  rcases here with inside | lineBreak
  · exact absent v shown inside
  · exact other (List.mem_singleton.mp lineBreak)

/-! ## Playing out -/

section
variable {style : TableStyle} {options : SessionOptions} {input : Bytes} {s t : Stepper σ κ}

theorem playOut_of_step {v next : Snapshot} (h : s.advance = (.ok (.step next), t))
    (written : String) :
    playOut style options input written v s =
      playOut style options input (written ++ plainText style options v) next t := by
  rw [playOut]
  split
  all_goals
    rename_i h'
    rw [h] at h'
    cases h'
  rfl

theorem playOut_of_end {v : Snapshot} {outcome : Outcome} {ending : Ending}
    (h : s.advance = (.ok outcome, t)) (ends : endingOf outcome = .inl ending) (written : String) :
    playOut style options input written v s =
      ⟨written ++ plainText style options v, .ok ending, t, input⟩ := by
  rw [playOut]
  split
  all_goals
    rename_i moved
    rw [h] at moved
    cases moved
  · cases ends
  all_goals
    cases ends
    rfl

variable {witness : List Bytes} {bs : List Boundary} {r : Option (Except RunError Unit)}
    {verdict : Ending}

/-- Behind a step, the rest of the film is drawn. -/
theorem playOut_of_tracks {k : Nat} (h : Stepper.Tracks witness bs r s (.paused k))
    (ends : endingOf (.ofResult r) = .inl verdict) (v : Snapshot) (written : String) :
    ∃ t, playOut style options input written v s =
      ⟨written ++ String.join
        ((v :: (Film.ofReel witness bs r).steps.drop k).map (plainText style options)),
        .ok verdict, t, input⟩ := by
  -- each step drawn leaves one fewer ahead
  induction ahead : (Film.ofReel witness bs r).steps.length - k generalizing s k v written with
  | zero =>
    have short : (Film.ofReel witness bs r).steps.length ≤ k := by omega
    have move := Stepper.agrees_advance h
    simp only [Film.move, Film.goTo, Nat.add_sub_cancel, List.getElem?_eq_none short] at move
    rw [playOut_of_end (Prod.ext move.1 rfl) ends, List.drop_of_length_le short, List.map_singleton,
      String.join_cons, String.join_nil, String.append_empty]
    exact ⟨_, rfl⟩
  | succ d ih =>
    have inside : k < (Film.ofReel witness bs r).steps.length := by omega
    have move := Stepper.agrees_advance h
    simp only [Film.move, Film.goTo, Nat.add_sub_cancel, List.getElem?_eq_getElem inside] at move
    rw [playOut_of_step (Prod.ext move.1 rfl), List.drop_eq_getElem_cons inside, List.map_cons,
      String.join_cons, ← String.append_assoc]
    exact ih move.2 _ _ (by omega)

/-- The first move asks how far to skip and nothing else, so it is that of an interactive
session. -/
theorem firstMove_eq (options : SessionOptions) (s : Stepper σ κ) :
    firstMove options s = firstMove ⟨true, false, options.skipAhead⟩ s := rfl

/-- From the start, the film is drawn from the first step wanted on. -/
theorem runPlain_of_tracks (fresh : Stepper.Tracks witness bs r s (.paused 0))
    (ends : endingOf (.ofResult r) = .inl verdict) :
    ∃ t, runPlain style options input s =
      ⟨String.join (((Film.ofReel witness bs r).steps.drop (max 1 options.skipAhead - 1)).map
        (plainText style options)), .ok verdict, t, input⟩ := by
  obtain ⟨answer, tracks⟩ := agrees_firstMove fresh options.skipAhead
  rw [runPlain, firstMove_eq]
  generalize firstMove ⟨true, false, options.skipAhead⟩ s = x at answer tracks
  obtain ⟨outcome, t⟩ := x
  simp only [Film.goTo] at answer tracks
  cases shown : (Film.ofReel witness bs r).steps[max 1 options.skipAhead - 1]? with
  | none =>
    rw [shown] at answer
    obtain rfl : outcome = .ok (.ofResult r) := answer
    rw [List.drop_of_length_le (List.getElem?_eq_none_iff.mp shown)]
    dsimp only
    rw [ends]
    exact ⟨t, rfl⟩
  | some v =>
    obtain ⟨inside, rfl⟩ := List.getElem?_eq_some_iff.mp shown
    rw [shown] at answer tracks
    obtain rfl := answer
    have positive : 1 ≤ max 1 options.skipAhead := Nat.le_max_left 1 _
    obtain ⟨t', played⟩ := @playOut_of_tracks _ _ style options input t _ _ _ _ _ tracks ends
      ((Film.ofReel witness bs r).steps[max 1 options.skipAhead - 1]) ""
    rw [List.drop_eq_getElem_cons inside, Nat.sub_add_cancel positive]
    rw [String.empty_append] at played
    exact ⟨t', played⟩

theorem runPlain_of_stalls {e : RunError} (fresh : Stepper.Stalls e s (.paused 0)) :
    ∃ t, runPlain style options input s = ⟨"", .ok (.failed e), t, input⟩ := by
  have refused := firstMove_of_stalls fresh options.skipAhead
  rw [runPlain, firstMove_eq]
  generalize firstMove ⟨true, false, options.skipAhead⟩ s = x at refused
  obtain ⟨outcome, t⟩ := x
  obtain rfl : outcome = .ok (.failed e) := refused
  exact ⟨t, rfl⟩

end

/-! ## Sessions that lose the keyboard -/

/-- A session whose input breaks off goes as one whose input ends, or comes to nothing. -/
theorem follow_failing (style : TableStyle) (failure : Option String) (input : Bytes)
    (written : String) (progress : Progress σ κ) :
    (follow style failure input written progress).result =
        (follow style none input written progress).result
      ∨ ∃ reason, failure = some reason
        ∧ (follow style failure input written progress).result = .error (.input reason) := by
  rcases progress with w | ⟨result, s⟩
  · cases read : readKey input with
    | none =>
      rw [follow_of_none style failure written read, follow_of_none style none written read]
      cases failure with
      | none => exact .inl rfl
      | some reason => exact .inr ⟨reason, rfl, rfl⟩
    | some found =>
      obtain ⟨key, rest⟩ := found
      have shorter := length_of_readKey read
      rw [follow_of_some style failure written read, follow_of_some style none written read]
      exact follow_failing style failure rest _ _
  · left
    rw [follow_over, follow_over]
termination_by input.length

/-! ## The verdict -/

/-- The verdict on a film that comes to an end. -/
inductive Judged (film : Film) : Ending → Prop
  | verified (done : film.ending = .done) : Judged film .verified
  | failed {e : RunError} (fails : film.ending = .failed e) : Judged film (.failed e)

/-- The report of a session that reads no key and has the given verdict on a film. -/
structure PlaysOut (style : TableStyle) (film : Film) (verdict : Ending) (options : SessionOptions)
    (input : Bytes) (report : SessionReport σ κ) : Prop where
  result : report.result = .ok verdict
  /-- The tables from the first step wanted on, if any are wanted. -/
  written : report.written =
    if options.noStep then "" else transcript style (film.steps.drop (max 1 options.skipAhead - 1))
  /-- What steers a terminal is in the tables or nowhere. -/
  escapes : (∀ v ∈ film.steps, '\x1b' ∉ (Table.render style v).toList) →
    '\x1b' ∉ report.written.toList
  unread : report.unread = input

section
variable {style : TableStyle} {film : Film} {verdict : Ending} {options : SessionOptions}
    {input : Bytes}

theorem Judged.verified_iff (judged : Judged film verdict) :
    verdict = .verified ↔ film.ending = .done := by
  cases judged with
  | verified done => simp [done]
  | failed fails => simp [fails]

theorem Judged.failed_iff (judged : Judged film verdict) (e : RunError) :
    verdict = .failed e ↔ film.ending = .failed e := by
  cases judged with
  | verified done => simp [done]
  | failed fails => simp [fails]

theorem playsOut_of_runPlain {s t : Stepper σ κ}
    (played : runPlain style options input s =
      ⟨String.join ((film.steps.drop (max 1 options.skipAhead - 1)).map (plainText style options)),
        .ok verdict, t, input⟩)
    (failure : Option String) (silent : options.interactive = false ∨ options.noStep = true) :
    PlaysOut style film verdict options input (run style options failure input s) := by
  have plain : (options.interactive && !options.noStep) = false := by
    rcases silent with off | hidden
    · rw [off, Bool.false_and]
    · rw [hidden, Bool.not_true, Bool.and_false]
  rw [run, if_neg (by rw [plain]; exact Bool.false_ne_true), played, join_plainText]
  refine ⟨rfl, rfl, fun absent => ?_, rfl⟩
  dsimp only
  split
  · simp
  · exact notMem_transcript (by decide) fun v mem => absent v (List.mem_of_mem_drop mem)

theorem exists_judged (witness : List Bytes) (bs : List Boundary)
    (r : Option (Except RunError Unit)) :
    ∃ verdict, endingOf (.ofResult r) = .inl verdict
      ∧ Judged (Film.ofReel witness bs r) verdict := by
  rcases ofResult_cases r with done | ⟨e, fails⟩
  · exact ⟨.verified, by rw [done]; rfl, .verified done⟩
  · exact ⟨.failed e, by rw [fails]; rfl, .failed fails⟩

/-- An interactive session is given up or comes to the verdict. -/
theorem result_of_retraces {tour : Tour} {report : SessionReport σ κ} (judged : Judged film verdict)
    (h : Retraces style film "" 0 0 tour report) :
    report.result = .ok verdict ∨ report.result = .ok .cancelled := by
  cases finished : tour.finished with
  | false => exact .inr (h.cancelled.mpr finished)
  | true =>
    left
    cases judged with
    | verified done => exact h.verified.mpr ⟨finished, done⟩
    | @failed e fails => exact (h.failed e).mpr ⟨finished, fails⟩

end

/-- Sessions on a stepper have one verdict, which is that of a film. -/
structure HasVerdict (s : Stepper σ κ) (film : Film) (verdict : Ending) : Prop where
  verified : verdict = .verified ↔ film.ending = .done
  failed : ∀ e, verdict = .failed e ↔ film.ending = .failed e
  plain : ∀ (style : TableStyle) (options : SessionOptions) (failure : Option String)
    (input : Bytes),
    options.interactive = false ∨ options.noStep = true →
      PlaysOut style film verdict options input (run style options failure input s)
  /-- A session with interaction may be given up, or lose the keyboard. -/
  interactive : ∀ (style : TableStyle) (skip : Nat) (failure : Option String) (input : Bytes),
    (run style ⟨true, false, skip⟩ failure input s).result = .ok verdict
      ∨ (run style ⟨true, false, skip⟩ failure input s).result = .ok .cancelled
      ∨ ∃ reason, failure = some reason
        ∧ (run style ⟨true, false, skip⟩ failure input s).result = .error (.input reason)

theorem hasVerdict {s : Stepper σ κ} {film : Film} {verdict : Ending} (judged : Judged film verdict)
    (played : ∀ style options input, ∃ t, runPlain style options input s =
      ⟨String.join ((film.steps.drop (max 1 options.skipAhead - 1)).map (plainText style options)),
        .ok verdict, t, input⟩)
    (retraces : ∀ style skip input, ∃ tour,
      Retraces style film "" 0 0 tour (run style ⟨true, false, skip⟩ none input s)) :
    HasVerdict s film verdict := by
  refine ⟨judged.verified_iff, judged.failed_iff, ?_, ?_⟩
  · intro style options failure input silent
    obtain ⟨t, report⟩ := played style options input
    exact playsOut_of_runPlain report failure silent
  · intro style skip failure input
    obtain ⟨tour, retraced⟩ := retraces style skip input
    have broken := follow_failing style failure input (begin style ⟨true, false, skip⟩ s).1
      (begin style ⟨true, false, skip⟩ s).2
    rcases broken with same | lost
    · have kept : (run style ⟨true, false, skip⟩ failure input s).result
          = (run style ⟨true, false, skip⟩ none input s).result := same
      rw [kept]
      rcases result_of_retraces judged retraced with decided | cancelled
      · exact .inl decided
      · exact .inr (.inl cancelled)
    · exact .inr (.inr lost)

/-- **The verdict is that of the run.** Over an interpreter that stops when told to, with a witness
that is completed the same every time, all sessions have one verdict: that the run is verified if
the film ends so, or how it fails. Sessions without interaction come to it without reading a key,
and draw the tables from the first step wanted on, or nothing. Sessions with interaction come to it
unless they are given up or lose the keyboard. -/
theorem run_verdict {interpreter : Interpreter} {ring : KeyRing σ κ} {plan : Plan}
    {elements : List Bytes} (completes : ring.Completes plan.spend plan.parts elements)
    (stops : ∀ run, interpreter.start plan.spend (elements ++ plan.trailer) = .ok run →
      run.StopsOnAbort) :
    ∃ film verdict, (Stepper.of interpreter ring plan).film = .ok film
      ∧ (film.ending = .done ∨ ∃ e, film.ending = .failed e)
      ∧ HasVerdict (.of interpreter ring plan) film verdict := by
  cases started : interpreter.start plan.spend (elements ++ plan.trailer) with
  | ok found =>
    have fresh := Stepper.tracks_of_start completes started (stops found started)
    obtain ⟨verdict, ending, judged⟩ :=
      exists_judged (elements ++ plan.trailer) found.boundaries found.result
    refine ⟨.ofReel _ found.boundaries found.result, verdict, Stepper.film_of_tracks fresh,
      ofResult_cases _, hasVerdict judged ?_ ?_⟩
    · exact fun style options input => runPlain_of_tracks fresh ending
    · exact fun style skip input => ⟨_, retraces_of_tracks fresh skip input⟩
  | error e =>
    have fresh := Stepper.stalls_of_start completes started
    have refused := (Stepper.stalls_advance fresh).1
    refine ⟨.refusal e, .failed e, Stepper.film_of_end (Prod.ext refused rfl) fresh.ne_step,
      .inr ⟨e, rfl⟩, hasVerdict (.failed rfl) ?_ ?_⟩
    · intro style options input
      obtain ⟨t, report⟩ := @runPlain_of_stalls _ _ style options input _ e fresh
      refine ⟨t, ?_⟩
      rw [report, Film.refusal, List.drop_nil, List.map_nil, String.join_nil]
    · exact fun style skip input => ⟨_, retraces_of_stalls fresh skip input⟩

/-- Sessions on the signed plan, with the interpreter of taproot spends. -/
theorem run_verdict_signedPlan :
    countingRing.Completes signedPlan.spend signedPlan.parts [[], [5]]
      ∧ (∀ run, (taprootInterpreter Secp256k1.curve).start signedPlan.spend
          ([[], [5]] ++ signedPlan.trailer) = .ok run → run.StopsOnAbort)
      ∧ ∃ film verdict,
        (Stepper.of (taprootInterpreter Secp256k1.curve) countingRing signedPlan).film = .ok film
        ∧ (film.ending = .done ∨ ∃ e, film.ending = .failed e)
        ∧ HasVerdict (.of (taprootInterpreter Secp256k1.curve) countingRing signedPlan)
          film verdict := by
  have stops : ∀ run, (taprootInterpreter Secp256k1.curve).start signedPlan.spend
      ([[], [5]] ++ signedPlan.trailer) = .ok run → run.StopsOnAbort :=
        fun _ => stopsOnAbort_of_start
  exact ⟨completes_signedPlan, stops, run_verdict completes_signedPlan stops⟩

end Session

end TaprootLab

import TaprootLab.Proofs.Engine.Acceptance

/-!
# The way of a run through its scripts

A run goes through the scripts of a spend in order, and through each of them instruction by
instruction. It may end early but leaves nothing out: from the first position on, it shows the
first so many of all positions (`positions_runTaproot_prefix`), and all of them if it ends well
(`positions_runTaproot_of_ok`). If it fails in the leaf, then at the position shown last
(`LeafRun.exists_getLast?`). To abort it at some boundary cuts off what follows and changes nothing
before (`StopsOnAbort.drive_abortAt`).
-/

namespace TaprootLab

open Taproot Run

/-! ## Aborting -/

namespace Run

variable {α β : Type}

/-- Notes what is shown, and aborts at boundary number `n`. -/
def abortAt (n : Nat) (seen : List Boundary) (b : Boundary) : Control × List Boundary :=
  (if seen.length + 1 = n then .abort else .proceed, seen ++ [b])

theorem drive_report {σ : Type} (observe : σ → Boundary → Control × σ) (s : σ) (b : Boundary)
    (resume : Control → Run α) :
    (report b resume).drive observe s =
      (resume (observe s b).1).drive observe (observe s b).2 := rfl

theorem StopsOnAbort.drive_abortAt {run : Run α} (h : run.StopsOnAbort) {n : Nat}
    {seen : List Boundary} (ahead : seen.length < n) :
    run.drive (abortAt n) seen =
      if n ≤ seen.length + run.boundaries.length then
        (some (.error .aborted), seen ++ run.boundaries.take (n - seen.length))
      else (run.result, seen ++ run.boundaries) := by
  induction run generalizing seen with
  | done r =>
    rw [if_neg (by simpa using ahead), boundaries_done, List.append_nil]
    rfl
  | lost =>
    rw [if_neg (by simpa [boundaries] using ahead), boundaries, List.append_nil]
    rfl
  | report b resume ih =>
    obtain ⟨aborted, rest⟩ := h
    rw [drive_report, boundaries, List.length_cons]
    by_cases here : seen.length + 1 = n
    · have answer : abortAt n seen b = (.abort, seen ++ [b]) := by rw [abortAt, if_pos here]
      have one : n - seen.length = 1 := by omega
      rw [answer, aborted, if_pos (by omega), one]
      rfl
    · have answer : abortAt n seen b = (.proceed, seen ++ [b]) := by rw [abortAt, if_neg here]
      have noted : (seen ++ [b]).length = seen.length + 1 := List.length_append
      have left : n - seen.length = n - (seen.length + 1) + 1 := by omega
      have further : (seen ++ [b]).length < n := by omega
      have next := ih .proceed rest further
      rw [noted] at next
      rw [answer, next, left, List.take_succ_cons, Nat.add_assoc, Nat.add_comm 1]
      simp only [List.append_assoc, List.singleton_append]
      rfl

/-- Someone who always proceeds and notes what is shown has noted all boundaries in the end. -/
theorem drive_note (run : Run α) :
    run.drive (fun seen b => (.proceed, seen ++ [b])) [] = (run.result, run.boundaries) := by
  have noted (bs seen : List Boundary) :
      bs.foldl (fun seen b => seen ++ [b]) seen = seen ++ bs := by
    induction bs generalizing seen with
    | nil => exact (List.append_nil seen).symm
    | cons b bs ih => rw [List.foldl_cons, ih, List.append_assoc, List.singleton_append]
  rw [drive_proceed (fun seen b => seen ++ [b]), noted, List.nil_append]

end Run

/-! ## Positions -/

/-- Where a boundary stands: in which script, and before which instruction. -/
def Boundary.position (b : Boundary) : Nat × Nat := (b.scriptIndex, b.pc)

/-- All positions of a script, the last one being its end. -/
def stations (scriptIndex : Nat) (script : Bytes) : List (Nat × Nat) :=
  (List.range ((Script.decode script).length + 1)).map fun pc => (scriptIndex, pc)

def Run.positions {α : Type} (run : Run α) : List (Nat × Nat) :=
  run.boundaries.map Boundary.position

theorem range_prefix_range {a b : Nat} (h : a ≤ b) : List.range a <+: List.range b := by
  have cut : (List.range b).take a = List.range a := by rw [List.take_range, Nat.min_eq_left h]
  exact cut ▸ List.take_prefix a _

/-- What lies in two parts, one after the other, and reaches the second has all of the first. -/
theorem prefix_of_mem_of_not_mem {α : Type} {l first second : List α} {a : α}
    (h : l <+: first ++ second) (reached : a ∈ l) (beyond : a ∉ first) : first <+: l := by
  rcases List.prefix_or_prefix_of_prefix h (List.prefix_append first second) with within | whole
  · exact (beyond (within.subset reached)).elim
  · exact whole

theorem stations_nil (scriptIndex : Nat) : stations scriptIndex [] = [(scriptIndex, 0)] := by
  rw [stations, Script.decode, Script.decodeFrom_nil]
  rfl

theorem fst_of_mem_stations {scriptIndex : Nat} {script : Bytes} {p : Nat × Nat}
    (h : p ∈ stations scriptIndex script) : p.1 = scriptIndex := by
  obtain ⟨pc, -, rfl⟩ := List.mem_map.mp h
  rfl

namespace Machine

variable {env : Env} {m m' : Machine} {scriptIndex : Nat} {script : Bytes}

theorem length_visits_of_execute_ok {pc : Nat} {is : List Instruction}
    (h : m.execute env pc is = .ok m') : (m.visits env pc is).length = is.length + 1 := by
  induction is generalizing m pc with
  | nil => rfl
  | cons i rest ih =>
    rw [execute] at h
    rw [visits, List.length_cons, List.length_cons]
    cases hstep : m.step env pc i with
    | error e =>
      rw [hstep] at h
      cases h
    | ok m₁ =>
      rw [hstep] at h
      exact congrArg (· + 1) (ih h)

/-- The instruction that fails is the one behind the last boundary. -/
theorem length_visits_of_execute_error {pc stop : Nat} {is : List Instruction} {e : ScriptError}
    (h : m.execute env pc is = .error (e, stop)) : pc + (m.visits env pc is).length = stop + 1 := by
  induction is generalizing m pc with
  | nil => cases h
  | cons i rest ih =>
    rw [execute] at h
    rw [visits, List.length_cons]
    cases hstep : m.step env pc i with
    | error e' =>
      rw [hstep] at h
      cases h
      rfl
    | ok m₁ =>
      rw [hstep] at h
      have next := ih h
      show pc + ((m₁.visits env (pc + 1) rest).length + 1) = stop + 1
      omega

theorem positions_run :
    (m.run env scriptIndex script).positions =
      (List.range (m.visits env 0 (Script.decode script)).length).map fun pc =>
        (scriptIndex, pc) := by
  rw [positions, boundaries_run]
  refine List.ext_getElem? fun k => ?_
  rw [List.getElem?_map, List.getElem?_mapIdx, List.getElem?_map, Option.map_map]
  by_cases hk : k < (m.visits env 0 (Script.decode script)).length
  · rw [List.getElem?_eq_getElem hk, List.getElem?_range hk]
    rfl
  · rw [List.getElem?_eq_none (by omega), List.getElem?_eq_none (by rw [List.length_range]; omega)]
    rfl

theorem positions_run_prefix :
    (m.run env scriptIndex script).positions <+: stations scriptIndex script := by
  rw [positions_run, stations]
  exact (range_prefix_range (length_visits_le _ _ _)).map _

theorem head?_positions_run :
    (m.run env scriptIndex script).positions.head? = some (scriptIndex, 0) := by
  rw [positions_run]
  cases Script.decode script with
  | nil => rfl
  | cons i rest =>
    rw [visits, List.length_cons, List.range_succ_eq_map]
    rfl

theorem positions_run_of_ok (h : (m.run env scriptIndex script).result = some (.ok m')) :
    (m.run env scriptIndex script).positions = stations scriptIndex script := by
  rw [result_run, Option.some.injEq, conclude_eq_ok_iff] at h
  rw [positions_run, stations, length_visits_of_execute_ok h.1]

/-- A script ends where its last boundary stands, which is at its end if it ends well. -/
theorem exists_getLast?_run (env : Env) (m : Machine) (scriptIndex : Nat) (script : Bytes) :
    ∃ last, (m.run env scriptIndex script).boundaries.getLast? = some last
      ∧ last.scriptIndex = scriptIndex ∧
      ((∃ m', (m.run env scriptIndex script).result = some (.ok m')
          ∧ last.pc = (Script.decode script).length) ∨
        ∃ e, (m.run env scriptIndex script).result =
          some (.error (.script e (.ofIndex scriptIndex) last.pc))) := by
  have nonempty : m.visits env 0 (Script.decode script) ≠ [] := by
    cases Script.decode script <;> simp [visits]
  obtain ⟨a, ha⟩ := Option.isSome_iff_exists.mp (List.getLast?_isSome.mpr nonempty)
  refine ⟨a.boundary scriptIndex script
    ((m.visits env 0 (Script.decode script)).length - 1), ?_, rfl, ?_⟩
  · rw [boundaries_run, List.getLast?_mapIdx, ha]
    rfl
  · rw [result_run]
    dsimp only [boundary]
    cases ended : m.execute env 0 (Script.decode script) with
    | error e =>
      obtain ⟨e, stop⟩ := e
      have length := length_visits_of_execute_error ended
      have here : (m.visits env 0 (Script.decode script)).length - 1 = stop := by omega
      rw [here]
      exact .inr ⟨e, rfl⟩
    | ok m' =>
      rw [length_visits_of_execute_ok ended, Nat.add_sub_cancel, conclude]
      split
      · exact .inl ⟨m', rfl, rfl⟩
      · exact .inr ⟨.unbalancedConditional, rfl⟩

end Machine

/-- The second part of a run shows its positions behind all positions of the first. -/
theorem Run.positions_bind_prefix {α β : Type} {run : Run α} {next : α → Run β}
    {first second : List (Nat × Nat)} (shown : run.positions <+: first)
    (whole : ∀ a, run.result = some (.ok a) →
      run.positions = first ∧ (next a).positions <+: second) :
    (run.bind next).positions <+: first ++ second := by
  rw [positions, boundaries_bind, List.map_append]
  split
  · rename_i a ended
    obtain ⟨all, rest⟩ := whole a ended
    rw [← positions, all]
    exact (List.prefix_append_right_inj first).mpr rest
  · rw [List.map_nil, List.append_nil]
    exact shown.trans (List.prefix_append first second)

/-- A run in two parts that ends well shows all positions of both. -/
theorem Run.positions_bind_of_ok {α β : Type} {run : Run α} {next : α → Run β} {b : β}
    {first second : List (Nat × Nat)} (ended : (run.bind next).result = some (.ok b))
    (former : ∀ a, run.result = some (.ok a) → run.positions = first)
    (latter : ∀ a, (next a).result = some (.ok b) → (next a).positions = second) :
    (run.bind next).positions = first ++ second := by
  obtain ⟨a, well, ended⟩ := result_bind_eq_ok_iff.mp ended
  rw [positions, boundaries_bind_of_ok _ well, List.map_append, ← positions, ← positions,
    former a well, latter a ended]

/-! ## The scripts of a spend -/

/-- The script that a witness reveals: its last but one element, the annex aside. -/
def revealedScript? (witness : List Bytes) : Option Bytes := (splitAnnex witness).1.reverse[1]?

theorem revealedScript?_of_authorize {curve : Curve} {spend : Spend} {witness : List Bytes}
    {leaf : LeafRun} (h : authorize curve spend witness = .ok (some leaf)) :
    revealedScript? witness = some leaf.script := by
  obtain ⟨output, control, -, split, -⟩ := authorize_eq_some_iff.mp h
  rw [revealedScript?, splitAnnex_eq_iff.mpr split]
  simp

theorem LeafRun.positions_run_prefix (leaf : LeafRun) (curve : Curve) (spend : Spend) :
    (leaf.run curve spend).positions <+: stations 2 leaf.script := by
  rw [positions, LeafRun.boundaries_run]
  exact Machine.positions_run_prefix

theorem LeafRun.positions_run_of_ok {leaf : LeafRun} {curve : Curve} {spend : Spend}
    (h : (leaf.run curve spend).result = some (.ok ())) :
    (leaf.run curve spend).positions = stations 2 leaf.script := by
  rw [LeafRun.run_eq] at h
  obtain ⟨m, ended, -⟩ := result_bind_eq_ok_iff.mp h
  rw [positions, LeafRun.boundaries_run]
  exact Machine.positions_run_of_ok ended

/-- A leaf ends where its last boundary stands: at its end if all goes well, else where it fails. -/
theorem LeafRun.exists_getLast? (leaf : LeafRun) (curve : Curve) (spend : Spend) :
    ∃ last, (leaf.run curve spend).boundaries.getLast? = some last ∧ last.scriptIndex = 2 ∧
      ((leaf.run curve spend).result = some (.ok ()) ∧
        last.pc = (Script.decode leaf.script).length ∨
        ∃ e, (leaf.run curve spend).result =
          some (.error (.script e .witnessScript last.pc))) := by
  obtain ⟨last, shown, third, ⟨m, ended, stop⟩ | ⟨e, failed⟩⟩ := Machine.exists_getLast?_run
    (leaf.env curve spend) (Machine.start leaf.stack leaf.budget) 2 leaf.script
  · refine ⟨last, by rw [LeafRun.boundaries_run, shown], third, ?_⟩
    rw [LeafRun.run_eq, result_bind_of_ok _ ended, verdict, stop]
    split
    · exact .inr ⟨.evalFalse, rfl⟩
    · split
      · exact .inl ⟨rfl, rfl⟩
      · exact .inr ⟨.evalFalse, rfl⟩
    · exact .inr ⟨.cleanStack, rfl⟩
  · refine ⟨last, by rw [LeafRun.boundaries_run, shown], third, .inr ⟨e, ?_⟩⟩
    rw [LeafRun.run_eq, result_bind_of_error _ failed]
    rfl

theorem stations_outputScript {script : Bytes} (h : isOutputScript script = true) :
    stations 1 script = [(1, 0), (1, 1), (1, 2)] := by
  obtain ⟨key, rfl, length⟩ := exists_key_of_isOutputScript h
  rw [stations, decode_outputScript length]
  rfl

theorem positions_runWitness_prefix (curve : Curve) (spend : Spend) (witness : List Bytes) :
    (runWitness curve spend witness).positions <+:
      (revealedScript? witness).toList.flatMap (stations 2) := by
  rw [runWitness]
  split
  · exact List.nil_prefix
  · exact List.nil_prefix
  · rename_i leaf authorized
    rw [revealedScript?_of_authorize authorized, Option.toList_some, List.flatMap_singleton]
    exact leaf.positions_run_prefix curve spend

theorem positions_runWitness_of_ok {curve : Curve} {spend : Spend} {witness : List Bytes}
    (taproot : isOutputScript spend.prevout.scriptPubKey = true)
    (h : (runWitness curve spend witness).result = some (.ok ())) :
    (runWitness curve spend witness).positions =
      (revealedScript? witness).toList.flatMap (stations 2) := by
  rcases result_runWitness_eq_ok_iff.mp h with authorized | ⟨leaf, authorized, ended⟩
  · obtain ⟨_, _, signature, -, split, -⟩ :=
      (authorize_eq_none_iff (length_of_isOutputScript taproot)).mp authorized
    rw [runWitness, authorized, revealedScript?, splitAnnex_eq_iff.mpr split]
    rfl
  · rw [runWitness, authorized, revealedScript?_of_authorize authorized, Option.toList_some,
      List.flatMap_singleton]
    exact LeafRun.positions_run_of_ok ended

/-- All positions of the scripts of a spend, in the order in which the scripts are run. -/
def Spend.route (spend : Spend) (witness : List Bytes) : List (Nat × Nat) :=
  stations 0 spend.input.scriptSig ++
    ([(1, 0), (1, 1), (1, 2)] ++ (revealedScript? witness).toList.flatMap (stations 2))

theorem head?_positions_runTaproot (curve : Curve) (spend : Spend) (witness : List Bytes) :
    (runTaproot curve spend witness).positions.head? = some (0, 0) := by
  rw [runTaproot_eq, positions, boundaries_bind, List.map_append, List.head?_append, ← positions,
    Machine.head?_positions_run, Option.some_or]

section
variable {curve : Curve} {spend : Spend} {witness : List Bytes}
  (taproot : isOutputScript spend.prevout.scriptPubKey = true)
include taproot

/-- No position is left out, and no script is begun before the one before it has come to its end. -/
theorem positions_runTaproot_prefix :
    (runTaproot curve spend witness).positions <+: spend.route witness := by
  rw [runTaproot_eq, Spend.route, ← stations_outputScript taproot]
  refine positions_bind_prefix Machine.positions_run_prefix fun m ended => ?_
  refine ⟨Machine.positions_run_of_ok ended, ?_⟩
  split
  · exact List.nil_prefix
  · refine positions_bind_prefix Machine.positions_run_prefix fun m ended => ?_
    exact ⟨Machine.positions_run_of_ok ended, positions_runWitness_prefix curve spend witness⟩

/-- The script of the output is run to its end, unless something stands in the input. -/
theorem prefix_positions_runTaproot (empty : spend.input.scriptSig = []) :
    [(0, 0), (1, 0), (1, 1), (1, 2)] <+: (runTaproot curve spend witness).positions := by
  obtain ⟨m, ended⟩ :=
    Machine.result_run_outputScript (SignatureScope.env ⟨curve, spend, none, none⟩) taproot
  have first := Machine.result_run_nil (SignatureScope.env ⟨curve, spend, none, none⟩)
    (Machine.start [] 0) rfl
  rw [runTaproot_eq, empty, positions, boundaries_bind_of_ok _ first, List.isEmpty_nil,
    if_neg (by simp), boundaries_bind_of_ok _ ended, List.map_append, List.map_append, ← positions,
    ← positions, Machine.positions_run_of_ok first, Machine.positions_run_of_ok ended,
    stations_outputScript taproot, stations_nil, ← List.append_assoc]
  exact List.prefix_append _ _

theorem positions_runTaproot_of_ok (h : (runTaproot curve spend witness).result = some (.ok ())) :
    (runTaproot curve spend witness).positions = spend.route witness := by
  rw [runTaproot_eq] at h ⊢
  rw [Spend.route, ← stations_outputScript taproot]
  refine positions_bind_of_ok h (fun m => Machine.positions_run_of_ok) fun m ended => ?_
  split at ended
  · cases ended
  · rename_i empty
    rw [if_neg empty]
    exact positions_bind_of_ok ended (fun m => Machine.positions_run_of_ok) fun m =>
      positions_runWitness_of_ok taproot

end

/-- How the positions that a spend shows lie on its route, if it ends with `r`: a script is begun
when the one before it is through. -/
structure FollowsRoute (spend : Spend) (witness : List Bytes) (r : Except RunError Unit)
    (shown : List (Nat × Nat)) : Prop where
  inOrder : shown <+: spend.route witness
  start : shown.head? = some (0, 0)
  afterInput : ∀ p ∈ shown, p.1 ≠ 0 → stations 0 spend.input.scriptSig <+: shown
  afterOutput : ∀ p ∈ shown, p.1 = 2 →
    stations 0 spend.input.scriptSig ++ [(1, 0), (1, 1), (1, 2)] <+: shown
  unhindered : spend.input.scriptSig = [] → [(0, 0), (1, 0), (1, 1), (1, 2)] <+: shown
  whole : r = .ok () → shown = spend.route witness

theorem followsRoute_runTaproot {curve : Curve} {spend : Spend} {witness : List Bytes}
    {r : Except RunError Unit} (taproot : isOutputScript spend.prevout.scriptPubKey = true)
    (ended : (runTaproot curve spend witness).result = some r) :
    FollowsRoute spend witness r (runTaproot curve spend witness).positions := by
  have inOrder : (runTaproot curve spend witness).positions <+: spend.route witness :=
    positions_runTaproot_prefix taproot
  refine ⟨inOrder, head?_positions_runTaproot curve spend witness, ?_, ?_,
    prefix_positions_runTaproot taproot, ?_⟩
  · intro p shown later
    exact prefix_of_mem_of_not_mem inOrder shown fun h => later (fst_of_mem_stations h)
  · intro p shown third
    rw [Spend.route, ← List.append_assoc] at inOrder
    refine prefix_of_mem_of_not_mem inOrder shown fun h => ?_
    rw [← stations_outputScript taproot, List.mem_append] at h
    rcases h with h | h <;> exact absurd third (by rw [fst_of_mem_stations h]; decide)
  · intro well
    exact positions_runTaproot_of_ok taproot (by rw [ended, well])

/-- A spend comes to an end. -/
theorem exists_result_runTaproot (curve : Curve) (spend : Spend) (witness : List Bytes) :
    ∃ r, (runTaproot curve spend witness).result = some r := by
  have ends {α : Type} {env : Env} {m : Machine} {k : Nat} {script : Bytes} {next : Machine → Run α}
      (h : ∀ m, ∃ r, (next m).result = some r) :
      ∃ r, ((m.run env k script).bind next).result = some r := by
    rcases Machine.result_run_cases env m k script with ⟨m', ended⟩ | ⟨e, failed⟩
    · rw [result_bind_of_ok _ ended]
      exact h m'
    · exact ⟨_, result_bind_of_error _ failed⟩
  rw [runTaproot_eq]
  refine ends fun _ => ?_
  split
  · exact ⟨_, rfl⟩
  · refine ends fun _ => ?_
    rw [runWitness]
    split
    · exact ⟨_, rfl⟩
    · exact ⟨_, rfl⟩
    · rename_i leaf _
      obtain ⟨last, -, -, ⟨ended, -⟩ | ⟨e, failed⟩⟩ := leaf.exists_getLast? curve spend
      · exact ⟨_, ended⟩
      · exact ⟨_, failed⟩

/-- **Aborting cuts a run off and changes nothing before.** To someone who always proceeds, a spend
shows the positions of its scripts in order from the first on, and all of them if it ends well; if
it comes to a leaf, it ends where its last boundary stands. Someone who aborts at boundary number
`n` has seen the same up to there. -/
theorem drive_abortAt_eq_take {curve : Curve} {spend : Spend} {witness : List Bytes}
    {run : Run Unit} (started : (taprootInterpreter curve).start spend witness = .ok run) :
    ∃ r bs, run.drive (fun seen b => (.proceed, seen ++ [b])) [] = (some r, bs)
      ∧ FollowsRoute spend witness r (bs.map Boundary.position)
      ∧ (∀ b ∈ bs, b.scriptIndex = 2 → ∃ leaf last, revealedScript? witness = some leaf
          ∧ bs.getLast? = some last ∧ last.scriptIndex = 2
          ∧ (r = .ok () ∧ last.pc = (Script.decode leaf).length
            ∨ ∃ e, r = .error (.script e .witnessScript last.pc)))
      ∧ ∀ n, 1 ≤ n → run.drive (abortAt n) [] =
          if n ≤ bs.length then (some (.error .aborted), bs.take n) else (some r, bs) := by
  by_cases taproot : isOutputScript spend.prevout.scriptPubKey = true
  · obtain rfl : runTaproot curve spend witness = run := by
      simpa [taprootInterpreter, taproot] using started
    obtain ⟨r, ended⟩ := exists_result_runTaproot curve spend witness
    refine ⟨r, (runTaproot curve spend witness).boundaries, ?_,
      followsRoute_runTaproot taproot ended, ?_, ?_⟩
    · rw [drive_note, ended]
    · intro b shown third
      rcases boundaries_runTaproot_cases curve spend witness with
        early | ⟨leaf, front, authorized, whole, result, -⟩
      · exact (early b shown third).elim
      · obtain ⟨last, atEnd, here, ending⟩ := leaf.exists_getLast? curve spend
        refine ⟨leaf.script, last, revealedScript?_of_authorize authorized, ?_, here, ?_⟩
        · rw [whole, List.getLast?_append, atEnd, Option.some_or]
        · rw [ended] at result
          rw [← result] at ending
          simpa using ending
    · intro n pos
      have ahead : ([] : List Boundary).length < n := pos
      rw [(stopsOnAbort_runTaproot curve spend witness).drive_abortAt ahead, ended]
      simp only [List.length_nil, Nat.zero_add, Nat.sub_zero, List.nil_append]
  · simp [taprootInterpreter, taproot] at started

/-- A spend with a leaf of one instruction, aborted in front of that instruction. -/
theorem drive_abortAt_eq_take_crowdedWitness :
    ∃ run, (taprootInterpreter inertCurve).start onesSpend (crowdedWitness 0) = .ok run ∧
      ∃ bs, run.drive (fun seen b => (.proceed, seen ++ [b])) [] = (some (.ok ()), bs)
        ∧ bs.map Boundary.position = [(0, 0), (1, 0), (1, 1), (1, 2), (2, 0), (2, 1)]
        ∧ run.drive (abortAt 5) [] = (some (.error .aborted), bs.take 5)
        ∧ run.drive (abortAt 7) [] = (some (.ok ()), bs) := by
  have started : (taprootInterpreter inertCurve).start onesSpend (crowdedWitness 0) =
      .ok (runTaproot inertCurve onesSpend (crowdedWitness 0)) := rfl
  obtain ⟨r, bs, noted, follows, -, aborting⟩ := drive_abortAt_eq_take started
  obtain rfl : .ok () = r := by
    rw [drive_note, result_runTaproot_crowdedWitness] at noted
    exact Option.some.inj (Prod.mk.inj noted).1
  have shown : bs.map Boundary.position = [(0, 0), (1, 0), (1, 1), (1, 2), (2, 0), (2, 1)] := by
    have empty : onesSpend.input.scriptSig = [] := rfl
    rw [follows.whole rfl, Spend.route, empty, stations_nil,
      revealedScript?_of_authorize (authorize_crowdedWitness 0), Option.toList_some,
      List.flatMap_singleton, stations, decode_number]
    rfl
  have six : bs.length = 6 := by rw [← List.length_map, shown]; rfl
  refine ⟨_, started, bs, noted, shown, ?_, ?_⟩
  · rw [aborting 5 (by decide), if_pos (by omega)]
  · rw [aborting 7 (by decide), if_neg (by omega)]

end TaprootLab

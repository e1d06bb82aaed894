import TaprootLab.Proofs.Except
import TaprootLab.Proofs.Signing.Histories

/-!
# Witnesses are completed in order

A witness is complete if each of its parts can be made (`Made`); otherwise there is a first part
that cannot be made, and nothing behind it is looked at (`Stops`). One of the two holds of every
witness, and never both, so they say what comes of it, which signatures are asked for and which keys
are gained (`KeyRing.resolves_in_order`).

What a part needs is looked for in a fixed order (`ResolvesPart`), and the spend comes before the
key: without a spend, a key that could be had is neither made nor signed with
(`KeyRing.available_not_asked_moodyRing`).
-/

namespace TaprootLab

variable {σ κ : Type}

/-- Elements for all parts, with the signatures that are asked for. -/
inductive Made (ring : KeyRing σ κ) (keys : List (String × κ)) (spend : Option Spend) :
    List WitnessPart → List Bytes → List (String × Signing κ) → Prop
  | nil : Made ring keys spend [] [] []
  | cons {part : WitnessPart} {parts : List WitnessPart} {element : Bytes} {elements : List Bytes}
      {asked later : List (String × Signing κ)}
      (first : ResolvesPart ring keys spend part (.ok element) asked)
      (rest : Made ring keys spend parts elements later) :
      Made ring keys spend (part :: parts) (element :: elements) (asked ++ later)

/-- The first part that cannot be made, with the signatures that are asked for before it and for
itself. -/
def Stops (ring : KeyRing σ κ) (keys : List (String × κ)) (spend : Option Spend)
    (parts : List WitnessPart) (e : SigningError) (asked : List (String × Signing κ)) : Prop :=
  ∃ before part after elements made failed, parts = before ++ part :: after
    ∧ Made ring keys spend before elements made
    ∧ ResolvesPart ring keys spend part (.error e) failed ∧ asked = made ++ failed

/-- The key of an identifier is held, or can be made: its secret is listed, and empty or the secret
of a key. -/
def KeyRing.Available (ring : KeyRing σ κ) (id : String) : Prop :=
  (∃ key, ring.keys.lookup id = some key) ∨
    ∃ secret, ring.table.get? id = some secret
      ∧ (secret ≠ [] → ∃ key, ring.signer.keyOfBytes secret = .ok key)

variable {ring next : KeyRing σ κ} {keys : List (String × κ)} {spend : Option Spend}
    {part : WitnessPart}
  {parts : List WitnessPart} {asked asked' later : List (String × Signing κ)}

/-! ## The two ends of a witness -/

theorem Made.resolves {elements : List Bytes} (made : Made ring keys spend parts elements asked) :
    Resolves ring keys spend parts (.ok elements) asked := by
  induction made with
  | nil => exact .done
  | cons first _ ih => exact .next first ih

theorem Stops.resolves {e : SigningError} (stops : Stops ring keys spend parts e asked) :
    Resolves ring keys spend parts (.error e) asked := by
  obtain ⟨before, part, after, elements, made, failed, rfl, all, fault, rfl⟩ := stops
  induction all with
  | nil => exact .stop fault
  | cons first _ ih =>
    rw [List.append_assoc]
    exact .next first ih

theorem Stops.cons {element : Bytes} {e : SigningError}
    (first : ResolvesPart ring keys spend part (.ok element) asked)
    (rest : Stops ring keys spend parts e later) :
    Stops ring keys spend (part :: parts) e (asked ++ later) := by
  obtain ⟨before, failing, after, elements, made, failed, rfl, all, fault, rfl⟩ := rest
  exact ⟨part :: before, failing, after, _, _, failed, rfl, .cons first all, fault,
    (List.append_assoc _ _ _).symm⟩

theorem Resolves.made_or_stops {outcome : Except SigningError (List Bytes)}
    (resolves : Resolves ring keys spend parts outcome asked) :
    (∃ elements, outcome = .ok elements ∧ Made ring keys spend parts elements asked)
      ∨ ∃ e, outcome = .error e ∧ Stops ring keys spend parts e asked := by
  induction resolves with
  | done => exact .inl ⟨[], rfl, .nil⟩
  | @stop part parts e asked first =>
      exact .inr ⟨e, rfl, [], part, parts, [], [], asked, rfl, .nil, first, rfl⟩
  | next first _ ih =>
    rcases ih with ⟨elements, rfl, made⟩ | ⟨e, rfl, stops⟩
    · exact .inl ⟨_, rfl, .cons first made⟩
    · exact .inr ⟨e, rfl, stops.cons first⟩

/-! ## Only one of them -/

theorem KeyFault.unique {id : String} {e e' : SigningError} (fault : KeyFault ring id e)
    (fault' : KeyFault ring id e') :
    e = e' := by
  cases fault with
  | unknown _ unlisted =>
    cases fault' with
    | unknown _ _ => rfl
    | invalid _ listed _ _ => cases unlisted.symm.trans listed
  | invalid _ listed _ refused =>
    cases fault' with
    | unknown _ unlisted => cases unlisted.symm.trans listed
    | invalid _ listed' _ refused' =>
      cases listed.symm.trans listed'
      cases refused.symm.trans refused'
      rfl

/-- A key that is held in the end could be had from the beginning. -/
theorem KeyRing.Gains.available {ids : List String} {calls : List (SignerCall κ)} {id : String}
    {key : κ} (gains : ring.Gains next ids calls) (held : next.keys.lookup id = some key) :
    ring.Available id := by
  rcases gains.held_or_listed held with before | ⟨secret, listed, read⟩
  · exact .inl ⟨key, before⟩
  · exact .inr ⟨secret, listed, fun filled => ⟨key, read filled⟩⟩

theorem KeyRing.Available.ne_fault {id : String} {e : SigningError}
    (available : ring.Available id) :
    ¬ KeyFault ring id e := by
  intro fault
  rcases available with ⟨key, held⟩ | ⟨secret, listed, read⟩
  · cases fault with
    | unknown fresh _ => cases fresh.symm.trans held
    | invalid fresh _ _ _ => cases fresh.symm.trans held
  · cases fault with
    | unknown _ unlisted => cases unlisted.symm.trans listed
    | invalid _ listed' filled refused =>
      cases listed.symm.trans listed'
      obtain ⟨key, made⟩ := read filled
      cases refused.symm.trans made

/-- The signatures tell what comes of a part, whatever is asked for behind them. -/
theorem ResolvesPart.unique {outcome outcome' : Except SigningError Bytes}
    {all : List (String × Signing κ)}
    (sound : ∀ id key, keys.lookup id = some key → ring.Available id)
    (h : ResolvesPart ring keys spend part outcome asked)
    (h' : ResolvesPart ring keys spend part outcome' asked') (front : asked <+: all)
    (front' : asked' <+: all) : outcome = outcome' ∧ asked = asked' := by
  have one {s s' : String × Signing κ} (h : [s] <+: all) (h' : [s'] <+: all) : [s] = [s'] :=
    (List.prefix_of_prefix_length_le h h' (Nat.le_refl 1)).eq_of_length rfl
  cases h with
  | literal | empty =>
    cases h'
    exact ⟨rfl, rfl⟩
  | noContext missing =>
    cases h' with
    | noContext _ => exact ⟨rfl, rfl⟩
    | noKey given _ | refused given _ | signed given _ => cases missing.symm.trans given
  | noKey given fault =>
    cases h' with
    | noContext missing => cases missing.symm.trans given
    | noKey _ fault' => exact ⟨congrArg Except.error (fault.unique fault'), rfl⟩
    | refused _ held | signed _ held => exact absurd fault (sound _ _ held).ne_fault
  | refused given held =>
    cases h' with
    | noContext missing => cases missing.symm.trans given
    | noKey _ fault => exact absurd fault (sound _ _ held).ne_fault
    | signed _ _ => cases one front front'
    | refused _ _ =>
      cases one front front'
      exact ⟨rfl, rfl⟩
  | signed given held =>
    cases h' with
    | noContext missing => cases missing.symm.trans given
    | noKey _ fault => exact absurd fault (sound _ _ held).ne_fault
    | refused _ _ => cases one front front'
    | signed _ _ =>
      cases one front front'
      exact ⟨rfl, rfl⟩

theorem Resolves.unique {outcome outcome' : Except SigningError (List Bytes)}
    {all : List (String × Signing κ)}
    (sound : ∀ id key, keys.lookup id = some key → ring.Available id)
    (h : Resolves ring keys spend parts outcome asked)
    (h' : Resolves ring keys spend parts outcome' asked') (front : asked <+: all)
    (front' : asked' <+: all) : outcome = outcome' := by
  induction h generalizing outcome' asked' all with
  | done =>
    cases h'
    rfl
  | stop first =>
    cases h' with
    | stop first' =>
      cases (first.unique sound first' front front').1
      rfl
    | next first' _ =>
        cases (first.unique sound first' front ((List.prefix_append _ _).trans front')).1
  | next first rest ih =>
    cases h' with
    | stop first' =>
        cases (first.unique sound first' ((List.prefix_append _ _).trans front) front').1
    | next first' rest' =>
      obtain ⟨same, rfl⟩ :=
        first.unique sound first' ((List.prefix_append _ _).trans front)
          ((List.prefix_append _ _).trans front')
      cases same
      obtain ⟨behind, rfl⟩ := (List.prefix_append _ _).trans front
      rw [List.prefix_append_right_inj] at front front'
      rw [ih rest' front front']

/-! ## What is asked for -/

/-- A signature is asked for if a spend is there and the key can be had, whatever comes of it. -/
theorem ResolvesPart.mem_asked_iff {outcome : Except SigningError Bytes} {id : String}
    (sound : ∀ id key, keys.lookup id = some key → ring.Available id)
    (h : ResolvesPart ring keys spend part outcome asked) :
    id ∈ asked.map Prod.fst ↔ part = .signature id ∧ spend.isSome ∧ ring.Available id := by
  cases h with
  | literal | empty => exact ⟨nofun, nofun⟩
  | noContext missing =>
    refine ⟨nofun, fun ⟨_, given, _⟩ => ?_⟩
    rw [missing] at given
    cases given
  | noKey given fault =>
    refine ⟨nofun, fun ⟨same, _, available⟩ => ?_⟩
    cases same
    exact absurd fault available.ne_fault
  | refused given held | signed given held =>
    rw [List.map_singleton, List.mem_singleton]
    constructor
    · rintro rfl
      exact ⟨rfl, given ▸ rfl, sound _ _ held⟩
    · rintro ⟨same, -, -⟩
      exact (WitnessPart.signature.inj same).symm

theorem Made.map_asked {elements : List Bytes} (made : Made ring keys spend parts elements asked) :
    asked.map Prod.fst = signaturesWanted parts := by
  induction made with
  | nil => rfl
  | cons first _ ih =>
    rw [List.map_append, ih, SignsFaithfully.wanted_cons]
    cases first <;> rfl

namespace KeyRing

/-- Parts that are no signatures are made without a spend and without keys. -/
theorem exists_elements_of_unsigned (ring : KeyRing σ κ) (unsigned : signaturesWanted parts = []) :
    ∃ elements, ∀ spend, ring.resolve spend parts = (.ok elements, ring) := by
  induction parts with
  | nil => exact ⟨[], fun _ => rfl⟩
  | cons part parts ih =>
    rw [SignsFaithfully.wanted_cons, List.append_eq_nil_iff] at unsigned
    obtain ⟨elements, rest⟩ := ih unsigned.2
    cases part with
    | literal data =>
        exact ⟨_, fun spend => resolve_cons_eq_ok.mpr ⟨data, elements, ring, rfl, rest spend, rfl⟩⟩
    | empty =>
        exact ⟨_, fun spend => resolve_cons_eq_ok.mpr ⟨[], elements, ring, rfl, rest spend, rfl⟩⟩
    | signature id => cases unsigned.1

/-- **Witnesses are completed in order.** Completing a witness gives its elements if and only if all
of its parts are made, and an error if and only if it is that of the first part that cannot be made.
The signer is asked for the signatures of the parts that are made, and for that of the part that
cannot be made if a spend is there and its key can be had; the ring gains the keys of these
signatures. A witness without signatures needs neither a spend nor a key. -/
theorem resolves_in_order (ring : KeyRing σ κ) (spend : Option Spend) (parts : List WitnessPart) :
    let outcome := (ring.resolve spend parts).1
    let next := (ring.resolve spend parts).2
    (∃ calls asked, (ring.recorded []).resolve spend parts = (outcome, next.recorded calls)
        ∧ ring.Asks next asked calls
        ∧ (∀ elements, outcome = .ok elements ↔ Made ring next.keys spend parts elements asked)
        ∧ ∀ e, outcome = .error e ↔ Stops ring next.keys spend parts e asked)
      ∧ (∀ before elements made, Made ring next.keys spend before elements made →
          made.map Prod.fst = signaturesWanted before)
      ∧ (∀ part e failed, ResolvesPart ring next.keys spend part (.error e) failed →
        failed.length ≤ 1
          ∧ ∀ id, id ∈ failed.map Prod.fst ↔
            part = .signature id ∧ spend.isSome ∧ ring.Available id)
      ∧ (signaturesWanted parts = [] →
        ∃ elements, ∀ spend', ring.resolve spend' parts = (.ok elements, ring)) := by
  obtain ⟨calls, asked, made, asks, resolves⟩ := ring.exists_calls_resolve [] spend parts
  have sound (id : String) (key : κ) : (ring.resolve spend parts).2.keys.lookup id = some key →
      ring.Available id :=
    asks.gains.available
  have only {outcome : Except SigningError (List Bytes)}
      (other : Resolves ring (ring.resolve spend parts).2.keys spend parts outcome asked) :
      (ring.resolve spend parts).1 = outcome :=
    resolves.unique sound other List.prefix_rfl List.prefix_rfl
  have total : (∃ elements, Made ring (ring.resolve spend parts).2.keys spend parts elements asked)
      ∨ ∃ e, Stops ring (ring.resolve spend parts).2.keys spend parts e asked := by
    rcases resolves.made_or_stops with ⟨elements, -, all⟩ | ⟨e, -, stops⟩
    · exact .inl ⟨elements, all⟩
    · exact .inr ⟨e, stops⟩
  have decided :=
    Except.eq_iff_of_total (fun _ all => only (Made.resolves all))
      (fun _ stops => only (Stops.resolves stops))
    total
  refine ⟨⟨calls, asked, made, asks, decided.1, decided.2⟩, fun _ _ _ all => all.map_asked,
    fun part e failed fault => ⟨?_, fun id => fault.mem_asked_iff sound⟩,
    ring.exists_elements_of_unsigned⟩
  cases fault with
  | noContext _ | noKey _ _ => exact Nat.zero_le 1
  | refused _ _ => exact Nat.le_refl 1

/-- Without a spend, a key that can be had is neither made nor signed with. -/
theorem available_not_asked_moodyRing :
    (moodyRing 0).Available "alice"
      ∧ ((moodyRing 0).recorded []).resolve none [.signature "alice"]
          = (.error (.noContext "alice"), (moodyRing 0).recorded [])
      ∧ (moodyRing 0).keys.lookup "alice" = none :=
  ⟨.inr ⟨[], rfl, absurd rfl⟩, rfl, rfl⟩

end KeyRing

end TaprootLab

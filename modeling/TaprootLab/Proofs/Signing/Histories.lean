import TaprootLab.Proofs.Signing.Recording

/-!
# Keys are made once

A key ring is asked for keys and for whole witnesses, in any order, and any of these requests may
fail, a witness even after some of its signatures are made. All the same the ring never changes its
mind about a key (`keys_made_once`): a key that it holds stays, its signer was asked to generate as
many keys as there are identifiers with an empty secret among those it holds, and whatever it ever
signed for an identifier was signed with the key that it holds for it.

A record of all calls that a signer is asked for at one request is a `Consultation`; what they have
to do with the keys is stated as an invariant of the ring (`Inventory`) and of each consultation
(`Consultation.Faithful`).
-/

namespace TaprootLab

variable {σ κ : Type}

/-! ## Requests -/

/-- What a key ring is asked for. -/
inductive RingRequest where
  | key (id : String)
  | witness (spend : Option Spend) (parts : List WitnessPart)

inductive RingReply (κ : Type) where
  | key (id : String) (result : Except SigningError κ)
  | witness (spend : Option Spend) (parts : List WitnessPart)
      (result : Except SigningError (List Bytes))

/-- A request with its reply, and the calls of the signer in between. -/
structure Consultation (κ : Type) where
  reply : RingReply κ
  calls : List (SignerCall κ)

namespace KeyRing

def serve (ring : KeyRing σ κ) : RingRequest → RingReply κ × KeyRing σ κ
  | .key id => (.key id (ring.key id).1, (ring.key id).2)
  | .witness spend parts =>
      (.witness spend parts (ring.resolve spend parts).1, (ring.resolve spend parts).2)

def after (ring : KeyRing σ κ) : List RingRequest → KeyRing σ κ
  | [] => ring
  | request :: requests => (ring.serve request).2.after requests

def replies (ring : KeyRing σ κ) : List RingRequest → List (RingReply κ)
  | [] => []
  | request :: requests => (ring.serve request).1 :: (ring.serve request).2.replies requests

/-- What happens at each of some requests to a ring whose signer takes down its calls. -/
def consult (ring : KeyRing (σ × List (SignerCall κ)) κ) : List RingRequest → List (Consultation κ)
  | [] => []
  | request :: requests =>
    let (reply, next) := { ring with state := (ring.state.1, []) }.serve request
    ⟨reply, next.state.2⟩ :: next.consult requests

end KeyRing

/-! ## What is to be shown of them -/

/-- The identifiers that a witness is to be signed for, in order. -/
def signaturesWanted (parts : List WitnessPart) : List String :=
  parts.filterMap fun
    | .signature id => some id
    | _ => none

/-- The signatures among the elements of a witness, with their identifiers. -/
def signaturesMade (parts : List WitnessPart) (elements : List Bytes) : List (String × Bytes) :=
  (parts.zip elements).filterMap fun
    | (.signature id, element) => some (id, element)
    | _ => none

/-- The signatures that were asked for while a witness was completed are for the first of its
identifiers, one after the other, each with the key that is held for it; if the witness is complete,
they are its signatures. -/
structure SignsFaithfully (keys : List (String × κ)) (spend : Option Spend)
    (parts : List WitnessPart) (answer : Except SigningError (List Bytes))
    (signings : List (Signing κ)) : Prop where
  asked : ∃ ids, ids <+: signaturesWanted parts
    ∧ List.Forall₂ (fun id s => keys.lookup id = some s.key ∧ spend = some s.spend) ids signings
  made : ∀ elements, answer = .ok elements → elements.length = parts.length
    ∧ List.Forall₂ (fun made s => keys.lookup made.1 = some s.key ∧ s.answer = .ok made.2)
        (signaturesMade parts elements) signings

namespace Consultation

def signings (c : Consultation κ) : List (Signing κ) := c.calls.filterMap SignerCall.signing?

/-- A key that was given out is held, and signatures were made with keys that are held. -/
def Faithful (keys : List (String × κ)) (c : Consultation κ) : Prop :=
  match c.reply with
  | .key id result => (∀ key, result = .ok key → keys.lookup id = some key) ∧ c.signings = []
  | .witness spend parts result => SignsFaithfully keys spend parts result c.signings

end Consultation

/-! ## Faithful signatures -/

namespace SignsFaithfully

variable {keys more : List (String × κ)} {spend : Option Spend} {part : WitnessPart}
    {parts : List WitnessPart}
  {answer : Except SigningError (List Bytes)} {signings others : List (Signing κ)}

theorem wanted_cons (part : WitnessPart) (parts : List WitnessPart) :
    signaturesWanted (part :: parts) = signaturesWanted [part] ++ signaturesWanted parts := by
  rw [signaturesWanted, signaturesWanted, signaturesWanted, ← List.filterMap_append,
    List.singleton_append]

theorem made_cons (part : WitnessPart) (parts : List WitnessPart) (element : Bytes)
    (elements : List Bytes) :
    signaturesMade (part :: parts) (element :: elements)
      = signaturesMade [part] [element] ++ signaturesMade parts elements := by
  rw [signaturesMade, signaturesMade, signaturesMade, ← List.filterMap_append]
  rfl

theorem nil (keys : List (String × κ)) (spend : Option Spend) :
    SignsFaithfully keys spend [] (.ok []) [] := by
  refine ⟨⟨[], List.nil_prefix, .nil⟩, fun elements done => ?_⟩
  cases done
  exact ⟨rfl, .nil⟩

/-- Of a witness that is not complete, only what was asked for is claimed. -/
theorem of_error {e : SigningError}
    (asked : ∃ ids, ids <+: signaturesWanted parts
      ∧ List.Forall₂ (fun id s => keys.lookup id = some s.key
        ∧ spend = some s.spend) ids signings) :
    SignsFaithfully keys spend parts (.error e) signings := by
  refine ⟨asked, fun elements done => ?_⟩
  cases done

/-- Keys that are gained later are no keys that were used before. -/
theorem mono (held : ∀ id key, keys.lookup id = some key → more.lookup id = some key)
    (h : SignsFaithfully keys spend parts answer signings) :
    SignsFaithfully more spend parts answer signings := by
  obtain ⟨ids, first, asked⟩ := h.asked
  refine ⟨⟨ids, first, asked.imp fun _ _ s => ⟨held _ _ s.1, s.2⟩⟩, fun elements done => ?_⟩
  obtain ⟨length, made⟩ := h.made elements done
  exact ⟨length, made.imp fun _ _ s => ⟨held _ _ s.1, s.2⟩⟩

/-- A part that is not made ends the witness. -/
theorem stop {e : SigningError} (h : SignsFaithfully keys spend [part] (.error e) signings) :
    SignsFaithfully keys spend (part :: parts) (.error e) signings := by
  obtain ⟨ids, first, asked⟩ := h.asked
  refine .of_error ⟨ids, ?_, asked⟩
  rw [wanted_cons]
  exact first.trans (List.prefix_append _ _)

theorem cons {element : Bytes} (first : SignsFaithfully keys spend [part] (.ok [element]) signings)
    (rest : SignsFaithfully keys spend parts answer others) :
    SignsFaithfully keys spend (part :: parts) (answer.map (element :: ·))
      (signings ++ others) := by
  obtain ⟨-, madeFirst⟩ := first.made [element] rfl
  refine ⟨?_, fun elements done => ?_⟩
  · obtain ⟨ids, front, asked⟩ := first.asked
    obtain ⟨ids', front', asked'⟩ := rest.asked
    -- the part is made, so its signature is there if it is one
    have all : ids.length = (signaturesWanted [part]).length := by
      rw [asked.length_eq, ← madeFirst.length_eq]
      cases part <;> rfl
    obtain rfl : ids = signaturesWanted [part] := front.eq_of_length all
    rw [wanted_cons]
    exact ⟨_, (List.prefix_append_right_inj _).mpr front', List.rel_append asked asked'⟩
  · cases answer with
    | error e => cases done
    | ok elements =>
      cases done
      obtain ⟨length, madeRest⟩ := rest.made elements rfl
      rw [made_cons]
      exact ⟨congrArg Nat.succ length, List.rel_append madeFirst madeRest⟩

end SignsFaithfully

theorem Consultation.Faithful.mono {keys more : List (String × κ)} {c : Consultation κ}
    (held : ∀ id key, keys.lookup id = some key → more.lookup id = some key) (h : c.Faithful keys) :
    c.Faithful more := by
  obtain ⟨reply, calls⟩ := c
  cases reply with
  | key id result => exact ⟨fun key given => held _ _ (h.1 key given), h.2⟩
  | witness spend parts result => exact SignsFaithfully.mono held h

/-! ## Signatures that were asked for -/

section
variable {ring : KeyRing σ κ} {keys : List (String × κ)} {spend : Option Spend} {part : WitnessPart}
  {parts : List WitnessPart} {asked : List (String × Signing κ)}

theorem ResolvesPart.signsFaithfully {outcome : Except SigningError Bytes}
    (h : ResolvesPart ring keys spend part outcome asked) :
    SignsFaithfully keys spend [part] (outcome.map ([·])) (asked.map Prod.snd) := by
  cases h with
  | noContext _ | noKey _ _ => exact .of_error ⟨[], List.nil_prefix, .nil⟩
  | refused given held => exact .of_error ⟨[_], List.prefix_rfl, .cons ⟨held, given⟩ .nil⟩
  | literal | empty =>
    refine ⟨⟨[], List.nil_prefix, .nil⟩, fun elements done => ?_⟩
    cases done
    exact ⟨rfl, .nil⟩
  | signed given held =>
    refine ⟨⟨[_], List.prefix_rfl, .cons ⟨held, given⟩ .nil⟩, fun elements done => ?_⟩
    cases done
    exact ⟨rfl, .cons ⟨held, rfl⟩ .nil⟩

theorem Resolves.signsFaithfully {outcome : Except SigningError (List Bytes)}
    (h : Resolves ring keys spend parts outcome asked) :
    SignsFaithfully keys spend parts outcome (asked.map Prod.snd) := by
  induction h with
  | done => exact .nil keys spend
  | stop first => exact first.signsFaithfully.stop
  | next first _ ih =>
    rw [List.map_append]
    exact first.signsFaithfully.cons ih

end

/-! ## Keys -/

namespace KeyRing

/-- A ring that becomes another one by some calls of its signer still has its inventory. -/
def KeepsInventory (ring : KeyRing σ κ) (calls : List (SignerCall κ)) (next : KeyRing σ κ) : Prop :=
  ∀ generated, Inventory ring.signer ring.table ring.keys generated →
    Inventory next.signer next.table next.keys (generated ++ calls.filterMap SignerCall.generated?)

variable {ring next last : KeyRing σ κ} {calls later : List (SignerCall κ)}

theorem KeepsInventory.refl (ring : KeyRing σ κ) : ring.KeepsInventory [] ring := by
  intro generated inventory
  rwa [List.filterMap_nil, List.append_nil]

theorem KeepsInventory.trans (h : ring.KeepsInventory calls next)
    (h' : next.KeepsInventory later last) :
    ring.KeepsInventory (calls ++ later) last := by
  intro generated inventory
  rw [List.filterMap_append, ← List.append_assoc]
  exact h' _ (h _ inventory)

theorem Gains.keepsInventory {ids : List String} (gains : ring.Gains next ids calls) :
    ring.KeepsInventory calls next := by
  intro generated inventory
  obtain ⟨added, keys, behind, exactly⟩ := gains.keys
  rw [gains.signer, gains.table, ← keys]
  exact inventory.append behind fun id mem => ((exactly id).mp mem).1

/-! ## Requests in a row -/

theorem extends_serve (ring : KeyRing σ κ) (request : RingRequest) :
    (ring.serve request).2.Extends ring := by
  cases request with
  | key id => exact ring.extends_key id
  | witness spend parts => exact ring.extends_resolve spend parts

theorem extends_after (ring : KeyRing σ κ) (requests : List RingRequest) :
    (ring.after requests).Extends ring := by
  induction requests generalizing ring with
  | nil => exact .refl ring
  | cons request requests ih => exact (ih _).trans (ring.extends_serve request)

theorem after_append (ring : KeyRing σ κ) (before later : List RingRequest) :
    ring.after (before ++ later) = (ring.after before).after later := by
  induction before generalizing ring with
  | nil => rfl
  | cons request before ih => exact ih _

/-- **One request.** Taking down the calls of the signer changes neither the reply nor the ring, and
the calls are faithful to the keys that are held afterwards. -/
theorem exists_calls_serve (ring : KeyRing σ κ) (request : RingRequest) :
    ∃ calls, (ring.recorded []).serve request
          = ((ring.serve request).1, (ring.serve request).2.recorded calls)
      ∧ ring.KeepsInventory calls (ring.serve request).2
      ∧ Consultation.Faithful (ring.serve request).2.keys ⟨(ring.serve request).1, calls⟩ := by
  cases request with
  | key id =>
    obtain ⟨calls, asked, quiet, found⟩ := ring.exists_calls_key [] id
    have inventory : ring.KeepsInventory calls (ring.key id).2 := by
      rcases found with ⟨key, -, gains⟩ | ⟨e, -, -, gains⟩
      · exact gains.keepsInventory
      · exact gains.keepsInventory
    refine ⟨calls, ?_, inventory, fun key given => lookup_of_key (Prod.ext given rfl), quiet⟩
    simp only [serve, asked]
    rfl
  | witness spend parts =>
    obtain ⟨calls, asked, made, asks, resolves⟩ := ring.exists_calls_resolve [] spend parts
    have signs := resolves.signsFaithfully
    rw [← asks.signings] at signs
    refine ⟨calls, ?_, asks.gains.keepsInventory, signs⟩
    simp only [serve, made]
    rfl

theorem consult_recorded (ring : KeyRing σ κ) (log : List (SignerCall κ))
    (requests : List RingRequest) :
    ((ring.recorded log).consult requests).map Consultation.reply = ring.replies requests
      ∧ ring.KeepsInventory (((ring.recorded log).consult requests).flatMap Consultation.calls)
          (ring.after requests)
      ∧ ∀ c ∈ (ring.recorded log).consult requests, c.Faithful (ring.after requests).keys := by
  induction requests generalizing ring log with
  | nil => exact ⟨rfl, .refl ring, nofun⟩
  | cons request requests ih =>
    obtain ⟨calls, served, inventory, faithful⟩ := ring.exists_calls_serve request
    have unfolded : (ring.recorded log).consult (request :: requests)
        = ⟨(ring.serve request).1, calls⟩ ::
          ((ring.serve request).2.recorded calls).consult requests := by
      have cleared : { ring.recorded log with state := ((ring.recorded log).state.1, []) }
          = ring.recorded [] := rfl
      rw [consult, cleared, served]
      rfl
    obtain ⟨answered, inventory', faithful'⟩ := ih (ring.serve request).2 calls
    have gained := (ring.serve request).2.extends_after requests
    rw [unfolded]
    refine ⟨?_, ?_, ?_⟩
    · rw [List.map_cons, answered]
      rfl
    · rw [List.flatMap_cons]
      exact inventory.trans inventory'
    · exact List.forall_mem_cons.mpr ⟨.mono (fun _ _ => gained.lookup) faithful, faithful'⟩

end KeyRing

/-- **Keys are made once.** Ask a new ring for keys and witnesses in any order, whether or not it
can answer. A key that it holds at some time it holds ever after; each identifier that it holds a
key for is in the table; its signer generated one key for each of them whose secret is empty, and no
other; the key of any other is read from its secret. All keys that it gave out and all signatures
that were ever asked for an identifier, also for a witness that failed later, are of the key that it
holds. -/
theorem keys_made_once (signer : Signer σ κ) (state : σ) (table : SecretTable)
    (requests : List RingRequest) :
    let ring := (KeyRing.of signer state table).after requests
    let consultations := (KeyRing.of signer.recording (state, []) table).consult requests
    consultations.map Consultation.reply = (KeyRing.of signer state table).replies requests
      ∧ (∀ before later, before ++ later = requests → ∀ id key,
          ((KeyRing.of signer state table).after before).keys.lookup id = some key →
            ring.keys.lookup id = some key)
      ∧ Inventory signer table ring.keys
          ((consultations.flatMap Consultation.calls).filterMap SignerCall.generated?)
      ∧ ∀ c ∈ consultations, c.Faithful ring.keys := by
  have start : KeyRing.of signer.recording (state, []) table =
      (KeyRing.of signer state table).recorded [] := rfl
  obtain ⟨replies, inventory, faithful⟩ :=
    (KeyRing.of signer state table).consult_recorded [] requests
  have same := (KeyRing.of signer state table).extends_after requests
  refine ⟨replies, ?_, ?_, faithful⟩
  · rintro before later rfl id key found
    rw [KeyRing.after_append]
    exact (KeyRing.extends_after _ later).lookup found
  · have held := inventory [] (inventory_nil signer table)
    rwa [same.signer, same.table, List.nil_append] at held

end TaprootLab

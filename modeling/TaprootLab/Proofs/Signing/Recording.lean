import TaprootLab.Proofs.Signing.Determinism

/-!
# What a key ring asks of its signer

What a signer is asked to do cannot be read off its answers. So the calls are taken down by the
signer itself: `Signer.recording` is a signer that does what another one does and keeps a list of
its calls, and a ring with such a signer cannot be told from one without. All that happens while a
witness is completed is then one statement (`KeyRing.exists_calls_resolve`), put together from what
happens at each of its parts.

It has two sides. The parts and what comes of them are related to the signatures that were asked
for, each with the identifier that it was for (`Resolves`); the relation knows of no ring in
between, only of the one before and of the keys that are held in the end. And the ring gains the
keys of just these identifiers (`KeyRing.Gains`).
-/

namespace TaprootLab

variable {σ κ : Type}

/-! ## Signers that take down their calls -/

/-- A signature as it was asked for, with what came of it. -/
structure Signing (κ : Type) where
  key : κ
  spend : Spend
  answer : Except String Bytes

/-- A call of a signer. Reading a secret is no call: it is a function of the secret. -/
inductive SignerCall (κ : Type) where
  | generated (key : κ)
  | signed (signing : Signing κ)

namespace SignerCall

def generated? : SignerCall κ → Option κ
  | .generated key => some key
  | .signed _ => none

def signing? : SignerCall κ → Option (Signing κ)
  | .generated _ => none
  | .signed signing => some signing

end SignerCall

/-- The same signer, with a list of its calls beside what it remembers. -/
def Signer.recording (signer : Signer σ κ) : Signer (σ × List (SignerCall κ)) κ where
  keyOfBytes := signer.keyOfBytes
  generate := fun (state, log) =>
    let (key, state) := signer.generate state
    (key, state, log ++ [.generated key])
  publicKeyHex := signer.publicKeyHex
  sign key spend := fun (state, log) =>
    let (answer, state) := signer.sign key spend state
    (answer, state, log ++ [.signed ⟨key, spend, answer⟩])

/-- The ring with a signer that takes down its calls, behind those of a log. -/
def KeyRing.recorded (ring : KeyRing σ κ) (log : List (SignerCall κ)) :
    KeyRing (σ × List (SignerCall κ)) κ :=
  ⟨ring.signer.recording, (ring.state, log), ring.table, ring.keys⟩

/-! ## Keys that are gained -/

/-- The keys that are held come from the secrets of a table, once each, and those of empty secrets
are the generated ones. -/
structure Inventory (signer : Signer σ κ) (table : SecretTable) (keys : List (String × κ))
    (generated : List κ) : Prop where
  distinct : (keys.map Prod.fst).Nodup
  listed : ∀ id key, (id, key) ∈ keys → ∃ secret, table.get? id = some secret
    ∧ (secret ≠ [] → signer.keyOfBytes secret = .ok key)
  generated : generated = (keys.filter fun held => table.get? held.1 = some []).map Prod.snd

/-- A ring becomes another one by some calls of its signer, and gains the keys of those of some
identifiers that it does not hold. -/
structure KeyRing.Gains (ring next : KeyRing σ κ) (ids : List String)
    (calls : List (SignerCall κ)) : Prop where
  signer : next.signer = ring.signer
  table : next.table = ring.table
  keys : ∃ added, ring.keys ++ added = next.keys
    ∧ Inventory ring.signer ring.table added (calls.filterMap SignerCall.generated?)
    ∧ ∀ id, id ∈ added.map Prod.fst ↔ ring.keys.lookup id = none ∧ id ∈ ids

/-- A ring becomes another one by some calls of its signer, which are for signatures, each with the
identifier that it is for, and for the keys of these. -/
structure KeyRing.Asks (ring next : KeyRing σ κ) (asked : List (String × Signing κ))
    (calls : List (SignerCall κ)) :
    Prop where
  signings : calls.filterMap SignerCall.signing? = asked.map Prod.snd
  gains : ring.Gains next (asked.map Prod.fst) calls

/-! ## Parts and what comes of them -/

/-- Why a ring has no key for an identifier. -/
inductive KeyFault (ring : KeyRing σ κ) (id : String) : SigningError → Prop
  | unknown (fresh : ring.keys.lookup id = none) (unlisted : ring.table.get? id = none) :
      KeyFault ring id (.unknownKey id)
  | invalid {secret : Bytes} {reason : String} (fresh : ring.keys.lookup id = none)
      (listed : ring.table.get? id = some secret) (filled : secret ≠ [])
      (refused : ring.signer.keyOfBytes secret = .error reason) :
      KeyFault ring id (.invalidKey id reason)

/-- What comes of a part, with the signature that is asked for. A spend is looked for first, then
the key; the signer is asked when both are there. -/
inductive ResolvesPart (ring : KeyRing σ κ) (keys : List (String × κ)) (spend : Option Spend) :
    WitnessPart → Except SigningError Bytes → List (String × Signing κ) → Prop
  | literal {data : Bytes} : ResolvesPart ring keys spend (.literal data) (.ok data) []
  | empty : ResolvesPart ring keys spend .empty (.ok []) []
  | noContext {id : String} (missing : spend = none) :
      ResolvesPart ring keys spend (.signature id) (.error (.noContext id)) []
  | noKey {id : String} {context : Spend} {e : SigningError} (given : spend = some context)
      (fault : KeyFault ring id e) :
      ResolvesPart ring keys spend (.signature id) (.error e) []
  | refused {id : String} {key : κ} {context : Spend} {reason : String}
      (given : spend = some context) (held : keys.lookup id = some key) :
      ResolvesPart ring keys spend (.signature id)
        (.error (.sign id reason)) [(id, ⟨key, context, .error reason⟩)]
  | signed {id : String} {key : κ} {context : Spend} {element : Bytes}
      (given : spend = some context) (held : keys.lookup id = some key) :
      ResolvesPart ring keys spend (.signature id) (.ok element) [(id, ⟨key, context, .ok element⟩)]

/-- What comes of parts that are made one after the other, up to the first that fails. -/
inductive Resolves (ring : KeyRing σ κ) (keys : List (String × κ)) (spend : Option Spend) :
    List WitnessPart → Except SigningError (List Bytes) → List (String × Signing κ) → Prop
  | done : Resolves ring keys spend [] (.ok []) []
  | stop {part : WitnessPart} {parts : List WitnessPart} {e : SigningError}
      {asked : List (String × Signing κ)}
      (first : ResolvesPart ring keys spend part (.error e) asked) :
      Resolves ring keys spend (part :: parts) (.error e) asked
  | next {part : WitnessPart} {parts : List WitnessPart} {element : Bytes}
      {outcome : Except SigningError (List Bytes)} {asked later : List (String × Signing κ)}
      (first : ResolvesPart ring keys spend part (.ok element) asked)
      (rest : Resolves ring keys spend parts outcome later) :
      Resolves ring keys spend (part :: parts) (outcome.map (element :: ·)) (asked ++ later)

/-! ## Inventories -/

section
variable {signer : Signer σ κ} {table : SecretTable} {keys added : List (String × κ)}
    {generated more : List κ}
  {id : String} {key : κ}

theorem lookup_eq_none_iff_notMem : keys.lookup id = none ↔ id ∉ keys.map Prod.fst := by
  rw [List.lookup_eq_none_iff, List.mem_map]
  constructor
  · rintro absent ⟨entry, mem, rfl⟩
    exact bne_iff_ne.mp (absent entry mem) rfl
  · exact fun absent entry mem => bne_iff_ne.mpr fun same => absent ⟨entry, mem, same.symm⟩

theorem inventory_nil (signer : Signer σ κ) (table : SecretTable) : Inventory signer table [] [] :=
  ⟨List.nodup_nil, nofun, rfl⟩

/-- A key that was generated for an empty secret, or read from another. -/
theorem inventory_singleton {secret : Bytes} (listed : table.get? id = some secret)
    (read : secret ≠ [] → signer.keyOfBytes secret = .ok key) :
    Inventory signer table [(id, key)] (if secret = [] then [key] else []) := by
  refine ⟨List.pairwise_singleton _ _, fun id' key' mem => ?_, ?_⟩
  · obtain ⟨rfl, rfl⟩ := Prod.mk.inj (List.mem_singleton.mp mem)
    exact ⟨secret, listed, read⟩
  · by_cases empty : secret = []
    · simp [empty, listed]
    · simp [empty, listed]

/-- Keys may be put behind others that are for other identifiers. -/
theorem Inventory.append (inventory : Inventory signer table keys generated)
    (behind : Inventory signer table added more)
    (fresh : ∀ id ∈ added.map Prod.fst, keys.lookup id = none) :
    Inventory signer table (keys ++ added) (generated ++ more) := by
  refine ⟨?_, fun id key mem => ?_, ?_⟩
  · rw [List.map_append, List.nodup_append]
    refine ⟨inventory.distinct, behind.distinct, fun held old new mem same => ?_⟩
    exact lookup_eq_none_iff_notMem.mp (fresh new mem) (same ▸ old)
  · rcases List.mem_append.mp mem with mem | mem
    · exact inventory.listed id key mem
    · exact behind.listed id key mem
  · rw [List.filter_append, List.map_append, ← inventory.generated, ← behind.generated]

end

namespace KeyRing

variable {ring next last : KeyRing σ κ} {ids others : List String}
    {calls later : List (SignerCall κ)} {id : String}
  {key : κ}

/-! ## Gaining keys -/

/-- Nothing is gained from identifiers that are held. -/
theorem gains_of_held (held : ∀ id ∈ ids, ∃ key, ring.keys.lookup id = some key) :
    ring.Gains ring ids [] := by
  refine ⟨rfl, rfl, [], List.append_nil _, inventory_nil _ _, fun id => ⟨nofun, ?_⟩⟩
  rintro ⟨fresh, mem⟩
  obtain ⟨key, found⟩ := held id mem
  rw [fresh] at found
  cases found

theorem gains_nothing (ring : KeyRing σ κ) : ring.Gains ring [] [] := gains_of_held nofun

/-- A key is made from its secret. -/
theorem gains_keep {state : σ} {secret : Bytes} (fresh : ring.keys.lookup id = none)
    (listed : ring.table.get? id = some secret)
    (read : secret ≠ [] → ring.signer.keyOfBytes secret = .ok key)
    (generated : calls.filterMap SignerCall.generated? = if secret = [] then [key] else []) :
    ring.Gains ({ ring with state }.keep id key) [id] calls := by
  refine ⟨rfl, rfl, [(id, key)], rfl, generated ▸ inventory_singleton listed read, fun id' => ?_⟩
  rw [List.map_singleton, List.mem_singleton]
  constructor
  · rintro rfl
    exact ⟨fresh, rfl⟩
  · exact And.right

theorem Gains.extends (gains : ring.Gains next ids calls) : next.Extends ring := by
  obtain ⟨added, keys, -⟩ := gains.keys
  exact ⟨gains.signer, gains.table, added, keys⟩

theorem Gains.trans (gains : ring.Gains next ids calls) (gains' : next.Gains last others later) :
    ring.Gains last (ids ++ others) (calls ++ later) := by
  obtain ⟨added, keys, inventory, exactly⟩ := gains.keys
  obtain ⟨added', keys', inventory', exactly'⟩ := gains'.keys
  -- what the second ring lacks, the first one lacks and has not gained
  have lacks (id : String) : next.keys.lookup id = none ↔
      ring.keys.lookup id = none ∧ added.lookup id = none := by
    rw [← keys, List.lookup_append, Option.or_eq_none_iff]
  rw [gains.signer, gains.table] at inventory'
  refine ⟨gains'.signer.trans gains.signer, gains'.table.trans gains.table, added ++ added', ?_,
    ?_, fun id => ?_⟩
  · rw [← List.append_assoc, keys, keys']
  · rw [List.filterMap_append]
    exact inventory.append inventory' fun id mem => ((lacks id).mp ((exactly' id).mp mem).1).2
  · rw [List.map_append, List.mem_append, List.mem_append, exactly, exactly', lacks,
      lookup_eq_none_iff_notMem, lookup_eq_none_iff_notMem, exactly, lookup_eq_none_iff_notMem]
    tauto

/-- A key that is held in the end was held before, or is made from a secret. -/
theorem Gains.held_or_listed (gains : ring.Gains next ids calls)
    (held : next.keys.lookup id = some key) :
    ring.keys.lookup id = some key ∨ ∃ secret, ring.table.get? id = some secret
      ∧ (secret ≠ [] → ring.signer.keyOfBytes secret = .ok key) := by
  obtain ⟨added, keys, inventory, -⟩ := gains.keys
  rw [← keys, List.lookup_append] at held
  rcases Option.or_eq_some_iff.mp held with before | ⟨-, new⟩
  · exact .inl before
  · obtain ⟨front, back, rfl, -⟩ := List.lookup_eq_some_iff.mp new
    exact .inr (inventory.listed id key (List.mem_append_right _ List.mem_cons_self))

/-- A signature takes no key. -/
theorem Gains.sign (gains : ring.Gains next ids calls) (state : σ) (signing : Signing κ) :
    ring.Gains { next with state } ids (calls ++ [.signed signing]) := by
  obtain ⟨added, keys, inventory, exactly⟩ := gains.keys
  refine ⟨gains.signer, gains.table, added, keys, ?_, exactly⟩
  rw [List.filterMap_append]
  exact (List.append_nil _).symm ▸ inventory

/-! ## A key -/

/-- A key is asked for: at most one is generated, and nothing is signed. -/
theorem exists_calls_key (ring : KeyRing σ κ) (log : List (SignerCall κ)) (id : String) :
    ∃ calls, (ring.recorded log).key id = ((ring.key id).1, (ring.key id).2.recorded (log ++ calls))
      ∧ calls.filterMap SignerCall.signing? = []
      ∧ ((∃ key, (ring.key id).1 = .ok key ∧ ring.Gains (ring.key id).2 [id] calls)
        ∨ ∃ e, (ring.key id).1 = .error e ∧ KeyFault ring id e
          ∧ ring.Gains (ring.key id).2 [] calls) := by
  have same : (ring.recorded log).keys = ring.keys
      ∧ (ring.recorded log).table = ring.table := ⟨rfl, rfl⟩
  unfold KeyRing.key
  rw [same.1, same.2]
  have nothing : ring.recorded log = ring.recorded (log ++ []) := by rw [List.append_nil]
  cases found : ring.keys.lookup id with
  | some key =>
    have held : ∀ id' ∈ [id], ∃ key, ring.keys.lookup id' = some key :=
      List.forall_mem_singleton.mpr ⟨key, found⟩
    exact ⟨[], Prod.ext rfl nothing, rfl, .inl ⟨key, rfl, gains_of_held held⟩⟩
  | none =>
    cases listed : ring.table.get? id with
    | none => exact ⟨[], Prod.ext rfl nothing, rfl,
        .inr ⟨_, rfl, .unknown found listed, gains_nothing ring⟩⟩
    | some secret =>
      cases secret with
      | nil =>
        exact ⟨[.generated (ring.signer.generate ring.state).1], rfl, rfl,
          .inl ⟨_, rfl, gains_keep found listed (absurd rfl) rfl⟩⟩
      | cons b secret =>
        have reader : (ring.recorded log).signer.keyOfBytes = ring.signer.keyOfBytes := rfl
        dsimp only
        rw [reader]
        cases read : ring.signer.keyOfBytes (b :: secret) with
        | error reason =>
          have fault := KeyFault.invalid found listed (List.cons_ne_nil _ _) read
          exact ⟨[], Prod.ext rfl nothing, rfl, .inr ⟨_, rfl, fault, gains_nothing ring⟩⟩
        | ok key =>
          exact ⟨[], Prod.ext rfl (congrArg (·.keep id key) nothing), rfl,
            .inl ⟨key, rfl, gains_keep found listed (fun _ => read) rfl⟩⟩

/-! ## A part -/

variable {asked others : List (String × Signing κ)} {spend : Option Spend} {part : WitnessPart}
    {parts : List WitnessPart}

theorem asks_nothing (ring : KeyRing σ κ) : ring.Asks ring [] [] := ⟨rfl, gains_nothing ring⟩

theorem Asks.trans (asks : ring.Asks next asked calls) (asks' : next.Asks last others later) :
    ring.Asks last (asked ++ others) (calls ++ later) := by
  refine ⟨?_, ?_⟩
  · rw [List.filterMap_append, List.map_append, asks.signings, asks'.signings]
  · rw [List.map_append]
    exact asks.gains.trans asks'.gains

theorem sign_recorded (log : List (SignerCall κ)) {key : κ} {spend : Spend}
    {answer : Except String Bytes} {state : σ}
    (signed : ring.signer.sign key spend ring.state = (answer, state)) :
    (ring.recorded log).signer.sign key spend (ring.recorded log).state
      = (answer, state, log ++ [.signed ⟨key, spend, answer⟩]) := by
  simp only [recorded, Signer.recording, signed]

/-- A signature is asked for after its key, and only if there is one. -/
theorem exists_calls_signature (ring : KeyRing σ κ) (log : List (SignerCall κ)) (id : String)
    (spend : Option Spend) :
    ∃ calls asked, (ring.recorded log).signature id spend
          = ((ring.signature id spend).1, (ring.signature id spend).2.recorded (log ++ calls))
      ∧ ring.Asks (ring.signature id spend).2 asked calls
      ∧ ResolvesPart ring (ring.signature id spend).2.keys spend (.signature id)
        (ring.signature id spend).1 asked := by
  cases spend with
  | none =>
    refine ⟨[], [], ?_, asks_nothing ring, .noContext rfl⟩
    rw [List.append_nil]
    rfl
  | some context =>
    obtain ⟨calls, made, quiet, found⟩ := ring.exists_calls_key log id
    rcases answered : ring.key id with ⟨answer, ring₁⟩
    rw [answered] at made found
    rcases found with ⟨key, rfl, gained⟩ | ⟨e, rfl, fault, gained⟩
    · have held : ring₁.keys.lookup id = some key := lookup_of_key answered
      rcases signed : ring₁.signer.sign key context ring₁.state with ⟨answer, state⟩
      have noted := sign_recorded (log ++ calls) signed
      -- the key is there whether or not the signature comes out
      have asks : ring.Asks { ring₁ with state } [(id, ⟨key, context, answer⟩)]
          (calls ++ [.signed ⟨key, context, answer⟩]) := by
        refine ⟨?_, gained.sign state _⟩
        rw [List.filterMap_append, quiet]
        rfl
      simp only [signature, made, answered, noted, signed]
      rw [List.append_assoc]
      cases answer with
      | error reason => exact ⟨_, _, rfl, asks, .refused rfl held⟩
      | ok element => exact ⟨_, _, rfl, asks, .signed rfl held⟩
    · simp only [signature, made, answered]
      exact ⟨calls, [], rfl, ⟨quiet, gained⟩, .noKey rfl fault⟩

theorem exists_calls_resolvePart (ring : KeyRing σ κ) (log : List (SignerCall κ))
    (spend : Option Spend) (part : WitnessPart) :
    ∃ calls asked, (ring.recorded log).resolvePart spend part
          = ((ring.resolvePart spend part).1,
            (ring.resolvePart spend part).2.recorded (log ++ calls))
      ∧ ring.Asks (ring.resolvePart spend part).2 asked calls
      ∧ ResolvesPart ring (ring.resolvePart spend part).2.keys spend part
        (ring.resolvePart spend part).1 asked := by
  have nothing : ring.recorded log = ring.recorded (log ++ []) := by rw [List.append_nil]
  cases part with
  | signature id => exact ring.exists_calls_signature log id spend
  | literal data => exact ⟨[], [], Prod.ext rfl nothing, asks_nothing ring, .literal⟩
  | empty => exact ⟨[], [], Prod.ext rfl nothing, asks_nothing ring, .empty⟩

/-! ## A witness -/

/-- A fault of a ring that has gained keys was there before. -/
theorem Extends.keyFault {e : SigningError} (more : next.Extends ring)
    (fault : KeyFault next id e) :
    KeyFault ring id e := by
  have lacked (fresh : next.keys.lookup id = none) : ring.keys.lookup id = none := by
    cases held : ring.keys.lookup id with
    | none => rfl
    | some key => cases fresh.symm.trans (more.lookup held)
  cases fault with
  | unknown fresh unlisted => exact .unknown (lacked fresh) (more.table ▸ unlisted)
  | invalid fresh listed filled refused =>
    exact .invalid (lacked fresh) (more.table ▸ listed) filled (more.signer ▸ refused)

/-- What comes of a part may be told of a ring with fewer keys, and with more keys that are held in
the end. -/
theorem Extends.resolvesPart {keys more : List (String × κ)} {outcome : Except SigningError Bytes}
    (before : next.Extends ring)
    (after : ∀ id key, keys.lookup id = some key → more.lookup id = some key)
    (h : ResolvesPart next keys spend part outcome asked) :
    ResolvesPart ring more spend part outcome asked := by
  cases h with
  | literal => exact .literal
  | empty => exact .empty
  | noContext missing => exact .noContext missing
  | noKey given fault => exact .noKey given (before.keyFault fault)
  | refused given held => exact .refused given (after _ _ held)
  | signed given held => exact .signed given (after _ _ held)

theorem Extends.resolves {keys : List (String × κ)} {outcome : Except SigningError (List Bytes)}
    (before : next.Extends ring) (h : Resolves next keys spend parts outcome asked) :
    Resolves ring keys spend parts outcome asked := by
  induction h with
  | done => exact .done
  | stop first => exact .stop (before.resolvesPart (fun _ _ => id) first)
  | next first _ ih => exact .next (before.resolvesPart (fun _ _ => id) first) ih

/-- **What a witness takes.** A witness is completed part by part, up to the first that fails; the
signer is asked for the signatures of these, and for the keys of their identifiers. -/
theorem exists_calls_resolve (ring : KeyRing σ κ) (log : List (SignerCall κ)) (spend : Option Spend)
    (parts : List WitnessPart) :
    ∃ calls asked, (ring.recorded log).resolve spend parts
          = ((ring.resolve spend parts).1, (ring.resolve spend parts).2.recorded (log ++ calls))
      ∧ ring.Asks (ring.resolve spend parts).2 asked calls
      ∧ Resolves ring (ring.resolve spend parts).2.keys spend parts
        (ring.resolve spend parts).1 asked := by
  induction parts generalizing ring log with
  | nil =>
    refine ⟨[], [], ?_, asks_nothing ring, .done⟩
    rw [List.append_nil]
    rfl
  | cons part parts ih =>
    obtain ⟨calls, asked, made, asks, first⟩ := ring.exists_calls_resolvePart log spend part
    simp only [resolve, made]
    rcases answered : ring.resolvePart spend part with ⟨answer, ring₁⟩
    rw [answered] at asks first
    cases answer with
    | error e => exact ⟨calls, asked, rfl, asks, .stop first⟩
    | ok element =>
      obtain ⟨calls', asked', others, asks', rest⟩ := ih ring₁ (log ++ calls)
      have gained := ring₁.extends_resolve spend parts
      simp only [others]
      rcases rested : ring₁.resolve spend parts with ⟨answers, ring₂⟩
      rw [rested] at asks' rest gained
      have whole :=
        Resolves.next ((Extends.refl ring).resolvesPart (fun _ _ => gained.lookup) first)
        (asks.gains.extends.resolves rest)
      rw [List.append_assoc]
      cases answers with
      | error e => exact ⟨_, _, rfl, asks.trans asks', whole⟩
      | ok elements => exact ⟨_, _, rfl, asks.trans asks', whole⟩

end KeyRing

end TaprootLab

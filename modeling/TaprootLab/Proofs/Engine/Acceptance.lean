import TaprootLab.Curve.Secp256k1
import TaprootLab.Proofs.Engine.Phases
import TaprootLab.Proofs.Except
import TaprootLab.Proofs.Script.Number
import TaprootLab.Spend.Generated

/-!
# Which spends are accepted

The engine checks a witness in a dozen steps, each with an error of its own. Here the same is said
as a condition, without an order: a signature by the output key, or a committed leaf that runs well
(`Accepted`). The engine accepts a spend exactly under this condition (`drive_eq_ok_iff_accepted`).
-/

namespace TaprootLab

open Taproot Run

/-! ## The condition -/

/-- A witness is its elements and perhaps, after at least one of them, an annex. -/
inductive Splits : (witness elements : List Bytes) → (annex : Option Bytes) → Prop
  | annex {elements : List Bytes} {last : Bytes} (nonempty : elements ≠ [])
      (tagged : last.head? = some annexTag) : Splits (elements ++ [last]) elements (some last)
  | plain {witness : List Bytes}
      (untagged : ∀ elements last, witness = elements ++ [last] → elements ≠ [] →
        last.head? ≠ some annexTag) : Splits witness witness none

/-- The sighash type that a signature carries: the default one with 64 bytes, or another one that
its 65th byte names. -/
inductive Carries : (signature : Bytes) → SighashType → Prop
  | default {signature : Bytes} (length : signature.length = 64) : Carries signature .default
  | byte {signature : Bytes} {b : UInt8} {type : SighashType} (length : signature.length = 65)
      (last : signature[64]? = some b) (nonzero : b ≠ 0)
      (names : SighashType.ofByte? b = some type) : Carries signature type

/-- A signature by a key over the digest of its type, the annex and the leaf. -/
def Signed (curve : Curve) (spend : Spend) (annex : Option Bytes) (leaf : Option LeafPosition)
    (key : XOnlyKey) (signature : Bytes) : Prop :=
  ∃ type digest, Carries signature type ∧ spend.sighash annex leaf type = .ok digest
    ∧ curve.verify key digest (signature.take 64) = true

/-- A control block shows that the output key commits to a tapscript leaf. -/
def Committed (curve : Curve) (output : XOnlyKey) (script control : Bytes) : Prop :=
  ∃ block, ControlBlock.ofBytes? curve control = some block
    ∧ block.proves curve output script = true ∧ block.leafVersion = 0xc0

/-- A script runs to its end on some items, bottom first, and leaves nothing open and one true
item. -/
def Succeeds (env : Env) (script : Bytes) (items : List Bytes) (budget : Int) : Prop :=
  ∃ m top, (Machine.start items.reverse budget).execute env 0 (Script.decode script) = .ok m
    ∧ m.conditions = [] ∧ m.stack = [top] ∧ ScriptNumber.truthy top = true

/-- A spend by a leaf: `witness` is the whole witness, of which `items` are left for the script. -/
structure LeafSpend (curve : Curve) (spend : Spend) (output : XOnlyKey) (witness : List Bytes)
    (annex : Option Bytes) (items : List Bytes) (script control : Bytes) : Prop where
  committed : Committed curve output script control
  whole : ∀ i ∈ Script.decode script, i.truncated = false
  noSuccess : ∀ i ∈ Script.decode script, i.opcode.isSuccess = false
  small : ∀ item ∈ items, item.length ≤ 520
  succeeds : Succeeds (SignatureScope.env ⟨curve, spend, annex, some (leafHash 0xc0 script)⟩)
    script items (signatureBudget witness)

/-- A spend of a taproot output is accepted with a witness. -/
def Accepted (curve : Curve) (spend : Spend) (witness : List Bytes) : Prop :=
  spend.input.scriptSig = [] ∧ ∃ output annex,
    curve.key? (spend.prevout.scriptPubKey.drop 2) = some output ∧
      ((∃ signature, Splits witness [signature] annex
          ∧ Signed curve spend annex none output signature) ∨
        ∃ items script control, Splits witness (items ++ [script, control]) annex
          ∧ LeafSpend curve spend output witness annex items script control)

/-! ## Reading the witness -/

/-- A last element without the tag is no annex. -/
theorem Splits.of_untagged {front : List Bytes} {last : Bytes}
    (untagged : last.head? ≠ some annexTag) :
    Splits (front ++ [last]) (front ++ [last]) none := by
  refine .plain fun elements last' h _ => ?_
  obtain ⟨-, same⟩ := List.append_inj' h rfl
  exact (List.cons.inj same).1 ▸ untagged

theorem splitAnnex_eq_iff {witness elements : List Bytes} {annex : Option Bytes} :
    splitAnnex witness = (elements, annex) ↔ Splits witness elements annex := by
  constructor
  · intro h
    rw [splitAnnex] at h
    split at h
    · rename_i last before rest hrev
      obtain rfl : witness = (before :: rest).reverse ++ [last] := by
        rw [← List.reverse_cons, ← hrev, List.reverse_reverse]
      split at h
      · rename_i tagged
        obtain ⟨rfl, rfl⟩ := Prod.mk.inj h
        exact .annex (by simp) tagged
      · rename_i untagged
        obtain ⟨rfl, rfl⟩ := Prod.mk.inj h
        exact .of_untagged untagged
    · rename_i short
      obtain ⟨rfl, rfl⟩ := Prod.mk.inj h
      refine .plain fun elements last h nonempty => ?_
      obtain ⟨before, x, rfl⟩ := elements.eq_nil_or_concat.resolve_left nonempty
      exact (short last x before.reverse (by simp [h])).elim
  · intro h
    cases h with
    | @annex elements last nonempty tagged =>
      obtain ⟨before, x, rfl⟩ := elements.eq_nil_or_concat.resolve_left nonempty
      simp [splitAnnex, tagged]
    | plain untagged =>
      rw [splitAnnex]
      split
      · rename_i last before rest hrev
        rw [if_neg]
        refine untagged (before :: rest).reverse last ?_ (by simp)
        rw [← List.reverse_cons, ← hrev, List.reverse_reverse]
      · rfl

/-! ## Signatures -/

theorem drop_eq_singleton_iff {α : Type} {l : List α} {n : Nat} {a : α} :
    l.drop n = [a] ↔ l.length = n + 1 ∧ l[n]? = some a := by
  have length : (l.drop n).length = l.length - n := List.length_drop
  have first : (l.drop n)[0]? = l[n]? := List.getElem?_drop
  constructor
  · intro h
    rw [h, List.length_singleton] at length
    exact ⟨by omega, by rw [← first, h]; rfl⟩
  · rintro ⟨hl, ha⟩
    obtain ⟨b, hb⟩ := List.length_eq_one_iff.mp (length.trans (by omega))
    rw [← first, hb] at ha
    rw [hb, Option.some.inj ha]

theorem signatureType_eq_ok_iff {signature : Bytes} {type : SighashType} :
    signatureType signature = .ok type ↔ Carries signature type := by
  constructor
  · intro h
    rw [signatureType] at h
    split at h
    · split at h
      · rename_i short
        cases h
        exact .default short
      · cases h
    · cases h
    · rename_i b nonzero hd
      obtain ⟨length, last⟩ := drop_eq_singleton_iff.mp hd
      split at h
      · rename_i names
        cases h
        exact .byte length last nonzero names
      · cases h
    · cases h
  · intro h
    cases h with
    | default short =>
      rw [signatureType, List.drop_of_length_le (by omega)]
      exact if_pos short
    | byte length last nonzero names =>
      rw [signatureType, drop_eq_singleton_iff.mpr ⟨length, last⟩]
      split
      · contradiction
      · rename_i heq
        cases heq
        contradiction
      · rename_i heq
        cases heq
        rw [names]
      · rename_i other
        exact (other _ rfl).elim

namespace SignatureScope

/-- The leaf that a signature commits to behind a code separator. -/
def leafPosition (scope : SignatureScope) (separator : Option Nat) : Option LeafPosition :=
  scope.leafHash.map fun hash => ⟨hash, (separator.map UInt32.ofNat).getD noSeparator⟩

variable {scope : SignatureScope} {budget left : Int} {separator : Option Nat}
  {signature key : Bytes}

theorem charge_eq_ok_iff {hash : Bytes} (leaf : scope.leafHash = some hash) :
    scope.charge budget = .ok left ↔ 50 ≤ budget ∧ left = budget - 50 := by
  rw [charge, leaf, if_neg (by simp), weightPerSignature]
  split
  · rename_i poor
    simp [Int.not_le.mpr poor]
  · rename_i paid
    simp [Int.not_lt.mp paid, eq_comm]

theorem check_nil : scope.check budget separator [] key = .ok (false, budget) := rfl

/-- A check of a signature never says no: the signature is valid or the script fails. -/
theorem check_eq_ok_iff (nonempty : signature ≠ []) {valid : Bool} :
    scope.check budget separator signature key = .ok (valid, left) ↔
      valid = true ∧ scope.charge budget = .ok left ∧ key.length = 32 ∧
        ∃ xOnly, scope.curve.key? key = some xOnly ∧
          Signed scope.curve scope.spend scope.annex (scope.leafPosition separator) xOnly
            signature := by
  rw [check, if_neg (by simpa using nonempty), Except.bind_eq_ok_iff]
  by_cases length : key.length = 32
  · simp only [length, ne_eq, not_true, if_false, true_and]
    constructor
    · rintro ⟨budget', charged, h⟩
      obtain ⟨type, carried, h⟩ := Except.bind_eq_ok_iff.mp h
      split at h
      · cases h
      · rename_i digest digested
        split at h
        · cases h
        · rename_i xOnly read
          split at h
          · rename_i verified
            cases h
            exact ⟨rfl, charged, xOnly, read, type, digest, signatureType_eq_ok_iff.mp carried,
              digested, verified⟩
          · cases h
    · rintro ⟨rfl, charged, xOnly, read, type, digest, carried, digested, verified⟩
      refine ⟨left, charged, ?_⟩
      rw [leafPosition] at digested
      rw [signatureType_eq_ok_iff.mpr carried, Except.ok_bind]
      simp only [digested, read, verified, if_true, Except.pure_eq]
  · simp [length]

end SignatureScope

/-! ## The two ways to spend -/

theorem authorizeKey_eq_ok_iff {curve : Curve} {spend : Spend} {annex : Option Bytes}
    {program : Bytes} {output : XOnlyKey} {signature : Bytes} (length : program.length = 32)
    (read : curve.key? program = some output) :
    authorizeKey ⟨curve, spend, annex, none⟩ output signature = .ok () ↔
      Signed curve spend annex none output signature := by
  have bytes : output.bytes = program := by rw [(Curve.key?_eq_some_iff.mp read).2]
  by_cases nonempty : signature = []
  · subst nonempty
    rw [authorizeKey, SignatureScope.check_nil]
    constructor
    · intro h
      cases h
    · rintro ⟨type, digest, carried, -, -⟩
      cases carried <;> contradiction
  · rw [authorizeKey, bytes]
    constructor
    · intro h
      split at h
      · rename_i left checked
        obtain ⟨-, -, -, xOnly, read', signed⟩ :=
          (SignatureScope.check_eq_ok_iff nonempty).mp checked
        obtain rfl : output = xOnly := Option.some.inj (read.symm.trans read')
        exact signed
      · cases h
      · cases h
    · intro signed
      have checked : SignatureScope.check ⟨curve, spend, annex, none⟩ 0 none signature program =
          .ok (true, 0) :=
        (SignatureScope.check_eq_ok_iff nonempty).mpr ⟨rfl, rfl, length, output, read, signed⟩
      rw [checked]

theorem unrunnable?_eq_none_iff {pc : Nat} {is : List Instruction} :
    unrunnable? pc is = none ↔ ∀ i ∈ is, i.truncated = false ∧ i.opcode.isSuccess = false := by
  induction is generalizing pc with
  | nil => simp [unrunnable?]
  | cons i rest ih =>
    rw [unrunnable?, List.forall_mem_cons]
    cases i.truncated with
    | true => simp
    | false =>
      cases i.opcode.isSuccess with
      | true => simp
      | false => simp [ih]

theorem authorizeScript_eq_ok_iff {curve : Curve} {output : XOnlyKey} {control script : Bytes}
    {stack : List Bytes} :
    authorizeScript curve output control script stack = .ok () ↔
      Committed curve output script control
        ∧ (∀ i ∈ Script.decode script, i.truncated = false ∧ i.opcode.isSuccess = false)
        ∧ ∀ item ∈ stack, item.length ≤ 520 := by
  have committed {block : ControlBlock} (read : ControlBlock.ofBytes? curve control = some block) :
      Committed curve output script control ↔
        block.proves curve output script = true ∧ block.leafVersion = tapscriptVersion := by
    simp [Committed, read, tapscriptVersion]
  have small : (stack.any fun item => decide (maxItemSize < item.length)) = false ↔
      ∀ item ∈ stack, item.length ≤ 520 := by
    simp only [List.any_eq_false, decide_eq_true_eq, Nat.not_lt]
    rfl
  rw [authorizeScript, ← unrunnable?_eq_none_iff, ← small]
  -- the cases follow the order in which things are checked
  cases read : ControlBlock.ofBytes? curve control with
  | none => simp [Committed, read]
  | some block =>
    rw [committed read]
    by_cases proven : block.proves curve output script = true
    · by_cases version : block.leafVersion = tapscriptVersion
      · cases unrunnable? 0 (Script.decode script) with
        | some e => simp [proven, version]
        | none =>
          cases stack.any fun item => decide (maxItemSize < item.length) <;> simp [proven, version]
      · simp [proven, version]
    · simp [proven]

/-- What `authorize` takes for a key spend. -/
theorem authorize_eq_none_iff {curve : Curve} {spend : Spend} {witness : List Bytes}
    (length : (spend.prevout.scriptPubKey.drop 2).length = 32) :
    authorize curve spend witness = .ok none ↔ ∃ output annex signature,
      curve.key? (spend.prevout.scriptPubKey.drop 2) = some output ∧
        Splits witness [signature] annex ∧ Signed curve spend annex none output signature := by
  simp only [authorize, ← splitAnnex_eq_iff]
  constructor
  · intro h
    split at h
    · cases h
    · rename_i output read
      split at h
      · cases h
      · rename_i signature single
        obtain ⟨_, authorized, _⟩ := Except.bind_eq_ok_iff.mp h
        refine ⟨output, _, signature, read, Prod.ext ?_ rfl,
          (authorizeKey_eq_ok_iff length read).mp authorized⟩
        simpa using congrArg List.reverse single
      · obtain ⟨-, -, h⟩ := Except.bind_eq_ok_iff.mp h
        cases h
  · rintro ⟨output, annex, signature, read, split, signed⟩
    have authorized := (authorizeKey_eq_ok_iff length read).mpr signed
    simp only [read, split, List.reverse_singleton, authorized]
    rfl

/-- What `authorize` takes for the spend by a leaf. -/
theorem authorize_eq_some_iff {curve : Curve} {spend : Spend} {witness : List Bytes}
    {leaf : LeafRun} :
    authorize curve spend witness = .ok (some leaf) ↔ ∃ output control,
      curve.key? (spend.prevout.scriptPubKey.drop 2) = some output ∧
        Splits witness (leaf.stack.reverse ++ [leaf.script, control]) leaf.annex ∧
        authorizeScript curve output control leaf.script leaf.stack = .ok () ∧
        leaf.budget = signatureBudget witness := by
  simp only [authorize, ← splitAnnex_eq_iff]
  constructor
  · intro h
    split at h
    · cases h
    · rename_i output read
      split at h
      · cases h
      · obtain ⟨-, -, h⟩ := Except.bind_eq_ok_iff.mp h
        cases h
      · rename_i control script stack several
        obtain ⟨_, authorized, h⟩ := Except.bind_eq_ok_iff.mp h
        cases h
        refine ⟨output, control, read, Prod.ext ?_ rfl, authorized, rfl⟩
        simpa using congrArg List.reverse several
  · rintro ⟨output, control, read, split, authorized, paid⟩
    simp only [read, split, List.reverse_append, List.reverse_cons, List.reverse_nil,
      List.nil_append, List.cons_append, List.reverse_reverse, authorized, ← paid]
    rfl

theorem result_verdict_eq_ok_iff {script : Bytes} {m : Machine} :
    (verdict script m).result = some (.ok ()) ↔
      ∃ top, m.stack = [top] ∧ ScriptNumber.truthy top = true := by
  rw [verdict]
  split
  · rename_i empty
    simp [empty, failAt]
  · rename_i top single
    split
    · rename_i true
      simp [single, true]
    · rename_i false
      simp [single, false, failAt]
  · rename_i nonempty several
    simp only [failAt, result_fail, Option.some.injEq, reduceCtorEq, false_iff, not_exists]
    exact fun top h => several top h.1

/-- A leaf that is run to its end has succeeded if it did so without boundaries. -/
theorem result_leafRun_eq_ok_iff {curve : Curve} {spend : Spend} {leaf : LeafRun} :
    (leaf.run curve spend).result = some (.ok ()) ↔
      Succeeds (SignatureScope.env ⟨curve, spend, leaf.annex, some (leafHash 0xc0 leaf.script)⟩)
        leaf.script leaf.stack.reverse leaf.budget := by
  rw [LeafRun.run, result_bind_eq_ok_iff, Succeeds, List.reverse_reverse]
  simp only [Machine.result_run, Option.some.injEq, Machine.conclude_eq_ok_iff,
    result_verdict_eq_ok_iff]
  constructor
  · rintro ⟨m, ⟨executed, closed⟩, top, single, true⟩
    exact ⟨m, top, executed, closed, single, true⟩
  · rintro ⟨m, top, executed, closed, single, true⟩
    exact ⟨m, ⟨executed, closed⟩, top, single, true⟩

theorem result_runWitness_eq_ok_iff_accepted {curve : Curve} {spend : Spend}
    {witness : List Bytes} (length : (spend.prevout.scriptPubKey.drop 2).length = 32) :
    (runWitness curve spend witness).result = some (.ok ()) ↔ ∃ output annex,
      curve.key? (spend.prevout.scriptPubKey.drop 2) = some output ∧
        ((∃ signature, Splits witness [signature] annex
            ∧ Signed curve spend annex none output signature) ∨
          ∃ items script control, Splits witness (items ++ [script, control]) annex
            ∧ LeafSpend curve spend output witness annex items script control) := by
  rw [result_runWitness_eq_ok_iff, authorize_eq_none_iff length]
  constructor
  · rintro (⟨output, annex, signature, read, split, signed⟩ | ⟨leaf, authorized, succeeds⟩)
    · exact ⟨output, annex, read, .inl ⟨signature, split, signed⟩⟩
    · obtain ⟨output, control, read, split, authorized, paid⟩ := authorize_eq_some_iff.mp authorized
      obtain ⟨committed, runnable, small⟩ := authorizeScript_eq_ok_iff.mp authorized
      rw [result_leafRun_eq_ok_iff, paid] at succeeds
      refine ⟨output, leaf.annex, read, .inr ⟨leaf.stack.reverse, leaf.script, control, split, ?_⟩⟩
      exact ⟨committed, fun i hi => (runnable i hi).1, fun i hi => (runnable i hi).2,
        fun item h => small item (List.mem_reverse.mp h), succeeds⟩
  · rintro ⟨output, annex, read, ⟨signature, split, signed⟩ |
      ⟨items, script, control, split, committed, whole, noSuccess, small, succeeds⟩⟩
    · exact .inl ⟨output, annex, signature, read, split, signed⟩
    · refine .inr ⟨⟨script, items.reverse, annex, signatureBudget witness⟩, ?_, ?_⟩
      · refine authorize_eq_some_iff.mpr ⟨output, control, read, ?_, ?_, rfl⟩
        · rw [List.reverse_reverse]
          exact split
        · exact authorizeScript_eq_ok_iff.mpr ⟨committed, fun i hi => ⟨whole i hi, noSuccess i hi⟩,
            fun item h => small item (List.mem_reverse.mp h)⟩
      · rw [result_leafRun_eq_ok_iff, List.reverse_reverse]
        exact succeeds

/-! ## A leaf that pushes a number -/

/-- A spend of an output whose key is all ones. -/
def onesSpend : Spend := GeneratedSpend.spendOf ⟨List.replicate 32 1⟩ [] 0 []

/-- A curve whose keys cannot be tweaked away: each commits to every script. -/
def inertCurve : Curve where
  isKey bytes := bytes.length == 32
  addTweak key _ := some (key, false)
  keyPair? _ := none
  keyPairOfSeed seed := ⟨seed, ⟨seed⟩⟩
  sign _ _ := []
  verify _ _ _ := false

/-- A witness of `onesSpend` that hands `n` empty items to a script which pushes one more. -/
def crowdedWitness (n : Nat) : List Bytes :=
  List.replicate n [] ++ [[0x51], 0xc0 :: List.replicate 32 1]

theorem decode_number : Script.decode [0x51] = [⟨⟨0x51⟩, none, 0, 1, false⟩] := by
  rw [Script.decode, Script.decodeFrom_of_absent rfl, Script.decodeFrom_nil]

/-- What a witness hands over in front of that script, the leaf is given. -/
theorem authorize_handed {items : List Bytes} (short : ∀ item ∈ items, item.length ≤ 520) :
    authorize inertCurve onesSpend (items ++ crowdedWitness 0) =
      .ok (some ⟨[0x51], items.reverse, none, signatureBudget (items ++ crowdedWitness 0)⟩) := by
  refine authorize_eq_some_iff.mpr
    ⟨⟨List.replicate 32 1⟩, 0xc0 :: List.replicate 32 1, rfl, ?_, ?_, rfl⟩
  · rw [List.reverse_reverse]
    refine .plain fun elements last h _ => ?_
    have : items ++ [[0x51]] ++ [0xc0 :: List.replicate 32 1] = elements ++ [last] := by
      rw [← h, List.append_assoc]
      rfl
    obtain ⟨-, h⟩ := List.append_inj' this rfl
    rw [← (List.cons.inj h).1]
    decide
  · refine authorizeScript_eq_ok_iff.mpr ⟨?_, ?_, fun item h => short item (List.mem_reverse.mp h)⟩
    · refine ⟨⟨0xc0, false, ⟨List.replicate 32 1⟩, []⟩, ?_, rfl, rfl⟩
      have path : Bytes.chunks 32 ([] : Bytes) = [] := by
        rw [Bytes.chunks]
        rfl
      rw [← path]
      rfl
    · rw [decode_number]
      decide

theorem length_le_of_mem_replicate (n : Nat) :
    ∀ item ∈ List.replicate n ([] : Bytes), item.length ≤ 520 := by
  intro item h
  rw [List.eq_of_mem_replicate h]
  decide

theorem authorize_crowdedWitness (n : Nat) :
    authorize inertCurve onesSpend (crowdedWitness n) =
      .ok (some ⟨[0x51], List.replicate n [], none, signatureBudget (crowdedWitness n)⟩) := by
  rw [← List.reverse_replicate]
  exact authorize_handed (length_le_of_mem_replicate n)

/-- The script pushes a true item, which is the only one if nothing is handed over. -/
theorem succeeds_number (env : Env) (budget : Int) : Succeeds env [0x51] [] budget := by
  refine ⟨⟨[ScriptNumber.encode 1], [], [], none, budget⟩, ScriptNumber.encode 1, ?_, rfl, rfl, ?_⟩
  · have pushed : (Machine.start [] budget).step env 0 ⟨⟨0x51⟩, none, 0, 1, false⟩ =
        .ok ⟨[ScriptNumber.encode 1], [], [], none, budget⟩ :=
      Machine.step_eq_ok.mpr ⟨rfl, .inr ⟨rfl, rfl, by simp [Machine.size, maxStackSize]⟩⟩
    rw [decode_number, List.reverse_nil, Machine.execute, pushed]
    rfl
  · exact (ScriptNumber.truthy_iff _).mpr (by rw [ScriptNumber.value_encode]; decide)

theorem result_runTaproot_crowdedWitness :
    (runTaproot inertCurve onesSpend (crowdedWitness 0)).result = some (.ok ()) := by
  refine (result_runTaproot_eq_ok_iff rfl).mpr ⟨rfl, result_runWitness_eq_ok_iff.mpr (.inr ?_)⟩
  exact ⟨_, authorize_crowdedWitness 0, result_leafRun_eq_ok_iff.mpr (succeeds_number _ _)⟩

/-- A single empty element is no signature. -/
theorem not_accepted_nil (curve : Curve) (spend : Spend) : ¬ Accepted curve spend [[]] := by
  rintro ⟨-, output, annex, -, ⟨signature, split, type, digest, carried, -⟩ |
    ⟨items, script, control, split, -⟩⟩
  · have single : ([[]], none) = ([signature], annex) := splitAnnex_eq_iff.mpr split
    obtain rfl : [] = signature := (List.cons.inj (Prod.mk.inj single).1).1
    cases carried <;> contradiction
  · have several : ([[]], none) = (items ++ [script, control], annex) := splitAnnex_eq_iff.mpr split
    have length := congrArg List.length (Prod.mk.inj several).1
    rw [List.length_append] at length
    simp at length

/-! ## The whole spend -/

theorem length_of_isOutputScript {script : Bytes} (h : isOutputScript script = true) :
    (script.drop 2).length = 32 := by
  obtain ⟨key, rfl, length⟩ := exists_key_of_isOutputScript h
  exact length

/-- A spend of a taproot output starts, and for someone who always proceeds, whatever they note
down, it ends well exactly if it is accepted. -/
theorem drive_eq_ok_iff_accepted {σ : Type} (curve : Curve) (spend : Spend) (witness : List Bytes)
    (note : σ → Boundary → σ) (s : σ)
    (taproot : isOutputScript spend.prevout.scriptPubKey = true) :
    ∃ run, (taprootInterpreter curve).start spend witness = .ok run ∧
      ((run.drive (fun s b => (.proceed, note s b)) s).1 = some (.ok ()) ↔
        Accepted curve spend witness) := by
  refine ⟨runTaproot curve spend witness, if_pos taproot, ?_⟩
  rw [drive_proceed, result_runTaproot_eq_ok_iff taproot, Accepted,
    result_runWitness_eq_ok_iff_accepted (length_of_isOutputScript taproot)]

theorem drive_eq_ok_iff_accepted_onesSpend :
    isOutputScript onesSpend.prevout.scriptPubKey = true ∧
      (∃ run, (taprootInterpreter inertCurve).start onesSpend (crowdedWitness 0) = .ok run ∧
        (run.drive (fun n _ => (.proceed, n + 1)) 0).1 = some (.ok ()) ∧
        Accepted inertCurve onesSpend (crowdedWitness 0)) ∧
      ∃ run, (taprootInterpreter Secp256k1.curve).start onesSpend [[]] = .ok run ∧
        (run.drive (fun n _ => (.proceed, n + 1)) 0).1 ≠ some (.ok ()) ∧
        ¬ Accepted Secp256k1.curve onesSpend [[]] := by
  refine ⟨rfl, ?_, ?_⟩
  · obtain ⟨run, started, accepted⟩ := drive_eq_ok_iff_accepted inertCurve onesSpend
      (crowdedWitness 0) (fun n _ => n + 1) 0 rfl
    obtain rfl : runTaproot inertCurve onesSpend (crowdedWitness 0) = run := Except.ok.inj started
    have ended : ((runTaproot inertCurve onesSpend (crowdedWitness 0)).drive
        (fun n _ => (.proceed, n + 1)) 0).1 = some (.ok ()) := by
      rw [drive_proceed, result_runTaproot_crowdedWitness]
    exact ⟨_, started, ended, accepted.mp ended⟩
  · obtain ⟨run, started, accepted⟩ := drive_eq_ok_iff_accepted Secp256k1.curve onesSpend [[]]
      (fun n _ => n + 1) 0 rfl
    have refused := not_accepted_nil Secp256k1.curve onesSpend
    exact ⟨run, started, mt accepted.mp refused, refused⟩

end TaprootLab

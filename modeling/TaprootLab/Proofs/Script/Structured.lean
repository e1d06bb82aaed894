import TaprootLab.Proofs.Engine.Skipping

/-!
# Structured programs

A script is a flat list of instructions, in which conditionals are opened, switched and closed. Here
conditionals are blocks with segments inside each other (`Program`, `Segments`), and the list is
what writing a program down gives (`Program.flatten`).

Read from its end, a list whose conditionals are not all closed yet is a program once for each open
block something is written in front of it. `Pending` is that form; it grows by one instruction at a
time.
-/

namespace TaprootLab

namespace Instruction

/-- Nothing that opens, switches or closes a conditional, and nothing that fails where it is
skipped. -/
structure Straight (i : Instruction) : Prop extends Plain i where
  single : ¬ i.IsMultiSig
  whole : i.truncated = false

/-- What is not refused, is not cut short and is no conditional is straight. -/
theorem straight_of_refused? {i : Instruction} (allowed : i.refused? = none)
    (whole : i.truncated = false) (unconditional : i.opcode.byte ∉ [0x63, 0x64, 0x67, 0x68]) :
    i.Straight := by
  rw [Instruction.refused?] at allowed
  split at allowed
  · cases allowed
  · rename_i short
    have operation : i.opcode.operation ≠ .versionBranch ∧ i.opcode.operation ≠ .checkMultiSig := by
      split at allowed
      · cases allowed
      · cases allowed
      · rename_i noVersion noMultiSig
        exact ⟨noVersion, noMultiSig⟩
    refine { unconditional := ?_, small := ?_, single := ?_, whole := whole }
    · have version (b : UInt8) (h : b = 0x65 ∨ b = 0x66) : i.opcode.byte ≠ b := by
        intro here
        refine operation.1 ?_
        rw [show i.opcode = ⟨b⟩ from congrArg Opcode.mk here]
        rcases h with rfl | rfl <;> rfl
      have first := version 0x65 (.inl rfl)
      have second := version 0x66 (.inr rfl)
      simp only [List.mem_cons, List.not_mem_nil, or_false, not_or] at unconditional ⊢
      exact ⟨unconditional.1, unconditional.2.1, first, second, unconditional.2.2⟩
    · intro data h
      rw [h, Option.any_some, decide_eq_true_eq] at short
      exact Nat.not_lt.mp short
    · intro several
      exact operation.2 (Opcode.operation_of_multiSig several)

/-- An opcode that stands for itself. -/
def mark (byte : UInt8) (offset : Nat) : Instruction := ⟨⟨byte⟩, none, offset, 1, false⟩

def opener (negated : Bool) (offset : Nat) : Instruction :=
  mark (if negated then 0x64 else 0x63) offset

end Instruction

open Instruction

mutual

/-- Instructions and blocks one after the other. -/
inductive Program where
  | done
  | plain (i : Instruction) (straight : i.Straight) (rest : Program)
  /-- A block whose first segment is for a true argument, or for a false one if it is negated. -/
  | block (negated : Bool) (offset : Nat) (segments : Segments) (rest : Program)

/-- The segments of a block, of which there is at least one. -/
inductive Segments where
  | last (body : Program) (offset : Nat)
  | more (body : Program) (offset : Nat) (others : Segments)

end

mutual

def Program.flatten : Program → List Instruction
  | .done => []
  | .plain i _ rest => i :: rest.flatten
  | .block negated offset segments rest =>
      opener negated offset :: (segments.flatten ++ rest.flatten)

/-- The segments with what separates them and what closes the block. -/
def Segments.flatten : Segments → List Instruction
  | .last body offset => body.flatten ++ [mark 0x68 offset]
  | .more body offset others => body.flatten ++ mark 0x67 offset :: others.flatten

end

/-! ## Lists with open blocks -/

/-- What may follow `depth` open blocks: the segments that are left of each, and a program behind
the last. -/
def Pending : (depth : Nat) → List Instruction → Prop
  | 0, is => ∃ p : Program, is = p.flatten
  | depth + 1, is => ∃ (s : Segments) (rest : List Instruction),
      is = s.flatten ++ rest ∧ Pending depth rest

namespace Pending

variable {depth : Nat} {is : List Instruction}

theorem plain {i : Instruction} (straight : i.Straight) (h : Pending depth is) :
    Pending depth (i :: is) := by
  cases depth with
  | zero =>
    obtain ⟨p, rfl⟩ := h
    exact ⟨.plain i straight p, rfl⟩
  | succ depth =>
    obtain ⟨s, rest, rfl, h⟩ := h
    cases s with
    | last body offset => exact ⟨.last (.plain i straight body) offset, rest, rfl, h⟩
    | more body offset others => exact ⟨.more (.plain i straight body) offset others, rest, rfl, h⟩

/-- An opened block, the segments of which are taken from what follows. -/
theorem opener {negated : Bool} {offset : Nat} (h : Pending (depth + 1) is) :
    Pending depth (Instruction.opener negated offset :: is) := by
  obtain ⟨segments, is, rfl, h⟩ := h
  cases depth with
  | zero =>
    obtain ⟨p, rfl⟩ := h
    exact ⟨.block negated offset segments p, rfl⟩
  | succ depth =>
    obtain ⟨s, rest, rfl, h⟩ := h
    cases s with
    | last body after =>
      refine ⟨.last (.block negated offset segments body) after, rest, ?_, h⟩
      simp only [Segments.flatten, Program.flatten, List.cons_append, List.append_assoc]
    | more body after others =>
      refine ⟨.more (.block negated offset segments body) after others, rest, ?_, h⟩
      simp only [Segments.flatten, Program.flatten, List.cons_append, List.append_assoc]

theorem separator {offset : Nat} (h : Pending (depth + 1) is) :
    Pending (depth + 1) (mark 0x67 offset :: is) := by
  obtain ⟨s, rest, rfl, h⟩ := h
  exact ⟨.more .done offset s, rest, rfl, h⟩

theorem closer {offset : Nat} (h : Pending depth is) :
    Pending (depth + 1) (mark 0x68 offset :: is) :=
  ⟨.last .done offset, is, rfl, h⟩

end Pending

end TaprootLab

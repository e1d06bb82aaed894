import Mathlib.Data.List.Forall2

/-!
# Steps that can fail

A chain of steps in `Except` succeeds if every step does, and fails as its first failing step does.
One step for each member of a list is such a chain (`mapM_eq_ok_iff`, `mapM_eq_error_iff`).
-/

namespace Except

variable {ε α β γ δ : Type}

@[simp] theorem ok_bind (a : α) (f : α → Except ε β) : (ok a >>= f) = f a := rfl

@[simp] theorem error_bind (e : ε) (f : α → Except ε β) : (error e >>= f) = error e := rfl

@[simp] theorem throw_eq (e : ε) : (throw e : Except ε α) = error e := rfl

@[simp] theorem pure_eq (a : α) : (pure a : Except ε α) = ok a := rfl

theorem bind_eq_ok_iff {x : Except ε α} {f : α → Except ε β} {b : β} :
    x >>= f = ok b ↔ ∃ a, x = ok a ∧ f a = ok b := by
  cases x <;> simp

theorem map_eq_ok_iff {x : Except ε α} {f : α → β} {b : β} :
    x.map f = ok b ↔ ∃ a, x = ok a ∧ f a = b := by
  cases x <;> simp [Except.map]

theorem map_eq_error_iff {x : Except ε α} {f : α → β} {e : ε} :
    x.map f = error e ↔ x = error e := by
  cases x <;> simp [Except.map]

theorem map_bind (x : Except ε α) (f : α → Except ε β) (g : β → γ) :
    (x >>= f).map g = x >>= fun a => (f a).map g := by
  cases x <;> rfl

theorem bind_map (x : Except ε α) (f : α → β) (g : β → Except ε γ) :
    (x.map f >>= g) = x >>= fun a => g (f a) := by
  cases x <;> rfl

theorem map_ite {c : Prop} [Decidable c] (x y : Except ε α) (g : α → β) :
    (if c then x else y).map g = if c then x.map g else y.map g := by
  split <;> rfl

theorem toOption_eq_some_iff {x : Except ε α} {a : α} : x.toOption = some a ↔ x = ok a := by
  cases x <;> simp [Except.toOption]

theorem toOption_map (x : Except ε α) (g : α → β) : (x.map g).toOption = x.toOption.map g := by
  cases x <;> rfl

/-- Two chains agree up to a projection if the first steps do and the rest respects it. -/
theorem map_bind_congr {x x' : Except ε α} {f : α → Except ε β} {g : α → γ} {k : β → δ}
    (h : x.map g = x'.map g) (hf : ∀ a a', g a = g a' → (f a).map k = (f a').map k) :
    (x >>= f).map k = (x' >>= f).map k := by
  rcases x with e | a <;> rcases x' with e' | a'
  · cases h
    rfl
  · cases h
  · cases h
  · exact hf a a' (Except.ok.inj h)

/-- Where one of two conditions always holds, each of which decides the outcome, they say what the
outcome is. -/
theorem eq_iff_of_total {x : Except ε α} {P : α → Prop} {Q : ε → Prop}
    (result : ∀ a, P a → x = ok a) (failure : ∀ e, Q e → x = error e)
    (total : (∃ a, P a) ∨ ∃ e, Q e) :
    (∀ a, x = ok a ↔ P a) ∧ ∀ e, x = error e ↔ Q e := by
  rcases total with ⟨a, p⟩ | ⟨e, q⟩
  · have there := result a p
    refine ⟨fun a' => ⟨fun h => ?_, result a'⟩, fun e => ⟨fun h => ?_, failure e⟩⟩
    · cases there.symm.trans h
      exact p
    · cases there.symm.trans h
  · have there := failure e q
    refine ⟨fun a => ⟨fun h => ?_, result a⟩, fun e' => ⟨fun h => ?_, failure e'⟩⟩
    · cases there.symm.trans h
    · cases there.symm.trans h
      exact q

/-! ## One step for each member of a list -/

variable {f : α → Except ε β} {xs : List α}

theorem mapM_eq_ok_iff {ys : List β} :
    xs.mapM f = ok ys ↔ List.Forall₂ (fun x y => f x = ok y) xs ys := by
  induction xs generalizing ys with
  | nil =>
    rw [List.mapM_nil, List.forall₂_nil_left_iff]
    exact ⟨fun h => (ok.inj h).symm, fun h => congrArg ok h.symm⟩
  | cons x xs ih =>
    rw [List.mapM_cons, bind_eq_ok_iff, List.forall₂_cons_left_iff]
    constructor
    · rintro ⟨y, first, rest⟩
      obtain ⟨ys', others, whole⟩ := bind_eq_ok_iff.mp rest
      exact ⟨y, ys', first, ih.mp others, (ok.inj whole).symm⟩
    · rintro ⟨y, ys', first, others, rfl⟩
      exact ⟨y, first, bind_eq_ok_iff.mpr ⟨ys', ih.mpr others, rfl⟩⟩

theorem mapM_eq_error_iff {e : ε} :
    xs.mapM f = error e ↔
      ∃ before x after, xs = before ++ x :: after ∧ (∀ y ∈ before, ∃ b, f y = ok b)
        ∧ f x = error e := by
  induction xs with
  | nil =>
    constructor
    · nofun
    · rintro ⟨before, x, after, split, -⟩
      cases List.append_ne_nil_of_right_ne_nil before (List.cons_ne_nil x after) split.symm
  | cons a xs ih =>
    rw [List.mapM_cons]
    cases first : f a with
    | error e' =>
      rw [error_bind]
      constructor
      · rintro ⟨⟩
        exact ⟨[], a, xs, rfl, nofun, first⟩
      · rintro ⟨before, x, after, split, passed, stops⟩
        rcases before with _ | ⟨y, before⟩
        · obtain ⟨rfl, -⟩ := List.cons.inj split
          exact congrArg error (error.inj (first.symm.trans stops))
        · obtain ⟨rfl, -⟩ := List.cons.inj split
          obtain ⟨b, fine⟩ := passed a List.mem_cons_self
          cases first.symm.trans fine
    | ok b =>
      have rest : (xs.mapM f >>= fun bs => pure (b :: bs)) = error e ↔ xs.mapM f = error e := by
        cases xs.mapM f <;> simp
      rw [ok_bind, rest, ih]
      constructor
      · rintro ⟨before, x, after, rfl, passed, stops⟩
        exact ⟨a :: before, x, after, rfl, List.forall_mem_cons.mpr ⟨⟨b, first⟩, passed⟩, stops⟩
      · rintro ⟨before, x, after, split, passed, stops⟩
        rcases before with _ | ⟨y, before⟩
        · obtain ⟨rfl, -⟩ := List.cons.inj split
          cases first.symm.trans stops
        · obtain ⟨rfl, rfl⟩ := List.cons.inj split
          exact ⟨before, x, after, rfl, (List.forall_mem_cons.mp passed).2, stops⟩

/-- Where no first step fails, the second ones may follow at once. -/
theorem mapM_bind_mapM {g : β → Except ε γ} (passed : ∀ x ∈ xs, ∃ b, f x = ok b) :
    (xs.mapM f >>= fun bs => bs.mapM g) = xs.mapM fun x => f x >>= g := by
  induction xs with
  | nil => rfl
  | cons x xs ih =>
    obtain ⟨⟨b, first⟩, others⟩ := List.forall_mem_cons.mp passed
    obtain ⟨bs, rest⟩ : ∃ bs, xs.mapM f = ok bs := by
      cases all : xs.mapM f with
      | ok bs => exact ⟨bs, rfl⟩
      | error e =>
        obtain ⟨before, y, after, rfl, -, stops⟩ := mapM_eq_error_iff.mp all
        obtain ⟨b', fine⟩ := others y (List.mem_append_right _ List.mem_cons_self)
        cases stops.symm.trans fine
    have onward : bs.mapM g = xs.mapM fun x => f x >>= g := by rw [← ih others, rest, ok_bind]
    rw [List.mapM_cons, List.mapM_cons, first, rest, ← onward]
    show (b :: bs).mapM g = _
    rw [List.mapM_cons]
    rfl

/-- Where each step only adds its result to what was kept, the results may be collected first. -/
theorem foldlM_eq_map_mapM (f : α → Except ε β) (keep : γ → β → γ) (start : γ) (xs : List α) :
    (xs.foldlM (fun kept x => f x >>= fun b => pure (keep kept b)) start) =
      (xs.mapM f).map (List.foldl keep start) := by
  induction xs generalizing start with
  | nil => rfl
  | cons x xs ih =>
    rw [List.foldlM_cons, List.mapM_cons]
    cases f x with
    | error e => rfl
    | ok b =>
      rw [ok_bind, ok_bind, pure_eq, ok_bind, ih]
      cases xs.mapM f <;> rfl

/-- Steps that only differ by a relabelling of what they take and give. -/
theorem mapM_map_eq {g : α → α} {h : β → β} {k : ε → ε}
    (same : ∀ x, f (g x) = ((f x).map h).mapError k) (xs : List α) :
    (xs.map g).mapM f = ((xs.mapM f).map (List.map h)).mapError k := by
  induction xs with
  | nil => rfl
  | cons x xs ih =>
    rw [List.map_cons, List.mapM_cons, List.mapM_cons, same, ih]
    cases f x with
    | error e => rfl
    | ok y => cases xs.mapM f <;> rfl

end Except

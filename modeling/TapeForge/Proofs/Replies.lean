import Mathlib.Data.List.Forall2
import TapeForge.Script.Reply

/-!
# What becomes of a call made of others

A call has a value exactly if each call that it is made of has one. What else becomes of it is up to
these too: it is tame if every panic in it carries an error, so that it can be recovered, and if it
comes back unless it is given something that is gone over without end.
-/

namespace TapeForge

namespace Reply

variable {ε ε' α β : Type} {r : Reply ε α} {f : α → Reply ε β} {a : α} {b : β}

def isOk : Reply ε α → Bool
  | .ok _ => true
  | _ => false

def isEndless : Reply ε α → Bool
  | .endless => true
  | _ => false

instance (r : Reply ε α) : Decidable (∃ a, r = .ok a) :=
  decidable_of_iff (r.isOk = true) (by cases r <;> simp [isOk])

instance (r : Reply ε α) : Decidable (r = .endless) :=
  decidable_of_iff (r.isEndless = true) (by cases r <;> simp [isEndless])

/-! ## Calls that have a value -/

theorem bind_eq_ok_iff : (r >>= f) = .ok b ↔ ∃ a, r = .ok a ∧ f a = .ok b := by
  constructor
  · intro h
    cases r with
    | ok a => exact ⟨a, rfl, h⟩
    | error e => cases h
    | panic p => cases h
    | endless => cases h
  · rintro ⟨a, rfl, ha⟩
    exact ha

/-- A value is only reached past a check. -/
theorem of_guard_eq_ok {P : Prop} [Decidable P] {e : ε} {f : Unit → Reply ε β}
    (h : (if P then .error e >>= f else f ()) = .ok b) : ¬P ∧ f () = .ok b := by
  split at h
  · cases h
  · exact ⟨‹¬P›, h⟩

theorem mapError_eq_ok_iff {g : ε → ε'} : r.mapError g = .ok a ↔ r = .ok a := by
  cases r <;> simp [mapError]

theorem of_eq_ok_iff {x : Except ε α} : of x = .ok a ↔ x = .ok a := by
  cases x <;> simp [of]

theorem orPanic_eq_ok_iff {x : Except Op.BuildError α} :
    (orPanic x : Reply ε α) = .ok a ↔ x = .ok a := by
  cases x <;> simp [orPanic]

theorem recover_eq_ok_iff {g : Op.BuildError → ε} : r.recover g = .ok a ↔ r = .ok a := by
  rcases r with a | e | ⟨why | what⟩ | _ <;> simp [recover]

theorem mapM_eq_ok_iff {xs : List α} {ys : List β} :
    xs.mapM f = .ok ys ↔ List.Forall₂ (fun x y => f x = .ok y) xs ys := by
  induction xs generalizing ys with
  | nil =>
      rw [List.mapM_nil, List.forall₂_nil_left_iff]
      exact ⟨fun h => by cases h; rfl, fun h => by rw [h]; rfl⟩
  | cons x xs ih =>
      rw [List.mapM_cons, List.forall₂_cons_left_iff, bind_eq_ok_iff]
      constructor
      · rintro ⟨y, hy, h⟩
        obtain ⟨ys', hys, h⟩ := bind_eq_ok_iff.1 h
        cases h
        exact ⟨y, ys', hy, ih.1 hys, rfl⟩
      · rintro ⟨y, ys', hy, hys, rfl⟩
        exact ⟨y, hy, bind_eq_ok_iff.2 ⟨ys', ih.2 hys, rfl⟩⟩

/-- A call that comes back and does not panic fails if it has no value. -/
theorem exists_error_iff (hpanic : ∀ p, r ≠ .panic p) (hendless : r ≠ .endless) :
    (∃ e, r = .error e) ↔ ¬ ∃ a, r = .ok a := by
  cases r with
  | ok a => simp
  | error e => simp
  | panic p => exact absurd rfl (hpanic p)
  | endless => exact absurd rfl hendless

/-! ## Calls that come back -/

/-- A call panics with errors only, and comes back unless `loops`. -/
structure Tame (loops : Prop) (r : Reply ε α) : Prop where
  panic : ∀ p, r = .panic p → ∃ why, p = .error why
  endless : r = .endless → loops

namespace Tame

variable {loops loops' : Prop}

theorem ok : Tame loops (.ok a : Reply ε α) := ⟨nofun, nofun⟩

theorem error {e : ε} : Tame loops (.error e : Reply ε α) := ⟨nofun, nofun⟩

theorem imp (h : Tame loops r) (hloops : loops → loops') : Tame loops' r :=
  ⟨h.panic, fun hr => hloops (h.endless hr)⟩

theorem bind (h : Tame loops r) (hf : ∀ a, r = .ok a → Tame loops (f a)) :
    Tame loops (r >>= f) := by
  cases r with
  | ok a => exact hf a rfl
  | error e => exact error
  | panic p =>
      obtain ⟨why, rfl⟩ := h.panic p rfl
      exact ⟨fun _ hp => ⟨why, by cases hp; rfl⟩, nofun⟩
  | endless => exact ⟨nofun, fun _ => h.endless rfl⟩

/-- What follows a check may count on it. -/
theorem guard {P : Prop} [Decidable P] {e : ε} {f : Unit → Reply ε β} (hf : Tame loops (f ())) :
    Tame loops (if P then .error e >>= f else f ()) := by
  split
  · exact error
  · exact hf

theorem of {x : Except ε α} : Tame loops (.of x) := by
  cases x with
  | error e => exact error
  | ok a => exact ok

theorem orPanic {x : Except Op.BuildError α} : Tame loops (.orPanic x : Reply ε α) := by
  cases x with
  | error why => exact ⟨fun _ hp => ⟨why, by cases hp; rfl⟩, nofun⟩
  | ok a => exact ok

theorem mapError {g : ε → ε'} (h : Tame loops r) : Tame loops (r.mapError g) := by
  cases r with
  | ok a => exact ok
  | error e => exact error
  | panic p => exact ⟨fun q hq => h.panic q (by cases hq; rfl), nofun⟩
  | endless => exact ⟨nofun, fun _ => h.endless rfl⟩

theorem mapM {xs : List α} (h : ∀ x ∈ xs, Tame loops (f x)) : Tame loops (xs.mapM f) := by
  induction xs with
  | nil =>
      rw [List.mapM_nil]
      exact ok
  | cons x xs ih =>
      obtain ⟨hx, hxs⟩ := List.forall_mem_cons.1 h
      rw [List.mapM_cons]
      exact hx.bind fun _ _ => (ih hxs).bind fun _ _ => ok

/-- Recovered, a tame call does not panic. -/
theorem recover_ne_panic (h : Tame loops r) (g : Op.BuildError → ε) (p : Panic) :
    r.recover g ≠ .panic p := by
  cases r with
  | panic q =>
      obtain ⟨why, rfl⟩ := h.panic q rfl
      exact nofun
  | _ => exact nofun

theorem recover_endless (h : Tame loops r) {g : Op.BuildError → ε}
    (hr : r.recover g = .endless) : loops := by
  rcases r with a | e | ⟨why | what⟩ | _
  · cases hr
  · cases hr
  · cases hr
  · cases hr
  · exact h.endless rfl

end Tame

end Reply

end TapeForge

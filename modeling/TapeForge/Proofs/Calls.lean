import Mathlib.Data.List.Perm.Basic
import TapeForge.Proofs.Leaves

/-!
# What a call of a builtin takes

A call that succeeds has passed every check on its way. Taking arguments by position and by name
puts each of them into a parameter of its kind, and every name is the name of a parameter; so the
values of the parameters are the arguments of the call, in some order. Whether it succeeds or not, a
call comes back when its arguments are finite, and no panic gets out of it.
-/

namespace TapeForge.Script

/-! ## Results of steps that may fail -/

section

variable {ε ε' β γ : Type} {x : Except ε β} {f : β → Except ε γ} {c : γ}

theorem bind_eq_ok_iff : (x >>= f) = .ok c ↔ ∃ b, x = .ok b ∧ f b = .ok c := by
  constructor
  · intro h
    cases x with
    | error e => cases h
    | ok b => exact ⟨b, rfl, h⟩
  · rintro ⟨b, rfl, hb⟩
    exact hb

/-- A result is only reached past a check. -/
theorem of_guard_eq_ok {P : Prop} [Decidable P] {e : ε} {f : Unit → Except ε γ}
    (h : (if P then throw e >>= f else f ()) = .ok c) : ¬P ∧ f () = .ok c := by
  split at h
  · cases h
  · exact ⟨‹¬P›, h⟩

theorem exists_error_iff : (∃ e, x = .error e) ↔ ¬ ∃ b, x = .ok b := by
  cases x with
  | error e => simp
  | ok b => simp

theorem mapError_eq_ok_iff {g : ε → ε'} {b : β} : x.mapError g = .ok b ↔ x = .ok b := by
  cases x with
  | error e => simp [Except.mapError]
  | ok a => simp [Except.mapError]

theorem exists_of_mem_right {R : β → γ → Prop} {xs : List β} {ys : List γ}
    (h : List.Forall₂ R xs ys) {y : γ} (hy : y ∈ ys) : ∃ x ∈ xs, R x y := by
  induction h with
  | nil => cases hy
  | cons hxy _ ih =>
      rcases List.mem_cons.1 hy with rfl | hy
      · exact ⟨_, List.mem_cons_self, hxy⟩
      · obtain ⟨x, hx, hxy⟩ := ih hy
        exact ⟨x, List.mem_cons_of_mem _ hx, hxy⟩

end

/-! ## Bytes -/

/-- A byte as scripts write it: a text of this byte alone, or its number. -/
def Denotes (d : Datum) (b : UInt8) : Prop := d = .text [b] ∨ d = .int b.toNat

theorem byteOf_eq_ok_iff {d : Datum} {b : UInt8} : byteOf d = .ok b ↔ Denotes d b := by
  constructor
  · intro h
    unfold byteOf at h
    split at h
    · cases h
      exact .inl rfl
    · cases h
    · rename_i n
      split at h
      · rename_i hrange
        cases h
        right
        rw [UInt8.toNat_ofNat', Nat.mod_eq_of_lt (by omega), Int.toNat_of_nonneg hrange.1]
      · cases h
    · cases h
  · rintro (rfl | rfl)
    · rfl
    · have hlt := b.toNat_lt
      rw [byteOf, if_pos (by omega), Int.toNat_natCast, UInt8.ofNat_toNat]

/-! ## Taking arguments -/

section

variable {α : Type} [Passable α] {params : List Parameter} {args : List α}
  {named : List (Bytes × α)} {slots slots' : Slots α}

/-- Every value is of the kind that its parameter takes. -/
def Fitting (slots : Slots α) : Prop :=
  ∀ slot ∈ slots, ∀ v, slot.2 = some v → slot.1.takes.check v = .ok ()

/-- Slots get what is given by name, each value one that had none. -/
structure Fills (slots slots' : Slots α) (given : List (Bytes × α)) : Prop where
  params : slots'.map Prod.fst = slots.map Prod.fst
  perm : (slots'.filterMap Prod.snd).Perm (slots.filterMap Prod.snd ++ given.map Prod.snd)
  known : ∀ k ∈ given.map Prod.fst, k ∈ (slots.map Prod.fst).map fun p => Bytes.ofString p.name
  fits : Fitting slots → Fitting slots'

theorem Fills.nil (slots : Slots α) : Fills slots slots [] :=
  ⟨rfl, by simp, by simp, id⟩

theorem Fills.cons {mid : Slots α} {entry : Bytes × α} {rest : List (Bytes × α)}
    (h : Fills slots mid [entry]) (h' : Fills mid slots' rest) :
    Fills slots slots' (entry :: rest) where
  params := h'.params.trans h.params
  perm := by
    refine h'.perm.trans ((h.perm.append_right _).trans ?_)
    simp
  known := by
    intro k hk
    rcases List.mem_cons.1 hk with rfl | hk
    · exact h.known _ (by simp)
    · rw [← h.params]
      exact h'.known k hk
  fits hslots := h'.fits (h.fits hslots)

theorem fillPositions_eq (hlen : args.length ≤ params.length)
    (h : fillPositions params args = .ok slots) :
    slots.map Prod.fst = params ∧ slots.filterMap Prod.snd = args ∧ Fitting slots := by
  induction params generalizing args slots with
  | nil =>
      have hargs : args = [] := List.eq_nil_of_length_eq_zero (Nat.le_zero.1 hlen)
      cases h
      exact ⟨rfl, hargs.symm, by simp [Fitting]⟩
  | cons p ps ih =>
      cases args with
      | nil =>
          -- The parameters past the last argument stay without a value.
          cases h
          refine ⟨by simp [Function.comp_def], by simp, ?_⟩
          intro slot hslot v hv
          obtain ⟨q, -, rfl⟩ := List.mem_map.1 hslot
          cases hv
      | cons v vs =>
          rw [fillPositions] at h
          split at h
          · cases h
          · rename_i hcheck
            split at h
            · cases h
            · rename_i rest hrest
              cases h
              obtain ⟨hparams, hvalues, hfits⟩ := ih (by simpa using hlen) hrest
              refine ⟨by rw [List.map_cons, hparams], by simp [hvalues], ?_⟩
              intro slot hslot w hw
              rcases List.mem_cons.1 hslot with rfl | hslot
              · cases hw
                exact hcheck
              · exact hfits slot hslot w hw

theorem fills_fillNamed {all : List Parameter} {name : Bytes} {v : α}
    (h : fillNamed all name v slots = .ok slots') : Fills slots slots' [(name, v)] := by
  induction slots generalizing slots' with
  | nil => cases h
  | cons slot rest ih =>
      obtain ⟨p, w⟩ := slot
      rw [fillNamed] at h
      by_cases hname : Bytes.ofString p.name = name
      · rw [if_pos hname] at h
        -- The first slot of the name takes the value, if it has none yet.
        cases w with
        | some w => cases h
        | none =>
            rw [if_neg (by simp)] at h
            split at h
            · cases h
            · rename_i hcheck
              cases h
              refine ⟨rfl, ?_, by simp [hname], ?_⟩
              · simpa using (List.perm_append_singleton v (rest.filterMap Prod.snd)).symm
              · intro hslots slot hslot x hx
                rcases List.mem_cons.1 hslot with rfl | hslot
                · cases hx
                  exact hcheck
                · exact hslots slot (List.mem_cons_of_mem _ hslot) x hx
      · rw [if_neg hname] at h
        split at h
        · cases h
        · rename_i rest' hrest
          cases h
          obtain ⟨hparams, hperm, hknown, hfits⟩ := ih hrest
          refine ⟨by rw [List.map_cons, List.map_cons, hparams], ?_, ?_, ?_⟩
          · cases w with
            | none => simpa using hperm
            | some w => simpa using hperm.cons w
          · intro k hk
            exact List.mem_cons_of_mem _ (hknown k hk)
          · intro hslots slot hslot x hx
            rcases List.mem_cons.1 hslot with rfl | hslot
            · exact hslots _ List.mem_cons_self x hx
            · exact hfits (fun s hs => hslots s (List.mem_cons_of_mem _ hs)) slot hslot x hx

theorem fills_foldlM {all : List Parameter}
    (h : named.foldlM (fun s (k, v) => fillNamed all k v s) slots = .ok slots') :
    Fills slots slots' named := by
  induction named generalizing slots with
  | nil =>
      cases h
      exact Fills.nil _
  | cons entry rest ih =>
      rw [List.foldlM_cons] at h
      obtain ⟨mid, hfill, h⟩ := bind_eq_ok_iff.1 h
      exact (fills_fillNamed hfill).cons (ih h)

/-- The values that parameters have taken from the arguments of a call. -/
structure Taken (params : List Parameter) (args : List α) (named : List (Bytes × α))
    (values : List (Option α)) : Prop where
  fits : List.Forall₂ (fun p v => ∀ x, v = some x → p.takes.check x = .ok ()) params values
  perm : (values.filterMap id).Perm (args ++ named.map Prod.snd)
  known : ∀ k ∈ named.map Prod.fst, k ∈ params.map fun p => Bytes.ofString p.name

/-- No argument is lost, and none is taken that no parameter is for. -/
theorem taken_of_takeNamed {values : List (Option α)}
    (h : takeNamed params args named = .ok values) : Taken params args named values := by
  unfold takeNamed at h
  obtain ⟨hlen, h⟩ := of_guard_eq_ok h
  obtain ⟨start, hstart, h⟩ := bind_eq_ok_iff.1 h
  obtain ⟨slots, hslots, h⟩ := bind_eq_ok_iff.1 h
  obtain ⟨hparams, hvalues, hfits⟩ := fillPositions_eq (Nat.not_lt.1 hlen) hstart
  have hfills := fills_foldlM hslots
  split at h
  · cases h
  · cases h
    have hall := hfills.params.trans hparams
    refine ⟨?_, ?_, ?_⟩
    · rw [← hall, List.forall₂_map_left_iff, List.forall₂_map_right_iff, List.forall₂_same]
      exact hfills.fits hfits
    · rw [List.filterMap_map, ← hvalues]
      exact hfills.perm
    · rw [← hparams]
      exact hfills.known

/-- The value of a parameter is one of the arguments. -/
theorem Taken.mem {values : List (Option α)} (h : Taken params args named values) {i : Nat} {v : α}
    (hv : (values[i]?).join = some v) : v ∈ args ++ named.map Prod.snd := by
  refine h.perm.mem_iff.1 (List.mem_filterMap.2 ⟨some v, ?_, rfl⟩)
  exact List.mem_of_getElem? (Option.join_eq_some_iff.1 hv)

end

/-! ## Calls that come back -/

/-- No value stands inside itself in the arguments of a call. -/
def FiniteArgs (args : List Datum) (named : List (Bytes × Datum)) : Prop :=
  ∀ d ∈ args ++ named.map Prod.snd, d.isFinite = true

namespace Builtin

open Reply (Tame)

variable {args : List Datum} {named : List (Bytes × Datum)} {values : List (Option Datum)}

theorem call_eq_ok_iff {b : Builtin} {d : Datum} :
    b.call args named = .ok d ↔ b.run args named = .ok d := by
  rw [call, Reply.recover_eq_ok_iff, Reply.mapError_eq_ok_iff]

/-- A call that fails names the builtin. -/
theorem exists_fault_of_call_eq_error {b : Builtin} {e : CallError}
    (h : b.call args named = .error e) : ∃ fault, e = ⟨b.name, fault⟩ := by
  unfold call at h
  generalize b.run args named = r at h
  rcases r with d | fault | ⟨why | what⟩ | _
  · cases h
  · cases h
    exact ⟨fault, rfl⟩
  · cases h
    exact ⟨.build why, rfl⟩
  · cases h
  · cases h

theorem tame_opsAt (values : List (Option Datum)) (i : Nat) :
    (opsAt values i).Tame (((values[i]?).join.getD .none).ops = .endless) := by
  unfold opsAt
  cases (values[i]?).join with
  | none => exact .ok
  | some d => exact (Datum.tame_ops d).mapError

theorem tame_caseOf (entry : Datum × Datum) : (caseOf entry).Tame (entry.2.ops = .endless) :=
  Tame.of.bind fun _ _ => (Datum.tame_ops entry.2).mapError.bind fun _ _ => .ok

section

variable {params : List Parameter} {loops : Prop} {i : Nat}

/-- The ops of an argument are come by, if the arguments are finite. -/
theorem tame_opsAt_of_taken (h : Taken params args named values) :
    (opsAt values i).Tame (¬ FiniteArgs args named) := by
  refine (tame_opsAt values i).imp fun hendless hfinite => ?_
  cases hv : (values[i]?).join with
  | none =>
      rw [hv] at hendless
      cases hendless
  | some d =>
      rw [hv] at hendless
      exact Datum.ops_ne_endless (hfinite d (h.mem hv)) hendless

theorem tame_cases_of_taken (h : Taken params args named values) :
    ((entriesAt values i).mapM caseOf).Tame (¬ FiniteArgs args named) := by
  refine .mapM fun entry hentry => (tame_caseOf entry).imp fun hendless hfinite => ?_
  unfold entriesAt at hentry
  split at hentry
  · rename_i entries hentries
    have hdict := hfinite _ (h.mem hentries)
    rw [Datum.isFinite, Datum.areFiniteEntries_iff] at hdict
    exact Datum.ops_ne_endless (hdict entry hentry).2 hendless
  · cases hentry

theorem tame_opsOf {ds : List Datum} (h : ds ⊆ args) :
    (Datum.opsOf ds).Tame (¬ FiniteArgs args named) := by
  have hlist : Datum.opsOf ds = (Datum.list ds).ops := by rw [Datum.ops]
  rw [hlist]
  refine (Datum.tame_ops _).imp fun hendless hfinite => Datum.ops_ne_endless ?_ hendless
  rw [Datum.isFinite, Datum.areFinite_iff]
  exact fun d hd => hfinite d (List.mem_append_left _ (h hd))

end

/-- No panic gets out of a call but one that carries an error, and a call with finite arguments
comes back. -/
theorem tame_run (b : Builtin) (args : List Datum) (named : List (Bytes × Datum)) :
    (b.run args named).Tame (¬ FiniteArgs args named) := by
  cases b with
  | add | shift | zero | read | write | writeS | assertZero | push | pop =>
      exact .bind .of fun _ _ => .ok
  | move | copy => exact .bind .of fun _ _ => .bind .orPanic fun _ _ => .ok
  | writeN =>
      exact .bind .of fun _ _ => .bind .of fun _ _ => .bind .orPanic fun _ _ => .ok
  | initStack => exact .bind .of fun _ _ => .bind .orPanic fun _ _ => .ok
  | loop =>
      rw [run]
      refine .guard ?_
      exact .bind (tame_opsOf (List.Subset.refl args)).mapError fun _ _ => .ok
  | off =>
      rw [run]
      refine .guard ?_
      refine .bind .of fun offsets _ => ?_
      cases offsets with
      | nil => exact .ok
      | cons reference targets => exact .ok
  | ifEqThen =>
      cases args with
      | nil => exact .error
      | cons lit body =>
          refine .bind .of fun _ _ => .bind ?_ fun _ _ => .bind .orPanic fun _ _ => .ok
          exact (tame_opsOf (List.subset_cons_self lit body)).mapError
  | ifConseq | ifTmps =>
      refine .bind .of fun values hvalues => ?_
      have htaken := taken_of_takeNamed (Reply.of_eq_ok_iff.1 hvalues)
      refine .bind (tame_opsAt_of_taken htaken) fun _ _ => ?_
      exact .bind (tame_opsAt_of_taken htaken) fun _ _ => .bind .orPanic fun _ _ => .ok
  | switch =>
      refine .bind .of fun values hvalues => ?_
      have htaken := taken_of_takeNamed (Reply.of_eq_ok_iff.1 hvalues)
      refine .bind (tame_cases_of_taken htaken) fun _ _ => ?_
      exact .bind (tame_opsAt_of_taken htaken) fun _ _ => .bind .orPanic fun _ _ => .ok

/-- Whatever the arguments, no panic gets out of a call. -/
theorem call_ne_panic (b : Builtin) (args : List Datum) (named : List (Bytes × Datum)) (p : Panic) :
    b.call args named ≠ .panic p :=
  (tame_run b args named).mapError.recover_ne_panic _ p

/-- A call with finite arguments comes back. -/
theorem call_ne_endless {b : Builtin} (h : FiniteArgs args named) :
    b.call args named ≠ .endless :=
  fun hendless => (tame_run b args named).mapError.recover_endless hendless h

end Builtin

end TapeForge.Script

import TapeForge.Proofs.Calls
import TapeForge.Proofs.Provenance.Carrier
import TapeForge.Script.Call

/-!
# Parameters get what arguments have

Passing arguments moves values: the ops in what the parameters of a function get are those in the
arguments of the call, and in the values that the parameters have by default.
-/

namespace TapeForge.Script

/-! ## Parameters of builtins -/

section

variable {p : Op → Prop} {α : Type} [HasOps α]

instance : OpFree Parameter where

theorem allOps_unfilled (params : List Parameter) :
    AllOps p (params.map fun p => (p, none) : Slots α) :=
  allOps_map.2 fun _ _ => ⟨trivial, allOps_none⟩

variable [Passable α]

theorem allOps_fillPositions {params : List Parameter} {args : List α} {slots : Slots α}
    (hargs : AllOps p args) (h : fillPositions params args = .ok slots) :
    AllOps p slots := by
  induction params generalizing args slots with
  | nil =>
    cases h
    exact allOps_nil
  | cons p ps ih =>
    cases args with
    | nil =>
      cases h
      exact allOps_unfilled (p :: ps)
    | cons v vs =>
      obtain ⟨hv, hvs⟩ := allOps_cons.1 hargs
      rw [fillPositions] at h
      split at h
      · cases h
      · split at h
        · cases h
        · rename_i hrest
          cases h
          exact allOps_cons.2 ⟨⟨trivial, allOps_some.2 hv⟩, ih hvs hrest⟩

theorem allOps_fillNamed {all : List Parameter} {name : Bytes} {v : α}
    {slots slots' : Slots α} (hslots : AllOps p slots) (hv : AllOps p v)
    (h : fillNamed all name v slots = .ok slots') : AllOps p slots' := by
  induction slots generalizing slots' with
  | nil => cases h
  | cons slot slots ih =>
    obtain ⟨hslot, hrest⟩ := allOps_cons.1 hslots
    rw [fillNamed] at h
    split at h
    · split at h
      · cases h
      · split at h
        · cases h
        · cases h
          exact allOps_cons.2 ⟨⟨trivial, allOps_some.2 hv⟩, hrest⟩
    · split at h
      · cases h
      · rename_i hrest'
        cases h
        exact allOps_cons.2 ⟨hslot, ih hrest hrest'⟩

theorem allOps_fillAllNamed {all : List Parameter} {named : List (Bytes × α)}
    {slots slots' : Slots α} (hslots : AllOps p slots) (hnamed : AllOps p named)
    (h : named.foldlM (fun s (k, v) => fillNamed all k v s) slots = .ok slots') :
    AllOps p slots' := by
  induction named generalizing slots with
  | nil =>
    cases h
    exact hslots
  | cons entry named ih =>
    obtain ⟨hentry, hnamed⟩ := allOps_cons.1 hnamed
    rw [List.foldlM_cons] at h
    obtain ⟨slots, hfill, h⟩ := bind_eq_ok_iff.1 h
    exact ih (allOps_fillNamed hslots hentry.2 hfill) hnamed h

/-- The values that parameters get come from the arguments. -/
theorem allOps_takeNamed {params : List Parameter} {args : List α}
    {named : List (Bytes × α)} {values : List (Option α)} (hargs : AllOps p args)
    (hnamed : AllOps p named) (h : takeNamed params args named = .ok values) :
    AllOps p values := by
  unfold takeNamed at h
  obtain ⟨-, h⟩ := of_guard_eq_ok h
  obtain ⟨slots, hslots, h⟩ := bind_eq_ok_iff.1 h
  obtain ⟨slots', hslots', h⟩ := bind_eq_ok_iff.1 h
  have hfilled := allOps_fillAllNamed (allOps_fillPositions hargs hslots) hnamed hslots'
  split at h
  · cases h
  · cases h
    exact allOps_map.2 fun slot hslot => (hfilled slot hslot).2

end

/-! ## Parameters of functions -/

section

variable {p : Op → Prop}

theorem allOps_bindPositions {ps : List String} {args : List Value} (h : AllOps p args) :
    AllOps p (bindPositions ps args) := by
  fun_induction bindPositions ps args with
  | case1 p ps v vs ih =>
    obtain ⟨hv, hvs⟩ := allOps_cons.1 h
    exact allOps_cons.2 ⟨⟨trivial, allOps_some.2 hv⟩, ih hvs⟩
  | case2 => exact allOps_map.2 fun _ _ => ⟨trivial, allOps_none⟩

theorem allOps_bindName {x : Bytes} {v : Value} {bs bs' : Bindings} (hv : AllOps p v)
    (hbs : AllOps p bs) (h : bindName x v bs = some (some bs')) : AllOps p bs' := by
  induction bs generalizing bs' with
  | nil => cases h
  | cons b bs ih =>
    obtain ⟨p, w⟩ := b
    obtain ⟨hb, hrest⟩ := allOps_cons.1 hbs
    rw [bindName] at h
    split at h
    · split at h
      · cases h
      · cases h
        exact allOps_cons.2 ⟨⟨trivial, allOps_some.2 hv⟩, hrest⟩
    · cases hname : bindName x v bs with
      | none => simp [hname] at h
      | some found =>
        cases found with
        | none => simp [hname] at h
        | some bs'' =>
          simp only [hname, Option.map_some, Option.some.injEq] at h
          subst h
          exact allOps_cons.2 ⟨hb, ih hrest hname⟩

theorem allOps_bindNamed {takesRest : Bool} {bs : Bindings} {extra named : List (Bytes × Value)}
    {r : Bindings × List (Bytes × Value)} (hbs : AllOps p bs) (hextra : AllOps p extra)
    (hnamed : AllOps p named) (h : bindNamed takesRest bs extra named = .ok r) :
    AllOps p r := by
  induction named generalizing bs extra with
  | nil =>
    cases h
    exact ⟨hbs, hextra⟩
  | cons entry named ih =>
    obtain ⟨k, v⟩ := entry
    obtain ⟨hentry, hnamed⟩ := allOps_cons.1 hnamed
    rw [bindNamed] at h
    split at h
    · rename_i bs' hname
      exact ih (allOps_bindName hentry.2 hbs hname) hextra hnamed h
    · cases h
    · split at h
      · cases h
      · split at h
        · cases h
        · refine ih hbs (allOps_append.2 ⟨hextra, ?_⟩) hnamed h
          exact allOps_cons.2 ⟨hentry, allOps_nil⟩

instance : HasOps Bound where
  AllOps p b := AllOps p b.values ∧ AllOps p b.rest ∧ AllOps p b.restNamed

/-- What a call binds comes from its arguments and from the default values. -/
theorem allOps_bindArguments {f : Closure} {args : List Value} {named : List (Bytes × Value)}
    {b : Bound} (hf : AllOps p f.defaults) (hargs : AllOps p args) (hnamed : AllOps p named)
    (h : bindArguments f args named = .ok b) : AllOps p b := by
  unfold bindArguments at h
  obtain ⟨-, h⟩ := of_guard_eq_ok h
  obtain ⟨-, h⟩ := of_guard_eq_ok h
  obtain ⟨⟨bs, extra⟩, hbs, h⟩ := bind_eq_ok_iff.1 h
  obtain ⟨-, h⟩ := of_guard_eq_ok h
  have hstart : AllOps p
      (bindPositions f.positional args ++ f.named.map fun p => (p, none) : Bindings) :=
    allOps_append.2
      ⟨allOps_bindPositions hargs, allOps_map.2 fun _ _ => ⟨trivial, allOps_none⟩⟩
  have hbound := allOps_bindNamed hstart allOps_nil hnamed hbs
  cases h
  refine ⟨?_, allOps_drop hargs _, hbound.2⟩
  intro x hx
  obtain ⟨y, hy, hsome⟩ := List.mem_filterMap.1 hx
  obtain ⟨b, hb, rfl⟩ := List.mem_map.1 hy
  obtain ⟨w, hw, rfl⟩ := Option.map_eq_some_iff.1 hsome
  refine ⟨trivial, ?_⟩
  -- The value was given by the call, or it is the default.
  rcases Option.or_eq_some_iff.1 hw with hw | ⟨-, hw⟩
  · exact (hbound.1 b hb).2 w hw
  · exact allOps_lookup hf hw

end

end TapeForge.Script

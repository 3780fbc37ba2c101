import Mathlib.Logic.Relation
import TapeForge.Proofs.Replies
import TapeForge.Script.Interpreter

/-!
# What a program is made of

The leaves of a datum are what is left of it when every sequence in it gives way to its elements. A
program is the leaves that are ops, and `None` among them counts for nothing; the first leaf that is
neither is what is wrong with it. So nothing depends on how the leaves are grouped: data that can
be regrouped into one another are the same program, and a script may bind either.
-/

namespace TapeForge

namespace Datum

/-! ## Leaves -/

def rangeElems (start stop step : Int64) : List Datum :=
  (List.range (rangeLength start stop step)).map fun i =>
    int (start + Int64.ofNat i * step).toInt

/-- The elements of a sequence. Texts and bytes are none, but the elements of a text are one. -/
def elems? : Datum → Option (List Datum)
  | list elems => some elems
  | tuple elems => some elems
  | range start stop step => some (rangeElems start stop step)
  | view .elems s => some (s.map fun b => text [b])
  | view .elemOrds s => some (s.map fun b => int b.toNat)
  | _ => Option.none

mutual

def leaves : Datum → List Datum
  | list elems => leavesOf elems
  | tuple elems => leavesOf elems
  | d => d.elems?.getD [d]

def leavesOf : List Datum → List Datum
  | [] => []
  | d :: ds => leaves d ++ leavesOf ds

end

/-- What programs are made of: ops, and `None`. -/
def isMaterial : Datum → Bool
  | op _ => true
  | none => true
  | _ => false

def isNone : Datum → Bool
  | none => true
  | _ => false

def op? : Datum → Option Op
  | op o => some o
  | _ => Option.none

def refusal : Datum → NotOps
  | text s => .text s
  | bytes s => .bytes s
  | d => .type d.typeName

/-- What a leaf makes of a program when it is neither an op nor `None`: a list inside itself has
leaves without end. -/
def reject : Datum → Reply NotOps (List Op)
  | again .list => .endless
  | d => .error d.refusal

/-- The program of leaves. -/
def assemble (ls : List Datum) : Reply NotOps (List Op) :=
  match ls.find? fun l => !l.isMaterial with
  | some l => l.reject
  | Option.none => .ok (ls.filterMap op?)

theorem leavesOf_append (ds es : List Datum) :
    leavesOf (ds ++ es) = leavesOf ds ++ leavesOf es := by
  induction ds with
  | nil => rw [leavesOf, List.nil_append, List.nil_append]
  | cons d ds ih => rw [List.cons_append, leavesOf, leavesOf, ih, List.append_assoc]

theorem assemble_of_material {ls : List Datum} (h : ∀ l ∈ ls, l.isMaterial = true) :
    assemble ls = .ok (ls.filterMap op?) := by
  have hfind : ls.find? (fun l => !l.isMaterial) = Option.none :=
    List.find?_eq_none.2 fun l hl => by simp [h l hl]
  rw [assemble, hfind]

theorem assemble_of_rejected {before after : List Datum} {l : Datum}
    (h : ∀ k ∈ before, k.isMaterial = true) (hl : l.isMaterial = false) :
    assemble (before ++ l :: after) = l.reject := by
  have hfind : before.find? (fun l => !l.isMaterial) = Option.none :=
    List.find?_eq_none.2 fun k hk => by simp [h k hk]
  rw [assemble, List.find?_append, hfind, Option.none_or, List.find?_cons_of_pos (by simp [hl])]

/-- Leaves are all ops or `None`, or there is a first that is neither. -/
theorem material_or_rejected (ls : List Datum) :
    (∀ l ∈ ls, l.isMaterial = true) ∨
      ∃ before l after, ls = before ++ l :: after ∧ (∀ k ∈ before, k.isMaterial = true) ∧
        l.isMaterial = false := by
  cases hfind : ls.find? fun l => !l.isMaterial with
  | none =>
      left
      intro l hl
      simpa using List.find?_eq_none.1 hfind l hl
  | some l =>
      right
      obtain ⟨hl, before, after, rfl, hbefore⟩ := List.find?_eq_some_iff_append.1 hfind
      exact ⟨before, l, after, rfl, by simpa using hbefore, by simpa using hl⟩

theorem reject_bind (l : Datum) (f : List Op → Reply NotOps (List Op)) :
    (l.reject >>= f) = l.reject := by
  unfold reject
  split <;> rfl

theorem assemble_append (ls ms : List Datum) :
    assemble (ls ++ ms) = do return (← assemble ls) ++ (← assemble ms) := by
  rcases material_or_rejected ls with hls | ⟨before, l, after, rfl, hbefore, hl⟩
  · rw [assemble_of_material hls]
    rcases material_or_rejected ms with hms | ⟨before, l, after, rfl, hbefore, hl⟩
    · rw [assemble_of_material hms, assemble_of_material]
      · rw [List.filterMap_append]
        rfl
      · exact List.forall_mem_append.2 ⟨hls, hms⟩
    · rw [assemble_of_rejected hbefore hl, ← List.append_assoc, assemble_of_rejected _ hl]
      · exact (reject_bind l _).symm
      · exact List.forall_mem_append.2 ⟨hls, hbefore⟩
  · rw [List.append_assoc, List.cons_append, assemble_of_rejected hbefore hl,
      assemble_of_rejected hbefore hl, reject_bind]

/-! ## Flattening -/

theorem assemble_rangeElems (start stop step : Int64) :
    assemble (rangeElems start stop step) =
      if rangeLength start stop step = 0 then .ok [] else .error (.type "int") := by
  unfold rangeElems
  cases rangeLength start stop step with
  | zero => rfl
  | succ n =>
      rw [List.range_succ_eq_map, List.map_cons, if_neg (Nat.succ_ne_zero n)]
      rfl

mutual

/-- Flattening a datum is putting its leaves together. -/
theorem ops_eq_assemble : ∀ d : Datum, d.ops = assemble d.leaves
  | .list elems => by rw [ops, leaves, opsOf_eq_assemble elems]
  | .tuple elems => by rw [ops, leaves, opsOf_eq_assemble elems]
  | .range start stop step => (assemble_rangeElems start stop step).symm
  | .view .elems [] | .view .elemOrds [] => rfl
  | .view .elems (_ :: _) | .view .elemOrds (_ :: _) => rfl
  | .view .codepoints _ | .view .codepointOrds _ | .view .bytesElems _ => rfl
  | .none | .bool _ | .int _ | .float _ | .text _ | .bytes _ | .dict _ | .set _ | .op _ => rfl
  | .function _ | .builtin _ | .method _ _ | .again .list | .again .dict => rfl

theorem opsOf_eq_assemble : ∀ ds : List Datum, opsOf ds = assemble (leavesOf ds)
  | [] => rfl
  | d :: ds => by
      rw [opsOf, leavesOf, assemble_append, ops_eq_assemble d, opsOf_eq_assemble ds]

end

theorem ops_of_material {d : Datum} (h : ∀ l ∈ d.leaves, l.isMaterial = true) :
    d.ops = .ok (d.leaves.filterMap op?) := by
  rw [ops_eq_assemble, assemble_of_material h]

theorem ops_of_rejected {d l : Datum} {before after : List Datum}
    (hd : d.leaves = before ++ l :: after) (h : ∀ k ∈ before, k.isMaterial = true)
    (hl : l.isMaterial = false) : d.ops = l.reject := by
  rw [ops_eq_assemble, hd, assemble_of_rejected h hl]

/-! ## Finite data -/

mutual

/-- Whether nothing in a datum stands inside itself. -/
def isFinite : Datum → Bool
  | list elems => areFinite elems
  | tuple elems => areFinite elems
  | dict entries => areFiniteEntries entries
  | set elems => areFinite elems
  | again _ => false
  | _ => true

def areFinite : List Datum → Bool
  | [] => true
  | d :: ds => isFinite d && areFinite ds

def areFiniteEntries : List (Datum × Datum) → Bool
  | [] => true
  | (k, v) :: rest => isFinite k && isFinite v && areFiniteEntries rest

end

theorem areFinite_iff {ds : List Datum} :
    areFinite ds = true ↔ ∀ d ∈ ds, d.isFinite = true := by
  induction ds with
  | nil => simp [areFinite]
  | cons d ds ih => rw [areFinite, Bool.and_eq_true, ih, List.forall_mem_cons]

theorem areFiniteEntries_iff {es : List (Datum × Datum)} :
    areFiniteEntries es = true ↔ ∀ e ∈ es, e.1.isFinite = true ∧ e.2.isFinite = true := by
  induction es with
  | nil => simp [areFiniteEntries]
  | cons e es ih =>
      rw [areFiniteEntries, Bool.and_eq_true, Bool.and_eq_true, ih, List.forall_mem_cons]

mutual

/-- No leaf of a finite datum is a list inside itself. -/
theorem ne_again_of_mem_leaves : ∀ (d : Datum), d.isFinite = true → ∀ l ∈ d.leaves, l ≠ .again .list
  | .list elems, h, l, hl => by
      rw [isFinite] at h
      rw [leaves] at hl
      exact ne_again_of_mem_leavesOf elems h l hl
  | .tuple elems, h, l, hl => by
      rw [isFinite] at h
      rw [leaves] at hl
      exact ne_again_of_mem_leavesOf elems h l hl
  | .range start stop step, _, l, hl => by
      obtain ⟨i, -, rfl⟩ := List.mem_map.1 hl
      exact nofun
  | .view .elems s, _, l, hl | .view .elemOrds s, _, l, hl => by
      obtain ⟨b, -, rfl⟩ := List.mem_map.1 hl
      exact nofun
  | .view .codepoints _, _, l, hl | .view .codepointOrds _, _, l, hl
  | .view .bytesElems _, _, l, hl => by
      cases List.mem_singleton.1 hl
      exact nofun
  | .none, _, l, hl | .bool _, _, l, hl | .int _, _, l, hl | .float _, _, l, hl
  | .text _, _, l, hl | .bytes _, _, l, hl | .dict _, _, l, hl | .set _, _, l, hl
  | .op _, _, l, hl | .function _, _, l, hl | .builtin _, _, l, hl | .method _ _, _, l, hl => by
      cases List.mem_singleton.1 hl
      exact nofun
  | .again _, h, _, _ => by
      rw [isFinite] at h
      cases h

theorem ne_again_of_mem_leavesOf : ∀ (ds : List Datum), areFinite ds = true →
    ∀ l ∈ leavesOf ds, l ≠ .again .list
  | [], _, l, hl => by
      rw [leavesOf] at hl
      cases hl
  | d :: ds, h, l, hl => by
      rw [areFinite, Bool.and_eq_true] at h
      rw [leavesOf] at hl
      rcases List.mem_append.1 hl with hl | hl
      · exact ne_again_of_mem_leaves d h.1 l hl
      · exact ne_again_of_mem_leavesOf ds h.2 l hl

end

theorem reject_eq_error_iff {l : Datum} {e : NotOps} :
    l.reject = .error e ↔ l ≠ .again .list ∧ e = l.refusal := by
  unfold reject
  split
  · simp
  · rename_i hl
    rw [Reply.error.injEq, and_iff_right hl, eq_comm]

theorem reject_eq_endless_iff {l : Datum} : l.reject = .endless ↔ l = .again .list := by
  unfold reject
  split
  · simp
  · rename_i hl
    simpa using hl

theorem ok_ne_reject (os : List Op) (l : Datum) : .ok os ≠ l.reject := by
  unfold reject
  split <;> exact nofun

theorem exists_rejected_of_ops_ne_ok {d : Datum} (h : ∀ os, d.ops ≠ .ok os) :
    ∃ before l after, d.leaves = before ++ l :: after ∧ (∀ k ∈ before, k.isMaterial = true) ∧
      l.isMaterial = false ∧ d.ops = l.reject := by
  rcases material_or_rejected d.leaves with hall | ⟨before, l, after, hd, hbefore, hl⟩
  · exact absurd (ops_of_material hall) (h _)
  · exact ⟨before, l, after, hd, hbefore, hl, ops_of_rejected hd hbefore hl⟩

theorem ops_eq_ok_iff {d : Datum} :
    (∃ os, d.ops = .ok os) ↔ ∀ l ∈ d.leaves, l.isMaterial = true := by
  constructor
  · rintro ⟨os, hos⟩
    rcases material_or_rejected d.leaves with hall | ⟨before, l, after, hd, hbefore, hl⟩
    · exact hall
    · exact absurd (hos.symm.trans (ops_of_rejected hd hbefore hl)) (ok_ne_reject os l)
  · intro hall
    exact ⟨_, ops_of_material hall⟩

/-- Flattening a finite datum comes to an end. -/
theorem ops_returns_of_isFinite {d : Datum} (h : d.isFinite = true) :
    (∃ os, d.ops = .ok os) ∨ ∃ e, d.ops = .error e := by
  rcases material_or_rejected d.leaves with hall | ⟨before, l, after, hd, hbefore, hl⟩
  · exact .inl ⟨_, ops_of_material hall⟩
  · have hagain := ne_again_of_mem_leaves d h l (by simp [hd])
    exact .inr ⟨_, (ops_of_rejected hd hbefore hl).trans (reject_eq_error_iff.2 ⟨hagain, rfl⟩)⟩

theorem ops_ne_endless {d : Datum} (h : d.isFinite = true) : d.ops ≠ .endless := by
  rcases ops_returns_of_isFinite h with ⟨os, hos⟩ | ⟨e, he⟩
  · rw [hos]
    exact nofun
  · rw [he]
    exact nofun

theorem ops_ne_panic (d : Datum) (p : Panic) : d.ops ≠ .panic p := by
  intro hp
  obtain ⟨_, l, _, _, _, _, hreject⟩ := exists_rejected_of_ops_ne_ok (d := d) (by simp [hp])
  rw [hreject] at hp
  unfold reject at hp
  split at hp <;> cases hp

theorem tame_ops (d : Datum) : d.ops.Tame (d.ops = .endless) :=
  ⟨fun p hp => absurd hp (d.ops_ne_panic p), id⟩

/-! ## Regrouping -/

/-- One way to write the same leaves: with `None` put in before others, or with some in a row put
into a sequence of their own, an empty one perhaps. -/
inductive Regroups : List Datum → List Datum → Prop
  | none (ds : List Datum) : Regroups ds (.none :: ds)
  | group {d : Datum} {elems : List Datum} (ds : List Datum) :
      d.elems? = some elems → Regroups (elems ++ ds) (d :: ds)
  | tail (d : Datum) {ds es : List Datum} : Regroups ds es → Regroups (d :: ds) (d :: es)

/-- Data that can be written from one another by regrouping, forth and back. -/
def Regrouped (ds es : List Datum) : Prop := Relation.EqvGen Regroups ds es

/-- The leaves of data that are not `None`. -/
def solid (ds : List Datum) : List Datum := (leavesOf ds).filter fun l => !l.isNone

theorem elems?_of_mem_rangeElems {start stop step : Int64} {d : Datum}
    (h : d ∈ rangeElems start stop step) : d.elems? = Option.none := by
  obtain ⟨i, -, rfl⟩ := List.mem_map.1 h
  rfl

/-- Data that are no sequences are their own leaves. -/
theorem leavesOf_of_no_elems {ds : List Datum} (h : ∀ d ∈ ds, d.elems? = Option.none) :
    leavesOf ds = ds := by
  induction ds with
  | nil => rfl
  | cons d ds ih =>
      obtain ⟨hd, hds⟩ := List.forall_mem_cons.1 h
      have hleaf : d.leaves = [d] := by
        cases d with
        | list elems | tuple elems => cases hd
        | _ => rw [leaves, hd, Option.getD_none] <;> simp
      rw [leavesOf, ih hds, hleaf, List.singleton_append]

theorem leaves_of_elems {d : Datum} {elems : List Datum} (h : d.elems? = some elems) :
    d.leaves = leavesOf elems := by
  unfold elems? at h
  split at h <;> cases h
  · rw [leaves]
  · rw [leaves]
  · rw [leavesOf_of_no_elems fun d => elems?_of_mem_rangeElems]
    rfl
  all_goals
    rw [leavesOf_of_no_elems fun d hd => ?_]
    · rfl
    · obtain ⟨b, -, rfl⟩ := List.mem_map.1 hd
      rfl

theorem solid_append (ds es : List Datum) : solid (ds ++ es) = solid ds ++ solid es := by
  rw [solid, leavesOf_append, List.filter_append]
  rfl

theorem solid_cons (d : Datum) (ds : List Datum) : solid (d :: ds) = solid [d] ++ solid ds :=
  solid_append [d] ds

theorem solid_singleton (d : Datum) : solid [d] = d.leaves.filter fun l => !l.isNone := by
  rw [solid, leavesOf, leavesOf.eq_def [], List.append_nil]

theorem solid_of_elems {d : Datum} {elems : List Datum} (h : d.elems? = some elems) :
    solid [d] = solid elems := by
  rw [solid_singleton, leaves_of_elems h, solid]

theorem Regroups.solid_eq {ds es : List Datum} (h : Regroups ds es) : solid ds = solid es := by
  induction h with
  | none ds =>
      rw [solid_cons]
      rfl
  | @group d elems ds helems => rw [solid_append, solid_cons d, solid_of_elems helems]
  | tail d _ ih => rw [solid_cons, ih, ← solid_cons]

namespace Regrouped

theorem refl (ds : List Datum) : Regrouped ds ds := Relation.EqvGen.refl ds

theorem symm {ds es : List Datum} (h : Regrouped ds es) : Regrouped es ds :=
  Relation.EqvGen.symm _ _ h

theorem trans {ds es fs : List Datum} (h : Regrouped ds es) (h' : Regrouped es fs) :
    Regrouped ds fs :=
  Relation.EqvGen.trans _ _ _ h h'

theorem none (ds : List Datum) : Regrouped (.none :: ds) ds :=
  symm (Relation.EqvGen.rel _ _ (.none ds))

theorem ungroup {d : Datum} {elems : List Datum} (ds : List Datum) (h : d.elems? = some elems) :
    Regrouped (d :: ds) (elems ++ ds) :=
  symm (Relation.EqvGen.rel _ _ (.group ds h))

theorem tail (d : Datum) {ds es : List Datum} (h : Regrouped ds es) :
    Regrouped (d :: ds) (d :: es) := by
  induction h with
  | rel ds es h => exact Relation.EqvGen.rel _ _ (.tail d h)
  | refl ds => exact refl _
  | symm ds es _ ih => exact symm ih
  | trans ds es fs _ _ ih ih' => exact trans ih ih'

theorem prepend (ds : List Datum) {es fs : List Datum} (h : Regrouped es fs) :
    Regrouped (ds ++ es) (ds ++ fs) := by
  induction ds with
  | nil => exact h
  | cons d ds ih => exact tail d ih

theorem solid_eq {ds es : List Datum} (h : Regrouped ds es) : solid ds = solid es := by
  induction h with
  | rel ds es h => exact h.solid_eq
  | refl ds => rfl
  | symm ds es _ ih => exact ih.symm
  | trans ds es fs _ _ ih ih' => exact ih.trans ih'

end Regrouped

/-- A datum that is no sequence is itself what is left of it, unless it is `None`. -/
theorem regrouped_of_no_elems {d : Datum} (h : d.elems? = Option.none) (ds : List Datum) :
    Regrouped (d :: ds) (solid [d] ++ ds) := by
  have hleaves : solid [d] = [d].filter fun l => !l.isNone := by
    rw [solid, leavesOf_of_no_elems (by simpa using h)]
  rw [hleaves]
  cases d with
  | none => exact .none ds
  | _ => exact .refl _

/-- A sequence of data that are no sequences gives way to them. -/
theorem regrouped_of_plain_elems {d : Datum} {elems : List Datum} (h : d.elems? = some elems)
    (hplain : ∀ e ∈ elems, e.elems? = Option.none ∧ e.isNone = false) (ds : List Datum) :
    Regrouped (d :: ds) (solid [d] ++ ds) := by
  have hsolid : solid [d] = elems := by
    rw [solid_of_elems h, solid, leavesOf_of_no_elems fun e he => (hplain e he).1]
    exact List.filter_eq_self.2 fun e he => by simp [(hplain e he).2]
  rw [hsolid]
  exact .ungroup ds h

mutual

/-- A datum can be regrouped into the leaves it has. -/
theorem regrouped_solid : ∀ (d : Datum) (ds : List Datum), Regrouped (d :: ds) (solid [d] ++ ds)
  -- Taken apart, the elements of a list come before what followed it.
  | .list elems, ds => by
      rw [solid_of_elems rfl]
      exact (Regrouped.ungroup ds rfl).trans (regrouped_solidOf elems ds)
  | .tuple elems, ds => by
      rw [solid_of_elems rfl]
      exact (Regrouped.ungroup ds rfl).trans (regrouped_solidOf elems ds)
  | .range start stop step, ds => by
      refine regrouped_of_plain_elems rfl (fun e he => ?_) ds
      obtain ⟨i, -, rfl⟩ := List.mem_map.1 he
      exact ⟨rfl, rfl⟩
  | .view .elems s, ds | .view .elemOrds s, ds => by
      refine regrouped_of_plain_elems rfl (fun e he => ?_) ds
      obtain ⟨b, -, rfl⟩ := List.mem_map.1 he
      exact ⟨rfl, rfl⟩
  | .view .codepoints _, ds | .view .codepointOrds _, ds | .view .bytesElems _, ds =>
      regrouped_of_no_elems rfl ds
  | .none, ds | .bool _, ds | .int _, ds | .float _, ds | .text _, ds | .bytes _, ds
  | .dict _, ds | .set _, ds | .op _, ds => regrouped_of_no_elems rfl ds
  | .function _, ds | .builtin _, ds | .method _ _, ds | .again _, ds =>
      regrouped_of_no_elems rfl ds

theorem regrouped_solidOf : ∀ es ds : List Datum, Regrouped (es ++ ds) (solid es ++ ds)
  | [], ds => .refl ds
  | e :: es, ds => by
      rw [solid_cons, List.append_assoc, List.cons_append]
      exact (regrouped_solid e (es ++ ds)).trans ((regrouped_solidOf es ds).prepend (solid [e]))

end

/-- Regrouping keeps the leaves that are not `None`, and nothing else. -/
theorem regrouped_iff {ds es : List Datum} : Regrouped ds es ↔ solid ds = solid es := by
  constructor
  · exact Regrouped.solid_eq
  · intro h
    have hds := regrouped_solidOf ds []
    have hes := regrouped_solidOf es []
    rw [List.append_nil, List.append_nil] at hds hes
    exact hds.trans (h ▸ hes.symm)

/-! ## Programs -/

theorem assemble_filter (ls : List Datum) :
    assemble (ls.filter fun l => !l.isNone) = assemble ls := by
  induction ls with
  | nil => rfl
  | cons l ls ih =>
      rw [← List.singleton_append, List.filter_append, assemble_append, assemble_append, ih]
      cases l with
      | none => rfl
      | _ => rfl

theorem ops_of_regrouped {d d' : Datum} (h : Regrouped [d] [d']) : d.ops = d'.ops := by
  have hsolid := h.solid_eq
  rw [solid_singleton, solid_singleton] at hsolid
  rw [ops_eq_assemble, ops_eq_assemble, ← assemble_filter, hsolid, assemble_filter]

theorem leaves_ofOps (os : List Op) : (ofOps os).leaves = os.map op := by
  rw [ofOps, leaves, leavesOf_of_no_elems]
  intro d hd
  obtain ⟨o, -, rfl⟩ := List.mem_map.1 hd
  rfl

theorem ops_ofOps (os : List Op) : (ofOps os).ops = .ok os := by
  rw [ops_of_material, leaves_ofOps, List.filterMap_map]
  · exact congrArg Reply.ok (List.filterMap_eq_map.symm ▸ List.map_id os)
  · rw [leaves_ofOps]
    intro l hl
    obtain ⟨o, -, rfl⟩ := List.mem_map.1 hl
    rfl

end Datum

namespace Script

open Datum

variable {ε : Type}

/-- A script leaves `program` bound to a value, which is the datum `d`. -/
def Binds (eval : Evaluator ε) (name source : Bytes) (d : Datum) : Prop :=
  ∃ globals, (eval predeclared name source).globals = .ok globals ∧ globals "program" = some d

theorem build_of_binds {eval : Evaluator ε} {name source : Bytes} {d : Datum}
    (h : Binds eval name source d) :
    (build eval name source).program = d.ops.mapError (.notOps name) := by
  obtain ⟨globals, hglobals, hd⟩ := h
  rw [build, hglobals]
  show programOf name globals = _
  rw [programOf, hd]

/-- Whether a script leaves `program` bound to a value that passes a test. -/
def bindsTo (eval : Evaluator ε) (name source : Bytes) (test : Datum → Bool) : Bool :=
  match (eval predeclared name source).globals with
  | .ok globals => (globals "program").any test
  | _ => false

theorem exists_of_bindsTo (eval : Evaluator ε) (name source : Bytes) (test : Datum → Bool)
    (h : bindsTo eval name source test = true) : ∃ d, Binds eval name source d ∧ test d = true := by
  unfold bindsTo at h
  split at h
  · rename_i globals hglobals
    obtain ⟨d, hd, htest⟩ := Option.any_eq_true _ _ |>.1 h
    exact ⟨d, ⟨globals, hglobals, hd⟩, htest⟩
  · cases h

/-- A datum is a program exactly if its leaves are ops and `None`, and then of these ops in order;
otherwise its first other leaf is what is wrong with it, or there is no end to it, which a finite
datum always has. How leaves are grouped makes no difference, to a datum or to what is built,
whatever runs the script, nor does `None`; and a list of ops is the program of these ops. -/
theorem ops_are_leaves_in_order :
    (∀ d : Datum,
      ((∃ os, d.ops = .ok os) ↔ ∀ l ∈ d.leaves, l.isMaterial = true) ∧
      (∀ os, d.ops = .ok os → os = d.leaves.filterMap op?) ∧
      (∀ e, d.ops = .error e ↔ ∃ before l after, d.leaves = before ++ l :: after ∧
        (∀ k ∈ before, k.isMaterial = true) ∧ l.isMaterial = false ∧ l ≠ .again .list ∧
        e = l.refusal) ∧
      (d.ops = .endless ↔ ∃ before after, d.leaves = before ++ .again .list :: after ∧
        ∀ k ∈ before, k.isMaterial = true) ∧
      (d.isFinite = true → (∃ os, d.ops = .ok os) ∨ ∃ e, d.ops = .error e)) ∧
    (∀ d d' : Datum, (Regrouped [d] [d'] ↔
        d.leaves.filter (fun l => !l.isNone) = d'.leaves.filter fun l => !l.isNone) ∧
      (Regrouped [d] [d'] → d.ops = d'.ops ∧
        ∀ (ε : Type) (eval : Evaluator ε) name source source',
          Binds eval name source d → Binds eval name source' d' →
          (build eval name source).program = (build eval name source').program)) ∧
    ∀ os, (ofOps os).ops = .ok os := by
  refine ⟨fun d => ⟨ops_eq_ok_iff, ?_, ?_, ?_, ops_returns_of_isFinite⟩,
    fun d d' => ⟨?_, fun h => ⟨ops_of_regrouped h, ?_⟩⟩, ops_ofOps⟩
  · intro os h
    exact (Reply.ok.inj ((ops_of_material (ops_eq_ok_iff.1 ⟨os, h⟩)).symm.trans h)).symm
  · intro e
    constructor
    · intro h
      obtain ⟨before, l, after, hd, hbefore, hl, hreject⟩ :=
        exists_rejected_of_ops_ne_ok (d := d) (by simp [h])
      obtain ⟨hagain, rfl⟩ := reject_eq_error_iff.1 (hreject.symm.trans h)
      exact ⟨before, l, after, hd, hbefore, hl, hagain, rfl⟩
    · rintro ⟨before, l, after, hd, hbefore, hl, hagain, rfl⟩
      rw [ops_of_rejected hd hbefore hl, reject_eq_error_iff]
      exact ⟨hagain, rfl⟩
  · constructor
    · intro h
      obtain ⟨before, l, after, hd, hbefore, -, hreject⟩ :=
        exists_rejected_of_ops_ne_ok (d := d) (by simp [h])
      obtain rfl := reject_eq_endless_iff.1 (hreject.symm.trans h)
      exact ⟨before, after, hd, hbefore⟩
    · rintro ⟨before, after, hd, hbefore⟩
      rw [ops_of_rejected hd hbefore rfl, reject_eq_endless_iff]
  · rw [regrouped_iff, solid_singleton, solid_singleton]
  · intro ε eval name source source' hd hd'
    rw [build_of_binds hd, build_of_binds hd', ops_of_regrouped h]

/-- Whether a datum is two ops, the second of them deeper than the first. -/
def isDeepening : Datum → Bool
  | .list [.op .write, .tuple [.none, .list [.op .read]]] => true
  | _ => false

/-- Whether a datum is two ops, the first of them deeper than the second. -/
def isRising : Datum → Bool
  | .tuple [.list [], .list [.list [.op .write]], .op .read, .none] => true
  | _ => false

def isListOfElems : Datum → Bool
  | .list [.view .elems []] => true
  | _ => false

/-- A list with a tuple in it, and the same ops in another nesting with nothing in between. -/
theorem ops_are_leaves_in_order_of_nest :
    ∃ d d', d.isFinite = true ∧ (∃ os, d.ops = .ok os) ∧
      Binds interpreter [] (Bytes.ofString "program=[write(),(None,[read()])]") d ∧
      Binds interpreter [] (Bytes.ofString "program=([],[[write()]],read(),None)") d' ∧
      Regrouped [d] [d'] ∧
      (build interpreter [] (Bytes.ofString "program=[write(),(None,[read()])]")).program =
        .ok [.write, .read] ∧
      (build interpreter [] (Bytes.ofString "program=([],[[write()]],read(),None)")).program =
        .ok [.write, .read] := by
  obtain ⟨d, hd, hshape⟩ := exists_of_bindsTo interpreter []
    (Bytes.ofString "program=[write(),(None,[read()])]") isDeepening (by decide +kernel)
  obtain ⟨d', hd', hshape'⟩ := exists_of_bindsTo interpreter []
    (Bytes.ofString "program=([],[[write()]],read(),None)") isRising (by decide +kernel)
  unfold isDeepening at hshape
  unfold isRising at hshape'
  split at hshape <;> cases hshape
  split at hshape' <;> cases hshape'
  obtain ⟨hwhat, hregroup, -⟩ := ops_are_leaves_in_order
  obtain ⟨hiff, hsame⟩ := hregroup (.list [.op .write, .tuple [.none, .list [.op .read]]])
    (.tuple [.list [], .list [.list [.op .write]], .op .read, .none])
  obtain ⟨-, hbuild⟩ := hsame (hiff.2 rfl)
  have hprogram := build_of_binds hd
  refine ⟨_, _, rfl, ?_, hd, hd', hiff.2 rfl, hprogram, ?_⟩
  · obtain ⟨hok, -⟩ := hwhat (.list [.op .write, .tuple [.none, .list [.op .read]]])
    exact hok.2 (by simp [leaves, leavesOf, elems?, isMaterial])
  · exact (hbuild _ _ _ _ _ hd hd').symm.trans hprogram

/-- The elements of an empty text are neither an op nor `None`, and no list, tuple or range; still
they are a program, of no ops. -/
theorem empty_elements_are_a_program :
    (∀ o elems start stop step, Datum.view .elems [] ≠ .op o ∧ Datum.view .elems [] ≠ .none ∧
      Datum.view .elems [] ≠ .list elems ∧ Datum.view .elems [] ≠ .tuple elems ∧
      Datum.view .elems [] ≠ .range start stop step) ∧
    (Datum.list [.view .elems []]).ops = .ok [] ∧
    Binds interpreter [] (Bytes.ofString "program=[\"\".elems()]") (.list [.view .elems []]) ∧
    (build interpreter [] (Bytes.ofString "program=[\"\".elems()]")).program = .ok [] := by
  obtain ⟨d, hd, hshape⟩ := exists_of_bindsTo interpreter []
    (Bytes.ofString "program=[\"\".elems()]") isListOfElems (by decide +kernel)
  unfold isListOfElems at hshape
  split at hshape <;> cases hshape
  exact ⟨by simp, rfl, hd, build_of_binds hd⟩

end Script

end TapeForge

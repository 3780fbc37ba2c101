import TapeForge.Proofs.SwitchCases

/-!
# No argument is dropped

A builtin that takes ops puts all of them into what it gives, in their order; only the bodies of a
switch change places, as the cases are sorted. A keyword that a builtin has no parameter for makes
the call fail. There are three builtins that do not look at keywords at all, and one of them takes
ops: what it is given by name is lost.
-/

namespace TapeForge

/-! ## The ops in a datum -/

namespace Op

mutual

/-- An op, and the ops in its body if it is a loop, in the order of the program. -/
def parts : Op → List Op
  | loop body => loop body :: partsAll body
  | o => [o]

def partsAll : List Op → List Op
  | [] => []
  | o :: os => parts o ++ partsAll os

end

theorem partsAll_append (os us : List Op) : partsAll (os ++ us) = partsAll os ++ partsAll us := by
  induction os with
  | nil => rw [partsAll, List.nil_append, List.nil_append]
  | cons o os ih => rw [List.cons_append, partsAll, partsAll, ih, List.append_assoc]

theorem partsAll_sublist_of_segment {us os : List Op} (h : us <:+: os) :
    (partsAll us).Sublist (partsAll os) := by
  obtain ⟨ks, vs, rfl⟩ := h
  rw [partsAll_append, partsAll_append, List.append_assoc]
  exact (List.sublist_append_left _ _).trans (List.sublist_append_right _ _)

/-- What is in a row in the body of a loop is among the parts of a program with the loop. -/
theorem partsAll_sublist_of_loop_mem {us body os : List Op} (h : loop body ∈ os)
    (hu : us <:+: body) : (partsAll us).Sublist (partsAll os) := by
  refine (partsAll_sublist_of_segment hu).trans ?_
  induction os with
  | nil => cases h
  | cons o os ih =>
      rw [partsAll]
      rcases List.mem_cons.1 h with rfl | h
      · rw [parts]
        exact ((List.Sublist.refl _).cons _).trans (List.sublist_append_left _ _)
      · exact (ih h).trans (List.sublist_append_right _ _)

theorem append_sublist_partsAll (os us : List Op) {k l : List Op} (hk : k.Sublist (partsAll os))
    (hl : l.Sublist (partsAll us)) : (k ++ l).Sublist (partsAll (os ++ us)) := by
  rw [partsAll_append]
  exact hk.append hl

end Op

namespace Datum

mutual

/-- The ops in a datum, and those in their bodies, in the order of reading. -/
def parts : Datum → List Op
  | op o => o.parts
  | list elems => partsOf elems
  | tuple elems => partsOf elems
  | set elems => partsOf elems
  | dict entries => partsOfEntries entries
  | _ => []

def partsOf : List Datum → List Op
  | [] => []
  | d :: ds => parts d ++ partsOf ds

def partsOfEntries : List (Datum × Datum) → List Op
  | [] => []
  | (k, v) :: rest => parts k ++ parts v ++ partsOfEntries rest

end

theorem parts_sublist_partsOf {d : Datum} {ds : List Datum} (h : d ∈ ds) :
    d.parts.Sublist (partsOf ds) := by
  induction ds with
  | nil => cases h
  | cons e ds ih =>
      rw [partsOf]
      rcases List.mem_cons.1 h with rfl | h
      · exact List.sublist_append_left _ _
      · exact (ih h).trans (List.sublist_append_right _ _)

mutual

/-- Flattening finds all ops that a datum has. -/
theorem parts_of_ops : ∀ (d : Datum) {os : List Op}, d.ops = .ok os → d.parts = Op.partsAll os
  | .op o, _, h => by
      cases h
      rw [parts, Op.partsAll, Op.partsAll, List.append_nil]
  | .list elems, _, h => partsOf_of_opsOf elems h
  | .tuple elems, _, h => partsOf_of_opsOf elems h
  | .none, _, h | .view .elems [], _, h | .view .elemOrds [], _, h => by
      cases h
      rfl
  | .range .., _, h => by
      rw [ops] at h
      split at h <;> cases h
      rfl

theorem partsOf_of_opsOf : ∀ (ds : List Datum) {os : List Op}, opsOf ds = .ok os →
    partsOf ds = Op.partsAll os
  | [], os, h => by
      rw [opsOf] at h
      cases h
      rw [partsOf, Op.partsAll]
  | d :: ds, os, h => by
      rw [opsOf] at h
      obtain ⟨first, hfirst, h⟩ := Reply.bind_eq_ok_iff.1 h
      obtain ⟨rest, hrest, h⟩ := Reply.bind_eq_ok_iff.1 h
      cases h
      rw [partsOf, Op.partsAll_append, parts_of_ops d hfirst, partsOf_of_opsOf ds hrest]

end

/-- A list of ops has the parts of the ops. -/
theorem parts_ofOps (os : List Op) : (ofOps os).parts = Op.partsAll os := by
  rw [ofOps, parts]
  induction os with
  | nil => rfl
  | cons o os ih => rw [List.map_cons, partsOf, parts, Op.partsAll, ih]

end Datum

/-! ## Gadgets have the parts of their bodies -/

namespace Gadget

open Op

theorem partsAll_ifEqThen {lit : UInt8} {body os : List Op} (h : ifEqThen lit body = .ok os) :
    (partsAll body).Sublist (partsAll os) := by
  obtain ⟨_, -, h⟩ := Script.bind_eq_ok_iff.1 h
  cases h
  exact partsAll_sublist_of_loop_mem (List.mem_of_getElem? (i := 9) rfl) ⟨[.zero], [], by simp⟩

theorem partsAll_ifConseq {yes no os : List Op} {dist : Offset}
    (h : ifConseq yes no dist = .ok os) :
    (partsAll yes ++ partsAll no).Sublist (partsAll os) := by
  obtain ⟨_, -, h⟩ := Script.bind_eq_ok_iff.1 h
  cases h
  apply append_sublist_partsAll [_, _, _, _, _] [_, _, _]
  · exact partsAll_sublist_of_loop_mem (List.mem_of_getElem? (i := 4) rfl) ⟨[], _, rfl⟩
  · exact partsAll_sublist_of_loop_mem (List.mem_of_getElem? (i := 1) rfl) ⟨_, _, rfl⟩

theorem partsAll_ifTmps {yes no os : List Op} {tmp1 tmp2 : Offset}
    (h : ifTmps tmp1 tmp2 yes no = .ok os) :
    (partsAll yes ++ partsAll no).Sublist (partsAll os) := by
  obtain ⟨_, -, h⟩ := Script.bind_eq_ok_iff.1 h
  cases h
  apply append_sublist_partsAll [_, _, _, _, _] [_, _, _, _]
  · exact partsAll_sublist_of_loop_mem (List.mem_of_getElem? (i := 4) rfl) ⟨[], _, rfl⟩
  · exact partsAll_sublist_of_loop_mem (List.mem_of_getElem? (i := 2) rfl) ⟨_, _, rfl⟩

/-- The default is the innermost part of a chain, and the bodies come after it from the last case
to the first. -/
theorem partsAll_switchChain (toFlag toSrc : Op) (fallback : List Op) (prev : Int64)
    (cases : List Case) :
    (partsAll fallback ++ cases.reverse.flatMap fun c => partsAll c.body).Sublist
      (partsAll (switchChain toFlag toSrc fallback prev cases)) := by
  induction cases generalizing prev with
  | nil =>
      rw [List.reverse_nil, List.flatMap_nil, List.append_nil, switchChain]
      exact partsAll_sublist_of_segment ⟨_, _, rfl⟩
  | cons c rest ih =>
      -- What follows a case stands in the first loop of the chain, and its body in the second.
      rw [List.reverse_cons, List.flatMap_append, ← List.append_assoc, List.flatMap_singleton,
        switchChain]
      apply append_sublist_partsAll [_, _] [_, _, _]
      · refine (ih c.key).trans ?_
        exact partsAll_sublist_of_loop_mem (List.mem_of_getElem? (i := 1) rfl) List.infix_rfl
      · exact partsAll_sublist_of_loop_mem (List.mem_of_getElem? (i := 1) rfl)
          ⟨[.add (-1)], [], by simp⟩

/-- A switch has the bodies of its cases, in some order of the cases. -/
theorem partsAll_switch {src flag : Offset} {cases : List Case} {fallback os : List Op}
    (h : switch src flag cases fallback = .ok os) :
    ∃ sorted : List Case, sorted.Perm cases ∧
      (partsAll fallback ++ sorted.flatMap fun c => partsAll c.body).Sublist (partsAll os) := by
  have haccepts := switch_ok_iff.1 ⟨os, h⟩
  obtain ⟨sorted, hperm, -, hops⟩ :=
    switch_eq_ok fallback haccepts.apart haccepts.nodup haccepts.range
  cases h.symm.trans hops
  refine ⟨sorted.reverse, (List.reverse_perm sorted).trans hperm, ?_⟩
  exact (partsAll_switchChain _ _ _ _ _).trans (partsAll_sublist_of_segment ⟨_, _, rfl⟩)

end Gadget

namespace Script

/-! ## Arguments in what a call gives -/

/-- A datum as it is, or a dict with its entries in another order. -/
inductive Shuffled : Datum → Datum → Prop
  | same (d : Datum) : Shuffled d d
  | dict {es es' : List (Datum × Datum)} : es.Perm es' → Shuffled (.dict es) (.dict es')

/-- All ops in the arguments of a call are in what it gives, as often and, for each argument, in the
same order. -/
def Retains (args : List Datum) (d : Datum) : Prop :=
  ∃ vs ws, vs.Perm args ∧ List.Forall₂ Shuffled vs ws ∧ (Datum.partsOf ws).Sublist d.parts

theorem exists_of_mem_left {R : Datum → Datum → Prop} {vs ws : List Datum}
    (h : List.Forall₂ R vs ws) {v : Datum} (hv : v ∈ vs) : ∃ w ∈ ws, R v w :=
  exists_of_mem_right h.flip hv

theorem Retains.each {args : List Datum} {d v : Datum} (h : Retains args d) (hv : v ∈ args) :
    ∃ w, Shuffled v w ∧ w.parts.Sublist d.parts := by
  obtain ⟨vs, ws, hperm, hshuffled, hsub⟩ := h
  obtain ⟨w, hw, hvw⟩ := exists_of_mem_left hshuffled (hperm.mem_iff.2 hv)
  exact ⟨w, hvw, (Datum.parts_sublist_partsOf hw).trans hsub⟩

theorem retains_of_sublist {args vs : List Datum} {d : Datum} (hperm : vs.Perm args)
    (h : (Datum.partsOf vs).Sublist d.parts) : Retains args d :=
  ⟨vs, vs, hperm, List.forall₂_same.2 fun v _ => .same v, h⟩

theorem Denotes.parts {d : Datum} {b : UInt8} (h : Denotes d b) : d.parts = [] := by
  rcases h with rfl | rfl <;> rfl

/-! ## The values of parameters -/

/-- The ops in a value that may not have been given. -/
theorem partsOf_values (v : Option Datum) (vs : List (Option Datum)) :
    Datum.partsOf ((v :: vs).filterMap id) =
      (v.getD .none).parts ++ Datum.partsOf (vs.filterMap id) := by
  cases v with
  | none => rfl
  | some d => rfl

theorem parts_of_int {v : Option Datum} (h : ∀ d, v = some d → Kind.int.check d = .ok ()) :
    (v.getD .none).parts = [] := by
  cases v with
  | none => rfl
  | some d =>
      have hcheck := h d rfl
      cases d with
      | int n => rfl
      | _ => cases hcheck

theorem dict_of_check {d : Datum} (h : Kind.dict.check d = .ok ()) : ∃ es, d = .dict es := by
  cases d with
  | dict es => exact ⟨es, rfl⟩
  | _ => cases h

namespace Builtin

theorem parts_of_opsAt {values : List (Option Datum)} {i : Nat} {os : List Op}
    (h : opsAt values i = .ok os) :
    ((values[i]?).join.getD .none).parts = Op.partsAll os :=
  Datum.parts_of_ops _ (opsAt_eq_ok_iff.1 h)

/-- The bodies of cases are all that the entries have which write them. -/
theorem parts_of_writes {entries : List (Datum × Datum)} {cases : List Gadget.Case}
    (h : List.Forall₂ Writes entries cases) :
    Datum.partsOfEntries entries = cases.flatMap fun c => Op.partsAll c.body := by
  induction h with
  | nil => rfl
  | @cons x c _ _ hx _ ih =>
      obtain ⟨b, hb, -, hbody⟩ := hx
      obtain ⟨k, v⟩ := x
      rw [Datum.partsOfEntries, hb.parts, Datum.parts_of_ops v hbody, ih]
      rfl

/-! ## Builtins that take ops -/

variable {args : List Datum} {named : List (Bytes × Datum)} {d : Datum}

theorem retains_loop (h : loop.run args named = .ok d) :
    Retains (args ++ named.map Prod.snd) d := by
  rw [run] at h
  obtain ⟨hnamed, h⟩ := Reply.of_guard_eq_ok h
  obtain ⟨body, hbody, h⟩ := Reply.bind_eq_ok_iff.1 h
  cases h
  have hnil : named = [] := by simpa using hnamed
  have hargs := Datum.partsOf_of_opsOf args (Reply.mapError_eq_ok_iff.1 hbody)
  rw [hnil, List.map_nil, List.append_nil]
  refine retains_of_sublist (List.Perm.refl _) ?_
  rw [hargs, Datum.parts, Op.parts]
  exact (List.Sublist.refl _).cons _

theorem retains_ifEqThen (h : ifEqThen.run args [] = .ok d) : Retains args d := by
  cases args with
  | nil => cases h
  | cons lit body =>
      obtain ⟨b, hb, h⟩ := Reply.bind_eq_ok_iff.1 h
      obtain ⟨os, hos, h⟩ := Reply.bind_eq_ok_iff.1 h
      obtain ⟨us, hus, h⟩ := Reply.bind_eq_ok_iff.1 h
      cases h
      have hlit := (byteOf_eq_ok_iff.1 (mapError_eq_ok_iff.1 (Reply.of_eq_ok_iff.1 hb))).parts
      have hbody := Datum.partsOf_of_opsOf body (Reply.mapError_eq_ok_iff.1 hos)
      refine retains_of_sublist (List.Perm.refl _) ?_
      rw [Datum.partsOf, hlit, hbody, List.nil_append, Datum.parts_ofOps]
      exact Gadget.partsAll_ifEqThen (Reply.orPanic_eq_ok_iff.1 hus)

theorem retains_ifConseq (h : ifConseq.run args named = .ok d) :
    Retains (args ++ named.map Prod.snd) d := by
  obtain ⟨values, hvalues, h⟩ := Reply.bind_eq_ok_iff.1 h
  obtain ⟨yes, hyes, h⟩ := Reply.bind_eq_ok_iff.1 h
  obtain ⟨no, hno, h⟩ := Reply.bind_eq_ok_iff.1 h
  obtain ⟨us, hus, h⟩ := Reply.bind_eq_ok_iff.1 h
  cases h
  have htaken := taken_of_takeNamed (Reply.of_eq_ok_iff.1 hvalues)
  refine retains_of_sublist htaken.perm ?_
  obtain ⟨yesD, noD, distD, rfl, hdist⟩ : ∃ yesD noD distD, values = [yesD, noD, distD] ∧
      ∀ d, distD = some d → Kind.int.check d = .ok () := by
    obtain _ | ⟨-, _ | ⟨-, _ | ⟨hdist, _ | _⟩⟩⟩ := htaken.fits
    exact ⟨_, _, _, rfl, hdist⟩
  rw [partsOf_values, partsOf_values, partsOf_values, parts_of_int hdist, Datum.parts_ofOps]
  have hyes : (yesD.getD .none).parts = Op.partsAll yes := parts_of_opsAt hyes
  have hno : (noD.getD .none).parts = Op.partsAll no := parts_of_opsAt hno
  rw [hyes, hno]
  simpa [Datum.partsOf] using Gadget.partsAll_ifConseq (Reply.orPanic_eq_ok_iff.1 hus)

theorem retains_ifTmps (h : ifTmps.run args named = .ok d) :
    Retains (args ++ named.map Prod.snd) d := by
  obtain ⟨values, hvalues, h⟩ := Reply.bind_eq_ok_iff.1 h
  obtain ⟨yes, hyes, h⟩ := Reply.bind_eq_ok_iff.1 h
  obtain ⟨no, hno, h⟩ := Reply.bind_eq_ok_iff.1 h
  obtain ⟨us, hus, h⟩ := Reply.bind_eq_ok_iff.1 h
  cases h
  have htaken := taken_of_takeNamed (Reply.of_eq_ok_iff.1 hvalues)
  refine retains_of_sublist htaken.perm ?_
  obtain ⟨tmp1, tmp2, yesD, noD, rfl, htmp1, htmp2⟩ : ∃ tmp1 tmp2 yesD noD,
      values = [tmp1, tmp2, yesD, noD] ∧ (∀ d, tmp1 = some d → Kind.int.check d = .ok ()) ∧
      ∀ d, tmp2 = some d → Kind.int.check d = .ok () := by
    obtain _ | ⟨htmp1, _ | ⟨htmp2, _ | ⟨-, _ | ⟨-, _ | _⟩⟩⟩⟩ := htaken.fits
    exact ⟨_, _, _, _, rfl, htmp1, htmp2⟩
  rw [partsOf_values, partsOf_values, partsOf_values, partsOf_values, parts_of_int htmp1,
    parts_of_int htmp2, Datum.parts_ofOps]
  have hyes : (yesD.getD .none).parts = Op.partsAll yes := parts_of_opsAt hyes
  have hno : (noD.getD .none).parts = Op.partsAll no := parts_of_opsAt hno
  rw [hyes, hno]
  simpa [Datum.partsOf] using Gadget.partsAll_ifTmps (Reply.orPanic_eq_ok_iff.1 hus)

/-- The entries of a dict can be put in the order of any list of the cases that they write. -/
theorem exists_shuffled {dict : Option Datum} {cases sorted : List Gadget.Case}
    (hdict : ∀ d, dict = some d → Kind.dict.check d = .ok ())
    (h : List.Forall₂ Writes (entriesAt [dict] 0) cases) (hperm : sorted.Perm cases) :
    ∃ dict', Option.Rel Shuffled dict dict' ∧
      (dict'.getD .none).parts = sorted.flatMap fun c => Op.partsAll c.body := by
  cases dict with
  | none =>
      cases h
      cases hperm.eq_nil
      exact ⟨none, .none, rfl⟩
  | some d =>
      obtain ⟨es, rfl⟩ := dict_of_check (hdict d rfl)
      obtain ⟨es', hwrites, hes⟩ := List.perm_comp_forall₂ hperm h.flip
      exact ⟨some (.dict es'), .some (.dict hes.symm), parts_of_writes hwrites.flip⟩

theorem retains_switch (h : switch.run args named = .ok d) :
    Retains (args ++ named.map Prod.snd) d := by
  obtain ⟨values, hvalues, h⟩ := Reply.bind_eq_ok_iff.1 h
  obtain ⟨cases, hcases, h⟩ := Reply.bind_eq_ok_iff.1 h
  obtain ⟨fallback, hfallback, h⟩ := Reply.bind_eq_ok_iff.1 h
  obtain ⟨us, hus, h⟩ := Reply.bind_eq_ok_iff.1 h
  cases h
  have htaken := taken_of_takeNamed (Reply.of_eq_ok_iff.1 hvalues)
  obtain ⟨src, flag, dict, fallbackD, rfl, hsrc, hflag, hdict⟩ : ∃ src flag dict fallbackD,
      values = [src, flag, dict, fallbackD] ∧ (∀ d, src = some d → Kind.int.check d = .ok ()) ∧
      (∀ d, flag = some d → Kind.int.check d = .ok ()) ∧
      ∀ d, dict = some d → Kind.dict.check d = .ok () := by
    obtain _ | ⟨hsrc, _ | ⟨hflag, _ | ⟨hdict, _ | ⟨-, _ | _⟩⟩⟩⟩ := htaken.fits
    exact ⟨_, _, _, _, rfl, hsrc, hflag, hdict⟩
  have hfallback : (fallbackD.getD .none).parts = Op.partsAll fallback := parts_of_opsAt hfallback
  obtain ⟨sorted, hsorted, hsub⟩ := Gadget.partsAll_switch (Reply.orPanic_eq_ok_iff.1 hus)
  have hwrites : List.Forall₂ Writes (entriesAt [dict] 0) cases :=
    (Reply.mapM_eq_ok_iff.1 hcases).imp fun _ _ => caseOf_eq_ok_iff.1
  obtain ⟨dict', hshuffled, hparts⟩ := exists_shuffled hdict hwrites hsorted
  have hrefl : ∀ v : Option Datum, Option.Rel Shuffled v v := by
    intro v
    cases v with
    | none => exact .none
    | some d => exact .some (.same d)
  -- The default is done last of all, but it stands inside the loops of the cases.
  refine ⟨[fallbackD, src, flag, dict].filterMap id, [fallbackD, src, flag, dict'].filterMap id,
    ?_, ?_, ?_⟩
  · have hfront : [fallbackD, src, flag, dict].Perm [src, flag, dict, fallbackD] :=
      (List.perm_append_singleton fallbackD [src, flag, dict]).symm
    exact (hfront.filterMap id).trans htaken.perm
  · refine List.rel_filterMap (R := Option.Rel Shuffled) (fun _ _ h => h) ?_
    exact .cons (hrefl _) (.cons (hrefl _) (.cons (hrefl _) (.cons hshuffled .nil)))
  · rw [partsOf_values, partsOf_values, partsOf_values, partsOf_values, parts_of_int hsrc,
      parts_of_int hflag, hfallback, hparts, Datum.parts_ofOps]
    simpa [Datum.partsOf] using hsub

/-! ## Keywords -/

/-- The names of the parameters that may be given by name. -/
def keywords : Builtin → List String
  | move => ["src", "dest"]
  | copy => ["src", "tmp", "dest"]
  | writeN => ["char", "count", "tmp1", "tmp2"]
  | ifConseq => ["tru", "fals", "dist"]
  | ifTmps => ["tmp1", "tmp2", "tru", "fals"]
  | switch => ["src", "flag", "cases", "default"]
  | _ => []

/-- The builtins that do not look at what is given by name. -/
def IgnoresKeywords (b : Builtin) : Prop := b = assertZero ∨ b = off ∨ b = ifEqThen

/-- What they are given by name is dropped. -/
theorem call_of_ignoresKeywords {b : Builtin} (hb : b.IgnoresKeywords) (args : List Datum)
    (named : List (Bytes × Datum)) : b.call args named = b.call args [] := by
  rcases hb with rfl | rfl | rfl <;> rfl

theorem named_eq_nil_of_takePositional {params : List Kind} {u : Unit}
    (h : takePositional params args named = .ok u) : named = [] := by
  unfold takePositional takeAtLeast at h
  by_cases hnamed : !named.isEmpty
  · simp only [hnamed, if_true] at h
    cases h
  · simpa using hnamed

theorem call_eq_error_of_run {b : Builtin} {fault : CallFault}
    (h : b.run args named = .error fault) : b.call args named = .error ⟨b.name, fault⟩ := by
  rw [call, h]
  rfl

/-- A call fails where taking its arguments does. -/
theorem fails_of_take {b : Builtin} {α : Type} {x : Except CallFault α}
    {f : α → Reply CallFault Datum} (hrun : b.run args named = (.of x >>= f))
    (h : ¬ ∃ values, x = .ok values) : ∃ e, b.call args named = .error e := by
  obtain ⟨fault, rfl⟩ := exists_error_iff.2 h
  exact ⟨_, call_eq_error_of_run hrun⟩

/-- A name that is not that of a parameter makes a call fail, before any op is looked at. -/
theorem fails_of_unknown {b : Builtin} (hb : ¬ b.IgnoresKeywords) {k : Bytes}
    (hk : k ∈ named.map Prod.fst) (hunknown : k ∉ b.keywords.map Bytes.ofString) :
    ∃ e, b.call args named = .error e := by
  have hne : named ≠ [] := by
    rintro rfl
    cases hk
  cases b with
  | assertZero => exact absurd (.inl rfl) hb
  | off => exact absurd (.inr (.inl rfl)) hb
  | ifEqThen => exact absurd (.inr (.inr rfl)) hb
  | loop =>
      refine ⟨⟨loop.name, .unexpectedKeywords⟩, call_eq_error_of_run ?_⟩
      rw [run, if_pos (by simpa using hne)]
      rfl
  | add | shift | zero | read | write | writeS | push | pop | initStack =>
      refine fails_of_take rfl ?_
      rintro ⟨_, htake⟩
      exact hne (named_eq_nil_of_takePositional htake)
  | move | copy | writeN | ifConseq | ifTmps | switch =>
      refine fails_of_take rfl ?_
      rintro ⟨_, hvalues⟩
      exact hunknown ((taken_of_takeNamed hvalues).known k hk)

/-- The builtins that take ops. -/
def TakesOps (b : Builtin) : Prop :=
  b = loop ∨ b = ifEqThen ∨ b = ifConseq ∨ b = ifTmps ∨ b = switch

/-- No op in the arguments of a call is lost, by position or by name: all of them are in what a call
gives that succeeds, for each argument in their order, and with a dict in some order of its entries.
A keyword for which the builtin has no parameter makes the call fail, except where keywords are
ignored: there it makes no difference what is given by name. -/
theorem calls_keep_arguments (b : Builtin) (args : List Datum) (named : List (Bytes × Datum)) :
    (∀ d, b.TakesOps → (b = ifEqThen → named = []) → b.call args named = .ok d →
      Retains (args ++ named.map Prod.snd) d ∧
      ∀ v ∈ args ++ named.map Prod.snd, ∃ w, Shuffled v w ∧ w.parts.Sublist d.parts) ∧
    (¬ b.IgnoresKeywords → (∃ k ∈ named.map Prod.fst, k ∉ b.keywords.map Bytes.ofString) →
      ∃ e, b.call args named = .error e) ∧
    (b.IgnoresKeywords → b.call args named = b.call args []) := by
  refine ⟨?_, ?_, fun hb => call_of_ignoresKeywords hb args named⟩
  · intro d hops hnamed h
    have hrun := call_eq_ok_iff.1 h
    have hretains : Retains (args ++ named.map Prod.snd) d := by
      rcases hops with rfl | rfl | rfl | rfl | rfl
      · exact retains_loop hrun
      · obtain rfl := hnamed rfl
        rw [List.map_nil, List.append_nil]
        exact retains_ifEqThen hrun
      · exact retains_ifConseq hrun
      · exact retains_ifTmps hrun
      · exact retains_switch hrun
    exact ⟨hretains, fun v hv => hretains.each hv⟩
  · rintro hb ⟨k, hk, hunknown⟩
    exact fails_of_unknown hb hk hunknown

/-- A branch with one body by position and the other by name, a name that it has no parameter for,
and a name that is ignored. -/
theorem calls_keep_arguments_of_branch :
    (∃ d, ifConseq.call [.list [.op .write]] [(Bytes.ofString "fals", .op .read)] = .ok d ∧
      Retains [.list [.op .write], .op .read] d) ∧
    (∃ e, ifConseq.call [] [(Bytes.ofString "body", .op .write)] = .error e) ∧
    off.call [.int 3] [(Bytes.ofString "to", .int 4)] = .ok (.list []) := by
  refine ⟨?_, ?_, ?_⟩
  · obtain ⟨hretains, -⟩ := calls_keep_arguments ifConseq [.list [.op .write]]
      [(Bytes.ofString "fals", .op .read)]
    have hok : ∃ d, ifConseq.call [.list [.op .write]]
        [(Bytes.ofString "fals", .op .read)] = .ok d := ⟨_, rfl⟩
    obtain ⟨d, hd⟩ := hok
    exact ⟨d, hd, (hretains d (by simp [TakesOps]) (by simp) hd).1⟩
  · obtain ⟨-, hfails, -⟩ :=
      calls_keep_arguments ifConseq [] [(Bytes.ofString "body", .op .write)]
    exact hfails (by simp [IgnoresKeywords]) ⟨_, List.mem_cons_self, by decide⟩
  · obtain ⟨-, -, hignores⟩ :=
      calls_keep_arguments off [.int 3] [(Bytes.ofString "to", .int 4)]
    exact hignores (.inr (.inl rfl))

/-- A body that is given to an equality test by name is lost. -/
theorem ifEqThen_drops_body :
    ∃ d, ifEqThen.call [.text [97]] [(Bytes.ofString "body", .list [.op .write])] = .ok d ∧
      Op.write ∈ (Datum.list [.op .write]).parts ∧ Op.write ∉ d.parts := by
  refine ⟨_, rfl, ?_, ?_⟩
  · simp [Datum.parts, Datum.partsOf, Op.parts]
  · simp [Datum.ofOps, Datum.parts, Datum.partsOf, Op.parts, Op.partsAll]

end Builtin

end Script

end TapeForge

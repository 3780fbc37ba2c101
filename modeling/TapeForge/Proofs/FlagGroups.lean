import Mathlib.Data.List.Induction
import Mathlib.Data.List.Nodup
import TapeForge.Command.Flag
import TapeForge.Proofs.TokenRun

/-!
# Flags do not disturb each other

The tokens that set flags come in groups, each of which addresses one flag. Where a group ends is
not written in the tokens: a value may look like the name of a flag, or contain an equals sign. Yet
execution splits tokens at the groups that they were made of, whatever they contain. Each group
changes the content of its own flag only, so that groups of different flags can change places.
-/

namespace TapeForge

namespace Command

/-! ## Defined flags -/

structure Declared where
  name : Bytes
  holding : Holding

namespace Declared

def commands (d : Declared) : List (Bytes × Command Settings) := d.holding.commands d.name

def names (ds : List Declared) : List Bytes := (ds.flatMap commands).map Prod.fst

end Declared

def Flags.defineEach (f : Flags) : List Declared → Flags × Option Bytes
  | [] => (f, none)
  | d :: ds =>
    match f.define d.holding d.name with
    | (f, none) => f.defineEach ds
    | (f, some clash) => (f, some clash)

def Entry.single {σ : Type} (named : Bytes × Command σ) : Entry (Command σ) :=
  ⟨[named.1], some named.2⟩

namespace Table

variable {σ : Type}

theorem find?_append (t u : Table σ) (x : Bytes) :
    Table.find? (t ++ u) x = (t.find? x).or (u.find? x) := by
  rw [Table.find?, List.find?_append, Option.map_or]
  rfl

theorem find?_single_cons (named : Bytes × Command σ) (cs : List (Bytes × Command σ)) (x : Bytes) :
    Table.find? ((named :: cs).map Entry.single) x =
      if x = named.1 then some (some named.2) else Table.find? (cs.map Entry.single) x := by
  by_cases hx : x = named.1
  · subst hx
    simp [Table.find?, Entry.single]
  · have hcontains : (Entry.single named).names.contains x = false := by
      simp [Entry.single, hx]
    rw [if_neg hx, List.map_cons, Table.find?, List.find?_cons, hcontains]
    rfl

theorem find?_single_of_not_mem {cs : List (Bytes × Command σ)} {x : Bytes}
    (hx : x ∉ cs.map Prod.fst) : Table.find? (cs.map Entry.single) x = none := by
  induction cs with
  | nil => rfl
  | cons named cs ih =>
      rw [List.map_cons, List.mem_cons, not_or] at hx
      rw [find?_single_cons, if_neg hx.1, ih hx.2]

theorem find?_single_of_mem {cs : List (Bytes × Command σ)} (hcs : (cs.map Prod.fst).Nodup)
    {x : Bytes} {c : Command σ} (hc : (x, c) ∈ cs) :
    Table.find? (cs.map Entry.single) x = some (some c) := by
  induction cs with
  | nil => cases hc
  | cons named cs ih =>
      obtain ⟨hnew, hcs⟩ := List.nodup_cons.1 hcs
      rw [find?_single_cons]
      rcases List.mem_cons.1 hc with rfl | hc
      · rw [if_pos rfl]
      · have hne : x ≠ named.1 := by
          rintro rfl
          exact hnew (List.mem_map.2 ⟨_, hc, rfl⟩)
        rw [if_neg hne, ih hcs hc]

theorem find?_append_single_of_free {t : Table σ} {cs : List (Bytes × Command σ)} {x : Bytes}
    (hx : t.find? x = none) (hnew : x ∉ cs.map Prod.fst) :
    Table.find? (t ++ cs.map Entry.single) x = none := by
  rw [find?_append, hx, Option.none_or, find?_single_of_not_mem hnew]

theorem define_of_free {t : Table σ} {x : Bytes} (hx : t.find? x = none) (c : Command σ) :
    t.define [x] c = (t ++ [Entry.single (x, c)], none) := by
  have hfree : freeNames t [] [x] = ([x], none) := by
    simp [freeNames, hx]
  rw [Table.define, hfree]
  rfl

/-- Commands whose names are new and different are all defined. -/
theorem defineAll_of_free {t : Table σ} {cs : List (Bytes × Command σ)}
    (hfree : ∀ x ∈ cs.map Prod.fst, t.find? x = none) (hcs : (cs.map Prod.fst).Nodup) :
    t.defineAll cs = (t ++ cs.map Entry.single, none) := by
  induction cs generalizing t with
  | nil => rw [Table.defineAll, List.map_nil, List.append_nil]
  | cons named cs ih =>
      obtain ⟨x, c⟩ := named
      obtain ⟨hnew, hcs⟩ := List.nodup_cons.1 hcs
      rw [List.map_cons, List.forall_mem_cons] at hfree
      -- The names still to come are different from this one, so they stay free.
      have hrest : ∀ y ∈ cs.map Prod.fst, Table.find? (t ++ [Entry.single (x, c)]) y = none := by
        intro y hy
        have hne : y ∉ [(x, c)].map Prod.fst := by
          rw [List.map_singleton, List.mem_singleton]
          rintro rfl
          exact hnew hy
        exact find?_append_single_of_free (hfree.2 y hy) hne
      rw [Table.defineAll, define_of_free hfree.1]
      show Table.defineAll (t ++ [Entry.single (x, c)]) cs = _
      rw [ih hrest hcs, List.append_assoc, List.map_cons, List.singleton_append]

end Table

/-- What the names of flags have to be beside the commands that are there: new, different from each
other, without an equals sign and without white space around them. -/
structure Separate (t : Table Settings) (ds : List Declared) : Prop where
  free : ∀ x ∈ Declared.names ds, t.find? x = none
  distinct : (Declared.names ds).Nodup
  whole : ∀ d ∈ ds, 61 ∉ d.name
  tight : ∀ d ∈ ds, Bytes.trim d.name = d.name

theorem Flags.defineEach_of_free {f : Flags} {ds : List Declared}
    (hfree : ∀ x ∈ Declared.names ds, f.table.find? x = none)
    (hdistinct : (Declared.names ds).Nodup) :
    ∃ g, f.defineEach ds = (g, none) ∧
      g.table = f.table ++ (ds.flatMap Declared.commands).map Entry.single := by
  induction ds generalizing f with
  | nil => exact ⟨f, rfl, (List.append_nil _).symm⟩
  | cons d ds ih =>
      rw [Declared.names, List.flatMap_cons, List.map_append] at hfree hdistinct
      obtain ⟨hhere, hthere, hapart⟩ := List.nodup_append.1 hdistinct
      have hdefine := Table.defineAll_of_free
        (fun x hx => hfree x (List.mem_append_left _ hx)) hhere
      have hrest : ∀ x ∈ Declared.names ds,
          Table.find? (f.table ++ d.commands.map Entry.single) x = none := by
        intro x hx
        refine Table.find?_append_single_of_free (hfree x (List.mem_append_right _ hx)) ?_
        intro hd
        exact hapart x hd x hx rfl
      obtain ⟨g, hg, htable⟩ := ih (f := ⟨f.table ++ d.commands.map Entry.single,
        fun x => if x = d.name then d.holding.initial else f.settings x, f.names ++ [d.name]⟩)
        hrest hthere
      refine ⟨g, ?_, ?_⟩
      · rw [Flags.defineEach, Flags.define]
        rw [Declared.commands] at hdefine
        rw [hdefine]
        exact hg
      · rw [htable, List.flatMap_cons, List.map_append, List.append_assoc]

/-! ## Groups -/

/-- The tokens that address one flag once. -/
inductive Group where
  | next (x token : Bytes)
  | joined (x value : Bytes)
  | reset (x : Bytes)
  | on (x : Bytes)
  | off (x : Bytes)
  deriving DecidableEq

namespace Holding

def type : Holding → ParamType
  | value t | list t => t
  | switch => .bool

/-- Whether a flag takes its values from tokens. -/
def isGiven : Holding → Bool
  | value _ | list _ => true
  | switch => false

def put : Holding → Setting → Value → Setting
  | list _, .many vs, v => .many (vs ++ [v])
  | list _, .one _, v => .many [v]
  | _, _, v => .one v

/-- What is to be said of a flag that takes values one after the other: a list holds them all behind
those that it had, any other flag holds the last one, or what it held if there is none. -/
def Leaves : Holding → Setting → List Value → Setting → Prop
  | list _, old, vs, new => ∀ ws, old = .many ws → new = .many (ws ++ vs)
  | value _, old, vs, new | switch, old, vs, new => new = match vs.getLast? with
    | some v => .one v
    | none => old

def store (h : Holding) (x : Bytes) (v : Value) : Settings → Settings :=
  match h with
  | list _ => Settings.add x v
  | _ => Settings.set x v

end Holding

namespace Group

def flag : Group → Bytes
  | next x _ | joined x _ | reset x | on x | off x => x

def tokens : Group → List Bytes
  | next x token => [x, token]
  | joined x value => [x ++ 61 :: value]
  | reset x => [x ++ [46]]
  | on x => [x]
  | off x => [33 :: x]

/-- The value that a group has for a flag. -/
def value (type : ParamType) : Group → Except ArgFault Value
  | next _ token => type.read token
  | joined _ value => type.read (Bytes.trimEnd value)
  | reset _ => .ok type.zero
  | on _ => .ok (.bool true)
  | off _ => .ok (.bool false)

/-- Groups that the flags have commands for. A name and a value may be one token only if no command
has the whole of it, but for white space around it, as its name. -/
inductive Fits (t : Table Settings) (ds : List Declared) : Group → Prop
  | next {d : Declared} (token : Bytes) : d ∈ ds → d.holding.isGiven = true →
      Fits t ds (.next d.name token)
  | joined {d : Declared} {value : Bytes} : d ∈ ds → d.holding.isGiven = true →
      t.find? (Bytes.trim (d.name ++ 61 :: value)) = none → Fits t ds (.joined d.name value)
  | reset {x : Bytes} {type : ParamType} : ⟨x, .value type⟩ ∈ ds → Fits t ds (.reset x)
  | on {x : Bytes} : ⟨x, .switch⟩ ∈ ds → Fits t ds (.on x)
  | off {x : Bytes} : ⟨x, .switch⟩ ∈ ds → Fits t ds (.off x)

def addressing (x : Bytes) (gs : List Group) : List Group := gs.filter fun g => g.flag == x

theorem addressing_cons_of_eq {g : Group} {x : Bytes} (h : g.flag = x) (gs : List Group) :
    addressing x (g :: gs) = g :: addressing x gs := by
  simp [addressing, h]

theorem addressing_cons_of_ne {g : Group} {x : Bytes} (h : g.flag ≠ x) (gs : List Group) :
    addressing x (g :: gs) = addressing x gs := by
  simp [addressing, h]

theorem mem_addressing {g : Group} {x : Bytes} {gs : List Group} :
    g ∈ addressing x gs ↔ g ∈ gs ∧ g.flag = x := by
  simp [addressing]

/-- The same groups, those of each flag in the same order. -/
def Rearranged (gs hs : List Group) : Prop := ∀ x, addressing x gs = addressing x hs

theorem Rearranged.perm {gs hs : List Group} (h : Rearranged gs hs) : gs.Perm hs := by
  rw [List.perm_iff_count]
  intro g
  have hflag : (g.flag == g.flag) = true := beq_self_eq_true g.flag
  have hcount : ∀ ks : List Group, (addressing g.flag ks).count g = ks.count g := by
    intro ks
    exact List.count_filter hflag
  rw [← hcount gs, ← hcount hs, h g.flag]

end Group

/-! ## One group -/

section

variable {visible : Table Settings} {token x : Bytes} {rest : List Bytes}

theorem turn_of_plain {write : Settings → Settings}
    (hnames : Names visible token rest x (.ofAction [] fun _ s => (write s, none)) rest)
    (s : Settings) : Turn ⟨visible, token :: rest, s⟩ ⟨visible ++ [], rest, write s⟩ :=
  .mk hnames ⟨(List.nil_append rest).symm, rfl⟩ (.call rfl (.nil []) rfl) nofun

theorem turn_or_fails_of_given {type : ParamType} {write : Value → Settings → Settings}
    {value : Bytes} {left : List Bytes}
    (hnames : Names visible token rest x
      (.ofAction [type] fun vs s => (write (vs.headD type.zero) s, none)) (value :: left))
    (s : Settings) :
    (∃ v, type.read value = .ok v ∧
      Turn ⟨visible, token :: rest, s⟩ ⟨visible ++ [], left, write v s⟩) ∨
    ∃ why, type.read value = .error why ∧
      Fails ⟨visible, token :: rest, s⟩ s (.argument x why) := by
  cases hread : type.read value with
  | ok v =>
      refine .inl ⟨v, rfl, .mk hnames ⟨List.singleton_append.symm, ?_⟩
        (.call rfl (.token hread (.nil [])) rfl) nofun⟩
      simp [arity, ofAction, action]
  | error why =>
      refine .inr ⟨why, rfl, .argument hnames rfl ?_⟩
      simp [takeArgs, hread]

end

/-- A table in which flags are found under names that a token can be taken for. -/
structure Ready (visible : Table Settings) (ds : List Declared) : Prop where
  find : ∀ d ∈ ds, ∀ named ∈ d.commands, visible.find? named.1 = some (some named.2)
  apart : (ds.map Declared.name).Nodup
  whole : ∀ d ∈ ds, 61 ∉ d.name
  tight : ∀ d ∈ ds, Bytes.Tight d.name

theorem Declared.map_name_sublist (ds : List Declared) :
    (ds.map Declared.name).Sublist (Declared.names ds) := by
  induction ds with
  | nil => exact List.Sublist.slnil
  | cons d ds ih =>
      have hname : ∃ xs, d.commands.map Prod.fst = d.name :: xs := by
        obtain ⟨x, _ | _ | _⟩ := d <;>
        · exact ⟨_, rfl⟩
      obtain ⟨xs, hxs⟩ := hname
      rw [List.map_cons, Declared.names, List.flatMap_cons, List.map_append, hxs]
      exact (ih.trans (List.sublist_append_right xs _)).cons_cons d.name

theorem Separate.ready {t : Table Settings} {ds : List Declared} (h : Separate t ds) :
    Ready (t ++ (ds.flatMap Declared.commands).map Entry.single) ds where
  find d hd named hnamed := by
    have hmem : named ∈ ds.flatMap Declared.commands := List.mem_flatMap.2 ⟨d, hd, hnamed⟩
    have hnew : t.find? named.1 = none := h.free named.1 (List.mem_map_of_mem hmem)
    rw [Table.find?_append, hnew, Option.none_or, Table.find?_single_of_mem h.distinct hmem]
  apart := (Declared.map_name_sublist ds).nodup h.distinct
  whole := h.whole
  tight d hd := Bytes.tight_iff.2 (h.tight d hd)

theorem Declared.given_mem {d : Declared} (h : d.holding.isGiven = true) :
    (d.name, .ofAction [d.holding.type] fun vs s =>
      (d.holding.store d.name (vs.headD d.holding.type.zero) s, none)) ∈ d.commands := by
  obtain ⟨x, type | _ | type⟩ := d
  · exact List.mem_cons_self
  · cases h
  · exact List.mem_cons_self

theorem names_of_tight {visible : Table Settings} {x : Bytes} (hx : Bytes.Tight x)
    {c : Command Settings} (hfind : visible.find? x = some (some c)) (rest : List Bytes) :
    Names visible x rest x c rest := by
  have htrim := Bytes.tight_iff.1 hx
  have hnames : Names visible x rest (Bytes.trim x) c rest := by
    refine .whole ?_
    rw [htrim, hfind]
  rwa [htrim] at hnames

/-- The tokens of a group are one turn, whatever stands behind them, and its flag takes the value
that the group has for it; or they fail, if it has none. -/
theorem turn_or_fails_of_fits {visible : Table Settings} {ds : List Declared}
    (h : Ready visible ds) {g : Group} (hg : g.Fits visible ds) (rest : List Bytes)
    (s : Settings) :
    ∃ d ∈ ds, d.name = g.flag ∧
      ((∃ v, g.value d.holding.type = .ok v ∧ Turn ⟨visible, g.tokens ++ rest, s⟩
        ⟨visible ++ [], rest, d.holding.store d.name v s⟩) ∨
      ∃ why, g.value d.holding.type = .error why ∧
        Fails ⟨visible, g.tokens ++ rest, s⟩ s (.argument d.name why)) := by
  have hpoint : Bytes.Firm 46 := ⟨by decide, by decide⟩
  have hmark : Bytes.Firm 33 := ⟨by decide, by decide⟩
  have hequals : Bytes.Firm 61 := ⟨by decide, by decide⟩
  cases hg with
  | @next d token hd hgiven =>
      have hfind := h.find d hd _ (Declared.given_mem hgiven)
      exact ⟨d, hd, rfl, turn_or_fails_of_given (names_of_tight (h.tight d hd) hfind _) s⟩
  | @joined d value hd hgiven hwhole =>
      have hfind := h.find d hd _ (Declared.given_mem hgiven)
      have htrim := hequals.trim_append_cons (h.tight d hd) value
      exact ⟨d, hd, rfl, turn_or_fails_of_given (.split hwhole htrim (h.whole d hd) hfind) s⟩
  | @reset x type hd =>
      -- A name with a point or an exclamation mark is as tight as the name itself.
      have hfind := h.find _ hd _ (List.mem_cons_of_mem _ List.mem_cons_self)
      have htight := hpoint.tight_append (h.tight _ hd)
      exact ⟨_, hd, rfl, .inl ⟨_, rfl, turn_of_plain (names_of_tight htight hfind rest) s⟩⟩
  | @on x hd =>
      have hfind := h.find _ hd _ List.mem_cons_self
      exact ⟨_, hd, rfl, .inl ⟨_, rfl, turn_of_plain (names_of_tight (h.tight _ hd) hfind rest) s⟩⟩
  | @off x hd =>
      have hfind := h.find _ hd _ (List.mem_cons_of_mem _ List.mem_cons_self)
      have htight := hmark.tight_cons (h.tight _ hd)
      exact ⟨_, hd, rfl, .inl ⟨_, rfl, turn_of_plain (names_of_tight htight hfind rest) s⟩⟩

/-! ## All groups -/

namespace Holding

theorem store_apply (h : Holding) (x : Bytes) (v : Value) (s : Settings) (y : Bytes) :
    h.store x v s y = if y = x then h.put (s y) v else s y := by
  cases h with
  | list type =>
      rw [store, Settings.add]
      split
      · cases s y <;> rfl
      · rfl
  | value | switch => rfl

theorem leaves_foldl (h : Holding) (old : Setting) (vs : List Value) :
    h.Leaves old vs (vs.foldl h.put old) := by
  cases h with
  | list type =>
      rintro ws rfl
      induction vs generalizing ws with
      | nil => rw [List.append_nil, List.foldl_nil]
      | cons v vs ih =>
          show vs.foldl (list type).put (.many (ws ++ [v])) = .many (ws ++ v :: vs)
          rw [ih, List.append_assoc, List.singleton_append]
  | value | switch =>
      induction vs using List.reverseRecOn with
      | nil => rfl
      | append_singleton vs v _ =>
          rw [Leaves, List.getLast?_concat, List.foldl_append]
          rfl

end Holding

/-- Each flag has taken the values of its own groups, and nothing else has changed. -/
def Settles (ds : List Declared) (gs : List Group) (s s' : Settings) : Prop :=
  (∀ d ∈ ds, ∃ vs : List Value,
    (Group.addressing d.name gs).map (Group.value d.holding.type) = vs.map .ok ∧
      s' d.name = vs.foldl d.holding.put (s d.name)) ∧
  ∀ x ∉ ds.map Declared.name, s' x = s x

/-- A group has no value for its flag. -/
def Unreadable (ds : List Declared) (gs : List Group) : Prop :=
  ∃ d ∈ ds, ∃ g ∈ Group.addressing d.name gs, ∃ why, g.value d.holding.type = .error why

section

variable {ds : List Declared} {gs hs : List Group} {s s' s'' : Settings}

theorem Settles.not_unreadable (h : Settles ds gs s s') : ¬ Unreadable ds gs := by
  rintro ⟨d, hd, g, hg, why, hwhy⟩
  obtain ⟨vs, hvs, -⟩ := h.1 d hd
  have hmem : Except.error why ∈ vs.map Except.ok := by
    rw [← hvs, ← hwhy]
    exact List.mem_map_of_mem hg
  obtain ⟨v, -, hv⟩ := List.mem_map.1 hmem
  cases hv

theorem Settles.unique (h : Settles ds gs s s') (h' : Settles ds gs s s'') : s' = s'' := by
  funext x
  by_cases hx : x ∈ ds.map Declared.name
  · obtain ⟨d, hd, rfl⟩ := List.mem_map.1 hx
    obtain ⟨vs, hvs, hs'⟩ := h.1 d hd
    obtain ⟨ws, hws, hs''⟩ := h'.1 d hd
    have hinjective : Function.Injective (Except.ok : Value → Except ArgFault Value) := by
      intro v w hvw
      cases hvw
      rfl
    have hvalues : vs = ws := List.map_injective_iff.2 hinjective (hvs.symm.trans hws)
    rw [hs', hs'', hvalues]
  · rw [h.2 x hx, h'.2 x hx]

theorem Settles.rearranged (h : Settles ds gs s s') (hrearranged : Group.Rearranged gs hs) :
    Settles ds hs s s' := by
  refine ⟨?_, h.2⟩
  intro d hd
  rw [← hrearranged d.name]
  exact h.1 d hd

theorem Unreadable.rearranged (h : Unreadable ds gs) (hrearranged : Group.Rearranged gs hs) :
    Unreadable ds hs := by
  obtain ⟨d, hd, hrest⟩ := h
  rw [hrearranged d.name] at hrest
  exact ⟨d, hd, hrest⟩

theorem Unreadable.cons (h : Unreadable ds gs) (g : Group) : Unreadable ds (g :: gs) := by
  obtain ⟨d, hd, g', hg', hwhy⟩ := h
  obtain ⟨hmem, hflag⟩ := Group.mem_addressing.1 hg'
  exact ⟨d, hd, g', Group.mem_addressing.2 ⟨List.mem_cons_of_mem g hmem, hflag⟩, hwhy⟩

theorem Settles.cons {d : Declared} {g : Group} {v : Value} (hapart : (ds.map Declared.name).Nodup)
    (hd : d ∈ ds) (hflag : d.name = g.flag) (hv : g.value d.holding.type = .ok v)
    (h : Settles ds gs (d.holding.store d.name v s) s') : Settles ds (g :: gs) s s' := by
  constructor
  · intro d' hd'
    obtain ⟨vs, hvs, hs'⟩ := h.1 d' hd'
    rw [Holding.store_apply] at hs'
    by_cases hname : d'.name = d.name
    · -- Names are distinct, so a flag of this name is the one that takes the value.
      cases List.inj_on_of_nodup_map hapart hd' hd hname
      rw [if_pos rfl] at hs'
      refine ⟨v :: vs, ?_, hs'⟩
      rw [Group.addressing_cons_of_eq hflag.symm, List.map_cons, List.map_cons, hv]
      exact congrArg _ hvs
    · rw [if_neg hname] at hs'
      refine ⟨vs, ?_, hs'⟩
      have hne : g.flag ≠ d'.name := by
        rw [← hflag]
        exact Ne.symm hname
      rw [Group.addressing_cons_of_ne hne]
      exact hvs
  · intro x hx
    have hne : x ≠ d.name := by
      rintro rfl
      exact hx (List.mem_map_of_mem hd)
    rw [h.2 x hx, Holding.store_apply, if_neg hne]

/-- Tokens of groups are split at the groups, and each flag takes what its own groups have for
it. -/
theorem execute_groups {visible : Table Settings} (h : Ready visible ds)
    (hfits : ∀ g ∈ gs, g.Fits visible ds) (s : Settings) :
    (∃ s', visible.execute s (gs.flatMap Group.tokens) = (s', none) ∧ Settles ds gs s s') ∨
    ∃ s' e, visible.execute s (gs.flatMap Group.tokens) = (s', some e) ∧ Unreadable ds gs := by
  induction gs generalizing s with
  | nil =>
      refine .inl ⟨s, execute_nil visible s, ?_, fun _ _ => rfl⟩
      intro d hd
      exact ⟨[], rfl, rfl⟩
  | cons g gs ih =>
      obtain ⟨hg, hfits⟩ := List.forall_mem_cons.1 hfits
      obtain ⟨d, hd, hflag, ⟨v, hv, hturn⟩ | ⟨why, hwhy, hfails⟩⟩ :=
        turn_or_fails_of_fits h hg (gs.flatMap Group.tokens) s
      · have hexecute := execute_of_turn hturn
        -- Flags open no commands, so the next group finds the same table.
        simp only [List.append_nil] at hexecute
        rw [List.flatMap_cons, hexecute]
        rcases ih hfits (d.holding.store d.name v s) with ⟨s', hrun, hsettles⟩ | ⟨s', e, hrun, hbad⟩
        · exact .inl ⟨s', hrun, hsettles.cons h.apart hd hflag hv⟩
        · exact .inr ⟨s', e, hrun, hbad.cons g⟩
      · rw [List.flatMap_cons]
        refine .inr ⟨s, _, execute_of_fails hfails, d, hd, g, ?_, why, hwhy⟩
        exact Group.mem_addressing.2 ⟨List.mem_cons_self, hflag.symm⟩

end

/-- Whether tokens of groups can be run does not depend on the order of groups of different flags,
nor does what they leave in the flags. A list has all the values of its groups in their order, any
other flag the last one; that of a reset is the value that is there before the first. -/
theorem independent_flags_commute {f : Flags} {ds : List Declared} (h : Separate f.table ds) :
    (f.defineEach ds).2 = none ∧
    ∀ (s : Settings) (gs hs : List Group), (∀ g ∈ gs, g.Fits (f.defineEach ds).1.table ds) →
      Group.Rearranged gs hs → ∃ s' s'' e e',
        Flags.execute { (f.defineEach ds).1 with settings := s } (gs.flatMap Group.tokens) =
          ({ (f.defineEach ds).1 with settings := s' }, e) ∧
        Flags.execute { (f.defineEach ds).1 with settings := s } (hs.flatMap Group.tokens) =
          ({ (f.defineEach ds).1 with settings := s'' }, e') ∧
        (e = none ↔ e' = none) ∧
        (e = none → s' = s'' ∧ ∀ d ∈ ds, ∃ vs : List Value,
          (Group.addressing d.name gs).map (Group.value d.holding.type) = vs.map .ok ∧
            d.holding.Leaves (s d.name) vs (s' d.name)) := by
  obtain ⟨g, hdefine, htable⟩ := Flags.defineEach_of_free h.free h.distinct
  rw [hdefine]
  refine ⟨rfl, ?_⟩
  intro s gs hs hfits hrearranged
  have hready : Ready g.table ds := htable ▸ h.ready
  have hfits' : ∀ x ∈ hs, x.Fits g.table ds := fun x hx =>
    hfits x (hrearranged.perm.mem_iff.2 hx)
  have hrun : ∀ {s' e tokens}, g.table.execute s tokens = (s', e) →
      Flags.execute { g with settings := s } tokens = ({ g with settings := s' }, e) := by
    intro s' e tokens hexecute
    simp only [Flags.execute, hexecute]
  rcases execute_groups hready hfits s with ⟨s', hgs, hsettles⟩ | ⟨s', e, hgs, hbad⟩
  · rcases execute_groups hready hfits' s with ⟨s'', hhs, hsettles'⟩ | ⟨s'', e', hhs, hbad'⟩
    · refine ⟨s', s'', none, none, hrun hgs, hrun hhs, Iff.rfl, fun _ => ⟨?_, ?_⟩⟩
      · exact (hsettles.rearranged hrearranged).unique hsettles'
      · intro d hd
        obtain ⟨vs, hvs, hs'⟩ := hsettles.1 d hd
        rw [hs']
        exact ⟨vs, hvs, d.holding.leaves_foldl _ vs⟩
    · exact absurd hbad' (hsettles.rearranged hrearranged).not_unreadable
  · rcases execute_groups hready hfits' s with ⟨s'', hhs, hsettles'⟩ | ⟨s'', e', hhs, -⟩
    · exact absurd (hbad.rearranged hrearranged) hsettles'.not_unreadable
    · exact ⟨s', s'', some e, some e', hrun hgs, hrun hhs, ⟨nofun, nofun⟩, nofun⟩

/-- A flag for a number, one that is on or off, and one that collects words. -/
def threeFlags : List Declared :=
  [⟨Bytes.ofString "size", .value (.int none)⟩, ⟨Bytes.ofString "quiet", .switch⟩,
    ⟨Bytes.ofString "word", .list .text⟩]

theorem separate_threeFlags : Separate (Flags.table {}) threeFlags where
  free := by
    have hnone : ∀ x ∈ Declared.names threeFlags, ((Flags.table {}).find? x).isNone = true := by
      decide +kernel
    exact fun x hx => Option.isNone_iff_eq_none.1 (hnone x hx)
  distinct := by decide +kernel
  whole := by decide +kernel
  tight := by decide +kernel

theorem Group.rearranged_swap {g g' : Group} (h : g.flag ≠ g'.flag) (gs : List Group) :
    Rearranged (g :: g' :: gs) (g' :: g :: gs) := by
  intro x
  by_cases hx : g.flag = x
  · have hx' : g'.flag ≠ x := by
      rintro rfl
      exact h hx
    rw [addressing_cons_of_eq hx, addressing_cons_of_ne hx', addressing_cons_of_ne hx',
      addressing_cons_of_eq hx]
  · rw [addressing_cons_of_ne hx]
    by_cases hx' : g'.flag = x
    · rw [addressing_cons_of_eq hx', addressing_cons_of_eq hx', addressing_cons_of_ne hx]
    · rw [addressing_cons_of_ne hx', addressing_cons_of_ne hx', addressing_cons_of_ne hx]

theorem independent_flags_commute_of_three :
    Separate (Flags.table {}) threeFlags ∧
    ((Flags.execute (Flags.defineEach {} threeFlags).1
      (["size=3", "word", "quiet", "!quiet"].map Bytes.ofString)).2 = none ↔
    (Flags.execute (Flags.defineEach {} threeFlags).1
      (["word", "quiet", "size=3", "!quiet"].map Bytes.ofString)).2 = none) := by
  let size : Group := .joined (Bytes.ofString "size") (Bytes.ofString "3")
  let word : Group := .next (Bytes.ofString "word") (Bytes.ofString "quiet")
  let off : Group := .off (Bytes.ofString "quiet")
  have hwhole : ((Flags.defineEach {} threeFlags).1.table.find?
      (Bytes.trim (Bytes.ofString "size" ++ 61 :: Bytes.ofString "3"))).isNone = true := by
    decide +kernel
  have hsize : size.Fits (Flags.defineEach {} threeFlags).1.table threeFlags :=
    @Group.Fits.joined _ _ ⟨_, .value (.int none)⟩ _ (.head _) rfl
      (Option.isNone_iff_eq_none.1 hwhole)
  have hword : word.Fits (Flags.defineEach {} threeFlags).1.table threeFlags :=
    @Group.Fits.next _ _ ⟨_, .list .text⟩ _ (.tail _ (.tail _ (.head _))) rfl
  have hoff : off.Fits (Flags.defineEach {} threeFlags).1.table threeFlags :=
    .off (.tail _ (.head _))
  have hfits : ∀ g ∈ [size, word, off], g.Fits (Flags.defineEach {} threeFlags).1.table
      threeFlags := by
    rintro g (_ | ⟨_, _ | ⟨_, _ | ⟨_, ⟨⟩⟩⟩⟩)
    · exact hsize
    · exact hword
    · exact hoff
  have hflags : size.flag ≠ word.flag := by decide +kernel
  obtain ⟨-, hall⟩ := independent_flags_commute separate_threeFlags
  obtain ⟨s', s'', e, e', hgs, hhs, hiff, -⟩ := hall (Flags.defineEach {} threeFlags).1.settings
    [size, word, off] [word, size, off] hfits (Group.rearranged_swap hflags [off])
  have hgs' : ["size=3", "word", "quiet", "!quiet"].map Bytes.ofString =
      [size, word, off].flatMap Group.tokens := by decide +kernel
  have hhs' : ["word", "quiet", "size=3", "!quiet"].map Bytes.ofString =
      [word, size, off].flatMap Group.tokens := by decide +kernel
  have hend : (Flags.execute (Flags.defineEach {} threeFlags).1
      ([size, word, off].flatMap Group.tokens)).2 = e := congrArg Prod.snd hgs
  have hend' : (Flags.execute (Flags.defineEach {} threeFlags).1
      ([word, size, off].flatMap Group.tokens)).2 = e' := congrArg Prod.snd hhs
  refine ⟨separate_threeFlags, ?_⟩
  rw [hgs', hhs', hend, hend']
  exact hiff

end Command

end TapeForge

import Mathlib.Algebra.GroupWithZero.Nat
import TapeForge.Command.Table
import TapeForge.Proofs.Trimming

/-!
# Each token is taken once

A run is read here as a chain of turns, one command each. A turn takes the first token, which names
a command as a whole or by what stands before its first equals sign, and as many tokens after it as
the command has parameters; what it leaves is the start of the next turn. The tokens get fewer
bytes, or fewer, with each turn, which bounds the number of turns. A command that opens others makes
them visible to the turns after it, in a copy of the table that the run began with.
-/

namespace TapeForge

namespace Command

variable {σ : Type}

/-! ## Tables whose commands can be called -/

namespace ParamType

/-- The types that a token can be read as. -/
def isScalar : ParamType → Bool
  | bool | text | int _ | uint _ | float _ => true
  | pointer _ | unsupported _ _ => false

def isPlain : ParamType → Bool
  | pointer target => target.isScalar
  | t => t.isScalar

end ParamType

/-- A command whose parameters are scalars or pointers to scalars, and whose own commands are all
there and are such commands. -/
inductive Sound : Command σ → Prop
  | mk {action : Option (Action σ)} {subs : List (Entry (Command σ))} {description : Bytes} :
      (∀ a, action = some a → ∀ p ∈ a.params, p.isPlain = true) →
      (∀ entry ∈ subs, ∃ c, entry.bound = some c) →
      (∀ entry ∈ subs, ∀ c, entry.bound = some c → Sound c) →
      Sound (.mk action subs description)

/-- All names of a table are bound to sound commands. -/
def Table.Sound (t : Table σ) : Prop := ∀ entry ∈ t, ∃ c, entry.bound = some c ∧ Command.Sound c

/-! ## Turns -/

structure Reading (σ : Type) where
  visible : Table σ
  tokens : List Bytes
  state : σ

/-- A token names a command, and these tokens are offered to it. A token of a name, an equals sign
and a value is replaced by the value, but only if no command has the whole of it as its name. -/
inductive Names (visible : Table σ) (token : Bytes) (rest : List Bytes) :
    Bytes → Command σ → List Bytes → Prop
  | whole {c : Command σ} : visible.find? (Bytes.trim token) = some (some c) →
      Names visible token rest (Bytes.trim token) c rest
  | split {name value : Bytes} {c : Command σ} : visible.find? (Bytes.trim token) = none →
      Bytes.trim token = name ++ 61 :: value → 61 ∉ name → visible.find? name = some (some c) →
      Names visible token rest name c (value :: rest)

/-- The values of parameters, each from the token in its place. A parameter for which there is no
token is a pointer, to a new value. -/
inductive Supplied : List ParamType → List Bytes → List Value → Prop
  | nil (tokens : List Bytes) : Supplied [] tokens []
  | token {p : ParamType} {ps : List ParamType} {token : Bytes} {tokens : List Bytes} {v : Value}
      {vs : List Value} : p.read token = .ok v → Supplied ps tokens vs →
      Supplied (p :: ps) (token :: tokens) (v :: vs)
  | absent {target : ParamType} {ps : List ParamType} {vs : List Value} : Supplied ps [] vs →
      Supplied (.pointer target :: ps) [] (.pointer (some target.zero) :: vs)

/-- What a command does to a state when it takes tokens. -/
inductive Performs (c : Command σ) (taken : List Bytes) (s : σ) : σ → Option ActionError → Prop
  | idle : c.action = none → Performs c taken s s none
  | call {a : Action σ} {values : List Value} {s' : σ} {e : Option ActionError} :
      c.action = some a → Supplied a.params taken values → a.run values s = (s', e) →
      Performs c taken s s' e

/-- The tokens that a command takes of those it is offered: as many as it has parameters, or all. -/
structure Takes (c : Command σ) (offered taken left : List Bytes) : Prop where
  append : offered = taken ++ left
  length : taken.length = min c.arity offered.length

inductive Turn : Reading σ → Reading σ → Prop
  | mk {visible : Table σ} {token name : Bytes} {rest offered taken left : List Bytes}
      {c : Command σ} {s s' : σ} : Names visible token rest name c offered →
      Takes c offered taken left → Performs c taken s s' none →
      (∀ x ∈ c.subs.flatMap Entry.names, visible.find? x = none) →
      Turn ⟨visible, token :: rest, s⟩ ⟨visible ++ c.subs, left, s'⟩

/-- How a run ends before its last token. -/
inductive Fails : Reading σ → σ → Failure → Prop
  | unknown {visible : Table σ} {token : Bytes} {rest : List Bytes} {s : σ} :
      visible.find? (Bytes.trim token) = none →
      (∀ name value, Bytes.trim token = name ++ 61 :: value → 61 ∉ name →
        visible.find? name = none) →
      Fails ⟨visible, token :: rest, s⟩ s (.unknown (Bytes.trim token))
  | argument {visible : Table σ} {token name : Bytes} {rest offered : List Bytes} {c : Command σ}
      {a : Action σ} {why : ArgFault} {s : σ} : Names visible token rest name c offered →
      c.action = some a → takeArgs a.params offered = .error why →
      Fails ⟨visible, token :: rest, s⟩ s (.argument name why)
  | action {visible : Table σ} {token name : Bytes} {rest offered taken left : List Bytes}
      {c : Command σ} {s s' : σ} {why : ActionError} : Names visible token rest name c offered →
      Takes c offered taken left → Performs c taken s s' (some why) →
      Fails ⟨visible, token :: rest, s⟩ s' (.action name why)
  | duplicated {visible : Table σ} {token name x : Bytes} {rest offered taken left : List Bytes}
      {c : Command σ} {s s' : σ} : Names visible token rest name c offered →
      Takes c offered taken left → Performs c taken s s' none →
      (c.subs.flatMap Entry.names).find? (fun x => (visible.find? x).isSome) = some x →
      Fails ⟨visible, token :: rest, s⟩ s' (.duplicatedSub name x)

/-- A run, with the number of its turns; the one that fails counts. -/
inductive Run : Nat → Reading σ → σ → Option Failure → Prop
  | done {visible : Table σ} {s : σ} : Run 0 ⟨visible, [], s⟩ s none
  | turn {n : Nat} {a b : Reading σ} {s : σ} {e : Option Failure} : Turn a b → Run n b s e →
      Run (n + 1) a s e
  | fails {a : Reading σ} {s : σ} {e : Failure} : Fails a s e → Run 1 a s (some e)

/-! ## One turn -/

theorem resolve_of_find {visible : Table σ} {token : Bytes} {c : Option (Command σ)}
    (h : visible.find? (Bytes.trim token) = some c) :
    visible.resolve token = some (Bytes.trim token, c, none) := by
  rw [Table.resolve, h]

theorem resolve_of_find_none {visible : Table σ} {token : Bytes}
    (h : visible.find? (Bytes.trim token) = none) :
    visible.resolve token = match Bytes.cut 61 (Bytes.trim token) with
      | none => none
      | some (name, value) => (visible.find? name).map fun c => (name, c, some value) := by
  cases hcut : Bytes.cut 61 (Bytes.trim token) with
  | none => simp only [Table.resolve, h, hcut]
  | some parts => simp only [Table.resolve, h, hcut]

theorem names_iff {visible : Table σ} {token name : Bytes} {rest offered : List Bytes}
    {c : Command σ} : Names visible token rest name c offered ↔
      ∃ value, visible.resolve token = some (name, some c, value) ∧
        offered = value.toList ++ rest := by
  constructor
  · rintro (hfind | ⟨hwhole, htoken, hname, hfind⟩)
    · exact ⟨none, resolve_of_find hfind, rfl⟩
    · refine ⟨some _, ?_, rfl⟩
      rw [resolve_of_find_none hwhole, htoken, Bytes.cut_append_cons hname]
      simp only [hfind, Option.map_some]
  · rintro ⟨value, hresolve, rfl⟩
    cases hwhole : visible.find? (Bytes.trim token) with
    | some c' =>
        cases (resolve_of_find hwhole).symm.trans hresolve
        exact .whole hwhole
    | none =>
        rw [resolve_of_find_none hwhole] at hresolve
        split at hresolve
        · cases hresolve
        · rename_i name' value' hcut
          obtain ⟨htoken, hname⟩ := Bytes.cut_eq_some_iff.1 hcut
          obtain ⟨c', hfind, hc⟩ := Option.map_eq_some_iff.1 hresolve
          cases hc
          exact .split hwhole htoken hname hfind

theorem resolve_eq_none_iff {visible : Table σ} {token : Bytes} :
    visible.resolve token = none ↔ visible.find? (Bytes.trim token) = none ∧
      ∀ name value, Bytes.trim token = name ++ 61 :: value → 61 ∉ name →
        visible.find? name = none := by
  cases hwhole : visible.find? (Bytes.trim token) with
  | some c => simp [resolve_of_find hwhole]
  | none =>
      rw [resolve_of_find_none hwhole]
      cases hcut : Bytes.cut 61 (Bytes.trim token) with
      | none =>
          refine ⟨fun _ => ⟨rfl, ?_⟩, fun _ => rfl⟩
          intro name value htoken hname
          cases hcut.symm.trans (Bytes.cut_eq_some_iff.2 ⟨htoken, hname⟩)
      | some parts =>
          obtain ⟨name, value⟩ := parts
          obtain ⟨htoken, hname⟩ := Bytes.cut_eq_some_iff.1 hcut
          simp only [Option.map_eq_none_iff, true_and]
          constructor
          · intro hfind name' value' htoken' hname'
            cases hcut.symm.trans (Bytes.cut_eq_some_iff.2 ⟨htoken', hname'⟩)
            exact hfind
          · intro hall
            exact hall name value htoken hname

/-- Arguments are taken exactly if they are supplied. -/
theorem takeArgs_eq_ok_iff {ps : List ParamType} {tokens : List Bytes} {vs : List Value} :
    takeArgs ps tokens = .ok vs ↔ Supplied ps tokens vs := by
  induction ps generalizing tokens vs with
  | nil =>
      constructor
      · intro h
        cases h
        exact .nil tokens
      · rintro ⟨⟩
        rfl
  | cons p ps ih =>
      have hrest : ∀ (v : Value) (r : Except ArgFault (List Value)),
          r.map (v :: ·) = .ok vs ↔ ∃ ws, r = .ok ws ∧ vs = v :: ws := by
        rintro v (e | ws)
        · simp [Except.map]
        · simp [Except.map, eq_comm]
      cases tokens with
      | nil =>
          constructor
          · intro h
            rw [takeArgs] at h
            cases p with
            | pointer target =>
                obtain ⟨ws, hws, rfl⟩ := (hrest _ _).1 h
                exact .absent (ih.1 hws)
            | _ => cases h
          · rintro (_ | _ | hws)
            exact (hrest _ _).2 ⟨_, ih.2 hws, rfl⟩
      | cons token tokens =>
          constructor
          · intro h
            rw [takeArgs] at h
            cases hread : p.read token with
            | error e => simp [hread] at h
            | ok v =>
                simp only [hread] at h
                obtain ⟨ws, hws, rfl⟩ := (hrest _ _).1 h
                exact .token hread (ih.1 hws)
          · rintro (_ | ⟨hread, hws⟩ | _)
            rw [takeArgs]
            simp only [hread]
            exact (hrest _ _).2 ⟨_, ih.2 hws, rfl⟩

/-- Arguments are supplied by the tokens in their places and by no others. -/
theorem supplied_append {ps : List ParamType} {taken left : List Bytes} {vs : List Value}
    (h : taken.length = min ps.length (taken ++ left).length) :
    Supplied ps taken vs ↔ Supplied ps (taken ++ left) vs := by
  induction ps generalizing taken vs with
  | nil => exact ⟨by rintro ⟨⟩; exact .nil _, by rintro ⟨⟩; exact .nil _⟩
  | cons p ps ih =>
      cases taken with
      | nil =>
          have hleft : left = [] := by
            rw [← List.length_eq_zero_iff]
            simp at h
            omega
          rw [hleft, List.append_nil]
      | cons token taken =>
          have hrest : taken.length = min ps.length (taken ++ left).length := by
            simp only [List.length_cons, List.cons_append] at h
            omega
          constructor
          · rintro (_ | ⟨hread, hvs⟩ | _)
            exact .token hread ((ih hrest).1 hvs)
          · intro hall
            rw [List.cons_append] at hall
            rcases hall with _ | ⟨hread, hvs⟩ | _
            exact .token hread ((ih hrest).2 hvs)

theorem takes_drop (c : Command σ) (offered : List Bytes) :
    Takes c offered (offered.take c.arity) (offered.drop c.arity) :=
  ⟨(List.take_append_drop _ _).symm, List.length_take⟩

theorem Takes.left_eq {c : Command σ} {offered taken left : List Bytes}
    (h : Takes c offered taken left) : left = offered.drop c.arity := by
  have hlen := h.length
  rw [h.append, List.drop_append]
  rw [h.append, List.length_append] at hlen
  have htaken : taken.drop c.arity = [] := List.drop_of_length_le (by omega)
  rw [htaken, List.nil_append]
  by_cases hall : c.arity ≤ taken.length
  · have hzero : c.arity - taken.length = 0 := by omega
    rw [hzero, List.drop_zero]
  · have hleft : left = [] := by
      rw [← List.length_eq_zero_iff]
      omega
    rw [hleft, List.drop_nil]

theorem perform_of_performs {c : Command σ} {offered taken left : List Bytes} {s s' : σ}
    {e : Option ActionError} (ht : Takes c offered taken left) (h : Performs c taken s s' e)
    (name : Bytes) : Table.perform name c offered s = (s', e.map (.action name)) := by
  rcases h with hidle | ⟨haction, hvalues, hrun⟩
  · rw [Table.perform, hidle]
    rfl
  · have hlen := ht.length
    rw [arity, haction, ht.append] at hlen
    have hargs := takeArgs_eq_ok_iff.2 ((supplied_append hlen).1 hvalues)
    rw [Table.perform, haction, ht.append]
    simp only [hargs, hrun]

/-- The function of a command cannot be called, or it is called on the tokens that are taken. -/
theorem perform_cases (name : Bytes) {c : Command σ} {offered taken left : List Bytes}
    (ht : Takes c offered taken left) (s : σ) :
    (∃ a why, c.action = some a ∧ takeArgs a.params offered = .error why ∧
      Table.perform name c offered s = (s, some (.argument name why))) ∨
    ∃ s' e, Performs c taken s s' e ∧
      Table.perform name c offered s = (s', e.map (.action name)) := by
  cases haction : c.action with
  | none =>
      have hidle : Performs c taken s s none := .idle haction
      exact .inr ⟨s, none, hidle, perform_of_performs ht hidle name⟩
  | some a =>
      cases hargs : takeArgs a.params offered with
      | error why =>
          refine .inl ⟨a, why, rfl, hargs, ?_⟩
          rw [Table.perform, haction]
          simp only [hargs]
      | ok values =>
          have hlen := ht.length
          rw [arity, haction, ht.append] at hlen
          rw [ht.append, takeArgs_eq_ok_iff, ← supplied_append hlen] at hargs
          have hcall : Performs c taken s _ _ := .call haction hargs rfl
          exact .inr ⟨_, _, hcall, perform_of_performs ht hcall name⟩

theorem execute_nil (t : Table σ) (s : σ) : t.execute s [] = (s, none) := by
  rw [Table.execute]

theorem execute_cons (t : Table σ) (s : σ) (token : Bytes) (rest : List Bytes) :
    t.execute s (token :: rest) = match t.resolve token with
      | none => (s, some (.unknown (Bytes.trim token)))
      | some (name, none, _) => (s, some (.unbound name))
      | some (name, some c, value) =>
        match Table.perform name c (value.toList ++ rest) s with
        | (s, some e) => (s, some e)
        | (s, none) =>
          match t.extend name c.subs with
          | .error e => (s, some e)
          | .ok visible => visible.execute s ((value.toList ++ rest).drop c.arity) := by
  rw [Table.execute]
  split <;> rename_i hresolve <;> exact hresolve ▸ rfl

theorem extend_eq_ok_iff {t visible : Table σ} {name : Bytes} {subs : Table σ} :
    t.extend name subs = .ok visible ↔
      (∀ x ∈ subs.flatMap Entry.names, t.find? x = none) ∧ visible = t ++ subs := by
  rw [Table.extend]
  cases hfind : (subs.flatMap Entry.names).find? (fun x => (t.find? x).isSome) with
  | none =>
      have hfree : ∀ x ∈ subs.flatMap Entry.names, t.find? x = none := by
        simpa using List.find?_eq_none.1 hfind
      constructor
      · intro h
        cases h
        exact ⟨hfree, rfl⟩
      · rintro ⟨-, rfl⟩
        rfl
  | some x =>
      constructor
      · intro h
        cases h
      · rintro ⟨hfree, -⟩
        have hbound := List.find?_some hfind
        rw [hfree x (List.mem_of_find?_eq_some hfind)] at hbound
        cases hbound

theorem extend_eq_error_iff {t : Table σ} {name : Bytes} {subs : Table σ} {e : Failure} :
    t.extend name subs = .error e ↔
      ∃ x, (subs.flatMap Entry.names).find? (fun x => (t.find? x).isSome) = some x ∧
        e = .duplicatedSub name x := by
  rw [Table.extend]
  cases (subs.flatMap Entry.names).find? (fun x => (t.find? x).isSome) with
  | none => simp
  | some x => simp [eq_comm]

theorem execute_of_turn {a b : Reading σ} (h : Turn a b) :
    a.visible.execute a.state a.tokens = b.visible.execute b.state b.tokens := by
  obtain ⟨hnames, htakes, hperforms, hfree⟩ := h
  obtain ⟨value, hresolve, hoffered⟩ := names_iff.1 hnames
  rw [hoffered] at htakes
  have hleft := htakes.left_eq
  rw [execute_cons, hresolve]
  simp only [perform_of_performs htakes hperforms, Option.map_none,
    extend_eq_ok_iff.2 ⟨hfree, rfl⟩, hleft]

theorem execute_of_fails {a : Reading σ} {s : σ} {e : Failure} (h : Fails a s e) :
    a.visible.execute a.state a.tokens = (s, some e) := by
  cases h with
  | unknown hwhole hsplit => rw [execute_cons, resolve_eq_none_iff.2 ⟨hwhole, hsplit⟩]
  | argument hnames haction hargs =>
      obtain ⟨value, hresolve, hoffered⟩ := names_iff.1 hnames
      rw [hoffered] at hargs
      rw [execute_cons, hresolve]
      simp only [Table.perform, haction, hargs]
  | action hnames htakes hperforms =>
      obtain ⟨value, hresolve, hoffered⟩ := names_iff.1 hnames
      rw [hoffered] at htakes
      rw [execute_cons, hresolve]
      simp only [perform_of_performs htakes hperforms, Option.map_some]
  | duplicated hnames htakes hperforms hfind =>
      obtain ⟨value, hresolve, hoffered⟩ := names_iff.1 hnames
      rw [hoffered] at htakes
      rw [execute_cons, hresolve]
      simp only [perform_of_performs htakes hperforms, Option.map_none,
        extend_eq_error_iff.2 ⟨_, hfind, rfl⟩]

/-- A run comes to what its execution gives. -/
theorem Run.execute_eq {n : Nat} {a : Reading σ} {s : σ} {e : Option Failure} (h : Run n a s e) :
    a.visible.execute a.state a.tokens = (s, e) := by
  induction h with
  | done => exact execute_nil _ _
  | turn hturn _ ih => rw [execute_of_turn hturn, ih]
  | fails hfails => exact execute_of_fails hfails

/-! ## The number of turns -/

/-- What is left after a command that a token names is less than the token and those after it. -/
theorem budget_lt_of_resolve {visible : Table σ} {token name : Bytes} {c : Option (Command σ)}
    {value : Option Bytes} (h : visible.resolve token = some (name, c, value)) (rest : List Bytes)
    (n : Nat) :
    Table.budget ((value.toList ++ rest).drop n) < Table.budget (token :: rest) := by
  refine Nat.lt_of_le_of_lt (Table.budget_drop_le n _) ?_
  cases value with
  | none =>
      rw [Option.toList_none, List.nil_append, Table.budget_cons]
      omega
  | some value =>
      have hshort := Table.length_lt_of_resolve h
      rw [Option.toList_some, List.singleton_append, Table.budget_cons, Table.budget_cons]
      omega

theorem Turn.budget_lt {a b : Reading σ} (h : Turn a b) :
    Table.budget b.tokens < Table.budget a.tokens := by
  obtain ⟨hnames, htakes, -, -⟩ := h
  obtain ⟨value, hresolve, hoffered⟩ := names_iff.1 hnames
  rw [hoffered] at htakes
  have hleft := htakes.left_eq
  rw [hleft]
  exact budget_lt_of_resolve hresolve _ _

theorem Run.le_budget {n : Nat} {a : Reading σ} {s : σ} {e : Option Failure} (h : Run n a s e) :
    n ≤ Table.budget a.tokens := by
  induction h with
  | done => exact Nat.zero_le _
  | turn hturn _ ih =>
      have hlt := hturn.budget_lt
      omega
  | fails hfails =>
      obtain _ | _ | _ | _ := hfails <;>
      · rw [Table.budget_cons]
        omega

theorem budget_eq_sum (tokens : List Bytes) :
    Table.budget tokens = (tokens.map fun token => token.length + 1).sum := by
  induction tokens with
  | nil => rfl
  | cons token tokens ih => rw [Table.budget_cons, ih, List.map_cons, List.sum_cons]

/-! ## Every execution is a run -/

theorem Table.Sound.find {t : Table σ} (h : t.Sound) {name : Bytes} {b : Option (Command σ)}
    (hfind : t.find? name = some b) : ∃ c, b = some c ∧ Command.Sound c := by
  obtain ⟨entry, hentry, rfl⟩ := Option.map_eq_some_iff.1 hfind
  exact h entry (List.mem_of_find?_eq_some hentry)

theorem Table.Sound.resolve {t : Table σ} (h : t.Sound) {token name : Bytes}
    {bound : Option (Command σ)} {value : Option Bytes}
    (hresolve : t.resolve token = some (name, bound, value)) :
    ∃ c, bound = some c ∧ Command.Sound c := by
  cases hwhole : t.find? (Bytes.trim token) with
  | some c =>
      cases (resolve_of_find hwhole).symm.trans hresolve
      exact h.find hwhole
  | none =>
      rw [resolve_of_find_none hwhole] at hresolve
      split at hresolve
      · cases hresolve
      · obtain ⟨c, hfind, hc⟩ := Option.map_eq_some_iff.1 hresolve
        cases hc
        exact h.find hfind

theorem Sound.params {c : Command σ} (h : Sound c) {a : Action σ} (ha : c.action = some a) :
    ∀ p ∈ a.params, p.isPlain = true := by
  obtain ⟨hparams, -, -⟩ := h
  exact hparams a ha

theorem Sound.subs {c : Command σ} (h : Sound c) : Table.Sound c.subs := by
  obtain ⟨-, hbound, hsound⟩ := h
  intro entry hentry
  obtain ⟨c, hc⟩ := hbound entry hentry
  exact ⟨c, hc, hsound entry hentry c hc⟩

theorem Table.Sound.append {t u : Table σ} (h : t.Sound) (h' : u.Sound) : Table.Sound (t ++ u) := by
  intro entry hentry
  rcases List.mem_append.1 hentry with hentry | hentry
  · exact h entry hentry
  · exact h' entry hentry

/-- A failure that is a mistake in the tokens, not in the commands. -/
def Failure.Plain (e : Failure) : Prop :=
  (∀ name, e ≠ .unbound name) ∧ ∀ name, e ≠ .argument name .nestedPointer

theorem number_of_read {α : Type} {r : Except NumberFault α} {fault : NumberFault → ArgFault}
    {f : α → Value} {why : ArgFault} (h : (r.mapError fault).map f = .error why) :
    ∃ e, why = fault e := by
  cases r with
  | error e =>
      cases h
      exact ⟨e, rfl⟩
  | ok x => cases h

theorem read_scalar {p : ParamType} (hp : p.isScalar = true) {token : Bytes} {why : ArgFault}
    (h : p.read token = .error why) : why ≠ .nestedPointer := by
  cases p with
  | bool | text => cases h
  | int | uint | float =>
      obtain ⟨e, rfl⟩ := number_of_read h
      nofun
  | pointer | unsupported => cases hp

theorem read_plain {p : ParamType} (hp : p.isPlain = true) {token : Bytes} {why : ArgFault}
    (h : p.read token = .error why) : why ≠ .nestedPointer := by
  cases p with
  | pointer target =>
      have htarget : target.isPointer = false := by
        cases target with
        | pointer => cases hp
        | _ => rfl
      rw [ParamType.read] at h
      cases hread : target.read token with
      | error e =>
          rw [hread] at h
          cases h
          exact read_scalar hp hread
      | ok v =>
          rw [hread, htarget] at h
          cases h
  | _ =>
      refine read_scalar ?_ h
      exact hp

theorem takeArgs_plain {ps : List ParamType} (hps : ∀ p ∈ ps, p.isPlain = true)
    {tokens : List Bytes} {why : ArgFault} (h : takeArgs ps tokens = .error why) :
    why ≠ .nestedPointer := by
  induction ps generalizing tokens with
  | nil => cases h
  | cons p ps ih =>
      obtain ⟨hp, hps⟩ := List.forall_mem_cons.1 hps
      -- Once a value is taken, the failure is one of the parameters behind.
      have hrest : ∀ (v : Value), (takeArgs ps tokens.tail).map (v :: ·) = .error why →
          why ≠ .nestedPointer := by
        intro v hmap
        cases hargs : takeArgs ps tokens.tail with
        | error e =>
            rw [hargs] at hmap
            cases hmap
            exact ih hps hargs
        | ok vs =>
            rw [hargs] at hmap
            cases hmap
      cases tokens with
      | nil =>
          rw [takeArgs] at h
          cases p with
          | pointer target => exact hrest _ h
          | _ =>
              cases h
              nofun
      | cons token tokens =>
          rw [takeArgs] at h
          cases hread : p.read token with
          | error e =>
              simp only [hread] at h
              cases h
              exact read_plain hp hread
          | ok v =>
              simp only [hread] at h
              exact hrest v h

/-- As long as there are tokens, a run takes a turn or fails. -/
theorem turn_or_fails {a : Reading σ} (h : a.visible.Sound) (hmore : a.tokens ≠ []) :
    (∃ b, Turn a b ∧ b.visible.Sound) ∨ ∃ s e, Fails a s e ∧ e.Plain := by
  obtain ⟨visible, tokens, s⟩ := a
  obtain ⟨token, rest, rfl⟩ := List.exists_cons_of_ne_nil hmore
  cases hresolve : visible.resolve token with
  | none =>
      obtain ⟨hwhole, hsplit⟩ := resolve_eq_none_iff.1 hresolve
      exact .inr ⟨s, _, .unknown hwhole hsplit, nofun, nofun⟩
  | some named =>
      obtain ⟨name, bound, value⟩ := named
      obtain ⟨c, rfl, hc⟩ := h.resolve hresolve
      have hnames : Names visible token rest name c (value.toList ++ rest) :=
        names_iff.2 ⟨value, hresolve, rfl⟩
      have htakes := takes_drop c (value.toList ++ rest)
      rcases perform_cases name htakes s with ⟨a, why, ha, hargs, -⟩ | ⟨s', e, hperforms, -⟩
      · refine .inr ⟨s, _, .argument hnames ha hargs, nofun, ?_⟩
        rintro name' ⟨⟩
        exact takeArgs_plain (hc.params ha) hargs rfl
      · cases e with
        | some why => exact .inr ⟨s', _, .action hnames htakes hperforms, nofun, nofun⟩
        | none =>
            cases hsubs : visible.extend name c.subs with
            | error e =>
                obtain ⟨x, hx, rfl⟩ := extend_eq_error_iff.1 hsubs
                exact .inr ⟨s', _, .duplicated hnames htakes hperforms hx, nofun, nofun⟩
            | ok opened =>
                obtain ⟨hfree, rfl⟩ := extend_eq_ok_iff.1 hsubs
                exact .inl ⟨_, .mk hnames htakes hperforms hfree, Table.Sound.append h hc.subs⟩

theorem exists_run {a : Reading σ} (h : a.visible.Sound) :
    ∃ n s e, Run n a s e ∧ ∀ why, e = some why → why.Plain := by
  -- A value that is split from its name is put back, so tokens need not get fewer; their bytes do.
  induction hb : Table.budget a.tokens using Nat.strongRecOn generalizing a with
  | ind b ih =>
      subst hb
      by_cases hmore : a.tokens = []
      · obtain ⟨visible, tokens, s⟩ := a
        cases hmore
        exact ⟨0, s, none, .done, nofun⟩
      · rcases turn_or_fails h hmore with ⟨b, hturn, hsound⟩ | ⟨s, e, hfails, hplain⟩
        · obtain ⟨n, s, e, hrun, hplain⟩ := ih _ hturn.budget_lt hsound rfl
          exact ⟨n + 1, s, e, .turn hturn hrun, hplain⟩
        · refine ⟨1, s, some e, .fails hfails, ?_⟩
          rintro why ⟨⟩
          exact hplain

/-- A parameter that has no token of its own is a pointer. -/
theorem Supplied.isPointer {ps : List ParamType} {tokens : List Bytes} {vs : List Value}
    (h : Supplied ps tokens vs) : ∀ p ∈ ps.drop tokens.length, p.isPointer = true := by
  induction h with
  | nil tokens => simp
  | token _ _ ih => simpa using ih
  | absent _ ih =>
      rintro p (_ | ⟨_, hp⟩)
      · rfl
      · exact ih p hp

/-! ## Tables in their places -/

/-- Tables by the places where they are kept. -/
abbrev Shelf (σ : Type) := Array (Table σ)

namespace Shelf

/-- Puts a copy of the table at a place behind all others and opens commands in the copy. -/
def openCopy (shelf : Shelf σ) (place : Nat) (name : Bytes) (subs : Table σ) :
    Shelf σ × Option Failure :=
  let copy := shelf.getD place []
  match copy.extend name subs with
  | .error e => (shelf.push copy, some e)
  | .ok opened => ((shelf.push copy).setIfInBounds shelf.size opened, none)

/-- Runs tokens on the table at a place. A command without commands of its own leaves the next one
to the same table, any other to a copy. -/
def execute (shelf : Shelf σ) (place : Nat) (s : σ) (tokens : List Bytes) :
    Shelf σ × σ × Option Failure :=
  match tokens with
  | [] => (shelf, s, none)
  | token :: rest =>
    match _resolved : Table.resolve (shelf.getD place []) token with
    | none => (shelf, s, some (.unknown (Bytes.trim token)))
    | some (name, none, _) => (shelf, s, some (.unbound name))
    | some (name, some c, value) =>
      match Table.perform name c (value.toList ++ rest) s with
      | (s, some e) => (shelf, s, some e)
      | (s, none) =>
        if c.subs.isEmpty then execute shelf place s ((value.toList ++ rest).drop c.arity)
        else
          match openCopy shelf place name c.subs with
          | (shelf', some e) => (shelf', s, some e)
          | (shelf', none) =>
            execute shelf' shelf.size s ((value.toList ++ rest).drop c.arity)
termination_by Table.budget tokens
decreasing_by
  all_goals exact budget_lt_of_resolve _resolved rest c.arity

/-- Either the copy stays as it is, or the commands are in it. -/
theorem openCopy_cases (shelf : Shelf σ) (place : Nat) (name : Bytes) (subs : Table σ) :
    (∃ e, Table.extend (shelf.getD place []) name subs = .error e ∧
      openCopy shelf place name subs = (shelf.push (shelf.getD place []), some e)) ∨
    ∃ opened, Table.extend (shelf.getD place []) name subs = .ok opened ∧
      openCopy shelf place name subs = (shelf.push opened, none) := by
  cases hextend : Table.extend (shelf.getD place []) name subs with
  | error e =>
      refine .inl ⟨e, rfl, ?_⟩
      simp only [openCopy, hextend]
  | ok opened =>
      refine .inr ⟨opened, rfl, ?_⟩
      have hcopy : (shelf.push (shelf.getD place [])).setIfInBounds shelf.size opened =
          shelf.push opened := by
        rw [← Array.toList_inj]
        simp [List.set_append_right]
      simp only [openCopy, hextend, hcopy]

/-- What is put behind all tables changes none of them. -/
theorem getElem?_openCopy {shelf shelf' : Shelf σ} {place : Nat} {name : Bytes} {subs : Table σ}
    {e : Option Failure} (h : openCopy shelf place name subs = (shelf', e)) {k : Nat}
    (hk : k < shelf.size) : k < shelf'.size ∧ shelf'[k]? = shelf[k]? := by
  have hpush : ∃ opened, shelf' = shelf.push opened := by
    rcases openCopy_cases shelf place name subs with ⟨_, -, hcopy⟩ | ⟨_, -, hcopy⟩
    · cases hcopy.symm.trans h
      exact ⟨_, rfl⟩
    · cases hcopy.symm.trans h
      exact ⟨_, rfl⟩
  obtain ⟨opened, rfl⟩ := hpush
  constructor
  · rw [Array.size_push]
    omega
  · rw [Array.getElem?_push_lt hk, Array.getElem?_eq_getElem hk]

/-- A run changes no table that was there before it. -/
theorem getElem?_execute (shelf : Shelf σ) (place : Nat) (s : σ) (tokens : List Bytes) {k : Nat}
    (hk : k < shelf.size) : (execute shelf place s tokens).1[k]? = shelf[k]? := by
  fun_induction execute shelf place s tokens with
  | case1 | case2 | case3 | case4 => rfl
  | case5 shelf place s token rest name c value hresolve s' hperform hsubs ih => exact ih hk
  | case6 shelf place s token rest name c value hresolve s' hperform hsubs shelf' e hcopy =>
      exact (getElem?_openCopy hcopy hk).2
  | case7 shelf place s token rest name c value hresolve s' hperform hsubs shelf' hcopy ih =>
      obtain ⟨hk', hkept⟩ := getElem?_openCopy hcopy hk
      exact (ih hk').trans hkept

/-- A run on the table at a place is a run of that table. -/
theorem execute_snd (shelf : Shelf σ) (place : Nat) (s : σ) (tokens : List Bytes) :
    (execute shelf place s tokens).2 = Table.execute (shelf.getD place []) s tokens := by
  fun_induction execute shelf place s tokens with
  | case1 => rw [execute_nil]
  | case2 shelf place s token rest hresolve => rw [execute_cons, hresolve]
  | case3 shelf place s token rest name value hresolve => rw [execute_cons, hresolve]
  | case4 shelf place s token rest name c value hresolve s' e hperform =>
      rw [execute_cons, hresolve]
      simp only [hperform]
  | case5 shelf place s token rest name c value hresolve s' hperform hsubs ih =>
      have hextend : Table.extend (shelf.getD place []) name c.subs =
          .ok (shelf.getD place []) := by
        rw [List.isEmpty_iff.1 hsubs]
        exact extend_eq_ok_iff.2 ⟨nofun, (List.append_nil _).symm⟩
      rw [ih, execute_cons, hresolve]
      simp only [hperform, hextend]
  | case6 shelf place s token rest name c value hresolve s' hperform hsubs shelf' e hcopy =>
      rw [execute_cons, hresolve]
      rcases openCopy_cases shelf place name c.subs with ⟨e, hextend, hopened⟩ | ⟨_, -, hopened⟩
      · cases hopened.symm.trans hcopy
        simp only [hperform, hextend]
      · cases hopened.symm.trans hcopy
  | case7 shelf place s token rest name c value hresolve s' hperform hsubs shelf' hcopy ih =>
      rw [ih, execute_cons, hresolve]
      rcases openCopy_cases shelf place name c.subs with ⟨_, -, hopened⟩ | ⟨o, hextend, hopened⟩
      · cases hopened.symm.trans hcopy
      · cases hopened.symm.trans hcopy
        -- The copy stands behind all tables, which is where the rest of the run looks for it.
        have hlast : (shelf.push o).getD shelf.size [] = o := by simp
        simp only [hperform, hextend]
        rw [hlast]

end Shelf

/-! ## Execution -/

/-- Every execution of sound commands is a run, and a run takes at most as many turns as its tokens
have bytes, with one more for each token. The turns take the tokens from the left; an action is
called on as many as it has parameters, or on all that are left if its other parameters are
pointers. What fails is the fault of a token or of an action, never of how a command was made. The
table of a run is not touched in its place, nor is any other, so that the next run begins with the
same commands. -/
theorem execute_takes_each_token_once {t : Table σ} (ht : t.Sound) (s : σ) (tokens : List Bytes) :
    (∃ n s' e, Run n ⟨t, tokens, s⟩ s' e) ∧
    (∀ n s' e, Run n ⟨t, tokens, s⟩ s' e →
      n ≤ (tokens.map fun token => token.length + 1).sum ∧ t.execute s tokens = (s', e) ∧
        ∀ why, e = some why → why.Plain) ∧
    (∀ ps (taken : List Bytes) vs, Supplied ps taken vs →
      ∀ p ∈ ps.drop taken.length, p.isPointer = true) ∧
    ∀ (shelf : Shelf σ) (own : Nat), shelf[own]? = some t →
      (shelf.execute own s tokens).2 = t.execute s tokens ∧
      (∀ k < shelf.size, (shelf.execute own s tokens).1[k]? = shelf[k]?) ∧
      ∀ s' tokens',
        (Shelf.execute (shelf.execute own s tokens).1 own s' tokens').2 = t.execute s' tokens' := by
  have hrun : ∃ n s' e, Run n ⟨t, tokens, s⟩ s' e ∧ ∀ why, e = some why → why.Plain :=
    exists_run ht
  refine ⟨?_, ?_, fun _ _ _ => Supplied.isPointer, ?_⟩
  · obtain ⟨n, s', e, hrun, -⟩ := hrun
    exact ⟨n, s', e, hrun⟩
  · intro n s' e h
    refine ⟨?_, h.execute_eq, ?_⟩
    · rw [← budget_eq_sum]
      exact h.le_budget
    · obtain ⟨n', s'', e', hrun', hplain⟩ := hrun
      cases hrun'.execute_eq.symm.trans h.execute_eq
      exact hplain
  · intro shelf own hown
    have hget : ∀ {shelf : Shelf σ}, shelf[own]? = some t → shelf.getD own [] = t := by
      intro shelf hown
      rw [Array.getD_eq_getD_getElem?, hown, Option.getD_some]
    obtain ⟨hsize, -⟩ := Array.getElem?_eq_some_iff.1 hown
    have hkept := Shelf.getElem?_execute shelf own s tokens hsize
    refine ⟨?_, fun k hk => Shelf.getElem?_execute shelf own s tokens hk, ?_⟩
    · rw [Shelf.execute_snd, hget hown]
    · intro s' tokens'
      rw [Shelf.execute_snd, hget (hkept.trans hown)]

def keepWord : Action (List Bytes) where
  params := [.pointer .text]
  run vs s :=
    match vs with
    | [.pointer (some (.text word))] => (s ++ [word], none)
    | _ => (s, some (.failed "no word"))

def keeper (subs : Table (List Bytes)) : Command (List Bytes) := .mk (some keepWord) subs []

def keptNext : Table (List Bytes) := [⟨[Bytes.ofString "again"], some (keeper [])⟩]

/-- A command that keeps a word and opens another one that does so. -/
def keeping : Table (List Bytes) := [⟨[Bytes.ofString "keep"], some (keeper keptNext)⟩]

theorem keeping_sound : keeping.Sound := by
  have hplain : ∀ a, some keepWord = some a → ∀ p ∈ a.params, p.isPlain = true := by
    rintro a ⟨⟩ p (_ | ⟨_, ⟨⟩⟩)
    rfl
  have hnext : Sound (keeper []) := .mk hplain nofun nofun
  have hkeep : Sound (keeper keptNext) := by
    refine .mk hplain ?_ ?_
    · rintro entry (_ | ⟨_, ⟨⟩⟩)
      exact ⟨_, rfl⟩
    · rintro entry (_ | ⟨_, ⟨⟩⟩) c ⟨⟩
      exact hnext
  rintro entry (_ | ⟨_, ⟨⟩⟩)
  exact ⟨_, rfl, hkeep⟩

theorem keeping_run : Run 2 ⟨keeping, [Bytes.ofString " keep=x", Bytes.ofString "again"], []⟩
    [Bytes.ofString "x", []] none := by
  have hword : Performs (keeper keptNext) [Bytes.ofString "x"] [] [Bytes.ofString "x"] none :=
    .call rfl (.token rfl (.nil [])) rfl
  have hnone : Performs (keeper []) [] [Bytes.ofString "x"] [Bytes.ofString "x", []] none :=
    .call rfl (.absent (.nil [])) rfl
  have hkeep : Names keeping (Bytes.ofString " keep=x") [Bytes.ofString "again"]
      (Bytes.ofString "keep") (keeper keptNext) [Bytes.ofString "x", Bytes.ofString "again"] := by
    refine .split ?_ ?_ ?_ ?_
    · rfl
    · decide +kernel
    · decide +kernel
    · rfl
  have htrim : Bytes.trim (Bytes.ofString "again") = Bytes.ofString "again" := by decide +kernel
  have hagain : Names (keeping ++ keptNext) (Bytes.ofString "again") []
      (Bytes.ofString "again") (keeper []) [] := by
    rw [← htrim]
    exact .whole rfl
  refine .turn (.mk hkeep ⟨rfl, rfl⟩ hword ?_) (.turn (.mk hagain ⟨rfl, rfl⟩ hnone nofun) .done)
  rintro x (_ | ⟨_, ⟨⟩⟩)
  rfl

theorem execute_takes_each_token_once_of_keeping :
    keeping.Sound ∧ 2 ≤ ([Bytes.ofString " keep=x", Bytes.ofString "again"].map
      fun token => token.length + 1).sum ∧
    keeping.execute [] [Bytes.ofString " keep=x", Bytes.ofString "again"] =
      ([Bytes.ofString "x", []], none) ∧
    ∀ s, (Shelf.execute (Shelf.execute #[keeping] 0 []
        [Bytes.ofString " keep=x", Bytes.ofString "again"]).1 0 s [Bytes.ofString "again"]).2 =
      keeping.execute s [Bytes.ofString "again"] := by
  obtain ⟨-, hruns, -, hshelf⟩ := execute_takes_each_token_once keeping_sound []
    [Bytes.ofString " keep=x", Bytes.ofString "again"]
  obtain ⟨hturns, hexecute, -⟩ := hruns _ _ _ keeping_run
  obtain ⟨-, -, hnext⟩ := hshelf #[keeping] 0 rfl
  exact ⟨keeping_sound, hturns, hexecute, fun s => hnext s _⟩

end Command

end TapeForge

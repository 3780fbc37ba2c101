import TapeForge.Proofs.Provenance.Eval
import TapeForge.Proofs.WellFormed
import TapeForge.Script.Interpreter

/-!
# Scripts build well-formed programs

A builtin passes on the ops that it is given, makes ops by their constructors and expands gadgets,
so it gives well-formed ops for well-formed ones. Whatever runs a script, as long as it has its ops
from the builtins alone, what the script binds to `program` has well-formed ops only, at every depth
of lists and of loops. The interpreter does have all its ops from there.
-/

namespace TapeForge

/-- An op and all ops inside it are well-formed. -/
abbrev Op.Sound : Op → Prop := Op.Every Op.WellFormed

theorem Op.everyIn_wellFormed_iff {os : List Op} :
    Op.EveryIn Op.WellFormed os ↔ AllOps Op.Sound os :=
  Op.everyIn_iff

/-! ## Flattening -/

namespace Datum

variable {p : Op → Prop}

mutual

/-- Flattening gives ops that are in the datum. -/
theorem allOps_ops : ∀ (d : Datum) {os : List Op}, AllOps p d → ops d = .ok os → AllOps p os
  | .op _, _, hd, h => by
    cases h
    exact allOps_cons.2 ⟨allOps_datum_op.1 hd, allOps_nil⟩
  | .list elems, _, hd, h => allOps_opsOf elems (allOps_datum_list.1 hd) h
  | .tuple elems, _, hd, h => allOps_opsOf elems (allOps_datum_tuple.1 hd) h
  | .none, _, _, h | .view .elems [], _, _, h | .view .elemOrds [], _, _, h => by
    cases h
    exact allOps_nil
  | .range .., _, _, h => by
    rw [ops] at h
    split at h <;> cases h
    exact allOps_nil

theorem allOps_opsOf : ∀ (ds : List Datum) {os : List Op}, AllOps p ds → opsOf ds = .ok os →
    AllOps p os
  | [], _, _, h => by
    cases h
    exact allOps_nil
  | d :: ds, _, hds, h => by
    obtain ⟨hd, hds⟩ := allOps_cons.1 hds
    rw [opsOf] at h
    obtain ⟨first, hfirst, h⟩ := Reply.bind_eq_ok_iff.1 h
    obtain ⟨rest, hrest, h⟩ := Reply.bind_eq_ok_iff.1 h
    cases h
    exact allOps_append.2 ⟨allOps_ops d hd hfirst, allOps_opsOf ds hds hrest⟩

end

theorem allOps_ofOps {os : List Op} : AllOps p (ofOps os) ↔ AllOps p os := by
  rw [ofOps, allOps_datum_list, allOps_map]
  simp only [allOps_datum_op]
  rfl

end Datum

/-! ## Builtins -/

namespace Script

namespace Builtin

theorem sound_construct {o o' : Op} (h : o.construct = .ok o') (ho : ∀ kind, o ≠ .undefined kind)
    (hloop : ∀ body, o ≠ .loop body) : o'.Sound := by
  obtain ⟨hcells, rfl⟩ := Op.construct_eq_ok_iff.1 h
  exact (Op.every_wellFormed hloop).2 ⟨ho, hcells⟩

theorem sound_plain {o : Op} (hcells : o.cells = []) (ho : ∀ kind, o ≠ .undefined kind)
    (hloop : ∀ body, o ≠ .loop body) : o.Sound :=
  (Op.every_wellFormed hloop).2 ⟨ho, hcells ▸ List.nodup_nil⟩

theorem sound_gadget {u : Gadget.Use} {os : List Op} (hbodies : AllOps Op.Sound u.bodies)
    (h : u.ops = .ok os) : AllOps Op.Sound (Datum.ofOps os) := by
  rw [Datum.allOps_ofOps, ← Op.everyIn_wellFormed_iff] at *
  obtain ⟨herror, hok⟩ := u.guards hbodies
  cases hcheck : u.check with
  | error e => simp [herror e hcheck] at h
  | ok _ =>
    obtain ⟨os', hos', hall⟩ := hok hcheck
    cases hos'.symm.trans h
    exact hall

/-- A call that ends in a constructor gives a sound op. -/
theorem sound_made {o : Op} {d : Datum} (ho : ∀ kind, o ≠ .undefined kind)
    (hloop : ∀ body, o ≠ .loop body)
    (h : ((.orPanic o.construct : Reply CallFault Op) >>= fun o' => .ok (.op o')) = .ok d) :
    AllOps Op.Sound d := by
  obtain ⟨o', hmade, h⟩ := Reply.bind_eq_ok_iff.1 h
  cases h
  exact Datum.allOps_datum_op.2 (sound_construct (Reply.orPanic_eq_ok_iff.1 hmade) ho hloop)

/-- A call that ends in a gadget gives sound ops when the bodies are sound. -/
theorem sound_expanded {u : Gadget.Use} {d : Datum} (hbodies : AllOps Op.Sound u.bodies)
    (h : ((.orPanic u.ops : Reply CallFault (List Op)) >>= fun os => .ok (Datum.ofOps os)) =
      .ok d) : AllOps Op.Sound d := by
  obtain ⟨os, hos, h⟩ := Reply.bind_eq_ok_iff.1 h
  cases h
  exact sound_gadget hbodies (Reply.orPanic_eq_ok_iff.1 hos)

variable {values : List (Option Datum)} {p : Op → Prop}

theorem allOps_opsAt {i : Nat} {os : List Op} (h : AllOps p values)
    (hos : opsAt values i = .ok os) : AllOps p os := by
  have hvalue := allOps_join (allOps_getElem? h i)
  unfold opsAt at hos
  split at hos
  · rename_i d hd
    exact Datum.allOps_ops d (hvalue d hd) (Reply.mapError_eq_ok_iff.1 hos)
  · cases hos
    exact allOps_nil

theorem allOps_entriesAt {i : Nat} (h : AllOps p values) : AllOps p (entriesAt values i) := by
  have hvalue := allOps_join (allOps_getElem? h i)
  unfold entriesAt
  split
  · rename_i entries hentries
    exact Datum.allOps_datum_dict.1 (hvalue _ hentries)
  · exact allOps_nil

theorem allOps_caseOf {entry : Datum × Datum} {c : Gadget.Case} (h : AllOps p entry)
    (hc : caseOf entry = .ok c) : AllOps p c.body := by
  obtain ⟨key, -, hc⟩ := Reply.bind_eq_ok_iff.1 hc
  obtain ⟨body, hbody, hc⟩ := Reply.bind_eq_ok_iff.1 hc
  cases hc
  exact Datum.allOps_ops _ h.2 (Reply.mapError_eq_ok_iff.1 hbody)

theorem allOps_branches {i j : Nat} {yes no : List Op} (h : AllOps p values)
    (hyes : opsAt values i = .ok yes) (hno : opsAt values j = .ok no) : AllOps p (yes ++ no) :=
  allOps_append.2 ⟨allOps_opsAt h hyes, allOps_opsAt h hno⟩

theorem allOps_choices {i : Nat} {choices : List Gadget.Case} (h : AllOps p values)
    (hchoices : (entriesAt values i).mapM caseOf = .ok choices) :
    AllOps p (choices.map Gadget.Case.body).flatten := by
  refine allOps_flatten.2 (List.forall_mem_map.2 fun c hc => ?_)
  obtain ⟨entry, hentry, hc⟩ := exists_of_mem_right (Reply.mapM_eq_ok_iff.1 hchoices) hc
  exact allOps_caseOf (allOps_entriesAt h entry hentry) hc

theorem sound_run {b : Builtin} {args : List Datum} {named : List (Bytes × Datum)} {d : Datum}
    (hargs : AllOps Op.Sound args) (hnamed : AllOps Op.Sound named)
    (h : b.run args named = .ok d) : AllOps Op.Sound d := by
  cases b with
  | add | shift | zero | read | write | writeS | assertZero =>
    obtain ⟨_, -, h⟩ := Reply.bind_eq_ok_iff.1 h
    cases h
    exact Datum.allOps_datum_op.2 (sound_plain rfl nofun nofun)
  | move =>
    obtain ⟨_, -, h⟩ := Reply.bind_eq_ok_iff.1 h
    exact sound_made (o := .move _ _) nofun nofun h
  | copy =>
    obtain ⟨_, -, h⟩ := Reply.bind_eq_ok_iff.1 h
    exact sound_made (o := .copy _ _ _) nofun nofun h
  | writeN =>
    obtain ⟨_, -, h⟩ := Reply.bind_eq_ok_iff.1 h
    obtain ⟨char, -, h⟩ := Reply.bind_eq_ok_iff.1 h
    exact sound_made (o := .writeN char _ _ _) nofun nofun h
  | loop =>
    rw [run] at h
    obtain ⟨-, h⟩ := Reply.of_guard_eq_ok h
    obtain ⟨body, hbody, h⟩ := Reply.bind_eq_ok_iff.1 h
    cases h
    have hall := Datum.allOps_opsOf args hargs (Reply.mapError_eq_ok_iff.1 hbody)
    exact Datum.allOps_datum_op.2
      (Op.every_wellFormed_loop.2 (Op.everyIn_wellFormed_iff.2 hall))
  -- Distances are integers: no op is in the list.
  | off =>
    rw [run] at h
    obtain ⟨-, h⟩ := Reply.of_guard_eq_ok h
    obtain ⟨offsets, -, h⟩ := Reply.bind_eq_ok_iff.1 h
    cases offsets with
    | nil =>
      cases h
      exact Datum.allOps_datum_list.2 allOps_nil
    | cons reference targets =>
      cases h
      exact Datum.allOps_datum_list.2
        (allOps_map.2 fun _ _ => Datum.allOps_of_opsIn_eq_nil rfl)
  | ifEqThen =>
    cases args with
    | nil => cases h
    | cons lit body =>
      obtain ⟨char, -, h⟩ := Reply.bind_eq_ok_iff.1 h
      obtain ⟨ops, hops, h⟩ := Reply.bind_eq_ok_iff.1 h
      have hbody := Datum.allOps_opsOf body (allOps_cons.1 hargs).2
        (Reply.mapError_eq_ok_iff.1 hops)
      exact sound_expanded (u := .ifEqThen {} char ops) hbody h
  | ifConseq =>
    obtain ⟨vs, hvs, h⟩ := Reply.bind_eq_ok_iff.1 h
    obtain ⟨yes, hyes, h⟩ := Reply.bind_eq_ok_iff.1 h
    obtain ⟨no, hno, h⟩ := Reply.bind_eq_ok_iff.1 h
    have hvalues := allOps_takeNamed hargs hnamed (Reply.of_eq_ok_iff.1 hvs)
    have hbodies := allOps_branches hvalues hyes hno
    exact sound_expanded (u := .ifConseq yes no _) hbodies h
  | ifTmps =>
    obtain ⟨vs, hvs, h⟩ := Reply.bind_eq_ok_iff.1 h
    obtain ⟨yes, hyes, h⟩ := Reply.bind_eq_ok_iff.1 h
    obtain ⟨no, hno, h⟩ := Reply.bind_eq_ok_iff.1 h
    have hvalues := allOps_takeNamed hargs hnamed (Reply.of_eq_ok_iff.1 hvs)
    have hbodies := allOps_branches hvalues hyes hno
    exact sound_expanded (u := .ifTmps _ _ yes no) hbodies h
  | switch =>
    obtain ⟨vs, hvs, h⟩ := Reply.bind_eq_ok_iff.1 h
    obtain ⟨choices, hchoices, h⟩ := Reply.bind_eq_ok_iff.1 h
    obtain ⟨fallback, hfallback, h⟩ := Reply.bind_eq_ok_iff.1 h
    have hvalues := allOps_takeNamed hargs hnamed (Reply.of_eq_ok_iff.1 hvs)
    have hbodies := allOps_append.2
      ⟨allOps_choices hvalues hchoices, allOps_opsAt hvalues hfallback⟩
    exact sound_expanded (u := .switch _ _ choices fallback) hbodies h
  | push =>
    obtain ⟨_, -, h⟩ := Reply.bind_eq_ok_iff.1 h
    cases h
    exact sound_gadget (u := .push) allOps_nil rfl
  | pop =>
    obtain ⟨_, -, h⟩ := Reply.bind_eq_ok_iff.1 h
    cases h
    exact sound_gadget (u := .pop) allOps_nil rfl
  | initStack =>
    obtain ⟨_, -, h⟩ := Reply.bind_eq_ok_iff.1 h
    exact sound_expanded (u := .initStack _) allOps_nil h

end Builtin

/-! ## What scripts can make -/

/-- The ops that scripts can come by: those among the registers, and those in what a builtin gives
for arguments in which there are such ops only. -/
inductive Predeclared.Makes (given : Predeclared) : Op → Prop where
  | register {o : Op} (ho : o ∈ given.registers.opsIn) : Makes given o
  | call {b : Builtin} {args : List Datum} {named : List (Bytes × Datum)} {d : Datum} {o : Op}
      (hargs : ∀ a ∈ args ++ named.map Prod.snd, ∀ u ∈ a.opsIn, Makes given u)
      (hcall : given.call b args named = .ok d) (ho : o ∈ d.opsIn) : Makes given o

/-- An evaluator makes no ops: those in what a script binds come from the builtins. -/
def Evaluator.TakesOpsFrom {ε : Type} (eval : Evaluator ε) (given : Predeclared) : Prop :=
  ∀ name source globals, (eval given name source).globals = .ok globals →
    ∀ x d, globals x = some d → AllOps given.Makes d

theorem allOps_registers {p : Op → Prop} : AllOps p registers :=
  Datum.allOps_datum_dict.2 (allOps_map.2 fun _ _ =>
    ⟨Datum.allOps_of_opsIn_eq_nil rfl, Datum.allOps_of_opsIn_eq_nil rfl⟩)

/-- The builtins make sound ops only. -/
theorem sound_of_makes {o : Op} (h : predeclared.Makes o) : o.Sound := by
  induction h with
  | register ho => exact allOps_registers _ ho
  | call hargs hcall ho ih =>
    obtain ⟨hpositional, hnamed⟩ := List.forall_mem_append.1 ih
    rw [List.forall_mem_map] at hnamed
    have hrun := Builtin.call_eq_ok_iff.1 hcall
    exact Builtin.sound_run hpositional (fun x hx => ⟨allOps_plainList _, hnamed x hx⟩) hrun _ ho

theorem sound_build {ε : Type} {eval : Evaluator ε} (heval : eval.TakesOpsFrom predeclared)
    {name source : Bytes} {ops : List Op} (h : (build eval name source).program = .ok ops) :
    AllOps Op.Sound ops := by
  obtain ⟨globals, hglobals, h⟩ := Reply.bind_eq_ok_iff.1 h
  have hmade := heval name source globals (Reply.mapError_eq_ok_iff.1 hglobals) "program"
  unfold programOf at h
  split at h
  · cases h
  · rename_i d hd
    have hops := Datum.allOps_ops d (hmade d hd) (Reply.mapError_eq_ok_iff.1 h)
    exact fun o ho => sound_of_makes (hops o ho)

/-! ## The interpreter -/

section

open Standard Store Eval

variable [Standard] {given : Predeclared}

/-- The registers have only such ops, and the builtins make only such ones of such ones. -/
structure Predeclared.Keeps (given : Predeclared) : Prop where
  registers : AllOps Good given.registers
  call : ∀ b args named d, AllOps Good args → AllOps Good named →
    given.call b args named = .ok d → AllOps Good d

theorem builder_keeps (hgiven : given.Keeps) {regs : Value} (h : AllOps Good regs) :
    (builder given regs).Keeps where
  given x v hv := by
    unfold builder builderValue at hv
    dsimp only at hv
    split at hv
    · cases hv
      exact h
    · split at hv
      · cases hv
        exact Value.allOps_of_isFlat rfl
      · exact Value.allOps_of_isFlat (universe?_isFlat hv)
  call key args named d hargs hnamed hd := by
    have hd : given.callNamed key args named = .ok d := hd
    unfold Predeclared.callNamed at hd
    split at hd
    · exact hgiven.call _ args named d hargs hnamed (Reply.mapError_eq_ok_iff.1 hd)
    · cases hd
      exact Datum.allOps_of_opsIn_eq_nil rfl

theorem keeps_runBuilder (hgiven : given.Keeps) (names : Globals) (body : List Stmt) :
    Keeps (runBuilder given names body) := by
  have hframe : AllOps Good (Object.frame []) := trivial
  refine .bind (.ofDatum true given.registers hgiven.registers) fun regs hregs => ?_
  refine .bind .newScope fun globals hglobals => .bind .newScope fun loaded _ => ?_
  refine .bind (.alloc hframe) fun frame _ => ?_
  refine .bind (.inFrame (.stmts (builder_keeps hgiven hregs).context _ body)) fun _ _ => ?_
  exact .pure hglobals

theorem allOps_valueIn {s : Store} (hs : AllOps Good s) {globals : Scope} {x : String} {d : Datum}
    (h : s.valueIn globals x = some d) : AllOps Good d := by
  unfold Store.valueIn at h
  split at h
  · cases h
  · rename_i ref _
    have hread : AllOps Good (s.objects.getD ref default) :=
      allOps_array_getD (allOps_store.1 hs) allOps_none ref
    split at h
    · rename_i v hcell
      cases h
      rw [hcell] at hread
      exact (allOps_datum s.objects hs datumFuel).1 [] v (allOps_some.1 hread)
    · cases h

omit [Standard] in
theorem Raised.reply_ne_ok {α : Type} (e : Raised) (a : α) : e.reply ≠ .ok a := by
  unfold Raised.reply
  split <;> exact nofun

/-- What a script binds has only ops that are made of what is given. -/
theorem allOps_of_runBody (hgiven : given.Keeps) {name : Bytes} {body : List Stmt}
    {globals : String → Option Datum} (h : (runBody given name body).globals = .ok globals)
    {x : String} {d : Datum} (hx : globals x = some d) : AllOps Good d := by
  unfold runBody at h
  split at h
  · cases h
  · rename_i names _
    split at h
    · cases h
    · split at h
      · exact absurd h (Raised.reply_ne_ok _ _)
      · rename_i cells s hrun
        cases h
        have hempty : AllOps Good ({} : Store) := allOps_store.2 allOps_emptyArray
        exact allOps_valueIn (keeps_runBuilder hgiven names body {} cells s hempty hrun).2 hx

end

/-- The interpreter has all ops of a script from the builtins. -/
theorem interpreter_takesOpsFrom (given : Predeclared) : interpreter.TakesOpsFrom given := by
  let _ : Standard := ⟨given.Makes⟩
  have hgiven : given.Keeps := by
    refine ⟨fun o ho => .register ho, fun b args named d hargs hnamed hd o ho => ?_⟩
    refine .call (List.forall_mem_append.2 ⟨hargs, ?_⟩) hd ho
    exact List.forall_mem_map.2 fun x hx => (hnamed x hx).2
  intro name source globals h x d hx
  unfold interpreter at h
  split at h
  · cases h
  · cases h
  · exact allOps_of_runBody hgiven h hx

/-! ## Whole scripts -/

/-- The program of a script consists of well-formed ops at every depth, whatever the script does and
whatever runs it, so it has a text, which compiles. A builtin that is given well-formed ops gives
such ops or fails in its own name, and never panics; only a list inside itself it goes over without
end. A gadget fails only as its own check does: once that passes, no constructor refuses an op of
it. -/
theorem build_wellFormed :
    (∀ (ε : Type) (eval : Evaluator ε), eval.TakesOpsFrom predeclared →
      ∀ (name source : Bytes) (ops : List Op), (build eval name source).program = .ok ops →
        Op.EveryIn Op.WellFormed ops ∧
        ∃ symbols code, Op.render ops = .ok symbols ∧
          Code.compile (Symbol.text symbols) = .ok code) ∧
    (∀ (b : Builtin) (args : List Datum) (named : List (Bytes × Datum)),
      AllOps (Op.Every Op.WellFormed) args → AllOps (Op.Every Op.WellFormed) named →
      (∃ fault, b.call args named = .error ⟨b.name, fault⟩) ∨
      (∃ d, b.call args named = .ok d ∧ AllOps (Op.Every Op.WellFormed) d) ∨
      b.call args named = .endless ∧ ¬ FiniteArgs args named) ∧
    ∀ u : Gadget.Use, Op.EveryIn Op.WellFormed u.bodies →
      (∀ e, u.check = .error e → u.ops = .error e) ∧
      (u.check = .ok () → ∃ ops, u.ops = .ok ops ∧ Op.EveryIn Op.WellFormed ops ∧
        Op.EveryIn (fun o => o.construct = .ok o) ops) := by
  refine ⟨fun ε eval heval name source ops h => ?_, fun b args named hargs hnamed => ?_,
    fun u hbodies => ?_⟩
  · have hops := Op.everyIn_wellFormed_iff.2 (sound_build heval h)
    exact ⟨hops, Op.compile_of_wellFormed hops⟩
  · cases hcall : b.call args named with
    | ok d =>
      have hrun := Builtin.call_eq_ok_iff.1 hcall
      exact .inr (.inl ⟨d, rfl, Builtin.sound_run hargs hnamed hrun⟩)
    | error e =>
      obtain ⟨fault, rfl⟩ := Builtin.exists_fault_of_call_eq_error hcall
      exact .inl ⟨fault, rfl⟩
    | panic p => exact absurd hcall (Builtin.call_ne_panic b args named p)
    | endless => exact .inr (.inr ⟨rfl, fun hfinite => Builtin.call_ne_endless hfinite hcall⟩)
  · obtain ⟨herror, hok⟩ := u.guards hbodies
    refine ⟨herror, fun hcheck => ?_⟩
    obtain ⟨ops, hops, hall⟩ := hok hcheck
    refine ⟨ops, hops, hall, Op.EveryIn.imp (fun o ho => ?_) ops hall⟩
    exact (Op.wellFormed_iff.1 ho).2

/-- A list that stands inside itself, as a script can make it, has no ops in it that are not
well-formed; still `loop` neither fails on it nor gives a value. -/
theorem loop_of_list_inside_itself :
    AllOps (Op.Every Op.WellFormed) [Datum.list [.again .list]] ∧
    Builtin.loop.call [.list [.again .list]] [] = .endless ∧
    (build interpreter [] (Bytes.ofString "a=[]\na.append(a)\nprogram=[loop(a)]")).program =
      .endless := by
  refine ⟨?_, rfl, by decide +kernel⟩
  exact allOps_cons.2 ⟨Datum.allOps_of_opsIn_eq_nil rfl, allOps_nil⟩

/-- A script with a gadget inside a loop, a builtin that is given an op, and an equality test with
cells of its own. -/
theorem build_wellFormed_nested :
    (∃ ops symbols code,
      (build interpreter [] (Bytes.ofString "program=[move(0,1),loop(if_eq_then(65,add(1)))]")
        ).program = .ok ops ∧
      Op.EveryIn Op.WellFormed ops ∧ Op.render ops = .ok symbols ∧
      Code.compile (Symbol.text symbols) = .ok code) ∧
    (∃ d, Builtin.ifTmps.call [.int 1, .int 2, .op (.move 0 3)] [] = .ok d ∧
      AllOps (Op.Every Op.WellFormed) d) ∧
    ∃ ops, (Gadget.Use.ifEqThen ⟨5, -3, 2⟩ 65 [.copy 0 1 2]).ops = .ok ops ∧
      Op.EveryIn (fun o => o.construct = .ok o) ops := by
  obtain ⟨hbuild, hcall, hgadget⟩ := build_wellFormed
  refine ⟨?_, ?_, ?_⟩
  · have hok : ∃ ops, (build interpreter [] (Bytes.ofString
        "program=[move(0,1),loop(if_eq_then(65,add(1)))]")).program = .ok ops := by
      decide +kernel
    obtain ⟨ops, hprogram⟩ := hok
    obtain ⟨hops, symbols, code, hrender, hcompile⟩ :=
      hbuild _ interpreter (interpreter_takesOpsFrom predeclared) _ _ _ hprogram
    exact ⟨ops, symbols, code, hprogram, hops, hrender, hcompile⟩
  · have hmove : (Op.move 0 3).Every Op.WellFormed := by
      simp [Op.wellFormed_iff_cells, Op.cells]
    have hargs : AllOps (Op.Every Op.WellFormed) [Datum.int 1, .int 2, .op (.move 0 3)] := by
      simp only [allOps_cons, Datum.allOps_datum_op]
      exact ⟨Datum.allOps_of_opsIn_eq_nil rfl, Datum.allOps_of_opsIn_eq_nil rfl, hmove,
        allOps_nil⟩
    rcases hcall .ifTmps [.int 1, .int 2, .op (.move 0 3)] [] hargs allOps_nil with
      ⟨fault, hfault⟩ | hd | ⟨hendless, -⟩
    · cases hfault
    · exact hd
    · cases hendless
  · obtain ⟨-, hok⟩ := hgadget (.ifEqThen ⟨5, -3, 2⟩ 65 [.copy 0 1 2])
      (by simp [Gadget.Use.bodies, Op.wellFormed_iff_cells, Op.cells])
    obtain ⟨ops, hops, -, hall⟩ := hok rfl
    exact ⟨ops, hops, hall⟩

end Script

end TapeForge

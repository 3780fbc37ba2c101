import TapeForge.Proofs.Provenance.Universe
import TapeForge.Script.Call

/-!
# Evaluation makes no ops

An expression gives ops that its names have, or that the functions it calls make: the evaluator
itself makes none. The cases are those of the syntax, and each follows from what holds of the parts.
-/

namespace TapeForge.Script

open Store Standard Eval

variable [Standard]

instance : HasOps Flow where
  AllOps p
    | .ret v => AllOps p v
    | _ => True

@[simp]
def Arg.Within (p : Op → Prop) : Arg Value → Prop
  | .positional v => AllOps p v
  | .named _ v _ => AllOps p v
  | .spread v _ => AllOps p v
  | .spreadNamed v _ => AllOps p v

instance : HasOps (Arg Value) := ⟨Arg.Within⟩

omit [Standard] in
@[simp]
theorem allOps_arg {p : Op → Prop} {arg : Arg Value} : AllOps p arg ↔ arg.Within p := Iff.rfl

/-- The names bound beforehand have only such ops, and the calls make only such ones. -/
structure Context.Keeps (ctx : Context) : Prop where
  given : ∀ x v, ctx.given x = some v → AllOps Good v
  call : Caller.Keeps ctx.call

namespace Keeps

/-! ## Names -/

theorem readName {ctx : Context} {env : Env} {x : String} (hctx : ctx.Keeps) :
    Keeps (Eval.readName ctx env x) := by
  unfold Eval.readName
  split
  · refine bind read fun o ho => ?_
    split
    · exact pure (allOps_some.1 ho)
    · exact raise
  · split
    · rename_i v hv
      exact pure (hctx.given x v hv)
    · exact raise

theorem assignName {env : Env} {x : String} {v : Value} (h : AllOps Good v) :
    Keeps (Eval.assignName env x v) := by
  unfold Eval.assignName
  split
  · exact update (allOps_some.2 h)
  · exact plain

theorem newScope {names : List String} : Keeps (Eval.newScope names) := by
  refine mapM (allOps_plainList _) fun x _ => ?_
  exact bind (alloc allOps_none) fun _ _ => pure ⟨trivial, trivial⟩

theorem blockAt {env : Env} {pos : Position} {names : List String} :
    Keeps (Eval.blockAt env pos names) := by
  refine bind read fun o _ => ?_
  dsimp only
  split
  · exact pure fun _ _ => ⟨trivial, trivial⟩
  · refine bind newScope fun scope hscope => bind (update ?_) fun _ _ => pure hscope
    exact trivial

/-! ## Loops -/

theorem eachItem {s : Items} {f : Value → Eval Flow} (hs : AllOps Good s)
    (hf : ∀ v, AllOps Good v → Keeps (f v)) (n i : Nat) : Keeps (Eval.eachItem s f n i) := by
  induction n generalizing i with
  | zero => exact pure trivial
  | succ n ih =>
    refine bind (hf _ (hs i)) fun flow hflow => ?_
    cases flow with
    | leave => exact pure trivial
    | ret r => exact pure hflow
    | _ => exact ih (i + 1)

theorem overEach {pos : Position} {source : Value} {f : Value → Eval Flow}
    (hsource : AllOps Good source) (hf : ∀ v, AllOps Good v → Keeps (f v)) :
    Keeps (Eval.overEach pos source f) := by
  refine bind (items? hsource) fun found hfound => ?_
  cases found with
  | none => exact locate raise
  | some s => exact holding (eachItem (allOps_some.1 hfound) hf s.count 0)

theorem repeatWhile {test : Eval Bool} {body : Eval Flow} (htest : Keeps test) (hbody : Keeps body)
    (turns : Nat) : Keeps (Eval.repeatWhile test body turns) := by
  induction turns with
  | zero => exact raise
  | succ turns ih =>
    refine bind htest fun _ _ => ite (bind hbody fun flow hflow => ?_) (pure trivial)
    cases flow with
    | leave => exact pure trivial
    | ret v => exact pure hflow
    | _ => exact ih

/-! ## Arguments and functions -/

theorem unpack {v : Value} {want : Nat} (h : AllOps Good v) : Keeps (Eval.unpack v want) := by
  refine bind (items? h) fun found hfound => ?_
  cases found with
  | none => exact raise
  | some s =>
    have hs := allOps_some.1 hfound
    refine ite (bind hold fun _ _ => bind (lengthOf h) fun _ _ => raise) ?_
    exact guard raise fun _ => pure (Items.allOps_items_toList hs)

theorem namedSpread {args : List (Arg Value)} (h : AllOps Good args) :
    Keeps (Eval.namedSpread args) := by
  induction args with
  | nil => exact pure allOps_nil
  | cons arg rest ih =>
    have hrest := (allOps_cons.1 h).2
    cases arg with
    | spreadNamed v pos =>
      cases v with
      | dict ref =>
        refine bind dictTable fun t ht => mapM (Table.allOps_values ht) fun entry hentry => ?_
        obtain ⟨k, w⟩ := entry
        cases k with
        | text s => exact pure ⟨allOps_plainList s, hentry.2⟩
        | _ => exact raise
      | _ => exact raise
    | _ => exact ih hrest

theorem spread {args : List (Arg Value)} (h : AllOps Good args) : Keeps (Eval.spread args) := by
  fun_induction Eval.spread args with
  | case1 => exact pure allOps_nil
  | case2 v pos rest =>
    refine bind (items? (allOps_cons.1 h).1) fun found hfound => ?_
    cases found with
    | none => exact raise
    | some s => exact pure (Items.allOps_items_toList (allOps_some.1 hfound))
  | case3 arg rest _ ih => exact ih (allOps_cons.1 h).2

theorem applyArgs {ctx : Context} {f : Value} {args : List (Arg Value)} (hctx : ctx.Keeps)
    (hf : AllOps Good f) (hargs : AllOps Good args) : Keeps (Eval.applyArgs ctx f args) := by
  unfold Eval.applyArgs
  extract_lets positional named
  -- What is picked out of the arguments has the ops that they have.
  have hpositional : AllOps Good positional := by
    intro v hv
    obtain ⟨arg, harg, hsome⟩ := List.mem_filterMap.1 hv
    split at hsome <;> cases hsome
    exact hargs _ harg
  have hnamed : AllOps Good named := by
    intro v hv
    obtain ⟨arg, harg, hsome⟩ := List.mem_filterMap.1 hv
    split at hsome <;> cases hsome
    exact ⟨allOps_plainList _, hargs _ harg⟩
  refine bind (namedSpread hargs) fun moreNamed hmoreNamed => ?_
  refine bind (spread hargs) fun more hmore => ?_
  exact hctx.call f _ _ hf (allOps_append.2 ⟨hpositional, hmore⟩)
    (allOps_append.2 ⟨hnamed, hmoreNamed⟩)

theorem newFunction {env : Env} {name : String} {pos : Position} {params : List (Param Expr)}
    {defaults : List (String × Value)} {body : Body} (h : AllOps Good defaults) :
    Keeps (Eval.newFunction env name pos params defaults body) :=
  bind (alloc h) fun _ _ => flat rfl

@[simp]
theorem allOps_constValue {c : Const} : AllOps Good (Eval.constValue c) := by
  cases c with
  | _ => exact Value.allOps_of_isFlat rfl

/-! ## Expressions -/

mutual

theorem expr {ctx : Context} (hctx : ctx.Keeps) (env : Env) : ∀ e, Keeps (Eval.expr ctx env e)
  | .name _ _ => locate (readName hctx)
  | .const _ _ => pure allOps_constValue
  | .paren e _ => Keeps.expr hctx env e
  | .list es _ => bind (Keeps.exprs hctx env es) fun _ => newList
  | .tuple es _ => bind (Keeps.exprs hctx env es) fun _ hvs => pure (Value.allOps_tuple.2 hvs)
  | .dict entries _ =>
    bind (alloc Table.allOps_empty) fun ref _ =>
    bind (Keeps.dictEntries hctx env ref entries) fun _ _ => flat rfl
  | .listComp body cs _ =>
    bind (alloc allOps_emptyArray) fun _ _ => bind blockAt fun scope _ =>
    have hemit := bind (Keeps.expr hctx (within env scope) body) fun _ hv =>
      changeList fun _ hvs => allOps_push.2 ⟨hvs, hv⟩
    bind (Keeps.clauses hctx (within env scope) env _ hemit cs) fun _ _ => flat rfl
  | .dictComp key _ value cs _ =>
    bind (alloc Table.allOps_empty) fun _ _ => bind blockAt fun scope _ =>
    have hemit := bind (Keeps.expr hctx (within env scope) key) fun _ hk =>
      bind (Keeps.expr hctx (within env scope) value) fun _ hv => locate (insertKey hk hv)
    bind (Keeps.clauses hctx (within env scope) env _ hemit cs) fun _ _ => flat rfl
  | .unary _ e _ => bind (Keeps.expr hctx env e) fun _ hx => locate (unary hx)
  | .binary _ a b _ =>
    bind (Keeps.expr hctx env a) fun _ hx =>
    bind (Keeps.expr hctx env b) fun _ hy => locate (binary hx hy)
  | .sum first rest _ =>
    bind (Keeps.expr hctx env first) fun v hv => Keeps.summands hctx env v hv rest
  | .both a b =>
    bind (Keeps.expr hctx env a) fun _ hx =>
    bind (truth hx) fun _ _ => ite (Keeps.expr hctx env b) (pure hx)
  | .either a b =>
    bind (Keeps.expr hctx env a) fun _ hx =>
    bind (truth hx) fun _ _ => ite (pure hx) (Keeps.expr hctx env b)
  | .cond test yes no =>
    bind (Keeps.expr hctx env test) fun _ hx =>
    bind (truth hx) fun _ _ => ite (Keeps.expr hctx env yes) (Keeps.expr hctx env no)
  | .index e i _ =>
    bind (Keeps.expr hctx env e) fun _ hx =>
    bind (Keeps.expr hctx env i) fun _ hy => locate (indexValue hx hy)
  | .slice e low high step _ =>
    bind (Keeps.expr hctx env e) fun _ hx =>
    bind (Keeps.optional hctx env low) fun _ _ =>
    bind (Keeps.optional hctx env high) fun _ _ =>
    bind (Keeps.optional hctx env step) fun _ _ => locateBy (sliceValue hx)
  | .attr e _ _ => bind (Keeps.expr hctx env e) fun _ hx => locate (field hx)
  | .call f args _ =>
    bind (Keeps.expr hctx env f) fun _ hf =>
    bind (Keeps.arguments hctx env args) fun _ hargs => locate (applyArgs hctx hf hargs)
  | .lambda params _ _ => bind (Keeps.defaults hctx env params) fun _ hds => newFunction hds

theorem exprs {ctx : Context} (hctx : ctx.Keeps) (env : Env) :
    ∀ es : List Expr, Keeps (Eval.exprs ctx env es)
  | [] => pure allOps_nil
  | e :: es =>
    bind (Keeps.expr hctx env e) fun _ hv =>
    bind (Keeps.exprs hctx env es) fun _ hvs => pure (allOps_cons.2 ⟨hv, hvs⟩)

theorem optional {ctx : Context} (hctx : ctx.Keeps) (env : Env) :
    ∀ e : Option Expr, Keeps (Eval.optional ctx env e)
  | none => flat rfl
  | some e => Keeps.expr hctx env e

theorem summands {ctx : Context} (hctx : ctx.Keeps) (env : Env) (acc : Value)
    (hacc : AllOps Good acc) :
    ∀ rest : List (Position × Expr), Keeps (Eval.summands ctx env acc rest)
  | [] => pure hacc
  | (_, e) :: rest =>
    bind (Keeps.expr hctx env e) fun _ hv =>
    bind (locate (binary hacc hv)) fun acc hacc => Keeps.summands hctx env acc hacc rest

theorem dictEntries {ctx : Context} (hctx : ctx.Keeps) (env : Env) (ref : Nat) :
    ∀ es : List (Expr × Position × Expr), Keeps (Eval.dictEntries ctx env ref es)
  | [] => pure trivial
  | (key, _, value) :: rest =>
    bind (Keeps.expr hctx env key) fun _ hk =>
    bind (Keeps.expr hctx env value) fun _ hv =>
    have hinsert := bind dictTable fun _ _ => bind (insertKey hk hv) fun _ _ =>
      bind dictTable fun _ _ => ite (bind (reprOf hk) fun _ _ => raise) plain
    bind (locate hinsert) fun _ _ => Keeps.dictEntries hctx env ref rest

theorem clauses {ctx : Context} (hctx : ctx.Keeps) (env outer : Env) (emit : Eval Unit)
    (hemit : Keeps emit) : ∀ cs : List (Clause Expr), Keeps (Eval.clauses ctx env outer emit cs)
  | [] => hemit
  | .each target source pos :: rest =>
    bind (Keeps.expr hctx outer source) fun _ hv =>
    bind (overEach hv fun x hx =>
      bind (Keeps.assign hctx env pos target x hx) fun _ _ =>
      bind (Keeps.clauses hctx env env emit hemit rest) fun _ _ => pure trivial) fun _ _ =>
    pure trivial
  | .only test _ :: rest =>
    bind (Keeps.expr hctx env test) fun _ hx => bind (truth hx) fun _ _ =>
    ite (Keeps.clauses hctx env env emit hemit rest) plain

theorem arguments {ctx : Context} (hctx : ctx.Keeps) (env : Env) :
    ∀ args : List (Arg Expr), Keeps (Eval.arguments ctx env args)
  | [] => pure allOps_nil
  | .positional e :: rest | .named _ e _ :: rest | .spread e _ :: rest
  | .spreadNamed e _ :: rest =>
    bind (Keeps.expr hctx env e) fun _ hv =>
    bind (Keeps.arguments hctx env rest) fun _ hvs => pure (allOps_cons.2 ⟨hv, hvs⟩)

theorem defaults {ctx : Context} (hctx : ctx.Keeps) (env : Env) :
    ∀ params : List (Param Expr), Keeps (Eval.defaults ctx env params)
  | [] => pure allOps_nil
  | .withDefault x e _ :: rest =>
    bind (Keeps.expr hctx env e) fun _ hv =>
    bind (Keeps.defaults hctx env rest) fun _ hds =>
    pure (allOps_cons.2 ⟨⟨allOps_opFree x, hv⟩, hds⟩)
  | .required .. :: rest => Keeps.defaults hctx env rest
  | .star _ :: rest => Keeps.defaults hctx env rest
  | .rest .. :: rest => Keeps.defaults hctx env rest
  | .restNamed .. :: rest => Keeps.defaults hctx env rest

theorem assign {ctx : Context} (hctx : ctx.Keeps) (env : Env) (pos : Position) :
    ∀ (target : Expr) (v : Value), AllOps Good v → Keeps (Eval.assign ctx env pos target v)
  | .name _ _, _, hv => assignName hv
  | .paren e _, v, hv => Keeps.assign hctx env pos e v hv
  | .tuple es _, _, hv =>
    bind (locate (unpack hv)) fun vs hvs => Keeps.assignAll hctx env pos es vs hvs
  | .list es _, _, hv =>
    bind (locate (unpack hv)) fun vs hvs => Keeps.assignAll hctx env pos es vs hvs
  | .index e i _, _, hv =>
    bind (Keeps.expr hctx env e) fun _ _ =>
    bind (Keeps.expr hctx env i) fun _ hy => locate (setIndex hy hv)
  | .attr e _ _, _, _ => bind (Keeps.expr hctx env e) fun _ _ => locate raise
  | .const .., _, _ | .dict .., _, _ | .listComp .., _, _ | .dictComp .., _, _ | .unary .., _, _
  | .binary .., _, _ | .sum .., _, _ | .both .., _, _ | .either .., _, _ | .cond .., _, _
  | .slice .., _, _ | .call .., _, _ | .lambda .., _, _ => pure trivial

theorem assignAll {ctx : Context} (hctx : ctx.Keeps) (env : Env) (pos : Position) :
    ∀ (es : List Expr) (vs : List Value), AllOps Good vs →
      Keeps (Eval.assignAll ctx env pos es vs)
  | e :: es, v :: vs, h =>
    bind (Keeps.assign hctx env pos e v (allOps_cons.1 h).1) fun _ _ =>
    Keeps.assignAll hctx env pos es vs (allOps_cons.1 h).2
  | [], _, _ => pure trivial
  | _ :: _, [], _ => pure trivial

end

/-! ## Statements -/

theorem assignCombined {ctx : Context} (hctx : ctx.Keeps) (env : Env) (op : BinaryOp)
    (target e : Expr) (pos : Position) : Keeps (Eval.assignCombined ctx env op target e pos) := by
  unfold Eval.assignCombined
  split
  · refine bind (locate (readName hctx)) fun old hold => ?_
    refine bind (Keeps.expr hctx env e) fun v hv => ?_
    exact bind (locate (augment hold hv)) fun new hnew => assignName hnew
  · rename_i a i p _
    refine bind (Keeps.expr hctx env a) fun x hx => bind (Keeps.expr hctx env i) fun y hy => ?_
    refine bind (locate (indexValue hx hy)) fun old hold => ?_
    refine bind (Keeps.expr hctx env e) fun v hv => ?_
    exact bind (locate (augment hold hv)) fun new hnew => locate (setIndex hy hnew)
  · rename_i a name p _
    refine bind (Keeps.expr hctx env a) fun x hx => ?_
    refine bind (locate (field hx)) fun old hold => bind (Keeps.expr hctx env e) fun v hv => ?_
    exact bind (locate (augment hold hv)) fun _ _ => locate raise
  · exact plain

mutual

theorem stmt {ctx : Context} (hctx : ctx.Keeps) (env : Env) : ∀ s, Keeps (Eval.stmt ctx env s)
  | .expr e => bind (Keeps.expr hctx env e) fun _ _ => pure trivial
  | .assign target e pos =>
    bind (Keeps.expr hctx env e) fun v hv =>
    bind (Keeps.assign hctx env pos target v hv) fun _ _ => pure trivial
  | .augment op target e pos =>
    bind (Keeps.assignCombined hctx env op target e pos) fun _ _ => pure trivial
  | .define _ _ params _ _ =>
    bind (Keeps.defaults hctx env params) fun _ hds =>
    bind (newFunction hds) fun _ hf => bind (assignName hf) fun _ _ => pure trivial
  | .branch test yes no =>
    bind (Keeps.expr hctx env test) fun _ hx =>
    bind (truth hx) fun _ _ => ite (Keeps.stmts hctx env yes) (Keeps.stmts hctx env no)
  | .each target source body pos =>
    bind (Keeps.expr hctx env source) fun _ hv =>
    overEach hv fun x hx =>
      bind (Keeps.assign hctx env pos target x hx) fun _ _ => Keeps.stmts hctx env body
  | .whileTrue test body =>
    repeatWhile (bind (Keeps.expr hctx env test) fun _ hv => truth hv)
      (Keeps.stmts hctx env body) ctx.turns
  | .ret none _ => pure (Value.allOps_of_isFlat rfl)
  | .ret (some e) _ => bind (Keeps.expr hctx env e) fun _ hv => pure hv
  | .leave _ => pure trivial
  | .again _ => pure trivial
  | .pass => pure trivial
  | .load _ _ => locate raise

theorem stmts {ctx : Context} (hctx : ctx.Keeps) (env : Env) :
    ∀ ss : List Stmt, Keeps (Eval.stmts ctx env ss)
  | [] => pure trivial
  | s :: ss => by
    refine bind (Keeps.stmt hctx env s) fun flow hflow => ?_
    cases flow with
    | on => exact Keeps.stmts hctx env ss
    | _ => exact pure hflow

end

/-! ## Calls -/

theorem setIn {scope : Scope} {x : String} {v : Value} (h : AllOps Good v) :
    Keeps (setIn scope x v) := by
  unfold Script.setIn
  split
  · exact update (allOps_some.2 h)
  · exact plain

/-- The rest of the arguments by name go into a new dict, if a function takes them. -/
theorem enterNamed {named : List (Bytes × Value)} {scope : Scope} {taker : Option String}
    {next : Eval Value} (hnamed : AllOps Good named) (hnext : Keeps next) :
    Keeps (do
      if let some x := taker then
        let entries := named.map fun (k, v) => (Value.text k, v)
        let table ← entries.foldlM
          (fun t (k, v) => do Script.keyed (Table.enter t (← Script.keyed k.toKey) (k, v) id)) {}
        Script.setIn scope x (← Store.newDict table)
      next) := by
  have hentries : AllOps Good (named.map fun (k, v) => (Value.text k, v)) :=
    allOps_map.2 fun x hx => ⟨Value.allOps_of_isFlat rfl, (hnamed x hx).2⟩
  cases taker with
  | some x =>
    refine bind (foldlM Table.allOps_empty hentries fun t x ht hx => ?_) fun t ht => ?_
    · exact bind toKey fun _ _ => enter ht hx fun _ h => h
    · exact bind (newDict ht) fun d hd => bind (setIn hd) fun _ _ => hnext
  | none => exact hnext

/-- The body of a function, once its scope is made. -/
theorem runBody {ctx : Context} {env : Env} {body : Body} (hctx : ctx.Keeps) :
    Keeps (match body with
      | .value e => Eval.expr ctx env e
      | .block body => do
        match ← Eval.stmts ctx env body with
        | .ret v => return v
        | _ => return .none) := by
  cases body with
  | value e => exact Keeps.expr hctx env e
  | block body =>
    refine bind (Keeps.stmts hctx env body) fun flow hflow => ?_
    cases flow with
    | ret v => exact pure hflow
    | _ => exact flat rfl

theorem enterFunction {ctx : Context} {f : Closure} {bound : Bound} (hctx : ctx.Keeps)
    (hbound : AllOps Good bound) : Keeps (enterFunction ctx f bound) := by
  obtain ⟨hvalues, hrest, hnamed⟩ := hbound
  have hframe : AllOps Good (Object.frame []) := trivial
  unfold Script.enterFunction
  refine bind newScope fun scope _ => ?_
  refine bind (forIn hvalues fun x r hx => bind (setIn hx.2) fun _ _ => pure trivial) fun _ _ => ?_
  cases f.rest with
  | some x =>
    refine bind (setIn (Value.allOps_tuple.2 hrest)) fun _ _ => ?_
    exact enterNamed hnamed (bind (alloc hframe) fun frame _ => runBody hctx)
  | none => exact enterNamed hnamed (bind (alloc hframe) fun frame _ => runBody hctx)

theorem callFunction {recursion : Bool} {ctx : Context} {f : Closure} {args : List Value}
    {named : List (Bytes × Value)} (hctx : ctx.Keeps) (hf : AllOps Good f.defaults)
    (hargs : AllOps Good args) (hnamed : AllOps Good named) :
    Keeps (callFunction recursion ctx f args named) := by
  have hget : Keeps (get : Eval Store) := fun s a s' hs ha => by
    cases ha
    exact ⟨hs, hs⟩
  refine bind hget fun s _ => bind (locateBy (guard raise fun _ => ?_)) fun bound hbound => ?_
  · split
    · rename_i bound hbound
      exact pure (allOps_bindArguments hf hargs hnamed hbound)
    · exact raise
  · refine bind (modify fun _ => rfl) fun _ _ => bind (enterFunction hctx hbound) fun v hv => ?_
    exact bind (modify fun _ => rfl) fun _ _ => pure hv

end Keeps

/-- What a script is given has only such ops, and its functions make only such ones of such ones. -/
structure Host.Keeps (host : Host) : Prop where
  given : ∀ x v, host.given x = some v → AllOps Good v
  call : ∀ key args named d, AllOps Good args → AllOps Good named →
    host.call key args named = .ok d → AllOps Good d

namespace Keeps

theorem callHost {host : Host} {key : String} {args : List Value} {named : List (Bytes × Value)}
    (hhost : host.Keeps) (hargs : AllOps Good args) (hnamed : AllOps Good named) :
    Keeps (callHost host key args named) := by
  refine bind (mapM hargs fun v hv => toDatum hv) fun data hdata => ?_
  refine bind (mapM hnamed fun x hx => bind (toDatum hx.2) fun d hd => pure ?_)
    fun namedData hnamedData => ?_
  · exact ⟨allOps_plainList _, hd⟩
  cases hcall : host.call key data namedData with
  | ok d => exact ofDatum false d (hhost.call key data namedData d hdata hnamedData hcall)
  | _ => exact raise

theorem callValue {host : Host} (hhost : host.Keeps) (depth : Nat) :
    Caller.Keeps (callValue host depth) := by
  induction depth with
  | zero => exact fun _ _ _ _ _ _ => raise
  | succ depth ih =>
    intro callee args named hcallee hargs hnamed
    unfold Script.callValue
    dsimp only
    split
    · refine bind read fun o ho => ?_
      cases o with
      | function f => exact inFrame (callFunction ⟨hhost.given, ih⟩ ho hargs hnamed)
      | _ => exact flat rfl
    · exact inFrame (callNative ih hargs hnamed)
    · exact inFrame (callMethod (Value.allOps_method.1 hcallee) hargs hnamed)
    · exact inFrame (callHost hhost hargs hnamed)
    · exact raise

end Keeps

theorem Host.Keeps.context {host : Host} (h : host.Keeps) : host.context.Keeps :=
  ⟨h.given, Keeps.callValue h depthLimit⟩

end TapeForge.Script

import TapeForge.Proofs.Segment
import TapeForge.Proofs.Semantics

/-!
# Text runs have the effect of their block

A run of compiled text is a segment for each part of its block, so it ends as the effect of the
block says. Running the text of each op by itself is then the effect of each block in turn.
-/

namespace TapeForge

/-! ## Parts of a list at an index -/

section Parts

variable {α : Type} {l xs ys : List α} {x : α} {i : Nat}

theorem prefix_drop_cons (h : x :: xs <+: l.drop i) : l[i]? = some x ∧ xs <+: l.drop (i + 1) := by
  obtain ⟨t, ht⟩ := h
  have hi : l[i]? = some x := by
    have := congrArg (·[0]?) ht
    simpa using this.symm
  refine ⟨hi, t, ?_⟩
  have := congrArg List.tail ht
  simpa using this

theorem prefix_drop_append (h : xs ++ ys <+: l.drop i) :
    xs <+: l.drop i ∧ ys <+: l.drop (i + xs.length) := by
  obtain ⟨t, ht⟩ := h
  refine ⟨⟨ys ++ t, by rw [← ht, List.append_assoc]⟩, t, ?_⟩
  rw [← List.drop_drop, ← ht, List.append_assoc, List.drop_left]

end Parts

namespace Machine

open TapeForge.Machine.Action TapeForge.Effect

/-- A block stands in compiled text at an index. -/
structure Located (code : Code) (i : Nat) (b : Block) : Prop where
  symbols : b.symbols <+: code.symbols.toList.drop i
  jumps : b.jumps i <+: code.jumps.toList.drop i

theorem located_code (b : Block) : Located b.code 0 b :=
  ⟨List.prefix_rfl, List.prefix_rfl⟩

/-- What stands at an index of compiled text. -/
structure At (code : Code) (i : Nat) (s : Symbol) (jump : Option Nat) : Prop where
  symbol : code.symbols[i]? = some s
  jump : code.jumps.getD i none = jump

theorem at_of_toList {code : Code} {i : Nat} {s : Symbol} {jump : Option Nat}
    (hs : code.symbols.toList[i]? = some s) (hj : code.jumps.toList[i]? = some jump) :
    At code i s jump := by
  refine ⟨by simpa using hs, ?_⟩
  rw [Array.getElem?_toList] at hj
  rw [Array.getD_eq_getD_getElem?, hj]
  rfl

namespace Located

variable {code : Code} {i : Nat}

theorem plain {p : Plain} {rest : Block} (h : Located code i (.plain p rest)) :
    At code i p.symbol none ∧ Located code (i + 1) rest := by
  obtain ⟨hs, hj⟩ := h
  obtain ⟨hs₀, hs⟩ := prefix_drop_cons hs
  obtain ⟨hj₀, hj⟩ := prefix_drop_cons hj
  exact ⟨at_of_toList hs₀ hj₀, hs, hj⟩

theorem loop {body rest : Block} (h : Located code i (.loop body rest)) :
    At code i .opening (some (i + 1 + body.symbols.length)) ∧ Located code (i + 1) body ∧
      At code (i + 1 + body.symbols.length) .closing (some i) ∧
      Located code (i + 2 + body.symbols.length) rest := by
  obtain ⟨hs, hj⟩ := h
  obtain ⟨hs₀, hs⟩ := prefix_drop_cons hs
  obtain ⟨hj₀, hj⟩ := prefix_drop_cons hj
  obtain ⟨hs₁, hs⟩ := prefix_drop_append hs
  obtain ⟨hj₁, hj⟩ := prefix_drop_append hj
  rw [Block.length_jumps] at hj
  obtain ⟨hs₂, hs⟩ := prefix_drop_cons hs
  obtain ⟨hj₂, hj⟩ := prefix_drop_cons hj
  have hi : i + 1 + body.symbols.length + 1 = i + 2 + body.symbols.length := by omega
  rw [hi] at hs hj
  exact ⟨at_of_toList hs₀ hj₀, ⟨hs₁, hj₁⟩, at_of_toList hs₂ hj₂, hs, hj⟩

end Located

/-! ## One step of a text run -/

theorem fault_atSymbol (i : Nat) (e : Fault) : (atSymbol i e).fault = e := by
  cases e <;> rfl

theorem stepSymbol_plain (p : Plain) (jump : Option Nat) (i : Nat) :
    stepSymbol p.symbol jump i = (do tick; doSymbol p.symbol) >>= fun _ => pure (i + 1) := by
  rw [stepSymbol, bind_assoc]
  cases p <;> rfl

theorem stepSymbol_opening (j i : Nat) :
    stepSymbol .opening (some j) i =
      (do tick; isOpen) >>= fun b => pure (if b then i + 1 else j + 1) := by
  simp only [stepSymbol, doSymbol, afterSymbol, isOpen, bind_assoc, pure_bind]
  congr; funext _; congr; funext k; congr; funext v
  by_cases hv : v = 0 <;> simp [follows, hv]

theorem stepSymbol_closing (j i : Nat) :
    stepSymbol .closing (some j) i =
      (do tick; isOpen) >>= fun b => pure (if b then j + 1 else i + 1) := by
  simp only [stepSymbol, doSymbol, afterSymbol, isOpen, bind_assoc, pure_bind]
  congr; funext _; congr; funext k; congr; funext v
  by_cases hv : v = 0 <;> simp [follows, hv]

/-- A step that does an action and then goes to the index that the value gives. -/
theorem performs_of_stepSymbol {code : Code} {i : Nat} {s : Symbol} {jump : Option Nat}
    {α : Type} {a : Action α} {next : α → Nat} {leave : α → Machine → Walk}
    (hat : At code i s jump) (hstep : stepSymbol s jump i = a >>= fun x => pure (next x))
    (hleave : ∀ x, leave x = Walk.mk (next x)) :
    Performs (Walk.step code) Failure.fault Walk.machine (Walk.mk i) a leave := by
  intro m
  cases ha : a m with
  | ok x m' =>
      have hm : stepSymbol s jump i m = .ok (next x) m' := by
        rw [hstep, bind_of_ok ha]
        rfl
      show Walk.step code ⟨i, m⟩ = .next (leave x m')
      simp only [Walk.step, hat.symbol, hat.jump, hm, hleave]
  | error e m' =>
      have hm : stepSymbol s jump i m = .error e m' := by rw [hstep, bind_of_error ha]
      refine ⟨atSymbol i e, ⟨i, m'⟩, ?_, fault_atSymbol i e, rfl⟩
      simp only [Walk.step, hat.symbol, hat.jump, hm]

/-! ## Runs -/

theorem segment_block {code : Code} {i : Nat} {b : Block} (h : Located code i b) :
    Segment (Walk.step code) Failure.fault Walk.machine (Walk.mk i)
      (Walk.mk (i + b.symbols.length)) (b.effect tick) := by
  induction b generalizing i with
  | nil => exact Segment.skip _
  | plain p rest ih =>
      obtain ⟨hat, hrest⟩ := h.plain
      have hlen : i + (Block.plain p rest).symbols.length = i + 1 + rest.symbols.length := by
        simp only [Block.symbols, List.length_cons]
        omega
      rw [hlen, Block.effect]
      exact Segment.seq (Segment.act (performs_of_stepSymbol hat (stepSymbol_plain p none i)
        fun _ => rfl))
        (ih hrest)
  | loop body rest ihb ihr =>
      obtain ⟨hopening, hbody, hclosing, hrest⟩ := h.loop
      have hlen : i + (Block.loop body rest).symbols.length =
          i + 2 + body.symbols.length + rest.symbols.length := by
        simp only [Block.symbols, List.length_cons, List.length_append]
        omega
      rw [hlen, Block.effect]
      have hpast : i + 1 + body.symbols.length + 1 = i + 2 + body.symbols.length := by omega
      rw [← hpast] at hrest ⊢
      -- The head of the loop is the opening bracket once, and the closing one after each turn.
      refine Segment.seq (Segment.loop ?_ (ihb hbody) ?_) (ihr hrest)
      · refine performs_of_stepSymbol hclosing (stepSymbol_closing _ _) ?_
        intro open'
        cases open' <;> rfl
      · refine performs_of_stepSymbol hopening (stepSymbol_opening _ _) ?_
        intro open'
        cases open' <;> rfl

theorem ends_runCode (b : Block) (m : Machine) (r : EStateM.Result Fault Machine Unit) :
    Ends Failure.fault (fun fuel => runCode fuel b.code m) r ↔ b.effect tick m r := by
  refine Segment.ends_iff (segment_block (located_code b)) ?_ r
  intro m
  refine ⟨?_, rfl⟩
  have hnone : b.code.symbols[0 + b.symbols.length]? = none := by
    simp [Block.code]
  simp only [Walk.step, hnone]

theorem steady_runCode (code : Code) (m : Machine) : Steady fun fuel => runCode fuel code m :=
  (steady_iterate _ _).map _

/-! ## The text of each op by itself -/

theorem runRendered_eq {o : Op} (h : o.undefinedKind? = none) (fuel : Nat) (m : Machine) :
    runRendered fuel o m =
      (runCode fuel o.block.code m).mapError (Failure.inside (.op o.label)) := by
  have hr : Op.render [o] = .ok o.block.symbols := by
    rw [Op.render_eq_ok (by rw [Op.undefinedKindAll?, h, Op.undefinedKindAll?]; rfl)]
    rw [Op.blockAll, Op.blockAll, Block.append_nil]
  simp only [runRendered, hr, Code.compile_block]

theorem ends_runRendered {o : Op} (h : o.undefinedKind? = none) (m : Machine)
    (r : EStateM.Result Fault Machine Unit) :
    Ends Failure.fault (fun fuel => runRendered fuel o m) r ↔ o.block.effect tick m r := by
  simp only [runRendered_eq h]
  exact (ends_mapError (fun _ => rfl) r).trans (ends_runCode o.block m r)

theorem steady_runRendered (o : Op) (m : Machine) : Steady fun fuel => runRendered fuel o m := by
  unfold runRendered
  cases Op.render [o] with
  | error e => exact steady_const _
  | ok symbols =>
      dsimp only
      cases Code.compile (Symbol.text symbols) with
      | error e => exact steady_const _
      | ok code => exact (steady_runCode code m).mapError _

theorem execRendered_cons (o : Op) (os : List Op) (m : Machine) :
    (fun fuel => execRendered fuel (o :: os) m) =
      chain (fun fuel => runRendered fuel o m) id
        (fun m fuel => execRendered fuel os (m.note o)) := by
  funext fuel
  simp only [execRendered, chain]
  cases runRendered fuel o m <;> rfl

theorem steady_execRendered (os : List Op) (m : Machine) :
    Steady fun fuel => execRendered fuel os m := by
  induction os generalizing m with
  | nil => exact steady_const _
  | cons o os ih =>
      rw [execRendered_cons]
      exact steady_chain (steady_runRendered o m) fun m => ih (m.note o)

theorem ends_execRendered {os : List Op} (h : Op.undefinedKindAll? os = none) (m : Machine)
    (r : EStateM.Result Fault Machine Unit) :
    Ends Failure.fault (fun fuel => execRendered fuel os m) r ↔
      Op.inTurn (fun o => o.block.effect tick) os m r := by
  induction os generalizing m r with
  | nil => exact ends_const_done m r
  | cons o os ih =>
      rw [Op.undefinedKindAll?, Option.or_eq_none_iff] at h
      rw [execRendered_cons, Op.inTurn]
      refine ends_chain (steady_runRendered o m) (fun m => steady_execRendered os (m.note o))
        (fun _ => rfl) (ends_runRendered h.1 m) ?_ r
      intro m' r'
      exact (ih h.2 (m'.note o) r').trans (seq_noting_iff o _ m' r').symm

/-! ## One text for all ops -/

theorem execText_block (b : Block) (fuel : Nat) (m : Machine) :
    execText fuel (Symbol.text b.symbols) m = runCode fuel b.code m := by
  simp only [execText, Code.compile_block]

theorem ends_execText (b : Block) (m : Machine) (r : EStateM.Result Fault Machine Unit) :
    Ends Failure.fault (fun fuel => execText fuel (Symbol.text b.symbols) m) r ↔
      b.effect tick m r := by
  simp only [execText_block]
  exact ends_runCode b m r

end Machine

end TapeForge

import TapeForge.Proofs.Congruence
import TapeForge.Proofs.TextRun

/-!
# Ops rendered one by one, and as one text

The text of a program compiles, and every symbol of it is kept. Running the text of each op by
itself and running the whole text with one jump table come to the same end: brackets pair within
the text of one op, and no jump leaves it.
-/

namespace TapeForge

namespace Machine

open TapeForge.Machine.Action TapeForge.Effect

def SameRun (m n : Machine) : Prop := SameState m n ∧ m.steps = n.steps

theorem Twin.sameRun {m n : Machine} (h : Twin Counted m n) : SameRun m n := by
  refine ⟨h.sameState, ?_⟩
  obtain ⟨_, steps, _, rfl, hsteps, _⟩ := h
  exact hsteps

theorem SameRun.symm {m n : Machine} (h : SameRun m n) : SameRun n m :=
  ⟨h.1.symm, h.2.symm⟩

theorem ends_execText_of_execRendered {os : List Op} (h : Op.undefinedKindAll? os = none)
    (m : Machine) (r : EStateM.Result Fault Machine Unit)
    (hr : Ends Failure.fault (fun fuel => execRendered fuel os m) r) :
    ∃ r', Ends Failure.fault
        (fun fuel => execText fuel (Symbol.text (Op.blockAll os).symbols) m) r' ∧
      Related SameRun r r' := by
  rw [ends_execRendered h] at hr
  obtain ⟨r', hr', hrel⟩ :=
    sim_inTurn (fun o => (congruent_twin Counted).block alike_tick o.block) os
      (twin_refl ⟨rfl, rfl⟩) hr
  rw [← Op.effect_blockAll] at hr'
  exact ⟨r', (ends_execText _ m r').2 hr', hrel.mono Twin.sameRun⟩

theorem ends_execRendered_of_execText {os : List Op} (h : Op.undefinedKindAll? os = none)
    (m : Machine) (r : EStateM.Result Fault Machine Unit)
    (hr : Ends Failure.fault
      (fun fuel => execText fuel (Symbol.text (Op.blockAll os).symbols) m) r) :
    ∃ r', Ends Failure.fault (fun fuel => execRendered fuel os m) r' ∧ Related SameRun r r' := by
  rw [ends_execText, Op.effect_blockAll] at hr
  obtain ⟨r', hr', hrel⟩ :=
    sim_sequence (fun o => (congruent_twin Counted).swap.block alike_tick.swap o.block) os
      (twin_refl ⟨rfl, rfl⟩) hr
  exact ⟨r', (ends_execRendered h m r').2 hr', hrel.mono fun ht => ht.sameRun.symm⟩

/-- A program of defined kinds has a text which compiles and keeps all its symbols. From every
machine, the run of each op's text by itself and the run of the whole text come to their ends
together, with the same fault or none, and with the same tape, pointer, input, output and
steps. -/
theorem execRendered_agrees_execText (ops : List Op) (h : Op.undefinedKindAll? ops = none) :
    ∃ symbols code, Op.render ops = .ok symbols ∧
      Code.compile (Symbol.text symbols) = .ok code ∧ code.symbols.toList = symbols ∧
      ∀ m : Machine,
        (∀ fuel, (execRendered fuel ops m).Settled → ∃ fuel',
          Outcome.Agree Failure.fault Failure.fault SameRun
            (execRendered fuel ops m) (execText fuel' (Symbol.text symbols) m)) ∧
        (∀ fuel, (execText fuel (Symbol.text symbols) m).Settled → ∃ fuel',
          Outcome.Agree Failure.fault Failure.fault SameRun
            (execText fuel (Symbol.text symbols) m) (execRendered fuel' ops m)) := by
  refine ⟨_, _, Op.render_eq_ok h, Code.compile_block _, rfl, fun m => ⟨?_, ?_⟩⟩
  · intro fuel hs
    exact agree_of_ends (ends_execText_of_execRendered h m) hs
  · intro fuel hs
    exact agree_of_ends (ends_execRendered_of_execText h m) hs

/-- Loops inside loops, with emissions between their brackets, run under a step limit. -/
theorem execRendered_agrees_execText_nested :
    ∃ symbols code,
      Op.render [.loop [.add (-1), .loop [.writeN 65 0 1 2], .move 0 1], .writeS [104, 105]] =
        .ok symbols ∧
      Code.compile (Symbol.text symbols) = .ok code ∧ code.symbols.toList = symbols ∧
      ∀ fuel, (execText fuel (Symbol.text symbols)
          { tape := #[3, 0, 0], width := .one, limit := 90 }).Settled →
        ∃ fuel', Outcome.Agree Failure.fault Failure.fault SameRun
          (execText fuel (Symbol.text symbols)
            { tape := #[3, 0, 0], width := .one, limit := 90 })
          (execRendered fuel'
            [.loop [.add (-1), .loop [.writeN 65 0 1 2], .move 0 1], .writeS [104, 105]]
            { tape := #[3, 0, 0], width := .one, limit := 90 }) := by
  obtain ⟨symbols, code, hrender, hcompile, hkeep, hruns⟩ := execRendered_agrees_execText
    [.loop [.add (-1), .loop [.writeN 65 0 1 2], .move 0 1], .writeS [104, 105]] rfl
  exact ⟨symbols, code, hrender, hcompile, hkeep, (hruns _).2⟩

end Machine

end TapeForge

import TapeForge.Proofs.OpText
import TapeForge.Proofs.Unlimited

/-!
# Ops run directly, and as text

Every op means the same when it is done at once and when its text is run. The comparison of single
ops is carried through sequences and loops, and from there to runs: a direct run that succeeds is
matched by the run of the text, and unless some op adds zero, which as text does nothing at all,
the two succeed together and leave the tape together.
-/

namespace TapeForge

open Machine Machine.Action Effect

/-! ## Texts keep a machine ready -/

theorem Machine.kept_ready : Kept Ready where
  masked hm := hm.masked
  reliable hm := hm.reliable
  set i _ hm hv := hm.set i hv
  moved n hm := hm.moved n
  put bs hm := hm.put bs
  readByte hm h := by
    rw [readByte_frame h]
    exact ⟨hm.masked, hm.unchecked, hm.reliable⟩

/-! ## One effect covered by another -/

/-- The same machine, still ready, or the same fault after the same output. -/
inductive SameEnd :
    EStateM.Result Fault Machine Unit → EStateM.Result Fault Machine Unit → Prop
  | ok {m : Machine} : m.Ready → SameEnd (.ok () m) (.ok () m)
  | error {e : Fault} {m n : Machine} : m.output = n.output → SameEnd (.error e m) (.error e n)

theorem SameEnd.symm {r r' : EStateM.Result Fault Machine Unit} (h : SameEnd r r') :
    SameEnd r' r := by
  cases h with
  | ok hm => exact .ok hm
  | error hout => exact .error hout.symm

/-- Whatever the first effect comes to from a ready machine, the second comes to as well. Faults
are compared only if `faults` holds. -/
def Covers (faults : Prop) (p q : Effect Fault Machine) : Prop :=
  ∀ ⦃m : Machine⦄ ⦃r : EStateM.Result Fault Machine Unit⦄, m.Ready → p m r →
    (∀ e n, r = .error e n → faults) → ∃ r', q m r' ∧ SameEnd r r'

namespace Covers

variable {faults : Prop} {p p' q q' : Effect Fault Machine}

theorem skip : Covers faults skip skip := by
  rintro m r hm h -
  cases h
  exact ⟨_, rfl, .ok hm⟩

theorem seq (h : Covers faults p q) (h' : Covers faults p' q') :
    Covers faults (Seq p p') (Seq q q') := by
  intro m r hm hr hf
  cases hr with
  | step h₁ h₂ =>
      obtain ⟨r₁, hr₁, hend⟩ := h hm h₁ (by simp)
      cases hend with
      | ok hm₁ =>
          obtain ⟨r₂, hr₂, hend₂⟩ := h' hm₁ h₂ hf
          exact ⟨r₂, .step hr₁ hr₂, hend₂⟩
  | stop h₁ =>
      obtain ⟨r₁, hr₁, hend⟩ := h hm h₁ hf
      cases hend with
      | error hout => exact ⟨_, .stop hr₁, .error hout⟩

theorem loop (h : Covers faults p q) : Covers faults (Loop isOpen p) (Loop isOpen q) := by
  intro m r hm hr hf
  induction hr with
  | fault hhead => exact ⟨_, .fault hhead, .error rfl⟩
  | leave hhead =>
      cases isOpen_state hhead
      exact ⟨_, .leave hhead, .ok hm⟩
  | stop hhead hbody =>
      cases isOpen_state hhead
      obtain ⟨r₁, hr₁, hend⟩ := h hm hbody hf
      cases hend with
      | error hout => exact ⟨_, .stop hhead hr₁, .error hout⟩
  | turn hhead hbody _ ih =>
      cases isOpen_state hhead
      -- A turn that succeeds is covered whatever is asked of faults.
      obtain ⟨r₁, hr₁, hend⟩ := h hm hbody (by simp)
      cases hend with
      | ok hm₁ =>
          obtain ⟨r₂, hr₂, hend₂⟩ := ih hm₁ hf
          exact ⟨r₂, .turn hhead hr₁ hr₂, hend₂⟩

end Covers

/-! ## Ops and their texts -/

namespace Op

/-- The numbers of an op are small and its cells different from each other; a loop is judged by
its body. -/
def Ranged : Op → Prop
  | add n | shift n => Small n
  | move src dest => Small src ∧ Small dest ∧ src ≠ dest
  | copy src tmp dest | writeN _ src tmp dest =>
    Small src ∧ Small tmp ∧ Small dest ∧ src ≠ tmp ∧ src ≠ dest ∧ tmp ≠ dest
  | undefined _ => False
  | _ => True

mutual

/-- Something holds of an op and of the ops inside it. -/
def Every (p : Op → Prop) : Op → Prop
  | loop body => p (loop body) ∧ EveryIn p body
  | o => p o

/-- Something holds of every op in a list and of the ops inside them. -/
def EveryIn (p : Op → Prop) : List Op → Prop
  | [] => True
  | o :: os => Every p o ∧ EveryIn p os

end

/-- From a ready machine, an op that is no loop and its text have the same end. Adding zero off
the tape is the one exception. -/
theorem mirrored {o : Op} (ho : ∀ body, o ≠ loop body) (hr : o.Ranged) {m : Machine}
    (hm : m.Ready) (hz : o = add 0 → ∃ i, m.index? m.dp = some i) : o.Mirrored m := by
  cases o with
  | add n => exact mirrored_add hm hr fun h => hz (h ▸ rfl)
  | shift n => exact mirrored_shift hr
  | move src dest =>
      obtain ⟨hsrc, hdest, hne⟩ := hr
      exact mirrored_move hm hsrc hdest hne
  | zero => exact mirrored_zero hm
  | copy src tmp dest =>
      obtain ⟨hsrc, htmp, hdest, hst, hsd, htd⟩ := hr
      exact mirrored_copy hm hsrc htmp hdest hst hsd htd
  | loop body => exact absurd rfl (ho body)
  | read =>
      refine mirrored_of_symbol (p := .inp) ho ?_ rfl
      simp only [perform, doSymbol, Plain.symbol, bind_assoc]
      rfl
  | write =>
      refine mirrored_of_symbol (p := .out) ho ?_ rfl
      simp only [perform, doSymbol, Plain.symbol, bind_assoc]
  | writeN code count tmp1 tmp2 =>
      obtain ⟨hcount, htmp1, htmp2, h1, h2, h12⟩ := hr
      exact mirrored_writeN hm hcount htmp1 htmp2 h1 h2 h12
  | writeS text => exact mirrored_writeS hm text
  | assertZero offsets => exact mirrored_assertZero hm offsets
  | undefined kind => exact hr.elim

theorem Mirrored.sameEnd {o : Op} {m : Machine} (hm : m.Ready) (h : o.Mirrored m) :
    ∃ r r', o.quiet m r ∧ o.block.quiet m r' ∧ SameEnd r r' := by
  obtain ⟨r, hr, hmir⟩ := h
  cases r with
  | ok x m' =>
      have htext : o.block.quiet m (.ok () m') := moved_zero m' ▸ hmir
      exact ⟨_, _, hr, htext, .ok (kept_ready.quiet hm htext)⟩
  | error e m' =>
      obtain ⟨n, hn, hout⟩ := hmir
      exact ⟨_, _, hr, hn, .error hout⟩

/-- The text of an op covers the op, but for faults of additions of zero. -/
theorem covers_block {faults : Prop} {o : Op} (ho : ∀ body, o ≠ loop body) (hr : o.Ranged)
    (hz : faults → o ≠ add 0) : Covers faults o.quiet o.block.quiet := by
  intro m r hm hr' hf
  -- A direct run looks up the cell even to add nothing to it, where the text is empty.
  have hloc : o = add 0 → ∃ i, m.index? m.dp = some i := by
    rintro rfl
    cases hi : m.index? m.dp with
    | some i => exact ⟨i, rfl⟩
    | none =>
        have herr : perform (add 0) m = .error (.outOfBounds m.dp m.tape.size) m := by
          rw [perform, bind_of_error (locate_here_error hi)]
        cases single_quiet _ hr' (quiet_error ho herr)
        exact absurd rfl (hz (hf _ _ rfl))
  obtain ⟨r₁, r₂, h₁, h₂, hend⟩ := (mirrored ho hr hm hloc).sameEnd hm
  cases single_quiet _ hr' h₁
  exact ⟨r₂, h₂, hend⟩

/-- An op covers its text, unless it adds zero. -/
theorem block_covers {o : Op} (ho : ∀ body, o ≠ loop body) (hr : o.Ranged) (hz : o ≠ add 0) :
    Covers True o.block.quiet o.quiet := by
  intro m r hm hr' _
  obtain ⟨r₁, r₂, h₁, h₂, hend⟩ :=
    (mirrored ho hr hm fun h => absurd h hz).sameEnd hm
  cases o.block.single_quiet hr' h₂
  exact ⟨r₁, h₁, hend.symm⟩

theorem every_of_not_loop {p : Op → Prop} {o : Op} (ho : ∀ body, o ≠ loop body)
    (h : o.Every p) : p o := by
  cases o with
  | loop body => exact absurd rfl (ho body)
  | _ => simpa [Every] using h

theorem quiet_blockAll_cons (o : Op) (os : List Op) :
    (blockAll (o :: os)).quiet = Seq o.block.quiet (blockAll os).quiet := by
  rw [blockAll, Block.quiet, Block.effect_append]
  rfl

theorem quiet_block_loop (body : List Op) :
    (loop body).block.quiet = Loop isOpen (blockAll body).quiet := by
  rw [block, Block.quiet, Block.effect, Block.effect, seq_skip, pure_bind]
  rfl

theorem covers_blockAll {faults : Prop} (os : List Op) (hr : EveryIn Ranged os)
    (hz : faults → EveryIn (· ≠ add 0) os) : Covers faults (quietAll os) (blockAll os).quiet := by
  refine inductAll
    (P := fun o => o.Every Ranged → (faults → o.Every (· ≠ add 0)) →
      Covers faults o.quiet o.block.quiet)
    (Q := fun os => EveryIn Ranged os → (faults → EveryIn (· ≠ add 0) os) →
      Covers faults (quietAll os) (blockAll os).quiet) ?_ ?_ ?_ ?_ os hr hz
  · intro body ih hr hz
    rw [quiet_loop, quiet_block_loop]
    exact (ih hr.2 fun hf => (hz hf).2).loop
  · intro o ho hr hz
    exact covers_block ho (every_of_not_loop ho hr) fun hf =>
      every_of_not_loop (p := (· ≠ add 0)) ho (hz hf)
  · intro _ _
    exact .skip
  · intro o os iho ihos hr hz
    rw [quietAll_cons, quiet_blockAll_cons]
    exact (iho hr.1 fun hf => (hz hf).1).seq (ihos hr.2 fun hf => (hz hf).2)

theorem blockAll_covers (os : List Op) (hr : EveryIn Ranged os)
    (hz : EveryIn (· ≠ add 0) os) : Covers True (blockAll os).quiet (quietAll os) := by
  refine inductAll
    (P := fun o => o.Every Ranged → o.Every (· ≠ add 0) → Covers True o.block.quiet o.quiet)
    (Q := fun os => EveryIn Ranged os → EveryIn (· ≠ add 0) os →
      Covers True (blockAll os).quiet (quietAll os)) ?_ ?_ ?_ ?_ os hr hz
  · intro body ih hr hz
    rw [quiet_loop, quiet_block_loop]
    exact (ih hr.2 hz.2).loop
  · intro o ho hr hz
    exact block_covers ho (every_of_not_loop ho hr) (every_of_not_loop (p := (· ≠ add 0)) ho hz)
  · intro _ _
    exact .skip
  · intro o os iho ihos hr hz
    rw [quietAll_cons, quiet_blockAll_cons]
    exact (iho hr.1 hz.1).seq (ihos hr.2 hz.2)

/-- Where something that no undefined kind satisfies holds all through ops, their kinds are
defined. -/
theorem undefinedKindAll?_of_every {p : Op → Prop} (hp : ∀ kind, ¬p (undefined kind))
    (os : List Op) (h : EveryIn p os) : undefinedKindAll? os = none := by
  refine inductAll (P := fun o => o.Every p → o.undefinedKind? = none)
    (Q := fun os => EveryIn p os → undefinedKindAll? os = none) ?_ ?_ ?_ ?_ os h
  · intro body ih hr
    rw [undefinedKind?]
    exact ih hr.2
  · intro o ho hr
    cases o with
    | loop body => exact absurd rfl (ho body)
    | undefined kind => exact (hp kind (every_of_not_loop ho hr)).elim
    | _ => simp [undefinedKind?]
  · intro _
    rw [undefinedKindAll?]
  · intro o os iho ihos hr
    rw [undefinedKindAll?, iho hr.1, ihos hr.2]
    rfl

/-- Ops in range are of defined kinds. -/
theorem undefinedKindAll?_of_ranged (os : List Op) (hr : EveryIn Ranged os) :
    undefinedKindAll? os = none :=
  undefinedKindAll?_of_every (fun _ => id) os hr

end Op

/-! ## Runs -/

namespace Machine

/-- Two runs have come to ends of one kind: in the same state, or with the same fault after the
same output. -/
inductive Alongside :
    EStateM.Result Fault Machine Unit → EStateM.Result Fault Machine Unit → Prop
  | ok {m n : Machine} : SameState m n → Alongside (.ok () m) (.ok () n)
  | error {e : Fault} {m n : Machine} : m.output = n.output → Alongside (.error e m) (.error e n)

theorem alongside_of_sameEnd {r r₁ r₂ r' : EStateM.Result Fault Machine Unit}
    (h₁ : Related SameState r r₁) (h : SameEnd r₁ r₂) (h₂ : Related SameState r₂ r') :
    Alongside r r' := by
  cases h₁ with
  | ok hs₁ =>
      cases h with
      | ok _ =>
          cases h₂ with
          | ok hs₂ => exact .ok (hs₁.trans hs₂)
  | error hs₁ =>
      cases h with
      | error hout =>
          cases h₂ with
          | error hs₂ => exact .error (hs₁.output.trans (hout.trans hs₂.output))

variable {ops : List Op} {m : Machine} {r : EStateM.Result Fault Machine Unit}

theorem ends_execText_of_exec (faults : Prop) (hops : Op.EveryIn Op.Ranged ops)
    (hz : faults → Op.EveryIn (· ≠ .add 0) ops) (hm : m.Ready) (hlimit : m.limit ≤ 0)
    (h : Ends Failure.fault (fun fuel => exec fuel ops m) r)
    (hf : ∀ e n, r = .error e n → faults) :
    ∃ r', Ends Failure.fault
        (fun fuel => execText fuel (Symbol.text (Op.blockAll ops).symbols) m) r' ∧
      Alongside r r' := by
  obtain ⟨r₁, hr₁, hrel₁⟩ := quiet_of_ends_exec hlimit h
  have hf₁ : ∀ e n, r₁ = .error e n → faults := by
    rintro e n rfl
    cases hrel₁ with
    | error _ => exact hf _ _ rfl
  obtain ⟨r₂, hr₂, hend⟩ := Op.covers_blockAll ops hops hz hm hr₁ hf₁
  obtain ⟨r', hr', hrel₂⟩ := ends_runCode_of_quiet hlimit hr₂
  simp only [← execText_block] at hr'
  exact ⟨r', hr', alongside_of_sameEnd hrel₁ hend hrel₂⟩

theorem ends_exec_of_execText (hops : Op.EveryIn Op.Ranged ops)
    (hz : Op.EveryIn (· ≠ .add 0) ops) (hm : m.Ready) (hlimit : m.limit ≤ 0)
    (h : Ends Failure.fault
      (fun fuel => execText fuel (Symbol.text (Op.blockAll ops).symbols) m) r) :
    ∃ r', Ends Failure.fault (fun fuel => exec fuel ops m) r' ∧ Alongside r r' := by
  simp only [execText_block] at h
  obtain ⟨r₁, hr₁, hrel₁⟩ := quiet_of_ends_runCode hlimit h
  obtain ⟨r₂, hr₂, hend⟩ := Op.blockAll_covers ops hops hz hm hr₁ fun _ _ _ => trivial
  obtain ⟨r', hr', hrel₂⟩ := ends_exec_of_quiet hlimit hr₂
  exact ⟨r', hr', alongside_of_sameEnd hrel₁ hend hrel₂⟩

theorem LeavesTape.of_ends {run run' : Nat → Outcome Failure Machine}
    (h : ∀ r, Ends Failure.fault run r → ∃ r', Ends Failure.fault run' r' ∧ Alongside r r')
    {pos : Int64} {length : Nat} {output : Sink} (hl : LeavesTape run pos length output) :
    LeavesTape run' pos length output := by
  obtain ⟨fuel, failure, m', hrun, hfault, rfl⟩ := hl
  obtain ⟨r', hr', hal⟩ := h (.error _ m') ⟨fuel, failure, hrun, rfl⟩
  cases hal with
  | error hout =>
      obtain ⟨fuel', failure', hrun', hfault'⟩ := hr'
      exact ⟨fuel', failure', _, hrun', hfault'.trans hfault, hout.symm⟩

/-- A direct run that is done is matched by the run of the text, which ends in the same state.
Unless some op adds zero, a text run that is done is matched by the direct run as well, and both
leave the tape together, at the same position and after the same output. -/
theorem exec_agrees_execText (ops : List Op) (m : Machine) (hops : Op.EveryIn Op.Ranged ops)
    (hm : m.Ready) (hlimit : m.limit ≤ 0) :
    ∃ symbols, Op.render ops = .ok symbols ∧
      (∀ fuel m', exec fuel ops m = .done m' → ∃ fuel' n,
        execText fuel' (Symbol.text symbols) m = .done n ∧ SameState m' n) ∧
      (Op.EveryIn (· ≠ .add 0) ops →
        (∀ fuel n, execText fuel (Symbol.text symbols) m = .done n → ∃ fuel' m',
          exec fuel' ops m = .done m' ∧ SameState n m') ∧
        ∀ pos length output, LeavesTape (exec · ops m) pos length output ↔
          LeavesTape (execText · (Symbol.text symbols) m) pos length output) := by
  refine ⟨_, Op.render_eq_ok (Op.undefinedKindAll?_of_ranged ops hops), ?_, ?_⟩
  · intro fuel m' h
    obtain ⟨r, hr, hal⟩ := ends_execText_of_exec False (r := .ok () m') hops
      False.elim hm hlimit ⟨fuel, h⟩ (by simp)
    cases hal with
    | ok hs =>
        obtain ⟨fuel', hrun⟩ := hr
        exact ⟨fuel', _, hrun, hs⟩
  · intro hz
    refine ⟨?_, fun pos length output => ⟨?_, ?_⟩⟩
    · intro fuel n h
      obtain ⟨r, hr, hal⟩ := ends_exec_of_execText (r := .ok () n) hops hz hm hlimit ⟨fuel, h⟩
      cases hal with
      | ok hs =>
          obtain ⟨fuel', hrun⟩ := hr
          exact ⟨fuel', _, hrun, hs⟩
    · exact LeavesTape.of_ends fun r hr =>
        ends_execText_of_exec True hops (fun _ => hz) hm hlimit hr fun _ _ _ => trivial
    · exact LeavesTape.of_ends fun r hr => ends_exec_of_execText hops hz hm hlimit hr

/-- A loop around a move and a counted emission that runs off the tape, directly and as text. -/
theorem exec_agrees_execText_nested :
    ∃ symbols, Op.render [.loop [.writeN 65 0 1 2, .move 0 1, .shift 1], .add (-1)] = .ok symbols ∧
      ∀ pos length output,
        LeavesTape (exec · [.loop [.writeN 65 0 1 2, .move 0 1, .shift 1], .add (-1)]
          { tape := #[2, 0, 0], width := .one }) pos length output ↔
        LeavesTape (execText · (Symbol.text symbols)
          { tape := #[2, 0, 0], width := .one }) pos length output := by
  have hmasked : Masked { tape := #[2, 0, 0], width := .one } := by
    intro v hv
    simp only [List.mem_toArray, List.mem_cons, List.not_mem_nil, or_false] at hv
    rcases hv with rfl | rfl | rfl <;> decide
  obtain ⟨symbols, hsymbols, -, h⟩ := exec_agrees_execText
    [.loop [.writeN 65 0 1 2, .move 0 1, .shift 1], .add (-1)]
    { tape := #[2, 0, 0], width := .one }
    (by simp only [Op.EveryIn, Op.Every, Op.Ranged]; decide)
    ⟨hmasked, rfl, rfl⟩ (by decide)
  refine ⟨symbols, hsymbols, (h ?_).2⟩
  simp [Op.EveryIn, Op.Every]

end Machine

end TapeForge

import TapeForge.Proofs.Coupling

/-!
# Machines that go alike

A relation between machines that every elementary action keeps is kept by symbols, by ops and by
all that is built from them. The relation used most is between machines that differ only in what
they have noted and in how they count.
-/

namespace TapeForge

namespace Machine

open TapeForge.Machine.Action TapeForge.Effect

/-- The elementary actions other than counting keep a relation between machines, and have the
same values in related machines. -/
structure Congruent (R : Machine → Machine → Prop) : Prop where
  locate (o : Offset) : Alike R (locate o) (locate o)
  peek (i : Nat) : Alike R (peek i) (peek i)
  poke (i : Nat) (v : UInt64) : Alike R (poke i v) (poke i v)
  bump (i : Nat) (v : UInt64) : Alike R (bump i v) (bump i v)
  shift (n : Int64) : Alike R (shift n) (shift n)
  emit (bs : Bytes) : Alike R (emit bs) (emit bs)
  readByte : Alike R readByte readByte
  mask : Alike R cellMask cellMask
  checked : Alike R isChecked isChecked

/-- The bond of machines that have the same cells at the same indices and fail together. -/
def Bond.of (R : Machine → Machine → Prop) : Bond where
  rel := R
  cell := Eq
  shared _ := True
  parts _ _ := False

section Bonds

variable {R : Machine → Machine → Prop} {α : Type} {a b : Action α}

theorem Bond.Pairs.alike (h : (Bond.of R).Pairs Eq a b) : Alike R a b := by
  intro m n hR
  have hr := h hR
  generalize a m = ra at hr ⊢
  generalize b n = rb at hr ⊢
  cases hr with
  | ok hxy hR' =>
      cases hxy
      exact .ok hR'
  | error _ hR' => exact .error hR'
  | parted hp => exact hp.elim

theorem pairs_of_alike (h : Alike R a b) : (Bond.of R).Pairs Eq a b := by
  intro m n hR
  have hr := h hR
  generalize a m = ra at hr ⊢
  generalize b n = rb at hr ⊢
  cases hr with
  | ok hR' => exact .ok rfl hR'
  | error hR' => exact .error trivial hR'

theorem eq_of_sameTasks {ts us : List Task} (h : (Bond.of R).SameTasks ts us) : ts = us := by
  induction h with
  | nil => rfl
  | cons ht _ ih => rw [ih, Bond.eq_of_sameTask (fun _ _ => id) ht]

end Bonds

namespace Congruent

variable {R : Machine → Machine → Prop} (h : Congruent R)

include h

theorem swap : Congruent fun n m => R m n where
  locate o := (h.locate o).swap
  peek i := (h.peek i).swap
  poke i v := (h.poke i v).swap
  bump i v := (h.bump i v).swap
  shift n := (h.shift n).swap
  emit bs := (h.emit bs).swap
  readByte := h.readByte.swap
  mask := h.mask.swap
  checked := h.checked.swap

theorem firm : (Bond.of R).Firm where
  locate o := pairs_of_alike (h.locate o)
  peek hi := hi ▸ pairs_of_alike (h.peek _)
  poke _ hi := hi ▸ pairs_of_alike (h.poke _ _)
  bump v hi := hi ▸ pairs_of_alike (h.bump _ v)
  shift n := pairs_of_alike (h.shift n)
  emit bs := pairs_of_alike (h.emit bs)
  mask := pairs_of_alike h.mask
  checked := pairs_of_alike h.checked
  admits _ _ := .inl trivial

theorem isOpen : Alike R isOpen isOpen :=
  h.firm.isOpen.alike

theorem doSymbol (s : Symbol) : Alike R (doSymbol s) (doSymbol s) :=
  (h.firm.doSymbol s fun _ => pairs_of_alike h.readByte).alike

theorem emitHead (code : UInt8) (char left : Nat) :
    Alike R (emitHead code char left) (emitHead code char left) :=
  ((h.firm.emitHead code rfl rfl).mono fun _ _ => eq_of_sameTasks).alike

theorem emitTurn (code : UInt8) (char left : Nat) :
    Alike R (emitTurn code char left) (emitTurn code char left) :=
  h.mask.bind fun v => (h.bump left v).bind fun _ => (h.peek char).bind fun _ =>
    (h.emit _).bind fun _ => (h.emitHead code char left).bind fun _ => .pure _

theorem perform (o : Op) : Alike R (perform o) (perform o) :=
  ((h.firm.perform o fun _ => pairs_of_alike h.readByte).mono fun _ _ => eq_of_sameTasks).alike

/-! ### Effects of related machines -/

variable {count count' : Action Unit} (hcount : Alike R count count')

include hcount

theorem emission (ts : List Task) : Sim R (emission count ts) (emission count' ts) := by
  unfold Machine.emission
  split
  · exact sim_loop (hcount.bind fun _ => h.emitTurn _ _ _) sim_skip
  · exact sim_skip

theorem block (b : Block) : Sim R (b.effect count) (b.effect count') := by
  induction b with
  | nil => exact sim_skip
  | plain p rest ih => exact sim_seq (sim_act (hcount.bind fun _ => h.doSymbol _)) ih
  | loop body rest ihb ihr => exact sim_seq (sim_loop (hcount.bind fun _ => h.isOpen) ihb) ihr

theorem ops (os : List Op) : Sim R (Op.effectAll count os) (Op.effectAll count' os) := by
  refine Op.inductAll (P := fun o => Sim R (o.effect count) (o.effect count'))
    (Q := fun os => Sim R (Op.effectAll count os) (Op.effectAll count' os)) ?_ ?_ ?_ ?_ os
  · intro body ih
    simp only [Op.effect]
    exact sim_loop (hcount.bind fun _ => h.isOpen) ih
  · intro o ho
    simp only [Op.effect_of_not_loop _ ho]
    exact sim_after (hcount.bind fun _ => h.perform o) (h.emission hcount)
  · simp only [Op.effectAll]
    exact sim_skip
  · intro o os ho hos
    simp only [Op.effectAll]
    exact sim_seq ho hos

theorem op (o : Op) : Sim R (o.effect count) (o.effect count') := by
  have hops := h.ops hcount [o]
  simp only [Op.effectAll, seq_skip] at hops
  exact hops

end Congruent

/-! ## Machines that count differently -/

/-- Machines that differ only in their notes, in their step count and in their limit. The counts
and the limits, of the first machine and of the second, are related by `P`. -/
def Twin (P : Int64 → Int64 → Int64 → Int64 → Prop) (m n : Machine) : Prop :=
  ∃ records steps limit, m = { n with records, steps, limit } ∧ P steps limit n.steps n.limit

theorem twin_refl {P : Int64 → Int64 → Int64 → Int64 → Prop} {m : Machine}
    (h : P m.steps m.limit m.steps m.limit) : Twin P m m :=
  ⟨m.records, m.steps, m.limit, rfl, h⟩

/-- Notes do not tell twins apart. -/
theorem Twin.note {P : Int64 → Int64 → Int64 → Int64 → Prop} {m n : Machine} (h : Twin P m n)
    (o : Op) : Twin P (m.note o) n := by
  obtain ⟨records, steps, limit, rfl, hP⟩ := h
  unfold Machine.note
  split
  · exact ⟨_, steps, limit, rfl, hP⟩
  · exact ⟨records, steps, limit, rfl, hP⟩

theorem congruent_twin (P : Int64 → Int64 → Int64 → Int64 → Prop) : Congruent (Twin P) where
  locate o := by
    rintro _ n ⟨records, steps, limit, rfl, hP⟩
    simp only [locate, index?]
    split
    · exact .ok ⟨records, steps, limit, rfl, hP⟩
    · exact .error ⟨records, steps, limit, rfl, hP⟩
  peek i := by
    rintro _ n ⟨records, steps, limit, rfl, hP⟩
    exact .ok ⟨records, steps, limit, rfl, hP⟩
  poke i v := by
    rintro _ n ⟨records, steps, limit, rfl, hP⟩
    exact .ok ⟨records, steps, limit, rfl, hP⟩
  bump i v := by
    rintro _ n ⟨records, steps, limit, rfl, hP⟩
    exact .ok ⟨records, steps, limit, rfl, hP⟩
  shift k := by
    rintro _ n ⟨records, steps, limit, rfl, hP⟩
    exact .ok ⟨records, steps, limit, rfl, hP⟩
  emit bs := by
    rintro _ n ⟨records, steps, limit, rfl, hP⟩
    simp only [emit]
    split
    · exact .ok ⟨records, steps, limit, rfl, hP⟩
    · exact .error ⟨records, steps, limit, rfl, hP⟩
  readByte := by
    refine Alike.bind ?_ fun _ => ?_
    · rintro _ n ⟨records, steps, limit, rfl, hP⟩
      simp only [refill]
      split
      · exact .ok ⟨records, steps, limit, rfl, hP⟩
      · split
        · exact .ok ⟨records, steps, limit, rfl, hP⟩
        · split
          · exact .ok ⟨records, steps, limit, rfl, hP⟩
          · exact .ok ⟨records, steps, limit, rfl, hP⟩
          · exact .error ⟨records, steps, limit, rfl, hP⟩
    · rintro _ n ⟨records, steps, limit, rfl, hP⟩
      dsimp only
      split
      · exact .ok ⟨records, steps, limit, rfl, hP⟩
      · exact .ok ⟨records, steps, limit, rfl, hP⟩
  mask := by
    rintro _ n ⟨records, steps, limit, rfl, hP⟩
    exact .ok ⟨records, steps, limit, rfl, hP⟩
  checked := by
    rintro _ n ⟨records, steps, limit, rfl, hP⟩
    exact .ok ⟨records, steps, limit, rfl, hP⟩

/-- Both machines count alike. -/
def Counted (steps limit steps' limit' : Int64) : Prop := steps = steps' ∧ limit = limit'

/-- The first machine has no limit. -/
def Unlimited (_ limit _ _ : Int64) : Prop := limit ≤ 0

theorem alike_tick : Alike (Twin Counted) tick tick := by
  rintro _ n ⟨records, steps, limit, rfl, rfl, rfl⟩
  simp only [tick]
  split
  · exact .error ⟨records, _, _, rfl, rfl, rfl⟩
  · exact .ok ⟨records, _, _, rfl, rfl, rfl⟩

theorem alike_tick_pure : Alike (Twin Unlimited) tick (pure ()) := by
  rintro _ n ⟨records, steps, limit, rfl, hP⟩
  have hlimit : ¬ (0 < limit ∧ limit < steps + 1) := fun h => Int64.not_lt.2 hP h.1
  simp only [tick, if_neg hlimit]
  exact .ok ⟨records, _, limit, rfl, hP⟩

/-! ## Notes between ops -/

section Notes

variable {P : Int64 → Int64 → Int64 → Int64 → Prop} {f g : Op → Effect Fault Machine}

theorem sim_inTurn (h : ∀ o, Sim (Twin P) (f o) (g o)) (os : List Op) :
    Sim (Twin P) (Op.inTurn f os) (Op.sequence g os) := by
  induction os with
  | nil => exact sim_skip
  | cons o os ih =>
      refine sim_seq (h o) ?_
      intro m n r hR hr
      rw [seq_noting_iff] at hr
      exact ih (hR.note o) hr

theorem sim_sequence (h : ∀ o, Sim (fun n m => Twin P m n) (g o) (f o)) (os : List Op) :
    Sim (fun n m => Twin P m n) (Op.sequence g os) (Op.inTurn f os) := by
  induction os with
  | nil => exact sim_skip
  | cons o os ih =>
      refine sim_seq (h o) ?_
      intro n m r hR hr
      obtain ⟨r', hr', hrel⟩ := ih (hR.note o) hr
      exact ⟨r', (seq_noting_iff o _ m r').2 hr', hrel⟩

end Notes

/-! ## What a run is about -/

/-- Machines with the same tape, data pointer, input and output. -/
structure SameState (m n : Machine) : Prop where
  tape : m.tape = n.tape
  dp : m.dp = n.dp
  input : m.input = n.input
  cursor : m.cursor = n.cursor
  live : m.live = n.live
  output : m.output = n.output

theorem SameState.symm {m n : Machine} (h : SameState m n) : SameState n m :=
  ⟨h.tape.symm, h.dp.symm, h.input.symm, h.cursor.symm, h.live.symm, h.output.symm⟩

theorem SameState.trans {m n k : Machine} (h : SameState m n) (h' : SameState n k) :
    SameState m k :=
  ⟨h.tape.trans h'.tape, h.dp.trans h'.dp, h.input.trans h'.input, h.cursor.trans h'.cursor,
    h.live.trans h'.live, h.output.trans h'.output⟩

theorem Twin.cell {P : Int64 → Int64 → Int64 → Int64 → Prop} {m n : Machine} (h : Twin P m n)
    (p : Int64) : m.cell p = n.cell p := by
  obtain ⟨records, steps, limit, rfl, _⟩ := h
  rfl

theorem Twin.sameState {P : Int64 → Int64 → Int64 → Int64 → Prop} {m n : Machine}
    (h : Twin P m n) : SameState m n := by
  obtain ⟨records, steps, limit, rfl, _⟩ := h
  exact ⟨rfl, rfl, rfl, rfl, rfl, rfl⟩

end Machine

end TapeForge

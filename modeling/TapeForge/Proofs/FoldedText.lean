import TapeForge.Proofs.PackedRun
import TapeForge.Proofs.Transfer

/-!
# Text and its fold

Folded text does what the text does, except that a run which cancels out is not done at all, and so
cannot fail. Where the text is done, its fold is done in the same machine; where the fold comes to
an end, the text is done in the same machine or leaves the tape.
-/

namespace TapeForge

open Machine Machine.Action Effect Packed

namespace Machine

/-- Masked cells, an output that never fails, and input that never fails. -/
structure Clean (m : Machine) : Prop where
  masked : m.Masked
  reliable : m.output.room = none
  cursor : m.cursor ≤ m.input.size
  live : ∀ r, m.live = some r → r.fails = false

/-- The bytes that are still to be read: of the input, and then of the live reader. -/
def unread (m : Machine) : Bytes :=
  m.input.toList.drop m.cursor ++ (m.live.map Reader.pending).getD []

/-- Refilling moves a line from the reader to the input. After it the input is used up only if
nothing is left to read. -/
theorem refill_of_clean {m : Machine} (hm : m.Clean) :
    ∃ m', refill m = .ok () m' ∧ m'.Clean ∧ m'.unread = m.unread ∧
      (m'.cursor = m'.input.size → m'.unread = []) := by
  unfold refill
  by_cases hlt : m.cursor < m.input.size
  · rw [if_pos hlt]
    exact ⟨m, rfl, hm, rfl, fun h => by omega⟩
  · have heq : m.cursor = m.input.size := Nat.le_antisymm hm.cursor (Nat.not_lt.1 hlt)
    rw [if_neg hlt]
    cases hl : m.live with
    | none =>
        refine ⟨m, rfl, hm, rfl, fun _ => ?_⟩
        simp [unread, heq, hl]
    | some r =>
        have hfails := hm.live r hl
        obtain ⟨hpending, hline⟩ := splitLine_eq r.pending
        simp only [Reader.readLine]
        generalize Reader.splitLine r.pending = split at hpending hline ⊢
        obtain ⟨line, _ | rest⟩ := split
        · -- The reader is at its end, and its last bytes are the line.
          simp only [hfails]
          refine ⟨_, rfl, ⟨hm.masked, hm.reliable, ?_, by simp⟩, ?_, ?_⟩
          · rw [size_append_bytes]
            exact Nat.le_add_right_of_le hm.cursor
          · simp [unread, heq, hl, hpending]
          · intro h
            rw [size_append_bytes, heq] at h
            have hnil : line = [] := List.eq_nil_of_length_eq_zero (by omega)
            simp [unread, heq, hnil]
        · refine ⟨_, rfl, ⟨hm.masked, hm.reliable, ?_, ?_⟩, ?_, ?_⟩
          · rw [size_append_bytes]
            exact Nat.le_add_right_of_le hm.cursor
          · intro r' hr'
            cases hr'
            exact hfails
          · simp [unread, heq, hl, hpending]
          · intro h
            rw [size_append_bytes, heq] at h
            have hnil : line = [] := List.eq_nil_of_length_eq_zero (by omega)
            exact absurd hnil (hline (by simp))

/-- Reading takes the first byte that is still to be read, or zero if there is none. -/
theorem readByte_of_clean {m : Machine} (hm : m.Clean) :
    ∃ m', readByte m = .ok (m.unread.headD 0) m' ∧ m'.Clean ∧ m'.unread = m.unread.tail := by
  obtain ⟨m₁, hr, hm₁, hunread, hend⟩ := refill_of_clean hm
  rw [readByte_eq, bind_of_ok hr, ← hunread]
  unfold takeByte
  cases hb : m₁.input[m₁.cursor]? with
  | some b =>
      obtain ⟨hlt, hget⟩ := Array.getElem?_eq_some_iff.1 hb
      have hdrop : m₁.input.toList.drop m₁.cursor =
          b :: m₁.input.toList.drop (m₁.cursor + 1) := by
        rw [List.drop_eq_getElem_cons (by simpa using hlt)]
        simp [hget]
      refine ⟨{ m₁ with cursor := m₁.cursor + 1 }, ?_,
        ⟨hm₁.masked, hm₁.reliable, hlt, hm₁.live⟩, ?_⟩
      · simp [unread, hdrop]
      · simp [unread, hdrop]
  | none =>
      have hle := Array.getElem?_eq_none_iff.1 hb
      -- Nothing at the cursor after a refill means that nothing is left anywhere.
      have hnil := hend (Nat.le_antisymm hm₁.cursor hle)
      exact ⟨m₁, by rw [hnil]; rfl, hm₁, by rw [hnil]; rfl⟩

theorem kept_clean : Kept Clean where
  masked hm := hm.masked
  reliable hm := hm.reliable
  set i _ hm hv := ⟨hm.masked.set i hv, hm.reliable, hm.cursor, hm.live⟩
  moved _ hm := ⟨hm.masked, hm.reliable, hm.cursor, hm.live⟩
  put _ hm := ⟨hm.masked, hm.reliable, hm.cursor, hm.live⟩
  readByte hm h := by
    obtain ⟨m', hb, hm', _⟩ := readByte_of_clean hm
    rw [hb] at h
    cases h
    exact hm'

def doLump : Lump → Action Unit
  | .add n => do
    let i ← locate 0
    bump i n.toUInt64
  | .shift n => shift n
  | .clear => do
    let i ← locate 0
    poke i 0
  | .out => doSymbol .out
  | .inp => doSymbol .inp

end Machine

/-! ## One effect folded to another -/

/-- The effect leaves the tape. -/
def Leaves (p : Effect Fault Machine) (m : Machine) : Prop :=
  ∃ pos length n, p m (.error (.outOfBounds pos length) n)

/-- From a clean machine, where the first effect is done the second is done alike, and where the
second comes to an end, the first is done alike or leaves the tape. -/
structure Folds (p q : Effect Fault Machine) : Prop where
  forth {m m' : Machine} : m.Clean → p m (.ok () m') → q m (.ok () m') ∧ m'.Clean
  back {m : Machine} {r : EStateM.Result Fault Machine Unit} : m.Clean → q m r →
    (∃ m', r = .ok () m' ∧ p m (.ok () m')) ∨ Leaves p m

namespace Folds

variable {p p' q q' t : Effect Fault Machine}

theorem skip : Folds skip skip where
  forth hm h := by
    cases h
    exact ⟨rfl, hm⟩
  back _ h := Or.inl ⟨_, h, rfl⟩

theorem trans (h : Folds p q) (h' : Folds q t) : Folds p t where
  forth hm hp := by
    obtain ⟨hq, hm'⟩ := h.forth hm hp
    exact ⟨(h'.forth hm hq).1, hm'⟩
  back hm ht := by
    rcases h'.back hm ht with ⟨m', rfl, hq⟩ | ⟨pos, length, n, hq⟩
    · exact h.back hm hq
    · rcases h.back hm hq with ⟨m', hr, _⟩ | hleaves
      · cases hr
      · exact Or.inr hleaves

theorem seq (h : Folds p q) (h' : Folds p' q') : Folds (Seq p p') (Seq q q') where
  forth hm hp := by
    obtain ⟨h₁, h₂⟩ | _ := hp
    obtain ⟨hq, hm₁⟩ := h.forth hm h₁
    obtain ⟨hq', hm'⟩ := h'.forth hm₁ h₂
    exact ⟨.step hq hq', hm'⟩
  back hm hq := by
    rcases hq with ⟨h₁, h₂⟩ | h₁
    · rcases h.back hm h₁ with ⟨m₁, hr, hp⟩ | ⟨pos, length, n, hp⟩
      · cases hr
        rcases h'.back (h.forth hm hp).2 h₂ with ⟨m', rfl, hp'⟩ | ⟨pos, length, n, hp'⟩
        · exact Or.inl ⟨m', rfl, .step hp hp'⟩
        · exact Or.inr ⟨pos, length, n, .step hp hp'⟩
      · exact Or.inr ⟨pos, length, n, .stop hp⟩
    · rcases h.back hm h₁ with ⟨m₁, hr, _⟩ | ⟨pos, length, n, hp⟩
      · cases hr
      · exact Or.inr ⟨pos, length, n, .stop hp⟩

theorem loop_forth (h : Folds p q) {m m' : Machine} (hm : m.Clean)
    (hp : Loop isOpen p m (.ok () m')) : Loop isOpen q m (.ok () m') ∧ m'.Clean := by
  generalize hr : EStateM.Result.ok () m' = r at hp
  induction hp with
  | fault _ => cases hr
  | leave hhead =>
      cases hr
      cases isOpen_state hhead
      exact ⟨.leave hhead, hm⟩
  | stop _ _ => cases hr
  | turn hhead hbody _ ih =>
      cases isOpen_state hhead
      obtain ⟨hq, hm₁⟩ := h.forth hm hbody
      obtain ⟨hrest, hm'⟩ := ih hm₁ hr
      subst hr
      exact ⟨.turn hhead hq hrest, hm'⟩

theorem loop_back (h : Folds p q) {m : Machine} {r : EStateM.Result Fault Machine Unit}
    (hm : m.Clean) (hq : Loop isOpen q m r) :
    (∃ m', r = .ok () m' ∧ Loop isOpen p m (.ok () m')) ∨ Leaves (Loop isOpen p) m := by
  induction hq with
  | @fault m n e hhead =>
      cases hi : m.index? m.dp with
      | some i =>
          rw [isOpen_eq_ok hi] at hhead
          cases hhead
      | none => exact Or.inr ⟨_, _, _, .fault (isOpen_eq_error hi)⟩
  | leave hhead => exact Or.inl ⟨_, rfl, .leave hhead⟩
  | stop hhead hbody =>
      cases isOpen_state hhead
      rcases h.back hm hbody with ⟨m₁, hr, _⟩ | ⟨pos, length, n, hp⟩
      · cases hr
      · exact Or.inr ⟨pos, length, n, .stop hhead hp⟩
  -- A body that leaves the tape does so in the same turn; else the next turn starts as here.
  | turn hhead hbody _ ih =>
      cases isOpen_state hhead
      rcases h.back hm hbody with ⟨m₁, hr, hp⟩ | ⟨pos, length, n, hp⟩
      · cases hr
        rcases ih (h.forth hm hp).2 with ⟨m', rfl, hrest⟩ | ⟨pos, length, n, hrest⟩
        · exact Or.inl ⟨m', rfl, .turn hhead hp hrest⟩
        · exact Or.inr ⟨pos, length, n, .turn hhead hp hrest⟩
      · exact Or.inr ⟨pos, length, n, .stop hhead hp⟩

theorem loop (h : Folds p q) : Folds (Loop isOpen p) (Loop isOpen q) :=
  ⟨h.loop_forth, h.loop_back⟩

/-- Effects that come to an end from every clean machine are compared there. -/
theorem of_total (hp : Single p) (hq : Single q)
    (h : ∀ m : Machine, m.Clean →
      (∃ m' : Machine, p m (.ok () m') ∧ q m (.ok () m') ∧ m'.Clean) ∨ Leaves p m) :
    Folds p q where
  forth {m m'} hm hr := by
    rcases h m hm with ⟨m₁, hp₁, hq₁, hm₁⟩ | ⟨pos, length, n, hn⟩
    · cases hp hr hp₁
      exact ⟨hq₁, hm₁⟩
    · cases hp hr hn
  back {m r} hm hr := by
    rcases h m hm with ⟨m₁, hp₁, hq₁, _⟩ | hleaves
    · cases hq hr hq₁
      exact Or.inl ⟨m₁, rfl, hp₁⟩
    · exact Or.inr hleaves

end Folds

/-! ## Lumps and runs -/

namespace Packed

def Lump.effects (ls : List Lump) : Effect Fault Machine :=
  ls.foldr (fun l p => Seq (act (doLump l)) p) skip

def Folded.quiet (f : Folded) : Effect Fault Machine := f.effect isOpen doLump

theorem Lump.effects_append (ls ls' : List Lump) :
    effects (ls ++ ls') = Seq (effects ls) (effects ls') := by
  induction ls with
  | nil => exact (skip_seq _).symm
  | cons l ls ih =>
      show Seq (act (doLump l)) (effects (ls ++ ls')) = _
      rw [ih, ← seq_assoc]
      rfl

theorem Folded.quiet_before (ls : List Lump) (f : Folded) :
    (before ls f).quiet = Seq (Lump.effects ls) f.quiet := by
  induction ls with
  | nil => exact (skip_seq _).symm
  | cons l ls ih =>
      show Seq (act (doLump l)) (before ls f).quiet = _
      rw [ih, ← seq_assoc]
      rfl

theorem Lump.single_effects (ls : List Lump) : Single (effects ls) := by
  induction ls with
  | nil => exact single_skip
  | cons l ls ih => exact single_seq (single_act _) ih

theorem Folded.single_quiet (f : Folded) : Single f.quiet := by
  induction f with
  | nil => exact single_skip
  | lump l rest ih => exact single_seq (single_act _) ih
  | loop body rest ihb ihr => exact single_seq (single_loop ihb) ihr

/-- A settled run and what is left of it do what the run does. -/
theorem Pending.effects_settled (p : Pending) :
    Seq (Lump.effects p.settled.1) (Lump.effects p.settled.2.lumps) = Lump.effects p.lumps := by
  cases p with
  | none => exact skip_seq _
  | adding n | shifting n =>
      simp only [settled]
      split
      · exact skip_seq _
      · exact seq_skip _

theorem doLump_add {m : Machine} {i : Nat} (n : Int64) (hi : m.index? m.dp = some i) :
    doLump (.add n) m = .ok () (m.set i (m.width.cut (m.get i + n.toUInt64))) := by
  rw [doLump, bind_of_ok (locate_here hi)]
  rfl

theorem doLump_add_error {m : Machine} (n : Int64) (hi : m.index? m.dp = none) :
    doLump (.add n) m = .error (.outOfBounds m.dp m.tape.size) m := by
  rw [doLump, bind_of_error (locate_here_error hi)]

theorem doLump_clear {m : Machine} {i : Nat} (hi : m.index? m.dp = some i) :
    doLump .clear m = .ok () (m.set i 0) := by
  rw [doLump, bind_of_ok (locate_here hi)]
  rfl

theorem doLump_clear_error {m : Machine} (hi : m.index? m.dp = none) :
    doLump .clear m = .error (.outOfBounds m.dp m.tape.size) m := by
  rw [doLump, bind_of_error (locate_here_error hi)]

/-- A run of additions on a cell, also if it cancels out. -/
theorem effects_adding {m : Machine} {i : Nat} (hm : m.Masked) (n : Int64)
    (hi : m.index? m.dp = some i) :
    Lump.effects (Pending.adding n).lumps m
      (.ok () (m.set i (m.width.cut (m.get i + n.toUInt64)))) := by
  simp only [Pending.lumps]
  split
  · rename_i h0
    have hadd : m.get i + (0 : Int64).toUInt64 = m.get i := UInt64.add_zero _
    rw [h0, hadd, Width.cut_eq_self (hm.fits i), set_get]
    rfl
  · exact .step (act_ok (doLump_add n hi)) rfl

theorem effects_shifting (m : Machine) (n : Int64) :
    Lump.effects (Pending.shifting n).lumps m (.ok () (m.moved n)) := by
  simp only [Pending.lumps]
  split
  · rename_i h0
    rw [h0, moved_zero]
    rfl
  · exact .step (act_ok (a := doLump (.shift n)) rfl) rfl

/-! ## A symbol more -/

structure Adds (s : Plain) (d : Int64) : Prop where
  plain : s ≠ .right ∧ s ≠ .left
  ok {m : Machine} {i : Nat} : m.index? m.dp = some i →
    doSymbol s.symbol m = .ok () (m.set i (m.width.cut (m.get i + d.toUInt64)))

theorem adds_inc : Adds .inc 1 := ⟨by decide, doSymbol_inc⟩

theorem adds_dec : Adds .dec (-1) := by
  refine ⟨by decide, fun {m i} hi => ?_⟩
  have h : m.get i + (-1 : Int64).toUInt64 = m.get i - 1 := by
    rw [Int64.toUInt64_neg]
    exact (UInt64.sub_eq_add_neg _ _).symm
  rw [h]
  exact doSymbol_dec hi

/-- Two additions to a cell are one. -/
theorem Adds.again {s : Plain} {d : Int64} (hs : Adds s d) (n : Int64) {m : Machine} {i : Nat}
    (hi : m.index? m.dp = some i) :
    doSymbol s.symbol (m.set i (m.width.cut (m.get i + n.toUInt64))) =
      .ok () (m.set i (m.width.cut (m.get i + (n + d).toUInt64))) := by
  have hlt := (index?_eq_some_iff.1 hi).2
  have hsym := hs.ok (m := m.set i (m.width.cut (m.get i + n.toUInt64))) (i := i)
    (by simpa using hi)
  rwa [get_set_self m _ hlt, set_set, width_set, Width.cut_cut_add, UInt64.add_assoc,
    ← Int64.toUInt64_add] at hsym

theorem folds_adding {s : Plain} {d : Int64} (hs : Adds s d) (n : Int64) :
    Folds (Seq (Lump.effects (Pending.adding n).lumps) (act (doSymbol s.symbol)))
      (Lump.effects (Pending.adding (n + d)).lumps) := by
  refine .of_total (single_seq (Lump.single_effects _) (single_act _)) (Lump.single_effects _) ?_
  intro m hm
  cases hi : m.index? m.dp with
  | some i =>
      exact Or.inl ⟨_, .step (effects_adding hm.masked n hi) (act_ok (hs.again n hi)),
        effects_adding hm.masked (n + d) hi, kept_clean.set i hm (Width.fits_cut _ _)⟩
  | none =>
      have herr := doSymbol_error hs.plain.1 hs.plain.2 hi
      refine Or.inr ⟨m.dp, m.tape.size, m, ?_⟩
      simp only [Pending.lumps]
      split
      · exact .step rfl (act_error herr)
      · exact .stop (.stop (act_error (doLump_add_error n hi)))

/-- A symbol that moves the data pointer. -/
def Shifts (s : Plain) (d : Int64) : Prop := doSymbol s.symbol = Action.shift d

/-- Two moves of the data pointer are one. -/
theorem Shifts.again {s : Plain} {d : Int64} (hs : Shifts s d) (n : Int64) (m : Machine) :
    doSymbol s.symbol (m.moved n) = .ok () (m.moved (n + d)) := by
  rw [hs, ← moved_moved]
  rfl

theorem folds_shifting {s : Plain} {d : Int64} (hs : Shifts s d) (n : Int64) :
    Folds (Seq (Lump.effects (Pending.shifting n).lumps) (act (doSymbol s.symbol)))
      (Lump.effects (Pending.shifting (n + d)).lumps) := by
  refine .of_total (single_seq (Lump.single_effects _) (single_act _)) (Lump.single_effects _) ?_
  intro m hm
  exact Or.inl ⟨_, .step (effects_shifting m n) (act_ok (hs.again n m)),
    effects_shifting m (n + d), kept_clean.moved _ hm⟩

/-- From a clean machine a symbol is done, or is off the tape. -/
theorem doSymbol_of_clean (s : Plain) {m : Machine} (hm : m.Clean) :
    (∃ m', doSymbol s.symbol m = .ok () m') ∨
      ∃ pos length, doSymbol s.symbol m = .error (.outOfBounds pos length) m := by
  by_cases hs : s = .right ∨ s = .left
  · rcases hs with rfl | rfl
    · exact Or.inl ⟨_, rfl⟩
    · exact Or.inl ⟨_, rfl⟩
  · rw [not_or] at hs
    cases hi : m.index? m.dp with
    | none => exact Or.inr ⟨_, _, doSymbol_error hs.1 hs.2 hi⟩
    | some i =>
        cases s with
        | right => exact absurd rfl hs.1
        | left => exact absurd rfl hs.2
        | inc => exact Or.inl ⟨_, doSymbol_inc hi⟩
        | dec => exact Or.inl ⟨_, doSymbol_dec hi⟩
        | out => exact Or.inl ⟨_, doSymbol_out hi hm.reliable⟩
        | inp =>
            obtain ⟨m', hb, _, _⟩ := readByte_of_clean hm
            refine Or.inl ⟨m'.set i (m.unread.headD 0).toUInt64, ?_⟩
            rw [Plain.symbol, doSymbol, bind_of_ok (locate_here hi), bind_of_ok hb]
            rfl

theorem folds_symbol (s : Plain) : Folds (act (doSymbol s.symbol)) (act (doSymbol s.symbol)) := by
  refine .of_total (single_act _) (single_act _) fun m hm => ?_
  rcases doSymbol_of_clean s hm with ⟨m', hs⟩ | ⟨pos, length, hs⟩
  · exact Or.inl ⟨m', act_ok hs, act_ok hs, kept_clean.doSymbol hm hs⟩
  · exact Or.inr ⟨pos, length, m, act_error hs⟩

/-- From a clean machine a lump is done, or is off the tape. -/
theorem doLump_of_clean (l : Lump) {m : Machine} (hm : m.Clean) :
    (∃ m', doLump l m = .ok () m' ∧ m'.Clean) ∨
      ∃ pos length, doLump l m = .error (.outOfBounds pos length) m := by
  have hsymbol : ∀ s : Plain, (∃ m', doSymbol s.symbol m = .ok () m' ∧ m'.Clean) ∨
      ∃ pos length, doSymbol s.symbol m = .error (.outOfBounds pos length) m := by
    intro s
    rcases doSymbol_of_clean s hm with ⟨m', hs⟩ | herr
    · exact Or.inl ⟨m', hs, kept_clean.doSymbol hm hs⟩
    · exact Or.inr herr
  cases l with
  | out => exact hsymbol .out
  | inp => exact hsymbol .inp
  | shift n => exact Or.inl ⟨_, rfl, kept_clean.moved n hm⟩
  | add n =>
      cases hi : m.index? m.dp with
      | some i => exact Or.inl ⟨_, doLump_add n hi, kept_clean.set i hm (Width.fits_cut _ _)⟩
      | none => exact Or.inr ⟨_, _, doLump_add_error n hi⟩
  | clear =>
      cases hi : m.index? m.dp with
      | some i => exact Or.inl ⟨_, doLump_clear hi, kept_clean.set i hm (Width.fits_zero _)⟩
      | none => exact Or.inr ⟨_, _, doLump_clear_error hi⟩

theorem folds_lump (l : Lump) : Folds (act (doLump l)) (act (doLump l)) := by
  refine .of_total (single_act _) (single_act _) fun m hm => ?_
  rcases doLump_of_clean l hm with ⟨m', hl, hm'⟩ | ⟨pos, length, hl⟩
  · exact Or.inl ⟨m', act_ok hl, act_ok hl, hm'⟩
  · exact Or.inr ⟨pos, length, m, act_error hl⟩

theorem folds_lumps (ls : List Lump) : Folds (Lump.effects ls) (Lump.effects ls) := by
  induction ls with
  | nil => exact .skip
  | cons l ls ih => exact (folds_lump l).seq ih

theorem folds_clear {body : Block} (h : IsClear body) :
    Folds (Loop isOpen body.quiet) (act (doLump .clear)) := by
  refine .of_total (single_loop body.single_quiet) (single_act _) fun m hm => ?_
  cases hi : m.index? m.dp with
  | none => exact Or.inr ⟨_, _, _, .fault (isOpen_eq_error hi)⟩
  | some i =>
      refine Or.inl ⟨m.set i 0, ?_, act_ok (doLump_clear hi),
        kept_clean.set i hm (Width.fits_zero _)⟩
      obtain rfl | rfl := h
      · exact Block.quiet_loop_zero hi hm.masked
      · exact Block.quiet_loop_wrap hi hm.masked

/-! ## Texts -/

/-- A symbol that is a run of one. -/
inductive Runs (s : Plain) : Pending → Prop
  | adding {d : Int64} : Adds s d → Runs s (.adding d)
  | shifting {d : Int64} : Shifts s d → Runs s (.shifting d)

theorem Runs.folds {s : Plain} {q : Pending} (h : Runs s q) :
    Folds (act (doSymbol s.symbol)) (Lump.effects q.lumps) := by
  cases h with
  | adding hs =>
      have h0 := folds_adding hs 0
      rwa [Int64.zero_add, Pending.lumps, if_pos rfl, Lump.effects, List.foldr, skip_seq] at h0
  | shifting hs =>
      have h0 := folds_shifting hs 0
      rwa [Int64.zero_add, Pending.lumps, if_pos rfl, Lump.effects, List.foldr, skip_seq] at h0

/-- A run goes on with a symbol of its kind, or ends before it. -/
theorem folds_join (p : Pending) {s : Plain} {q : Pending} (h : Runs s q) :
    Folds (Seq (Lump.effects p.lumps) (act (doSymbol s.symbol)))
      (Seq (Lump.effects (p.join q).1) (Lump.effects (p.join q).2.lumps)) := by
  -- Where the symbol is of another kind, the run ends and one of its own starts.
  have hend : Folds (Seq (Lump.effects p.lumps) (act (doSymbol s.symbol)))
      (Seq (Lump.effects (p.lumps ++ q.settled.1)) (Lump.effects q.settled.2.lumps)) := by
    rw [Lump.effects_append, seq_assoc, Pending.effects_settled]
    exact (folds_lumps _).seq h.folds
  cases h with
  | adding hs =>
      cases p with
      | adding n =>
          rw [Pending.join, Pending.effects_settled]
          exact folds_adding hs n
      | none | shifting n => exact hend
  | shifting hs =>
      cases p with
      | shifting n =>
          rw [Pending.join, Pending.effects_settled]
          exact folds_shifting hs n
      | none | adding n => exact hend

theorem folds_take (p : Pending) (s : Plain) :
    Folds (Seq (Lump.effects p.lumps) (act (doSymbol s.symbol)))
      (Seq (Lump.effects (p.take s).1) (Lump.effects (p.take s).2.lumps)) := by
  cases s with
  | inc => exact folds_join p (.adding adds_inc)
  | dec => exact folds_join p (.adding adds_dec)
  | right => exact folds_join p (.shifting rfl)
  | left => exact folds_join p (.shifting rfl)
  | out =>
      rw [Pending.take, Lump.effects_append, Pending.lumps, seq_assoc]
      show Folds _ (Seq _ (Seq (Seq (act (doLump .out)) skip) skip))
      rw [seq_skip, seq_skip]
      exact (folds_lumps _).seq (folds_symbol .out)
  | inp =>
      rw [Pending.take, Lump.effects_append, Pending.lumps, seq_assoc]
      show Folds _ (Seq _ (Seq (Seq (act (doLump .inp)) skip) skip))
      rw [seq_skip, seq_skip]
      exact (folds_lumps _).seq (folds_symbol .inp)

theorem folds_block (b : Block) : Folds b.quiet b.quiet := by
  induction b with
  | nil => exact .skip
  | plain s rest ih =>
      rw [Block.quiet, Block.effect, pure_bind]
      exact (folds_symbol s).seq ih
  | loop body rest ihb ihr =>
      rw [Block.quiet, Block.effect, pure_bind]
      exact ihb.loop.seq ihr

/-- A run and then a block do what the block folded with the run does. -/
theorem folds_fold (p : Pending) (b : Block) :
    Folds (Seq (Lump.effects p.lumps) b.quiet) (fold p b).quiet := by
  induction b generalizing p with
  | nil =>
      rw [fold, Folded.quiet_before]
      exact (folds_lumps _).seq .skip
  | plain s rest ih =>
      rw [fold, Folded.quiet_before, Block.quiet, Block.effect, pure_bind, ← seq_assoc]
      refine ((folds_take p s).seq (folds_block rest)).trans ?_
      rw [seq_assoc]
      exact (folds_lumps _).seq (ih _)
  | loop body rest ihb ihr =>
      -- A loop is entered and left without a run under way.
      have hbody := ihb .none
      have hrest := ihr .none
      rw [Pending.lumps, Lump.effects, List.foldr, skip_seq] at hbody hrest
      rw [fold, Folded.quiet_before, Block.quiet, Block.effect, pure_bind]
      refine (folds_lumps _).seq ?_
      split
      -- A loop that only counts down or up is one lump.
      · rename_i hclear
        exact (folds_clear hclear).seq hrest
      · exact hbody.loop.seq hrest

end Packed

end TapeForge

import Mathlib.Data.List.Forall2
import TapeForge.Proofs.Semantics

/-!
# Two machines side by side

Two machines do the same work, each on its own tape. A relation between them that the elementary
actions keep is kept by every op and every symbol. The cells they touch may stand at different
indices, and at some faults the first machine stops while the second goes on.
-/

namespace TapeForge

/-- The faults of a check: a cell is off the tape, or it is not zero. -/
def Fault.Refuses : Fault → Prop
  | outOfBounds _ _ => True
  | precondition _ _ _ => True
  | _ => False

/-- Whether an op emits as soon as it is run. -/
def Op.writes : Op → Bool
  | write => true
  | writeS _ => true
  | _ => false

namespace Machine

open TapeForge.Machine.Action TapeForge.Effect

/-! ## A step and its work -/

def faultOf {α : Type} : EStateM.Result Fault Machine α → Option Fault
  | .ok _ _ => none
  | .error e _ => some e

def machineOf {α : Type} : EStateM.Result Fault Machine α → Machine
  | .ok _ m => m
  | .error _ m => m

def Task.work : Task → Action (List Task)
  | op o => perform o
  | again body => loopHead body
  | emitting code char left => do
    bump left (← cellMask)
    let v ← peek char
    emit [v.toUInt8]
    emitHead code char left

theorem doTask_eq (t : Task) : doTask t = tick >>= fun _ => t.work := by
  cases t <;> rfl

def symbolWork (s : Symbol) (jump : Option Nat) (index : Nat) : Action Nat := do
  doSymbol s
  afterSymbol s jump index

theorem stepSymbol_eq (s : Symbol) (jump : Option Nat) (index : Nat) :
    stepSymbol s jump index = tick >>= fun _ => symbolWork s jump index := rfl

def Task.writes : Task → Bool
  | op o => o.writes
  | again _ => false
  | emitting _ _ _ => true

/-! ## Checks -/

/-- Checks that are made in checked mode only. -/
def checking (checks : Action Unit) : Action Unit := do
  if ← isChecked then checks

/-- An action that only looks, and may refuse. -/
def Probe (c : Action Unit) : Prop :=
  ∀ m, c m = .ok () m ∨ ∃ e : Fault, e.Refuses ∧ c m = .error e m

theorem probe_expectZero (o : Op) (offset : Offset) : Probe (expectZero o offset) := by
  intro m
  cases hi : m.index? (m.dp + offset) with
  | none =>
      have hl : locate offset m = .error (.outOfBounds (m.dp + offset) m.tape.size) m := by
        simp only [locate, hi]
      exact .inr ⟨.outOfBounds (m.dp + offset) m.tape.size, trivial, by
        rw [expectZero, bind_of_error hl]⟩
  | some i =>
      have hl : locate offset m = .ok i m := by simp only [locate, hi]
      have hp : peek i m = .ok (m.tape.getD i 0) m := rfl
      rw [expectZero, bind_of_ok hl, bind_of_ok hp]
      by_cases hv : m.tape.getD i 0 ≠ 0
      · exact .inr ⟨.precondition o.label offset (m.tape.getD i 0), trivial,
          congrFun (if_pos hv) m⟩
      · exact .inl (congrFun (if_neg hv) m)

theorem Probe.then {c d : Action Unit} (hc : Probe c) (hd : Probe d) :
    Probe (c >>= fun _ => d) := by
  intro m
  rcases hc m with hm | ⟨e, he, hm⟩
  · rw [bind_of_ok hm]
    exact hd m
  · exact .inr ⟨e, he, by rw [bind_of_error hm]⟩

theorem probe_expectZeros (o : Op) (offsets : List Offset) : Probe (expectZeros o offsets) := by
  induction offsets with
  | nil => exact fun _ => .inl rfl
  | cons offset rest ih => exact (probe_expectZero o offset).then ih

theorem checking_of_checked {m : Machine} (h : m.checked = true) (c : Action Unit) :
    checking c m = c m := by
  have hm : isChecked m = .ok true m := congrArg (EStateM.Result.ok · m) h
  rw [checking, bind_of_ok hm]
  rfl

theorem checking_of_unchecked {m : Machine} (h : m.checked = false) (c : Action Unit) :
    checking c m = .ok () m := by
  have hm : isChecked m = .ok false m := congrArg (EStateM.Result.ok · m) h
  rw [checking, bind_of_ok hm]
  rfl

theorem Probe.checking {c : Action Unit} (h : Probe c) : Probe (checking c) := by
  intro m
  cases hm : m.checked with
  | true =>
      rw [checking_of_checked hm]
      exact h m
  | false => exact .inl (checking_of_unchecked hm c)

/-- What is done after the checks is done in both modes. -/
theorem checking_bind {α : Type} (c : Action Unit) (a : Action α) :
    (checking c >>= fun _ => a) = isChecked >>= fun b => if b then c >>= fun _ => a else a := by
  rw [checking, bind_assoc]
  congr
  funext b
  cases b
  · rfl
  · rfl

theorem doCopy_eq_checking (o : Op) (src tmp dest : Offset) :
    doCopy o src tmp dest =
      checking (expectZero o tmp >>= fun _ => expectZero o dest) >>= fun _ =>
        copyCells src tmp dest := by
  rw [doCopy_eq, checking_bind]
  simp only [bind_assoc]

/-- The check of a text to be emitted: the cell that its bytes are added to must be zero. -/
def expectNothing (o : Op) (v : UInt64) : Action Unit :=
  if v ≠ 0 then throw (.precondition o.label 0 v) else pure ()

theorem probe_expectNothing (o : Op) (v : UInt64) : Probe (expectNothing o v) := by
  intro m
  unfold expectNothing
  split
  · exact .inr ⟨.precondition o.label 0 v, trivial, rfl⟩
  · exact .inl rfl

theorem doWriteS_eq_checking (o : Op) (text : Bytes) :
    doWriteS o text =
      if text ≠ [] then
        locate 0 >>= fun i => peek i >>= fun v => checking (expectNothing o v) >>= fun _ =>
          emit (text.map fun b => (v + byteCell b).toUInt8)
      else pure () := by
  unfold doWriteS
  split
  · congr
    funext i
    congr
    funext v
    rw [checking_bind]
    congr
    funext b
    cases b
    · rfl
    · by_cases hv : v ≠ 0
      · simp [expectNothing, hv]
      · simp [expectNothing, hv]
  · rfl

theorem perform_assertZero (offsets : List Offset) :
    perform (.assertZero offsets) =
      checking (expectZeros (.assertZero offsets) offsets) >>= fun _ => pure [] := by
  rw [checking_bind]
  rfl

/-! ## Bonds -/

/-- What two machines side by side have in common: how their states are related, which indices
are the same cell, the faults with which both fail, and the faults, with the state in which it
stops, at which only the first needs to fail. -/
structure Bond where
  rel : Machine → Machine → Prop
  cell : Nat → Nat → Prop
  shared : Fault → Prop
  parts : Fault → Machine → Prop

namespace Bond

/-- Results of two machines side by side. -/
inductive Ends (B : Bond) {α β : Type} (V : α → β → Prop) :
    EStateM.Result Fault Machine α → EStateM.Result Fault Machine β → Prop
  | ok {x : α} {y : β} {m n : Machine} : V x y → B.rel m n → Ends B V (.ok x m) (.ok y n)
  | error {e : Fault} {m n : Machine} : B.shared e → B.rel m n →
      Ends B V (.error e m) (.error e n)
  | parted {e : Fault} {m : Machine} {r : EStateM.Result Fault Machine β} : B.parts e m →
      Ends B V (.error e m) r

/-- Two actions that keep machines side by side and give values related by `V`. -/
def Pairs (B : Bond) {α β : Type} (V : α → β → Prop) (a : Action α) (b : Action β) : Prop :=
  ∀ ⦃m n : Machine⦄, B.rel m n → B.Ends V (a m) (b n)

/-- A fault that the bond has a place for. -/
def Admits (B : Bond) (e : Fault) : Prop := B.shared e ∨ ∀ m n, B.rel m n → B.parts e m

section Rules

variable {B : Bond} {α β γ δ : Type} {V : α → β → Prop} {W : γ → δ → Prop}

theorem Pairs.pure {x : α} {y : β} (h : V x y) :
    B.Pairs V (pure x : Action α) (pure y : Action β) :=
  fun _ _ hR => .ok h hR

theorem Admits.ends {e : Fault} (h : B.Admits e) {m n : Machine} (hR : B.rel m n) :
    B.Ends V (.error e m) (.error e n) := by
  rcases h with hs | hp
  · exact .error hs hR
  · exact .parted (hp m n hR)

theorem Pairs.throw {e : Fault} (h : B.Admits e) :
    B.Pairs V (throw e : Action α) (throw e : Action β) :=
  fun _ _ hR => h.ends hR

theorem Pairs.bind {a : Action α} {b : Action β} {k : α → Action γ} {l : β → Action δ}
    (h : B.Pairs V a b) (hk : ∀ x y, V x y → B.Pairs W (k x) (l y)) :
    B.Pairs W (a >>= k) (b >>= l) := by
  intro m n hR
  have hr := h hR
  show B.Ends W (EStateM.bind a k m) (EStateM.bind b l n)
  unfold EStateM.bind
  generalize a m = ra at hr ⊢
  generalize b n = rb at hr ⊢
  cases hr with
  | ok hV hR' => exact hk _ _ hV hR'
  | error hs hR' => exact .error hs hR'
  | parted hp => exact .parted hp

/-- The value of the first action is the value of the second. -/
theorem Pairs.then {a b : Action α} {k : α → Action γ} {l : α → Action δ} (h : B.Pairs Eq a b)
    (hk : ∀ x, B.Pairs W (k x) (l x)) : B.Pairs W (a >>= k) (b >>= l) :=
  h.bind fun x _ hxy => hxy ▸ hk x

theorem Pairs.ite {a a' : Action α} {b b' : Action β} (c : Prop) [Decidable c]
    (h : B.Pairs V a b) (h' : B.Pairs V a' b') :
    B.Pairs V (if c then a else a') (if c then b else b') := by
  split
  · exact h
  · exact h'

theorem Pairs.mono {V' : α → β → Prop} {a : Action α} {b : Action β} (h : B.Pairs V a b)
    (hV : ∀ x y, V x y → V' x y) : B.Pairs V' a b := by
  intro m n hR
  have hr := h hR
  generalize a m = ra at hr ⊢
  generalize b n = rb at hr ⊢
  cases hr with
  | ok hxy hR' => exact .ok (hV _ _ hxy) hR'
  | error hs hR' => exact .error hs hR'
  | parted hp => exact .parted hp

end Rules

/-- Tasks that are the same but for the indices of their cells. -/
inductive SameTask (B : Bond) : Task → Task → Prop
  | op (o : Op) : SameTask B (.op o) (.op o)
  | again (body : List Op) : SameTask B (.again body) (.again body)
  | emitting (code : UInt8) {char char' left left' : Nat} : B.cell char char' →
      B.cell left left' → SameTask B (.emitting code char left) (.emitting code char' left')

abbrev SameTasks (B : Bond) : List Task → List Task → Prop := List.Forall₂ B.SameTask

theorem eq_of_sameTask {B : Bond} (hcell : ∀ i j, B.cell i j → i = j) {t u : Task}
    (h : B.SameTask t u) : t = u := by
  cases h with
  | op o => rfl
  | again body => rfl
  | emitting code hc hl => rw [hcell _ _ hc, hcell _ _ hl]

/-- The elementary actions other than counting, reading, emitting and checking keep the machines
side by side. Cells are set to bytes only. -/
structure Bare (B : Bond) : Prop where
  locate (o : Offset) : B.Pairs B.cell (locate o) (locate o)
  peek {i j : Nat} : B.cell i j → B.Pairs Eq (peek i) (peek j)
  poke {i j : Nat} (b : UInt8) : B.cell i j →
    B.Pairs Eq (poke i (byteCell b)) (poke j (byteCell b))
  bump {i j : Nat} (v : UInt64) : B.cell i j → B.Pairs Eq (bump i v) (bump j v)
  shift (n : Int64) : B.Pairs Eq (shift n) (shift n)
  mask : B.Pairs Eq cellMask cellMask
  admits {e : Fault} : e ≠ .stepLimit → e ≠ .writeFailed → B.Admits e

/-- Emitting and checking keep the machines side by side as well. -/
structure Firm (B : Bond) : Prop extends B.Bare where
  emit (bs : Bytes) : B.Pairs Eq (emit bs) (emit bs)
  checked : B.Pairs Eq isChecked isChecked

/-- Checks keep the machines side by side, whether they are made or not. -/
def Checks (B : Bond) : Prop :=
  ∀ ⦃c : Action Unit⦄, Probe c → B.Pairs Eq c c → B.Pairs Eq (checking c) (checking c)

theorem checks_of_checked {B : Bond} (h : B.Pairs Eq isChecked isChecked) : B.Checks := by
  intro c _ hc
  exact h.then fun _ => .ite _ hc (.pure rfl)

namespace Bare

variable {B : Bond} (h : B.Bare)

include h

theorem isOpen : B.Pairs Eq isOpen isOpen :=
  (h.locate 0).bind fun _ _ hi => (h.peek hi).then fun _ => .pure rfl

theorem expectZero (o : Op) (offset : Offset) :
    B.Pairs Eq (expectZero o offset) (expectZero o offset) :=
  (h.locate offset).bind fun _ _ hi => (h.peek hi).then fun _ =>
    .ite _ (.throw (h.admits (by simp) (by simp))) (.pure rfl)

theorem expectZeros (o : Op) (offsets : List Offset) :
    B.Pairs Eq (expectZeros o offsets) (expectZeros o offsets) := by
  induction offsets with
  | nil => exact .pure rfl
  | cons offset rest ih => exact (h.expectZero o offset).then fun _ => ih

theorem expectNothing (o : Op) (v : UInt64) :
    B.Pairs Eq (expectNothing o v) (expectNothing o v) :=
  .ite _ (.throw (h.admits (by simp) (by simp))) (.pure rfl)

theorem clear {i j : Nat} (hi : B.cell i j) :
    B.Pairs Eq (Action.poke i 0) (Action.poke j 0) :=
  h.poke 0 hi

theorem doMove (src dest : Offset) : B.Pairs Eq (doMove src dest) (doMove src dest) := by
  refine (h.locate src).bind fun _ _ hs => (h.peek hs).then fun v => .ite _ ?_ (.pure rfl)
  exact (h.locate dest).bind fun _ _ hd => (h.bump v hd).then fun _ => h.clear hs

theorem copyCells (src tmp dest : Offset) :
    B.Pairs Eq (copyCells src tmp dest) (copyCells src tmp dest) := by
  refine (h.locate src).bind fun _ _ hs => (h.peek hs).then fun v =>
    .ite _ ?_ (h.doMove tmp src)
  refine (h.locate tmp).bind fun _ _ ht => (h.locate dest).bind fun _ _ hd => ?_
  exact (h.bump v ht).then fun _ => (h.bump v hd).then fun _ => (h.clear hs).then fun _ =>
    h.doMove tmp src

theorem loopHead (body : List Op) : B.Pairs B.SameTasks (loopHead body) (loopHead body) := by
  refine (h.locate 0).bind fun _ _ hi => (h.peek hi).then fun v => .pure ?_
  split
  · exact .nil
  · refine List.rel_append ?_ (.cons (.again body) .nil)
    exact List.forall₂_map_left_iff.2 (List.forall₂_map_right_iff.2
      (List.forall₂_same.2 fun o _ => .op o))

theorem emitHead (code : UInt8) {char char' left left' : Nat} (hc : B.cell char char')
    (hl : B.cell left left') :
    B.Pairs B.SameTasks (emitHead code char left) (emitHead code char' left') :=
  (h.peek hl).then fun _ => .ite _ ((h.bump _ hc).then fun _ => .pure .nil)
    (.pure (.cons (.emitting code hc hl) .nil))

section Checked

variable (hchecks : B.Checks)

include hchecks

theorem doCopy (o : Op) (src tmp dest : Offset) :
    B.Pairs Eq (doCopy o src tmp dest) (doCopy o src tmp dest) := by
  have hprobe := (probe_expectZero o tmp).then (probe_expectZero o dest)
  rw [doCopy_eq_checking]
  exact (hchecks hprobe ((h.expectZero o tmp).then fun _ => h.expectZero o dest)).then fun _ =>
    h.copyCells src tmp dest

theorem doWriteS (hemit : ∀ bs, B.Pairs Eq (emit bs) (emit bs)) (o : Op) (text : Bytes) :
    B.Pairs Eq (doWriteS o text) (doWriteS o text) := by
  rw [doWriteS_eq_checking]
  refine .ite _ ((h.locate 0).bind fun _ _ hi => (h.peek hi).then fun v => ?_) (.pure rfl)
  exact (hchecks (probe_expectNothing o v) (h.expectNothing o v)).then fun _ => hemit _

/-- The work of an op. Only a read looks at the input, and only some ops emit. -/
theorem perform (o : Op) (hread : o = .read → B.Pairs Eq readByte readByte)
    (hemit : o.writes = true → ∀ bs, B.Pairs Eq (emit bs) (emit bs)) :
    B.Pairs B.SameTasks (perform o) (perform o) := by
  cases o with
  | add n => exact (h.locate 0).bind fun _ _ hi => (h.bump _ hi).then fun _ => .pure .nil
  | shift n => exact (h.shift n).then fun _ => .pure .nil
  | move src dest => exact (h.doMove src dest).then fun _ => .pure .nil
  | zero => exact (h.locate 0).bind fun _ _ hi => (h.clear hi).then fun _ => .pure .nil
  | copy src tmp dest => exact (h.doCopy hchecks _ src tmp dest).then fun _ => .pure .nil
  | loop body => exact h.loopHead body
  | read =>
      exact (h.locate 0).bind fun _ _ hi => (hread rfl).then fun b =>
        (h.poke b hi).then fun _ => .pure .nil
  | write =>
      exact (h.locate 0).bind fun _ _ hi => (h.peek hi).then fun _ =>
        (hemit rfl _).then fun _ => .pure .nil
  | writeN code count tmp1 tmp2 =>
      refine (h.doCopy hchecks _ count tmp1 tmp2).then fun _ =>
        (h.locate tmp1).bind fun _ _ hc => ?_
      exact (h.bump _ hc).then fun _ => (h.locate tmp2).bind fun _ _ hl => h.emitHead code hc hl
  | writeS text => exact (h.doWriteS hchecks (hemit rfl) _ text).then fun _ => .pure .nil
  | assertZero offsets =>
      rw [perform_assertZero]
      exact (hchecks (probe_expectZeros _ offsets) (h.expectZeros _ offsets)).then fun _ =>
        .pure .nil
  | undefined kind => exact .throw (h.admits (by simp) (by simp))

theorem work {t u : Task} (ht : B.SameTask t u)
    (hread : t = .op .read → B.Pairs Eq readByte readByte)
    (hemit : t.writes = true → ∀ bs, B.Pairs Eq (emit bs) (emit bs)) :
    B.Pairs B.SameTasks t.work u.work := by
  cases ht with
  | op o => exact h.perform hchecks o (fun ho => hread (congrArg Task.op ho)) hemit
  | again body => exact h.loopHead body
  | emitting code hc hl =>
      exact h.mask.then fun _ => (h.bump _ hl).then fun _ => (h.peek hc).then fun _ =>
        (hemit rfl _).then fun _ => h.emitHead code hc hl

end Checked

/-- The work of a symbol. Only `,` looks at the input, and only `.` emits. -/
theorem doSymbol (s : Symbol) (hread : s = .inp → B.Pairs Eq readByte readByte)
    (hemit : s = .out → ∀ bs, B.Pairs Eq (emit bs) (emit bs)) :
    B.Pairs Eq (doSymbol s) (doSymbol s) := by
  cases s with
  | right => exact h.shift 1
  | left => exact h.shift (-1)
  | inc => exact (h.locate 0).bind fun _ _ hi => h.bump 1 hi
  | dec => exact (h.locate 0).bind fun _ _ hi => h.mask.then fun v => h.bump v hi
  | out => exact (h.locate 0).bind fun _ _ hi => (h.peek hi).then fun _ => hemit rfl _
  | inp => exact (h.locate 0).bind fun _ _ hi => (hread rfl).then fun b => h.poke b hi
  | opening => exact .pure rfl
  | closing => exact .pure rfl

theorem afterSymbol (s : Symbol) (jump : Option Nat) (index : Nat) :
    B.Pairs Eq (afterSymbol s jump index) (afterSymbol s jump index) := by
  cases s with
  | opening => exact (h.locate 0).bind fun _ _ hi => (h.peek hi).then fun _ => .pure rfl
  | closing => exact (h.locate 0).bind fun _ _ hi => (h.peek hi).then fun _ => .pure rfl
  | _ => exact .pure rfl

theorem symbolWork (s : Symbol) (jump : Option Nat) (index : Nat)
    (hread : s = .inp → B.Pairs Eq readByte readByte)
    (hemit : s = .out → ∀ bs, B.Pairs Eq (emit bs) (emit bs)) :
    B.Pairs Eq (symbolWork s jump index) (symbolWork s jump index) :=
  (h.doSymbol s hread hemit).then fun _ => h.afterSymbol s jump index

end Bare

namespace Firm

variable {B : Bond} (h : B.Firm)

include h

theorem checks : B.Checks := checks_of_checked h.checked

theorem perform (o : Op) (hread : o = .read → B.Pairs Eq readByte readByte) :
    B.Pairs B.SameTasks (perform o) (perform o) :=
  h.toBare.perform h.checks o hread fun _ => h.emit

theorem doSymbol (s : Symbol) (hread : s = .inp → B.Pairs Eq readByte readByte) :
    B.Pairs Eq (doSymbol s) (doSymbol s) :=
  h.toBare.doSymbol s hread fun _ => h.emit

theorem work {t u : Task} (ht : B.SameTask t u)
    (hread : t = .op .read → B.Pairs Eq readByte readByte) :
    B.Pairs B.SameTasks t.work u.work :=
  h.toBare.work h.checks ht hread fun _ => h.emit

theorem symbolWork (s : Symbol) (jump : Option Nat) (index : Nat)
    (hread : s = .inp → B.Pairs Eq readByte readByte) :
    B.Pairs Eq (symbolWork s jump index) (symbolWork s jump index) :=
  h.toBare.symbolWork s jump index hread fun _ => h.emit

end Firm

end Bond

end Machine

end TapeForge

import TapeForge.Proofs.Abreast
import TapeForge.Proofs.QuietText

/-!
# The history of the input

What a machine is told and what it reads, over any number of calls and feedings, whether they
succeed or not. Each step is seen from outside, by the machine before and after it. The input is
what it was at first and then what was fed and what was pulled, in that order; nothing that the
live reader held is lost or read twice; and the reads that found a byte took the bytes of the
input one after the other.
-/

namespace TapeForge

/-! ## What is seen -/

/-- The steps of a run, each with the state before it, whether it succeeded, and the state after
it. -/
def trail {φ τ : Type} (step : τ → Stage φ τ) : Nat → τ → List (τ × Bool × τ)
  | 0, _ => []
  | n + 1, t =>
    match step t with
    | .next t' => (t, true, t') :: trail step n t'
    | .halt _ => []
    | .fail _ t' => [(t, false, t')]

namespace Reader

/-- Nothing is left, and reading says so. -/
def AtEnd (r : Reader) : Prop := r.pending = [] ∧ r.fails = false

/-- The bytes that a reader still holds, if there is one. -/
def held : Option Reader → Bytes
  | none => []
  | some r => r.pending

end Reader

namespace Machine

inductive Event where
  /-- Bytes are fed. -/
  | fed (chunk : Bytes)
  /-- A step that is a read, and whether it succeeds. -/
  | read (ok : Bool) (before after : Machine)
  /-- Any other step. -/
  | work (before after : Machine)

/-- The bytes that the input of one machine has and the input of an earlier one has not. -/
def growth (m n : Machine) : Bytes := n.input.toList.drop m.input.size

namespace Event

def ofStep (reads ok : Bool) (m n : Machine) : Event := if reads then .read ok m n else .work m n

def pulled : Event → Bytes
  | fed _ => []
  | read _ m n => growth m n
  | work m n => growth m n

def added : Event → Bytes
  | fed chunk => chunk
  | read _ m n => growth m n
  | work m n => growth m n

/-- The value stored by a read that moves the cursor. -/
def taken : Event → Option (Except Fault UInt64)
  | read _ m n => if n.cursor = m.cursor then none else some (n.cell n.dp)
  | _ => none

end Event

/-! ## The events of a call -/

def Task.reads : Task → Bool
  | .op .read => true
  | _ => false

def readsSymbol : Symbol → Bool
  | .inp => true
  | _ => false

def Direct.reads (d : Direct) : Bool :=
  match d.tasks with
  | [] => false
  | t :: _ => t.reads

def Walk.reads (code : Code) (w : Walk) : Bool :=
  match code.symbols[w.index]? with
  | none => false
  | some s => readsSymbol s

def opEvents (fuel : Nat) (o : Op) (m : Machine) : List Event :=
  (trail Direct.step fuel ⟨[.op o], m⟩).map fun (d, ok, d') =>
    .ofStep d.reads ok d.machine d'.machine

/-- The events of ops run in order, each up to the end of its run. -/
def eventsEach {φ : Type} (run : Op → Machine → Outcome φ Machine)
    (events : Op → Machine → List Event) : List Op → Machine → List Event
  | [], _ => []
  | o :: rest, m =>
    events o m ++
      match run o m with
      | .done m => eventsEach run events rest (m.note o)
      | _ => []

def codeEvents (fuel : Nat) (code : Code) (m : Machine) : List Event :=
  (trail (Walk.step code) fuel ⟨0, m⟩).map fun (w, ok, w') =>
    .ofStep (w.reads code) ok w.machine w'.machine

def textEvents (fuel : Nat) (src : Bytes) (m : Machine) : List Event :=
  match Code.compile src with
  | .error _ => []
  | .ok code => codeEvents fuel code m

def renderedEvents (fuel : Nat) (o : Op) (m : Machine) : List Event :=
  match Op.render [o] with
  | .error _ => []
  | .ok symbols => textEvents fuel (Symbol.text symbols) m

def Call.events (c : Call) (fuel : Nat) (m : Machine) : List Event :=
  match c with
  | direct ops => eventsEach (runOp fuel) (opEvents fuel) ops m
  | rendered ops => eventsEach (runRendered fuel) (renderedEvents fuel) ops m
  | text src => textEvents fuel src m

/-- What a machine is asked to do: a call, broken off after some number of steps if it has not
ended by then, or a feeding. -/
inductive Request where
  | call (c : Call) (fuel : Nat)
  | feed (chunk : Bytes)

namespace Request

def apply (q : Request) (m : Machine) : Machine :=
  match q with
  | call c fuel => (c.run fuel m).state
  | feed chunk => m.feed chunk

def events (q : Request) (m : Machine) : List Event :=
  match q with
  | call c fuel => c.events fuel m
  | feed chunk => [.fed chunk]

def applyAll : List Request → Machine → Machine
  | [], m => m
  | q :: rest, m => applyAll rest (q.apply m)

def eventsAll : List Request → Machine → List Event
  | [], _ => []
  | q :: rest, m => q.events m ++ eventsAll rest (q.apply m)

end Request

/-! ## Steps that are no reads -/

open TapeForge.Machine.Action TapeForge.Effect

def held (m : Machine) : Bytes := Reader.held m.live

/-- The bond of a machine with itself while nothing is read. -/
def unmoved (input : Array UInt8) (cursor : Nat) (live : Option Reader) : Bond :=
  .self (fun m => m.input = input ∧ m.cursor = cursor ∧ m.live = live) (fun _ => True)
    fun _ _ => False

/-- The input and its readers are as before. -/
structure Still (m n : Machine) : Prop where
  input : n.input = m.input
  cursor : n.cursor = m.cursor
  live : n.live = m.live

theorem firm_unmoved (input : Array UInt8) (cursor : Nat) (live : Option Reader) :
    (unmoved input cursor live).Firm :=
  Bond.firm_limits ⟨fun _ _ _ h => h, fun _ h => h, fun _ h => h⟩ fun _ _ => .inl trivial

theorem still_of_unmoved {α : Type} {work : Action α} (m : Machine)
    (h : ∀ input cursor live, (unmoved input cursor live).Pairs (fun _ _ => True) work work) :
    Still m (machineOf ((tick >>= fun _ => work) m)) := by
  have htick : (unmoved m.input m.cursor m.live).Pairs Eq tick tick :=
    Bond.pairs_tick rfl (fun _ _ h => h) (.inl trivial)
  have hrun := htick.then (fun _ => h m.input m.cursor m.live) (m := m) (n := m)
    ⟨rfl, rfl, rfl, rfl⟩
  generalize (tick >>= fun _ => work) m = r at hrun ⊢
  cases hrun with
  | ok _ hR => exact ⟨hR.2.1, hR.2.2.1, hR.2.2.2⟩
  | error _ hR => exact ⟨hR.2.1, hR.2.2.1, hR.2.2.2⟩
  | parted hp => exact hp.elim

theorem still_doTask {t : Task} (ht : t.reads = false) (m : Machine) :
    Still m (machineOf (doTask t m)) := by
  rw [doTask_eq]
  refine still_of_unmoved m fun input cursor live => ?_
  refine ((firm_unmoved input cursor live).work (Bond.sameTask_refl t) ?_).mono fun _ _ _ => trivial
  rintro rfl
  cases ht

theorem still_stepSymbol {s : Symbol} (hs : readsSymbol s = false) (jump : Option Nat)
    (index : Nat) (m : Machine) : Still m (machineOf (stepSymbol s jump index m)) := by
  rw [stepSymbol_eq]
  refine still_of_unmoved m fun input cursor live => ?_
  refine ((firm_unmoved input cursor live).symbolWork s jump index ?_).mono fun _ _ _ => trivial
  rintro rfl
  cases hs

/-! ## Reads -/

/-- What the later machine has more of input, the live reader has less of. Bytes come a line at a
time, when the input is used up. -/
structure Pulls (m n : Machine) : Prop where
  input : n.input.toList = m.input.toList ++ growth m n
  held : m.held = growth m n ++ n.held
  line : growth m n ≠ [] →
    m.cursor = m.input.size ∧ ∃ r, m.live = some r ∧ growth m n = r.readLine.1

theorem growth_append (m : Machine) (line : Bytes) (live : Option Reader) :
    growth m { m with input := m.input ++ line, live } = line := by
  simp [growth]

theorem Still.growth {m n : Machine} (h : Still m n) : growth m n = [] := by
  simp [Machine.growth, h.input]

theorem Still.pulls {m n : Machine} (h : Still m n) : Pulls m n where
  input := by rw [h.growth, h.input, List.append_nil]
  held := by rw [h.growth, Machine.held, Machine.held, h.live, List.nil_append]
  line hne := absurd h.growth hne

/-- A line is the first bytes a reader holds. Only the last line may be empty. -/
theorem readLine_spec {r rest : Reader} {line : Bytes} {e : LineEnd}
    (h : r.readLine = (line, e, rest)) :
    r.pending = line ++ rest.pending ∧ (e = .newline → line ≠ []) ∧
      (e = .atEnd → r.fails = false ∧ rest.pending = []) := by
  obtain ⟨hpending, hline⟩ := splitLine_eq r.pending
  unfold Reader.readLine at h
  generalize Reader.splitLine r.pending = split at hpending hline h
  obtain ⟨first, _ | after⟩ := split
  · cases hfails : r.fails with
    | true =>
        simp only [hfails, if_true, Prod.mk.injEq] at h
        obtain ⟨rfl, rfl, rfl⟩ := h
        exact ⟨hpending, nofun, nofun⟩
    | false =>
        simp only [hfails, Bool.false_eq_true, if_false, Prod.mk.injEq] at h
        obtain ⟨rfl, rfl, rfl⟩ := h
        exact ⟨hpending, nofun, fun _ => ⟨rfl, rfl⟩⟩
  · simp only [Prod.mk.injEq] at h
    obtain ⟨rfl, rfl, rfl⟩ := h
    exact ⟨hpending, fun _ => hline nofun, nofun⟩

/-- What a read of one byte may do. -/
inductive Draws (m : Machine) : EStateM.Result Fault Machine UInt8 → Prop
  | take {b : UInt8} {n : Machine} : Pulls m n → n.cursor = m.cursor + 1 →
      n.input[m.cursor]? = some b → Draws m (.ok b n)
  | starve {n : Machine} : Pulls m n → n.cursor = m.cursor → m.cursor = m.input.size →
      n.cursor = n.input.size → (∀ r, m.live = some r → r.AtEnd) → Draws m (.ok 0 n)
  | fail {e : Fault} {n : Machine} : Pulls m n → n.cursor = m.cursor → Draws m (.error e n)

/-- What a look for more input may do. -/
inductive Refills (m : Machine) : EStateM.Result Fault Machine Unit → Prop
  | more {n : Machine} : Pulls m n → n.cursor = m.cursor → n.cursor < n.input.size →
      Refills m (.ok () n)
  | none {n : Machine} : Pulls m n → n.cursor = m.cursor → m.cursor = m.input.size →
      n.cursor = n.input.size → (∀ r, m.live = some r → r.AtEnd) → Refills m (.ok () n)
  | fail {e : Fault} {n : Machine} : Pulls m n → n.cursor = m.cursor → Refills m (.error e n)

theorem pulls_line {m : Machine} {r : Reader} {line : Bytes} (live : Option Reader)
    (hcursor : m.cursor = m.input.size) (hlive : m.live = some r) (hline : r.readLine.1 = line)
    (hheld : r.pending = line ++ Reader.held live) :
    Pulls m { m with input := m.input ++ line, live } where
  input := by
    rw [growth_append]
    simp
  held := by
    rw [growth_append]
    show Reader.held m.live = line ++ Reader.held live
    rw [hlive]
    exact hheld
  line _ := by
    rw [growth_append]
    exact ⟨hcursor, r, hlive, hline.symm⟩

theorem refills_refill {m : Machine} (hm : m.cursor ≤ m.input.size) : Refills m (refill m) := by
  unfold refill
  by_cases hlt : m.cursor < m.input.size
  · rw [if_pos hlt]
    exact .more (Still.pulls ⟨rfl, rfl, rfl⟩) rfl hlt
  · have hend : m.cursor = m.input.size := Nat.le_antisymm hm (Nat.not_lt.1 hlt)
    rw [if_neg hlt]
    cases hlive : m.live with
    | none =>
        exact .none (Still.pulls ⟨rfl, rfl, rfl⟩) rfl hend hend fun r hr => by
          rw [hlive] at hr
          cases hr
    | some r =>
        have hsize : ∀ line : Bytes, (m.input ++ line).size = m.cursor + line.length := by
          intro line
          rw [size_append_bytes, hend]
        dsimp only
        rcases hread : r.readLine with ⟨line, _ | _ | _, rest⟩
        · -- A line with its newline, so there is a byte to read.
          obtain ⟨hpending, hne, -⟩ := readLine_spec hread
          have hpulls := pulls_line (some rest) hend hlive (by rw [hread]) hpending
          have hlength := List.length_pos_iff.2 (hne rfl)
          refine .more hpulls rfl ?_
          show m.cursor < (m.input ++ line).size
          rw [hsize]
          omega
        · -- The last bytes before the end. The reader is dropped, and there may be none.
          obtain ⟨hpending, -, hatEnd⟩ := readLine_spec hread
          obtain ⟨hfails, hnone⟩ := hatEnd rfl
          rw [hnone] at hpending
          have hpulls := pulls_line none hend hlive (by rw [hread]) hpending
          cases line with
          | nil =>
              refine .none hpulls rfl hend ?_ ?_
              · rw [hsize]
                rfl
              · intro r' hr'
                rw [hlive] at hr'
                cases hr'
                exact ⟨hpending, hfails⟩
          | cons b bs =>
              refine .more hpulls rfl ?_
              show m.cursor < (m.input ++ (b :: bs)).size
              rw [hsize, List.length_cons]
              omega
        · -- The bytes before a failure are kept, and so is the reader.
          obtain ⟨hpending, -, -⟩ := readLine_spec hread
          exact .fail (pulls_line (some rest) hend hlive (by rw [hread]) hpending) rfl

theorem draws_readByte {m : Machine} (hm : m.cursor ≤ m.input.size) : Draws m (readByte m) := by
  have hr := refills_refill hm
  rw [readByte_eq]
  show Draws m (EStateM.bind refill (fun _ => takeByte) m)
  unfold EStateM.bind
  generalize refill m = r at hr ⊢
  cases hr with
  | fail hpulls hcursor => exact .fail hpulls hcursor
  | @more n hpulls hcursor hlt =>
      have hb : n.input[n.cursor]? = some n.input[n.cursor] := Array.getElem?_eq_getElem hlt
      show Draws m (takeByte n)
      simp only [takeByte, hb]
      exact .take ⟨hpulls.input, hpulls.held, hpulls.line⟩ (by rw [hcursor]) (hcursor ▸ hb)
  | @none n hpulls hcursor hend hend' hatEnd =>
      have hb : n.input[n.cursor]? = none := Array.getElem?_eq_none (Nat.le_of_eq hend'.symm)
      show Draws m (takeByte n)
      simp only [takeByte, hb]
      exact .starve hpulls hcursor hend hend' hatEnd

/-! ## Histories -/

def stored (b : UInt8) : Except Fault UInt64 := .ok (byteCell b)

/-- Only a read touches the input and its readers. A read pulls at most a line, when the input is
used up; if it goes well and does not move the cursor, it stores zero, and there is no more to
read. -/
def Event.Sound : Event → Prop
  | fed _ => True
  | read ok m n =>
    (growth m n ≠ [] →
      m.cursor = m.input.size ∧ ∃ r, m.live = some r ∧ growth m n = r.readLine.1) ∧
    (ok = true → n.cursor = m.cursor → n.cell n.dp = .ok 0 ∧
      m.cursor = m.input.size ∧ ∀ r, m.live = some r → r.AtEnd)
  | work m n => Still m n

/-- What events between two machines tell of the input. -/
structure History (m : Machine) (events : List Event) (n : Machine) : Prop where
  input : n.input.toList = m.input.toList ++ events.flatMap Event.added
  held : m.held = events.flatMap Event.pulled ++ n.held
  cursor : n.cursor ≤ n.input.size
  taken : (n.input.toList.take n.cursor).map stored =
    (m.input.toList.take m.cursor).map stored ++ events.filterMap Event.taken
  sound : ∀ e ∈ events, e.Sound

namespace History

theorem refl {m : Machine} (hm : m.cursor ≤ m.input.size) : History m [] m where
  input := by simp
  held := by simp
  cursor := hm
  taken := by simp
  sound := by simp

theorem trans {m n k : Machine} {es fs : List Event} (h : History m es n) (h' : History n fs k) :
    History m (es ++ fs) k where
  input := by rw [h'.input, h.input, List.flatMap_append, List.append_assoc]
  held := by rw [h.held, h'.held, List.flatMap_append, List.append_assoc]
  cursor := h'.cursor
  taken := by rw [h'.taken, h.taken, List.filterMap_append, List.append_assoc]
  sound e he := (List.mem_append.1 he).elim (h.sound e) (h'.sound e)

/-- Events after which nothing happens to the input. -/
theorem still {m n k : Machine} {es : List Event} (h : History m es n) (hs : Still n k) :
    History m es k where
  input := by rw [hs.input, h.input]
  held := by rw [h.held, Machine.held, Machine.held, hs.live]
  cursor := by rw [hs.cursor, hs.input]; exact h.cursor
  taken := by rw [hs.cursor, hs.input, h.taken]
  sound := h.sound

end History

section Step

variable {m n : Machine} {e : Event}

theorem Pulls.history_of_same (h : Pulls m n) (hm : m.cursor ≤ m.input.size)
    (hcursor : n.cursor = m.cursor) (hadded : e.added = growth m n)
    (hpulled : e.pulled = growth m n) (htaken : e.taken = none) (hsound : e.Sound) :
    History m [e] n where
  input := by rw [h.input, List.flatMap_singleton, hadded]
  held := by rw [h.held, List.flatMap_singleton, hpulled]
  cursor := by
    have hsize := congrArg List.length h.input
    rw [List.length_append, Array.length_toList, Array.length_toList] at hsize
    omega
  taken := by
    rw [List.filterMap_cons_none htaken, List.filterMap_nil, List.append_nil, hcursor, h.input,
      List.take_append_of_le_length (by rw [Array.length_toList]; exact hm)]
  sound := by
    intro e' he'
    rw [List.mem_singleton.1 he']
    exact hsound

theorem Pulls.history_of_take (h : Pulls m n) (hm : m.cursor ≤ m.input.size) {b : UInt8}
    (hcursor : n.cursor = m.cursor + 1) (hb : n.input[m.cursor]? = some b)
    (hadded : e.added = growth m n) (hpulled : e.pulled = growth m n)
    (htaken : e.taken = some (stored b)) (hsound : e.Sound) : History m [e] n where
  input := by rw [h.input, List.flatMap_singleton, hadded]
  held := by rw [h.held, List.flatMap_singleton, hpulled]
  cursor := by
    have hlt := (Array.getElem?_eq_some_iff.1 hb).1
    omega
  taken := by
    have hb' : n.input.toList[m.cursor]? = some b := by rw [Array.getElem?_toList, hb]
    -- What was pulled stands behind the bytes that were read before.
    have htake : n.input.toList.take m.cursor = m.input.toList.take m.cursor := by
      rw [h.input, List.take_append_of_le_length (by rw [Array.length_toList]; exact hm)]
    rw [hcursor, List.take_add_one, hb', htake, List.map_append,
      List.filterMap_cons_some htaken, List.filterMap_nil]
    rfl
  sound := by
    intro e' he'
    rw [List.mem_singleton.1 he']
    exact hsound

theorem Still.history_work (h : Still m n) (hm : m.cursor ≤ m.input.size) :
    History m [.work m n] n :=
  h.pulls.history_of_same hm h.cursor rfl rfl rfl h

theorem Pulls.history_failed (h : Pulls m n) (hm : m.cursor ≤ m.input.size)
    (hcursor : n.cursor = m.cursor) : History m [.read false m n] n :=
  h.history_of_same hm hcursor rfl rfl (if_pos hcursor) ⟨h.line, nofun⟩

end Step

/-! ## The step that reads -/

def readCell : Action Unit := do
  let i ← locate 0
  let b ← readByte
  poke i (byteCell b)

/-- A result of a step is the end of its history. -/
def Recorded {α : Type} (m : Machine) (reads : Bool) : EStateM.Result Fault Machine α → Prop
  | .ok _ n => History m [.ofStep reads true m n] n
  | .error _ n => History m [.ofStep reads false m n] n

theorem Recorded.map {α β : Type} {m : Machine} {reads : Bool} {a : Action α} (f : α → β)
    (h : Recorded m reads (a m)) : Recorded m reads ((a >>= fun x => pure (f x)) m) := by
  cases hr : a m with
  | ok x n =>
      rw [bind_of_ok hr]
      rw [hr] at h
      exact h
  | error e n =>
      rw [bind_of_error hr]
      rw [hr] at h
      exact h

theorem recorded_still {α : Type} {m : Machine} (hm : m.cursor ≤ m.input.size)
    {r : EStateM.Result Fault Machine α} (h : Still m (machineOf r)) : Recorded m false r := by
  cases r with
  | ok x n => exact h.history_work hm
  | error e n => exact h.history_work hm

theorem cell_set {m : Machine} {i : Nat} (hi : m.index? m.dp = some i) (v : UInt64) :
    (m.set i v).cell (m.set i v).dp = .ok v := by
  have hlt := (index?_eq_some_iff.1 hi).2
  simp only [cell, index?_set, dp_set, hi]
  exact congrArg Except.ok (get_set_self m v hlt)

theorem still_tick (m : Machine) : Still m (machineOf (tick m)) := by
  unfold tick
  dsimp only
  split
  · exact ⟨rfl, rfl, rfl⟩
  · exact ⟨rfl, rfl, rfl⟩

/-- Machines that differ in what is not about the input pull the same. -/
theorem Pulls.of_still {m m₁ n n₁ : Machine} (h : Pulls m₁ n) (hm : Still m m₁)
    (hn : Still n n₁) : Pulls m n₁ := by
  have hgrowth : growth m n₁ = growth m₁ n := by rw [growth, growth, hm.input, hn.input]
  have hheld : m₁.held = m.held := by rw [Machine.held, Machine.held, hm.live]
  have hheld' : n₁.held = n.held := by rw [Machine.held, Machine.held, hn.live]
  refine ⟨?_, ?_, ?_⟩
  · rw [hgrowth, hn.input, ← hm.input]
    exact h.input
  · rw [hgrowth, hheld', ← hheld]
    exact h.held
  · rw [hgrowth, ← hm.cursor, ← hm.input, ← hm.live]
    exact h.line

theorem Draws.of_still {m m₁ : Machine} {r : EStateM.Result Fault Machine UInt8}
    (h : Draws m₁ r) (hs : Still m m₁) : Draws m r := by
  cases h with
  | take hpulls hcursor hbyte =>
      rw [hs.cursor] at hcursor hbyte
      exact .take (hpulls.of_still hs ⟨rfl, rfl, rfl⟩) hcursor hbyte
  | starve hpulls hcursor hend hend' hatEnd =>
      rw [hs.cursor] at hcursor hend
      rw [hs.input] at hend
      rw [hs.live] at hatEnd
      exact .starve (hpulls.of_still hs ⟨rfl, rfl, rfl⟩) hcursor hend hend' hatEnd
  | fail hpulls hcursor =>
      exact .fail (hpulls.of_still hs ⟨rfl, rfl, rfl⟩) (hcursor.trans hs.cursor)

theorem Draws.history_failed {m n : Machine} {e : Fault} (h : Draws m (.error e n))
    (hm : m.cursor ≤ m.input.size) : History m [.read false m n] n := by
  cases h with
  | fail hpulls hcursor => exact hpulls.history_failed hm hcursor

/-- A byte that was drawn is put into the current cell. -/
theorem Draws.history_stored {m n : Machine} {b : UInt8} {i : Nat} (h : Draws m (.ok b n))
    (hm : m.cursor ≤ m.input.size) (hn : n.index? n.dp = some i) :
    History m [.read true m (n.set i (byteCell b))] (n.set i (byteCell b)) := by
  have hcell := cell_set hn (byteCell b)
  have hafter : Still n (n.set i (byteCell b)) := ⟨rfl, rfl, rfl⟩
  cases h with
  -- A byte was read: the cursor has moved, and the cell has the byte.
  | take hpulls hcursor hbyte =>
      have hpulls' := hpulls.of_still ⟨rfl, rfl, rfl⟩ hafter
      have hne : (n.set i (byteCell b)).cursor ≠ m.cursor := by
        rw [hafter.cursor, hcursor]
        exact Nat.succ_ne_self _
      refine hpulls'.history_of_take hm hcursor hbyte rfl rfl ?_
        ⟨hpulls'.line, fun _ he => absurd he hne⟩
      rw [Event.taken, if_neg hne, hcell]
      rfl
  -- Nothing is left: the cursor stands, and the cell is zero.
  | starve hpulls hcursor hend hend' hatEnd =>
      have hpulls' := hpulls.of_still ⟨rfl, rfl, rfl⟩ hafter
      exact hpulls'.history_of_same hm hcursor rfl rfl (if_pos hcursor)
        ⟨hpulls'.line, fun _ _ => ⟨hcell, hend, hatEnd⟩⟩

theorem recorded_readCell {m : Machine} (hm : m.cursor ≤ m.input.size) :
    Recorded m true ((tick >>= fun _ => readCell) m) := by
  have hs := still_tick m
  cases ht : tick m with
  | error e n =>
      rw [ht] at hs
      rw [bind_of_error ht]
      exact hs.pulls.history_failed hm hs.cursor
  | ok x m₁ =>
      rw [ht] at hs
      replace hs : Still m m₁ := hs
      rw [bind_of_ok ht]
      cases hi : m₁.index? m₁.dp with
      | none =>
          rw [readCell, bind_of_error (locate_here_error hi)]
          exact hs.pulls.history_failed hm hs.cursor
      | some i =>
          have hm₁ : m₁.cursor ≤ m₁.input.size := by
            rw [hs.cursor, hs.input]
            exact hm
          -- Counting the step has changed nothing that is about the input.
          have hdraws := (draws_readByte hm₁).of_still hs
          rw [readCell, bind_of_ok (locate_here hi)]
          cases hb : readByte m₁ with
          | error e n =>
              rw [hb] at hdraws
              rw [bind_of_error hb]
              exact hdraws.history_failed hm
          | ok b n =>
              have hn : n.index? n.dp = some i := by
                rw [readByte_frame hb]
                exact hi
              rw [hb] at hdraws
              rw [bind_of_ok hb]
              exact hdraws.history_stored hm hn

theorem recorded_doTask {m : Machine} (hm : m.cursor ≤ m.input.size) (t : Task) :
    Recorded m t.reads (doTask t m) := by
  cases hr : t.reads with
  | false => exact recorded_still hm (still_doTask hr m)
  | true =>
      have ht : t = .op .read := by
        cases t with
        | op o => cases o <;> first | rfl | cases hr
        | again body => cases hr
        | emitting code char left => cases hr
      have hread : doTask (.op .read) = (tick >>= fun _ => readCell) >>= fun _ => pure [] := by
        simp only [doTask_eq, Task.work, perform, readCell, bind_assoc]
      rw [ht, hread]
      exact (recorded_readCell hm).map fun _ => []

theorem recorded_stepSymbol {m : Machine} (hm : m.cursor ≤ m.input.size) (s : Symbol)
    (jump : Option Nat) (index : Nat) : Recorded m (readsSymbol s) (stepSymbol s jump index m) := by
  cases hr : readsSymbol s with
  | false => exact recorded_still hm (still_stepSymbol hr jump index m)
  | true =>
      have hs : s = .inp := by cases s <;> first | rfl | cases hr
      have hread : stepSymbol .inp jump index =
          (tick >>= fun _ => readCell) >>= fun _ => pure (index + 1) := by
        simp only [stepSymbol, doSymbol, afterSymbol, readCell, byteCell, bind_assoc]
      rw [hs, hread]
      exact (recorded_readCell hm).map fun _ => index + 1

/-! ## Runs -/

section Steps

variable {φ τ : Type} {step : τ → Stage φ τ} {view : τ → Machine} {reads : τ → Bool}

def StageRecorded (view : τ → Machine) (reads : τ → Bool) (t : τ) : Stage φ τ → Prop
  | .next t' => History (view t) [.ofStep (reads t) true (view t) (view t')] (view t')
  | .halt t' => view t' = view t
  | .fail _ t' => History (view t) [.ofStep (reads t) false (view t) (view t')] (view t')

/-- The steps of a run lead from its first state to its last, so their histories add up. -/
theorem history_iterate
    (h : ∀ t, (view t).cursor ≤ (view t).input.size → StageRecorded view reads t (step t)) (n : Nat)
    {t : τ} (ht : (view t).cursor ≤ (view t).input.size) :
    History (view t)
      ((trail step n t).map fun (t, ok, t') => .ofStep (reads t) ok (view t) (view t'))
      (view (iterate step n t).state) := by
  induction n generalizing t with
  | zero => exact .refl ht
  | succ n ih =>
      have hs := h t ht
      rw [trail, iterate]
      cases hstep : step t with
      | next t' =>
          rw [hstep] at hs
          exact History.trans hs (ih hs.cursor)
      | halt t' =>
          rw [hstep] at hs
          have hsame : view t' = view t := hs
          show History (view t) [] (view t')
          rw [hsame]
          exact .refl ht
      | fail e t' =>
          rw [hstep] at hs
          exact hs

end Steps

theorem recorded_direct (d : Direct) (hd : d.machine.cursor ≤ d.machine.input.size) :
    StageRecorded Direct.machine Direct.reads d d.step := by
  obtain ⟨tasks, m⟩ := d
  cases tasks with
  | nil => rfl
  | cons t rest =>
      have ht := recorded_doTask hd t
      simp only [Direct.step]
      generalize doTask t m = r at ht ⊢
      cases r with
      | ok new n => exact ht
      | error e n => exact ht

theorem recorded_walk (code : Code) (w : Walk) (hw : w.machine.cursor ≤ w.machine.input.size) :
    StageRecorded Walk.machine (Walk.reads code) w (Walk.step code w) := by
  obtain ⟨i, m⟩ := w
  have hs := fun s => recorded_stepSymbol hw s (code.jumps.getD i none) i
  simp only [Walk.step]
  cases hi : code.symbols[i]? with
  | none => rfl
  | some s =>
      have hreads : Walk.reads code ⟨i, m⟩ = readsSymbol s := by simp only [Walk.reads, hi]
      replace hs := hs s
      rw [← hreads] at hs
      dsimp only at hs ⊢
      generalize stepSymbol s (code.jumps.getD i none) i m = r at hs ⊢
      cases r with
      | ok next n => exact hs
      | error e n => exact hs

theorem still_note (m : Machine) (o : Op) : Still m (m.note o) := by
  unfold note
  split
  · exact ⟨rfl, rfl, rfl⟩
  · exact ⟨rfl, rfl, rfl⟩

theorem history_runEach {φ : Type} {run : Op → Machine → Outcome φ Machine}
    {events : Op → Machine → List Event} (place : Op → φ → Failure)
    (h : ∀ {m}, m.cursor ≤ m.input.size → ∀ o, History m (events o m) (run o m).state)
    (ops : List Op) {m : Machine} (hm : m.cursor ≤ m.input.size) :
    History m (eventsEach run events ops m) (runEach run place ops m).state := by
  induction ops generalizing m with
  | nil => exact .refl hm
  | cons o ops ih =>
      have ho := h hm o
      rw [eventsEach, runEach]
      cases hr : run o m with
      | done n =>
          rw [hr] at ho
          have hnoted := ho.still (still_note n o)
          exact hnoted.trans (ih hnoted.cursor)
      | failed e n =>
          rw [hr] at ho
          rw [List.append_nil]
          exact ho
      | pending n =>
          rw [hr] at ho
          rw [List.append_nil]
          exact ho

section Calls

variable {m : Machine} (hm : m.cursor ≤ m.input.size) (fuel : Nat)

include hm

theorem history_runOp (o : Op) :
    History m (opEvents fuel o m) (runOp fuel o m).state := by
  rw [runOp, Outcome.state_map]
  exact history_iterate recorded_direct fuel (t := ⟨[.op o], m⟩) hm

theorem history_runCode (code : Code) :
    History m (codeEvents fuel code m) (runCode fuel code m).state := by
  rw [runCode, Outcome.state_map]
  exact history_iterate (recorded_walk code) fuel (t := ⟨0, m⟩) hm

theorem history_execText (src : Bytes) :
    History m (textEvents fuel src m) (execText fuel src m).state := by
  unfold textEvents execText
  cases Code.compile src with
  | error e => exact .refl hm
  | ok code => exact history_runCode hm fuel code

theorem history_runRendered (o : Op) :
    History m (renderedEvents fuel o m) (runRendered fuel o m).state := by
  unfold renderedEvents runRendered
  cases Op.render [o] with
  | error e => exact .refl hm
  | ok symbols =>
      have htext := history_execText hm fuel (Symbol.text symbols)
      unfold execText at htext
      dsimp only
      cases hc : Code.compile (Symbol.text symbols) with
      | error e =>
          rw [hc] at htext
          exact htext
      | ok code =>
          rw [hc] at htext
          dsimp only
          rw [Outcome.state_mapError]
          exact htext

theorem history_run (c : Call) : History m (c.events fuel m) (c.run fuel m).state := by
  cases c with
  | direct ops =>
      show History m _ (exec fuel ops m).state
      rw [exec_eq]
      exact history_runEach _ (fun hm => history_runOp hm fuel) ops hm
  | rendered ops =>
      show History m _ (execRendered fuel ops m).state
      rw [execRendered_eq]
      exact history_runEach _ (fun hm => history_runRendered hm fuel) ops hm
  | text src => exact history_execText hm fuel src

end Calls

theorem history_feed {m : Machine} (hm : m.cursor ≤ m.input.size) (chunk : Bytes) :
    History m [.fed chunk] (m.feed chunk) where
  input := by simp [feed, Event.added]
  held := by simp [feed, Event.pulled, held]
  cursor := by
    show m.cursor ≤ (m.input ++ chunk).size
    rw [size_append_bytes]
    omega
  taken := by
    have hle : m.cursor ≤ m.input.toList.length := hm
    simp [feed, Event.taken, List.take_append_of_le_length hle]
  sound := by simp [Event.Sound]

theorem history_apply {m : Machine} (hm : m.cursor ≤ m.input.size) (q : Request) :
    History m (q.events m) (q.apply m) := by
  cases q with
  | call c fuel => exact history_run hm fuel c
  | feed chunk => exact history_feed hm chunk

theorem history_applyAll {m : Machine} (hm : m.cursor ≤ m.input.size) (requests : List Request) :
    History m (Request.eventsAll requests m) (Request.applyAll requests m) := by
  induction requests generalizing m with
  | nil => exact .refl hm
  | cons q rest ih =>
      have hq := history_apply hm q
      exact hq.trans (ih hq.cursor)

/-- A new machine is called and fed in any order, and calls may fail. The input is the first input
and then all that was fed and pulled, in the order in which it was; what was pulled and what the
live reader still holds is what it held at first; the cursor is in the input; and the reads that
moved the cursor stored the bytes before it, one after the other. Lines are pulled when the input is
used up. A read stores zero and leaves the cursor only where the input ends and no reader has more.
No other step touches the input. -/
theorem input_history (c : Config) (m : Machine) (h : ofConfig c = .ok m)
    (requests : List Request) :
    let n := Request.applyAll requests m
    let events := Request.eventsAll requests m
    n.input.toList = c.input ++ events.flatMap Event.added ∧
      events.flatMap Event.pulled ++ Reader.held n.live = Reader.held c.live ∧
      n.cursor ≤ n.input.size ∧
      events.filterMap Event.taken =
        (n.input.toList.take n.cursor).map (fun b => .ok (byteCell b)) ∧
      (∀ ok before after, .read ok before after ∈ events →
        (growth before after ≠ [] → before.cursor = before.input.size ∧
          ∃ r, before.live = some r ∧ growth before after = r.readLine.1) ∧
        (ok = true → after.cursor = before.cursor →
          after.cell after.dp = .ok 0 ∧ before.cursor = before.input.size ∧
          ∀ r, before.live = some r → r.pending = [] ∧ r.fails = false)) ∧
      ∀ before after, .work before after ∈ events →
        after.input = before.input ∧ after.cursor = before.cursor ∧ after.live = before.live := by
  have hstart : m.input = c.input.toArray ∧ m.cursor = 0 ∧ m.live = c.live := by
    unfold ofConfig at h
    dsimp only at h
    split at h
    · cases h
    · split at h
      · cases h
      · cases h
        exact ⟨rfl, rfl, rfl⟩
  obtain ⟨hinput, hcursor, hlive⟩ := hstart
  have hm : m.cursor ≤ m.input.size := by
    rw [hcursor]
    exact Nat.zero_le _
  have hhistory := history_applyAll hm requests
  refine ⟨?_, ?_, hhistory.cursor, ?_, ?_, ?_⟩
  · rw [hhistory.input, hinput]
  · rw [← hlive]
    exact hhistory.held.symm
  · have htaken := hhistory.taken
    rw [hcursor, List.take_zero, List.map_nil, List.nil_append] at htaken
    exact htaken.symm
  · intro ok before after hmem
    exact hhistory.sound _ hmem
  · intro before after hmem
    obtain ⟨hsame, hcursor, hlive⟩ := hhistory.sound _ hmem
    exact ⟨hsame, hcursor, hlive⟩

/-- A byte of the first input, a line pulled, a byte fed behind it, and a last line cut off by a
failure of the reader, which ends the call. -/
theorem input_history_of_failing_reader :
    ∃ m events, ofConfig { tapeLength := 4, input := [97], live := some ⟨[98, 10, 99], true⟩ } =
        .ok m ∧
      events = Request.eventsAll
        [.call (.direct [.read, .read]) 9, .feed [120], .call (.text [44, 44, 44, 44]) 9] m ∧
      [97, 98, 10, 120, 99] = [97] ++ events.flatMap Event.added ∧
      events.flatMap Event.pulled = [98, 10, 99] ∧
      events.filterMap Event.taken =
        [97, 98, 10, 120].map (fun b => .ok (byteCell b)) := by
  have h := input_history
    { tapeLength := 4, input := [97], live := some ⟨[98, 10, 99], true⟩ } _ rfl
    [.call (.direct [.read, .read]) 9, .feed [120], .call (.text [44, 44, 44, 44]) 9]
  obtain ⟨hinput, hheld, -, htaken, -⟩ := h
  refine ⟨_, _, rfl, rfl, hinput, ?_, htaken⟩
  exact (List.append_nil _).symm.trans hheld

end Machine

end TapeForge

import Mathlib.Data.List.Nodup
import TapeForge.Layout
import TapeForge.Proofs.QuickSort

/-!
# Registers of a layout

Registers make a layout exactly if no name and no offset stands twice, and then the layout knows
these registers and no others. If they make none, what is reported is the first register that does
not fit those before it. Sorting does not come into that: registers that fit one another leave the
same room for more in whatever order they are held, so a layout that is extended twice is one that
is extended once by all of them.
-/

namespace TapeForge

namespace Layout

/-- No name and no offset stands twice. -/
structure Distinct (rs : List Register) : Prop where
  names : (rs.map Register.name).Nodup
  offsets : (rs.map Register.offset).Nodup

/-- Why a register does not fit earlier ones: one of them has its name, or none has, but one has
its offset. -/
inductive Refused (earlier : List Register) (r : Register) : LayoutError → Prop
  | name : r.name ∈ earlier.map Register.name → Refused earlier r (.duplicatedName r.name)
  | offset {x : Register} : r.name ∉ earlier.map Register.name → x ∈ earlier →
      x.offset = r.offset → Refused earlier r (.collision r.offset x.name r.name)

/-- What is said of registers: why the first of them that does not fit is refused. -/
def Reports (rs : List Register) (e : LayoutError) : Prop :=
  ∃ earlier r rest, rs = earlier ++ r :: rest ∧ Distinct earlier ∧ Refused earlier r e

variable {earlier earlier' rs : List Register} {r : Register} {e : LayoutError}

theorem Distinct.perm (h : Distinct earlier) (hp : earlier.Perm earlier') : Distinct earlier' where
  names := (hp.map Register.name).nodup_iff.1 h.names
  offsets := (hp.map Register.offset).nodup_iff.1 h.offsets

theorem Distinct.of_append (h : Distinct (earlier ++ rs)) : Distinct earlier where
  names := by
    have hnames := h.names
    rw [List.map_append] at hnames
    exact List.Nodup.of_append_left hnames
  offsets := by
    have hoffsets := h.offsets
    rw [List.map_append] at hoffsets
    exact List.Nodup.of_append_left hoffsets

theorem distinct_append_singleton (h : Distinct earlier) : Distinct (earlier ++ [r]) ↔
    r.name ∉ earlier.map Register.name ∧ r.offset ∉ earlier.map Register.offset := by
  have hconcat : ∀ {β : Type} (f : Register → β), (earlier.map f).Nodup →
      (((earlier ++ [r]).map f).Nodup ↔ f r ∉ earlier.map f) := by
    intro β f hf
    rw [List.map_append, List.map_singleton, (List.perm_append_singleton _ _).nodup_iff,
      List.nodup_cons]
    exact and_iff_left hf
  rw [← hconcat _ h.names, ← hconcat _ h.offsets]
  exact ⟨fun h => ⟨h.names, h.offsets⟩, fun h => ⟨h.1, h.2⟩⟩

/-! ## One register -/

theorem byName_eq_none (l : Layout) {name : Bytes} (h : name ∉ l.registers.map Register.name) :
    l.byName name = none :=
  Option.eq_none_iff_forall_not_mem.2 fun _ ho => h (List.mem_map.2 ⟨_, (l.named _ _).1 ho, rfl⟩)

theorem enter_of_free {d : Draft} (hname : r.name ∉ d.registers.map Register.name)
    (hoffset : r.offset ∉ d.registers.map Register.offset) :
    ∃ d', d.enter r = .ok d' ∧ d'.registers = d.registers ++ [r] := by
  have hname := byName_eq_none d.toLayout hname
  have hoffset : d.byOffset r.offset = none := Option.eq_none_iff_forall_not_mem.2 fun _ ho =>
    hoffset (List.mem_map.2 ⟨_, (d.placed _ _).1 ho, rfl⟩)
  unfold Draft.enter
  split
  next hsome => cases hname.symm.trans hsome
  next =>
    split
    next hsome => cases hoffset.symm.trans hsome
    next => exact ⟨_, rfl, rfl⟩

theorem enter_of_refused {d : Draft} (hr : Refused d.registers r e) : d.enter r = .error e := by
  unfold Draft.enter
  cases hr with
  | name hname =>
      obtain ⟨x, hx, hxr⟩ := List.mem_map.1 hname
      have hfound := (d.named r.name x.offset).2 (hxr ▸ hx)
      split
      next => rfl
      next hnone => cases hnone.symm.trans hfound
  | @offset x hname hx hxr =>
      have hnone := byName_eq_none d.toLayout hname
      have hfound := (d.placed r.offset x.name).2 (hxr ▸ hx)
      split
      next hsome => cases hnone.symm.trans hsome
      next =>
        split
        next hother =>
          cases hfound.symm.trans hother
          rfl
        next hnone' => cases hnone'.symm.trans hfound

/-- A register fits, or there is one reason why it does not. -/
theorem free_or_refused (earlier : List Register) (r : Register) :
    (r.name ∉ earlier.map Register.name ∧ r.offset ∉ earlier.map Register.offset) ∨
      ∃ e, Refused earlier r e := by
  by_cases hname : r.name ∈ earlier.map Register.name
  · exact .inr ⟨_, .name hname⟩
  · by_cases hoffset : r.offset ∈ earlier.map Register.offset
    · obtain ⟨x, hx, hsame⟩ := List.mem_map.1 hoffset
      exact .inr ⟨_, .offset hname hx hsame⟩
    · exact .inl ⟨hname, hoffset⟩

/-- For distinct registers it makes no difference in which order they came. -/
theorem Refused.perm (hr : Refused earlier r e) (hp : earlier.Perm earlier') :
    Refused earlier' r e := by
  have hnames := (hp.map Register.name).mem_iff (a := r.name)
  cases hr with
  | name hname => exact .name (hnames.1 hname)
  | offset hname hx hoffset => exact .offset (mt hnames.2 hname) (hp.mem_iff.1 hx) hoffset

/-! ## Registers one after the other -/

theorem enterAll_append (d : Draft) (rs rest : List Register) :
    d.enterAll (rs ++ rest) = match d.enterAll rs with
      | .error e => .error e
      | .ok d => d.enterAll rest := by
  induction rs generalizing d with
  | nil => rfl
  | cons r rs ih =>
      rw [List.cons_append, Draft.enterAll, Draft.enterAll]
      cases d.enter r with
      | error e => rfl
      | ok d => exact ih d

theorem enterAll_of_distinct {d : Draft} (h : Distinct (d.registers ++ rs)) :
    ∃ d', d.enterAll rs = .ok d' ∧ d'.registers = d.registers ++ rs := by
  induction rs generalizing d with
  | nil => exact ⟨d, rfl, (List.append_nil _).symm⟩
  | cons r rs ih =>
      rw [List.append_cons] at h
      obtain ⟨hname, hoffset⟩ := (distinct_append_singleton h.of_append.of_append).1 h.of_append
      obtain ⟨d₁, hd₁, hregisters⟩ := enter_of_free hname hoffset
      rw [← hregisters] at h
      obtain ⟨d₂, hd₂, hregisters'⟩ := ih h
      refine ⟨d₂, ?_, ?_⟩
      · rw [Draft.enterAll, hd₁]
        exact hd₂
      · rw [hregisters', hregisters, List.append_assoc, List.singleton_append]

theorem enterAll_of_refused {d : Draft} {rest : List Register} (h : Distinct (d.registers ++ rs))
    (hr : Refused (d.registers ++ rs) r e) : d.enterAll (rs ++ r :: rest) = .error e := by
  obtain ⟨d', hd', hregisters⟩ := enterAll_of_distinct h
  rw [← hregisters] at hr
  rw [enterAll_append, hd']
  simp only [Draft.enterAll, enter_of_refused hr]

/-- Registers are distinct, or there is a first that does not fit those before it. -/
theorem distinct_or_refused (h : Distinct earlier) (rs : List Register) :
    Distinct (earlier ++ rs) ∨ ∃ before r rest e, rs = before ++ r :: rest ∧
      Distinct (earlier ++ before) ∧ Refused (earlier ++ before) r e := by
  induction rs generalizing earlier with
  | nil => exact .inl (by rwa [List.append_nil])
  | cons r rs ih =>
      rcases free_or_refused earlier r with hfree | ⟨e, hr⟩
      · rw [List.append_cons]
        rcases ih ((distinct_append_singleton h).2 hfree) with
          hall | ⟨before, x, rest, e, rfl, hbefore, hx⟩
        · exact .inl hall
        · rw [← List.append_cons] at hbefore hx
          exact .inr ⟨r :: before, x, rest, e, rfl, hbefore, hx⟩
      · exact .inr ⟨[], r, rs, e, rfl, by rwa [List.append_nil], by rwa [List.append_nil]⟩

theorem distinct_nil : Distinct [] := ⟨List.nodup_nil, List.nodup_nil⟩

/-! ## Layouts -/

/-- What a layout of registers knows of them. -/
structure Holds (l : Layout) (rs : List Register) : Prop where
  perm : l.registers.Perm rs
  has : ∀ name, l.has name = true ↔ name ∈ rs.map Register.name
  offset : ∀ name o, l.offset name = .ok o ↔ ⟨name, o⟩ ∈ rs
  absent : ∀ name, name ∉ rs.map Register.name → l.offset name = .error (.noRegister name)

/-- Two outcomes that nobody can tell apart by asking for names: layouts that answer alike, or the
same error. -/
inductive Alike : Except LayoutError Layout → Except LayoutError Layout → Prop
  | ok {l l' : Layout} : (∀ name, l.has name = l'.has name) →
      (∀ name, l.offset name = l'.offset name) → Alike (.ok l) (.ok l')
  | error (e : LayoutError) : Alike (.error e) (.error e)

theorem holds_of_perm {l : Layout} (hp : l.registers.Perm rs) : Holds l rs := by
  have hoffset : ∀ name o, l.offset name = .ok o ↔ ⟨name, o⟩ ∈ rs := by
    intro name o
    rw [← hp.mem_iff, ← l.named, offset]
    cases l.byName name with
    | none => simp
    | some o' => simp
  have hknown : ∀ name, (∃ o, l.byName name = some o) ↔ name ∈ rs.map Register.name := by
    intro name
    simp only [l.named, hp.mem_iff, List.mem_map]
    exact ⟨fun ⟨o, ho⟩ => ⟨_, ho, rfl⟩, fun ⟨x, hx, hname⟩ => ⟨x.offset, hname ▸ hx⟩⟩
  refine ⟨hp, ?_, hoffset, ?_⟩
  · intro name
    rw [← hknown, has, Option.isSome_iff_exists]
  · intro name hname
    rw [offset, Option.eq_none_iff_forall_not_mem.2 fun o ho => hname ((hknown name).1 ⟨o, ho⟩)]

theorem ofRegisters_of_distinct (h : Distinct rs) :
    ∃ l, ofRegisters rs = .ok l ∧ l.registers = Sorting.byKey Register.offset rs := by
  obtain ⟨d, hd, hregisters⟩ := enterAll_of_distinct (d := Draft.empty) h
  refine ⟨d.toLayout.sorted, ?_, ?_⟩
  · rw [ofRegisters, hd]
  · rw [sorted_registers, hregisters]
    rfl

theorem exists_perm_of_distinct (h : Distinct rs) :
    ∃ l, ofRegisters rs = .ok l ∧ l.registers.Perm rs := by
  obtain ⟨l, hl, hregisters⟩ := ofRegisters_of_distinct h
  exact ⟨l, hl, hregisters ▸ Sorting.byKey_perm Register.offset rs⟩

theorem ofRegisters_of_reports (h : Reports rs e) : ofRegisters rs = .error e := by
  obtain ⟨earlier, r, rest, rfl, hearlier, hr⟩ := h
  rw [ofRegisters, enterAll_of_refused (d := Draft.empty) hearlier hr]

theorem distinct_or_reports (rs : List Register) : Distinct rs ∨ ∃ e, Reports rs e := by
  rcases distinct_or_refused distinct_nil rs with h | ⟨before, r, rest, e, rfl, hbefore, hr⟩
  · exact .inl h
  · exact .inr ⟨e, before, r, rest, rfl, hbefore, hr⟩

theorem Holds.alike {l l' : Layout} (h : Holds l rs) (h' : Holds l' rs) :
    Alike (.ok l) (.ok l') := by
  refine .ok (fun name => Bool.eq_iff_iff.2 ((h.has name).trans (h'.has name).symm)) fun name => ?_
  by_cases hname : name ∈ rs.map Register.name
  · obtain ⟨x, hx, rfl⟩ := List.mem_map.1 hname
    rw [(h.offset _ _).2 hx, (h'.offset _ _).2 hx]
  · rw [h.absent name hname, h'.absent name hname]

theorem reports_append (h : Reports rs e) (bs : List Register) : Reports (rs ++ bs) e := by
  obtain ⟨earlier, r, rest, rfl, hearlier, hr⟩ := h
  exact ⟨earlier, r, rest ++ bs, by simp, hearlier, hr⟩

/-- Registers that fit one another leave the same room for more in whatever order they are held. -/
theorem reports_append_perm {bs : List Register} (h : Distinct rs) (hp : rs.Perm earlier')
    (he : Reports (rs ++ bs) e) : Reports (earlier' ++ bs) e := by
  rcases distinct_or_refused h bs with hall | ⟨before, r, rest, e', rfl, hbefore, hr⟩
  · obtain ⟨l, hl, -⟩ := exists_perm_of_distinct hall
    cases (ofRegisters_of_reports he).symm.trans hl
  · have hp' := hp.append_right before
    have he' : Reports (rs ++ (before ++ r :: rest)) e' :=
      ⟨rs ++ before, r, rest, by simp, hbefore, hr⟩
    cases (ofRegisters_of_reports he).symm.trans (ofRegisters_of_reports he')
    exact ⟨earlier' ++ before, r, rest, by simp, hbefore.perm hp', hr.perm hp'⟩

/-- Extending twice is extending once: those that come later find the same registers before them,
though in order of offset. -/
theorem extend_extend (l : Layout) (as bs : List Register) :
    Alike (l.extend as >>= fun l' => l'.extend bs) (l.extend (as ++ bs)) := by
  unfold extend
  rw [← List.append_assoc]
  rcases distinct_or_reports (l.registers ++ as) with hfirst | ⟨e, hfirst⟩
  · obtain ⟨l', hl', hp⟩ := exists_perm_of_distinct hfirst
    rw [hl']
    show Alike (ofRegisters (l'.registers ++ bs)) _
    rcases distinct_or_reports (l.registers ++ as ++ bs) with hall | ⟨e, hlater⟩
    -- Layouts sort what they are given, so the two hold one list up to order.
    · have hp' := hp.append_right bs
      obtain ⟨l₁, hl₁, hp₁⟩ := exists_perm_of_distinct (hall.perm hp'.symm)
      obtain ⟨l₂, hl₂, hp₂⟩ := exists_perm_of_distinct hall
      rw [hl₁, hl₂]
      exact (holds_of_perm (hp₁.trans hp')).alike (holds_of_perm hp₂)
    · rw [ofRegisters_of_reports hlater,
        ofRegisters_of_reports (reports_append_perm hfirst hp.symm hlater)]
      exact .error e
  · rw [ofRegisters_of_reports hfirst, ofRegisters_of_reports (reports_append hfirst bs)]
    exact .error e

theorem holds_of_ofRegisters {l : Layout} (h : ofRegisters rs = .ok l) :
    Distinct rs ∧ Holds l rs := by
  rcases distinct_or_reports rs with hall | ⟨e, hr⟩
  · obtain ⟨l', hl', hp⟩ := exists_perm_of_distinct hall
    cases h.symm.trans hl'
    exact ⟨hall, holds_of_perm hp⟩
  · cases h.symm.trans (ofRegisters_of_reports hr)

/-! ## Layouts in their places -/

/-- Layouts by the places where they are kept. -/
abbrev Shelf := Array Layout

namespace Shelf

/-- Enters registers into the layout at a place, as far as they fit. -/
def enterAll (shelf : Shelf) (place : Nat) (d : Draft) :
    List Register → Shelf × Except LayoutError Draft
  | [] => (shelf, .ok d)
  | r :: rs =>
    match d.enter r with
    | .error e => (shelf, .error e)
    | .ok d => enterAll (shelf.setIfInBounds place d.toLayout) place d rs

/-- Makes a layout behind all others: registers are entered into it and sorted where they are. -/
def make (shelf : Shelf) (rs : List Register) : Shelf × Except LayoutError Nat :=
  match enterAll (shelf.push Draft.empty.toLayout) shelf.size Draft.empty rs with
  | (shelf', .error e) => (shelf', .error e)
  | (shelf', .ok d) => (shelf'.setIfInBounds shelf.size d.toLayout.sorted, .ok shelf.size)

/-- Extends the layout at a place: a new one is made of a copy of its registers and of more. -/
def extend (shelf : Shelf) (place : Nat) (rs : List Register) : Shelf × Except LayoutError Nat :=
  make shelf ((shelf.getD place Draft.empty.toLayout).registers ++ rs)

/-- Only the layout at the place is written to. -/
theorem enterAll_fst (shelf : Shelf) (place : Nat) (d : Draft) (rs : List Register) :
    (enterAll shelf place d rs).1.size = shelf.size ∧
      ∀ k, k ≠ place → (enterAll shelf place d rs).1[k]? = shelf[k]? := by
  induction rs generalizing shelf d with
  | nil => exact ⟨rfl, fun _ _ => rfl⟩
  | cons r rs ih =>
      rw [enterAll]
      cases d.enter r with
      | error e => exact ⟨rfl, fun _ _ => rfl⟩
      | ok d =>
          obtain ⟨hsize, hkept⟩ := ih (shelf.setIfInBounds place d.toLayout) d
          refine ⟨hsize.trans Array.size_setIfInBounds, fun k hk => (hkept k hk).trans ?_⟩
          exact Array.getElem?_setIfInBounds_ne hk.symm

theorem enterAll_snd (shelf : Shelf) (place : Nat) (d : Draft) (rs : List Register) :
    (enterAll shelf place d rs).2 = d.enterAll rs := by
  induction rs generalizing shelf d with
  | nil => rfl
  | cons r rs ih =>
      rw [enterAll, Draft.enterAll]
      cases d.enter r with
      | error e => rfl
      | ok d => exact ih _ d

/-- What making a layout does: it stands behind all others, and those are as they were. -/
theorem make_spec (shelf : Shelf) (rs : List Register) :
    (∀ k < shelf.size, (make shelf rs).1[k]? = shelf[k]?) ∧
      ((∃ l, ofRegisters rs = .ok l ∧ (make shelf rs).2 = .ok shelf.size ∧
          (make shelf rs).1[shelf.size]? = some l) ∨
        ∃ e, ofRegisters rs = .error e ∧ (make shelf rs).2 = .error e) := by
  have hsnd := enterAll_snd (shelf.push Draft.empty.toLayout) shelf.size Draft.empty rs
  obtain ⟨hsize, hkept⟩ :=
    enterAll_fst (shelf.push Draft.empty.toLayout) shelf.size Draft.empty rs
  have hbefore : ∀ k < shelf.size, (enterAll (shelf.push Draft.empty.toLayout) shelf.size
      Draft.empty rs).1[k]? = shelf[k]? := fun k hk => by
    rw [hkept k (by omega), Array.getElem?_push_lt hk, Array.getElem?_eq_getElem hk]
  rw [make, ofRegisters, ← hsnd]
  generalize enterAll (shelf.push Draft.empty.toLayout) shelf.size Draft.empty rs = entered at *
  obtain ⟨shelf', outcome⟩ := entered
  have hsize : shelf'.size = shelf.size + 1 := hsize.trans (Array.size_push _)
  cases outcome with
  | error e => exact ⟨hbefore, .inr ⟨e, rfl, rfl⟩⟩
  | ok d =>
      refine ⟨fun k hk => ?_, .inl ⟨_, rfl, rfl, ?_⟩⟩
      · exact (Array.getElem?_setIfInBounds_ne (by omega)).trans (hbefore k hk)
      · exact Array.getElem?_setIfInBounds_self_of_lt (by omega)

end Shelf

/-- Registers make a layout exactly if names and offsets are distinct; it holds these registers,
finds each by its name and no other name. Otherwise the first register that repeats an earlier name,
or else an earlier offset, is reported. Extending a layout makes another one, which has what the
first has; extending it by one list and then by another comes to the same as extending it by both.
The other one is written to a place of its own, so that the layout that is extended, and every other
one, stays what it was. -/
theorem registers_make_layouts :
    (∀ rs : List Register,
      ((∃ l, ofRegisters rs = .ok l) ↔
        (rs.map Register.name).Nodup ∧ (rs.map Register.offset).Nodup) ∧
      (∀ l, ofRegisters rs = .ok l → Holds l rs) ∧
      ∀ e, ofRegisters rs = .error e ↔ Reports rs e) ∧
    ∀ (l : Layout) (as bs : List Register),
      (∀ l', l.extend as = .ok l' → Holds l' (l.registers ++ as) ∧
        ∀ name, l.has name = true → l'.offset name = l.offset name) ∧
      Alike (l.extend as >>= fun l' => l'.extend bs) (l.extend (as ++ bs)) ∧
      ∀ (shelf : Shelf) (place : Nat), shelf[place]? = some l →
        (∀ k < shelf.size, (shelf.extend place as).1[k]? = shelf[k]?) ∧
        ((∃ l', l.extend as = .ok l' ∧ (shelf.extend place as).2 = .ok shelf.size ∧
            (shelf.extend place as).1[shelf.size]? = some l') ∨
          ∃ e, l.extend as = .error e ∧ (shelf.extend place as).2 = .error e) := by
  refine ⟨fun rs => ⟨?_, fun l hl => (holds_of_ofRegisters hl).2, fun e => ?_⟩,
    fun l as bs => ⟨fun l' hl' => ?_, extend_extend l as bs, fun shelf place hl => ?_⟩⟩
  · constructor
    · rintro ⟨l, hl⟩
      have hall := (holds_of_ofRegisters hl).1
      exact ⟨hall.names, hall.offsets⟩
    · rintro ⟨hnames, hoffsets⟩
      obtain ⟨l, hl, -⟩ := exists_perm_of_distinct ⟨hnames, hoffsets⟩
      exact ⟨l, hl⟩
  · constructor
    · intro h
      rcases distinct_or_reports rs with hall | ⟨e', hr⟩
      · obtain ⟨l, hl, -⟩ := exists_perm_of_distinct hall
        cases h.symm.trans hl
      · cases h.symm.trans (ofRegisters_of_reports hr)
        exact hr
    · exact ofRegisters_of_reports
  · obtain ⟨hall, hholds⟩ := holds_of_ofRegisters hl'
    have hkept := holds_of_perm (.refl l.registers)
    refine ⟨hholds, fun name hname => ?_⟩
    obtain ⟨x, hx, rfl⟩ := List.mem_map.1 ((hkept.has name).1 hname)
    rw [(hkept.offset _ _).2 hx, (hholds.offset _ _).2 (List.mem_append_left as hx)]
  · have hget : shelf.getD place Draft.empty.toLayout = l := by
      rw [Array.getD_eq_getD_getElem?, hl, Option.getD_some]
    rw [Shelf.extend, hget]
    exact Shelf.make_spec shelf (l.registers ++ as)

example : ofRegisters [⟨[98], 4⟩, ⟨[97], -2⟩, ⟨[99], 4⟩, ⟨[97], 0⟩] =
    .error (.collision 4 [98] [99]) := rfl

example : standard.extend [⟨[120], 100⟩, ⟨[121], 3⟩] =
    .error (.collision 3 (Bytes.ofString "tmp2") [121]) := rfl

end Layout

end TapeForge

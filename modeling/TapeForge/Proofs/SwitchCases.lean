import TapeForge.Proofs.Calls
import TapeForge.Proofs.MergeSort
import TapeForge.Proofs.Switch

/-!
# Cases in any order

A switch sorts its cases, and accepts them only if their keys are distinct bytes; then there is one
order that they can be sorted to. So it makes no difference in which order cases are written, nor
how the byte of a key is. Keys that are no bytes may be sorted in any way, as differences of them
wrap, but sorting loses none of them, and one is enough for the switch to be refused.
-/

namespace TapeForge

namespace Gadget

/-- What a switch takes: two cells, and cases whose keys are distinct bytes. -/
structure Accepts (src flag : Offset) (cases : List Case) : Prop where
  apart : src ≠ flag
  range : ∀ c ∈ cases, 0 ≤ c.key ∧ c.key ≤ 255
  nodup : (cases.map Case.key).Nodup

variable {src flag : Offset} {cases cases' : List Case} {body : List Op}

theorem Accepts.perm (h : Accepts src flag cases) (hp : cases.Perm cases') :
    Accepts src flag cases' where
  apart := h.apart
  range c hc := h.range c (hp.mem_iff.2 hc)
  nodup := (hp.map Case.key).nodup_iff.1 h.nodup

/-! ## The check of the keys -/

theorem check_cons_eq_ok_iff {prev : Option Int64} {c : Case} {rest : List Case} :
    Case.check prev (c :: rest) = .ok () ↔
      (0 ≤ c.key ∧ c.key ≤ 255) ∧ prev ≠ some c.key ∧ Case.check (some c.key) rest = .ok () := by
  rw [Case.check]
  by_cases hlow : c.key < 0
  · have hkey : ¬ 0 ≤ c.key := Int64.not_le.2 hlow
    rw [if_pos hlow]
    simp [hkey]
  · by_cases hhigh : Case.maxKey < c.key
    · have hkey : ¬ c.key ≤ 255 := Int64.not_le.2 hhigh
      rw [if_neg hlow, if_pos hhigh]
      simp [hkey]
    · have hkey : 0 ≤ c.key ∧ c.key ≤ 255 := ⟨Int64.not_lt.1 hlow, Int64.not_lt.1 hhigh⟩
      rw [if_neg hlow, if_neg hhigh]
      by_cases hprev : prev = some c.key
      · simp [hprev]
      · simp [hkey, hprev]

theorem range_of_check {prev : Option Int64} (h : Case.check prev cases = .ok ()) :
    ∀ c ∈ cases, 0 ≤ c.key ∧ c.key ≤ 255 := by
  induction cases generalizing prev with
  | nil => simp
  | cons c rest ih =>
      obtain ⟨hc, -, hrest⟩ := check_cons_eq_ok_iff.1 h
      exact List.forall_mem_cons.2 ⟨hc, ih hrest⟩

/-- In sorted cases, keys that differ from the ones before them are distinct. -/
theorem nodup_of_check {prev : Option Int64} (h : Case.check prev cases = .ok ())
    (hsorted : cases.Pairwise fun c d => c.key.toInt ≤ d.key.toInt)
    (hprev : ∀ k, prev = some k → ∀ c ∈ cases, k.toInt ≤ c.key.toInt) :
    (cases.map Case.key).Nodup ∧ ∀ k, prev = some k → k ∉ cases.map Case.key := by
  induction cases generalizing prev with
  | nil => exact ⟨List.nodup_nil, by simp⟩
  | cons c rest ih =>
      obtain ⟨-, hne, hrest⟩ := check_cons_eq_ok_iff.1 h
      obtain ⟨hc, hsorted⟩ := List.pairwise_cons.1 hsorted
      obtain ⟨hnodup, hfresh⟩ := ih hrest hsorted (by rintro k ⟨⟩; exact hc)
      refine ⟨List.nodup_cons.2 ⟨hfresh _ rfl, hnodup⟩, ?_⟩
      rintro k rfl hk
      rcases List.mem_cons.1 hk with rfl | hk
      · exact hne rfl
      · -- A key that came before and comes again has none but its equals in between.
        obtain ⟨d, hd, rfl⟩ := List.mem_map.1 hk
        have hle := hc d hd
        have hge := hprev _ rfl c List.mem_cons_self
        have heq : d.key = c.key := Int64.toInt_inj.1 (by omega)
        exact hne (by rw [heq])

/-- A switch is built exactly if it accepts its cases. -/
theorem switch_ok_iff :
    (∃ ops, switch src flag cases body = .ok ops) ↔ Accepts src flag cases := by
  constructor
  · rintro ⟨ops, h⟩
    unfold switch at h
    obtain ⟨_, hdistinct, h⟩ := Script.bind_eq_ok_iff.1 h
    obtain ⟨_, hcheck, -⟩ := Script.bind_eq_ok_iff.1 h
    have happart : src ≠ flag := by
      simpa using (Op.requireDistinct_eq_ok_iff [src, flag]).1 hdistinct
    have hperm := Sorting.byKeyStable_perm Case.key cases
    have hrange : ∀ c ∈ cases, 0 ≤ c.key ∧ c.key ≤ 255 := by
      intro c hc
      exact range_of_check hcheck c (hperm.mem_iff.2 hc)
    -- Only now is it known that the keys are narrow, and so that sorting has put them in order.
    have hsorted := Sorting.byKeyStable_pairwise (narrow_keys hrange)
    obtain ⟨hnodup, -⟩ := nodup_of_check hcheck hsorted (by simp)
    exact ⟨happart, hrange, (hperm.map Case.key).nodup_iff.1 hnodup⟩
  · intro h
    obtain ⟨sorted, -, -, hops⟩ := switch_eq_ok body h.apart h.nodup h.range
    exact ⟨_, hops⟩

/-- A switch has one list of ops for its cases, in whatever order they are written. -/
theorem switch_perm (hp : cases.Perm cases') (ops : List Op) :
    switch src flag cases body = .ok ops ↔ switch src flag cases' body = .ok ops := by
  suffices hforth : ∀ {l l' : List Case}, l.Perm l' → switch src flag l body = .ok ops →
      switch src flag l' body = .ok ops from ⟨hforth hp, hforth hp.symm⟩
  intro l l' hp h
  have haccepts := switch_ok_iff.1 ⟨ops, h⟩
  have haccepts' := haccepts.perm hp
  obtain ⟨sorted, hperm, hsorted, hops⟩ :=
    switch_eq_ok body haccepts.apart haccepts.nodup haccepts.range
  obtain ⟨sorted', hperm', hsorted', hops'⟩ :=
    switch_eq_ok body haccepts'.apart haccepts'.nodup haccepts'.range
  -- Keys are distinct, so there is one way to sort them.
  have hsame : sorted = sorted' := by
    refine List.Perm.eq_of_pairwise ?_ hsorted hsorted' (hperm.trans (hp.trans hperm'.symm))
    intro c d hc hd hcd hdc
    have hkey : c.key = d.key := Int64.toInt_inj.1 (by omega)
    exact List.inj_on_of_nodup_map haccepts.nodup (hperm.mem_iff.1 hc)
      (hp.mem_iff.2 (hperm'.mem_iff.1 hd)) hkey
  rw [hops', ← hsame, ← hops, h]

end Gadget

namespace Script

/-! ## Cases as scripts write them -/

/-- An entry of a dict writes a case: its key the key's byte, its value the body. -/
def Writes (entry : Datum × Datum) (c : Gadget.Case) : Prop :=
  ∃ b, Denotes entry.1 b ∧ c.key = Int64.ofNat b.toNat ∧ entry.2.ops = .ok c.body

def Clash (d d' : Datum) : Prop := ∃ b, Denotes d b ∧ Denotes d' b

theorem Denotes.unique {d : Datum} {b b' : UInt8} (h : Denotes d b) (h' : Denotes d b') :
    b = b' := by
  rw [← byteOf_eq_ok_iff] at h h'
  exact Except.ok.inj (h.symm.trans h')

theorem ofByte_inj {b b' : UInt8} (h : Int64.ofNat b.toNat = Int64.ofNat b'.toNat) : b = b' := by
  have hlt := b.toNat_lt
  have hlt' := b'.toNat_lt
  have hint := congrArg Int64.toInt h
  rw [Int64.toInt_ofNat_of_lt (by omega), Int64.toInt_ofNat_of_lt (by omega)] at hint
  exact UInt8.toNat_inj.1 (by omega)

/-- Cases have distinct keys exactly if no two of the entries that write them clash. -/
theorem nodup_keys_iff {entries : List (Datum × Datum)} {cases : List Gadget.Case}
    (h : List.Forall₂ Writes entries cases) :
    (cases.map Gadget.Case.key).Nodup ↔ entries.Pairwise fun x y => ¬ Clash x.1 y.1 := by
  induction h with
  | nil => exact ⟨fun _ => .nil, fun _ => List.nodup_nil⟩
  | @cons x c entries cases hx hrest ih =>
      obtain ⟨b, hb, hkey, -⟩ := hx
      have hhead : c.key ∉ cases.map Gadget.Case.key ↔ ∀ y ∈ entries, ¬ Clash x.1 y.1 := by
        clear ih
        induction hrest with
        | nil => simp
        | @cons y d entries cases hy _ ih =>
            obtain ⟨b', hb', hkey', -⟩ := hy
            -- Each key is the one byte that the entry's key denotes.
            have hclash : c.key = d.key ↔ Clash x.1 y.1 := by
              rw [hkey, hkey']
              constructor
              · intro heq
                exact ⟨b, hb, ofByte_inj heq ▸ hb'⟩
              · rintro ⟨k, hk, hk'⟩
                rw [hb.unique hk, hb'.unique hk']
            rw [List.map_cons, List.mem_cons, not_or, List.forall_mem_cons, ih, hclash]
      rw [List.map_cons, List.nodup_cons, List.pairwise_cons, hhead, ih]

namespace Builtin

theorem caseOf_eq_ok_iff {entry : Datum × Datum} {c : Gadget.Case} :
    caseOf entry = .ok c ↔ Writes entry c := by
  unfold caseOf
  constructor
  · intro h
    obtain ⟨b, hb, h⟩ := Reply.bind_eq_ok_iff.1 h
    obtain ⟨body, hbody, h⟩ := Reply.bind_eq_ok_iff.1 h
    cases h
    have hb := mapError_eq_ok_iff.1 (Reply.of_eq_ok_iff.1 hb)
    exact ⟨b, byteOf_eq_ok_iff.1 hb, rfl, Reply.mapError_eq_ok_iff.1 hbody⟩
  · rintro ⟨b, hb, hkey, hbody⟩
    obtain ⟨key, body⟩ := c
    cases hkey
    rw [byteOf_eq_ok_iff.2 hb, hbody]
    rfl

theorem opsAt_eq_ok_iff {values : List (Option Datum)} {i : Nat} {os : List Op} :
    opsAt values i = .ok os ↔ ((values[i]?).join.getD .none).ops = .ok os := by
  unfold opsAt
  cases (values[i]?).join with
  | none =>
      rw [Option.getD_none, Datum.ops]
      exact ⟨fun h => by cases h; rfl, fun h => by cases h; rfl⟩
  | some d => exact Reply.mapError_eq_ok_iff

theorem wordOf_int (n : Int64) : wordOf (Datum.int n.toInt) = .ok n := by
  have hlow := n.le_toInt
  have hhigh := n.toInt_lt
  have hrange : -0x8000000000000000 ≤ n.toInt ∧ n.toInt < 0x8000000000000000 := by omega
  show (if _ then _ else _) = _
  rw [if_pos hrange, Int64.ofInt_toInt]

def switchParams : List Parameter :=
  [intParam "src", intParam "flag", ⟨"cases", .dict, false⟩, opsParam "default"]

variable {args : List Datum} {named : List (Bytes × Datum)} {src flag : Offset}
  {entries : List (Datum × Datum)} {fallback : Option Datum}

/-- A call gives a switch its cells, its cases as the entries of a dict, and a default or none, by
position or by name. -/
def Gives (args : List Datum) (named : List (Bytes × Datum)) (src flag : Offset)
    (entries : List (Datum × Datum)) (fallback : Option Datum) : Prop :=
  takeNamed switchParams args named =
    .ok [some (.int src.toInt), some (.int flag.toInt), some (.dict entries), fallback]

theorem call_switch_eq_ok_iff (h : Gives args named src flag entries fallback) (d : Datum) :
    switch.call args named = .ok d ↔ ∃ cases body ops, List.Forall₂ Writes entries cases ∧
      (fallback.getD .none).ops = .ok body ∧ Gadget.switch src flag cases body = .ok ops ∧
      d = Datum.ofOps ops := by
  have hwritten : ∀ {cases : List Gadget.Case},
      entries.mapM caseOf = .ok cases ↔ List.Forall₂ Writes entries cases := by
    intro cases
    simp only [Reply.mapM_eq_ok_iff, caseOf_eq_ok_iff]
  unfold Gives at h
  rw [call_eq_ok_iff]
  unfold run
  constructor
  · intro hrun
    obtain ⟨vs, hvs, hrun⟩ := Reply.bind_eq_ok_iff.1 hrun
    cases h.symm.trans (Reply.of_eq_ok_iff.1 hvs)
    obtain ⟨cases, hcases, hrun⟩ := Reply.bind_eq_ok_iff.1 hrun
    obtain ⟨body, hbody, hrun⟩ := Reply.bind_eq_ok_iff.1 hrun
    obtain ⟨ops, hops, hrun⟩ := Reply.bind_eq_ok_iff.1 hrun
    cases hrun
    have hswitch := Reply.orPanic_eq_ok_iff.1 hops
    refine ⟨cases, body, ops, hwritten.1 hcases, opsAt_eq_ok_iff.1 hbody, ?_, rfl⟩
    simpa [wordAt, wordOf_int] using hswitch
  · rintro ⟨cases, body, ops, hcases, hbody, hops, rfl⟩
    have hswitch : Gadget.switch (wordAt [some (.int src.toInt)] 0 0)
        (wordAt [some (.int flag.toInt)] 0 0) cases body = .ok ops := by
      simpa [wordAt, wordOf_int] using hops
    refine Reply.bind_eq_ok_iff.2 ⟨_, Reply.of_eq_ok_iff.2 h, ?_⟩
    refine Reply.bind_eq_ok_iff.2 ⟨cases, hwritten.2 hcases, ?_⟩
    refine Reply.bind_eq_ok_iff.2 ⟨body, opsAt_eq_ok_iff.2 hbody, ?_⟩
    exact Reply.bind_eq_ok_iff.2 ⟨ops, Reply.orPanic_eq_ok_iff.2 hswitch, rfl⟩

/-! ## What is accepted -/

theorem Writes.unique {entry : Datum × Datum} {c c' : Gadget.Case} (h : Writes entry c)
    (h' : Writes entry c') : c = c' := by
  rw [← caseOf_eq_ok_iff] at h h'
  exact Reply.ok.inj (h.symm.trans h')

theorem exists_writes_iff :
    (∃ cases, List.Forall₂ Writes entries cases) ↔
      (∀ x ∈ entries, ∃ b, Denotes x.1 b) ∧ ∀ x ∈ entries, ∃ os, x.2.ops = .ok os := by
  induction entries with
  | nil => simp
  | cons x entries ih =>
      constructor
      · rintro ⟨_, _ | ⟨⟨b, hb, -, hbody⟩, hrest⟩⟩
        obtain ⟨hkeys, hbodies⟩ := ih.1 ⟨_, hrest⟩
        exact ⟨List.forall_mem_cons.2 ⟨⟨b, hb⟩, hkeys⟩,
          List.forall_mem_cons.2 ⟨⟨_, hbody⟩, hbodies⟩⟩
      · rintro ⟨hkeys, hbodies⟩
        obtain ⟨⟨b, hb⟩, hkeys⟩ := List.forall_mem_cons.1 hkeys
        obtain ⟨⟨os, hos⟩, hbodies⟩ := List.forall_mem_cons.1 hbodies
        obtain ⟨cases, hcases⟩ := ih.2 ⟨hkeys, hbodies⟩
        exact ⟨⟨Int64.ofNat b.toNat, os⟩ :: cases, .cons ⟨b, hb, rfl, hos⟩ hcases⟩

/-- Keys that are written as bytes are in range. -/
theorem accepts_iff {cases : List Gadget.Case} (h : List.Forall₂ Writes entries cases) :
    Gadget.Accepts src flag cases ↔
      src ≠ flag ∧ entries.Pairwise fun x y => ¬ Clash x.1 y.1 := by
  rw [← nodup_keys_iff h]
  constructor
  · intro haccepts
    exact ⟨haccepts.apart, haccepts.nodup⟩
  · rintro ⟨hapart, hnodup⟩
    refine ⟨hapart, ?_, hnodup⟩
    intro c hc
    obtain ⟨x, -, b, -, hkey, -⟩ := exists_of_mem_right h hc
    have hlt := b.toNat_lt
    have hint : (Int64.ofNat b.toNat).toInt = b.toNat := Int64.toInt_ofNat_of_lt (by omega)
    have h255 : (255 : Int64).toInt = 255 := by decide
    rw [hkey, Int64.le_iff_toInt_le, Int64.le_iff_toInt_le, hint, h255, Int64.toInt_zero]
    omega

/-- Entries of a dict write cases, in some order. -/
def WrittenAs (entries : List (Datum × Datum)) (cases : List Gadget.Case) : Prop :=
  ∃ written, List.Forall₂ Writes entries written ∧ written.Perm cases

theorem call_switch_ok_iff (h : Gives args named src flag entries fallback) :
    (∃ d, switch.call args named = .ok d) ↔
      src ≠ flag ∧ (∀ x ∈ entries, ∃ b, Denotes x.1 b) ∧
      (entries.Pairwise fun x y => ¬ Clash x.1 y.1) ∧
      (∀ x ∈ entries, ∃ os, x.2.ops = .ok os) ∧ ∃ os, (fallback.getD .none).ops = .ok os := by
  simp only [call_switch_eq_ok_iff h]
  constructor
  · rintro ⟨_, cases, body, ops, hwrites, hbody, hops, -⟩
    obtain ⟨hapart, hclash⟩ := (accepts_iff hwrites).1 (Gadget.switch_ok_iff.1 ⟨ops, hops⟩)
    obtain ⟨hkeys, hbodies⟩ := exists_writes_iff.1 ⟨cases, hwrites⟩
    exact ⟨hapart, hkeys, hclash, hbodies, body, hbody⟩
  · rintro ⟨hapart, hkeys, hclash, hbodies, body, hbody⟩
    obtain ⟨cases, hwrites⟩ := exists_writes_iff.2 ⟨hkeys, hbodies⟩
    obtain ⟨ops, hops⟩ := Gadget.switch_ok_iff.2 ((accepts_iff hwrites).2 ⟨hapart, hclash⟩)
    exact ⟨_, cases, body, ops, hwrites, hbody, hops, rfl⟩

theorem call_switch_not_ok_iff (h : Gives args named src flag entries fallback) :
    (¬ ∃ d, switch.call args named = .ok d) ↔
      src = flag ∨ (∃ x ∈ entries, ∀ b, ¬ Denotes x.1 b) ∨
      (∃ x y, [x, y].Sublist entries ∧ Clash x.1 y.1) ∨
      (∃ x ∈ entries, ¬ ∃ os, x.2.ops = .ok os) ∨ ¬ ∃ os, (fallback.getD .none).ops = .ok os := by
  have hpair : (entries.Pairwise fun x y => ¬ Clash x.1 y.1) ↔
      ∀ x y, [x, y].Sublist entries → ¬ Clash x.1 y.1 := by
    rw [List.pairwise_iff_forall_sublist]
  rw [call_switch_ok_iff h, hpair]
  simp only [not_and_or, not_forall, not_exists, exists_prop, not_not, ne_eq]

/-- A switch comes back if flattening its bodies and its default does. -/
theorem call_switch_ne_endless (h : Gives args named src flag entries fallback)
    (hentries : ∀ x ∈ entries, x.2.ops ≠ .endless)
    (hfallback : (fallback.getD .none).ops ≠ .endless) : switch.call args named ≠ .endless := by
  have htame : (switch.run args named).Tame False := by
    refine .bind .of fun vs hvs => ?_
    cases h.symm.trans (Reply.of_eq_ok_iff.1 hvs)
    refine .bind (.mapM fun x hx => (tame_caseOf x).imp (hentries x hx)) fun _ _ => ?_
    refine .bind ((tame_opsAt _ 3).imp hfallback) fun _ _ => ?_
    exact .bind .orPanic fun _ _ => .ok
  exact fun hendless => htame.mapError.recover_endless hendless

theorem call_switch_fails_iff (h : Gives args named src flag entries fallback)
    (hentries : ∀ x ∈ entries, x.2.ops ≠ .endless)
    (hfallback : (fallback.getD .none).ops ≠ .endless) :
    (∃ e, switch.call args named = .error e) ↔
      src = flag ∨ (∃ x ∈ entries, ∀ b, ¬ Denotes x.1 b) ∨
      (∃ x y, [x, y].Sublist entries ∧ Clash x.1 y.1) ∨
      (∃ x ∈ entries, ∃ e, x.2.ops = .error e) ∨ ∃ e, (fallback.getD .none).ops = .error e := by
  have hbodies : (∃ x ∈ entries, ∃ e, x.2.ops = .error e) ↔
      ∃ x ∈ entries, ¬ ∃ os, x.2.ops = .ok os :=
    exists_congr fun x => and_congr_right fun hx =>
      Reply.exists_error_iff x.2.ops_ne_panic (hentries x hx)
  have hpanic := call_ne_panic switch args named
  have hendless := call_switch_ne_endless h hentries hfallback
  rw [Reply.exists_error_iff hpanic hendless, call_switch_not_ok_iff h, hbodies,
    Reply.exists_error_iff (Datum.ops_ne_panic _) hfallback]

/-- The list that a switch gives is that of its cases, for each order in which they are written, in
ops or as the entries of a dict, and however the bytes of the keys are written there. A switch is
refused only for cells that coincide, for keys that are no bytes, and for keys that are the same
byte; its builtin also for bodies and defaults that are no ops, and then it fails, unless it comes
to one that there is no end to. -/
theorem switch_ignores_order (src flag : Offset) :
    (∀ cases cases' body, cases.Perm cases' → ∀ ops,
      Gadget.switch src flag cases body = .ok ops ↔
        Gadget.switch src flag cases' body = .ok ops) ∧
    (∀ cases body, (∃ e, Gadget.switch src flag cases body = .error e) ↔
      src = flag ∨ (∃ c ∈ cases, c.key < 0 ∨ 255 < c.key) ∨ ¬ (cases.map Gadget.Case.key).Nodup) ∧
    ∀ args named entries fallback, Gives args named src flag entries fallback →
      (∀ cases body, WrittenAs entries cases → (fallback.getD .none).ops = .ok body → ∀ d,
        switch.call args named = .ok d ↔
          ∃ ops, Gadget.switch src flag cases body = .ok ops ∧ d = Datum.ofOps ops) ∧
      ((¬ ∃ d, switch.call args named = .ok d) ↔
        src = flag ∨ (∃ x ∈ entries, ∀ b, ¬ Denotes x.1 b) ∨
        (∃ x y, [x, y].Sublist entries ∧ Clash x.1 y.1) ∨
        (∃ x ∈ entries, ¬ ∃ os, x.2.ops = .ok os) ∨
        ¬ ∃ os, (fallback.getD .none).ops = .ok os) ∧
      ((∀ x ∈ entries, x.2.ops ≠ .endless) → (fallback.getD .none).ops ≠ .endless →
        ((∃ e, switch.call args named = .error e) ↔
          src = flag ∨ (∃ x ∈ entries, ∀ b, ¬ Denotes x.1 b) ∨
          (∃ x y, [x, y].Sublist entries ∧ Clash x.1 y.1) ∨
          (∃ x ∈ entries, ∃ e, x.2.ops = .error e) ∨
          ∃ e, (fallback.getD .none).ops = .error e)) := by
  refine ⟨fun cases cases' body hp ops => Gadget.switch_perm hp ops, ?_, ?_⟩
  · intro cases body
    rw [exists_error_iff, Gadget.switch_ok_iff]
    constructor
    · intro hrefused
      by_contra hnone
      simp only [not_or, not_exists, not_and, not_not, Int64.not_lt] at hnone
      exact hrefused ⟨hnone.1, hnone.2.1, hnone.2.2⟩
    · rintro hwhy ⟨hapart, hrange, hnodup⟩
      rcases hwhy with hsame | ⟨c, hc, hlow | hhigh⟩ | hrepeated
      · exact hapart hsame
      · exact Int64.not_lt.2 (hrange c hc).1 hlow
      · exact Int64.not_lt.2 (hrange c hc).2 hhigh
      · exact hrepeated hnodup
  · intro args named entries fallback h
    refine ⟨?_, call_switch_not_ok_iff h, call_switch_fails_iff h⟩
    rintro cases body ⟨written, hwritten, hp⟩ hbody d
    rw [call_switch_eq_ok_iff h]
    constructor
    · rintro ⟨cases', body', ops, hwritten', hbody', hops, rfl⟩
      obtain rfl : cases' = written :=
        List.right_unique_forall₂' (R := Writes) (fun _ _ _ => Writes.unique) hwritten' hwritten
      cases hbody.symm.trans hbody'
      exact ⟨ops, (Gadget.switch_perm hp ops).1 hops, rfl⟩
    · rintro ⟨ops, hops, rfl⟩
      exact ⟨written, body, ops, hwritten, hbody, (Gadget.switch_perm hp ops).2 hops, rfl⟩

/-- Two cases in a dict, the greater first, one key a text and the other a number, and a default by
name; and two cases whose keys are the same byte. -/
theorem switch_ignores_order_of_two :
    Gives [.int 0, .int 1, .dict [(.text [98], .op .write), (.int 97, .list [.op .read])]]
      [(Bytes.ofString "default", .none)] 0 1
      [(.text [98], .op .write), (.int 97, .list [.op .read])] (some .none) ∧
    (∃ ops, Gadget.switch 0 1 [⟨97, [.read]⟩, ⟨98, [.write]⟩] [] = .ok ops ∧
      switch.call
        [.int 0, .int 1, .dict [(.text [98], .op .write), (.int 97, .list [.op .read])]]
        [(Bytes.ofString "default", .none)] = .ok (Datum.ofOps ops)) ∧
    ∃ e, switch.call [.int 0, .int 1, .dict [(.text [97], .op .write), (.int 97, .none)]] [] =
      .error e := by
  have hgives : Gives
      [.int 0, .int 1, .dict [(.text [98], .op .write), (.int 97, .list [.op .read])]]
      [(Bytes.ofString "default", .none)] 0 1
      [(.text [98], .op .write), (.int 97, .list [.op .read])] (some .none) := rfl
  have hwritten : WrittenAs [(.text [98], .op .write), (.int 97, .list [.op .read])]
      [⟨97, [.read]⟩, ⟨98, [.write]⟩] := by
    refine ⟨[⟨98, [.write]⟩, ⟨97, [.read]⟩], ?_, .swap _ _ _⟩
    exact .cons ⟨98, .inl rfl, rfl, rfl⟩ (.cons ⟨97, .inr rfl, rfl, rfl⟩ .nil)
  have hclash : Gives [.int 0, .int 1, .dict [(.text [97], .op .write), (.int 97, .none)]] [] 0 1
      [(.text [97], .op .write), (.int 97, .none)] none := rfl
  obtain ⟨-, -, h⟩ := switch_ignores_order 0 1
  obtain ⟨hlist, -⟩ := h _ _ _ _ hgives
  obtain ⟨-, -, hfails⟩ := h _ _ _ _ hclash
  refine ⟨hgives, ⟨_, rfl, (hlist _ [] hwritten rfl _).2 ⟨_, rfl, rfl⟩⟩, ?_⟩
  have hreturns : ∀ x ∈ [(Datum.text [97], Datum.op .write), (.int 97, .none)],
      x.2.ops ≠ .endless := by
    simp [Datum.ops]
  refine (hfails hreturns nofun).2 (.inr (.inr (.inl ⟨_, _, List.Sublist.refl _, 97, ?_⟩)))
  exact ⟨.inl rfl, .inr rfl⟩

end Builtin

end Script

end TapeForge

import TapeForge.Proofs.Provenance.Carrier

/-!
# Computations that make no ops

A computation keeps a property of ops if it gives a value whose ops have it and leaves a store whose
ops have it, whenever it starts from such a store. Nothing is said of one that fails: the only
failure that is recovered from is that of a comparison, which leaves the store as it was. A
computation made of others keeps what these keep, so a proof goes through it step by step.
-/

namespace TapeForge.Script

open Store

/-- What is asked of every op. The computations below are about any such demand, and it is found as
an instance, for nothing in a computation tells which one is meant. -/
class Standard where
  Good : Op → Prop

open Standard

variable [Standard] {α : Type} [HasOps α]

/-- From a store whose ops all satisfy a property, a computation gives a value and leaves a store
for which that is so again. -/
def Keeps (act : Eval α) : Prop :=
  ∀ s a s', AllOps Good s → act s = .ok a s' → AllOps Good a ∧ AllOps Good s'

namespace Keeps

theorem pure {a : α} (h : AllOps Good a) : Keeps (pure a : Eval α) := by
  intro s b s' hs hb
  cases hb
  exact ⟨h, hs⟩

theorem bind {β : Type} [HasOps β] {act : Eval α} {f : α → Eval β} (h : Keeps act)
    (hf : ∀ a, AllOps Good a → Keeps (f a)) : Keeps (act >>= f) := by
  intro s b s' hs hb
  change EStateM.bind act f s = .ok b s' at hb
  unfold EStateM.bind at hb
  split at hb
  · rename_i a t ha
    obtain ⟨hgood, ht⟩ := h s a t hs ha
    exact hf a hgood t b s' ht hb
  · cases hb

/-- What no op can be in comes of any step. -/
theorem plain [OpFree β] {b : β} : Keeps (Pure.pure b : Eval β) := pure trivial

/-- A value that is none of those with ops in them. -/
theorem flat {v : Value} (h : v.isFlat = true) : Keeps (Pure.pure v : Eval Value) :=
  pure (Value.allOps_of_isFlat h)

theorem ite {c : Prop} [Decidable c] {yes no : Eval α} (hyes : Keeps yes) (hno : Keeps no) :
    Keeps (if c then yes else no) := by
  split
  · exact hyes
  · exact hno

/-- A step that is done only in some cases. -/
theorem guard {β : Type} [HasOps β] {c : Prop} [Decidable c] {act : Eval Unit}
    {next : Unit → Eval β} (h : Keeps act) (hnext : ∀ x, Keeps (next x)) :
    Keeps (if c then act >>= next else next ()) :=
  ite (bind h fun x _ => hnext x) (hnext ())

/-- Only the runs that succeed count. -/
theorem of_ok {act act' : Eval α} (h : Keeps act)
    (hok : ∀ s a s', act' s = .ok a s' → act s = .ok a s') : Keeps act' :=
  fun s a s' hs ha => h s a s' hs (hok s a s' ha)

/-! ## Failures and places -/

theorem raise {e : EvalError} : Keeps (raise e : Eval α) := fun _ _ _ _ h => nomatch h

theorem locate {pos : Position} {act : Eval α} (h : Keeps act) : Keeps (locate pos act) := by
  refine h.of_ok fun s a s' ha => ?_
  unfold Script.locate at ha
  split at ha <;> cases ha
  assumption

theorem locateBy {place : Unit → Option Position} {act : Eval α} (h : Keeps act) :
    Keeps (locateBy place act) := by
  refine h.of_ok fun s a s' ha => ?_
  unfold Script.locateBy at ha
  split at ha <;> cases ha
  assumption

theorem inFrame {name : String} {native : Bool} {act : Eval α} (h : Keeps act) :
    Keeps (inFrame name native act) := by
  refine h.of_ok fun s a s' ha => ?_
  unfold Script.inFrame at ha
  split at ha <;> cases ha
  assumption

theorem naming {callee : String} {act : Eval α} (h : Keeps act) :
    Keeps (naming callee act) := by
  refine h.of_ok fun s a s' ha => ?_
  unfold Script.naming at ha
  split at ha <;> cases ha
  assumption

theorem taking {callee : String} {r : Except CallFault α} (h : ∀ a, r = .ok a → AllOps Good a) :
    Keeps (taking callee r) := by
  cases r with
  | ok a => exact pure (h a rfl)
  | error e => exact raise

theorem keyed {r : Except KeyFault α} (h : ∀ a, r = .ok a → AllOps Good a) : Keeps (keyed r) := by
  cases r with
  | ok a => exact pure (h a rfl)
  | error e => exact raise

/-- A key has no ops in it. -/
theorem toKey {v : Value} : Keeps (Script.keyed v.toKey) := keyed fun _ _ => trivial

theorem enter {t : Table α} {k : Key} {v : α} {f : α → α} (ht : AllOps Good t) (hv : AllOps Good v)
    (hf : ∀ x, AllOps Good x → AllOps Good (f x)) : Keeps (Script.keyed (t.enter k v f)) :=
  keyed fun _ h => Table.allOps_enter ht hv hf h

theorem get? {t : Table α} {k : Key} (ht : AllOps Good t) : Keeps (Script.keyed (t.get? k)) :=
  keyed fun _ h => Table.allOps_get? ht h

/-! ## The store -/

theorem modify {f : Store → Store} (h : ∀ s, (f s).objects = s.objects) : Keeps (modify f) := by
  intro s a s' hs ha
  cases ha
  exact ⟨trivial, allOps_store.2 (h s ▸ hs)⟩

theorem alloc {o : Object} (h : AllOps Good o) : Keeps (alloc o) := by
  intro s a s' hs ha
  cases ha
  exact ⟨trivial, allOps_push.2 ⟨hs, h⟩⟩

theorem read {ref : Nat} : Keeps (read ref) := by
  intro s a s' hs ha
  cases ha
  exact ⟨allOps_array_getD hs allOps_none ref, hs⟩

theorem change {ref : Nat} {f : Object → Object} (h : ∀ o, AllOps Good o → AllOps Good (f o)) :
    Keeps (change ref f) := by
  intro s a s' hs ha
  cases ha
  exact ⟨trivial, allOps_modify hs h ref⟩

theorem update {ref : Nat} {o : Object} (h : AllOps Good o) : Keeps (update ref o) :=
  change fun _ _ => h

theorem freshId : Keeps freshId := by
  intro s a s' hs ha
  cases ha
  exact ⟨trivial, hs⟩

theorem newList {elems : List Value} (h : AllOps Good elems) : Keeps (newList elems) :=
  bind (alloc (allOps_toArray.2 h)) fun _ _ => flat rfl

theorem newDict {table : Table (Value × Value)} (h : AllOps Good table) :
    Keeps (newDict table) :=
  bind (alloc h) fun _ _ => flat rfl

theorem newSet {table : Table Value} (h : AllOps Good table) : Keeps (newSet table) :=
  bind (alloc h) fun _ _ => flat rfl

theorem listElems {ref : Nat} : Keeps (listElems ref) := by
  refine bind read fun o ho => ?_
  cases o with
  | list elems _ _ => exact pure ho
  | _ => exact pure allOps_emptyArray

theorem dictTable {ref : Nat} : Keeps (dictTable ref) := by
  refine bind read fun o ho => ?_
  cases o with
  | dict table _ _ => exact pure ho
  | _ => exact pure Table.allOps_empty

theorem setTable {ref : Nat} : Keeps (setTable ref) := by
  refine bind read fun o ho => ?_
  cases o with
  | set table _ _ => exact pure ho
  | _ => exact pure Table.allOps_empty

theorem mutable {ref : Nat} {what : String} : Keeps (mutable ref what) := by
  refine bind read fun o _ => ?_
  cases o with
  | list | dict | set => exact guard raise fun _ => guard raise fun _ => plain
  | _ => exact plain

theorem changeList {ref : Nat} {f : Array Value → Array Value}
    (h : ∀ vs, AllOps Good vs → AllOps Good (f vs)) : Keeps (changeList ref f) := by
  refine change fun o ho => ?_
  cases o with
  | list elems _ _ => exact h elems ho
  | _ => exact ho

theorem setDict {ref : Nat} {table : Table (Value × Value)} (h : AllOps Good table) :
    Keeps (setDict ref table) := by
  refine change fun o ho => ?_
  cases o with
  | dict _ _ _ => exact h
  | _ => exact ho

theorem setSet {ref : Nat} {table : Table Value} (h : AllOps Good table) :
    Keeps (setSet ref table) := by
  refine change fun o ho => ?_
  cases o with
  | set _ _ _ => exact h
  | _ => exact ho

theorem occupy {ref : Nat} {enter : Bool} : Keeps (occupy ref enter) := by
  refine change fun o ho => ?_
  cases o with
  | _ => exact ho

theorem hold {v : Value} {enter : Bool} : Keeps (hold v enter) := by
  cases v with
  | list ref | dict ref | set ref => exact occupy
  | _ => exact plain

theorem tryCatch {act : Eval α} {handler : Raised → Eval α} (h : Keeps act)
    (hfails : ∀ e s a s', handler e s ≠ .ok a s') : Keeps (tryCatch act handler) := by
  intro s a s' hs ha
  change EStateM.tryCatch act handler s = .ok a s' at ha
  unfold EStateM.tryCatch at ha
  dsimp only at ha
  split at ha
  · exact absurd ha (hfails _ _ _ _)
  · exact h s a s' hs ha

/-- What is held is let go again also when something fails, but then the failure goes on. -/
theorem holding {v : Value} {act : Eval α} (h : Keeps act) : Keeps (holding v act) := by
  have htry : Keeps (tryCatchThe Raised act fun e => do
      Store.hold v false
      throw e) := by
    refine tryCatch h fun e s a s' ha => ?_
    change EStateM.bind _ _ s = _ at ha
    unfold EStateM.bind at ha
    split at ha <;> cases ha
  refine bind hold fun _ _ => bind htry fun a ha => ?_
  exact bind hold fun _ _ => pure ha

/-! ## Repetition -/

section

variable {β : Type} [HasOps β] {xs : List β}

theorem mapM {f : β → Eval α} (hxs : AllOps Good xs) (h : ∀ x, AllOps Good x → Keeps (f x)) :
    Keeps (xs.mapM f) := by
  induction xs with
  | nil =>
    rw [List.mapM_nil]
    exact pure allOps_nil
  | cons x xs ih =>
    obtain ⟨hx, hxs⟩ := allOps_cons.1 hxs
    rw [List.mapM_cons]
    exact bind (h x hx) fun a ha => bind (ih hxs) fun as has => pure (allOps_cons.2 ⟨ha, has⟩)

theorem foldlM {f : α → β → Eval α} {a : α} (ha : AllOps Good a) (hxs : AllOps Good xs)
    (h : ∀ b x, AllOps Good b → AllOps Good x → Keeps (f b x)) : Keeps (xs.foldlM f a) := by
  induction xs generalizing a with
  | nil =>
    rw [List.foldlM_nil]
    exact pure ha
  | cons x xs ih =>
    obtain ⟨hx, hxs⟩ := allOps_cons.1 hxs
    rw [List.foldlM_cons]
    exact bind (h a x ha hx) fun b hb => ih hb hxs

theorem forM {f : β → Eval Unit} (hxs : AllOps Good xs) (h : ∀ x, AllOps Good x → Keeps (f x)) :
    Keeps (xs.forM f) := by
  induction xs with
  | nil => exact plain
  | cons x xs ih =>
    obtain ⟨hx, hxs⟩ := allOps_cons.1 hxs
    exact bind (h x hx) fun _ _ => ih hxs

instance : OpFree (ForInStep PUnit) where

theorem forIn {f : β → PUnit → Eval (ForInStep PUnit)} (hxs : AllOps Good xs)
    (h : ∀ x r, AllOps Good x → Keeps (f x r)) : Keeps (forIn xs PUnit.unit f) := by
  induction xs with
  | nil =>
    rw [List.forIn_nil]
    exact plain
  | cons x xs ih =>
    obtain ⟨hx, hxs⟩ := allOps_cons.1 hxs
    rw [List.forIn_cons]
    refine bind (h x _ hx) fun r _ => ?_
    cases r with
    | done _ => exact plain
    | yield _ => exact ih hxs

end

end Keeps

/-! ## Data and values -/

/-- One level of a value as a datum: what stands inside it has less fuel. -/
theorem allOps_datum_succ {objects : Array Object} (hobjects : AllOps Good objects) {fuel : Nat}
    (hdata : ∀ path vs, AllOps Good vs → AllOps Good (data objects fuel path vs))
    (hentries : ∀ path es, AllOps Good es → AllOps Good (dataEntries objects fuel path es))
    (path : List Nat) (v : Value) (hv : AllOps Good v) :
    AllOps Good (datum objects (fuel + 1) path v) := by
  have hread : ∀ ref, AllOps Good (objects.getD ref default) :=
    fun ref => allOps_array_getD hobjects allOps_none ref
  cases v with
  | tuple elems => exact Datum.allOps_datum_tuple.2 (hdata path elems (Value.allOps_tuple.1 hv))
  | list ref =>
    rw [datum]
    split
    · exact Datum.allOps_of_opsIn_eq_nil rfl
    · split
      · rename_i elems _ _ hlist
        have helems := hread ref
        rw [hlist] at helems
        exact Datum.allOps_datum_list.2 (hdata _ _ (allOps_toList.2 helems))
      · exact Datum.allOps_datum_list.2 allOps_nil
  | dict ref =>
    rw [datum]
    split
    · exact Datum.allOps_of_opsIn_eq_nil rfl
    · split
      · rename_i table _ _ hdict
        have htable := hread ref
        rw [hdict] at htable
        exact Datum.allOps_datum_dict.2 (hentries _ _ (Table.allOps_values htable))
      · exact Datum.allOps_datum_dict.2 allOps_nil
  | set ref =>
    rw [datum]
    split
    · rename_i table _ _ hset
      have htable := hread ref
      rw [hset] at htable
      exact Datum.allOps_datum_set.2 (hdata _ _ (Table.allOps_values htable))
    · exact Datum.allOps_datum_set.2 allOps_nil
  | op o id => exact Datum.allOps_datum_op.2 (Value.allOps_valueOp.1 hv)
  | _ => exact Datum.allOps_of_opsIn_eq_nil rfl

/-- A value as a datum has the ops that the value has by itself and through the store. -/
theorem allOps_datum (objects : Array Object) (hobjects : AllOps Good objects) (fuel : Nat) :
    (∀ path v, AllOps Good v → AllOps Good (datum objects fuel path v)) ∧
    (∀ path vs, AllOps Good vs → AllOps Good (data objects fuel path vs)) ∧
    (∀ path es, AllOps Good es → AllOps Good (dataEntries objects fuel path es)) := by
  induction fuel with
  | zero =>
    refine ⟨?_, ?_, ?_⟩
    · intro path v _
      rw [datum]
      exact Datum.allOps_of_opsIn_eq_nil rfl
    · intro path vs _
      rw [data]
      exact allOps_nil
    · intro path es _
      rw [dataEntries]
      exact allOps_nil
  | succ fuel ih =>
    obtain ⟨hdatum, hdata, hentries⟩ := ih
    refine ⟨allOps_datum_succ hobjects hdata hentries, ?_, ?_⟩
    · intro path vs hvs
      cases vs with
      | nil => exact allOps_nil
      | cons v vs =>
        rw [allOps_cons] at hvs
        exact allOps_cons.2 ⟨hdatum path v hvs.1, hdata path vs hvs.2⟩
    · intro path es hes
      cases es with
      | nil => exact allOps_nil
      | cons e es =>
        rw [allOps_cons] at hes
        exact allOps_cons.2
          ⟨⟨hdatum path _ hes.1.1, hdatum path _ hes.1.2⟩, hentries path es hes.2⟩

namespace Keeps

theorem toDatum {v : Value} (h : AllOps Good v) : Keeps (toDatum v) := by
  intro s a s' hs ha
  cases ha
  exact ⟨(allOps_datum s.objects hs datumFuel).1 [] v h, hs⟩

theorem reprOf {v : Value} (h : AllOps Good v) : Keeps (reprOf v) :=
  bind (toDatum h) fun _ _ => plain

/-- A table of new elements. -/
theorem enterAll {vs : List Value} (h : AllOps Good vs) :
    Keeps (vs.foldlM (fun t v => do
      Script.keyed (Table.enter t (← Script.keyed v.toKey) v id)) {}) :=
  foldlM Table.allOps_empty h fun _ _ ht hv => bind toKey fun _ _ => enter ht hv fun _ hx => hx

mutual

theorem ofDatum (frozen : Bool) : ∀ d, AllOps Good d → Keeps (ofDatum frozen d)
  | .list elems, h => by
    rw [Store.ofDatum]
    refine bind (Keeps.ofData frozen elems (Datum.allOps_datum_list.1 h)) fun vs hvs => ?_
    exact bind (alloc (allOps_toArray.2 hvs)) fun _ _ => flat rfl
  | .tuple elems, h => by
    rw [Store.ofDatum]
    refine bind (Keeps.ofData frozen elems (Datum.allOps_datum_tuple.1 h)) fun vs hvs => ?_
    exact pure (Value.allOps_tuple.2 hvs)
  | .dict es, h => by
    rw [Store.ofDatum]
    refine bind (Keeps.ofDataEntries frozen es {} Table.allOps_empty
      (Datum.allOps_datum_dict.1 h)) fun t ht => ?_
    exact bind (alloc ht) fun _ _ => flat rfl
  | .set elems, h => by
    rw [Store.ofDatum]
    refine bind (Keeps.ofData frozen elems (Datum.allOps_datum_set.1 h)) fun vs hvs => ?_
    exact bind (enterAll hvs) fun t ht => bind (alloc ht) fun _ _ => flat rfl
  | .op o, h => by
    rw [Store.ofDatum]
    exact bind freshId fun _ _ => pure (Value.allOps_valueOp.2 (Datum.allOps_datum_op.1 h))
  | .none, _ | .bool _, _ | .int _, _ | .float _, _ | .text _, _ | .bytes _, _
  | .range .., _ | .view .., _ | .function _, _ | .builtin _, _ | .method .., _ | .again _, _ => by
    rw [Store.ofDatum]
    exact flat rfl

theorem ofData (frozen : Bool) : ∀ ds : List Datum, AllOps Good ds → Keeps (ofData frozen ds)
  | [], _ => pure allOps_nil
  | d :: ds, h => by
    obtain ⟨hd, hds⟩ := allOps_cons.1 h
    rw [Store.ofData]
    refine bind (Keeps.ofDatum frozen d hd) fun v hv => ?_
    exact bind (Keeps.ofData frozen ds hds) fun vs hvs => pure (allOps_cons.2 ⟨hv, hvs⟩)

theorem ofDataEntries (frozen : Bool) : ∀ (es : List (Datum × Datum)) (t : Table (Value × Value)),
    AllOps Good t → AllOps Good es → Keeps (ofDataEntries frozen t es)
  | [], t, ht, _ => pure ht
  | (k, v) :: es, t, ht, h => by
    obtain ⟨⟨hk, hv⟩, hes⟩ := allOps_cons.1 h
    rw [Store.ofDataEntries]
    refine bind (Keeps.ofDatum frozen k hk) fun key hkey => ?_
    refine bind (Keeps.ofDatum frozen v hv) fun value hvalue => bind toKey fun _ _ => ?_
    refine bind (enter ht ⟨hkey, hvalue⟩ fun _ _ => ⟨hkey, hvalue⟩) fun t ht => ?_
    exact Keeps.ofDataEntries frozen es t ht hes

end

end Keeps

end TapeForge.Script

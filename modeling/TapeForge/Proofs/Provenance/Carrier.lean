import TapeForge.Script.Flatten
import TapeForge.Script.Iterate

/-!
# Ops inside values

Ops occur in data, in values and in everything that holds values. A property of ops holds all
through such a thing if each op that occurs in it has the property. Collections of a running script
are in its store, so what they hold counts for the store.
-/

namespace TapeForge

/-- Kinds of things that ops occur in, and what it means that all of these satisfy a property. -/
class HasOps (α : Type) where
  AllOps : (Op → Prop) → α → Prop

export HasOps (AllOps)

/-- Kinds of things that no ops occur in. -/
class OpFree (α : Type) : Prop

variable {p : Op → Prop} {α β : Type}

instance [OpFree α] : HasOps α := ⟨fun _ _ => True⟩

instance : OpFree Unit where
instance : OpFree Bool where
instance : OpFree Nat where
instance : OpFree Int where
instance : OpFree Int64 where
instance : OpFree UInt8 where
instance : OpFree Float where
instance : OpFree String where

@[simp]
theorem allOps_opFree [OpFree α] (x : α) : AllOps p x := trivial

instance : HasOps Op := ⟨fun p o => p o⟩

@[simp]
theorem allOps_op (o : Op) : AllOps p o ↔ p o := Iff.rfl

instance [HasOps α] : HasOps (List α) := ⟨fun p xs => ∀ x ∈ xs, AllOps p x⟩

instance [HasOps α] : HasOps (Array α) := ⟨fun p xs => ∀ x ∈ xs, AllOps p x⟩

instance [HasOps α] : HasOps (Option α) := ⟨fun p x => ∀ a, x = some a → AllOps p a⟩

instance [HasOps α] [HasOps β] : HasOps (α × β) := ⟨fun p x => AllOps p x.1 ∧ AllOps p x.2⟩

section

variable [HasOps α]

@[simp]
theorem allOps_pair [HasOps β] {x : α × β} : AllOps p x ↔ AllOps p x.1 ∧ AllOps p x.2 := Iff.rfl

@[simp]
theorem allOps_none : AllOps p (none : Option α) := fun _ h => nomatch h

@[simp]
theorem allOps_some {x : α} : AllOps p (some x) ↔ AllOps p x := by
  simp [HasOps.AllOps]

@[simp]
theorem allOps_nil : AllOps p ([] : List α) := fun _ h => nomatch h

@[simp]
theorem allOps_cons {x : α} {xs : List α} :
    AllOps p (x :: xs) ↔ AllOps p x ∧ AllOps p xs :=
  List.forall_mem_cons

@[simp]
theorem allOps_append {xs ys : List α} : AllOps p (xs ++ ys) ↔ AllOps p xs ∧ AllOps p ys :=
  List.forall_mem_append

@[simp]
theorem allOps_map {f : β → α} {xs : List β} :
    AllOps p (xs.map f) ↔ ∀ x ∈ xs, AllOps p (f x) :=
  List.forall_mem_map

@[simp]
theorem allOps_toList {xs : Array α} : AllOps p xs.toList ↔ AllOps p xs := by
  simp [HasOps.AllOps]

@[simp]
theorem allOps_toArray {xs : List α} : AllOps p xs.toArray ↔ AllOps p xs := by
  simp [HasOps.AllOps]

@[simp]
theorem allOps_emptyArray : AllOps p (#[] : Array α) := allOps_toArray.2 allOps_nil

@[simp]
theorem allOps_plainOption [OpFree β] (x : Option β) : AllOps p x := fun _ _ => trivial

@[simp]
theorem allOps_join {x : Option (Option α)} (h : AllOps p x) : AllOps p x.join := by
  cases x with
  | none => exact allOps_none
  | some x => exact h x rfl

theorem allOps_option_map [HasOps β] {f : α → β} {x : Option α} (h : AllOps p x)
    (hf : ∀ a, AllOps p a → AllOps p (f a)) : AllOps p (x.map f) := by
  cases x with
  | none => exact allOps_none
  | some a => exact allOps_some.2 (hf a (h a rfl))

@[simp]
theorem allOps_plainList [OpFree β] (xs : List β) : AllOps p xs := fun _ _ => trivial

@[simp]
theorem allOps_flatten {xss : List (List α)} :
    AllOps p xss.flatten ↔ ∀ xs ∈ xss, AllOps p xs :=
  List.forall_mem_flatten

@[simp]
theorem allOps_zipIdx {xs : List α} (h : AllOps p xs) (i : Nat) : AllOps p (xs.zipIdx i) := by
  intro x hx
  exact ⟨h x.1 (List.fst_mem_of_mem_zipIdx hx), trivial⟩

@[simp]
theorem allOps_reverse {xs : List α} : AllOps p xs.reverse ↔ AllOps p xs := by
  simp [HasOps.AllOps]

@[simp]
theorem allOps_filterMap_getElem? {xs : Array α} (h : AllOps p xs) (is : List Nat) :
    AllOps p (is.filterMap fun i => xs[i]?) := by
  intro x hx
  obtain ⟨i, -, hi⟩ := List.mem_filterMap.1 hx
  exact h x (Array.mem_of_getElem? hi)

theorem allOps_subset {xs ys : List α} (h : AllOps p xs) (hsub : ys ⊆ xs) : AllOps p ys :=
  fun x hx => h x (hsub hx)

@[simp]
theorem allOps_take {xs : List α} (h : AllOps p xs) (n : Nat) : AllOps p (xs.take n) :=
  allOps_subset h (List.take_subset n xs)

@[simp]
theorem allOps_drop {xs : List α} (h : AllOps p xs) (n : Nat) : AllOps p (xs.drop n) :=
  allOps_subset h (List.drop_subset n xs)

@[simp]
theorem allOps_getElem? {xs : List α} (h : AllOps p xs) (i : Nat) : AllOps p xs[i]? :=
  fun x hx => h x (List.mem_of_getElem? hx)

@[simp]
theorem allOps_option_getD {x : Option α} {d : α} (h : AllOps p x) (hd : AllOps p d) :
    AllOps p (x.getD d) := by
  cases x with
  | none => exact hd
  | some x => exact h x rfl

theorem allOps_getD {xs : List α} {d : α} (h : AllOps p xs) (hd : AllOps p d) (i : Nat) :
    AllOps p (xs.getD i d) := by
  rw [List.getD_eq_getElem?_getD]
  exact allOps_option_getD (allOps_getElem? h i) hd

theorem allOps_lookup {κ : Type} [HasOps κ] [BEq κ] {xs : List (κ × α)} {k : κ} {v : α}
    (h : AllOps p xs) (hv : xs.lookup k = some v) : AllOps p v := by
  induction xs with
  | nil => cases hv
  | cons x xs ih =>
    obtain ⟨hx, hxs⟩ := allOps_cons.1 h
    rw [List.lookup_cons] at hv
    split at hv
    · cases hv
      exact hx.2
    · exact ih hxs hv

@[simp]
theorem allOps_push {xs : Array α} {x : α} :
    AllOps p (xs.push x) ↔ AllOps p xs ∧ AllOps p x := by
  simp [← allOps_toList]

@[simp]
theorem allOps_array_append {xs ys : Array α} :
    AllOps p (xs ++ ys) ↔ AllOps p xs ∧ AllOps p ys := by
  simp [← allOps_toList]

@[simp]
theorem allOps_array_append_list {xs : Array α} {ys : List α} :
    AllOps p (xs ++ ys) ↔ AllOps p xs ∧ AllOps p ys := by
  simp [← allOps_toList]

@[simp]
theorem allOps_array_getElem? {xs : Array α} (h : AllOps p xs) (i : Nat) : AllOps p xs[i]? :=
  fun x hx => h x (Array.mem_of_getElem? hx)

theorem allOps_array_getD {xs : Array α} {d : α} (h : AllOps p xs) (hd : AllOps p d) (i : Nat) :
    AllOps p (xs.getD i d) := by
  rw [Array.getD_eq_getD_getElem?]
  exact allOps_option_getD (allOps_array_getElem? h i) hd

theorem allOps_modify {xs : Array α} {f : α → α} (h : AllOps p xs)
    (hf : ∀ x, AllOps p x → AllOps p (f x)) (i : Nat) : AllOps p (xs.modify i f) := by
  intro x hx
  obtain ⟨j, hj, rfl⟩ := Array.mem_iff_getElem.1 hx
  rw [Array.getElem_modify]
  split
  · exact hf _ (h _ (Array.getElem_mem _))
  · exact h _ (Array.getElem_mem _)

@[simp]
theorem allOps_setIfInBounds {xs : Array α} {x : α} (h : AllOps p xs) (hx : AllOps p x)
    (i : Nat) : AllOps p (xs.setIfInBounds i x) := by
  intro y hy
  rcases Array.mem_or_eq_of_mem_setIfInBounds hy with hy | rfl
  · exact h y hy
  · exact hx

@[simp]
theorem allOps_eraseIdxIfInBounds {xs : Array α} (h : AllOps p xs) (i : Nat) :
    AllOps p (xs.eraseIdxIfInBounds i) := by
  intro x hx
  rw [Array.eraseIdxIfInBounds] at hx
  split at hx
  · exact h x (Array.mem_of_mem_eraseIdx hx)
  · exact h x hx

end

/-! ## Data -/

namespace Datum

mutual

def opsIn : Datum → List Op
  | list elems => opsInAll elems
  | tuple elems => opsInAll elems
  | dict entries => opsInEntries entries
  | set elems => opsInAll elems
  | op o => [o]
  | _ => []

def opsInAll : List Datum → List Op
  | [] => []
  | d :: ds => opsIn d ++ opsInAll ds

def opsInEntries : List (Datum × Datum) → List Op
  | [] => []
  | (k, v) :: rest => (opsIn k ++ opsIn v) ++ opsInEntries rest

end

instance : HasOps Datum := ⟨fun p d => AllOps p d.opsIn⟩

theorem allOps_opsIn {d : Datum} : AllOps p d.opsIn ↔ AllOps p d := Iff.rfl

theorem allOps_opsInAll {ds : List Datum} : AllOps p (opsInAll ds) ↔ AllOps p ds := by
  induction ds with
  | nil => simp [opsInAll]
  | cons d ds ih => rw [opsInAll, allOps_append, allOps_cons, ih, allOps_opsIn]

theorem allOps_opsInEntries {es : List (Datum × Datum)} :
    AllOps p (opsInEntries es) ↔ AllOps p es := by
  induction es with
  | nil => simp [opsInEntries]
  | cons e es ih =>
    rw [opsInEntries, allOps_append, allOps_append, allOps_cons, allOps_pair, ih, allOps_opsIn,
      allOps_opsIn]

@[simp]
theorem allOps_datum_list {ds : List Datum} : AllOps p (list ds) ↔ AllOps p ds := by
  rw [← allOps_opsIn, opsIn, allOps_opsInAll]

@[simp]
theorem allOps_datum_tuple {ds : List Datum} : AllOps p (tuple ds) ↔ AllOps p ds := by
  rw [← allOps_opsIn, opsIn, allOps_opsInAll]

@[simp]
theorem allOps_datum_dict {es : List (Datum × Datum)} : AllOps p (dict es) ↔ AllOps p es := by
  rw [← allOps_opsIn, opsIn, allOps_opsInEntries]

@[simp]
theorem allOps_datum_set {ds : List Datum} : AllOps p (set ds) ↔ AllOps p ds := by
  rw [← allOps_opsIn, opsIn, allOps_opsInAll]

@[simp]
theorem allOps_datum_op {o : Op} : AllOps p (op o) ↔ p o := by
  rw [← allOps_opsIn, opsIn, allOps_cons, allOps_op, and_iff_left allOps_nil]

/-- A datum with no ops in it. -/
@[simp]
theorem allOps_of_opsIn_eq_nil {d : Datum} (h : d.opsIn = []) : AllOps p d := by
  rw [← allOps_opsIn, h]
  exact allOps_nil

end Datum

namespace Script

/-! ## Values and what holds them -/

instance : OpFree Key where
instance : OpFree Position where

mutual

/-- All ops in a value itself satisfy a property. The elements of a list, a dict or a set are not
in the value but in the store. -/
def Value.Within (p : Op → Prop) : Value → Prop
  | .tuple elems => Value.WithinAll p elems
  | .op o _ => p o
  | .method owner _ _ => Value.Within p owner
  | _ => True

def Value.WithinAll (p : Op → Prop) : List Value → Prop
  | [] => True
  | v :: vs => Value.Within p v ∧ Value.WithinAll p vs

end

instance : HasOps Value := ⟨Value.Within⟩

namespace Value

theorem withinAll_iff {vs : List Value} : WithinAll p vs ↔ AllOps p vs := by
  induction vs with
  | nil => simp [WithinAll]
  | cons v vs ih =>
    rw [WithinAll, allOps_cons, ih]
    rfl

@[simp]
theorem allOps_tuple {vs : List Value} : AllOps p (tuple vs) ↔ AllOps p vs := by
  rw [← withinAll_iff]
  exact Iff.of_eq (Within.eq_1 p vs)

@[simp]
theorem allOps_valueOp {o : Op} {id : Nat} : AllOps p (op o id) ↔ p o :=
  Iff.of_eq (Within.eq_2 p o id)

@[simp]
theorem allOps_method {owner : Value} {name : String} {id : Nat} :
    AllOps p (method owner name id) ↔ AllOps p owner :=
  Iff.of_eq (Within.eq_3 p owner name id)

@[simp, reducible]
def isFlat : Value → Bool
  | tuple _ | op .. | method .. => false
  | none | bool _ | int _ | float _ | text _ | bytes _ | list _ | dict _ | set _ | range ..
  | view .. | function .. | native _ | host .. => true

@[simp]
theorem allOps_of_isFlat {v : Value} (h : v.isFlat = true) : AllOps p v := by
  cases v with
  | tuple elems => simp at h
  | op o id => simp at h
  | method owner name id => simp at h
  | _ => exact trivial

@[simp]
theorem allOps_string {s : String} : AllOps p (string s) := allOps_of_isFlat rfl

end Value

instance : HasOps Items := ⟨fun p s => ∀ i, AllOps p (s.item i)⟩

instance [HasOps α] : HasOps (Entry α) := ⟨fun p e => AllOps p e.value⟩

instance [HasOps α] : HasOps (Table α) := ⟨fun p t => AllOps p t.entries⟩

@[simp]
def Object.Within (p : Op → Prop) : Object → Prop
  | .list elems _ _ => AllOps p elems
  | .dict table _ _ => AllOps p table
  | .set table _ _ => AllOps p table
  | .cell v => AllOps p v
  | .function f => AllOps p f.defaults
  | .frame _ => True

instance : HasOps Object := ⟨Object.Within⟩

instance : HasOps Store := ⟨fun p s => AllOps p s.objects⟩

@[simp]
theorem allOps_object {o : Object} : AllOps p o ↔ o.Within p := Iff.rfl

theorem allOps_store {s : Store} : AllOps p s ↔ AllOps p s.objects := Iff.rfl

namespace Items

@[simp]
theorem allOps_ofArray {vs : Array Value} (h : AllOps p vs) : AllOps p (ofArray vs) :=
  fun i => allOps_array_getD h (Value.allOps_of_isFlat rfl) i

@[simp]
theorem allOps_ofList {vs : List Value} (h : AllOps p vs) : AllOps p (ofList vs) :=
  allOps_ofArray (allOps_toArray.2 h)

@[simp]
theorem allOps_rangeItems (start stop step : Int64) : AllOps p (rangeItems start stop step) :=
  fun _ => Value.allOps_of_isFlat rfl

@[simp]
theorem allOps_viewItems (v : View) (s : Bytes) : AllOps p (viewItems v s) := by
  cases v with
  | _ => exact allOps_ofList (allOps_map.2 fun _ _ => Value.allOps_of_isFlat rfl)

@[simp]
theorem allOps_item {s : Items} (h : AllOps p s) (i : Nat) : AllOps p (s.item i) := h i

@[simp]
theorem allOps_items_toList {s : Items} (h : AllOps p s) : AllOps p s.toList :=
  allOps_map.2 fun i _ => h i

end Items

namespace Table

variable [HasOps α] {t t' : Table α} {k : Key} {v : α}

@[simp]
theorem allOps_empty : AllOps p ({} : Table α) := by
  simp [HasOps.AllOps]

theorem allOps_ofEntries {es : Array (Entry α)} :
    AllOps p (⟨es⟩ : Table α) ↔ AllOps p es := Iff.rfl

@[simp]
theorem allOps_values (h : AllOps p t) : AllOps p t.values :=
  allOps_map.2 fun e he => h e (Array.mem_toList_iff.1 he)

theorem allOps_of_values_cons {tail : List α} (ht : AllOps p t) (h : t.values = v :: tail) :
    AllOps p v :=
  (allOps_cons.1 (h ▸ allOps_values ht)).1

theorem allOps_get? {found : Option α} (ht : AllOps p t) (h : t.get? k = .ok found) :
    AllOps p found := by
  simp only [get?, bind, Except.bind] at h
  split at h
  · cases h
  · split at h
    · cases h
      intro x hx
      obtain ⟨e, he, rfl⟩ := Option.map_eq_some_iff.1 hx
      exact ht e (Array.mem_of_getElem? he)
    · cases h
      exact allOps_none

theorem allOps_enter {f : α → α} (ht : AllOps p t) (hv : AllOps p v)
    (hf : ∀ x, AllOps p x → AllOps p (f x)) (h : t.enter k v f = .ok t') : AllOps p t' := by
  simp only [enter, bind, Except.bind] at h
  split at h
  · cases h
  · split at h
    · cases h
      refine allOps_ofEntries.2 (allOps_modify ht (fun e he => ?_) _)
      exact hf e.value he
    · cases h
      exact allOps_ofEntries.2 (allOps_push.2 ⟨ht, hv⟩)

@[simp]
theorem allOps_eraseAt (ht : AllOps p t) (i : Nat) : AllOps p (t.eraseAt i) :=
  allOps_eraseIdxIfInBounds ht i

end Table

end Script

end TapeForge

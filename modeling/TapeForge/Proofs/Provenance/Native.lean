import TapeForge.Proofs.Provenance.Argument
import TapeForge.Proofs.Provenance.Value
import TapeForge.Script.Universe

/-!
# Functions of the language make no ops

The methods of values and the functions that every script has. Some call others; these are taken to
make no ops either.
-/

namespace TapeForge.Script

open Store Standard

variable [Standard] {α : Type}

/-! ## Arguments -/

namespace Keeps

variable [HasOps α]

theorem refuse {callee text : String} : Keeps (refuse callee text : Eval α) := naming raise

theorem roomFor {n : Int} : Keeps (roomFor n) := ite raise plain

/-- Checking arguments. -/
theorem taken {callee : String} {r : Except CallFault Unit} : Keeps (Script.taking callee r) :=
  taking fun _ _ => trivial

theorem takeNamed {callee : String} {params : List Parameter} {args : List Value}
    {named : List (Bytes × Value)} (hargs : AllOps Good args) (hnamed : AllOps Good named) :
    Keeps (Script.taking callee (Script.takeNamed params args named)) :=
  taking fun _ h => allOps_takeNamed hargs hnamed h

end Keeps

theorem allOps_argAt {args : List Value} (h : AllOps Good args) (i : Nat) :
    AllOps Good (argAt args i) :=
  allOps_getD h (Value.allOps_of_isFlat rfl) i

/-- What calls of a method give, whatever its owner holds. -/
abbrev Method.Keeps [HasOps α] (m : Method α) : Prop :=
  ∀ name owner args named, AllOps Good owner → AllOps Good args → AllOps Good named →
    Script.Keeps (m name owner args named)

/-- What calls do, whatever the arguments are. -/
abbrev Caller.Keeps (call : Caller) : Prop :=
  ∀ f args named, AllOps Good f → AllOps Good args → AllOps Good named →
    Script.Keeps (call f args named)

/-- What a function of the language does, if the calls it makes make no ops. -/
abbrev Native.Keeps (f : Native) : Prop :=
  ∀ call name args named, Caller.Keeps call → AllOps Good args → AllOps Good named →
    Script.Keeps (f call name args named)

theorem Method.keeps_ofOwner [HasOps α] {f : α → Eval Value}
    (h : ∀ owner, AllOps Good owner → Script.Keeps (f owner)) :
    Method.Keeps (Method.ofOwner f) :=
  fun _ owner _ _ howner _ _ => .bind .taken fun _ _ => h owner howner

/-! ## Methods of lists -/

namespace ListMethod

theorem keeps_append : Method.Keeps append := by
  intro name ref args named _ hargs _
  refine .bind .taken fun _ _ => .bind (.naming .mutable) fun _ _ => ?_
  refine .bind (.changeList fun vs hvs => ?_) fun _ _ => .flat rfl
  exact allOps_push.2 ⟨hvs, allOps_argAt hargs 0⟩

theorem keeps_clear : Method.Keeps clear := by
  intro name ref args named _ _ _
  refine .bind .taken fun _ _ => .bind (.naming .mutable) fun _ _ => ?_
  exact .bind (.changeList fun _ _ => allOps_emptyArray) fun _ _ => .flat rfl

theorem keeps_extend : Method.Keeps extend := by
  intro name ref args named _ hargs _
  refine .bind .taken fun _ _ => .bind (.naming .mutable) fun _ _ => ?_
  refine .bind (.itemsOf (allOps_argAt hargs 0)) fun s hs => ?_
  refine .bind (.changeList fun vs hvs => ?_) fun _ _ => .flat rfl
  exact allOps_array_append_list.2 ⟨hvs, Items.allOps_items_toList hs⟩

theorem keeps_placeOf? {v : Value} {i : Nat} {vs : List Value} : Keeps (placeOf? v i vs) := by
  induction vs generalizing i with
  | nil => exact .pure allOps_none
  | cons e es ih => exact .bind .compare fun _ _ => .ite (.pure (allOps_plainOption _)) ih

theorem keeps_index : Method.Keeps index := by
  intro name ref args named _ _ _
  refine .bind .taken fun _ _ => .bind .listElems fun es _ => .naming ?_
  refine .bind .forwardBounds fun _ _ => .bind keeps_placeOf? fun found _ => ?_
  cases found with
  | none => exact .raise
  | some i => exact .flat rfl

theorem keeps_insert : Method.Keeps insert := by
  intro name ref args named _ hargs _
  refine .bind .taken fun _ _ => .bind (.naming .mutable) fun _ _ => ?_
  refine .bind .listElems fun es hes => .bind (.changeList fun _ _ => ?_) fun _ _ => .flat rfl
  have hlist := allOps_toList.2 hes
  refine allOps_toArray.2 (allOps_append.2 ⟨allOps_take hlist _, ?_⟩)
  exact allOps_cons.2 ⟨allOps_argAt hargs 1, allOps_drop hlist _⟩

theorem keeps_pop : Method.Keeps pop := by
  intro name ref args named _ _ _
  refine .bind .taken fun _ _ => .bind .listElems fun es hes => .naming ?_
  refine .bind .placeOf fun i _ => .bind .mutable fun _ _ => ?_
  refine .bind (.changeList fun vs hvs => allOps_eraseIdxIfInBounds hvs i) fun _ _ => .pure ?_
  exact allOps_array_getD hes (Value.allOps_of_isFlat rfl) i

theorem keeps_remove : Method.Keeps remove := by
  intro name ref args named _ _ _
  refine .bind .taken fun _ _ => .naming (.bind .mutable fun _ _ => .bind .listElems fun _ _ => ?_)
  refine .bind keeps_placeOf? fun found _ => ?_
  cases found with
  | none => exact .raise
  | some i =>
    exact .bind (.changeList fun vs hvs => allOps_eraseIdxIfInBounds hvs i) fun _ _ => .flat rfl

end ListMethod

/-! ## Methods of dicts -/

namespace DictMethod

theorem keeps_enterPair {ref i : Nat} {pair : Value} (h : AllOps Good pair) :
    Keeps (enterPair ref i pair) := by
  refine .bind (.lengthOf h) fun _ _ => .guard .raise fun _ => .guard .raise fun _ => ?_
  exact .bind (.itemsOf h) fun s hs => .insertKey (hs 0) (hs 1)

theorem keeps_enterPairs {ref i : Nat} {pairs : List Value} (h : AllOps Good pairs) :
    Keeps (enterPairs ref i pairs) := by
  induction pairs generalizing i with
  | nil => exact .plain
  | cons pair rest ih =>
    obtain ⟨hpair, hrest⟩ := allOps_cons.1 h
    refine .guard .raise fun _ => .holding ?_
    exact .bind (keeps_enterPair hpair) fun _ _ => ih hrest

/-- Whatever came by position, the named values follow. -/
theorem keeps_enterNamed {ref : Nat} {named : List (Bytes × Value)} (hnamed : AllOps Good named) :
    Keeps (do
      let before := (← Store.dictTable ref).size
      for (k, v) in named do Store.insertKey ref (.text k) v
      if (← Store.dictTable ref).size < before + named.length then
        if let some name := repeated? (named.map Prod.fst) then
          raise (.duplicateKeyword name)) := by
  refine .bind .dictTable fun _ _ => ?_
  refine .bind (.forIn hnamed fun x _ hx => ?_) fun _ _ => ?_
  · exact .bind (.insertKey (Value.allOps_of_isFlat rfl) hx.2) fun _ _ => .plain
  · refine .bind .dictTable fun _ _ => .ite ?_ .plain
    split
    · exact .raise
    · exact .plain

theorem keeps_enterAll {ref : Nat} {args : List Value} {named : List (Bytes × Value)}
    (hargs : AllOps Good args) (hnamed : AllOps Good named) : Keeps (enterAll ref args named) := by
  have hrest := @keeps_enterNamed _ ref named hnamed
  unfold enterAll
  cases args with
  | nil => exact hrest
  | cons v rest =>
    have hv := (allOps_cons.1 hargs).1
    cases v with
    | dict other =>
      refine .bind .dictTable fun t ht => .bind (.forIn (Table.allOps_values ht) ?_) fun _ _ => ?_
      · exact fun x _ hx => .bind (.insertKey hx.1 hx.2) fun _ _ => .plain
      · exact hrest
    | _ =>
      refine .guard .raise fun _ => .bind (.itemsOf hv) fun s hs => ?_
      refine .bind (.holding (keeps_enterPairs (Items.allOps_items_toList hs))) fun _ _ => ?_
      exact hrest

theorem keeps_clear : Method.Keeps clear := by
  intro name ref args named _ _ _
  refine .bind .taken fun _ _ => .bind .mutable fun _ _ => ?_
  exact .bind (.setDict Table.allOps_empty) fun _ _ => .flat rfl

theorem keeps_get : Method.Keeps get := by
  intro name ref args named _ hargs _
  refine .bind .taken fun _ _ => .bind (.naming .lookup) fun found hfound => .pure ?_
  exact allOps_option_getD hfound (allOps_argAt hargs 1)

theorem keeps_listing {f : Value × Value → Value}
    (h : ∀ x, AllOps Good x → AllOps Good (f x)) : Method.Keeps (listing f) := by
  refine Method.keeps_ofOwner fun ref _ => .bind .dictTable fun t ht => .newList ?_
  exact allOps_map.2 fun x hx => h x (Table.allOps_values ht x hx)

theorem keeps_pop : Method.Keeps pop := by
  intro name ref args named _ hargs _
  refine .bind .taken fun _ _ => .bind (.naming .removeKey) fun found hfound => ?_
  cases found with
  | some v => exact .pure (allOps_some.1 hfound)
  | none =>
    dsimp only
    split
    · exact .pure (allOps_cons.1 (allOps_cons.1 hargs).2).1
    · exact .refuse

theorem keeps_popItem : Method.Keeps popItem := by
  intro name ref args named _ _ _
  refine .bind .taken fun _ _ => .bind .dictTable fun t ht => ?_
  split
  · exact .refuse
  · rename_i k v tail hvalues
    obtain ⟨hk, hv⟩ := Table.allOps_of_values_cons ht hvalues
    refine .bind (.naming .mutable) fun _ _ => ?_
    refine .bind (.setDict (Table.allOps_eraseAt ht 0)) fun _ _ => .pure ?_
    exact Value.allOps_tuple.2 (allOps_cons.2 ⟨hk, allOps_cons.2 ⟨hv, allOps_nil⟩⟩)

theorem keeps_setDefault : Method.Keeps setDefault := by
  intro name ref args named _ hargs _
  have hkey := allOps_argAt hargs 0
  have hvalue := allOps_argAt hargs 1
  refine .bind .taken fun _ _ => .naming (.bind .lookup fun found hfound => ?_)
  cases found with
  | some v => exact .pure (allOps_some.1 hfound)
  | none => exact .bind (.insertKey hkey hvalue) fun _ _ => .pure hvalue

theorem keeps_update : Method.Keeps update := by
  intro name ref args named _ hargs hnamed
  unfold update
  refine .guard .raise fun _ => ?_
  exact .bind (.naming (keeps_enterAll hargs hnamed)) fun _ _ => .flat rfl

end DictMethod

/-! ## Methods of sets -/

namespace SetMethod

theorem keeps_insertAll {ref : Nat} {vs : List Value} (h : AllOps Good vs) :
    Keeps (insertAll ref vs) :=
  .forM h fun _ hv => .bind .mutable fun _ _ => .bind .setTable fun _ ht =>
    .bind (.withElem ht hv) fun _ ht => .setSet ht

theorem keeps_add : Method.Keeps add := by
  intro name ref args named _ hargs _
  refine .bind .taken fun _ _ => .naming (.bind .setTable fun t ht => ?_)
  refine .bind (.holds ht) fun _ _ => .ite (.flat rfl) ?_
  exact .bind (keeps_insertAll (allOps_cons.2 ⟨allOps_argAt hargs 0, allOps_nil⟩)) fun _ _ =>
    .flat rfl

theorem keeps_clear : Method.Keeps clear := by
  intro name ref args named _ _ _
  refine .bind .taken fun _ _ => .bind .setTable fun _ _ => .ite ?_ (.flat rfl)
  refine .bind (.naming .mutable) fun _ _ => ?_
  exact .bind (.setSet Table.allOps_empty) fun _ _ => .flat rfl

theorem keeps_delete {ref : Nat} {v : Value} : Keeps (delete ref v) := by
  refine .bind .mutable fun _ _ => .bind .setTable fun t ht => ?_
  exact .bind (.withoutElem ht) fun r hr => .bind (.setSet hr.1) fun _ _ => .plain

theorem keeps_discard : Method.Keeps discard := by
  intro name ref args named _ _ _
  refine .bind .taken fun _ _ => .naming (.bind .setTable fun t ht => ?_)
  refine .bind (.holds ht) fun _ _ => .ite ?_ (.flat rfl)
  exact .bind keeps_delete fun _ _ => .flat rfl

theorem keeps_remove : Method.Keeps remove := by
  intro name ref args named _ _ _
  refine .bind .taken fun _ _ => .naming (.bind keeps_delete fun _ _ => ?_)
  exact .ite (.flat rfl) .raise

theorem keeps_pop : Method.Keeps pop := by
  intro name ref args named _ _ _
  refine .bind .taken fun _ _ => .bind .setTable fun t ht => ?_
  split
  · exact .refuse
  · rename_i v tail hvalues
    refine .bind (.naming keeps_delete) fun _ _ => .pure ?_
    exact Table.allOps_of_values_cons ht hvalues

theorem keeps_against {f : Table Value → List Value → Eval Value}
    (h : ∀ t vs, AllOps Good t → AllOps Good vs → Keeps (f t vs)) : Method.Keeps (against f) := by
  intro name ref args named _ hargs _
  refine .bind .taken fun _ _ => ?_
  cases args with
  | nil => exact .raise
  | cons v rest =>
    refine .bind (.itemsOf (allOps_cons.1 hargs).1) fun s hs => ?_
    refine .bind .setTable fun t ht => .naming ?_
    exact h t _ ht (Items.allOps_items_toList hs)

theorem keeps_covers {left : Table Value} {vs : List Value} (h : AllOps Good left) :
    Keeps (covers left vs) := by
  induction vs generalizing left with
  | nil => exact .plain
  | cons v vs ih => exact .ite .plain (.bind (.withoutElem h) fun r hr => ih hr.1)

theorem keeps_holdsAll {t : Table Value} {vs : List Value} (h : AllOps Good t) :
    Keeps (holdsAll t vs) := by
  induction vs with
  | nil => exact .plain
  | cons v vs ih => exact .bind (.holds h) fun _ _ => .ite ih .plain

theorem keeps_enterAll {ref : Nat} {args : List Value} {named : List (Bytes × Value)}
    (hargs : AllOps Good args) : Keeps (enterAll ref args named) := by
  refine .guard .raise fun _ => .bind (.forIn (allOps_zipIdx hargs 0) ?_) fun _ _ => .plain
  intro x _ hx
  refine .guard .raise fun _ => .bind (.itemsOf hx.1) fun s hs => ?_
  refine .bind (.holding (keeps_insertAll (Items.allOps_items_toList hs))) fun _ _ => .plain

theorem keeps_union : Method.Keeps union := by
  intro name ref args named _ hargs _
  refine .bind .setTable fun t ht => .bind (.alloc ht) fun copy _ => ?_
  exact .bind (.naming (keeps_enterAll hargs)) fun _ _ => .flat rfl

theorem keeps_update : Method.Keeps update := by
  intro name ref args named _ hargs _
  exact .bind (.naming (keeps_enterAll hargs)) fun _ _ => .flat rfl

end SetMethod

/-! ## Methods of texts -/

namespace TextMethod

theorem keeps_mapping (f : Bytes → Bytes) : Method.Keeps (mapping f) :=
  Method.keeps_ofOwner fun _ _ => .flat rfl

theorem keeps_test (f : Bytes → Bool) : Method.Keeps (test f) :=
  Method.keeps_ofOwner fun _ _ => .flat rfl

theorem keeps_viewing (v : View) : Method.Keeps (viewing v) :=
  Method.keeps_ofOwner fun _ _ => .flat rfl

theorem keeps_partOf {name : String} {s : Bytes} {args : List Value} :
    Keeps (partOf name s args) :=
  .bind (.naming .forwardBounds) fun _ _ => .pure ⟨trivial, allOps_plainList _⟩

theorem keeps_count : Method.Keeps count := by
  intro name s args named _ _ _
  exact .bind .taken fun _ _ => .bind keeps_partOf fun _ _ => .flat rfl

theorem keeps_find (last mustOccur : Bool) : Method.Keeps (find last mustOccur) := by
  intro name s args named _ _ _
  refine .bind .taken fun _ _ => .bind keeps_partOf fun part _ => ?_
  dsimp only
  generalize (if last = true then Bytes.findLast? (textArg args 0) part.2
    else Bytes.find? (textArg args 0) part.2) = found
  cases found with
  | some i => exact .flat rfl
  | none => exact .ite .refuse (.flat rfl)

theorem keeps_anyText {holds : Bytes → Bool} {i : Nat} {vs : List Value} :
    Keeps (anyText holds i vs) := by
  fun_induction anyText holds i vs with
  | case1 => exact .plain
  | case2 => exact .plain
  | case3 i s rest _ ih => exact ih
  | case4 => exact .raise

theorem keeps_bounded (atEnd : Bool) : Method.Keeps (bounded atEnd) := by
  intro name s args named _ _ _
  refine .bind .taken fun _ _ => .bind keeps_partOf fun part _ => .naming ?_
  split
  · exact .flat rfl
  · exact .bind keeps_anyText fun _ _ => .flat rfl
  · exact .raise

theorem keeps_join : Method.Keeps join := by
  intro name s args named _ hargs _
  refine .bind .taken fun _ _ => ?_
  refine .bind (.forEach (allOps_argAt hargs 0) fun _ v _ => ?_) fun _ _ => .flat rfl
  cases v with
  | text x => exact .bytes
  | _ => exact .raise

theorem keeps_partition (last : Bool) : Method.Keeps (partition last) := by
  intro name s args named _ _ _
  refine .bind .taken fun _ _ => .guard .refuse fun _ => .pure (Value.allOps_tuple.2 ?_)
  exact allOps_map.2 fun _ _ => Value.allOps_of_isFlat rfl

theorem keeps_removing (atEnd : Bool) : Method.Keeps (removing atEnd) := by
  intro name s args named _ _ _
  exact .bind .taken fun _ _ => .flat rfl

theorem keeps_replace : Method.Keeps replace := by
  intro name s args named _ _ _
  exact .bind .taken fun _ _ => .flat rfl

/-- A list of texts. -/
theorem keeps_texts {parts : List Bytes} : Keeps (newList (parts.map .text)) :=
  .newList (allOps_map.2 fun _ _ => Value.allOps_of_isFlat rfl)

theorem keeps_split (fromRight : Bool) : Method.Keeps (split fromRight) := by
  intro name s args named _ _ _
  refine .bind .taken fun _ _ => ?_
  split
  · exact .guard .roomFor fun _ => keeps_texts
  · exact .guard .refuse fun _ => keeps_texts
  · exact .raise

theorem keeps_splitLines : Method.Keeps splitLines := by
  intro name s args named _ _ _
  exact .bind .taken fun _ _ => keeps_texts

theorem keeps_strip (left right : Bool) : Method.Keeps (strip left right) := by
  intro name s args named _ _ _
  exact .bind .taken fun _ _ => .flat rfl

end TextMethod

/-! ## Calls of methods -/

/-- A method that is found in a table makes no ops if none in the table does. -/
theorem keeps_callIn [HasOps α] {table : MethodTable α} {name : String} {owner : α}
    {args : List Value} {named : List (Bytes × Value)} (h : ∀ m ∈ table, Method.Keeps m.2)
    (howner : AllOps Good owner) (hargs : AllOps Good args) (hnamed : AllOps Good named) :
    Keeps (callMethod.callIn name args named table owner) := by
  unfold callMethod.callIn
  split
  · rename_i m hm
    obtain ⟨l₁, l₂, rfl, -⟩ := List.lookup_eq_some_iff.1 hm
    exact h (name, m) (by simp) name owner args named howner hargs hnamed
  · exact Keeps.raise

theorem Keeps.callMethod {owner : Value} {name : String} {args : List Value}
    {named : List (Bytes × Value)} (howner : AllOps Good owner) (hargs : AllOps Good args)
    (hnamed : AllOps Good named) : Keeps (callMethod owner name args named) := by
  unfold Script.callMethod
  split
  -- Each table is checked method by method, in the order in which it lists them.
  · refine keeps_callIn ?_ (allOps_plainList _) hargs hnamed
    simp only [TextMethod.table, List.forall_mem_cons]
    open TextMethod in
    exact ⟨keeps_mapping _, keeps_viewing _, keeps_viewing _, keeps_count, keeps_viewing _,
      keeps_viewing _, keeps_bounded _, keeps_find _ _,
      fun _ _ _ _ _ hargs hnamed => Keeps.format hargs hnamed, keeps_find _ _, keeps_test _,
      keeps_test _, keeps_test _, keeps_test _, keeps_test _, keeps_test _, keeps_test _,
      keeps_join, keeps_mapping _, keeps_strip _ _, keeps_partition _, keeps_removing _,
      keeps_removing _, keeps_replace, keeps_find _ _, keeps_find _ _, keeps_partition _,
      keeps_split _, keeps_strip _ _, keeps_split _, keeps_splitLines, keeps_bounded _,
      keeps_strip _ _, keeps_mapping _, keeps_mapping _, nofun⟩
  · refine keeps_callIn ?_ (allOps_plainList _) hargs hnamed
    simp only [TextMethod.bytesTable, List.forall_mem_singleton]
    exact TextMethod.keeps_viewing _
  · refine keeps_callIn ?_ trivial hargs hnamed
    simp only [ListMethod.table, List.forall_mem_cons]
    open ListMethod in
    exact ⟨keeps_append, keeps_clear, keeps_extend, keeps_index, keeps_insert, keeps_pop,
      keeps_remove, nofun⟩
  · refine keeps_callIn ?_ trivial hargs hnamed
    simp only [DictMethod.table, List.forall_mem_cons]
    open DictMethod in
    exact ⟨keeps_clear, keeps_get, keeps_listing fun _ h => Value.allOps_tuple.2
        (allOps_cons.2 ⟨h.1, allOps_cons.2 ⟨h.2, allOps_nil⟩⟩),
      keeps_listing fun _ h => h.1, keeps_pop, keeps_popItem, keeps_setDefault, keeps_update,
      keeps_listing fun _ h => h.2, nofun⟩
  · refine keeps_callIn ?_ trivial hargs hnamed
    simp only [SetMethod.table, List.forall_mem_cons]
    open SetMethod in
    exact ⟨keeps_add, keeps_clear,
      keeps_against fun _ _ ht hvs => .bind (.differenceOf ht hvs) fun _ => .newSet,
      keeps_discard,
      keeps_against fun _ _ ht hvs => .bind (.intersectionOf ht hvs) fun _ => .newSet,
      keeps_against fun _ _ ht _ => Keeps.bind (keeps_covers ht) fun _ _ => .flat rfl,
      keeps_against fun _ _ ht _ => Keeps.bind (keeps_holdsAll ht) fun _ _ => .flat rfl,
      keeps_pop, keeps_remove,
      keeps_against fun _ _ ht hvs => .bind (.symmetricOf ht hvs) fun _ => .newSet,
      keeps_union, keeps_update, nofun⟩
  · exact Keeps.raise

theorem Keeps.method? {x : Value} {name : String} (h : AllOps Good x) :
    Keeps (method? x name) := by
  refine .ite (.bind .freshId fun _ _ => .pure ?_) (.pure allOps_none)
  exact allOps_some.2 (Value.allOps_method.2 h)

theorem Keeps.field {x : Value} {name : String} (h : AllOps Good x) : Keeps (field x name) := by
  refine .bind (.method? h) fun found hfound => ?_
  cases found with
  | none => exact .raise
  | some m => exact .pure (allOps_some.1 hfound)

end TapeForge.Script

import TapeForge.Proofs.MergeSort
import TapeForge.Proofs.Provenance.Native

/-!
# Functions that every script has make no ops
-/

namespace TapeForge.Script

open Std.Do Store Standard

variable [Standard]

instance : OpFree EvalError where

namespace Universe

/-! ## Numbers -/

theorem keeps_onlyArg {name want : String} {args : List Value} {named : List (Bytes × Value)}
    (hargs : AllOps Good args) : Keeps (onlyArg name want args named) := by
  unfold onlyArg
  refine .guard .raise fun _ => ?_
  split
  · exact .pure (allOps_cons.1 hargs).1
  · exact .raise

theorem keeps_abs : Native.Keeps abs := by
  intro call name args named _ _ _
  refine .bind .taken fun _ _ => ?_
  split
  · exact .flat rfl
  · exact .flat rfl
  · exact .raise

theorem keeps_chr : Native.Keeps chr := by
  intro call name args named _ hargs _
  refine .bind (keeps_onlyArg hargs) fun _ _ => .bind (.naming .smallInt) fun _ _ => ?_
  exact .guard .raise fun _ => .guard .raise fun _ => .flat rfl

theorem keeps_ord : Native.Keeps ord := by
  intro call name args named _ hargs _
  refine .bind (keeps_onlyArg hargs) fun v _ => ?_
  split
  · split
    · exact .flat rfl
    · exact .raise
  · exact .flat rfl
  · exact .raise
  · exact .naming .raise

theorem keeps_floatOfText {s : Bytes} : Keeps (floatOfText s) := by
  refine .guard .refuse fun _ => .ite .plain ?_
  split
  · exact .plain
  · exact .raise
  · exact .raise

theorem keeps_float : Native.Keeps float := by
  intro call name args named _ _ _
  unfold float
  refine .guard .raise fun _ => ?_
  split
  · exact .flat rfl
  · exact .flat rfl
  · exact .bind .toFloat fun _ _ => .flat rfl
  · exact .flat rfl
  · exact .bind keeps_floatOfText fun _ _ => .flat rfl
  · exact .raise
  · exact .raise

theorem keeps_hash : Native.Keeps hash := by
  intro call name args named _ _ _
  refine .bind .taken fun _ _ => ?_
  split
  · exact .flat rfl
  · exact .flat rfl
  · exact .naming .raise

theorem keeps_baseOf {v : Value} : Keeps (baseOf v) := by
  unfold baseOf
  split
  · exact .guard .raise fun _ => .guard .refuse fun _ => .plain
  · exact .raise

/-- What a text is read as, once its base is known. -/
theorem keeps_intOfText (b : Nat) (s : Bytes) : Keeps (match integerOfText? b s with
    | some n => return Value.int n
    | none => raise (.intText b s)) := by
  split
  · exact .flat rfl
  · exact .raise

theorem keeps_int : Native.Keeps int := by
  intro call name args named _ hargs hnamed
  refine .bind (.takeNamed hargs hnamed) fun given _ => ?_
  dsimp only
  split
  · split
    · exact .bind keeps_baseOf fun b _ => keeps_intOfText b _
    · exact keeps_intOfText 10 _
  · refine .guard .refuse fun _ => ?_
    split
    · exact .flat rfl
    · exact .bind (.naming .numberToInt) fun _ _ => .flat rfl

/-! ## Collections -/

theorem keeps_anyItem {wanted : Bool} {s : Items} {n i : Nat} (h : AllOps Good s) :
    Keeps (anyItem wanted s n i) := by
  induction n generalizing i with
  | zero => exact .plain
  | succ n ih => exact .bind (.truth (h i)) fun _ _ => .ite .plain ih

theorem keeps_search (wanted found : Bool) : Native.Keeps (search wanted found) := by
  intro call name args named _ hargs _
  refine .bind .taken fun _ _ => .bind (.itemsOf (allOps_argAt hargs 0)) fun s hs => ?_
  exact .bind (keeps_anyItem hs) fun _ _ => .flat rfl

theorem keeps_elementsOf {v : Value} (h : AllOps Good v) : Keeps (elementsOf v) := by
  refine .bind (.lengthOf h) fun _ _ => .bind .roomFor fun _ _ => ?_
  exact .bind (.itemsOf h) fun s hs => .pure (Items.allOps_items_toList hs)

theorem keeps_optionalElements {name : String} {args : List Value}
    {named : List (Bytes × Value)} (h : AllOps Good args) :
    Keeps (optionalElements name args named) := by
  refine .bind .taken fun _ _ => ?_
  cases args with
  | nil => exact .pure allOps_nil
  | cons v rest => exact keeps_elementsOf (allOps_cons.1 h).1

theorem keeps_byteAt (i : Nat) (v : Value) : Keeps (bytes.byteAt i v) := by
  refine Keeps.of_ok (Keeps.byteInt (v := v)) fun s a s' ha => ?_
  unfold bytes.byteAt at ha
  split at ha <;> cases ha
  assumption

theorem keeps_bytes : Native.Keeps bytes := by
  intro call name args named _ hargs _
  refine .bind (keeps_onlyArg hargs) fun v hv => ?_
  split
  · exact .flat rfl
  · exact .flat rfl
  · refine .guard (.naming .raise) fun _ => .bind (.lengthOf hv) fun _ _ => ?_
    refine .bind .roomFor fun _ _ => ?_
    exact .bind (.forEach hv fun i v _ => keeps_byteAt i v) fun _ _ => .flat rfl

theorem keeps_dict : Native.Keeps dict := by
  intro call name args named _ hargs hnamed
  unfold dict
  have hempty : AllOps Good (Object.dict {} false 0) := Table.allOps_empty
  refine .guard .raise fun _ => .bind (.alloc hempty) fun ref _ => ?_
  exact .bind (.naming (DictMethod.keeps_enterAll hargs hnamed)) fun _ _ => .flat rfl

theorem keeps_enumerate : Native.Keeps enumerate := by
  intro call name args named _ hargs _
  refine .bind .taken fun _ _ => .bind (keeps_elementsOf (allOps_argAt hargs 0)) fun vs hvs => ?_
  refine .newList (allOps_map.2 fun x hx => Value.allOps_tuple.2 ?_)
  have hv : AllOps Good x.1 := hvs x.1 (List.fst_mem_of_mem_zipIdx hx)
  exact allOps_cons.2 ⟨Value.allOps_of_isFlat rfl, allOps_cons.2 ⟨hv, allOps_nil⟩⟩

theorem keeps_len : Native.Keeps len := by
  intro call name args named _ hargs _
  refine .bind .taken fun _ _ => .bind (.lengthOf (allOps_argAt hargs 0)) fun _ _ => ?_
  exact .guard .raise fun _ => .flat rfl

theorem keeps_list : Native.Keeps list :=
  fun _ _ _ _ _ hargs _ => .bind (keeps_optionalElements hargs) fun _ => .newList

theorem keeps_tuple : Native.Keeps tuple :=
  fun _ _ _ _ _ hargs _ =>
    .bind (keeps_optionalElements hargs) fun _ hvs => .pure (Value.allOps_tuple.2 hvs)

theorem keeps_reversed : Native.Keeps reversed := by
  intro call name args named _ hargs _
  refine .bind .taken fun _ _ => .bind (keeps_elementsOf (allOps_argAt hargs 0)) fun vs hvs => ?_
  exact .newList (allOps_reverse.2 hvs)

theorem keeps_set : Native.Keeps set := by
  intro call name args named _ hargs _
  refine .bind .taken fun _ _ => .bind (.itemsOf (allOps_argAt hargs 0)) fun s hs => ?_
  refine .bind (.naming (.unionOf Table.allOps_empty (Items.allOps_items_toList hs))) ?_
  exact fun _ => .newSet

theorem keeps_range : Native.Keeps range := by
  intro call name args named _ _ _
  exact .bind .taken fun _ _ => .guard .refuse fun _ => .flat rfl

theorem keeps_extremeFrom {name : String} {op : BinaryOp} {keyOf : Value → Eval Value}
    {s : Items} (hkey : ∀ v, AllOps Good v → Keeps (keyOf v)) (hs : AllOps Good s) (n i : Nat)
    (best bestKey : Value) (hbest : AllOps Good best) :
    Keeps (extremeFrom name op keyOf s n i best bestKey) := by
  induction n generalizing i best bestKey with
  | zero => exact .pure hbest
  | succ n ih =>
    refine .bind (hkey _ (hs i)) fun key _ => .bind (.naming .compare) fun _ _ => ?_
    exact .ite (ih _ _ _ (hs i)) (ih _ _ _ hbest)

theorem keeps_extreme (op : BinaryOp) : Native.Keeps (extreme op) := by
  intro call name args named hcall hargs hnamed
  unfold extreme
  refine Keeps.guard Keeps.raise fun _ => ?_
  refine Keeps.bind (Keeps.takeNamed allOps_nil hnamed) fun given hgiven => ?_
  extract_lets keyOf source
  -- One argument is what is looked through; several are looked through themselves.
  have hsource : AllOps Good source := by
    dsimp only [source]
    split
    · exact (allOps_cons.1 hargs).1
    · exact Value.allOps_tuple.2 hargs
  have hkey : ∀ v, AllOps Good v → Keeps (keyOf v) := by
    intro v hv
    dsimp only [keyOf]
    split
    · exact hcall _ _ _ (by simpa using hgiven) (by simpa using hv) allOps_nil
    · exact Keeps.pure hv
  refine Keeps.guard (Keeps.naming Keeps.raise) fun _ => ?_
  refine Keeps.bind (Keeps.itemsOf hsource) fun s hs => ?_
  refine Keeps.guard Keeps.refuse fun _ => Keeps.holding ?_
  refine Keeps.bind (hkey _ (hs 0)) fun first _ => ?_
  exact keeps_extremeFrom hkey hs _ _ _ _ (hs 0)

theorem keeps_keyBefore (reverse : Bool) (a b : Value × Value) :
    ⦃fun _ s => ⌜AllOps Good s⌝⦄ keyBefore reverse a b ⦃⇓? _ _ s => ⌜AllOps Good s⌝⦄ := by
  intro last s hs
  simp only [wp, PredTrans.apply, PredTrans.pushArg, EStateM.run, StateT.run, keyBefore]
  generalize (if reverse = true then (b.1, a.1) else (a.1, b.1)) = xy
  have hcompare := Reads.compare .lt xy.1 xy.2 s
  cases hc : compare .lt xy.1 xy.2 s with
  | _ _ s' =>
    rw [hc] at hcompare
    subst hcompare
    simpa [hc] using hs

theorem keeps_mergeM {reverse : Bool} {xs : List (Value × Value)} {last : Option EvalError}
    (h : AllOps Good xs) : Keeps ((Sorting.mergeM (keyBefore reverse) xs).run last) := by
  intro s a s' hs ha
  have hmerge := Sorting.mergeM_spec (keeps_keyBefore reverse) xs last s hs
  rw [StateT.run] at ha
  simp only [wp, PredTrans.apply, PredTrans.pushArg, EStateM.run, StateT.run, ha] at hmerge
  exact ⟨⟨allOps_subset h hmerge.1.subset, allOps_plainOption _⟩, hmerge.2⟩

/-- Sorting the elements of a value by their keys, once the arguments are known. -/
theorem keeps_sortBy {call : Caller} {source : Value} {key : Option Value} {reverse : Bool}
    (hcall : Caller.Keeps call) (hsource : AllOps Good source) (hkey : AllOps Good key) :
    Keeps (do
      let vs ← elementsOf source
      let keyed ← holding source (vs.mapM fun v => do
        match key with
        | some f => return (← call f [v] [], v)
        | none => return (v, v))
      let r ← (Sorting.mergeM (keyBefore reverse) keyed).run none
      match r.2 with
      | some why => raise why
      | none => newList (r.1.map Prod.snd)) := by
  refine Keeps.bind (keeps_elementsOf hsource) fun vs hvs => ?_
  refine Keeps.bind (Keeps.holding (Keeps.mapM hvs fun v hv => ?_)) fun keyed hkeyed => ?_
  · cases key with
    | some f =>
      refine Keeps.bind (hcall f [v] [] (allOps_some.1 hkey) (by simpa using hv) allOps_nil) ?_
      exact fun k hk => Keeps.pure ⟨hk, hv⟩
    | none => exact Keeps.pure ⟨hv, hv⟩
  · refine Keeps.bind (keeps_mergeM hkeyed) fun r hr => ?_
    obtain ⟨ordered, fault⟩ := r
    cases fault with
    | some why => exact Keeps.raise
    | none => exact Keeps.newList (allOps_map.2 fun x hx => (hr.1 x hx).2)

theorem keeps_sorted : Native.Keeps sorted := by
  intro call name args named hcall hargs hnamed
  unfold sorted
  refine Keeps.bind (Keeps.takeNamed hargs hnamed) fun given hgiven => ?_
  dsimp only
  -- The settings are split only when it is known what is asked of each of them.
  refine keeps_sortBy hcall ?_ ?_
  · split
    · exact allOps_some.1 (allOps_cons.1 hgiven).1
    · exact allOps_some.1 (allOps_cons.1 hgiven).1
    · exact Value.allOps_of_isFlat rfl
  · split
    · exact (allOps_cons.1 (allOps_cons.1 hgiven).2).1
    · exact (allOps_cons.1 (allOps_cons.1 hgiven).2).1
    · exact allOps_none

theorem keeps_needIterables {name : String} {i : Nat} {vs : List Value} :
    Keeps (needIterables name i vs) := by
  induction vs generalizing i with
  | nil => exact .plain
  | cons v vs ih => exact .guard (.naming .raise) fun _ => ih

theorem keeps_zip : Native.Keeps zip := by
  intro call name args named _ hargs _
  unfold zip
  refine .guard .raise fun _ => .bind keeps_needIterables fun _ _ => ?_
  refine .bind (.mapM hargs fun _ => .itemsOf) fun columns hcolumns => ?_
  refine .bind .roomFor fun _ _ => .newList (allOps_map.2 fun i _ => Value.allOps_tuple.2 ?_)
  exact allOps_map.2 fun s hs => hcolumns s hs i

/-! ## Names and texts -/

theorem keeps_bool : Native.Keeps bool := by
  intro call name args named _ hargs _
  have hfirst : AllOps Good (args.headD (.bool false)) := by
    cases args with
    | nil => exact Value.allOps_of_isFlat rfl
    | cons v rest => exact (allOps_cons.1 hargs).1
  exact .bind .taken fun _ _ => .bind (.truth hfirst) fun _ _ => .flat rfl

theorem keeps_dir : Native.Keeps dir := by
  intro call name args named _ hargs _
  refine .bind (keeps_onlyArg hargs) fun v _ => .newList ?_
  exact allOps_map.2 fun _ _ => Value.allOps_string

theorem keeps_separator {name : String} {named : List (Bytes × Value)}
    (hnamed : AllOps Good named) : Keeps (separator name named) := by
  refine .bind (.takeNamed allOps_nil hnamed) fun given _ => ?_
  split
  · exact .bytes
  · exact .bytes

theorem keeps_fail : Native.Keeps fail := by
  intro call name args named _ hargs hnamed
  refine .bind (keeps_separator hnamed) fun _ _ => ?_
  exact .bind (.mapM hargs fun _ => .bareText) fun _ _ => .raise

theorem keeps_print : Native.Keeps print := by
  intro call name args named _ hargs hnamed
  refine .bind (keeps_separator hnamed) fun _ _ => ?_
  refine .bind (.mapM hargs fun _ => .toDatum) fun _ _ => ?_
  exact .bind (.modify fun _ => rfl) fun _ _ => .flat rfl

theorem keeps_getattr : Native.Keeps getattr := by
  intro call name args named _ hargs _
  refine .bind .taken fun _ _ => .bind (.method? (allOps_argAt hargs 0)) fun found hfound => ?_
  cases found with
  | some m => exact .pure (allOps_some.1 hfound)
  | none =>
    dsimp only
    split
    · exact .pure (allOps_cons.1 (allOps_cons.1 (allOps_cons.1 hargs).2).2).1
    · exact .naming .raise

theorem keeps_hasattr : Native.Keeps hasattr := by
  intro call name args named _ hargs _
  exact .bind .taken fun _ _ => .bind (.method? (allOps_argAt hargs 0)) fun _ _ => .flat rfl

theorem keeps_repr : Native.Keeps repr := by
  intro call name args named _ hargs _
  exact .bind .taken fun _ _ => .bind (.reprOf (allOps_argAt hargs 0)) fun _ _ => .flat rfl

theorem keeps_str : Native.Keeps str := by
  intro call name args named _ hargs _
  refine .bind (keeps_onlyArg hargs) fun v hv => ?_
  split
  · exact .flat rfl
  · exact .bind (.bareText hv) fun _ _ => .flat rfl

theorem keeps_type : Native.Keeps type :=
  fun _ _ _ _ _ hargs _ => .bind (keeps_onlyArg hargs) fun _ _ => .flat rfl

theorem keeps_table : ∀ f ∈ table, Native.Keeps f.2 := by
  simp only [table, List.forall_mem_cons]
  exact ⟨keeps_abs, keeps_search _ _, keeps_search _ _, keeps_bool, keeps_bytes, keeps_chr,
    keeps_dict, keeps_dir, keeps_enumerate, keeps_fail, keeps_float, keeps_getattr, keeps_hasattr,
    keeps_hash, keeps_int, keeps_len, keeps_list, keeps_extreme _, keeps_extreme _, keeps_ord,
    keeps_print, keeps_range, keeps_repr, keeps_reversed, keeps_set, keeps_sorted, keeps_str,
    keeps_tuple, keeps_type, keeps_zip, nofun⟩

end Universe

omit [Standard] in
theorem universe?_isFlat {x : String} {v : Value} (h : universe? x = some v) : v.isFlat = true := by
  unfold universe? at h
  split at h
  · cases h
    rfl
  · split at h
    · cases h
      rfl
    · split at h
      · cases h
        rfl
      · split at h <;> cases h
        rfl

theorem Keeps.callNative {call : Caller} {name : String} {args : List Value}
    {named : List (Bytes × Value)} (hcall : Caller.Keeps call) (hargs : AllOps Good args)
    (hnamed : AllOps Good named) : Keeps (callNative call name args named) := by
  unfold Script.callNative
  split
  · rename_i f hf
    obtain ⟨l₁, l₂, htable, -⟩ := List.lookup_eq_some_iff.1 hf
    refine Universe.keeps_table (name, f) ?_ call name args named hcall hargs hnamed
    rw [htable]
    simp
  · exact Keeps.raise

end TapeForge.Script

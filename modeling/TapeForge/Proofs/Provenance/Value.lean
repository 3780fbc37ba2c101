import TapeForge.Proofs.Provenance.Store
import TapeForge.Script.Index

/-!
# Operators make no ops
-/

namespace TapeForge.Script

open Store Standard

variable {α β : Type}

/-! ## Comparison -/

/-- A computation leaves the store as it is, also when it fails. -/
def Reads (act : Eval α) : Prop :=
  ∀ s, match act s with
    | .ok _ s' => s' = s
    | .error _ s' => s' = s

namespace Reads

theorem pure (a : α) : Reads (pure a) := fun _ => rfl

theorem raise (e : EvalError) : Reads (raise e : Eval α) := fun _ => rfl

theorem bind {act : Eval α} {f : α → Eval β} (h : Reads act) (hf : ∀ a, Reads (f a)) :
    Reads (act >>= f) := by
  intro s
  have hs := h s
  change match EStateM.bind act f s with | .ok _ s' => s' = s | .error _ s' => s' = s
  unfold EStateM.bind
  cases hact : act s with
  | ok a s' =>
    rw [hact] at hs
    subst hs
    exact hf a s'
  | error e s' =>
    rw [hact] at hs
    exact hs

theorem keyed (r : Except KeyFault α) : Reads (keyed r) := by
  cases r with
  | ok a => exact pure a
  | error e => exact raise _

theorem read (ref : Nat) : Reads (read ref) := fun _ => rfl

theorem listElems (ref : Nat) : Reads (listElems ref) := by
  refine (read ref).bind fun o => ?_
  cases o with
  | _ => exact pure _

theorem dictTable (ref : Nat) : Reads (dictTable ref) := by
  refine (read ref).bind fun o => ?_
  cases o with
  | _ => exact pure _

theorem setTable (ref : Nat) : Reads (setTable ref) := by
  refine (read ref).bind fun o => ?_
  cases o with
  | _ => exact pure _

theorem unordered (op : BinaryOp) (same : Bool) (x y : Value) : Reads (unordered op same x y) := by
  cases op with
  | eq => exact pure _
  | ne => exact pure _
  | _ => exact raise _

section

variable {compare : BinaryOp → Value → Value → Eval Bool}

theorem compareLists (h : ∀ op x y, Reads (compare op x y)) (op : BinaryOp) (as bs : List Value) :
    Reads (compareLists compare op as bs) := by
  fun_induction Script.compareLists compare op as bs with
  | case1 a as b bs ih =>
    refine (h .eq a b).bind fun same => ?_
    cases same with
    | true => exact ih
    | false =>
      cases op with
      | eq => exact pure _
      | ne => exact pure _
      | _ => exact h _ a b
  | case2 => exact pure _

theorem compareElems (h : ∀ op x y, Reads (compare op x y)) (op : BinaryOp) (as bs : List Value) :
    Reads (compareElems compare op as bs) := by
  unfold Script.compareElems
  split
  · exact pure _
  · exact compareLists h op as bs

theorem entriesWithin (h : ∀ op x y, Reads (compare op x y)) (t : Table (Value × Value))
    (es : List (Entry (Value × Value))) : Reads (entriesWithin compare t es) := by
  induction es with
  | nil => exact pure _
  | cons e es ih =>
    rw [Script.entriesWithin]
    split
    · refine (h _ _ _).bind fun same => ?_
      cases same with
      | true => exact ih
      | false => exact pure _
    · exact pure _

end

theorem compareDepth (depth : Nat) (op : BinaryOp) (x y : Value) :
    Reads (compareDepth depth op x y) := by
  induction depth generalizing op x y with
  | zero => exact raise _
  | succ depth ih =>
    unfold Script.compareDepth
    dsimp only
    split
    · exact pure _
    · exact pure _
    · exact pure _
    · exact pure _
    · exact pure _
    · exact pure _
    · exact pure _
    · exact compareElems ih op _ _
    · exact (listElems _).bind fun _ => (listElems _).bind fun _ => compareElems ih op _ _
    · split
      · refine (dictTable _).bind fun s => (dictTable _).bind fun t => ?_
        split
        · exact (entriesWithin ih _ _).bind fun same => unordered op same _ _
        · exact unordered op false _ _
      · exact unordered op false _ _
    · exact (setTable _).bind fun _ => (setTable _).bind fun _ => keyed _
    · exact unordered op _ _ _
    · exact unordered op _ _ _

theorem compare (op : BinaryOp) (x y : Value) : Reads (compare op x y) := compareDepth _ op x y

theorem keeps [Standard] [HasOps α] {act : Eval α} (h : Reads act)
    (ha : ∀ a : α, AllOps Good a) : Keeps act := by
  intro s a s' hs hact
  have hreads := h s
  rw [hact] at hreads
  exact ⟨ha a, hreads ▸ hs⟩

end Reads

variable [Standard] [HasOps α]

instance : HasOps Fields := ⟨fun p f => AllOps p f.args ∧ AllOps p f.named⟩

instance : OpFree Stride where

namespace Keeps

theorem truth {v : Value} (h : AllOps Good v) : Keeps (truth v) := by
  unfold Script.truth
  split
  · exact bind listElems fun _ _ => plain
  · exact bind dictTable fun _ _ => plain
  · exact bind setTable fun _ _ => plain
  · exact plain
  · exact bind (toDatum h) fun _ _ => plain

theorem compare {op : BinaryOp} {x y : Value} : Keeps (compare op x y) :=
  (Reads.compare op x y).keeps fun _ => trivial

theorem equalsOne {x : Value} {vs : List Value} : Keeps (equalsOne x vs) := by
  induction vs with
  | nil => exact plain
  | cons v vs ih => exact bind compare fun _ _ => ite plain ih

/-! ## Entries of collections -/

theorem lookup {ref : Nat} {k : Value} : Keeps (lookup ref k) := by
  refine bind dictTable fun t ht => bind toKey fun _ _ => bind (get? ht) fun found hfound => ?_
  exact pure (allOps_option_map hfound fun _ hentry => hentry.2)

theorem insertKey {ref : Nat} {k v : Value} (hk : AllOps Good k) (hv : AllOps Good v) :
    Keeps (insertKey ref k v) := by
  refine bind mutable fun _ _ => bind toKey fun _ _ => bind dictTable fun t ht => ?_
  -- A key that is there stays, and only its value changes.
  exact bind (enter ht ⟨hk, hv⟩ fun _ hentry => ⟨hentry.1, hv⟩) fun _ ht => setDict ht

/-- The place of a key has no ops in it. -/
theorem place? {β : Type} {t : Table β} {k : Key} : Keeps (Script.keyed (t.place? k)) :=
  keyed fun _ _ => allOps_plainOption _

theorem removeKey {ref : Nat} {k : Value} : Keeps (removeKey ref k) := by
  refine bind mutable fun _ _ => bind dictTable fun t ht => ite (pure allOps_none) ?_
  refine bind toKey fun _ _ => bind place? fun place _ => ?_
  cases place with
  | none => exact pure allOps_none
  | some i =>
    refine bind (setDict (Table.allOps_eraseAt ht i)) fun _ _ => pure ?_
    exact allOps_option_map (allOps_array_getElem? ht i) fun _ hentry => hentry.2

theorem holds {t : Table Value} {v : Value} (ht : AllOps Good t) : Keeps (holds t v) :=
  bind toKey fun _ _ => bind (get? ht) fun _ _ => plain

theorem withElem {t : Table Value} {v : Value} (ht : AllOps Good t) (hv : AllOps Good v) :
    Keeps (withElem t v) :=
  bind toKey fun _ _ => enter ht hv fun _ hx => hx

theorem withoutElem {t : Table Value} {v : Value} (ht : AllOps Good t) :
    Keeps (withoutElem t v) := by
  refine ite (pure ⟨ht, trivial⟩) (bind toKey fun _ _ => bind place? fun place _ => ?_)
  cases place with
  | none => exact pure ⟨ht, trivial⟩
  | some i => exact pure ⟨Table.allOps_eraseAt ht i, trivial⟩

/-! ## Elements of values -/

theorem items? {v : Value} (h : AllOps Good v) : Keeps (items? v) := by
  unfold Script.items?
  split
  · exact bind listElems fun _ hes => pure (allOps_some.2 (Items.allOps_ofArray hes))
  · refine bind dictTable fun t ht => pure (allOps_some.2 (Items.allOps_ofList ?_))
    exact allOps_map.2 fun entry hentry => (Table.allOps_values ht entry hentry).1
  · exact bind setTable fun _ ht =>
      pure (allOps_some.2 (Items.allOps_ofList (Table.allOps_values ht)))
  · exact pure (allOps_some.2 (Items.allOps_ofList (Value.allOps_tuple.1 h)))
  · exact pure (allOps_some.2 (Items.allOps_rangeItems _ _ _))
  · exact pure (allOps_some.2 (Items.allOps_viewItems _ _))
  · exact pure allOps_none

theorem itemsOf {v : Value} (h : AllOps Good v) : Keeps (itemsOf v) :=
  bind (items? h) fun _ hitems =>
    pure (allOps_option_getD hitems fun _ => Value.allOps_of_isFlat rfl)

theorem lengthOf {v : Value} (h : AllOps Good v) : Keeps (lengthOf v) := by
  unfold Script.lengthOf
  split
  iterate 6 exact plain
  refine bind (items? h) fun found _ => ?_
  cases found with
  | none => exact plain
  | some s => exact plain

theorem gather {f : Nat → Value → Eval α} {s : Items} (hs : AllOps Good s)
    (h : ∀ i v, AllOps Good v → Keeps (f i v)) (n i : Nat) (acc : List α) (hacc : AllOps Good acc) :
    Keeps (gather s f n i acc) := by
  induction n generalizing i acc with
  | zero => exact pure (allOps_subset hacc (List.reverse_subset.2 (List.Subset.refl acc)))
  | succ n ih =>
    exact bind (h i _ (hs i)) fun a ha => ih (i + 1) (a :: acc) (allOps_cons.2 ⟨ha, hacc⟩)

theorem forEach {v : Value} {f : Nat → Value → Eval α} (hv : AllOps Good v)
    (h : ∀ i v, AllOps Good v → Keeps (f i v)) : Keeps (forEach v f) :=
  bind (itemsOf hv) fun s hs => holding (gather hs h s.count 0 [] allOps_nil)

/-! ## Formats -/

/-- A text has no ops in it. -/
theorem bytes {s : Bytes} : Keeps (Pure.pure s : Eval Bytes) := pure (allOps_plainList s)

theorem misformat {e : FormatError} : Keeps (misformat e : Eval α) := raise

theorem bareText {v : Value} (h : AllOps Good v) : Keeps (bareText v) := by
  unfold Script.bareText
  split
  · exact bytes
  · exact bind (reprOf h) fun _ _ => bytes

theorem characterOf {v : Value} : Keeps (characterOf v) := by
  unfold Script.characterOf
  split
  · exact ite misformat bytes
  · split
    · exact bytes
    · exact misformat
  · exact misformat

theorem convert {c : Char} {v : Value} (h : AllOps Good v) : Keeps (convert c v) := by
  unfold Script.convert
  refine ite (bareText h) (ite (bind (reprOf h) fun _ _ => bytes) (ite ?_ (ite ?_ ?_)))
  · split
    · exact misformat
    · exact bytes
  · split
    · exact bytes
    · exact bytes
    · exact misformat
  · exact ite characterOf (ite bytes misformat)

theorem conversionValue {x : Value} {index : Nat} {form : Bytes} (h : AllOps Good x) :
    Keeps (conversionValue x index form) := by
  unfold Script.conversionValue
  split
  · split
    · exact misformat
    · split
      · refine bind dictTable fun t ht => ?_
        split
        · rename_i hfound
          have hentry := allOps_some.1 (Table.allOps_get? ht hfound)
          exact pure ⟨hentry.2, allOps_plainList _⟩
        · exact misformat
      · exact misformat
  · split
    · split
      · rename_i hv
        exact pure ⟨allOps_getElem? (Value.allOps_tuple.1 h) _ _ hv, allOps_plainList _⟩
      · exact misformat
    · exact ite (pure ⟨h, allOps_plainList _⟩) misformat

theorem interpolateFrom {x : Value} (h : AllOps Good x) (fuel index : Nat) (form acc : Bytes) :
    Keeps (interpolateFrom x fuel index form acc) := by
  induction fuel generalizing index form acc with
  | zero => exact pure ⟨allOps_plainList _, trivial⟩
  | succ fuel ih =>
    rw [Script.interpolateFrom]
    split
    · exact pure ⟨allOps_plainList _, trivial⟩
    · exact ih _ _ _
    · refine bind (conversionValue h) fun r hr => ?_
      obtain ⟨v, rest⟩ := r
      cases rest with
      | nil => exact misformat
      | cons c rest => exact bind (convert hr.1) fun _ _ => ih _ _ _

theorem interpolate {form : Bytes} {x : Value} (h : AllOps Good x) :
    Keeps (interpolate form x) := by
  refine bind (interpolateFrom h _ _ form []) fun r _ => ?_
  exact guard misformat fun _ => flat rfl

theorem showField {v : Value} {conversion spec : Bytes} (h : AllOps Good v) :
    Keeps (showField v conversion spec) := by
  refine guard misformat fun _ => ite (bareText h) ?_
  exact ite (bind (reprOf h) fun _ _ => bytes) misformat

theorem allOps_fieldValue {f : Fields} (hf : AllOps Good f) (name : Bytes) (r : Value × Fields)
    (h : fieldValue f name = .ok r) : AllOps Good r := by
  unfold fieldValue at h
  split at h
  · split at h
    · cases h
    · split at h
      · rename_i v hv
        cases h
        exact ⟨allOps_getElem? hf.1 _ v hv, hf⟩
      · cases h
  · split at h
    · split at h
      · cases h
      · split at h
        · rename_i v hv
          cases h
          exact ⟨allOps_getElem? hf.1 _ v hv, hf⟩
        · cases h
    · split at h
      · rename_i v hv
        cases h
        exact ⟨allOps_lookup hf.2 hv, hf⟩
      · split at h <;> try cases h
        split at h <;> try cases h
        split at h <;> cases h

theorem formatted {r : Except FormatError α} (h : ∀ a, r = .ok a → AllOps Good a) :
    Keeps (formatted r) := by
  cases r with
  | ok a => exact pure (h a rfl)
  | error e => exact raise

theorem formatFrom (fuel : Nat) (f : Fields) (form acc : Bytes) (hf : AllOps Good f) :
    Keeps (formatFrom fuel f form acc) := by
  induction fuel generalizing f form acc with
  | zero => exact bytes
  | succ fuel ih =>
    rw [Script.formatFrom]
    split
    · exact bind (formatted fun _ _ => allOps_plainList _) fun _ _ => bytes
    · refine bind (formatted fun _ _ => allOps_plainList _) fun before _ => ?_
      split
      · exact ih f _ _ hf
      · split
        · exact misformat
        · refine bind (formatted (allOps_fieldValue hf _)) fun r hr => ?_
          exact bind (showField hr.1) fun _ _ => ih r.2 _ _ hr.2

theorem format {form : Bytes} {args : List Value} {named : List (Bytes × Value)}
    (hargs : AllOps Good args) (hnamed : AllOps Good named) : Keeps (format form args named) :=
  bind (formatFrom _ _ form [] ⟨hargs, hnamed⟩) fun _ _ => flat rfl

/-! ## Arithmetic -/

theorem smallInt {v : Value} : Keeps (smallInt v) := by
  unfold Script.smallInt
  split
  · exact ite plain raise
  · exact raise

theorem byteInt {v : Value} : Keeps (byteInt v) := by
  unfold Script.byteInt
  split
  · exact ite plain raise
  · exact raise

theorem numberToInt {v : Value} : Keeps (numberToInt v) := by
  unfold Script.numberToInt
  split
  · exact plain
  · exact raise

theorem toFloat {n : Int} : Keeps (toFloat n) := ite raise plain

theorem repeatList {n : Int} {xs : List α} (h : AllOps Good xs) : Keeps (repeatList n xs) := by
  refine ite (pure allOps_nil) (guard raise fun _ => guard raise fun _ => pure ?_)
  refine allOps_flatten.2 fun ys hys => ?_
  rw [List.eq_of_mem_replicate hys]
  exact h

theorem isIn {x y : Value} : Keeps (isIn x y) := by
  unfold Script.isIn
  split
  · exact bind listElems fun _ _ => equalsOne
  · exact equalsOne
  · split
    · exact plain
    · refine bind dictTable fun _ _ => ?_
      split
      · exact plain
      · exact plain
  · exact bind setTable fun _ ht => holds ht
  · split
    · exact plain
    · exact raise
  · split
    · exact plain
    · exact guard raise fun _ => plain
    · exact raise
  · split
    · exact plain
    · exact raise
  · exact raise

theorem floatArith {op : BinaryOp} {a b : Float} : Keeps (floatArith op a b) := by
  cases op with
  | add | sub | mul => exact flat rfl
  | div | floorDiv | mod => exact ite raise (flat rfl)
  | _ => exact raise

theorem shiftLeft {a : Int} {y : Value} : Keeps (shiftLeft a y) :=
  bind smallInt fun _ _ => guard raise fun _ => guard raise fun _ => flat rfl

theorem shiftRight {a : Int} {y : Value} : Keeps (shiftRight a y) :=
  bind smallInt fun _ _ => guard raise fun _ => flat rfl

theorem intArith {op : BinaryOp} {a b : Int} : Keeps (intArith op a b) := by
  cases op with
  | add | sub | mul | and | or | xor => exact flat rfl
  | div => exact bind toFloat fun _ _ => bind toFloat fun _ _ => ite raise (flat rfl)
  | floorDiv | mod => exact ite raise (flat rfl)
  | shiftLeft => exact shiftLeft
  | shiftRight => exact shiftRight
  | _ => exact raise

theorem unionOf {t : Table Value} {vs : List Value} (ht : AllOps Good t) (hvs : AllOps Good vs) :
    Keeps (unionOf t vs) :=
  foldlM ht hvs fun _ _ => withElem

theorem differenceOf {t : Table Value} {vs : List Value} (ht : AllOps Good t)
    (hvs : AllOps Good vs) : Keeps (differenceOf t vs) :=
  foldlM ht hvs fun _ _ hb _ => bind (withoutElem hb) fun _ h => pure h.1

theorem intersectionOf {t : Table Value} {vs : List Value} (ht : AllOps Good t)
    (hvs : AllOps Good vs) : Keeps (intersectionOf t vs) :=
  foldlM Table.allOps_empty hvs fun _ _ hr hv =>
    bind (holds ht) fun _ _ => ite (withElem hr hv) (pure hr)

theorem symmetricOf {t : Table Value} {vs : List Value} (ht : AllOps Good t)
    (hvs : AllOps Good vs) : Keeps (symmetricOf t vs) := by
  refine foldlM ht hvs fun t v ht hv => bind (withoutElem ht) fun r hr => ?_
  obtain ⟨rest, found⟩ := r
  refine ite (pure hr.1) ?_
  split
  · exact pure ht
  · exact enter ht hv fun _ hx => hx

theorem setArith {op : BinaryOp} {a b : Nat} : Keeps (setArith op a b) := by
  refine bind setTable fun t ht => bind setTable fun s hs => ?_
  have hvs := Table.allOps_values hs
  cases op with
  | or => exact bind (unionOf ht hvs) fun _ => newSet
  | and => exact bind (intersectionOf ht hvs) fun _ => newSet
  | sub => exact bind (differenceOf ht hvs) fun _ => newSet
  | xor => exact bind (symmetricOf ht hvs) fun _ => newSet
  | _ => exact raise

theorem allOps_mergeInto {t s : Table (Value × Value)} (ht : AllOps Good t) (hs : AllOps Good s) :
    AllOps Good (mergeInto t s) := by
  rw [mergeInto, ← Array.foldl_toList]
  refine List.foldlRecOn _ _ ht fun t ht e he => ?_
  have hvalue : AllOps Good e.value := hs e (Array.mem_toList_iff.1 he)
  split
  · rename_i t' ht'
    refine Table.allOps_enter ht hvalue (fun x hx => ?_) ht'
    exact ⟨hx.1, hvalue.2⟩
  · exact ht

/-- A list or a text of several copies. -/
theorem repeated {n : Int} {xs : List α} {f : List α → Value} (h : AllOps Good xs)
    (hf : ∀ ys, AllOps Good ys → AllOps Good (f ys)) :
    Keeps (do return f (← Script.repeatList n xs)) :=
  bind (repeatList h) fun ys hys => pure (hf ys hys)

theorem arith {op : BinaryOp} {x y : Value} (hx : AllOps Good x) (hy : AllOps Good y) :
    Keeps (arith op x y) := by
  unfold Script.arith
  split
  · exact intArith
  · exact ite floatArith raise
  · exact ite (bind toFloat fun _ _ => floatArith) (ite raise raise)
  · exact ite (bind toFloat fun _ _ => floatArith) raise
  · exact ite setArith raise
  · exact ite (bind dictTable fun _ ht => bind dictTable fun _ hs =>
      newDict (allOps_mergeInto ht hs)) raise
  · split
    · exact flat rfl
    · exact pure (Value.allOps_tuple.2
        (allOps_append.2 ⟨Value.allOps_tuple.1 hx, Value.allOps_tuple.1 hy⟩))
    · exact bind listElems fun _ has => bind listElems fun _ hbs =>
        newList (allOps_append.2 ⟨allOps_toList.2 has, allOps_toList.2 hbs⟩)
    iterate 4 exact repeated (allOps_plainList _) fun _ _ => Value.allOps_of_isFlat rfl
    · exact repeated (Value.allOps_tuple.1 hy) fun _ => Value.allOps_tuple.2
    · exact repeated (Value.allOps_tuple.1 hx) fun _ => Value.allOps_tuple.2
    iterate 2
      exact bind listElems fun _ hes => bind (repeatList (allOps_toList.2 hes)) fun _ => newList
    · exact bind toFloat fun _ _ => raise
    · exact interpolate hy
    iterate 3 exact raise

theorem binary {op : BinaryOp} {x y : Value} (hx : AllOps Good x) (hy : AllOps Good y) :
    Keeps (binary op x y) := by
  cases op with
  | eq | ne | lt | le | gt | ge => exact bind compare fun _ _ => flat rfl
  | isIn | notIn => exact bind isIn fun _ _ => flat rfl
  | _ => exact arith hx hy

theorem unary {op : UnaryOp} {x : Value} (hx : AllOps Good x) : Keeps (unary op x) := by
  unfold Script.unary
  split
  · exact bind (truth hx) fun _ _ => flat rfl
  iterate 5 exact flat rfl
  exact raise

theorem augment {op : BinaryOp} {x y : Value} (hx : AllOps Good x) (hy : AllOps Good y) :
    Keeps (augment op x y) := by
  unfold Script.augment
  split
  · refine bind (items? hy) fun found hfound => ?_
    cases found with
    | none => exact binary hx hy
    | some s =>
      have hmore := Items.allOps_items_toList (allOps_some.1 hfound)
      refine bind mutable fun _ _ => bind (changeList fun vs hvs => ?_) fun _ _ => pure hx
      exact allOps_array_append_list.2 ⟨hvs, hmore⟩
  · refine bind mutable fun _ _ => bind dictTable fun _ ht => bind dictTable fun _ hs => ?_
    exact bind (setDict (allOps_mergeInto ht hs)) fun _ _ => pure hx
  · exact binary hx hy

/-! ## Indices and slices -/

theorem placeOf {type : String} {i length : Int} : Keeps (placeOf type i length) :=
  guard raise fun _ => plain

theorem indexInt {type : String} {v : Value} : Keeps (indexInt type v) := by
  refine of_ok (smallInt (v := v)) fun s a s' ha => ?_
  unfold Script.indexInt at ha
  split at ha <;> cases ha
  assumption

/-- The place that a value is in something of a type and length. -/
theorem placeIn {type : String} {v : Value} {length : Int} :
    Keeps (do Script.placeOf type (← Script.indexInt type v) length) :=
  bind indexInt fun _ _ => placeOf

theorem indexValue {x y : Value} (hx : AllOps Good x) (hy : AllOps Good y) :
    Keeps (indexValue x y) := by
  unfold Script.indexValue
  dsimp only
  split
  · refine bind lookup fun found hfound => ?_
    cases found with
    | none => exact bind (reprOf hy) fun _ _ => raise
    | some v => exact pure (allOps_some.1 hfound)
  · exact bind placeIn fun _ _ => flat rfl
  · exact bind placeIn fun _ _ => flat rfl
  · exact bind listElems fun _ hes => bind placeIn fun i _ =>
      pure (allOps_array_getD hes (Value.allOps_of_isFlat rfl) i)
  · exact bind placeIn fun i _ =>
      pure (allOps_getD (Value.allOps_tuple.1 hx) (Value.allOps_of_isFlat rfl) i)
  · exact bind placeIn fun i _ => pure (Items.allOps_rangeItems _ _ _ i)
  · exact bind placeIn fun i _ => pure (Items.allOps_viewItems _ _ i)
  · exact bind placeIn fun i _ => pure (Items.allOps_viewItems _ _ i)
  · exact raise

theorem sliceBound {part : String} {v : Value} {length fallback : Int} :
    Keeps (sliceBound part v length fallback) := by
  intro s a s' hs ha
  refine ⟨trivial, ?_⟩
  unfold Script.sliceBound at ha
  split at ha
  · cases ha
    exact hs
  · split at ha <;> cases ha
    rename_i hsmall
    exact (smallInt _ _ _ hs hsmall).2

theorem sliceStep {v : Value} : Keeps (sliceStride.sliceStep v) := by
  refine of_ok (smallInt (v := v)) fun s a s' ha => ?_
  unfold sliceStride.sliceStep at ha
  split at ha <;> cases ha
  assumption

theorem forwardBounds {low high : Value} {length : Int} :
    Keeps (forwardBounds low high length) :=
  bind sliceBound fun _ _ => bind sliceBound fun _ _ => pure ⟨trivial, trivial⟩

/-- The stride of a slice, once its step is known. -/
theorem strideBy {length : Int} {low high : Value} (n : Int) : Keeps (do
    if n = 0 then Script.raise .zeroSliceStep
    if 0 < n then
      let (start, stop) ← Script.forwardBounds low high length
      return (⟨start, max start stop, n⟩ : Stride)
    else
      let start ← Script.sliceBound "start index" low length (length - 1)
      let stop ← Script.sliceBound "end index" high length (-1)
      let start := min (length - 1) start
      let stop := max (-1) stop
      return ⟨max start stop, stop, n⟩) := by
  refine guard raise fun _ => ite (bind forwardBounds fun _ _ => plain) ?_
  exact bind sliceBound fun _ _ => bind sliceBound fun _ _ => plain

theorem sliceStride {length : Int} {low high step : Value} :
    Keeps (sliceStride length low high step) := by
  unfold Script.sliceStride
  split
  · exact strideBy 1
  · exact bind sliceStep fun n _ => strideBy n

theorem pickSlice {xs : Array α} {low high step : Value} (h : AllOps Good xs) :
    Keeps (pickSlice xs low high step) :=
  bind sliceStride fun stride _ => pure (allOps_filterMap_getElem? h stride.places)

/-- The elements of a slice, as a value. -/
theorem sliced {xs : Array α} {f : List α → Value} {low high step : Value} (h : AllOps Good xs)
    (hf : ∀ ys, AllOps Good ys → AllOps Good (f ys)) :
    Keeps (do return f (← Script.pickSlice xs low high step)) :=
  bind (pickSlice h) fun ys hys => pure (hf ys hys)

theorem sliceValue {x low high step : Value} (h : AllOps Good x) :
    Keeps (sliceValue x low high step) := by
  unfold Script.sliceValue
  split
  iterate 2
    exact sliced (allOps_toArray.2 (allOps_plainList _)) fun _ _ => Value.allOps_of_isFlat rfl
  · exact sliced (allOps_toArray.2 (Value.allOps_tuple.1 h)) fun _ => Value.allOps_tuple.2
  · exact bind listElems fun _ hes => bind (pickSlice hes) fun _ => newList
  · exact bind sliceStride fun _ _ => flat rfl
  · exact raise

theorem setIndex {x y z : Value} (hy : AllOps Good y) (hz : AllOps Good z) :
    Keeps (setIndex x y z) := by
  unfold Script.setIndex
  split
  · exact insertKey hy hz
  · refine bind listElems fun _ _ => bind smallInt fun _ _ => bind placeOf fun i _ => ?_
    refine bind mutable fun _ _ => changeList fun vs hvs => ?_
    exact allOps_setIfInBounds hvs hz i
  · exact raise

end Keeps

end TapeForge.Script

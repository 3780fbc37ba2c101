import Mathlib.Data.List.Induction
import Mathlib.Data.List.Nodup
import Mathlib.Data.List.Perm.Basic
import TapeForge.Command.Usage

/-!
# Usage in whatever order names come

A table has no order of its own. Usage is made in a walk over its names, which may come in any
order: names that refer to one command are bundled as they come, and the bundles are sorted. No two
commands share a name, so all walks and all sorts come to the same: one row for each command, its
names in ascending order, the rows in ascending order of their first names, and below each row,
further to the right, the rows of the commands that become visible after it.
-/

namespace TapeForge

/-! ## Byte strings in order -/

theorem Bytes.compare_eq_compareLex : Bytes.compare = List.compareLex Ord.compare := by
  funext a b
  fun_induction Bytes.compare a b with
  | case1 => rfl
  | case2 => rfl
  | case3 => rfl
  | case4 a as b bs hlt => rw [List.compareLex, Std.compare_eq_lt.2 hlt]
  | case5 a as b bs _ hgt => rw [List.compareLex, Std.compare_eq_gt.2 hgt]
  | case6 a as b bs hlt hgt ih =>
      have heq : a = b := by
        rw [UInt8.lt_iff_toNat_lt] at hlt hgt
        exact UInt8.toNat_inj.1 (by omega)
      rw [List.compareLex, heq, Std.ReflOrd.compare_self, ih]

instance : Std.TransCmp Bytes.compare := Bytes.compare_eq_compareLex ▸ inferInstance

instance : Std.LawfulEqCmp Bytes.compare := Bytes.compare_eq_compareLex ▸ inferInstance

section Ascending

variable {α : Type} {key : α → Bytes} {xs ys : List α}

def Ascending (key : α → Bytes) (xs : List α) : Prop :=
  xs.Pairwise fun a b => Bytes.compare (key a) (key b) = .lt

instance : Decidable (Ascending key xs) := inferInstanceAs (Decidable (xs.Pairwise _))

/-- A result of sorting by keys: a rearrangement in which nothing stands behind what has a greater
key. Equal keys may come in any order. -/
structure Sorts (key : α → Bytes) (xs ys : List α) : Prop where
  perm : ys.Perm xs
  sorted : ys.Pairwise fun a b => Bytes.compare (key a) (key b) ≠ .gt

theorem Ascending.nodup (h : Ascending key xs) : (xs.map key).Nodup := by
  refine List.pairwise_map.2 (h.imp fun {a b} hlt heq => ?_)
  have hself : Bytes.compare (key b) (key b) = .eq := Std.ReflCmp.compare_self
  rw [heq, hself] at hlt
  cases hlt

theorem ascending_map : Ascending id (xs.map key) ↔ Ascending key xs := List.pairwise_map

theorem Ascending.ext (hx : Ascending key xs) (hy : Ascending key ys)
    (h : ∀ a, a ∈ xs ↔ a ∈ ys) : xs = ys := by
  have hperm : xs.Perm ys :=
    (List.perm_ext_iff_of_nodup (hx.nodup.of_map key) (hy.nodup.of_map key)).2 h
  refine List.Perm.eq_of_pairwise (fun a b _ _ hab hba => ?_) hx hy hperm
  have hnot : Bytes.compare (key b) (key a) ≠ .lt := Std.OrientedCmp.not_lt_of_lt hab
  exact absurd hba hnot

/-- Where all keys differ, sorting leaves no choice. -/
theorem Sorts.ascending (h : Sorts key xs ys) (hx : (xs.map key).Nodup) : Ascending key ys := by
  have hne : ys.Pairwise fun a b => key a ≠ key b :=
    List.pairwise_map.1 ((h.perm.map key).nodup_iff.2 hx)
  refine (h.sorted.and hne).imp fun {a b} hab => ?_
  cases hc : Bytes.compare (key a) (key b) with
  | lt => rfl
  | eq => exact absurd (Std.LawfulEqCmp.eq_of_compare hc) hab.2
  | gt => exact absurd hc hab.1

theorem sorts_mergeSort (key : α → Bytes) (xs : List α) :
    Sorts key xs (xs.mergeSort fun a b => Bytes.compare (key a) (key b) != .gt) where
  perm := List.mergeSort_perm _ _
  sorted := by
    have hle : ∀ a b : Bytes, (Bytes.compare a b != .gt) = (Bytes.compare a b).isLE := by
      intro a b
      cases Bytes.compare a b <;> rfl
    refine (List.pairwise_mergeSort ?_ ?_ xs).imp fun {a b} hab => by simpa using hab
    · intro a b c hab hbc
      rw [hle] at hab hbc ⊢
      exact Std.TransCmp.isLE_trans hab hbc
    · intro a b
      have hswap : Bytes.compare (key b) (key a) = (Bytes.compare (key a) (key b)).swap :=
        Std.OrientedCmp.eq_swap
      rw [hle, hle, hswap]
      cases Bytes.compare (key a) (key b) <;> rfl

/-- Sorting gives the only rearrangement that ascends, if there is one. -/
theorem Ascending.mergeSort_eq (h : Ascending key ys) (hperm : ys.Perm xs) :
    (xs.mergeSort fun a b => Bytes.compare (key a) (key b) != .gt) = ys := by
  have hsort := sorts_mergeSort key xs
  have hnodup : (xs.map key).Nodup := (hperm.map key).nodup_iff.1 h.nodup
  exact (hsort.ascending hnodup).ext h fun a => (hsort.perm.trans hperm.symm).mem_iff

end Ascending

namespace Command

variable {σ : Type}

/-! ## Tables as they are printed -/

/-- Names are bound once in a table and in the tables of its commands, and nothing is bound to no
name at all. -/
inductive Keyed : Table σ → Prop
  | mk {t : Table σ} : (t.flatMap Entry.names).Nodup → (∀ e ∈ t, e.names ≠ []) →
      (∀ e ∈ t, ∀ c, e.bound = some c → Keyed c.subs) → Keyed t

namespace Table

theorem find?_eq_none_iff {t : Table σ} {x : Bytes} :
    t.find? x = none ↔ x ∉ t.flatMap Entry.names := by
  simp [Table.find?, List.mem_flatMap]

/-- The names under which a command is defined are different and new. -/
theorem freeNames_spec {t : Table σ} {taken : List Bytes} (names : List Bytes)
    (htaken : taken.Nodup) (hnew : ∀ x ∈ taken, t.find? x = none) :
    (t.freeNames taken names).1.Nodup ∧ ∀ x ∈ (t.freeNames taken names).1, t.find? x = none := by
  induction names generalizing taken with
  | nil => exact ⟨List.nodup_reverse.2 htaken, fun x hx => hnew x (List.mem_reverse.1 hx)⟩
  | cons x names ih =>
      rw [freeNames]
      split
      · exact ⟨List.nodup_reverse.2 htaken, fun x hx => hnew x (List.mem_reverse.1 hx)⟩
      next hfree =>
        simp only [Bool.or_eq_true, Option.isSome_iff_ne_none, List.contains_iff_mem, not_or,
          not_not] at hfree
        exact ih (List.nodup_cons.2 ⟨hfree.2, htaken⟩) (List.forall_mem_cons.2 ⟨hfree.1, hnew⟩)

end Table

theorem keyed_initial : Keyed (Table.initial σ) := by
  refine .mk ?_ (by simp [Table.initial]) fun e he c hc => ?_
  · rw [Table.initial, List.flatMap_singleton]
    show (["-h", "help", "-help", "--help"].map Bytes.ofString).Nodup
    decide
  · rw [List.mem_singleton.1 he] at hc
    cases hc
    exact .mk List.nodup_nil nofun nofun

/-- A table stays such a table, whatever names are given to a command, taken ones included. -/
theorem Keyed.define {t : Table σ} (ht : Keyed t) {c : Command σ} (hc : Keyed c.subs)
    (names : List Bytes) : Keyed (t.define names c).1 := by
  obtain ⟨hnodup, hnew⟩ := Table.freeNames_spec (t := t) names List.nodup_nil nofun
  rw [Table.define]
  generalize t.freeNames [] names = found at hnodup hnew
  obtain ⟨free, clash⟩ := found
  dsimp only at hnodup hnew ⊢
  split
  · exact ht
  next hsome =>
    obtain ⟨hnames, hfilled, hsubs⟩ := ht
    refine .mk ?_ ?_ ?_
    · rw [List.flatMap_append, List.flatMap_singleton, List.nodup_append']
      exact ⟨hnames, hnodup, fun x hx hx' => Table.find?_eq_none_iff.1 (hnew x hx') hx⟩
    · rw [List.forall_mem_append, List.forall_mem_singleton]
      exact ⟨hfilled, fun hnil => hsome (List.isEmpty_iff.2 hnil)⟩
    · rw [List.forall_mem_append, List.forall_mem_singleton]
      exact ⟨hsubs, by rintro _ ⟨⟩; exact hc⟩

/-- A command as it is printed, with its names in the order they are printed in. -/
structure Row (σ : Type) where
  names : List Bytes
  command : Command σ

namespace Row

def first (r : Row σ) : Bytes := r.names.headD []

/-- The line of a row: two blanks for each step of depth, the names with commas between them, and
behind a tab what is said of the command, if anything is. -/
def line (depth : Nat) (r : Row σ) : Bytes :=
  List.replicate (2 * depth) 32 ++ ([44, 32] : Bytes).intercalate r.names ++
    (if r.command.description.isEmpty then [] else 9 :: r.command.description)

end Row

section Prints

variable (Lists : Table σ → List (Row σ) → Prop)

mutual

/-- The lines of a table at a depth, where `Lists` says in which rows a table is printed. -/
inductive Prints : Nat → Table σ → List Bytes → Prop
  | table {depth : Nat} {t : Table σ} {rows : List (Row σ)} {lines : List Bytes} :
      Lists t rows → PrintsRows depth rows lines → Prints depth t lines

/-- The lines of rows at a depth: each row is followed by the lines of the commands that become
visible after it, one step deeper. -/
inductive PrintsRows : Nat → List (Row σ) → List Bytes → Prop
  | nil {depth : Nat} : PrintsRows depth [] []
  | cons {depth : Nat} {r : Row σ} {rows : List (Row σ)} {below lines : List Bytes} :
      Prints (depth + 1) r.command.subs below → PrintsRows depth rows lines →
      PrintsRows depth (r :: rows) (r.line depth :: (below ++ lines))

end

end Prints

/-- Each command of a table has a row, with just the names that are bound to it in ascending order,
and there are no other rows; they are in ascending order of their first names. -/
structure Arranged (t : Table σ) (rows : List (Row σ)) : Prop where
  complete : ∀ e ∈ t, ∀ c, e.bound = some c → ∃ names, ⟨names, c⟩ ∈ rows ∧ names.Perm e.names
  sound : ∀ r ∈ rows, ∃ e ∈ t, e.bound = some r.command ∧ r.names.Perm e.names
  names : ∀ r ∈ rows, Ascending id r.names
  rows : Ascending Row.first rows

/-! ## Walks -/

/-- The names of a table, each with the place of its entry. Two names refer to one command exactly
if their places are the same. -/
def Table.bindings (t : Table σ) : List (Bytes × Nat) :=
  t.zipIdx.flatMap fun (e, i) => e.names.map fun x => (x, i)

/-- The command that names with a place refer to, unless they are bound to nothing. -/
def Table.commandAt (t : Table σ) (i : Nat) : Option (Command σ) := t[i]?.bind Entry.bound

/-- Names that refer to one place. -/
structure Bundle where
  place : Nat
  names : List Bytes

namespace Bundle

/-- The name that bundles are sorted by. -/
def first (b : Bundle) : Bytes := b.names.headD []

/-- Puts a name to those of the same place, or in a bundle of its own behind the others. -/
def file (x : Bytes) (i : Nat) : List Bundle → List Bundle
  | [] => [⟨i, [x]⟩]
  | b :: bs => if b.place = i then ⟨i, b.names ++ [x]⟩ :: bs else b :: file x i bs

/-- The names of bundles, each with its place. -/
def spread (bs : List Bundle) : List (Bytes × Nat) :=
  bs.flatMap fun b => b.names.map fun x => (x, b.place)

end Bundle

/-- Bundles the names that come up in a walk over a table. Names of nothing are passed over. -/
def Table.gather (t : Table σ) (walk : List (Bytes × Nat)) : List Bundle :=
  walk.foldl (fun bs x => if (t.commandAt x.2).isSome then Bundle.file x.1 x.2 bs else bs) []

/-- The rows that come of a walk over the names of a table, whatever order they come in: they are
bundled, the names of each bundle are sorted, and the bundles are sorted by their first names. -/
inductive Walked (t : Table σ) (rows : List (Row σ)) : Prop
  | mk {walk : List (Bytes × Nat)} {sorted : Bundle → List Bytes} {order : List Bundle} :
      walk.Perm t.bindings →
      (∀ b ∈ t.gather walk, Sorts id b.names (sorted b)) →
      Sorts Bundle.first ((t.gather walk).map fun b => ⟨b.place, sorted b⟩) order →
      (order.map fun b => (b.names, t.commandAt b.place)) =
        rows.map (fun r => (r.names, some r.command)) →
      Walked t rows

/-! ## Bundles -/

theorem Table.mem_bindings {t : Table σ} {x : Bytes} {i : Nat} :
    (x, i) ∈ t.bindings ↔ ∃ e, t[i]? = some e ∧ x ∈ e.names := by
  simp only [Table.bindings, List.mem_flatMap, List.mem_map, Prod.mk.injEq]
  constructor
  · rintro ⟨⟨e, j⟩, hej, y, hy, rfl, rfl⟩
    exact ⟨e, List.mem_zipIdx_iff_getElem?.1 hej, hy⟩
  · rintro ⟨e, he, hx⟩
    exact ⟨(e, i), List.mem_zipIdx_iff_getElem?.2 he, x, hx, rfl, rfl⟩

theorem Table.map_fst_bindings (t : Table σ) :
    t.bindings.map Prod.fst = t.flatMap Entry.names := by
  simp only [Table.bindings, List.map_flatMap, List.map_map]
  conv_rhs => rw [← List.zipIdx_map_fst 0 t, List.flatMap_map]
  simp [Function.comp_def]

/-- Bundles of just these names, one for each place. -/
structure Bundled (bs : List Bundle) (xs : List (Bytes × Nat)) : Prop where
  spread : (Bundle.spread bs).Perm xs
  places : (bs.map Bundle.place).Nodup
  filled : ∀ b ∈ bs, b.names ≠ []

section Bundled

variable {bs : List Bundle} {xs ys : List (Bytes × Nat)} {x : Bytes} {i : Nat}

theorem spread_file (x : Bytes) (i : Nat) (bs : List Bundle) :
    (Bundle.spread (Bundle.file x i bs)).Perm ((x, i) :: Bundle.spread bs) := by
  induction bs with
  | nil => rfl
  | cons b bs ih =>
      rw [Bundle.file]
      split
      next h =>
        subst h
        simp only [Bundle.spread, List.flatMap_cons, List.map_append, List.map_singleton,
          List.append_assoc, List.singleton_append]
        exact List.perm_middle
      next h =>
        exact (ih.append_left (b.names.map fun x => (x, b.place))).trans List.perm_middle

theorem places_file (x : Bytes) (i : Nat) (bs : List Bundle) :
    (Bundle.file x i bs).map Bundle.place =
      if i ∈ bs.map Bundle.place then bs.map Bundle.place else bs.map Bundle.place ++ [i] := by
  induction bs with
  | nil => rfl
  | cons b bs ih =>
      rw [Bundle.file]
      split
      next h => simp [h]
      next h =>
        have hne : i ≠ b.place := fun h' => h h'.symm
        rw [List.map_cons, ih]
        by_cases hi : i ∈ bs.map Bundle.place <;> simp [hi, hne]

theorem filled_file (h : ∀ b ∈ bs, b.names ≠ []) : ∀ b ∈ Bundle.file x i bs, b.names ≠ [] := by
  induction bs with
  | nil => simp [Bundle.file]
  | cons b bs ih =>
      rw [Bundle.file]
      rw [List.forall_mem_cons] at h
      split
      · exact List.forall_mem_cons.2 ⟨by simp, h.2⟩
      · exact List.forall_mem_cons.2 ⟨h.1, ih h.2⟩

theorem Bundled.perm (h : Bundled bs xs) (hp : xs.Perm ys) : Bundled bs ys where
  spread := h.spread.trans hp
  places := h.places
  filled := h.filled

theorem Bundled.file (h : Bundled bs xs) (x : Bytes) (i : Nat) :
    Bundled (Bundle.file x i bs) (xs ++ [(x, i)]) where
  spread := by
    refine (spread_file x i bs).trans ((h.spread.cons _).trans ?_)
    exact (List.perm_append_singleton _ _).symm
  places := by
    rw [places_file]
    split
    · exact h.places
    next hi => exact (List.perm_append_singleton _ _).nodup_iff.2 (List.nodup_cons.2 ⟨hi, h.places⟩)
  filled := filled_file h.filled

theorem Table.gather_append_singleton (t : Table σ) (walk : List (Bytes × Nat)) (x : Bytes × Nat) :
    t.gather (walk ++ [x]) =
      if (t.commandAt x.2).isSome then Bundle.file x.1 x.2 (t.gather walk) else t.gather walk := by
  rw [Table.gather, List.foldl_append]
  rfl

theorem bundled_gather (t : Table σ) (walk : List (Bytes × Nat)) :
    Bundled (t.gather walk) (walk.filter fun x => (t.commandAt x.2).isSome) := by
  induction walk using List.reverseRecOn with
  | nil => exact ⟨.nil, List.nodup_nil, nofun⟩
  | append_singleton walk x ih =>
      -- The last name of a walk is filed last, so the induction is from the end of the walk.
      rw [Table.gather_append_singleton, List.filter_append]
      by_cases hx : (t.commandAt x.2).isSome = true
      · simpa [hx] using ih.file x.1 x.2
      · simpa [hx] using ih

/-- Sorting bundles, and the names within each, loses nothing. -/
theorem Bundled.sorts {sorted : Bundle → List Bytes} {order : List Bundle} (h : Bundled bs xs)
    (hnames : ∀ b ∈ bs, (sorted b).Perm b.names)
    (horder : order.Perm (bs.map fun b => ⟨b.place, sorted b⟩)) : Bundled order xs where
  spread := by
    refine (horder.flatMap_right _).trans (List.Perm.trans ?_ h.spread)
    rw [List.flatMap_map]
    exact List.Perm.flatMap_left bs fun b hb => (hnames b hb).map _
  places := by
    rw [(horder.map Bundle.place).nodup_iff, List.map_map]
    exact h.places
  filled := by
    intro b hb hnil
    obtain ⟨b', hb', rfl⟩ := List.mem_map.1 (horder.mem_iff.1 hb)
    have hperm := hnames b' hb'
    rw [show sorted b' = [] from hnil] at hperm
    exact h.filled b' hb' hperm.symm.eq_nil

end Bundled

/-! ## One walk -/

theorem headD_mem {ns : List Bytes} (h : ns ≠ []) : ns.headD [] ∈ ns := by
  cases ns with
  | nil => exact absurd rfl h
  | cons x ns => exact List.mem_cons_self

section Keyed

variable {t : Table σ} {rows : List (Row σ)} {bs : List Bundle}

theorem Table.commandAt_eq_some_iff {i : Nat} {c : Command σ} :
    t.commandAt i = some c ↔ ∃ e, t[i]? = some e ∧ e.bound = some c :=
  Option.bind_eq_some_iff

/-- The names of the commands that are there. -/
def Table.present (t : Table σ) : List (Bytes × Nat) :=
  t.bindings.filter fun x => (t.commandAt x.2).isSome

theorem Table.mem_present {x : Bytes} {i : Nat} :
    (x, i) ∈ t.present ↔ ∃ e c, t[i]? = some e ∧ e.bound = some c ∧ x ∈ e.names := by
  rw [Table.present, List.mem_filter, Table.mem_bindings, Option.isSome_iff_exists]
  simp only [Table.commandAt_eq_some_iff]
  constructor
  · rintro ⟨⟨e, he, hx⟩, c, e', he', hc⟩
    cases he.symm.trans he'
    exact ⟨e, c, he, hc, hx⟩
  · rintro ⟨e, c, he, hc, hx⟩
    exact ⟨⟨e, he, hx⟩, c, e, he, hc⟩

theorem Keyed.nodup_present (h : Keyed t) : (t.present.map Prod.fst).Nodup := by
  obtain ⟨hnames, -, -⟩ := h
  rw [← Table.map_fst_bindings] at hnames
  exact hnames.sublist (List.filter_sublist.map Prod.fst)

theorem Keyed.nodup_names (h : Keyed t) {e : Entry (Command σ)} (he : e ∈ t) : e.names.Nodup := by
  obtain ⟨hnames, -, -⟩ := h
  exact (List.nodup_flatMap.1 hnames).1 e he

theorem map_fst_spread (bs : List Bundle) :
    (Bundle.spread bs).map Prod.fst = bs.flatMap Bundle.names := by
  simp [Bundle.spread, List.map_flatMap, Function.comp_def]

theorem mem_spread {x : Bytes} {i : Nat} :
    (x, i) ∈ Bundle.spread bs ↔ ∃ b ∈ bs, b.place = i ∧ x ∈ b.names := by
  simp only [Bundle.spread, List.mem_flatMap, List.mem_map, Prod.mk.injEq]
  constructor
  · rintro ⟨b, hb, y, hy, rfl, rfl⟩
    exact ⟨b, hb, rfl, hy⟩
  · rintro ⟨b, hb, rfl, hx⟩
    exact ⟨b, hb, x, hx, rfl, rfl⟩

/-- Where no two elements have a name in common, elements are told apart by any name of theirs. -/
theorem nodup_map_of_flatMap {α : Type} {names : α → List Bytes} {pick : α → Bytes} {xs : List α}
    (h : (xs.flatMap names).Nodup) (hpick : ∀ a ∈ xs, pick a ∈ names a) : (xs.map pick).Nodup := by
  refine List.pairwise_map.2 ((List.nodup_flatMap.1 h).2.imp_of_mem fun {a b} ha hb hab heq => ?_)
  exact hab (hpick a ha) (heq ▸ hpick b hb)

namespace Bundled

variable (h : Bundled bs t.present) (ht : Keyed t)

include h ht

theorem nodup_flatMap : (bs.flatMap Bundle.names).Nodup := by
  rw [← map_fst_spread]
  exact (h.spread.map Prod.fst).nodup_iff.2 ht.nodup_present

theorem nodup_first : (bs.map Bundle.first).Nodup :=
  nodup_map_of_flatMap (h.nodup_flatMap ht) fun b hb => headD_mem (h.filled b hb)

/-- A bundle has just the names of a command. -/
theorem entry {b : Bundle} (hb : b ∈ bs) :
    ∃ e c, t[b.place]? = some e ∧ e.bound = some c ∧ b.names.Perm e.names := by
  have hpresent : ∀ x, x ∈ b.names ↔ (x, b.place) ∈ t.present := by
    intro x
    rw [← h.spread.mem_iff, mem_spread]
    refine ⟨fun hx => ⟨b, hb, rfl, hx⟩, ?_⟩
    rintro ⟨b', hb', hplace, hx⟩
    -- No other bundle has this place, so all its names are here.
    rwa [← List.inj_on_of_nodup_map h.places hb' hb hplace]
  obtain ⟨e, c, he, hc, -⟩ := Table.mem_present.1 ((hpresent _).1 (headD_mem (h.filled b hb)))
  have hnodup := (List.nodup_flatMap.1 (h.nodup_flatMap ht)).1 b hb
  refine ⟨e, c, he, hc, (List.perm_ext_iff_of_nodup hnodup
    (ht.nodup_names (List.mem_of_getElem? he))).2 fun x => ?_⟩
  rw [hpresent, Table.mem_present]
  constructor
  · rintro ⟨e', c', he', -, hx⟩
    cases he.symm.trans he'
    exact hx
  · exact fun hx => ⟨e, c, he, hc, hx⟩

/-- Each command has a bundle. -/
theorem exists_place {e : Entry (Command σ)} {c : Command σ} (he : e ∈ t) (hc : e.bound = some c) :
    ∃ b ∈ bs, t[b.place]? = some e := by
  obtain ⟨i, hi⟩ := List.getElem?_of_mem he
  obtain ⟨-, hfilled, -⟩ := ht
  have hpresent := Table.mem_present.2 ⟨e, c, hi, hc, headD_mem (hfilled e he)⟩
  obtain ⟨b, hb, rfl, -⟩ := mem_spread.1 (h.spread.mem_iff.2 hpresent)
  exact ⟨b, hb, hi⟩

/-- Sorting the names of each bundle leaves them in ascending order, since none occurs twice. -/
theorem ascending {sorted : Bundle → List Bytes} {order : List Bundle}
    (hsorts : ∀ b ∈ bs, Sorts id b.names (sorted b))
    (horder : order.Perm (bs.map fun b => ⟨b.place, sorted b⟩)) :
    ∀ b ∈ order, Ascending id b.names := by
  intro b hb
  obtain ⟨b', hb', rfl⟩ := List.mem_map.1 (horder.mem_iff.1 hb)
  refine (hsorts b' hb').ascending ?_
  rw [List.map_id]
  exact (List.nodup_flatMap.1 (h.nodup_flatMap ht)).1 b' hb'

end Bundled

theorem bundled_walk {walk : List (Bytes × Nat)} (h : walk.Perm t.bindings) :
    Bundled (t.gather walk) t.present :=
  (bundled_gather t walk).perm (h.filter _)

/-- However the names are walked and sorted, the rows are arranged. -/
theorem Walked.arranged (ht : Keyed t) (h : Walked t rows) : Arranged t rows := by
  obtain ⟨hwalk, hsorts, horder, hrows⟩ := h
  rename_i walk sorted order
  have hgather := bundled_walk hwalk
  have hbundled : Bundled order t.present :=
    hgather.sorts (fun b hb => (hsorts b hb).perm) horder.perm
  have hascending := hgather.ascending ht hsorts horder.perm
  have hrow : ∀ r ∈ rows, ∃ b ∈ order,
      b.names = r.names ∧ t.commandAt b.place = some r.command := by
    intro r hr
    have hmem := List.mem_map_of_mem (f := fun r : Row σ => (r.names, some r.command)) hr
    rw [← hrows] at hmem
    obtain ⟨b, hb, heq⟩ := List.mem_map.1 hmem
    exact ⟨b, hb, (Prod.mk.inj heq).1, (Prod.mk.inj heq).2⟩
  refine ⟨fun e he c hc => ?_, fun r hr => ?_, fun r hr => ?_, ?_⟩
  · obtain ⟨b, hb, hplace⟩ := hbundled.exists_place ht he hc
    have hmem := List.mem_map_of_mem (f := fun b => (b.names, t.commandAt b.place)) hb
    rw [hrows] at hmem
    obtain ⟨r, hr, heq⟩ := List.mem_map.1 hmem
    obtain ⟨e', c', he', hc', hperm⟩ := hbundled.entry ht hb
    cases hplace.symm.trans he'
    have hcommand : some r.command = some c :=
      (Prod.mk.inj heq).2.trans (Table.commandAt_eq_some_iff.2 ⟨e, hplace, hc⟩)
    refine ⟨r.names, ?_, (Prod.mk.inj heq).1 ▸ hperm⟩
    rw [← Option.some.inj hcommand]
    exact hr
  · obtain ⟨b, hb, hnames, hcommand⟩ := hrow r hr
    obtain ⟨e, c, he, hc, hperm⟩ := hbundled.entry ht hb
    obtain ⟨e', he', hc'⟩ := Table.commandAt_eq_some_iff.1 hcommand
    cases he.symm.trans he'
    exact ⟨e, List.mem_of_getElem? he, hc', hnames ▸ hperm⟩
  · obtain ⟨b, hb, hnames, -⟩ := hrow r hr
    exact hnames ▸ hascending b hb
  · have hfirst : rows.map Row.first = order.map Bundle.first := by
      have hnames := congrArg (List.map fun x => x.1.headD []) hrows
      rw [List.map_map, List.map_map] at hnames
      exact hnames.symm
    -- Bundles have no name in common, so first names differ and sorting by them leaves no choice.
    have hsorted : Ascending Bundle.first order :=
      horder.ascending ((horder.perm.map _).nodup_iff.1 (hbundled.nodup_first ht))
    rw [← ascending_map, hfirst, ascending_map]
    exact hsorted

/-- There is a walk. -/
theorem exists_walked (ht : Keyed t) : ∃ rows, Walked t rows := by
  have hgather := bundled_walk (List.Perm.refl t.bindings)
  have hsort := sorts_mergeSort Bundle.first
    ((t.gather t.bindings).map fun b => ⟨b.place, Item.sortNames b.names⟩)
  have hbundled := hgather.sorts (fun b _ => (sorts_mergeSort id b.names).perm) hsort.perm
  generalize List.mergeSort _ _ = order at hsort hbundled
  refine ⟨order.filterMap fun b => (t.commandAt b.place).map fun c => ⟨b.names, c⟩,
    .mk (.refl _) (fun b _ => sorts_mergeSort id b.names) hsort ?_⟩
  rw [List.map_filterMap, ← List.filterMap_eq_map]
  refine List.filterMap_congr fun b hb => ?_
  obtain ⟨e, c, he, hc, -⟩ := hbundled.entry ht hb
  simp [Table.commandAt_eq_some_iff.2 ⟨e, he, hc⟩]

/-- Rows can be arranged in one way only. -/
theorem Arranged.unique {rows' : List (Row σ)} (h : Arranged t rows) (h' : Arranged t rows') :
    rows = rows' := by
  have hforth : ∀ {rows rows' : List (Row σ)}, Arranged t rows → Arranged t rows' →
      ∀ r ∈ rows, r ∈ rows' := by
    intro rows rows' h h' r hr
    obtain ⟨e, he, hc, hperm⟩ := h.sound r hr
    obtain ⟨names, hmem, hperm'⟩ := h'.complete e he _ hc
    have hnames : r.names = names := (h.names r hr).ext (h'.names _ hmem) fun x =>
      (hperm.trans hperm'.symm).mem_iff
    subst hnames
    exact hmem
  exact h.rows.ext h'.rows fun r => ⟨hforth h h' r, hforth h' h r⟩

end Keyed

/-! ## Usage -/

/-- The row of an entry, if anything is bound to its names. -/
def Row.ofEntry? (e : Entry (Command σ)) : Option (Row σ) :=
  e.bound.map fun c => ⟨Item.sortNames e.names, c⟩

def Row.item (r : Row σ) : Item :=
  .mk r.names r.command.description (Item.sort (Item.ofEntries r.command.subs))

def Table.rows (t : Table σ) : List (Row σ) :=
  (t.filterMap Row.ofEntry?).mergeSort fun r r' => Bytes.compare r.first r'.first != .gt

theorem mem_rows {t : Table σ} {r : Row σ} : r ∈ t.rows ↔ ∃ e ∈ t, Row.ofEntry? e = some r := by
  rw [Table.rows, (List.mergeSort_perm _ _).mem_iff, List.mem_filterMap]

theorem ofEntry?_eq_some_iff {e : Entry (Command σ)} {r : Row σ} :
    Row.ofEntry? e = some r ↔ e.bound = some r.command ∧ r.names = Item.sortNames e.names := by
  rw [Row.ofEntry?, Option.map_eq_some_iff]
  constructor
  · rintro ⟨c, hc, rfl⟩
    exact ⟨hc, rfl⟩
  · rintro ⟨hc, hnames⟩
    exact ⟨r.command, hc, by rw [← hnames]⟩

theorem arranged_rows {t : Table σ} (ht : Keyed t) : Arranged t t.rows := by
  have hsort : ∀ e : Entry (Command σ), Sorts id e.names (Item.sortNames e.names) := fun e =>
    sorts_mergeSort id e.names
  refine ⟨fun e he c hc => ?_, fun r hr => ?_, fun r hr => ?_, ?_⟩
  · exact ⟨_, mem_rows.2 ⟨e, he, ofEntry?_eq_some_iff.2 ⟨hc, rfl⟩⟩, (hsort e).perm⟩
  · obtain ⟨e, he, hr⟩ := mem_rows.1 hr
    obtain ⟨hc, hnames⟩ := ofEntry?_eq_some_iff.1 hr
    exact ⟨e, he, hc, hnames ▸ (hsort e).perm⟩
  · obtain ⟨e, he, hr⟩ := mem_rows.1 hr
    rw [(ofEntry?_eq_some_iff.1 hr).2]
    exact (hsort e).ascending (by simpa using ht.nodup_names he)
  · refine (sorts_mergeSort Row.first (t.filterMap Row.ofEntry?)).ascending ?_
    obtain ⟨hnames, hfilled, -⟩ := ht
    refine List.pairwise_map.2 (List.pairwise_filterMap.2 ?_)
    refine (List.nodup_flatMap.1 hnames).2.imp_of_mem fun {e e'} he he' hdisjoint r hr r' hr' => ?_
    -- Two rows differ in their first names, since no name is in two entries.
    have hmem : ∀ {e : Entry (Command σ)} {r : Row σ}, e ∈ t → Row.ofEntry? e = some r →
        r.first ∈ e.names := by
      intro e r he hr
      rw [Row.first, (ofEntry?_eq_some_iff.1 hr).2, ← (hsort e).perm.mem_iff]
      refine headD_mem fun hnil => hfilled e he ?_
      exact (hnil ▸ (hsort e).perm).symm.eq_nil
    exact fun heq => hdisjoint (hmem he hr) (heq ▸ hmem he' hr')

theorem walked_iff {t : Table σ} (ht : Keyed t) {rows : List (Row σ)} :
    Walked t rows ↔ rows = t.rows := by
  have hunique : ∀ {rows}, Walked t rows → rows = t.rows := fun h =>
    (h.arranged ht).unique (arranged_rows ht)
  refine ⟨hunique, ?_⟩
  rintro rfl
  obtain ⟨rows, h⟩ := exists_walked ht
  exact hunique h ▸ h

theorem arranged_iff {t : Table σ} (ht : Keyed t) {rows : List (Row σ)} :
    Arranged t rows ↔ rows = t.rows :=
  ⟨fun h => h.unique (arranged_rows ht), fun h => h ▸ arranged_rows ht⟩

theorem ofEntries_eq (t : Table σ) :
    Item.ofEntries t = (t.filterMap Row.ofEntry?).map Row.item := by
  induction t with
  | nil => rfl
  | cons e t ih =>
      obtain ⟨names, bound⟩ := e
      cases bound with
      | none => rw [Item.ofEntries, ih, List.filterMap_cons_none rfl]
      | some c =>
          obtain ⟨action, subs, description⟩ := c
          rw [Item.ofEntries, ih, Item.ofCommand]
          rfl

theorem sort_ofEntries (t : Table σ) : Item.sort (Item.ofEntries t) = t.rows.map Row.item := by
  rw [ofEntries_eq, Item.sort, Table.rows, List.map_mergeSort]
  exact fun r _ r' _ => rfl

def Table.linesAt (t : Table σ) (depth : Nat) : List Bytes :=
  Item.linesAll depth (Item.sort (Item.ofEntries t))

theorem linesAll_cons (depth : Nat) (r : Row σ) (rows : List (Row σ)) :
    Item.linesAll depth ((r :: rows).map Row.item) =
      r.line depth :: (Table.linesAt r.command.subs (depth + 1) ++
        Item.linesAll depth (rows.map Row.item)) := by
  rw [List.map_cons, Item.linesAll, Row.item, Item.lines]
  rfl

variable {Lists : Table σ → List (Row σ) → Prop}

theorem printsRows_iff {rows : List (Row σ)}
    (h : ∀ r ∈ rows, ∀ depth lines, Prints Lists depth r.command.subs lines ↔
      lines = Table.linesAt r.command.subs depth) {depth : Nat} {lines : List Bytes} :
    PrintsRows Lists depth rows lines ↔ lines = Item.linesAll depth (rows.map Row.item) := by
  induction rows generalizing lines with
  | nil =>
      constructor
      · rintro ⟨⟩
        rfl
      · rintro rfl
        exact .nil
  | cons r rows ih =>
      rw [List.forall_mem_cons] at h
      rw [linesAll_cons]
      constructor
      · rintro (_ | ⟨hbelow, hrest⟩)
        rw [(h.1 _ _).1 hbelow, (ih h.2).1 hrest]
      · rintro rfl
        exact .cons ((h.1 _ _).2 rfl) ((ih h.2).2 rfl)

/-- Where a table can be printed in its rows only, it has one usage. -/
theorem prints_iff (hLists : ∀ t, Keyed t → ∀ rows, Lists t rows ↔ rows = t.rows) {t : Table σ}
    (ht : Keyed t) (depth : Nat) (lines : List Bytes) :
    Prints Lists depth t lines ↔ lines = t.linesAt depth := by
  induction ht generalizing depth lines with
  | @mk t hnames hfilled hsubs ih =>
      have hrows := hLists t (.mk hnames hfilled hsubs)
      -- A table below is that of an entry, also where its row stands elsewhere than the entry.
      have hbelow : ∀ r ∈ t.rows, ∀ depth lines, Prints Lists depth r.command.subs lines ↔
          lines = Table.linesAt r.command.subs depth := by
        intro r hr
        obtain ⟨e, he, hr⟩ := mem_rows.1 hr
        exact ih e he _ (ofEntry?_eq_some_iff.1 hr).1
      rw [Table.linesAt, sort_ofEntries, ← printsRows_iff hbelow]
      constructor
      · rintro ⟨hlists, hprints⟩
        rwa [← (hrows _).1 hlists]
      · exact .table ((hrows _).2 rfl)

/-- Usage is what every walk prints, whatever order the names of any table come in and however equal
ones are sorted: for each command that is there one line, with just its names in ascending order,
the lines of a table in ascending order of their first names, and below each line, one step deeper,
all that becomes visible after its command. -/
theorem usage_of_every_walk {t : Table σ} (ht : Keyed t) :
    (∀ out, (∃ lines, Prints Walked 0 t lines ∧ out = lines.flatMap (· ++ [10])) ↔
      out = t.usage) ∧
    ∀ lines, Prints Arranged 0 t lines ↔ lines = t.usageLines := by
  refine ⟨fun out => ?_, prints_iff (fun t ht rows => arranged_iff ht) ht 0⟩
  simp only [prints_iff (fun t ht rows => walked_iff ht) ht, exists_eq_left]
  rfl

/-- A table with a command for usage, and one of two names after which three others become visible,
of which one opens a fourth and one is bound to nothing. -/
def nestedTable : Table Unit :=
  ((Table.initial Unit).define [Bytes.ofString "run", Bytes.ofString "r"] (.mk none
    [⟨[Bytes.ofString "trace"], some (.mk none [⟨[Bytes.ofString "cells"],
        some (.mk none [] (Bytes.ofString "CELLS"))⟩] [])⟩,
      ⟨[Bytes.ofString "gone"], none⟩,
      ⟨[Bytes.ofString "fast"], some (.mk none [] (Bytes.ofString "FAST"))⟩]
    (Bytes.ofString "RUN"))).1

theorem keyed_nestedTable : Keyed nestedTable := by
  have hnil : Keyed ([] : Table Unit) := .mk List.nodup_nil nofun nofun
  have hcells : Keyed [⟨[Bytes.ofString "cells"],
      some (.mk none [] (Bytes.ofString "CELLS") : Command Unit)⟩] :=
    .mk (by decide) (by simp) fun e he c hc => by
      rw [List.mem_singleton.1 he] at hc
      cases hc
      exact hnil
  refine keyed_initial.define (.mk (by decide) (by simp [Command.subs]) ?_) _
  intro e he c hc
  simp only [Command.subs, List.mem_cons, List.not_mem_nil, or_false] at he
  rcases he with rfl | rfl | rfl
  · cases hc
    exact hcells
  · cases hc
  · cases hc
    exact hnil

theorem Item.sort_of_lt {x y d e : Bytes} {xs ys : List Bytes} {is js : List Item}
    (h : Bytes.compare x y = .lt) :
    Item.sort [.mk (x :: xs) d is, .mk (y :: ys) e js] =
      [.mk (x :: xs) d is, .mk (y :: ys) e js] ∧
    Item.sort [.mk (y :: ys) e js, .mk (x :: xs) d is] =
      [.mk (x :: xs) d is, .mk (y :: ys) e js] := by
  have hascending : Ascending (fun i : Item => i.names.headD [])
      [.mk (x :: xs) d is, .mk (y :: ys) e js] := List.pairwise_pair.2 h
  exact ⟨hascending.mergeSort_eq (.refl _), hascending.mergeSort_eq (.swap _ _ _)⟩

theorem usage_nestedTable : nestedTable.usage = Bytes.ofString
    ("--help, -h, -help, help\tprint this usage\n" ++
      "r, run\tRUN\n  fast\tFAST\n  trace\n    cells\tCELLS\n") := by
  have hone : ∀ x, Item.sortNames [x] = [x] := List.mergeSort_singleton
  have hhelp : Item.sortNames (["-h", "help", "-help", "--help"].map Bytes.ofString) =
      [Bytes.ofString "--help", Bytes.ofString "-h", Bytes.ofString "-help",
        Bytes.ofString "help"] :=
    Ascending.mergeSort_eq (by decide +kernel) (by decide +kernel)
  have hrun : Item.sortNames [Bytes.ofString "run", Bytes.ofString "r"] =
      [Bytes.ofString "r", Bytes.ofString "run"] :=
    Ascending.mergeSort_eq (by decide +kernel) (by decide +kernel)
  have hnone : Item.sort [] = [] := List.mergeSort_nil
  have hcells : ∀ i, Item.sort [i] = [i] := List.mergeSort_singleton
  have hbelow : Bytes.compare (Bytes.ofString "fast") (Bytes.ofString "trace") = .lt := by
    decide +kernel
  have hall : Bytes.compare (Bytes.ofString "--help") (Bytes.ofString "r") = .lt := by
    decide +kernel
  have hentries : Item.ofEntries nestedTable =
      [.mk (Item.sortNames (["-h", "help", "-help", "--help"].map Bytes.ofString))
        (Bytes.ofString "print this usage") (Item.sort []),
      .mk (Item.sortNames [Bytes.ofString "run", Bytes.ofString "r"]) (Bytes.ofString "RUN")
        (Item.sort [.mk (Item.sortNames [Bytes.ofString "trace"]) []
            (Item.sort [.mk (Item.sortNames [Bytes.ofString "cells"]) (Bytes.ofString "CELLS")
              (Item.sort [])]),
          .mk (Item.sortNames [Bytes.ofString "fast"]) (Bytes.ofString "FAST") (Item.sort [])])] :=
    rfl
  rw [Table.usage, Table.usageLines, hentries, hhelp, hrun, hone, hone, hone, hnone, hcells,
    (Item.sort_of_lt hbelow).2, (Item.sort_of_lt hall).1]
  decide +kernel

theorem usage_of_every_walk_nested : Keyed nestedTable ∧
    ∀ lines, Prints Walked 0 nestedTable lines → lines.flatMap (· ++ [10]) = Bytes.ofString
      ("--help, -h, -help, help\tprint this usage\n" ++
        "r, run\tRUN\n  fast\tFAST\n  trace\n    cells\tCELLS\n") := by
  have husage := usage_of_every_walk keyed_nestedTable
  refine ⟨keyed_nestedTable, fun lines hlines => ?_⟩
  rw [(husage.1 _).1 ⟨lines, hlines, rfl⟩, usage_nestedTable]

end Command

end TapeForge

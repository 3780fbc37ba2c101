import TapeForge.Offset
import TapeForge.Sorting.Wrapped
import TapeForge.Text.Utf8

/-!
# Register layouts

A layout is a set of named cells at distinct offsets from a logical origin, kept sorted by the sign
of the wrapped difference of two offsets, with an index of their names. Names are byte strings.
-/

namespace TapeForge

/-- A named cell. -/
structure Register where
  name : Bytes
  offset : Offset
  deriving Repr, DecidableEq, Inhabited

/-- Why registers do not form a layout, or a name has no cell. -/
inductive LayoutError where
  | duplicatedName (name : Bytes)
  | collision (offset : Offset) (earlier later : Bytes)
  | noRegister (name : Bytes)
  deriving Repr, DecidableEq

namespace LayoutError

def message : LayoutError → String
  | .duplicatedName name => "duplicated register " ++ name.toText
  | .collision offset a b =>
    "offset collision at " ++ Decimal.ofInt64 offset ++ ": [" ++ a.toText ++ " " ++ b.toText ++ "]"
  | .noRegister name => "no such register: " ++ name.toText

end LayoutError

/-- Named cells in order of offset, with an index of their names. -/
structure Layout where
  registers : List Register
  byName : Bytes → Option Offset
  named : ∀ name o, byName name = some o ↔ ⟨name, o⟩ ∈ registers

namespace Layout

variable {l l' : Layout} {rs : List Register}

/-- The index holds nothing that the registers do not tell. -/
theorem eq_of_registers (h : l.registers = l'.registers) : l = l' := by
  have hname : l.byName = l'.byName := by
    funext name
    refine Option.ext fun o => ?_
    rw [l.named, l'.named, h]
  cases l
  cases l'
  cases h
  cases hname
  rfl

/-! ## Registers one after the other -/

/-- Registers as they were given, with an index of their offsets too. -/
structure Draft extends Layout where
  byOffset : Offset → Option Bytes
  placed : ∀ o name, byOffset o = some name ↔ ⟨name, o⟩ ∈ registers

/-- An index goes on to be right when a cell under a new key is added. -/
theorem index_append {κ ν : Type} [DecidableEq κ] (cell : κ → ν → Register) {index : κ → Option ν}
    {k₀ : κ} {v₀ : ν} (hcell : ∀ {k v}, cell k v = cell k₀ v₀ ↔ k = k₀ ∧ v = v₀)
    (h : ∀ k v, index k = some v ↔ cell k v ∈ rs) (hnew : index k₀ = none) (k : κ) (v : ν) :
    (if k = k₀ then some v₀ else index k) = some v ↔ cell k v ∈ rs ++ [cell k₀ v₀] := by
  rw [List.mem_append, List.mem_singleton, hcell]
  split
  next hk =>
    subst hk
    have hold : cell k v ∉ rs := fun hmem => by
      rw [← h, hnew] at hmem
      cases hmem
    simp only [hold, Option.some.injEq, eq_comm, true_and, false_or]
  next hk => simp only [h, hk, false_and, or_false]

namespace Draft

def empty : Draft where
  registers := []
  byName _ := none
  named _ _ := by simp
  byOffset _ := none
  placed _ _ := by simp

/-- Enters a register, unless an earlier one has its name, or else its offset. -/
def enter (d : Draft) (r : Register) : Except LayoutError Draft :=
  match hname : d.byName r.name with
  | some _ => .error (.duplicatedName r.name)
  | none =>
    match hoffset : d.byOffset r.offset with
    | some other => .error (.collision r.offset other r.name)
    | none => .ok
      { registers := d.registers ++ [r]
        byName := fun name => if name = r.name then some r.offset else d.byName name
        named := index_append Register.mk (by simp) d.named hname
        byOffset := fun o => if o = r.offset then some r.name else d.byOffset o
        placed := index_append (fun o name => ⟨name, o⟩) (by simp [and_comm]) d.placed hoffset }

/-- Enters registers up to the first that does not fit those before it. -/
def enterAll (d : Draft) : List Register → Except LayoutError Draft
  | [] => .ok d
  | r :: rs =>
    match d.enter r with
    | .error e => .error e
    | .ok d => d.enterAll rs

end Draft

def sorted (l : Layout) : Layout where
  registers := Sorting.byKey Register.offset l.registers
  byName := l.byName
  named name o := by
    rw [l.named, (Sorting.byKey_perm Register.offset l.registers).mem_iff]

theorem sorted_registers (l : Layout) :
    l.sorted.registers = Sorting.byKey Register.offset l.registers := rfl

/-- The layout of a list of registers with distinct names and distinct offsets. -/
def ofRegisters (rs : List Register) : Except LayoutError Layout :=
  match Draft.empty.enterAll rs with
  | .error e => .error e
  | .ok d => .ok d.toLayout.sorted

/-! ## Names -/

def has (l : Layout) (name : Bytes) : Bool := (l.byName name).isSome

/-- The offset of a name, or the error that there is none. -/
def offset (l : Layout) (name : Bytes) : Except LayoutError Offset :=
  match l.byName name with
  | some o => .ok o
  | none => .error (.noRegister name)

def shifts (l : Layout) (start : Bytes) (targets : List Bytes) :
    Except LayoutError (List Offset) := do
  let reference ← l.offset start
  targets.mapM fun name => do return (← l.offset name) - reference

/-- The layout with more registers, checked against those it has. -/
def extend (l : Layout) (rs : List Register) : Except LayoutError Layout :=
  ofRegisters (l.registers ++ rs)

/-- Scratch cells near the origin and a stack region that grows to the right of them. -/
def standardRegisters : List Register :=
  [("global_zero", 0), ("input", 1), ("tmp1", 2), ("tmp2", 3), ("tmp3", 4), ("paren_index", 5),
    ("stack_temp", 6), ("stack_start", 7)].map fun (name, offset) => ⟨Bytes.ofString name, offset⟩

def standard : Layout := (ofRegisters standardRegisters).toOption.get (by decide)

end Layout

end TapeForge

import TapeForge.Packed.Assembly
import TapeForge.Proofs.Block
import TapeForge.Proofs.PackedWord

/-!
# Folded text

Folded text as a tree: lumps of work, and loops around folded text. The fold of a block is told by
recursion on the block, with the run that is still open at its start; it gives the instructions
that folding the symbols gives, its arguments fit into words, and it is no longer than the text.
-/

namespace TapeForge.Packed

/-- Work that one word does. -/
inductive Lump where
  | add (n : Int64)
  | shift (n : Int64)
  | clear
  | out
  | inp
  deriving Repr, DecidableEq

namespace Lump

def instr : Lump → Instr
  | add n => .add n
  | shift n => .shift n
  | clear => .clear
  | out => .out
  | inp => .inp

def verb : Lump → Verb
  | add _ => .add
  | shift _ => .shift
  | clear => .clear
  | out => .out
  | inp => .inp

def arg : Lump → Int64
  | add n => n
  | shift n => n
  | _ => 0

end Lump

/-- Text with its runs folded: nothing, or a lump or a loop, and the text after it. -/
inductive Folded where
  | nil
  | lump (l : Lump) (rest : Folded)
  | loop (body rest : Folded)
  deriving Repr, DecidableEq

namespace Folded

def instrs : Folded → List Instr
  | nil => []
  | lump l rest => l.instr :: rest.instrs
  | loop body rest => .opening :: (body.instrs ++ .closing :: rest.instrs)

def before (ls : List Lump) (f : Folded) : Folded := ls.foldr lump f

@[simp] theorem instrs_before (ls : List Lump) (f : Folded) :
    (before ls f).instrs = ls.map Lump.instr ++ f.instrs := by
  induction ls with
  | nil => rfl
  | cons l ls ih => exact congrArg (l.instr :: ·) ih

end Folded

namespace Pending

/-- The lumps of a run that ends: one, or none if the run cancels out. -/
def lumps : Pending → List Lump
  | none => []
  | adding n => if n = 0 then [] else [.add n]
  | shifting n => if n = 0 then [] else [.shift n]

/-- A run that ends if a word has no room for more of it: its lumps, and the run left. -/
def settled : Pending → List Lump × Pending
  | none => ([], none)
  | adding n => if -maxArg < n ∧ n < maxArg then ([], adding n) else (lumps (adding n), none)
  | shifting n => if -maxArg < n ∧ n < maxArg then ([], shifting n) else (lumps (shifting n), none)

/-- One run goes on with another of its kind, or ends before it. -/
def join : Pending → Pending → List Lump × Pending
  | adding n, adding d => settled (adding (n + d))
  | shifting n, shifting d => settled (shifting (n + d))
  | p, q => (p.lumps ++ (settled q).1, (settled q).2)

/-- A run meets a symbol: the lumps that are done with, and the run left. -/
def take (p : Pending) : Plain → List Lump × Pending
  | .inc => p.join (adding 1)
  | .dec => p.join (adding (-1))
  | .right => p.join (shifting 1)
  | .left => p.join (shifting (-1))
  | .out => (p.lumps ++ [.out], none)
  | .inp => (p.lumps ++ [.inp], none)

end Pending

/-- A body that only counts the cell to zero. -/
def IsClear (body : Block) : Prop := body = .plain .dec .nil ∨ body = .plain .inc .nil

instance (body : Block) : Decidable (IsClear body) :=
  inferInstanceAs (Decidable (_ ∨ _))

/-- The fold of a block with a run before it. -/
def fold : Pending → Block → Folded
  | p, .nil => .before p.lumps .nil
  | p, .plain s rest => .before (p.take s).1 (fold (p.take s).2 rest)
  | p, .loop body rest =>
    .before p.lumps
      (if IsClear body then .lump .clear (fold .none rest)
        else .loop (fold .none body) (fold .none rest))

/-! ## The fold of the symbols -/

namespace Fold

/-- The fold with more instructions, and another run at its end. -/
def and (f : Fold) (is : List Instr) (p : Pending) : Fold := ⟨f.instrs ++ is.toArray, p⟩

theorem and_and (f : Fold) (is js : List Instr) (p q : Pending) :
    (f.and is p).and js q = f.and (is ++ js) q := by
  simp [and]

theorem flush_eq (f : Fold) : f.flush = f.and (f.pending.lumps.map Lump.instr) .none := by
  obtain ⟨instrs, p⟩ := f
  cases p with
  | none => simp [flush, and, Pending.lumps]
  | adding n =>
      by_cases h : n = 0 <;> simp [flush, and, Pending.lumps, h, Lump.instr]
  | shifting n =>
      by_cases h : n = 0 <;> simp [flush, and, Pending.lumps, h, Lump.instr]

theorem settle_eq (f : Fold) :
    f.settle = f.and (f.pending.settled.1.map Lump.instr) f.pending.settled.2 := by
  obtain ⟨instrs, p⟩ := f
  cases p with
  | none => simp [settle, and, Pending.settled]
  | adding n =>
      by_cases h : -maxArg < n ∧ n < maxArg
      · simp [settle, and, Pending.settled, h]
      · simp only [settle, Pending.settled, if_neg h]
        exact flush_eq _
  | shifting n =>
      by_cases h : -maxArg < n ∧ n < maxArg
      · simp [settle, and, Pending.settled, h]
      · simp only [settle, Pending.settled, if_neg h]
        exact flush_eq _

theorem push_eq (f : Fold) (i : Instr) :
    f.push i = f.and (f.pending.lumps.map Lump.instr ++ [i]) .none := by
  rw [push, flush_eq]
  simp [and]

theorem add_eq (f : Fold) (d : Int64) :
    f.add d = f.and ((f.pending.join (.adding d)).1.map Lump.instr)
      (f.pending.join (.adding d)).2 := by
  obtain ⟨instrs, p⟩ := f
  cases p <;> simp [add, settle_eq, flush_eq, and, Pending.join, Pending.lumps]

theorem shift_eq (f : Fold) (d : Int64) :
    f.shift d = f.and ((f.pending.join (.shifting d)).1.map Lump.instr)
      (f.pending.join (.shifting d)).2 := by
  obtain ⟨instrs, p⟩ := f
  cases p <;> simp [shift, settle_eq, flush_eq, and, Pending.join, Pending.lumps]

end Fold

theorem foldSymbols_plain (s : Plain) (rest : List Symbol) (f : Fold) :
    foldSymbols (s.symbol :: rest) f =
      foldSymbols rest (f.and ((f.pending.take s).1.map Lump.instr) (f.pending.take s).2) := by
  cases s with
  | right => rw [Plain.symbol, foldSymbols, Fold.shift_eq, Pending.take]
  | left => rw [Plain.symbol, foldSymbols, Fold.shift_eq, Pending.take]
  | inc => rw [Plain.symbol, foldSymbols, Fold.add_eq, Pending.take]
  | dec => rw [Plain.symbol, foldSymbols, Fold.add_eq, Pending.take]
  | out =>
      rw [Plain.symbol, foldSymbols, Fold.push_eq, Pending.take, List.map_append]
      rfl
  | inp =>
      rw [Plain.symbol, foldSymbols, Fold.push_eq, Pending.take, List.map_append]
      rfl

/-- Where a block may end: at the end of the text, or before a closing bracket. -/
def Ending (tail : List Symbol) : Prop := tail = [] ∨ ∃ rest, tail = .closing :: rest

/-- At the end of a block the run ends, whatever comes then. -/
theorem foldSymbols_ending {tail : List Symbol} (h : Ending tail) (f : Fold) :
    foldSymbols tail f =
      foldSymbols tail (f.and (f.pending.lumps.map Lump.instr) .none) := by
  obtain rfl | ⟨rest, rfl⟩ := h
  · simp only [foldSymbols, Fold.flush_eq]
    simp [Fold.and, Pending.lumps]
  · simp only [foldSymbols, Fold.push_eq]
    simp [Fold.and, Pending.lumps]

theorem foldSymbols_clear {body : Block} (h : IsClear body) (rest : List Symbol) (f : Fold) :
    foldSymbols (.opening :: (body.symbols ++ .closing :: rest)) f =
      foldSymbols rest (f.push .clear) := by
  obtain rfl | rfl := h <;> rfl

/-- Only the bodies that count the cell to zero are folded with their brackets. -/
theorem foldSymbols_opening {body : Block} (h : ¬ IsClear body) (rest : List Symbol) (f : Fold) :
    foldSymbols (.opening :: (body.symbols ++ .closing :: rest)) f =
      foldSymbols (body.symbols ++ .closing :: rest) (f.push .opening) := by
  rw [foldSymbols]
  -- One goal for each text that would be folded at once: the body is then that text.
  all_goals
    intro t ht
    apply h
    cases body with
    | nil => simp [Block.symbols] at ht
    | loop body' rest' => simp [Block.symbols] at ht
    | plain p rest' =>
        cases rest' with
        | nil => cases p <;> simp_all [Block.symbols, Plain.symbol, IsClear]
        | plain p' rest'' => cases p' <;> simp [Block.symbols, Plain.symbol] at ht
        | loop body'' rest'' => simp [Block.symbols] at ht

theorem foldSymbols_block (b : Block) {tail : List Symbol} (h : Ending tail) (f : Fold) :
    foldSymbols (b.symbols ++ tail) f =
      foldSymbols tail (f.and (fold f.pending b).instrs .none) := by
  -- The tail changes on the way down, for the end of a body is the bracket after it.
  induction b generalizing tail f with
  | nil =>
      rw [Block.symbols, List.nil_append, foldSymbols_ending h, fold, Folded.instrs_before,
        Folded.instrs, List.append_nil]
  | plain s b ih =>
      rw [Block.symbols, List.cons_append, foldSymbols_plain, ih h, Fold.and_and, fold,
        Folded.instrs_before]
      rfl
  | loop body b ihb ihr =>
      have hsplit : (Block.loop body b).symbols ++ tail =
          .opening :: (body.symbols ++ .closing :: (b.symbols ++ tail)) := by
        simp [Block.symbols]
      rw [hsplit, fold, Folded.instrs_before]
      by_cases hc : IsClear body
      · rw [foldSymbols_clear hc, ihr h, Fold.push_eq, Fold.and_and, if_pos hc,
          List.append_assoc]
        rfl
      · rw [foldSymbols_opening hc, ihb (Or.inr ⟨_, rfl⟩), foldSymbols, ihr h, Fold.push_eq,
          Fold.push_eq, Fold.and_and, Fold.and_and, Fold.and_and, if_neg hc]
        congr 2
        simp [Folded.instrs, Fold.and, Pending.lumps]

theorem instrs_foldSymbols (b : Block) :
    (foldSymbols b.symbols {}).instrs = (fold .none b).instrs.toArray := by
  have h := foldSymbols_block b (Or.inl rfl) {}
  rw [List.append_nil] at h
  rw [h]
  simp [foldSymbols, Fold.flush, Fold.and]

/-! ## Arguments that fit into words -/

def Pending.Within (k : Int) : Pending → Prop
  | none => True
  | adding n => -k ≤ n.toInt ∧ n.toInt ≤ k
  | shifting n => -k ≤ n.toInt ∧ n.toInt ≤ k

def Lump.Holds (l : Lump) : Prop := Word.Holds l.arg

instance (l : Lump) : Decidable l.Holds :=
  inferInstanceAs (Decidable (Word.Holds l.arg))

def Folded.Holds : Folded → Prop
  | nil => True
  | lump l rest => l.Holds ∧ rest.Holds
  | loop body rest => body.Holds ∧ rest.Holds

theorem Folded.holds_before {ls : List Lump} {f : Folded} (hls : ∀ l ∈ ls, l.Holds)
    (hf : f.Holds) : (before ls f).Holds := by
  induction ls with
  | nil => exact hf
  | cons l ls ih => exact ⟨hls l (by simp), ih fun l hl => hls l (by simp [hl])⟩

theorem low_iff {n : Int64} :
    -maxArg < n ∧ n < maxArg ↔ -8388606 ≤ n.toInt ∧ n.toInt ≤ 8388606 := by
  have hneg : (-maxArg).toInt = -8388607 := rfl
  have hpos : maxArg.toInt = 8388607 := rfl
  rw [Int64.lt_iff_toInt_lt, Int64.lt_iff_toInt_lt, hneg, hpos]
  omega

namespace Pending

variable {p q : Pending}

theorem holds_lumps (h : p.Within 8388607) : ∀ l ∈ p.lumps, l.Holds := by
  intro l hl
  cases p with
  | none => simp [lumps] at hl
  | adding n | shifting n =>
      obtain ⟨h₁, h₂⟩ := h
      simp only [lumps] at hl
      split at hl
      · simp at hl
      · cases List.mem_singleton.1 hl
        simp only [Lump.Holds, Word.Holds, Lump.arg]
        omega

/-- What is left of a run after it is settled leaves room for one more. -/
theorem settled_within (h : p.Within 8388607) :
    (∀ l ∈ p.settled.1, l.Holds) ∧ p.settled.2.Within 8388606 := by
  cases p with
  | none => exact ⟨by simp [settled], trivial⟩
  | adding n | shifting n =>
      simp only [settled]
      split
      · rename_i hlow
        exact ⟨by simp, low_iff.1 hlow⟩
      · exact ⟨holds_lumps h, trivial⟩

theorem Within.mono {j k : Int} (hjk : j ≤ k) (h : p.Within j) : p.Within k := by
  cases p with
  | none => trivial
  | adding n | shifting n =>
      obtain ⟨h₁, h₂⟩ := h
      constructor <;> omega

theorem toInt_add {n d : Int64} (hn : -8388606 ≤ n.toInt ∧ n.toInt ≤ 8388606)
    (hd : -1 ≤ d.toInt ∧ d.toInt ≤ 1) : (n + d).toInt = n.toInt + d.toInt := by
  rw [Int64.toInt_add]
  apply Int.bmod_eq_of_le_mul_two <;> omega

theorem within_add {n d : Int64} (hn : -8388606 ≤ n.toInt ∧ n.toInt ≤ 8388606)
    (hd : -1 ≤ d.toInt ∧ d.toInt ≤ 1) :
    -8388607 ≤ (n + d).toInt ∧ (n + d).toInt ≤ 8388607 := by
  have h := toInt_add hn hd
  omega

theorem join_within (hp : p.Within 8388606) (hq : q.Within 1) :
    (∀ l ∈ (p.join q).1, l.Holds) ∧ (p.join q).2.Within 8388606 := by
  -- Runs of different kinds stay apart: the first ends, the second is under way.
  have happart : (∀ l ∈ p.lumps ++ q.settled.1, l.Holds) ∧ q.settled.2.Within 8388606 := by
    have hset := settled_within (hq.mono (by decide))
    refine ⟨?_, hset.2⟩
    intro l hl
    rcases List.mem_append.1 hl with hl | hl
    · exact holds_lumps (hp.mono (by decide)) l hl
    · exact hset.1 l hl
  cases p with
  | none => exact happart
  | adding n =>
      cases q with
      | adding d => exact settled_within (p := .adding (n + d)) (within_add hp hq)
      | none | shifting d => exact happart
  | shifting n =>
      cases q with
      | shifting d => exact settled_within (p := .shifting (n + d)) (within_add hp hq)
      | none | adding d => exact happart

theorem take_within (hp : p.Within 8388606) (s : Plain) :
    (∀ l ∈ (p.take s).1, l.Holds) ∧ (p.take s).2.Within 8388606 := by
  cases s with
  | inc | dec | right | left => exact join_within hp ⟨by decide, by decide⟩
  | out | inp =>
      refine ⟨?_, trivial⟩
      intro l hl
      rcases List.mem_append.1 hl with hl | hl
      · exact holds_lumps (hp.mono (by decide)) l hl
      · cases List.mem_singleton.1 hl
        decide

end Pending

theorem holds_fold {p : Pending} (hp : p.Within 8388606) (b : Block) : (fold p b).Holds := by
  induction b generalizing p with
  | nil => exact Folded.holds_before (Pending.holds_lumps (hp.mono (by decide))) trivial
  | plain s rest ih =>
      have h := Pending.take_within hp s
      exact Folded.holds_before h.1 (ih h.2)
  | loop body rest ihb ihr =>
      refine Folded.holds_before (Pending.holds_lumps (hp.mono (by decide))) ?_
      split
      · exact ⟨by decide, ihr trivial⟩
      · exact ⟨ihb trivial, ihr trivial⟩

/-! ## Lengths -/

/-- The number of words of a run, at most. -/
def Pending.weight : Pending → Nat
  | none => 0
  | _ => 1

namespace Pending

variable (p q : Pending)

theorem length_lumps_le : p.lumps.length ≤ p.weight := by
  cases p with
  | none => exact Nat.le_refl 0
  | adding n | shifting n =>
      simp only [lumps, weight]
      split <;> simp

theorem length_settled_le : p.settled.1.length + p.settled.2.weight ≤ p.weight := by
  cases p with
  | none => exact Nat.le_refl 0
  | adding n | shifting n =>
      simp only [settled]
      split
      · simp [weight]
      · have h := length_lumps_le (.adding n)
        have h' := length_lumps_le (.shifting n)
        simp only [weight] at h h' ⊢
        omega

theorem length_join_le : (p.join q).1.length + (p.join q).2.weight ≤ p.weight + q.weight := by
  have happart : (p.lumps ++ q.settled.1).length + q.settled.2.weight ≤ p.weight + q.weight := by
    have hp := p.length_lumps_le
    have hq := q.length_settled_le
    rw [List.length_append]
    omega
  cases p with
  | none => exact happart
  | adding n =>
      cases q with
      | adding d =>
          have h := length_settled_le (.adding (n + d))
          simp only [join, weight] at h ⊢
          omega
      | none | shifting d => exact happart
  | shifting n =>
      cases q with
      | shifting d =>
          have h := length_settled_le (.shifting (n + d))
          simp only [join, weight] at h ⊢
          omega
      | none | adding d => exact happart

theorem length_take_le (s : Plain) : (p.take s).1.length + (p.take s).2.weight ≤ p.weight + 1 := by
  cases s with
  | inc | dec | right | left => exact length_join_le _ _
  | out | inp =>
      have hp := p.length_lumps_le
      have h0 : weight none = 0 := rfl
      simp only [take, List.length_append, List.length_singleton, h0]
      omega

end Pending

/-- Folding makes text no longer. -/
theorem length_fold_le (p : Pending) (b : Block) :
    (fold p b).instrs.length ≤ p.weight + b.symbols.length := by
  induction b generalizing p with
  | nil =>
      have h := p.length_lumps_le
      simpa [fold, Folded.instrs, Block.symbols] using h
  | plain s rest ih =>
      have h := p.length_take_le s
      have hrest := ih (p.take s).2
      simp only [fold, Folded.instrs_before, List.length_append, List.length_map, Block.symbols,
        List.length_cons]
      omega
  | loop body rest ihb ihr =>
      have h := p.length_lumps_le
      -- The run before the loop has ended, so body and rest are folded without one.
      have hb := ihb .none
      have hr := ihr .none
      simp only [Pending.weight, Nat.zero_add] at hb hr
      simp only [fold, Folded.instrs_before, List.length_append, List.length_map, Block.symbols,
        List.length_cons]
      split
      · simp only [Folded.instrs, List.length_cons]
        omega
      · simp only [Folded.instrs, List.length_cons, List.length_append]
        omega

end TapeForge.Packed

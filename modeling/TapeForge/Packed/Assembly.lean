import TapeForge.Code
import TapeForge.Packed.Word

/-!
# Packing compiled text

Packing folds each run of `+` and `-`, or of `<` and `>`, to its net amount, split where the amount
no longer fits a word; `[-]` and `[+]` become one clear; brackets become jumps by a distance, or,
when the distance does not fit, by an entry of the far table.
-/

namespace TapeForge.Packed

/-- An instruction between text and words: runs are folded, brackets are not yet paired. -/
inductive Instr where
  | add (n : Int64)
  | shift (n : Int64)
  | clear
  | out
  | inp
  | opening
  | closing
  deriving Repr, DecidableEq, Inhabited

/-- A run that is being folded. -/
inductive Pending where
  | none
  | adding (n : Int64)
  | shifting (n : Int64)
  deriving Repr, DecidableEq

/-- Text folded so far, and the run at its end. -/
structure Fold where
  instrs : Array Instr := #[]
  pending : Pending := .none

namespace Fold

/-- Ends the run. A run that cancels out leaves nothing. -/
def flush (f : Fold) : Fold :=
  match f.pending with
  | .none => f
  | .adding n => ⟨if n = 0 then f.instrs else f.instrs.push (.add n), .none⟩
  | .shifting n => ⟨if n = 0 then f.instrs else f.instrs.push (.shift n), .none⟩

/-- Ends a run that has no room left in a word. -/
def settle (f : Fold) : Fold :=
  match f.pending with
  | .adding n => if -maxArg < n ∧ n < maxArg then f else f.flush
  | .shifting n => if -maxArg < n ∧ n < maxArg then f else f.flush
  | .none => f

/-- Adds to the run of additions, which starts here if the text was not in one. -/
def add (f : Fold) (d : Int64) : Fold :=
  match f with
  | ⟨instrs, .adding n⟩ => settle ⟨instrs, .adding (n + d)⟩
  -- A run of shifts, if the text was in one, ends here.
  | f => settle ⟨f.flush.instrs, .adding d⟩

/-- Adds to the run of shifts, which starts here if the text was not in one. -/
def shift (f : Fold) (d : Int64) : Fold :=
  match f with
  | ⟨instrs, .shifting n⟩ => settle ⟨instrs, .shifting (n + d)⟩
  | f => settle ⟨f.flush.instrs, .shifting d⟩

/-- Ends the run and appends an instruction. -/
def push (f : Fold) (i : Instr) : Fold := ⟨f.flush.instrs.push i, .none⟩

end Fold

def foldSymbols : List Symbol → Fold → Fold
  | [], f => f.flush
  | .inc :: rest, f => foldSymbols rest (f.add 1)
  | .dec :: rest, f => foldSymbols rest (f.add (-1))
  | .right :: rest, f => foldSymbols rest (f.shift 1)
  | .left :: rest, f => foldSymbols rest (f.shift (-1))
  | .out :: rest, f => foldSymbols rest (f.push .out)
  | .inp :: rest, f => foldSymbols rest (f.push .inp)
  | .opening :: .dec :: .closing :: rest, f => foldSymbols rest (f.push .clear)
  | .opening :: .inc :: .closing :: rest, f => foldSymbols rest (f.push .clear)
  | .opening :: rest, f => foldSymbols rest (f.push .opening)
  | .closing :: rest, f => foldSymbols rest (f.push .closing)

/-- Packed code: the words, and the distances of the jumps too long for a word. -/
structure Assembly where
  words : Array Word := #[]
  far : Array Int64 := #[]
  deriving Repr, DecidableEq

/-- Words linked so far, and the indices of the open brackets, the innermost first. -/
structure Link where
  words : Array Word := #[]
  far : Array Int64 := #[]
  opens : List Nat := []

/-- Pairs a closing bracket with the bracket at `start`. -/
def Link.close (l : Link) (start : Nat) (outer : List Nat) : Link :=
  -- Both jumps go over the same distance, one forth and one back.
  let dist := Int64.ofNat (l.words.size - start)
  if dist ≤ maxArg then
    { l with
      words := (l.words.setIfInBounds start (.make .jumpZero dist)).push
        (.make .jumpNonZero (-dist))
      opens := outer }
  else
    let k := Int64.ofNat l.far.size
    { words := (l.words.setIfInBounds start (.make .farJumpZero k)).push
        (.make .farJumpNonZero (k + 1))
      far := (l.far.push dist).push (-dist)
      opens := outer }

def Link.add (l : Link) (i : Instr) : Link :=
  match i with
  | .add n => { l with words := l.words.push (.make .add n) }
  | .shift n => { l with words := l.words.push (.make .shift n) }
  | .clear => { l with words := l.words.push (.make .clear 0) }
  | .out => { l with words := l.words.push (.make .out 0) }
  | .inp => { l with words := l.words.push (.make .inp 0) }
  | .opening =>
    -- This word only keeps the place; it is replaced when the partner is known.
    let start := l.words.size
    { l with words := l.words.push (.make .jumpZero 0), opens := start :: l.opens }
  | .closing =>
    match l.opens with
    | [] => l
    | start :: outer => l.close start outer

def ofCode (code : Code) : Assembly :=
  let l := (foldSymbols code.symbols.toList {}).instrs.foldl Link.add {}
  ⟨l.words, l.far⟩

/-- The packed code of a text, or its bracket without partner. -/
def compile (src : Bytes) : Except Unmatched Assembly :=
  match Code.compile src with
  | .error e => .error e
  | .ok code => .ok (ofCode code)

end TapeForge.Packed

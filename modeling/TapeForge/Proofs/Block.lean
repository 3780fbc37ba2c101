import TapeForge.Code
import TapeForge.Op.Render

/-!
# Blocks

A block is text whose brackets are paired by its shape. The texts that compile are exactly those
whose symbols are the symbols of a block, and the jump table of such a text pairs the brackets as
the block does. Every op without undefined kinds has a block with the op's text.
-/

namespace TapeForge

/-- A symbol that is no bracket. -/
inductive Plain where
  | right
  | left
  | inc
  | dec
  | out
  | inp
  deriving Repr, DecidableEq

def Plain.symbol : Plain → Symbol
  | right => .right
  | left => .left
  | inc => .inc
  | dec => .dec
  | out => .out
  | inp => .inp

/-- Text with its loops told apart: nothing, or a plain symbol or a loop, and the text after it. -/
inductive Block where
  | nil
  | plain (p : Plain) (rest : Block)
  | loop (body rest : Block)
  deriving Repr, DecidableEq

namespace Block

def symbols : Block → List Symbol
  | nil => []
  | plain p rest => p.symbol :: rest.symbols
  | loop body rest => .opening :: (body.symbols ++ .closing :: rest.symbols)

/-- For each symbol of a block that starts at an index, the index of its partner. -/
def jumps : Nat → Block → List (Option Nat)
  | _, nil => []
  | i, plain _ rest => none :: jumps (i + 1) rest
  | i, loop body rest =>
    some (i + 1 + body.symbols.length) ::
      (jumps (i + 1) body ++ some i :: jumps (i + 2 + body.symbols.length) rest)

def append : Block → Block → Block
  | nil, c => c
  | plain p rest, c => plain p (rest.append c)
  | loop body rest, c => loop body (rest.append c)

instance : Append Block := ⟨append⟩

@[simp] theorem nil_append (c : Block) : nil ++ c = c := rfl

@[simp] theorem plain_append (p : Plain) (b c : Block) : plain p b ++ c = plain p (b ++ c) := rfl

@[simp] theorem loop_append (a b c : Block) : loop a b ++ c = loop a (b ++ c) := rfl

@[simp] theorem append_nil (b : Block) : b ++ nil = b := by
  induction b with
  | nil => rfl
  | plain p rest ih => rw [plain_append, ih]
  | loop body rest _ ih => rw [loop_append, ih]

@[simp] theorem symbols_append (b c : Block) : (b ++ c).symbols = b.symbols ++ c.symbols := by
  induction b with
  | nil => rfl
  | plain p rest ih => simp only [plain_append, symbols, ih, List.cons_append]
  | loop body rest _ ih =>
      simp only [loop_append, symbols, ih, List.cons_append, List.append_assoc]

@[simp] theorem length_jumps (i : Nat) (b : Block) : (b.jumps i).length = b.symbols.length := by
  induction b generalizing i with
  | nil => rfl
  | plain p rest ih => simp [jumps, symbols, ih]
  | loop body rest ihb ihr => simp [jumps, symbols, ihb, ihr]

def code (b : Block) : Code := ⟨b.symbols.toArray, (b.jumps 0).toArray⟩

end Block

/-! ## The text of a block compiles -/

@[simp] theorem Symbol.ofByte?_byte (s : Symbol) : Symbol.ofByte? s.byte = some s := by
  cases s <;> decide

namespace Code.Scan

/-- A scan that has read a block after all it had read before. -/
def past (s : Scan) (b : Block) : Scan where
  symbols := s.symbols ++ b.symbols.toArray
  jumps := s.jumps ++ (b.jumps s.symbols.size).toArray
  opens := s.opens
  pos := s.pos + b.symbols.length

theorem setIfInBounds_push_append {α : Type} (xs ys : Array α) (u v : α) :
    (xs.push u ++ ys).setIfInBounds xs.size v = xs.push v ++ ys := by
  apply Array.ext'
  simp

theorem feed_plain (s : Scan) (p : Plain) :
    s.feed p.symbol.byte =
      .ok { s with symbols := s.symbols.push p.symbol, jumps := s.jumps.push none,
                   pos := s.pos + 1 } := by
  rw [feed, Symbol.ofByte?_byte]
  cases p <;> rfl

theorem feed_opening (s : Scan) :
    s.feed Symbol.opening.byte =
      .ok { symbols := s.symbols.push .opening, jumps := s.jumps.push none,
            opens := (s.symbols.size, s.pos) :: s.opens, pos := s.pos + 1 } := by
  rw [feed, Symbol.ofByte?_byte]

theorem feed_closing {s : Scan} {i q : Nat} {outer : List (Nat × Nat)}
    (h : s.opens = (i, q) :: outer) :
    s.feed Symbol.closing.byte =
      .ok { symbols := s.symbols.push .closing,
            jumps := (s.jumps.setIfInBounds i (some s.symbols.size)).push (some i),
            opens := outer, pos := s.pos + 1 } := by
  rw [feed, Symbol.ofByte?_byte]
  simp only [h]

theorem feedAll_cons_ok {c : UInt8} {s t : Scan} (h : s.feed c = .ok t) (rest : Bytes) :
    feedAll (c :: rest) s = feedAll rest t := by
  simp only [feedAll, h]

theorem feedAll_block (b : Block) (rest : Bytes) {s : Scan} (hs : s.jumps.size = s.symbols.size) :
    feedAll (Symbol.text b.symbols ++ rest) s = feedAll rest (s.past b) := by
  induction b generalizing rest s with
  | nil =>
      simp [past, Block.symbols, Block.jumps, Symbol.text]
  | plain p b ih =>
      simp only [Block.symbols, Symbol.text, List.map_cons, List.cons_append]
      rw [feedAll_cons_ok (feed_plain s p)]
      refine (ih rest (by simp [hs])).trans ?_
      congr 1
      simp [past, Block.symbols, Block.jumps]
      omega
  | loop body b ihb ihr =>
      -- One `[`, the body, its `]`: the entry of the `[` is set behind the body's entries.
      have htext : Symbol.text (Block.loop body b).symbols ++ rest =
          Symbol.opening.byte :: (Symbol.text body.symbols ++
            (Symbol.closing.byte :: (Symbol.text b.symbols ++ rest))) := by
        simp [Block.symbols, Symbol.text]
      rw [htext, feedAll_cons_ok (feed_opening s), ihb _ (by simp [hs]),
        feedAll_cons_ok (feed_closing rfl), ihr _ (by simp [past, hs])]
      congr 1
      simp only [past, Block.symbols, Block.jumps]
      rw [← hs, setIfInBounds_push_append]
      have hi : s.symbols.size + (body.symbols.length + 1) =
          s.symbols.size + 1 + body.symbols.length := by omega
      have hj : s.symbols.size + (body.symbols.length + 1 + 1) =
          s.symbols.size + 2 + body.symbols.length := by omega
      simp [hs, hi, hj]
      omega

end Code.Scan

theorem Code.compile_block (b : Block) : compile (Symbol.text b.symbols) = .ok b.code := by
  have h := Scan.feedAll_block b [] (s := {}) rfl
  rw [List.append_nil] at h
  rw [compile, h]
  simp [Scan.feedAll, Scan.finish, Scan.past, Block.code]

/-! ## A text that compiles is the text of a block

Reading a text backwards, each `]` opens a loop body that the matching `[` completes: what is left
to read after `n` open brackets is one block more than `n`, with a `]` between each and the next. -/

theorem Symbol.bracket_or_plain (s : Symbol) :
    s = .opening ∨ s = .closing ∨ ∃ p : Plain, s = p.symbol := by
  cases s with
  | right => exact Or.inr (Or.inr ⟨.right, rfl⟩)
  | left => exact Or.inr (Or.inr ⟨.left, rfl⟩)
  | inc => exact Or.inr (Or.inr ⟨.inc, rfl⟩)
  | dec => exact Or.inr (Or.inr ⟨.dec, rfl⟩)
  | out => exact Or.inr (Or.inr ⟨.out, rfl⟩)
  | inp => exact Or.inr (Or.inr ⟨.inp, rfl⟩)
  | opening => exact Or.inl rfl
  | closing => exact Or.inr (Or.inl rfl)

def Symbol.ofBytes (src : Bytes) : List Symbol := src.filterMap Symbol.ofByte?

/-- Blocks with a closing bracket between each and the next. -/
def Block.closing : Block → List Block → List Symbol
  | b, [] => b.symbols
  | b, c :: cs => b.symbols ++ .closing :: closing c cs

theorem Block.closing_plain (p : Plain) (b : Block) (bs : List Block) :
    closing (plain p b) bs = p.symbol :: closing b bs := by
  cases bs <;> rfl

theorem Block.closing_loop (a b : Block) (bs : List Block) :
    closing (loop a b) bs = .opening :: (a.symbols ++ .closing :: closing b bs) := by
  cases bs <;> simp [closing, symbols]

namespace Code.Scan

/-- Two scans that differ in the positions they count only. -/
structure Same (s t : Scan) : Prop where
  symbols : s.symbols = t.symbols
  jumps : s.jumps = t.jumps
  opens : s.opens.map Prod.fst = t.opens.map Prod.fst

theorem feed_of_comment {c : UInt8} (h : Symbol.ofByte? c = none) (s : Scan) :
    s.feed c = .ok { s with pos := s.pos + 1 } := by
  rw [feed, h]

theorem feed_of_symbol {c : UInt8} {y : Symbol} (h : Symbol.ofByte? c = some y) (s : Scan) :
    s.feed c = s.feed y.byte := by
  rw [feed, feed, h, Symbol.ofByte?_byte]

theorem Same.feed {s s' t : Scan} (hs : Same s s') {y : Symbol} (h : s.feed y.byte = .ok t) :
    ∃ t', s'.feed y.byte = .ok t' ∧ Same t t' := by
  obtain ⟨hsym, hj, ho⟩ := hs
  rcases y.bracket_or_plain with rfl | rfl | ⟨p, rfl⟩
  · rw [feed_opening] at h ⊢
    cases h
    exact ⟨_, rfl, by rw [hsym], by rw [hj], by simp [hsym, ho]⟩
  · cases hopens : s.opens with
    | nil =>
        rw [Scan.feed, Symbol.ofByte?_byte] at h
        simp only [hopens] at h
        cases h
    | cons o outer =>
        cases hopens' : s'.opens with
        | nil => simp [hopens, hopens'] at ho
        | cons o' outer' =>
            simp only [hopens, hopens', List.map_cons, List.cons.injEq] at ho
            rw [feed_closing hopens] at h
            rw [feed_closing hopens']
            cases h
            exact ⟨_, rfl, by rw [hsym], by rw [hsym, hj, ho.1], ho.2⟩
  · rw [feed_plain] at h ⊢
    cases h
    exact ⟨_, rfl, by rw [hsym], by rw [hj], ho⟩

/-- Comments only move positions. -/
theorem Same.feedAll {src : Bytes} {s s' t : Scan} (hs : Same s s')
    (h : feedAll src s = .ok t) :
    ∃ t', Scan.feedAll (Symbol.text (Symbol.ofBytes src)) s' = .ok t' ∧ Same t t' := by
  induction src generalizing s s' with
  | nil =>
      cases h
      exact ⟨s', rfl, hs⟩
  | cons c rest ih =>
      rw [Scan.feedAll] at h
      cases hc : Symbol.ofByte? c with
      | none =>
          rw [feed_of_comment hc] at h
          rw [Symbol.ofBytes, List.filterMap_cons_none hc]
          exact ih (s := { s with pos := s.pos + 1 }) ⟨hs.symbols, hs.jumps, hs.opens⟩ h
      | some y =>
          rw [feed_of_symbol hc] at h
          rw [Symbol.ofBytes, List.filterMap_cons_some hc]
          cases hf : s.feed y.byte with
          | error e =>
              rw [hf] at h
              cases h
          | ok s₁ =>
              rw [hf] at h
              obtain ⟨s₁', hf', hs₁⟩ := hs.feed hf
              obtain ⟨t', ht', hsame⟩ := ih hs₁ h
              exact ⟨t', (feedAll_cons_ok hf' _).trans ht', hsame⟩

theorem exists_closing {src : Bytes} {s t : Scan} (h : feedAll src s = .ok t)
    (ht : t.opens = []) :
    ∃ b bs, bs.length = s.opens.length ∧ Symbol.ofBytes src = Block.closing b bs := by
  induction src generalizing s with
  | nil =>
      cases h
      exact ⟨.nil, [], by simp [ht], rfl⟩
  | cons c rest ih =>
      rw [feedAll] at h
      cases hc : Symbol.ofByte? c with
      | none =>
          rw [feed_of_comment hc] at h
          rw [Symbol.ofBytes, List.filterMap_cons_none hc]
          exact ih (s := { s with pos := s.pos + 1 }) h
      | some y =>
          rw [feed_of_symbol hc] at h
          rw [Symbol.ofBytes, List.filterMap_cons_some hc]
          rcases y.bracket_or_plain with rfl | rfl | ⟨p, rfl⟩
          · rw [feed_opening] at h
            obtain ⟨a, bs, hlen, hrest⟩ := ih h
            -- The bracket is open, so the text behind it has a `]` too many.
            cases bs with
            | nil => simp at hlen
            | cons b bs =>
                refine ⟨.loop a b, bs, by simpa using hlen, ?_⟩
                rw [Block.closing_loop]
                exact congrArg _ hrest
          · cases hopens : s.opens with
            | nil =>
                rw [feed, Symbol.ofByte?_byte] at h
                simp only [hopens] at h
                cases h
            | cons o outer =>
                rw [feed_closing hopens] at h
                obtain ⟨b, bs, hlen, hrest⟩ := ih h
                -- An empty block stands before this `]`, and grows from the left.
                exact ⟨.nil, b :: bs, by simpa using hlen, congrArg _ hrest⟩
          · rw [feed_plain] at h
            obtain ⟨b, bs, hlen, hrest⟩ := ih h
            refine ⟨.plain p b, bs, hlen, ?_⟩
            rw [Block.closing_plain]
            exact congrArg _ hrest

end Code.Scan

/-- The code of a text that compiles is the code of a block with the symbols of the text. -/
theorem Code.exists_block {src : Bytes} {code : Code} (h : compile src = .ok code) :
    ∃ b : Block, Symbol.ofBytes src = b.symbols ∧ code = b.code := by
  rw [compile] at h
  cases hf : Scan.feedAll src {} with
  | error e =>
      rw [hf] at h
      cases h
  | ok t =>
      rw [hf] at h
      cases hopens : t.opens with
      | cons o outer =>
          simp only [Scan.finish, hopens] at h
          cases h
      | nil =>
          simp only [Scan.finish, hopens] at h
          cases h
          obtain ⟨b, bs, hlen, hb⟩ := Scan.exists_closing hf hopens
          cases bs with
          | cons c cs => simp at hlen
          | nil =>
              -- The table is that of the text without its comments, which is the text of the block.
              obtain ⟨t', ht', hsame⟩ := Scan.Same.feedAll ⟨rfl, rfl, rfl⟩ hf
              refine ⟨b, hb, ?_⟩
              have hc := compile_block b
              rw [hb, Block.closing] at ht'
              rw [compile, ht'] at hc
              have hopens' : t'.opens = [] := by simpa [hopens] using hsame.opens
              simp only [Scan.finish, hopens'] at hc
              rw [← Except.ok.inj hc, hsame.symbols, hsame.jumps]

/-! ## The block of an op -/

namespace Block

def times (p : Plain) : Nat → Block
  | 0 => nil
  | n + 1 => plain p (times p n)

def run (up down : Plain) (n : Int64) : Block :=
  if n < 0 then times down (-n).toInt.toNat else times up n.toInt.toNat

def add (n : Int64) : Block := run .inc .dec n

def shift (n : Int64) : Block := run .right .left n

def move (src dest : Offset) : Block :=
  shift src ++ loop (plain .dec (shift (dest - src) ++ plain .inc (shift (src - dest))))
    (shift (-src))

def copy (src tmp dest : Offset) : Block :=
  shift src ++
    loop (plain .dec (shift (tmp - src) ++
        plain .inc (shift (dest - tmp) ++ plain .inc (shift (src - dest)))))
      (shift (tmp - src) ++ (move 0 (src - tmp) ++ shift (-tmp)))

def writeN (char : UInt8) (count tmp1 tmp2 : Offset) : Block :=
  let c : Int64 := Int64.ofNat char.toNat
  copy count tmp1 tmp2 ++ (shift tmp1 ++ (add c ++ (shift (tmp2 - tmp1) ++
    loop (plain .dec (shift (tmp1 - tmp2) ++ plain .out (shift (tmp2 - tmp1))))
      (shift (tmp1 - tmp2) ++ (add (-c) ++ shift (-tmp1))))))

def writeS (cur : Int64) : Bytes → Block
  | [] => add (-cur)
  | b :: rest =>
    let c : Int64 := Int64.ofNat b.toNat
    add (c - cur) ++ plain .out (writeS c rest)

@[simp] theorem symbols_times (p : Plain) (n : Nat) :
    (times p n).symbols = List.replicate n p.symbol := by
  induction n with
  | zero => rfl
  | succ n ih => rw [times, symbols, ih, List.replicate_succ]

theorem symbols_add (n : Int64) : (add n).symbols = Render.add n := by
  unfold add run Render.add Render.run
  split <;> exact symbols_times _ _

theorem symbols_shift (n : Int64) : (shift n).symbols = Render.shift n := by
  unfold shift run Render.shift Render.run
  split <;> exact symbols_times _ _

theorem symbols_move (src dest : Offset) : (move src dest).symbols = Render.move src dest := by
  simp [move, Render.move, symbols, symbols_shift, Plain.symbol]

theorem symbols_copy (src tmp dest : Offset) :
    (copy src tmp dest).symbols = Render.copy src tmp dest := by
  simp [copy, Render.copy, symbols, symbols_shift, symbols_move, Plain.symbol]

theorem symbols_writeN (char : UInt8) (count tmp1 tmp2 : Offset) :
    (writeN char count tmp1 tmp2).symbols = Render.writeN char count tmp1 tmp2 := by
  simp [writeN, Render.writeN, symbols, symbols_shift, symbols_add, symbols_copy, Plain.symbol]

theorem symbols_writeS (cur : Int64) (text : Bytes) :
    (writeS cur text).symbols = Render.writeS cur text := by
  induction text generalizing cur with
  | nil => exact symbols_add _
  | cons b rest ih => simp [writeS, Render.writeS, symbols, symbols_add, ih, Plain.symbol]

end Block

namespace Op

mutual

/-- The block of an op; an undefined kind has the empty one. -/
def block : Op → Block
  | add n => .add n
  | shift n => .shift n
  | move src dest => .move src dest
  | zero => .loop (.plain .dec .nil) .nil
  | copy src tmp dest => .copy src tmp dest
  | loop body => .loop (blockAll body) .nil
  | read => .plain .inp .nil
  | write => .plain .out .nil
  | writeN char count tmp1 tmp2 => .writeN char count tmp1 tmp2
  | writeS text => .writeS 0 text
  | assertZero _ => .nil
  | undefined _ => .nil

def blockAll : List Op → Block
  | [] => .nil
  | o :: os => block o ++ blockAll os

end

mutual

theorem symbols_block : ∀ o : Op, o.block.symbols = o.symbols
  | add n => by rw [block, symbols, Block.symbols_add]
  | shift n => by rw [block, symbols, Block.symbols_shift]
  | move src dest => by rw [block, symbols, Block.symbols_move]
  | zero => by
      rw [block, symbols]
      rfl
  | copy src tmp dest => by rw [block, symbols, Block.symbols_copy]
  | loop body => by
      rw [block, symbols, Block.symbols, symbols_blockAll body]
      rfl
  | read => by
      rw [block, symbols]
      rfl
  | write => by
      rw [block, symbols]
      rfl
  | writeN char count tmp1 tmp2 => by rw [block, symbols, Block.symbols_writeN]
  | writeS text => by rw [block, symbols, Block.symbols_writeS]
  | assertZero _ => by
      rw [block, symbols]
      rfl
  | undefined _ => by
      rw [block, symbols]
      rfl

theorem symbols_blockAll : ∀ os : List Op, (blockAll os).symbols = symbolsAll os
  | [] => by
      rw [blockAll, symbolsAll]
      rfl
  | o :: os => by
      rw [blockAll, symbolsAll, Block.symbols_append, symbols_block o, symbols_blockAll os]

end

/-- Ops of defined kinds have a text, and it is the text of their block. -/
theorem render_eq_ok {ops : List Op} (h : undefinedKindAll? ops = none) :
    render ops = .ok (blockAll ops).symbols := by
  rw [render, h, symbols_blockAll]

end Op

end TapeForge

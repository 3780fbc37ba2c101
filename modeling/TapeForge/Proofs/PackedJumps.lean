import Mathlib.Algebra.Group.Nat.Defs
import TapeForge.Proofs.Compiling
import TapeForge.Proofs.PackedRoom

/-!
# Packed jumps

The jumps of packed code stand for brackets, and each of them should lead to its partner. A far
jump holds the index of its distance where a near one holds the distance, and an index fits into a
word only if it is less than half of what 24 bits can tell apart. So the jumps of a text are exact
if and only if its far table is not larger than that, and then no run of it panics.
-/

namespace TapeForge.Packed

/-! ## Packed code as a text -/

/-- The bracket that a jump stands for, as a byte; other work is a comment. -/
def Verb.mark : Verb → UInt8
  | jumpZero | farJumpZero => Symbol.opening.byte
  | jumpNonZero | farJumpNonZero => Symbol.closing.byte
  | _ => 32

def Word.mark (w : Word) : UInt8 := (w.verb?.map Verb.mark).getD 32

def Instr.mark : Instr → UInt8
  | opening => Symbol.opening.byte
  | closing => Symbol.closing.byte
  | _ => 32

/-- Packed code as a text, with the brackets of its jumps at their indices. -/
def Assembly.text (code : Assembly) : Bytes := code.words.toList.map Word.mark

/-- The brackets of symbols, apart from those of the loops that are folded to one clear. -/
def keptBrackets : List Symbol → List Symbol
  | [] => []
  | .opening :: .dec :: .closing :: rest => keptBrackets rest
  | .opening :: .inc :: .closing :: rest => keptBrackets rest
  | .opening :: rest => .opening :: keptBrackets rest
  | .closing :: rest => .closing :: keptBrackets rest
  | _ :: rest => keptBrackets rest

@[simp] theorem Word.mark_make (v : Verb) (arg : Int64) : (make v arg).mark = v.mark := by
  rw [mark, verb?_make]
  rfl

theorem Word.mark_cases (w : Word) :
    w.mark = 32 ∨ w.mark = Symbol.opening.byte ∨ w.mark = Symbol.closing.byte := by
  unfold mark
  cases w.verb? with
  | none => exact .inl rfl
  | some v => cases v <;> decide

theorem Lump.mark_instr (l : Lump) : l.instr.mark = 32 := by
  cases l <;> rfl

theorem Lump.mark_verb (l : Lump) : l.verb.mark = 32 := by
  cases l <;> rfl

theorem ofBytes_comment (t : Bytes) : Symbol.ofBytes (32 :: t) = Symbol.ofBytes t :=
  List.filterMap_cons_none rfl

namespace Fold

def brackets (f : Fold) : List Symbol := Symbol.ofBytes (f.instrs.toList.map Instr.mark)

theorem brackets_and (f : Fold) (is : List Instr) (p : Pending) :
    (f.and is p).brackets = f.brackets ++ Symbol.ofBytes (is.map Instr.mark) := by
  simp [brackets, and, Symbol.ofBytes_append]

/-- A lump is no bracket. -/
theorem brackets_and_lumps (f : Fold) (ls : List Lump) (p : Pending) :
    (f.and (ls.map Lump.instr) p).brackets = f.brackets := by
  have hnone : Symbol.ofBytes ((ls.map Lump.instr).map Instr.mark) = [] := by
    induction ls with
    | nil => rfl
    | cons l ls ih =>
        rw [List.map_cons, List.map_cons, Lump.mark_instr, ofBytes_comment]
        exact ih
  rw [brackets_and, hnone, List.append_nil]

theorem brackets_push (f : Fold) (i : Instr) :
    (f.push i).brackets = f.brackets ++ Symbol.ofBytes [i.mark] := by
  have hsplit := and_and f (f.pending.lumps.map Lump.instr) [i] .none .none
  rw [push_eq, ← hsplit, brackets_and, brackets_and_lumps]
  rfl

theorem brackets_push_comment (f : Fold) {i : Instr} (h : i.mark = 32) :
    (f.push i).brackets = f.brackets := by
  rw [brackets_push, h, ofBytes_comment]
  exact List.append_nil _

end Fold

/-- Folding keeps the brackets, apart from those of a clear. -/
theorem brackets_foldSymbols (l : List Symbol) (f : Fold) :
    (foldSymbols l f).brackets = f.brackets ++ keptBrackets l := by
  fun_induction foldSymbols l f with
  | case1 f => rw [Fold.flush_eq, Fold.brackets_and_lumps, keptBrackets, List.append_nil]
  | case2 rest f ih | case3 rest f ih =>
      rw [ih, Fold.add_eq, Fold.brackets_and_lumps, keptBrackets] <;> simp
  | case4 rest f ih | case5 rest f ih =>
      rw [ih, Fold.shift_eq, Fold.brackets_and_lumps, keptBrackets] <;> simp
  | case6 rest f ih | case7 rest f ih =>
      rw [ih, Fold.brackets_push_comment f rfl, keptBrackets] <;> simp
  | case8 f rest ih | case9 f rest ih =>
      rw [ih, Fold.brackets_push_comment rest rfl, keptBrackets]
  | case10 f rest hdec hinc ih =>
      rw [ih, Fold.brackets_push, Instr.mark, Symbol.ofBytes_byte, keptBrackets, List.append_assoc]
      · rfl
      · exact hdec
      · exact hinc
  | case11 f rest ih =>
      rw [ih, Fold.brackets_push, Instr.mark, Symbol.ofBytes_byte, keptBrackets, List.append_assoc]
      rfl

namespace Folded

theorem marks_assemble (k : Nat) (f : Folded) :
    (assemble k f).1.map Word.mark = f.instrs.map Instr.mark := by
  induction f generalizing k with
  | nil => rfl
  | lump l rest ih =>
      simp only [assemble, instrs, List.map_cons, Word.mark_make, l.mark_verb, l.mark_instr, ih]
  | loop body rest ihb ihr =>
      simp only [assemble]
      split <;>
        simp only [instrs, List.map_cons, List.map_append, Word.mark_make, ihb, ihr] <;> rfl

theorem balanced_marks (f : Folded) : Balanced (Symbol.ofBytes (f.instrs.map Instr.mark)) := by
  induction f with
  | nil => exact .nil
  | lump l rest ih =>
      rw [instrs, List.map_cons, l.mark_instr, ofBytes_comment]
      exact ih
  | loop body rest ihb ihr =>
      simp only [instrs, List.map_cons, List.map_append, Instr.mark, Symbol.ofBytes_append,
        Symbol.ofBytes_byte]
      exact .loop ihb ihr

end Folded

section Blocks

variable (b : Block)

theorem text_ofCode : (ofCode b.code).text = (fold .none b).instrs.map Instr.mark := by
  rw [ofCode_code, Assembly.text, Folded.marks_assemble]

theorem ofBytes_text : Symbol.ofBytes (ofCode b.code).text = keptBrackets b.symbols := by
  have h := brackets_foldSymbols b.symbols {}
  rw [Fold.brackets, instrs_foldSymbols] at h
  rw [text_ofCode]
  exact h

theorem balanced_text : Balanced (Symbol.ofBytes (ofCode b.code).text) := by
  rw [text_ofCode]
  exact Folded.balanced_marks _

theorem exists_block_of_compile {src : Bytes} {code : Assembly} (h : compile src = .ok code) :
    ∃ b : Block, Symbol.ofBytes src = b.symbols ∧ code = ofCode b.code := by
  unfold compile at h
  cases hc : Code.compile src with
  | error e =>
      rw [hc] at h
      cases h
  | ok code' =>
      rw [hc] at h
      cases h
      obtain ⟨b, hb, rfl⟩ := Code.exists_block hc
      exact ⟨b, hb, rfl⟩

end Blocks

/-! ## Distances -/

/-- The distance that a jump goes, if it is a near one or has an entry in the far table. -/
def Assembly.distance? (code : Assembly) (w : Word) : Option Int64 :=
  match w.verb? with
  | some .jumpZero | some .jumpNonZero => some w.arg
  | some .farJumpZero | some .farJumpNonZero =>
    if w.arg < 0 then none else code.far[w.arg.toInt.toNat]?
  | _ => none

namespace Assembly

theorem getElem?_text (code : Assembly) (i : Nat) :
    code.text[i]? = code.words[i]?.map Word.mark := by
  rw [text, List.getElem?_map, Array.getElem?_toList]

/-- The jump at an index goes exactly the distance to another index. -/
def Leads (code : Assembly) (i j : Nat) : Prop :=
  ∃ w d, code.words[i]? = some w ∧ code.distance? w = some d ∧ d.toInt = (j : Int) - i

/-- Jumps that are partners lead to each other. -/
def Exact (code : Assembly) : Prop :=
  ∀ i j, Partners code.text i j → code.Leads i j ∧ code.Leads j i

theorem Exact.exists_leads {code : Assembly} (h : code.Exact)
    (hbalanced : Balanced (Symbol.ofBytes code.text)) {i : Nat} {w : Word}
    (hw : code.words[i]? = some w) (hmark : w.mark ≠ 32) : ∃ j, code.Leads i j := by
  obtain ⟨hclosings, hopenings⟩ := Code.no_lone_of_balanced hbalanced
  have hi : code.text[i]? = some w.mark := by
    rw [getElem?_text, hw]
    rfl
  rcases w.mark_cases with hcomment | hopening | hclosing
  · exact absurd hcomment hmark
  · rw [hopening] at hi
    by_contra hnone
    apply hopenings i
    exact ⟨hi, fun j hj => hnone ⟨j, (h i j hj).1⟩⟩
  · rw [hclosing] at hi
    by_contra hnone
    apply hclosings i
    exact ⟨hi, fun j hj => hnone ⟨j, (h j i hj).2⟩⟩

end Assembly

section Placed

variable {code : Assembly} {i j n : Nat}

theorem Hop.leads {near far : Verb} {dist : Int64} (hop : Hop code i near far dist)
    (hv : near = .jumpZero ∧ far = .farJumpZero ∨ near = .jumpNonZero ∧ far = .farJumpNonZero)
    (h : dist.toInt = (j : Int) - i) : code.Leads i j := by
  cases hop with
  | near hw hd =>
      refine ⟨_, dist, hw, ?_, h⟩
      rcases hv with ⟨rfl, -⟩ | ⟨rfl, -⟩ <;>
        simp only [Assembly.distance?, Word.verb?_make, Word.arg_make _ hd]
  | @far k hw hk hentry =>
      refine ⟨_, dist, hw, ?_, h⟩
      have hint : (Int64.ofNat k).toInt = k := Int64.toInt_ofNat_of_lt (by omega)
      have hneg : ¬ Int64.ofNat k < 0 := by
        rw [Int64.lt_iff_toInt_lt, hint, Int64.toInt_zero]
        omega
      rcases hv with ⟨-, rfl⟩ | ⟨-, rfl⟩ <;>
        simp only [Assembly.distance?, Word.verb?_make, Word.arg_make _ (holds_ofNat hk),
          if_neg hneg, hint, Int.toNat_natCast, hentry]

/-- A word is no bracket, or leads to its partner and back. -/
inductive Resolved (code : Assembly) (n : Nat) : Prop
  | comment : code.text[n]? = some 32 → Resolved code n
  | opening {j : Nat} : Partners code.text n j → code.Leads n j → code.Leads j n →
      Resolved code n
  | closing {i : Nat} : Partners code.text i n → Resolved code n

/-- Each word of folded text, wherever that stands, is resolved within the text. -/
theorem Placed.resolved {f : Folded} (hlen : f.instrs.length ≤ 0x7fffffffffffffff)
    (hplaced : Placed code i f) (hmarks : f.instrs.map Instr.mark <+: code.text.drop i)
    (hn : i ≤ n) (hn' : n < i + f.instrs.length) : Resolved code n := by
  induction f generalizing i with
  | nil =>
      simp only [Folded.instrs, List.length_nil] at hn'
      omega
  | lump l rest ih =>
      simp only [Folded.instrs, List.length_cons] at hlen hn'
      obtain ⟨hmark, hmarks⟩ := prefix_drop_cons hmarks
      rcases Nat.eq_or_lt_of_le hn with rfl | hlt
      · rw [l.mark_instr] at hmark
        exact .comment hmark
      · exact ih (by omega) hplaced.2 hmarks hlt (by omega)
  | loop body rest ihb ihr =>
      obtain ⟨hopening, hbody, hclosing, hrest⟩ := hplaced
      simp only [Folded.instrs, List.length_cons, List.length_append] at hlen hn'
      simp only [Folded.instrs, List.map_cons, List.map_append] at hmarks
      have hblen : body.instrs.length < 0x7fffffffffffffff := by omega
      obtain ⟨hforth, hmarks⟩ := prefix_drop_cons hmarks
      obtain ⟨hmarksb, hmarks⟩ := prefix_drop_append hmarks
      obtain ⟨hback, hmarksr⟩ := prefix_drop_cons hmarks
      rw [List.length_map] at hback hmarksr
      have hpast : i + 1 + body.instrs.length + 1 = i + 2 + body.instrs.length := by omega
      rw [hpast] at hmarksr
      have hbetween : (code.text.take (i + 1 + body.instrs.length)).drop (i + 1) =
          body.instrs.map Instr.mark := by
        have hlength : body.instrs.length = (body.instrs.map Instr.mark).length := by simp
        rw [List.drop_take, Nat.add_sub_cancel_left, hlength]
        exact (List.prefix_iff_eq_take.1 hmarksb).symm
      have hpartners : Partners code.text i (i + 1 + body.instrs.length) :=
        ⟨by omega, hforth, hback, by rw [hbetween]; exact body.balanced_marks⟩
      -- The index is that of the bracket, in the body, that of the partner, or past the loop.
      rcases Nat.eq_or_lt_of_le hn with rfl | hlt
      · apply Resolved.opening hpartners
        · apply hopening.leads (.inl ⟨rfl, rfl⟩)
          rw [Folded.toInt_ofNat_length hblen]
          omega
        · apply hclosing.leads (.inr ⟨rfl, rfl⟩)
          rw [Folded.toInt_neg_ofNat_length hblen]
          omega
      · rcases Nat.lt_trichotomy n (i + 1 + body.instrs.length) with hin | rfl | hout
        · exact ihb (by omega) hbody hmarksb hlt hin
        · exact .closing hpartners
        · exact ihr (by omega) hrest hmarksr (by omega) (by omega)

end Placed

theorem exact_of_far_le {b : Block} (hlen : b.symbols.length ≤ 0x7fffffffffffffff)
    (hfar : (ofCode b.code).far.size ≤ 8388608) : (ofCode b.code).Exact := by
  have hfold := length_fold_le .none b
  simp only [Pending.weight] at hfold
  obtain ⟨hplaced, -⟩ := placed_of_far (b := b) (by omega) hfar
  intro i j hij
  have hi : i < 0 + (fold .none b).instrs.length := by
    obtain ⟨hlt, -⟩ := List.getElem?_eq_some_iff.1 hij.opening
    rw [text_ofCode, List.length_map] at hlt
    omega
  -- The whole code is one placed fold, so its every word is resolved.
  have hresolved : Resolved (ofCode b.code) i := by
    refine hplaced.resolved (by omega) ?_ (Nat.zero_le i) hi
    rw [text_ofCode]
    exact List.prefix_rfl
  cases hresolved with
  | comment hmark =>
      rw [hij.opening] at hmark
      cases hmark
  | opening hpartners hforth hback =>
      -- A bracket has one partner, so the jump that was found is the one asked for.
      obtain rfl := hij.unique hpartners
      exact ⟨hforth, hback⟩
  | closing hpartners =>
      have hmark := hpartners.closing
      rw [hij.opening] at hmark
      cases hmark

/-! ## A far table that is too large -/

/-- Each entry of the far table is asked for by some far jump. -/
theorem Folded.exists_entry {k e : Nat} {f : Folded} (hk : k ≤ e)
    (he : e < k + (assemble k f).2.length) :
    Word.make .farJumpZero (.ofNat e) ∈ (assemble k f).1 ∨
      Word.make .farJumpNonZero (.ofNat e) ∈ (assemble k f).1 := by
  induction f generalizing k with
  | nil =>
      simp only [assemble, List.length_nil] at he
      omega
  | lump l rest ih =>
      simp only [assemble] at he ⊢
      rcases ih hk he with h | h
      · exact .inl (List.mem_cons_of_mem _ h)
      · exact .inr (List.mem_cons_of_mem _ h)
  | loop body rest ihb ihr =>
      simp only [assemble] at he ⊢
      by_cases hbody : e < k + (assemble k body).2.length
      · rcases ihb hk hbody with h | h
        · left
          split <;> simp [h]
        · right
          split <;> simp [h]
      · split at he
        · rename_i hnear
          simp only [List.length_append] at he
          rw [if_pos hnear]
          rcases ihr (k := k + (assemble k body).2.length) (by omega) (by omega) with h | h
          · left
            simp [h]
          · right
            simp [h]
        · rename_i hnear
          simp only [List.length_append, List.length_cons] at he
          rw [if_neg hnear]
          -- The loop has two entries itself, after those of its body.
          rcases Nat.lt_trichotomy e (k + (assemble k body).2.length + 1) with hlt | rfl | hgt
          · obtain rfl : e = k + (assemble k body).2.length := by omega
            left
            simp
          · right
            have hnext : Int64.ofNat (k + (assemble k body).2.length + 1) =
                Int64.ofNat (k + (assemble k body).2.length) + 1 := by
              rw [Int64.ofNat_add _ 1]
              rfl
            simp [hnext]
          · rcases ihr (k := k + (assemble k body).2.length + 2) (by omega) (by omega) with h | h
            · left
              simp [h]
            · right
              simp [h]

/-- The first index that a word cannot hold comes back negative. -/
theorem distance?_overflow (code : Assembly) :
    code.distance? (.make .farJumpZero (.ofNat 8388608)) = none ∧
      code.distance? (.make .farJumpNonZero (.ofNat 8388608)) = none :=
  ⟨rfl, rfl⟩

theorem far_le_of_exact {b : Block} (h : (ofCode b.code).Exact) :
    (ofCode b.code).far.size ≤ 8388608 := by
  by_contra hlarge
  have hentry : Word.make .farJumpZero (.ofNat 8388608) ∈ (ofCode b.code).words ∨
      Word.make .farJumpNonZero (.ofNat 8388608) ∈ (ofCode b.code).words := by
    rw [ofCode_code] at hlarge ⊢
    simp only [List.size_toArray] at hlarge
    have hasked := Folded.exists_entry (k := 0) (e := 8388608) (f := fold .none b)
      (Nat.zero_le _) (by omega)
    simpa using hasked
  obtain ⟨hzero, hnonzero⟩ := distance?_overflow (ofCode b.code)
  -- A jump without a distance has no partner, for it would lead there.
  have hlost : ∀ w ∈ (ofCode b.code).words, w.mark ≠ 32 →
      (ofCode b.code).distance? w ≠ none := by
    intro w hmem hmark hnone
    obtain ⟨i, hi⟩ := Array.getElem?_of_mem hmem
    obtain ⟨j, w', d, hw, hd, -⟩ := h.exists_leads (balanced_text b) hi hmark
    rw [hi] at hw
    cases hw
    rw [hnone] at hd
    cases hd
  rcases hentry with hmem | hmem
  · exact hlost _ hmem (by rw [Word.mark_make]; decide) hzero
  · exact hlost _ hmem (by rw [Word.mark_make]; decide) hnonzero

/-! ## Runs of exact jumps -/

section Steps

variable {code : Assembly} {s : State} {i j c : Nat}

theorem farJump_of_entry {far : Array Int64} {arg dist : Int64}
    (h : (if arg < 0 then none else far[arg.toInt.toNat]?) = some dist) (s : State) :
    farJump far s arg = .next (s.jump dist) := by
  unfold farJump
  by_cases hneg : arg < 0
  · rw [if_pos hneg] at h
    cases h
  · rw [if_neg hneg] at h ⊢
    rw [h]

/-- A jump is taken from an opening bracket when the cell is zero, and from a closing one when it is
not. -/
theorem doWord_jump {w : Word} {v : Verb} {dist : Int64} (hv : w.verb? = some v)
    (hd : code.distance? w = some dist) (s : State) (c : Nat) :
    doWord code.far s v w.arg c =
      .next (if v.mark = Symbol.opening.byte ↔ s.tape.getD c 0 = 0 then s.jump dist
        else s.advance) := by
  have hclosing : Symbol.closing.byte ≠ Symbol.opening.byte := by decide
  unfold Assembly.distance? at hd
  rw [hv] at hd
  cases v with
  | jumpZero =>
      cases hd
      simp only [doWord, Verb.mark, true_iff]
  | jumpNonZero =>
      cases hd
      simp only [doWord, Verb.mark, hclosing, false_iff, ne_eq]
  | farJumpZero =>
      simp only [doWord, Verb.mark, true_iff, farJump_of_entry hd]
      split <;> rfl
  | farJumpNonZero =>
      simp only [doWord, Verb.mark, hclosing, false_iff, ne_eq, farJump_of_entry hd]
      split <;> rfl
  | add | shift | clear | out | inp => cases hd

theorem step_leads {m : UInt8} (hl : code.Leads i j) (hmark : code.text[i]? = some m)
    (hip : s.ip = i) (hc : s.index? = some c) :
    step code s = .next { s with
      ip := if m = Symbol.opening.byte ↔ s.tape.getD c 0 = 0 then j + 1 else i + 1 } := by
  obtain ⟨w, d, hw, hd, hdist⟩ := hl
  have hpos : ¬ s.ip < 0 := by omega
  have hword : code.words[s.ip.toNat]? = some w := by
    rw [hip]
    exact hw
  rw [Assembly.getElem?_text, hw] at hmark
  cases hv : w.verb? with
  | none =>
      unfold Assembly.distance? at hd
      rw [hv] at hd
      cases hd
  | some v =>
      have hm : v.mark = m := by
        rw [Option.map_some, Word.mark, hv] at hmark
        exact Option.some.inj hmark
      -- A jump goes one word further than its distance says.
      have hjump : s.jump d = { s with ip := j + 1 } := by
        have hj : s.ip + d.toInt + 1 = j + 1 := by omega
        rw [State.jump, hj]
      have hadvance : s.advance = { s with ip := i + 1 } := by
        rw [State.advance, hip]
      rw [step_word hpos hword hv hc, doWord_jump hv hd, hm, hjump, hadvance]
      split <;> rfl

/-- Exact jumps go on after a bracket: the closing one when the cell is zero, and the opening one
when it is not. -/
theorem step_partners (h : code.Exact) (hij : Partners code.text i j) (hip : s.ip = i ∨ s.ip = j)
    (hc : s.index? = some c) :
    step code s = .next { s with ip := if s.tape.getD c 0 = 0 then j + 1 else i + 1 } := by
  obtain ⟨hforth, hback⟩ := h i j hij
  rcases hip with hip | hip
  · rw [step_leads hforth hij.opening hip hc]
    simp only [true_iff]
  · have hclosing : Symbol.closing.byte ≠ Symbol.opening.byte := by decide
    rw [step_leads hback hij.closing hip hc]
    simp only [hclosing, false_iff, ite_not]

/-- The run stays in the code or goes on at its end, and does not panic. -/
def Stays : Stage Stop State → Prop
  | .next s => 0 ≤ s.ip
  | .halt _ => True
  | .fail e _ => e ≠ .panic

theorem stays_readInto (hip : 0 ≤ s.ip) (c : Nat) : Stays (readInto s c) := by
  have hnext : 0 ≤ s.ip + 1 := by omega
  unfold readInto
  cases s.input with
  | none => exact hnext
  | some r =>
      dsimp only
      split
      · simp [Stays]
      · split
        · exact hnext
        · split
          · simp [Stays]
          · exact hnext

/-- Work that is no jump goes on at the next word. -/
theorem stays_doWord (hip : 0 ≤ s.ip) {v : Verb} (hv : v.mark = 32) (far : Array Int64)
    (arg : Int64) (c : Nat) : Stays (doWord far s v arg c) := by
  have hnext : 0 ≤ s.ip + 1 := by omega
  cases v with
  | add | shift | clear => exact hnext
  | out =>
      simp only [doWord]
      split
      · simp [Stays]
      · exact hnext
  | inp => exact stays_readInto hip c
  | jumpZero | jumpNonZero | farJumpZero | farJumpNonZero => cases hv

theorem stays_step (hbalanced : Balanced (Symbol.ofBytes code.text)) (h : code.Exact)
    (hip : 0 ≤ s.ip) : Stays (step code s) := by
  have hpos : ¬ s.ip < 0 := by omega
  have hnext : 0 ≤ s.ip + 1 := by omega
  cases hw : code.words[s.ip.toNat]? with
  | none =>
      rw [step_past hpos hw]
      trivial
  | some w =>
      by_cases hshift : w.verb? = some .shift
      · rw [step_along hpos hw hshift]
        exact hnext
      cases hc : s.index? with
      | none =>
          rw [step_off hpos hw hshift hc]
          simp [Stays]
      | some c =>
          by_cases hmark : w.mark = 32
          · cases hv : w.verb? with
            | none =>
                rw [step_blank hpos hw hv hc]
                exact hnext
            | some v =>
                rw [Word.mark, hv] at hmark
                rw [step_word hpos hw hv hc]
                exact stays_doWord hip hmark _ _ _
          · -- A bracket leads to its partner, or the run goes on past it.
            obtain ⟨j, hj⟩ := h.exists_leads hbalanced hw hmark
            have hi : code.text[s.ip.toNat]? = some w.mark := by
              rw [Assembly.getElem?_text, hw]
              rfl
            rw [step_leads hj hi (by omega) hc]
            unfold Stays
            dsimp only
            split <;> omega

/-- A run of exact jumps never panics. -/
theorem error_run (hbalanced : Balanced (Symbol.ofBytes code.text)) (h : code.Exact) (fuel : Nat)
    (hip : 0 ≤ s.ip) : (run fuel code s).error? ≠ some .panic := by
  -- Handing on the output at the end adds failures to write and no others.
  have hiterate : (iterate (step code) fuel s).error? ≠ some .panic := by
    induction fuel generalizing s with
    | zero => simp [iterate, Outcome.error?]
    | succ fuel ih =>
        have hstays := stays_step hbalanced h hip
        rw [iterate]
        cases hs : step code s with
        | next s' =>
            rw [hs] at hstays
            exact ih hstays
        | halt s' => simp [Outcome.error?]
        | fail e s' =>
            rw [hs] at hstays
            intro herror
            exact hstays (Option.some.inj herror)
  unfold run
  cases hr : iterate (step code) fuel s with
  | pending s' => simp [finish, Outcome.error?]
  | failed e s' =>
      rw [hr] at hiterate
      exact hiterate
  | done s' =>
      simp only [finish]
      split <;> simp [Outcome.error?]

end Steps

/-! ## Texts -/

/-- The jumps of a packed text stand for its brackets, apart from those of a clear, and each of
them has a partner. All of them go exactly to their partners if and only if the far table has at
most `2 ^ 23` entries, as it has for every text of at most `2 ^ 24` symbols. Then a run goes on
after the bracket at which the current cell sends it, and never panics. -/
theorem jumps_exact_iff_far_le {src : Bytes} {code : Assembly} (hlen : src.length < 2 ^ 63)
    (h : compile src = .ok code) :
    Symbol.ofBytes code.text = keptBrackets (Symbol.ofBytes src) ∧
    (∀ i, ¬ LoneOpening code.text i ∧ ¬ LoneClosing code.text i) ∧
    (code.Exact ↔ code.far.size ≤ 2 ^ 23) ∧
    ((Symbol.ofBytes src).length ≤ 2 ^ 24 → code.far.size ≤ 2 ^ 23) ∧
    (code.far.size ≤ 2 ^ 23 →
      (∀ i j, Partners code.text i j → ∀ (s : State) (c : Nat), s.index? = some c →
        s.ip = i ∨ s.ip = j →
        step code s = .next { s with ip := if s.tape.getD c 0 = 0 then j + 1 else i + 1 }) ∧
      ∀ fuel (s : State), s.ip = 0 → (run fuel code s).error? ≠ some .panic) := by
  obtain ⟨b, hb, rfl⟩ := exists_block_of_compile h
  have hsymbols : b.symbols.length ≤ 0x7fffffffffffffff := by
    have hle := List.length_filterMap_le Symbol.ofByte? src
    rw [← Symbol.ofBytes, hb] at hle
    omega
  obtain ⟨hclosings, hopenings⟩ := Code.no_lone_of_balanced (balanced_text b)
  have hexact : (ofCode b.code).Exact ↔ (ofCode b.code).far.size ≤ 2 ^ 23 :=
    ⟨far_le_of_exact, exact_of_far_le hsymbols⟩
  rw [hb]
  refine ⟨ofBytes_text b, fun i => ⟨hopenings i, hclosings i⟩, hexact, far_ofCode_le, ?_⟩
  intro hfar
  constructor
  · intro i j hij s c hc hip
    exact step_partners (hexact.2 hfar) hij hip hc
  · intro fuel s hip
    exact error_run (balanced_text b) (hexact.2 hfar) fuel (Int.le_of_eq hip.symm)

/-! ## Nested loops

Loops around nothing but each other fill the far table from the inside. The deepest nest that fits
has `2 ^ 23` loops. -/

/-- Opening brackets, and as many closing ones. -/
def nested (n : Nat) : Bytes :=
  List.replicate n Symbol.opening.byte ++ List.replicate n Symbol.closing.byte

def nest : Nat → Block
  | 0 => .nil
  | n + 1 => .loop (nest n) .nil

def Folded.nest : Nat → Folded
  | 0 => .nil
  | n + 1 => .loop (nest n) .nil

theorem text_nest (n : Nat) : Symbol.text (nest n).symbols = nested n := by
  induction n with
  | zero => rfl
  | succ n ih =>
      have hbody : (nest n).symbols.map Symbol.byte = nested n := ih
      have hclosing : List.replicate (n + 1) Symbol.closing.byte =
          List.replicate n Symbol.closing.byte ++ [Symbol.closing.byte] := List.replicate_succ'
      simp only [nest, Block.symbols, Symbol.text, List.map_cons, List.map_append, hbody]
      simp [nested, hclosing, List.replicate_succ]

theorem compile_nested (n : Nat) : compile (nested n) = .ok (ofCode (nest n).code) := by
  rw [compile, ← text_nest, Code.compile_block]

theorem length_nested (n : Nat) : (nested n).length = 2 * n := by
  simp [nested]
  omega

theorem fold_nest (n : Nat) : fold .none (nest n) = Folded.nest n := by
  induction n with
  | zero => rfl
  | succ n ih =>
      have hclear : ¬ IsClear (nest n) := by
        rintro (h | h) <;> cases n <;> cases h
      rw [nest, fold, if_neg hclear, ih]
      rfl

theorem Folded.length_nest (n : Nat) : (Folded.nest n).instrs.length = 2 * n := by
  induction n with
  | zero => rfl
  | succ n ih =>
      simp only [nest, instrs, List.length_cons, List.length_append, List.length_nil, ih]
      omega

/-- Of nested loops, all but the innermost `2 ^ 22` are too long for near jumps. -/
theorem Folded.length_far_nest (k : Nat) {n : Nat} (h : n < 2 ^ 62) :
    (assemble k (Folded.nest n)).2.length = 2 * (n - 4194304) := by
  induction n with
  | zero => rfl
  | succ n ih =>
      have hlen := length_nest n
      have hnear := le_maxArg_iff (f := Folded.nest n) (by omega)
      simp only [nest, assemble, length_assemble]
      split
      · rename_i hle
        rw [hnear] at hle
        simp only [List.length_append, ih (by omega), List.length_nil]
        omega
      · rename_i hle
        rw [hnear] at hle
        simp only [List.length_append, ih (by omega), List.length_cons, List.length_nil]
        omega

theorem size_far_nest {n : Nat} (h : n < 2 ^ 62) :
    (ofCode (nest n).code).far.size = 2 * (n - 4194304) := by
  rw [ofCode_code, fold_nest, List.size_toArray, Folded.length_far_nest 0 h]

/-- The first word of nested loops asks for the last entry but one. -/
theorem getElem?_words_nest {n : Nat} (h : 4194304 ≤ n) (h' : n < 2 ^ 62) :
    (ofCode (nest (n + 1)).code).words[0]? =
      some (.make .farJumpZero (.ofNat (2 * (n - 4194304)))) := by
  have hlen := Folded.length_nest n
  have hfar := Folded.length_far_nest 0 h'
  have hlong : ¬ Int64.ofNat ((Folded.nest n).instrs.length + 1) ≤ maxArg := by
    rw [Folded.le_maxArg_iff (by omega)]
    omega
  rw [ofCode_code, fold_nest]
  simp only [Folded.nest, Folded.assemble, Folded.length_assemble, if_neg hlong, hfar]
  simp

/-- An entry that a word cannot name is not found. -/
theorem step_overflow {code : Assembly} {s : State} {c : Nat}
    (hw : code.words[0]? = some (.make .farJumpZero (.ofNat 8388608))) (hip : s.ip = 0)
    (hc : s.index? = some c) (h0 : s.tape.getD c 0 = 0) : step code s = .fail .panic s := by
  have hpos : ¬ s.ip < 0 := by omega
  have hneg : (Word.make .farJumpZero (.ofNat 8388608)).arg < 0 := by decide
  have hword : code.words[s.ip.toNat]? = some (.make .farJumpZero (.ofNat 8388608)) := by
    rw [hip]
    exact hw
  rw [step_word hpos hword (Word.verb?_make _ _) hc, doWord]
  simp only [h0, if_true]
  rw [farJump, if_pos hneg]

theorem run_of_fail {code : Assembly} {s s' : State} {e : Stop} (h : step code s = .fail e s')
    (fuel : Nat) :
    run (fuel + 1) code s = .failed e { s' with output := s'.output.flush } := by
  rw [run, iterate, h]
  rfl

theorem execute_overflow {src : Bytes} {code : Assembly} (h : compile src = .ok code)
    (hw : code.words[0]? = some (.make .farJumpZero (.ofNat 8388608))) (fuel : Nat) :
    execute (fuel + 1) 1 1 src none {} = .failed .panic {} := by
  have hstep := step_overflow hw
    (s := { tape := Array.replicate 1 0, width := .one, input := none, output := { sink := {} } })
    rfl rfl rfl
  have hwidth : Width.ofBytes? 1 = some .one := rfl
  have hlength : ¬ (1 : Int64) ≤ 0 := by decide
  have hcells : (1 : Int64).toInt.toNat = 1 := rfl
  simp only [execute, hwidth, if_neg hlength, h, hcells, run_of_fail hstep]
  rfl

/-- A far table that is full is no fault. -/
theorem jumps_exact_of_full_table :
    ∃ code, compile (nested 8388608) = .ok code ∧ code.far.size = 2 ^ 23 ∧ code.Exact ∧
      ∀ fuel (s : State), s.ip = 0 → (run fuel code s).error? ≠ some .panic := by
  have hlen : (nested 8388608).length < 2 ^ 63 := by
    rw [length_nested]
    decide
  have hsize := size_far_nest (n := 8388608) (by decide)
  have h := jumps_exact_iff_far_le hlen (compile_nested 8388608)
  have hfar : (ofCode (nest 8388608).code).far.size ≤ 2 ^ 23 := by
    rw [hsize]
    decide
  exact ⟨_, compile_nested _, hsize, h.2.2.1.2 hfar, (h.2.2.2.2 hfar).2⟩

/-- With one loop more the first jump of the text asks for an entry that a word cannot name, and the
run panics. -/
theorem deeper_nest_strays :
    ∃ code, compile (nested 8388609) = .ok code ∧ ¬ code.Exact ∧
      execute 1 1 1 (nested 8388609) none {} = .failed .panic {} := by
  refine ⟨_, compile_nested _, ?_, ?_⟩
  · intro hexact
    have hfar := far_le_of_exact hexact
    rw [size_far_nest (by decide)] at hfar
    exact absurd hfar (by decide)
  · have hword := getElem?_words_nest (n := 8388608) (by decide) (by decide)
    exact execute_overflow (compile_nested _) hword 0

end TapeForge.Packed

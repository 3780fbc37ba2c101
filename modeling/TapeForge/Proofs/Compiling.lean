import TapeForge.Proofs.Brackets
import TapeForge.Proofs.TextRun

/-!
# Compiling pairs the brackets

A text compiles exactly when its brackets balance, and its jump table is then the only one that
pairs them. Where a text does not compile, the error names a bracket without partner: the first
closing one or, if every closing bracket has a partner, the last opening one.
-/

namespace TapeForge

/-! ## The scan of a text -/

namespace Code.Scan

variable {t : Bytes} {s s' : Scan}

/-- A scan has read a text: its open brackets are those of the text. -/
structure HasRead (s : Scan) (t : Bytes) : Prop where
  paired : Paired t (s.opens.map Prod.snd)
  pos : s.pos = t.length

inductive Feeds (s : Scan) : UInt8 → Except Unmatched Scan → Prop
  | other {c : UInt8} {s' : Scan} : c ≠ Symbol.opening.byte → c ≠ Symbol.closing.byte →
      s'.opens = s.opens → s'.pos = s.pos + 1 → Feeds s c (.ok s')
  | opening {i : Nat} {s' : Scan} : s'.opens = (i, s.pos) :: s.opens → s'.pos = s.pos + 1 →
      Feeds s Symbol.opening.byte (.ok s')
  | closing {o : Nat × Nat} {s' : Scan} : s.opens = o :: s'.opens → s'.pos = s.pos + 1 →
      Feeds s Symbol.closing.byte (.ok s')
  | stray : s.opens = [] → Feeds s Symbol.closing.byte (.error (.closing s.pos))

theorem feeds_feed (s : Scan) (c : UInt8) : Feeds s c (s.feed c) := by
  cases hc : Symbol.ofByte? c with
  | none =>
      rw [feed_of_comment hc]
      refine .other ?_ ?_ rfl rfl
      · rintro rfl
        cases hc
      · rintro rfl
        cases hc
  | some y =>
      have hbyte := Symbol.eq_byte hc
      subst hbyte
      rcases y.bracket_or_plain with rfl | rfl | ⟨p, rfl⟩
      · rw [feed_opening]
        exact .opening rfl rfl
      · cases hopens : s.opens with
        | nil =>
            have hfeed : s.feed Symbol.closing.byte = .error (.closing s.pos) := by
              rw [feed, Symbol.ofByte?_byte]
              simp only [hopens]
            rw [hfeed]
            exact .stray hopens
        | cons o outer =>
            rw [feed_closing hopens]
            exact .closing hopens rfl
      · rw [feed_plain]
        refine .other ?_ ?_ rfl rfl
        · cases p <;> decide
        · cases p <;> decide

theorem HasRead.feed (h : HasRead s t) {c : UInt8} (hs : s.feed c = .ok s') :
    HasRead s' (t ++ [c]) := by
  have hf := feeds_feed s c
  rw [hs] at hf
  refine ⟨?_, ?_⟩
  · have ht := h.paired
    cases hf with
    | other ho hc hopens _ =>
        rw [hopens]
        exact ht.other ho hc
    | opening hopens _ =>
        rw [hopens, List.map_cons, h.pos]
        exact ht.opening
    | closing hopens _ =>
        rw [hopens, List.map_cons] at ht
        exact ht.closing
  · rw [List.length_append, List.length_singleton, ← h.pos]
    cases hf <;> assumption

/-- The scan stops only at a closing bracket, when none is open. -/
theorem HasRead.feed_error (h : HasRead s t) {c : UInt8} {e : Unmatched}
    (hs : s.feed c = .error e) :
    c = Symbol.closing.byte ∧ Paired t [] ∧ e = .closing t.length := by
  have hf := feeds_feed s c
  rw [hs] at hf
  cases hf with
  | stray hopens =>
      have ht := h.paired
      rw [hopens] at ht
      exact ⟨rfl, ht, by rw [h.pos]⟩

theorem HasRead.feedAll {src : Bytes} (h : HasRead s t) (hs : feedAll src s = .ok s') :
    HasRead s' (t ++ src) := by
  induction src generalizing t s with
  | nil =>
      cases hs
      rwa [List.append_nil]
  | cons c src ih =>
      rw [Scan.feedAll] at hs
      cases hc : s.feed c with
      | error e =>
          rw [hc] at hs
          cases hs
      | ok s₁ =>
          rw [hc] at hs
          rw [List.append_cons]
          exact ih (h.feed hc) hs

theorem HasRead.feedAll_error {src : Bytes} {e : Unmatched} (h : HasRead s t)
    (hs : Scan.feedAll src s = .error e) :
    ∃ u rest, t ++ src = u ++ Symbol.closing.byte :: rest ∧ Paired u [] ∧
      e = .closing u.length := by
  induction src generalizing t s with
  | nil => cases hs
  | cons c src ih =>
      rw [Scan.feedAll] at hs
      cases hc : s.feed c with
      | error e' =>
          rw [hc] at hs
          cases hs
          obtain ⟨rfl, ht, he⟩ := h.feed_error hc
          exact ⟨t, src, rfl, ht, he⟩
      | ok s₁ =>
          rw [hc] at hs
          rw [List.append_cons]
          exact ih (h.feed hc) hs

end Code.Scan

/-! ## What compiling says about a text -/

def FirstLoneClosing (src : Bytes) (q : Nat) : Prop :=
  LoneClosing src q ∧ ∀ q' < q, ¬ LoneClosing src q'

/-- The last opening bracket without partner, where every closing bracket has one. -/
def LastLoneOpening (src : Bytes) (p : Nat) : Prop :=
  (∀ q, ¬ LoneClosing src q) ∧ LoneOpening src p ∧ ∀ p' > p, ¬ LoneOpening src p'

/-- What the result of compiling says about a text. -/
inductive Verdict (src : Bytes) : Except Unmatched Code → Prop
  | ok {code : Code} : Balanced (Symbol.ofBytes src) → (∀ q, ¬ LoneClosing src q) →
      (∀ p, ¬ LoneOpening src p) → Verdict src (.ok code)
  | closing {q : Nat} : ¬ Balanced (Symbol.ofBytes src) → FirstLoneClosing src q →
      Verdict src (.error (.closing q))
  | opening {p : Nat} : ¬ Balanced (Symbol.ofBytes src) → LastLoneOpening src p →
      Verdict src (.error (.opening p))

section Verdicts

variable {t : Bytes} {p : Nat} {ps : List Nat}

theorem Paired.not_loneClosing (h : Paired t ps) (q : Nat) : ¬ LoneClosing t q := by
  rintro ⟨hq, hlone⟩
  obtain ⟨p, hp⟩ := h.closings q hq
  exact hlone p hp

theorem Paired.mem_of_loneOpening (h : Paired t ps) (hp : LoneOpening t p) : p ∈ ps := by
  rcases h.openings p hp.1 with hmem | ⟨q, hq⟩
  · exact hmem
  · exact absurd hq (hp.2 q)

/-- After a balanced text, a closing bracket has no partner, and it is the first such. -/
theorem Paired.firstLoneClosing (h : Paired t []) (rest : Bytes) :
    FirstLoneClosing (t ++ Symbol.closing.byte :: rest) t.length := by
  refine ⟨⟨by simp, fun p hp => ?_⟩, ?_⟩
  · obtain ⟨a, b, c, heq, rfl, hlen, hb⟩ := partners_iff.1 hp
    have hsplit : a ++ Symbol.opening.byte :: (b ++ Symbol.closing.byte :: c) =
        (a ++ Symbol.opening.byte :: b) ++ Symbol.closing.byte :: c := by simp
    rw [hsplit] at heq
    obtain ⟨rfl, -⟩ := List.append_inj heq (by simp; omega)
    have hlow := h.opened.rising a (List.prefix_append a _)
    have hzero := h.opened.balanced.height_eq
    rw [Symbol.ofBytes_append, height_append, Symbol.ofBytes_byte, height_opening,
      hb.height_eq] at hzero
    omega
  · rintro q hq ⟨hclosing, hlone⟩
    rw [List.getElem?_append_left hq] at hclosing
    obtain ⟨p, hp⟩ := h.closings q hclosing
    exact hlone p (hp.append _)

theorem Paired.lastLoneOpening (h : Paired t (p :: ps)) : LastLoneOpening t p := by
  refine ⟨h.not_loneClosing, h.opened.lone List.mem_cons_self, fun p' hlt hp' => ?_⟩
  rcases List.mem_cons.1 (h.mem_of_loneOpening hp') with rfl | hmem
  · exact Nat.lt_irrefl _ hlt
  · exact Nat.lt_asymm hlt (h.opened.lt_of_mem hmem)

end Verdicts

theorem Code.verdict_compile (src : Bytes) : Verdict src (compile src) := by
  have hstart : Scan.HasRead {} [] := ⟨Paired.nil, rfl⟩
  unfold compile
  cases hfeed : Scan.feedAll src {} with
  | error e =>
      obtain ⟨u, rest, hsrc, hu, rfl⟩ := hstart.feedAll_error hfeed
      rw [List.nil_append] at hsrc
      rw [hsrc]
      -- A balanced text has no `]` behind a prefix that is balanced itself.
      refine .closing (fun h => ?_) (hu.firstLoneClosing rest)
      rw [Symbol.ofBytes_append, Symbol.ofBytes_byte] at h
      exact hu.opened.balanced.not_closing h
  | ok s =>
      have hread : Paired src _ := (hstart.feedAll hfeed).paired
      simp only [Scan.finish]
      cases hopens : s.opens with
      | nil =>
          rw [hopens] at hread
          exact .ok hread.opened.balanced hread.not_loneClosing fun p hp =>
            List.not_mem_nil (hread.mem_of_loneOpening hp)
      | cons o outer =>
          rw [hopens, List.map_cons] at hread
          refine .opening (fun h => ?_) hread.lastLoneOpening
          -- An open bracket makes the height positive, and a balanced text has height zero.
          have hpos := hread.opened.height_pos
          rw [h.height_eq] at hpos
          exact Int.lt_irrefl 0 hpos

/-! ## The jump table -/

namespace Code

/-- Two indices of a code hold brackets that are partners, and the table leads from each to the
other. -/
structure Linked (code : Code) (i j : Nat) : Prop where
  lt : i < j
  opening : code.symbols[i]? = some .opening
  closing : code.symbols[j]? = some .closing
  forth : code.jumps[i]? = some (some j)
  back : code.jumps[j]? = some (some i)
  between : Balanced ((code.symbols.toList.take j).drop (i + 1))

/-- A table of jumps for all symbols: each bracket is linked to its partner, and no other symbol
has one. -/
structure Matching (code : Code) : Prop where
  size : code.jumps.size = code.symbols.size
  plain : ∀ (i : Nat) (p : Plain), code.symbols[i]? = some p.symbol → code.jumps[i]? = some none
  opening : ∀ i : Nat, code.symbols[i]? = some .opening → ∃ j, Linked code i j
  closing : ∀ j : Nat, code.symbols[j]? = some .closing → ∃ i, Linked code i j

section Uniqueness

variable {code code' : Code} (hs : code.symbols = code'.symbols)

include hs

theorem Linked.not_lt {i j j' : Nat} (h : Linked code i j) (h' : Linked code' i j') :
    ¬ j < j' := by
  intro hlt
  obtain ⟨a, c, hsplit, rfl⟩ := exists_split (l := code.symbols.toList) (i := j)
    (by rw [Array.getElem?_toList]; exact h.closing)
  have hi : i + 1 ≤ a.length := h.lt
  obtain ⟨k, hk⟩ : ∃ k, j' - a.length = k + 1 := ⟨j' - a.length - 1, by omega⟩
  have hfirst := h.between
  have hsecond := h'.between
  rw [hsplit, List.take_left] at hfirst
  rw [← hs, hsplit, List.take_append, List.take_of_length_le (Nat.le_of_lt hlt), hk,
    List.take_succ_cons, List.drop_append_of_le_length hi] at hsecond
  exact hfirst.not_closing hsecond

/-- The partner of an opening bracket is the one index up to which the text is balanced. -/
theorem Linked.unique {i j j' : Nat} (h : Linked code i j) (h' : Linked code' i j') : j = j' :=
  Nat.le_antisymm (Nat.le_of_not_lt (h'.not_lt hs.symm h)) (Nat.le_of_not_lt (h.not_lt hs h'))

theorem Matching.unique (h : Matching code) (h' : Matching code') : code = code' := by
  have hjumps : code.jumps = code'.jumps := by
    refine Array.ext_getElem? fun i => ?_
    cases hi : code.symbols[i]? with
    | none =>
        have hsize := Array.getElem?_eq_none_iff.1 hi
        rw [Array.getElem?_eq_none_iff.2 (by rw [h.size]; exact hsize),
          Array.getElem?_eq_none_iff.2 (by rw [h'.size, ← hs]; exact hsize)]
    | some y =>
        have hi' := hi
        rw [hs] at hi'
        rcases y.bracket_or_plain with rfl | rfl | ⟨p, rfl⟩
        · obtain ⟨j, hj⟩ := h.opening i hi
          obtain ⟨j', hj'⟩ := h'.opening i hi'
          rw [hj.forth, hj'.forth, hj.unique hs hj']
        · -- The partner is an opening bracket, and its partner in the other table is this one.
          obtain ⟨k, hk⟩ := h.closing i hi
          obtain ⟨j, hj⟩ := h'.opening k (by rw [← hs]; exact hk.opening)
          rw [hk.back, hk.unique hs hj, hj.back]
        · rw [h.plain i p hi, h'.plain i p hi']
  cases code
  cases code'
  cases hs
  cases hjumps
  rfl

end Uniqueness

/-- What is known of an index of compiled text. -/
inductive Settled (code : Code) (i : Nat) : Prop
  | plain {p : Plain} : code.symbols[i]? = some p.symbol → code.jumps[i]? = some none →
      Settled code i
  | opening {j : Nat} : Linked code i j → Settled code i
  | closing {j : Nat} : Linked code j i → Settled code i

end Code

namespace Machine

theorem At.jump_eq {code : Code} {i : Nat} {s : Symbol} {jump : Option Nat}
    (h : At code i s jump) (hsize : code.jumps.size = code.symbols.size) :
    code.jumps[i]? = some jump := by
  obtain ⟨hi, -⟩ := Array.getElem?_eq_some_iff.1 h.symbol
  have hjump := h.jump
  rw [← hsize] at hi
  rw [Array.getD_eq_getD_getElem?, Array.getElem?_eq_getElem hi] at hjump
  rw [Array.getElem?_eq_getElem hi]
  exact congrArg some hjump

theorem balanced_symbols (b : Block) : Balanced b.symbols := by
  induction b with
  | nil => exact .nil
  | plain p rest ih => exact .plain p ih
  | loop body rest ihb ihr => exact .loop ihb ihr

/-- Each symbol of a block, wherever the block stands, is settled within the block. -/
theorem Located.settled {code : Code} (hsize : code.jumps.size = code.symbols.size) {b : Block}
    {i : Nat} (h : Located code i b) {n : Nat} (hn : i ≤ n) (hn' : n < i + b.symbols.length) :
    code.Settled n := by
  induction b generalizing i with
  | nil =>
      simp only [Block.symbols, List.length_nil] at hn'
      omega
  | plain p rest ih =>
      obtain ⟨hat, hrest⟩ := h.plain
      simp only [Block.symbols, List.length_cons] at hn'
      rcases Nat.eq_or_lt_of_le hn with rfl | hlt
      · exact .plain hat.symbol (hat.jump_eq hsize)
      · exact ih hrest hlt (by omega)
  | loop body rest ihb ihr =>
      obtain ⟨hopening, hbody, hclosing, hrest⟩ := h.loop
      simp only [Block.symbols, List.length_cons, List.length_append] at hn'
      -- What stands between the two brackets is the body, which is balanced.
      have hbetween : (code.symbols.toList.take (i + 1 + body.symbols.length)).drop (i + 1) =
          body.symbols := by
        rw [List.drop_take, Nat.add_sub_cancel_left]
        exact (List.prefix_iff_eq_take.1 hbody.symbols).symm
      have hlinked : code.Linked i (i + 1 + body.symbols.length) :=
        ⟨by omega, hopening.symbol, hclosing.symbol, hopening.jump_eq hsize,
          hclosing.jump_eq hsize, by rw [hbetween]; exact balanced_symbols body⟩
      rcases Nat.eq_or_lt_of_le hn with rfl | hlt
      · exact .opening hlinked
      -- Inside the body, at its `]`, or behind it.
      · rcases Nat.lt_trichotomy n (i + 1 + body.symbols.length) with hin | rfl | hout
        · exact ihb hbody hlt hin
        · exact .closing hlinked
        · exact ihr hrest (by omega) (by omega)

end Machine

namespace Code

theorem matching_code (b : Block) : Matching b.code := by
  have hsize : b.code.jumps.size = b.code.symbols.size := by simp [Block.code]
  -- Every index of the code lies in the block, which starts at zero.
  have hsettled : ∀ {i : Nat} {y : Symbol}, b.code.symbols[i]? = some y → b.code.Settled i := by
    intro i y hi
    obtain ⟨hlt, -⟩ := Array.getElem?_eq_some_iff.1 hi
    refine (Machine.located_code b).settled hsize (Nat.zero_le i) ?_
    simpa [Block.code] using hlt
  refine ⟨hsize, fun i p hi => ?_, fun i hi => ?_, fun j hj => ?_⟩
  · cases hsettled hi with
    | plain _ hjump => exact hjump
    | opening hl =>
        rw [hl.opening] at hi
        cases p <;> cases hi
    | closing hl =>
        rw [hl.closing] at hi
        cases p <;> cases hi
  · cases hsettled hi with
    | @plain p hp _ =>
        rw [hp] at hi
        cases p <;> cases hi
    | opening hl => exact ⟨_, hl⟩
    | closing hl =>
        rw [hl.closing] at hi
        cases hi
  · cases hsettled hj with
    | @plain p hp _ =>
        rw [hp] at hj
        cases p <;> cases hj
    | opening hl =>
        rw [hl.opening] at hj
        cases hj
    | closing hl => exact ⟨_, hl⟩

theorem exists_compile_iff (src : Bytes) :
    (∃ code, compile src = .ok code) ↔ Balanced (Symbol.ofBytes src) := by
  have hv := verdict_compile src
  constructor
  · rintro ⟨code, h⟩
    rw [h] at hv
    cases hv with
    | ok hbal _ _ => exact hbal
  · intro hbal
    cases hc : compile src with
    | ok code => exact ⟨code, rfl⟩
    | error e =>
        rw [hc] at hv
        cases hv with
        | closing hnot _ => exact absurd hbal hnot
        | opening hnot _ => exact absurd hbal hnot

/-- In a balanced text no bracket is without partner. -/
theorem no_lone_of_balanced {src : Bytes} (h : Balanced (Symbol.ofBytes src)) :
    (∀ q, ¬ LoneClosing src q) ∧ ∀ p, ¬ LoneOpening src p := by
  obtain ⟨code, hc⟩ := (exists_compile_iff src).2 h
  have hv := verdict_compile src
  rw [hc] at hv
  cases hv with
  | ok _ hclosing hopening => exact ⟨hclosing, hopening⟩

theorem compile_eq_ok_iff (src : Bytes) (code : Code) :
    compile src = .ok code ↔ Balanced (Symbol.ofBytes src) ∧
      code.symbols.toList = Symbol.ofBytes src ∧ Matching code := by
  have hok : ∀ {code : Code}, compile src = .ok code →
      code.symbols.toList = Symbol.ofBytes src ∧ Matching code := by
    intro code h
    obtain ⟨b, hb, rfl⟩ := exists_block h
    exact ⟨hb.symm, matching_code b⟩
  constructor
  · intro h
    exact ⟨(exists_compile_iff src).1 ⟨code, h⟩, hok h⟩
  · rintro ⟨hbal, hsymbols, hmatching⟩
    obtain ⟨code', hc⟩ := (exists_compile_iff src).2 hbal
    obtain ⟨hsymbols', hmatching'⟩ := hok hc
    have hsame : code'.symbols = code.symbols := Array.ext' (hsymbols'.trans hsymbols.symm)
    rw [hc, hmatching'.unique hsame hmatching]

theorem compile_eq_closing_iff (src : Bytes) (q : Nat) :
    compile src = .error (.closing q) ↔ FirstLoneClosing src q := by
  have hv := verdict_compile src
  constructor
  · intro h
    rw [h] at hv
    cases hv with
    | closing _ hq => exact hq
  · rintro ⟨hq, hfirst⟩
    cases hc : compile src with
    | ok code =>
        rw [hc] at hv
        cases hv with
        | ok _ hnone _ => exact absurd hq (hnone q)
    | error e =>
        rw [hc] at hv
        cases hv with
        | opening _ hp => exact absurd hq (hp.1 q)
        | @closing q' _ hq' =>
            -- Of two first lone brackets neither comes before the other.
            rcases Nat.lt_trichotomy q' q with hlt | rfl | hlt
            · exact absurd hq'.1 (hfirst q' hlt)
            · rfl
            · exact absurd hq (hq'.2 q hlt)

theorem compile_eq_opening_iff (src : Bytes) (p : Nat) :
    compile src = .error (.opening p) ↔ LastLoneOpening src p := by
  have hv := verdict_compile src
  constructor
  · intro h
    rw [h] at hv
    cases hv with
    | opening _ hp => exact hp
  · rintro ⟨hnone, hp, hlast⟩
    cases hc : compile src with
    | ok code =>
        rw [hc] at hv
        cases hv with
        | ok _ _ hno => exact absurd hp (hno p)
    | error e =>
        rw [hc] at hv
        cases hv with
        | closing _ hq => exact absurd hq.1 (hnone _)
        | @opening p' _ hp' =>
            rcases Nat.lt_trichotomy p' p with hlt | rfl | hlt
            · exact absurd hp (hp'.2.2 p hlt)
            · rfl
            · exact absurd hp'.2.1 (hlast p' hlt)

/-- A text compiles exactly when its brackets balance. The code is then the symbols of the text
with the one table that pairs its brackets. Otherwise the error names the first closing bracket
without partner or, where there is none, the last opening one, and running the text leaves the
machine as it was. -/
theorem compile_pairs_brackets (src : Bytes) :
    ((∃ code, compile src = .ok code) ↔ Balanced (Symbol.ofBytes src)) ∧
    (∀ code, compile src = .ok code ↔ Balanced (Symbol.ofBytes src) ∧
      code.symbols.toList = Symbol.ofBytes src ∧ Matching code) ∧
    (∀ q, compile src = .error (.closing q) ↔ FirstLoneClosing src q) ∧
    (∀ p, compile src = .error (.opening p) ↔ LastLoneOpening src p) ∧
    ∀ e, compile src = .error e → ∀ fuel m,
      Machine.execText fuel src m = .failed ⟨[], .unmatched e⟩ m := by
  refine ⟨exists_compile_iff src, compile_eq_ok_iff src, compile_eq_closing_iff src,
    compile_eq_opening_iff src, ?_⟩
  intro e h fuel m
  simp only [Machine.execText, h]

example : compile [32, 91, 46, 93, 93, 91] = .error (.closing 4) := rfl

example : compile [91, 32, 91, 93] = .error (.opening 0) := rfl

end Code

end TapeForge

import TapeForge.Proofs.Block

/-!
# Brackets and their partners

Balanced symbols, and the brackets of a text that are partners: an opening and a closing one with
balanced text between them. A text read from the left has some open brackets; all its other
brackets have partners, and each byte more opens a bracket, closes the innermost open one, or
leaves them as they are.
-/

namespace TapeForge

/-! ## Balanced symbols -/

/-- Symbols whose brackets come in pairs. -/
inductive Balanced : List Symbol → Prop
  | nil : Balanced []
  | plain (p : Plain) {l : List Symbol} : Balanced l → Balanced (p.symbol :: l)
  | loop {body rest : List Symbol} : Balanced body → Balanced rest →
      Balanced (.opening :: (body ++ .closing :: rest))

/-- The opening brackets less the closing ones. -/
def height (l : List Symbol) : Int := l.count .opening - l.count .closing

@[simp] theorem height_nil : height [] = 0 := rfl

@[simp] theorem height_append (k l : List Symbol) : height (k ++ l) = height k + height l := by
  simp only [height, List.count_append]
  omega

@[simp] theorem height_opening (l : List Symbol) : height (.opening :: l) = height l + 1 := by
  simp [height]
  omega

@[simp] theorem height_closing (l : List Symbol) : height (.closing :: l) = height l - 1 := by
  simp [height]
  omega

@[simp] theorem height_plain (p : Plain) (l : List Symbol) :
    height (p.symbol :: l) = height l := by
  cases p <;> simp [height, Plain.symbol]

theorem prefix_append_cases {α : Type} {k l u : List α} (h : u <+: k ++ l) :
    u <+: k ∨ ∃ v, v <+: l ∧ u = k ++ v := by
  obtain ⟨t, ht⟩ := h
  rcases List.append_eq_append_iff.1 ht with ⟨v, hk, -⟩ | ⟨v, hu, hl⟩
  · exact .inl ⟨v, hk.symm⟩
  · exact .inr ⟨v, ⟨t, hl.symm⟩, hu⟩

namespace Balanced

variable {k l : List Symbol}

theorem append (hk : Balanced k) (hl : Balanced l) : Balanced (k ++ l) := by
  induction hk with
  | nil => exact hl
  | plain p _ ih => exact .plain p ih
  | loop hbody _ _ ih =>
      rw [List.cons_append, List.append_assoc, List.cons_append]
      exact .loop hbody ih

theorem height_eq (h : Balanced l) : height l = 0 := by
  induction h with
  | nil => rfl
  | plain p _ ih => rw [height_plain, ih]
  | loop _ _ ihb ihr =>
      rw [height_opening, height_append, height_closing, ihb, ihr]
      rfl

/-- Read from the left, no closing bracket comes before its partner. -/
theorem height_nonneg (h : Balanced l) (hk : k <+: l) : 0 ≤ height k := by
  induction h generalizing k with
  | nil =>
      rw [List.prefix_nil.1 hk]
      exact Int.le_refl 0
  | plain p _ ih =>
      rcases List.prefix_cons_iff.1 hk with rfl | ⟨u, rfl, hu⟩
      · exact Int.le_refl 0
      · rw [height_plain]
        exact ih hu
  | loop hbody _ ihb ihr =>
      rcases List.prefix_cons_iff.1 hk with rfl | ⟨u, rfl, hu⟩
      · exact Int.le_refl 0
      · rw [height_opening]
        rcases prefix_append_cases hu with hu | ⟨v, hv, rfl⟩
        · have := ihb hu
          omega
        -- The prefix holds the whole body, whose height is zero, and perhaps the `]` behind it.
        · rw [height_append, hbody.height_eq]
          rcases List.prefix_cons_iff.1 hv with rfl | ⟨w, rfl, hw⟩
          · simp
          · have := ihr hw
            rw [height_closing]
            omega

theorem not_closing (hk : Balanced k) : ¬ Balanced (k ++ .closing :: l) := by
  intro h
  have hpre : k ++ [.closing] <+: k ++ .closing :: l := ⟨l, by simp⟩
  have hneg := h.height_nonneg hpre
  rw [height_append, hk.height_eq, height_closing] at hneg
  simp at hneg

end Balanced

/-! ## Partners in a text -/

theorem Symbol.ofBytes_append (s t : Bytes) : ofBytes (s ++ t) = ofBytes s ++ ofBytes t :=
  List.filterMap_append

theorem Symbol.ofBytes_byte (y : Symbol) (t : Bytes) : ofBytes (y.byte :: t) = y :: ofBytes t :=
  List.filterMap_cons_some (Symbol.ofByte?_byte y)

theorem Symbol.eq_byte {c : UInt8} {y : Symbol} (h : ofByte? c = some y) : c = y.byte := by
  unfold ofByte? at h
  repeat' split at h
  all_goals cases h
  all_goals assumption

/-- A byte that is no bracket leaves a text as balanced as it was. -/
theorem balanced_of_no_bracket {c : UInt8} (ho : c ≠ Symbol.opening.byte)
    (hc : c ≠ Symbol.closing.byte) : Balanced (Symbol.ofBytes [c]) := by
  cases h : Symbol.ofByte? c with
  | none =>
      rw [Symbol.ofBytes, List.filterMap_cons_none h]
      exact .nil
  | some y =>
      rw [Symbol.eq_byte h, Symbol.ofBytes_byte]
      rcases y.bracket_or_plain with rfl | rfl | ⟨p, rfl⟩
      · exact absurd (Symbol.eq_byte h) ho
      · exact absurd (Symbol.eq_byte h) hc
      · exact .plain p .nil

/-- The bytes of a text at two positions are an opening and a closing bracket, and the text
between them is balanced. -/
structure Partners (src : Bytes) (p q : Nat) : Prop where
  lt : p < q
  opening : src[p]? = some Symbol.opening.byte
  closing : src[q]? = some Symbol.closing.byte
  between : Balanced (Symbol.ofBytes ((src.take q).drop (p + 1)))

def LoneClosing (src : Bytes) (q : Nat) : Prop :=
  src[q]? = some Symbol.closing.byte ∧ ∀ p, ¬ Partners src p q

def LoneOpening (src : Bytes) (p : Nat) : Prop :=
  src[p]? = some Symbol.opening.byte ∧ ∀ q, ¬ Partners src p q

theorem exists_split {α : Type} {l : List α} {i : Nat} {x : α} (h : l[i]? = some x) :
    ∃ a c, l = a ++ x :: c ∧ a.length = i := by
  obtain ⟨hi, rfl⟩ := List.getElem?_eq_some_iff.1 h
  refine ⟨l.take i, l.drop (i + 1), ?_, List.length_take_of_le (Nat.le_of_lt hi)⟩
  rw [List.getElem_cons_drop, List.take_append_drop]

theorem partners_iff {src : Bytes} {p q : Nat} :
    Partners src p q ↔ ∃ a b c,
      src = a ++ Symbol.opening.byte :: (b ++ Symbol.closing.byte :: c) ∧ a.length = p ∧
      p + 1 + b.length = q ∧ Balanced (Symbol.ofBytes b) := by
  constructor
  · rintro ⟨hlt, ho, hc, hb⟩
    obtain ⟨s, c, rfl, rfl⟩ := exists_split hc
    rw [List.getElem?_append_left hlt] at ho
    obtain ⟨a, b, rfl, rfl⟩ := exists_split ho
    have hdrop : (a ++ Symbol.opening.byte :: b).drop (a.length + 1) = b := by simp
    rw [List.take_left, hdrop] at hb
    refine ⟨a, b, c, by simp, rfl, ?_, hb⟩
    simp only [List.length_append, List.length_cons]
    omega
  · rintro ⟨a, b, c, rfl, rfl, rfl, hb⟩
    have hsplit : a ++ Symbol.opening.byte :: (b ++ Symbol.closing.byte :: c) =
        (a ++ Symbol.opening.byte :: b) ++ Symbol.closing.byte :: c := by simp
    have hlen : a.length + 1 + b.length = (a ++ Symbol.opening.byte :: b).length := by
      simp only [List.length_append, List.length_cons]
      omega
    refine ⟨by omega, by simp, ?_, ?_⟩
    · rw [hsplit, hlen]
      simp
    · have hdrop : (a ++ Symbol.opening.byte :: b).drop (a.length + 1) = b := by simp
      rwa [hsplit, hlen, List.take_left, hdrop]

theorem Partners.append {src : Bytes} {p q : Nat} (h : Partners src p q) (t : Bytes) :
    Partners (src ++ t) p q := by
  obtain ⟨a, b, c, rfl, ha, hb, hbal⟩ := partners_iff.1 h
  exact partners_iff.2 ⟨a, b, c ++ t, by simp, ha, hb, hbal⟩

theorem Partners.not_lt {src : Bytes} {p q q' : Nat} (h : Partners src p q)
    (h' : Partners src p q') : ¬ q < q' := by
  intro hlt
  obtain ⟨a, b, c, heq, rfl, rfl, hb⟩ := partners_iff.1 h
  obtain ⟨a', b', c', heq', ha', rfl, hb'⟩ := partners_iff.1 h'
  obtain ⟨rfl, htail⟩ := List.append_inj (heq.symm.trans heq') ha'.symm
  have hrest := (List.cons_inj_right _).1 htail
  -- The longer of the two texts between goes on after the shorter one with its closing bracket.
  rcases List.append_eq_append_iff.1 hrest with ⟨d, rfl, hd⟩ | ⟨d, rfl, -⟩
  · cases d with
    | nil =>
        simp only [List.append_nil] at hlt
        omega
    | cons x d =>
        obtain ⟨rfl, -⟩ := List.cons.inj hd
        rw [Symbol.ofBytes_append, Symbol.ofBytes_byte] at hb'
        exact hb.not_closing hb'
  · simp only [List.length_append] at hlt
    omega

/-- The partner of an opening bracket is the one position up to which the text is balanced. -/
theorem Partners.unique {src : Bytes} {p q q' : Nat} (h : Partners src p q)
    (h' : Partners src p q') : q = q' :=
  Nat.le_antisymm (Nat.le_of_not_lt (h'.not_lt h)) (Nat.le_of_not_lt (h.not_lt h'))

/-! ## A text on its way -/

/-- In no first part of a text are there more closing brackets than opening ones. -/
def Rising (t : Bytes) : Prop := ∀ u, u <+: t → 0 ≤ height (Symbol.ofBytes u)

theorem Balanced.rising {t : Bytes} (h : Balanced (Symbol.ofBytes t)) : Rising t := by
  rintro u ⟨v, rfl⟩
  rw [Symbol.ofBytes_append] at h
  exact h.height_nonneg (List.prefix_append _ _)

theorem Rising.bracket {t u : Bytes} (ht : Rising t) (hu : Rising u) :
    Rising (t ++ Symbol.opening.byte :: u) := by
  intro v hv
  rcases prefix_append_cases hv with hv | ⟨w, hw, rfl⟩
  · exact ht v hv
  · have hheight := ht t List.prefix_rfl
    rw [Symbol.ofBytes_append, height_append]
    rcases List.prefix_cons_iff.1 hw with rfl | ⟨x, rfl, hx⟩
    · simpa [Symbol.ofBytes] using hheight
    · have := hu x hx
      rw [Symbol.ofBytes_byte, height_opening]
      omega

/-- A text whose open brackets stand at given positions, the innermost first: the text after each
of them, as far as the next, is balanced. -/
inductive Opened : Bytes → List Nat → Prop
  | flat {t : Bytes} : Balanced (Symbol.ofBytes t) → Opened t []
  | bracket {t u : Bytes} {ps : List Nat} : Opened t ps → Balanced (Symbol.ofBytes u) →
      Opened (t ++ Symbol.opening.byte :: u) (t.length :: ps)

namespace Opened

variable {t u : Bytes} {p : Nat} {ps : List Nat}

theorem extend (h : Opened t ps) (hu : Balanced (Symbol.ofBytes u)) : Opened (t ++ u) ps := by
  cases h with
  | flat ht =>
      refine .flat ?_
      rw [Symbol.ofBytes_append]
      exact ht.append hu
  | bracket h hv =>
      rw [List.append_assoc, List.cons_append]
      refine .bracket h ?_
      rw [Symbol.ofBytes_append]
      exact hv.append hu

theorem balanced (h : Opened t []) : Balanced (Symbol.ofBytes t) := by
  cases h with
  | flat ht => exact ht

theorem rising (h : Opened t ps) : Rising t := by
  induction h with
  | flat ht => exact ht.rising
  | bracket _ hu ih => exact ih.bracket hu.rising

theorem height_pos (h : Opened t (p :: ps)) : 0 < height (Symbol.ofBytes t) := by
  cases h with
  | bracket h hu =>
      have := h.rising _ List.prefix_rfl
      rw [Symbol.ofBytes_append, height_append, Symbol.ofBytes_byte, height_opening, hu.height_eq]
      omega

theorem split (h : Opened t ps) (hp : p ∈ ps) :
    ∃ a b, t = a ++ Symbol.opening.byte :: b ∧ a.length = p ∧ Rising b := by
  induction h with
  | flat _ => cases hp
  | bracket h hu ih =>
      rcases List.mem_cons.1 hp with rfl | hp
      · exact ⟨_, _, rfl, rfl, hu.rising⟩
      · obtain ⟨a, b, rfl, ha, hb⟩ := ih hp
        exact ⟨a, _, by rw [List.append_assoc, List.cons_append], ha, hb.bracket hu.rising⟩

theorem lt_length (h : Opened t ps) (hp : p ∈ ps) : p < t.length := by
  obtain ⟨a, b, rfl, rfl, _⟩ := h.split hp
  simp

theorem lt_of_mem (h : Opened t (p :: ps)) {q : Nat} (hq : q ∈ ps) : q < p := by
  cases h with
  | bracket h _ => exact h.lt_length hq

/-- An open bracket has no partner: what follows it never falls below its height. -/
theorem lone (h : Opened t ps) (hp : p ∈ ps) : LoneOpening t p := by
  obtain ⟨a, b, rfl, rfl, hb⟩ := h.split hp
  refine ⟨by simp, fun q hq => ?_⟩
  obtain ⟨a', b', c, heq, ha', -, hbal⟩ := partners_iff.1 hq
  obtain ⟨-, htail⟩ := List.append_inj heq ha'.symm
  have hb' : b' ++ Symbol.closing.byte :: c = b := ((List.cons_inj_right _).1 htail).symm
  have hpre : b' ++ [Symbol.closing.byte] <+: b := ⟨c, by rw [← hb', ← List.append_cons]⟩
  have hneg := hb _ hpre
  rw [Symbol.ofBytes_append, Symbol.ofBytes_byte, height_append, height_closing,
    hbal.height_eq] at hneg
  simp [Symbol.ofBytes] at hneg

end Opened

/-- A text that has been read: its open brackets, and partners for all its other brackets. -/
structure Paired (t : Bytes) (ps : List Nat) : Prop where
  opened : Opened t ps
  closings : ∀ q, t[q]? = some Symbol.closing.byte → ∃ p, Partners t p q
  openings : ∀ p, t[p]? = some Symbol.opening.byte → p ∈ ps ∨ ∃ q, Partners t p q

namespace Paired

variable {t : Bytes} {p : Nat} {ps : List Nat}

theorem nil : Paired [] [] where
  opened := .flat .nil
  closings q h := by simp at h
  openings p h := by simp at h

theorem getElem?_snoc {i : Nat} {c x : UInt8} (h : (t ++ [c])[i]? = some x) :
    t[i]? = some x ∨ i = t.length ∧ c = x := by
  rcases Nat.lt_or_ge i t.length with hi | hi
  · rw [List.getElem?_append_left hi] at h
    exact .inl h
  · rw [List.getElem?_append_right hi] at h
    obtain ⟨hi', hx⟩ := List.getElem?_eq_some_iff.1 h
    simp only [List.length_singleton] at hi'
    exact .inr ⟨by omega, by simpa using hx⟩

theorem other (h : Paired t ps) {c : UInt8} (ho : c ≠ Symbol.opening.byte)
    (hc : c ≠ Symbol.closing.byte) : Paired (t ++ [c]) ps where
  opened := h.opened.extend (balanced_of_no_bracket ho hc)
  closings q hq := by
    rcases getElem?_snoc hq with hq | ⟨-, hq⟩
    · obtain ⟨p, hp⟩ := h.closings q hq
      exact ⟨p, hp.append _⟩
    · exact absurd hq hc
  openings p hp := by
    rcases getElem?_snoc hp with hp | ⟨-, hp⟩
    · exact (h.openings p hp).imp_right fun ⟨q, hq⟩ => ⟨q, hq.append _⟩
    · exact absurd hp ho

theorem opening (h : Paired t ps) : Paired (t ++ [Symbol.opening.byte]) (t.length :: ps) where
  opened := .bracket h.opened .nil
  closings q hq := by
    rcases getElem?_snoc hq with hq | ⟨-, hq⟩
    · obtain ⟨p, hp⟩ := h.closings q hq
      exact ⟨p, hp.append _⟩
    · exact absurd hq (by decide)
  openings p hp := by
    rcases getElem?_snoc hp with hp | ⟨rfl, -⟩
    · rcases h.openings p hp with hp | ⟨q, hq⟩
      · exact .inl (List.mem_cons_of_mem _ hp)
      · exact .inr ⟨q, hq.append _⟩
    · exact .inl List.mem_cons_self

/-- A closing bracket is the partner of the innermost open one. -/
theorem closing (h : Paired t (p :: ps)) : Paired (t ++ [Symbol.closing.byte]) ps := by
  obtain ⟨hopened, hclosings, hopenings⟩ := h
  cases hopened with
  | @bracket t u _ ht hu =>
      have hpartners : Partners (t ++ Symbol.opening.byte :: u ++ [Symbol.closing.byte]) t.length
          (t ++ Symbol.opening.byte :: u).length :=
        partners_iff.2 ⟨t, u, [], by simp, rfl, by simp; omega, hu⟩
      refine ⟨?_, ?_, ?_⟩
      · rw [List.append_assoc, List.cons_append]
        refine ht.extend ?_
        rw [Symbol.ofBytes_byte, Symbol.ofBytes_append, Symbol.ofBytes_byte]
        exact .loop hu .nil
      · intro q hq
        rcases getElem?_snoc hq with hq | ⟨rfl, -⟩
        -- An older bracket keeps its partner; the new one has its own.
        · obtain ⟨p, hp⟩ := hclosings q hq
          exact ⟨p, hp.append _⟩
        · exact ⟨_, hpartners⟩
      · intro p hp
        rcases getElem?_snoc hp with hp | ⟨-, hp⟩
        · rcases hopenings p hp with hp | ⟨q, hq⟩
          · rcases List.mem_cons.1 hp with rfl | hp
            · exact .inr ⟨_, hpartners⟩
            · exact .inl hp
          · exact .inr ⟨q, hq.append _⟩
        · exact absurd hp (by decide)

end Paired

end TapeForge

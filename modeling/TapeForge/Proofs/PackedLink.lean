import TapeForge.Proofs.PackedFold
import TapeForge.Proofs.TextRun

/-!
# Linked text

Linking pairs the brackets of folded text. A loop whose jumps are too long for a word is longer
than half of the text that may be packed, so such loops lie one inside the other, and the indices
of their distances fit into words.
-/

namespace TapeForge.Packed

namespace Folded

/-- The words of folded text, and its entries of the far table, which has `k` entries before. -/
def assemble : Nat → Folded → List Word × List Int64
  | _, nil => ([], [])
  | k, lump l rest => (.make l.verb l.arg :: (assemble k rest).1, (assemble k rest).2)
  | k, loop body rest =>
    let (words, far) := assemble k body
    let dist := Int64.ofNat (words.length + 1)
    if dist ≤ maxArg then
      let after := assemble (k + far.length) rest
      (.make .jumpZero dist :: (words ++ .make .jumpNonZero (-dist) :: after.1), far ++ after.2)
    else
      let entry := Int64.ofNat (k + far.length)
      let after := assemble (k + far.length + 2) rest
      (.make .farJumpZero entry :: (words ++ .make .farJumpNonZero (entry + 1) :: after.1),
        far ++ dist :: -dist :: after.2)

@[simp] theorem length_assemble (k : Nat) (f : Folded) :
    (assemble k f).1.length = f.instrs.length := by
  induction f generalizing k with
  | nil => rfl
  | lump l rest ih => simp [assemble, instrs, ih]
  | loop body rest ihb ihr =>
      simp only [assemble]
      split <;> simp [instrs, ihb, ihr]

theorem link_lump (l : Link) (u : Lump) :
    l.add u.instr = { l with words := l.words.push (.make u.verb u.arg) } := by
  cases u <;> rfl

/-- Closing a loop whose body has been linked. -/
theorem close_linked (words ws : Array Word) (far : Array Int64) (opens outer : List Nat)
    (w : Word) :
    Link.close ⟨words.push w ++ ws, far, opens⟩ words.size outer =
      if Int64.ofNat (ws.size + 1) ≤ maxArg then
        ⟨(words.push (.make .jumpZero (.ofNat (ws.size + 1))) ++ ws).push
          (.make .jumpNonZero (-.ofNat (ws.size + 1))), far, outer⟩
      else
        ⟨(words.push (.make .farJumpZero (.ofNat far.size)) ++ ws).push
          (.make .farJumpNonZero (.ofNat far.size + 1)),
          (far.push (.ofNat (ws.size + 1))).push (-.ofNat (ws.size + 1)), outer⟩ := by
  have hsize : (words.push w ++ ws).size - words.size = ws.size + 1 := by
    rw [Array.size_append, Array.size_push]
    omega
  simp only [Link.close, hsize, Code.Scan.setIfInBounds_push_append]

/-- Linking appends what the text assembles to, and leaves the open brackets as they were. -/
theorem foldl_add_instrs (f : Folded) (l : Link) :
    f.instrs.foldl Link.add l =
      ⟨l.words ++ (assemble l.far.size f).1.toArray, l.far ++ (assemble l.far.size f).2.toArray,
        l.opens⟩ := by
  induction f generalizing l with
  | nil => simp [instrs, assemble]
  | lump u rest ih =>
      rw [instrs, List.foldl_cons, ih, link_lump]
      simp [assemble]
  | loop body rest ihb ihr =>
      rw [instrs, List.foldl_cons, List.foldl_append, List.foldl_cons, ihb]
      simp only [Link.add]
      rw [close_linked, ihr, List.size_toArray]
      simp only [assemble]
      split
      · simp
      · simp [Nat.add_assoc]

/-! ## The far table -/

theorem toInt_ofNat_length {f : Folded} (h : f.instrs.length < 0x7fffffffffffffff) :
    (Int64.ofNat (f.instrs.length + 1)).toInt = f.instrs.length + 1 := by
  rw [Int64.toInt_ofNat_of_lt (by omega)]
  omega

theorem toInt_neg_ofNat_length {f : Folded} (h : f.instrs.length < 0x7fffffffffffffff) :
    (-Int64.ofNat (f.instrs.length + 1)).toInt = -(f.instrs.length + 1) := by
  rw [Int64.toInt_neg, toInt_ofNat_length h]
  apply Int.bmod_eq_of_le_mul_two <;> omega

theorem le_maxArg_iff {f : Folded} (h : f.instrs.length < 0x7fffffffffffffff) :
    Int64.ofNat (f.instrs.length + 1) ≤ maxArg ↔ f.instrs.length + 1 ≤ 8388607 := by
  have hmax : maxArg.toInt = 8388607 := rfl
  rw [Int64.le_iff_toInt_le, toInt_ofNat_length h, hmax]
  omega

/-- Text with far jumps is longer than the largest argument by as much as it has entries, of
which there are two for each loop. -/
theorem far_bound (k : Nat) {f : Folded} (h : f.instrs.length ≤ 16777216) :
    (assemble k f).2.length % 2 = 0 ∧
      ((assemble k f).2.length = 0 ∨
        8388607 + (assemble k f).2.length ≤ f.instrs.length) := by
  induction f generalizing k with
  | nil => exact ⟨rfl, Or.inl rfl⟩
  | lump u rest ih =>
      simp only [instrs, List.length_cons] at h
      have hrest := ih k (by omega)
      simp only [assemble, instrs, List.length_cons]
      omega
  | loop body rest ihb ihr =>
      simp only [instrs, List.length_cons, List.length_append] at h
      have hbody : body.instrs.length ≤ 16777216 := by omega
      have hb := ihb k hbody
      simp only [assemble, length_assemble, instrs, List.length_cons, List.length_append]
      split
      · have hr := ihr (k + (assemble k body).2.length) (by omega)
        simp only [List.length_append]
        omega
      -- A far loop has a body longer than the largest argument, and adds two entries.
      · rename_i hlong
        rw [le_maxArg_iff (by omega)] at hlong
        have hr := ihr (k + (assemble k body).2.length + 2) (by omega)
        simp only [List.length_append, List.length_cons]
        omega

theorem length_far_le {f : Folded} (h : f.instrs.length ≤ 16777216) :
    (assemble 0 f).2.length ≤ 8388608 := by
  have hf := far_bound 0 h
  omega

end Folded

/-! ## Words in their places -/

/-- The word at an index jumps by a distance, which it holds or finds in the far table. -/
inductive Hop (code : Assembly) (i : Nat) (near far : Verb) (dist : Int64) : Prop
  | near : code.words[i]? = some (.make near dist) → Word.Holds dist → Hop code i near far dist
  | far {k : Nat} : code.words[i]? = some (.make far (.ofNat k)) → k < 8388608 →
      code.far[k]? = some dist → Hop code i near far dist

/-- Folded text stands in packed code at an index. -/
def Placed (code : Assembly) : Nat → Folded → Prop
  | _, .nil => True
  | i, .lump l rest => code.words[i]? = some (.make l.verb l.arg) ∧ Placed code (i + 1) rest
  | i, .loop body rest =>
    Hop code i .jumpZero .farJumpZero (.ofNat (body.instrs.length + 1)) ∧
      Placed code (i + 1) body ∧
      Hop code (i + 1 + body.instrs.length) .jumpNonZero .farJumpNonZero
        (-.ofNat (body.instrs.length + 1)) ∧
      Placed code (i + 2 + body.instrs.length) rest

theorem placed_of_assemble {code : Assembly} {i k : Nat} {f : Folded}
    (hlen : f.instrs.length ≤ 0x7fffffffffffffff)
    (hfar : k + (f.assemble k).2.length ≤ 8388608)
    (hwords : (f.assemble k).1 <+: code.words.toList.drop i)
    (hentries : (f.assemble k).2 <+: code.far.toList.drop k) : Placed code i f := by
  induction f generalizing i k with
  | nil => trivial
  | lump u rest ih =>
      simp only [Folded.assemble] at hwords hentries hfar
      simp only [Folded.instrs, List.length_cons] at hlen
      obtain ⟨hword, hwords⟩ := prefix_drop_cons hwords
      exact ⟨by simpa using hword, ih (by omega) hfar hwords hentries⟩
  | loop body rest ihb ihr =>
      simp only [Folded.instrs, List.length_cons, List.length_append] at hlen
      have hbody : body.instrs.length < 0x7fffffffffffffff := by omega
      have hpast : i + 1 + body.instrs.length + 1 = i + 2 + body.instrs.length := by omega
      have hdist := Folded.toInt_ofNat_length hbody
      have hneg := Folded.toInt_neg_ofNat_length hbody
      simp only [Folded.assemble, Folded.length_assemble] at hwords hentries hfar
      -- The two words of the loop hold the distance, or the far table has one entry for each.
      by_cases hnear : Int64.ofNat (body.instrs.length + 1) ≤ maxArg
      · simp only [if_pos hnear, List.length_append] at hwords hentries hfar
        rw [Folded.le_maxArg_iff hbody] at hnear
        obtain ⟨hopen, hwords⟩ := prefix_drop_cons hwords
        obtain ⟨hwb, hwords⟩ := prefix_drop_append hwords
        rw [Folded.length_assemble] at hwords
        obtain ⟨hclose, hwr⟩ := prefix_drop_cons hwords
        obtain ⟨hfb, hfr⟩ := prefix_drop_append hentries
        rw [hpast] at hwr
        rw [Array.getElem?_toList] at hopen hclose
        refine ⟨.near hopen ?_, ihb (by omega) (by omega) hwb hfb, .near hclose ?_,
          ihr (by omega) (by omega) hwr hfr⟩
        · constructor <;> omega
        · constructor <;> omega
      · simp only [if_neg hnear, List.length_append, List.length_cons] at hwords hentries hfar
        obtain ⟨hopen, hwords⟩ := prefix_drop_cons hwords
        obtain ⟨hwb, hwords⟩ := prefix_drop_append hwords
        rw [Folded.length_assemble] at hwords
        obtain ⟨hclose, hwr⟩ := prefix_drop_cons hwords
        obtain ⟨hfb, hentries⟩ := prefix_drop_append hentries
        obtain ⟨hforth, hentries⟩ := prefix_drop_cons hentries
        obtain ⟨hback, hfr⟩ := prefix_drop_cons hentries
        rw [hpast] at hwr
        have hnext : Int64.ofNat (k + (body.assemble k).2.length) + 1 =
            Int64.ofNat (k + (body.assemble k).2.length + 1) := by
          rw [Int64.ofNat_add _ 1]
          rfl
        rw [hnext] at hclose
        rw [Array.getElem?_toList] at hopen hclose hforth hback
        exact ⟨.far hopen (by omega) hforth, ihb (by omega) (by omega) hwb hfb,
          .far hclose (by omega) hback, ihr (by omega) (by omega) hwr hfr⟩

/-- What the fold of a block assembles to is the packed code of its text. -/
theorem ofCode_code (b : Block) :
    ofCode b.code =
      ⟨((fold .none b).assemble 0).1.toArray, ((fold .none b).assemble 0).2.toArray⟩ := by
  rw [ofCode]
  show Assembly.mk _ _ = _
  simp only [Block.code, instrs_foldSymbols, List.foldl_toArray, Folded.foldl_add_instrs]
  simp

/-- Packed code whose far table can be told apart by words holds the fold of its block. -/
theorem placed_of_far {b : Block} (hlen : (fold .none b).instrs.length ≤ 0x7fffffffffffffff)
    (hfar : (ofCode b.code).far.size ≤ 8388608) :
    Placed (ofCode b.code) 0 (fold .none b) ∧
      (ofCode b.code).words.size = (fold .none b).instrs.length := by
  rw [ofCode_code] at hfar ⊢
  refine ⟨?_, by simp⟩
  exact placed_of_assemble hlen (by simpa using hfar) List.prefix_rfl List.prefix_rfl

/-- The far table of a text of at most 2^24 symbols is small enough. -/
theorem far_ofCode_le {b : Block} (h : b.symbols.length ≤ 16777216) :
    (ofCode b.code).far.size ≤ 8388608 := by
  have hlen := length_fold_le .none b
  simp only [Pending.weight] at hlen
  have hfar := Folded.length_far_le (f := fold .none b) (by omega)
  rw [ofCode_code]
  simpa using hfar

/-- The packed code of a text of permitted length holds the fold of its block. -/
theorem placed_ofCode {b : Block} (h : b.symbols.length ≤ 16777216) :
    Placed (ofCode b.code) 0 (fold .none b) ∧
      (ofCode b.code).words.size = (fold .none b).instrs.length := by
  have hlen := length_fold_le .none b
  simp only [Pending.weight] at hlen
  exact placed_of_far (by omega) (far_ofCode_le h)

end TapeForge.Packed

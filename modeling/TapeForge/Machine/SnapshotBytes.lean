import TapeForge.Machine.Snapshot

/-!
# A codec of snapshots

Behind a header that names the fields stand the numbers of a snapshot, and each list behind its
length. A number is written in digits of seven bits, the lowest first, and the top bit of a byte
says that more digits follow. A part of what is written is no snapshot.
-/

namespace TapeForge.Snapshot

def header : Bytes :=
  Bytes.ofString
    "snapshot\x7bdp:int64,width:int64,cursor:int64,steps:int64,tape:[]uint64,input:[]byte\x7d\n"

def digits (n : Nat) : Bytes :=
  if n < 128 then [UInt8.ofNat n]
  else UInt8.ofNat (n % 128 + 128) :: digits (n / 128)

/-- The number at the front of a byte string, and the bytes after it. -/
def takeNumber? : Bytes → Option (Nat × Bytes)
  | [] => none
  | b :: rest =>
    if b.toNat < 128 then some (b.toNat, rest)
    else
      match takeNumber? rest with
      | some (n, rest) => some (n * 128 + (b.toNat - 128), rest)
      | none => none

/-- The first `n` numbers of a byte string as words, added to `acc`, and the bytes after them. -/
def takeWords? : Nat → Array UInt64 → Bytes → Option (Array UInt64 × Bytes)
  | 0, acc, bs => some (acc, bs)
  | n + 1, acc, bs =>
    match takeNumber? bs with
    | some (w, rest) => takeWords? n (acc.push (.ofNat w)) rest
    | none => none

/-- The bytes behind the header. -/
def fields (s : Snapshot) : Bytes :=
  digits s.dp.toUInt64.toNat ++ (digits s.cellWidth.toUInt64.toNat ++
    (digits s.cursor.toUInt64.toNat ++ (digits s.steps.toUInt64.toNat ++
      (digits s.tape.size ++ (s.tape.toList.flatMap (fun v => digits v.toNat) ++
        (digits s.input.size ++ s.input.toList))))))

def readFields? (bs : Bytes) : Option Snapshot := do
  let (dp, bs) ← takeNumber? bs
  let (width, bs) ← takeNumber? bs
  let (cursor, bs) ← takeNumber? bs
  let (steps, bs) ← takeNumber? bs
  let (cells, bs) ← takeNumber? bs
  let (tape, bs) ← takeWords? cells #[] bs
  let (length, bs) ← takeNumber? bs
  let int := fun n => (UInt64.ofNat n).toInt64
  if length ≤ bs.length then
    return { dp := int dp, cellWidth := int width, cursor := int cursor, steps := int steps, tape,
             input := (bs.take length).toArray }
  else none

def readBytes (bs : Bytes) : Except Fault Snapshot :=
  if bs.isEmpty then .error .emptyStream
  else if bs.take header.length ≠ header then .error .truncatedStream
  else
    match readFields? (bs.drop header.length) with
    | some s => .ok s
    | none => .error .truncatedStream

/-! ## Numbers -/

theorem takeNumber?_digits (n : Nat) (rest : Bytes) :
    takeNumber? (digits n ++ rest) = some (n, rest) := by
  induction n using Nat.strongRecOn with
  | ind n ih =>
      rw [digits]
      split
      next h =>
        have hn : (UInt8.ofNat n).toNat = n := UInt8.toNat_ofNat_of_lt (show n < 256 by omega)
        simp only [List.cons_append, List.nil_append, takeNumber?, hn, h, if_true]
      next h =>
        have hn : (UInt8.ofNat (n % 128 + 128)).toNat = n % 128 + 128 :=
          UInt8.toNat_ofNat_of_lt (show n % 128 + 128 < 256 by omega)
        have hhigh : ¬ n % 128 + 128 < 128 := by omega
        have hsum : n / 128 * 128 + (n % 128 + 128 - 128) = n := by omega
        simp only [List.cons_append, takeNumber?, hn, if_neg hhigh, ih (n / 128) (by omega), hsum]

theorem takeWords?_flatMap (ws : List UInt64) (acc : Array UInt64) (rest : Bytes) :
    takeWords? ws.length acc (ws.flatMap (fun v => digits v.toNat) ++ rest) =
      some (acc ++ ws, rest) := by
  induction ws generalizing acc with
  | nil => simp [takeWords?]
  | cons w ws ih =>
      rw [List.length_cons, takeWords?, List.flatMap_cons, List.append_assoc, takeNumber?_digits]
      dsimp only
      rw [ih]
      simp

/-! ## Snapshots -/

theorem readFields?_fields (s : Snapshot) : readFields? s.fields = some s := by
  have hcells := takeWords?_flatMap s.tape.toList #[] (digits s.input.size ++ s.input.toList)
  rw [Array.length_toList] at hcells
  have hlength : s.input.size ≤ s.input.toList.length := Nat.le_refl _
  have htake : s.input.toList.take s.input.size = s.input.toList :=
    List.take_of_length_le (Nat.le_refl _)
  simp only [readFields?, fields, takeNumber?_digits, hcells, Option.bind_eq_bind,
    Option.bind_some, if_pos hlength, htake, UInt64.ofNat_toNat]
  simp

theorem readBytes_write (s : Snapshot) : readBytes (header ++ s.fields) = .ok s := by
  have hne : (header ++ s.fields).isEmpty = false := by
    have : header ≠ [] := by decide
    simp [this]
  rw [readBytes, hne, List.take_left, List.drop_left, readFields?_fields]
  simp

/-- The header, and the fields behind it. -/
instance Codec.sevenBit : Codec where
  write s := header ++ s.fields
  read := readBytes
  read_write := readBytes_write

end TapeForge.Snapshot

import Hdb.Lib.Bits

/-!
# Memory

Memory as a function from addresses to bytes, with what is read of it, what is written to it and
what it holds at an address. Data written one after the other are held one behind the other
(`holdsAt_append`), and a string is what stands before the first zero.
-/

namespace Hdb

/-- The bytes read from an address on. -/
def readBytes (mem : ℕ → UInt8) (off n : ℕ) : List UInt8 :=
    (List.range n).map fun i => mem (off + i)

/-- The bytes stand at an address. -/
def HoldsAt (mem : ℕ → UInt8) (off : ℕ) (bs : List UInt8) : Prop :=
  readBytes mem off bs.length = bs

variable {mem : ℕ → UInt8} {off m n i : ℕ} {bs cs : List UInt8}

@[simp] theorem length_readBytes (mem : ℕ → UInt8) (off n : ℕ) :
    (readBytes mem off n).length = n := by
  rw [readBytes, List.length_map, List.length_range]

theorem readBytes_add (mem : ℕ → UInt8) (off m n : ℕ) :
    readBytes mem off (m + n) = readBytes mem off m ++ readBytes mem (off + m) n := by
  rw [readBytes, List.range_add, List.map_append, List.map_map, readBytes, readBytes]
  congr 1
  refine List.map_congr_left fun i _ => ?_
  rw [Function.comp_apply, Nat.add_assoc]

/-- What is held is held piece by piece. -/
theorem holdsAt_append :
    HoldsAt mem off (bs ++ cs) ↔ HoldsAt mem off bs ∧ HoldsAt mem (off + bs.length) cs := by
  rw [HoldsAt, List.length_append, readBytes_add]
  constructor
  · intro h
    exact List.append_inj h (length_readBytes _ _ _)
  · rintro ⟨hbs, hcs⟩
    exact congrArg₂ (· ++ ·) hbs hcs

theorem HoldsAt.read (h : HoldsAt mem off bs) (hn : n = bs.length) : readBytes mem off n = bs := by
  rw [hn]
  exact h

theorem HoldsAt.getElem (h : HoldsAt mem off bs) (hi : i < bs.length) : mem (off + i) = bs[i] := by
  have hget : (readBytes mem off bs.length)[i]? = bs[i]? := by rw [h]
  rw [readBytes, List.getElem?_map, List.getElem?_range hi, List.getElem?_eq_getElem hi] at hget
  exact Option.some.inj hget

/-- The bytes at the start of memory. -/
theorem holdsAt_getD (bs : List UInt8) : HoldsAt (fun i => bs.getD i 0) 0 bs := by
  refine List.ext_getElem (length_readBytes _ _ _) fun i _ hi => ?_
  simp only [readBytes, List.getElem_map, List.getElem_range, Nat.zero_add]
  exact List.getD_eq_getElem bs 0 hi

/-- Write bytes at an address. -/
def writeBytes (mem : ℕ → UInt8) (off : ℕ) (bs : List UInt8) (i : ℕ) : UInt8 :=
  if off ≤ i then (bs[i - off]?).getD (mem i) else mem i

theorem holdsAt_writeBytes (mem : ℕ → UInt8) (off : ℕ) (bs : List UInt8) :
    HoldsAt (writeBytes mem off bs) off bs := by
  refine List.ext_getElem (length_readBytes _ _ _) fun i _ hi => ?_
  simp only [readBytes, List.getElem_map, List.getElem_range]
  rw [writeBytes, if_pos (Nat.le_add_right off i), Nat.add_sub_cancel_left,
    List.getElem?_eq_getElem hi, Option.getD_some]

/-- What is held where nothing is written stays. -/
theorem HoldsAt.writeBytes {off' : ℕ} (h : HoldsAt mem off bs)
    (hapart : off + bs.length ≤ off' ∨ off' + cs.length ≤ off) :
    HoldsAt (writeBytes mem off' cs) off bs := by
  refine List.ext_getElem (length_readBytes _ _ _) fun i _ hi => ?_
  rw [← h.getElem hi]
  simp only [readBytes, List.getElem_map, List.getElem_range, Hdb.writeBytes]
  split_ifs with hle
  · have hlength : cs.length ≤ off + i - off' := by omega
    rw [List.getElem?_eq_none hlength, Option.getD_none]
  · rfl

/-- A number held with its bytes from the lowest one. -/
theorem HoldsAt.ofLittleEndian {v : ℕ} (h : HoldsAt mem off (toLittleEndian n v)) :
    Hdb.ofLittleEndian (readBytes mem off n) = v % 256 ^ n := by
  rw [h.read (length_toLittleEndian n v).symm, ofLittleEndian_toLittleEndian]

/-- A number held with its bytes from the highest one. -/
theorem HoldsAt.ofBigEndian {v : ℕ} (h : HoldsAt mem off (toBigEndian n v)) :
    Hdb.ofBigEndian (readBytes mem off n) = v % 256 ^ n := by
  rw [h.read (length_toBigEndian n v).symm, ofBigEndian_toBigEndian]

/-- The string in an array of `n` bytes. -/
def cString (n : ℕ) (mem : ℕ → UInt8) : List UInt8 := (readBytes mem 0 n).takeWhile (· != 0)

/-- A string and its terminator. -/
theorem cString_eq (hbs : HoldsAt mem 0 bs) (hzero : mem bs.length = 0) (hne : ∀ b ∈ bs, b ≠ 0)
    (hlt : bs.length < n) : cString n mem = bs := by
  obtain ⟨k, rfl⟩ := Nat.exists_eq_add_of_lt hlt
  have hpos : ∀ b ∈ bs, (b != 0) = true := fun b hb => bne_iff_ne.mpr (hne b hb)
  have hhead : readBytes mem (0 + bs.length) (k + 1) = 0 :: readBytes mem (bs.length + 1) k := by
    rw [Nat.zero_add, Nat.add_comm k 1, readBytes_add]
    exact congrArg (· :: _) hzero
  rw [cString, Nat.add_assoc, readBytes_add, hbs.read rfl, List.takeWhile_append_of_pos hpos, hhead]
  simp

end Hdb

import Hdb.AppendOnly.Visimap

/-!
# Entries of the visibility map

What the functions on one entry do: a bit is set and the others stay (`hideTuple_spec`), what is
written is read back (`writeData_spec`), and a record of the spill file is read whatever stands
before and behind it (`readStashed_record`).
-/

namespace Hdb.AppendOnly

variable {a : Bitmapset} {x y : ℕ}

/-! ## Bits -/

theorem bmsIsMember_eq (x : ℕ) (a : Bitmapset) :
    bmsIsMember x a = (a[x / 32]?.getD 0).toNat.testBit (x % 32) := by
  rw [bmsIsMember]
  split_ifs with hge
  · simp [List.getElem?_eq_none hge]
  · rfl

theorem bmsIsMember_resize (x wc : ℕ) (a : Bitmapset) :
    bmsIsMember x (bmsResize a wc) = bmsIsMember x a := by
  rw [bmsIsMember_eq, bmsIsMember_eq, bmsResize]
  split_ifs
  · rfl
  · by_cases hlt : x / 32 < a.length
    · rw [List.getElem?_append_left hlt]
    · rw [List.getElem?_append_right (by omega), List.getElem?_replicate,
        List.getElem?_eq_none (show a.length ≤ x / 32 by omega)]
      split_ifs <;> rfl

theorem length_bmsResize (a : Bitmapset) (wc : ℕ) : (bmsResize a wc).length = max a.length wc := by
  rw [bmsResize]
  split_ifs
  · omega
  · rw [List.length_append, List.length_replicate]
    omega

theorem testBit_or_bit (w : UInt32) {o p : ℕ} (ho : o < 32) :
    (w ||| UInt32.ofNat (1 <<< o)).toNat.testBit p = (w.toNat.testBit p || decide (o = p)) := by
  have hlt : 1 <<< o < 2 ^ 32 := by
    rw [Nat.one_shiftLeft]
    exact Nat.pow_lt_pow_right (by omega) ho
  rw [UInt32.toNat_or, UInt32.toNat_ofNat', Nat.mod_eq_of_lt hlt, Nat.testBit_or,
    Nat.one_shiftLeft, Nat.testBit_two_pow]

theorem bmsIsMember_addMember (a : Bitmapset) (x y : ℕ) :
    bmsIsMember y (bmsAddMember a x) = (bmsIsMember y a || decide (x = y)) := by
  rw [← bmsIsMember_resize y (x / 32 + 1) a, bmsIsMember_eq, bmsIsMember_eq, bmsAddMember,
    List.getElem?_modify]
  by_cases hword : x / 32 = y / 32
  · have hlt : y / 32 < (bmsResize a (x / 32 + 1)).length := by
      rw [length_bmsResize]
      omega
    rw [List.getElem?_eq_getElem hlt]
    simp only [Option.map_eq_map, Option.map_some, Option.getD_some, if_pos hword]
    rw [testBit_or_bit _ (Nat.mod_lt x (by omega))]
    congr 2
    exact propext (by omega)
  · have hne : x ≠ y := fun heq => hword (by rw [heq])
    simp [hword, hne]

theorem length_bmsAddMember (a : Bitmapset) (x : ℕ) :
    (bmsAddMember a x).length = max a.length (x / 32 + 1) := by
  rw [bmsAddMember, List.length_modify, length_bmsResize]

theorem not_member_of_isEmpty (h : bmsIsEmpty a) (x : ℕ) : bmsIsMember x a = false := by
  rw [bmsIsMember_eq]
  cases hget : a[x / 32]? with
  | none => simp
  | some w =>
    have hw := List.all_eq_true.mp h w (List.mem_of_getElem? hget)
    simp [eq_of_beq hw]

/-- The smaller numbers below a power of two stay below it. -/
theorem minimalSizeToCover_le {offset : ℕ} (h : offset < 32768) :
    VisimapEntry.minimalSizeToCover offset ≤ 1024 := by
  have hor : ∀ m i : ℕ, m < 2 ^ 10 → m ||| m >>> i < 2 ^ 10 := fun m i hm =>
    Nat.or_lt_two_pow hm ((Nat.shiftRight_le m i).trans_lt hm)
  have h0 : offset / 32 + 1 - 1 < 2 ^ 10 := by omega
  exact hor _ 16 (hor _ 8 (hor _ 4 (hor _ 2 (hor _ 1 h0))))

/-! ## Rows and keys -/

theorem AOTupleId.key_le (tupleId : AOTupleId) : tupleId.key.firstRowNum ≤ tupleId.rowNum :=
  Nat.div_mul_le_self _ _

/-- The place of the bit of a row. -/
def AOTupleId.bit (tupleId : AOTupleId) : ℕ := tupleId.rowNum % visimapMaxRange

theorem AOTupleId.bit_lt (tupleId : AOTupleId) : tupleId.bit < 32768 :=
  Nat.mod_lt _ (by decide)

theorem AOTupleId.eq_of_key_bit {t u : AOTupleId} (hkey : t.key = u.key) (hbit : t.bit = u.bit) :
    t = u := by
  obtain ⟨hseg, hfirst⟩ := VisimapKey.mk.inj hkey
  have hrow : t.rowNum = u.rowNum := by
    rw [← Nat.div_add_mod' t.rowNum visimapMaxRange, ← Nat.div_add_mod' u.rowNum visimapMaxRange,
      hfirst]
    exact congrArg _ hbit
  cases t
  cases u
  simp_all

variable {entry : VisimapEntry} {tupleId : AOTupleId} {key : VisimapKey}

theorem rownumOffset_eq (h : entry.key = some tupleId.key) :
    entry.rownumOffset tupleId = tupleId.bit := by
  rw [VisimapEntry.rownumOffset, h, Option.map_some, Option.getD_some, AOTupleId.bit,
    Nat.mod_eq_sub_div_mul]
  rfl

/-- An entry covers the rows that have its key. -/
theorem coversTuple_iff {t : AOTupleId} (h : entry.key = some t.key) :
    entry.coversTuple tupleId ↔ t.key = tupleId.key := by
  rw [VisimapEntry.coversTuple, h]
  dsimp only
  rw [Bool.and_eq_true, Bool.and_eq_true, beq_iff_eq, decide_eq_true_iff, decide_eq_true_iff]
  simp only [AOTupleId.key, visimapMaxRange, VisimapKey.mk.injEq]
  omega

theorem isVisible_eq (h : entry.key = some tupleId.key) :
    entry.isVisible tupleId = !bmsIsMember tupleId.bit entry.bitmap := by
  rw [VisimapEntry.isVisible, rownumOffset_eq h]
  split_ifs with hempty
  · rw [not_member_of_isEmpty hempty]
    rfl
  · rfl

/-- One bit is set, and the entry is dirty. -/
theorem hideTuple_spec (h : entry.key = some tupleId.key) (hlen : entry.bitmap.length ≤ 1024) :
    ∃ bitmap, (entry.hideTuple tupleId).2 = { entry with bitmap, dirty := true } ∧
      bitmap.length ≤ 1024 ∧
      ∀ x, bmsIsMember x bitmap = (bmsIsMember x entry.bitmap || decide (tupleId.bit = x)) := by
  have hbit := tupleId.bit_lt
  -- The bitmap after it has been enlarged.
  generalize hbitmap : (if bmsCoversMember entry.bitmap tupleId.bit then entry.bitmap
    else bmsResize entry.bitmap (VisimapEntry.minimalSizeToCover tupleId.bit)) = bitmap
  have hlen' : bitmap.length ≤ 1024 := by
    rw [← hbitmap]
    split_ifs
    · exact hlen
    · rw [length_bmsResize]
      exact max_le hlen (minimalSizeToCover_le hbit)
  have hmem : ∀ x, bmsIsMember x bitmap = bmsIsMember x entry.bitmap := by
    intro x
    rw [← hbitmap]
    split_ifs
    · rfl
    · exact bmsIsMember_resize _ _ _
  rw [VisimapEntry.hideTuple, rownumOffset_eq h]
  simp only [hbitmap]
  split_ifs with hnew hdirty
  · refine ⟨_, rfl, ?_, fun x => ?_⟩
    · rw [length_bmsAddMember]
      exact max_le hlen' (by omega)
    · rw [bmsIsMember_addMember, hmem]
  all_goals
    refine ⟨bitmap, rfl, hlen', fun x => ?_⟩
    rw [hmem]
    by_cases hx : tupleId.bit = x
    · have hset : bmsIsMember x bitmap = true := by simpa [hx] using hnew
      rw [hmem] at hset
      simp [hset]
    · simp [hx]

/-! ## Data -/

theorem varsize_toBigEndian {len : ℕ} (hlen : len < 2 ^ 30) (rest : List UInt8) :
    varsize (toBigEndian 4 (len % 2 ^ 30) ++ rest) = len := by
  rw [varsize, List.take_left' (length_toBigEndian 4 _), ofBigEndian_toBigEndian,
    Nat.mod_eq_of_lt hlen, Nat.mod_eq_of_lt (show len < 256 ^ 4 by omega), Nat.mod_eq_of_lt hlen]

/-- Data that says its own length. -/
structure Sized (data : List UInt8) : Prop where
  varsize : varsize data = data.length
  header : 8 ≤ data.length

theorem writeData_spec (entry : VisimapEntry) (hlen : entry.bitmap.length ≤ 1024) :
    ∃ data, entry.writeData = some { entry with data } ∧ Sized data ∧
      VisimapEntry.readData data = some entry.bitmap := by
  obtain ⟨compressed, hcomp, -, hle, state, hstate, hcount, hdec⟩ :=
    bitmapDecompress_compress .default (show entry.bitmap.length < 4096 by omega)
  have hheader :
      (toBigEndian 4 ((8 + compressed.length) % 2 ^ 30) ++ toLittleEndian 4 1).length = 8 := by
    simp
  refine ⟨_, by rw [VisimapEntry.writeData, hcomp]; rfl, ⟨?_, ?_⟩, ?_⟩
  · rw [List.append_assoc, varsize_toBigEndian (by omega), ← List.append_assoc, List.length_append,
      hheader]
  · rw [List.length_append, hheader]
    omega
  · rw [VisimapEntry.readData, List.drop_left' hheader, hstate, Option.bind_some]
    split_ifs with hpos
    · rw [hcount, hdec]
    · rw [hcount] at hpos
      rw [List.eq_nil_of_length_eq_zero (Nat.eq_zero_of_not_pos hpos)]

/-! ## Records -/

open VisimapDelete

/-- A record of the spill file. -/
def record (r : VisimapKey × List UInt8) : List UInt8 := keyBytes r.1 ++ r.2

@[simp] theorem length_keyBytes (key : VisimapKey) : (keyBytes key).length = 16 := by
  simp [keyBytes]

theorem readKey_keyBytes (tupleId : AOTupleId) : readKey (keyBytes tupleId.key) = tupleId.key := by
  have hseg := tupleId.segmentFileNum_lt
  have hrow := tupleId.rowNum_lt
  have hfirst := tupleId.key_le
  have hlen : (toLittleEndian 8 tupleId.key.segno).length = 8 := length_toLittleEndian 8 _
  rw [readKey, keyBytes, List.take_left' hlen, List.drop_left' hlen, ofLittleEndian_toLittleEndian,
    ofLittleEndian_toLittleEndian, Nat.mod_eq_of_lt (show tupleId.key.segno < 256 ^ 8 from
      hseg.trans (by decide)), Nat.mod_eq_of_lt (show tupleId.key.firstRowNum < 256 ^ 8 by omega)]

/-- What is read stands between what is before and behind it. -/
theorem bufFileRead_eq {file mid : List UInt8} {offset size : ℕ} (pre post : List UInt8)
    (hfile : file = pre ++ mid ++ post) (hoffset : offset = pre.length)
    (hsize : size = mid.length) :
    bufFileRead file offset size = mid := by
  rw [bufFileRead, hfile, hoffset, hsize, List.append_assoc, List.drop_left, List.take_left]

theorem bufFileRead_key (pre post : List UInt8) (r : VisimapKey × List UInt8) :
    bufFileRead (pre ++ record r ++ post) pre.length 16 = keyBytes r.1 :=
  bufFileRead_eq pre (r.2 ++ post) (by simp [record]) rfl (length_keyBytes r.1).symm

theorem readStashed_record (pre post : List UInt8) {r : VisimapKey × List UInt8} (h : Sized r.2) :
    readStashed (pre ++ record r ++ post) (pre.length + 16) = some r.2 := by
  obtain ⟨hsize, hheader⟩ := h
  have htake : (r.2.take 4).length = 4 := by
    rw [List.length_take]
    omega
  have hsplit : r.2.take 4 ++ r.2.drop 4 = r.2 := List.take_append_drop 4 r.2
  have hfirst : bufFileRead (pre ++ record r ++ post) (pre.length + 16) 4 = r.2.take 4 :=
    bufFileRead_eq (pre ++ keyBytes r.1) (r.2.drop 4 ++ post)
      (by
        rw [record, List.append_assoc _ (r.2.take 4), ← List.append_assoc (r.2.take 4), hsplit]
        simp)
      (by simp) htake.symm
  have hsecond : bufFileRead (pre ++ record r ++ post) (pre.length + 16 + 4) (r.2.length - 4) =
      r.2.drop 4 :=
    bufFileRead_eq (pre ++ keyBytes r.1 ++ r.2.take 4) post
      (by rw [record, List.append_assoc _ (r.2.take 4), hsplit]; simp)
      (by simp [htake]) (List.length_drop).symm
  have hlen : varsize (r.2.take 4) = r.2.length := by
    rw [← hsize, varsize, varsize, List.take_take]
    rfl
  rw [readStashed, hfirst]
  simp only [hlen, hsecond, hsplit]
  rw [if_neg (by rw [htake]; simp), if_neg (by rw [List.length_drop]; simp)]

end Hdb.AppendOnly

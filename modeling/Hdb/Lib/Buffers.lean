import Hdb.Lib.Bits

/-!
# Buffers

Reads and writes at a place of a list, and tables of numbers of a fixed width. A list that is
written as what stands before, at and behind the place is read and written by `readAt_append` and
`writeAt_append`.
-/

namespace Hdb

variable {α : Type*} {l pre mid post new : List α} {offset size : ℕ}

/-- What stands at a place. -/
def readAt (offset size : ℕ) (l : List α) : List α := (l.drop offset).take size

def writeAt (offset : ℕ) (new l : List α) : List α :=
  l.take offset ++ new ++ l.drop (offset + new.length)

theorem readAt_append (pre mid post : List α) (hoffset : offset = pre.length)
    (hsize : size = mid.length) : readAt offset size (pre ++ mid ++ post) = mid := by
  rw [readAt, hoffset, hsize, List.append_assoc, List.drop_left, List.take_left]

theorem writeAt_append (pre mid post : List α) (hoffset : offset = pre.length)
    (hsize : new.length = mid.length) :
    writeAt offset new (pre ++ mid ++ post) = pre ++ new ++ post := by
  rw [writeAt, hoffset, hsize, ← List.length_append, List.drop_left, List.append_assoc pre,
    List.take_left]

/-- Writing where there is room. -/
theorem writeAt_right (pre post : List α) (hoffset : offset = pre.length)
    (hle : new.length ≤ post.length) :
    writeAt offset new (pre ++ post) = pre ++ new ++ post.drop new.length := by
  have hsplit : pre ++ post = pre ++ post.take new.length ++ post.drop new.length := by
    rw [List.append_assoc, List.take_append_drop]
  rw [hsplit, writeAt_append _ _ _ hoffset (by rw [List.length_take, min_eq_left hle])]

theorem length_writeAt (hle : offset + new.length ≤ l.length) :
    (writeAt offset new l).length = l.length := by
  rw [writeAt, List.length_append, List.length_append, List.length_take, List.length_drop,
    min_eq_left (by omega)]
  omega

/-- What is read from the first elements. -/
theorem readAt_take {n : ℕ} (hle : offset + size ≤ n) :
    readAt offset size (l.take n) = readAt offset size l := by
  rw [readAt, readAt, List.drop_take, List.take_take, min_eq_left (by omega)]

/-- What is read beside the place that is written. -/
theorem readAt_writeAt_of_apart {offset' : ℕ} (hle : offset + new.length ≤ l.length)
    (hapart : offset' + size ≤ offset ∨ offset + new.length ≤ offset') :
    readAt offset' size (writeAt offset new l) = readAt offset' size l := by
  have hfront : (l.take offset).length = offset := by
    rw [List.length_take, min_eq_left (by omega)]
  refine List.ext_getElem? fun i => ?_
  rw [readAt, readAt, List.getElem?_take, List.getElem?_take, List.getElem?_drop,
    List.getElem?_drop]
  split_ifs with hi
  · rw [writeAt]
    obtain hbefore | hbehind := hapart
    · rw [List.append_assoc, List.getElem?_append_left (by omega), List.getElem?_take,
        if_pos (by omega)]
    · have hlength : (l.take offset ++ new).length = offset + new.length := by
        rw [List.length_append, hfront]
      rw [List.getElem?_append_right (by omega), hlength, List.getElem?_drop]
      congr 1
      omega
  · rfl

/-- What is read at the place that is written. -/
theorem readAt_writeAt_self (hle : offset ≤ l.length) :
    readAt offset new.length (writeAt offset new l) = new :=
  readAt_append _ _ _ (by rw [List.length_take, min_eq_left hle]) rfl

/-! ## Tables of numbers -/

/-- Numbers of `w` bytes, one behind the other. -/
def tableBytes (w : ℕ) (ns : List ℕ) : List UInt8 := ns.flatMap (toLittleEndian w)

variable {w : ℕ} {ns ms : List ℕ} {i : ℕ}

@[simp] theorem length_tableBytes (w : ℕ) (ns : List ℕ) :
    (tableBytes w ns).length = w * ns.length := by
  induction ns with
  | nil => rfl
  | cons n ns ih =>
    rw [tableBytes] at ih ⊢
    rw [List.flatMap_cons, List.length_append, ih, length_toLittleEndian, List.length_cons]
    ring

theorem tableBytes_append (w : ℕ) (ns ms : List ℕ) :
    tableBytes w (ns ++ ms) = tableBytes w ns ++ tableBytes w ms := List.flatMap_append ..

theorem tableBytes_singleton (w n : ℕ) : tableBytes w [n] = toLittleEndian w n := by
  simp [tableBytes]

/-- The bytes of a number of the table. -/
theorem readAt_tableBytes (pre post : List UInt8) (hoffset : offset = pre.length + w * i)
    (hi : i < ns.length) :
    readAt offset w (pre ++ tableBytes w ns ++ post) = toLittleEndian w ns[i] := by
  have hsplit : ns = ns.take i ++ [ns[i]] ++ ns.drop (i + 1) := by
    rw [List.append_assoc, List.singleton_append, List.getElem_cons_drop, List.take_append_drop]
  have hbytes : pre ++ tableBytes w ns ++ post =
      pre ++ tableBytes w (ns.take i) ++ toLittleEndian w ns[i] ++
        (tableBytes w (ns.drop (i + 1)) ++ post) := by
    conv_lhs => rw [hsplit, tableBytes_append, tableBytes_append, tableBytes_singleton]
    simp only [List.append_assoc]
  rw [hbytes]
  refine readAt_append _ _ _ ?_ (length_toLittleEndian w _).symm
  rw [hoffset, List.length_append, length_tableBytes, List.length_take, min_eq_left hi.le]

end Hdb

import Hdb.MemTuple.FormSizeLayout

/-!
# Which binding a row is written with

`rowSize` is the size of a row without wrapping. The size by the large binding is at least the one
by the short binding, unless no value of variable length stands in the row and one byte of padding
is saved just at the limit; and a row beyond 4 GB can wrap around in one of the two sizes only.
-/

namespace Hdb.MemTuple

variable {islarge : Bool} {tupdesc : TupleDesc} {values : ℕ → VarDatum} {isnull : ℕ → Bool}

/-- The header and the null bitmap. -/
def rowHeaderSize (tupdesc : TupleDesc) (isnull : ℕ → Bool) : ℕ :=
  (if tupdesc.natts ≠ 0 then (colBindInit tupdesc (columnAlignOf tupdesc)).curOffset else 8) +
    if rowHasnull tupdesc isnull then
      computeNullBitmapExtraSize tupdesc (columnAlignOf tupdesc) else 0

/-- The padded lengths of the columns that are not NULL. -/
def paddedSize (islarge : Bool) (tupdesc : TupleDesc) (isnull : ℕ → Bool) : ℕ :=
  keptSize islarge (fun i => !isnull i) .char (physicalCols islarge tupdesc)

def fixedSize (islarge : Bool) (tupdesc : TupleDesc) (isnull : ℕ → Bool) : ℕ :=
  rowHeaderSize tupdesc isnull + paddedSize islarge tupdesc isnull

/-- The size of a row, which may exceed 32 bits. -/
def rowSize (islarge : Bool) (tupdesc : TupleDesc) (values : ℕ → VarDatum) (isnull : ℕ → Bool) :
    ℕ :=
  typeAlign 8
    (tupdesc.attrs.zipIdx.foldl (placeValue values isnull) (fixedSize islarge tupdesc isnull))

/-! ## The computed sizes -/

theorem isnull_of_not_hasnull (h : ¬ rowHasnull tupdesc isnull) {i : ℕ} (hi : i < tupdesc.natts) :
    isnull i = false := by
  rw [rowHasnull, List.any_eq_true] at h
  push Not at h
  exact Bool.eq_false_iff.mpr (h i (List.mem_range.mpr hi))

theorem computeSize_eq (islarge : Bool) (tupdesc : TupleDesc) (values : ℕ → VarDatum)
    (isnull : ℕ → Bool) :
    (computeMemtupleSizeUsingBind values isnull (rowHasnull tupdesc isnull)
      (computeNullBitmapExtraSize tupdesc (columnAlignOf tupdesc))
      (createColBind islarge tupdesc (columnAlignOf tupdesc)) tupdesc).1 =
      castUInt32 (rowSize islarge tupdesc values isnull) := by
  have hfixed : (if rowHasnull tupdesc isnull then
      (List.range tupdesc.natts).foldl
        (saveNull (createColBind islarge tupdesc (columnAlignOf tupdesc)) isnull)
        (castUInt32 ((createColBind islarge tupdesc (columnAlignOf tupdesc)).varStart +
          computeNullBitmapExtraSize tupdesc (columnAlignOf tupdesc)), 0)
      else (castUInt32 (createColBind islarge tupdesc (columnAlignOf tupdesc)).varStart, 0)).1 =
      castUInt32 (fixedSize islarge tupdesc isnull) := by
    have hsplit : keptSize islarge (fun _ => true) .char (physicalCols islarge tupdesc) =
        keptSize islarge (fun i => !isnull i) .char (physicalCols islarge tupdesc) +
          keptSize islarge isnull .char (physicalCols islarge tupdesc) :=
      (keptSize_split (fun i => !isnull i) _).trans (by simp only [Bool.not_not])
    have hstart := varStart_eq islarge tupdesc
    rw [hsplit] at hstart
    rw [fixedSize, rowHeaderSize, paddedSize]
    by_cases hnull : rowHasnull tupdesc isnull
    · rw [if_pos hnull, if_pos hnull]
      have hsaved := foldl_saveNull (createColBind islarge tupdesc (columnAlignOf tupdesc)) isnull
        (List.range tupdesc.natts) (castUInt32
          ((createColBind islarge tupdesc (columnAlignOf tupdesc)).varStart +
            computeNullBitmapExtraSize tupdesc (columnAlignOf tupdesc)), 0)
      rw [← foldl_saveNull_lt _ _ _ (Nat.mod_mod _ _)]
      rw [nullSaved_eq, hstart] at hsaved
      simp only [castUInt32] at hsaved ⊢
      rw [hstart]
      omega
    · have hnone : keptSize islarge isnull .char (physicalCols islarge tupdesc) = 0 := by
        refine keptSize_none fun col hcol => isnull_of_not_hasnull hnull ?_
        exact (List.getElem?_eq_some_iff.mp (mem_physicalCols.mp hcol)).1
      rw [if_neg hnull, if_neg hnull, hstart, hnone]
      rfl
  rw [computeMemtupleSizeUsingBind]
  dsimp only
  rw [hfixed, foldl_addValue _ _ (List.Subset.refl _), rowSize]
  simp only [castUInt32, typeAlign]
  omega

/-! ## The variable part -/

theorem attAlignNominal_le {x y : ℕ} (h : x ≤ y) (align : AttAlign) :
    attAlignNominal x align ≤ attAlignNominal y align :=
  Nat.mul_le_mul_right _ (Nat.div_le_div_right (Nat.add_le_add_right h _))

theorem placeValue_le {x y : ℕ} (h : x ≤ y) (col : PhysCol) :
    placeValue values isnull x col ≤ placeValue values isnull y col := by
  have halign := attAlignNominal_le h col.1.attalign
  have hx := attAddlengthDatum_eq (attAlignNominal x col.1.attalign) col.1.attlen (values col.2)
  have hy := attAddlengthDatum_eq (attAlignNominal y col.1.attalign) col.1.attlen (values col.2)
  rw [placeValue, placeValue]
  split_ifs
  · omega
  · omega
  · exact h

/-- Eight more bytes are eight more behind the value. -/
theorem placeValue_add (x : ℕ) {d : ℕ} (hd : 8 ∣ d) (col : PhysCol) :
    placeValue values isnull (x + d) col = placeValue values isnull x col + d := by
  have hdvd : col.1.attalign.bytes ∣ d :=
    Dvd.dvd.trans (by cases col.1.attalign <;> decide) hd
  have halign : attAlignNominal (x + d) col.1.attalign = attAlignNominal x col.1.attalign + d := by
    rw [Nat.add_comm x d, attAlignNominal_add x hdvd, Nat.add_comm]
  have hx := attAddlengthDatum_eq (attAlignNominal x col.1.attalign) col.1.attlen (values col.2)
  have hy := attAddlengthDatum_eq (attAlignNominal x col.1.attalign + d) col.1.attlen (values col.2)
  rw [placeValue, placeValue, halign]
  split_ifs <;> omega

theorem foldl_placeValue_le (cols : List PhysCol) {x y : ℕ} (h : x ≤ y) :
    cols.foldl (placeValue values isnull) x ≤ cols.foldl (placeValue values isnull) y := by
  induction cols generalizing x y with
  | nil => exact h
  | cons col cols ih => exact ih (placeValue_le h col)

theorem foldl_placeValue_add (cols : List PhysCol) (x : ℕ) {d : ℕ} (hd : 8 ∣ d) :
    cols.foldl (placeValue values isnull) (x + d) =
      cols.foldl (placeValue values isnull) x + d := by
  induction cols generalizing x with
  | nil => rfl
  | cons col cols ih => rw [List.foldl_cons, placeValue_add x hd, ih, List.foldl_cons]

/-- No value of variable length stands in the row. -/
def NoVarValue (tupdesc : TupleDesc) (isnull : ℕ → Bool) : Prop :=
  ∀ col ∈ tupdesc.attrs.zipIdx, ¬ hasVarPart isnull col

theorem foldl_placeValue_none {cols : List PhysCol} (h : ∀ col ∈ cols, ¬ hasVarPart isnull col)
    (x : ℕ) : cols.foldl (placeValue values isnull) x = x := by
  induction cols generalizing x with
  | nil => rfl
  | cons col cols ih =>
    rw [List.foldl_cons, placeValue, if_neg (h col List.mem_cons_self)]
    exact ih (fun c hc => h c (List.mem_cons_of_mem col hc)) x

theorem keptVars_pos (h : ¬ NoVarValue tupdesc isnull) :
    0 < keptVars (fun i => !isnull i) tupdesc.attrs.zipIdx := by
  rw [NoVarValue] at h
  push Not at h
  obtain ⟨col, hcol, hvar⟩ := h
  refine List.countP_pos_iff.mpr ⟨col, hcol, ?_⟩
  rw [hasVarPart, decide_eq_true_eq] at hvar
  rw [decide_eq_true_eq]
  exact ⟨by simpa using hvar.1, hvar.2⟩

/-! ## The limit -/

theorem fixedSize_short_le (tupdesc : TupleDesc) (isnull : ℕ → Bool) :
    fixedSize false tupdesc isnull + 2 * keptVars (fun i => !isnull i) tupdesc.attrs.zipIdx ≤
      fixedSize true tupdesc isnull + 1 := by
  have h := keptSize_short_le (fun i => !isnull i) tupdesc
  rw [fixedSize, fixedSize, paddedSize, paddedSize]
  omega

theorem fixedSize_large_le (tupdesc : TupleDesc) (isnull : ℕ → Bool) :
    fixedSize true tupdesc isnull ≤ fixedSize false tupdesc isnull + 14976 := by
  have h := keptSize_large_le (fun i => !isnull i) tupdesc
  have hnatts : tupdesc.natts ≤ 1664 := tupdesc.natts_le
  rw [fixedSize, fixedSize, paddedSize, paddedSize]
  omega

theorem columnAlignOf_le (tupdesc : TupleDesc) : columnAlignOf tupdesc ≤ 8 := by
  have hfold : ∀ (attrs : List FormPgAttribute) (n : ℕ), n ≤ 8 →
      attrs.foldl (fun columnAlign attr =>
        if attr.attlen > 0 ∧ attr.attalign = .double then 8 else columnAlign) n ≤ 8 := by
    intro attrs
    induction attrs with
    | nil => exact fun n h => h
    | cons attr attrs ih =>
      intro n h
      refine ih _ ?_
      dsimp only
      split_ifs
      · exact le_rfl
      · exact h
  exact hfold tupdesc.attrs 4 (by decide)

theorem computeNullBitmapExtraSize_le (tupdesc : TupleDesc) :
    computeNullBitmapExtraSize tupdesc (columnAlignOf tupdesc) ≤ 216 := by
  have halign := columnAlignOf_le tupdesc
  have hnatts : tupdesc.natts ≤ 1664 := tupdesc.natts_le
  have hbytes : (tupdesc.natts + 7) >>> 3 = (tupdesc.natts + 7) / 8 := Nat.shiftRight_eq_div_pow _ 3
  have htype : ∀ len, typeAlign (columnAlignOf tupdesc) len ≤ len + (columnAlignOf tupdesc - 1) :=
    fun len => Nat.div_mul_le_self _ _
  rw [computeNullBitmapExtraSize, hbytes]
  split_ifs with hoid
  · exact Nat.zero_le _
  · have hle := htype ((tupdesc.natts + 7) / 8 - 0)
    omega
  · exact Nat.zero_le _
  · have hle := htype ((tupdesc.natts + 7) / 8 - 4)
    omega

theorem fixedSize_lt (islarge : Bool) (tupdesc : TupleDesc) (isnull : ℕ → Bool) :
    fixedSize islarge tupdesc isnull < 4000000000 := by
  have h := keptSize_bound islarge (fun i => !isnull i) tupdesc
  have hnatts : tupdesc.natts ≤ 1664 := tupdesc.natts_le
  have hstart : (if tupdesc.natts ≠ 0 then (colBindInit tupdesc (columnAlignOf tupdesc)).curOffset
      else 8) ≤ 8 := by
    split_ifs
    · exact ite_le_sup _ _ _
    · exact le_rfl
  have hextra := computeNullBitmapExtraSize_le tupdesc
  rw [fixedSize, rowHeaderSize, paddedSize]
  split_ifs at hstart ⊢ <;> omega

/-- A byte of padding that the columns need only in the short order lifts them over the limit, and
no value of variable length is there to make the row longer in the large order. -/
def PaddedOver (tupdesc : TupleDesc) (isnull : ℕ → Bool) : Prop :=
  NoVarValue tupdesc isnull ∧
    rowHeaderSize tupdesc isnull + paddedSize false tupdesc isnull = MEMTUPLE_LEN_FITSHORT + 1 ∧
    paddedSize true tupdesc isnull + 1 = paddedSize false tupdesc isnull

/-- The sizes without wrapping are on the same side of every multiple of 4 GB. -/
def WrapAlike (tupdesc : TupleDesc) (values : ℕ → VarDatum) (isnull : ℕ → Bool) : Prop :=
  rowSize false tupdesc values isnull / 4294967296 = rowSize true tupdesc values isnull / 4294967296

/-- The size by the short binding does not fit it, the one by the large binding does. -/
theorem misfit_iff (tupdesc : TupleDesc) (values : ℕ → VarDatum) (isnull : ℕ → Bool) :
    MEMTUPLE_LEN_FITSHORT < castUInt32 (rowSize false tupdesc values isnull) ∧
        castUInt32 (rowSize true tupdesc values isnull) ≤ MEMTUPLE_LEN_FITSHORT ↔
      PaddedOver tupdesc isnull ∨ ¬ WrapAlike tupdesc values isnull := by
  have hshort := fixedSize_short_le tupdesc isnull
  have hlarge := fixedSize_large_le tupdesc isnull
  rw [PaddedOver, WrapAlike, rowSize, rowSize]
  by_cases hvar : NoVarValue tupdesc isnull
  · have hlt := fixedSize_lt false tupdesc isnull
    have hlt' := fixedSize_lt true tupdesc isnull
    rw [foldl_placeValue_none hvar, foldl_placeValue_none hvar]
    rw [fixedSize] at hshort hlarge hlt hlt'
    rw [fixedSize] at hshort hlarge
    rw [fixedSize, fixedSize]
    simp only [hvar, true_and, typeAlign, castUInt32, MEMTUPLE_LEN_FITSHORT]
    omega
  · have hpos := keptVars_pos hvar
    have hle : fixedSize false tupdesc isnull ≤ fixedSize true tupdesc isnull := by omega
    have hmono := @foldl_placeValue_le values isnull tupdesc.attrs.zipIdx _ _ hle
    have hmono' := @foldl_placeValue_le values isnull tupdesc.attrs.zipIdx _ _ hlarge
    rw [foldl_placeValue_add _ _ (by decide)] at hmono'
    simp only [hvar, false_and, false_or, typeAlign, castUInt32, MEMTUPLE_LEN_FITSHORT]
    omega

/-- The choice of a binding for a row. -/
structure BindingConsistent (tupdesc : TupleDesc) (values : ℕ → VarDatum) (isnull : ℕ → Bool) :
    Prop where
  /-- The assertion in `compute_memtuple_size`. -/
  assertion :
    let pbind := createMemtupleBinding tupdesc
    let hasnull := rowHasnull tupdesc isnull
    (computeMemtupleSizeUsingBind values isnull hasnull pbind.nullBitmapExtraSize pbind.bind
      tupdesc).1 > MEMTUPLE_LEN_FITSHORT →
    (computeMemtupleSizeUsingBind values isnull hasnull pbind.nullBitmapExtraSize pbind.largeBind
      tupdesc).1 > MEMTUPLE_LEN_FITSHORT
  colbind :
    (memtupleFormHeader (createMemtupleBinding tupdesc) values isnull).colbind
      (createMemtupleBinding tupdesc) =
    sizedBind (createMemtupleBinding tupdesc) values isnull

/-- **When the choice of a binding is consistent.** For every tuple descriptor and every row. -/
theorem binding_consistent_iff (tupdesc : TupleDesc) (values : ℕ → VarDatum) (isnull : ℕ → Bool) :
    BindingConsistent tupdesc values isnull ↔
      ¬ PaddedOver tupdesc isnull ∧ WrapAlike tupdesc values isnull := by
  have hmisfit := misfit_iff tupdesc values isnull
  rw [← computeSize_eq, ← computeSize_eq] at hmisfit
  constructor
  · rintro ⟨hassert, -⟩
    rw [← not_not (a := WrapAlike tupdesc values isnull), ← not_or, ← hmisfit]
    rintro ⟨hover, hfits⟩
    exact (hassert hover).not_ge hfits
  · rintro ⟨hpadded, hwrap⟩
    have hassert : (computeMemtupleSizeUsingBind values isnull (rowHasnull tupdesc isnull)
          (createMemtupleBinding tupdesc).nullBitmapExtraSize (createMemtupleBinding tupdesc).bind
          tupdesc).1 > MEMTUPLE_LEN_FITSHORT →
        (computeMemtupleSizeUsingBind values isnull (rowHasnull tupdesc isnull)
          (createMemtupleBinding tupdesc).nullBitmapExtraSize
          (createMemtupleBinding tupdesc).largeBind tupdesc).1 > MEMTUPLE_LEN_FITSHORT := by
      intro hover
      by_contra hfits
      exact (hmisfit.mp ⟨hover, not_lt.mp hfits⟩).elim hpadded (· hwrap)
    refine ⟨hassert, ?_⟩
    have htupdesc : (createMemtupleBinding tupdesc).tupdesc = tupdesc := rfl
    rw [FormedHeader.colbind, memtupleFormHeader, sizedBind, computeMemtupleSize, htupdesc]
    dsimp only
    by_cases hfits : (computeMemtupleSizeUsingBind values isnull (rowHasnull tupdesc isnull)
        (createMemtupleBinding tupdesc).nullBitmapExtraSize (createMemtupleBinding tupdesc).bind
        tupdesc).1 ≤ MEMTUPLE_LEN_FITSHORT
    · rw [if_pos hfits, if_neg (by rw [decide_eq_true_eq]; exact hfits.not_gt), if_pos hfits]
    · rw [if_neg hfits, if_pos (decide_eq_true (hassert (not_le.mp hfits))), if_neg hfits]

theorem attlen_varlena : 1 ≤ (-1 : ℤ) ∧ (-1 : ℤ) ≤ 32767 ∨ (-1 : ℤ) = -1 ∨ (-1 : ℤ) = -2 :=
  .inr (.inl rfl)

/-- A type of three bytes aligned to two, `text`, and two types of many bytes. -/
def oddBeforeText : List FormPgAttribute :=
  [⟨3, .short, false, false, .plain, 20000, attlen_of_pos (by decide)⟩,
    ⟨-1, .int, false, false, .extended, 25, attlen_varlena⟩,
    ⟨32767, .char, false, false, .plain, 20001, attlen_of_pos (by decide)⟩,
    ⟨32742, .char, false, false, .plain, 20002, attlen_of_pos (by decide)⟩]

theorem natts_oddBeforeText : oddBeforeText.length ≤ 1664 := by decide

/-- With the text NULL, the short fixed part has 65521 bytes and the large one 65520. -/
theorem binding_not_consistent : ¬ BindingConsistent ⟨oddBeforeText, false, natts_oddBeforeText⟩
    (fun _ => ⟨.short 0, 0⟩) (fun i => i = 1) := by
  intro h
  have hlarge := h.assertion (by decide)
  revert hlarge
  decide

end Hdb.MemTuple

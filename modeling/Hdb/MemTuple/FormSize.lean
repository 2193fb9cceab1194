import Hdb.MemTuple.Misaligned

/-!
# The size of a memory tuple

`compute_memtuple_size` computes the size of a row by the short binding, and by the large one if
that is too much for it. `memtuple_form_to` and every reader take the short binding if the size fits
it, so the size by the large binding must not fit where the size by the short one does not.

Sizes are `uint32` numbers, which wrap around.
-/

namespace Hdb.MemTuple

def MEMTUPLE_LEN_FITSHORT : ℕ := 0xFFF0

/-- Conversion to `uint32`. -/
def castUInt32 (n : ℕ) : ℕ := n % 4294967296

/-- The header of a varlena, with the bytes behind it. -/
inductive Varlena
  | external (tagSize : ℕ)
  | short (len : ℕ)
  | uncompressed (len : ℕ)
  | compressed (len : ℕ)

/-- What a pointer to a value of variable length points to, as a varlena and as a C string. -/
structure VarDatum where
  varlena : Varlena
  strlen : ℕ

def varsizeAny : Varlena → ℕ
  | .external tagSize => 4 + tagSize
  | .short len => 1 + len
  | .uncompressed len => 4 + len
  | .compressed len => 4 + len

def varsizeAnyExhdr : Varlena → ℕ
  | .external tagSize => tagSize
  | .short len => len
  | .uncompressed len => len
  | .compressed len => len

def valueTypeCouldShort (varlena : Varlena) (typid : ℕ) : Bool :=
  match varlena with
  | .external _ => false
  | .short _ => true
  | .uncompressed len => len + 1 ≤ 0x7F ∧ typid ≠ 22 ∧ typid ≠ 30 ∧ typid < 16384
  | .compressed _ => false

/-- Take the aligned length of a NULL column off `data_length`, and add it to `nullsaves`. -/
def saveNull (colbind : MemTupleBindingCols) (isnull : ℕ → Bool) (st : ℕ × ℕ) (i : ℕ) : ℕ × ℕ :=
  if isnull i then
    let len := (colbind.bindings i).lenAligned
    (castUInt32 (st.1 + (4294967296 - castUInt32 len)), castUInt32 (st.2 + len))
  else st

def attAddlengthDatum (curOffset : ℕ) (attlen : ℤ) (datum : VarDatum) : ℕ :=
  if attlen > 0 then curOffset + attlen.toNat
  else if attlen = -1 then curOffset + varsizeAny datum.varlena
  else curOffset + (datum.strlen + 1)

/-- Add the value of a column of variable length. -/
def addValue (colbind : MemTupleBindingCols) (values : ℕ → VarDatum) (isnull : ℕ → Bool)
    (dataLength : ℕ) (col : FormPgAttribute × ℕ) : ℕ :=
  let bind := colbind.bindings col.2
  let attr := col.1
  if isnull col.2 ∨ bind.flag = .byValNative ∨ bind.flag = .byValPtr then dataLength
  else if bind.flag = .byRef ∧ attr.attstorage ≠ .plain ∧
      valueTypeCouldShort (values col.2).varlena attr.atttypid then
    castUInt32 (dataLength + (varsizeAnyExhdr (values col.2).varlena + 1))
  else
    let dataLength := castUInt32 (attAlignNominal dataLength attr.attalign)
    castUInt32 (attAddlengthDatum dataLength attr.attlen (values col.2))

/-- The size and `nullsaves`. -/
def computeMemtupleSizeUsingBind (values : ℕ → VarDatum) (isnull : ℕ → Bool) (hasnull : Bool)
    (nullbitExtra : ℕ) (colbind : MemTupleBindingCols) (tupdesc : TupleDesc) : ℕ × ℕ :=
  let st :=
    if hasnull then
      (List.range tupdesc.natts).foldl (saveNull colbind isnull)
        (castUInt32 (colbind.varStart + nullbitExtra), 0)
    else (castUInt32 colbind.varStart, 0)
  let dataLength := tupdesc.attrs.zipIdx.foldl (addValue colbind values isnull) st.1
  (castUInt32 (typeAlign 8 dataLength), st.2)

def computeMemtupleSize (pbind : MemTupleBinding) (values : ℕ → VarDatum) (isnull : ℕ → Bool)
    (hasnull : Bool) : ℕ × ℕ :=
  let r := computeMemtupleSizeUsingBind values isnull hasnull pbind.nullBitmapExtraSize pbind.bind
    pbind.tupdesc
  if r.1 ≤ MEMTUPLE_LEN_FITSHORT then r
  else
    computeMemtupleSizeUsingBind values isnull hasnull pbind.nullBitmapExtraSize pbind.largeBind
      pbind.tupdesc

/-- What `memtuple_form_to` says in the first word about a row, which has its dropped columns
NULL. -/
structure FormedHeader where
  len : ℕ
  islarge : Bool
  hasnull : Bool

def rowHasnull (tupdesc : TupleDesc) (isnull : ℕ → Bool) : Bool :=
    (List.range tupdesc.natts).any isnull

def memtupleFormHeader (pbind : MemTupleBinding) (values : ℕ → VarDatum) (isnull : ℕ → Bool) :
    FormedHeader :=
  let hasnull := rowHasnull pbind.tupdesc isnull
  let len := (computeMemtupleSize pbind values isnull hasnull).1
  ⟨len, len > MEMTUPLE_LEN_FITSHORT, hasnull⟩

/-- The binding by which a row is written and read. -/
def FormedHeader.colbind (header : FormedHeader) (pbind : MemTupleBinding) : MemTupleBindingCols :=
  if header.islarge then pbind.largeBind else pbind.bind

/-- The binding by which the size of a row is computed in the end. -/
def sizedBind (pbind : MemTupleBinding) (values : ℕ → VarDatum) (isnull : ℕ → Bool) :
    MemTupleBindingCols :=
  if (computeMemtupleSizeUsingBind values isnull (rowHasnull pbind.tupdesc isnull)
      pbind.nullBitmapExtraSize pbind.bind pbind.tupdesc).1 ≤ MEMTUPLE_LEN_FITSHORT then pbind.bind
  else pbind.largeBind

/-! ## Sizes without wrapping -/

variable {tupdesc : TupleDesc} {values : ℕ → VarDatum} {isnull : ℕ → Bool} {islarge : Bool}

/-- The value has a place behind the fixed part. -/
def hasVarPart (isnull : ℕ → Bool) (col : PhysCol) : Bool := ¬ isnull col.2 ∧ col.1.attlen < 0

/-- A value of variable length behind `n` bytes. -/
def placeValue (values : ℕ → VarDatum) (isnull : ℕ → Bool) (n : ℕ) (col : PhysCol) : ℕ :=
  if hasVarPart isnull col then
    if col.1.attlen = -1 ∧ col.1.attstorage ≠ .plain ∧
        valueTypeCouldShort (values col.2).varlena col.1.atttypid then
      n + (varsizeAnyExhdr (values col.2).varlena + 1)
    else attAddlengthDatum (attAlignNominal n col.1.attalign) col.1.attlen (values col.2)
  else n

theorem castUInt32_castUInt32_add (n m : ℕ) : castUInt32 (castUInt32 n + m) = castUInt32 (n + m) :=
  Nat.mod_add_mod n _ m

theorem castUInt32_attAlign (n : ℕ) (align : AttAlign) :
    castUInt32 (attAlignNominal (castUInt32 n) align) = castUInt32 (attAlignNominal n align) := by
  cases align <;> simp only [castUInt32, attAlignNominal, AttAlign.bytes] <;> omega

theorem attAddlengthDatum_eq (n : ℕ) (attlen : ℤ) (datum : VarDatum) :
    attAddlengthDatum n attlen datum = n + attAddlengthDatum 0 attlen datum := by
  simp only [attAddlengthDatum]
  split_ifs <;> omega

theorem flag_byVal (attr : FormPgAttribute) :
    colFlag attr = .byValNative ∨ colFlag attr = .byValPtr ↔ ¬ attr.attlen < 0 := by
  have hlen := attr.attlen_ok
  rw [colFlag, byRefFlag, byValFlag]
  split_ifs with hpos hval href
  · simp
    omega
  · simp
    omega
  · simp
    omega
  · simp
    omega

theorem flag_byRef (attr : FormPgAttribute) : colFlag attr = .byRef ↔ attr.attlen = -1 := by
  have hlen := attr.attlen_ok
  rw [colFlag, byRefFlag, byValFlag]
  split_ifs with hpos hval href
  · simp
    omega
  · simp
    omega
  · simp [href]
  · simp [href]

theorem addValue_cast (colAlign : ℕ) {col : PhysCol} (hcol : col ∈ tupdesc.attrs.zipIdx) (n : ℕ) :
    addValue (createColBind islarge tupdesc colAlign) values isnull (castUInt32 n) col =
      castUInt32 (placeValue values isnull n col) := by
  have hflag := (createColBind_spec islarge tupdesc colAlign).flag col
    ((physicalCols_perm islarge tupdesc).mem_iff.mpr hcol)
  simp only [addValue, placeValue, hflag, flag_byVal, flag_byRef]
  by_cases hvar : hasVarPart isnull col
  · have hvar' := hvar
    rw [hasVarPart, decide_eq_true_eq] at hvar'
    rw [if_neg (by rw [not_or, not_not]; exact hvar'), if_pos hvar]
    split_ifs with hshort
    · exact castUInt32_castUInt32_add _ _
    · rw [attAddlengthDatum_eq, castUInt32_castUInt32_add, ← castUInt32_castUInt32_add,
        castUInt32_attAlign, castUInt32_castUInt32_add, ← attAddlengthDatum_eq]
  · rw [if_neg hvar, if_pos]
    rw [hasVarPart, decide_eq_true_eq, not_and_or, not_not] at hvar
    exact hvar

theorem foldl_addValue (colAlign : ℕ) (cols : List PhysCol) (hcols : cols ⊆ tupdesc.attrs.zipIdx)
    (n : ℕ) :
    cols.foldl (addValue (createColBind islarge tupdesc colAlign) values isnull) (castUInt32 n) =
      castUInt32 (cols.foldl (placeValue values isnull) n) := by
  induction cols generalizing n with
  | nil => rfl
  | cons col cols ih =>
    rw [List.foldl_cons, List.foldl_cons, addValue_cast colAlign (hcols List.mem_cons_self)]
    exact ih (fun c hc => hcols (List.mem_cons_of_mem col hc)) _

/-- What the NULL columns save. -/
def nullSaved (colbind : MemTupleBindingCols) (isnull : ℕ → Bool) (cols : List ℕ) : ℕ :=
  (cols.map fun i => if isnull i then (colbind.bindings i).lenAligned else 0).sum

theorem foldl_saveNull (colbind : MemTupleBindingCols) (isnull : ℕ → Bool) (cols : List ℕ)
    (st : ℕ × ℕ) :
    castUInt32 ((cols.foldl (saveNull colbind isnull) st).1 + nullSaved colbind isnull cols) =
      castUInt32 st.1 := by
  induction cols generalizing st with
  | nil => rfl
  | cons i cols ih =>
    have hrest := ih (saveNull colbind isnull st i)
    have hstep : castUInt32 ((saveNull colbind isnull st i).1 +
        if isnull i then (colbind.bindings i).lenAligned else 0) = castUInt32 st.1 := by
      rw [saveNull]
      split_ifs
      · dsimp only [castUInt32]
        omega
      · rfl
    rw [nullSaved, List.map_cons, List.sum_cons, List.foldl_cons, ← nullSaved]
    simp only [castUInt32] at hrest hstep ⊢
    omega

theorem foldl_saveNull_lt (colbind : MemTupleBindingCols) (isnull : ℕ → Bool) (cols : List ℕ)
    {st : ℕ × ℕ} (h : castUInt32 st.1 = st.1) :
    castUInt32 (cols.foldl (saveNull colbind isnull) st).1 =
      (cols.foldl (saveNull colbind isnull) st).1 := by
  induction cols generalizing st with
  | nil => exact h
  | cons i cols ih =>
    refine ih ?_
    rw [saveNull]
    split_ifs
    · exact Nat.mod_mod _ _
    · exact h

end Hdb.MemTuple

import Mathlib

/-!
# The binding of a memory tuple

A binding gives every attribute of a tuple descriptor its place in the fixed part of a memory tuple.
`create_col_bind` makes four passes over the attributes, for those aligned to 8, 4, 2 and 1 bytes,
so the physical columns are not in the order of the attributes. An attribute of variable length has
an offset in the fixed part: of 2 bytes in the short binding, of 4 in the large one.

A NULL takes no space. Two tables of `short` numbers say for every four columns and every pattern of
NULLs in them how much is saved: `null_saves` by the lengths of the columns, `null_saves_aligned` by
the lengths padded for the column behind.
-/

namespace Hdb.MemTuple

/-- The values of `attalign`: `'c'`, `'s'`, `'i'` and `'d'`. -/
inductive AttAlign
  | char
  | short
  | int
  | double
  deriving DecidableEq

def AttAlign.bytes : AttAlign → ℕ
  | .char => 1
  | .short => 2
  | .int => 4
  | .double => 8

def attAlignNominal (curOffset : ℕ) (attalign : AttAlign) : ℕ :=
  (curOffset + (attalign.bytes - 1)) / attalign.bytes * attalign.bytes

/-- The values of `attstorage`: `'p'`, `'e'`, `'m'` and `'x'`. -/
inductive AttStorage
  | plain
  | external
  | main
  | extended
  deriving DecidableEq

structure FormPgAttribute where
  attlen : ℤ
  attalign : AttAlign
  attbyval : Bool
  attisdropped : Bool
  attstorage : AttStorage
  atttypid : ℕ
  attlen_ok : 1 ≤ attlen ∧ attlen ≤ 32767 ∨ attlen = -1 ∨ attlen = -2

/-- A row has at most `MaxTupleAttributeNumber` columns. -/
structure TupleDesc where
  attrs : List FormPgAttribute
  tdhasoid : Bool
  natts_le : attrs.length ≤ 1664

def TupleDesc.natts (tupdesc : TupleDesc) : ℕ := tupdesc.attrs.length

inductive MemTupleBindFlag
  | byValNative
  | byValPtr
  | byRef
  | byRefCStr
  deriving DecidableEq

structure MemTupleAttrBinding where
  offset : ℕ
  len : ℕ
  lenAligned : ℕ
  flag : MemTupleBindFlag
  nullByte : ℕ
  nullMask : ℕ

/-- An array of `short`. -/
abbrev Shorts := ℕ → ℤ

structure MemTupleBindingCols where
  varStart : ℕ
  /-- By the number of the attribute. -/
  bindings : ℕ → MemTupleAttrBinding
  /-- `none` is the null pointer. -/
  nullSaves : Option Shorts
  nullSavesAligned : Shorts
  hasNullSavesAlignmentMismatch : Bool
  hasDroppedAttrAlignmentMismatch : Bool

structure MemTupleBinding where
  tupdesc : TupleDesc
  columnAlign : ℕ
  nullBitmapExtraSize : ℕ
  bind : MemTupleBindingCols
  largeBind : MemTupleBindingCols

/-! ## The tables -/

/-- Conversion to `short`. -/
def castInt16 (z : ℤ) : ℤ := z.bmod 65536

/-- Add to the entries of the four columns around `i` whose pattern has the bit of column `i`. -/
def addNullSave (nullSave : Shorts) (i : ℕ) (sz : ℤ) : Shorts := fun k =>
  if k / 16 = i / 4 ∧ (k % 16).testBit (i % 4) then castInt16 (nullSave k + castInt16 sz)
  else nullSave k

def addNullSaveAligned (bind : MemTupleAttrBinding) (nullSaveAligned : Shorts) (i : ℕ)
    (nextAttrAlign : AttAlign) : (MemTupleAttrBinding × Shorts) × Bool :=
  let bind := { bind with lenAligned := attAlignNominal bind.len nextAttrAlign }
  ((bind, addNullSave nullSaveAligned i bind.lenAligned), bind.len = bind.lenAligned)

def computeNullSaveB (nullSaves : Shorts) (b : ℕ) : ℤ :=
  castInt16 (nullSaves (b &&& 0xF) + nullSaves (16 + (b >>> 4)))

/-- What the columns before one save, by the bytes of the null bitmap. -/
def computeNullSave (nullSaves : Shorts) (nullbitmaps : ℕ → UInt8) (nbyte nbit : ℕ) : ℤ :=
  ((List.range nbyte).map fun currByte =>
    computeNullSaveB (fun k => nullSaves (32 * currByte + k)) (nullbitmaps currByte).toNat).sum +
  computeNullSaveB (fun k => nullSaves (32 * nbyte + k))
    ((nullbitmaps nbyte).toNat &&& (nbit - 1))

/-! ## The passes -/

/-- The state of the loops of `create_col_bind`. -/
structure ColBindState where
  bindings : ℕ → MemTupleAttrBinding
  nullSaves : Shorts
  nullSavesAligned : Shorts
  hasNullSavesAlignmentMismatch : Bool
  hasDroppedAttrAlignmentMismatch : Bool
  physicalCol : ℕ
  curOffset : ℕ
  /-- The attribute whose binding came before, once there is one. -/
  previousBind : ℕ

/-- `MEMTUPLE_INLINE_CHARTYPE` is not defined. -/
def attBindAsVaroffset (attr : FormPgAttribute) : Bool := attr.attlen < 0

/-- The part of the passes that sets the aligned length of the binding before. -/
def ColBindState.alignPrevious (st : ColBindState) (attr : FormPgAttribute) (align : AttAlign) :
    ColBindState :=
  if st.physicalCol ≠ 0 then
    let r := addNullSaveAligned (st.bindings st.previousBind) st.nullSavesAligned
      (st.physicalCol - 1) align
    let st :=
      { st with
        bindings := Function.update st.bindings st.previousBind r.1.1
        nullSavesAligned := r.1.2 }
    if r.2 then
      { st with
        hasNullSavesAlignmentMismatch := true
        hasDroppedAttrAlignmentMismatch :=
          if attr.attisdropped then true else st.hasDroppedAttrAlignmentMismatch }
    else st
  else st

/-- What a pass does to an attribute that belongs to it. -/
def ColBindState.bindColumn (st : ColBindState) (attr : FormPgAttribute) (i : ℕ) (align : AttAlign)
    (len save : ℕ) (flag : MemTupleBindFlag) : ColBindState :=
  let offset := attAlignNominal st.curOffset align
  let nullSaves := addNullSave st.nullSaves st.physicalCol save
  let st := { st with nullSaves }.alignPrevious attr align
  let nullByte := st.physicalCol >>> 3
  { st with
    bindings := Function.update st.bindings i
      ⟨offset, len, (st.bindings i).lenAligned, flag, nullByte,
        1 <<< (st.physicalCol - (nullByte <<< 3))⟩
    physicalCol := st.physicalCol + 1
    curOffset := offset + len
    previousBind := i }

def byValFlag (attr : FormPgAttribute) : MemTupleBindFlag :=
  if attr.attbyval then .byValNative else .byValPtr

/-- The flag of the passes that also bind attributes of variable length. -/
def byRefFlag (attr : FormPgAttribute) : MemTupleBindFlag :=
  if attr.attlen > 0 then byValFlag attr else if attr.attlen = -1 then .byRef else .byRefCStr

def colBindStep (islarge : Bool) (pass : ℕ) (st : ColBindState) (col : FormPgAttribute × ℕ) :
    ColBindState :=
  let attr := col.1
  let i := col.2
  if pass = 0 ∧ attr.attlen > 0 ∧ attr.attalign = .double then
    st.bindColumn attr i .double attr.attlen.toNat attr.attlen.toNat (byValFlag attr)
  else if pass = 1 ∧ (attr.attlen > 0 ∧ attr.attalign = .int ∨ islarge ∧ attBindAsVaroffset attr)
    then
    let len := if attr.attlen > 0 then attr.attlen.toNat else 4
    st.bindColumn attr i .int len len (byRefFlag attr)
  else if pass = 2 ∧
      (attr.attlen > 0 ∧ attr.attalign = .short ∨ ¬ islarge ∧ attBindAsVaroffset attr) then
    let len := if attr.attlen > 0 then attr.attlen.toNat else 2
    st.bindColumn attr i .short len len (byRefFlag attr)
  else if pass = 3 ∧
      (attr.attlen > 0 ∧ attr.attalign = .char ∨ attr.attlen < 0 ∧ ¬ attBindAsVaroffset attr) then
    -- The table gets one byte here, whatever the length.
    st.bindColumn attr i .char attr.attlen.toNat 1
      (if attr.attlen > 0 ∧ attr.attbyval then .byValNative else .byValPtr)
  else st

def colBindInit (tupdesc : TupleDesc) (colAlign : ℕ) : ColBindState where
  bindings _ := ⟨0, 0, 0, .byValNative, 0, 0⟩
  nullSaves _ := 0
  nullSavesAligned _ := 0
  hasNullSavesAlignmentMismatch := false
  hasDroppedAttrAlignmentMismatch := false
  physicalCol := 0
  curOffset := if tupdesc.tdhasoid ∨ colAlign = 8 then 8 else 4
  previousBind := 0

/-- The four passes over the attributes. -/
def colBindLoops (islarge : Bool) (tupdesc : TupleDesc) (colAlign : ℕ) : ColBindState :=
  (List.range 4).foldl (fun st pass => tupdesc.attrs.zipIdx.foldl (colBindStep islarge pass) st)
    (colBindInit tupdesc colAlign)

/-- After the passes the last binding gets its aligned length, for which the result of
`add_null_save_aligned` does not matter. -/
def ColBindState.alignLast (st : ColBindState) : ColBindState :=
  if st.physicalCol ≠ 0 then
    let r := addNullSaveAligned (st.bindings st.previousBind) st.nullSavesAligned
      (st.physicalCol - 1) .char
    { st with
      bindings := Function.update st.bindings st.previousBind r.1.1
      nullSavesAligned := r.1.2 }
  else st

def createColBind (islarge : Bool) (tupdesc : TupleDesc) (colAlign : ℕ) : MemTupleBindingCols :=
  let st := (colBindLoops islarge tupdesc colAlign).alignLast
  { varStart := if tupdesc.natts ≠ 0 then st.curOffset else 8
    bindings := st.bindings
    nullSaves := if st.hasNullSavesAlignmentMismatch then some st.nullSaves else none
    nullSavesAligned := st.nullSavesAligned
    hasNullSavesAlignmentMismatch := st.hasNullSavesAlignmentMismatch
    hasDroppedAttrAlignmentMismatch := st.hasDroppedAttrAlignmentMismatch }

def typeAlign (alignval len : ℕ) : ℕ := (len + (alignval - 1)) / alignval * alignval

def computeNullBitmapExtraSize (tupdesc : TupleDesc) (colAlign : ℕ) : ℕ :=
  let nbytes := (tupdesc.natts + 7) >>> 3
  let availBytes := if tupdesc.tdhasoid ∨ colAlign = 4 then 0 else 4
  if nbytes ≤ availBytes then 0 else typeAlign colAlign (nbytes - availBytes)

def columnAlignOf (tupdesc : TupleDesc) : ℕ :=
  tupdesc.attrs.foldl
    (fun columnAlign attr => if attr.attlen > 0 ∧ attr.attalign = .double then 8 else columnAlign) 4

def createMemtupleBinding (tupdesc : TupleDesc) : MemTupleBinding where
  tupdesc := tupdesc
  columnAlign := columnAlignOf tupdesc
  nullBitmapExtraSize := computeNullBitmapExtraSize tupdesc (columnAlignOf tupdesc)
  bind := createColBind false tupdesc (columnAlignOf tupdesc)
  largeBind := createColBind true tupdesc (columnAlignOf tupdesc)

end Hdb.MemTuple

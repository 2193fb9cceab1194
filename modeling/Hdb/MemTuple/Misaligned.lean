import Hdb.MemTuple.BindingLayout

/-!
# Detection of misaligned memory tuples

A tuple that was written with the lengths of `null_saves` has its attributes elsewhere than one
written with the padded lengths of `null_saves_aligned`, where a NULL stands before them.
`memtuple_has_misaligned_attribute` is to find such tuples. The flag that it starts from is set
where a length fits the next column, not where it does not; one-byte-aligned columns count for one
byte in `null_saves`, whatever their length; and the flags and the scan are those of the short
binding, also for a large tuple.

The offsets by the two tables agree for every attribute iff every NULL column with another one
behind it saves the same in both (`savedBefore_congr`), and `detection_sound_iff` says when the
answer is right.
-/

namespace Hdb.MemTuple

/-- What a memory tuple says about its layout. -/
structure MemTupleData where
  hasnull : Bool
  islarge : Bool
  nullp : ℕ → UInt8

def MemTupleData.colbind (mtup : MemTupleData) (pbind : MemTupleBinding) : MemTupleBindingCols :=
  if mtup.islarge then pbind.largeBind else pbind.bind

/-- `memtuple_get_attr_ptr`, from the start of the tuple behind its null bitmap. -/
def attrOffset (mtup : MemTupleData) (bind : MemTupleAttrBinding) (nullSaves : Shorts) : ℤ :=
  bind.offset -
    if mtup.hasnull then computeNullSave nullSaves mtup.nullp bind.nullByte bind.nullMask else 0

def memtupleHasMisalignedAttribute (mtup : MemTupleData) (pbind : MemTupleBinding) : Bool :=
  if ¬ pbind.bind.hasNullSavesAlignmentMismatch then false
  else if pbind.bind.hasDroppedAttrAlignmentMismatch then true
  else if ¬ mtup.hasnull then false
  else
    (List.range pbind.tupdesc.natts).any fun attrIdx =>
      let bind := pbind.bind.bindings attrIdx
      bind.len ≠ bind.lenAligned ∧ (mtup.nullp bind.nullByte).toNat &&& bind.nullMask ≠ 0

/-! ## What the columns before one save -/

variable {t u : Shorts} {f g : ℕ → ℤ} {nullp : ℕ → UInt8} {k n : ℕ}

/-- What the first `m` columns of a byte save. -/
def byteSaves (f : ℕ → ℤ) (nullp : ℕ → UInt8) (c m : ℕ) : ℤ :=
  ∑ j ∈ Finset.range m, if (nullp c).toNat.testBit j then f (8 * c + j) else 0

/-- What the columns before column `k` save, each byte in `short` numbers. -/
def savedBefore (f : ℕ → ℤ) (nullp : ℕ → UInt8) (k : ℕ) : ℤ :=
  (∑ c ∈ Finset.range (k / 8), castInt16 (byteSaves f nullp c 8)) +
    castInt16 (byteSaves f nullp (k / 8) (k % 8))

theorem computeNullSaveB_eq (h : Tabulates t f) (c : ℕ) {b : ℕ} (hb : b < 256) :
    computeNullSaveB (fun e => t (32 * c + e)) b =
      castInt16 (∑ j ∈ Finset.range 8, if b.testBit j then f (8 * c + j) else 0) := by
  have hlow : b &&& 0xF = b % 16 := Nat.and_two_pow_sub_one_eq_mod b 4
  have hhigh : b >>> 4 = b / 16 := Nat.shiftRight_eq_div_pow b 4
  have hsum := Finset.sum_range_add (fun j => if b.testBit j then f (8 * c + j) else 0) 4 4
  rw [computeNullSaveB, hlow, hhigh, h, h, castInt16_add, hsum,
    show (32 * c + b % 16) % 16 = b % 16 by omega, show (32 * c + b % 16) / 16 = 2 * c by omega,
    show (32 * c + (16 + b / 16)) % 16 = b / 16 by omega,
    show (32 * c + (16 + b / 16)) / 16 = 2 * c + 1 by omega]
  congr 2
  · refine Finset.sum_congr rfl fun j hj => ?_
    have hj' := Finset.mem_range.mp hj
    rw [show 16 = 2 ^ 4 from rfl, Nat.testBit_mod_two_pow, decide_eq_true hj', Bool.true_and,
      show 4 * (2 * c) + j = 8 * c + j by omega]
  · refine Finset.sum_congr rfl fun j _ => ?_
    rw [show 16 = 2 ^ 4 from rfl, Nat.testBit_div_two_pow, add_comm j 4,
      show 4 * (2 * c + 1) + j = 8 * c + (4 + j) by omega]

/-- The table gives the savings before a column, by the byte and the bit of the column. -/
theorem computeNullSave_eq (h : Tabulates t f) (nullp : ℕ → UInt8) (k : ℕ) :
    computeNullSave t nullp (k / 8) (2 ^ (k % 8)) = savedBefore f nullp k := by
  have hbyte : ∀ c, (nullp c).toNat < 256 := fun c => UInt8.toNat_lt _
  rw [computeNullSave, savedBefore, Nat.and_two_pow_sub_one_eq_mod]
  congr 1
  · refine Eq.trans (congrArg List.sum (List.map_congr_left fun c _ => ?_))
      (Multiset.sum_coe _).symm
    exact computeNullSaveB_eq h c (hbyte c)
  · rw [computeNullSaveB_eq h _ ((Nat.mod_le _ _).trans_lt (hbyte _)), byteSaves]
    have hsum := Finset.sum_range_add (fun j =>
      if ((nullp (k / 8)).toNat % 2 ^ (k % 8)).testBit j then f (8 * (k / 8) + j) else 0)
      (k % 8) (8 - k % 8)
    rw [Nat.add_sub_cancel' (Nat.mod_lt k (by omega)).le] at hsum
    have hrest : ∀ j ∈ Finset.range (8 - k % 8),
        (if ((nullp (k / 8)).toNat % 2 ^ (k % 8)).testBit (k % 8 + j) then
          f (8 * (k / 8) + (k % 8 + j)) else 0) = 0 := by
      intro j _
      rw [Nat.testBit_mod_two_pow, decide_eq_false (by omega), Bool.false_and]
      rfl
    rw [hsum, Finset.sum_eq_zero hrest, add_zero]
    refine congrArg castInt16 (Finset.sum_congr rfl fun j hj => ?_)
    rw [Nat.testBit_mod_two_pow, decide_eq_true (Finset.mem_range.mp hj), Bool.true_and]

theorem savedBefore_byte (f : ℕ → ℤ) (nullp : ℕ → UInt8) (c : ℕ) :
    savedBefore f nullp (8 * c) = ∑ c ∈ Finset.range c, castInt16 (byteSaves f nullp c 8) := by
  rw [savedBefore, Nat.mul_div_cancel_left c (by omega), Nat.mul_mod_right, byteSaves,
    Finset.sum_range_zero]
  exact add_zero _

theorem savedBefore_eq (f : ℕ → ℤ) (nullp : ℕ → UInt8) (k : ℕ) : savedBefore f nullp k =
    savedBefore f nullp (8 * (k / 8)) + castInt16 (byteSaves f nullp (k / 8) (k % 8)) := by
  rw [savedBefore_byte, savedBefore]

/-- The column itself comes in for the next one. -/
theorem savedBefore_succ (f : ℕ → ℤ) (nullp : ℕ → UInt8) (k : ℕ) : savedBefore f nullp (k + 1) =
    savedBefore f nullp (8 * (k / 8)) + castInt16 (byteSaves f nullp (k / 8) (k % 8) +
      if (nullp (k / 8)).toNat.testBit (k % 8) then f k else 0) := by
  have hbits : byteSaves f nullp (k / 8) (k % 8 + 1) = byteSaves f nullp (k / 8) (k % 8) +
      if (nullp (k / 8)).toNat.testBit (k % 8) then f k else 0 := by
    rw [byteSaves, Finset.sum_range_succ, ← byteSaves, show 8 * (k / 8) + k % 8 = k by omega]
  rw [← hbits]
  by_cases hlast : k % 8 = 7
  · rw [show k + 1 = 8 * (k / 8 + 1) by omega, savedBefore_byte, Finset.sum_range_succ,
      ← savedBefore_byte, hlast]
  · rw [savedBefore_eq, show (k + 1) / 8 = k / 8 by omega, show (k + 1) % 8 = k % 8 + 1 by omega]

theorem eq_of_castInt16_add {a b x y : ℤ} (hab : castInt16 a = castInt16 b)
    (h : castInt16 (a + x) = castInt16 (b + y)) (hx : 0 ≤ x ∧ x < 65536) (hy : 0 ≤ y ∧ y < 65536) :
    x = y := by
  rw [castInt16, castInt16] at hab h
  have hab' : a % (65536 : ℕ) = b % (65536 : ℕ) := by rw [← Int.bmod_emod, hab, Int.bmod_emod]
  have h' : (a + x) % (65536 : ℕ) = (b + y) % (65536 : ℕ) := by
    rw [← Int.bmod_emod, h, Int.bmod_emod]
  omega

/-- **The savings before every column agree iff every NULL column with one behind it saves the
same.** Going over to the next column shows the savings of each, although the numbers wrap
around. -/
theorem savedBefore_congr (hf : ∀ k, 0 ≤ f k ∧ f k < 65536) (hg : ∀ k, 0 ≤ g k ∧ g k < 65536)
    (nullp : ℕ → UInt8) (n : ℕ) :
    (∀ k < n, savedBefore f nullp k = savedBefore g nullp k) ↔
      ∀ k, k + 1 < n → (nullp (k / 8)).toNat.testBit (k % 8) → f k = g k := by
  constructor
  · intro h k hk hnull
    have hbyte := h (8 * (k / 8)) (by omega)
    have hcol := h k (by omega)
    have hnext := h (k + 1) hk
    rw [savedBefore_eq f, savedBefore_eq g, hbyte] at hcol
    rw [savedBefore_succ, savedBefore_succ, hbyte, hnull, if_pos rfl, if_pos rfl] at hnext
    exact eq_of_castInt16_add (add_left_cancel hcol) (add_left_cancel hnext) (hf k) (hg k)
  · intro h k hk
    have hterm : ∀ c m, 8 * c + m ≤ k → m ≤ 8 → byteSaves f nullp c m = byteSaves g nullp c m := by
      intro c m hm hm8
      refine Finset.sum_congr rfl fun j hj => ?_
      have hj' := Finset.mem_range.mp hj
      split_ifs with hnull
      · exact h (8 * c + j) (by omega)
          (by rwa [show (8 * c + j) / 8 = c by omega, show (8 * c + j) % 8 = j by omega])
      · rfl
    rw [savedBefore, savedBefore, hterm (k / 8) (k % 8) (by omega) (by omega)]
    refine congrArg (· + _) (Finset.sum_congr rfl fun c hc => ?_)
    have hc' := Finset.mem_range.mp hc
    rw [hterm c 8 (by omega) le_rfl]

/-! ## When the answer is right -/

/-- The column is NULL in the tuple. -/
def MemTupleData.nullAt (mtup : MemTupleData) (k : ℕ) : Bool :=
  mtup.hasnull && (mtup.nullp (k / 8)).toNat.testBit (k % 8)

section

variable (islarge : Bool) (tupdesc : TupleDesc)

/-- The length of column `k` fits the column behind it. -/
def ExactAt (k : ℕ) : Prop :=
  k + 1 < tupdesc.natts ∧
    lenAt islarge (physicalCols islarge tupdesc) k =
    paddedAt islarge (physicalCols islarge tupdesc) k

/-- There is a column whose length fits the column behind it. -/
def SomeExact : Prop := ∃ k, ExactAt islarge tupdesc k

/-- In the short binding there is such a column before a dropped one. -/
def DroppedExact : Prop :=
  ∃ k, ExactAt false tupdesc k ∧ ∃ next ∈ (physicalCols false tupdesc)[k + 1]?, next.1.attisdropped

/-- By the short binding, a NULL column has a length that is padded for the column behind it. -/
def NullPadded (mtup : MemTupleData) : Prop :=
  ∃ k, mtup.nullAt k ∧
    lenAt false (physicalCols false tupdesc) k ≠ paddedAt false (physicalCols false tupdesc) k

/-- Every NULL column with another one behind it saves the same in both tables: it needs no padding,
and it has one byte if it is aligned to one. -/
def NullsClean (mtup : MemTupleData) : Prop :=
  ∀ k, k + 1 < tupdesc.natts → mtup.nullAt k →
    saveAt mtup.islarge (physicalCols mtup.islarge tupdesc) k =
      paddedAt mtup.islarge (physicalCols mtup.islarge tupdesc) k

end

/-- What the answer promises about reading the tuple. -/
structure DetectionSound (tupdesc : TupleDesc) (mtup : MemTupleData) : Prop where
  offsets : memtupleHasMisalignedAttribute mtup (createMemtupleBinding tupdesc) = false →
    ∀ i < tupdesc.natts,
      let colbind := mtup.colbind (createMemtupleBinding tupdesc)
      attrOffset mtup (colbind.bindings i)
        (colBindLoops mtup.islarge tupdesc (columnAlignOf tupdesc)).nullSaves =
      attrOffset mtup (colbind.bindings i) colbind.nullSavesAligned
  kept : memtupleHasMisalignedAttribute mtup (createMemtupleBinding tupdesc) = true →
    (mtup.colbind (createMemtupleBinding tupdesc)).nullSaves.isSome

variable {islarge : Bool} {tupdesc : TupleDesc} {mtup : MemTupleData}

theorem colbind_eq (mtup : MemTupleData) (tupdesc : TupleDesc) :
    mtup.colbind (createMemtupleBinding tupdesc) =
      createColBind mtup.islarge tupdesc (columnAlignOf tupdesc) := by
  rw [MemTupleData.colbind, createMemtupleBinding]
  cases mtup.islarge
  · rfl
  · rfl

theorem nullSaves_isSome_iff (islarge : Bool) (tupdesc : TupleDesc) (colAlign : ℕ) :
    (createColBind islarge tupdesc colAlign).nullSaves.isSome ↔ SomeExact islarge tupdesc := by
  have hspec := createColBind_spec islarge tupdesc colAlign
  rw [hspec.nullSaves, hspec.mismatch, length_physicalCols]
  rfl

theorem and_two_pow_ne_zero (x m : ℕ) : x &&& 2 ^ m ≠ 0 ↔ x.testBit m := by
  rw [Nat.and_two_pow]
  cases x.testBit m <;> simp

/-- Every attribute has a physical column. -/
theorem exists_physicalCol (islarge : Bool) {i : ℕ} (hi : i < tupdesc.natts) :
    ∃ (k : ℕ) (col : PhysCol), col ∈ (physicalCols islarge tupdesc)[k]? ∧ col.2 = i := by
  have hmem : (tupdesc.attrs[i], i) ∈ physicalCols islarge tupdesc :=
    mem_physicalCols.mpr (List.getElem?_eq_getElem hi)
  obtain ⟨k, hk⟩ := List.getElem?_of_mem hmem
  exact ⟨k, _, hk, rfl⟩

theorem detected_iff (tupdesc : TupleDesc) (mtup : MemTupleData) :
    memtupleHasMisalignedAttribute mtup (createMemtupleBinding tupdesc) = true ↔
      SomeExact false tupdesc ∧ (DroppedExact tupdesc ∨ NullPadded tupdesc mtup) := by
  have hspec := createColBind_spec false tupdesc (columnAlignOf tupdesc)
  have hmismatch := hspec.mismatch
  have hdropped := hspec.dropped
  rw [length_physicalCols] at hmismatch hdropped
  have hsome : (createColBind false tupdesc (columnAlignOf tupdesc)).hasNullSavesAlignmentMismatch ↔
      SomeExact false tupdesc := hmismatch
  have hdrop :
    (createColBind false tupdesc (columnAlignOf tupdesc)).hasDroppedAttrAlignmentMismatch ↔
      DroppedExact tupdesc := by
    rw [hdropped, DroppedExact]
    simp only [ExactAt, and_assoc]
  have hscan : mtup.hasnull = true ∧ (List.range tupdesc.natts).any (fun attrIdx =>
      let bind := (createColBind false tupdesc (columnAlignOf tupdesc)).bindings attrIdx
      bind.len ≠ bind.lenAligned ∧ (mtup.nullp bind.nullByte).toNat &&& bind.nullMask ≠ 0) = true ↔
      NullPadded tupdesc mtup := by
    rw [List.any_eq_true]
    constructor
    · rintro ⟨hnull, i, hi, hbit⟩
      obtain ⟨k, col, hcol, rfl⟩ := exists_physicalCol false (List.mem_range.mp hi)
      rw [decide_eq_true_iff, hspec.len k col hcol, hspec.lenAligned k col hcol,
        (hspec.nullBit k col hcol).1, (hspec.nullBit k col hcol).2, and_two_pow_ne_zero] at hbit
      exact ⟨k, by rw [MemTupleData.nullAt, hnull, hbit.2]; rfl, hbit.1⟩
    · rintro ⟨k, hnull, hpad⟩
      rw [MemTupleData.nullAt, Bool.and_eq_true] at hnull
      have hk : k < (physicalCols false tupdesc).length := by
        by_contra hk
        refine hpad ?_
        rw [paddedAt_of_le (Nat.not_lt.mp hk), lenAt, List.getElem?_eq_none (Nat.not_lt.mp hk),
          Option.elim_none]
      have hcol := List.getElem?_eq_getElem hk
      refine ⟨hnull.1, (physicalCols false tupdesc)[k].2, ?_, ?_⟩
      · have hattr := mem_physicalCols.mp (List.getElem_mem hk)
        exact List.mem_range.mpr (List.getElem?_eq_some_iff.mp hattr).1
      · rw [decide_eq_true_iff, hspec.len k _ hcol, hspec.lenAligned k _ hcol,
          (hspec.nullBit k _ hcol).1, (hspec.nullBit k _ hcol).2, and_two_pow_ne_zero]
        exact ⟨hpad, hnull.2⟩
  rw [← hsome, ← hdrop, ← hscan, memtupleHasMisalignedAttribute, createMemtupleBinding]
  dsimp only
  generalize (createColBind false tupdesc (columnAlignOf tupdesc)).hasNullSavesAlignmentMismatch =
    exact
  generalize (createColBind false tupdesc (columnAlignOf tupdesc)).hasDroppedAttrAlignmentMismatch =
    dropped
  cases exact with
  | false => simp
  | true =>
    cases dropped with
    | true => simp
    | false => cases mtup.hasnull <;> simp

theorem colLen_le (islarge : Bool) (attr : FormPgAttribute) : colLen islarge attr ≤ 32767 := by
  have hlen := attr.attlen_ok
  rw [colLen]
  split_ifs <;> omega

theorem lenAt_le (islarge : Bool) (cols : List PhysCol) (k : ℕ) : lenAt islarge cols k ≤ 32767 := by
  rw [lenAt]
  cases cols[k]? with
  | none => exact Nat.zero_le _
  | some col => exact colLen_le islarge col.1

theorem saveAt_bound (islarge : Bool) (cols : List PhysCol) (k : ℕ) :
    0 ≤ (saveAt islarge cols k : ℤ) ∧ (saveAt islarge cols k : ℤ) < 65536 := by
  rw [saveAt]
  cases cols[k]? with
  | none => exact ⟨le_refl 0, by rw [Option.elim_none]; omega⟩
  | some col =>
    have hlen := colLen_le islarge col.1
    rw [Option.elim_some, colSave]
    split_ifs <;> omega

theorem attAlignNominal_lt (n : ℕ) (align : AttAlign) : attAlignNominal n align < n + 8 := by
  cases align <;> simp only [attAlignNominal, AttAlign.bytes] <;> omega

theorem paddedAt_bound (islarge : Bool) (cols : List PhysCol) (k : ℕ) :
    0 ≤ (paddedAt islarge cols k : ℤ) ∧ (paddedAt islarge cols k : ℤ) < 65536 := by
  have hlen := lenAt_le islarge cols k
  have hlt := attAlignNominal_lt (lenAt islarge cols k) (nextAlign islarge cols k)
  rw [paddedAt]
  omega

/-- The offsets by the two tables agree for every attribute iff no NULL column before another one
saves something else. -/
theorem offsets_eq_iff (tupdesc : TupleDesc) (mtup : MemTupleData) :
    (∀ i < tupdesc.natts,
      attrOffset mtup ((createColBind mtup.islarge tupdesc (columnAlignOf tupdesc)).bindings i)
        (colBindLoops mtup.islarge tupdesc (columnAlignOf tupdesc)).nullSaves =
      attrOffset mtup ((createColBind mtup.islarge tupdesc (columnAlignOf tupdesc)).bindings i)
        (createColBind mtup.islarge tupdesc (columnAlignOf tupdesc)).nullSavesAligned) ↔
      NullsClean tupdesc mtup := by
  have hspec := createColBind_spec mtup.islarge tupdesc (columnAlignOf tupdesc)
  have hsaves := colBindLoops_saves mtup.islarge tupdesc (columnAlignOf tupdesc)
  have hlength := length_physicalCols mtup.islarge tupdesc
  generalize hcols : physicalCols mtup.islarge tupdesc = cols at hspec hsaves hlength
  -- The offset of the attribute at column `k`.
  have hoffset : ∀ {t f}, Tabulates t f → ∀ k, ∀ col ∈ cols[k]?,
      attrOffset mtup ((createColBind mtup.islarge tupdesc (columnAlignOf tupdesc)).bindings col.2)
      t = ((createColBind mtup.islarge tupdesc (columnAlignOf tupdesc)).bindings col.2).offset -
        if mtup.hasnull then savedBefore f mtup.nullp k else 0 := by
    intro t f ht k col hcol
    rw [attrOffset, (hspec.nullBit k col hcol).1, (hspec.nullBit k col hcol).2,
      computeNullSave_eq ht]
  have hcongr := savedBefore_congr (saveAt_bound mtup.islarge cols)
    (paddedAt_bound mtup.islarge cols) mtup.nullp tupdesc.natts
  have hiff : (∀ k < tupdesc.natts, mtup.hasnull = true →
      savedBefore (fun k => (saveAt mtup.islarge cols k : ℤ)) mtup.nullp k =
        savedBefore (fun k => (paddedAt mtup.islarge cols k : ℤ)) mtup.nullp k) ↔
      NullsClean tupdesc mtup := by
    rw [NullsClean, hcols]
    simp only [MemTupleData.nullAt, Bool.and_eq_true]
    cases mtup.hasnull with
    | false => simp
    | true => simpa using hcongr
  rw [← hiff]
  constructor
  · intro h k hk hnull
    obtain ⟨col, hcol⟩ : ∃ col, cols[k]? = some col := ⟨_, List.getElem?_eq_getElem (by omega)⟩
    have hmem : col ∈ physicalCols mtup.islarge tupdesc := hcols ▸ List.mem_of_getElem? hcol
    have hattr := mem_physicalCols.mp hmem
    have heq := h _ (List.getElem?_eq_some_iff.mp hattr).1
    rw [hoffset hsaves k col hcol, hoffset hspec.savesAligned k col hcol, hnull, if_pos rfl,
      if_pos rfl] at heq
    exact sub_right_inj.mp heq
  · intro h i hi
    obtain ⟨k, col, hcol, rfl⟩ := exists_physicalCol mtup.islarge hi
    rw [hcols] at hcol
    rw [hoffset hsaves k _ hcol, hoffset hspec.savesAligned k _ hcol]
    cases hnull : mtup.hasnull with
    | false => rfl
    | true =>
      rw [if_pos rfl, if_pos rfl, h k (hlength ▸ (List.getElem?_eq_some_iff.mp hcol).1) hnull]

/-- **When the detection is right.** For every tuple descriptor and every tuple: where it has found
something, a large tuple needs a length that fits in the large binding; where it has not, the NULL
columns must save the same in both tables. -/
theorem detection_sound_iff (tupdesc : TupleDesc) (mtup : MemTupleData) :
    DetectionSound tupdesc mtup ↔
      (SomeExact false tupdesc ∧ (DroppedExact tupdesc ∨ NullPadded tupdesc mtup) →
        mtup.islarge → SomeExact true tupdesc) ∧
      (¬ (SomeExact false tupdesc ∧ (DroppedExact tupdesc ∨ NullPadded tupdesc mtup)) →
        NullsClean tupdesc mtup) := by
  have hdetected := detected_iff tupdesc mtup
  have hoffsets := offsets_eq_iff tupdesc mtup
  have hkept := nullSaves_isSome_iff mtup.islarge tupdesc (columnAlignOf tupdesc)
  constructor
  · rintro ⟨hsame, hsome⟩
    rw [colbind_eq] at hsame hsome
    refine ⟨fun hyes hlarge => ?_, fun hno => ?_⟩
    · rw [hlarge] at hkept hsome
      exact hkept.mp (hsome (hdetected.mpr hyes))
    · exact hoffsets.mp (hsame (Bool.eq_false_iff.mpr fun h => hno (hdetected.mp h)))
  · rintro ⟨hlarge, hclean⟩
    constructor
    · intro hno
      rw [colbind_eq]
      refine hoffsets.mpr (hclean fun h => ?_)
      rw [hdetected.mpr h] at hno
      cases hno
    · intro hyes
      rw [colbind_eq, hkept]
      have hfound := hdetected.mp hyes
      cases hl : mtup.islarge with
      | false => exact hfound.1
      | true => exact hlarge hfound hl

theorem attlen_of_pos {n : ℤ} (h : 1 ≤ n ∧ n ≤ 32767) : 1 ≤ n ∧ n ≤ 32767 ∨ n = -1 ∨ n = -2 :=
    Or.inl h

/-- A `timetz` and a `bigint` column. -/
def timetzBigint : List FormPgAttribute :=
  [⟨12, .double, false, false, .plain, 1266, attlen_of_pos (by decide)⟩,
    ⟨8, .double, true, false, .plain, 20, attlen_of_pos (by decide)⟩]

theorem natts_timetzBigint : timetzBigint.length ≤ 1664 := by decide

/-- A NULL `timetz` saves 12 bytes by its length and 16 with the padding, and no flag is set. -/
theorem detection_misses_padding :
    ¬ DetectionSound ⟨timetzBigint, false, natts_timetzBigint⟩ ⟨true, false, fun _ => 1⟩ := by
  intro h
  have hsame := h.offsets (by decide) 1 (by decide)
  revert hsame
  decide

end Hdb.MemTuple

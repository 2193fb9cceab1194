import Hdb.MemTuple.Binding

/-!
# The physical columns of a binding

`physicalCols` lists the attributes in the order of their places. `Bound` says what
`create_col_bind` has written once it has bound a list of columns: each binding, each flag, and that
each table adds up the space of the columns.
-/

namespace Hdb.MemTuple

/-! ## Columns -/

/-- The pass that binds an attribute. -/
def attrPass (islarge : Bool) (attr : FormPgAttribute) : ℕ :=
  if attr.attlen > 0 then
    match attr.attalign with
    | .double => 0
    | .int => 1
    | .short => 2
    | .char => 3
  else if islarge then 1 else 2

def passAlign : ℕ → AttAlign
  | 0 => .double
  | 1 => .int
  | 2 => .short
  | _ => .char

def colAlign (islarge : Bool) (attr : FormPgAttribute) : AttAlign :=
    passAlign (attrPass islarge attr)

def colLen (islarge : Bool) (attr : FormPgAttribute) : ℕ :=
  if attr.attlen > 0 then attr.attlen.toNat else if islarge then 4 else 2

/-- What `null_saves` has for a column. -/
def colSave (islarge : Bool) (attr : FormPgAttribute) : ℕ :=
  if attrPass islarge attr = 3 then 1 else colLen islarge attr

def colFlag (attr : FormPgAttribute) : MemTupleBindFlag := byRefFlag attr

/-- A physical column, with the number of its attribute. -/
abbrev PhysCol := FormPgAttribute × ℕ

def bindCol (islarge : Bool) (st : ColBindState) (col : PhysCol) : ColBindState :=
  st.bindColumn col.1 col.2 (colAlign islarge col.1) (colLen islarge col.1) (colSave islarge col.1)
    (colFlag col.1)

def physicalCols (islarge : Bool) (tupdesc : TupleDesc) : List PhysCol :=
  (List.range 4).flatMap fun pass =>
    tupdesc.attrs.zipIdx.filter fun col => attrPass islarge col.1 = pass

variable {islarge : Bool} {tupdesc : TupleDesc} {attr : FormPgAttribute} {st : ColBindState}
  {col col' : PhysCol} {cols : List PhysCol}

/-- Every attribute belongs to one pass, and the pass binds it as `bindCol` does. -/
theorem colBindStep_eq (islarge : Bool) {pass : ℕ} (hpass : pass < 4) (st : ColBindState)
    (col : PhysCol) :
    colBindStep islarge pass st col =
      if attrPass islarge col.1 = pass then bindCol islarge st col else st := by
  obtain ⟨attr, i⟩ := col
  obtain hlen | hlen := lt_or_ge 0 attr.attlen
  · have hneg : ¬ attr.attlen < 0 := by omega
    simp only [colBindStep, bindCol, attrPass, colAlign, colSave, colLen, colFlag, byRefFlag,
      attBindAsVaroffset, gt_iff_lt, hlen, hneg, if_true, true_and, decide_false,
      Bool.false_eq_true, and_false, false_and, or_false]
    cases attr.attalign <;> interval_cases pass <;> simp [passAlign, byValFlag]
  · have hneg : attr.attlen < 0 := by
      have := attr.attlen_ok
      omega
    have hpos : ¬ 0 < attr.attlen := by omega
    simp only [colBindStep, bindCol, attrPass, colAlign, colSave, colLen, colFlag, byRefFlag,
      attBindAsVaroffset, gt_iff_lt, hpos, hneg, if_false, decide_true, false_and, and_false,
      not_true_eq_false, and_true, false_or]
    cases islarge <;> interval_cases pass <;> simp [passAlign]

theorem colBindLoops_eq (islarge : Bool) (tupdesc : TupleDesc) (colAlign : ℕ) :
    colBindLoops islarge tupdesc colAlign =
      (physicalCols islarge tupdesc).foldl (bindCol islarge) (colBindInit tupdesc colAlign) := by
  rw [colBindLoops, physicalCols, List.foldl_flatMap]
  refine List.foldl_ext _ _ _ fun st pass hpass => ?_
  rw [List.foldl_filter]
  refine List.foldl_ext _ _ _ fun st col _ => ?_
  rw [colBindStep_eq islarge (List.mem_range.mp hpass)]
  simp only [decide_eq_true_eq]

/-! ## Tables -/

/-- The table adds up the space of the columns, four at a time. -/
def Tabulates (t : Shorts) (f : ℕ → ℤ) : Prop := ∀ e,
  t e = castInt16 (∑ j ∈ Finset.range 4, if (e % 16).testBit j then f (4 * (e / 16) + j) else 0)

theorem tabulates_zero : Tabulates (fun _ => 0) fun _ => 0 := fun e => by
  simp [castInt16]

theorem Tabulates.congr {t : Shorts} {f g : ℕ → ℤ} (h : Tabulates t f) (hfg : ∀ k, f k = g k) :
    Tabulates t g := fun e => by
  simp only [h e, hfg]

theorem castInt16_add (x y : ℤ) : castInt16 (castInt16 x + castInt16 y) = castInt16 (x + y) := by
  rw [castInt16, castInt16, castInt16, castInt16, Int.bmod_add_bmod, Int.add_bmod_bmod]

theorem sum_update {f : ℕ → ℤ} {i : ℕ} (hi : f i = 0) (sz : ℤ) (b g : ℕ) :
    (∑ j ∈ Finset.range 4, if b.testBit j then Function.update f i sz (4 * g + j) else 0) =
      (∑ j ∈ Finset.range 4, if b.testBit j then f (4 * g + j) else 0) +
        if g = i / 4 ∧ b.testBit (i % 4) then sz else 0 := by
  have hterm : ∀ j ∈ Finset.range 4,
      (if b.testBit j then Function.update f i sz (4 * g + j) else 0) =
        (if b.testBit j then f (4 * g + j) else 0) +
          if j = i % 4 then if g = i / 4 ∧ b.testBit (i % 4) then sz else 0 else 0 := by
    intro j hj
    have hj' := Finset.mem_range.mp hj
    by_cases hij : 4 * g + j = i
    · have hg : g = i / 4 := by omega
      have hm : j = i % 4 := by omega
      rw [hij, Function.update_self, hi, ← hm]
      simp [hg]
    · rw [Function.update_of_ne hij]
      by_cases hm : j = i % 4
      · have hg : g ≠ i / 4 := by omega
        simp [hg]
      · simp [hm]
  rw [Finset.sum_congr rfl hterm, Finset.sum_add_distrib, Finset.sum_ite_eq' (Finset.range 4),
    if_pos (Finset.mem_range.mpr (Nat.mod_lt _ (by omega)))]

theorem Tabulates.addNullSave {t : Shorts} {f : ℕ → ℤ} {i : ℕ} (h : Tabulates t f) (hi : f i = 0)
    (sz : ℤ) : Tabulates (addNullSave t i sz) (Function.update f i sz) := by
  intro e
  rw [sum_update hi, MemTuple.addNullSave, h e]
  split_ifs
  · rw [castInt16_add]
  · rw [add_zero]

/-! ## What has been bound -/

section

variable (islarge : Bool) (cols : List PhysCol) (k : ℕ)

/-- The alignment of the column behind. -/
def nextAlign : AttAlign := (cols[k + 1]?).elim .char fun col => colAlign islarge col.1

def saveAt : ℕ := (cols[k]?).elim 0 fun col => colSave islarge col.1

def lenAt : ℕ := (cols[k]?).elim 0 fun col => colLen islarge col.1

/-- The length of a column, padded for the column behind. -/
def paddedAt : ℕ := attAlignNominal (lenAt islarge cols k) (nextAlign islarge cols k)

end

theorem attAlignNominal_char (n : ℕ) : attAlignNominal n .char = n := by
  simp [attAlignNominal, AttAlign.bytes]

theorem alignPrevious_eq (attr : FormPgAttribute) (align : AttAlign) (h : st.physicalCol ≠ 0) :
    st.alignPrevious attr align =
      let bind := st.bindings st.previousBind
      let lenAligned := attAlignNominal bind.len align
      { st with
        bindings := Function.update st.bindings st.previousBind { bind with lenAligned }
        nullSavesAligned := addNullSave st.nullSavesAligned (st.physicalCol - 1) lenAligned
        hasNullSavesAlignmentMismatch :=
          st.hasNullSavesAlignmentMismatch || decide (bind.len = lenAligned)
        hasDroppedAttrAlignmentMismatch := st.hasDroppedAttrAlignmentMismatch ||
          (decide (bind.len = lenAligned) && attr.attisdropped) } := by
  rw [ColBindState.alignPrevious, if_pos h]
  simp only [addNullSaveAligned, decide_eq_true_eq]
  split_ifs with hlen hdropped
  · simp only [decide_eq_true hlen, hdropped, Bool.or_true, Bool.and_true]
  · simp only [decide_eq_true hlen, Bool.eq_false_iff.mpr hdropped, Bool.or_true, Bool.and_false,
      Bool.or_false]
  · simp only [decide_eq_false hlen, Bool.or_false, Bool.false_and]

/-- The end of the fixed part. -/
def endOffset (islarge : Bool) (start : ℕ) (cols : List PhysCol) : ℕ :=
  cols.foldl (fun off col => attAlignNominal off (colAlign islarge col.1) + colLen islarge col.1)
    start

/-- The columns `cols` have been bound. The last one has no aligned length yet. -/
structure Bound (islarge : Bool) (start : ℕ) (cols : List PhysCol) (st : ColBindState) : Prop where
  physicalCol : st.physicalCol = cols.length
  previous : ∀ p ∈ cols.getLast?, st.previousBind = p.2
  curOffset : st.curOffset = endOffset islarge start cols
  offset : ∀ k, ∀ col ∈ cols[k]?, (st.bindings col.2).offset =
    attAlignNominal (endOffset islarge start (cols.take k)) (colAlign islarge col.1)
  len : ∀ k, ∀ col ∈ cols[k]?, (st.bindings col.2).len = lenAt islarge cols k
  flag : ∀ col ∈ cols, (st.bindings col.2).flag = colFlag col.1
  nullBit : ∀ k, ∀ col ∈ cols[k]?,
    (st.bindings col.2).nullByte = k / 8 ∧ (st.bindings col.2).nullMask = 2 ^ (k % 8)
  aligned : ∀ k, ∀ col ∈ cols[k]?, k + 1 < cols.length →
    (st.bindings col.2).lenAligned = paddedAt islarge cols k
  saves : Tabulates st.nullSaves fun k => saveAt islarge cols k
  savesAligned : Tabulates st.nullSavesAligned fun k =>
    if k + 1 < cols.length then paddedAt islarge cols k else 0
  mismatch : st.hasNullSavesAlignmentMismatch = true ↔
    ∃ k, k + 1 < cols.length ∧ lenAt islarge cols k = paddedAt islarge cols k
  dropped : st.hasDroppedAttrAlignmentMismatch = true ↔
    ∃ k, k + 1 < cols.length ∧ lenAt islarge cols k = paddedAt islarge cols k ∧
      ∃ next ∈ cols[k + 1]?, next.1.attisdropped

variable {start k : ℕ}

theorem bound_nil (islarge : Bool) (tupdesc : TupleDesc) (colAlign : ℕ) :
    Bound islarge (colBindInit tupdesc colAlign).curOffset [] (colBindInit tupdesc colAlign) where
  physicalCol := rfl
  previous := by simp
  curOffset := rfl
  offset := by simp
  len := by simp
  flag := by simp
  nullBit := by simp
  aligned := by simp
  saves := tabulates_zero
  savesAligned := tabulates_zero
  mismatch := by simp [colBindInit]
  dropped := by simp [colBindInit]

/-- Columns of one number are one column. -/
theorem eq_of_snd_eq (hnodup : (cols.map Prod.snd).Nodup) {k j : ℕ} {col col' : PhysCol}
    (hcol : col ∈ cols[k]?) (hcol' : col' ∈ cols[j]?) (h : col.2 = col'.2) : k = j := by
  obtain ⟨hk, rfl⟩ := List.getElem?_eq_some_iff.mp hcol
  obtain ⟨hj, rfl⟩ := List.getElem?_eq_some_iff.mp hcol'
  have hk' : k < (cols.map Prod.snd).length := by rwa [List.length_map]
  have hj' : j < (cols.map Prod.snd).length := by rwa [List.length_map]
  have hsame : (cols.map Prod.snd)[k] = (cols.map Prod.snd)[j] := by
    rw [List.getElem_map, List.getElem_map, h]
  exact hnodup.getElem_inj_iff.mp hsame

/-- The column before gets its aligned length. -/
theorem Bound.realign (h : Bound islarge start cols st) (hnodup : (cols.map Prod.snd).Nodup)
    (hne : cols ≠ []) (align : AttAlign) :
    let bind := st.bindings st.previousBind
    let lenAligned := attAlignNominal bind.len align
    let bindings := Function.update st.bindings st.previousBind { bind with lenAligned }
    bind.len = lenAt islarge cols (cols.length - 1) ∧
    (∀ k, ∀ col ∈ cols[k]?, (bindings col.2).lenAligned =
      if k + 1 < cols.length then paddedAt islarge cols k
      else attAlignNominal (lenAt islarge cols k) align) ∧
    Tabulates (addNullSave st.nullSavesAligned (st.physicalCol - 1) lenAligned) fun k =>
      if k + 1 < cols.length then paddedAt islarge cols k
      else if k + 1 = cols.length then attAlignNominal (lenAt islarge cols k) align else 0 := by
  have hpos := List.length_pos_of_ne_nil hne
  have hlast : cols.getLast hne ∈ cols[cols.length - 1]? := by
    rw [Option.mem_def, List.getLast_eq_getElem, List.getElem?_eq_getElem]
  have hprev : st.previousBind = (cols.getLast hne).2 :=
    h.previous _ (List.getLast?_eq_getLast_of_ne_nil hne ▸ rfl)
  have hlen := h.len _ _ hlast
  rw [← hprev] at hlen
  refine ⟨hlen, fun k col hcol => ?_, ?_⟩
  · by_cases hk : k + 1 < cols.length
    · have hother : col.2 ≠ st.previousBind := fun heq => by
        have := eq_of_snd_eq hnodup hcol hlast (heq.trans hprev)
        omega
      rw [if_pos hk, Function.update_of_ne hother]
      exact h.aligned k col hcol hk
    · have hk' : k = cols.length - 1 := by
        have := (List.getElem?_eq_some_iff.mp hcol).1
        omega
      have hsame : col = cols.getLast hne := by
        rw [hk'] at hcol
        exact Option.mem_unique hcol hlast
      rw [if_neg hk, hsame, ← hprev, Function.update_self, hlen, ← hk']
  · have htable := h.savesAligned.addNullSave (i := cols.length - 1) (by
      rw [if_neg (by omega)]) (attAlignNominal (st.bindings st.previousBind).len align)
    rw [h.physicalCol]
    refine htable.congr fun j => ?_
    by_cases hj : j = cols.length - 1
    · rw [hj, Function.update_self, if_neg (by omega), if_pos (by omega), hlen]
    · rw [Function.update_of_ne hj, if_neg (show ¬ j + 1 = cols.length by omega)]

/-! ## One more column -/

theorem lenAt_append (hk : k < cols.length) :
    lenAt islarge (cols ++ [col]) k = lenAt islarge cols k := by
  rw [lenAt, lenAt, List.getElem?_append_left hk]

theorem saveAt_append (hk : k < cols.length) :
    saveAt islarge (cols ++ [col]) k = saveAt islarge cols k := by
  rw [saveAt, saveAt, List.getElem?_append_left hk]

theorem paddedAt_append : k + 1 < cols.length →
    paddedAt islarge (cols ++ [col]) k = paddedAt islarge cols k := fun hk => by
  rw [paddedAt, paddedAt, nextAlign, nextAlign, lenAt_append (by omega),
    List.getElem?_append_left hk]

theorem paddedAt_append_last (hk : k + 1 = cols.length) : paddedAt islarge (cols ++ [col]) k =
    attAlignNominal (lenAt islarge cols k) (colAlign islarge col.1) := by
  rw [paddedAt, nextAlign, lenAt_append (by omega), hk, List.getElem?_concat_length]
  rfl

theorem paddedAt_last (hk : k + 1 = cols.length) :
    paddedAt islarge cols k = lenAt islarge cols k := by
  rw [paddedAt, nextAlign, List.getElem?_eq_none (by omega), Option.elim_none, attAlignNominal_char]

/-- What is known when the column before the next one, `col`, has its aligned length. -/
structure Realigned (islarge : Bool) (cols : List PhysCol) (col : PhysCol)
    (st st' : ColBindState) : Prop where
  physicalCol : st'.physicalCol = st.physicalCol
  nullSaves : st'.nullSaves = st.nullSaves
  other : ∀ x, (st'.bindings x).offset = (st.bindings x).offset ∧
    (st'.bindings x).len = (st.bindings x).len ∧ (st'.bindings x).flag = (st.bindings x).flag ∧
    (st'.bindings x).nullByte = (st.bindings x).nullByte ∧
    (st'.bindings x).nullMask = (st.bindings x).nullMask
  aligned : ∀ k, ∀ c ∈ cols[k]?, (st'.bindings c.2).lenAligned = paddedAt islarge (cols ++ [col]) k
  savesAligned : Tabulates st'.nullSavesAligned fun k =>
    if k + 1 < (cols ++ [col]).length then paddedAt islarge (cols ++ [col]) k else 0
  mismatch : st'.hasNullSavesAlignmentMismatch = true ↔ ∃ k, k + 1 < (cols ++ [col]).length ∧
    lenAt islarge (cols ++ [col]) k = paddedAt islarge (cols ++ [col]) k
  dropped : st'.hasDroppedAttrAlignmentMismatch = true ↔ ∃ k, k + 1 < (cols ++ [col]).length ∧
    lenAt islarge (cols ++ [col]) k = paddedAt islarge (cols ++ [col]) k ∧
      ∃ next ∈ (cols ++ [col])[k + 1]?, next.1.attisdropped

theorem Bound.realigned (h : Bound islarge start cols st) (hnodup : (cols.map Prod.snd).Nodup)
    (col : PhysCol) (nullSaves : Shorts) :
    Realigned islarge cols col { st with nullSaves }
      ({ st with nullSaves }.alignPrevious col.1 (colAlign islarge col.1)) := by
  by_cases hne : cols = []
  · have hzero : ({ st with nullSaves } : ColBindState).physicalCol = 0 := by
      rw [h.physicalCol, hne, List.length_nil]
    have hnone : ∀ k, ¬ k + 1 < (cols ++ [col]).length := by
      intro k
      rw [hne, List.nil_append, List.length_singleton]
      omega
    rw [ColBindState.alignPrevious, if_neg (not_not.mpr hzero)]
    refine ⟨rfl, rfl, fun _ => ⟨rfl, rfl, rfl, rfl, rfl⟩, ?_, ?_, ?_, ?_⟩
    · rw [hne]
      simp
    · refine h.savesAligned.congr fun k => ?_
      rw [if_neg (hnone k), if_neg (by rw [hne, List.length_nil]; omega)]
    · rw [h.mismatch, hne]
      simp
    · rw [h.dropped, hne]
      simp
  · have hpos := List.length_pos_of_ne_nil hne
    have hphys : ({ st with nullSaves } : ColBindState).physicalCol ≠ 0 := by
      rw [h.physicalCol]
      omega
    obtain ⟨hlen, haligned, htable⟩ := h.realign hnodup hne (colAlign islarge col.1)
    have hlength : (cols ++ [col]).length = cols.length + 1 := by
      rw [List.length_append, List.length_singleton]
    -- The columns before the last one stay as they are.
    have hpadded : ∀ k, k + 1 < (cols ++ [col]).length → paddedAt islarge (cols ++ [col]) k =
        if k + 1 < cols.length then paddedAt islarge cols k
        else attAlignNominal (lenAt islarge cols k) (colAlign islarge col.1) := by
      intro k hk
      rw [hlength] at hk
      split_ifs with hlt
      · exact paddedAt_append hlt
      · exact paddedAt_append_last (by omega)
    have hexact : ∀ (p : ℕ → Prop), (∃ k, k + 1 < (cols ++ [col]).length ∧
        lenAt islarge (cols ++ [col]) k = paddedAt islarge (cols ++ [col]) k ∧ p k) ↔
        (∃ k, k + 1 < cols.length ∧ lenAt islarge cols k = paddedAt islarge cols k ∧ p k) ∨
          (st.bindings st.previousBind).len = attAlignNominal (st.bindings st.previousBind).len
            (colAlign islarge col.1) ∧ p (cols.length - 1) := by
      intro p
      constructor
      · rintro ⟨k, hk, heq, hp⟩
        rw [hlength] at hk
        rw [lenAt_append (by omega), hpadded k (by omega)] at heq
        split_ifs at heq with hlt
        · exact Or.inl ⟨k, hlt, heq, hp⟩
        · have hlast : k = cols.length - 1 := by omega
          rw [hlast] at heq hp
          exact Or.inr ⟨by rw [hlen]; exact heq, hp⟩
      · rintro (⟨k, hk, heq, hp⟩ | ⟨heq, hp⟩)
        · exact ⟨k, by omega, by rw [lenAt_append (by omega), paddedAt_append hk, heq], hp⟩
        · refine ⟨cols.length - 1, by omega, ?_, hp⟩
          rw [lenAt_append (by omega), paddedAt_append_last (by omega), ← hlen]
          exact heq
    rw [alignPrevious_eq _ _ hphys]
    refine ⟨rfl, rfl, fun x => ?_, fun k c hc => ?_, ?_, ?_, ?_⟩
    · dsimp only
      by_cases hx : x = st.previousBind
      · rw [hx, Function.update_self]
        exact ⟨rfl, rfl, rfl, rfl, rfl⟩
      · rw [Function.update_of_ne hx]
        exact ⟨rfl, rfl, rfl, rfl, rfl⟩
    · have hk := (List.getElem?_eq_some_iff.mp hc).1
      rw [hpadded k (by omega)]
      exact haligned k c hc
    · refine htable.congr fun k => ?_
      by_cases hk : k + 1 < (cols ++ [col]).length
      · rw [if_pos hk, hpadded k hk]
        rw [hlength] at hk
        split_ifs <;> first | rfl | omega
      · rw [if_neg hk, if_neg (by omega), if_neg (by omega)]
    · have hiff := hexact fun _ => True
      simp only [and_true] at hiff
      rw [Bool.or_eq_true, h.mismatch, decide_eq_true_iff]
      exact hiff.symm
    · have hiff := hexact fun k => ∃ next ∈ (cols ++ [col])[k + 1]?, next.1.attisdropped
      rw [Bool.or_eq_true, h.dropped, Bool.and_eq_true, decide_eq_true_iff]
      refine Iff.trans (or_congr ?_ (and_congr_right fun _ => ?_)) hiff.symm
      · refine exists_congr fun k => and_congr_right fun hk => and_congr_right fun _ => ?_
        rw [List.getElem?_append_left hk]
      · rw [Nat.sub_add_cancel hpos, List.getElem?_concat_length]
        simp

theorem Bound.snoc (h : Bound islarge start cols st) (col : PhysCol)
    (hnodup : ((cols ++ [col]).map Prod.snd).Nodup) :
    Bound islarge start (cols ++ [col]) (bindCol islarge st col) := by
  have hnodup' : (cols.map Prod.snd).Nodup := by
    rw [List.map_append] at hnodup
    exact (List.nodup_append.mp hnodup).1
  have hnew : ∀ (k : ℕ) (c : PhysCol), c ∈ cols[k]? → c.2 ≠ col.2 := by
    intro k c hc heq
    have hk := (List.getElem?_eq_some_iff.mp hc).1
    have hc' : c ∈ (cols ++ [col])[k]? := by rwa [List.getElem?_append_left hk]
    have hcol : col ∈ (cols ++ [col])[cols.length]? := by rw [List.getElem?_concat_length]; rfl
    have := eq_of_snd_eq hnodup hc' hcol heq
    omega
  have h₁ := h.realigned hnodup' col (MemTuple.addNullSave st.nullSaves st.physicalCol
    (colSave islarge col.1))
  -- Each column is an old one, whose binding stays, or the new one.
  have hcases : ∀ (k : ℕ) (c : PhysCol), c ∈ (cols ++ [col])[k]? →
      c ∈ cols[k]? ∨ k = cols.length ∧ c = col := by
    intro k c hc
    by_cases hk : k < cols.length
    · rw [List.getElem?_append_left hk] at hc
      exact Or.inl hc
    · have hk' := (List.getElem?_eq_some_iff.mp hc).1
      rw [List.length_append, List.length_singleton] at hk'
      have hk'' : k = cols.length := by omega
      rw [hk'', List.getElem?_concat_length] at hc
      exact Or.inr ⟨hk'', (Option.some_inj.mp hc).symm⟩
  generalize hsaves : MemTuple.addNullSave st.nullSaves st.physicalCol
    (colSave islarge col.1) = saves at h₁
  generalize hst₁ : ({ st with nullSaves := saves } : ColBindState).alignPrevious col.1
    (colAlign islarge col.1) = st₁ at h₁
  have hbind : bindCol islarge st col =
      { st₁ with
        bindings := Function.update st₁.bindings col.2
          ⟨attAlignNominal st.curOffset (colAlign islarge col.1), colLen islarge col.1,
            (st₁.bindings col.2).lenAligned, colFlag col.1, st₁.physicalCol >>> 3,
            1 <<< (st₁.physicalCol - (st₁.physicalCol >>> 3 <<< 3))⟩
        physicalCol := st₁.physicalCol + 1
        curOffset := attAlignNominal st.curOffset (colAlign islarge col.1) + colLen islarge col.1
        previousBind := col.2 } := by
    rw [← hst₁, ← hsaves]
    rfl
  have hphys : st₁.physicalCol = cols.length := h₁.physicalCol.trans h.physicalCol
  have hlength : (cols ++ [col]).length = cols.length + 1 := by
    rw [List.length_append, List.length_singleton]
  have hold : ∀ (k : ℕ) (c : PhysCol), c ∈ cols[k]? →
      (bindCol islarge st col).bindings c.2 = st₁.bindings c.2 := by
    intro k c hc
    rw [hbind]
    exact Function.update_of_ne (hnew k c hc) _ _
  have hself : (bindCol islarge st col).bindings col.2 =
      ⟨attAlignNominal st.curOffset (colAlign islarge col.1), colLen islarge col.1,
        (st₁.bindings col.2).lenAligned, colFlag col.1, st₁.physicalCol >>> 3,
        1 <<< (st₁.physicalCol - (st₁.physicalCol >>> 3 <<< 3))⟩ := by
    rw [hbind]
    exact Function.update_self ..
  constructor
  · rw [hbind, hlength, ← hphys]
  · rw [hbind, List.getLast?_concat]
    rintro p ⟨rfl⟩
    rfl
  · have hend := h.curOffset
    rw [hbind]
    rw [endOffset] at hend ⊢
    rw [List.foldl_append, ← hend]
    rfl
  · intro k c hc
    obtain hc' | ⟨rfl, rfl⟩ := hcases k c hc
    · have hk := (List.getElem?_eq_some_iff.mp hc').1
      rw [hold k c hc', (h₁.other c.2).1, h.offset k c hc', List.take_append_of_le_length hk.le]
    · rw [hself, List.take_left, ← h.curOffset]
  · intro k c hc
    obtain hc' | ⟨rfl, rfl⟩ := hcases k c hc
    · have hk := (List.getElem?_eq_some_iff.mp hc').1
      rw [hold k c hc', (h₁.other c.2).2.1, h.len k c hc', lenAt_append hk]
    · rw [hself, lenAt, List.getElem?_concat_length]
      rfl
  · intro c hc
    obtain ⟨k, hk⟩ := List.getElem?_of_mem hc
    obtain hc' | ⟨rfl, rfl⟩ := hcases k c hk
    · rw [hold k c hc', (h₁.other c.2).2.2.1, h.flag c (List.mem_of_getElem? hc')]
    · rw [hself]
  · intro k c hc
    obtain hc' | ⟨rfl, rfl⟩ := hcases k c hc
    · rw [hold k c hc', (h₁.other c.2).2.2.2.1, (h₁.other c.2).2.2.2.2]
      exact h.nullBit k c hc'
    · rw [hself, hphys, Nat.one_shiftLeft, Nat.shiftRight_eq_div_pow, Nat.shiftLeft_eq]
      refine ⟨rfl, congrArg (2 ^ ·) ?_⟩
      omega
  · intro k c hc hk
    obtain hc' | ⟨rfl, rfl⟩ := hcases k c hc
    · rw [hold k c hc']
      exact h₁.aligned k c hc'
    · omega
  · have htable := h.saves.addNullSave (i := cols.length) (by
      rw [saveAt, List.getElem?_eq_none le_rfl, Option.elim_none, Nat.cast_zero])
        (colSave islarge col.1)
    rw [hbind]
    dsimp only
    rw [h₁.nullSaves, ← hsaves, h.physicalCol]
    refine htable.congr fun k => ?_
    by_cases hk : k = cols.length
    · rw [hk, Function.update_self, saveAt, List.getElem?_concat_length]
      rfl
    · rw [Function.update_of_ne hk]
      by_cases hlt : k < cols.length
      · rw [saveAt_append hlt]
      · rw [saveAt, saveAt, List.getElem?_eq_none (by omega), List.getElem?_eq_none (by omega)]
  · rw [hbind]
    exact h₁.savesAligned
  · rw [hbind]
    exact h₁.mismatch
  · rw [hbind]
    exact h₁.dropped

theorem bound_foldl (islarge : Bool) (tupdesc : TupleDesc) (colAlign : ℕ) (cols : List PhysCol)
    (hnodup : (cols.map Prod.snd).Nodup) :
    Bound islarge (colBindInit tupdesc colAlign).curOffset cols
      (cols.foldl (bindCol islarge) (colBindInit tupdesc colAlign)) := by
  induction cols using List.reverseRecOn with
  | nil => exact bound_nil islarge tupdesc colAlign
  | append_singleton cols col ih =>
    rw [List.foldl_append]
    refine (ih ?_).snoc col hnodup
    rw [List.map_append] at hnodup
    exact (List.nodup_append.mp hnodup).1

/-! ## The whole binding -/

theorem mem_physicalCols : col ∈ physicalCols islarge tupdesc ↔
    tupdesc.attrs[col.2]? = some col.1 := by
  rw [physicalCols, List.mem_flatMap]
  simp only [List.mem_range, List.mem_filter, decide_eq_true_eq]
  constructor
  · rintro ⟨pass, -, hcol, -⟩
    exact List.mem_zipIdx_iff_getElem?.mp hcol
  · intro hcol
    refine ⟨attrPass islarge col.1, ?_, List.mem_zipIdx_iff_getElem?.mpr hcol, rfl⟩
    rw [attrPass]
    split_ifs
    · cases col.1.attalign <;> decide
    · decide
    · decide

theorem nodup_zipIdx (attrs : List FormPgAttribute) : (attrs.zipIdx.map Prod.snd).Nodup := by
  rw [List.zipIdx_map_snd]
  exact List.nodup_range'

theorem nodup_physicalCols (islarge : Bool) (tupdesc : TupleDesc) :
    ((physicalCols islarge tupdesc).map Prod.snd).Nodup := by
  rw [physicalCols, List.map_flatMap, List.nodup_flatMap]
  constructor
  · exact fun pass _ => (nodup_zipIdx tupdesc.attrs).sublist (List.filter_sublist.map _)
  · refine List.nodup_range.pairwise_of_forall_ne fun pass _ pass' _ hne => ?_
    rw [Function.onFun, List.disjoint_left]
    intro i hi hi'
    obtain ⟨col, hcol, rfl⟩ := List.mem_map.mp hi
    obtain ⟨col', hcol', heq⟩ := List.mem_map.mp hi'
    rw [List.mem_filter, decide_eq_true_eq] at hcol hcol'
    -- One number has one attribute, which belongs to one pass.
    have hattr := List.mem_zipIdx_iff_getElem?.mp hcol.1
    rw [← heq, List.mem_zipIdx_iff_getElem?.mp hcol'.1, Option.some_inj] at hattr
    exact hne (by rw [← hcol.2, ← hcol'.2, hattr])

theorem physicalCols_perm (islarge : Bool) (tupdesc : TupleDesc) :
    (physicalCols islarge tupdesc).Perm tupdesc.attrs.zipIdx := by
  refine (List.perm_ext_iff_of_nodup (nodup_physicalCols islarge tupdesc).of_map
    (nodup_zipIdx tupdesc.attrs).of_map).mpr fun col => ?_
  rw [mem_physicalCols, List.mem_zipIdx_iff_getElem?]

theorem length_physicalCols (islarge : Bool) (tupdesc : TupleDesc) :
    (physicalCols islarge tupdesc).length = tupdesc.natts := by
  rw [(physicalCols_perm islarge tupdesc).length_eq, List.length_zipIdx, TupleDesc.natts]

/-- What `create_col_bind` returns, by the physical columns `cols`. -/
structure ColBindSpec (islarge : Bool) (tupdesc : TupleDesc) (start : ℕ) (cols : List PhysCol)
    (bind : MemTupleBindingCols) : Prop where
  varStart : bind.varStart = if tupdesc.natts ≠ 0 then endOffset islarge start cols else 8
  offset : ∀ k, ∀ col ∈ cols[k]?, (bind.bindings col.2).offset =
    attAlignNominal (endOffset islarge start (cols.take k)) (colAlign islarge col.1)
  len : ∀ k, ∀ col ∈ cols[k]?, (bind.bindings col.2).len = lenAt islarge cols k
  lenAligned : ∀ k, ∀ col ∈ cols[k]?, (bind.bindings col.2).lenAligned = paddedAt islarge cols k
  flag : ∀ col ∈ cols, (bind.bindings col.2).flag = colFlag col.1
  nullBit : ∀ k, ∀ col ∈ cols[k]?,
    (bind.bindings col.2).nullByte = k / 8 ∧ (bind.bindings col.2).nullMask = 2 ^ (k % 8)
  savesAligned : Tabulates bind.nullSavesAligned fun k => paddedAt islarge cols k
  mismatch : bind.hasNullSavesAlignmentMismatch = true ↔
    ∃ k, k + 1 < cols.length ∧ lenAt islarge cols k = paddedAt islarge cols k
  dropped : bind.hasDroppedAttrAlignmentMismatch = true ↔
    ∃ k, k + 1 < cols.length ∧ lenAt islarge cols k = paddedAt islarge cols k ∧
      ∃ next ∈ cols[k + 1]?, next.1.attisdropped
  nullSaves : bind.nullSaves.isSome = bind.hasNullSavesAlignmentMismatch

theorem paddedAt_of_le (hk : cols.length ≤ k) : paddedAt islarge cols k = 0 := by
  rw [paddedAt, lenAt, List.getElem?_eq_none hk, nextAlign, List.getElem?_eq_none (by omega)]
  exact attAlignNominal_char 0

theorem colBindLoops_saves (islarge : Bool) (tupdesc : TupleDesc) (colAlign : ℕ) :
    Tabulates (colBindLoops islarge tupdesc colAlign).nullSaves fun k =>
      saveAt islarge (physicalCols islarge tupdesc) k := by
  rw [colBindLoops_eq]
  exact (bound_foldl islarge tupdesc colAlign _ (nodup_physicalCols islarge tupdesc)).saves

theorem createColBind_spec (islarge : Bool) (tupdesc : TupleDesc) (colAlign : ℕ) :
    ColBindSpec islarge tupdesc (colBindInit tupdesc colAlign).curOffset
      (physicalCols islarge tupdesc) (createColBind islarge tupdesc colAlign) := by
  have hnodup := nodup_physicalCols islarge tupdesc
  have h := bound_foldl islarge tupdesc colAlign _ hnodup
  rw [← colBindLoops_eq] at h
  rw [createColBind]
  generalize colBindLoops islarge tupdesc colAlign = st at h
  generalize physicalCols islarge tupdesc = cols at h hnodup
  have hphys := h.physicalCol
  -- The last step changes the aligned length of one binding, and the table of them.
  obtain ⟨hother, haligned, htable⟩ :
    (∀ x, (st.alignLast.bindings x).offset = (st.bindings x).offset ∧
      (st.alignLast.bindings x).len = (st.bindings x).len ∧
      (st.alignLast.bindings x).flag = (st.bindings x).flag ∧
      (st.alignLast.bindings x).nullByte = (st.bindings x).nullByte ∧
      (st.alignLast.bindings x).nullMask = (st.bindings x).nullMask) ∧
      (∀ k, ∀ col ∈ cols[k]?, (st.alignLast.bindings col.2).lenAligned = paddedAt islarge cols k) ∧
      Tabulates st.alignLast.nullSavesAligned fun k => paddedAt islarge cols k := by
    by_cases hne : cols = []
    · rw [ColBindState.alignLast, if_neg (by rw [hphys, hne]; simp)]
      refine ⟨fun _ => ⟨rfl, rfl, rfl, rfl, rfl⟩, by simp [hne], h.savesAligned.congr fun k => ?_⟩
      rw [if_neg (by rw [hne, List.length_nil]; omega), paddedAt_of_le (by rw [hne]; simp)]
      rfl
    · have hpos := List.length_pos_of_ne_nil hne
      obtain ⟨-, haligned, htable⟩ := h.realign hnodup hne .char
      rw [ColBindState.alignLast, if_pos (by omega)]
      refine ⟨fun x => ?_, fun k col hcol => (haligned k col hcol).trans ?_,
        htable.congr fun k => ?_⟩
      · dsimp only [addNullSaveAligned]
        by_cases hx : x = st.previousBind
        · rw [hx, Function.update_self]
          exact ⟨rfl, rfl, rfl, rfl, rfl⟩
        · rw [Function.update_of_ne hx]
          exact ⟨rfl, rfl, rfl, rfl, rfl⟩
      · have hk := (List.getElem?_eq_some_iff.mp hcol).1
        split_ifs with hlt
        · rfl
        · rw [attAlignNominal_char, paddedAt_last (by omega)]
      · split_ifs with hlt hlast
        · rfl
        · rw [attAlignNominal_char, paddedAt_last hlast]
        · rw [paddedAt_of_le (by omega), Nat.cast_zero]
  have hsame : st.alignLast.curOffset = st.curOffset ∧
      st.alignLast.hasNullSavesAlignmentMismatch = st.hasNullSavesAlignmentMismatch ∧
      st.alignLast.hasDroppedAttrAlignmentMismatch = st.hasDroppedAttrAlignmentMismatch := by
    rw [ColBindState.alignLast]
    split_ifs
    · exact ⟨rfl, rfl, rfl⟩
    · exact ⟨rfl, rfl, rfl⟩
  refine ⟨by rw [← h.curOffset, ← hsame.1],
    fun k col hcol => (hother col.2).1.trans (h.offset k col hcol),
    fun k col hcol => (hother col.2).2.1.trans (h.len k col hcol), haligned,
    fun col hcol => (hother col.2).2.2.1.trans (h.flag col hcol), fun k col hcol => ?_, htable,
    by rw [← h.mismatch, ← hsame.2.1], by rw [← h.dropped, ← hsame.2.2], ?_⟩
  · rw [(hother col.2).2.2.2.1, (hother col.2).2.2.2.2]
    exact h.nullBit k col hcol
  · dsimp only
    cases st.alignLast.hasNullSavesAlignmentMismatch
    · rfl
    · rfl

end Hdb.MemTuple

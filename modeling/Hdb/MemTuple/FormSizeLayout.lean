import Hdb.MemTuple.FormSize

/-!
# The fixed part of a row

The physical columns come in order of falling alignment, so the fixed part of a row is its header,
its null bitmap and the padded lengths of the columns that are not NULL (`endOffset_eq`). Only the
padding of the last column of a pass can differ in the two bindings, apart from the offsets of the
variable part: the large binding takes two bytes more for each of those and saves at most one byte
(`keptSize_short_le`).
-/

namespace Hdb.MemTuple

variable {islarge : Bool} {tupdesc : TupleDesc} {col : PhysCol} {cols : List PhysCol}
  {keep : ℕ → Bool} {next : AttAlign}

/-! ## Padded lengths -/

def firstAlign (islarge : Bool) (next : AttAlign) (cols : List PhysCol) : AttAlign :=
  cols.head?.elim next fun col => colAlign islarge col.1

/-- The padded lengths of the columns that are kept, with `next` behind the last one. -/
def keptSize (islarge : Bool) (keep : ℕ → Bool) (next : AttAlign) : List PhysCol → ℕ
  | [] => 0
  | col :: cols =>
    (if keep col.2 then attAlignNominal (colLen islarge col.1) (firstAlign islarge next cols)
      else 0) +
      keptSize islarge keep next cols

@[simp] theorem keptSize_nil : keptSize islarge keep next [] = 0 := rfl

theorem keptSize_cons (col : PhysCol) : keptSize islarge keep next (col :: cols) =
    (if keep col.2 then attAlignNominal (colLen islarge col.1) (firstAlign islarge next cols)
      else 0) +
      keptSize islarge keep next cols := rfl

theorem firstAlign_append (cols cols' : List PhysCol) : firstAlign islarge next (cols ++ cols') =
    firstAlign islarge (firstAlign islarge next cols') cols := by
  cases cols with
  | nil => rfl
  | cons col cols => rfl

theorem keptSize_append (cols cols' : List PhysCol) :
    keptSize islarge keep next (cols ++ cols') =
      keptSize islarge keep (firstAlign islarge next cols') cols + keptSize islarge keep next
      cols' := by
  induction cols with
  | nil => rw [List.nil_append, keptSize_nil, Nat.zero_add]
  | cons col cols ih =>
    rw [List.cons_append, keptSize_cons, keptSize_cons, ih, firstAlign_append, Nat.add_assoc]

/-- Every column is kept or not. -/
theorem keptSize_split (keep : ℕ → Bool) (cols : List PhysCol) :
    keptSize islarge (fun _ => true) next cols =
      keptSize islarge keep next cols + keptSize islarge (fun i => !keep i) next cols := by
  induction cols with
  | nil => rfl
  | cons col cols ih =>
    rw [keptSize_cons, keptSize_cons, keptSize_cons, ih, if_pos rfl]
    cases keep col.2
    · simp only [Bool.false_eq_true, if_false, Bool.not_false, if_true]
      omega
    · simp only [if_true, Bool.not_true, Bool.false_eq_true, if_false]
      omega

theorem keptSize_none (h : ∀ col ∈ cols, keep col.2 = false) :
    keptSize islarge keep next cols = 0 := by
  induction cols with
  | nil => rfl
  | cons col cols ih =>
    rw [keptSize_cons, h col List.mem_cons_self, ih fun c hc => h c (List.mem_cons_of_mem col hc)]
    rfl

theorem sum_eq_keptSize (len : ℕ → ℕ)
    (h : ∀ k, ∀ col ∈ cols[k]?, len col.2 = paddedAt islarge cols k) :
    (cols.map fun col => if keep col.2 then len col.2 else 0).sum =
      keptSize islarge keep .char cols := by
  induction cols with
  | nil => rfl
  | cons col cols ih =>
    have hfirst : len col.2 = attAlignNominal (colLen islarge col.1)
        (firstAlign islarge .char cols) := by
      rw [h 0 col rfl]
      cases cols with
      | nil => rfl
      | cons next cols => rfl
    rw [List.map_cons, List.sum_cons, keptSize_cons, hfirst, ih fun k c hc => ?_]
    exact h (k + 1) c hc

/-- What the NULLs save is the padded length of their columns. -/
theorem nullSaved_eq (islarge : Bool) (tupdesc : TupleDesc) (isnull : ℕ → Bool) (colAlign : ℕ) :
    nullSaved (createColBind islarge tupdesc colAlign) isnull (List.range tupdesc.natts) =
      keptSize islarge isnull .char (physicalCols islarge tupdesc) := by
  have hspec := createColBind_spec islarge tupdesc colAlign
  have hnumbers : List.range tupdesc.natts = tupdesc.attrs.zipIdx.map Prod.snd := by
    rw [List.zipIdx_map_snd, TupleDesc.natts, List.range_eq_range']
  rw [nullSaved, hnumbers, List.map_map, ← sum_eq_keptSize
    (fun i => ((createColBind islarge tupdesc colAlign).bindings i).lenAligned) hspec.lenAligned]
  exact ((physicalCols_perm islarge tupdesc).symm.map _).sum_eq

/-! ## The end of the fixed part -/

/-- The alignments fall along the physical columns. -/
def Falling (islarge : Bool) (cols : List PhysCol) : Prop :=
  cols.Pairwise fun col col' => (colAlign islarge col'.1).bytes ∣ (colAlign islarge col.1).bytes

theorem passAlign_dvd {pass pass' : ℕ} (h : pass ≤ pass') :
    (passAlign pass').bytes ∣ (passAlign pass).bytes := by
  obtain hlt | hge := lt_or_ge pass' 3
  · interval_cases pass' <;> interval_cases pass <;> decide
  · obtain ⟨n, rfl⟩ := Nat.exists_eq_add_of_le' hge
    exact one_dvd _

theorem falling_physicalCols (islarge : Bool) (tupdesc : TupleDesc) :
    Falling islarge (physicalCols islarge tupdesc) := by
  have hpass : ∀ {pass}, ∀ col ∈ tupdesc.attrs.zipIdx.filter fun col => attrPass islarge col.1 =
    pass, colAlign islarge col.1 = passAlign pass := by
    intro pass col hcol
    rw [colAlign, of_decide_eq_true (List.mem_filter.mp hcol).2]
  rw [Falling, physicalCols, List.pairwise_flatMap]
  constructor
  · refine fun pass _ => List.pairwise_of_forall_mem_list fun col hcol col' hcol' => ?_
    rw [hpass col hcol, hpass col' hcol']
  · refine List.pairwise_lt_range.imp fun hlt col hcol col' hcol' => ?_
    rw [hpass col hcol, hpass col' hcol']
    exact passAlign_dvd hlt.le

theorem attAlignNominal_add (x : ℕ) {off : ℕ} {align : AttAlign} (h : align.bytes ∣ off) :
    attAlignNominal (off + x) align = off + attAlignNominal x align := by
  obtain ⟨c, rfl⟩ := h
  cases align <;> simp only [attAlignNominal, AttAlign.bytes] <;> omega

theorem bytes_dvd_attAlignNominal (x : ℕ) (align : AttAlign) :
    align.bytes ∣ attAlignNominal x align :=
  Dvd.intro_left _ rfl

theorem endOffset_add (hfalling : Falling islarge cols) (x : ℕ) {off : ℕ}
    (hoff : (firstAlign islarge .char cols).bytes ∣ off) :
    endOffset islarge (off + x) cols =
      off + attAlignNominal x (firstAlign islarge .char cols) +
        keptSize islarge (fun _ => true) .char cols := by
  induction cols generalizing off x with
  | nil =>
    rw [firstAlign, List.head?_nil, Option.elim_none, attAlignNominal_char]
    rfl
  | cons col cols ih =>
    have hfirst : firstAlign islarge .char (col :: cols) = colAlign islarge col.1 := rfl
    have hnext : (firstAlign islarge .char cols).bytes ∣ (colAlign islarge col.1).bytes := by
      cases cols with
      | nil => exact one_dvd _
      | cons next cols => exact (List.pairwise_cons.mp hfalling).1 next List.mem_cons_self
    rw [hfirst] at hoff ⊢
    have hdvd : (firstAlign islarge .char cols).bytes ∣
        off + attAlignNominal x (colAlign islarge col.1) :=
      hnext.trans (Nat.dvd_add hoff (bytes_dvd_attAlignNominal x _))
    rw [endOffset, List.foldl_cons, ← endOffset, attAlignNominal_add x hoff,
      ih (List.pairwise_cons.mp hfalling).2 (colLen islarge col.1) hdvd, keptSize_cons, if_pos rfl]
    omega

theorem columnAlignOf_eq {attr : FormPgAttribute} (hattr : attr ∈ tupdesc.attrs)
    (hdouble : attr.attlen > 0 ∧ attr.attalign = .double) : columnAlignOf tupdesc = 8 := by
  have hfold : ∀ (attrs : List FormPgAttribute) (n : ℕ), n = 8 ∨ attr ∈ attrs →
      attrs.foldl (fun columnAlign attr =>
        if attr.attlen > 0 ∧ attr.attalign = .double then 8 else columnAlign) n = 8 := by
    intro attrs
    induction attrs with
    | nil => exact fun n h => h.resolve_right List.not_mem_nil
    | cons attr' attrs ih =>
      intro n h
      refine ih _ ?_
      obtain rfl | h := h
      · exact .inl (ite_self _)
      · obtain rfl | h := List.mem_cons.mp h
        · exact .inl (if_pos hdouble)
        · exact .inr h
  exact hfold tupdesc.attrs 4 (.inr hattr)

/-- The first column starts where the header ends. -/
theorem firstAlign_dvd_start (islarge : Bool) (tupdesc : TupleDesc) :
    (firstAlign islarge .char (physicalCols islarge tupdesc)).bytes ∣
      (colBindInit tupdesc (columnAlignOf tupdesc)).curOffset := by
  have hstart : (colBindInit tupdesc (columnAlignOf tupdesc)).curOffset =
      if tupdesc.tdhasoid ∨ columnAlignOf tupdesc = 8 then 8 else 4 := rfl
  have hfour : 4 ∣ (colBindInit tupdesc (columnAlignOf tupdesc)).curOffset := by
    rw [hstart]
    split_ifs <;> decide
  cases hcols : physicalCols islarge tupdesc with
  | nil => exact one_dvd _
  | cons col cols =>
    have hattr : col.1 ∈ tupdesc.attrs :=
      List.mem_of_getElem? (mem_physicalCols.mp (hcols ▸ List.mem_cons_self))
    change (passAlign (attrPass islarge col.1)).bytes ∣ _
    by_cases hpass : attrPass islarge col.1 = 0
    · have hdouble : col.1.attlen > 0 ∧ col.1.attalign = .double := by
        rw [attrPass] at hpass
        split_ifs at hpass with hlen hlarge
        refine ⟨hlen, ?_⟩
        cases halign : col.1.attalign <;> rw [halign] at hpass <;> simp at hpass
      rw [hstart, if_pos (.inr (columnAlignOf_eq hattr hdouble)), hpass]
      decide
    · exact (passAlign_dvd (Nat.one_le_iff_ne_zero.mpr hpass)).trans hfour

theorem varStart_eq (islarge : Bool) (tupdesc : TupleDesc) :
    (createColBind islarge tupdesc (columnAlignOf tupdesc)).varStart =
      (if tupdesc.natts ≠ 0 then (colBindInit tupdesc (columnAlignOf tupdesc)).curOffset else 8) +
        keptSize islarge (fun _ => true) .char (physicalCols islarge tupdesc) := by
  have hspec := createColBind_spec islarge tupdesc (columnAlignOf tupdesc)
  have hend := endOffset_add (falling_physicalCols islarge tupdesc) 0
    (firstAlign_dvd_start islarge tupdesc)
  rw [hspec.varStart]
  split_ifs with hnatts
  · rw [Nat.add_zero] at hend
    rw [hend]
    cases firstAlign islarge .char (physicalCols islarge tupdesc) <;> rfl
  · have hnil : physicalCols islarge tupdesc = [] :=
      List.eq_nil_of_length_eq_zero
        ((length_physicalCols islarge tupdesc).trans (not_not.mp hnatts))
    rw [hnil, keptSize_nil]

/-! ## The passes of both bindings -/

/-- The columns of variable length that are kept. -/
def keptVars (keep : ℕ → Bool) (cols : List PhysCol) : ℕ :=
  cols.countP fun col => keep col.2 ∧ col.1.attlen < 0

theorem attAlignNominal_mono (x : ℕ) {align align' : AttAlign} (h : align.bytes ≤ align'.bytes) :
    attAlignNominal x align ≤ attAlignNominal x align' := by
  cases align <;> cases align' <;>
    simp only [attAlignNominal, AttAlign.bytes] at h ⊢ <;> omega

theorem keptSize_mono {next' : AttAlign} (h : next.bytes ≤ next'.bytes) (cols : List PhysCol) :
    keptSize islarge keep next cols ≤ keptSize islarge keep next' cols := by
  induction cols with
  | nil => exact le_rfl
  | cons col cols ih =>
    have hfirst : (firstAlign islarge next cols).bytes ≤ (firstAlign islarge next' cols).bytes := by
      cases cols with
      | nil => exact h
      | cons next cols => exact le_rfl
    have hterm := attAlignNominal_mono (colLen islarge col.1) hfirst
    rw [keptSize_cons, keptSize_cons]
    split_ifs <;> omega

/-- Without an alignment of two behind the last column at most one byte is saved. -/
theorem keptSize_le_char (h : next.bytes ≤ 2) (cols : List PhysCol) :
    keptSize islarge keep next cols ≤ keptSize islarge keep .char cols + 1 := by
  induction cols with
  | nil => exact Nat.zero_le _
  | cons col cols ih =>
    cases cols with
    | nil =>
      have hle : attAlignNominal (colLen islarge col.1) next ≤ colLen islarge col.1 + 1 :=
        (@attAlignNominal_mono _ next .short h).trans
          (by simp only [attAlignNominal, AttAlign.bytes]; omega)
      simp only [keptSize_cons, keptSize_nil, firstAlign, List.head?_nil, Option.elim_none,
        attAlignNominal_char]
      split_ifs <;> omega
    | cons col' cols =>
      -- The first column has the same one behind it.
      have hcols := Nat.add_le_add_left ih
        (if keep col.2 then attAlignNominal (colLen islarge col.1) (colAlign islarge col'.1) else 0)
      exact hcols.trans_eq (Nat.add_assoc _ _ _).symm

theorem firstAlign_pass {pass : ℕ} (h : ∀ col ∈ cols, attrPass islarge col.1 = pass)
    (hne : cols ≠ []) : firstAlign islarge next cols = passAlign pass := by
  cases cols with
  | nil => exact absurd rfl hne
  | cons col cols => exact congrArg passAlign (h col List.mem_cons_self)

/-- Columns of fixed length are the same in both bindings. -/
theorem keptSize_fixed (h : ∀ col ∈ cols, 0 < col.1.attlen) :
    keptSize true keep next cols = keptSize false keep next cols := by
  induction cols with
  | nil => rfl
  | cons col cols ih =>
    have hlen := h col List.mem_cons_self
    have hfirst : firstAlign true next cols = firstAlign false next cols := by
      cases cols with
      | nil => rfl
      | cons col' cols =>
        have hlen' := h col' (List.mem_cons_of_mem col List.mem_cons_self)
        simp only [firstAlign, List.head?_cons, Option.elim_some, colAlign, attrPass,
          gt_iff_lt, hlen', if_true]
    rw [keptSize_cons, keptSize_cons, hfirst, ih fun c hc => h c (List.mem_cons_of_mem col hc),
      colLen, colLen, if_pos hlen, if_pos hlen]

theorem keptVars_cons (col : PhysCol) (cols : List PhysCol) : keptVars keep (col :: cols) =
    keptVars keep cols + if keep col.2 ∧ col.1.attlen < 0 then 1 else 0 := by
  rw [keptVars, List.countP_cons]
  simp only [decide_eq_true_eq]
  rfl

theorem attAlign_offset {len : ℕ} {align align' : AttAlign} (h : align.bytes ≤ align'.bytes)
    (hlen : len = align'.bytes) : attAlignNominal len align = len := by
  subst hlen
  cases align <;> cases align' <;> simp only [AttAlign.bytes] at h <;>
    simp only [attAlignNominal, AttAlign.bytes] <;> omega

theorem colLen_var {attr : FormPgAttribute} (h : ¬ 0 < attr.attlen) :
    colLen islarge attr = if islarge then 4 else 2 :=
  if_neg h

/-- The pass of the large binding for an alignment of four, by its columns of fixed length and the
offsets of the others. -/
theorem keptSize_large (h : ∀ col ∈ cols, attrPass true col.1 = 1) (hnext : next.bytes ≤ 4) :
    keptSize true keep next (cols.filter fun col => 0 < col.1.attlen) + 4 * keptVars keep cols ≤
      keptSize true keep next cols := by
  have hfirst : ∀ {cols : List PhysCol}, (∀ col ∈ cols, attrPass true col.1 = 1) →
      (firstAlign true next cols).bytes ≤ 4 := by
    intro cols h
    by_cases hne : cols = []
    · rw [hne]
      exact hnext
    · rw [firstAlign_pass h hne]
      decide
  induction cols with
  | nil => exact le_rfl
  | cons col cols ih =>
    have hcols : ∀ c ∈ cols, attrPass true c.1 = 1 := fun c hc => h c (List.mem_cons_of_mem col hc)
    have hsize := ih hcols
    rw [List.filter_cons, keptVars_cons]
    by_cases hlen : 0 < col.1.attlen
    · have hle : (firstAlign true next (cols.filter fun col => 0 < col.1.attlen)).bytes ≤
          (firstAlign true next cols).bytes := by
        by_cases hne : cols = []
        · rw [hne]
          exact le_rfl
        · rw [firstAlign_pass hcols hne]
          exact hfirst fun c hc => hcols c (List.mem_filter.mp hc).1
      have hterm := attAlignNominal_mono (colLen true col.1) hle
      rw [if_pos (decide_eq_true hlen), if_neg (by omega), keptSize_cons, keptSize_cons]
      split_ifs <;> omega
    · have hterm : attAlignNominal (colLen true col.1) (firstAlign true next cols) = 4 := by
        rw [colLen_var hlen]
        exact @attAlign_offset 4 _ .int (hfirst hcols) rfl
      have hneg : col.1.attlen < 0 := by
        have := col.1.attlen_ok
        omega
      rw [if_neg (by simpa using hlen), keptSize_cons, hterm]
      by_cases hkeep : keep col.2
      · rw [if_pos hkeep, if_pos ⟨hkeep, hneg⟩]
        omega
      · rw [if_neg hkeep, if_neg fun h => hkeep h.1]
        omega

/-- The pass of the short binding for an alignment of two. -/
theorem keptSize_short (h : ∀ col ∈ cols, attrPass false col.1 = 2) :
    keptSize false keep .char cols ≤
      keptSize false keep .short (cols.filter fun col => 0 < col.1.attlen) + 2 * keptVars keep
      cols := by
  induction cols with
  | nil => exact le_rfl
  | cons col cols ih =>
    have hcols : ∀ c ∈ cols, attrPass false c.1 = 2 := fun c hc => h c (List.mem_cons_of_mem col hc)
    have hsize := ih hcols
    have hfirst : (firstAlign false .char cols).bytes ≤ 2 := by
      by_cases hne : cols = []
      · rw [hne]
        decide
      · rw [firstAlign_pass hcols hne]
        decide
    rw [List.filter_cons, keptVars_cons]
    by_cases hlen : 0 < col.1.attlen
    · have hshort : firstAlign false .short (cols.filter fun col => 0 < col.1.attlen) = .short := by
        by_cases hne : (cols.filter fun col => 0 < col.1.attlen) = []
        · rw [hne]
          rfl
        · exact firstAlign_pass (fun c hc => hcols c (List.mem_filter.mp hc).1) hne
      have hterm := @attAlignNominal_mono (colLen false col.1) _ .short hfirst
      rw [if_pos (decide_eq_true hlen), if_neg (by omega), keptSize_cons, keptSize_cons, hshort]
      split_ifs <;> omega
    · have hterm : attAlignNominal (colLen false col.1) (firstAlign false .char cols) = 2 := by
        rw [colLen_var hlen]
        exact @attAlign_offset 2 _ .short hfirst rfl
      have hneg : col.1.attlen < 0 := by
        have := col.1.attlen_ok
        omega
      rw [if_neg (by simpa using hlen), keptSize_cons, hterm]
      by_cases hkeep : keep col.2
      · rw [if_pos hkeep, if_pos ⟨hkeep, hneg⟩]
        omega
      · rw [if_neg hkeep, if_neg fun h => hkeep h.1]
        omega

/-! ## The fixed parts of both bindings -/

def passCols (islarge : Bool) (tupdesc : TupleDesc) (pass : ℕ) : List PhysCol :=
  tupdesc.attrs.zipIdx.filter fun col => attrPass islarge col.1 = pass

theorem physicalCols_eq (islarge : Bool) (tupdesc : TupleDesc) :
    physicalCols islarge tupdesc = passCols islarge tupdesc 0 ++ (passCols islarge tupdesc 1 ++
      (passCols islarge tupdesc 2 ++ passCols islarge tupdesc 3)) := by
  simp [physicalCols, passCols, List.range_succ]

theorem attrPass_of_mem {pass : ℕ} (h : col ∈ passCols islarge tupdesc pass) :
    attrPass islarge col.1 = pass :=
  of_decide_eq_true (List.mem_filter.mp h).2

/-- Attributes of fixed length are bound in the same pass. -/
theorem attrPass_fixed {attr : FormPgAttribute} (h : 0 < attr.attlen) :
    attrPass true attr = attrPass false attr := by
  rw [attrPass, attrPass, if_pos h, if_pos h]

theorem attrPass_var {attr : FormPgAttribute} (h : ¬ 0 < attr.attlen) :
    attrPass islarge attr = if islarge then 1 else 2 :=
  if_neg h

theorem fixed_of_pass {pass : ℕ} (hpass : pass ≠ if islarge then 1 else 2)
    (h : col ∈ passCols islarge tupdesc pass) : 0 < col.1.attlen := by
  by_contra hvar
  exact hpass ((attrPass_of_mem h).symm.trans (attrPass_var hvar))

theorem filter_passCols (islarge islarge' : Bool) (tupdesc : TupleDesc) (pass : ℕ)
    (hpass : pass ≠ if islarge' then 1 else 2) :
    (passCols islarge tupdesc pass).filter (fun col => 0 < col.1.attlen) =
      passCols islarge' tupdesc pass := by
  rw [passCols, List.filter_filter, passCols]
  refine List.filter_congr fun col _ => ?_
  by_cases hfixed : 0 < col.1.attlen
  · have hsame : attrPass islarge col.1 = attrPass islarge' col.1 := by
      cases islarge <;> cases islarge' <;> simp [attrPass_fixed hfixed]
    simp [hfixed, hsame]
  · simp [hfixed, attrPass_var hfixed, hpass.symm]

/-- Both bindings have the same columns of variable length in one pass. -/
theorem keptVars_passCols (islarge : Bool) (keep : ℕ → Bool) (tupdesc : TupleDesc) :
    keptVars keep (passCols islarge tupdesc (if islarge then 1 else 2)) =
      keptVars keep tupdesc.attrs.zipIdx := by
  rw [keptVars, passCols, List.countP_filter, keptVars]
  refine List.countP_congr fun col _ => ?_
  simp only [Bool.and_eq_true, decide_eq_true_eq]
  constructor
  · exact fun h => h.1
  · exact fun h => ⟨h, attrPass_var (by omega)⟩

theorem passCols_same (tupdesc : TupleDesc) {pass : ℕ} (h₁ : pass ≠ 1) (h₂ : pass ≠ 2) :
    passCols true tupdesc pass = passCols false tupdesc pass :=
  (filter_passCols false true tupdesc pass h₁).symm.trans
    (filter_passCols false false tupdesc pass h₂)

/-- A pass, with what follows behind it if it has no columns. -/
theorem firstAlign_passCols (islarge : Bool) (next : AttAlign) (tupdesc : TupleDesc) (pass : ℕ) :
    firstAlign islarge next (passCols islarge tupdesc pass) =
      if passCols islarge tupdesc pass = [] then next else passAlign pass := by
  split_ifs with hnil
  · rw [hnil]
    rfl
  · exact firstAlign_pass (fun col hcol => attrPass_of_mem hcol) hnil

/-- **The short fixed part against the large one.** The large one has two bytes more for every value
of variable length, and one byte of padding less at most. -/
theorem keptSize_short_le (keep : ℕ → Bool) (tupdesc : TupleDesc) :
    keptSize false keep .char (physicalCols false tupdesc) +
        2 * keptVars keep tupdesc.attrs.zipIdx ≤
      keptSize true keep .char (physicalCols true tupdesc) + 1 := by
  have hpass {islarge pass} : ∀ col ∈ passCols islarge tupdesc pass,
      attrPass islarge col.1 = pass :=
    fun _ hcol => attrPass_of_mem hcol
  have hfixed {pass} (h : pass ≠ 2) : ∀ col ∈ passCols false tupdesc pass, 0 < col.1.attlen :=
    fun _ hcol => fixed_of_pass h hcol
  have hfixed' : ∀ col ∈ passCols true tupdesc 2, 0 < col.1.attlen :=
    fun _ hcol => fixed_of_pass (by decide) hcol
  -- The columns of variable length are in different passes, so four of the lists are different.
  have hvars := keptVars_passCols true keep tupdesc
  have hvars' := keptVars_passCols false keep tupdesc
  have hint := filter_passCols true false tupdesc 1 (by decide)
  have hshort := filter_passCols false true tupdesc 2 (by decide)
  have hnonempty : passCols false tupdesc 2 ≠ [] →
      passCols true tupdesc 2 ≠ [] ∨ passCols true tupdesc 1 ≠ [] := by
    intro hne
    obtain ⟨col, hcol⟩ := List.exists_mem_of_ne_nil _ hne
    by_cases hlen : 0 < col.1.attlen
    · refine .inl (List.ne_nil_of_mem (a := col) ?_)
      rw [← hshort]
      exact List.mem_filter.mpr ⟨hcol, decide_eq_true hlen⟩
    · refine .inr (List.ne_nil_of_mem (a := col) (List.mem_filter.mpr ⟨?_, ?_⟩))
      · exact (List.mem_filter.mp hcol).1
      · exact decide_eq_true (attrPass_var hlen)
  have hsub : passCols false tupdesc 1 ≠ [] → passCols true tupdesc 1 ≠ [] := by
    intro hne hnil
    rw [← hint, hnil] at hne
    exact hne rfl
  have hsub' : passCols true tupdesc 2 ≠ [] → passCols false tupdesc 2 ≠ [] := by
    intro hne hnil
    rw [← hshort, hnil] at hne
    exact hne rfl
  have hdouble : (if passCols false tupdesc 1 = [] then
        if passCols false tupdesc 2 = [] then AttAlign.char else AttAlign.short
      else AttAlign.int).bytes ≤
      (if passCols true tupdesc 1 = [] then
        if passCols true tupdesc 2 = [] then AttAlign.char else AttAlign.short
      else AttAlign.int).bytes := by
    by_cases hlarge : passCols true tupdesc 1 = []
    · have hnil : passCols false tupdesc 1 = [] := not_imp_not.mp hsub hlarge
      rw [if_pos hnil, if_pos hlarge]
      by_cases hshorts : passCols true tupdesc 2 = []
      · have hnone : passCols false tupdesc 2 = [] := by
          by_contra hne
          exact (hnonempty hne).elim (· hshorts) (· hlarge)
        rw [if_pos hnone, if_pos hshorts]
      · rw [if_neg (hsub' hshorts), if_neg hshorts]
    · rw [if_neg hlarge]
      split_ifs <;> decide
  have hfirst : keptSize false keep _ (passCols false tupdesc 0) ≤
      keptSize false keep _ (passCols false tupdesc 0) := keptSize_mono hdouble _
  have hlast : keptSize false keep .char (passCols false tupdesc 2) ≤ _ := keptSize_short hpass
  have hmid : ∀ next, AttAlign.bytes next ≤ 4 →
      _ ≤ keptSize true keep next (passCols true tupdesc 1) :=
    fun next => keptSize_large hpass
  simp only [physicalCols_eq, keptSize_append, firstAlign_append, firstAlign_passCols, passAlign,
    ite_self]
  rw [hshort] at hlast
  rw [hint] at hmid
  rw [passCols_same tupdesc (show 0 ≠ 1 by decide) (show 0 ≠ 2 by decide),
    passCols_same tupdesc (show 3 ≠ 1 by decide) (show 3 ≠ 2 by decide),
    keptSize_fixed (hfixed (show 0 ≠ 2 by decide)), keptSize_fixed (hfixed (show 3 ≠ 2 by decide))]
  have hsaved (next) (h : AttAlign.bytes next ≤ 2) (cols) :
      keptSize false keep next cols ≤ keptSize false keep .char cols + 1 := keptSize_le_char h cols
  change keptVars keep (passCols true tupdesc 1) = _ at hvars
  change keptVars keep (passCols false tupdesc 2) = _ at hvars'
  by_cases hnil : passCols true tupdesc 2 = []
  · have hints := hmid .char (by decide)
    have hone := hsaved (if passCols false tupdesc 2 = [] then .char else .short)
      (by split_ifs <;> decide) (passCols false tupdesc 1)
    rw [keptSize_fixed (hfixed (by decide))] at hints
    rw [if_pos hnil] at hfirst ⊢
    rw [hnil, keptSize_nil] at hlast ⊢
    omega
  · have hints := hmid .short (by decide)
    have hone := hsaved .short (by decide) (passCols true tupdesc 2)
    rw [keptSize_fixed (hfixed (by decide))] at hints
    rw [keptSize_fixed hfixed']
    rw [if_neg hnil, if_neg (hsub' hnil)] at hfirst ⊢
    omega

/-! ## Bounds -/

theorem keptSize_le (cols : List PhysCol) : keptSize islarge keep next cols ≤
    (cols.map fun col => if keep col.2 then colLen islarge col.1 + 7 else 0).sum := by
  induction cols with
  | nil => exact le_rfl
  | cons col cols ih =>
    have hterm := attAlignNominal_lt (colLen islarge col.1) (firstAlign islarge next cols)
    rw [keptSize_cons, List.map_cons, List.sum_cons]
    split_ifs <;> omega

theorem le_keptSize (cols : List PhysCol) :
    (cols.map fun col => if keep col.2 then colLen islarge col.1 else 0).sum ≤
      keptSize islarge keep next cols := by
  induction cols with
  | nil => exact le_rfl
  | cons col cols ih =>
    have hterm := @attAlignNominal_mono (colLen islarge col.1) .char
      (firstAlign islarge next cols) (by cases firstAlign islarge next cols <;> decide)
    rw [attAlignNominal_char] at hterm
    rw [keptSize_cons, List.map_cons, List.sum_cons]
    split_ifs <;> omega

theorem colLen_true_le (attr : FormPgAttribute) : colLen true attr ≤ colLen false attr + 2 := by
  rw [colLen, colLen]
  split_ifs <;> omega

theorem keptSize_large_le (keep : ℕ → Bool) (tupdesc : TupleDesc) :
    keptSize true keep .char (physicalCols true tupdesc) ≤
      keptSize false keep .char (physicalCols false tupdesc) + 9 * tupdesc.natts := by
  refine (keptSize_le _).trans (le_trans ?_ (Nat.add_le_add_right (le_keptSize _) _))
  rw [((physicalCols_perm true tupdesc).map _).sum_eq,
    ((physicalCols_perm false tupdesc).map _).sum_eq,
    TupleDesc.natts, ← List.length_zipIdx]
  induction tupdesc.attrs.zipIdx with
  | nil => exact le_rfl
  | cons col cols ih =>
    have hlen := colLen_true_le col.1
    rw [List.map_cons, List.sum_cons, List.map_cons, List.sum_cons, List.length_cons]
    split_ifs <;> omega

theorem keptSize_bound (islarge : Bool) (keep : ℕ → Bool) (tupdesc : TupleDesc) :
    keptSize islarge keep .char (physicalCols islarge tupdesc) ≤ 32774 * tupdesc.natts := by
  refine (keptSize_le _).trans ?_
  rw [← length_physicalCols islarge tupdesc]
  induction physicalCols islarge tupdesc with
  | nil => exact le_rfl
  | cons col cols ih =>
    have hlen := colLen_le islarge col.1
    rw [List.map_cons, List.sum_cons, List.length_cons]
    split_ifs <;> omega

end Hdb.MemTuple

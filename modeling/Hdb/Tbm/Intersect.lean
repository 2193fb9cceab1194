import Hdb.Tbm.Union

/-!
# The intersection

A scan of `a` cuts each entry down to what `b` has, and removes it if nothing is left (`meet`). The
scan visits every entry once, so that each one is cut down once and from what it was
(`get?_intersectScan`). An exact page that is lossy in `b` stays as it is, to be checked again.
-/

namespace Hdb.Tbm

open Bitmap (PagetableEntry BmHrlWord pagesPerChunk wordsPerHeapPage)

variable {a b : TIDBitmap} {e e' : PagetableEntry} {i j k : Nat} {x y : TidSet}

/-! ## One entry -/

/-- The page is in `b`. -/
theorem present_iff (hb : b.Ok) :
    Present b.table k ↔ ¬(¬tbmPageIsLossy b k = true ∧ tbmFindPageentry b k = none) := by
  rw [tbmFindPageentry_eq_none_iff hb, tbmPageIsLossy_iff hb, Present]
  tauto

/-- The bits that are cleared are those of `w` whose pages are not in `b`. The bit `j` of `neww` is
the bit `j - bitnum` of `w`. -/
theorem getLsbD_intersectBits (hb : b.Ok) (n : Nat) (w neww : BmHrlWord) (pg bitnum j : Nat)
    (hj : j < 64) (hn : 64 ≤ bitnum + n) :
    (intersectBits b n w pg bitnum neww).getLsbD j = true ↔
      neww.getLsbD j = true ∧
        (bitnum ≤ j → w.getLsbD (j - bitnum) = true → Present b.table (pg + (j - bitnum))) := by
  induction n generalizing w pg bitnum neww with
  | zero =>
    rw [intersectBits]
    exact (and_iff_left fun h => absurd h (by omega)).symm
  | succ n ih =>
    rw [intersectBits]
    by_cases hw : w = 0
    · rw [if_pos hw, hw]
      exact (and_iff_left fun _ h => absurd (h.symm.trans BitVec.getLsbD_zero) (by decide)).symm
    rw [if_neg hw, ih _ _ _ _ (by omega)]
    -- the first bit of `w` is the bit `bitnum`
    have hfirst : (if w.getLsbD 0 = true ∧ ¬tbmPageIsLossy b pg = true ∧
          tbmFindPageentry b pg = none then neww &&& ~~~(1#64 <<< bitnum) else neww).getLsbD j =
          true ↔
        neww.getLsbD j = true ∧ (j = bitnum → w.getLsbD 0 = true → Present b.table pg) := by
      rw [present_iff hb]
      split_ifs with hclear
      · rw [BitVec.getLsbD_and, BitVec.getLsbD_not, BitVec.getLsbD_shiftLeft, BitVec.getLsbD_one]
        simp only [Bool.and_eq_true, Bool.not_eq_true', Bool.and_eq_false_iff, Bool.not_eq_false',
          decide_eq_true_eq, decide_eq_false_iff_not]
        refine and_congr_right fun _ => ?_
        constructor
        · rintro ⟨_, h⟩ rfl _
          omega
        · intro h
          refine ⟨hj, ?_⟩
          by_cases hjb : j = bitnum
          · exact absurd hclear.2 (h hjb hclear.1)
          · omega
      · exact (and_iff_left fun _ h hno => hclear ⟨h, hno⟩).symm
    rw [hfirst, and_assoc]
    refine and_congr_right fun _ => ?_
    constructor
    · rintro ⟨h₀, h₁⟩ hle hbit
      rcases hle.eq_or_lt with rfl | hlt
      · rw [Nat.sub_self] at hbit ⊢
        exact h₀ rfl hbit
      · obtain ⟨d, rfl⟩ := Nat.exists_eq_add_of_lt hlt
        have h := h₁ (by omega)
        rw [BitVec.getLsbD_ushiftRight] at h
        rw [show bitnum + d + 1 - bitnum = 1 + d by omega] at hbit ⊢
        rw [show bitnum + d + 1 - (bitnum + 1) = d by omega] at h
        rw [← Nat.add_assoc]
        exact h hbit
    · intro h
      refine ⟨?_, fun hle hbit => ?_⟩
      · rintro rfl hbit
        have h' := h le_rfl
        rw [Nat.sub_self] at h'
        exact h' hbit
      · obtain ⟨d, rfl⟩ := Nat.exists_eq_add_of_le hle
        have h' := h (by omega)
        rw [BitVec.getLsbD_ushiftRight] at hbit
        rw [show bitnum + 1 + d - (bitnum + 1) = d by omega] at hbit ⊢
        rw [show bitnum + 1 + d - bitnum = 1 + d by omega, ← Nat.add_assoc] at h'
        exact h' hbit

/-- All words are zero if and only if no bit is set. -/
theorem canDelete_iff (n : Nat) (e : PagetableEntry) :
    canDelete n e = true ↔ ∀ i < n * 64, e.has i = false := by
  rw [canDelete, List.all_eq_true]
  constructor
  · intro h i hi
    have hword := h (i / 64) (List.mem_range.mpr (by omega))
    rw [PagetableEntry.has, eq_of_beq hword]
    exact BitVec.getLsbD_zero
  · intro h i hi
    have hlt := List.mem_range.mp hi
    rw [beq_iff_eq]
    refine BitVec.eq_of_getLsbD_eq fun j hj => ?_
    have hbit := h (i * 64 + j) (by omega)
    rw [PagetableEntry.has, show (i * 64 + j) / 64 = i by omega,
      show (i * 64 + j) % 64 = j by omega] at hbit
    rw [hbit]
    exact BitVec.getLsbD_zero.symm

/-- What is left of an entry. -/
def meet (b : TIDBitmap) (e : PagetableEntry) : Option PagetableEntry :=
  if (tbmIntersectPage e b).2 then none else some (tbmIntersectPage e b).1

theorem tbmIntersectPage_same (e : PagetableEntry) (b : TIDBitmap) :
    (tbmIntersectPage e b).1.blockno = e.blockno ∧
      (tbmIntersectPage e b).1.ischunk = e.ischunk := by
  rw [tbmIntersectPage]
  split_ifs
  · exact ⟨rfl, rfl⟩
  · exact ⟨rfl, rfl⟩
  · cases tbmFindPageentry b e.blockno with
    | none => exact ⟨rfl, rfl⟩
    | some bpage => exact ⟨rfl, rfl⟩

theorem meet_same (h : meet b e = some e') : e'.blockno = e.blockno ∧ e'.ischunk = e.ischunk := by
  rw [meet] at h
  split_ifs at h
  exact Option.some.inj h ▸ tbmIntersectPage_same e b

theorem has_clearPages (hb : b.Ok) (e : PagetableEntry) (hi : i < pagesPerChunk) :
    (clearPages b e).has i = true ↔ e.has i = true ∧ Present b.table (e.blockno + i) := by
  have hi' : i < 1024 := hi
  have hword : i / 64 < wordsPerChunk := by
    show i / 64 < 16
    omega
  rw [PagetableEntry.has, PagetableEntry.has, clearPages]
  dsimp only
  rw [if_pos hword, getLsbD_intersectBits hb _ _ _ _ _ _ (Nat.mod_lt i (by decide)) (by omega),
    Nat.sub_zero, show e.blockno + i / 64 * 64 + i % 64 = e.blockno + i by omega]
  refine and_congr_right fun hbit => ?_
  exact ⟨fun h => h (Nat.zero_le _) hbit, fun h _ _ => h⟩

theorem has_andPage (e f : PagetableEntry) (hi : i < 65536) :
    (andPage e f).has i = (e.has i && f.has i) := by
  have hword : i / 64 < wordsPerHeapPage := by
    show i / 64 < 1024
    omega
  rw [PagetableEntry.has, PagetableEntry.has, PagetableEntry.has, andPage]
  dsimp only
  rw [if_pos hword, BitVec.getLsbD_and]

/-- A chunk keeps the bits of the pages that are in `b`. -/
theorem meet_chunk (hb : b.Ok) (he : e.ischunk = true) :
    meet b e = some (clearPages b e) ∨
      meet b e = none ∧ ∀ i < pagesPerChunk, e.has i = true → ¬Present b.table (e.blockno + i) := by
  rw [meet, tbmIntersectPage, if_pos he]
  dsimp only
  split_ifs with hempty
  · refine .inr ⟨rfl, fun i hi hbit hpres => ?_⟩
    have hno := (canDelete_iff wordsPerChunk _).mp hempty i hi
    exact absurd (hno.symm.trans ((has_clearPages hb e hi).mpr ⟨hbit, hpres⟩)) Bool.false_ne_true
  · exact .inl rfl

/-- An exact page keeps its tids if it is lossy in `b`. -/
theorem meet_lossy (hb : b.Ok) (he : e.ischunk = false) (hl : Lossy b.table e.blockno) :
    meet b e = some { e with recheck := true } := by
  rw [meet, tbmIntersectPage, if_neg (Bool.eq_false_iff.mp he),
    if_pos ((tbmPageIsLossy_iff hb).mpr hl)]
  rfl

/-- An exact page keeps the tids that it has in `b`. -/
theorem meet_exact (hb : b.Ok) (he : e.ischunk = false) (hl : ¬Lossy b.table e.blockno) :
    (∃ f, meet b e = some (andPage e f) ∧ Exact b.table e.blockno f) ∨
      meet b e = none ∧
        ∀ f, Exact b.table e.blockno f → ∀ i < 65536, (e.has i && f.has i) = false := by
  rw [meet, tbmIntersectPage, if_neg (Bool.eq_false_iff.mp he),
    if_neg (mt (tbmPageIsLossy_iff hb).mp hl)]
  cases hfind : tbmFindPageentry b e.blockno with
  | none =>
    exact .inr ⟨rfl, fun f hf => absurd ⟨f, hf⟩ ((tbmFindPageentry_eq_none_iff hb).mp hfind)⟩
  | some f =>
    have hf := (tbmFindPageentry_eq_some_iff hb).mp hfind
    dsimp only
    split_ifs with hempty
    · refine .inr ⟨rfl, fun g hg i hi => ?_⟩
      obtain rfl := Option.some.inj (hf.1.symm.trans hg.1)
      rw [← has_andPage e f hi]
      exact (canDelete_iff wordsPerHeapPage _).mp hempty i hi
    · exact .inl ⟨f, rfl, hf⟩

/-! ## All entries -/

/-- A table whose entries are cut down is cut down. -/
theorem met_of_get? {T T' : Pagetable} (hb : b.Ok)
    (h : ∀ k, T'.get? k = (T.get? k).bind (meet b)) : Met T b.table T' := by
  have hsome : ∀ k e', T'.get? k = some e' → ∃ e, T.get? k = some e ∧ meet b e = some e' := by
    intro k e' he'
    exact Option.bind_eq_some_iff.mp ((h k).symm.trans he')
  refine ⟨fun k => ?_, fun k e' he' => ?_, fun k e' he' => ?_, fun k e i he hbit hi hb' => ?_⟩
  · have hmod : k % pagesPerChunk < pagesPerChunk := Nat.mod_lt k (by decide)
    have hk : chunkPageno k + k % pagesPerChunk = k := Nat.sub_add_cancel (Nat.mod_le k _)
    constructor
    · rintro ⟨e', he', hchunk, hbit⟩
      obtain ⟨e, he, hmeet⟩ := hsome _ _ he'
      have hech := (meet_same hmeet).2.symm.trans hchunk
      rcases meet_chunk hb hech with hmeet' | ⟨hmeet', _⟩
      · obtain rfl := Option.some.inj (hmeet.symm.trans hmeet')
        obtain ⟨hbit', hpres⟩ := (has_clearPages hb e hmod).mp hbit
        rw [Keyed.key_of_get? he, hk] at hpres
        exact ⟨⟨e, he, hech, hbit'⟩, hpres⟩
      · exact absurd (hmeet.symm.trans hmeet') (Option.some_ne_none e')
    · rintro ⟨⟨e, he, hech, hbit⟩, hpres⟩
      rw [← hk, ← Keyed.key_of_get? he] at hpres
      rcases meet_chunk hb hech with hmeet | ⟨_, hno⟩
      · refine ⟨clearPages b e, ?_, hech, (has_clearPages hb e hmod).mpr ⟨hbit, hpres⟩⟩
        rw [h, he]
        exact hmeet
      · exact absurd hpres (hno _ hmod hbit)
  · obtain ⟨e, he, hmeet⟩ := hsome k e' he'
    exact ⟨e, he, (meet_same hmeet).2.symm⟩
  · obtain ⟨e, he, hmeet⟩ := hsome k e' he'.1
    have hexact := (meet_same hmeet).2.symm.trans he'.2
    have hkey := Keyed.key_of_get? he
    refine ⟨e, ⟨he, hexact⟩, ?_⟩
    by_cases hl : Lossy b.table e.blockno
    · rw [meet_lossy hb hexact hl] at hmeet
      exact .inl ⟨hkey ▸ hl, Option.some.inj hmeet ▸ rfl⟩
    · rcases meet_exact hb hexact hl with ⟨f, hmeet', hf⟩ | ⟨hmeet', _⟩
      · obtain rfl := Option.some.inj (hmeet.symm.trans hmeet')
        exact .inr ⟨f, hkey ▸ hf, fun i hi => has_andPage e f hi, rfl⟩
      · exact absurd (hmeet.symm.trans hmeet') (Option.some_ne_none e')
  · have hkey := Keyed.key_of_get? he.1
    have hget : T'.get? k = meet b e := by
      rw [h, he.1]
      rfl
    by_cases hl : Lossy b.table e.blockno
    · refine ⟨{ e with recheck := true }, ⟨hget.trans (meet_lossy hb he.2 hl), he.2⟩, hbit⟩
    · obtain ⟨f, hf, hfbit⟩ := hb'.resolve_left (hkey ▸ hl)
      rw [← hkey] at hf
      rcases meet_exact hb he.2 hl with ⟨g, hmeet, hg⟩ | ⟨_, hno⟩
      · obtain rfl := Option.some.inj (hf.1.symm.trans hg.1)
        refine ⟨andPage e f, ⟨hget.trans hmeet, he.2⟩, ?_⟩
        rw [has_andPage e f hi, hbit, hfbit]
        rfl
      · have hempty := hno f hf i hi
        rw [hbit, hfbit] at hempty
        exact absurd hempty (by decide)

/-- A scan of some entries. -/
structure IntersectScanned (b : TIDBitmap) (ks : List Nat) (a a' : TIDBitmap) : Prop where
  counted : a'.Counted
  status : a'.status = .hash
  maxentries : a'.maxentries = a.maxentries
  nentries : a'.nentries ≤ a.nentries
  get? : ∀ k, a'.pagetable.get? k =
    if k ∈ ks then (a.pagetable.get? k).bind (meet b) else a.pagetable.get? k

theorem intersectScan_spec (b : TIDBitmap) (ks : List Nat) (hks : ks.Nodup) (ha : a.Counted)
    (hs : a.status = .hash) : IntersectScanned b ks a (intersectScan b ks a) := by
  induction ks generalizing a with
  | nil => exact ⟨ha, hs, rfl, le_rfl, fun k => (if_neg List.not_mem_nil).symm⟩
  | cons k ks ih =>
    obtain ⟨hk, hks'⟩ := List.nodup_cons.mp hks
    -- the rest of the scan does not visit the key again
    have hcons : ∀ a₁ : TIDBitmap, a₁.Counted → a₁.status = .hash → a₁.maxentries = a.maxentries →
        a₁.nentries ≤ a.nentries → a₁.pagetable.get? k = (a.pagetable.get? k).bind (meet b) →
        (∀ j ≠ k, a₁.pagetable.get? j = a.pagetable.get? j) →
        IntersectScanned b (k :: ks) a (intersectScan b ks a₁) := by
      intro a₁ h₁ hs₁ hmax hle hself hothers
      obtain ⟨h₁', h₂, h₃, h₄, h₅⟩ := ih hks' h₁ hs₁
      refine ⟨h₁', h₂, h₃.trans hmax, h₄.trans hle, fun j => ?_⟩
      rw [h₅]
      by_cases hj : j = k
      · subst hj
        rw [if_neg hk, if_pos List.mem_cons_self, hself]
      · rw [hothers j hj]
        exact if_congr (List.mem_cons.trans (or_iff_right hj)).symm rfl rfl
    have hcounts := ha.pagetable hs
    have hentries := ha.nentries
    rw [intersectScan]
    cases hget : a.pagetable.get? k with
    | none => exact hcons a ha hs rfl le_rfl (by rw [hget]; rfl) fun j _ => rfl
    | some e =>
      have hkey := Keyed.key_of_get? hget
      obtain ⟨hblk, hchunk⟩ := tbmIntersectPage_same e b
      have hmeet : (a.pagetable.get? k).bind (meet b) =
          if (tbmIntersectPage e b).2 then none else some (tbmIntersectPage e b).1 := by
        rw [hget]
        rfl
      dsimp only
      generalize tbmIntersectPage e b = r at hblk hchunk hmeet ⊢
      obtain ⟨apage, candelete⟩ := r
      dsimp only at hblk hchunk hmeet ⊢
      rw [← hkey] at hget
      cases candelete with
      | true =>
        dsimp only
        refine hcons _ ?_ hs rfl (show a.nentries - 1 ≤ a.nentries by omega) ?_ fun j hj => ?_
        · rw [hblk, hchunk]
          by_cases hc : e.ischunk = true
          · rw [if_pos hc, if_pos hc]
            refine counted_hash hs (hcounts.erase_chunk hget hc) ?_
            show a.nentries - 1 = a.npages + (a.nchunks - 1)
            omega
          · rw [if_neg hc, if_neg hc]
            refine counted_hash hs (hcounts.erase_page hget (Bool.eq_false_iff.mpr hc)) ?_
            show a.nentries - 1 = a.npages - 1 + a.nchunks
            omega
        · rw [hmeet, hblk, hkey]
          exact Keyed.get?_erase_self _ k
        · rw [hblk, hkey]
          exact Keyed.get?_erase_ne _ hj
      | false =>
        dsimp only
        refine hcons _ ?_ hs rfl le_rfl ?_ fun j hj => ?_
        · exact counted_hash hs (hcounts.put_same (hblk ▸ hget) hchunk) hentries
        · rw [hmeet, ← hkey, ← hblk]
          exact Keyed.get?_put_self _ apage
        · exact Keyed.get?_put_ne _ (by rw [hblk, hkey]; exact hj)

/-- **The intersection** stands for the intersection of the sets. -/
theorem Represents.tbmIntersect (ha : Represents a x) (hb : Represents b y) (scan : HashSeq) :
    Represents (tbmIntersect scan a b) (x.inter y) := by
  have hentries := ha.ok.nentries
  rw [Tbm.tbmIntersect]
  by_cases h0 : a.nentries = 0
  · rw [if_pos h0]
    have hmet : Met a.table b.table a.table := by
      refine met_of_get? hb.ok fun k => ?_
      rw [ha.ok.get?_of_nentries h0 k]
      rfl
    exact ⟨ha.ok, hmet.covers_inter ha.covers hb.covers, ha.fits⟩
  rw [if_neg h0]
  by_cases hone : a.status = .onePage
  · rw [if_pos hone]
    obtain ⟨hpages, hchunks⟩ := ha.ok.counts_onePage hone
    obtain ⟨hblk, hchunk⟩ := tbmIntersectPage_same a.entry1 b
    have hmeet : meet b a.entry1 = if (tbmIntersectPage a.entry1 b).2 then none
        else some (tbmIntersectPage a.entry1 b).1 := rfl
    have hfits := ha.fits
    generalize tbmIntersectPage a.entry1 b = r at hblk hchunk hmeet ⊢
    obtain ⟨apage, candelete⟩ := r
    cases candelete with
    | true =>
      dsimp only
      have hmet : Met a.table b.table Keyed.empty := by
        refine met_of_get? hb.ok fun k => ?_
        rw [get?_onePage hone]
        split_ifs
        · exact hmeet.symm
        · rfl
      have hempty : TBMStatus.empty ≠ .onePage := by decide
      refine ⟨⟨⟨⟨?_, ?_⟩, ?_⟩, ha.ok.limit, fun h => absurd h hempty, hmet.sound ha.ok.sound⟩,
        hmet.covers_inter ha.covers hb.covers, ?_⟩
      · show a.npages - 1 = 0
        omega
      · exact hchunks
      · show a.nentries - 1 = a.npages - 1 + a.nchunks
        omega
      · show a.nentries - 1 ≤ a.maxentries
        omega
    | false =>
      have hexact := ha.ok.onePage hone
      have hw : Written a apage (writePage a apage) := by
        refine written_onePage hone hpages hchunks (by omega) rfl (fun j hj => ?_)
          (hchunk.trans hexact)
        rw [get?_onePage hone, if_neg (hblk ▸ hj)]
      rw [writePage, if_pos hone] at hw
      dsimp only
      have hmet : Met a.table b.table { a with entry1 := apage }.table := by
        refine met_of_get? hb.ok fun k => ?_
        by_cases hk : k = a.entry1.blockno
        · rw [get?_onePage hone, if_pos hk, hk, ← hblk, hw.self]
          exact hmeet.symm
        · rw [hw.others k (hblk ▸ hk), get?_onePage hone, if_neg hk]
          rfl
      exact ⟨hw.ok ha.ok (hmet.sound ha.ok.sound), hmet.covers_inter ha.covers hb.covers, hfits⟩
  · rw [if_neg hone]
    have hs := ha.ok.hash_of_nentries h0 hone
    obtain ⟨h₁, h₂, h₃, h₄, h₅⟩ :=
      intersectScan_spec b (scan.order a) ((scan.perm a).nodup_iff.mpr a.pagetable.nodup)
        ha.ok.toCounted hs
    have hmet : Met a.table b.table (intersectScan b (scan.order a) a).table := by
      refine met_of_get? hb.ok fun k => ?_
      rw [table_hash h₂, table_hash hs, h₅]
      split_ifs with hk
      · rfl
      · rw [(scan.perm a).mem_iff, Keyed.mem_keys, not_exists] at hk
        rw [Option.eq_none_iff_forall_ne_some.mpr hk]
        rfl
    refine ⟨⟨h₁, h₃ ▸ ha.ok.limit, fun h => ?_, hmet.sound ha.ok.sound⟩,
      hmet.covers_inter ha.covers hb.covers, ?_⟩
    · rw [h₂] at h
      exact absurd h (by decide)
    · rw [h₃]
      exact h₄.trans ha.fits

end Hdb.Tbm

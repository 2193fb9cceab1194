import Hdb.Tbm.Pagetable

/-!
# What a table stands for

A table stands for the lossy pages of its chunks (`Lossy`) and for the tids of its exact pages
(`Exact`). It covers a set of tids if each of them is on a lossy page or among those of an exact one
(`Covers`). Tids are added with or without the request to check them again. Those added without it
are `sure`; an exact page that is not to be checked again has no others.

An operation on the table is known by what it does to the lossy and to the exact pages: a page is
marked as lossy (`Marked`), gets tids (`Merged`), or is cut down to what another table has (`Met`).
-/

namespace Hdb.Tbm

open Bitmap (PagetableEntry pagesPerChunk)

variable {T T' U : Pagetable} {e e' : PagetableEntry} {i j k : Nat}

/-- The page is marked as lossy in its chunk. -/
def Lossy (T : Pagetable) (k : Nat) : Prop :=
  ∃ c, T.get? (chunkPageno k) = some c ∧ c.ischunk = true ∧ c.has (k % pagesPerChunk) = true

/-- The page has an exact entry. -/
def Exact (T : Pagetable) (k : Nat) (e : PagetableEntry) : Prop :=
  T.get? k = some e ∧ e.ischunk = false

/-- A page marked lossy in a chunk has no exact entry of its own, and chunks are aligned. -/
structure Sound (T : Pagetable) : Prop where
  aligned : ∀ k e, T.get? k = some e → e.ischunk = true → k % pagesPerChunk = 0
  exclusive : ∀ k e, Exact T k e → ¬Lossy T k
  valid : ∀ k e, T.get? k = some e → k < 2 ^ 32

/-! ## Sets of tids -/

/-- A set of tids, and those among them that need not be checked again. -/
structure TidSet where
  all : Set ItemPointer
  sure : Set ItemPointer

/-- The tid of the page `k` with the offset number `i + 1` is in the set. -/
def At (S : Set ItemPointer) (k i : Nat) : Prop := ∃ tid ∈ S, (tid.blk : Nat) = k ∧ tid.off = i + 1

/-- The tids of the pages. -/
def onPages (P : Set Nat) : Set ItemPointer := {tid | (tid.blk : Nat) ∈ P}

structure Covers (T : Pagetable) (x : TidSet) : Prop where
  all : ∀ k i, At x.all k i → Lossy T k ∨ ∃ e, Exact T k e ∧ e.has i = true
  sure : ∀ k e, Exact T k e → e.recheck = false → ∀ i < 65536, e.has i = true → At x.sure k i

section

variable {S S' : Set ItemPointer} {P : Set Nat} {tid : ItemPointer}

theorem At.lt (h : At S k i) : i < 65535 := by
  obtain ⟨tid, _, _, hoff⟩ := h
  have hlt := tid.lt
  omega

theorem At.mono (hsub : S ⊆ S') (h : At S k i) : At S' k i := by
  obtain ⟨tid, htid, hat⟩ := h
  exact ⟨tid, hsub htid, hat⟩

theorem at_of_mem (h : tid ∈ S) : At S tid.blk (tid.off - 1) :=
  ⟨tid, h, rfl, (Nat.sub_add_cancel tid.pos).symm⟩

@[simp] theorem at_union : At (S ∪ S') k i ↔ At S k i ∨ At S' k i := by
  constructor
  · rintro ⟨tid, htid | htid, hat⟩
    · exact .inl ⟨tid, htid, hat⟩
    · exact .inr ⟨tid, htid, hat⟩
  · rintro (h | h)
    · exact h.mono Set.subset_union_left
    · exact h.mono Set.subset_union_right

/-- A tid is known by its page and its offset number. -/
@[simp] theorem at_inter : At (S ∩ S') k i ↔ At S k i ∧ At S' k i := by
  constructor
  · intro h
    exact ⟨h.mono Set.inter_subset_left, h.mono Set.inter_subset_right⟩
  · rintro ⟨⟨tid, htid, hblk, hoff⟩, tid', htid', hblk', hoff'⟩
    have heq : tid' = tid :=
      ItemPointer.ext (Fin.ext (hblk'.trans hblk.symm)) (hoff'.trans hoff.symm)
    exact ⟨tid, ⟨htid, heq ▸ htid'⟩, hblk, hoff⟩

theorem At.page (h : At (S ∩ onPages P) k i) : k ∈ P := by
  obtain ⟨tid, htid, hblk, _⟩ := h
  exact hblk ▸ htid.2

theorem at_singleton : At {tid} k i ↔ k = tid.blk ∧ tid.off = i + 1 := by
  constructor
  · rintro ⟨_, rfl, hblk, hoff⟩
    exact ⟨hblk.symm, hoff⟩
  · rintro ⟨rfl, hoff⟩
    exact ⟨tid, rfl, rfl, hoff⟩

theorem Covers.mono {x y : TidSet} (h : Covers T x) (hall : y.all ⊆ x.all)
    (hsure : x.sure ⊆ y.sure) : Covers T y :=
  ⟨fun k i hat => h.all k i (hat.mono hall),
    fun k e he hr i hi hhas => (h.sure k e he hr i hi hhas).mono hsure⟩

end

/-! ## Chunks -/

theorem chunkPageno_le (k : Nat) : chunkPageno k ≤ k := Nat.sub_le k _

@[simp] theorem chunkPageno_mod (k : Nat) : chunkPageno k % pagesPerChunk = 0 := by
  rw [chunkPageno, pagesPerChunk]
  omega

theorem chunkPageno_eq_self_iff : chunkPageno k = k ↔ k % pagesPerChunk = 0 := by
  rw [chunkPageno, pagesPerChunk]
  omega

@[simp] theorem chunkPageno_chunkPageno (k : Nat) : chunkPageno (chunkPageno k) = chunkPageno k :=
  chunkPageno_eq_self_iff.mpr (chunkPageno_mod k)

/-- A page is known by its chunk and its number there. -/
theorem eq_of_chunkPageno_eq (h : chunkPageno j = chunkPageno k)
    (hmod : j % pagesPerChunk = k % pagesPerChunk) : j = k := by
  have hj := Nat.sub_add_cancel (Nat.mod_le j pagesPerChunk)
  have hk := Nat.sub_add_cancel (Nat.mod_le k pagesPerChunk)
  rw [chunkPageno, chunkPageno] at h
  omega

/-! ## Marking a page as lossy -/

/-- `T'` is `T` with the page `k` marked as lossy. If the first page of its chunk was exact, it is
lossy too. -/
structure Marked (T T' : Pagetable) (k : Nat) : Prop where
  lossy : ∀ j, Lossy T' j ↔ Lossy T j ∨ j = k ∨ j = chunkPageno k ∧ ∃ e, Exact T j e
  exact : ∀ j e, Exact T' j e ↔ Exact T j e ∧ j ≠ k ∧ j ≠ chunkPageno k
  aligned : ∀ j e, T'.get? j = some e → e.ischunk = true → j % pagesPerChunk = 0
  valid : ∀ j e, T'.get? j = some e → j < 2 ^ 32

theorem Marked.sound (hm : Marked T T' k) (h : Sound T) : Sound T' where
  aligned := hm.aligned
  valid := hm.valid
  exclusive := by
    intro j e he hl
    obtain ⟨he', hk, hc⟩ := (hm.exact j e).mp he
    rcases (hm.lossy j).mp hl with hl | rfl | ⟨hj, _⟩
    · exact h.exclusive j e he' hl
    · exact hk rfl
    · exact hc hj

/-- **Marking a page as lossy** covers all its tids. -/
theorem Marked.covers (hm : Marked T T' k) {x : TidSet} (hx : Covers T x) {P : Set ItemPointer}
    (hP : P ⊆ onPages {k}) : Covers T' ⟨x.all ∪ P, x.sure⟩ where
  all := by
    intro j i hat
    rcases at_union.mp hat with hat | hat
    · rcases hx.all j i hat with hl | ⟨e, he, hhas⟩
      · exact .inl ((hm.lossy j).mpr (.inl hl))
      · -- an exact page is kept unless it becomes lossy
        by_cases hk : j = k
        · exact .inl ((hm.lossy j).mpr (.inr (.inl hk)))
        by_cases hc : j = chunkPageno k
        · exact .inl ((hm.lossy j).mpr (.inr (.inr ⟨hc, e, he⟩)))
        exact .inr ⟨e, (hm.exact j e).mpr ⟨he, hk, hc⟩, hhas⟩
    · obtain ⟨tid, htid, hblk, _⟩ := hat
      exact .inl ((hm.lossy j).mpr (.inr (.inl (hblk.symm.trans (hP htid)))))
  sure := by
    intro j e he
    exact hx.sure j e ((hm.exact j e).mp he).1

theorem Marked.covers_self (hm : Marked T T' k) {x : TidSet} (hx : Covers T x) : Covers T' x :=
  (hm.covers hx (Set.empty_subset _)).mono Set.subset_union_left subset_rfl

/-! ## Adding tids to an exact page -/

/-- `T'` is `T` with the bits `bits` added to the page `k`, which becomes exact if it has no entry.
`recheck` is whether they need to be checked again. -/
structure Merged (T T' : Pagetable) (k : Nat) (bits : Nat → Bool) (recheck : Bool) : Prop where
  lossy : ∀ j, Lossy T' j ↔ Lossy T j
  notLossy : ¬Lossy T k
  valid : k < 2 ^ 32
  others : ∀ j ≠ k, T'.get? j = T.get? j
  page : ∃ e', Exact T' k e' ∧
    ((T.get? k = none ∧ (∀ i < 65536, e'.has i = bits i) ∧ e'.recheck = recheck) ∨
      ∃ e, Exact T k e ∧ (∀ i < 65536, e'.has i = (e.has i || bits i)) ∧
        e'.recheck = (e.recheck || recheck))

variable {bits : Nat → Bool} {recheck : Bool}

theorem Merged.sound (hm : Merged T T' k bits recheck) (h : Sound T) : Sound T' := by
  obtain ⟨e', he', _⟩ := hm.page
  refine ⟨fun j e hj hchunk => ?_, fun j e he hl => ?_, fun j e hj => ?_⟩
  · by_cases hk : j = k
    · obtain rfl := Option.some.inj (he'.1.symm.trans (hk ▸ hj))
      exact absurd (he'.2.symm.trans hchunk) Bool.false_ne_true
    · exact h.aligned j e (hm.others j hk ▸ hj) hchunk
  · rw [hm.lossy] at hl
    by_cases hk : j = k
    · exact hm.notLossy (hk ▸ hl)
    · exact h.exclusive j e ⟨hm.others j hk ▸ he.1, he.2⟩ hl
  · by_cases hk : j = k
    · exact hk ▸ hm.valid
    · exact h.valid j e (hm.others j hk ▸ hj)

/-- **Adding tids to a page** covers them. -/
theorem Merged.covers (hm : Merged T T' k bits recheck) {x : TidSet} (hx : Covers T x)
    {P Q : Set ItemPointer} (hP : ∀ j i, At P j i → j = k ∧ bits i = true)
    (hQ : recheck = false → ∀ i < 65536, bits i = true → At Q k i) :
    Covers T' ⟨x.all ∪ P, x.sure ∪ Q⟩ := by
  obtain ⟨e', he', hpage⟩ := hm.page
  -- the page has the bits it had, and the new ones
  have hold : ∀ e, Exact T k e → ∀ i < 65536, e.has i = true → e'.has i = true := by
    intro e he i hi hhas
    rcases hpage with ⟨hnone, _⟩ | ⟨e₀, he₀, hbits, _⟩
    · exact absurd (hnone.symm.trans he.1) (Option.some_ne_none e).symm
    · obtain rfl := Option.some.inj (he₀.1.symm.trans he.1)
      rw [hbits i hi, hhas, Bool.true_or]
  have hnew : ∀ i < 65536, bits i = true → e'.has i = true := by
    intro i hi hbit
    rcases hpage with ⟨_, hbits, _⟩ | ⟨e₀, _, hbits, _⟩
    · rw [hbits i hi, hbit]
    · rw [hbits i hi, hbit, Bool.or_true]
  constructor
  · intro j i hat
    rcases at_union.mp hat with hat | hat
    · rcases hx.all j i hat with hl | ⟨e, he, hhas⟩
      · exact .inl ((hm.lossy j).mpr hl)
      · right
        by_cases hk : j = k
        · subst hk
          have hi := hat.lt
          exact ⟨e', he', hold e he i (by omega) hhas⟩
        · exact ⟨e, ⟨(hm.others j hk).trans he.1, he.2⟩, hhas⟩
    · obtain ⟨rfl, hbit⟩ := hP j i hat
      have hi := hat.lt
      exact .inr ⟨e', he', hnew i (by omega) hbit⟩
  · intro j e he hr i hi hhas
    rw [at_union]
    by_cases hk : j = k
    · subst hk
      obtain rfl := Option.some.inj (he'.1.symm.trans he.1)
      rcases hpage with ⟨_, hbits, hr'⟩ | ⟨e₀, he₀, hbits, hr'⟩
      · exact .inr (hQ (hr'.symm.trans hr) i hi ((hbits i hi).symm.trans hhas))
      · rw [hr', Bool.or_eq_false_iff] at hr
        rw [hbits i hi, Bool.or_eq_true] at hhas
        rcases hhas with hhas | hbit
        · exact .inl (hx.sure j e₀ he₀ hr.1 i hi hhas)
        · exact .inr (hQ hr.2 i hi hbit)
    · exact .inl (hx.sure j e ⟨(hm.others j hk).symm.trans he.1, he.2⟩ hr i hi hhas)

/-! ## The intersection with another table -/

/-- The page has an entry or is lossy. -/
def Present (T : Pagetable) (k : Nat) : Prop := Lossy T k ∨ ∃ e, Exact T k e

/-- `T'` is `T` cut down to what `U` has. -/
structure Met (T U T' : Pagetable) : Prop where
  lossy : ∀ k, Lossy T' k ↔ Lossy T k ∧ Present U k
  sub : ∀ k e', T'.get? k = some e' → ∃ e, T.get? k = some e ∧ e.ischunk = e'.ischunk
  exact : ∀ k e', Exact T' k e' → ∃ e, Exact T k e ∧
    ((Lossy U k ∧ e'.recheck = true) ∨
      ∃ f, Exact U k f ∧ (∀ i < 65536, e'.has i = (e.has i && f.has i)) ∧
        e'.recheck = (e.recheck || f.recheck))
  covers : ∀ k e i, Exact T k e → e.has i = true → i < 65536 →
    (Lossy U k ∨ ∃ f, Exact U k f ∧ f.has i = true) → ∃ e', Exact T' k e' ∧ e'.has i = true

theorem Met.sound (hm : Met T U T') (h : Sound T) : Sound T' where
  aligned := by
    intro k e' he' hchunk
    obtain ⟨e, he, heq⟩ := hm.sub k e' he'
    exact h.aligned k e he (heq.trans hchunk)
  exclusive := by
    intro k e' he' hl
    obtain ⟨e, he, _⟩ := hm.exact k e' he'
    exact h.exclusive k e he ((hm.lossy k).mp hl).1
  valid := by
    intro k e' he'
    obtain ⟨e, he, _⟩ := hm.sub k e' he'
    exact h.valid k e he

/-- **The intersection** covers the tids of both sets. -/
theorem Met.covers_inter (hm : Met T U T') {x y : TidSet} (hx : Covers T x) (hy : Covers U y) :
    Covers T' ⟨x.all ∩ y.all, x.sure ∩ y.sure⟩ where
  all := by
    intro k i hat
    obtain ⟨hxi, hyi⟩ := at_inter.mp hat
    have hi := hxi.lt
    rcases hx.all k i hxi with hl | ⟨e, he, hhas⟩
    · left
      rcases hy.all k i hyi with hl' | ⟨f, hf, _⟩
      · exact (hm.lossy k).mpr ⟨hl, .inl hl'⟩
      · exact (hm.lossy k).mpr ⟨hl, .inr ⟨f, hf⟩⟩
    · exact .inr (hm.covers k e i he hhas (by omega) (hy.all k i hyi))
  sure := by
    intro k e' he' hr i hi hhas
    obtain ⟨e, he, ⟨_, hr'⟩ | ⟨f, hf, hbits, hr'⟩⟩ := hm.exact k e' he'
    · exact absurd (hr.symm.trans hr') Bool.false_ne_true
    · rw [hr', Bool.or_eq_false_iff] at hr
      rw [hbits i hi, Bool.and_eq_true] at hhas
      rw [at_inter]
      exact ⟨hx.sure k e he hr.1 i hi hhas.1, hy.sure k f hf hr.2 i hi hhas.2⟩

end Hdb.Tbm

import Hdb.Bitmap.StreamReader
import Hdb.Bitmap.ScanUnion

/-!
# The two readers agree

Both interfaces report the tids of the set bits, each of them once and in order, wherever the words
are cut into batches. The stream interface reports them as pages, some of which may be empty.

It does so only if the vector ends before the last block. Blocks are numbered in 32 bits, and
`words_get_match` computes the end of a block from the number of the next one, which for the last
block is 0. A stream that gets there takes the block as passed without reading it, and returns this
page again and again.
-/

namespace Hdb.Bitmap

/-- The batches of a scan. The bits of a vector stand for tids, each a block number of 32 bits and
an offset number of 16 bits. -/
structure WellFormed (bs : List BMBatchWords) : Prop where
  batches : ∀ b ∈ bs, BatchOk b
  size : numBits (batchEntries bs) ≤ 2 ^ 48

/-- The tids of the set bits: `BM_IPTR_TO_INT` of a tid is its position, from 1. -/
def setTids (bs : List BMBatchWords) : List Nat :=
  tidsBetween (bitAt (batchEntries bs)) 0 (numBits (batchEntries bs))

/-- The tids of a page. -/
def PagetableEntry.tids (e : PagetableEntry) : List Nat :=
  ((List.range bmMaxTuplesPerPage).filter e.has).map
    fun i => e.blockno * bmMaxTuplesPerPage + (i + 1)

/-- The next page, into an empty entry. -/
def pullPage (it : StreamIterator) : StreamIterator × Option PagetableEntry :=
    pullStream it zeroEntry

/-- The pages of the stream come in the order of their blocks, none of them twice, and their tids
are those of the set bits. -/
structure StreamAgrees (bs : List BMBatchWords) : Prop where
  blocks : ∀ n, ((pulls pullPage n (startStream bs)).map PagetableEntry.blockno).Pairwise (· < ·)
  tids : ∀ t, (∃ n, ∃ e ∈ pulls pullPage n (startStream bs), t ∈ e.tids) ↔ t ∈ setTids bs

theorem mem_setTids {bs : List BMBatchWords} {t : Nat} :
    t ∈ setTids bs ↔ 1 ≤ t ∧ bitAt (batchEntries bs) (t - 1) = true := by
  rw [setTids, mem_tidsBetween]
  constructor
  · rintro ⟨h₁, _, h₃⟩
    exact ⟨h₁, h₃⟩
  · rintro ⟨h₁, h₂⟩
    refine ⟨h₁, ?_, h₂⟩
    by_contra hlt
    have hfalse : bitAt (batchEntries bs) (t - 1) = false := Segments.bitAt_eq_false (by
      show numBits (batchEntries bs) ≤ t - 1
      omega)
    rw [hfalse] at h₂
    exact Bool.false_ne_true h₂

theorem ExactPage.mem_tids {bit : Nat → Bool} {e : PagetableEntry} (h : ExactPage bit e) {t : Nat} :
    t ∈ e.tids ↔ 1 ≤ t ∧ (t - 1) / 65536 = e.blockno ∧ bit (t - 1) = true := by
  simp only [PagetableEntry.tids, bmMaxTuplesPerPage, List.mem_map, List.mem_filter, List.mem_range]
  constructor
  · rintro ⟨i, ⟨hi, hhas⟩, rfl⟩
    rw [h.has i hi] at hhas
    rw [Nat.mul_comm]
    refine ⟨by omega, by omega, ?_⟩
    rw [show 65536 * e.blockno + (i + 1) - 1 = 65536 * e.blockno + i by omega]
    exact hhas
  · rintro ⟨h₁, h₂, h₃⟩
    refine ⟨(t - 1) % 65536, ⟨Nat.mod_lt _ (by decide), ?_⟩, ?_⟩
    · rw [h.has _ (Nat.mod_lt _ (by decide)), ← h₂,
        show 65536 * ((t - 1) / 65536) + (t - 1) % 65536 = t - 1 by omega]
      exact h₃
    · rw [Nat.mul_comm]
      omega

/-! ## A vector that ends before the last block -/

/-- The stream is at the block it will ask for next: what is before it has been returned. -/
structure Advanced (all : List Entry) (it : StreamIterator) : Prop where
  stream : ∀ so, it.stream = some so → ∃ asked n, StreamAt all asked so n ∧
    (so.entry = none → it.nextblock = 0) ∧ (so.isDone = false → it.nextblock + 1 < 2 ^ 32)
  cached : ∀ so e, it.stream = some so → so.entry = some e → e.blockno < it.nextblock
  freed : it.stream = none → ∀ p, 65536 * it.nextblock ≤ p → bitAt all p = false

/-- The pages that are still to come. -/
structure Remaining (all : List Entry) (it : StreamIterator) (pages : List PagetableEntry) :
    Prop where
  le : ∀ e ∈ pages, it.nextblock ≤ e.blockno
  sorted : (pages.map PagetableEntry.blockno).Pairwise (· < ·)
  exact : ∀ e ∈ pages, ExactPage (bitAt all) e
  covers : ∀ p, 65536 * it.nextblock ≤ p → bitAt all p = true → ∃ e ∈ pages, p / 65536 = e.blockno

theorem advanced_start {bs : List BMBatchWords} (h : ∀ b ∈ bs, BatchOk b) :
    Advanced (batchEntries bs) (startStream bs) := by
  obtain ⟨so, hso, hentry, hat⟩ := streamAt_start h
  refine ⟨?_, ?_, fun h0 => absurd (hso.symm.trans h0) (Option.some_ne_none so)⟩
  · intro so' hso'
    obtain rfl : so = so' := Option.some.inj (hso.symm.trans hso')
    exact ⟨0, 0, hat, fun _ => rfl, fun _ => show 0 + 1 < 2 ^ 32 by decide⟩
  · intro so' e hso' he
    obtain rfl : so = so' := Option.some.inj (hso.symm.trans hso')
    rw [hentry] at he
    exact absurd he (Option.some_ne_none e).symm

/-- A pull that does not find the page cached: there is nothing more, or it comes from the scan. -/
theorem Advanced.pullStream_eq {all : List Entry} {it : StreamIterator} (h : Advanced all it) :
    (it.stream = none ∧ pullPage it = (it, none)) ∨
      ∃ so, it.stream = some so ∧
        ((so.isDone = true ∧ pullPage it = ({ it with stream := none }, none)) ∨
          (so.isDone = false ∧ pullPage it = pullStream.pullNext it so zeroEntry)) := by
  cases hs : it.stream with
  | none =>
    left
    refine ⟨rfl, ?_⟩
    rw [pullPage, pullStream, hs]
  | some so =>
    right
    refine ⟨so, rfl, ?_⟩
    cases he : so.entry with
    | none =>
      cases hd : so.isDone with
      | true => exact .inl ⟨rfl, by simp [pullPage, pullStream, hs, he, hd]⟩
      | false => exact .inr ⟨rfl, by simp [pullPage, pullStream, hs, he, hd]⟩
    | some e =>
      have hlt := h.cached so e hs he
      have hnle : ¬it.nextblock ≤ e.blockno := by omega
      cases hd : so.isDone with
      | true => exact .inl ⟨rfl, by simp [pullPage, pullStream, hs, he, hd, hnle]⟩
      | false => exact .inr ⟨rfl, by simp [pullPage, pullStream, hs, he, hd, hnle]⟩

/-- Nothing is left when the stream gives no page. -/
theorem Advanced.pull_none {all : List Entry} {it it' : StreamIterator} (h : Advanced all it)
    (hpull : pullPage it = (it', none)) :
    Remaining all it [] := by
  have hzero : ∀ p, 65536 * it.nextblock ≤ p → bitAt all p = false := by
    rcases h.pullStream_eq with ⟨hs, _⟩ | ⟨so, hs, ⟨hd, _⟩ | ⟨hd, heq⟩⟩
    · exact h.freed hs
    · intro p hp
      obtain ⟨asked, n, hat, hstart, _⟩ := h.stream so hs
      cases he : so.entry with
      | none =>
        rw [(hat.start he).2] at hd
        exact absurd hd Bool.false_ne_true
      | some e =>
        have hlt := h.cached so e hs he
        by_cases hpn : p < 64 * n
        · exact hat.after e he p (by omega) hpn
        · apply Segments.bitAt_eq_false
          have hend : 64 * n = Segments.total entryLen all := hat.done hd
          omega
    · obtain ⟨asked, n, hat, hstart, hnext⟩ := h.stream so hs
      obtain ⟨it'', so', e, n', hp, _⟩ :=
        hat.pullNext (hnext hd) fun e he => h.cached so e hs he
      rw [hpull, hp] at heq
      exact absurd (Prod.mk.inj heq).2.symm (Option.some_ne_none e)
  refine ⟨List.forall_mem_nil _, List.Pairwise.nil, List.forall_mem_nil _, ?_⟩
  intro p hp hbit
  rw [hzero p hp] at hbit
  exact absurd hbit Bool.false_ne_true

/-- **One page.** The stream comes to a later block, and the page and those after it are the pages
that were still to come. -/
theorem Advanced.pull_some {all : List Entry} {it it' : StreamIterator} {e : PagetableEntry}
    (h : Advanced all it) (hpull : pullPage it = (it', some e))
    (hbits : numBits all < 65536 * (2 ^ 32 - 1)) :
    Advanced all it' ∧ it.nextblock < it'.nextblock ∧ it'.nextblock < 2 ^ 32 ∧
      ∀ pages, Remaining all it' pages → Remaining all it (e :: pages) := by
  rcases h.pullStream_eq with ⟨_, heq⟩ | ⟨so, hs, ⟨_, heq⟩ | ⟨hd, heq⟩⟩
  · rw [hpull] at heq
    exact absurd (Prod.mk.inj heq).2 (Option.some_ne_none e)
  · rw [hpull] at heq
    exact absurd (Prod.mk.inj heq).2 (Option.some_ne_none e)
  obtain ⟨asked, n, hat, _, hnext⟩ := h.stream so hs
  obtain ⟨it'', so', e', n', hp, hs', he', hat', hlast, heq'⟩ :=
    hat.pullNext (hnext hd) fun e he => h.cached so e hs he
  obtain ⟨hnextblock, hlt, hmax, hsmall⟩ := hat'.nextblock_lt hbits he' hlast heq'
  rw [hpull, hp] at heq
  obtain ⟨rfl, hsome⟩ := Prod.mk.inj heq
  obtain rfl := Option.some.inj hsome
  obtain ⟨hexact, hle⟩ := hat'.exact e he'
  have hn' : 64 * n' ≤ numBits all := hat'.scan.pos.le
  -- no bit between the page and the next block asked for is set
  have hzero : ∀ p, 65536 * (e.blockno + 1) ≤ p → p < 65536 * it'.nextblock →
      bitAt all p = false := by
    intro p h₁ h₂
    rcases hnextblock with heq | hle'
    · rw [heq] at h₂
      omega
    · exact hat'.after e he' p h₁ (by omega)
  refine ⟨⟨?_, ?_, ?_⟩, by omega, hmax, ?_⟩
  · intro so'' hso''
    obtain rfl : so' = so'' := Option.some.inj (hs'.symm.trans hso'')
    exact ⟨_, n', hat', fun h0 => absurd (he'.symm.trans h0) (Option.some_ne_none e), hsmall⟩
  · intro so'' e'' hso'' he''
    obtain rfl : so' = so'' := Option.some.inj (hs'.symm.trans hso'')
    obtain rfl : e = e'' := Option.some.inj (he'.symm.trans he'')
    exact hlt
  · intro h0
    exact absurd (hs'.symm.trans h0) (Option.some_ne_none so')
  · intro pages hrem
    refine ⟨?_, ?_, ?_, ?_⟩
    · refine List.forall_mem_cons.mpr ⟨hle, fun e'' he'' => ?_⟩
      have := hrem.le e'' he''
      omega
    · rw [List.map_cons, List.pairwise_cons]
      refine ⟨?_, hrem.sorted⟩
      intro k hk
      obtain ⟨e'', he'', rfl⟩ := List.mem_map.mp hk
      have := hrem.le e'' he''
      omega
    · exact List.forall_mem_cons.mpr ⟨hexact, hrem.exact⟩
    · intro p hp hbit
      by_cases h₁ : p < 65536 * e.blockno
      · rw [hat'.before e he' p hp h₁] at hbit
        exact absurd hbit Bool.false_ne_true
      · by_cases h₂ : p < 65536 * (e.blockno + 1)
        · exact ⟨e, List.mem_cons_self, by omega⟩
        · by_cases h₃ : p < 65536 * it'.nextblock
          · rw [hzero p (by omega) h₃] at hbit
            exact absurd hbit Bool.false_ne_true
          · obtain ⟨e'', he'', heq''⟩ := hrem.covers p (by omega) hbit
            exact ⟨e'', List.mem_cons_of_mem e he'', heq''⟩

/-- The pages of a stream. -/
theorem exists_streamPages {bs : List BMBatchWords} (h : ∀ b ∈ bs, BatchOk b)
    (hbits : numBits (batchEntries bs) < 65536 * (2 ^ 32 - 1)) :
    ∃ pages, Yields pullPage (startStream bs) pages ∧
      Remaining (batchEntries bs) (startStream bs) pages :=
  exists_yields (P := Remaining (batchEntries bs))
    (fun it : StreamIterator => 2 ^ 32 - it.nextblock)
    (fun it it' hit hpull => hit.pull_none hpull)
    (fun it it' e hit hpull => by
      obtain ⟨h₁, h₂, h₃, h₄⟩ := hit.pull_some hpull hbits
      exact ⟨h₁, by omega, h₄⟩)
    (advanced_start h)

theorem streamAgrees_of_lt {bs : List BMBatchWords} (h : ∀ b ∈ bs, BatchOk b)
    (hbits : numBits (batchEntries bs) < 65536 * (2 ^ 32 - 1)) : StreamAgrees bs := by
  obtain ⟨pages, hy, hrem⟩ := exists_streamPages h hbits
  refine ⟨?_, ?_⟩
  · intro n
    rw [hy.pulls_eq, List.map_take]
    exact hrem.sorted.sublist (List.take_sublist n _)
  · intro t
    rw [mem_setTids]
    constructor
    · rintro ⟨n, e, he, ht⟩
      rw [hy.pulls_eq] at he
      obtain ⟨h₁, _, h₃⟩ := (hrem.exact e (List.mem_of_mem_take he)).mem_tids.mp ht
      exact ⟨h₁, h₃⟩
    · rintro ⟨h₁, h₂⟩
      obtain ⟨e, he, hblock⟩ := hrem.covers (t - 1) (Nat.zero_le _) h₂
      refine ⟨pages.length, e, ?_, (hrem.exact e he).mem_tids.mpr ⟨h₁, hblock, h₂⟩⟩
      rw [hy.pulls_eq, List.take_length]
      exact he

/-! ## A vector that reaches the last block -/

/-- A stream that has come to its end is that of a vector that ends before the last block. -/
structure Unended (all : List Entry) (it : StreamIterator) : Prop where
  scan : ∀ so, it.stream = some so → (∃ n, ScanAt all so.scan n) ∧
    ∀ e, so.entry = some e → e.blockno < 2 ^ 32
  done : ∀ so, it.stream = some so → so.isDone = true → numBits all < 65536 * (2 ^ 32 - 1)
  freed : it.stream = none → numBits all < 65536 * (2 ^ 32 - 1)
  nextblock : it.nextblock < 2 ^ 32

theorem unended_start {bs : List BMBatchWords} (h : ∀ b ∈ bs, BatchOk b) :
    Unended (batchEntries bs) (startStream bs) := by
  obtain ⟨so, hso, hentry, hdone, hscan⟩ := scanAt_start h
  refine ⟨?_, ?_, fun h0 => absurd (hso.symm.trans h0) (Option.some_ne_none so),
    show 0 < 2 ^ 32 by decide⟩
  · intro so' hso'
    obtain rfl := Option.some.inj (hso.symm.trans hso')
    refine ⟨⟨0, hscan⟩, fun e he => ?_⟩
    rw [hentry] at he
    exact absurd he (Option.some_ne_none e).symm
  · intro so' hso' hd
    obtain rfl := Option.some.inj (hso.symm.trans hso')
    exact absurd (hdone.symm.trans hd) Bool.false_ne_true

/-- A page that comes from the scan: at the end of a vector that reaches the last block every block
is passed, so that the scan is not over. -/
theorem Unended.pullNext {all : List Entry} {it : StreamIterator} (h : Unended all it)
    {so : BMStreamOpaque} (hs : it.stream = some so) :
    ∃ it' e, pullStream.pullNext it so zeroEntry = (it', some e) ∧ Unended all it' ∧
      e.blockno < 2 ^ 32 := by
  obtain ⟨⟨n, hscan⟩, -⟩ := h.scan so hs
  obtain ⟨s', e, isDone, n', hpull, hok⟩ :=
    pullLoop_spec (so.scan.later.length + 3) it.nextblock true
    (e := { zeroEntry with blockno := it.nextblock }) hscan h.nextblock h.nextblock
    (by rw [BatchScan.rounds]; split_ifs <;> omega)
  rw [pullStream.pullNext, hpull]
  refine ⟨_, e, rfl, ⟨?_, ?_, fun h0 => absurd h0 (Option.some_ne_none _), ?_⟩, hok.blockno_lt⟩
  · rintro so' ⟨⟩
    refine ⟨⟨n', hok.scan⟩, ?_⟩
    rintro e' ⟨⟩
    exact hok.blockno_lt
  · rintro so' ⟨⟩ hd
    exact (hok.done hd).2
  · dsimp only
    split_ifs
    · exact Nat.mod_lt _ (by decide)
    · exact Nat.mod_lt _ (by decide)

/-- **A pull without a page** shows that the vector ends before the last block. -/
theorem Unended.pull {all : List Entry} {it : StreamIterator} (h : Unended all it) :
    ∃ it' o, pullPage it = (it', o) ∧ Unended all it' ∧
      (o = none → numBits all < 65536 * (2 ^ 32 - 1)) ∧ ∀ e, o = some e → e.blockno < 2 ^ 32 := by
  cases hs : it.stream with
  | none =>
    have hpull : pullPage it = (it, none) := by simp [pullPage, pullStream, hs]
    exact ⟨it, none, hpull, h, fun _ => h.freed hs,
      fun e h0 => absurd h0 (Option.some_ne_none e).symm⟩
  | some so =>
    -- the page that is kept, the end of the scan, or a page of the scan
    by_cases hkept : ∃ e, so.entry = some e ∧ it.nextblock ≤ e.blockno
    · obtain ⟨e, he, hle⟩ := hkept
      have hpull : pullPage it = (it, some e) := by simp [pullPage, pullStream, hs, he, hle]
      refine ⟨it, some e, hpull, h, fun h0 => absurd h0 (Option.some_ne_none e), ?_⟩
      rintro e' ⟨⟩
      exact (h.scan so hs).2 e he
    · have hpull : pullPage it = if so.isDone then ({ it with stream := none }, none)
          else pullStream.pullNext it so zeroEntry := by
        cases he : so.entry with
        | none => simp [pullPage, pullStream, hs, he]
        | some e =>
          have hlt : ¬it.nextblock ≤ e.blockno := fun hle => hkept ⟨e, he, hle⟩
          simp [pullPage, pullStream, hs, he, hlt]
      rw [hpull]
      cases hd : so.isDone with
      | true =>
        have hbits := h.done so hs hd
        exact ⟨_, none, rfl, ⟨fun so' h0 => absurd h0 (Option.some_ne_none so').symm,
          fun so' h0 => absurd h0 (Option.some_ne_none so').symm, fun _ => hbits, h.nextblock⟩,
          fun _ => hbits, fun e h0 => absurd h0 (Option.some_ne_none e).symm⟩
      | false =>
        obtain ⟨it', e, hnext, h', he⟩ := h.pullNext hs
        refine ⟨it', some e, hnext, h', fun h0 => absurd h0 (Option.some_ne_none e), ?_⟩
        rintro e' ⟨⟩
        exact he

/-- There are only `m` numbers below `m`. -/
theorem length_le_of_sorted {l : List Nat} {m : Nat} (hs : l.Pairwise (· < ·))
    (hlt : ∀ k ∈ l, k < m) :
    l.length ≤ m := by
  have hnodup : l.Nodup := hs.imp fun h => Nat.ne_of_lt h
  have hsub : l.toFinset ⊆ Finset.range m := by
    intro k hk
    exact Finset.mem_range.mpr (hlt k (List.mem_toFinset.mp hk))
  have hcard := Finset.card_le_card hsub
  rw [List.toFinset_card_of_nodup hnodup, Finset.card_range] at hcard
  exact hcard

theorem not_streamAgrees_of_le {bs : List BMBatchWords} (h : ∀ b ∈ bs, BatchOk b)
    (hbits : 65536 * (2 ^ 32 - 1) ≤ numBits (batchEntries bs)) : ¬StreamAgrees bs := by
  intro hagree
  have hsome : ∀ it, Unended (batchEntries bs) it →
      ∃ it' e, pullPage it = (it', some e) ∧ Unended (batchEntries bs) it' := by
    intro it hit
    obtain ⟨it', o, hpull, hit', hnone, _⟩ := hit.pull
    cases o with
    | none => exact absurd (hnone rfl) (Nat.not_lt.mpr hbits)
    | some e => exact ⟨it', e, hpull, hit'⟩
  have hlen := length_pulls hsome (unended_start h) (2 ^ 32 + 1)
  have hlt := forall_mem_pulls (P := fun e : PagetableEntry => e.blockno < 2 ^ 32)
    (fun it it' e hit hpull => by
      obtain ⟨it'', o, hpull', hit', _, hlt⟩ := hit.pull
      obtain ⟨rfl, rfl⟩ := Prod.mk.inj (hpull'.symm.trans hpull)
      exact ⟨hit', hlt e rfl⟩)
    (unended_start h) (2 ^ 32 + 1)
  have hle := length_le_of_sorted (m := 2 ^ 32) (hagree.blocks (2 ^ 32 + 1)) (by
    intro k hk
    obtain ⟨e, he, rfl⟩ := List.mem_map.mp hk
    exact hlt e he)
  rw [List.length_map, hlen] at hle
  omega

/-- **The two readers of a bitmap vector agree** exactly if the vector ends before the last block
number. The tuple interface, with space for any positive multiple of 64 tids, gives the tids of the
set bits in order; the pages of the stream interface have the same tids, and come in the order of
their blocks, each of them once. -/
theorem readers_agree {bs : List BMBatchWords} (h : WellFormed bs) {k : Nat} (hk : 0 < k) :
    (Yields (bitmapNext (64 * k)) (startScan bs) (setTids bs) ∧ (setTids bs).Pairwise (· < ·) ∧
      (∀ t, t ∈ setTids bs ↔ 1 ≤ t ∧ bitAt (batchEntries bs) (t - 1) = true) ∧ StreamAgrees bs) ↔
    numBits (batchEntries bs) < bmMaxTuplesPerPage * (2 ^ 32 - 1) := by
  constructor
  · rintro ⟨_, _, _, hagree⟩
    by_contra hbits
    exact not_streamAgrees_of_le h.batches (Nat.le_of_not_lt hbits) hagree
  · intro hbits
    exact ⟨tuples_yield h.batches (by omega), pairwise_tidsBetween _ _ _, fun t => mem_setTids,
      streamAgrees_of_lt h.batches hbits⟩

/-! ## Small vectors -/

/-- A batch of the given words, at most 64. -/
def batchOf (es : List Entry) : BMBatchWords :=
  { bitmapInitBatchwords 64 with
    nwords := es.length
    cwords := (pageOf es none).cwords
    hwords := (pageOf es none).hwords }

theorem batchOk_batchOf {es : List Entry} (hlen : es.length ≤ 64)
    (hfills : FillsPos (batchOf es).entries) :
    BatchOk (batchOf es) := ⟨rfl, hlen, hfills⟩

/-- Three batches, cut in the middle of heap pages. -/
def cutBatches : List BMBatchWords :=
  [batchOf [(bmMakeFillWord true 3, true), (5, false)],
    batchOf [(bmMakeFillWord false 2000, true), (9, false)],
    batchOf [(bmMakeFillWord true 1030, true)]]

theorem wellFormed_cutBatches : WellFormed cutBatches := by
  refine ⟨?_, by decide +kernel⟩
  intro b hb
  simp only [cutBatches, List.mem_cons, List.not_mem_nil, or_false] at hb
  rcases hb with rfl | rfl | rfl
  · exact batchOk_batchOf (by decide) (by decide +kernel)
  · exact batchOk_batchOf (by decide) (by decide +kernel)
  · exact batchOk_batchOf (by decide) (by decide +kernel)

theorem readers_agree_cutBatches :
    WellFormed cutBatches ∧
      Yields (bitmapNext (64 * 1)) (startScan cutBatches) (setTids cutBatches) ∧
      (setTids cutBatches).Pairwise (· < ·) ∧
      (∀ t, t ∈ setTids cutBatches ↔ 1 ≤ t ∧ bitAt (batchEntries cutBatches) (t - 1) = true) ∧
      StreamAgrees cutBatches :=
  ⟨wellFormed_cutBatches,
    (readers_agree wellFormed_cutBatches (show 0 < 1 by decide)).mpr (by decide +kernel)⟩

/-- The last tid of an append-only table: row number `2 ^ 40 - 1` of the segment file 127 has offset
number 32768 in the last block. The words before it are zeros. -/
def lastBatches : List BMBatchWords :=
  [batchOf [(bmMakeFillWord false ((2 ^ 32 - 1) * 1024 + 511), true), (1#64 <<< 63, false)]]

theorem wellFormed_lastBatches : WellFormed lastBatches := by
  refine ⟨?_, by decide +kernel⟩
  intro b hb
  rw [List.mem_singleton.mp hb]
  exact batchOk_batchOf (by decide) (by decide +kernel)

theorem pulls_lastBatches :
    (pulls pullPage 3 (startStream lastBatches)).map PagetableEntry.blockno =
      [0, 2 ^ 32 - 1, 2 ^ 32 - 1] := by decide +kernel

/-- **The page of the last block is returned again and again**, and without the tid. -/
theorem stream_repeats_page :
    WellFormed lastBatches ∧ (2 ^ 32 - 1) * bmMaxTuplesPerPage + 32768 ∈ setTids lastBatches ∧
      (pulls pullPage 3 (startStream lastBatches)).map PagetableEntry.blockno =
        [0, 2 ^ 32 - 1, 2 ^ 32 - 1] ∧
      (∀ e ∈ pulls pullPage 3 (startStream lastBatches), e.has 32767 = false) ∧
      ¬StreamAgrees lastBatches := by
  refine ⟨wellFormed_lastBatches, ?_, pulls_lastBatches, by decide +kernel, ?_⟩
  · exact mem_setTids.mpr ⟨by decide, by decide +kernel⟩
  · intro hagree
    have hsorted := hagree.blocks 3
    rw [pulls_lastBatches] at hsorted
    exact absurd hsorted (by decide)

end Hdb.Bitmap

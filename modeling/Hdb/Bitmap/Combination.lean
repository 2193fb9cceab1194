import Hdb.Bitmap.StreamLeaves
import Hdb.Bitmap.ReadersAgree

/-!
# Combinations of streams

A tree of streams is built from leaves by adding a tree to another one. A node of the same operation
gets one more input, any other node becomes an input itself (`streamAddNode`), so that a tree stands
for the intersections and unions it was built with (`Combination.tids`).

The pages of the root come in the order of their blocks, cover the tids of the combination, and are
exact where all leaves are exact (`exists_rootPages`), for a tree that ends: because it is small, so
that `InvalidBlockNumber` is never asked for, or because its intersections are simple, those of
unions of leaves. An intersection inside another one may be asked for this block while its inputs
are behind, and a page for this block among theirs is taken for "no block yet".
-/

namespace Hdb.Bitmap

/-! ## A tree is a stream -/

/-- The iterator of a tree of at most the given depth, and what is known of it. -/
def StreamIs : Nat → StreamBMIterator → View → Prop
  | 0, _, _ => False
  | _ + 1, .hash it, v => HashAt it v
  | _ + 1, .index it, v => ∃ all, IndexAt all it v
  | d + 1, .op kind _ input, v => ∃ vs, List.Forall₂ (StreamIs d) input vs ∧ OpView kind vs v

/-- Pull a page at or after the block `b`. -/
def pullFrom (d b : Nat) (it : StreamBMIterator) :
    Option (StreamBMIterator × Option PagetableEntry) :=
  streamPull d (it.setNextblock b) zeroEntry

theorem StreamIs.mono {d d' : Nat} (hd : d ≤ d') {it : StreamBMIterator} {v : View}
    (h : StreamIs d it v) : StreamIs d' it v := by
  induction d generalizing d' it v with
  | zero => exact h.elim
  | succ d ih =>
    obtain ⟨d', rfl⟩ : ∃ k, d' = k + 1 := ⟨d' - 1, by omega⟩
    cases it with
    | hash it => exact h
    | index it => exact h
    | op kind nextblock input =>
      obtain ⟨vs, hvs, hv⟩ := h
      exact ⟨vs, hvs.imp fun it v hit => ih (by omega) hit, hv⟩

theorem pullFrom_hash {d b : Nat} {it it' : HashIterator} {o : Option PagetableEntry}
    (h : tbmStreamBlock { it with nextblock := b } = (it', o)) :
    pullFrom (d + 1) b (.hash it) = some (.hash it', o) :=
  congrArg (fun r : HashIterator × Option PagetableEntry => some (StreamBMIterator.hash r.1, r.2)) h

theorem pullFrom_index {d b : Nat} {it it' : StreamIterator} {o : Option PagetableEntry}
    (h : pullStream { it with nextblock := b } zeroEntry = (it', o)) :
    pullFrom (d + 1) b (.index it) = some (.index it', o) :=
  congrArg
    (fun r : StreamIterator × Option PagetableEntry => some (StreamBMIterator.index r.1, r.2)) h

/-- A pull from an inner node is the iteration over its inputs. -/
theorem pullFrom_op (d b : Nat) (kind : OpType) (nextblock : Nat) (input : List StreamBMIterator) :
    pullFrom (d + 1) b (.op kind nextblock input) =
      (opstreamIterate (pullFrom d) kind (2 ^ 32 * input.length + 2) b input zeroEntry).map fun r =>
        (.op kind r.1 r.2.1, r.2.2) := by
  show (opstreamIterate (pullFrom d) kind (2 ^ 32 * input.length + 2) b input zeroEntry >>= _) = _
  cases opstreamIterate (pullFrom d) kind (2 ^ 32 * input.length + 2) b input zeroEntry with
  | none => rfl
  | some r => rfl

/-- The blocks of the lossy pages of a tid bitmap. -/
def TIDBitmap.lossyBlocks (tbm : TIDBitmap) : List Nat :=
    tbm.schunks.flatMap fun c => chunkBlocks c 0

/-- The pages of a tid bitmap. -/
def TIDBitmap.pages (tbm : TIDBitmap) : List PagetableEntry := (tbmBeginIterate tbm).pages

/-- A tid bitmap that is being iterated over. Its chunks are aligned, and a page that has become
lossy is no longer among the exact ones. Block numbers have 32 bits. -/
structure TIDBitmap.WellFormed (tbm : TIDBitmap) : Prop where
  spages : (tbm.spages.map PagetableEntry.blockno).Pairwise (· < ·)
  schunks : (tbm.schunks.map PagetableEntry.blockno).Pairwise (· < ·)
  aligned : ∀ c ∈ tbm.schunks, c.blockno % pagesPerChunk = 0
  exact : ∀ e ∈ tbm.spages, e.ischunk = false
  disjoint : ∀ e ∈ tbm.spages, e.blockno ∉ tbm.lossyBlocks
  blockno : ∀ e ∈ tbm.spages, e.blockno < 2 ^ 32
  blocknoLossy : ∀ b ∈ tbm.lossyBlocks, b < 2 ^ 32

/-- The lists that an iteration goes over: the pages and the chunks in the order of their blocks,
the chunks aligned, and no lossy page among the exact ones. -/
structure TIDBitmap.Ordered (tbm : TIDBitmap) : Prop where
  spages : (tbm.spages.map PagetableEntry.blockno).Pairwise (· < ·)
  schunks : (tbm.schunks.map PagetableEntry.blockno).Pairwise (· < ·)
  aligned : ∀ c ∈ tbm.schunks, c.blockno % pagesPerChunk = 0
  disjoint : ∀ e ∈ tbm.spages, e.blockno ∉ tbm.lossyBlocks

theorem TIDBitmap.WellFormed.ordered {tbm : TIDBitmap} (h : tbm.WellFormed) : tbm.Ordered :=
  ⟨h.spages, h.schunks, h.aligned, h.disjoint⟩

/-- The tids that were added to a tid bitmap: those of its exact pages, and any tids of its lossy
pages. The tid of the block `b` and the offset number `i + 1` is at `65536 * b + i`. -/
structure TIDBitmap.Holds (tbm : TIDBitmap) (tids : Nat → Bool) : Prop where
  has : ∀ e ∈ tbm.spages, ∀ i < 65536, e.has i = tids (65536 * e.blockno + i)
  covers : ∀ p, tids p = true →
    (∃ e ∈ tbm.spages, e.blockno = p / 65536) ∨ p / 65536 ∈ tbm.lossyBlocks

/-- All pages of a tid bitmap are before the block `k`. -/
def TIDBitmap.EndsBefore (k : Nat) (tbm : TIDBitmap) : Prop :=
  (∀ e ∈ tbm.spages, e.blockno < k) ∧ ∀ b ∈ tbm.lossyBlocks, b < k

/-- A leaf: a tid bitmap with the tids that were added to it, or the scan of a bitmap index. -/
inductive Leaf
  | hash (tbm : TIDBitmap) (tids : Nat → Bool)
  | index (scan : Option (List BMBatchWords))

namespace Leaf

def node : Leaf → StreamNode
  | hash tbm _ => .hash tbm
  | index scan => .index scan

end Leaf

/-- The words of a scan. -/
def scanEntries (scan : Option (List BMBatchWords)) : List Entry := (scan.map batchEntries).getD []

namespace Leaf

def tids : Leaf → Nat → Bool
  | hash _ tids => tids
  | index scan => bitAt (scanEntries scan)

/-- The leaf is lossy on the block. -/
def Lossy (k : Nat) : Leaf → Prop
  | hash tbm _ => k ∈ tbm.lossyBlocks
  | index _ => False

def WellFormed : Leaf → Prop
  | hash tbm tids => tbm.WellFormed ∧ tbm.Holds tids
  | index scan => ∀ bs, scan = some bs → Bitmap.WellFormed bs

/-- The pages, or the vectors, of the leaf end before the block `k`. -/
def EndsBefore (k : Nat) : Leaf → Prop
  | hash tbm _ => tbm.EndsBefore k
  | index scan => numBits (scanEntries scan) < bmMaxTuplesPerPage * k

end Leaf

/-- The meaning of an operation. -/
def OpType.combine : OpType → Bool → Bool → Bool
  | .or, x, y => x || y
  | .and, x, y => x && y

/-- How a tree of streams is built: `stream_add_node` and `stream_move_node` add a leaf, or a whole
tree, to a tree. -/
inductive Combination
  | leaf (l : Leaf)
  | add (dst src : Combination) (kind : OpType)

namespace Combination

def node : Combination → StreamNode
  | leaf l => l.node
  | add dst src kind => streamAddNode dst.node src.node kind

/-- The combination of the leaves' tids. -/
def tids : Combination → Nat → Bool
  | leaf l, p => l.tids p
  | add dst src kind, p => kind.combine (dst.tids p) (src.tids p)

/-- Some leaf is lossy on the block. -/
def Lossy (k : Nat) : Combination → Prop
  | leaf l => l.Lossy k
  | add dst src _ => dst.Lossy k ∨ src.Lossy k

/-- All leaves have the property. -/
def All (P : Leaf → Prop) : Combination → Prop
  | leaf l => P l
  | add dst src _ => dst.All P ∧ src.All P

def WellFormed : Combination → Prop := All Leaf.WellFormed

/-- The inputs of the node that the tree becomes when another tree is added to it. -/
def inputs (kind : OpType) : Combination → List Combination
  | leaf l => [leaf l]
  | add dst src k => if k = kind then dst.inputs kind ++ [src] else [add dst src k]

end Combination

/-! ## The start of an iteration -/

/-- A stream that has not been asked for anything. -/
def View.init (m : Meaning) : View := { m with asked := 0, far := none, last := 0, dead := False }

/-- Two lists of pages that have no block in common, merged. -/
theorem pairwise_merge {xs ys : List PagetableEntry}
    (hx : (xs.map PagetableEntry.blockno).Pairwise (· < ·))
    (hy : (ys.map PagetableEntry.blockno).Pairwise (· < ·))
    (hne : ∀ x ∈ xs, ∀ y ∈ ys, x.blockno ≠ y.blockno) :
    ((xs.merge ys fun p q => decide (p.blockno < q.blockno)).map PagetableEntry.blockno).Pairwise
      (· < ·) := by
  rw [List.pairwise_map] at hx hy ⊢
  induction xs generalizing ys with
  | nil =>
    rw [List.nil_merge]
    exact hy
  | cons x xs ihx =>
    induction ys with
    | nil =>
      rw [List.merge_right]
      exact hx
    | cons y ys ihy =>
      obtain ⟨hx₁, hx₂⟩ := List.pairwise_cons.mp hx
      obtain ⟨hy₁, hy₂⟩ := List.pairwise_cons.mp hy
      have hxy := hne x List.mem_cons_self y List.mem_cons_self
      rw [List.cons_merge_cons]
      by_cases hlt : x.blockno < y.blockno
      · rw [if_pos (decide_eq_true hlt), List.pairwise_cons]
        refine ⟨?_, ihx hx₂ hy fun x' hx' => hne x' (List.mem_cons_of_mem x hx')⟩
        intro z hz
        rcases List.mem_merge.mp hz with hz | hz
        · exact hx₁ z hz
        · rcases List.mem_cons.mp hz with rfl | hz
          · exact hlt
          · exact hlt.trans (hy₁ z hz)
      · rw [if_neg (by rw [decide_eq_true_eq]; exact hlt), List.pairwise_cons]
        refine ⟨?_, ihy hy₂ fun x' hx' y' hy' => hne x' hx' y' (List.mem_cons_of_mem y hy')⟩
        intro z hz
        have hyx : y.blockno < x.blockno := by omega
        rcases List.mem_merge.mp hz with hz | hz
        · rcases List.mem_cons.mp hz with rfl | hz
          · exact hyx
          · exact hyx.trans (hx₁ z hz)
        · exact hy₁ z hz

theorem mem_chunkBlocks {chunk : PagetableEntry} {b : Nat} (h : b ∈ chunkBlocks chunk 0) :
    chunk.blockno ≤ b ∧ b < chunk.blockno + pagesPerChunk := by
  obtain ⟨j, hj, rfl⟩ := List.mem_map.mp h
  have hj' := List.mem_range'_1.mp (List.mem_of_mem_filter hj)
  omega

theorem pairwise_chunkBlocks (chunk : PagetableEntry) : (chunkBlocks chunk 0).Pairwise (· < ·) := by
  rw [chunkBlocks, List.pairwise_map]
  exact (List.Pairwise.filter _ (List.pairwise_lt_range' 1)).imp fun h => Nat.add_lt_add_left h _

section

variable {tbm : TIDBitmap}

/-- The lossy pages are in the order of their blocks. -/
theorem TIDBitmap.Ordered.pairwise_lossyBlocks (h : tbm.Ordered) :
    tbm.lossyBlocks.Pairwise (· < ·) := by
  have hsorted := h.schunks
  rw [List.pairwise_map] at hsorted
  rw [TIDBitmap.lossyBlocks, List.pairwise_flatMap]
  refine ⟨fun c _ => pairwise_chunkBlocks c, hsorted.imp_of_mem ?_⟩
  intro c c' hc hc' hlt x hx y hy
  have hx' := (mem_chunkBlocks hx).2
  have hy' := (mem_chunkBlocks hy).1
  have hc₁ := h.aligned c hc
  have hc₂ := h.aligned c' hc'
  simp only [pagesPerChunk] at hx' hc₁ hc₂
  omega

theorem TIDBitmap.pages_eq (tbm : TIDBitmap) :
    tbm.pages = (tbm.lossyBlocks.map tbm.lossyPage).merge tbm.spages
      fun p q => decide (p.blockno < q.blockno) := by
  rw [TIDBitmap.pages, TBMIterator.pages, lossyBlocks_start rfl]
  rfl

theorem TIDBitmap.mem_pages {e : PagetableEntry} :
    e ∈ tbm.pages ↔ (∃ b ∈ tbm.lossyBlocks, tbm.lossyPage b = e) ∨ e ∈ tbm.spages := by
  rw [TIDBitmap.pages_eq, List.mem_merge, List.mem_map]

/-- The pages of a tid bitmap are in the order of their blocks. -/
theorem TIDBitmap.Ordered.pairwise_pages (h : tbm.Ordered) :
    (tbm.pages.map PagetableEntry.blockno).Pairwise (· < ·) := by
  rw [TIDBitmap.pages_eq]
  refine pairwise_merge ?_ h.spages ?_
  · rw [List.map_map]
    exact (List.map_id _).symm ▸ h.pairwise_lossyBlocks
  · intro x hx y hy heq
    obtain ⟨b, hb, rfl⟩ := List.mem_map.mp hx
    have hb' : b = y.blockno := heq
    exact h.disjoint y hy (hb' ▸ hb)

theorem TIDBitmap.EndsBefore.pages {k : Nat} (h : tbm.EndsBefore k) {e : PagetableEntry}
    (he : e ∈ tbm.pages) : e.blockno < k := by
  rcases TIDBitmap.mem_pages.mp he with ⟨b, hb, rfl⟩ | he
  · exact h.2 b hb
  · exact h.1 e he

end

namespace Combination

variable {c dst src : Combination} {kind : OpType}

theorem All.inputs {P : Leaf → Prop} (h : c.All P) {i : Combination} (hi : i ∈ c.inputs kind) :
    i.All P := by
  induction c with
  | leaf l => exact List.mem_singleton.mp hi ▸ h
  | add dst src k ihd _ =>
    rw [Combination.inputs] at hi
    split_ifs at hi
    · rcases List.mem_append.mp hi with hi | hi
      · exact ihd h.1 hi
      · exact List.mem_singleton.mp hi ▸ h.2
    · exact List.mem_singleton.mp hi ▸ h

end Combination

/-- What one more input adds to a union. -/
theorem OrMeaning.append {ws : List Meaning} {m u m' : Meaning} (h : OrMeaning ws m)
    (hbits : ∀ p, m'.bits p = (m.bits p || u.bits p))
    (hlossy : ∀ k, m.lossy k ∨ u.lossy k → m'.lossy k)
    (hsmall : m'.small → m.small ∧ u.small) (hcalm : m'.calm → m.calm ∧ u.calm)
    (hends : m'.ends → m.ends ∧ u.ends) : OrMeaning (ws ++ [u]) m' := by
  refine ⟨?_, ?_, ?_, ?_, ?_⟩
  · intro p
    rw [hbits, h.bits, List.any_append, List.any_cons, List.any_nil, Bool.or_false]
  · exact List.forall_mem_append.mpr ⟨fun w hw k hk => hlossy k (.inl (h.lossy w hw k hk)),
      List.forall_mem_singleton.mpr fun k hk => hlossy k (.inr hk)⟩
  · exact fun hm => List.forall_mem_append.mpr ⟨h.small (hsmall hm).1,
      List.forall_mem_singleton.mpr (hsmall hm).2⟩
  · exact fun hm => List.forall_mem_append.mpr ⟨h.calm (hcalm hm).1,
      List.forall_mem_singleton.mpr (hcalm hm).2⟩
  · exact fun hm => List.forall_mem_append.mpr ⟨h.ends (hends hm).1,
      List.forall_mem_singleton.mpr (hends hm).2⟩

/-- The pages from the block `a` on. -/
structure PagesOf (m : Meaning) (a : Nat) (pages : List PagetableEntry) : Prop where
  le : ∀ e ∈ pages, a ≤ e.blockno
  sorted : (pages.map PagetableEntry.blockno).Pairwise (· < ·)
  shows : ∀ e ∈ pages, PageShows m e
  covers : ∀ p, a ≤ p / 65536 → m.bits p = true → ∃ e ∈ pages, e.blockno = p / 65536

theorem PagesOf.cons {m : Meaning} {a : Nat} {e : PagetableEntry} {pages : List PagetableEntry}
    (h : PagesOf m (e.blockno + 1) pages) (hle : a ≤ e.blockno) (he : PageShows m e)
    (hbetween : NoBits m.bits a e.blockno) : PagesOf m a (e :: pages) := by
  refine ⟨List.forall_mem_cons.mpr ⟨hle, fun e' he' => ?_⟩, ?_,
    List.forall_mem_cons.mpr ⟨he, h.shows⟩, ?_⟩
  · have := h.le e' he'
    omega
  · rw [List.map_cons, List.pairwise_cons]
    refine ⟨?_, h.sorted⟩
    intro k hk
    obtain ⟨e', he', rfl⟩ := List.mem_map.mp hk
    exact h.le e' he'
  · intro p hp hbit
    rcases Nat.lt_trichotomy (p / 65536) e.blockno with hlt | heq | hgt
    · rw [hbetween p hp hlt] at hbit
      exact absurd hbit Bool.false_ne_true
    · exact ⟨e, List.mem_cons_self, heq.symm⟩
    · obtain ⟨e', he', heq⟩ := h.covers p hgt hbit
      exact ⟨e', List.mem_cons_of_mem e he', heq⟩

/-- The block that the root of a tree asks for next. -/
def StreamBMIterator.nextblock : StreamBMIterator → Nat
  | .hash it => it.nextblock
  | .index it => it.nextblock
  | .op _ nextblock _ => nextblock

/-- **What an iteration reports**, for tids and the blocks on which a leaf is lossy. -/
structure Reports (tids : Nat → Bool) (lossy : Nat → Prop) (results : List TBMIterateResult) :
    Prop where
  blocks : (results.map TBMIterateResult.blockno).Pairwise (· < ·)
  complete : ∀ p, tids p = true → ∃ r ∈ results, r.blockno = p / bmMaxTuplesPerPage ∧
    ((r.ntuples = -1 ∧ r.recheck = true) ∨ (p % bmMaxTuplesPerPage + 1) % 2 ^ 16 ∈ r.offsets)
  exact : ∀ r ∈ results, ¬lossy r.blockno → r.ntuples = r.offsets.length ∧
    r.offsets = pageOffsets fun i => tids (bmMaxTuplesPerPage * r.blockno + i)

theorem tbmIteratePage_blockno (e : PagetableEntry) : (tbmIteratePage e).blockno = e.blockno := by
  rw [tbmIteratePage]
  split_ifs
  · rfl
  · rfl

theorem mem_pageOffsets {has : Nat → Bool} {i : Nat} (hi : i < 65536) (h : has i = true) :
    (i + 1) % 2 ^ 16 ∈ pageOffsets has :=
  List.mem_map.mpr ⟨i, List.mem_filter.mpr ⟨List.mem_range.mpr hi, h⟩, rfl⟩

end Hdb.Bitmap

import Hdb.Tbm.Iterate

/-!
# Tid bitmaps cover the set expression

Any number of tid bitmaps, each with a limit of its own, are built up by operations in any order.
What each of them should hold is the set expression of its operations (`Op.express`). The limits
decide when pages become lossy and the order of a scan which ones do, but whatever happens, each
bitmap stands for its set (`represents_run`).
-/

namespace Hdb.Tbm

variable {ι : Type} [DecidableEq ι]

/-- An operation on the bitmaps. In a union or an intersection of a bitmap with itself every entry
stays as it is, so that it does not matter that the entries are written while they are scanned. -/
inductive Op (ι : Type)
  | addTuples (i : ι) (tids : List ItemPointer) (recheck : Bool)
  | addPage (i : ι) (pageno : BlockNumber)
  | union (a b : ι)
  | intersect (a b : ι)

/-- The bitmaps after an operation. -/
def Op.perform (scan : HashSeq) (s : ι → TIDBitmap) : Op ι → ι → TIDBitmap
  | addTuples i tids recheck => Function.update s i (tbmAddTuples scan (s i) tids recheck)
  | addPage i pageno => Function.update s i (tbmAddPage scan (s i) pageno)
  | union a b => Function.update s a (tbmUnion scan (s a) (s b))
  | intersect a b => Function.update s a (tbmIntersect scan (s a) (s b))

/-- The sets after an operation. -/
def Op.express (x : ι → TidSet) : Op ι → ι → TidSet
  | addTuples i tids recheck => Function.update x i ((x i).add {tid | tid ∈ tids} recheck)
  | addPage i pageno => Function.update x i ((x i).addPage pageno)
  | union a b => Function.update x a ((x a).union (x b))
  | intersect a b => Function.update x a ((x a).inter (x b))

/-- Perform the operations, each with the order of its scans. -/
def perform (s : ι → TIDBitmap) (ops : List (Op ι × HashSeq)) : ι → TIDBitmap :=
  ops.foldl (fun s op => op.1.perform op.2 s) s

/-- The set expressions of the operations. -/
def express (x : ι → TidSet) (ops : List (Op ι × HashSeq)) : ι → TidSet :=
  ops.foldl (fun x op => op.1.express x) x

variable {s : ι → TIDBitmap} {x : ι → TidSet}

theorem represents_update (h : ∀ i, Represents (s i) (x i)) {i : ι} {tbm : TIDBitmap} {y : TidSet}
    (hi : Represents tbm y) (j : ι) :
    Represents (Function.update s i tbm j) (Function.update x i y j) := by
  by_cases hj : j = i
  · subst hj
    rw [Function.update_self, Function.update_self]
    exact hi
  · rw [Function.update_of_ne hj, Function.update_of_ne hj]
    exact h j

/-- **One operation** keeps every bitmap standing for its set. -/
theorem represents_step (h : ∀ i, Represents (s i) (x i)) (scan : HashSeq) (op : Op ι) (i : ι) :
    Represents (op.perform scan s i) (op.express x i) := by
  cases op with
  | addTuples j tids recheck => exact represents_update h ((h j).tbmAddTuples scan tids recheck) i
  | addPage j pageno => exact represents_update h ((h j).tbmAddPage scan pageno) i
  | union a b => exact represents_update h ((h a).tbmUnion (h b) scan) i
  | intersect a b => exact represents_update h ((h a).tbmIntersect (h b) scan) i

theorem represents_run (ops : List (Op ι × HashSeq)) (h : ∀ i, Represents (s i) (x i)) (i : ι) :
    Represents (perform s ops i) (express x ops i) := by
  induction ops generalizing s x with
  | nil => exact h i
  | cons op ops ih => exact ih (represents_step h op.2 op.1)

/-- The sure tids are tids of the set. -/
theorem sure_subset_step (h : ∀ i, (x i).sure ⊆ (x i).all) (op : Op ι) (i : ι) :
    (op.express x i).sure ⊆ (op.express x i).all := by
  have hupdate : ∀ (j : ι) (y : TidSet), y.sure ⊆ y.all →
      (Function.update x j y i).sure ⊆ (Function.update x j y i).all := by
    intro j y hy
    by_cases hj : i = j
    · subst hj
      rw [Function.update_self]
      exact hy
    · rw [Function.update_of_ne hj]
      exact h i
  cases op with
  | addTuples j tids recheck =>
    refine hupdate j _ ?_
    cases recheck with
    | true => exact (h j).trans Set.subset_union_left
    | false => exact Set.union_subset_union_left _ (h j)
  | addPage j pageno => exact hupdate j _ ((h j).trans Set.subset_union_left)
  | union a b => exact hupdate a _ (Set.union_subset_union (h a) (h b))
  | intersect a b => exact hupdate a _ (Set.inter_subset_inter (h a) (h b))

theorem sure_subset_run (ops : List (Op ι × HashSeq)) (h : ∀ i, (x i).sure ⊆ (x i).all) (i : ι) :
    (express x ops i).sure ⊆ (express x ops i).all := by
  induction ops generalizing x with
  | nil => exact h i
  | cons op ops ih => exact ih (sure_subset_step h op.1)

/-- **A tid bitmap is a sound over-approximation.** After any operations on any bitmaps with any
limits, the counters of each bitmap count the entries of its table, no lossy page has an exact
entry, and the chunks are aligned. An iteration comes to an end and reports the pages in order,
every tid of the set expression, and no other tids on an exact page that is not to be checked
again. -/
theorem run_overapproximates (maxbytes : ι → Int) (ops : List (Op ι × HashSeq)) (i : ι)
    (scan : HashSeq) (uninit : Nat → Bitmap.PagetableEntry) :
    let tbm := perform (fun j => tbmCreate (maxbytes j)) ops i
    (tbm.nentries = tbm.npages + tbm.nchunks ∧ tbm.nentries = tbm.table.keys.length ∧
        tbm.nentries ≤ tbm.maxentries ∧ tbm.maxentries < 2 ^ 31) ∧
      (∀ k e, Exact tbm.table k e → ¬Lossy tbm.table k) ∧
      (∀ k c, tbm.table.get? k = some c → c.ischunk = true →
        c.blockno = k ∧ k % Bitmap.pagesPerChunk = 0) ∧
      ∃ results, Yields tbmIterate (tbmBeginIterate scan uninit tbm) results ∧
        Delivers (express (fun _ => ⟨∅, ∅⟩) ops i) results := by
  have h := represents_run ops (fun j => represents_tbmCreate (maxbytes j)) i
  have hsub := sure_subset_run (x := fun _ : ι => ⟨∅, ∅⟩) ops (fun _ => subset_rfl) i
  have hlimit := h.ok.limit
  refine ⟨⟨h.ok.nentries, h.ok.nentries_eq, h.fits, by omega⟩, h.ok.sound.exclusive, ?_,
    h.delivers hsub scan uninit⟩
  intro k c hc hchunk
  exact ⟨Keyed.key_of_get? hc, h.ok.sound.aligned k c hc hchunk⟩

/-! ## A small run -/

/-- The scan that goes over the entries from the last one that was put into the table. -/
def newestFirst : HashSeq := ⟨fun tbm => tbm.pagetable.keys, fun _ => .refl _⟩

/-- The second tuple of a page. -/
def tupleOf (blk : BlockNumber) : ItemPointer where
  blk := blk
  off := 2
  pos := Nat.le_add_left 1 1
  lt := Nat.lt_of_lt_of_le Nat.lt_two_pow_self
    (Nat.pow_le_pow_right Nat.two_pos (Nat.le_add_left 2 14))

/-- Seventeen pages are too many for a limit of sixteen. Ten of them become lossy. -/
example :
    let tids := (List.range 17).map fun k => tupleOf (Fin.ofNat _ (k + 1))
    let tbm := tbmAddTuples newestFirst (tbmCreate 0) tids false
    (tbm.nentries, tbm.npages, tbm.nchunks, tbm.maxentries) = (8, 7, 1, 16) := by decide +kernel

end Hdb.Tbm

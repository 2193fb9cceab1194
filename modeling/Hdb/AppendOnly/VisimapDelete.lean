import Hdb.AppendOnly.VisimapEntries

/-!
# Deletion with the visibility map

`Inv heap rows del recs cur` says what holds after the rows `rows` have been hidden: the spill file
is the records `recs`, the hash table has for each key the offset of a record, and `cur` is the key
of the entry in memory that has changed. The bitmap in memory, and the bitmap of the record of every
other key, have the bits of the relation and those of the rows (`Shows`). The record of the key in
memory is out of date.

At the end `after heap done` is the relation in which the tuples `done` have been stored. The loop
over the spill file stores a record exactly when the hash table has its offset, so no key is stored
twice.

Main result: `visimapDelete_exact`.
-/

namespace Hdb.AppendOnly

open VisimapDelete

variable {heap : VisimapHeap} {key : VisimapKey} {tid i j : ℕ} {t u : VisimapTuple}

/-! ## The relation -/

/-- At most one live tuple for each key. -/
def UniqueKeys (heap : VisimapHeap) : Prop :=
  ∀ (i j : ℕ) (t u : VisimapTuple), heap[i]? = some (t, true) → heap[j]? = some (u, true) →
    t.key = u.key → i = j

structure ValidHeap (heap : VisimapHeap) : Prop where
  unique : UniqueKeys heap
  data : ∀ t, (t, true) ∈ heap → ∃ bitmap, t.bitmap = some bitmap ∧ bitmap.length ≤ 1024

theorem validHeap_singleton (bitmap : Bitmapset) (hbitmap : t.bitmap = some bitmap)
    (hlen : bitmap.length ≤ 1024) : ValidHeap [(t, true)] where
  unique i j u v hu hv _ := by
    have hi := (List.getElem?_eq_some_iff.mp hu).1
    have hj := (List.getElem?_eq_some_iff.mp hv).1
    rw [List.length_singleton] at hi hj
    omega
  data u hu := by
    cases List.mem_singleton.mp hu
    exact ⟨bitmap, hbitmap, hlen⟩

theorem indexGetNext_eq_some (h : indexGetNext key heap = some (tid, t)) :
    heap[tid]? = some (t, true) ∧ t.key = key := by
  obtain ⟨⟨⟨t', live⟩, tid'⟩, hfind, heq⟩ := Option.map_eq_some_iff.mp h
  cases heq
  have hmem := List.mem_of_find?_eq_some hfind
  have hcond := List.find?_some hfind
  simp only [Bool.and_eq_true, decide_eq_true_eq] at hcond
  obtain ⟨rfl, hkey⟩ := hcond
  exact ⟨List.mem_zipIdx_iff_getElem?.mp hmem, hkey⟩

theorem indexGetNext_eq_none (h : indexGetNext key heap = none)
    (hi : heap[i]? = some (t, true)) : t.key ≠ key := by
  have hfind := List.find?_eq_none.mp (Option.map_eq_none_iff.mp h) ((t, true), i)
    (List.mem_zipIdx_iff_getElem?.mpr hi)
  simpa using hfind

/-- The live tuple with a key is the one that the index scan finds. -/
theorem indexGetNext_of_live (hunique : UniqueKeys heap) (hi : heap[i]? = some (t, true)) :
    indexGetNext t.key heap = some (i, t) := by
  cases hget : indexGetNext t.key heap with
  | none => exact absurd rfl (indexGetNext_eq_none hget hi)
  | some r =>
    obtain ⟨hr, hkey⟩ := indexGetNext_eq_some hget
    have heq : r.1 = i := hunique _ _ _ _ hr hi hkey
    rw [heq, hi] at hr
    cases r
    simp_all

def tidOf (heap : VisimapHeap) (key : VisimapKey) : Option ℕ := (indexGetNext key heap).map Prod.fst

/-- The bitmap that the relation has for a key. -/
def bitmapAt (heap : VisimapHeap) (key : VisimapKey) : Bitmapset :=
  match indexGetNext key heap with
  | some r => r.2.bitmap.getD []
  | none => []

theorem length_bitmapAt (hvalid : ValidHeap heap) (key : VisimapKey) :
    (bitmapAt heap key).length ≤ 1024 := by
  rw [bitmapAt]
  cases hget : indexGetNext key heap with
  | none => exact Nat.zero_le _
  | some r =>
    obtain ⟨bitmap, hbitmap, hlen⟩ := hvalid.data r.2
      (List.mem_of_getElem? (indexGetNext_eq_some hget).1)
    simpa [hbitmap] using hlen

theorem visimapFind_spec (hvalid : ValidHeap heap) (tupleId : AOTupleId) (entry : VisimapEntry) :
    ∃ entry', visimapFind heap tupleId entry = some entry' ∧ entry'.key = some tupleId.key ∧
      entry'.bitmap = bitmapAt heap tupleId.key ∧ entry'.tupleTid = tidOf heap tupleId.key := by
  rw [visimapFind, bitmapAt, tidOf]
  cases hget : indexGetNext tupleId.key heap with
  | none => exact ⟨_, rfl, rfl, rfl, rfl⟩
  | some r =>
    obtain ⟨tid, tuple⟩ := r
    obtain ⟨hr, hkey⟩ := indexGetNext_eq_some hget
    obtain ⟨bitmap, hbitmap, -⟩ := hvalid.data tuple (List.mem_of_getElem? hr)
    simp only [VisimapEntry.copyout, hbitmap, Option.map_some, Option.getD_some]
    exact ⟨_, rfl, by rw [hkey], rfl, rfl⟩

theorem visimapIsVisible_eq (hvalid : ValidHeap heap) (tupleId : AOTupleId) :
    visimapIsVisible heap tupleId =
      some (!bmsIsMember tupleId.bit (bitmapAt heap tupleId.key)) := by
  obtain ⟨entry, hentry, hkey, hbitmap, -⟩ := visimapFind_spec hvalid tupleId .init
  rw [visimapIsVisible, hentry, Option.map_some, isVisible_eq hkey, hbitmap]

/-! ## The invariant -/

/-- The bitmap has the bits that the relation has for the key, and those of the rows. -/
def Shows (heap : VisimapHeap) (rows : List AOTupleId) (key : VisimapKey) (bitmap : Bitmapset) :
    Prop :=
  bitmap.length ≤ 1024 ∧ ∀ tupleId : AOTupleId, tupleId.key = key →
    (bmsIsMember tupleId.bit bitmap ↔
      bmsIsMember tupleId.bit (bitmapAt heap key) ∨ tupleId ∈ rows)

def fileOf (recs : List (VisimapKey × List UInt8)) : List UInt8 := recs.flatMap record

/-- The record at an offset. -/
def RecordAt (recs : List (VisimapKey × List UInt8)) (offset : ℕ) (r : VisimapKey × List UInt8) :
    Prop :=
  ∃ pre post, recs = pre ++ r :: post ∧ offset = (fileOf pre).length

structure Inv (heap : VisimapHeap) (rows : List AOTupleId) (del : VisimapDelete)
    (recs : List (VisimapKey × List UInt8)) (cur : Option VisimapKey) : Prop where
  snapshot : del.snapshot = heap
  unstored : del.heap = heap
  file : del.workfile = fileOf recs
  sized : ∀ r ∈ recs, Sized r.2 ∧ ∃ d ∈ del.dirtyEntryCache, d.key = r.1
  nodup : (del.dirtyEntryCache.map VisimapDeleteData.key).Nodup
  cached : ∀ d ∈ del.dirtyEntryCache, ∃ offset data, d.workFileOffset = some offset ∧
    RecordAt recs offset (d.key, data) ∧ d.tupleTid = tidOf heap d.key ∧
    (cur ≠ some d.key →
      ∃ bitmap, VisimapEntry.readData data = some bitmap ∧ Shows heap rows d.key bitmap)
  dirty : del.entry.dirty = cur.isSome
  entry : ∀ key, cur = some key → del.entry.key = some key ∧
    Shows heap rows key del.entry.bitmap ∧ del.entry.tupleTid = tidOf heap key
  covered : ∀ tupleId ∈ rows, cur = some tupleId.key ∨
    ∃ d ∈ del.dirtyEntryCache, d.key = tupleId.key
  touched : ∀ key, (cur = some key ∨ ∃ d ∈ del.dirtyEntryCache, d.key = key) →
    ∃ tupleId ∈ rows, tupleId.key = key

variable {rows : List AOTupleId} {del : VisimapDelete} {recs : List (VisimapKey × List UInt8)}
  {cur : Option VisimapKey} {tupleId : AOTupleId} {bitmap : Bitmapset}

theorem inv_init (heap : VisimapHeap) : Inv heap [] (.init heap) [] none where
  snapshot := rfl
  unstored := rfl
  file := rfl
  sized r hr := by cases hr
  nodup := List.nodup_nil
  cached d hd := by cases hd
  dirty := rfl
  entry key h := by cases h
  covered tupleId h := by cases h
  touched key h := by
    obtain h | ⟨d, hd, -⟩ := h
    · cases h
    · cases hd

/-- A row of another key changes nothing. -/
theorem Shows.append_ne (h : Shows heap rows key bitmap) (hne : tupleId.key ≠ key) :
    Shows heap (rows ++ [tupleId]) key bitmap := by
  refine ⟨h.1, fun u hu => ?_⟩
  have hu' : u ≠ tupleId := fun heq => hne (heq ▸ hu)
  rw [h.2 u hu, List.mem_append, List.mem_singleton, or_iff_left hu']

/-- The bit of a row is set. -/
theorem Shows.append_self {bitmap' : Bitmapset} (h : Shows heap rows tupleId.key bitmap)
    (hlen : bitmap'.length ≤ 1024)
    (hmem : ∀ x, bmsIsMember x bitmap' = (bmsIsMember x bitmap || decide (tupleId.bit = x))) :
    Shows heap (rows ++ [tupleId]) tupleId.key bitmap' := by
  refine ⟨hlen, fun u hu => ?_⟩
  have hbit : tupleId.bit = u.bit ↔ u = tupleId :=
    ⟨fun hb => AOTupleId.eq_of_key_bit hu hb.symm, fun heq => by rw [heq]⟩
  rw [hmem, Bool.or_eq_true, decide_eq_true_iff, h.2 u hu, hbit, List.mem_append,
    List.mem_singleton, or_assoc]

/-! ## Hiding a row -/

theorem RecordAt.append {offset : ℕ} {r : VisimapKey × List UInt8} (h : RecordAt recs offset r)
    (r' : VisimapKey × List UInt8) : RecordAt (recs ++ [r']) offset r := by
  obtain ⟨pre, post, hrecs, hoff⟩ := h
  exact ⟨pre, post ++ [r'], by rw [hrecs]; simp, hoff⟩

theorem RecordAt.mem {offset : ℕ} {r : VisimapKey × List UInt8} (h : RecordAt recs offset r) :
    r ∈ recs := by
  obtain ⟨pre, post, hrecs, -⟩ := h
  rw [hrecs]
  exact List.mem_append_right _ List.mem_cons_self

theorem recordAt_last (recs : List (VisimapKey × List UInt8)) (r : VisimapKey × List UInt8) :
    RecordAt (recs ++ [r]) (fileOf recs).length r :=
  ⟨recs, [], rfl, rfl⟩

theorem fileOf_append (recs recs' : List (VisimapKey × List UInt8)) :
    fileOf (recs ++ recs') = fileOf recs ++ fileOf recs' := List.flatMap_append ..

theorem stash_spec (h : Inv heap rows del recs (some key)) :
    ∃ del' recs', del.stash = some del' ∧ Inv heap rows del' recs' none := by
  obtain ⟨hkey, hshows, htid⟩ := h.entry key rfl
  obtain ⟨data, hdata, hsized, hread⟩ := writeData_spec del.entry hshows.1
  refine ⟨_, recs ++ [(key, data)],
    by rw [VisimapDelete.stash, hkey, Option.bind_some, hdata]; rfl, ?_⟩
  have hremove : ∀ d, d ∈ Table.remove VisimapDeleteData.key key del.dirtyEntryCache ↔
      d ∈ del.dirtyEntryCache ∧ d.key ≠ key := fun d => by simp [Table.remove]
  constructor
  · exact h.snapshot
  · exact h.unstored
  · rw [fileOf_append, ← h.file]
    simp [fileOf, record]
  · intro r hr
    obtain hr | hr := List.mem_append.mp hr
    · obtain ⟨hsize, d, hd, hdr⟩ := h.sized r hr
      by_cases hdk : d.key = key
      · exact ⟨hsize, _, List.mem_cons_self, hdk.symm.trans hdr⟩
      · exact ⟨hsize, d, List.mem_cons_of_mem _ ((hremove d).mpr ⟨hd, hdk⟩), hdr⟩
    · rw [List.mem_singleton.mp hr]
      exact ⟨hsized, _, List.mem_cons_self, rfl⟩
  · rw [List.map_cons, List.nodup_cons]
    refine ⟨fun hmem => ?_, h.nodup.sublist (List.filter_sublist.map _)⟩
    obtain ⟨d, hd, hdk⟩ := List.mem_map.mp hmem
    exact ((hremove d).mp hd).2 hdk
  · intro d hd
    obtain rfl | hd := List.mem_cons.mp hd
    · exact ⟨_, data, rfl, by rw [h.file]; exact recordAt_last _ _, htid,
        fun _ => ⟨_, hread, hshows⟩⟩
    · obtain ⟨hd, hdk⟩ := (hremove d).mp hd
      obtain ⟨offset, data', hoff, hrec, htid', hbitmap⟩ := h.cached d hd
      exact ⟨offset, data', hoff, hrec.append _, htid',
        fun _ => hbitmap fun heq => hdk (by cases heq; rfl)⟩
  · rfl
  · intro key' h'
    cases h'
  · intro u hu
    refine Or.inr ?_
    obtain hcur | ⟨d, hd, hdu⟩ := h.covered u hu
    · exact ⟨_, List.mem_cons_self, by cases hcur; rfl⟩
    · by_cases hdk : d.key = key
      · exact ⟨_, List.mem_cons_self, hdk.symm.trans hdu⟩
      · exact ⟨d, List.mem_cons_of_mem _ ((hremove d).mpr ⟨hd, hdk⟩), hdu⟩
  · intro key' h'
    obtain h' | ⟨d, hd, rfl⟩ := h'
    · cases h'
    · obtain rfl | hd := List.mem_cons.mp hd
      · exact h.touched key (Or.inl rfl)
      · exact h.touched d.key (Or.inr ⟨d, ((hremove d).mp hd).1, rfl⟩)

theorem fileOf_recordAt {offset : ℕ} {r : VisimapKey × List UInt8} (h : RecordAt recs offset r) :
    ∃ pre post, fileOf recs = pre ++ record r ++ post ∧ offset = pre.length := by
  obtain ⟨pre, post, rfl, hoff⟩ := h
  exact ⟨fileOf pre, fileOf post, by simp [fileOf], hoff⟩

/-- The entry that `find` leaves in memory. -/
structure Found (heap : VisimapHeap) (rows : List AOTupleId) (tupleId : AOTupleId)
    (entry : VisimapEntry) : Prop where
  key : entry.key = some tupleId.key
  shows : Shows heap rows tupleId.key entry.bitmap
  tid : entry.tupleTid = tidOf heap tupleId.key

theorem find_spec (hvalid : ValidHeap heap) (h : Inv heap rows del recs none)
    (tupleId : AOTupleId) :
    ∃ entry, del.find tupleId = some { del with entry } ∧ Found heap rows tupleId entry := by
  rw [VisimapDelete.find]
  cases hfind : Table.find VisimapDeleteData.key tupleId.key del.dirtyEntryCache with
  | none =>
    obtain ⟨entry, hentry, hkey, hbitmap, htid⟩ := visimapFind_spec hvalid tupleId del.entry
    refine ⟨entry, by simp only [h.snapshot, hentry, Option.map_some], hkey, ?_, htid⟩
    rw [hbitmap]
    refine ⟨length_bitmapAt hvalid _, fun u hu => (or_iff_left fun hmem => ?_).symm⟩
    -- No row of this key has been hidden.
    obtain hcur | ⟨d, hd, hdu⟩ := h.covered u hmem
    · cases hcur
    · exact Table.key_ne_of_find hfind hd (hdu.trans hu)
  | some d =>
    obtain ⟨hd, hdk⟩ := Table.mem_of_find hfind
    obtain ⟨offset, data, hoff, hrec, htid, hbitmap⟩ := h.cached d hd
    obtain ⟨bitmap, hread, hshows⟩ := hbitmap (by simp)
    obtain ⟨pre, post, hfile, rfl⟩ := fileOf_recordAt hrec
    have hsized : Sized data := (h.sized _ hrec.mem).1
    have hdata := readStashed_record pre post (r := (d.key, data)) hsized
    refine ⟨{ del.entry with
      data, bitmap, key := some tupleId.key, dirty := true, tupleTid := d.tupleTid }, ?_, rfl,
      hdk ▸ hshows, hdk ▸ htid⟩
    simp only [VisimapDelete.unstash, hoff, Option.bind_some, h.file, hfile, bufFileRead_key,
      length_keyBytes, hdata, VisimapDelete.rebuildEntry, hread, Option.map_some]
    rfl

/-- Setting the bit of a row makes the entry the changed one. -/
theorem Inv.hide (h : Inv heap rows del recs cur) {entry : VisimapEntry}
    (hentry : Found heap rows tupleId entry) (hcur : cur = none ∨ cur = some tupleId.key) :
    Inv heap (rows ++ [tupleId]) { del with entry := (entry.hideTuple tupleId).2 } recs
      (some tupleId.key) := by
  obtain ⟨hkey, hshows, htid⟩ := hentry
  obtain ⟨bitmap, hhide, hlen, hmem⟩ := hideTuple_spec hkey hshows.1
  rw [hhide]
  constructor
  · exact h.snapshot
  · exact h.unstored
  · exact h.file
  · exact h.sized
  · exact h.nodup
  · intro d hd
    obtain ⟨offset, data, hoff, hrec, htid', hbitmap⟩ := h.cached d hd
    refine ⟨offset, data, hoff, hrec, htid', fun hne => ?_⟩
    have hne' : tupleId.key ≠ d.key := fun heq => hne (by rw [heq])
    obtain ⟨bitmap', hread, hshows'⟩ := hbitmap (by
      obtain rfl | rfl := hcur
      · simp
      · exact hne)
    exact ⟨bitmap', hread, hshows'.append_ne hne'⟩
  · rfl
  · intro key' hkey'
    cases hkey'
    exact ⟨hkey, hshows.append_self hlen hmem, htid⟩
  · intro u hu
    obtain hu | hu := List.mem_append.mp hu
    · obtain hu | hu := h.covered u hu
      · obtain rfl | rfl := hcur
        · cases hu
        · exact Or.inl hu
      · exact Or.inr hu
    · rw [List.mem_singleton.mp hu]
      exact Or.inl rfl
  · intro key' hkey'
    obtain hkey' | hkey' := hkey'
    · cases hkey'
      exact ⟨tupleId, by simp, rfl⟩
    · obtain ⟨u, hu, huk⟩ := h.touched key' (Or.inr hkey')
      exact ⟨u, List.mem_append_left _ hu, huk⟩

/-- **A call of Hide.** -/
theorem hide_spec (hvalid : ValidHeap heap) (h : Inv heap rows del recs del.entry.key)
    (tupleId : AOTupleId) :
    ∃ r recs', del.hide tupleId = some r ∧
      Inv heap (rows ++ [tupleId]) r.2 recs' r.2.entry.key := by
  rw [VisimapDelete.hide]
  cases hkey : del.entry.key with
  | none =>
    have hcovers : del.entry.coversTuple tupleId = false := by
      rw [VisimapEntry.coversTuple, hkey]
    have hdirty : del.entry.dirty = false := by rw [h.dirty, hkey]; rfl
    rw [hkey] at h
    obtain ⟨entry, hfind, hfound⟩ := find_spec hvalid h tupleId
    refine ⟨_, recs, by simp only [hcovers, hdirty, hfind, Bool.false_eq_true, if_false,
      Option.bind_some, Option.map_some]; rfl, ?_⟩
    have hinv := h.hide hfound (Or.inl rfl)
    rwa [← (hinv.entry _ rfl).1] at hinv
  | some key =>
    have hdirty : del.entry.dirty = true := by rw [h.dirty, hkey]; rfl
    rw [hkey] at h
    obtain ⟨u, hu, rfl⟩ := h.touched key (Or.inl rfl)
    by_cases hcovers : del.entry.coversTuple tupleId = true
    · -- The entry in memory is the one for the row.
      have huk : u.key = tupleId.key := (coversTuple_iff hkey).mp hcovers
      rw [huk] at h hkey
      obtain ⟨-, hshows, htid⟩ := h.entry _ rfl
      refine ⟨_, recs, by simp only [hcovers, if_true, Option.map_some]; rfl, ?_⟩
      have hinv := h.hide ⟨hkey, hshows, htid⟩ (Or.inr rfl)
      rwa [← (hinv.entry _ rfl).1] at hinv
    · obtain ⟨del₁, recs₁, hstash, h₁⟩ := stash_spec h
      obtain ⟨entry, hfind, hfound⟩ := find_spec hvalid h₁ tupleId
      refine ⟨_, recs₁, by simp only [hcovers, hdirty, hstash, hfind, Bool.false_eq_true, if_false,
        if_true, Option.bind_some, Option.map_some]; rfl, ?_⟩
      have hinv := h₁.hide hfound (Or.inl rfl)
      rwa [← (hinv.entry _ rfl).1] at hinv

theorem hideAll_spec (hvalid : ValidHeap heap) (h : Inv heap rows del recs del.entry.key)
    (tupleIds : List AOTupleId) :
    ∃ del' recs', hideAll tupleIds del = some del' ∧
      Inv heap (rows ++ tupleIds) del' recs' del'.entry.key := by
  induction tupleIds generalizing rows del recs with
  | nil => exact ⟨del, recs, rfl, by rwa [List.append_nil]⟩
  | cons tupleId tupleIds ih =>
    obtain ⟨r, recs₁, hr, h₁⟩ := hide_spec hvalid h tupleId
    obtain ⟨del', recs', hdel', h'⟩ := ih h₁
    refine ⟨del', recs', by rw [hideAll, hr]; exact hdel', ?_⟩
    rwa [List.append_assoc] at h'

/-! ## Storing -/

/-- The relation after the tuples `done` have been stored, each as an update or as an insert. -/
def after (heap : VisimapHeap) (done : List VisimapTuple) : VisimapHeap :=
  heap.map (fun r => (r.1, r.2 && !decide (r.1.key ∈ done.map VisimapTuple.key))) ++
    done.map fun t => (t, true)

/-- The tuple has the bits of the relation and those of the rows. -/
def Carries (heap : VisimapHeap) (rows : List AOTupleId) (t : VisimapTuple) : Prop :=
  ∃ bitmap, t.bitmap = some bitmap ∧ Shows heap rows t.key bitmap

theorem after_nil (heap : VisimapHeap) : after heap [] = heap := by
  simp [after]

theorem write_spec {entry : VisimapEntry} (h : Shows heap rows key entry.bitmap) :
    ∃ t data, entry.write key = some (t, { entry with data, dirty := false }) ∧ t.key = key ∧
      Carries heap rows t := by
  rw [VisimapEntry.write]
  split_ifs with hempty
  · refine ⟨_, entry.data, rfl, rfl, [], rfl, Nat.zero_le _, fun u hu => ?_⟩
    rw [← h.2 u hu, not_member_of_isEmpty hempty]
    simp [bmsIsMember]
  · obtain ⟨data, hdata, -, hread⟩ := writeData_spec entry h.1
    exact ⟨⟨key, some data⟩, data, by rw [hdata]; rfl, rfl, entry.bitmap, hread, h⟩

variable {done : List VisimapTuple}

/-- The live tuple of the key is replaced. -/
theorem simpleHeapUpdate_spec (hunique : UniqueKeys heap) (htid : tidOf heap t.key = some tid)
    (hdone : t.key ∉ done.map VisimapTuple.key) :
    simpleHeapUpdate tid t (after heap done) = some (after heap (done ++ [t])) := by
  obtain ⟨⟨tid', old⟩, hget, rfl⟩ := Option.map_eq_some_iff.mp htid
  obtain ⟨hold, hkey⟩ := indexGetNext_eq_some hget
  have hlt : tid' < heap.length := (List.getElem?_eq_some_iff.mp hold).1
  have hlive : (after heap done)[tid']? = some (old, true) := by
    rw [after, List.getElem?_append_left (by simpa using hlt), List.getElem?_map, hold]
    simp only [Option.map_some, hkey, hdone, decide_false, Bool.not_false, Bool.and_true]
  rw [simpleHeapUpdate, hlive]
  simp only [after,
    List.set_append_left _ _ (show tid' < (List.map _ heap).length by simpa using hlt),
    List.map_append, List.map_cons, List.map_nil, ← List.append_assoc]
  congr 3
  refine List.ext_getElem? fun j => ?_
  rw [List.getElem?_set, List.getElem?_map, List.getElem?_map]
  by_cases hj : tid' = j
  · rw [if_pos hj, ← hj, hold]
    simp [hlt, hkey]
  · rw [if_neg hj]
    cases hget' : heap[j]? with
    | none => rfl
    | some r =>
      obtain ⟨u, live⟩ := r
      -- Another tuple of the key is not live.
      by_cases huk : u.key = t.key
      · have hdead : live = false := by
          by_contra hne
          rw [Bool.not_eq_false] at hne
          rw [hne] at hget'
          exact hj (hunique _ _ _ _ hold hget' (hkey.trans huk.symm))
        simp [hdead]
      · simp [huk]

theorem simpleHeapInsert_spec (htid : tidOf heap t.key = none) :
    simpleHeapInsert t (after heap done) = after heap (done ++ [t]) := by
  have hget := Option.map_eq_none_iff.mp htid
  simp only [simpleHeapInsert, after, List.map_append, List.map_cons, List.map_nil,
    ← List.append_assoc]
  congr 2
  refine List.map_congr_left fun r hr => ?_
  obtain ⟨u, live⟩ := r
  cases live with
  | false => simp
  | true =>
    obtain ⟨i, hi⟩ := List.getElem?_of_mem hr
    have hne := indexGetNext_eq_none hget hi
    simp [hne]

theorem store_spec (hunique : UniqueKeys heap) (hheap : del.heap = after heap done)
    (hkey : del.entry.key = some key) (hshows : Shows heap rows key del.entry.bitmap)
    (htid : del.entry.tupleTid = tidOf heap key) (hdone : key ∉ done.map VisimapTuple.key) :
    ∃ t data, del.store = some { del with
        heap := after heap (done ++ [t])
        entry := { del.entry with data, dirty := false, tupleTid := none } } ∧
      t.key = key ∧ Carries heap rows t := by
  obtain ⟨t, data, hwrite, rfl, hcarries⟩ := write_spec hshows
  refine ⟨t, data, ?_, rfl, hcarries⟩
  rw [VisimapDelete.store, hkey, Option.bind_some, hwrite, Option.bind_some]
  simp only [htid, hheap]
  cases htid' : tidOf heap t.key with
  | none => simp only [simpleHeapInsert_spec htid', Option.map_some, hkey]
  | some tid => simp only [simpleHeapUpdate_spec hunique htid' hdone, Option.map_some, hkey]

/-! ## The loop over the spill file -/

theorem length_fileOf_append (recs recs' : List (VisimapKey × List UInt8)) :
    (fileOf (recs ++ recs')).length = (fileOf recs).length + (fileOf recs').length := by
  rw [fileOf_append, List.length_append]

theorem length_fileOf_cons (r : VisimapKey × List UInt8) (recs : List (VisimapKey × List UInt8)) :
    (fileOf (r :: recs)).length = r.2.length + 16 + (fileOf recs).length := by
  rw [fileOf, List.flatMap_cons, List.length_append, record, List.length_append, length_keyBytes,
    Nat.add_comm 16]
  rfl

/-- Between the start of a record and the start of the next one no other record starts. -/
theorem RecordAt.lt_next {pre post : List (VisimapKey × List UInt8)}
    {r r' : VisimapKey × List UInt8} {offset : ℕ} (h : RecordAt (pre ++ r :: post) offset r') :
    offset < (fileOf (pre ++ [r])).length ↔
      offset < (fileOf pre).length ∨ offset = (fileOf pre).length ∧ r' = r := by
  obtain ⟨pre', post', hrecs, rfl⟩ := h
  rw [length_fileOf_append, length_fileOf_cons, show fileOf [] = [] from rfl, List.length_nil]
  obtain ⟨mid, rfl, hmid⟩ | ⟨mid, rfl, hmid⟩ := List.append_eq_append_iff.mp hrecs
  · cases mid with
    | nil =>
      obtain ⟨rfl, -⟩ := List.cons.inj hmid
      simp
    | cons r₁ mid =>
      obtain ⟨rfl, -⟩ := List.cons.inj hmid
      rw [length_fileOf_append, length_fileOf_cons]
      omega
  · cases mid with
    | nil =>
      obtain ⟨rfl, -⟩ := List.cons.inj hmid
      simp
    | cons r₁ mid =>
      rw [length_fileOf_append, length_fileOf_cons]
      omega

/-- What the loop knows of the hash table: its offsets are those of the newest versions. -/
structure Newest (heap : VisimapHeap) (rows : List AOTupleId) (cache : List VisimapDeleteData)
    (recs : List (VisimapKey × List UInt8)) : Prop where
  sized : ∀ r ∈ recs, Sized r.2 ∧ ∃ d ∈ cache, d.key = r.1
  nodup : (cache.map VisimapDeleteData.key).Nodup
  bytes : ∀ r ∈ recs, readKey (keyBytes r.1) = r.1
  newest : ∀ d ∈ cache, ∀ offset, d.workFileOffset = some offset →
    ∃ data bitmap, RecordAt recs offset (d.key, data) ∧ d.tupleTid = tidOf heap d.key ∧
      VisimapEntry.readData data = some bitmap ∧ Shows heap rows d.key bitmap
  touched : ∀ d ∈ cache, ∃ tupleId ∈ rows, tupleId.key = d.key

/-- The keys that have been stored before an offset. -/
structure StoredTo (heap : VisimapHeap) (rows : List AOTupleId) (cache : List VisimapDeleteData)
    (offset : ℕ) (done : List VisimapTuple) : Prop where
  nodup : (done.map VisimapTuple.key).Nodup
  carries : ∀ t ∈ done, Carries heap rows t
  touched : ∀ t ∈ done, ∃ tupleId ∈ rows, tupleId.key = t.key
  stored : ∀ d ∈ cache, ∀ o, d.workFileOffset = some o →
    (d.key ∈ done.map VisimapTuple.key ↔ o < offset)

theorem writeBackLoop_spec (hunique : UniqueKeys heap) (pre post : List (VisimapKey × List UInt8))
    (hnewest : Newest heap rows del.dirtyEntryCache (pre ++ post))
    (hfile : del.workfile = fileOf (pre ++ post)) (hheap : del.heap = after heap done)
    (hdone : StoredTo heap rows del.dirtyEntryCache (fileOf pre).length done) {fuel : ℕ}
    (hfuel : post.length < fuel) :
    ∃ del' done', writeBackLoop fuel (fileOf pre).length del = some del' ∧
      del'.heap = after heap done' ∧ (∀ t ∈ done, t ∈ done') ∧
      StoredTo heap rows del.dirtyEntryCache (fileOf (pre ++ post)).length done' := by
  induction post generalizing pre del done fuel with
  | nil =>
    obtain ⟨fuel, rfl⟩ := Nat.exists_eq_add_one_of_ne_zero (Nat.ne_zero_of_lt hfuel)
    have hend : bufFileRead del.workfile (fileOf pre).length 16 = [] := by
      rw [bufFileRead, hfile, List.append_nil, List.drop_length, List.take_nil]
    refine ⟨del, done, ?_, hheap, fun _ h => h, by rwa [List.append_nil]⟩
    rw [writeBackLoop, hend]
    rfl
  | cons r post ih =>
    obtain ⟨fuel, rfl⟩ := Nat.exists_eq_add_one_of_ne_zero (Nat.ne_zero_of_lt hfuel)
    have hmem : r ∈ pre ++ r :: post := List.mem_append_right _ List.mem_cons_self
    obtain ⟨hsized, d₀, hd₀, hd₀r⟩ := hnewest.sized r hmem
    have hsplit : del.workfile = fileOf pre ++ record r ++ fileOf post := by
      rw [hfile]
      simp [fileOf]
    have hkey : bufFileRead del.workfile (fileOf pre).length 16 = keyBytes r.1 :=
      hsplit ▸ bufFileRead_key _ _ r
    have hdata : readStashed del.workfile ((fileOf pre).length + 16) = some r.2 :=
      hsplit ▸ readStashed_record _ _ hsized
    have hnext : (fileOf pre).length + (varsize r.2 + 16) = (fileOf (pre ++ [r])).length := by
      rw [length_fileOf_append, length_fileOf_cons, hsized.varsize]
      rfl
    have hrecs : pre ++ r :: post = (pre ++ [r]) ++ post := by simp
    obtain ⟨d, hfind⟩ : ∃ d, Table.find VisimapDeleteData.key r.1 del.dirtyEntryCache = some d := by
      cases hfind : Table.find VisimapDeleteData.key r.1 del.dirtyEntryCache with
      | none => exact absurd hd₀r (Table.key_ne_of_find hfind hd₀)
      | some d => exact ⟨d, rfl⟩
    obtain ⟨hd, hdr⟩ := Table.mem_of_find hfind
    -- Another hash entry has its record before `r` or behind it.
    have hother : ∀ d' ∈ del.dirtyEntryCache, d' ≠ d → ∀ o, d'.workFileOffset = some o →
        (o < (fileOf (pre ++ [r])).length ↔ o < (fileOf pre).length) := by
      intro d' hd' hne o ho
      obtain ⟨data, bitmap, hrec, -⟩ := hnewest.newest d' hd' o ho
      rw [hrec.lt_next, or_iff_left]
      rintro ⟨-, hr⟩
      refine hne (Table.eq_of_key hnewest.nodup hd' hd ?_)
      rw [hdr, ← hr]
    rw [writeBackLoop]
    simp only [hkey, length_keyBytes, if_true, hdata, Option.bind_some, hnewest.bytes r hmem, hfind,
      hnext]
    by_cases hoff : d.workFileOffset = some (fileOf pre).length
    · -- The newest version: it is stored.
      obtain ⟨data, bitmap, hrec, htid, hread, hshows⟩ := hnewest.newest d hd _ hoff
      obtain ⟨-, hr⟩ := (hrec.lt_next.mp (by
        rw [length_fileOf_append, length_fileOf_cons]
        omega)).resolve_left (lt_irrefl _)
      obtain rfl : r.2 = data := by rw [← hr]
      have hnot : d.key ∉ done.map VisimapTuple.key := fun hin =>
        lt_irrefl _ ((hdone.stored d hd _ hoff).mp hin)
      obtain ⟨t, data', hstore, htk, hcarries⟩ := store_spec hunique
        (show VisimapDelete.heap { del with entry := { del.entry with
          data := r.2, bitmap, key := some d.key, dirty := true, tupleTid := d.tupleTid } } =
            after heap done from hheap) rfl hshows htid hnot
      have hdone' : StoredTo heap rows del.dirtyEntryCache (fileOf (pre ++ [r])).length
          (done ++ [t]) := by
        have hkeys : (done ++ [t]).map VisimapTuple.key = done.map VisimapTuple.key ++ [d.key] := by
          rw [List.map_append, List.map_singleton, htk]
        constructor
        · rw [hkeys]
          exact List.concat_eq_append ▸ hdone.nodup.concat hnot
        · exact List.forall_mem_append.mpr ⟨hdone.carries, by simpa using hcarries⟩
        · refine List.forall_mem_append.mpr ⟨hdone.touched, ?_⟩
          simpa [htk] using hnewest.touched d hd
        · intro d' hd' o ho
          rw [hkeys, List.mem_append, List.mem_singleton]
          by_cases hdd : d' = d
          · rw [hdd, hoff] at ho
            cases ho
            have hlt : (fileOf pre).length < (fileOf (pre ++ [r])).length := by
              rw [length_fileOf_append, length_fileOf_cons]
              omega
            exact ⟨fun _ => hlt, fun _ => Or.inr (by rw [hdd])⟩
          · have hkk : d'.key ≠ d.key := fun h => hdd (Table.eq_of_key hnewest.nodup hd' hd h)
            rw [or_iff_left hkk, hdone.stored d' hd' o ho, hother d' hd' hdd o ho]
      obtain ⟨del', done', hloop, hheap', hsub, hstored⟩ := ih _
        (hrecs ▸ hnewest) (hrecs ▸ hfile) (show VisimapDelete.heap { del with
          heap := after heap (done ++ [t]), entry := _ } = _ from rfl) hdone' (by simpa using hfuel)
      refine ⟨del', done', ?_, hheap', fun u hu => hsub u (List.mem_append_left _ hu),
        by rwa [hrecs]⟩
      rw [if_neg (by simpa using hoff), VisimapDelete.rebuildEntry, hread, Option.map_some,
        Option.bind_some, hstore, Option.bind_some]
      exact hloop
    · have hdone' : StoredTo heap rows del.dirtyEntryCache (fileOf (pre ++ [r])).length done := by
        refine ⟨hdone.nodup, hdone.carries, hdone.touched, fun d' hd' o ho => ?_⟩
        rw [hdone.stored d' hd' o ho]
        by_cases hdd : d' = d
        · -- The record `r` is out of date, and the newest one is elsewhere.
          obtain ⟨data, bitmap, hrec, -⟩ := hnewest.newest d' hd' o ho
          rw [hrec.lt_next, or_iff_left]
          rintro ⟨rfl, -⟩
          exact hoff (hdd ▸ ho)
        · rw [hother d' hd' hdd o ho]
      obtain ⟨del', done', hloop, hheap', hsub, hstored⟩ := ih _
        (hrecs ▸ hnewest) (hrecs ▸ hfile) (show VisimapDelete.heap { del with
          entry := { del.entry with data := r.2 } } = _ from hheap) hdone' (by simpa using hfuel)
      refine ⟨del', done', ?_, hheap', hsub, by rwa [hrecs]⟩
      rw [if_pos hoff, Option.bind_some]
      exact hloop

theorem length_le_fileOf (recs : List (VisimapKey × List UInt8)) :
    recs.length ≤ (fileOf recs).length := by
  induction recs with
  | nil => exact Nat.zero_le _
  | cons r recs ih =>
    rw [length_fileOf_cons, List.length_cons]
    omega

theorem writeBackStashedEntries_spec (del : VisimapDelete) (hunique : UniqueKeys heap)
    (hnewest : Newest heap rows del.dirtyEntryCache recs) (hfile : del.workfile = fileOf recs)
    (hheap : del.heap = after heap done) (hdone : StoredTo heap rows del.dirtyEntryCache 0 done) :
    ∃ del' done', del.writeBackStashedEntries = some del' ∧ del'.heap = after heap done' ∧
      (∀ t ∈ done, t ∈ done') ∧
      StoredTo heap rows del.dirtyEntryCache (fileOf recs).length done' := by
  rw [VisimapDelete.writeBackStashedEntries]
  split_ifs with hempty
  · -- Without a hash entry there is no record.
    have hrecs : recs = [] := List.eq_nil_iff_forall_not_mem.mpr fun r hr => by
      obtain ⟨-, d, hd, -⟩ := hnewest.sized r hr
      rw [List.eq_nil_of_length_eq_zero hempty] at hd
      cases hd
    refine ⟨del, done, rfl, hheap, fun _ h => h, ?_⟩
    rwa [hrecs]
  · exact writeBackLoop_spec hunique [] recs hnewest hfile hheap hdone (by
      rw [hfile]
      exact Nat.lt_succ_of_le (length_le_fileOf recs))

/-! ## Finishing -/

theorem RecordAt.lt_length {offset : ℕ} {r : VisimapKey × List UInt8} (h : RecordAt recs offset r) :
    offset < (fileOf recs).length := by
  obtain ⟨pre, post, rfl, rfl⟩ := h
  rw [length_fileOf_append, length_fileOf_cons]
  omega

theorem Inv.bytes (h : Inv heap rows del recs cur) : ∀ r ∈ recs, readKey (keyBytes r.1) = r.1 := by
  intro r hr
  obtain ⟨-, d, hd, hdr⟩ := h.sized r hr
  obtain ⟨u, -, hu⟩ := h.touched d.key (Or.inr ⟨d, hd, rfl⟩)
  rw [← hdr, ← hu]
  exact readKey_keyBytes u

theorem Inv.newest (h : Inv heap rows del recs none) :
    Newest heap rows del.dirtyEntryCache recs where
  sized := h.sized
  nodup := h.nodup
  bytes := h.bytes
  newest d hd offset hoffset := by
    obtain ⟨offset', data, hoffset', hrec, htid, hbitmap⟩ := h.cached d hd
    obtain ⟨bitmap, hread, hshows⟩ := hbitmap (by simp)
    rw [hoffset'] at hoffset
    cases hoffset
    exact ⟨data, bitmap, hrec, htid, hread, hshows⟩
  touched d hd := h.touched d.key (Or.inr ⟨d, hd, rfl⟩)

/-- `workFileOffset` and `tupleTid` of the entry in memory, when it has been stored. -/
def invalidate (d : VisimapDeleteData) : VisimapDeleteData :=
  { d with workFileOffset := none, tupleTid := none }

/-- The record of the entry in memory is out of date, and its hash entry is made invalid. -/
theorem Inv.newest_modify (h : Inv heap rows del recs (some key)) :
    Newest heap rows (Table.modify VisimapDeleteData.key key invalidate del.dirtyEntryCache)
      recs where
  sized r hr := by
    obtain ⟨hsize, d, hd, hdr⟩ := h.sized r hr
    refine ⟨hsize, _, List.mem_map_of_mem hd, ?_⟩
    split_ifs
    · exact hdr
    · exact hdr
  nodup := by
    rw [Table.map_key_modify (f := invalidate) fun _ => rfl]
    exact h.nodup
  bytes := h.bytes
  newest d hd offset hoffset := by
    obtain ⟨d', hd', ⟨-, rfl⟩ | ⟨hne, rfl⟩⟩ := Table.of_mem_modify hd
    · cases hoffset
    · obtain ⟨offset', data, hoffset', hrec, htid, hbitmap⟩ := h.cached d hd'
      obtain ⟨bitmap, hread, hshows⟩ := hbitmap fun heq => hne (by cases heq; rfl)
      rw [hoffset'] at hoffset
      cases hoffset
      exact ⟨data, bitmap, hrec, htid, hread, hshows⟩
  touched d hd := by
    obtain ⟨d', hd', ⟨-, rfl⟩ | ⟨-, rfl⟩⟩ := Table.of_mem_modify hd
    · exact h.touched d'.key (Or.inr ⟨d', hd', rfl⟩)
    · exact h.touched d.key (Or.inr ⟨d, hd', rfl⟩)

/-- What has been stored at the end. -/
structure Finished (heap : VisimapHeap) (rows : List AOTupleId) (done : List VisimapTuple) :
    Prop where
  nodup : (done.map VisimapTuple.key).Nodup
  carries : ∀ t ∈ done, Carries heap rows t
  touched : ∀ t ∈ done, ∃ tupleId ∈ rows, tupleId.key = t.key
  covered : ∀ tupleId ∈ rows, tupleId.key ∈ done.map VisimapTuple.key

theorem finish_spec (hvalid : ValidHeap heap) (h : Inv heap rows del recs del.entry.key) :
    ∃ del' done, del.finish = some del' ∧ del'.heap = after heap done ∧
      Finished heap rows done := by
  rw [VisimapDelete.finish]
  cases hkey : del.entry.key with
  | none =>
    rw [hkey] at h
    have hdirty : del.entry.dirty = false := h.dirty
    have hheap : del.heap = after heap [] := h.unstored.trans (after_nil heap).symm
    have hdone : StoredTo heap rows del.dirtyEntryCache 0 [] :=
      ⟨List.nodup_nil, by simp, by simp, by simp⟩
    obtain ⟨del', done, hfinish, hheap', -, hstored⟩ :=
      writeBackStashedEntries_spec del hvalid.unique h.newest h.file hheap hdone
    refine ⟨del', done, ?_, hheap', hstored.nodup, hstored.carries, hstored.touched,
      fun u hu => ?_⟩
    · simp only [hdirty, Bool.false_eq_true, if_false, Option.bind_some]
      exact hfinish
    · obtain hcur | ⟨d, hd, hdu⟩ := h.covered u hu
      · cases hcur
      · obtain ⟨offset, data, hoffset, hrec, -⟩ := h.cached d hd
        exact hdu ▸ (hstored.stored d hd _ hoffset).mpr hrec.lt_length
  | some key =>
    rw [hkey] at h
    have hdirty : del.entry.dirty = true := h.dirty
    obtain ⟨-, hshows, htid⟩ := h.entry key rfl
    have hheap : del.heap = after heap [] := h.unstored.trans (after_nil heap).symm
    obtain ⟨t, data, hstore, htk, hcarries⟩ :=
      store_spec hvalid.unique hheap hkey hshows htid (by simp)
    have hdone : StoredTo heap rows
        (Table.modify VisimapDeleteData.key key invalidate del.dirtyEntryCache) 0 [t] := by
      constructor
      · exact List.nodup_singleton _
      · simpa using hcarries
      · simpa [htk] using h.touched key (Or.inl rfl)
      · intro d hd offset hoffset
        obtain ⟨d', hd', ⟨-, rfl⟩ | ⟨hne, rfl⟩⟩ := Table.of_mem_modify hd
        · cases hoffset
        · simpa [htk] using hne
    obtain ⟨del', done, hfinish, hheap', hsub, hstored⟩ :=
      writeBackStashedEntries_spec { del with
        heap := after heap [t]
        entry := { del.entry with data, dirty := false, tupleTid := none }
        dirtyEntryCache := Table.modify VisimapDeleteData.key key invalidate del.dirtyEntryCache }
        hvalid.unique h.newest_modify h.file rfl hdone
    refine ⟨del', done, ?_, hheap', hstored.nodup, hstored.carries, hstored.touched,
      fun u hu => ?_⟩
    · simp only [hdirty, if_true, hstore, Option.map_some, Option.bind_some, hkey, List.nil_append]
      simp only [hkey] at hfinish
      exact hfinish
    · have ht : key ∈ done.map VisimapTuple.key := htk ▸ List.mem_map_of_mem (hsub t (by simp))
      by_cases huk : u.key = key
      · exact huk ▸ ht
      · obtain hcur | ⟨d, hd, hdu⟩ := h.covered u hu
        · cases hcur
          exact ht
        · obtain ⟨offset, data, hoffset, hrec, -⟩ := h.cached d hd
          have hd' := Table.mem_modify_of_ne (f := invalidate) hd (fun heq => huk (hdu ▸ heq))
          exact hdu ▸ (hstored.stored d hd' _ hoffset).mpr hrec.lt_length

/-! ## The relation after the command -/

theorem after_live_iff : (after heap done)[i]? = some (t, true) ↔
    (heap[i]? = some (t, true) ∧ t.key ∉ done.map VisimapTuple.key) ∨
      (heap.length ≤ i ∧ done[i - heap.length]? = some t) := by
  rw [after, List.getElem?_append, List.length_map]
  split_ifs with hi
  · rw [List.getElem?_map, List.getElem?_eq_getElem hi, or_iff_left (by omega)]
    generalize heap[i] = r
    obtain ⟨u, live⟩ := r
    simp only [Option.map_some, Option.some.injEq, Prod.mk.injEq, Bool.and_eq_true,
      Bool.not_eq_true', decide_eq_false_iff_not]
    constructor
    · rintro ⟨rfl, hlive, hkey⟩
      exact ⟨⟨rfl, hlive⟩, hkey⟩
    · rintro ⟨⟨rfl, hlive⟩, hkey⟩
      exact ⟨rfl, hlive, hkey⟩
  · rw [List.getElem?_map, List.getElem?_eq_none (show heap.length ≤ i by omega)]
    simp only [reduceCtorEq, false_and, false_or, Option.map_eq_some_iff, Prod.mk.injEq, and_true,
      exists_eq_right]
    exact (and_iff_right (by omega)).symm

theorem uniqueKeys_after (hunique : UniqueKeys heap) (hnodup : (done.map VisimapTuple.key).Nodup) :
    UniqueKeys (after heap done) := by
  intro i j t u hi hj htu
  have hmem : ∀ {k : ℕ} {v : VisimapTuple}, done[k]? = some v → v.key ∈ done.map VisimapTuple.key :=
    fun hv => List.mem_map_of_mem (List.mem_of_getElem? hv)
  obtain ⟨hi, htnot⟩ | ⟨hi', hi⟩ := after_live_iff.mp hi <;>
    obtain ⟨hj, hunot⟩ | ⟨hj', hj⟩ := after_live_iff.mp hj
  · exact hunique i j t u hi hj htu
  · exact absurd (htu ▸ hmem hj) htnot
  · exact absurd (htu ▸ hmem hi) hunot
  · have hlt := (List.getElem?_eq_some_iff.mp hi).1
    have hij := (List.nodup_iff_getElem?_ne_getElem?.mp hnodup)
    by_contra hne
    rcases Nat.lt_or_gt_of_ne (show i - heap.length ≠ j - heap.length by omega) with hlt' | hlt'
    · exact hij _ _ hlt' (by simpa using (List.getElem?_eq_some_iff.mp hj).1) (by
        rw [List.getElem?_map, List.getElem?_map, hi, hj, Option.map_some, Option.map_some, htu])
    · exact hij _ _ hlt' (by simpa using hlt) (by
        rw [List.getElem?_map, List.getElem?_map, hi, hj, Option.map_some, Option.map_some, htu])

theorem validHeap_after (hvalid : ValidHeap heap) (hdone : Finished heap rows done) :
    ValidHeap (after heap done) where
  unique := uniqueKeys_after hvalid.unique hdone.nodup
  data t ht := by
    obtain ⟨i, hi⟩ := List.getElem?_of_mem ht
    obtain ⟨hi, -⟩ | ⟨-, hi⟩ := after_live_iff.mp hi
    · exact hvalid.data t (List.mem_of_getElem? hi)
    · obtain ⟨bitmap, hbitmap, hshows⟩ := hdone.carries t (List.mem_of_getElem? hi)
      exact ⟨bitmap, hbitmap, hshows.1⟩

theorem bitmapAt_after_of_mem (hunique : UniqueKeys (after heap done)) (ht : t ∈ done) :
    bitmapAt (after heap done) t.key = t.bitmap.getD [] := by
  obtain ⟨i, hi⟩ := List.getElem?_of_mem ht
  have hlive : (after heap done)[heap.length + i]? = some (t, true) :=
    after_live_iff.mpr (Or.inr ⟨Nat.le_add_right _ _, by rwa [Nat.add_sub_cancel_left]⟩)
  rw [bitmapAt, indexGetNext_of_live hunique hlive]

theorem bitmapAt_after_of_not_mem (hunique : UniqueKeys (after heap done))
    (hkey : key ∉ done.map VisimapTuple.key) :
    bitmapAt (after heap done) key = bitmapAt heap key := by
  cases hget : indexGetNext key heap with
  | some r =>
    obtain ⟨hlive, rfl⟩ := indexGetNext_eq_some hget
    rw [bitmapAt, bitmapAt, hget,
      indexGetNext_of_live hunique (after_live_iff.mpr (Or.inl ⟨hlive, hkey⟩))]
  | none =>
    have hafter : indexGetNext key (after heap done) = none := by
      cases hget' : indexGetNext key (after heap done) with
      | none => rfl
      | some r =>
        obtain ⟨hlive, rfl⟩ := indexGetNext_eq_some hget'
        obtain ⟨hlive, -⟩ | ⟨-, hin⟩ := after_live_iff.mp hlive
        · exact absurd rfl (indexGetNext_eq_none hget hlive)
        · exact absurd (List.mem_map_of_mem (List.mem_of_getElem? hin)) hkey
    rw [bitmapAt, bitmapAt, hget, hafter]

/-- The rows that are hidden after the command. -/
theorem visimapIsVisible_after (hvalid : ValidHeap heap) (hdone : Finished heap rows done)
    (tupleId : AOTupleId) :
    visimapIsVisible (after heap done) tupleId = some false ↔
      visimapIsVisible heap tupleId = some false ∨ tupleId ∈ rows := by
  have hvalid' := validHeap_after hvalid hdone
  rw [visimapIsVisible_eq hvalid, visimapIsVisible_eq hvalid']
  simp only [Option.some.injEq, Bool.not_eq_false']
  by_cases hkey : tupleId.key ∈ done.map VisimapTuple.key
  · obtain ⟨t, ht, htk⟩ := List.mem_map.mp hkey
    obtain ⟨bitmap, hbitmap, -, hshows⟩ := hdone.carries t ht
    rw [← htk, bitmapAt_after_of_mem hvalid'.unique ht, hbitmap]
    exact hshows tupleId htk.symm
  · rw [bitmapAt_after_of_not_mem hvalid'.unique hkey,
      or_iff_left fun hin => hkey (hdone.covered tupleId hin)]

/-- **Deletion.** For any rows, in any order and with repetitions, the command ends. It stores one
tuple for each key of a row, in place of the live tuple of that key if there is one. The relation
then hides the rows that it hid before and the rows of the command. -/
theorem visimapDelete_exact (heap : VisimapHeap) (hvalid : ValidHeap heap) (rows : List AOTupleId) :
    ∃ done, visimapDelete heap rows = some (after heap done) ∧
      (done.map VisimapTuple.key).Nodup ∧
      (∀ key, key ∈ done.map VisimapTuple.key ↔ ∃ tupleId ∈ rows, tupleId.key = key) ∧
      ValidHeap (after heap done) ∧
      ∀ tupleId, visimapIsVisible (after heap done) tupleId = some false ↔
        visimapIsVisible heap tupleId = some false ∨ tupleId ∈ rows := by
  obtain ⟨del, recs, hhide, hinv⟩ := hideAll_spec hvalid (inv_init heap) rows
  rw [List.nil_append] at hinv
  obtain ⟨del', done, hfinish, hheap, hdone⟩ := finish_spec hvalid hinv
  refine ⟨done, ?_, hdone.nodup, fun key => ⟨fun hkey => ?_, ?_⟩, validHeap_after hvalid hdone,
    visimapIsVisible_after hvalid hdone⟩
  · rw [visimapDelete, hhide, Option.bind_some, hfinish, Option.map_some, hheap]
  · obtain ⟨t, ht, rfl⟩ := List.mem_map.mp hkey
    exact hdone.touched t ht
  · rintro ⟨u, hu, rfl⟩
    exact hdone.covered u hu

def tupleIdOf (segno rowNum : ℕ) : AOTupleId :=
  ⟨segno % 2 ^ 7, rowNum % 2 ^ 40, Nat.mod_lt _ (Nat.two_pow_pos 7),
    Nat.mod_lt _ (Nat.two_pow_pos 40)⟩

/-- The entry of row 7 is stashed for row 40000 and comes back for row 8. -/
theorem visimapDelete_exact_stashed :
    ∃ done, visimapDelete [(⟨⟨1, 0⟩, none⟩, true)]
          [tupleIdOf 1 7, tupleIdOf 1 40000, tupleIdOf 1 8] =
        some (after [(⟨⟨1, 0⟩, none⟩, true)] done) ∧
      visimapIsVisible (after [(⟨⟨1, 0⟩, none⟩, true)] done) (tupleIdOf 1 7) = some false := by
  have hvalid : ValidHeap [(⟨⟨1, 0⟩, none⟩, true)] := validHeap_singleton [] rfl (Nat.zero_le _)
  obtain ⟨done, hdelete, -, -, -, hhidden⟩ := visimapDelete_exact _ hvalid
    [tupleIdOf 1 7, tupleIdOf 1 40000, tupleIdOf 1 8]
  exact ⟨done, hdelete, (hhidden _).mpr (Or.inr List.mem_cons_self)⟩

end Hdb.AppendOnly

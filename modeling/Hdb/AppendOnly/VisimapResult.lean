import Hdb.AppendOnly.VisimapDelete

/-!
# The result of hiding a row

A row that has its bit already was hidden by the command itself, or before it. The decision is taken
from the dirty flag of the entry, and the flag says that the command has hidden some row of the
entry, maybe another one.

Main result: `hide_result_exact_iff`.
-/

namespace Hdb.AppendOnly

open VisimapDelete

variable {heap : VisimapHeap} {rows : List AOTupleId} {del del' : VisimapDelete}
  {recs : List (VisimapKey × List UInt8)} {entry : VisimapEntry} {tupleId : AOTupleId}

theorem hideTuple_result (h : entry.key = some tupleId.key) :
    (entry.hideTuple tupleId).1 =
      if bmsIsMember tupleId.bit entry.bitmap = false then .mayBeUpdated
      else if entry.dirty then .selfUpdated else .updated := by
  have hmem : bmsIsMember tupleId.bit (if bmsCoversMember entry.bitmap tupleId.bit then entry.bitmap
      else bmsResize entry.bitmap (VisimapEntry.minimalSizeToCover tupleId.bit)) =
        bmsIsMember tupleId.bit entry.bitmap := by
    split_ifs
    · rfl
    · exact bmsIsMember_resize _ _ _
  rw [VisimapEntry.hideTuple, rownumOffset_eq h]
  simp only [hmem, Bool.not_eq_true']
  split_ifs <;> rfl

theorem visimapFind_dirty {entry' : VisimapEntry}
    (h : visimapFind heap tupleId entry = some entry') :
    entry'.dirty = entry.dirty := by
  rw [visimapFind] at h
  cases hget : indexGetNext tupleId.key heap with
  | none =>
    rw [hget] at h
    cases h
    rfl
  | some r =>
    rw [hget] at h
    obtain ⟨bitmap, -, rfl⟩ := Option.map_eq_some_iff.mp h
    rfl

/-- An entry that comes from the spill file is dirty, one from the relation is not. -/
theorem find_dirty (h : Inv heap rows del recs none) (hfind : del.find tupleId = some del') :
    del'.entry.dirty = true ↔ ∃ u ∈ rows, u.key = tupleId.key := by
  rw [VisimapDelete.find] at hfind
  cases hcache : Table.find VisimapDeleteData.key tupleId.key del.dirtyEntryCache with
  | none =>
    rw [hcache] at hfind
    obtain ⟨entry, hentry, rfl⟩ := Option.map_eq_some_iff.mp hfind
    refine iff_of_false ?_ ?_
    · rw [visimapFind_dirty hentry, h.dirty]
      exact Bool.false_ne_true
    · rintro ⟨u, hu, huk⟩
      obtain hcur | ⟨d, hd, hdu⟩ := h.covered u hu
      · cases hcur
      · exact Table.key_ne_of_find hcache hd (hdu.trans huk)
  | some d =>
    rw [hcache] at hfind
    obtain ⟨hd, hdk⟩ := Table.mem_of_find hcache
    obtain ⟨offset, -, hfind⟩ := Option.bind_eq_some_iff.mp hfind
    split_ifs at hfind
    obtain ⟨data, -, hfind⟩ := Option.bind_eq_some_iff.mp hfind
    obtain ⟨entry, hentry, rfl⟩ := Option.map_eq_some_iff.mp hfind
    obtain ⟨bitmap, -, rfl⟩ := Option.map_eq_some_iff.mp hentry
    exact iff_of_true rfl (hdk ▸ h.touched d.key (Or.inr ⟨d, hd, rfl⟩))

/-- The bit of the row decides first, and then the rows of the same entry. -/
theorem hide_result (hvalid : ValidHeap heap) (h : Inv heap rows del recs del.entry.key)
    (tupleId : AOTupleId) :
    ∃ r, del.hide tupleId = some r ∧
      (r.1 = .mayBeUpdated ↔
        ¬ (bmsIsMember tupleId.bit (bitmapAt heap tupleId.key) ∨ tupleId ∈ rows)) ∧
      (r.1 = .selfUpdated ↔
        (bmsIsMember tupleId.bit (bitmapAt heap tupleId.key) ∨ tupleId ∈ rows) ∧
          ∃ u ∈ rows, u.key = tupleId.key) := by
  -- The entry in which the bit is looked up.
  obtain ⟨del₁, hdel₁, hkey, hshows, hdirty⟩ : ∃ del₁,
      (if del.entry.coversTuple tupleId then some del
        else (if del.entry.dirty then del.stash else some del).bind (find tupleId)) = some del₁ ∧
      del₁.entry.key = some tupleId.key ∧ Shows heap rows tupleId.key del₁.entry.bitmap ∧
      (del₁.entry.dirty = true ↔ ∃ u ∈ rows, u.key = tupleId.key) := by
    cases hkey : del.entry.key with
    | none =>
      have hcovers : del.entry.coversTuple tupleId = false := by
        rw [VisimapEntry.coversTuple, hkey]
      have hdirty : del.entry.dirty = false := by rw [h.dirty, hkey]; rfl
      rw [hkey] at h
      obtain ⟨entry, hfind, hfound⟩ := find_spec hvalid h tupleId
      refine ⟨_, ?_, hfound.key, hfound.shows, find_dirty h hfind⟩
      simp only [hcovers, hdirty, hfind, Bool.false_eq_true, if_false, Option.bind_some]
    | some key =>
      have hdirty : del.entry.dirty = true := by rw [h.dirty, hkey]; rfl
      rw [hkey] at h
      obtain ⟨u, hu, rfl⟩ := h.touched key (Or.inl rfl)
      by_cases hcovers : del.entry.coversTuple tupleId = true
      · have huk : u.key = tupleId.key := (coversTuple_iff hkey).mp hcovers
        rw [huk] at h hkey
        obtain ⟨-, hshows, -⟩ := h.entry _ rfl
        exact ⟨del, if_pos hcovers, hkey, hshows, iff_of_true hdirty ⟨u, hu, huk⟩⟩
      · obtain ⟨del₁, recs₁, hstash, h₁⟩ := stash_spec h
        obtain ⟨entry, hfind, hfound⟩ := find_spec hvalid h₁ tupleId
        refine ⟨_, ?_, hfound.key, hfound.shows, find_dirty h₁ hfind⟩
        simp only [hcovers, hdirty, hstash, hfind, Bool.false_eq_true, if_false, if_true,
          Option.bind_some]
  refine ⟨_, by rw [VisimapDelete.hide, hdel₁, Option.map_some], ?_⟩
  rw [hideTuple_result hkey, ← hshows.2 tupleId rfl, ← hdirty]
  cases bmsIsMember tupleId.bit del₁.entry.bitmap <;> cases del₁.entry.dirty <;> simp

/-- What the result says about the row, when `rows` have been hidden by the command so far. -/
def ExactResult (heap : VisimapHeap) (rows : List AOTupleId) (tupleId : AOTupleId)
    (result : HTSUResult) : Prop :=
  (result = .mayBeUpdated ↔
    ¬ visimapIsVisible heap tupleId = some false ∧ tupleId ∉ rows) ∧
  (result = .selfUpdated ↔ tupleId ∈ rows ∧ ¬ visimapIsVisible heap tupleId = some false) ∧
  (result = .updated ↔ visimapIsVisible heap tupleId = some false)

theorem exactResult_iff {result : HTSUResult} {entryHit : Prop} (hrow : tupleId ∈ rows → entryHit)
    (hmay : result = .mayBeUpdated ↔
      ¬ (visimapIsVisible heap tupleId = some false ∨ tupleId ∈ rows))
    (hself : result = .selfUpdated ↔
      (visimapIsVisible heap tupleId = some false ∨ tupleId ∈ rows) ∧ entryHit) :
    ExactResult heap rows tupleId result ↔
      ¬ (visimapIsVisible heap tupleId = some false ∧ entryHit) := by
  have hupdated : result = .updated ↔ ¬ result = .mayBeUpdated ∧ ¬ result = .selfUpdated := by
    cases result <;> simp
  rw [ExactResult, hupdated, hmay, hself]
  by_cases hhidden : visimapIsVisible heap tupleId = some false
  · by_cases hhit : entryHit <;> simp [hhidden, hhit]
  · by_cases hin : tupleId ∈ rows
    · simp [hhidden, hin, hrow hin]
    · simp [hhidden, hin]

/-- **A call of Hide.** The result is right except for a row that was hidden before the command,
after the command has hidden a row of the same entry. -/
theorem hide_result_exact_iff (heap : VisimapHeap) (hvalid : ValidHeap heap) (rows : List AOTupleId)
    (tupleId : AOTupleId) :
    ∃ del r, hideAll rows (.init heap) = some del ∧ del.hide tupleId = some r ∧
      (ExactResult heap rows tupleId r.1 ↔
        ¬ (visimapIsVisible heap tupleId = some false ∧ ∃ u ∈ rows, u.key = tupleId.key)) := by
  obtain ⟨del, recs, hdel, hinv⟩ := hideAll_spec hvalid (inv_init heap) rows
  rw [List.nil_append] at hinv
  obtain ⟨r, hr, hmay, hself⟩ := hide_result hvalid hinv tupleId
  refine ⟨del, r, hdel, hr, ?_⟩
  have hhidden : visimapIsVisible heap tupleId = some false ↔
      bmsIsMember tupleId.bit (bitmapAt heap tupleId.key) = true := by
    rw [visimapIsVisible_eq hvalid, Option.some.injEq, Bool.not_eq_false']
  rw [← hhidden] at hmay hself
  have hrow : tupleId ∈ rows → ∃ u ∈ rows, u.key = tupleId.key := fun h => ⟨tupleId, h, rfl⟩
  exact exactResult_iff hrow hmay hself

/-- The entry of rows 7 and 8, which have been hidden. -/
def heapOfTwoRows : VisimapHeap :=
  [(⟨⟨1, 0⟩, some [0, 0, 0, 14, 1, 0, 0, 0, 0, 1, 128, 1, 0, 0]⟩, true)]

theorem validHeap_twoRows : ValidHeap heapOfTwoRows :=
  validHeap_singleton [384] (by decide) (by decide)

/-- Row 7 was hidden before the command, which has hidden row 9. -/
theorem hide_result_not_exact :
    ¬ ∀ (heap : VisimapHeap), ValidHeap heap → ∀ (rows : List AOTupleId) (tupleId : AOTupleId),
      ∀ del r, hideAll rows (.init heap) = some del → del.hide tupleId = some r →
        ExactResult heap rows tupleId r.1 := by
  intro h
  have hhidden : visimapIsVisible heapOfTwoRows (tupleIdOf 1 7) = some false := by decide
  have hrun : ((hideAll [tupleIdOf 1 9] (.init heapOfTwoRows)).bind fun del =>
      (del.hide (tupleIdOf 1 7)).map Prod.fst) = some .selfUpdated := by decide
  obtain ⟨del, hdel, hrun⟩ := Option.bind_eq_some_iff.mp hrun
  obtain ⟨r, hr, hself⟩ := Option.map_eq_some_iff.mp hrun
  have hexact := h heapOfTwoRows validHeap_twoRows [tupleIdOf 1 9] (tupleIdOf 1 7) del r hdel hr
  exact (hexact.2.1.mp hself).2 hhidden

theorem hide_result_exact_twice :
    ∃ del r, hideAll [tupleIdOf 1 9] (.init heapOfTwoRows) = some del ∧
      del.hide (tupleIdOf 1 9) = some r ∧
      ExactResult heapOfTwoRows [tupleIdOf 1 9] (tupleIdOf 1 9) r.1 := by
  obtain ⟨del, r, hdel, hr, hiff⟩ :=
    hide_result_exact_iff heapOfTwoRows validHeap_twoRows [tupleIdOf 1 9] (tupleIdOf 1 9)
  have hvisible : visimapIsVisible heapOfTwoRows (tupleIdOf 1 9) = some true := by decide
  refine ⟨del, r, hdel, hr, hiff.mpr ?_⟩
  rw [hvisible]
  simp

end Hdb.AppendOnly

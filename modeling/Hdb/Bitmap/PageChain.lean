import Hdb.Bitmap.Build

/-!
# The page chain is sound

What the pages and the LOV item of a vector record about themselves agrees with the words in them,
after a build and any insertions. A run of ones that loses its tids keeps its length, and a build
that loses a tid leaves a LOV item that is behind but sound: unlike the set of tids, the chain has
no exception. So a tid that is not after the last set bit is always found.
-/

namespace Hdb.Bitmap

/-- `verify_bitmappages`: each page records the number of bits in the words up to its end. -/
def verifyBitmappages (pages : Nat → BMBitmapPage) : Nat → Option Nat → Nat → Bool
  | 0, _, _ => true
  | _ + 1, none, _ => true
  | fuel + 1, some blkno, tidnum =>
    let page := pages blkno
    let tidnum := tidnum + getnumbits page.cwords page.hwords page.bmHrlWordsUsed
    page.bmLastTidLocation == tidnum && verifyBitmappages pages fuel page.bmBitmapNext tidnum

/-- The pages of a vector, in order: they are linked from the head to the tail without a cycle, and
what they and the LOV item record is right. -/
structure PageChain (L : PageLayout) (v : BmVector) (bs : List Nat) : Prop where
  head : v.lovItem.bmLovHead = bs.head?
  next : ∀ pre b post, bs = pre ++ b :: post → (v.pages b).bmBitmapNext = post.head?
  tail : v.lovItem.bmLovTail = bs.getLast?
  acyclic : bs.Nodup
  used : ∀ b ∈ bs, (v.pages b).bmHrlWordsUsed ≤ L.wordsPerPage
  last : ∀ pre b post, bs = pre ++ b :: post →
    (v.pages b).bmLastTidLocation = numBits (chainEntries v.pages (pre ++ [b]))
  location : v.lovItem.bmLastTidLocation =
    numBits (chainEntries v.pages bs) + numBits (compwordEntries v.lovItem)

section

variable {L : PageLayout} {v : BmVector} {bs : List Nat} {tidnum : Nat}

theorem Seg.head_eq {pages : Nat → BMBitmapPage} {h : Option Nat} (hseg : Seg pages h bs none) :
    h = bs.head? := by
  cases bs with
  | nil => exact hseg
  | cons b bs => exact hseg.1

theorem verifyBitmappages_of_lastOk {pages : Nat → BMBitmapPage} {fuel n : Nat} {h : Option Nat}
    (hseg : Seg pages h bs none) (hlast : LastOk pages n bs) :
    verifyBitmappages pages fuel h n = true := by
  induction fuel generalizing bs n h with
  | zero => rfl
  | succ fuel ih =>
    cases bs with
    | nil =>
      rw [show h = none from hseg]
      rfl
    | cons b bs =>
      obtain ⟨rfl, hseg⟩ := hseg
      obtain ⟨hb, hlast⟩ := hlast
      have hbits : getnumbits (pages b).cwords (pages b).hwords (pages b).bmHrlWordsUsed =
        numBits (pages b).entries := getnumbits_eq ..
      rw [verifyBitmappages, hbits, hb, beq_self_eq_true, Bool.true_and]
      exact ih hseg hlast

theorem VecInv.pageChain (h : VecInv L v bs) : PageChain L v bs where
  head := h.chain.head_eq
  next pre b post heq := by
    have hseg := h.chain.seg
    rw [heq] at hseg
    obtain ⟨m, -, hseg⟩ := (seg_append ..).mp hseg
    exact hseg.2.head_eq
  tail := h.chain.tail.symm
  acyclic := h.chain.nodup
  used b hb := (h.chain.page b hb).used
  last pre b post heq := by
    have hlast := h.chain.last
    rw [heq] at hlast
    obtain ⟨hb, -⟩ := ((lastOk_append ..).mp hlast).2
    rw [hb, Nat.zero_add, chainEntries_append, numBits_append, chainEntries_cons, chainEntries_nil,
      List.append_nil]
  location := h.complete

/-- **Setting a bit keeps the chain**, a run of ones included. -/
theorem updatesetbit_keeps (h : VecInv L v bs) (hpos : 1 ≤ tidnum)
    (hle : tidnum ≤ v.lovItem.bmLastSetbit) :
    ∃ v' bs', updatesetbit L v tidnum = .ok v' ∧ VecInv L v' bs' := by
  cases hrun : inOnesRun v.lovItem tidnum with
  | false =>
    obtain ⟨v', bs', e₁, e₂, -⟩ := updatesetbit_spec h hpos hle hrun
    exact ⟨v', bs', e₁, e₂⟩
  | true =>
    simp only [inOnesRun, Bool.and_eq_true, decide_eq_true_eq] at hrun
    obtain ⟨⟨⟨⟨h2, -⟩, hlong⟩, hlt⟩, hloc⟩ := hrun
    have hheader : v.lovItem.lovWordsHeader = 2 := by
      rcases h.header with h0 | h2'
      · omega
      · exact h2'
    have hfill : bmLastCompwordIsFill v.lovItem = true := by
      rw [isFill_of_header h.header, decide_eq_true h2]
    have hset : v.lovItem.bmLastCompword ≠ literalAllOne := by
      intro hunset
      have hcomplete := h.complete
      have hnil : numBits [] = 0 := rfl
      rw [compwordEntries, if_pos hunset, hnil, h.unset hunset] at hcomplete
      omega
    have htid := h.compwordTidLocation hset
    rw [htid] at hlt
    obtain ⟨v', bs', e₁, e₂, -⟩ := splitCompword_spec h hset hfill hlt hloc
    refine ⟨v', bs', ?_, e₂⟩
    simp only [updatesetbit]
    rw [htid, if_neg (by omega), if_pos ⟨hlt, h2⟩]
    exact e₁

theorem insertsetbit_keeps (h : VecInv L v bs) (hpos : 1 ≤ tidnum) (htid : tidnum < 2 ^ 63) :
    ∃ v' bs', insertsetbit L v tidnum = .ok v' ∧ VecInv L v' bs' := by
  by_cases hle : tidnum ≤ v.lovItem.bmLastSetbit
  · rw [insertsetbit, if_pos hle]
    exact updatesetbit_keeps h hpos hle
  · obtain ⟨v', bs', e₁, e₂, -⟩ := insertsetbit_spec h hpos htid (inOnesRun_of_lt h (not_le.mp hle))
    exact ⟨v', bs', e₁, e₂⟩

theorem run_insert_keeps {tids : List Nat} (h : VecInv L v bs)
    (hpos : ∀ t ∈ tids, 1 ≤ t ∧ t < 2 ^ 63) :
    ∃ v' bs', run (insertStep L) v tids = some v' ∧ VecInv L v' bs' := by
  induction tids generalizing v bs with
  | nil => exact ⟨v, bs, rfl, h⟩
  | cons tidnum tids ih =>
    obtain ⟨h₁, h₂⟩ := hpos tidnum (List.mem_cons_self ..)
    obtain ⟨v₁, bs₁, e₁, e₂⟩ := insertsetbit_keeps h h₁ h₂
    obtain ⟨v', bs', f₁, f₂⟩ := ih e₂ fun t ht => hpos t (List.mem_cons_of_mem _ ht)
    refine ⟨v', bs', ?_, f₂⟩
    rw [run_cons, insertStep, e₁]
    exact f₁

end

/-! ## The LOV item of a build -/

/-- The vector was not written to, or the buffer has been given room again since. -/
def Untouched (v v' : BmVector) (buf buf' : BMTIDBuffer) : Prop :=
  (v' = v ∧ buf.numCwords ≤ buf'.numCwords) ∨ 0 < buf'.numCwords

section

variable {L : PageLayout} {v v' v'' : BmVector} {buf buf' buf'' : BMTIDBuffer}

theorem Untouched.trans (h : Untouched v v' buf buf') (h' : Untouched v' v'' buf' buf'') :
    Untouched v v'' buf buf'' := by
  rcases h' with ⟨rfl, hle'⟩ | hpos'
  · rcases h with ⟨rfl, hle⟩ | hpos
    · exact .inl ⟨rfl, hle.trans hle'⟩
    · exact .inr (hpos.trans_le hle')
  · exact .inr hpos'

theorem bufExtend_numCwords (buf : BMTIDBuffer) : 0 < (bufExtend buf).numCwords := by
  rw [bufExtend]
  split_ifs with h₁ h₂
  · exact h₁.1
  · exact Nat.succ_pos 7
  · dsimp only
    omega

theorem mergewords_untouched (v : BmVector) (buf : BMTIDBuffer) (f : Bool) :
    Untouched v v buf (mergewords buf f) := by
  simp only [mergewords]
  split_ifs
  all_goals first
    | exact .inl ⟨rfl, le_refl _⟩
    | exact .inr (bufExtend_numCwords buf)

theorem bufEnsureHeadSpace_untouched (h : bufEnsureHeadSpace L v buf = .ok (v', buf')) :
    Untouched v v' buf buf' := by
  rw [bufEnsureHeadSpace] at h
  split_ifs at h
  · cases h
    exact .inr (bufExtend_numCwords buf)
  · split at h
    · cases h
    · cases h
      exact .inr (bufExtend_numCwords _)
  · cases h
    exact .inl ⟨rfl, le_refl _⟩

theorem ensured_mergewords_untouched {buf₁ : BMTIDBuffer} (hnum : buf₁.numCwords = buf.numCwords)
    (h : bufEnsureHeadSpace L v buf₁ = .ok (v', buf')) (f : Bool) :
    Untouched v v' buf (mergewords buf' f) := by
  have h' := bufEnsureHeadSpace_untouched h
  rw [Untouched, hnum] at h'
  exact Untouched.trans h' (mergewords_untouched v' buf' f)

theorem fillZerosLoop_untouched {fuel n : Nat} (h : fillZerosLoop L fuel n v buf = .ok (v', buf')) :
    Untouched v v' buf buf' := by
  induction fuel generalizing n v buf with
  | zero =>
    cases h
    exact .inl ⟨rfl, le_refl _⟩
  | succ fuel ih =>
    rw [fillZerosLoop] at h
    split_ifs at h
    · cases h
      exact .inl ⟨rfl, le_refl _⟩
    all_goals
      dsimp only at h
      split at h
      · cases h
      case _ x y e => exact (ensured_mergewords_untouched rfl e true).trans (ih h)

theorem bufAddZeros_untouched {zeros : Nat} (h : bufAddZeros L v buf zeros = .ok (v', buf')) :
    Untouched v v' buf buf' := by
  simp only [bufAddZeros] at h
  split_ifs at h
  · split at h
    · cases h
    case _ x y e =>
      exact (ensured_mergewords_untouched rfl e false).trans (fillZerosLoop_untouched h)
  · exact fillZerosLoop_untouched h

theorem bufSetBit_untouched {tidnum : Nat} (h : bufSetBit L v buf tidnum = .ok (v', buf')) :
    Untouched v v' buf buf' := by
  simp only [bufSetBit] at h
  by_cases hfull : tidnum % 64 = 0
  · rw [if_pos hfull] at h
    split at h
    · cases h
    case _ x y e =>
      cases h
      exact ensured_mergewords_untouched rfl e _
  · rw [if_neg hfull] at h
    cases h
    exact .inl ⟨rfl, le_refl _⟩

/-- **The LOV item while a tid is added**: if there is no content word in the buffer, it is as it
was. -/
theorem bufAddTidWithFill_untouched {tidnum : Nat}
    (h : bufAddTidWithFill L v buf tidnum = .ok (v', buf')) : Untouched v v' buf buf' := by
  simp only [bufAddTidWithFill] at h
  split_ifs at h
  · split at h
    · cases h
    case _ x y e => exact (bufAddZeros_untouched e).trans (bufSetBit_untouched h)
  · exact bufSetBit_untouched h

/-- If no content word waits in a buffer, the LOV item is sound. -/
def LovSound (L : PageLayout) (st : BuildState) : Prop :=
  (∀ buf, st.tids.lovBuf = some (some buf) → buf.numCwords = 0) → ∃ bs, VecInv L st.v bs

theorem BufferSim.free_vecInv {bs : List Nat} {w : BmVector} (h : BufferSim L v bs buf w)
    (hnum : buf.numCwords ≠ 0) :
    ∃ v' bs', bufFreeMem L v buf = .ok (v', bitmapFreeTidbuf buf) ∧ VecInv L v' bs' := by
  obtain ⟨v', bs', w₁, w₂, w₃, w₄⟩ :=
    bitmapWriteNewBitmapwords_spec L h.building.chain h.building.cur
    h.building.core.lastTids
  have hcore := h.building.core
  have hlast : LastInv (numBits (chainEntries v.pages bs)) buf :=
    ⟨hcore.complete, hcore.unset, hcore.fill, h.word⟩
  refine ⟨v', bs', ?_, (vecInv_of_written w₂ w₃ w₄ hlast h.bound).1⟩
  rw [bufFreeMem, if_neg hnum, w₁]

/-- **One action** keeps the LOV item sound. -/
theorem buildStep_lovSound {st st' : BuildState} {w : BmVector} {a : BuildAction}
    (hsim : BuildSim L st w) (hstep : buildStep L st a = some st') (h : LovSound L st) :
    LovSound L st' := by
  cases a with
  | makeSpace =>
    cases hsim with
    | start v =>
      cases hstep
      exact h
    | @buffer v bs buf w hbuf =>
      rw [buildStep, bufMakeSpace] at hstep
      dsimp only at hstep
      by_cases hnum : buf.numCwords = 0
      · rw [if_pos hnum] at hstep
        cases hstep
        exact h
      · obtain ⟨v', bs', e₁, e₂⟩ := hbuf.free_vecInv hnum
        rw [if_neg hnum, e₁] at hstep
        cases hstep
        exact fun _ => ⟨bs', e₂⟩
  | addTid tidnum =>
    rw [buildStep, bufAddTid] at hstep
    obtain ⟨bufs, hbufs, hstep⟩ := Option.bind_eq_some_iff.mp hstep
    obtain ⟨⟨v', buf'⟩, hadd, hstep⟩ := Option.map_eq_some_iff.mp hstep
    cases hstep
    have hadd' : bufAddTidWithFill L st.v (bufs.getD (newBuildBuffer st.v.lovItem)) tidnum =
        .ok (v', buf') := by
      cases hr : bufAddTidWithFill L st.v (bufs.getD (newBuildBuffer st.v.lovItem)) tidnum with
      | error e => rw [hr] at hadd; cases hadd
      | ok r =>
        rw [hr] at hadd
        cases hadd
        rfl
    intro hzero
    have hnum : buf'.numCwords = 0 := hzero buf' rfl
    rcases bufAddTidWithFill_untouched hadd' with ⟨rfl, hle⟩ | hpos
    · cases hsim with
      | start v =>
        cases hbufs
        have hroom : 0 < (newBuildBuffer (startBuild w).v.lovItem).numCwords :=
          bufExtend_numCwords _
        change (newBuildBuffer (startBuild w).v.lovItem).numCwords ≤ buf'.numCwords at hle
        omega
      | @buffer v bs buf w hbuf =>
        cases hbufs
        refine h fun buf₁ hbuf₁ => ?_
        cases hbuf₁
        change buf.numCwords ≤ buf'.numCwords at hle
        omega
    · omega

theorem run_build_lovSound {st st' : BuildState} {w : BmVector} {bs : List Nat}
    {as : List BuildAction} (hsim : BuildSim L st w) (hw : VecInv L w bs)
    (hsorted : (w.lovItem.bmLastSetbit :: buildTids as).Pairwise (· < ·))
    (htid : ∀ t ∈ buildTids as, t < 2 ^ 63) (hrun : run (buildStep L) st as = some st')
    (h : LovSound L st) : LovSound L st' := by
  induction as generalizing st w bs with
  | nil =>
    cases hrun
    exact h
  | cons a as ih =>
    cases a with
    | makeSpace =>
      obtain ⟨st₁, e₁, e₂⟩ := buildStep_makeSpace hsim
      rw [run_cons, e₁] at hrun
      exact ih e₂ hw hsorted htid hrun (buildStep_lovSound hsim e₁ h)
    | addTid tidnum =>
      rw [buildTids] at hsorted htid
      have hlt := List.rel_of_pairwise_cons hsorted (List.mem_cons_self ..)
      obtain ⟨st₁, w₁, bs₁, e₁, -, e₃, e₄, e₅⟩ := buildStep_addTid hsim hw hlt
        (htid tidnum (List.mem_cons_self ..))
      rw [run_cons, e₁] at hrun
      exact ih e₃ e₄ (e₅.symm ▸ hsorted.of_cons)
        (fun t ht => htid t (List.mem_cons_of_mem _ ht)) hrun
        (buildStep_lovSound hsim e₁ h)

/-- **The vector after a build**, with all its tids or without some of them. -/
theorem bitmapWriteAlltids_vecInv {st : BuildState} {w : BmVector} (hsim : BuildSim L st w)
    (h : LovSound L st) : ∃ st' bs, bitmapWriteAlltids L st = some st' ∧ VecInv L st'.v bs := by
  cases hsim with
  | start v =>
    obtain ⟨bs, hv⟩ := h fun buf hbuf => nomatch hbuf
    exact ⟨_, bs, rfl, hv⟩
  | @buffer v bs buf w hbuf =>
    rw [bitmapWriteAlltids]
    dsimp only
    by_cases hnum : buf.numCwords = 0
    · obtain ⟨bs', hv⟩ := h fun buf' hbuf' => by
        cases hbuf'
        exact hnum
      rw [if_pos hnum]
      exact ⟨_, bs', rfl, hv⟩
    · obtain ⟨v', bs', e₁, e₂⟩ := hbuf.free_vecInv hnum
      rw [if_neg hnum, e₁]
      exact ⟨_, bs', rfl, e₂⟩

end

/-! ## The chain -/

/-- **The page chain is sound** after a build and any insertions, and `updatesetbit` finds every tid
that is not after the last set bit. -/
theorem page_chain_sound (L : PageLayout) (currTidNumber : Nat) (pages : Nat → BMBitmapPage)
    (nblocks : Nat) (hcurr : currTidNumber < 2 ^ 63) (as : List BuildAction)
    (hsorted : (buildTids as).Pairwise (· < ·))
    (hpos : ∀ t ∈ buildTids as, 1 ≤ t ∧ currTidNumber ≤ t ∧ t < 2 ^ 63) (tids : List Nat)
    (htids : ∀ t ∈ tids, 1 ≤ t ∧ t < 2 ^ 63) :
    ∃ st st' v bs, run (buildStep L) (startBuild (newVector currTidNumber pages nblocks)) as =
      some st ∧ bitmapWriteAlltids L st = some st' ∧ run (insertStep L) st'.v tids = some v ∧
      PageChain L v bs ∧
      (∀ fuel, verifyBitmappages v.pages fuel v.lovItem.bmLovHead 0 = true) ∧
      ∀ tidnum, 1 ≤ tidnum → tidnum ≤ v.lovItem.bmLastSetbit →
        ∃ v', updatesetbit L v tidnum = .ok v' := by
  have hnew := vecInv_new L hcurr pages nblocks
  have hchain : ((newVector currTidNumber pages nblocks).lovItem.bmLastSetbit ::
      buildTids as).Pairwise (· < ·) :=
    List.pairwise_cons.mpr ⟨newVector_bmLastSetbit_lt hpos, hsorted⟩
  obtain ⟨st, w, -, e₁, -, e₃, -⟩ := run_build (.start _) hnew hchain fun t ht => (hpos t ht).2.2
  have hsound := run_build_lovSound (.start _) hnew hchain (fun t ht => (hpos t ht).2.2) e₁
    fun _ => ⟨_, hnew⟩
  obtain ⟨st', bs, f₁, f₂⟩ := bitmapWriteAlltids_vecInv e₃ hsound
  obtain ⟨v, bs', g₁, g₂⟩ := run_insert_keeps f₂ htids
  refine ⟨st, st', v, bs', e₁, f₁, g₁, g₂.pageChain, ?_, ?_⟩
  · exact fun fuel => verifyBitmappages_of_lastOk g₂.chain.seg g₂.chain.last
  · intro tidnum h₁ h₂
    obtain ⟨v', -, hupd, -⟩ := updatesetbit_keeps g₂ h₁ h₂
    exact ⟨v', hupd⟩

/-- A build, a bit set in a fill word of zeros, one after the last set bit, and one in the last
word. -/
theorem page_chain_sound_inserted :
    let L : PageLayout := ⟨1, by decide⟩
    ∃ st st' v bs,
      run (buildStep L) (startBuild (newVector 1 (fun _ => bitmapInitBitmappage) 0))
        [.addTid 1, .makeSpace, .addTid 700] = some st ∧
      bitmapWriteAlltids L st = some st' ∧ run (insertStep L) st'.v [300, 1000, 999] = some v ∧
      PageChain L v bs ∧ ∃ v', updatesetbit L v 500 = .ok v' := by
  intro L
  obtain ⟨st, st', v, bs, h₁, h₂, h₃, h₄, -, h₆⟩ := page_chain_sound L 1
    (fun _ => bitmapInitBitmappage) 0 (by decide) [.addTid 1, .makeSpace, .addTid 700] (by decide)
    (by decide) [300, 1000, 999] (by decide)
  refine ⟨st, st', v, bs, h₁, h₂, h₃, h₄, h₆ 500 (by decide) ?_⟩
  have hlast : ((run (buildStep L) (startBuild (newVector 1 (fun _ => bitmapInitBitmappage) 0))
      [.addTid 1, .makeSpace, .addTid 700]).bind fun st => (bitmapWriteAlltids L st).bind fun st' =>
      (run (insertStep L) st'.v [300, 1000, 999]).map fun v => v.lovItem.bmLastSetbit) =
      some 1000 := by
    decide +kernel
  rw [h₁, Option.bind_some, h₂, Option.bind_some, h₃, Option.map_some, Option.some.injEq] at hlast
  omega

end Hdb.Bitmap

import Hdb.AppendOnly.BufferedRead
import Hdb.Lib.Run

/-!
# Reading a temporary range

The file is made of blocks, and the header of a block tells its length. A reader asks for the header
of the next block and then for the whole block; at any moment it may set a temporary range. What it
should see is said by `RangeSpec`, which knows only the index of the next block and of the block at
which the range ends.

`BufferedReadSetTemporaryRange` shortens the large read only when it makes a new one. When the range
begins in memory and ends before the large read does, the blocks behind the range are handed out
too, and at the end of the large read the next one gets a negative length.

Main results: `temporaryRange_delivers`, for the runs whose ranges are `rangeHonoured`, and
`range_overrun`, a run with one that is not.
-/

namespace Hdb.AppendOnly

open BufferedRead

/-- A file made of consecutive blocks. -/
structure BlockFile (lens : BufferedReadLens) extends ReadFile where
  blocks : List (List UInt8)
  headerLen : ℤ
  /-- The length of a block, as its header tells it. -/
  blockLen : List UInt8 → ℤ
  bytes_eq : bytes = blocks.flatten
  headerLen_pos : 0 < headerLen
  headerLen_le : headerLen ≤ lens.maxBufferLen
  headerLen_le_length : ∀ blk ∈ blocks, headerLen ≤ blk.length
  length_le : ∀ blk ∈ blocks, blk.length ≤ lens.maxBufferLen
  blockLen_eq : ∀ blk ∈ blocks, blockLen (blk.take headerLen.toNat) = blk.length

/-- The reader between two calls: whether it has asked for a header and not yet for the block, and
what it was given since it set a range. `none` is the null pointer. -/
structure RangeReader where
  buffered : BufferedRead
  header : Option Buffer
  delivered : List (Option (List UInt8))

inductive ReadAction
  /-- `BufferedReadSetTemporaryRange`, from the beginning of one block to that of another. -/
  | setTemporaryRange (first after : ℕ)
  /-- `BufferedReadGetNextBuffer`, with the length of a header. -/
  | getHeader
  /-- `BufferedReadGrowBuffer`, with the length of the block, if it is longer than its header. -/
  | getBlock

namespace BlockFile

variable {lens : BufferedReadLens} (F : BlockFile lens)

/-- Where block number `k` begins. -/
def offset (k : ℕ) : ℤ := ((F.blocks.take k).flatten.length : ℤ)

/-- The beginning or the end of a block. -/
def IsBoundary (pos : ℤ) : Prop := ∃ k ≤ F.blocks.length, F.offset k = pos

def openReader : Option RangeReader :=
  (setFile lens F.toReadFile F.bytes.length BufferedRead.init).toOption.map fun st => ⟨st, none, []⟩

/-- `none` is an error, or a call out of order. -/
def readStep (st : RangeReader) : ReadAction → Option RangeReader
  | .setTemporaryRange first after =>
    if first ≤ after ∧ after ≤ F.blocks.length then
      (setTemporaryRange lens F.toReadFile (F.offset first)
        (F.offset after) st.buffered).toOption.map fun buffered => ⟨buffered, none, []⟩
    else none
  | .getHeader =>
    if st.header.isSome then none
    else
      (getNextBuffer lens F.toReadFile F.headerLen st.buffered).toOption.map fun r =>
        ⟨r.1, r.2, if r.2.isSome then st.delivered else st.delivered ++ [none]⟩
  | .getBlock =>
    st.header.bind fun header =>
      let overallLen := F.blockLen (bufferBytes st.buffered header)
      if overallLen > header.len then
        (growBuffer lens F.toReadFile overallLen st.buffered).toOption.map fun r =>
          ⟨r.1, none, st.delivered ++ [some (bufferBytes r.1 r.2)]⟩
      else some { st with
        header := none, delivered := st.delivered ++ [some (bufferBytes st.buffered header)] }

/-- Read `n` blocks. -/
def readBlocks (n : ℕ) : List ReadAction :=
  (List.replicate n [ReadAction.getHeader, ReadAction.getBlock]).flatten

end BlockFile

/-! ## What the reader should see -/

/-- The next block, the block at which reading ends, whether the header of the next block has been
asked for, and what has been delivered since the last range was set. -/
structure RangeSpec where
  next : ℕ
  limit : ℕ
  inBlock : Bool
  delivered : List (Option (List UInt8))

/-- A range is read from its first block to its end, and forgotten there. -/
def rangeSpecStep (blocks : List (List UInt8)) (s : RangeSpec) : ReadAction → Option RangeSpec
  | .setTemporaryRange first after =>
    if first ≤ after ∧ after ≤ blocks.length then some ⟨first, after, false, []⟩ else none
  | .getHeader =>
    if s.inBlock then none
    else if s.next = s.limit then
      some { s with limit := blocks.length, delivered := s.delivered ++ [none] }
    else some { s with inBlock := true }
  | .getBlock =>
    if s.inBlock then
      some { s with
        next := s.next + 1, inBlock := false, delivered := s.delivered ++ [blocks[s.next]?] }
    else none

/-- Reading `n` blocks before the limit delivers them in order. -/
theorem run_readBlocks {blocks : List (List UInt8)} {n : ℕ} {s : RangeSpec}
    (hin : s.inBlock = false) (hlimit : s.limit ≤ blocks.length) (hn : s.next + n ≤ s.limit) :
    run (rangeSpecStep blocks) s (BlockFile.readBlocks n) = some { s with
      next := s.next + n
      delivered := s.delivered ++ ((blocks.drop s.next).take n).map some } := by
  induction n generalizing s with
  | zero => simp [BlockFile.readBlocks, run]
  | succ n ih =>
    have hlt : s.next < blocks.length := by omega
    have hne : s.next ≠ s.limit := by omega
    rw [BlockFile.readBlocks, List.replicate_succ, List.flatten_cons, run_append]
    have hone : run (rangeSpecStep blocks) s [.getHeader, .getBlock] = some { s with
        next := s.next + 1, delivered := s.delivered ++ [blocks[s.next]?] } := by
      simp [run_cons, run_nil, rangeSpecStep, hin, hne]
    rw [hone, Option.bind_some]
    have hrest := ih (s := { s with
        next := s.next + 1, delivered := s.delivered ++ [blocks[s.next]?] })
      hin hlimit (by dsimp only; omega)
    have hadd : s.next + 1 + n = s.next + (n + 1) := by omega
    refine hrest.trans ?_
    rw [List.getElem?_eq_getElem hlt, List.drop_eq_getElem_cons hlt, List.take_succ_cons]
    simp [hadd]

/-! ## The reader refines it -/

variable {lens : BufferedReadLens} {F : BlockFile lens} {st : RangeReader} {s : RangeSpec}

namespace BlockFile

theorem offset_succ {k : ℕ} (hk : k < F.blocks.length) :
    F.offset (k + 1) = F.offset k + (F.blocks[k].length : ℤ) := by
  rw [offset, offset, List.take_succ_eq_append_getElem hk, List.flatten_append, List.length_append,
    List.flatten_singleton]
  push_cast
  rfl

theorem offset_le {j k : ℕ} (h : j ≤ k) : F.offset j ≤ F.offset k := by
  rw [offset, offset]
  have hpre : (F.blocks.take j).flatten <+: (F.blocks.take k).flatten :=
    ((List.take_prefix_take_left h).flatten)
  exact_mod_cast hpre.length_le

theorem offset_lt {j k : ℕ} (h : j < k) (hk : k ≤ F.blocks.length) : F.offset j < F.offset k := by
  have hj : j < F.blocks.length := by omega
  have hlen := F.headerLen_le_length _ (List.getElem_mem hj)
  have hpos := F.headerLen_pos
  calc F.offset j < F.offset (j + 1) := by rw [offset_succ hj]; omega
    _ ≤ F.offset k := offset_le h

theorem offset_length : F.offset F.blocks.length = F.bytes.length := by
  rw [offset, List.take_length, F.bytes_eq]

theorem isBoundary_offset {k : ℕ} (hk : k ≤ F.blocks.length) : F.IsBoundary (F.offset k) :=
  ⟨k, hk, rfl⟩

/-- No block ends within another. -/
theorem noEndWithin {k : ℕ} (hk : k < F.blocks.length) {n limit : ℤ} (hn : n ≤ F.blocks[k].length) :
    NoEndWithin F.IsBoundary limit (F.offset k) n := by
  intro e he hlt _
  obtain ⟨j, hj, rfl⟩ := he
  have hkj : k < j := by
    by_contra hjk
    exact absurd hlt (not_lt.mpr (offset_le (not_lt.mp hjk)))
  have hle := offset_le (F := F) (Nat.succ_le_of_lt hkj)
  rw [Nat.succ_eq_add_one, offset_succ hk] at hle
  omega

/-- The bytes from the beginning of a block on. -/
theorem slice_offset {k : ℕ} (hk : k < F.blocks.length) {n : ℤ} (hn : n ≤ F.blocks[k].length) :
    F.slice (F.offset k) n = F.blocks[k].take n.toNat := by
  have hsplit : F.bytes =
      (F.blocks.take k).flatten ++ (F.blocks[k] ++ (F.blocks.drop (k + 1)).flatten) := by
    rw [F.bytes_eq, ← List.flatten_cons, ← List.drop_eq_getElem_cons hk, ← List.flatten_append,
      List.take_append_drop]
  rw [ReadFile.slice, hsplit, offset, Int.toNat_natCast, List.drop_left,
    List.take_append_of_le_length (by omega)]

end BlockFile

/-- The reader has what the specification says, and stands where it says. -/
structure Refines (F : BlockFile lens) (st : RangeReader) (s : RangeSpec) : Prop where
  loaded : Loaded lens F.toReadFile F.IsBoundary st.buffered
  next_le : s.next ≤ s.limit
  limit_le : s.limit ≤ F.blocks.length
  limit : st.buffered.inEffectFileLen = F.offset s.limit
  delivered : st.delivered = s.delivered
  between : s.inBlock = false → st.header = none ∧ st.buffered.nextBufferPosition = F.offset s.next
  inBlock : s.inBlock = true → s.next < s.limit ∧
    st.header = some ⟨st.buffered.bufferOffset, F.headerLen⟩ ∧ st.buffered.bufferLen = F.headerLen ∧
    st.buffered.largeReadPosition + st.buffered.bufferOffset = F.offset s.next

theorem Refines.isBoundary_limit (h : Refines F st s) :
    F.IsBoundary st.buffered.inEffectFileLen := by
  rw [h.limit]
  exact F.isBoundary_offset h.limit_le

/-- The condition on a call: the range is honoured in the state before it. -/
def rangeOk (F : BlockFile lens) (st : RangeReader) : ReadAction → Prop
  | .setTemporaryRange first after => st.buffered.rangeHonoured (F.offset first) (F.offset after)
  | _ => True

theorem setTemporaryRange_refines (h : Refines F st s) {first after : ℕ}
    (hok : rangeOk F st (.setTemporaryRange first after)) :
    Option.Rel (Refines F) (F.readStep st (.setTemporaryRange first after))
      (rangeSpecStep F.blocks s (.setTemporaryRange first after)) := by
  rw [BlockFile.readStep, rangeSpecStep]
  by_cases hr : first ≤ after ∧ after ≤ F.blocks.length
  · rw [if_pos hr, if_pos hr]
    have hend : F.offset after ≤ F.bytes.length :=
      (BlockFile.offset_le hr.2).trans (le_of_eq BlockFile.offset_length)
    obtain ⟨st', hrun, hl, hpos, hlimit, -⟩ := setTemporaryRange_spec h.loaded
      (b := F.offset first) (Int.natCast_nonneg _) (BlockFile.offset_le hr.1) hend
      (F.isBoundary_offset hr.2) hok
    rw [hrun]
    exact Option.Rel.some ⟨hl, hr.1, hr.2, hlimit, rfl, fun _ => ⟨rfl, hpos⟩,
      fun hin => by cases hin⟩
  · rw [if_neg hr, if_neg hr]
    exact Option.Rel.none

theorem getHeader_refines (h : Refines F st s) :
    Option.Rel (Refines F) (F.readStep st .getHeader) (rangeSpecStep F.blocks s .getHeader) := by
  rw [BlockFile.readStep, rangeSpecStep]
  cases hin : s.inBlock with
  | true =>
    obtain ⟨-, hheader, -⟩ := h.inBlock hin
    rw [hheader, if_pos Option.isSome_some, if_pos rfl]
    exact Option.Rel.none
  | false =>
    obtain ⟨hheader, hpos⟩ := h.between hin
    have hbound := h.isBoundary_limit
    have hlimit := h.limit
    have hspec := getNextBuffer_spec (n := F.headerLen) h.loaded hbound F.headerLen_pos
      F.headerLen_le (by
        rw [hpos, hlimit]
        obtain hlt | heq := Nat.lt_or_eq_of_le h.next_le
        · exact BlockFile.noEndWithin (lt_of_lt_of_le hlt h.limit_le)
            (F.headerLen_le_length _ (List.getElem_mem _))
        · intro e _ h1 h2
          rw [heq] at h1
          exact absurd h2 (not_lt.mpr (le_of_lt h1)))
    rw [hheader, if_neg (by simp), if_neg (by simp)]
    rw [hpos, hlimit] at hspec
    obtain ⟨heq, st', hrun, hl, hpos', hforget⟩ | ⟨hlt, st', b, hrun, hd⟩ := hspec
    · have hat : s.next = s.limit := by
        by_contra hne
        have := BlockFile.offset_lt (lt_of_le_of_ne h.next_le hne) h.limit_le
        omega
      rw [if_pos hat, hrun]
      refine Option.Rel.some ⟨hl, h.next_le.trans h.limit_le, le_refl _, ?_, ?_, fun _ => ?_, ?_⟩
      · rw [inEffectFileLen, hforget, BlockFile.offset_length]
        exact hl.fileLen
      · dsimp only
        rw [h.delivered]
        simp
      · exact ⟨rfl, hpos'⟩
      · intro hin'
        cases hin'
    · have hne : s.next < s.limit := by
        by_contra hge
        have := BlockFile.offset_le (F := F) (not_lt.mp hge)
        omega
      have hk := lt_of_lt_of_le hne h.limit_le
      have hlen := F.headerLen_le_length _ (List.getElem_mem hk)
      have hnext := BlockFile.offset_le (F := F) (Nat.succ_le_of_lt hne)
      rw [Nat.succ_eq_add_one, BlockFile.offset_succ hk] at hnext
      have hmin : min F.headerLen (F.offset s.limit - F.offset s.next) = F.headerLen := by omega
      rw [hmin] at hd
      rw [if_neg (Nat.ne_of_lt hne), hrun]
      refine Option.Rel.some ⟨hd.loaded, h.next_le, h.limit_le, ?_, ?_, ?_, fun _ => ⟨hne, ?_⟩⟩
      · rw [inEffectFileLen, hd.temporary, hd.limit, hd.loaded.fileLen, ← h.loaded.fileLen]
        exact hlimit
      · dsimp only
        rw [h.delivered]
        simp
      · intro hin'
        cases hin'
      · refine ⟨?_, hd.bufferLen_eq, hd.pos_eq⟩
        rw [← hd.bufferLen_eq, ← hd.len_eq, ← hd.addr]

theorem getBlock_refines (h : Refines F st s) :
    Option.Rel (Refines F) (F.readStep st .getBlock) (rangeSpecStep F.blocks s .getBlock) := by
  rw [BlockFile.readStep, rangeSpecStep]
  cases hin : s.inBlock with
  | false =>
    rw [(h.between hin).1, if_neg (by simp)]
    exact Option.Rel.none
  | true =>
    obtain ⟨hlt, hheader, hlen, hpos⟩ := h.inBlock hin
    have hk := lt_of_lt_of_le hlt h.limit_le
    have hblk := List.getElem_mem hk
    have hheadlen := F.headerLen_le_length _ hblk
    have hhead0 := F.headerLen_pos
    -- The header was read right, so it tells the length of this block.
    have hbytes : bufferBytes st.buffered ⟨st.buffered.bufferOffset, F.headerLen⟩ =
        F.blocks[s.next].take F.headerLen.toNat := by
      have hd : Delivered lens F.toReadFile F.IsBoundary st.buffered st.buffered
          ⟨st.buffered.bufferOffset, F.headerLen⟩ (F.offset s.next) F.headerLen :=
        ⟨h.loaded, rfl, hlen.symm, hpos, hlen, rfl, rfl⟩
      rw [bufferBytes_eq hd]
      exact BlockFile.slice_offset hk hheadlen
    have hoverall : F.blockLen (bufferBytes st.buffered ⟨st.buffered.bufferOffset, F.headerLen⟩) =
        F.blocks[s.next].length := by
      rw [hbytes, F.blockLen_eq _ hblk]
    have hwhole : F.slice (F.offset s.next) F.blocks[s.next].length = F.blocks[s.next] := by
      rw [BlockFile.slice_offset hk (le_refl _), Int.toNat_natCast, List.take_length]
    have hnext := BlockFile.offset_succ (F := F) hk
    rw [hheader, if_pos rfl, Option.bind_some]
    dsimp only
    rw [hoverall]
    by_cases hlong : (F.blocks[s.next].length : ℤ) > F.headerLen
    · have hbound := h.isBoundary_limit
      obtain ⟨st', b, hrun, hd⟩ := growBuffer_spec (n := F.blocks[s.next].length) h.loaded hbound
        (by omega) (by omega) (F.length_le _ hblk) (by
          rw [hpos]
          exact BlockFile.noEndWithin hk (le_refl _))
      have hend := BlockFile.offset_le (F := F) (Nat.succ_le_of_lt hlt)
      rw [Nat.succ_eq_add_one] at hend
      have hmin : min (F.blocks[s.next].length : ℤ) (F.offset s.limit - F.offset s.next) =
          F.blocks[s.next].length := by omega
      rw [hpos, h.limit, hmin] at hd
      rw [if_pos hlong, hrun]
      refine Option.Rel.some ⟨hd.loaded, hlt, h.limit_le, ?_, ?_, fun _ => ⟨rfl, ?_⟩, ?_⟩
      · rw [inEffectFileLen, hd.temporary, hd.limit, hd.loaded.fileLen, ← h.loaded.fileLen]
        exact h.limit
      · dsimp only
        rw [h.delivered, bufferBytes_eq hd, hwhole, List.getElem?_eq_getElem hk]
      · rw [nextBufferPosition, hd.pos_eq, hd.bufferLen_eq]
        exact hnext.symm
      · intro hin'
        cases hin'
    · have heq : (F.blocks[s.next].length : ℤ) = F.headerLen := by omega
      rw [if_neg hlong]
      refine Option.Rel.some ⟨h.loaded, hlt, h.limit_le, h.limit, ?_, fun _ => ⟨rfl, ?_⟩, ?_⟩
      · dsimp only
        rw [h.delivered, hbytes, List.getElem?_eq_getElem hk, ← heq, Int.toNat_natCast,
          List.take_length]
      · dsimp only
        rw [nextBufferPosition, hpos, hlen, hnext, heq]
      · intro hin'
        cases hin'

theorem readStep_refines (h : Refines F st s) (a : ReadAction) (hok : rangeOk F st a) :
    Option.Rel (Refines F) (F.readStep st a) (rangeSpecStep F.blocks s a) := by
  cases a with
  | setTemporaryRange first after => exact setTemporaryRange_refines h hok
  | getHeader => exact getHeader_refines h
  | getBlock => exact getBlock_refines h

theorem openReader_refines : ∃ st, F.openReader = some st ∧
    Refines F st ⟨0, F.blocks.length, false, []⟩ := by
  have hstart : F.IsBoundary 0 := ⟨0, Nat.zero_le _, rfl⟩
  have hend : F.IsBoundary F.bytes.length := ⟨_, le_refl _, BlockFile.offset_length⟩
  obtain ⟨st, hrun, hl, hpos, hlimit, -⟩ := setFile_spec lens hstart hend
  refine ⟨⟨st, none, []⟩, by rw [BlockFile.openReader, hrun]; rfl, hl, Nat.zero_le _, le_refl _, ?_,
    rfl, fun _ => ⟨rfl, hpos⟩, fun hin => by cases hin⟩
  rw [hlimit, BlockFile.offset_length]

/-- **Temporary ranges.** From every state that is reached by reading blocks, asking for headers and
setting ranges that are honoured, a further range that is honoured is delivered: its blocks in
order, and then the null pointer. No large read has a negative length on the way. -/
theorem temporaryRange_delivers (F : BlockFile lens) : ∃ start, F.openReader = some start ∧
    ∀ as st, Along F.readStep (rangeOk F) start as → run F.readStep start as = some st →
      0 ≤ st.buffered.largeReadLen ∧
      ∀ first after, first ≤ after → after ≤ F.blocks.length →
        st.buffered.rangeHonoured (F.offset first) (F.offset after) →
        ∃ st', run F.readStep st
            (.setTemporaryRange first after :: BlockFile.readBlocks
              (after - first) ++ [.getHeader]) = some st' ∧
          st'.delivered = ((F.blocks.drop first).take (after - first)).map some ++ [none] := by
  obtain ⟨start, hstart, hr⟩ := openReader_refines (F := F)
  have hsteps : ∀ st s a, Refines F st s → rangeOk F st a → Option.Rel (Refines F)
      (F.readStep st a) (rangeSpecStep F.blocks s a) := fun st s a h => readStep_refines h a
  refine ⟨start, hstart, fun as st hok hrun => ?_⟩
  have hrel := run_rel hsteps hok hr
  rw [hrun] at hrel
  cases hs : run (rangeSpecStep F.blocks) ⟨0, F.blocks.length, false, []⟩ as with
  | none =>
    rw [hs] at hrel
    cases hrel
  | some s =>
    rw [hs] at hrel
    cases hrel with
    | some h =>
      refine ⟨h.loaded.len_nonneg, fun first after hle hlen hhon => ?_⟩
      have hok' : Along F.readStep (rangeOk F) st
          (.setTemporaryRange first after :: BlockFile.readBlocks
            (after - first) ++ [.getHeader]) := by
        refine ⟨hhon, fun st' _ => along_of_forall (fun a ha _ => ?_) st'⟩
        simp only [BlockFile.readBlocks, List.append_eq, List.mem_append, List.mem_flatten,
          List.mem_replicate, List.mem_singleton] at ha
        obtain ⟨l, ⟨-, rfl⟩, ha⟩ | rfl := ha
        · simp only [List.mem_cons, List.not_mem_nil, or_false] at ha
          obtain rfl | rfl := ha <;> trivial
        · trivial
      have hspec : run (rangeSpecStep F.blocks) s
          (.setTemporaryRange first after :: BlockFile.readBlocks (after - first) ++ [.getHeader]) =
          some ⟨after, F.blocks.length, false,
            ((F.blocks.drop first).take (after - first)).map some ++ [none]⟩ := by
        have hread : run (rangeSpecStep F.blocks) ⟨first, after, false, []⟩
            (BlockFile.readBlocks (after - first)) = _ :=
          run_readBlocks rfl hlen (by dsimp only; omega)
        have hset : rangeSpecStep F.blocks s (.setTemporaryRange first after) =
            some ⟨first, after, false, []⟩ := if_pos ⟨hle, hlen⟩
        have hat : first + (after - first) = after := by omega
        rw [List.cons_append, run_cons, hset, Option.bind_some, run_append, hread]
        simp [run_cons, run_nil, rangeSpecStep, hat]
      have hrel' := run_rel hsteps hok' h
      rw [hspec] at hrel'
      cases hrun' : run F.readStep st
          (.setTemporaryRange first after :: BlockFile.readBlocks
            (after - first) ++ [.getHeader]) with
      | none =>
        rw [hrun'] at hrel'
        cases hrel'
      | some st' =>
        rw [hrun'] at hrel'
        cases hrel' with
        | some h' => exact ⟨st', rfl, h'.delivered⟩

/-- Four blocks of two bytes, the first of which is the length, read in one large read. -/
def fourBlocks : BlockFile ⟨2, 8, by decide, by decide, by decide⟩ where
  bytes := [2, 10, 2, 11, 2, 12, 2, 13]
  actualLen pos n := min n (8 - pos)
  actualLen_le _ _ := le_refl _
  actualLen_pos _ _ hn hpos := lt_min hn (Nat.sub_pos_of_lt hpos)
  blocks := [[2, 10], [2, 11], [2, 12], [2, 13]]
  headerLen := 1
  blockLen header := (header.headD 0).toNat
  bytes_eq := rfl
  headerLen_pos := by decide
  headerLen_le := by decide
  headerLen_le_length := by decide
  length_le := by decide
  blockLen_eq := by decide

/-- **A range that is overrun.** The range of the first block delivers the second block too, then
the others, and the next large read has length -6. -/
theorem range_overrun : ∃ start st st', fourBlocks.openReader = some start ∧
    run fourBlocks.readStep start (.setTemporaryRange 0 1 :: BlockFile.readBlocks 2) = some st ∧
    st.delivered = [some [2, 10], some [2, 11]] ∧
    run fourBlocks.readStep start
      (.setTemporaryRange 0 1 :: BlockFile.readBlocks 4 ++ [.getHeader]) = some st' ∧
    st'.buffered.largeReadLen = -6 := by
  obtain ⟨start, hstart⟩ : ∃ start, fourBlocks.openReader = some start :=
    Option.isSome_iff_exists.mp (by decide +kernel)
  have hread : (fourBlocks.openReader.bind fun start => (run fourBlocks.readStep start
      (.setTemporaryRange 0 1 :: BlockFile.readBlocks 2)).map RangeReader.delivered) =
        some [some [2, 10], some [2, 11]] := by decide +kernel
  have hover : (fourBlocks.openReader.bind fun start => (run fourBlocks.readStep start
      (.setTemporaryRange 0 1 :: BlockFile.readBlocks 4 ++ [.getHeader])).map
        fun st => st.buffered.largeReadLen) = some (-6) := by decide +kernel
  rw [hstart, Option.bind_some, Option.map_eq_some_iff] at hread hover
  obtain ⟨st, hst, hdelivered⟩ := hread
  obtain ⟨st', hst', hlen⟩ := hover
  exact ⟨start, st, st', hstart, hst, hdelivered, hst', hlen⟩

end Hdb.AppendOnly

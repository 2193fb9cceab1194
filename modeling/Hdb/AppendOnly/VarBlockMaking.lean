import Hdb.AppendOnly.VarBlockLayout

/-!
# Making a VarBlock

`Made maker small items` says that the maker has the items `items`: they stand behind the header in
the buffer, and their offsets in the scratch space, with two bytes or with three. An item that is
accepted is one more of them, and one that is rejected changes nothing. The loop that widens the
offsets goes from the last one to the first, so that the offsets that it has still to move stand
before the place that it writes (`widen_spec`).

Main result: `varBlock_round_trip`.
-/

namespace Hdb.AppendOnly

open VarBlockHeader VarBlockMaker

/-! ## Integers -/

theorem roundUpEven_natCast {n : ℕ} (hn : n < 2 ^ 31 - 1) :
    roundUpEven n = ((n + 1) / 2 * 2 : ℕ) := by
  have hsucc : castInt32 ((n : ℤ) + 1) = n + 1 :=
    BufferedRead.castInt32_of_mem (by omega) (by omega)
  rw [roundUpEven, hsucc, Int.tdiv_eq_ediv_of_nonneg (by omega),
    BufferedRead.castInt32_of_mem (by omega) (by omega)]
  omega

theorem totalLen_natCast {n m : ℕ} (hn : n < 2 ^ 30 + 2 ^ 28) (hm : m ≤ 2 ^ 29) :
    totalLen n m = (8 + (n + 1) / 2 * 2 + m : ℕ) := by
  have hround := roundUpEven_natCast (show n < 2 ^ 31 - 1 by omega)
  rw [totalLen, hround, varBlockHeaderLen_eq, BufferedRead.castInt32_of_mem (by omega) (by omega)]
  omega

/-! ## Widening the offsets -/

/-- One offset is moved. The place that is written is not before the offsets that are left. -/
theorem widen_step (ns : List ℕ) (mid tail : List UInt8) {r : ℕ} (hr : r < ns.length)
    (hns : ns[r] < 2 ^ 16) (hmid : mid.length = r + 1) :
    ∃ mid' : List UInt8, mid'.length = r ∧
      writeAt (r * 3) (toLittleEndian 3 (ofLittleEndian (readAt (r * 2) 2
          (tableBytes 2 (ns.take (r + 1)) ++ mid ++ tableBytes 3 (ns.drop (r + 1)) ++ tail))))
        (tableBytes 2 (ns.take (r + 1)) ++ mid ++ tableBytes 3 (ns.drop (r + 1)) ++ tail) =
      tableBytes 2 (ns.take r) ++ mid' ++ tableBytes 3 (ns.drop r) ++ tail := by
  have htake : tableBytes 2 (ns.take (r + 1)) =
      tableBytes 2 (ns.take r) ++ toLittleEndian 2 ns[r] := by
    rw [List.take_succ_eq_append_getElem hr, tableBytes_append, tableBytes_singleton]
  have hdrop : tableBytes 3 (ns.drop r) =
      toLittleEndian 3 ns[r] ++ tableBytes 3 (ns.drop (r + 1)) := by
    rw [List.drop_eq_getElem_cons hr, ← tableBytes_singleton, ← tableBytes_append]
    rfl
  have hlen : (tableBytes 2 (ns.take r)).length = r * 2 := by
    rw [length_tableBytes, List.length_take, min_eq_left hr.le, Nat.mul_comm]
  have hread : readAt (r * 2) 2
      (tableBytes 2 (ns.take (r + 1)) ++ mid ++ tableBytes 3 (ns.drop (r + 1)) ++ tail) =
        toLittleEndian 2 ns[r] := by
    rw [htake, List.append_assoc _ (tableBytes 3 _), List.append_assoc _ mid]
    exact readAt_append _ _ _ hlen.symm (length_toLittleEndian 2 _).symm
  have hvalue : ofLittleEndian (toLittleEndian 2 ns[r]) = ns[r] := by
    rw [ofLittleEndian_toLittleEndian]
    exact Nat.mod_eq_of_lt hns
  -- The last three bytes before the ones that have been moved.
  have hgap : (toLittleEndian 2 ns[r] ++ mid).length = r + 3 := by
    rw [List.length_append, length_toLittleEndian, hmid]
    omega
  refine ⟨(toLittleEndian 2 ns[r] ++ mid).take r, by rw [List.length_take, hgap]; omega, ?_⟩
  have hsplit : tableBytes 2 (ns.take (r + 1)) ++ mid ++ tableBytes 3 (ns.drop (r + 1)) ++ tail =
      tableBytes 2 (ns.take r) ++ (toLittleEndian 2 ns[r] ++ mid).take r ++
        (toLittleEndian 2 ns[r] ++ mid).drop r ++ (tableBytes 3 (ns.drop (r + 1)) ++ tail) := by
    rw [htake, List.append_assoc _ (List.take _ _), List.take_append_drop]
    simp only [List.append_assoc]
  rw [hread, hvalue, hsplit, hdrop]
  rw [writeAt_append]
  · simp only [List.append_assoc]
  · rw [List.length_append, hlen, List.length_take, hgap, min_eq_left (by omega)]
    omega
  · rw [length_toLittleEndian, List.length_drop, hgap]
    omega

/-- **The loop that moves the offsets.** -/
theorem widen_spec (ns : List ℕ) (mid tail : List UInt8) {r : ℕ} (hr : r < ns.length)
    (hns : ∀ n ∈ ns, n < 2 ^ 16) (hmid : mid.length = r + 1) :
    widen r (tableBytes 2 (ns.take (r + 1)) ++ mid ++ tableBytes 3 (ns.drop (r + 1)) ++ tail) =
      tableBytes 3 ns ++ tail := by
  induction r generalizing mid with
  | zero =>
    obtain ⟨mid', hmid', hstep⟩ := widen_step ns mid tail hr (hns _ (List.getElem_mem hr)) hmid
    rw [List.eq_nil_of_length_eq_zero hmid'] at hstep
    exact hstep
  | succ r ih =>
    obtain ⟨mid', hmid', hstep⟩ := widen_step ns mid tail hr (hns _ (List.getElem_mem hr)) hmid
    rw [widen, hstep]
    exact ih mid' (Nat.lt_of_succ_lt hr) hmid'

/-! ## The maker -/

structure Made (maker : VarBlockMaker) (small : Bool) (items : List (List UInt8)) : Prop where
  buffer : ∃ rest, maker.buffer = headerBytes (headWord small) 0 ++ (items.flatten ++ rest)
  sum : maker.currentItemLenSum = items.flatten.length
  next : maker.nextItemOffset = 8 + items.flatten.length
  count : maker.currentItemCount = items.length
  scratch : ∃ rest, maker.tempScratchSpace =
    tableBytes (offsetWidth small) (offsetsOf 8 items) ++ rest
  maxItemCount : maker.maxItemCount = maker.tempScratchSpace.length / offsetWidth small
  len : blockLen small items ≤ maker.maxBufferLen
  room : maker.maxBufferLen ≤ maker.buffer.length
  offsets : small = true → ∀ n ∈ offsetsOf 8 items, n < 2 ^ 16

variable {maker maker' : VarBlockMaker} {small : Bool} {items : List (List UInt8)}
  {item : List UInt8} {place : ℕ}

theorem made_init (scratch : List UInt8) {buffer : List UInt8} {maxBufferLen : ℕ}
    (h8 : 8 ≤ maxBufferLen) (hbuffer : maxBufferLen ≤ buffer.length) :
    Made (.init buffer maxBufferLen scratch) true [] := by
  have hzero : writeAt 0 (List.replicate varBlockHeaderLen 0) buffer =
      headerBytes 0 0 ++ buffer.drop 8 :=
    writeAt_right [] buffer rfl (by rw [List.length_replicate, varBlockHeaderLen_eq]; omega)
  have hinit : VarBlockHeader.init buffer = headerBytes (headWord true) 0 ++ buffer.drop 8 := by
    rw [VarBlockHeader.init, hzero, setVersion, bytes03_headerBytes (by decide),
      setBytes03_headerBytes, setOffsetsAreSmall, bytes03_headerBytes (by decide),
      setBytes03_headerBytes]
    rfl
  refine ⟨⟨buffer.drop 8, hinit⟩, rfl, rfl, rfl, ⟨scratch, rfl⟩, rfl, h8, ?_, ?_⟩
  · rw [VarBlockMaker.init, hinit, List.length_append, length_headerBytes, List.length_drop]
    dsimp only
    omega
  · intro _ n hn
    cases hn

/-- The room for one item more. -/
theorem blockLen_concat (small : Bool) (items : List (List UInt8)) (item : List UInt8) :
    blockLen small (items ++ [item]) = 8 + (items.flatten.length + item.length + 1) / 2 * 2 +
      ((items.length + 1) * offsetWidth small + 1) / 2 * 2 := by
  rw [blockLen, List.flatten_append, List.flatten_singleton, List.length_append, List.length_append,
    List.length_singleton]

/-- What a maker has when the caller has filled in the item. -/
theorem Made.fill {small' : Bool} (h : Made maker small items)
    (hheader : ∃ rest, maker'.buffer = headerBytes (headWord small') 0 ++ (items.flatten ++ rest))
    (hlength : maker'.buffer.length = maker.buffer.length)
    (hmax : maker'.maxBufferLen = maker.maxBufferLen)
    (hsum : maker'.currentItemLenSum = items.flatten.length + item.length)
    (hnext : maker'.nextItemOffset = 8 + items.flatten.length + item.length)
    (hcount : maker'.currentItemCount = items.length + 1)
    (hscratch : ∃ rest, maker'.tempScratchSpace = tableBytes (offsetWidth small')
      (offsetsOf 8 items ++ [8 + items.flatten.length]) ++ rest)
    (hitems : maker'.maxItemCount = maker'.tempScratchSpace.length / offsetWidth small')
    (hlen : blockLen small' (items ++ [item]) ≤ maker.maxBufferLen)
    (hoffsets : small' = true → ∀ n ∈ offsetsOf 8 items ++ [8 + items.flatten.length], n < 2 ^ 16) :
    Made (maker'.fill (8 + items.flatten.length) item) small' (items ++ [item]) := by
  have hroom := h.room
  obtain ⟨rest, hrest⟩ := hheader
  have hle : item.length ≤ rest.length := by
    have hbuffer := congrArg List.length hrest
    rw [List.length_append, List.length_append, length_headerBytes] at hbuffer
    rw [blockLen_concat] at hlen
    omega
  have hfill : (maker'.fill (8 + items.flatten.length) item).buffer =
      headerBytes (headWord small') 0 ++ ((items ++ [item]).flatten ++ rest.drop item.length) := by
    rw [VarBlockMaker.fill, hrest, ← List.append_assoc, writeAt_right _ _ (by
      rw [List.length_append, length_headerBytes]) hle, List.flatten_append, List.flatten_singleton]
    simp only [List.append_assoc]
  have hflat : (items ++ [item]).flatten.length = items.flatten.length + item.length := by
    rw [List.flatten_append, List.flatten_singleton, List.length_append]
  constructor
  · exact ⟨_, hfill⟩
  · rw [hflat, Nat.cast_add]
    exact hsum
  · rw [hflat, ← Nat.add_assoc]
    exact hnext
  · rw [List.length_append, List.length_singleton]
    exact hcount
  · rw [offsetsOf_concat]
    exact hscratch
  · exact hitems
  · exact hlen.trans_eq hmax.symm
  · have hfilled : (maker'.fill (8 + items.flatten.length) item).buffer.length =
        maker'.buffer.length := by
      rw [hfill, hrest]
      simp only [List.length_append, List.length_drop, hflat]
      omega
    rw [hfilled, hlength]
    exact hmax.trans_le hroom
  · rw [offsetsOf_concat]
    exact hoffsets

/-- The scratch space with the offset of one item more. -/
theorem scratch_concat {w n : ℕ} {offs : List ℕ} {space rest : List UInt8}
    (hspace : space = tableBytes w offs ++ rest) (hroom : w * (offs.length + 1) ≤ space.length) :
    (∃ rest', writeAt (offs.length * w) (toLittleEndian w n) space =
      tableBytes w (offs ++ [n]) ++ rest') ∧
      (writeAt (offs.length * w) (toLittleEndian w n) space).length = space.length := by
  have hlen := congrArg List.length hspace
  rw [List.length_append, length_tableBytes] at hlen
  rw [Nat.mul_succ] at hroom
  refine ⟨⟨rest.drop w, ?_⟩, length_writeAt ?_⟩
  · rw [hspace, writeAt_right _ _ (by rw [length_tableBytes, Nat.mul_comm])
      (by rw [length_toLittleEndian]; omega), length_toLittleEndian, tableBytes_append,
      tableBytes_singleton]
  · rw [length_toLittleEndian, Nat.mul_comm]
    exact hroom

/-- The scratch space when its offsets have been widened. -/
theorem scratch_widen {offs : List ℕ} {space rest : List UInt8}
    (hspace : space = tableBytes 2 offs ++ rest) (hroom : 3 * (offs.length + 1) ≤ space.length)
    (hoffs : ∀ n ∈ offs, n < 2 ^ 16) :
    (∃ rest', widen offs.length space = tableBytes 3 offs ++ rest') ∧
      (widen offs.length space).length = space.length := by
  have hlen := congrArg List.length hspace
  rw [List.length_append, length_tableBytes] at hlen
  have htwo : (rest.take 2).length = 2 := by
    rw [List.length_take]
    omega
  -- What stands in the place of the next offset is moved too.
  have hjunk : toLittleEndian 2 (ofLittleEndian (rest.take 2)) = rest.take 2 := by
    have h := toLittleEndian_ofLittleEndian (rest.take 2)
    rwa [htwo] at h
  have hlt : ofLittleEndian (rest.take 2) < 2 ^ 16 := by
    have hlt := ofLittleEndian_lt (rest.take 2)
    rwa [htwo] at hlt
  have hmid : ((rest.drop 2).take (offs.length + 1)).length = offs.length + 1 := by
    rw [List.length_take, List.length_drop]
    omega
  have hlast : offs.length < (offs ++ [ofLittleEndian (rest.take 2)]).length := by simp
  have hspec := widen_spec (offs ++ [ofLittleEndian (rest.take 2)])
    ((rest.drop 2).take (offs.length + 1)) (rest.drop (offs.length + 3)) hlast
    (List.forall_mem_append.mpr ⟨hoffs, by simpa using hlt⟩) hmid
  have htake : (offs ++ [ofLittleEndian (rest.take 2)]).take (offs.length + 1) =
      offs ++ [ofLittleEndian (rest.take 2)] := List.take_of_length_le (by simp)
  have hdrop : (offs ++ [ofLittleEndian (rest.take 2)]).drop (offs.length + 1) = [] :=
    List.drop_eq_nil_of_le (by simp)
  rw [htake, hdrop, tableBytes_append, tableBytes_append, tableBytes_singleton,
    tableBytes_singleton, hjunk] at hspec
  have hall : tableBytes 2 offs ++ rest.take 2 ++ (rest.drop 2).take (offs.length + 1) ++
      tableBytes 3 [] ++ rest.drop (offs.length + 3) = space := by
    have hrest : (rest.drop 2).take (offs.length + 1) ++ rest.drop (offs.length + 3) =
        rest.drop 2 := by
      have hdrop : rest.drop (offs.length + 3) = (rest.drop 2).drop (offs.length + 1) := by
        rw [List.drop_drop]
        congr 1
        omega
      rw [hdrop, List.take_append_drop]
    rw [show tableBytes 3 [] = [] from rfl, List.append_nil, List.append_assoc _ _ (rest.drop _),
      hrest, List.append_assoc, List.take_append_drop, hspace]
  rw [hall] at hspec
  refine ⟨⟨toLittleEndian 3 (ofLittleEndian (rest.take 2)) ++ rest.drop (offs.length + 3), ?_⟩, ?_⟩
  · rw [hspec, List.append_assoc]
  · rw [hspec, List.length_append, List.length_append, length_tableBytes, length_toLittleEndian,
      List.length_drop]
    omega

theorem setOffsetsAreSmall_false (rest : List UInt8) :
    setOffsetsAreSmall false (headerBytes (headWord true) 0 ++ rest) =
      headerBytes (headWord false) 0 ++ rest := by
  rw [setOffsetsAreSmall, bytes03_headerBytes (by decide), setBytes03_headerBytes]
  rfl

/-- **A call for the next item.** It is rejected, or the item is one more of them. -/
theorem getNextItemPtr_spec (h : Made maker small items) (hmax : maker.maxBufferLen ≤ 2 ^ 28)
    (hitem : item.length < 2 ^ 30) :
    maker.getNextItemPtr item.length = none ∨
      ∃ maker' small', maker.getNextItemPtr item.length = some (8 + items.flatten.length, maker') ∧
        Made (maker'.fill (8 + items.flatten.length) item) small' (items ++ [item]) ∧
        maker'.maxBufferLen = maker.maxBufferLen := by
  obtain ⟨rest, hbuffer⟩ := h.buffer
  obtain ⟨spaceRest, hspace⟩ := h.scratch
  have hlen := h.len
  rw [blockLen] at hlen
  have hsmall : offsetsAreSmall maker.buffer = small := by
    rw [hbuffer, offsetsAreSmall_headWord]
  have hsum : castInt32 (maker.currentItemLenSum + item.length) =
      ((items.flatten.length + item.length : ℕ) : ℤ) := by
    rw [h.sum, BufferedRead.castInt32_of_mem (by omega) (by omega), Nat.cast_add]
  have hcount : items.length ≤ 2 ^ 27 := by
    cases small with
    | true =>
      rw [offsetWidth, if_pos rfl] at hlen
      omega
    | false =>
      rw [offsetWidth, if_neg Bool.false_ne_true] at hlen
      omega
  have hround : roundUpEven (castInt32 ((maker.currentItemCount + 1 : ℤ) * 3)) =
      (((items.length + 1) * 3 + 1) / 2 * 2 : ℕ) := by
    have hcast : castInt32 ((maker.currentItemCount + 1 : ℤ) * 3) =
        ((items.length + 1) * 3 : ℕ) := by
      rw [h.count, BufferedRead.castInt32_of_mem (by omega) (by omega)]
      omega
    rw [hcast, roundUpEven_natCast (by omega)]
  have hlarge : totalLen ((items.flatten.length + item.length : ℕ) : ℤ)
      ((((items.length + 1) * 3 + 1) / 2 * 2 : ℕ) : ℤ) = blockLen false (items ++ [item]) := by
    rw [totalLen_natCast (by omega) (by omega), blockLen_concat, offsetWidth,
      if_neg Bool.false_ne_true]
  have htwo : totalLen ((items.flatten.length + item.length : ℕ) : ℤ)
      ((maker.currentItemCount : ℤ) * 2 + 2) = blockLen true (items ++ [item]) := by
    have hcast : (maker.currentItemCount : ℤ) * 2 + 2 = (items.length * 2 + 2 : ℕ) := by
      rw [h.count]
      omega
    rw [hcast, totalLen_natCast (by omega) (by omega), blockLen_concat, offsetWidth, if_pos rfl]
    omega
  rw [getNextItemPtr]
  simp only [hsmall, hsum, hround, hlarge, htwo, h.next, Nat.cast_lt]
  by_cases hfull : maker.currentItemCount ≥ maker.maxItemCount
  · exact Or.inl (if_pos hfull)
  have hroom : offsetWidth small * ((offsetsOf 8 items).length + 1) ≤
      maker.tempScratchSpace.length := by
    rw [length_offsetsOf, ← h.count]
    have hlt := Nat.lt_of_not_le hfull
    rw [h.maxItemCount] at hlt
    exact (Nat.mul_le_mul_left _ hlt).trans (Nat.mul_div_le _ _)
  have hcountOf : maker.currentItemCount = (offsetsOf 8 items).length := by
    rw [length_offsetsOf, h.count]
  rw [if_neg hfull, hcountOf]
  cases small with
  | true =>
    simp only [if_true]
    by_cases hswitch : 8 + items.flatten.length > 63 * 1024
    · -- The offsets get three bytes.
      rw [if_pos hswitch]
      by_cases hlong : maker.maxBufferLen < blockLen false (items ++ [item])
      · exact Or.inl (if_pos hlong)
      rw [if_neg hlong]
      by_cases hfull3 : (offsetsOf 8 items).length ≥ maker.tempScratchSpace.length / 3
      · exact Or.inl (if_pos hfull3)
      rw [if_neg hfull3]
      have hroom3 : 3 * ((offsetsOf 8 items).length + 1) ≤ maker.tempScratchSpace.length := by omega
      obtain ⟨⟨rest', hwide⟩, hwideLen⟩ := scratch_widen hspace hroom3 (h.offsets rfl)
      obtain ⟨hspace', hspaceLen⟩ := scratch_concat (n := 8 + items.flatten.length) hwide
        (by rw [hwideLen]; exact hroom3)
      have hheader := setOffsetsAreSmall_false (items.flatten ++ rest)
      rw [← show maker.buffer = headerBytes (headWord true) 0 ++ (items.flatten ++ rest)
        from hbuffer] at hheader
      refine Or.inr ⟨_, false, rfl, h.fill ⟨rest, hheader⟩ ?_ rfl ?_ rfl ?_ hspace' ?_
        (Nat.le_of_not_lt hlong) (fun hsmall => absurd hsmall Bool.false_ne_true), rfl⟩
      · rw [hheader, hbuffer]
        simp only [List.length_append, length_headerBytes]
      · exact Nat.cast_add _ _
      · rw [length_offsetsOf]
      · rw [hspaceLen, hwideLen, offsetWidth, if_neg Bool.false_ne_true]
    · rw [if_neg hswitch]
      by_cases hlong : maker.maxBufferLen < blockLen true (items ++ [item])
      · exact Or.inl (if_pos hlong)
      rw [if_neg hlong]
      obtain ⟨hspace', hspaceLen⟩ := scratch_concat (n := 8 + items.flatten.length) hspace hroom
      refine Or.inr ⟨_, true, rfl, h.fill ⟨rest, hbuffer⟩ rfl rfl ?_ rfl ?_ hspace' ?_
        (Nat.le_of_not_lt hlong) fun _ => ?_, rfl⟩
      · exact Nat.cast_add _ _
      · rw [length_offsetsOf]
      · rw [h.maxItemCount]
        exact congrArg (· / _) hspaceLen.symm
      · exact List.forall_mem_append.mpr ⟨h.offsets rfl, by simp only [List.mem_singleton]; omega⟩
  | false =>
    simp only [Bool.false_eq_true, if_false]
    by_cases hlong : maker.maxBufferLen < blockLen false (items ++ [item])
    · exact Or.inl (if_pos hlong)
    rw [if_neg hlong]
    obtain ⟨hspace', hspaceLen⟩ := scratch_concat (n := 8 + items.flatten.length) hspace hroom
    refine Or.inr ⟨_, false, rfl, h.fill ⟨rest, hbuffer⟩ rfl rfl ?_ rfl ?_ hspace' ?_
      (Nat.le_of_not_lt hlong) (fun hsmall => absurd hsmall Bool.false_ne_true), rfl⟩
    · exact Nat.cast_add _ _
    · rw [length_offsetsOf]
    · rw [h.maxItemCount]
      exact congrArg (· / _) hspaceLen.symm

/-! ## Finishing -/

theorem setItemLenSum_headerBytes (small : Bool) (e v : ℕ) (rest : List UInt8) :
    setItemLenSum e (headerBytes (headWord small) v ++ rest) =
      headerBytes (headWord small + e % 2 ^ 24) v ++ rest := by
  have hword : headWord small &&& 0xFF000000 ||| 0x00FFFFFF &&& e =
      headWord small + e % 2 ^ 24 := by
    have hlt : e % 2 ^ 24 < 2 ^ 24 := Nat.mod_lt _ (Nat.two_pow_pos 24)
    rw [Nat.and_comm 0x00FFFFFF, show 0x00FFFFFF = 2 ^ 24 - 1 from rfl,
      Nat.and_two_pow_sub_one_eq_mod]
    cases small with
    | true => exact (Nat.two_pow_add_eq_or_of_lt hlt 0x81).symm
    | false => exact (Nat.two_pow_add_eq_or_of_lt hlt 0x01).symm
  have hlt : headWord small < 2 ^ 32 := headWord_lt small (Nat.two_pow_pos 24)
  rw [setItemLenSum, bytes03_headerBytes hlt, setBytes03_headerBytes, hword]

theorem setItemCount_headerBytes (w e : ℕ) (rest : List UInt8) :
    setItemCount e (headerBytes w 0 ++ rest) = headerBytes w (e % 2 ^ 24) ++ rest := by
  rw [setItemCount, bytes47_headerBytes (Nat.two_pow_pos 32), setBytes47_headerBytes, Nat.zero_and,
    Nat.zero_or, Nat.and_comm, show 0x00FFFFFF = 2 ^ 24 - 1 from rfl,
    Nat.and_two_pow_sub_one_eq_mod]

/-- Room for three parts. -/
theorem exists_parts (rest : List UInt8) (a b c : ℕ) (h : a + b + c ≤ rest.length) :
    ∃ r₁ r₂ r₃ r₄, rest = r₁ ++ r₂ ++ r₃ ++ r₄ ∧ r₁.length = a ∧ r₂.length = b ∧ r₃.length = c := by
  refine ⟨rest.take a, (rest.drop a).take b, ((rest.drop a).drop b).take c,
    ((rest.drop a).drop b).drop c, ?_, ?_, ?_, ?_⟩
  · rw [List.append_assoc, List.take_append_drop, List.append_assoc, List.take_append_drop,
      List.take_append_drop]
  · rw [List.length_take]
    omega
  · rw [List.length_take, List.length_drop]
    omega
  · rw [List.length_take, List.length_drop, List.length_drop]
    omega

/-- **Finishing.** The buffer starts with the block. -/
theorem finish_made (h : Made maker small items) (hmax : maker.maxBufferLen ≤ 2 ^ 28) :
    maker.finish.1 = blockLen small items ∧
      maker.finish.2.take (blockLen small items) = blockBytes small items := by
  obtain ⟨rest, hbuffer⟩ := h.buffer
  obtain ⟨spaceRest, hspace⟩ := h.scratch
  have hlen := h.len
  have hroom := h.room
  rw [blockLen] at hlen
  have hrest := congrArg List.length hbuffer
  rw [List.length_append, List.length_append, length_headerBytes] at hrest
  obtain ⟨r₁, r₂, r₃, r₄, rfl, hr₁, hr₂, hr₃⟩ := exists_parts rest
    ((items.flatten.length + 1) / 2 * 2 - items.flatten.length) (items.length * offsetWidth small)
    ((items.length * offsetWidth small + 1) / 2 * 2 - items.length * offsetWidth small) (by omega)
  have hround : (roundUpEven maker.currentItemLenSum).toNat =
      (items.flatten.length + 1) / 2 * 2 := by
    rw [h.sum, roundUpEven_natCast (by omega), Int.toNat_natCast]
  have hsum : maker.currentItemLenSum.toNat = items.flatten.length := by
    rw [h.sum, Int.toNat_natCast]
  have hmult : multiplier maker.buffer = offsetWidth small := by
    rw [multiplier, hbuffer, offsetsAreSmall_headWord, offsetWidth]
  have htable : maker.tempScratchSpace.take (items.length * offsetWidth small) =
      tableBytes (offsetWidth small) (offsetsOf 8 items) := by
    rw [hspace, List.take_left' (by rw [length_tableBytes, length_offsetsOf, Nat.mul_comm])]
  rw [finish]
  simp only [h.count, hround, hsum, hmult, htable, varBlockHeaderLen_eq]
  refine ⟨rfl, ?_⟩
  -- The offsets, the zeros behind the items, the header, and the zeros behind the offsets.
  have hoffsets : writeAt (8 + (items.flatten.length + 1) / 2 * 2)
      (tableBytes (offsetWidth small) (offsetsOf 8 items)) maker.buffer =
        headerBytes (headWord small) 0 ++ (items.flatten ++ r₁ ++
          tableBytes (offsetWidth small) (offsetsOf 8 items) ++ (r₃ ++ r₄)) := by
    rw [hbuffer]
    have hsplit : headerBytes (headWord small) 0 ++ (items.flatten ++ (r₁ ++ r₂ ++ r₃ ++ r₄)) =
        headerBytes (headWord small) 0 ++ items.flatten ++ r₁ ++ r₂ ++ (r₃ ++ r₄) := by
      simp only [List.append_assoc]
    rw [hsplit, writeAt_append]
    · simp only [List.append_assoc]
    · rw [List.length_append, List.length_append, length_headerBytes, hr₁]
      omega
    · rw [length_tableBytes, length_offsetsOf, hr₂, Nat.mul_comm]
  have hitemPad : ∀ bytes, writeAt (8 + items.flatten.length)
      (List.replicate (8 + (items.flatten.length + 1) / 2 * 2 - (8 + items.flatten.length)) 0)
      (headerBytes (headWord small) 0 ++ (items.flatten ++ r₁ ++ bytes)) =
        headerBytes (headWord small)
        0 ++ (items.flatten ++ evenPad items.flatten.length ++ bytes) := by
    intro bytes
    rw [← List.append_assoc, ← List.append_assoc, writeAt_append]
    · rw [evenPad, Nat.add_sub_add_left]
      simp only [List.append_assoc]
    · rw [List.length_append, length_headerBytes]
    · rw [List.length_replicate, hr₁]
      omega
  rw [hoffsets, List.append_assoc (items.flatten ++ r₁), hitemPad, setItemLenSum_headerBytes,
    setItemCount_headerBytes]
  generalize hw : headWord small + items.flatten.length % 2 ^ 24 = w
  generalize hv : items.length % 2 ^ 24 = v
  have hlenPad : items.flatten.length + (evenPad items.flatten.length).length =
      (items.flatten.length + 1) / 2 * 2 := by
    rw [length_evenPad]
    omega
  have hsplit : headerBytes w v ++ (items.flatten ++ evenPad items.flatten.length ++
      (tableBytes (offsetWidth small) (offsetsOf 8 items) ++ (r₃ ++ r₄))) =
        headerBytes w v ++ items.flatten ++ evenPad items.flatten.length ++
          tableBytes (offsetWidth small) (offsetsOf 8 items) ++ r₃ ++ r₄ := by
    simp only [List.append_assoc]
  have hblock : headerBytes w v ++ items.flatten ++ evenPad items.flatten.length ++
      tableBytes (offsetWidth small) (offsetsOf 8 items) ++
        evenPad (items.length * offsetWidth small) = blockBytes small items := by
    rw [blockBytes, blockBody, hw, hv]
    simp only [List.append_assoc]
  rw [hsplit, writeAt_append]
  · show List.take _ (_ ++ evenPad (items.length * offsetWidth small) ++ r₄) = _
    rw [hblock, List.take_left' (length_blockBytes small items)]
  · simp only [List.length_append, length_headerBytes, length_tableBytes, length_offsetsOf]
    rw [Nat.mul_comm (offsetWidth small)]
    omega
  · rw [List.length_replicate, hr₃]

/-! ## The round trip -/

theorem fillAll_spec (items₀ requests : List (List UInt8)) (h : Made maker small items₀)
    (hmax : maker.maxBufferLen ≤ 2 ^ 28) (hrequests : ∀ item ∈ requests, item.length < 2 ^ 30) :
    ∃ small', Made (fillAll requests maker).1 small' (items₀ ++ (fillAll requests maker).2) ∧
      (fillAll requests maker).1.maxBufferLen = maker.maxBufferLen := by
  induction requests generalizing maker small items₀ with
  | nil => exact ⟨small, by rwa [fillAll, List.append_nil], rfl⟩
  | cons item requests ih =>
    have hrest : ∀ item ∈ requests, item.length < 2 ^ 30 :=
      fun item hitem => hrequests item (List.mem_cons_of_mem _ hitem)
    rw [fillAll]
    obtain hnext | ⟨maker', small', hnext, h', hmax'⟩ :=
      getNextItemPtr_spec h hmax (hrequests item List.mem_cons_self)
    · rw [hnext]
      exact ih items₀ h hmax hrest
    · rw [hnext]
      obtain ⟨small'', hmade, hlen⟩ := ih _ h' (hmax'.trans_le hmax) hrest
      refine ⟨small'', ?_, hlen.trans hmax'⟩
      rwa [List.append_assoc, List.singleton_append] at hmade

/-- What the requests give when they have been filled in: a block that is accepted, and read back in
both ways. -/
def RoundTrips (buffer : List UInt8) (maxBufferLen : ℕ) (scratch : List UInt8)
    (requests : List (List UInt8)) : Prop :=
  let r := fillAll requests (.init buffer maxBufferLen scratch)
  let block := r.1.finish.2.take r.1.finish.1
  r.1.finish.1 ≤ maxBufferLen ∧ varBlockLenFromHeader block = r.1.finish.1 ∧
    varBlockIsValid block = .ok ∧
    ((VarBlockReader.init block).getItemPtrs (r.2.length + 1)).map (itemAt block) = r.2 ∧
    ∀ i (hi : i < r.2.length), itemAt block ((VarBlockReader.init block).getItemPtr i) = r.2[i]

/-- In a buffer of 16 MB the fields of the header have room for what is accepted. -/
theorem fits_of_blockLen (hlen : blockLen small items ≤ 2 ^ 24)
    (hoffsets : small = true → ∀ n ∈ offsetsOf 8 items, n < 2 ^ 16) : Fits small items := by
  rw [blockLen] at hlen
  have hcount : items.length ≤ items.length * offsetWidth small := by
    refine Nat.le_mul_of_pos_right _ ?_
    rw [offsetWidth]
    split_ifs <;> omega
  refine ⟨by omega, by omega, fun i hi => ?_⟩
  cases small with
  | true =>
    rw [← getElem_offsetsOf 8 items ((length_offsetsOf 8 items).symm ▸ hi)]
    exact hoffsets rfl _ (List.getElem_mem _)
  | false =>
    have hle := length_flatten_take_le items i
    rw [offsetWidth, if_neg Bool.false_ne_true] at hlen ⊢
    omega

/-- **The round trip.** -/
theorem varBlock_round_trip (buffer : List UInt8) (maxBufferLen : ℕ) (h8 : 8 ≤ maxBufferLen)
    (hmax : maxBufferLen ≤ 2 ^ 24) (hbuffer : maxBufferLen ≤ buffer.length) (scratch : List UInt8)
    (requests : List (List UInt8)) (hrequests : ∀ item ∈ requests, item.length < 2 ^ 30) :
    RoundTrips buffer maxBufferLen scratch requests := by
  obtain ⟨small, hmade, hlen⟩ := fillAll_spec [] requests
    (made_init scratch h8 hbuffer) (show maxBufferLen ≤ 2 ^ 28 by omega) hrequests
  rw [List.nil_append] at hmade
  have hmax' : (fillAll requests (.init buffer maxBufferLen scratch)).1.maxBufferLen =
    maxBufferLen := hlen
  have hblockLen := hmade.len
  rw [hmax'] at hblockLen
  have hfits := fits_of_blockLen (hblockLen.trans hmax) hmade.offsets
  obtain ⟨hfst, hblock⟩ := finish_made hmade (by omega)
  rw [RoundTrips]
  simp only [hfst, hblock]
  exact ⟨hblockLen, varBlockLenFromHeader_blockBytes hfits, varBlockIsValid_blockBytes hfits,
    getItemPtrs_blockBytes hfits, fun i hi => itemAt_blockBytes hfits hi⟩

/-- An empty maker with a scratch space for one offset takes an item that fits the buffer. -/
theorem getNextItemPtr_init {buffer item : List UInt8} {maxBufferLen : ℕ}
    (hlen : 12 + item.length ≤ maxBufferLen) (hmax : maxBufferLen ≤ 2 ^ 28)
    (hbuffer : maxBufferLen ≤ buffer.length) :
    getNextItemPtr item.length (.init buffer maxBufferLen [0, 0]) ≠ none := by
  have hmade := made_init [0, 0] (show 8 ≤ maxBufferLen by omega) hbuffer
  obtain ⟨rest, hrest⟩ := hmade.buffer
  generalize hmaker : VarBlockMaker.init buffer maxBufferLen [0, 0] = maker at *
  have hsmall : offsetsAreSmall maker.buffer = true := by
    rw [hrest, offsetsAreSmall_headWord]
  have hcount : maker.currentItemCount = 0 := hmade.count
  have hspace : ¬ maker.currentItemCount ≥ maker.maxItemCount := by
    rw [← hmaker]
    exact Nat.not_succ_le_zero 0
  have hplace : ¬ maker.nextItemOffset > 63 * 1024 := by
    rw [hmade.next, List.flatten_nil, List.length_nil]
    omega
  have hcap : maker.maxBufferLen = maxBufferLen := by rw [← hmaker, VarBlockMaker.init]
  have htotal : ¬ totalLen (castInt32 (maker.currentItemLenSum + item.length))
      ((maker.currentItemCount : ℤ) * 2 + 2) > maker.maxBufferLen := by
    have hsum : castInt32 (maker.currentItemLenSum + item.length) = (item.length : ℤ) := by
      rw [hmade.sum, List.flatten_nil, List.length_nil, Nat.cast_zero, zero_add,
        BufferedRead.castInt32_of_mem (by omega) (by omega)]
    have htwo : ((0 : ℕ) : ℤ) * 2 + 2 = (2 : ℕ) := rfl
    rw [hsum, hcount, htwo, totalLen_natCast (by omega) (by omega), hcap]
    omega
  rw [getNextItemPtr]
  simp only [hsmall, if_true]
  rw [if_neg hspace, if_neg hplace, if_neg htotal]
  exact Option.some_ne_none _

/-- An item of 16 MB: its length does not fit the header. -/
theorem varBlock_round_trip_too_long :
    ¬ ∀ (buffer : List UInt8) (maxBufferLen : ℕ), 8 ≤ maxBufferLen → maxBufferLen ≤ buffer.length →
      ∀ (scratch : List UInt8) (requests : List (List UInt8)),
        RoundTrips buffer maxBufferLen scratch requests := by
  intro h
  obtain ⟨item, hitem⟩ : ∃ item : List UInt8, item.length = 2 ^ 24 :=
    ⟨List.replicate _ 0, List.length_replicate⟩
  obtain ⟨buffer, hbuffer⟩ : ∃ buffer : List UInt8, buffer.length = 2 ^ 25 :=
    ⟨List.replicate _ 0, List.length_replicate⟩
  have hmade := made_init [0, 0] (show 8 ≤ 2 ^ 25 by omega) hbuffer.ge
  obtain hnext | ⟨maker', small', hnext, hmade', hmax⟩ :=
    getNextItemPtr_spec hmade (show 2 ^ 25 ≤ 2 ^ 28 by omega) (show item.length < 2 ^ 30 by omega)
  · exact getNextItemPtr_init (by omega) (by omega) hbuffer.ge hnext
  obtain ⟨hfst, hblock⟩ := finish_made hmade' (hmax.trans_le (show 2 ^ 25 ≤ 2 ^ 28 by omega))
  obtain ⟨-, hlen, -⟩ := h buffer (2 ^ 25) (by omega) hbuffer.ge [0, 0] [item]
  have hfill : fillAll [item] (.init buffer (2 ^ 25) [0, 0]) =
      (maker'.fill (8 + ([] : List (List UInt8)).flatten.length) item, [item]) := by
    rw [fillAll, hnext]
    rfl
  rw [hfill] at hlen
  rw [List.nil_append] at hfst hblock
  simp only [hfst, hblock] at hlen
  have hsum : itemLenSum (blockBytes small' [item]) = 0 := by
    rw [blockBytes, itemLenSum_headerBytes small' (Nat.mod_lt _ (Nat.two_pow_pos 24)),
      List.flatten_singleton, hitem, Nat.mod_self]
  have hcount : itemCount (blockBytes small' [item]) = 1 := by
    rw [blockBytes, itemCount_headerBytes (Nat.mod_lt _ (Nat.two_pow_pos 24))]
    rfl
  have hmult : multiplier (blockBytes small' [item]) = offsetWidth small' := by
    rw [blockBytes, multiplier_headerBytes small' (Nat.mod_lt _ (Nat.two_pow_pos 24))]
  rw [varBlockLenFromHeader, offsetToOffsetArray, hsum, hcount, hmult, blockLen,
    List.flatten_singleton, hitem, List.length_singleton, varBlockHeaderLen_eq] at hlen
  omega

theorem varBlock_round_trip_three_items :
    RoundTrips (List.replicate 40 7) 24 [9, 9, 9, 9, 9, 9]
      [[1, 2, 3], [], [4, 5, 6, 7, 8, 9], [10]] :=
  varBlock_round_trip _ 24 (by decide) (by decide) (by decide) _ _ (by decide)

end Hdb.AppendOnly

import Hdb.Dtx.ContextInfo
import Hdb.Lib.Returns

/-!
# The context arrives as it was sent

A structure that is read into keeps an invariant that says what it has allocated (`WellFormed`), and
a context the dispatcher creates has nothing in the parts it does not send (`Sendable`). From the
two a message, or a copy, makes the target agree with its source whatever came before.

Main results: `deserialize_spec`, `copy_spec`, and `contexts_round_trip` for every run.
-/

namespace Hdb.DtxContext

/-! ## Words -/

@[simp] theorem length_word (w : UInt32) : (word w).length = 4 := length_toLittleEndian 4 _

theorem wordAt_eq {buf : ℕ → UInt8} {off : ℕ} {w : UInt32} (h : HoldsAt buf off (word w)) :
    wordAt buf off = w := by
  have hlt : w.toNat < 256 ^ 4 := w.toNat_lt
  rw [wordAt, HoldsAt.ofLittleEndian h, Nat.mod_eq_of_lt hlt, UInt32.ofNat_toNat]

theorem length_flatMap_word (ws : List UInt32) : (ws.flatMap word).length = 4 * ws.length := by
  induction ws with
  | nil => rfl
  | cons w ws ih =>
    rw [List.flatMap_cons, List.length_append, ih, length_word, List.length_cons]
    omega

/-- Words held one behind the other are read back one by one. -/
theorem wordsAt_eq {buf : ℕ → UInt8} {off : ℕ} {ws : List UInt32}
    (h : HoldsAt buf off (ws.flatMap word)) :
    (List.range ws.length).map (fun i => wordAt buf (off + 4 * i)) = ws := by
  induction ws generalizing off with
  | nil => rfl
  | cons w ws ih =>
    rw [List.flatMap_cons, holdsAt_append, length_word] at h
    rw [List.length_cons, List.range_succ_eq_map, List.map_cons, List.map_map]
    refine congrArg₂ List.cons (wordAt_eq h.1) ?_
    rw [← ih h.2, List.length_map, List.length_range]
    refine List.map_congr_left fun i _ => ?_
    rw [Function.comp_apply]
    congr 1
    omega

/-- An `int` that does not overflow. -/
theorem bmod_of_int {x : ℤ} (h₀ : 0 ≤ x) (h : x < 2 ^ 31) : x.bmod (2 ^ 32) = x := by
  have hmod : x % (2 ^ 32 : ℕ) = x := Int.emod_eq_of_lt h₀ (h.trans (by decide))
  rw [Int.bmod_eq_emod_of_lt, hmod]
  rw [hmod]
  exact h.trans_le (by decide)

theorem intOf_intWord {x : ℤ} (h₀ : 0 ≤ x) (h : x < 2 ^ 31) : intOf (intWord x) = x := by
  have hlt : x < 2 ^ 32 := h.trans (by decide)
  have hsize : x.toNat < UInt32.size := by
    rw [Int.toNat_lt h₀]
    exact hlt.trans_eq (by norm_num [UInt32.size])
  have hnat : (intWord x).toNat = x.toNat := by
    rw [intWord, Int.emod_eq_of_lt h₀ hlt]
    exact UInt32.toNat_ofNat_of_lt' hsize
  have hcast : ((intWord x).toNat : ℤ) = x := by rw [hnat, Int.toNat_of_nonneg h₀]
  calc intOf (intWord x) = x.bmod (2 ^ 32) := congrArg (fun y : ℤ => y.bmod (2 ^ 32)) hcast
    _ = x := bmod_of_int h₀ h

/-! ## The distributed snapshot -/

namespace DistributedSnapshot

/-- `count` and `maxCount` fit what is allocated. -/
structure WellFormed (ds : DistributedSnapshot) : Prop where
  maxCount_eq : ds.maxCount = (ds.inProgressXidArray.getD []).length
  maxCount_pos : ds.inProgressXidArray.isSome → 0 < ds.maxCount
  count_nonneg : 0 ≤ ds.count
  count_le : ds.count ≤ ds.maxCount

/-- A snapshot that can be read from: its entries are there, and as few as a snapshot may have. -/
structure Readable (ds : DistributedSnapshot) : Prop where
  count_nonneg : 0 ≤ ds.count
  count_le : ds.count ≤ maxBackends
  entries : ds.count ≤ (ds.inProgressXidArray.getD []).length

/-- The two say the same. What is allocated is not part of it. -/
structure Agrees (target source : DistributedSnapshot) : Prop where
  distribTransactionTimeStamp :
    target.distribTransactionTimeStamp = source.distribTransactionTimeStamp
  xminAllDistributedSnapshots :
    target.xminAllDistributedSnapshots = source.xminAllDistributedSnapshots
  distribSnapshotId : target.distribSnapshotId = source.distribSnapshotId
  xmin : target.xmin = source.xmin
  xmax : target.xmax = source.xmax
  count : target.count = source.count
  xip : target.xip = source.xip

variable {ds target source : DistributedSnapshot} {fresh : ℕ → UInt32}

theorem WellFormed.cleared (h : ds.WellFormed) : ds.cleared.WellFormed where
  maxCount_eq := h.maxCount_eq
  maxCount_pos := h.maxCount_pos
  count_nonneg := le_refl 0
  count_le := h.count_nonneg.trans h.count_le

theorem WellFormed.reset (h : ds.WellFormed) : ds.reset = .ok ds.cleared :=
  if_neg (not_lt.mpr (h.count_nonneg.trans h.count_le))

theorem agrees_cleared (ds ds' : DistributedSnapshot) : ds.cleared.Agrees ds'.cleared :=
  ⟨rfl, rfl, rfl, rfl, rfl, rfl, by simp [xip, DistributedSnapshot.cleared]⟩

theorem Readable.length_xip (h : source.Readable) : (source.xip.length : ℤ) = source.count := by
  have hnonneg := h.count_nonneg
  have hentries := h.entries
  rw [xip, List.length_take]
  omega

/-- The allocated array has room for `count` entries, and nothing else changes. -/
theorem allocate_none {count : ℤ} (h₀ : 0 ≤ count) (hle : count ≤ maxBackends)
    (hds : ds.inProgressXidArray = none) (fresh : ℕ → UInt32) :
    ∃ arr : List UInt32, 0 < arr.length ∧ count ≤ arr.length ∧ ds.allocate fresh count =
      .ok { ds with maxCount := arr.length, inProgressXidArray := some arr } := by
  have hbmod : (count + extraXidArrayHeadroom).bmod (2 ^ 32) = count + 10 := by
    unfold extraXidArrayHeadroom
    unfold maxBackends at hle
    exact bmod_of_int (by omega) (by omega)
  have hlen : (((List.range (count + 10).toNat).map fresh).length : ℤ) = count + 10 := by
    rw [List.length_map, List.length_range]
    omega
  refine ⟨(List.range (count + 10).toNat).map fresh, by omega, by omega, ?_⟩
  rw [hlen, allocate, hds, if_neg (Bool.not_eq_true _ ▸ rfl), hbmod]
  exact if_neg (by omega)

/-- The same of an array that was there before, kept or not. -/
theorem allocate_spec (h : ds.WellFormed) {count : ℤ} (h₀ : 0 ≤ count) (hle : count ≤ maxBackends)
    (fresh : ℕ → UInt32) :
    ∃ arr : List UInt32, 0 < arr.length ∧ count ≤ arr.length ∧
      (ds.freeIfSmall count).allocate fresh count =
        .ok { ds with maxCount := arr.length, inProgressXidArray := some arr } := by
  cases harr : ds.inProgressXidArray with
  | none =>
    have hkeep : ds.freeIfSmall count = ds := if_neg (by rw [harr]; simp)
    rw [hkeep]
    exact allocate_none h₀ hle harr fresh
  | some arr =>
    have hsome : ds.inProgressXidArray.isSome := by rw [harr]; rfl
    have hmax := h.maxCount_eq
    have hpos := h.maxCount_pos hsome
    rw [harr, Option.getD_some] at hmax
    rcases lt_or_ge ds.maxCount count with hlt | hge
    · have hfree : ds.freeIfSmall count = { ds with maxCount := 0, inProgressXidArray := none } :=
        if_pos ⟨hsome, hlt⟩
      rw [hfree]
      exact allocate_none h₀ hle rfl fresh
    · have hkeep : ds.freeIfSmall count = ds := if_neg fun hsmall => not_lt.mpr hge hsmall.2
      refine ⟨arr, by omega, by omega, ?_⟩
      rw [hkeep, ← hmax, ← harr]
      exact if_pos hsome

/-- A filled array starts with what it was filled with. -/
theorem fillArray_spec (ds : DistributedSnapshot) {arr xids : List UInt32} (hpos : 0 < arr.length)
    (hle : xids.length ≤ arr.length) (hds : ds.inProgressXidArray = some arr)
    (hmax : ds.maxCount = arr.length) :
    { ds.fillArray xids with count := xids.length }.WellFormed ∧
      { ds.fillArray xids with count := xids.length }.xip = xids := by
  have harr : (ds.fillArray xids).inProgressXidArray = some (xids ++ arr.drop xids.length) := by
    rw [fillArray, hds]
    rfl
  have hlen : (xids ++ arr.drop xids.length).length = arr.length := by
    rw [List.length_append, List.length_drop]
    omega
  refine ⟨⟨?_, fun _ => ?_, Int.natCast_nonneg _, ?_⟩, ?_⟩
  · change ds.maxCount = ((ds.fillArray xids).inProgressXidArray.getD []).length
    rw [harr, Option.getD_some, hlen, hmax]
  · exact hmax.symm ▸ Int.ofNat_lt.mpr hpos
  · exact hmax.symm ▸ Int.ofNat_le.mpr hle
  · change ((ds.fillArray xids).inProgressXidArray.getD []).take (xids.length : ℤ).toNat = xids
    rw [harr, Option.getD_some, Int.toNat_natCast, List.take_left']
    rfl

/-- **A copy agrees with its source.** -/
theorem copy_spec (h : target.WellFormed) (hsource : source.Readable) (fresh : ℕ → UInt32) :
    Returns (target.copy fresh source) fun ds => ds.WellFormed ∧ ds.Agrees source := by
  obtain ⟨arr, hpos, hroom, hallocate⟩ :=
    allocate_spec h.cleared hsource.count_nonneg hsource.count_le fresh
  have hlen := hsource.length_xip
  rw [copy, h.reset]
  refine returns_bind (returns_ok rfl) ?_
  rintro _ rfl
  rw [hallocate]
  refine returns_bind (returns_ok rfl) ?_
  rintro _ rfl
  have hfit : source.xip.length ≤ arr.length := by omega
  obtain ⟨hwf, hxip⟩ := fillArray_spec { target.cleared with
    maxCount := arr.length
    inProgressXidArray := some arr
    distribTransactionTimeStamp := source.distribTransactionTimeStamp
    xminAllDistributedSnapshots := source.xminAllDistributedSnapshots
    distribSnapshotId := source.distribSnapshotId
    xmin := source.xmin
    xmax := source.xmax } hpos hfit rfl rfl
  rw [hlen] at hwf hxip
  exact returns_pure ⟨hwf, rfl, rfl, rfl, rfl, rfl, rfl, hxip⟩

theorem length_serialize (hsource : source.Readable) :
    source.serialize.length = 24 + 4 * source.count.toNat := by
  have hlen := hsource.length_xip
  simp only [serialize, List.length_append, length_word, length_flatMap_word]
  omega

theorem serializeSize_eq (hsource : source.Readable) :
    source.serializeSize = source.serialize.length := by
  have hnonneg := hsource.count_nonneg
  have hle := hsource.count_le
  unfold maxBackends at hle
  rw [serializeSize, length_serialize hsource, bmod_of_int (by omega) (by omega)]
  omega

/-- **What is read from a message agrees with what was written.** -/
theorem deserialize_spec (h : target.WellFormed) (hsource : source.Readable) {buf : ℕ → UInt8}
    {off : ℕ} (hbuf : HoldsAt buf off source.serialize) (fresh : ℕ → UInt32) :
    Returns (target.deserialize fresh buf off) fun (n, ds) =>
      n = source.serialize.length ∧ ds.WellFormed ∧ ds.Agrees source := by
  have hsize := length_serialize hsource
  have hlen := hsource.length_xip
  have hnonneg := hsource.count_nonneg
  have hle := hsource.count_le
  unfold maxBackends at hle
  simp only [serialize, holdsAt_append, List.length_append, length_word, Nat.add_assoc] at hbuf
  obtain ⟨⟨⟨⟨⟨⟨h₀, h₁⟩, h₂⟩, h₃⟩, h₄⟩, hcount⟩, hxip⟩ := hbuf
  have hcount' : intOf (wordAt buf (off + 20)) = source.count := by
    rw [wordAt_eq hcount, intOf_intWord hnonneg (by omega)]
  have hxids : (List.range source.count.toNat).map (fun i => wordAt buf (off + 24 + 4 * i)) =
      source.xip := by
    rw [← wordsAt_eq hxip, ← hlen, Int.toNat_natCast, wordsAt_eq hxip]
  -- the array the call finds is that of the target
  set start : DistributedSnapshot := { target with
    distribTransactionTimeStamp := wordAt buf off
    xminAllDistributedSnapshots := wordAt buf (off + 4)
    distribSnapshotId := wordAt buf (off + 8)
    xmin := wordAt buf (off + 12)
    xmax := wordAt buf (off + 16) } with hstart
  have hwf : start.WellFormed := ⟨h.maxCount_eq, h.maxCount_pos, h.count_nonneg, h.count_le⟩
  obtain ⟨arr, hpos, hroom, hallocate⟩ := allocate_spec hwf hnonneg hsource.count_le fresh
  have hgood : ¬ (start.inProgressXidArray.isSome ∧ start.maxCount ≤ 0) :=
    fun hbad => not_lt.mpr hbad.2 (hwf.maxCount_pos hbad.1)
  unfold deserialize
  simp only [hcount', hxids]
  rw [if_neg hgood, hallocate]
  refine returns_bind (returns_ok rfl) ?_
  rintro _ rfl
  have hfit : source.xip.length ≤ arr.length := by omega
  obtain ⟨hfilled, hfilledXip⟩ := fillArray_spec { start with
    maxCount := arr.length
    inProgressXidArray := some arr } hpos hfit rfl rfl
  rw [hlen] at hfilled hfilledXip
  exact returns_pure ⟨hsize.symm, hfilled, wordAt_eq h₀, wordAt_eq h₁, wordAt_eq h₂, wordAt_eq h₃,
    wordAt_eq h₄, rfl, hfilledXip⟩

end DistributedSnapshot

/-! ## The context -/

theorem mem_gidText (tstamp gxid : UInt32) : 0 ∈ gidText tstamp gxid :=
  List.mem_append_right _ (List.mem_singleton_self 0)

namespace DtxContextInfo

/-- A context that can be sent: its snapshot is there, and what is not sent is clear. -/
structure Sendable (c : DtxContextInfo) : Prop where
  wellFormed : c.distributedSnapshot.WellFormed
  readable : c.distributedSnapshot.Readable
  terminated : 0 ∈ c.distributedId.bytes
  anonymous : c.distributedXid = 0 →
    c.distributedTimeStamp = 0 ∧ c.distributedId = .init ∧ c.curcid = 0
  noSnapshot : c.haveDistributedSnapshot = false →
    c.distributedSnapshot = c.distributedSnapshot.cleared

/-- The two say the same. -/
structure Agrees (target source : DtxContextInfo) : Prop where
  distributedTimeStamp : target.distributedTimeStamp = source.distributedTimeStamp
  distributedXid : target.distributedXid = source.distributedXid
  distributedId : target.distributedId = source.distributedId
  haveDistributedSnapshot : target.haveDistributedSnapshot = source.haveDistributedSnapshot
  cursorContext : target.cursorContext = source.cursorContext
  distributedSnapshot : target.distributedSnapshot.Agrees source.distributedSnapshot
  distributedTxnOptions : target.distributedTxnOptions = source.distributedTxnOptions
  segmateSync : target.segmateSync = source.segmateSync
  nestingLevel : target.nestingLevel = source.nestingLevel
  curcid : target.curcid = source.curcid

variable {c target source : DtxContextInfo}

/-- A context after its reset. -/
def cleared (c : DtxContextInfo) : DtxContextInfo :=
  { c with
    distributedTimeStamp := 0
    distributedXid := 0
    distributedId := .init
    curcid := 0
    segmateSync := 0
    nestingLevel := 0
    haveDistributedSnapshot := false
    distributedSnapshot := c.distributedSnapshot.cleared
    distributedTxnOptions := 0 }

theorem reset_eq (h : c.distributedSnapshot.WellFormed) : c.reset = .ok c.cleared := by
  rw [reset, h.reset]
  rfl

/-- A cleared snapshot has no entries. -/
theorem readable_cleared (ds : DistributedSnapshot) : ds.cleared.Readable :=
  ⟨le_refl 0, (by decide : (0 : ℤ) ≤ maxBackends), Int.natCast_nonneg _⟩

theorem Sendable.agrees_cleared (h : source.Sendable) (ds : DistributedSnapshot)
    (hnone : source.haveDistributedSnapshot = false) :
    ds.cleared.Agrees source.distributedSnapshot := by
  rw [h.noSnapshot hnone]
  exact DistributedSnapshot.agrees_cleared ds _

/-- **A copied context agrees with its source.** -/
theorem copy_spec (h : target.distributedSnapshot.WellFormed) (hsource : source.Sendable)
    (fresh : ℕ → UInt32) :
    Returns (target.copy fresh source) fun c =>
      c.distributedSnapshot.WellFormed ∧ c.Agrees source := by
  have hds : Returns (copySnapshot fresh target.cleared source) fun ds =>
      ds.WellFormed ∧ ds.Agrees source.distributedSnapshot := by
    unfold copySnapshot
    cases hhave : source.haveDistributedSnapshot with
    | true => exact DistributedSnapshot.copy_spec h.cleared hsource.readable fresh
    | false => exact returns_pure ⟨h.cleared, hsource.agrees_cleared _ hhave⟩
  rw [copy, reset_eq h]
  refine returns_bind (returns_ok rfl) ?_
  rintro _ rfl
  refine returns_bind hds fun ds hds' => ?_
  exact returns_pure ⟨hds'.1, rfl, rfl, rfl, rfl, rfl, hds'.2, rfl, rfl, rfl, rfl⟩

theorem serialize_eq (h : source.Sendable) : source.serialize = .ok source.message :=
  if_neg fun hbad => hbad.2 h.terminated

theorem length_identityBytes (c : DtxContextInfo) :
    c.identityBytes.length = if c.distributedXid = 0 then 0 else 30 := by
  rw [identityBytes, apply_ite List.length, List.length_append, List.length_append, length_word,
    length_word, c.distributedId.length_eq, List.length_nil]

@[simp] theorem length_boolByte (b : Bool) : (boolByte b).length = 1 := rfl

theorem length_message (c : DtxContextInfo) :
    c.message.length = 18 + c.identityBytes.length + c.snapshotBytes.length := by
  simp only [message, List.length_append, length_word, length_boolByte]
  omega

/-- **A message has the size that was computed for it.** -/
theorem serializeSize_eq (h : source.Sendable) :
    source.serializeSize = source.message.length := by
  have hnonneg := h.readable.count_nonneg
  have hle := h.readable.count_le
  unfold maxBackends at hle
  have hsnapshot : (if source.haveDistributedSnapshot then source.distributedSnapshot.serializeSize
      else 0) = (source.snapshotBytes.length : ℤ) := by
    rw [snapshotBytes, DistributedSnapshot.serializeSize_eq h.readable]
    cases source.haveDistributedSnapshot <;> rfl
  have hbound : source.snapshotBytes.length ≤ 24 + 4 * source.distributedSnapshot.count.toNat := by
    rw [snapshotBytes, apply_ite List.length, DistributedSnapshot.length_serialize h.readable]
    split
    · exact le_refl _
    · exact Nat.zero_le _
  rw [serializeSize, hsnapshot, length_message, length_identityBytes]
  split
  · rw [bmod_of_int (by omega) (by omega)]
    omega
  · rw [bmod_of_int (by omega) (by omega)]
    omega

theorem readIdentity_spec (h : source.Sendable) {buf : ℕ → UInt8} {off : ℕ}
    (hbuf : HoldsAt buf off source.identityBytes) (c : DtxContextInfo) :
    readIdentity buf off { c.cleared with distributedXid := source.distributedXid } =
      .ok (source.identityBytes.length, { c.cleared with
        distributedXid := source.distributedXid
        distributedTimeStamp := source.distributedTimeStamp
        distributedId := source.distributedId
        curcid := source.curcid }) := by
  have hlen := length_identityBytes source
  unfold readIdentity
  by_cases hxid : source.distributedXid = 0
  · obtain ⟨htimeStamp, hid, hcurcid⟩ := h.anonymous hxid
    rw [if_pos hxid] at hlen
    rw [if_pos hxid, hlen, htimeStamp, hid, hcurcid]
    rfl
  · rw [identityBytes, if_neg hxid, holdsAt_append, holdsAt_append, List.length_append, length_word,
      source.distributedId.length_eq] at hbuf
    obtain ⟨⟨htimeStamp, hid⟩, hcurcid⟩ := hbuf
    have hbytes : readBytes buf (off + 4) 22 = source.distributedId.bytes :=
      hid.read source.distributedId.length_eq.symm
    rw [if_neg hxid] at hlen
    simp only [if_neg hxid, hbytes, hlen, wordAt_eq htimeStamp, wordAt_eq hcurcid]
    exact if_neg (not_not.mpr h.terminated)

theorem boolAt_eq {buf : ℕ → UInt8} {off : ℕ} {b : Bool} (h : HoldsAt buf off (boolByte b)) :
    (buf off != 0) = b := by
  have hbyte : buf (off + 0) = (boolByte b).get ⟨0, Nat.zero_lt_one⟩ := h.getElem Nat.zero_lt_one
  rw [Nat.add_zero] at hbyte
  rw [hbyte]
  cases b <;> rfl

theorem readSnapshot_spec (h : target.distributedSnapshot.WellFormed) (hsource : source.Sendable)
    {buf : ℕ → UInt8} {off : ℕ} (hbuf : HoldsAt buf off source.snapshotBytes) {c : DtxContextInfo}
    (hhave : c.haveDistributedSnapshot = source.haveDistributedSnapshot)
    (hds : c.distributedSnapshot = target.distributedSnapshot.cleared) (fresh : ℕ → UInt32) :
    Returns (readSnapshot fresh buf off c) fun (n, ds) => n = source.snapshotBytes.length ∧
      ds.WellFormed ∧ ds.Agrees source.distributedSnapshot := by
  unfold readSnapshot snapshotBytes at *
  rw [hhave, hds]
  cases hsome : source.haveDistributedSnapshot with
  | true =>
    rw [hsome] at hbuf
    exact DistributedSnapshot.deserialize_spec h.cleared hsource.readable hbuf fresh
  | false => exact returns_pure ⟨rfl, h.cleared, hsource.agrees_cleared _ hsome⟩

/-- **A context read from a message agrees with the one that was sent**, and the whole message is
consumed. -/
theorem deserialize_spec (h : target.distributedSnapshot.WellFormed) (hsource : source.Sendable)
    {buf : ℕ → UInt8} (hbuf : HoldsAt buf 0 source.message) (fresh : ℕ → UInt32) :
    Returns (target.deserialize fresh buf source.message.length) fun (n, c) =>
      n = source.message.length ∧ c.distributedSnapshot.WellFormed ∧ c.Agrees source := by
  have hlen := length_message source
  have hne : source.message.length ≠ 0 := by omega
  simp only [message, holdsAt_append, List.length_append, length_word, length_boolByte,
    Nat.zero_add] at hbuf
  obtain ⟨⟨⟨⟨⟨⟨⟨hxid, hidentity⟩, hsync⟩, hlevel⟩, hhave⟩, hcursor⟩, hsnapshot⟩, hoptions⟩ := hbuf
  unfold deserialize
  rw [reset_eq h]
  refine returns_bind (returns_ok rfl) ?_
  rintro _ rfl
  rw [if_neg hne, wordAt_eq hxid, readIdentity_spec hsource hidentity]
  refine returns_bind (returns_ok rfl) ?_
  rintro _ rfl
  refine returns_bind (readSnapshot_spec h hsource hsnapshot (boolAt_eq hhave) rfl fresh) ?_
  rintro ⟨_, ds⟩ ⟨rfl, hwf, hagrees⟩
  refine returns_pure ⟨by omega, hwf, rfl, rfl, rfl, boolAt_eq hhave, boolAt_eq hcursor, hagrees,
    ?_, wordAt_eq hsync, wordAt_eq hlevel, rfl⟩
  exact wordAt_eq hoptions

/-! ## Creating a context -/

theorem readable_of_agrees {ds ds' : DistributedSnapshot} (h : ds.WellFormed)
    (hagrees : ds.Agrees ds') (hreadable : ds'.Readable) : ds.Readable where
  count_nonneg := h.count_nonneg
  count_le := hagrees.count ▸ hreadable.count_le
  entries := h.maxCount_eq ▸ h.count_le

theorem takeSnapshot_spec (h : c.distributedSnapshot.WellFormed) (fresh : ℕ → UInt32)
    (hnone : c.haveDistributedSnapshot = false)
    (hcleared : c.distributedSnapshot = c.distributedSnapshot.cleared)
    (snapshot : Option Snapshot) :
    Returns (takeSnapshot fresh c snapshot) fun c' => ∃ ds b,
      c' = { c with distributedSnapshot := ds, haveDistributedSnapshot := b } ∧ ds.WellFormed ∧
        ds.Readable ∧ (b = false → ds = ds.cleared) := by
  have hkeep : Returns (pure c : Except DtxError DtxContextInfo) fun c' => ∃ ds b,
      c' = { c with distributedSnapshot := ds, haveDistributedSnapshot := b } ∧ ds.WellFormed ∧
        ds.Readable ∧ (b = false → ds = ds.cleared) := by
    refine returns_pure ⟨c.distributedSnapshot, false, ?_, h, ?_, fun _ => hcleared⟩
    · rw [← hnone]
    · rw [hcleared]
      exact readable_cleared _
  cases snapshot with
  | none => exact hkeep
  | some snapshot =>
    rw [takeSnapshot]
    split
    · have hreadable : snapshot.ds.Readable :=
        ⟨snapshot.count_nonneg, snapshot.count_le, snapshot.entries⟩
      refine returns_bind (DistributedSnapshot.copy_spec h hreadable fresh) fun ds hds => ?_
      refine returns_pure ⟨ds, true, rfl, hds.1, readable_of_agrees hds.1 hds.2 hreadable, ?_⟩
      exact fun hfalse => nomatch hfalse
    · exact hkeep

/-- Without a distributed transaction nothing identifies it. -/
theorem identify_spec (c : DtxContextInfo) (s : Session) (curcid : UInt32) :
    0 ∈ (c.cleared.identify s curcid).distributedId.bytes ∧
      ((c.cleared.identify s curcid).distributedXid = 0 →
        (c.cleared.identify s curcid).distributedTimeStamp = 0 ∧
        (c.cleared.identify s curcid).distributedId = .init ∧
        (c.cleared.identify s curcid).curcid = 0) ∧
      (c.cleared.identify s curcid).distributedSnapshot = c.distributedSnapshot.cleared := by
  unfold identify
  split
  · exact ⟨(by decide : (0 : UInt8) ∈ TmGid.init.bytes), fun _ => ⟨rfl, rfl, rfl⟩, rfl⟩
  · next hxid =>
    refine ⟨?_, fun hzero => absurd hzero hxid, rfl⟩
    change 0 ∈ (getDistributedTransactionIdentifier s c.cleared.distributedId).bytes
    unfold getDistributedTransactionIdentifier
    split
    · exact List.mem_append_left _ (mem_gidText _ _)
    · exact List.mem_replicate.mpr ⟨by decide, rfl⟩

/-- **A context that was created can be sent.** -/
theorem createOnMaster_sendable (h : c.distributedSnapshot.WellFormed) {s : Session}
    {fresh : ℕ → UInt32} {syncCount syncCount' txnOptions : UInt32} {inCursor : Bool}
    {snapshot : Option Snapshot} {c' : DtxContextInfo}
    (hcreate : c.createOnMaster s fresh syncCount inCursor txnOptions snapshot =
      .ok (c', syncCount')) : c'.Sendable := by
  unfold createOnMaster at hcreate
  rw [reset_eq h] at hcreate
  obtain ⟨hterminated, hanonymous, hds⟩ :=
    identify_spec c s ((snapshot.map Snapshot.curcid).getD 0)
  by_cases hfull : (if inCursor then syncCount else syncCount + 1) = 2 ^ 32 - 1
  · simp only [hfull] at hcreate
    cases hcreate
  · obtain ⟨c₁, htake, ds, b, rfl, hwf, hreadable, hnone⟩ := takeSnapshot_spec
      (c := { c.cleared.identify s ((snapshot.map Snapshot.curcid).getD 0) with
        segmateSync := if inCursor then syncCount else syncCount + 1
        cursorContext := inCursor
        nestingLevel := s.nestLevel
        haveDistributedSnapshot := false }) (hds ▸ h.cleared) fresh rfl (by rw [hds]; rfl) snapshot
    simp only [bind, Except.bind, if_neg hfull] at hcreate
    rw [htake] at hcreate
    cases hcreate
    exact ⟨hwf, hreadable, hterminated, hanonymous, hnone⟩

end DtxContextInfo

/-! ## Runs -/

/-- The dispatcher's context can be sent, and the receiver's fits what it has allocated. -/
structure Contexts.Ready (ctxs : Contexts) : Prop where
  qd : ctxs.qd.Sendable
  qe : ctxs.qe.distributedSnapshot.WellFormed

theorem start_ready : Contexts.start.Ready where
  qd := ⟨⟨rfl, (nomatch ·), le_refl 0, le_refl 0⟩, DtxContextInfo.readable_cleared .staticInit,
    (by decide : (0 : UInt8) ∈ TmGid.init.bytes), fun _ => ⟨rfl, rfl, rfl⟩, fun _ => rfl⟩
  qe := ⟨rfl, (nomatch ·), le_refl 0, le_refl 0⟩

theorem call_ready {ctxs ctxs' : Contexts} {c : Call} (h : ctxs.Ready)
    (hcall : call ctxs c = .ok ctxs') : ctxs'.Ready := by
  cases c with
  | createOnMaster s fresh inCursor txnOptions snapshot =>
    rw [call] at hcall
    cases hcreate : ctxs.qd.createOnMaster s fresh ctxs.syncCount inCursor txnOptions snapshot with
    | error e =>
      rw [hcreate] at hcall
      cases hcall
    | ok r =>
      rw [hcreate] at hcall
      cases hcall
      exact ⟨DtxContextInfo.createOnMaster_sendable h.qd.wellFormed hcreate, h.qe⟩
  | dispatch fresh =>
    obtain ⟨⟨n, qe⟩, hdeserialize, -, hwf, -⟩ :=
      DtxContextInfo.deserialize_spec h.qe h.qd (holdsAt_getD ctxs.qd.message) fresh
    rw [call, DtxContextInfo.serialize_eq h.qd] at hcall
    simp only [bind, Except.bind, hdeserialize] at hcall
    cases hcall
    exact ⟨h.qd, hwf⟩
  | copy fresh =>
    obtain ⟨qe, hcopy, hwf, -⟩ := DtxContextInfo.copy_spec h.qe h.qd fresh
    rw [call, hcopy] at hcall
    cases hcall
    exact ⟨h.qd, hwf⟩

/-- **Every context that is sent arrives**, in a message or as a copy, whatever the two structures
were used for before. -/
theorem contexts_round_trip (calls : List Call) {ctxs : Contexts}
    (hrun : run step .start calls = some ctxs) :
    (∃ bytes, ctxs.qd.serialize = .ok bytes ∧ (bytes.length : ℤ) = ctxs.qd.serializeSize ∧
      ∀ buf fresh, HoldsAt buf 0 bytes →
        Returns (ctxs.qe.deserialize fresh buf bytes.length) fun (n, c) =>
          n = bytes.length ∧ c.distributedSnapshot.WellFormed ∧ c.Agrees ctxs.qd) ∧
    ∀ fresh, Returns (ctxs.qe.copy fresh ctxs.qd) fun c =>
      c.distributedSnapshot.WellFormed ∧ c.Agrees ctxs.qd := by
  have hready : ctxs.Ready := by
    refine run_invariant (fun ctxs c ctxs' h hstep => ?_) start_ready hrun
    unfold step at hstep
    cases hcall : call ctxs c with
    | error e =>
      rw [hcall] at hstep
      cases hstep
    | ok ctxs'' =>
      rw [hcall] at hstep
      cases hstep
      exact call_ready h hcall
  refine ⟨⟨ctxs.qd.message, DtxContextInfo.serialize_eq hready.qd,
    (DtxContextInfo.serializeSize_eq hready.qd).symm, fun buf fresh hbuf => ?_⟩, fun fresh => ?_⟩
  · exact DtxContextInfo.deserialize_spec hready.qe hready.qd hbuf fresh
  · exact DtxContextInfo.copy_spec hready.qe hready.qd fresh

/-- A transaction with a distributed snapshot of one entry, sent after one without. -/
def twoContexts : List Call :=
  [.createOnMaster ⟨false, 0, 0, 0, 1⟩ (fun _ => 0) false 0 none, .dispatch fun _ => 0,
    .createOnMaster ⟨true, 7, 3, 3, 1⟩ (fun _ => 0) false 0
      (some ⟨1, true, ⟨3, 5, 1, 5, 9, 1, 4, some [6, 0, 0, 0]⟩, by decide, by decide, by decide⟩)]

theorem twoContexts_round_trip : ∃ ctxs, run step .start twoContexts = some ctxs ∧
    ∀ fresh, Returns (ctxs.qe.copy fresh ctxs.qd) fun c =>
      c.distributedSnapshot.WellFormed ∧ c.Agrees ctxs.qd :=
  ⟨_, rfl, (contexts_round_trip twoContexts rfl).2⟩

end Hdb.DtxContext

import Hdb.AppendOnly.Bitstream

/-!
# Bitmap compression

A bitmap of 32 bit words is stored as a header of two bytes and a string of bits: two bits say
whether a word has no bits, has all bits, is the word before once more, a number of times, or comes
next as it is. When that takes more room than there is, the words are stored as they are.

The bits are a list of codes, each of which gives one word or, for a repetition, several of them
(`codesFrom`). The compressor writes these codes (`compressLoop_writes`). The decompressor fails in
a code of which bits are missing, and in one of which it wants only some of the words
(`DecodesAll.loop_eq_none_iff`).

Main result: `bitmapCompress_round_trip`.
-/

namespace Hdb.AppendOnly

/-! ## The compressor -/

inductive BitmapCompressionFlag
  | zero
  | one
  | rle
  | raw
  deriving DecidableEq

def BitmapCompressionFlag.code : BitmapCompressionFlag → ℕ
  | zero => 0
  | one => 1
  | rle => 2
  | raw => 3

inductive BitmapCompressionType
  | no
  | default
  deriving DecidableEq

def BitmapCompressionType.code : BitmapCompressionType → ℕ
  | no => 0
  | default => 1

/-- Put a flag a number of times. -/
def putFlag (flag : BitmapCompressionFlag) : ℕ → Bitstream → Option Bitstream
  | 0, s => some s
  | n + 1, s => (s.put flag.code 2).bind (putFlag flag n)

def bitmapEncodeRLE (rleRepeatCount : ℕ) (lastBlockFlag : BitmapCompressionFlag) (s : Bitstream) :
    Option Bitstream :=
  if lastBlockFlag = .raw ∨ rleRepeatCount > 4 then
    (s.put BitmapCompressionFlag.rle.code 2).bind (Bitstream.put (rleRepeatCount - 1) 8)
  else putFlag lastBlockFlag rleRepeatCount s

/-- The repetitions that have not been written yet. -/
def bitmapEncodePending (rleRepeatCount : ℕ) (lastBlockFlag : BitmapCompressionFlag)
    (s : Bitstream) : Option Bitstream :=
  if rleRepeatCount > 0 then bitmapEncodeRLE rleRepeatCount lastBlockFlag s else some s

/-- The loop of `Bitmap_Compress_Default` and what follows it. -/
def compressLoop : (bitmap : List UInt32) → (first : Bool) → (lastBlockData : UInt32) →
    BitmapCompressionFlag → (rleRepeatCount : ℕ) → Bitstream → Option Bitstream
  | [], _, _, lastBlockFlag, rleRepeatCount, s => bitmapEncodePending rleRepeatCount lastBlockFlag s
  | blockData :: bitmap, first, lastBlockData, lastBlockFlag, rleRepeatCount, s =>
    if blockData = lastBlockData ∧ rleRepeatCount ≤ 255 ∧ first = false then
      compressLoop bitmap false lastBlockData lastBlockFlag (rleRepeatCount + 1) s
    else
      (bitmapEncodePending rleRepeatCount lastBlockFlag s).bind fun s =>
        if blockData = 0 then
          (s.put BitmapCompressionFlag.zero.code 2).bind
            (compressLoop bitmap false blockData .zero 0)
        else if blockData = 0xFFFFFFFF then
          (s.put BitmapCompressionFlag.one.code 2).bind (compressLoop bitmap false blockData .one 0)
        else
          ((s.put BitmapCompressionFlag.raw.code 2).bind (Bitstream.put blockData.toNat 32)).bind
            (compressLoop bitmap false blockData .raw 0)

def bitmapCompressDefault (bitmap : List UInt32) (s : Bitstream) : Option Bitstream :=
  compressLoop bitmap true 0 .zero 0 s

def bitmapCompressWriteHeader (compressionType : BitmapCompressionType) (blockCount : ℕ)
    (s : Bitstream) : Option Bitstream :=
  (s.put compressionType.code 1).bind fun s =>
    (s.skip 3).bind (Bitstream.put blockCount 12)

/-- The words as they are in memory. -/
def wordBytes (bitmap : List UInt32) : List UInt8 :=
  bitmap.flatMap fun w => toLittleEndian 4 w.toNat

/-- `Bitmap_Compress` without compression: the words behind the header, whose end is aligned. -/
def bitmapCompressNo (bitmap : List UInt32) (maxOutDataSize : ℕ) : Option (List UInt8) :=
  (bitmapCompressWriteHeader .no bitmap.length
    (.init (List.replicate maxOutDataSize 0))).map fun s => s.data.take 2 ++ wordBytes bitmap

/-- `Bitmap_Compress`, with the bytes of the result. -/
def bitmapCompress (compressionType : BitmapCompressionType) (bitmap : List UInt32)
    (maxOutDataSize : ℕ) : Option (List UInt8) :=
  match compressionType with
  | .no => bitmapCompressNo bitmap maxOutDataSize
  | .default =>
    (bitmapCompressWriteHeader .default bitmap.length
      (.init (List.replicate maxOutDataSize 0))).bind fun s =>
        match bitmapCompressDefault bitmap s with
        | some s => some (s.data.take s.length)
        | none => bitmapCompressNo bitmap maxOutDataSize

/-! ## The decompressor -/

structure BitmapDecompressState where
  bitstream : Bitstream
  compressionType : BitmapCompressionType
  blockCount : ℕ

/-- `BitmapDecompress_Init`; `none` when the stream has an error. -/
def bitmapDecompressInit (inData : List UInt8) : Option BitmapDecompressState :=
  ((Bitstream.init inData).get 1 0).bind fun t =>
    (t.2.skip 3).bind fun s =>
      (s.get 12 0).map fun n => ⟨n.2, if t.1 = 0 then .no else .default, n.1⟩

/-- The loop over the blocks; `none` when it ends with an error. -/
def decompressLoop : (blocks : ℕ) → (lastBlockData : UInt32) → (rleRepeatCount : ℕ) → Bitstream →
    Option (List UInt32)
  | 0, _, rleRepeatCount, _ => if rleRepeatCount > 0 then none else some []
  | blocks + 1, lastBlockData, 0, s =>
    (s.get 2 0).bind fun flag =>
      if flag.1 = BitmapCompressionFlag.zero.code then
        (decompressLoop blocks 0 0 flag.2).map (0 :: ·)
      else if flag.1 = BitmapCompressionFlag.one.code then
        (decompressLoop blocks 0xFFFFFFFF 0 flag.2).map (0xFFFFFFFF :: ·)
      else if flag.1 = BitmapCompressionFlag.raw.code then
        (flag.2.get 32 0).bind fun w =>
          (decompressLoop blocks (.ofNat w.1) 0 w.2).map (.ofNat w.1 :: ·)
      else
        (flag.2.get 8 0).bind fun r =>
          (decompressLoop blocks lastBlockData r.1 r.2).map (lastBlockData :: ·)
  | blocks + 1, lastBlockData, rleRepeatCount + 1, s =>
    (decompressLoop blocks lastBlockData rleRepeatCount s).map (lastBlockData :: ·)

/-- A block with a flag of its own. -/
theorem decompressLoop_flag (blocks : ℕ) (lastBlockData : UInt32) (s : Bitstream) :
    decompressLoop (blocks + 1) lastBlockData 0 s =
      (s.get 2 0).bind fun flag =>
        if flag.1 = BitmapCompressionFlag.zero.code then
          (decompressLoop blocks 0 0 flag.2).map (0 :: ·)
        else if flag.1 = BitmapCompressionFlag.one.code then
          (decompressLoop blocks 0xFFFFFFFF 0 flag.2).map (0xFFFFFFFF :: ·)
        else if flag.1 = BitmapCompressionFlag.raw.code then
          (flag.2.get 32 0).bind fun w =>
            (decompressLoop blocks (.ofNat w.1) 0 w.2).map (.ofNat w.1 :: ·)
        else
          (flag.2.get 8 0).bind fun r =>
            (decompressLoop blocks lastBlockData r.1 r.2).map (lastBlockData :: ·) :=
  rfl

/-- A block that repeats the one before. -/
theorem decompressLoop_succ (blocks rleRepeatCount : ℕ) (lastBlockData : UInt32) (s : Bitstream) :
    decompressLoop (blocks + 1) lastBlockData (rleRepeatCount + 1) s =
      (decompressLoop blocks lastBlockData rleRepeatCount s).map (lastBlockData :: ·) :=
  rfl

/-- Words that have been stored as they are in memory. -/
def wordsOfBytes : ℕ → List UInt8 → List UInt32
  | 0, _ => []
  | n + 1, bytes => .ofNat (ofLittleEndian (bytes.take 4)) :: wordsOfBytes n (bytes.drop 4)

/-- `BitmapDecompress_Decompress`. To read behind the data is an error here. -/
def bitmapDecompress (state : BitmapDecompressState) (bitmapDataSize : ℕ) : Option (List UInt32) :=
  if state.blockCount > bitmapDataSize then none
  else
    match state.compressionType with
    | .no =>
      let bytes := state.bitstream.data.drop 2
      if bytes.length < 4 * state.blockCount then none
        else some (wordsOfBytes state.blockCount bytes)
    | .default => decompressLoop state.blockCount 0 0 state.bitstream

/-! ## The codes -/

/-- Bits that stand together, and the words they give. -/
structure Code where
  bits : List Bool
  words : List UInt32

/-- The codes of the repetitions that have not been written yet. -/
def pendingCodes (rleRepeatCount : ℕ) (lastBlockFlag : BitmapCompressionFlag)
    (lastBlockData : UInt32) : List Code :=
  if rleRepeatCount > 0 ∧ (lastBlockFlag = .raw ∨ rleRepeatCount > 4) then
    [⟨numBits 2 BitmapCompressionFlag.rle.code ++ numBits 8 (rleRepeatCount - 1),
      List.replicate rleRepeatCount lastBlockData⟩]
  else List.replicate rleRepeatCount ⟨numBits 2 lastBlockFlag.code, [lastBlockData]⟩

/-- The codes that `compressLoop` writes. -/
def codesFrom : (bitmap : List UInt32) → (first : Bool) → (lastBlockData : UInt32) →
    BitmapCompressionFlag → (rleRepeatCount : ℕ) → List Code
  | [], _, lastBlockData, lastBlockFlag, rleRepeatCount =>
    pendingCodes rleRepeatCount lastBlockFlag lastBlockData
  | blockData :: bitmap, first, lastBlockData, lastBlockFlag, rleRepeatCount =>
    if blockData = lastBlockData ∧ rleRepeatCount ≤ 255 ∧ first = false then
      codesFrom bitmap false lastBlockData lastBlockFlag (rleRepeatCount + 1)
    else
      pendingCodes rleRepeatCount lastBlockFlag lastBlockData ++
        if blockData = 0 then
          ⟨numBits 2 BitmapCompressionFlag.zero.code, [0]⟩ :: codesFrom bitmap false
            blockData .zero 0
        else if blockData = 0xFFFFFFFF then
          ⟨numBits 2 BitmapCompressionFlag.one.code, [0xFFFFFFFF]⟩ ::
            codesFrom bitmap false blockData .one 0
        else
          ⟨numBits 2 BitmapCompressionFlag.raw.code ++ numBits 32 blockData.toNat, [blockData]⟩ ::
            codesFrom bitmap false blockData .raw 0

def codes (bitmap : List UInt32) : List Code := codesFrom bitmap true 0 .zero 0

def streamBits (cs : List Code) : List Bool := cs.flatMap Code.bits

def streamWords (cs : List Code) : List UInt32 := cs.flatMap Code.words

@[simp] theorem streamBits_nil : streamBits [] = [] := rfl

@[simp] theorem streamWords_nil : streamWords [] = [] := rfl

@[simp] theorem streamBits_cons (c : Code) (cs : List Code) :
    streamBits (c :: cs) = c.bits ++ streamBits cs := rfl

@[simp] theorem streamWords_cons (c : Code) (cs : List Code) :
    streamWords (c :: cs) = c.words ++ streamWords cs := rfl

@[simp] theorem streamBits_append (cs cs' : List Code) :
    streamBits (cs ++ cs') = streamBits cs ++ streamBits cs' := List.flatMap_append ..

@[simp] theorem streamWords_append (cs cs' : List Code) :
    streamWords (cs ++ cs') = streamWords cs ++ streamWords cs' := List.flatMap_append ..

theorem streamWords_pendingCodes (n : ℕ) (flag : BitmapCompressionFlag) (last : UInt32) :
    streamWords (pendingCodes n flag last) = List.replicate n last := by
  rw [pendingCodes]
  split
  · exact List.append_nil _
  · next hrle =>
    clear hrle
    induction n with
    | zero => rfl
    | succ n ih => rw [List.replicate_succ, streamWords_cons, ih, List.replicate_succ]; rfl

/-- The codes give the words that are pending, and those of the bitmap. -/
theorem streamWords_codesFrom (ws : List UInt32) (first : Bool) (last : UInt32)
    (flag : BitmapCompressionFlag) (n : ℕ) :
    streamWords (codesFrom ws first last flag n) = List.replicate n last ++ ws := by
  induction ws generalizing first last flag n with
  | nil => rw [codesFrom, streamWords_pendingCodes, List.append_nil]
  | cons w ws ih =>
    rw [codesFrom]
    split
    · next hrep => rw [ih, hrep.1, List.replicate_succ', List.append_assoc, List.singleton_append]
    · rw [streamWords_append, streamWords_pendingCodes]
      split_ifs with hzero hone
      · rw [streamWords_cons, ih, hzero]
        rfl
      · rw [streamWords_cons, ih, hone]
        rfl
      · rw [streamWords_cons, ih]
        rfl

theorem streamWords_codes (bitmap : List UInt32) : streamWords (codes bitmap) = bitmap :=
  streamWords_codesFrom bitmap true 0 .zero 0

/-! ## What a code gives -/

/-- The loop behind the word `last` takes a code for its words, and stands behind `last'` then. It
fails when bits of the code are missing, and when only some of its words are asked for. -/
structure Decodes (c : Code) (last last' : UInt32) : Prop where
  pos : 0 < c.words.length
  whole : ∀ s rest m, Bitstream.Reads s (c.bits ++ rest) → ∃ s' : Bitstream, s'.Reads rest ∧
    decompressLoop (c.words.length + m) last 0 s =
      (decompressLoop m last' 0 s').map (c.words ++ ·)
  cut : ∀ s bs m, Bitstream.Reads s bs → bs <+: c.bits → bs.length < c.bits.length →
    decompressLoop (m + 1) last 0 s = none
  part : ∀ s rest m, Bitstream.Reads s (c.bits ++ rest) → m + 1 < c.words.length →
    decompressLoop (m + 1) last 0 s = none

/-- The codes one after the other. -/
inductive DecodesAll : List Code → UInt32 → UInt32 → Prop
  | nil (last : UInt32) : DecodesAll [] last last
  | cons {c : Code} {cs : List Code} {last last' last'' : UInt32} (h : Decodes c last last')
      (hs : DecodesAll cs last' last'') : DecodesAll (c :: cs) last last''

variable {as bs : List Bool} {c : Code} {cs cs' : List Code} {last last' last'' : UInt32}

theorem DecodesAll.append (h : DecodesAll cs last last') (h' : DecodesAll cs' last' last'') :
    DecodesAll (cs ++ cs') last last'' := by
  induction h with
  | nil last => exact h'
  | cons hc _ ih => exact .cons hc (ih h')

theorem DecodesAll.pos (h : DecodesAll cs last last') : ∀ c ∈ cs, 0 < c.words.length := by
  induction h with
  | nil last => exact List.forall_mem_nil _
  | cons hc _ ih => exact List.forall_mem_cons.mpr ⟨hc.pos, ih⟩

/-- Bits of two parts, cut in the first part or behind it. -/
theorem prefix_append_or {as' : List Bool} (h : bs <+: as ++ as') :
    (bs <+: as ∧ bs.length < as.length) ∨ ∃ ds, bs = as ++ ds ∧ ds <+: as' := by
  obtain h' | ⟨ds, rfl⟩ := List.prefix_or_prefix_of_prefix h (List.prefix_append as as')
  · by_cases hlen : bs.length < as.length
    · exact Or.inl ⟨h', hlen⟩
    · have heq : bs = as := h'.eq_of_length (le_antisymm h'.length_le (Nat.le_of_not_lt hlen))
      exact Or.inr ⟨[], by rw [heq, List.append_nil], List.nil_prefix⟩
  · exact Or.inr ⟨ds, rfl, (List.prefix_append_right_inj as).mp h⟩

/-- The flag of the next word is missing. -/
theorem decompressLoop_flag_none {s : Bitstream} (m : ℕ) (hs : s.Reads bs) (hlt : bs.length < 2) :
    decompressLoop (m + 1) last 0 s = none := by
  rw [decompressLoop_flag, Bitstream.get_eq_none 0 hs hlt, Option.bind_none]

theorem decodes_zero (last : UInt32) :
    Decodes ⟨numBits 2 BitmapCompressionFlag.zero.code, [0]⟩ last 0 where
  pos := Nat.zero_lt_one
  whole s rest m hs := by
    obtain ⟨s', hs', h', -⟩ := Bitstream.get_spec 2 _ 0 hs
    refine ⟨s', h', ?_⟩
    rw [List.length_singleton, add_comm, decompressLoop_flag, hs']
    rfl
  cut s bs m hs _ hlt := decompressLoop_flag_none m hs hlt
  part s rest m _ hlt := absurd hlt (Nat.not_lt.mpr (Nat.le_add_left 1 m))

theorem decodes_one (last : UInt32) :
    Decodes ⟨numBits 2 BitmapCompressionFlag.one.code, [0xFFFFFFFF]⟩ last 0xFFFFFFFF where
  pos := Nat.zero_lt_one
  whole s rest m hs := by
    obtain ⟨s', hs', h', -⟩ := Bitstream.get_spec 2 _ 0 hs
    refine ⟨s', h', ?_⟩
    rw [List.length_singleton, add_comm, decompressLoop_flag, hs']
    rfl
  cut s bs m hs _ hlt := decompressLoop_flag_none m hs hlt
  part s rest m _ hlt := absurd hlt (Nat.not_lt.mpr (Nat.le_add_left 1 m))

theorem decodes_raw (last w : UInt32) :
    Decodes ⟨numBits 2 BitmapCompressionFlag.raw.code ++ numBits 32 w.toNat, [w]⟩ last w where
  pos := Nat.zero_lt_one
  whole s rest m hs := by
    rw [List.append_assoc] at hs
    obtain ⟨s₁, hs₁, h₁, -⟩ := Bitstream.get_spec 2 _ 0 hs
    obtain ⟨s', hs', h', -⟩ := Bitstream.get_spec 32 _ 0 h₁
    have hw : UInt32.ofNat (0 * 2 ^ 32 + w.toNat % 2 ^ 32) = w := by
      rw [Nat.zero_mul, Nat.zero_add, Nat.mod_eq_of_lt w.toNat_lt, UInt32.ofNat_toNat]
    refine ⟨s', h', ?_⟩
    rw [List.length_singleton, add_comm, decompressLoop_flag, hs₁, Option.bind_some]
    simp only [hs', Option.bind_some, hw]
    rfl
  cut s bs m hs hbits hlt := by
    obtain ⟨-, hlt⟩ | ⟨ds, rfl, -⟩ := prefix_append_or hbits
    · exact decompressLoop_flag_none m hs hlt
    · rw [List.length_append, List.length_append, Nat.add_lt_add_iff_left] at hlt
      obtain ⟨s₁, hs₁, h₁, -⟩ := Bitstream.get_spec 2 _ 0 hs
      have hw := Bitstream.get_eq_none 0 h₁ hlt
      rw [length_numBits] at hw
      rw [decompressLoop_flag, hs₁, Option.bind_some]
      simp only [hw, Option.bind_none]
      rfl
  part s rest m _ hlt := absurd hlt (Nat.not_lt.mpr (Nat.le_add_left 1 m))

/-- The words of a repetition. -/
theorem decompressLoop_repeat (r m : ℕ) (last : UInt32) (s : Bitstream) :
    decompressLoop (r + m) last r s =
      (decompressLoop m last 0 s).map (List.replicate r last ++ ·) := by
  induction r with
  | zero => simp
  | succ r ih =>
    rw [Nat.add_right_comm, decompressLoop_succ, ih, Option.map_map]
    rfl

/-- A repetition that goes on behind the last word. -/
theorem decompressLoop_repeat_part {m r : ℕ} (hlt : m < r) (last : UInt32) (s : Bitstream) :
    decompressLoop m last r s = none := by
  induction m generalizing r with
  | zero => rw [decompressLoop, if_pos hlt]
  | succ m ih =>
    obtain ⟨r, rfl⟩ := Nat.exists_eq_add_of_lt (Nat.zero_lt_of_lt hlt)
    rw [Nat.zero_add, decompressLoop_succ, ih (by omega), Option.map_none]

theorem decodes_rle (last : UInt32) {r : ℕ} (hr : r < 256) :
    Decodes ⟨numBits 2 BitmapCompressionFlag.rle.code ++ numBits 8 r,
      List.replicate (r + 1) last⟩ last last := by
  have hread : ∀ s rest m, Bitstream.Reads s
      (numBits 2 BitmapCompressionFlag.rle.code ++ numBits 8 r ++ rest) →
      ∃ s' : Bitstream, s'.Reads rest ∧ decompressLoop (m + 1) last 0 s =
        (decompressLoop m last r s').map (last :: ·) := by
    intro s rest m hs
    rw [List.append_assoc] at hs
    obtain ⟨s₁, hs₁, h₁, -⟩ := Bitstream.get_spec 2 _ 0 hs
    obtain ⟨s', hs', h', -⟩ := Bitstream.get_spec 8 _ 0 h₁
    have hr' : 0 * 2 ^ 8 + r % 2 ^ 8 = r := by
      rw [Nat.zero_mul, Nat.zero_add, Nat.mod_eq_of_lt (show r < 2 ^ 8 from hr)]
    refine ⟨s', h', ?_⟩
    rw [decompressLoop_flag, hs₁, Option.bind_some]
    simp only [hs', Option.bind_some, hr']
    rfl
  constructor
  · exact List.length_replicate.symm ▸ Nat.succ_pos r
  · intro s rest m hs
    obtain ⟨s', h', hloop⟩ := hread s rest (r + m) hs
    refine ⟨s', h', ?_⟩
    rw [List.length_replicate, Nat.add_right_comm, hloop, decompressLoop_repeat, Option.map_map]
    rfl
  · intro s bs m hs hbits hlt
    obtain ⟨-, hlt⟩ | ⟨ds, rfl, -⟩ := prefix_append_or hbits
    · exact decompressLoop_flag_none m hs hlt
    · rw [List.length_append, List.length_append, Nat.add_lt_add_iff_left] at hlt
      obtain ⟨s₁, hs₁, h₁, -⟩ := Bitstream.get_spec 2 _ 0 hs
      have hr' := Bitstream.get_eq_none 0 h₁ hlt
      rw [length_numBits] at hr'
      rw [decompressLoop_flag, hs₁, Option.bind_some]
      simp only [hr', Option.bind_none]
      rfl
  · intro s rest m hs hlt
    obtain ⟨s', -, hloop⟩ := hread s rest m hs
    rw [List.length_replicate] at hlt
    rw [hloop, decompressLoop_repeat_part (by omega), Option.map_none]

/-! ## What all codes give -/

/-- All codes are read. -/
theorem DecodesAll.loop (h : DecodesAll cs last last') {s : Bitstream} {rest : List Bool}
    (hs : s.Reads (streamBits cs ++ rest)) :
    decompressLoop (streamWords cs).length last 0 s = some (streamWords cs) := by
  induction h generalizing s with
  | nil last => rfl
  | @cons c cs _ _ _ hc _ ih =>
    rw [streamBits_cons, List.append_assoc] at hs
    obtain ⟨s', hs', hloop⟩ := hc.whole s _ (streamWords cs).length hs
    rw [streamWords_cons, List.length_append, hloop, ih hs', Option.map_some]

/-- Some first codes have this number of words together, and at most this number of bits. -/
def EndsAt (cs : List Code) (words bits : ℕ) : Prop :=
  ∃ i, (streamWords (cs.take i)).length = words ∧ (streamBits (cs.take i)).length ≤ bits

theorem endsAt_zero (cs : List Code) (bits : ℕ) : EndsAt cs 0 bits := ⟨0, rfl, Nat.zero_le _⟩

/-- Behind the first code. -/
theorem endsAt_cons {m n : ℕ} (hm : 0 < m) :
    EndsAt (c :: cs) m n ↔ c.words.length ≤ m ∧ c.bits.length ≤ n ∧
      EndsAt cs (m - c.words.length) (n - c.bits.length) := by
  constructor
  · rintro ⟨i, hwords, hbits⟩
    cases i with
    | zero => exact absurd hwords.symm hm.ne'
    | succ i =>
      rw [List.take_succ_cons, streamWords_cons, List.length_append] at hwords
      rw [List.take_succ_cons, streamBits_cons, List.length_append] at hbits
      exact ⟨by omega, by omega, i, by omega, by omega⟩
  · rintro ⟨hm', hn, i, hwords, hbits⟩
    refine ⟨i + 1, ?_, ?_⟩
    · rw [List.take_succ_cons, streamWords_cons, List.length_append]
      omega
    · rw [List.take_succ_cons, streamBits_cons, List.length_append]
      omega

/-- **When the loop fails** on bits of which some are missing: unless the words that it wants are
those of some first codes, and these are there. -/
theorem DecodesAll.loop_eq_none_iff (h : DecodesAll cs last last') {s : Bitstream}
    (hs : s.Reads bs) (hbits : bs <+: streamBits cs) {m : ℕ} (hm : m ≤ (streamWords cs).length) :
    decompressLoop m last 0 s = none ↔ ¬ EndsAt cs m bs.length := by
  induction h generalizing s bs m with
  | nil last =>
    obtain rfl : m = 0 := Nat.le_zero.mp hm
    exact iff_of_false (Option.some_ne_none _) (not_not.mpr (endsAt_zero _ _))
  | @cons c cs last _ _ hc _ ih =>
    cases m with
    | zero => exact iff_of_false (Option.some_ne_none _) (not_not.mpr (endsAt_zero _ _))
    | succ m =>
      rw [endsAt_cons (Nat.succ_pos m)]
      rw [streamBits_cons] at hbits
      obtain hshort | ⟨ds, rfl, hds⟩ := prefix_append_or hbits
      · -- bits of the first code are missing
        refine iff_of_true (hc.cut s bs m hs hshort.1 hshort.2) fun hends => ?_
        exact absurd hends.2.1 (Nat.not_le.mpr hshort.2)
      · by_cases hpart : m + 1 < c.words.length
        · refine iff_of_true (hc.part s ds m hs hpart) fun hends => ?_
          exact absurd hends.1 (Nat.not_le.mpr hpart)
        · obtain ⟨k, hk⟩ := Nat.exists_eq_add_of_le (Nat.not_lt.mp hpart)
          obtain ⟨s', hs', hloop⟩ := hc.whole s ds k hs
          rw [streamWords_cons, List.length_append] at hm
          rw [Nat.succ_eq_add_one, hk, hloop, Option.map_eq_none_iff, ih hs' hds (by omega),
            List.length_append, Nat.add_sub_cancel_left, Nat.add_sub_cancel_left,
            and_iff_right (Nat.le_add_right _ _), and_iff_right (Nat.le_add_right _ _)]

/-- All words are those of all codes. -/
theorem DecodesAll.not_endsAt (h : DecodesAll cs last last') {n : ℕ}
    (hn : n < (streamBits cs).length) : ¬ EndsAt cs (streamWords cs).length n := by
  rintro ⟨i, hwords, hbits⟩
  have hsplit := congrArg (List.length ∘ streamWords) (List.take_append_drop i cs)
  simp only [Function.comp_apply, streamWords_append, List.length_append] at hsplit
  -- the codes that are left have no words, so there are none
  cases hdrop : cs.drop i with
  | nil =>
    rw [← List.take_append_drop i cs, hdrop, List.append_nil] at hn
    omega
  | cons c cs' =>
    have hpos := h.pos c (List.mem_of_mem_drop (hdrop ▸ List.mem_cons_self))
    rw [hdrop, streamWords_cons, List.length_append] at hsplit
    omega

/-! ## The compressor writes the codes -/

/-- What the flag of a word says about it. -/
def BitmapCompressionFlag.Describes : BitmapCompressionFlag → UInt32 → Prop
  | zero, w => w = 0
  | one, w => w = 0xFFFFFFFF
  | rle, _ => False
  | raw, _ => True

variable {flag : BitmapCompressionFlag} {n : ℕ} {ws : List UInt32}

theorem decodesAll_pendingCodes (hflag : flag.Describes last) (hn : n ≤ 256) :
    DecodesAll (pendingCodes n flag last) last last := by
  rw [pendingCodes]
  split
  · next hrle =>
    have hdec := decodes_rle last (show n - 1 < 256 by omega)
    rw [Nat.sub_add_cancel hrle.1] at hdec
    exact .cons hdec (.nil last)
  · next hrle =>
    have hone : 0 < n → Decodes ⟨numBits 2 flag.code, [last]⟩ last last := by
      intro hpos
      cases flag with
      | zero =>
        cases hflag
        exact decodes_zero _
      | one =>
        cases hflag
        exact decodes_one _
      | rle => cases hflag
      | raw => exact absurd ⟨hpos, Or.inl rfl⟩ hrle
    clear hrle hn
    induction n with
    | zero => exact .nil last
    | succ n ih => exact .cons (hone (Nat.succ_pos n)) (ih fun _ => hone (Nat.succ_pos n))

theorem decodesAll_codesFrom {first : Bool} (hflag : flag.Describes last) (hn : n ≤ 256) :
    ∃ last', DecodesAll (codesFrom ws first last flag n) last last' := by
  induction ws generalizing first last flag n with
  | nil => exact ⟨last, decodesAll_pendingCodes hflag hn⟩
  | cons w ws ih =>
    rw [codesFrom]
    split
    · next hrep => exact ih hflag (by omega)
    · have hpending := decodesAll_pendingCodes hflag hn
      -- the word itself, in each of the three forms, and then the rest
      split_ifs with hzero hone
      · subst hzero
        obtain ⟨last', hrest⟩ :=
          ih (show BitmapCompressionFlag.Describes .zero 0 from rfl) (Nat.zero_le _)
        exact ⟨last', hpending.append (.cons (decodes_zero last) hrest)⟩
      · subst hone
        obtain ⟨last', hrest⟩ :=
          ih (show BitmapCompressionFlag.Describes .one 0xFFFFFFFF from rfl) (Nat.zero_le _)
        exact ⟨last', hpending.append (.cons (decodes_one last) hrest)⟩
      · obtain ⟨last', hrest⟩ :=
          ih (show BitmapCompressionFlag.Describes .raw w from trivial) (Nat.zero_le _)
        exact ⟨last', hpending.append (.cons (decodes_raw last w) hrest)⟩

theorem decodesAll_codes (bitmap : List UInt32) :
    ∃ last, DecodesAll (codes bitmap) 0 last :=
  decodesAll_codesFrom (show BitmapCompressionFlag.Describes .zero 0 from rfl) (Nat.zero_le _)

variable {s s' : Bitstream}

/-- Bits are written behind those that were. -/
def Appends (s s' : Bitstream) (as : List Bool) : Prop :=
  ∀ bs, s.Writes bs → s'.Writes (bs ++ as) ∧ s'.data.length = s.data.length

theorem Appends.refl (s : Bitstream) : Appends s s [] :=
  fun _ h => ⟨by rwa [List.append_nil], rfl⟩

theorem Appends.trans {s'' : Bitstream} {as' : List Bool} (h : Appends s s' as)
    (h' : Appends s' s'' as') : Appends s s'' (as ++ as') := by
  intro bs hs
  obtain ⟨hbits, hlen⟩ := h bs hs
  obtain ⟨hbits', hlen'⟩ := h' _ hbits
  exact ⟨by rwa [← List.append_assoc], hlen'.trans hlen⟩

theorem appends_put {v : ℕ} (hs : s.put v n = some s') : Appends s s' (numBits n v) :=
  fun _ h => Bitstream.put_eq_some h hs

/-- A flag and a number behind it. -/
theorem appends_put_put {m u v : ℕ} (hs : (s.put v n).bind (Bitstream.put u m) = some s') :
    Appends s s' (numBits n v ++ numBits m u) := by
  obtain ⟨s₁, hs₁, hs⟩ := Option.bind_eq_some_iff.mp hs
  exact (appends_put hs₁).trans (appends_put hs)

theorem appends_putFlag (hs : putFlag flag n s = some s') (last : UInt32) :
    Appends s s' (streamBits (List.replicate n ⟨numBits 2 flag.code, [last]⟩)) := by
  induction n generalizing s with
  | zero =>
    cases hs
    exact .refl _
  | succ n ih =>
    obtain ⟨s₁, hs₁, hs⟩ := Option.bind_eq_some_iff.mp hs
    exact (appends_put hs₁).trans (ih hs)

theorem appends_pending (hs : bitmapEncodePending n flag s = some s') (last : UInt32) :
    Appends s s' (streamBits (pendingCodes n flag last)) := by
  rw [bitmapEncodePending] at hs
  rw [pendingCodes]
  split_ifs at hs with hpos
  · rw [bitmapEncodeRLE] at hs
    split_ifs at hs with hrle
    · rw [if_pos ⟨hpos, hrle⟩, streamBits_cons, streamBits_nil, List.append_nil]
      exact appends_put_put hs
    · rw [if_neg fun h => hrle h.2]
      exact appends_putFlag hs last
  · cases hs
    rw [if_neg fun h => hpos h.1, Nat.eq_zero_of_not_pos hpos]
    exact .refl _

/-- **The compressor's loop writes the codes.** -/
theorem compressLoop_writes {first : Bool} (hs : compressLoop ws first last flag n s = some s') :
    Appends s s' (streamBits (codesFrom ws first last flag n)) := by
  induction ws generalizing first last flag n s with
  | nil => exact appends_pending hs last
  | cons w ws ih =>
    rw [compressLoop] at hs
    rw [codesFrom]
    by_cases hrep : w = last ∧ n ≤ 255 ∧ first = false
    · rw [if_pos hrep] at hs ⊢
      exact ih hs
    · rw [if_neg hrep] at hs ⊢
      obtain ⟨s₁, hs₁, hs⟩ := Option.bind_eq_some_iff.mp hs
      rw [streamBits_append]
      refine (appends_pending hs₁ last).trans ?_
      split_ifs at hs ⊢ with hzero hone
      · obtain ⟨s₂, hs₂, hs⟩ := Option.bind_eq_some_iff.mp hs
        exact (appends_put hs₂).trans (ih hs)
      · obtain ⟨s₂, hs₂, hs⟩ := Option.bind_eq_some_iff.mp hs
        exact (appends_put hs₂).trans (ih hs)
      · obtain ⟨s₂, hs₂, hs⟩ := Option.bind_eq_some_iff.mp hs
        exact (appends_put_put hs₂).trans (ih hs)

/-! ## The header -/

theorem bitmapCompressWriteHeader_spec (compressionType : BitmapCompressionType) (blockCount : ℕ)
    {maxOutDataSize : ℕ} (hmax : 2 ≤ maxOutDataSize) :
    ∃ s, bitmapCompressWriteHeader compressionType blockCount
        (.init (List.replicate maxOutDataSize 0)) = some s ∧
      s.Writes (numBits 1 compressionType.code ++ List.replicate 3 false ++
        numBits 12 blockCount) ∧ s.data.length = maxOutDataSize := by
  have h₀ := Bitstream.writes_init maxOutDataSize
  have hlen₀ : (Bitstream.init (List.replicate maxOutDataSize 0)).data.length = maxOutDataSize :=
    List.length_replicate
  obtain ⟨s₁, hs₁⟩ := Bitstream.put_isSome (n := 1) (v := compressionType.code) h₀
    (by rw [hlen₀, List.length_nil]; omega)
  obtain ⟨h₁, hlen₁⟩ := Bitstream.put_eq_some h₀ hs₁
  have hoff₁ : s₁.offset = 1 := by simpa using h₁.length.symm
  have hs₂ : s₁.skip 3 = some _ := if_neg (by
    rw [Bitstream.offset] at hoff₁
    omega)
  obtain ⟨h₂, hlen₂⟩ := Bitstream.skip_eq_some h₁ hs₂ (by simp [hlen₁, hlen₀]; omega)
  obtain ⟨s₃, hs₃⟩ := Bitstream.put_isSome (n := 12) (v := blockCount) h₂
    (by simp [hlen₁, hlen₀]; omega)
  obtain ⟨h₃, hlen₃⟩ := Bitstream.put_eq_some h₂ hs₃
  refine ⟨s₃, ?_, by simpa using h₃, ?_⟩
  · rw [bitmapCompressWriteHeader, hs₁, Option.bind_some, hs₂, Option.bind_some, hs₃]
  · rw [hlen₃, hlen₂, hlen₁, hlen₀]

/-- The decompressor reads the header back, the count of 12 bits. -/
theorem bitmapDecompressInit_spec {data : List UInt8} {compressionType : BitmapCompressionType}
    {blockCount : ℕ} {rest : List Bool}
    (h : (Bitstream.init data).Reads (numBits 1 compressionType.code ++ List.replicate 3 false ++
      numBits 12 blockCount ++ rest)) :
    ∃ s : Bitstream, bitmapDecompressInit data = some ⟨s, compressionType, blockCount % 4096⟩ ∧
      s.Reads rest ∧ s.data = data := by
  rw [List.append_assoc, List.append_assoc] at h
  obtain ⟨s₁, hs₁, h₁, hdata₁⟩ := Bitstream.get_spec 1 _ 0 h
  obtain ⟨s₂, hs₂, h₂, hdata₂⟩ := Bitstream.skip_reads h₁ List.length_replicate (by omega)
  obtain ⟨s₃, hs₃, h₃, hdata₃⟩ := Bitstream.get_spec 12 _ 0 h₂
  refine ⟨s₃, ?_, h₃, hdata₃.trans (hdata₂.trans hdata₁)⟩
  rw [bitmapDecompressInit, hs₁, Option.bind_some, hs₂, Option.bind_some, hs₃, Option.map_some,
    Nat.zero_mul, Nat.zero_add]
  cases compressionType <;> rfl

/-! ## The words as they are -/

@[simp] theorem length_wordBytes (bitmap : List UInt32) :
    (wordBytes bitmap).length = 4 * bitmap.length := by
  induction bitmap with
  | nil => rfl
  | cons w bitmap ih =>
    rw [wordBytes] at ih ⊢
    rw [List.flatMap_cons, List.length_append, ih, length_toLittleEndian, List.length_cons]
    omega

theorem wordsOfBytes_wordBytes (bitmap : List UInt32) :
    wordsOfBytes bitmap.length (wordBytes bitmap) = bitmap := by
  induction bitmap with
  | nil => rfl
  | cons w bitmap ih =>
    have hlen : (toLittleEndian 4 w.toNat).length = 4 := length_toLittleEndian 4 _
    have hw : w.toNat % 256 ^ 4 = w.toNat := Nat.mod_eq_of_lt w.toNat_lt
    rw [wordBytes] at ih
    rw [wordBytes, List.flatMap_cons, List.length_cons, wordsOfBytes, List.take_left' hlen,
      List.drop_left' hlen, ofLittleEndian_toLittleEndian, hw, UInt32.ofNat_toNat, ih]

/-- The bits of a header. -/
def headerBits (compressionType : BitmapCompressionType) (blockCount : ℕ) : List Bool :=
  numBits 1 compressionType.code ++ List.replicate 3 false ++ numBits 12 blockCount

@[simp] theorem length_headerBits (compressionType : BitmapCompressionType) (blockCount : ℕ) :
    (headerBits compressionType blockCount).length = 16 := by
  simp [headerBits]

/-- The data of a bitmap, in each of the two types. -/
def Compressed (bitmap : List UInt32) (data : List UInt8) : BitmapCompressionType → Prop
  | .no => ∃ header, bitsOf header = headerBits .no bitmap.length ∧
      data = header ++ wordBytes bitmap
  | .default => ∃ pad, pad.length < 8 ∧
      bitsOf data = headerBits .default bitmap.length ++ streamBits (codes bitmap) ++ pad

variable {bitmap : List UInt32} {data : List UInt8} {maxOutDataSize : ℕ}
  {stored : BitmapCompressionType}

theorem bitmapCompressNo_compressed (bitmap : List UInt32) (hmax : 2 ≤ maxOutDataSize) :
    ∃ data, bitmapCompressNo bitmap maxOutDataSize = some data ∧ Compressed bitmap data .no := by
  obtain ⟨s, hs, hw, hlen⟩ := bitmapCompressWriteHeader_spec .no bitmap.length hmax
  refine ⟨s.data.take 2 ++ wordBytes bitmap, by rw [bitmapCompressNo, hs]; rfl, _, ?_, rfl⟩
  rw [bitsOf_take, hw.bits, List.take_left' (by simp)]
  rfl

theorem bitmapCompress_compressed (compressionType : BitmapCompressionType) (bitmap : List UInt32)
    (hmax : 4 * bitmap.length + 2 ≤ maxOutDataSize) :
    ∃ data stored, bitmapCompress compressionType bitmap maxOutDataSize = some data ∧
      data.length ≤ maxOutDataSize ∧ Compressed bitmap data stored ∧
      (compressionType = .no → stored = .no) := by
  obtain ⟨dataNo, hno, hstored⟩ := bitmapCompressNo_compressed bitmap
    (show 2 ≤ maxOutDataSize by omega)
  have hlen : dataNo.length ≤ maxOutDataSize := by
    obtain ⟨header, hheader, rfl⟩ := hstored
    have hbits := congrArg List.length hheader
    rw [length_bitsOf, length_headerBits] at hbits
    rw [List.length_append, length_wordBytes]
    omega
  cases compressionType with
  | no => exact ⟨dataNo, .no, hno, hlen, hstored, fun _ => rfl⟩
  | default =>
    obtain ⟨s, hs, hw, hlen'⟩ := bitmapCompressWriteHeader_spec .default bitmap.length
      (show 2 ≤ maxOutDataSize by omega)
    rw [bitmapCompress, hs, Option.bind_some]
    cases hcomp : bitmapCompressDefault bitmap s with
    | none => exact ⟨dataNo, .no, hno, hlen, hstored, fun _ => rfl⟩
    | some s' =>
      obtain ⟨hw', hlen''⟩ := compressLoop_writes hcomp _ hw
      obtain ⟨pad, hbits, hpad⟩ := hw'.bitsOf_take
      refine ⟨_, .default, rfl, ?_, ⟨pad, hpad, hbits⟩, fun h => ?_⟩
      · rw [List.length_take, hlen'', hlen']
        exact min_le_right _ _
      · cases h

/-! ## The round trip -/

/-- What the compressor has written, the decompressor reads back. -/
theorem Compressed.decompress (h : Compressed bitmap data stored) (hbitmap : bitmap.length < 4096) :
    ∃ state, bitmapDecompressInit data = some state ∧ state.compressionType = stored ∧
      state.blockCount = bitmap.length ∧ bitmapDecompress state bitmap.length = some bitmap := by
  have hreads := Bitstream.reads_init data
  cases stored with
  | no =>
    obtain ⟨header, hheader, rfl⟩ := h
    have htwo : header.length = 2 := by
      have hbits := congrArg List.length hheader
      rw [length_bitsOf, length_headerBits] at hbits
      omega
    rw [bitsOf_append, hheader] at hreads
    obtain ⟨s, hs, -, hdata⟩ := bitmapDecompressInit_spec hreads
    rw [Nat.mod_eq_of_lt hbitmap] at hs
    refine ⟨_, hs, rfl, rfl, ?_⟩
    rw [bitmapDecompress, if_neg (lt_irrefl _)]
    simp only [hdata, List.drop_left' htwo, length_wordBytes, wordsOfBytes_wordBytes]
    rw [if_neg (lt_irrefl _)]
  | default =>
    obtain ⟨pad, -, hbits⟩ := h
    obtain ⟨last, hdec⟩ := decodesAll_codes bitmap
    rw [hbits, List.append_assoc] at hreads
    obtain ⟨s, hs, hreads', -⟩ := bitmapDecompressInit_spec hreads
    have hloop := hdec.loop hreads'
    rw [streamWords_codes] at hloop
    rw [Nat.mod_eq_of_lt hbitmap] at hs
    refine ⟨_, hs, rfl, rfl, ?_⟩
    rw [bitmapDecompress, if_neg (lt_irrefl _)]
    exact hloop

theorem Compressed.two_le (h : Compressed bitmap data stored) : 2 ≤ data.length := by
  cases stored with
  | no =>
    obtain ⟨header, hheader, rfl⟩ := h
    have hbits := congrArg List.length hheader
    rw [length_bitsOf, length_headerBits] at hbits
    rw [List.length_append]
    omega
  | default =>
    obtain ⟨pad, -, hbits⟩ := h
    have hlen := congrArg List.length hbits
    rw [length_bitsOf, List.length_append, List.length_append, length_headerBits] at hlen
    omega

theorem Compressed.length_no (h : Compressed bitmap data .no) :
    data.length = 4 * bitmap.length + 2 := by
  obtain ⟨header, hheader, rfl⟩ := h
  have hbits := congrArg List.length hheader
  rw [length_bitsOf, length_headerBits] at hbits
  rw [List.length_append, length_wordBytes]
  omega

/-- What the compressor writes into a buffer that has room for the words as they are, the
decompressor reads back. -/
theorem bitmapDecompress_compress (compressionType : BitmapCompressionType) {bitmap : List UInt32}
    (hbitmap : bitmap.length < 4096) :
    ∃ data, bitmapCompress compressionType bitmap (4 * bitmap.length + 2) = some data ∧
      2 ≤ data.length ∧ data.length ≤ 4 * bitmap.length + 2 ∧
      ∃ state, bitmapDecompressInit data = some state ∧ state.blockCount = bitmap.length ∧
        bitmapDecompress state bitmap.length = some bitmap := by
  obtain ⟨data, stored, hcomp, hlen, hstored, -⟩ :=
    bitmapCompress_compressed compressionType bitmap le_rfl
  obtain ⟨state, hinit, -, hcount, hdec⟩ := hstored.decompress hbitmap
  exact ⟨data, hcomp, hstored.two_le, hlen, state, hinit, hcount, hdec⟩

/-- **The round trip.** The result is no longer than the buffer, and where the words have been
stored as they are it has the length of the words and the header. The decompressor reads it back. -/
theorem bitmapCompress_round_trip (compressionType : BitmapCompressionType) (bitmap : List UInt32)
    (hbitmap : bitmap.length ≤ 4095) (maxOutDataSize : ℕ)
    (hmax : 4 * bitmap.length + 2 ≤ maxOutDataSize) :
    ∃ data, bitmapCompress compressionType bitmap maxOutDataSize = some data ∧
      2 ≤ data.length ∧ data.length ≤ maxOutDataSize ∧
      ∃ state, bitmapDecompressInit data = some state ∧
        (state.compressionType = .no → data.length = 4 * bitmap.length + 2) ∧
        (compressionType = .no → state.compressionType = .no) ∧
        state.blockCount = bitmap.length ∧ bitmapDecompress state bitmap.length = some bitmap := by
  obtain ⟨data, stored, hcomp, hlen, hstored, hno⟩ :=
    bitmapCompress_compressed compressionType bitmap hmax
  obtain ⟨state, hinit, htype, hcount, hdec⟩ := hstored.decompress (Nat.lt_succ_of_le hbitmap)
  refine ⟨data, hcomp, hstored.two_le, hlen, state, hinit, fun h => ?_, fun h => ?_, hcount, hdec⟩
  · rw [← htype, h] at hstored
    exact hstored.length_no
  · rw [htype, hno h]

/-- A word that is stored as it is takes 34 bits, which is more than its four bytes. -/
theorem length_bitmapCompress_one_word :
    ¬ ∀ (compressionType : BitmapCompressionType) (bitmap : List UInt32), bitmap.length ≤ 4095 →
      ∀ maxOutDataSize, 4 * bitmap.length + 2 ≤ maxOutDataSize →
        ∃ data, bitmapCompress compressionType bitmap maxOutDataSize = some data ∧
          2 ≤ data.length ∧ data.length ≤ 4 * bitmap.length + 2 := by
  intro h
  obtain ⟨data, hdata, -, hlen⟩ := h .default [1] (by decide) 7 (by decide)
  have hcomp : bitmapCompress .default [1] 7 = some [128, 1, 192, 0, 0, 0, 64] := by
    decide
  rw [hcomp] at hdata
  cases hdata
  exact absurd hlen (by decide)

theorem bitmapCompress_round_trip_repeats :
    ∃ data, bitmapCompress .default [5, 5, 5, 0, 0xFFFFFFFF] 22 = some data ∧ data.length ≤ 22 ∧
      ∃ state, bitmapDecompressInit data = some state ∧
        bitmapDecompress state 5 = some [5, 5, 5, 0, 0xFFFFFFFF] := by
  obtain ⟨data, hcomp, -, hlen, state, hinit, -, -, -, hdec⟩ :=
    bitmapCompress_round_trip .default [5, 5, 5, 0, 0xFFFFFFFF] (by decide) 22 (by decide)
  exact ⟨data, hcomp, hlen, state, hinit, hdec⟩

end Hdb.AppendOnly

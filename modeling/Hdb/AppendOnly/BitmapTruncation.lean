import Hdb.AppendOnly.BitmapCompression

/-!
# Compressed bitmaps that have been cut

A reader may get only the first bytes of a compressed bitmap. With less than the header the stream
has an error. Behind the header, each of the bits is needed when the words have been encoded and the
header has their number. It has twelve bits for it, so of 4096 words and more it wants only the
first, and cut data can have all codes of these (`EndsAt`). Words that have been stored as they are
come from a copy which does not look at the size of the data.

Main result: `truncation_detected_iff`.
-/

namespace Hdb.AppendOnly

/-- What `BitmapDecompress_Decompress` does. -/
inductive DecompressOutcome
  | error
  /-- The copy takes bytes from behind the data. -/
  | overread
  | words (bitmap : List UInt32)

def bitmapDecompressOutcome (state : BitmapDecompressState) (bitmapDataSize : ℕ) :
    DecompressOutcome :=
  if state.blockCount > bitmapDataSize then .error
  else
    match state.compressionType with
    | .no =>
      let bytes := state.bitstream.data.drop 2
      if bytes.length < 4 * state.blockCount then .overread
      else .words (wordsOfBytes state.blockCount bytes)
    | .default =>
      match decompressLoop state.blockCount 0 0 state.bitstream with
      | none => .error
      | some bitmap => .words bitmap

/-- The stream has an error, or the decompression raises one. -/
def Detected (inData : List UInt8) (bitmapDataSize : ℕ) : Prop :=
  bitmapDecompressInit inData = none ∨
    ∃ state, bitmapDecompressInit inData = some state ∧
      bitmapDecompressOutcome state bitmapDataSize = .error

theorem bitmapDecompressInit_eq_none {data : List UInt8} (h : data.length < 2) :
    bitmapDecompressInit data = none := by
  have hreads := Bitstream.reads_init data
  rw [bitmapDecompressInit]
  obtain hlen | hlen : data.length = 0 ∨ data.length = 1 := by omega
  · have hflag := Bitstream.get_eq_none (n := 1) 0 hreads (by
      rw [length_bitsOf]
      omega)
    rw [hflag, Option.bind_none]
  · have hbits : (bitsOf data).length = 8 := by rw [length_bitsOf, hlen]
    obtain ⟨v, s₁, hs₁, h₁, hdata₁⟩ := Bitstream.get_isSome (n := 1) 0 hreads (by omega)
    rw [← List.take_append_drop 3 ((bitsOf data).drop 1)] at h₁
    obtain ⟨s₂, hs₂, h₂, -⟩ := Bitstream.skip_reads (n := 3) h₁
      (by rw [List.length_take, List.length_drop, hbits]; rfl) (by omega)
    have hcount := Bitstream.get_eq_none (n := 12) 0 h₂ (by
      rw [List.length_drop, List.length_drop, hbits]
      omega)
    rw [hs₁, Option.bind_some, hs₂, Option.bind_some, hcount, Option.map_none]

variable {bitmap : List UInt32} {data : List UInt8} {stored : BitmapCompressionType}

/-- The first bit says how the words are stored. -/
theorem Compressed.bitAt_zero (h : Compressed bitmap data stored) :
    bitAt data 0 = true ↔ stored = .default := by
  have hpos : 0 < (bitsOf data).length := by
    rw [length_bitsOf]
    have htwo := h.two_le
    omega
  rw [← getElem_bitsOf data 0 hpos]
  cases stored with
  | no =>
    obtain ⟨header, hheader, rfl⟩ := h
    simp only [bitsOf_append, hheader]
    exact iff_of_false Bool.false_ne_true BitmapCompressionType.noConfusion
  | default =>
    obtain ⟨pad, -, hbits⟩ := h
    simp only [hbits]
    exact iff_of_true rfl trivial

/-- The header of cut data is read as before. -/
theorem Compressed.init_take (h : Compressed bitmap data stored) {k : ℕ} (hk : 2 ≤ k) :
    ∃ s : Bitstream,
      bitmapDecompressInit (data.take k) = some ⟨s, stored, bitmap.length % 4096⟩ ∧
      s.Reads ((bitsOf data).drop 16 |>.take (8 * k - 16)) ∧ s.data = data.take k := by
  have hreads := Bitstream.reads_init (data.take k)
  have hheader : (bitsOf data).take 16 = headerBits stored bitmap.length := by
    cases stored with
    | no =>
      obtain ⟨header, hheader, rfl⟩ := h
      rw [bitsOf_append, hheader, List.take_left' (length_headerBits _ _)]
    | default =>
      obtain ⟨pad, -, hbits⟩ := h
      rw [hbits, List.append_assoc, List.take_left' (length_headerBits _ _)]
  have hsplit : bitsOf (data.take k) =
      headerBits stored bitmap.length ++ ((bitsOf data).drop 16).take (8 * k - 16) := by
    rw [bitsOf_take, ← hheader, ← List.take_add, show 16 + (8 * k - 16) = 8 * k by omega]
  rw [hsplit] at hreads
  exact bitmapDecompressInit_spec hreads

/-- Cut data has fewer bits than the codes. -/
theorem Compressed.lt_streamBits (h : Compressed bitmap data .default) {k : ℕ} (hk2 : 2 ≤ k)
    (hk : k < data.length) : 8 * k - 16 < (streamBits (codes bitmap)).length := by
  obtain ⟨pad, hpad, hbits⟩ := h
  have hlen := congrArg List.length hbits
  rw [length_bitsOf, List.length_append, List.length_append, length_headerBits] at hlen
  omega

/-- When the loop fails on the bits of cut data. -/
theorem Compressed.loop_eq_none_iff (h : Compressed bitmap data .default) {s : Bitstream} {k : ℕ}
    (hk2 : 2 ≤ k) (hk : k < data.length)
    (hs : s.Reads ((bitsOf data).drop 16 |>.take (8 * k - 16))) {n : ℕ} (hn : n ≤ bitmap.length) :
    decompressLoop n 0 0 s = none ↔ ¬ EndsAt (codes bitmap) n (8 * k - 16) := by
  have hlt := h.lt_streamBits hk2 hk
  obtain ⟨pad, -, hbits⟩ := h
  obtain ⟨last, hdec⟩ := decodesAll_codes bitmap
  rw [hbits, List.append_assoc, List.drop_left' (length_headerBits _ _),
    List.take_append_of_le_length hlt.le] at hs
  rw [← streamWords_codes bitmap] at hn
  have hiff := hdec.loop_eq_none_iff hs (List.take_prefix _ _) hn
  rwa [List.length_take, min_eq_left hlt.le] at hiff

theorem Detected.of_lt_two {k : ℕ} (hk : k < 2) (bitmapDataSize : ℕ) :
    Detected (data.take k) bitmapDataSize := by
  refine Or.inl (bitmapDecompressInit_eq_none ?_)
  rw [List.length_take]
  omega

/-- Behind the header it is the decompression that decides. -/
theorem Compressed.detected_iff (h : Compressed bitmap data stored) {k : ℕ} (hk2 : 2 ≤ k)
    (hk : k < data.length) {bitmapDataSize : ℕ} (hsize : bitmap.length ≤ bitmapDataSize) :
    Detected (data.take k) bitmapDataSize ↔ stored = .default ∧
      ¬ EndsAt (codes bitmap) (bitmap.length % 4096) (8 * k - 16) := by
  obtain ⟨s, hinit, hreads, -⟩ := h.init_take hk2
  have hcount := Nat.mod_le bitmap.length 4096
  rw [Detected, hinit]
  simp only [reduceCtorEq, false_or, Option.some.injEq, exists_eq_left', bitmapDecompressOutcome]
  rw [if_neg (Nat.not_lt.mpr (hcount.trans hsize))]
  cases stored with
  | no =>
    refine iff_of_false (fun herror => ?_) (fun hdefault => absurd hdefault.1 (by decide))
    dsimp only at herror
    split_ifs at herror
  | default =>
    have hiff := h.loop_eq_none_iff hk2 hk hreads hcount
    rw [← hiff, and_iff_right rfl]
    dsimp only
    cases decompressLoop (bitmap.length % 4096) 0 0 s with
    | none => exact iff_of_true rfl rfl
    | some ws => exact iff_of_false DecompressOutcome.noConfusion (Option.some_ne_none _)

/-- Of 4096 words the header has the number 0, and no cut behind it is detected. -/
theorem Compressed.not_detected_of_dvd (h : Compressed bitmap data stored) {k : ℕ} (hk2 : 2 ≤ k)
    (hk : k < data.length) {bitmapDataSize : ℕ} (hsize : bitmap.length ≤ bitmapDataSize)
    (hdvd : 4096 ∣ bitmap.length) : ¬ Detected (data.take k) bitmapDataSize := by
  rw [h.detected_iff hk2 hk hsize, Nat.mod_eq_zero_of_dvd hdvd]
  exact fun hdetected => hdetected.2 (endsAt_zero _ _)

/-- **When a cut is detected.** In the header always. Behind it only where the words have been
encoded, and unless the number in the header, which is theirs modulo 4096, is that of the words of
some first codes which are all there. -/
theorem truncation_detected_iff (compressionType : BitmapCompressionType) (bitmap : List UInt32)
    (maxOutDataSize : ℕ) (hmax : 4 * bitmap.length + 2 ≤ maxOutDataSize)
    (data : List UInt8)
    (hdata : bitmapCompress compressionType bitmap maxOutDataSize = some data) (k : ℕ)
    (hk : k < data.length) (bitmapDataSize : ℕ) (hsize : bitmap.length ≤ bitmapDataSize) :
    Detected (data.take k) bitmapDataSize ↔ k < 2 ∨ bitAt data 0 = true ∧
      (bitmap.length ≤ 4095 ∨
        ¬ EndsAt (codes bitmap) (bitmap.length % 4096) (8 * k - 16)) := by
  obtain ⟨data', stored, hdata', -, hstored, -⟩ :=
    bitmapCompress_compressed compressionType bitmap hmax
  obtain rfl : data' = data := Option.some.inj (hdata'.symm.trans hdata)
  by_cases hk2 : k < 2
  · exact iff_of_true (.of_lt_two hk2 bitmapDataSize) (Or.inl hk2)
  · rw [or_iff_right hk2, hstored.bitAt_zero, hstored.detected_iff (Nat.le_of_not_lt hk2) hk hsize]
    refine and_congr_right fun hdefault => ⟨Or.inr, fun hends => hends.elim (fun hcount => ?_) id⟩
    -- the header has the number of all words, and the last code is not all there
    subst hdefault
    obtain ⟨last, hdec⟩ := decodesAll_codes bitmap
    have hnot := hdec.not_endsAt (hstored.lt_streamBits (Nat.le_of_not_lt hk2) hk)
    rwa [streamWords_codes, ← Nat.mod_eq_of_lt (Nat.lt_succ_of_le hcount)] at hnot

/-- One word that has been stored as it is, without its last byte. -/
theorem not_detected_one_word :
    ¬ ∀ (compressionType : BitmapCompressionType) (bitmap : List UInt32), 1 ≤ bitmap.length →
      ∀ maxOutDataSize, 4 * bitmap.length + 2 ≤ maxOutDataSize →
        ∀ data, bitmapCompress compressionType bitmap maxOutDataSize = some data →
          ∀ k < data.length, Detected (data.take k) bitmap.length := by
  intro h
  have hcomp : bitmapCompress .default [1] 6 = some [0, 1, 1, 0, 0, 0] := by
    decide
  obtain hinit | ⟨state, hinit, houtcome⟩ :=
    h .default [1] (by decide) 6 (by decide) _ hcomp 5 (by decide)
  · exact absurd hinit (by decide)
  · have hstate : bitmapDecompressInit [0, 1, 1, 0, 0] =
        some ⟨⟨[0, 1, 1, 0, 0], 2, 0⟩, .no, 1⟩ := rfl
    cases hstate.symm.trans hinit
    exact absurd houtcome DecompressOutcome.noConfusion

theorem truncation_detected_repeats : Detected [128, 2, 192, 0, 0, 1] 2 := by
  have hcomp : bitmapCompress .default [5, 5] 10 = some [128, 2, 192, 0, 0, 1, 96, 0] := by
    decide
  exact (truncation_detected_iff .default [5, 5] 10 (by decide) _ hcomp 6 (by decide) 2
    (by decide)).mpr (Or.inr ⟨by decide, Or.inl (by decide)⟩)

end Hdb.AppendOnly

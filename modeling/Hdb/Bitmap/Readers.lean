import Hdb.Bitmap.Scan

/-!
# The two readers of a bitmap vector

A scan gets its words in batches, whichever vectors they come from. The tuple interface
(`_bitmap_next`) finds the tids in the words of a batch, some at a time, and hands them out one by
one. The stream interface (`pull_stream`) copies the words of a heap page, which may lie in several
batches, into a page table entry. Both keep their position in the words in a `BMIterateResult`, and
both shorten a fill word in place when they have read only a part of it.

`nextTid` is the tid before the next bit in the tuple interface and the tid of the next bit in the
stream interface, where it starts with 1. `TBM_BITS_PER_BITMAPWORD` is `BM_HRL_WORD_SIZE`, so that a
word of an entry is one word of the vector.
-/

namespace Hdb.Bitmap

/-- `BM_MAX_TUPLES_PER_PAGE`. -/
abbrev bmMaxTuplesPerPage : Nat := 65536

/-- `WORDS_PER_PAGE`. -/
abbrev wordsPerHeapPage : Nat := 1024

structure BMIterateResult where
  nextTid : Nat
  /-- The bit of the current word that was found last. -/
  lastScanPos : Nat
  lastScanWordNo : Nat
  /-- The tids found, `numOfTids` many. -/
  nextTids : List Nat
  nextTidLoc : Nat

/-- A batch and the position in it. -/
structure BatchReader where
  words : BMBatchWords
  result : BMIterateResult

def BatchReader.word (r : BatchReader) : BmHrlWord := r.words.cwords r.result.lastScanWordNo

def BatchReader.isFill (r : BatchReader) : Bool := isFillWord r.words.hwords r.result.lastScanWordNo

/-- The length of the current word if it is a fill word. -/
def BatchReader.fillLen (r : BatchReader) : Nat := if r.word = 0 then 1 else fillLength r.word

/-- Pass the current word, which has `n` bits left. -/
def BatchReader.pass (r : BatchReader) (n : Nat) : BatchReader :=
  ⟨{ r.words with nwords := r.words.nwords - 1 },
    { r.result with
      nextTid := r.result.nextTid + n
      lastScanWordNo := r.result.lastScanWordNo + 1
      lastScanPos := 0 }⟩

/-- Pass `n` words of the current word, which is a fill word and longer. -/
def BatchReader.shorten (r : BatchReader) (n : Nat) : BatchReader :=
  ⟨{ r.words with
      cwords := Function.update r.words.cwords r.result.lastScanWordNo
        (r.word - BitVec.ofNat 64 n) },
    r.result⟩

/-- The position of a scan: the current batch, and the batches that come after it. -/
structure BatchScan where
  done : Bool
  reader : BatchReader
  later : List BMBatchWords

/-- Get the next batch. -/
def BatchScan.nextBatch (s : BatchScan) : BatchScan :=
  match s.later with
  | [] =>
    { s with
      done := true
      reader := ⟨bitmapResetBatchwords s.reader.words,
        { s.reader.result with lastScanWordNo := 0 }⟩ }
  | b :: bs =>
    { s with
      reader := ⟨{ b with firstTid := s.reader.result.nextTid },
        { s.reader.result with lastScanWordNo := 0 }⟩
      later := bs }

/-! ## The tuple interface -/

/-- The rounds of `bitmapFindBitset`, from the position `pos`. -/
def findBitsetLoop (word : BmHrlWord) : Nat → Nat → Nat
  | 0, _ => 0
  | n + 1, pos => if word &&& 1#64 <<< (pos - 1) = 0 then findBitsetLoop word n (pos + 1) else pos

/-- The position, from 1, of the first bit set after `lastPos`, or 0. -/
def bitmapFindBitset (word : BmHrlWord) (lastPos : Nat) : Nat :=
  findBitsetLoop word (64 - lastPos) (lastPos + 1)

/-- Expand a fill word of ones of `nfillwords` words as far as there is space for the tids. Gives
how many words are left. -/
def expandFill (maxTids : Nat) : Nat → BatchReader → Nat × BatchReader
  | 0, r => (0, r)
  | n + 1, r =>
    if r.result.nextTids.length + 64 ≤ maxTids then
      expandFill maxTids n ⟨(r.shorten 1).words,
        { r.result with
          nextTids := r.result.nextTids ++ List.range' (r.result.nextTid + 1) 64
          nextTid := r.result.nextTid + 64 }⟩
    else (n + 1, r)

/-- The bits of a literal word after `oldScanPos`. A word has 64 bits, so that 65 rounds are
enough. -/
def scanLiteral (maxTids : Nat) : Nat → Nat → BatchReader → BatchReader
  | 0, _, r => r
  | n + 1, oldScanPos, r =>
    if r.result.nextTids.length < maxTids then
      let pos := bitmapFindBitset r.word oldScanPos
      if pos ≠ 0 then
        let nextTid := r.result.nextTid + (pos - oldScanPos)
        scanLiteral maxTids n pos ⟨r.words,
          { r.result with
            lastScanPos := pos
            nextTid := nextTid
            nextTids := r.result.nextTids ++ [nextTid] }⟩
      else r.pass (64 - oldScanPos)
    else r

/-- The rounds of `bitmapFindnexttids`. A round that does not end the loop passes a word, so that
`nwords` rounds are enough. -/
def findnexttidsLoop (maxTids : Nat) : Nat → BatchReader → BatchReader
  | 0, r => r
  | n + 1, r =>
    if 0 < r.words.nwords ∧ r.result.nextTids.length < maxTids then
      if r.result.lastScanPos = 0 ∧
        ((r.isFill = true ∧ getFillBit r.word = false) ∨ r.word = 0) then
        findnexttidsLoop maxTids n (r.pass (r.fillLen * 64))
      else if r.isFill = true ∧ getFillBit r.word = true then
        let (nfillwords, r) := expandFill maxTids (fillLength r.word) r
        if nfillwords = 0 then findnexttidsLoop maxTids n (r.pass 0) else r
      else
        findnexttidsLoop maxTids n (scanLiteral maxTids 65 r.result.lastScanPos r)
    else r

/-- Find the next tids, at most `maxTids`. -/
def bitmapFindnexttids (maxTids : Nat) (r : BatchReader) : BatchReader :=
  findnexttidsLoop maxTids r.words.nwords
    ⟨r.words, { r.result with nextTidLoc := 0, nextTids := [] }⟩

/-- Find the next tid, 0 if there is none in the batch. -/
def bitmapFindnexttid (maxTids : Nat) (r : BatchReader) : BatchReader × Nat :=
  let r := if r.result.nextTids.length ≤ r.result.nextTidLoc
    then bitmapFindnexttids maxTids r else r
  if h : r.result.nextTidLoc < r.result.nextTids.length then
    (⟨r.words, { r.result with nextTidLoc := r.result.nextTidLoc + 1 }⟩,
      r.result.nextTids[r.result.nextTidLoc])
  else (r, 0)

def bitmapBeginIterate (words : BMBatchWords) : BMIterateResult :=
  { nextTid := words.firstTid
    lastScanPos := 0
    lastScanWordNo := words.startNo
    nextTids := []
    nextTidLoc := 0 }

/-- The rounds of `bitmapNext`. A round that finds no tid comes to the end of its batch. -/
def bitmapNextLoop (maxTids : Nat) : Nat → BatchScan → BatchScan × Option Nat
  | 0, s => (s, none)
  | n + 1, s =>
    let s := if s.reader.words.nwords = 0 ∧
      s.reader.result.nextTids.length ≤ s.reader.result.nextTidLoc
      then
        let s := s.nextBatch
        { s with reader := ⟨s.reader.words, bitmapBeginIterate s.reader.words⟩ }
      else s
    if s.done then (s, none)
    else
      let (reader, nextTid) := bitmapFindnexttid maxTids s.reader
      if nextTid = 0 then bitmapNextLoop maxTids n { s with reader := reader }
      else ({ s with reader := reader }, some nextTid)

/-- The next tid of a scan. -/
def bitmapNext (maxTids : Nat) (s : BatchScan) : BatchScan × Option Nat :=
  if s.done then (s, none) else bitmapNextLoop maxTids (s.later.length + 2) s

/-! ## The stream interface -/

/-- A page of a tid bitmap: bit `k` stands for the offset number `k + 1`. -/
structure PagetableEntry where
  blockno : Nat
  /-- The page is lossy. -/
  ischunk : Bool
  recheck : Bool
  words : Nat → BmHrlWord

/-- `skipLoop` passes the words before `start`. Gives true when a fill of zeros reaches past the end
of the block, `stop`. -/
def skipLoop (start stop : Nat) : Nat → BatchReader → BatchReader × Bool
  | 0, r => (r, false)
  | n + 1, r =>
    if 0 < r.words.nwords ∧ r.result.nextTid < start then
      if r.isFill then
        if getFillBit r.word then
          if r.fillLen * 64 ≤ start - r.result.nextTid then
            skipLoop start stop n (r.pass (r.fillLen * 64))
          else
            let s := r.shorten ((start - r.result.nextTid) / 64)
            skipLoop start stop n ⟨s.words, { s.result with nextTid := start }⟩
        else if stop - r.result.nextTid < r.fillLen * 64 then (r.pass (r.fillLen * 64), true)
        else skipLoop start stop n (r.pass (r.fillLen * 64))
      else skipLoop start stop n (r.pass 64)
    else (r, false)

/-- The current word, or the first one of a fill. -/
def BatchReader.literal (r : BatchReader) : BmHrlWord :=
  if r.isFill then if getFillBit r.word then literalAllOne else 0 else r.word

/-- Pass a word, or the first one of a fill. -/
def BatchReader.passOne (r : BatchReader) : BatchReader :=
  if r.isFill then
    let s := r.shorten 1
    if fillLength s.word = 0 then s.pass 64
    else ⟨s.words, { s.result with nextTid := s.result.nextTid + 64 }⟩
  else r.pass 64

/-- Copy the words of a block into an entry. -/
def copyLoop (stop : Nat) : Nat → BatchReader → Nat → PagetableEntry → BatchReader × PagetableEntry
  | 0, r, _, entry => (r, entry)
  | n + 1, r, newwordno, entry =>
    if 0 < r.words.nwords ∧ r.result.nextTid < stop then
      copyLoop stop n r.passOne (newwordno + 1) { entry with
        words := Function.update entry.words newwordno (entry.words newwordno ||| r.literal) }
    else (r, entry)

/-- Start with word 0 again. -/
def BatchReader.rewind (r : BatchReader) : BatchReader :=
  ⟨r.words, { r.result with lastScanWordNo := 0 }⟩

/-- Get the next page with matches on it. If `newentry` is false, the entry is a partially filled
one. Block numbers have 32 bits, and the end of the block is computed from the number of the next
one. Every restart has passed a word, so that `nwords + 1` starts are enough. -/
def wordsGetMatch : Nat → BatchReader → Nat → PagetableEntry → Bool →
    BatchReader × PagetableEntry × Bool
  | 0, r, _, entry, _ => (r, entry, false)
  | n + 1, r, blockno, entry, newentry =>
    let start := blockno * bmMaxTuplesPerPage + 1
    let stop := (blockno + 1) % 2 ^ 32 * bmMaxTuplesPerPage
    if stop < r.result.nextTid then (r, entry, true)
    else if r.words.maxNumOfWords ≤ r.result.lastScanWordNo then
      (r.rewind, entry, !decide (r.result.nextTid < stop))
    else
      let (r, restart) := skipLoop start stop r.words.nwords r
      if restart then
        wordsGetMatch n r (r.result.nextTid / bmMaxTuplesPerPage % 2 ^ 32) entry newentry
      else if r.words.nwords = 0 then (r.rewind, entry, false)
      else if r.isFill = true ∧ getFillBit r.word = false ∧
          stop - r.result.nextTid < r.fillLen * 64 then
        let r := r.pass (r.fillLen * 64)
        if newentry then
          wordsGetMatch n r (r.result.nextTid / bmMaxTuplesPerPage % 2 ^ 32) entry newentry
        else (r, entry, true)
      else
        let (r, entry) := copyLoop stop wordsPerHeapPage r ((r.result.nextTid - start) / 64) entry
        let entry := { entry with blockno := blockno }
        if r.words.nwords = 0 then (r.rewind, entry, !decide (r.result.nextTid < stop))
        else (r, entry, true)

/-- False if the scan is over. Words that are left over are returned again. -/
def bitmapNextbatchwords (s : BatchScan) : BatchScan × Bool :=
  if s.done then (s, false)
  else if 0 < s.reader.words.nwords then (s, true)
  else (s.nextBatch, true)

/-- A stream: its scan, and the entry it has returned last. -/
structure BMStreamOpaque where
  scan : BatchScan
  entry : Option PagetableEntry
  isDone : Bool

/-- An iterator over a stream, and the next block that is asked for. The stream is freed when there
is nothing more in it. -/
structure StreamIterator where
  nextblock : Nat
  stream : Option BMStreamOpaque

/-- The rounds of `pullStream`, each with a call of `wordsGetMatch`. A round that finds no page
comes to the end of its batch. -/
def pullLoop : Nat → BatchScan → Nat → PagetableEntry → Bool → BatchScan × PagetableEntry × Bool
  | 0, scan, _, e, _ => (scan, e, false)
  | n + 1, scan, nextblock, e, newentry =>
    let (scan, res) := bitmapNextbatchwords scan
    let (reader, e, found) :=
      wordsGetMatch (scan.reader.words.nwords + 1) scan.reader nextblock e newentry
    let scan := { scan with reader := reader }
    if found then (scan, e, false)
    else if !res then (scan, e, true)
    else pullLoop n scan e.blockno e false

/-- Pull the next block of tids from a stream. -/
def pullStream (it : StreamIterator) (e : PagetableEntry) :
    StreamIterator × Option PagetableEntry :=
  match it.stream with
  | none => (it, none)
  | some so =>
    match so.entry with
    | some next =>
      if it.nextblock ≤ next.blockno then (it, some next)
      else if so.isDone then ({ it with stream := none }, none)
      else pullNext it so e
    | none => if so.isDone then ({ it with stream := none }, none) else pullNext it so e
where
  pullNext (it : StreamIterator) (so : BMStreamOpaque) (e : PagetableEntry) :
      StreamIterator × Option PagetableEntry :=
    let (scan, e, isDone) := pullLoop (so.scan.later.length + 3) so.scan it.nextblock
      { e with blockno := it.nextblock } true
    let next := (e.blockno + 1) % 2 ^ 32
    let nextTid := scan.reader.result.nextTid
    (⟨if next < nextTid / bmMaxTuplesPerPage then nextTid / bmMaxTuplesPerPage % 2 ^ 32 else next,
      some ⟨scan, some e, isDone⟩⟩, some e)

end Hdb.Bitmap

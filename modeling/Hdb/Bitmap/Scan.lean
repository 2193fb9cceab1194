import Hdb.Bitmap.Insert

/-!
# Scanning several bitmap vectors

A scan reads the vectors that satisfy its predicate page by page, each into a batch of its own, and
computes the union of the batches word by word into a result batch. The words are not decompressed:
each batch counts the uncompressed words it has passed (`nwordsread`), and all of them are brought
to the next word to be read (`nextread`) before it is read.

A scan of a single vector hands out the batches of that vector and computes no union.
-/

namespace Hdb.Bitmap

structure BMBatchWords where
  maxNumOfWords : Nat
  /-- Number of uncompressed words that have been read already. -/
  nwordsread : Nat
  /-- Next word to read. -/
  nextread : Nat
  firstTid : Nat
  /-- Position in `cwords`. -/
  startNo : Nat
  nwords : Nat
  hwords : Nat → BmHrlWord
  cwords : Nat → BmHrlWord

/-- The words of a batch that are not read yet. -/
def BMBatchWords.entries (b : BMBatchWords) : List Entry :=
  entriesFrom b.cwords b.hwords b.startNo b.nwords

def bitmapInitBatchwords (maxNumOfWords : Nat) : BMBatchWords :=
  { maxNumOfWords := maxNumOfWords
    nwordsread := 0
    nextread := 1
    firstTid := 0
    startNo := 0
    nwords := 0
    hwords := fun _ => 0
    cwords := fun _ => 0 }

def bitmapResetBatchwords (words : BMBatchWords) : BMBatchWords :=
  { words with
    startNo := 0
    nwords := 0
    hwords := fun i => if i < bmCalcHWords words.maxNumOfWords then 0 else words.hwords i }

/-- The header bit of the current word. -/
def curWordIsFill (b : BMBatchWords) : Bool := isFillWord b.hwords b.startNo

/-- The current word. -/
def curWord (b : BMBatchWords) : BmHrlWord := b.cwords b.startNo

/-! ## Reading a vector -/

/-- Scan data for one bitmap vector. -/
structure BMVectorData where
  vector : BmVector
  bmNextBlockNo : Option Nat
  bmReadLastWords : Bool
  bmBatchWords : BMBatchWords

/-- The last two words of a LOV item, or the last one: header word, content words and how many. -/
def readLastWords (lov : BMLOVItem) : BmHrlWord × (Nat → BmHrlWord) × Nat :=
  if lov.bmLastCompword ≠ literalAllOne then
    (BitVec.ofNat 64 lov.lovWordsHeader <<< 62,
      fun i => if i = 0 then lov.bmLastCompword else lov.bmLastWord, 2)
  else (BitVec.ofNat 64 lov.lovWordsHeader <<< 63, fun _ => lov.bmLastWord, 1)

/-- Read the words of the next page into the batch. After the last page come the words of the LOV
item, in the same batch if they fit. -/
def readWords (L : PageLayout) (v : BMVectorData) : BMVectorData :=
  let b := v.bmBatchWords
  let last := readLastWords v.vector.lovItem
  match v.bmNextBlockNo with
  | some blkno =>
    let page := v.vector.pages blkno
    let numOfWords := page.bmHrlWordsUsed
    let headerWords := memcpy b.hwords page.hwords L.bmNumOfHeaderWords
    let words := memcpy b.cwords page.cwords numOfWords
    if page.bmBitmapNext = none ∧ numOfWords ≤ L.wordsPerPage - 2 then
      let headerWords := Function.update headerWords (numOfWords / 64)
        (headerWords (numOfWords / 64) ||| last.1 >>> (numOfWords % 64))
      let headerWords := if numOfWords % 64 = 63 then
          Function.update headerWords ((numOfWords + 1) / 64)
            (headerWords ((numOfWords + 1) / 64) ||| last.1 <<< 1)
        else headerWords
      { v with
        bmNextBlockNo := none
        bmReadLastWords := true
        bmBatchWords := { b with
          hwords := headerWords
          cwords := fun i => if numOfWords ≤ i ∧ i < numOfWords + last.2.2 then
              last.2.1 (i - numOfWords)
            else words i
          nwords := numOfWords + last.2.2 } }
    else
      { v with
        bmNextBlockNo := page.bmBitmapNext
        bmReadLastWords := false
        bmBatchWords := { b with hwords := headerWords, cwords := words, nwords := numOfWords } }
  | none =>
    { v with
      bmReadLastWords := true
      bmBatchWords := { b with
        hwords := Function.update b.hwords 0 last.1
        cwords := memcpy b.cwords last.2.1 last.2.2
        nwords := last.2.2 } }

/-- Read the next words of a vector that has none left in its batch. -/
def refill (L : PageLayout) (v : BMVectorData) : BMVectorData :=
  if v.bmBatchWords.nwords = 0 ∧ v.bmReadLastWords = false then
    readWords L { v with bmBatchWords := bitmapResetBatchwords v.bmBatchWords }
  else v

/-! ## The union of batches -/

/-- The current word and the words after it, up to the word before `nextReadNo`, are passed. Every
round passes a word or comes to the end, so that `nwords` rounds are enough. -/
def findnextwordLoop (nextReadNo : Nat) : Nat → BMBatchWords → BMBatchWords
  | 0, words => words
  | n + 1, words =>
    if 0 < words.nwords ∧ words.nwordsread < nextReadNo - 1 then
      let word := curWord words
      if curWordIsFill words then
        if fillLength word ≤ nextReadNo - words.nwordsread - 1 then
          findnextwordLoop nextReadNo n { words with
            nwordsread := words.nwordsread + fillLength word
            startNo := words.startNo + 1
            nwords := words.nwords - 1 }
        else
          findnextwordLoop nextReadNo n { words with
            cwords := Function.update words.cwords words.startNo
              (word - BitVec.ofNat 64 (nextReadNo - words.nwordsread - 1))
            nwordsread := nextReadNo - 1 }
      else
        findnextwordLoop nextReadNo n { words with
          nwordsread := words.nwordsread + 1
          startNo := words.startNo + 1
          nwords := words.nwords - 1 }
    else words

def bitmapFindnextword (words : BMBatchWords) (nextReadNo : Nat) : BMBatchWords :=
  findnextwordLoop nextReadNo words.nwords words

/-- Go back to the word before, which was at `prevStartNo`. -/
def bitmapResetWord (words : BMBatchWords) (prevStartNo : Nat) : BMBatchWords :=
  if prevStartNo < words.startNo then
    { words with
      startNo := prevStartNo
      nwords := words.nwords + 1
      nwordsread := words.nwordsread - 1 }
  else
    { words with
      cwords := Function.update words.cwords words.startNo (curWord words + 1)
      nwordsread := words.nwordsread - 1 }

/-- Append a word to the result. -/
def pushWord (result : BMBatchWords) (word : BmHrlWord) (isFill : Bool) : BMBatchWords :=
  { result with
    hwords := if isFill then
        Function.update result.hwords (result.nwords / 64)
          (result.hwords (result.nwords / 64) ||| wordnoGetHeaderBit result.nwords)
      else result.hwords
    cwords := Function.update result.cwords result.nwords word
    nwords := result.nwords + 1 }

/-- The loop of `fast_forward`: the smallest tid and the fill length it comes from, or nothing when
a batch is not at a fill word of zeros. -/
def fastForwardLoop : List BMBatchWords → Nat → Nat → Option Nat
  | [], _, words => some words
  | b :: bs, minTid, words =>
    if curWordIsFill b && !getFillBit (curWord b) then
      let batchTid := (b.firstTid + fillLength (curWord b) * 64) % 2 ^ 64
      if batchTid < minTid then fastForwardLoop bs batchTid (fillLength (curWord b))
      else fastForwardLoop bs minTid words
    else none

/-- Skip the zeros that all batches are at, and copy them to the result. -/
def fastForward (batches : List BMBatchWords) (result : BMBatchWords) :
    List BMBatchWords × BMBatchWords :=
  match fastForwardLoop batches (2 ^ 64 - 1) 0 with
  | none => (batches, result)
  | some words =>
    if 0 < words then
      (batches.map fun b => { b with nextread := b.nwordsread + words + 1 },
        pushWord result (BitVec.ofNat 64 words) true)
    else (batches, result)

/-- The batch after a word that is not a run of ones. -/
def nextWord (bch : BMBatchWords) : BMBatchWords :=
  if curWordIsFill bch && fillLength (curWord bch) != 1 then
    { bch with
      nwordsread := bch.nwordsread + 1
      cwords := Function.update bch.cwords bch.startNo (curWord bch - 1) }
  else
    { bch with
      nwordsread := bch.nwordsread + 1
      startNo := bch.startNo + 1
      nwords := bch.nwords - 1 }

/-- One round over the batches. -/
structure UnionRound where
  batches : List BMBatchWords
  /-- A batch had no words left. -/
  done : Bool
  nextReadNo : Nat
  orWord : BmHrlWord
  orWordIsLiteral : Bool
  /-- The round ended at the last batch, and this has no words left. -/
  lastEmpty : Bool

/-- The or of the words at `nextReadNo`. A run of ones ends the round at once. When a batch has no
words left, the batches before it are reset. -/
def unionRound (nextReadNo : Nat) : List BMBatchWords → BmHrlWord → UnionRound
  | [], orWord => ⟨[], false, nextReadNo, orWord, true, false⟩
  | b :: bs, orWord =>
    let bch := bitmapFindnextword b nextReadNo
    if bch.nwords = 0 then ⟨bch :: bs, true, nextReadNo, orWord, true, false⟩
    else
      let word := curWord bch
      if curWordIsFill bch && getFillBit word then
        let nwordsread := bch.nwordsread + fillLength word
        ⟨{ bch with
            nwordsread := nwordsread
            startNo := bch.startNo + 1
            nwords := bch.nwords - 1 } :: bs,
          false, nwordsread + 1, bmMakeFillWord true (nwordsread + 1 - nextReadNo), false,
          bs.isEmpty && bch.nwords - 1 == 0⟩
      else
        let next := nextWord bch
        let r := unionRound nextReadNo bs (if curWordIsFill bch then orWord else orWord ||| word)
        { r with batches := (if r.done then bitmapResetWord next bch.startNo
          else next) :: r.batches }

/-- The rounds, until a batch has no words left or the result is full (after `n` more words). -/
def unionLoop : Nat → List BMBatchWords → BMBatchWords → Nat →
    List BMBatchWords × BMBatchWords × Nat
  | 0, batches, result, nextReadNo => (batches, result, nextReadNo)
  | n + 1, batches, result, nextReadNo =>
    let r := unionRound nextReadNo batches literalAllZero
    if r.done then (r.batches, result, nextReadNo)
    else
      let result := pushWord result r.orWord (!r.orWordIsLiteral)
      let nextReadNo := if r.orWordIsLiteral then r.nextReadNo + 1 else r.nextReadNo
      if r.lastEmpty then (r.batches, result, nextReadNo)
      else unionLoop n r.batches result nextReadNo

def bitmapUnion (batches : List BMBatchWords) (result : BMBatchWords) :
    List BMBatchWords × BMBatchWords :=
  let (batches, result) := fastForward batches result
  let nextReadNo := ((batches.head?).map BMBatchWords.nextread).getD 0
  let (batches, result, nextReadNo) :=
    unionLoop (result.maxNumOfWords - result.nwords) batches result nextReadNo
  (batches.map fun b => { b with nextread := nextReadNo }, result)

/-! ## The scan -/

structure BMScanPosition where
  done : Bool
  /-- The result words. -/
  bmBatchWords : BMBatchWords
  posvecs : List BMVectorData

/-- The batches that have words. -/
def liveBatches (posvecs : List BMVectorData) : List BMBatchWords :=
  (posvecs.filter fun v => 0 < v.bmBatchWords.nwords).map BMVectorData.bmBatchWords

/-- Put the batches back where they come from. -/
def putBatches : List BMVectorData → List BMBatchWords → List BMVectorData
  | [], _ => []
  | v :: vs, batches =>
    if 0 < v.bmBatchWords.nwords then
      { v with bmBatchWords := batches.headD v.bmBatchWords } :: putBatches vs batches.tail
    else v :: putBatches vs batches

/-- Compute the next batch of result words, from at least two vectors. -/
def nextBatchWords (L : PageLayout) (s : BMScanPosition) : BMScanPosition :=
  let posvecs := s.posvecs.map (refill L)
  let batches := liveBatches posvecs
  if batches.isEmpty then { s with posvecs := posvecs, done := true }
  else
    let (batches, result) := bitmapUnion batches (bitmapResetBatchwords s.bmBatchWords)
    { s with posvecs := putBatches posvecs batches, bmBatchWords := result }

/-- The scan position of a vector at its start. -/
def initScanpos (L : PageLayout) (v : BmVector) : BMVectorData :=
  ⟨v, v.lovItem.bmLovHead, false, bitmapInitBatchwords L.wordsPerPage⟩

/-- A scan of some vectors at its start. -/
def initScan (L : PageLayout) (vs : List BmVector) : BMScanPosition :=
  ⟨false, bitmapInitBatchwords L.wordsPerPage, vs.map (initScanpos L)⟩

/-- A scan and the result words it has handed out. -/
structure Scan where
  pos : BMScanPosition
  out : List Entry

/-- One call, unless the scan is over. -/
def scanStep (L : PageLayout) (s : Scan) : Scan :=
  if s.pos.done then s
  else
    let pos := nextBatchWords L s.pos
    if pos.done then { s with pos := pos }
    else ⟨pos, s.out ++ pos.bmBatchWords.entries⟩

end Hdb.Bitmap

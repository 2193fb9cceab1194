import Hdb.Bitmap.Page

/-!
# Inserting a bit into a bitmap vector

A vector is a chain of bitmap pages, and in its LOV item the last complete word, kept apart so that
it can still be merged, and the last word, which is not complete yet. A bit after the last set one
is appended: the words up to it are built in a buffer and written to the end of the chain. A bit
before it is set in place, which may split a fill word into two or three words; the words of a page
move, possibly into the next page or a new one.

Blocks are allocated in the order of their numbers; `nblocks` is the next new one.
-/

namespace Hdb.Bitmap

structure BMLOVItem where
  bmLovHead : Option Nat
  bmLovTail : Option Nat
  bmLastCompword : BmHrlWord
  bmLastWord : BmHrlWord
  bmLastTidLocation : Nat
  bmLastSetbit : Nat
  /-- 2 when the last complete word is a fill word, else 0. -/
  lovWordsHeader : Nat

/-- A LOV item and the blocks of the index. -/
structure BmVector where
  lovItem : BMLOVItem
  pages : Nat → BMBitmapPage
  nblocks : Nat

inductive BmError
  /-- tids are not in order when building the bitmap index -/
  | tidsNotInOrder
  /-- too many bitmap pages in one insert batch -/
  | tooManyBitmapPages
  /-- Found incorrect bitmap words. Please reindex -/
  | incorrectBitmapWords
  /-- Can not find the bitmap page containing the tid. Please reindex -/
  | bitmapPageNotFound
  /-- The header bit should be 1. -/
  | headerBit
  deriving DecidableEq, Repr

/-- A new LOV item. The bits before the given tid, up to a multiple of 64, are a fill word. -/
def bitmapFormitem (currTidNumber : Nat) : BMLOVItem :=
  if currTidNumber ≤ 64 then ⟨none, none, literalAllOne, literalAllZero, 0, 0, 0⟩
  else
    let numOfTotalFillWords := (currTidNumber - 1) / 64
    let numOfFillWords :=
      if maxFillLength ≤ numOfTotalFillWords then maxFillLength else numOfTotalFillWords
    ⟨none, none, bmMakeFillWord false numOfFillWords, literalAllZero, numOfFillWords * 64,
      numOfFillWords * 64, 2⟩

def bmLastCompwordIsFill (lov : BMLOVItem) : Bool := lov.lovWordsHeader &&& 2 != 0

/-! ## Buffers -/

/-- Make room for another word. -/
def bufExtend (buf : BMTIDBuffer) : BMTIDBuffer :=
  if 0 < buf.numCwords ∧ buf.curword < buf.numCwords - 1 then buf
  else if buf.numCwords = 0 then
    { buf with numCwords := 8, cwords := fun _ => 0, lastTids := fun _ => 0 }
  else
    let size := buf.numCwords
    { buf with
      numCwords := size + size
      cwords := fun i => if size ≤ i ∧ i < 2 * size then 0 else buf.cwords i
      lastTids := fun i => if size ≤ i ∧ i < 2 * size then 0 else buf.lastTids i }

def bitmapFreeTidbuf (buf : BMTIDBuffer) : BMTIDBuffer :=
  { buf with numCwords := 0, curword := 0, hwords := fun _ => 0 }

/-- Merge the last word, now complete, with the last complete word. If that is not possible, the
last complete word goes to the array. -/
def mergewords (buf : BMTIDBuffer) (lastWordFill : Bool) : BMTIDBuffer :=
  let lastTid := buf.lastTid - buf.lastTid % 64
  if buf.lastCompword = literalAllOne then
    -- It is not set yet.
    { buf with
      lastCompword := buf.lastWord
      isLastCompwordFill := lastWordFill
      lastWord := 0
      lastTid := if lastWordFill then fillLength buf.lastWord * 64 else 64 }
  else
    let mergeable := buf.isLastCompwordFill && lastWordFill &&
      getFillBit buf.lastCompword == getFillBit buf.lastWord
    if mergeable = true ∧
        fillLength buf.lastCompword + fillLength buf.lastWord ≤ maxFillLength then
      { buf with
        lastCompword := buf.lastCompword + BitVec.ofNat 64 (fillLength buf.lastWord)
        lastWord := literalAllZero
        lastTid := lastTid + fillLength buf.lastWord * 64 }
    else
      let lengthMerged := if mergeable then maxFillLength - fillLength buf.lastCompword else 0
      let lastWord := buf.lastWord - BitVec.ofNat 64 lengthMerged
      let lastTid := lastTid + lengthMerged * 64
      let lastCompword := buf.lastCompword + BitVec.ofNat 64 lengthMerged
      let buf := bufExtend buf
      { buf with
        cwords := Function.update buf.cwords buf.curword lastCompword
        lastTids := Function.update buf.lastTids buf.curword lastTid
        hwords := if buf.isLastCompwordFill then
            Function.update buf.hwords (buf.curword / 64)
              (buf.hwords (buf.curword / 64) ||| 1#64 <<< (63 - buf.curword % 64))
          else buf.hwords
        curword := buf.curword + 1
        lastCompword := lastWord
        isLastCompwordFill := lastWordFill
        lastWord := 0
        lastTid := if lastWordFill then lastTid + fillLength lastWord * 64 else lastTid + 64 }

/-! ## Writing a buffer -/

abbrev maxBitmapPagesPerInsert : Nat := 10

/-- The pages a buffer is written to, from `startWordno` on: the last page of the vector first if
there is one, then new ones. At most `n` pages. -/
def writePagesLoop (L : PageLayout) (v : BmVector) (buf : BMTIDBuffer) :
    Nat → Bool → Nat → Nat → Except BmError (List (Nat × BMBitmapPage) × Nat)
  | 0, _, _, _ => .error .tooManyBitmapPages
  | n + 1, isFirst, startWordno, nblocks =>
    let isTail := isFirst && v.lovItem.bmLovHead.isSome
    let blkno := if isTail then v.lovItem.bmLovTail.getD 0 else nblocks
    let page := if isTail then v.pages blkno else bitmapInitBitmappage
    let nblocks := if isTail then nblocks else nblocks + 1
    let r := bitmapWriteBitmapwordsOnPage L page buf startWordno
    if 0 < buf.curword - (startWordno + r.2) then
      match writePagesLoop L v buf n false (startWordno + r.2) nblocks with
      | .error e => .error e
      | .ok (rest, nblocks) => .ok ((blkno, r.1) :: rest, nblocks)
    else .ok ([(blkno, r.1)], nblocks)

/-- Store the pages, each but the last with a pointer to the next. -/
def linkPages : List (Nat × BMBitmapPage) → (Nat → BMBitmapPage) → Nat → BMBitmapPage
  | [], pages => pages
  | [(blkno, page)], pages => Function.update pages blkno page
  | (blkno, page) :: (blkno', page') :: rest, pages =>
    linkPages ((blkno', page') :: rest)
      (Function.update pages blkno { page with bmBitmapNext := some blkno' })

/-- Write the words of a buffer to the end of the vector and its last words to the LOV item. -/
def bitmapWriteNewBitmapwords (L : PageLayout) (v : BmVector) (buf : BMTIDBuffer) :
    Except BmError BmVector :=
  let updateLov (lov : BMLOVItem) : BMLOVItem := { lov with
    bmLastCompword := buf.lastCompword
    bmLastWord := buf.lastWord
    lovWordsHeader := if buf.isLastCompwordFill then 2 else 0
    bmLastSetbit := buf.lastTid
    bmLastTidLocation := buf.lastTid - buf.lastTid % 64 }
  if 0 < buf.curword then
    match writePagesLoop L v buf maxBitmapPagesPerInsert true 0 v.nblocks with
    | .error e => .error e
    | .ok (written, nblocks) =>
      .ok {
        lovItem := updateLov { v.lovItem with
          bmLovHead := if v.lovItem.bmLovHead.isSome then v.lovItem.bmLovHead
            else written.head?.map Prod.fst
          bmLovTail := written.getLast?.map Prod.fst }
        pages := linkPages written v.pages
        nblocks := nblocks }
  else .ok { v with lovItem := updateLov v.lovItem }

/-- Write the words of the buffer out when it has no room for another header bit. -/
def bufEnsureHeadSpace (L : PageLayout) (v : BmVector) (buf : BMTIDBuffer) :
    Except BmError (BmVector × BMTIDBuffer) :=
  if L.wordsPerPage ≤ buf.curword then
    if buf.numCwords = 0 then .ok (v, bufExtend buf)
    else
      match bitmapWriteNewBitmapwords L v buf with
      | .error e => .error e
      | .ok v => .ok (v, bufExtend (bitmapFreeTidbuf buf))
  else .ok (v, buf)

/-! ## Appending a bit -/

/-- The loop that adds fill words of zeros. -/
def fillZerosLoop (L : PageLayout) :
    Nat → Nat → BmVector → BMTIDBuffer → Except BmError (BmVector × BMTIDBuffer)
  | 0, _, v, buf => .ok (v, buf)
  | fuel + 1, numOfTotalFillWords, v, buf =>
    if numOfTotalFillWords = 0 then .ok (v, buf)
    else
      let numOfFillWords :=
        if maxFillLength ≤ numOfTotalFillWords then maxFillLength else numOfTotalFillWords
      match bufEnsureHeadSpace L v { buf with lastWord := bmMakeFillWord false numOfFillWords } with
      | .error e => .error e
      | .ok (v, buf) =>
        fillZerosLoop L fuel (numOfTotalFillWords - numOfFillWords) v (mergewords buf true)

/-- Complete the last word with zeros, if there are enough of them, and add fill words. -/
def bufAddZeros (L : PageLayout) (v : BmVector) (buf : BMTIDBuffer) (zeros : Nat) :
    Except BmError (BmVector × BMTIDBuffer) :=
  let zerosNeeded := 64 - (buf.lastTid + 2 ^ 64 - 1) % 2 ^ 64 % 64 - 1
  if 0 < zerosNeeded ∧ zerosNeeded ≤ zeros then
    match bufEnsureHeadSpace L v buf with
    | .error e => .error e
    | .ok (v, buf) =>
      let zeros := zeros - zerosNeeded
      fillZerosLoop L (zeros / 64) (zeros / 64) v (mergewords buf false)
  else fillZerosLoop L (zeros / 64) (zeros / 64) v buf

/-- Set the bit in the last word, and merge that if it is complete. -/
def bufSetBit (L : PageLayout) (v : BmVector) (buf : BMTIDBuffer) (tidnum : Nat) :
    Except BmError (BmVector × BMTIDBuffer) :=
  let buf := { buf with lastWord := buf.lastWord ||| 1#64 <<< ((tidnum - 1) % 64) }
  if tidnum % 64 = 0 then
    let lastWordFill := buf.lastWord == literalAllZero || buf.lastWord == literalAllOne
    let lastWord := if buf.lastWord = literalAllZero then bmMakeFillWord false 1
      else if buf.lastWord = literalAllOne then bmMakeFillWord true 1
      else buf.lastWord
    match bufEnsureHeadSpace L v { buf with lastWord := lastWord } with
    | .error e => .error e
    | .ok (v, buf) => .ok (v, { mergewords buf lastWordFill with lastTid := tidnum })
  else .ok (v, { buf with lastTid := tidnum })

/-- Append a set bit and the zeros before it to the buffer. -/
def bufAddTidWithFill (L : PageLayout) (v : BmVector) (buf : BMTIDBuffer) (tidnum : Nat) :
    Except BmError (BmVector × BMTIDBuffer) :=
  let zeros := (tidnum + 2 ^ 64 - buf.lastTid - 1) % 2 ^ 64
  -- A negative `int64`.
  if 2 ^ 63 ≤ zeros then .error .tidsNotInOrder
  else if 0 < zeros then
    match bufAddZeros L v buf zeros with
    | .error e => .error e
    | .ok (v, buf) => bufSetBit L v buf tidnum
  else bufSetBit L v buf tidnum

/-! ## Setting a bit in place -/

/-- Append a word to the buffer with the last tid in it. -/
def putWord (buf : BMTIDBuffer) (word : BmHrlWord) (isFill : Bool) (lastTid : Nat) : BMTIDBuffer :=
  let buf := bufExtend { buf with
    cwords := Function.update buf.cwords buf.curword word
    lastTids := Function.update buf.lastTids buf.curword lastTid
    curword := buf.curword + 1 }
  if isFill then
    { buf with
      hwords := Function.update buf.hwords ((buf.curword - 1) / 64)
        (buf.hwords ((buf.curword - 1) / 64) ||| 1#64 <<< (64 - buf.curword)) }
  else buf

/-- Set a bit in a fill word of zeros: up to three words. -/
def updatesetbitInword (word : BmHrlWord) (updateBitLoc firstTid : Nat) (buf : BMTIDBuffer) :
    BMTIDBuffer :=
  let numBits := fillLength word * 64
  let skipped := updateBitLoc / 64
  let firstTid := firstTid + skipped * 64
  let buf := if 64 ≤ updateBitLoc
    then putWord buf (bmMakeFillWord false skipped) true (firstTid - 1)
    else buf
  let usedNumBits := if 64 ≤ updateBitLoc then skipped * 64 else 0
  let insertingPos := updateBitLoc - usedNumBits
  let firstTid := firstTid + 64
  let buf := putWord buf (1#64 <<< insertingPos) false (firstTid - 1)
  let usedNumBits := usedNumBits + 64
  if usedNumBits < numBits then
    let fillLength := (numBits - usedNumBits) / 64
    putWord buf (bmMakeFillWord false fillLength) true (firstTid + fillLength * 64 - 1)
  else buf

/-- The block of the page that has the bit, and the first tid in it. -/
def findbitmappage (v : BmVector) (tidnum : Nat) : Nat → Option Nat → Nat →
    Except BmError (Nat × Nat)
  | 0, _, _ => .error .bitmapPageNotFound
  | _ + 1, none, _ => .error .bitmapPageNotFound
  | fuel + 1, some blkno, firstTidNumber =>
    if tidnum ≤ (v.pages blkno).bmLastTidLocation then .ok (blkno, firstTidNumber)
    else findbitmappage v tidnum fuel (v.pages blkno).bmBitmapNext
      ((v.pages blkno).bmLastTidLocation + 1)

/-- The word of the page that has the bit, and the number of bits up to its end. -/
def findWord (page : BMBitmapPage) (firstTidNumber tidnum : Nat) : Nat → Nat → Nat →
    Option (Nat × Nat)
  | 0, _, _ => none
  | n + 1, wordNo, bitNo =>
    let bitNo := bitNo +
      (if isFillWord page.hwords wordNo then fillLength (page.cwords wordNo) * 64 else 64)
    if tidnum ≤ firstTidNumber + bitNo - 1 then some (wordNo, bitNo)
    else findWord page firstTidNumber tidnum n (wordNo + 1) bitNo

/-- The words of a page as a buffer. -/
def pageBuffer (L : PageLayout) (page : BMBitmapPage) : BMTIDBuffer :=
  { BMTIDBuffer.zero with
    cwords := page.cwords
    hwords := memcpy (fun _ => 0) page.hwords (bmCalcHWords page.bmHrlWordsUsed)
    numCwords := L.wordsPerPage
    curword := page.bmHrlWordsUsed }

/-- Store the words of a buffer in a page. -/
def storeWords (page : BMBitmapPage) (words : BMTIDBuffer) : BMBitmapPage :=
  { page with
    cwords := words.cwords
    bmHrlWordsUsed := words.curword
    hwords := memcpy page.hwords words.hwords (bmCalcHWords words.curword) }

/-- There is a page after this one, with room for `n` more words. -/
def nextFits (L : PageLayout) (v : BmVector) (page : BMBitmapPage) (n : Nat) : Bool :=
  match page.bmBitmapNext with
  | none => false
  | some next => n ≤ L.wordsPerPage - (v.pages next).bmHrlWordsUsed

/-- Replace the fill word `wordNo` of a page by new words, at least two. The words that do not fit
go to the next page, or to a new one between the two. -/
def splitWordInpage (L : PageLayout) (v : BmVector) (blkno wordNo : Nat) (newWords : BMTIDBuffer)
    (firstIsLiteral : Bool) : Except BmError BmVector :=
  let page := v.pages blkno
  let fits := newWords.curword - 1 ≤ L.wordsPerPage - page.bmHrlWordsUsed
  let newPage := ¬ fits ∧ nextFits L v page (newWords.curword - 1) = false
  let newLastpage := ¬ fits ∧ page.bmBitmapNext = none
  let nextBlkno := if newPage then v.nblocks else page.bmBitmapNext.getD 0
  let nextPage := if newPage then bitmapInitBitmappage else v.pages nextBlkno
  let lovItem := if newLastpage then { v.lovItem with bmLovTail := some nextBlkno } else v.lovItem
  if firstIsLiteral && isFillWord newWords.hwords 0 then .error .headerBit
  else
    let page := { page with
      cwords := Function.update page.cwords wordNo (newWords.cwords 0)
      hwords := if firstIsLiteral then
          Function.update page.hwords (wordNo / 64)
            (page.hwords (wordNo / 64) &&& ~~~(wordnoGetHeaderBit wordNo))
        else page.hwords }
    -- The first of the new words is in place already.
    let newWords := { newWords with
      hwords := Function.update newWords.hwords 0 (newWords.hwords 0 <<< 1)
      cwords := fun i => if i < newWords.curword - 1 then newWords.cwords (i + 1)
        else newWords.cwords i
      curword := newWords.curword - 1 }
    let r := insertNewwords L (pageBuffer L page) (wordNo + 1) newWords (bufExtend BMTIDBuffer.zero)
    let page := storeWords page r.1
    let wordsLeft := r.2
    let nextPage := if newPage then
        { nextPage with
          bmLastTidLocation := page.bmLastTidLocation
          bmBitmapNext := page.bmBitmapNext }
      else nextPage
    let page := { page with
      bmBitmapNext := if newPage then some nextBlkno else page.bmBitmapNext
      bmLastTidLocation := page.bmLastTidLocation -
        getnumbits wordsLeft.cwords wordsLeft.hwords wordsLeft.curword }
    let nextPage := if 0 < wordsLeft.curword then
        storeWords nextPage
          (insertNewwords L (pageBuffer L nextPage) 0 wordsLeft BMTIDBuffer.zero).1
      else nextPage
    let pages := Function.update v.pages blkno page
    .ok {
      lovItem := lovItem
      pages := if fits then pages else Function.update pages nextBlkno nextPage
      nblocks := if newPage then v.nblocks + 1 else v.nblocks }

/-- Set a bit in a page. -/
def updatesetbitInpage (L : PageLayout) (v : BmVector) (tidnum blkno firstTidNumber : Nat) :
    Except BmError BmVector :=
  let page := v.pages blkno
  match findWord page firstTidNumber tidnum page.bmHrlWordsUsed 0 0 with
  | none => .error .incorrectBitmapWords
  | some (wordNo, bitNo) =>
    let word := page.cwords wordNo
    if isFillWord page.hwords wordNo = false then
      .ok { v with
        pages := Function.update v.pages blkno { page with
          cwords := Function.update page.cwords wordNo (word ||| 1#64 <<< ((tidnum - 1) % 64)) } }
    else if getFillBit word then .ok v
    else
      let firstTidNumber := firstTidNumber + bitNo - fillLength word * 64
      let newWords := updatesetbitInword word (tidnum - firstTidNumber) firstTidNumber
        (bufExtend BMTIDBuffer.zero)
      if newWords.curword = 1 then
        if isFillWord newWords.hwords 0 then .error .headerBit
        else
          .ok { v with
            pages := Function.update v.pages blkno { page with
              cwords := Function.update page.cwords wordNo (newWords.cwords 0)
              hwords := Function.update page.hwords (wordNo / 64)
                (page.hwords (wordNo / 64) &&& ~~~(wordnoGetHeaderBit wordNo)) } }
      else splitWordInpage L v blkno wordNo newWords (tidnum - firstTidNumber + 1 ≤ 64)

/-- The last complete word with a bit set, where that makes no new words. -/
def setLastCompword (lov : BMLOVItem) (tidnum : Nat) : BMLOVItem :=
  let compword := if bmLastCompwordIsFill lov then
      (if getFillBit lov.bmLastCompword then literalAllOne else 0)
    else lov.bmLastCompword
  let compword := compword ||| 1#64 <<< ((tidnum - 1) % 64)
  if compword = literalAllOne then
    { lov with lovWordsHeader := 2, bmLastCompword := bmMakeFillWord true 1 }
  else { lov with lovWordsHeader := 0, bmLastCompword := compword }

/-- The tid before the first one of the last complete word. -/
def compwordTidLocation (lov : BMLOVItem) : Nat :=
  (lov.bmLastTidLocation + 2 ^ 64 -
    (if bmLastCompwordIsFill lov then fillLength lov.bmLastCompword * 64 else 64)) % 2 ^ 64

/-- Set a bit that is not after the last set one. -/
def updatesetbit (L : PageLayout) (v : BmVector) (tidnum : Nat) : Except BmError BmVector :=
  let lov := v.lovItem
  let tidLocation := compwordTidLocation lov
  if lov.bmLastTidLocation < tidnum ∨
      (tidLocation < tidnum ∧ (lov.lovWordsHeader = 0 ∨ fillLength lov.bmLastCompword = 1)) then
    if lov.bmLastTidLocation < tidnum then
      .ok { v with lovItem := { lov with
        bmLastWord := lov.bmLastWord ||| 1#64 <<< ((tidnum - 1) % 64) } }
    else .ok { v with lovItem := setLastCompword lov tidnum }
  else if tidLocation < tidnum ∧ 2 ≤ lov.lovWordsHeader then
    let buf := updatesetbitInword lov.bmLastCompword (tidnum - tidLocation - 1) (tidLocation + 1)
      (bufExtend BMTIDBuffer.zero)
    bitmapWriteNewBitmapwords L v { buf with
      lastCompword := buf.cwords (buf.curword - 1)
      isLastCompwordFill := isFillWord buf.hwords (buf.curword - 1)
      curword := buf.curword - 1
      lastWord := lov.bmLastWord
      lastTid := lov.bmLastSetbit }
  else
    match findbitmappage v tidnum (v.nblocks + 1) lov.bmLovHead 1 with
    | .error e => .error e
    | .ok (blkno, firstTidNumber) => updatesetbitInpage L v tidnum blkno firstTidNumber

/-- The last words of a vector in a buffer. -/
def lovBuffer (lov : BMLOVItem) : BMTIDBuffer :=
  { BMTIDBuffer.zero with
    lastCompword := lov.bmLastCompword
    lastWord := lov.bmLastWord
    isLastCompwordFill := 2 ≤ lov.lovWordsHeader
    lastTid := lov.bmLastSetbit }

/-- Insert a bit. -/
def insertsetbit (L : PageLayout) (v : BmVector) (tidnum : Nat) : Except BmError BmVector :=
  if tidnum ≤ v.lovItem.bmLastSetbit then updatesetbit L v tidnum
  else
    match bufAddTidWithFill L v (lovBuffer v.lovItem) tidnum with
    | .error e => .error e
    | .ok (v, buf) =>
      if buf.numCwords = 0 then
        .ok { v with lovItem := { v.lovItem with
          bmLastCompword := buf.lastCompword
          bmLastWord := buf.lastWord
          lovWordsHeader := if buf.isLastCompwordFill then 2 else 0
          bmLastSetbit := tidnum
          bmLastTidLocation := tidnum - tidnum % 64 } }
      else bitmapWriteNewBitmapwords L v buf

/-! ## Reading a vector -/

/-- The entries of the pages from a block on. -/
def pagesEntries (pages : Nat → BMBitmapPage) : Nat → Option Nat → List Entry
  | 0, _ => []
  | _ + 1, none => []
  | fuel + 1, some blkno =>
    (pages blkno).entries ++ pagesEntries pages fuel (pages blkno).bmBitmapNext

/-- The last complete word, unless it is not set. -/
def compwordEntries (lov : BMLOVItem) : List Entry :=
  if lov.bmLastCompword = literalAllOne then []
  else [(lov.bmLastCompword, bmLastCompwordIsFill lov)]

/-- All entries of a vector: those of its pages in the order of the chain, the last complete word
and the last word. -/
def vectorEntries (v : BmVector) : List Entry :=
  pagesEntries v.pages v.nblocks v.lovItem.bmLovHead ++
    (compwordEntries v.lovItem ++ [(v.lovItem.bmLastWord, false)])

/-- The tids in a vector. The bit at position `p` is the tid `p + 1`. -/
def vectorHas (v : BmVector) (tidnum : Nat) : Bool :=
  0 < tidnum && bitAt (vectorEntries v) (tidnum - 1)

end Hdb.Bitmap

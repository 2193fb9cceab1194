import Hdb.Bitmap.Combination
import Hdb.Lib.Table

/-!
# Tid bitmaps

A tid bitmap is a set of tids with a limit on its memory. Its table has an entry for each page, with
the tids of the page, until there are more entries than the limit allows. Then pages become lossy:
what remains of them is a bit in the entry of their chunk, which is the entry of the first page of
the chunk in the same table. As long as there is one page only, it is kept outside the table.

A scan of a hash table goes over the entries in an order of its own (`HashSeq`). Entries that are
added while the scan goes on may come up or not; they are chunks, which every scan that adds entries
passes over. The chunk of a block number of 32 bits ends before `2 ^ 32`, so that the number of a
page of a chunk does not wrap around.
-/

namespace Hdb.Tbm

open Bitmap (PagetableEntry BmHrlWord TBMIterator TBMIterateResult pagesPerChunk wordsPerHeapPage
  zeroEntry)

abbrev BlockNumber := Fin (2 ^ 32)

/-- A tid. Offset numbers have 16 bits and start with 1. -/
@[ext] structure ItemPointer where
  blk : BlockNumber
  off : Nat
  pos : 1 ≤ off
  lt : off < 2 ^ 16

inductive TBMStatus
  | empty
  | onePage
  | hash
  deriving DecidableEq

abbrev Pagetable := Keyed PagetableEntry.blockno

structure TIDBitmap where
  status : TBMStatus
  pagetable : Pagetable
  nentries : Int
  maxentries : Int
  npages : Int
  nchunks : Int
  /-- The only page when the status is `onePage`. -/
  entry1 : PagetableEntry

/-- The order in which a scan visits the entries of the table. -/
structure HashSeq where
  order : TIDBitmap → List Nat
  perm : ∀ tbm, (order tbm).Perm tbm.pagetable.keys

/-- The entries that a scan of the table visits. -/
def scanPages (scan : HashSeq) (tbm : TIDBitmap) : List PagetableEntry :=
  (scan.order tbm).filterMap tbm.pagetable.get?

/-! ## Entries -/

/-- An entry without tids. -/
def zeroPage (pageno : Nat) : PagetableEntry := { zeroEntry with blockno := pageno }

/-- An entry for a chunk, without lossy pages. -/
def zeroChunk (pageno : Nat) : PagetableEntry := { zeroPage pageno with ischunk := true }

/-- Set the bit `i`. -/
def setBit (page : PagetableEntry) (i : Nat) : PagetableEntry :=
  { page with
    words := Function.update page.words (i / 64) (page.words (i / 64) ||| 1#64 <<< (i % 64)) }

/-- The first page of the chunk of a page. -/
def chunkPageno (pageno : Nat) : Nat := pageno - pageno % pagesPerChunk

/-! ## The table -/

/-- The size of an entry in the hash table, and of two pointers to it. -/
def bytesperentry : Int := 16 + 8200 + 8 + 8

/-- The number of bytes is divided as an unsigned number. -/
def tbmCreate (maxbytes : Int) : TIDBitmap where
  status := .empty
  pagetable := .empty
  nentries := 0
  maxentries := max (min (maxbytes % 2 ^ 64 / bytesperentry) (2 ^ 31 - 2)) 16
  npages := 0
  nchunks := 0
  entry1 := zeroEntry

/-- Make the hash table, and push the only page into it. -/
def tbmCreatePagetable (tbm : TIDBitmap) : TIDBitmap :=
  { tbm with
    pagetable := if tbm.status = .onePage then Keyed.empty.put tbm.entry1 else .empty
    status := .hash }

/-- The entry of a page that is not lossy. -/
def tbmFindPageentry (tbm : TIDBitmap) (pageno : Nat) : Option PagetableEntry :=
  if tbm.nentries = 0 then none
  else if tbm.status = .onePage then
    if tbm.entry1.blockno ≠ pageno then none else some tbm.entry1
  else
    match tbm.pagetable.get? pageno with
    | none => none
    | some page => if page.ischunk then none else some page

/-- Find or create an entry in the hash table. -/
def enterPage (tbm : TIDBitmap) (pageno : Nat) : TIDBitmap × PagetableEntry :=
  match tbm.pagetable.get? pageno with
  | some page => (tbm, page)
  | none =>
    ({ tbm with
        pagetable := tbm.pagetable.put (zeroPage pageno)
        nentries := tbm.nentries + 1
        npages := tbm.npages + 1 },
      zeroPage pageno)

/-- Find or create an entry for a page. -/
def tbmGetPageentry (tbm : TIDBitmap) (pageno : Nat) : TIDBitmap × PagetableEntry :=
  match tbm.status with
  | .empty =>
    ({ tbm with
        status := .onePage
        entry1 := zeroPage pageno
        nentries := tbm.nentries + 1
        npages := tbm.npages + 1 },
      zeroPage pageno)
  | .onePage =>
    if tbm.entry1.blockno = pageno then (tbm, tbm.entry1)
    else enterPage (tbmCreatePagetable tbm) pageno
  | .hash => enterPage tbm pageno

/-- Write to the entry that `tbmGetPageentry` points to. -/
def writePage (tbm : TIDBitmap) (page : PagetableEntry) : TIDBitmap :=
  if tbm.status = .onePage then { tbm with entry1 := page }
  else { tbm with pagetable := tbm.pagetable.put page }

def tbmPageIsLossy (tbm : TIDBitmap) (pageno : Nat) : Bool :=
  if tbm.nchunks = 0 then false
  else
    match tbm.pagetable.get? (chunkPageno pageno) with
    | none => false
    | some page => page.ischunk && page.has (pageno % pagesPerChunk)

/-- Remove the entry of a page that is not the first one of its chunk. -/
def removePage (tbm : TIDBitmap) (pageno : Nat) : TIDBitmap :=
  if pageno % pagesPerChunk ≠ 0 ∧ (tbm.pagetable.get? pageno).isSome then
    { tbm with
      pagetable := tbm.pagetable.erase pageno
      nentries := tbm.nentries - 1
      npages := tbm.npages - 1 }
  else tbm

/-- Set the bit of a page in the entry of its chunk. -/
def markInChunk (tbm : TIDBitmap) (pageno : Nat) : TIDBitmap :=
  let bitno := pageno % pagesPerChunk
  match tbm.pagetable.get? (chunkPageno pageno) with
  | none =>
    { tbm with
      pagetable := tbm.pagetable.put (setBit (zeroChunk (chunkPageno pageno)) bitno)
      nentries := tbm.nentries + 1
      nchunks := tbm.nchunks + 1 }
  | some page =>
    if page.ischunk then { tbm with pagetable := tbm.pagetable.put (setBit page bitno) }
    else
      -- the first page of the chunk was exact and becomes lossy
      { tbm with
        pagetable := tbm.pagetable.put (setBit (setBit (zeroChunk (chunkPageno pageno)) 0) bitno)
        nchunks := tbm.nchunks + 1
        npages := tbm.npages - 1 }

/-- Mark a page as lossy. -/
def tbmMarkPageLossy (tbm : TIDBitmap) (pageno : Nat) : TIDBitmap :=
  let tbm := if tbm.status ≠ .hash then tbmCreatePagetable tbm else tbm
  markInChunk (removePage tbm pageno) pageno

/-- The scan of `tbmLossify` over the entries that are left. -/
def lossifyScan : List Nat → TIDBitmap → TIDBitmap
  | [], tbm => tbm
  | k :: ks, tbm =>
    match tbm.pagetable.get? k with
    | none => lossifyScan ks tbm
    | some page =>
      if page.ischunk ∨ page.blockno % pagesPerChunk = 0 then lossifyScan ks tbm
      else
        let tbm := tbmMarkPageLossy tbm page.blockno
        if tbm.nentries ≤ tbm.maxentries / 2 then tbm else lossifyScan ks tbm

/-- Lose some information to get back under the limit. -/
def tbmLossify (scan : HashSeq) (tbm : TIDBitmap) : TIDBitmap :=
  let tbm := lossifyScan (scan.order tbm) tbm
  if tbm.maxentries / 2 < tbm.nentries then
    { tbm with maxentries := min tbm.nentries ((2 ^ 31 - 2) / 2) * 2 }
  else tbm

/-- What an operation does last. -/
def checkLimit (scan : HashSeq) (tbm : TIDBitmap) : TIDBitmap :=
  if tbm.maxentries < tbm.nentries then tbmLossify scan tbm else tbm

/-! ## Operations -/

def addTuple (scan : HashSeq) (recheck : Bool) (tbm : TIDBitmap) (tid : ItemPointer) : TIDBitmap :=
  if tbmPageIsLossy tbm tid.blk then tbm
  else
    let (tbm, page) := tbmGetPageentry tbm tid.blk
    -- in the header of a chunk, the bit for the page itself
    let page := setBit page (if page.ischunk then 0 else tid.off - 1)
    checkLimit scan (writePage tbm { page with recheck := page.recheck || recheck })

def tbmAddTuples (scan : HashSeq) (tbm : TIDBitmap) (tids : List ItemPointer) (recheck : Bool) :
    TIDBitmap :=
  tids.foldl (addTuple scan recheck) tbm

def tbmAddPage (scan : HashSeq) (tbm : TIDBitmap) (pageno : BlockNumber) : TIDBitmap :=
  checkLimit scan (tbmMarkPageLossy tbm pageno)

/-- Mark the pages for the bits of a word as lossy, from the page `pg` on. A word has 64 bits. -/
def unionBits : Nat → BmHrlWord → Nat → TIDBitmap → TIDBitmap
  | 0, _, _, a => a
  | n + 1, w, pg, a =>
    if w = 0 then a
    else unionBits n (w >>> 1) (pg + 1) (if w.getLsbD 0 then tbmMarkPageLossy a pg else a)

/-- Mark the pages of a chunk as lossy, from the word `wordnum` on. -/
def unionWords (bpage : PagetableEntry) : Nat → Nat → TIDBitmap → TIDBitmap
  | 0, _, a => a
  | n + 1, wordnum, a =>
    unionWords bpage n (wordnum + 1)
      (unionBits 64 (bpage.words wordnum) (bpage.blockno + wordnum * 64) a)

/-- `WORDS_PER_CHUNK`. -/
abbrev wordsPerChunk : Nat := 16

/-- An exact page with the tids of another one. -/
def orPage (apage bpage : PagetableEntry) : PagetableEntry :=
  { apage with
    words := fun i => if i < wordsPerHeapPage then apage.words i ||| bpage.words i
      else apage.words i
    recheck := apage.recheck || bpage.recheck }

/-- Process one page of `b` during a union. -/
def tbmUnionPage (scan : HashSeq) (a : TIDBitmap) (bpage : PagetableEntry) : TIDBitmap :=
  if bpage.ischunk then checkLimit scan (unionWords bpage wordsPerChunk 0 a)
  else if tbmPageIsLossy a bpage.blockno then a
  else
    let (a, apage) := tbmGetPageentry a bpage.blockno
    checkLimit scan <| writePage a <|
      if apage.ischunk then setBit apage 0 else orPage apage bpage

def tbmUnion (scan : HashSeq) (a b : TIDBitmap) : TIDBitmap :=
  if b.nentries = 0 then a
  else if b.status = .onePage then tbmUnionPage scan a b.entry1
  else (scanPages scan b).foldl (tbmUnionPage scan) a

/-- Clear the bits of the pages that are not in `b` at all. `pg` is the page of the bit `bitnum`. -/
def intersectBits (b : TIDBitmap) : Nat → BmHrlWord → Nat → Nat → BmHrlWord → BmHrlWord
  | 0, _, _, _, neww => neww
  | n + 1, w, pg, bitnum, neww =>
    if w = 0 then neww
    else
      intersectBits b n (w >>> 1) (pg + 1) (bitnum + 1)
        (if w.getLsbD 0 ∧ ¬tbmPageIsLossy b pg ∧ tbmFindPageentry b pg = none then
          neww &&& ~~~(1#64 <<< bitnum)
        else neww)

/-- A chunk with those of its pages that are in `b`. -/
def clearPages (b : TIDBitmap) (apage : PagetableEntry) : PagetableEntry :=
  { apage with
    words := fun i =>
      if i < wordsPerChunk then
        intersectBits b 64 (apage.words i) (apage.blockno + i * 64) 0 (apage.words i)
      else apage.words i }

/-- An exact page with the tids that another one has, too. -/
def andPage (apage bpage : PagetableEntry) : PagetableEntry :=
  { apage with
    words := fun i => if i < wordsPerHeapPage then apage.words i &&& bpage.words i
      else apage.words i
    recheck := apage.recheck || bpage.recheck }

/-- The first `n` words of an entry are zero. -/
def canDelete (n : Nat) (apage : PagetableEntry) : Bool :=
  (List.range n).all fun i => apage.words i == 0

/-- Process one page of `a` during an intersection. Gives true if the page is now empty. -/
def tbmIntersectPage (apage : PagetableEntry) (b : TIDBitmap) : PagetableEntry × Bool :=
  if apage.ischunk then (clearPages b apage, canDelete wordsPerChunk (clearPages b apage))
  else if tbmPageIsLossy b apage.blockno then ({ apage with recheck := true }, false)
  else
    match tbmFindPageentry b apage.blockno with
    | none => (apage, true)
    | some bpage => (andPage apage bpage, canDelete wordsPerHeapPage (andPage apage bpage))

/-- The scan of `tbmIntersect` over the entries that are left. -/
def intersectScan (b : TIDBitmap) : List Nat → TIDBitmap → TIDBitmap
  | [], a => a
  | k :: ks, a =>
    match a.pagetable.get? k with
    | none => intersectScan b ks a
    | some apage =>
      match tbmIntersectPage apage b with
      | (apage, true) =>
        intersectScan b ks { a with
          pagetable := a.pagetable.erase apage.blockno
          nchunks := if apage.ischunk then a.nchunks - 1 else a.nchunks
          npages := if apage.ischunk then a.npages else a.npages - 1
          nentries := a.nentries - 1 }
      | (apage, false) => intersectScan b ks { a with pagetable := a.pagetable.put apage }

def tbmIntersect (scan : HashSeq) (a b : TIDBitmap) : TIDBitmap :=
  if a.nentries = 0 then a
  else if a.status = .onePage then
    match tbmIntersectPage a.entry1 b with
    | (apage, true) =>
      { a with
        entry1 := apage
        npages := a.npages - 1
        nentries := a.nentries - 1
        status := .empty }
    | (apage, false) => { a with entry1 := apage }
  else intersectScan b (scan.order a) a

/-! ## Iteration -/

/-- The entries in the order of their blocks. -/
def sortPages (pages : List PagetableEntry) : List PagetableEntry :=
  pages.mergeSort fun p q => decide (p.blockno ≤ q.blockno)

/-- The lists of the exact pages and of the chunks that the iteration goes over. `uninit` is what is
in the memory allocated for a lossy page. -/
def tbmBeginIterate (scan : HashSeq) (uninit : Nat → PagetableEntry) (tbm : TIDBitmap) :
    TBMIterator :=
  Bitmap.tbmBeginIterate
    { spages :=
        match tbm.status with
        | .empty => []
        | .onePage => List.replicate tbm.npages.toNat tbm.entry1
        | .hash =>
          (sortPages ((scanPages scan tbm).filter fun page => !page.ischunk)).take tbm.npages.toNat
      schunks :=
        match tbm.status with
        | .hash => (sortPages ((scanPages scan tbm).filter (·.ischunk))).take tbm.nchunks.toNat
        | _ => []
      uninit := uninit }

def tbmIterate (it : TBMIterator) : TBMIterator × Option TBMIterateResult :=
  let (it, page) := Bitmap.tbmNextPage it
  (it, page.map Bitmap.tbmIteratePage)

end Hdb.Tbm

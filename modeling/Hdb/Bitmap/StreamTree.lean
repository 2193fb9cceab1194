import Hdb.Bitmap.StreamReader

/-!
# Trees of streams

The bitmaps of several index scans are combined as streams. A leaf of the tree is the stream of a
bitmap index, or a tid bitmap in memory, whose pages are exact or lossy; an inner node is the
intersection or the union of its inputs. An inner node sets the block that it wants from each input
before it pulls a page from it. It knows nothing of its inputs but how to pull a page.

An intersection starts again until its inputs have come to one block. It may do so for ever: the
number that stands for "no block yet" is also the block after the last one. A pull that does not
return is `none`; a pull that returns gives a page or no page.
-/

namespace Hdb.Bitmap

/-- `InvalidBlockNumber`. -/
abbrev invalidBlockNumber : Nat := 2 ^ 32 - 1

/-- `PAGES_PER_CHUNK`. -/
abbrev pagesPerChunk : Nat := 1024

/-! ## Tid bitmaps -/

/-- A tid bitmap that is being iterated over: its pages and its chunks, sorted. Bit `k` of a chunk
stands for the page `blockno + k`, which is lossy. -/
structure TIDBitmap where
  spages : List PagetableEntry
  schunks : List PagetableEntry
  /-- What is in the memory that is allocated for a lossy page. -/
  uninit : Nat → PagetableEntry

structure TBMIterator where
  tbm : TIDBitmap
  spageptr : Nat
  schunkptr : Nat
  schunkbit : Nat

def tbmBeginIterate (tbm : TIDBitmap) : TBMIterator := ⟨tbm, 0, 0, 0⟩

/-- The next bit of a chunk that is set, `PAGES_PER_CHUNK` if there is none. -/
def nextChunkBit (chunk : PagetableEntry) : Nat → Nat → Nat
  | 0, schunkbit => schunkbit
  | n + 1, schunkbit =>
    if chunk.has schunkbit then schunkbit else nextChunkBit chunk n (schunkbit + 1)

/-- Advance to the next lossy page. -/
def advanceChunk : Nat → TBMIterator → TBMIterator
  | 0, it => it
  | n + 1, it =>
    match it.tbm.schunks[it.schunkptr]? with
    | none => it
    | some chunk =>
      let schunkbit := nextChunkBit chunk (pagesPerChunk - it.schunkbit) it.schunkbit
      if schunkbit < pagesPerChunk then { it with schunkbit := schunkbit }
      else advanceChunk n { it with schunkptr := it.schunkptr + 1, schunkbit := 0 }

/-- The next exact page. -/
def nextExactPage (it : TBMIterator) : TBMIterator × Option PagetableEntry :=
  match it.tbm.spages[it.spageptr]? with
  | some e => ({ it with spageptr := it.spageptr + 1 }, some e)
  | none => (it, none)

/-- The next page, lossy or exact, whichever comes first. Of a lossy page only `ischunk` and
`blockno` are set. -/
def tbmNextPage (it : TBMIterator) : TBMIterator × Option PagetableEntry :=
  let it := advanceChunk (it.tbm.schunks.length - it.schunkptr) it
  match it.tbm.schunks[it.schunkptr]? with
  | some chunk =>
    let chunkBlockno := chunk.blockno + it.schunkbit
    if (it.tbm.spages[it.spageptr]?).all fun e => chunkBlockno < e.blockno then
      ({ it with schunkbit := it.schunkbit + 1 },
        some { it.tbm.uninit chunkBlockno with ischunk := true, blockno := chunkBlockno })
    else nextExactPage it
  | none => nextExactPage it

/-- An iterator over the stream of a tid bitmap. -/
structure HashIterator where
  nextblock : Nat
  nextentry : Option PagetableEntry
  hash : TBMIterator

/-- Get the next page from the tid bitmap. -/
def HashIterator.fetch (it : HashIterator) : HashIterator × Option PagetableEntry :=
  let (hash, nextentry) := tbmNextPage it.hash
  (⟨(it.nextblock + 1) % 2 ^ 32, nextentry, hash⟩, nextentry)

/-- Fetch the next block from the stream of a tid bitmap. -/
def tbmStreamBlock (it : HashIterator) : HashIterator × Option PagetableEntry :=
  match it.nextentry with
  | some next => if it.nextblock ≤ next.blockno then (it, some next) else it.fetch
  | none => it.fetch

/-! ## Inner nodes -/

/-- `BMS_AND` and `BMS_OR`. -/
inductive OpType
  | and
  | or
  deriving DecidableEq

section

variable {α : Type} (pull : Nat → α → Option (α × Option PagetableEntry))

/-- Pull a page from each input: the pages that come, and whether the inputs can have a result. An
intersection ends with the first input that gives no page. -/
def pullInputs (kind : OpType) (nextblock : Nat) :
    List α → Option (List α × List PagetableEntry × Bool)
  | [] => some ([], [], true)
  | it :: its => do
    match ← pull nextblock it, kind with
    | (it', some new), _ =>
      let (its', ms, ok) ← pullInputs kind nextblock its
      return (it' :: its', new :: ms, ok)
    | (it', none), .and => return (it' :: its, [], false)
    | (it', none), .or =>
      let (its', ms, ok) ← pullInputs kind nextblock its
      return (it' :: its', ms, ok)

/-- The block of the result: the first block of a union, the last one of an intersection. -/
def minBlockno (kind : OpType) (ms : List PagetableEntry) : Nat :=
  ms.foldl (fun minblockno new =>
    if minblockno = invalidBlockNumber then new.blockno
    else match kind with
      | .or => min minblockno new.blockno
      | .and => max minblockno new.blockno) invalidBlockNumber

def mergeWords (kind : OpType) (w w' : BmHrlWord) : BmHrlWord :=
  match kind with
  | .or => w ||| w'
  | .and => w &&& w'

/-- Combine the pages of the block `minblockno`. Gives true when a page of an intersection is for
another block. A lossy page ends the loop. -/
def mergeMatches (kind : OpType) (minblockno : Nat) : List PagetableEntry → PagetableEntry →
    PagetableEntry × Bool
  | [], e => (e, false)
  | tmp :: ms, e =>
    if tmp.blockno = minblockno then
      if e.blockno = invalidBlockNumber then mergeMatches kind minblockno ms tmp
      else if tmp.ischunk then ({ e with ischunk := true }, false)
      else mergeMatches kind minblockno ms { e with
        words := fun i => if i < wordsPerHeapPage then mergeWords kind (e.words i) (tmp.words i)
          else e.words i
        recheck := e.recheck || tmp.recheck }
    else if kind = .and then (e, true)
    else mergeMatches kind minblockno ms e

theorem mergeMatches_cons (kind : OpType) (minblockno : Nat) (tmp : PagetableEntry)
    (ms : List PagetableEntry) (e : PagetableEntry) :
    mergeMatches kind minblockno (tmp :: ms) e =
      if tmp.blockno = minblockno then
        if e.blockno = invalidBlockNumber then mergeMatches kind minblockno ms tmp
        else if tmp.ischunk then ({ e with ischunk := true }, false)
        else mergeMatches kind minblockno ms { e with
          words := fun i => if i < wordsPerHeapPage then mergeWords kind (e.words i) (tmp.words i)
            else e.words i
          recheck := e.recheck || tmp.recheck }
      else if kind = .and then (e, true)
      else mergeMatches kind minblockno ms e := rfl

/-- The next page of an inner node: its `nextblock`, its inputs and the page. Each start after the
first one has moved an input to a later block, as long as the node is asked for a valid block, so
that two starts and `2 ^ 32` for each input are enough. -/
def opstreamIterate (kind : OpType) : Nat → Nat → List α → PagetableEntry →
    Option (Nat × List α × Option PagetableEntry)
  | 0, _, _, _ => none
  | n + 1, nextblock, inputs, e => do
    let (inputs, ms, ok) ← pullInputs pull kind nextblock inputs
    let minblockno := minBlockno kind ms
    if !ok then return ((minblockno + 1) % 2 ^ 32, inputs, none)
    else
      let (e, restart) := mergeMatches kind minblockno ms { e with blockno := invalidBlockNumber }
      if restart then
        opstreamIterate kind n minblockno inputs { e with
          words := fun i => if i < wordsPerHeapPage then 0 else e.words i }
      else if ms.isEmpty then return (nextblock, inputs, none)
      else return ((minblockno + 1) % 2 ^ 32, inputs, some e)

end

/-! ## The tree -/

inductive StreamBMIterator
  | hash (it : HashIterator)
  | index (it : StreamIterator)
  | op (kind : OpType) (nextblock : Nat) (input : List StreamBMIterator)

/-- Set the desired block. -/
def StreamBMIterator.setNextblock (b : Nat) : StreamBMIterator → StreamBMIterator
  | .hash it => .hash { it with nextblock := b }
  | .index it => .index { it with nextblock := b }
  | .op kind _ input => .op kind b input

/-- Pull a page from an iterator of at most the given depth. -/
def streamPull : Nat → StreamBMIterator → PagetableEntry →
    Option (StreamBMIterator × Option PagetableEntry)
  | 0, _, _ => none
  | _ + 1, .hash it, _ =>
    let (it, page) := tbmStreamBlock it
    some (.hash it, page)
  | _ + 1, .index it, e =>
    let (it, page) := pullStream it e
    some (.index it, page)
  | n + 1, .op kind nextblock input, e => do
    let (nextblock, input, page) ←
      opstreamIterate (fun b it => streamPull n (it.setNextblock b) zeroEntry) kind
        (2 ^ 32 * input.length + 2) nextblock input e
    return (.op kind nextblock input, page)

/-- A stream. The stream of a bitmap index has the batches of its scan, or nothing if there is no
vector to scan. -/
inductive StreamNode
  | hash (tbm : TIDBitmap)
  | index (scan : Option (List BMBatchWords))
  | op (kind : OpType) (input : List StreamNode)

/-- Add a node to a stream. -/
def streamAddNode (n node : StreamNode) (kind : OpType) : StreamNode :=
  match n with
  | .op k input => if k = kind then .op k (input ++ [node]) else .op kind [n, node]
  | _ => .op kind [n, node]

mutual

def tbmStreamBeginIterate : StreamNode → StreamBMIterator
  | .hash tbm => .hash ⟨0, none, tbmBeginIterate tbm⟩
  | .index (some bs) => .index (startStream bs)
  | .index none => .index ⟨0, none⟩
  | .op kind input => .op kind 0 (opstreamBeginIterate input)

def opstreamBeginIterate : List StreamNode → List StreamBMIterator
  | [] => []
  | n :: ns => tbmStreamBeginIterate n :: opstreamBeginIterate ns

end

mutual

def StreamNode.depth : StreamNode → Nat
  | .op _ input => depths input + 1
  | _ => 1

def StreamNode.depths : List StreamNode → Nat
  | [] => 0
  | n :: ns => max n.depth (depths ns)

end

structure TBMIterateResult where
  blockno : Nat
  /-- -1 for a lossy page. -/
  ntuples : Int
  recheck : Bool
  offsets : List Nat

/-- The offset numbers, of 16 bits, of the bits that are set. -/
def pageOffsets (has : Nat → Bool) : List Nat :=
  ((List.range bmMaxTuplesPerPage).filter has).map fun i => (i + 1) % 2 ^ 16

def tbmIteratePage (page : PagetableEntry) : TBMIterateResult :=
  if page.ischunk then ⟨page.blockno, -1, true, []⟩
  else ⟨page.blockno, (pageOffsets page.has).length, page.recheck, pageOffsets page.has⟩

/-- The next page of a tree of at most the given depth. -/
def tbmGenericIterate (depth : Nat) (it : StreamBMIterator) :
    Option (StreamBMIterator × Option TBMIterateResult) := do
  let (it, page) ← streamPull depth it zeroEntry
  return (it, page.map tbmIteratePage)

end Hdb.Bitmap

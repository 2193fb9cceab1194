import Mathlib.Tactic.Common

/-!
# The global deadlock detector

The data structures and the algorithm of `gdddetector.c`. A context holds one local graph per
segment and, shared by all of them, the global in and out degrees of every transaction. A
vertex of a local graph keeps the lists of its in and out edges.

Pointers become keys. An edge is the record itself with the address it was allocated at
(`ptr`); the pointer to a vertex is the pair of its segment and its id, and the pointer to a
global degree record is its key in `globals`. The maps are the source's arrays of pairs, with
its append and its delete by moving the last pair into the hole; a list iterator is the
position of its cell.

Loops over an array or a list count down the cells still to be visited, as each round either
advances the position or deletes the cell under it. The two `while` loops of the source take a
bound on their rounds and give `none` when it is used up.
-/

namespace Hdb.Gdd

/-! ## Maps -/

/-- An array of pairs used as a map. -/
structure GddMap (α : Type) where
  pairs : List (Int × α)
  deriving DecidableEq, Repr

section Map

variable {α : Type}

def gddMapInit : GddMap α := ⟨[]⟩

def GddMap.keys (map : GddMap α) : List Int := map.pairs.map Prod.fst

/-- The pair of a key, by a scan from the start. -/
def gddMapGetPair (map : GddMap α) (key : Int) : Option (Int × α) :=
  map.pairs.find? fun p => p.1 == key

def gddMapGet (map : GddMap α) (key : Int) : Option α := (gddMapGetPair map key).map Prod.snd

/-- Append a pair without checking for the key. -/
def gddMapSetUnsafe (map : GddMap α) (key : Int) (ptr : α) : GddMap α :=
  ⟨map.pairs ++ [(key, ptr)]⟩

/-- Delete the pair at `pos`: the last pair takes its place. -/
def gddMapIterDelete (map : GddMap α) (pos : Nat) : GddMap α :=
  match map.pairs.getLast? with
  | none => map
  | some p => ⟨(map.pairs.set pos p).dropLast⟩

/-- A write through the pointer stored under `key`. -/
def GddMap.modify (map : GddMap α) (key : Int) (f : α → α) : GddMap α :=
  ⟨map.pairs.map fun p => if p.1 = key then (p.1, f p.2) else p⟩

end Map

/-! ## The context -/

/-- A directed edge of a local graph. -/
structure GddEdge where
  /-- The address of the edge. -/
  ptr : Nat
  solid : Bool
  /-- The segment of the graph both ends belong to. -/
  segid : Int
  vfrom : Int
  vto : Int
  deriving DecidableEq, Repr

structure GddStat where
  id : Int
  indeg : Int
  outdeg : Int
  deriving DecidableEq, Repr

def gddStatInit (vid : Int) : GddStat := ⟨vid, 0, 0⟩

structure GddVert where
  id : Int
  /-- The key of the degree record the vertex is bound to. -/
  global : Option Int
  edgesIn : List GddEdge
  edgesOut : List GddEdge
  deriving DecidableEq, Repr

def gddVertNew (id : Int) : GddVert := ⟨id, none, [], []⟩

structure GddGraph where
  id : Int
  verts : GddMap GddVert
  deriving DecidableEq, Repr

def gddGraphNew (id : Int) : GddGraph := ⟨id, gddMapInit⟩

structure GddCtx where
  topstat : GddStat
  globals : GddMap GddStat
  graphs : GddMap GddGraph
  /-- The address of the next edge to be allocated. -/
  brk : Nat
  deriving DecidableEq, Repr

def gddCtxNew : GddCtx := ⟨gddStatInit 0, gddMapInit, gddMapInit, 0⟩

namespace GddCtx

/-- The vertices of a local graph. -/
def verts (ctx : GddCtx) (segid : Int) : GddMap GddVert :=
  ((gddMapGet ctx.graphs segid).map GddGraph.verts).getD gddMapInit

/-- Follow a vertex pointer. -/
def vert? (ctx : GddCtx) (segid vid : Int) : Option GddVert := gddMapGet (ctx.verts segid) vid

def modifyVerts (ctx : GddCtx) (segid : Int) (f : GddMap GddVert → GddMap GddVert) : GddCtx :=
  { ctx with graphs := ctx.graphs.modify segid fun graph => { graph with verts := f graph.verts } }

/-- Write through a vertex pointer. -/
def modifyVert (ctx : GddCtx) (segid vid : Int) (f : GddVert → GddVert) : GddCtx :=
  ctx.modifyVerts segid fun verts => verts.modify vid f

/-- Write through the `global` pointer of a vertex. -/
def modifyGlobal (ctx : GddCtx) (segid vid : Int) (f : GddStat → GddStat) : GddCtx :=
  match (ctx.vert? segid vid).bind GddVert.global with
  | none => ctx
  | some key => { ctx with globals := ctx.globals.modify key f }

/-- The edges linked in the context, vertex by vertex. -/
def edges (ctx : GddCtx) : List GddEdge :=
  ctx.graphs.pairs.flatMap fun g => g.2.verts.pairs.flatMap fun v => v.2.edgesOut

end GddCtx

/-! ## Adding edges -/

/-- Get the graph with segment id, a new one if it is first seen. -/
def gddCtxGetGraph (ctx : GddCtx) (segid : Int) : GddCtx :=
  match gddMapGet ctx.graphs segid with
  | some _ => ctx
  | none => { ctx with graphs := gddMapSetUnsafe ctx.graphs segid (gddGraphNew segid) }

/-- Get the global with vertex id, a new one if it is first seen. -/
def gddCtxGetGlobalStat (ctx : GddCtx) (vid : Int) : GddCtx :=
  match gddMapGet ctx.globals vid with
  | some _ => ctx
  | none => { ctx with globals := gddMapSetUnsafe ctx.globals vid (gddStatInit vid) }

/-- Get the vertex with vertex id, a new one if it is first seen. -/
def gddGraphGetVert (verts : GddMap GddVert) (vid : Int) : GddMap GddVert :=
  match gddMapGet verts vid with
  | some _ => verts
  | none => gddMapSetUnsafe verts vid (gddVertNew vid)

/-- Make an edge in a graph. It is not linked yet. -/
def gddGraphMakeEdge (ctx : GddCtx) (segid vfrom vto : Int) (solid : Bool) : GddCtx × GddEdge :=
  let ctx := ctx.modifyVerts segid fun verts => gddGraphGetVert verts vfrom
  let ctx := ctx.modifyVerts segid fun verts => gddGraphGetVert verts vto
  ({ ctx with brk := ctx.brk + 1 }, ⟨ctx.brk, solid, segid, vfrom, vto⟩)

def gddVertBindStats (ctx : GddCtx) (segid vid : Int) : GddCtx :=
  ctx.modifyVert segid vid fun vert => { vert with global := some vid }

/-- Link an edge to its ends and update the global degrees. -/
def gddEdgeLink (ctx : GddCtx) (edge : GddEdge) : GddCtx :=
  let ctx := { ctx with topstat := { ctx.topstat with outdeg := ctx.topstat.outdeg + 1 } }
  let ctx := { ctx with topstat := { ctx.topstat with indeg := ctx.topstat.indeg + 1 } }
  let ctx := ctx.modifyGlobal edge.segid edge.vfrom fun s => { s with outdeg := s.outdeg + 1 }
  let ctx := ctx.modifyGlobal edge.segid edge.vto fun s => { s with indeg := s.indeg + 1 }
  let ctx :=
    ctx.modifyVert edge.segid edge.vfrom fun v => { v with edgesOut := v.edgesOut ++ [edge] }
  ctx.modifyVert edge.segid edge.vto fun v => { v with edgesIn := v.edgesIn ++ [edge] }

/-- Add an edge to one local graph. -/
def gddCtxAddEdge (ctx : GddCtx) (segid vfrom vto : Int) (solid : Bool) : GddCtx :=
  let ctx := gddCtxGetGraph ctx segid
  let (ctx, edge) := gddGraphMakeEdge ctx segid vfrom vto solid
  let ctx := gddCtxGetGlobalStat ctx vfrom
  let ctx := gddVertBindStats ctx segid vfrom
  let ctx := gddCtxGetGlobalStat ctx vto
  let ctx := gddVertBindStats ctx segid vto
  gddEdgeLink ctx edge

/-! ## Unlinking edges -/

/-- `list_delete_ptr`: delete the first cell that holds this pointer. -/
def listDeletePtr (list : List GddEdge) (edge : GddEdge) : List GddEdge :=
  list.eraseP fun e => e.ptr == edge.ptr

/-- Delete in place when the position of an iterator is given, and with a scan otherwise. -/
def listDelete (iter : Option Nat) (edge : GddEdge) (list : List GddEdge) : List GddEdge :=
  match iter with
  | some pos => list.eraseIdx pos
  | none => listDeletePtr list edge

def gddEdgeUnlinkFrom (ctx : GddCtx) (edge : GddEdge) (fromiter : Option Nat) : GddCtx :=
  let ctx := { ctx with topstat := { ctx.topstat with outdeg := ctx.topstat.outdeg - 1 } }
  let ctx := ctx.modifyGlobal edge.segid edge.vfrom fun s => { s with outdeg := s.outdeg - 1 }
  ctx.modifyVert edge.segid edge.vfrom fun v =>
    { v with edgesOut := listDelete fromiter edge v.edgesOut }

def gddEdgeUnlinkTo (ctx : GddCtx) (edge : GddEdge) (toiter : Option Nat) : GddCtx :=
  let ctx := { ctx with topstat := { ctx.topstat with indeg := ctx.topstat.indeg - 1 } }
  let ctx := ctx.modifyGlobal edge.segid edge.vto fun s => { s with indeg := s.indeg - 1 }
  ctx.modifyVert edge.segid edge.vto fun v =>
    { v with edgesIn := listDelete toiter edge v.edgesIn }

/-- Unlink an edge from its ends and update the global degrees. -/
def gddEdgeUnlink (ctx : GddCtx) (edge : GddEdge) (fromiter toiter : Option Nat) : GddCtx :=
  gddEdgeUnlinkTo (gddEdgeUnlinkFrom ctx edge fromiter) edge toiter

/-- The loop `gdd_vert_foreach_in_edge` that unlinks the edges `del` selects and skips the
others, `n` cells being still to visit. The flag tells whether an edge was unlinked. -/
def unlinkInEdges (del : GddEdge → Bool) (segid vid : Int) :
    (n pos : Nat) → GddCtx → GddCtx × Bool
  | 0, _, ctx => (ctx, false)
  | n + 1, pos, ctx =>
    match (ctx.vert? segid vid).bind fun vert => vert.edgesIn[pos]? with
    | none => (ctx, false)
    | some edge =>
      if del edge then
        ((unlinkInEdges del segid vid n pos (gddEdgeUnlink ctx edge none (some pos))).1, true)
      else unlinkInEdges del segid vid n (pos + 1) ctx

/-- The loop `gdd_vert_foreach_out_edge` that unlinks every edge. -/
def unlinkOutEdges (segid vid : Int) : (n pos : Nat) → GddCtx → GddCtx × Bool
  | 0, _, ctx => (ctx, false)
  | n + 1, pos, ctx =>
    match (ctx.vert? segid vid).bind fun vert => vert.edgesOut[pos]? with
    | none => (ctx, false)
    | some edge =>
      ((unlinkOutEdges segid vid n pos (gddEdgeUnlink ctx edge (some pos) none)).1, true)

def gddVertGetInDegree (ctx : GddCtx) (segid vid : Int) : Nat :=
  ((ctx.vert? segid vid).map fun vert => vert.edgesIn.length).getD 0

def gddVertGetOutDegree (ctx : GddCtx) (segid vid : Int) : Nat :=
  ((ctx.vert? segid vid).map fun vert => vert.edgesOut.length).getD 0

/-- Unlink all edges of a vertex. -/
def gddVertUnlinkAll (ctx : GddCtx) (segid vid : Int) : GddCtx × Bool :=
  let r := unlinkInEdges (fun _ => true) segid vid (gddVertGetInDegree ctx segid vid) 0 ctx
  let r' := unlinkOutEdges segid vid (gddVertGetOutDegree r.1 segid vid) 0 r.1
  (r'.1, r.2 || r'.2)

/-! ## Reduction -/

/-- Reduce the edges of a vertex: unlink them all when the vertex is a global end, and its
dotted in edges when its local out degree is 0. -/
def gddVertReduce (ctx : GddCtx) (segid vid : Int) : GddCtx × Bool :=
  match ((ctx.vert? segid vid).bind GddVert.global).bind fun key => gddMapGet ctx.globals key with
  | none => (ctx, false)
  | some global =>
    if global.indeg = 0 ∨ global.outdeg = 0 then gddVertUnlinkAll ctx segid vid
    else if gddVertGetOutDegree ctx segid vid = 0 then
      unlinkInEdges (fun edge => !edge.solid) segid vid (gddVertGetInDegree ctx segid vid) 0 ctx
    else (ctx, false)

/-- The loop over the vertices of one graph, which removes those left without edges; `n`
vertices are still to visit. -/
def reduceVerts (segid : Int) : (n pos : Nat) → GddCtx → GddCtx × Bool
  | 0, _, ctx => (ctx, false)
  | n + 1, pos, ctx =>
    match (ctx.verts segid).pairs[pos]? with
    | none => (ctx, false)
    | some (vid, _) =>
      let (ctx, dirty) := gddVertReduce ctx segid vid
      let r :=
        if gddVertGetInDegree ctx segid vid = 0 ∧ gddVertGetOutDegree ctx segid vid = 0 then
          reduceVerts segid n pos (ctx.modifyVerts segid fun verts => gddMapIterDelete verts pos)
        else reduceVerts segid n (pos + 1) ctx
      (r.1, dirty || r.2)

/-- One round of the reduction: the loop `gdd_ctx_foreach_vert`, over all graphs. -/
def reduceGraphs : List Int → GddCtx → GddCtx × Bool
  | [], ctx => (ctx, false)
  | segid :: segids, ctx =>
    let r := reduceVerts segid (ctx.verts segid).pairs.length 0 ctx
    let r' := reduceGraphs segids r.1
    (r'.1, r.2 || r'.2)

/-- Reduce until nothing can be deleted, in at most `fuel` rounds. -/
def gddCtxReduce : (fuel : Nat) → GddCtx → Option GddCtx
  | 0, _ => none
  | fuel + 1, ctx =>
    let r := reduceGraphs ctx.graphs.keys ctx
    if r.2 then gddCtxReduce fuel r.1 else some r.1

/-! ## Breaking deadlocks -/

/-- No edges left. -/
def gddCtxEmpty (ctx : GddCtx) : Bool := ctx.topstat.indeg == 0

/-- The max vertex id, 0 if no vertex is left at all. Vertices without edges are skipped. -/
def gddCtxGetMaxVid (ctx : GddCtx) : Int :=
  ctx.graphs.pairs.foldl (fun maxvid g =>
    g.2.verts.pairs.foldl (fun maxvid v =>
      if v.2.edgesIn.length ≠ 0 ∨ v.2.edgesOut.length ≠ 0 then max maxvid v.2.id else maxvid)
      maxvid) 0

/-- Remove the vertex whose id is `vid` from one graph. -/
def gddGraphRemoveVid (ctx : GddCtx) (segid vid : Int) : GddCtx :=
  match (ctx.verts segid).pairs.findIdx? fun p => p.2.id == vid with
  | none => ctx
  | some pos =>
    let ctx := (gddVertUnlinkAll ctx segid vid).1
    ctx.modifyVerts segid fun verts => gddMapIterDelete verts pos

/-- Remove the vertices whose id is `vid` from all graphs. -/
def gddCtxRemoveVid (ctx : GddCtx) (vid : Int) : GddCtx :=
  ctx.graphs.keys.foldl (fun ctx segid => gddGraphRemoveVid ctx segid vid) ctx

/-- Break deadlocks by cancelling the vertex with the max id, again and again. `fuel` bounds
the rounds of this loop and of each reduction in it. -/
def breakLoop (fuel : Nat) : (rounds : Nat) → GddCtx → List Int → Option (GddCtx × List Int)
  | 0, _, _ => none
  | rounds + 1, ctx, vids =>
    if gddCtxEmpty ctx then some (ctx, vids)
    else
      let maxvid := gddCtxGetMaxVid ctx
      (gddCtxReduce fuel (gddCtxRemoveVid ctx maxvid)).bind fun ctx =>
        breakLoop fuel rounds ctx (vids ++ [maxvid])

/-- The vertices to cancel, with the context they leave. -/
def gddCtxBreakDeadLock (fuel : Nat) (ctx : GddCtx) : Option (GddCtx × List Int) :=
  breakLoop fuel fuel ctx []

/-! ## Building the wait graph -/

/-- A wait relation as the segments report it: distributed transaction ids are unsigned. -/
structure WaitEdge where
  segid : Int
  waiter : UInt32
  holder : UInt32
  solid : Bool
  deriving DecidableEq, Repr

/-- The conversion of an unsigned transaction id to the `int` of a vertex id. -/
def vidOfXid (xid : UInt32) : Int := xid.toInt32.toInt

/-- The arguments of one call of `gddCtxAddEdge`. -/
structure Wait where
  segid : Int
  vfrom : Int
  vto : Int
  solid : Bool
  deriving DecidableEq, Repr

/-- A new context with the given edges, added one after the other. -/
def addWaits (waits : List Wait) : GddCtx :=
  waits.foldl (fun ctx w => gddCtxAddEdge ctx w.segid w.vfrom w.vto w.solid) gddCtxNew

/-- The call that `buildWaitGraph` makes for a reported wait relation. -/
def WaitEdge.wait (r : WaitEdge) : Wait :=
  ⟨r.segid, vidOfXid r.waiter, vidOfXid r.holder, r.solid⟩

def addWaitEdges (rows : List WaitEdge) : GddCtx := addWaits (rows.map WaitEdge.wait)

/-- The wait graph of the rows whose transactions are both valid on the master. -/
def buildWaitGraph (gxids : List UInt32) (rows : List WaitEdge) : GddCtx :=
  addWaitEdges (rows.filter fun r =>
    (gxids.map vidOfXid).contains (vidOfXid r.waiter) &&
      (gxids.map vidOfXid).contains (vidOfXid r.holder))

/-- One round of the detector: the transactions to cancel. -/
def doDeadLockCheck (fuel : Nat) (gxids : List UInt32) (rows : List WaitEdge) :
    Option (List Int) :=
  (gddCtxReduce fuel (buildWaitGraph gxids rows)).bind fun ctx =>
    if gddCtxEmpty ctx then some [] else (gddCtxBreakDeadLock fuel ctx).map Prod.snd

end Hdb.Gdd

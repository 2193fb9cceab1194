import Hdb.Gdd.Break

/-!
# The degree counters

Linking and unlinking an edge updates the degree records of its two ends and the record of the
whole context, and the source asserts at every unlink that no counter has gone below zero. The
functions are given again here with their assertions: `none` is an assertion that failed.

`degrees_accounted` runs any sequence of calls. No assertion fails, and afterwards every counter
is the number of edges it stands for.
-/

namespace Hdb.Gdd

namespace Asserting

/-- The degree record a vertex is bound to. -/
def stat? (ctx : GddCtx) (segid vid : Int) : Option GddStat :=
  ((ctx.vert? segid vid).bind GddVert.global).bind fun key => gddMapGet ctx.globals key

/-! ## The functions with their assertions -/

/-- Both ends are bound, and the overall degrees agree when the edge has been counted. -/
def gddEdgeLink (ctx : GddCtx) (edge : GddEdge) : Option GddCtx :=
  if (stat? ctx edge.segid edge.vfrom).isSome ∧ (stat? ctx edge.segid edge.vto).isSome then
    let ctx := Gdd.gddEdgeLink ctx edge
    if ctx.topstat.outdeg = ctx.topstat.indeg then some ctx else none
  else none

/-- No out degree is negative when the edge has been taken off. -/
def gddEdgeUnlinkFrom (ctx : GddCtx) (edge : GddEdge) (fromiter : Option Nat) : Option GddCtx :=
  let ctx := Gdd.gddEdgeUnlinkFrom ctx edge fromiter
  if 0 ≤ ctx.topstat.outdeg ∧
      (stat? ctx edge.segid edge.vfrom).any (fun s => decide (0 ≤ s.outdeg)) then some ctx
  else none

/-- No in degree is negative when the edge has been taken off. -/
def gddEdgeUnlinkTo (ctx : GddCtx) (edge : GddEdge) (toiter : Option Nat) : Option GddCtx :=
  let ctx := Gdd.gddEdgeUnlinkTo ctx edge toiter
  if 0 ≤ ctx.topstat.indeg ∧
      (stat? ctx edge.segid edge.vto).any (fun s => decide (0 ≤ s.indeg)) then some ctx
  else none

def gddEdgeUnlink (ctx : GddCtx) (edge : GddEdge) (fromiter toiter : Option Nat) :
    Option GddCtx :=
  (gddEdgeUnlinkFrom ctx edge fromiter).bind fun ctx =>
    (gddEdgeUnlinkTo ctx edge toiter).bind fun ctx =>
      if ctx.topstat.outdeg = ctx.topstat.indeg then some ctx else none

def unlinkInEdges (del : GddEdge → Bool) (segid vid : Int) :
    (n pos : Nat) → GddCtx → Option (GddCtx × Bool)
  | 0, _, ctx => some (ctx, false)
  | n + 1, pos, ctx =>
    match (ctx.vert? segid vid).bind fun vert => vert.edgesIn[pos]? with
    | none => some (ctx, false)
    | some edge =>
      if del edge then
        (gddEdgeUnlink ctx edge none (some pos)).bind fun ctx =>
          (unlinkInEdges del segid vid n pos ctx).map fun r => (r.1, true)
      else unlinkInEdges del segid vid n (pos + 1) ctx

def unlinkOutEdges (segid vid : Int) : (n pos : Nat) → GddCtx → Option (GddCtx × Bool)
  | 0, _, ctx => some (ctx, false)
  | n + 1, pos, ctx =>
    match (ctx.vert? segid vid).bind fun vert => vert.edgesOut[pos]? with
    | none => some (ctx, false)
    | some edge =>
      (gddEdgeUnlink ctx edge (some pos) none).bind fun ctx =>
        (unlinkOutEdges segid vid n pos ctx).map fun r => (r.1, true)

/-- Each of the two lists is empty when its loop has ended. -/
def gddVertUnlinkAll (ctx : GddCtx) (segid vid : Int) : Option (GddCtx × Bool) :=
  (unlinkInEdges (fun _ => true) segid vid (gddVertGetInDegree ctx segid vid) 0 ctx).bind fun r =>
    if gddVertGetInDegree r.1 segid vid = 0 then
      (unlinkOutEdges segid vid (gddVertGetOutDegree r.1 segid vid) 0 r.1).bind fun r' =>
        if gddVertGetOutDegree r'.1 segid vid = 0 then some (r'.1, r.2 || r'.2) else none
    else none

def gddVertReduce (ctx : GddCtx) (segid vid : Int) : Option (GddCtx × Bool) :=
  (stat? ctx segid vid).bind fun global =>
    if global.indeg = 0 ∨ global.outdeg = 0 then gddVertUnlinkAll ctx segid vid
    else if gddVertGetOutDegree ctx segid vid = 0 then
      unlinkInEdges (fun edge => !edge.solid) segid vid (gddVertGetInDegree ctx segid vid) 0 ctx
    else some (ctx, false)

def reduceVerts (segid : Int) : (n pos : Nat) → GddCtx → Option (GddCtx × Bool)
  | 0, _, ctx => some (ctx, false)
  | n + 1, pos, ctx =>
    match (ctx.verts segid).pairs[pos]? with
    | none => some (ctx, false)
    | some (vid, _) =>
      (gddVertReduce ctx segid vid).bind fun r =>
        (if gddVertGetInDegree r.1 segid vid = 0 ∧ gddVertGetOutDegree r.1 segid vid = 0 then
          reduceVerts segid n pos (r.1.modifyVerts segid fun verts => gddMapIterDelete verts pos)
        else reduceVerts segid n (pos + 1) r.1).map fun r' => (r'.1, r.2 || r'.2)

def reduceGraphs : List Int → GddCtx → Option (GddCtx × Bool)
  | [], ctx => some (ctx, false)
  | segid :: segids, ctx =>
    (reduceVerts segid (ctx.verts segid).pairs.length 0 ctx).bind fun r =>
      (reduceGraphs segids r.1).map fun r' => (r'.1, r.2 || r'.2)

def gddCtxReduce : (fuel : Nat) → GddCtx → Option GddCtx
  | 0, _ => none
  | fuel + 1, ctx =>
    (reduceGraphs ctx.graphs.keys ctx).bind fun r =>
      if r.2 then gddCtxReduce fuel r.1 else some r.1

def gddGraphRemoveVid (ctx : GddCtx) (segid vid : Int) : Option GddCtx :=
  match (ctx.verts segid).pairs.findIdx? fun p => p.2.id == vid with
  | none => some ctx
  | some pos =>
    (gddVertUnlinkAll ctx segid vid).map fun r =>
      r.1.modifyVerts segid fun verts => gddMapIterDelete verts pos

def gddCtxRemoveVid (ctx : GddCtx) (vid : Int) : Option GddCtx :=
  ctx.graphs.keys.foldlM (fun ctx segid => gddGraphRemoveVid ctx segid vid) ctx

def gddCtxAddEdge (ctx : GddCtx) (segid vfrom vto : Int) (solid : Bool) : Option GddCtx :=
  let ctx := gddCtxGetGraph ctx segid
  let (ctx, edge) := gddGraphMakeEdge ctx segid vfrom vto solid
  let ctx := gddCtxGetGlobalStat ctx vfrom
  let ctx := gddVertBindStats ctx segid vfrom
  let ctx := gddCtxGetGlobalStat ctx vto
  let ctx := gddVertBindStats ctx segid vto
  gddEdgeLink ctx edge

end Asserting

/-! ## Runs -/

/-- A call of one of the functions that link or unlink edges. -/
inductive Call where
  | addEdge (w : Wait)
  | reduce
  | removeVid (vid : Int)
  deriving DecidableEq, Repr

/-- One call. `fuel` bounds the rounds of a reduction. -/
def Call.run (fuel : Nat) (ctx : GddCtx) : Call → Option GddCtx
  | addEdge w => some (gddCtxAddEdge ctx w.segid w.vfrom w.vto w.solid)
  | reduce => gddCtxReduce fuel ctx
  | removeVid vid => some (gddCtxRemoveVid ctx vid)

/-- One call, with the assertions. -/
def Call.runAsserting (fuel : Nat) (ctx : GddCtx) : Call → Option GddCtx
  | addEdge w => Asserting.gddCtxAddEdge ctx w.segid w.vfrom w.vto w.solid
  | reduce => Asserting.gddCtxReduce fuel ctx
  | removeVid vid => Asserting.gddCtxRemoveVid ctx vid

/-- The calls in turn, on a new context. -/
def runCalls (fuel : Nat) (calls : List Call) : Option GddCtx :=
  calls.foldlM (Call.run fuel) gddCtxNew

def runCallsAsserting (fuel : Nat) (calls : List Call) : Option GddCtx :=
  calls.foldlM (Call.runAsserting fuel) gddCtxNew

/-! ## No assertion fails -/

section Assertions

variable {ctx : GddCtx} {E : Finset GddEdge}

/-- A vertex is bound to a record that counts its edges. -/
theorem Rep.stat?_eq (h : Rep ctx E) {s v : Int} (hs : (ctx.vert? s v).isSome) :
    ∃ st, gddMapGet ctx.globals v = some st ∧ Asserting.stat? ctx s v = some st ∧
      st.indeg = inDegree E v ∧ st.outdeg = outDegree E v := by
  obtain ⟨st, hst⟩ := Option.isSome_iff_exists.mp (h.bound s v hs)
  refine ⟨st, hst, ?_, h.stat v st hst⟩
  rw [Asserting.stat?, h.bind_global hs]
  exact hst

theorem outDegree_pos {e : GddEdge} (he : e ∈ E) : 0 < outDegree E e.vfrom :=
  Finset.card_pos.mpr ⟨e, Finset.mem_filter.mpr ⟨he, rfl⟩⟩

/-- Taking an edge of the set off its from vertex leaves no negative out degree. -/
theorem Rep.asserting_unlinkFrom (h : Rep ctx E) {e : GddEdge} (he : e ∈ E) (fi : Option Nat) :
    Asserting.gddEdgeUnlinkFrom ctx e fi = some (gddEdgeUnlinkFrom ctx e fi) := by
  have hb := h.bind_global (h.vfrom e he)
  obtain ⟨st, hst, -, -, hout⟩ := h.stat?_eq (h.vfrom e he)
  have hpos := outDegree_pos he
  have hcard : 0 < E.card := Finset.card_pos.mpr ⟨e, he⟩
  have heq : gddEdgeUnlinkFrom ctx e fi =
      { ctx with
        topstat := { ctx.topstat with outdeg := ctx.topstat.outdeg - 1 }
        globals := ctx.globals.modify e.vfrom fun s => { s with outdeg := s.outdeg - 1 }
        }.modifyVert e.segid e.vfrom fun v =>
          { v with edgesOut := listDelete fi e v.edgesOut } := by
    rw [gddEdgeUnlinkFrom, modifyGlobal_eq (s := e.segid) (k := e.vfrom)]
    exact hb
  have htop : (gddEdgeUnlinkFrom ctx e fi).topstat.outdeg = E.card - 1 := by
    rw [heq, topstat_modifyVert, ← h.top_out]
  have hstat : Asserting.stat? (gddEdgeUnlinkFrom ctx e fi) e.segid e.vfrom =
      some { st with outdeg := st.outdeg - 1 } := by
    have hb' : ((gddEdgeUnlinkFrom ctx e fi).vert? e.segid e.vfrom).bind GddVert.global =
        some e.vfrom := by
      rw [heq, vert?_modifyVert, vert?_withStats, if_pos ⟨rfl, rfl⟩, Option.bind_map]
      exact hb
    rw [Asserting.stat?, hb', heq, Option.bind_some, globals_modifyVert, gddMapGet_modify,
      if_pos rfl, hst]
    rfl
  rw [Asserting.gddEdgeUnlinkFrom, if_pos]
  refine ⟨by omega, ?_⟩
  rw [hstat, Option.any_some, decide_eq_true_eq, hout]
  show 0 ≤ (outDegree E e.vfrom : Int) - 1
  omega

/-- Unlinking an edge of the set fails no assertion: afterwards every counter is a number of
edges again. -/
theorem Rep.asserting_unlink (h : Rep ctx E) {e : GddEdge} (he : e ∈ E) (fi ti : Option Nat)
    (hfi : ∀ x, ctx.vert? e.segid e.vfrom = some x → IterAt fi e x.edgesOut)
    (hti : ∀ x, ctx.vert? e.segid e.vto = some x → IterAt ti e x.edgesIn) :
    Asserting.gddEdgeUnlink ctx e fi ti = some (gddEdgeUnlink ctx e fi ti) := by
  have hrep := h.unlink he fi ti hfi hti
  have hto : ((gddEdgeUnlink ctx e fi ti).vert? e.segid e.vto).isSome := by
    rw [h.vert?_unlink he, Option.isSome_map]
    exact h.vto e he
  obtain ⟨st, -, hst, hin, -⟩ := hrep.stat?_eq hto
  have hlast : Asserting.gddEdgeUnlinkTo (gddEdgeUnlinkFrom ctx e fi) e ti =
      some (gddEdgeUnlink ctx e fi ti) := by
    rw [Asserting.gddEdgeUnlinkTo]
    refine if_pos ⟨?_, ?_⟩
    · show 0 ≤ (gddEdgeUnlink ctx e fi ti).topstat.indeg
      rw [hrep.top_in]
      exact Int.natCast_nonneg _
    · show (Asserting.stat? (gddEdgeUnlink ctx e fi ti) e.segid e.vto).any _ = true
      rw [hst, Option.any_some, decide_eq_true_eq, hin]
      exact Int.natCast_nonneg _
  rw [Asserting.gddEdgeUnlink, h.asserting_unlinkFrom he, Option.bind_some, hlast,
    Option.bind_some, if_pos (hrep.top_out.trans hrep.top_in.symm)]

theorem Rep.asserting_unlinkInEdges (h : Rep ctx E) (del : GddEdge → Bool) {s v : Int}
    (hs : (ctx.vert? s v).isSome) (n pos : Nat) :
    Asserting.unlinkInEdges del s v n pos ctx = some (Gdd.unlinkInEdges del s v n pos ctx) := by
  induction n generalizing ctx E pos with
  | zero => rfl
  | succ n ih =>
    obtain ⟨x, hx⟩ := Option.isSome_iff_exists.mp hs
    rw [Asserting.unlinkInEdges, Gdd.unlinkInEdges, hx, Option.bind_some]
    cases hget : x.edgesIn[pos]? with
    | none => rfl
    | some e =>
      obtain ⟨he, hes, hev⟩ := ((h.vert s v x hx).mem_in e).mp (List.mem_of_getElem? hget)
      have hfi : ∀ y, ctx.vert? e.segid e.vfrom = some y → IterAt none e y.edgesOut := by
        intro y _ p hp
        cases hp
      have hti : ∀ y, ctx.vert? e.segid e.vto = some y → IterAt (some pos) e y.edgesIn := by
        intro y hy p hp
        rw [hes, hev, hx] at hy
        cases hy
        cases hp
        exact hget
      have hs' : ((gddEdgeUnlink ctx e none (some pos)).vert? s v).isSome := by
        rw [h.vert?_unlink he, Option.isSome_map]
        exact hs
      simp only
      split_ifs with hdel
      · rw [h.asserting_unlink he _ _ hfi hti, Option.bind_some,
          ih (h.unlink he _ _ hfi hti) hs']
        rfl
      · exact ih h hs (pos + 1)

theorem Rep.asserting_unlinkOutEdges (h : Rep ctx E) {s v : Int}
    (hs : (ctx.vert? s v).isSome) (n pos : Nat) :
    Asserting.unlinkOutEdges s v n pos ctx = some (Gdd.unlinkOutEdges s v n pos ctx) := by
  induction n generalizing ctx E pos with
  | zero => rfl
  | succ n ih =>
    obtain ⟨x, hx⟩ := Option.isSome_iff_exists.mp hs
    rw [Asserting.unlinkOutEdges, Gdd.unlinkOutEdges, hx, Option.bind_some]
    cases hget : x.edgesOut[pos]? with
    | none => rfl
    | some e =>
      obtain ⟨he, hes, hev⟩ := ((h.vert s v x hx).mem_out e).mp (List.mem_of_getElem? hget)
      have hfi : ∀ y, ctx.vert? e.segid e.vfrom = some y → IterAt (some pos) e y.edgesOut := by
        intro y hy p hp
        rw [hes, hev, hx] at hy
        cases hy
        cases hp
        exact hget
      have hti : ∀ y, ctx.vert? e.segid e.vto = some y → IterAt none e y.edgesIn := by
        intro y _ p hp
        cases hp
      have hs' : ((gddEdgeUnlink ctx e (some pos) none).vert? s v).isSome := by
        rw [h.vert?_unlink he, Option.isSome_map]
        exact hs
      simp only
      rw [h.asserting_unlink he _ _ hfi hti, Option.bind_some, ih (h.unlink he _ _ hfi hti) hs']
      rfl

theorem Rep.asserting_unlinkAll (h : Rep ctx E) {s v : Int} (hs : (ctx.vert? s v).isSome) :
    Asserting.gddVertUnlinkAll ctx s v = some (gddVertUnlinkAll ctx s v) := by
  have h₁ := h.unlinkAllIn hs
  have hs₁ := (h₁.shape.vert?_isSome s v).mpr hs
  have h₂ := h₁.rep.unlinkAllOut hs₁
  have hs₂ := (h₂.shape.vert?_isSome s v).mpr hs₁
  rw [Asserting.gddVertUnlinkAll, h.asserting_unlinkInEdges _ hs, Option.bind_some,
    if_pos, h₁.rep.asserting_unlinkOutEdges hs₁, Option.bind_some, if_pos]
  · rfl
  · rw [h₂.rep.outDegree_local hs₂]
    intro e he hes hev
    exact (Finset.mem_filter.mp he).2 ⟨hes, hev⟩
  · rw [h₁.rep.inDegree_local hs₁]
    intro e he hes hev
    exact (Finset.mem_filter.mp he).2 ⟨hes, hev⟩

theorem Rep.asserting_vertReduce (h : Rep ctx E) {s v : Int} (hs : (ctx.vert? s v).isSome) :
    Asserting.gddVertReduce ctx s v = some (gddVertReduce ctx s v) := by
  obtain ⟨st, hst, hstat, -, -⟩ := h.stat?_eq hs
  rw [Asserting.gddVertReduce, hstat, Option.bind_some]
  simp only [gddVertReduce, h.bind_global hs, Option.bind_some, hst]
  split_ifs
  · exact h.asserting_unlinkAll hs
  · exact h.asserting_unlinkInEdges _ hs _ _
  · rfl

theorem Rep.asserting_reduceVerts (h : Rep ctx E) (s : Int) (n pos : Nat) :
    Asserting.reduceVerts s n pos ctx = some (Gdd.reduceVerts s n pos ctx) := by
  induction n generalizing ctx E pos with
  | zero => rfl
  | succ n ih =>
    rw [Asserting.reduceVerts, Gdd.reduceVerts]
    cases hget : (ctx.verts s).pairs[pos]? with
    | none => rfl
    | some p =>
      have hs : (ctx.vert? s p.1).isSome :=
        gddMapGet_isSome.mpr (mem_keys (List.mem_of_getElem? hget))
      have hU := h.vertReduce hs
      have hs' := (hU.shape.vert?_isSome s p.1).mpr hs
      simp only
      rw [h.asserting_vertReduce hs, Option.bind_some]
      split_ifs with hdeg
      · have hv : ((gddVertReduce ctx s p.1).1.verts s).keys[pos]? = some p.1 := by
          rw [hU.shape.2 s, GddMap.keys, List.getElem?_map, hget]
          rfl
        obtain ⟨hdel, -⟩ := hU.rep.deleteVertAt hv fun e he hes =>
          ⟨(hU.rep.inDegree_local hs').mp hdeg.1 e he hes,
            (hU.rep.outDegree_local hs').mp hdeg.2 e he hes⟩
        rw [ih hdel]
        rfl
      · rw [ih hU.rep]
        rfl

theorem Rep.asserting_reduceGraphs (h : Rep ctx E) (segids : List Int) :
    Asserting.reduceGraphs segids ctx = some (Gdd.reduceGraphs segids ctx) := by
  induction segids generalizing ctx E with
  | nil => rfl
  | cons s l ih =>
    obtain ⟨E', hp, -⟩ := h.reduceVerts s (ctx.verts s).pairs.length 0 (by omega)
    rw [Asserting.reduceGraphs, h.asserting_reduceVerts, Option.bind_some, ih hp.rep]
    rfl

theorem Rep.asserting_reduce (h : Rep ctx E) (fuel : Nat) :
    Asserting.gddCtxReduce fuel ctx = gddCtxReduce fuel ctx := by
  induction fuel generalizing ctx E with
  | zero => rfl
  | succ fuel ih =>
    obtain ⟨E', hp, -⟩ := h.reduceGraphs h.nodup_graphs
    rw [Asserting.gddCtxReduce, Gdd.gddCtxReduce, h.asserting_reduceGraphs, Option.bind_some,
      ih hp.rep]

theorem Rep.asserting_graphRemoveVid (h : Rep ctx E) (s v : Int) :
    Asserting.gddGraphRemoveVid ctx s v = some (gddGraphRemoveVid ctx s v) := by
  rw [Asserting.gddGraphRemoveVid, gddGraphRemoveVid]
  cases hidx : (ctx.verts s).pairs.findIdx? fun p => p.2.id == v with
  | none => rfl
  | some pos =>
    obtain ⟨hlt, hpos, -⟩ := List.findIdx?_eq_some_iff_getElem.mp hidx
    have hmem := List.getElem_mem hlt
    have hid := (h.vert s _ _ ((gddMapGet_eq_some (h.nodup_verts s)).mpr hmem)).id
    have hs : (ctx.vert? s v).isSome :=
      gddMapGet_isSome.mpr ((hid.symm.trans (beq_iff_eq.mp hpos)) ▸ mem_keys hmem)
    simp only
    rw [h.asserting_unlinkAll hs]
    rfl

theorem Rep.asserting_removeVid (h : Rep ctx E) (v : Int) :
    Asserting.gddCtxRemoveVid ctx v = some (gddCtxRemoveVid ctx v) := by
  have key : ∀ (l : List Int) (c : GddCtx) (F : Finset GddEdge), Rep c F →
      l.foldlM (fun c s => Asserting.gddGraphRemoveVid c s v) c =
        some (l.foldl (fun c s => gddGraphRemoveVid c s v) c) := by
    intro l
    induction l with
    | nil => intro c F _; rfl
    | cons s l ih =>
      intro c F hc
      rw [List.foldlM_cons, hc.asserting_graphRemoveVid, List.foldl_cons]
      exact ih _ _ (hc.graphRemoveVid s v).1
  exact key ctx.graphs.keys ctx E h

/-- Adding an edge binds both of its ends before it is linked. -/
theorem Rep.asserting_addEdge (h : Rep ctx E) (s u v : Int) (b : Bool) :
    Asserting.gddCtxAddEdge ctx s u v b = some (gddCtxAddEdge ctx s u v b) := by
  have hbrk := (rest_getGraph ctx s).2.2
  have heq : Asserting.gddCtxAddEdge ctx s u v b =
      Asserting.gddEdgeLink (Gdd.withEnds ctx s u v) ⟨ctx.brk, b, s, u, v⟩ := by
    simp only [Asserting.gddCtxAddEdge, gddGraphMakeEdge, Gdd.withEnds, GddCtx.modifyVerts, hbrk]
  have hends := h.withEnds s u v
  have hfrom : ((Gdd.withEnds ctx s u v).vert? s u).isSome := by simp [vert?_withEnds]
  have hto : ((Gdd.withEnds ctx s u v).vert? s v).isSome := by simp [vert?_withEnds]
  obtain ⟨st, -, hst, -, -⟩ := hends.stat?_eq hfrom
  obtain ⟨st', -, hst', -, -⟩ := hends.stat?_eq hto
  have hadd := h.addEdge s u v b
  have htop := hadd.top_out.trans hadd.top_in.symm
  rw [addEdge_eq] at htop ⊢
  rw [heq, Asserting.gddEdgeLink]
  simp only [hst, hst', Option.isSome_some, and_self, if_true, htop]

/-- Each call fails no assertion and leaves a set of edges with at most one more. -/
theorem Rep.call (h : Rep ctx E) {fuel : Nat} (hf : E.card < fuel) (call : Call) :
    ∃ ctx' E', call.run fuel ctx = some ctx' ∧ call.runAsserting fuel ctx = some ctx' ∧
      Rep ctx' E' ∧ E'.card ≤ E.card + 1 := by
  cases call with
  | addEdge w =>
    exact ⟨_, _, rfl, h.asserting_addEdge .., h.addEdge .., Finset.card_insert_le ..⟩
  | reduce =>
    obtain ⟨ctx', hred, hrep⟩ := h.reduce fuel hf
    refine ⟨ctx', _, hred, (h.asserting_reduce fuel).trans hred, hrep, ?_⟩
    exact (Finset.card_le_card (greatestStable_subset keeps_monotone E)).trans (Nat.le_succ _)
  | removeVid vid =>
    refine ⟨_, _, rfl, h.asserting_removeVid vid, h.removeVid vid, ?_⟩
    exact (Finset.card_filter_le E _).trans (Nat.le_succ _)

theorem Rep.calls (h : Rep ctx E) (calls : List Call) {fuel : Nat}
    (hf : E.card + calls.length < fuel) :
    ∃ ctx' E', calls.foldlM (Call.run fuel) ctx = some ctx' ∧
      calls.foldlM (Call.runAsserting fuel) ctx = some ctx' ∧ Rep ctx' E' := by
  induction calls generalizing ctx E with
  | nil => exact ⟨ctx, E, rfl, rfl, h⟩
  | cons call l ih =>
    rw [List.length_cons] at hf
    have hlt : E.card < fuel := by omega
    obtain ⟨c, F, h₁, h₂, hrep, hcard⟩ := h.call hlt call
    obtain ⟨ctx', E', hr₁, hr₂, hr⟩ := ih hrep (by omega)
    refine ⟨ctx', E', ?_, ?_, hr⟩
    · rw [List.foldlM_cons, h₁]
      exact hr₁
    · rw [List.foldlM_cons, h₂]
      exact hr₂

end Assertions

/-! ## What the counters say -/

section Counters

variable {ctx : GddCtx} {E : Finset GddEdge}

/-- The number of edges into a vertex, summed over the local graphs. -/
def linkedIn (ctx : GddCtx) (vid : Int) : Nat :=
  (ctx.graphs.keys.map fun segid => gddVertGetInDegree ctx segid vid).sum

/-- The number of edges out of a vertex, summed over the local graphs. -/
def linkedOut (ctx : GddCtx) (vid : Int) : Nat :=
  (ctx.graphs.keys.map fun segid => gddVertGetOutDegree ctx segid vid).sum

/-- Every counter is the number of edges it stands for, and every edge is in the lists of its
own two ends and in no others. -/
structure DegreesAccounted (ctx : GddCtx) : Prop where
  top_in : ctx.topstat.indeg = ctx.edges.length
  top_out : ctx.topstat.outdeg = ctx.edges.length
  nodup : ctx.edges.Nodup
  bound : ∀ segid vid vert, ctx.vert? segid vid = some vert →
    vert.global = some vid ∧ (gddMapGet ctx.globals vid).isSome
  stat : ∀ vid st, gddMapGet ctx.globals vid = some st →
    st.indeg = linkedIn ctx vid ∧ st.outdeg = linkedOut ctx vid
  vfrom : ∀ e ∈ ctx.edges, (ctx.vert? e.segid e.vfrom).isSome
  vto : ∀ e ∈ ctx.edges, (ctx.vert? e.segid e.vto).isSome
  edges_out : ∀ segid vid vert, ctx.vert? segid vid = some vert → vert.edgesOut.Nodup ∧
    ∀ e, e ∈ vert.edgesOut ↔ e ∈ ctx.edges ∧ e.segid = segid ∧ e.vfrom = vid
  edges_in : ∀ segid vid vert, ctx.vert? segid vid = some vert → vert.edgesIn.Nodup ∧
    ∀ e, e ∈ vert.edgesIn ↔ e ∈ ctx.edges ∧ e.segid = segid ∧ e.vto = vid

theorem Rep.inDegree_segment (h : Rep ctx E) (s v : Int) :
    gddVertGetInDegree ctx s v = (E.filter fun e => e.vto = v ∧ e.segid = s).card := by
  rw [gddVertGetInDegree]
  cases hx : ctx.vert? s v with
  | none =>
    refine (Finset.card_eq_zero.mpr (Finset.filter_eq_empty_iff.mpr ?_)).symm
    rintro e he ⟨rfl, rfl⟩
    simpa [hx] using h.vto e he
  | some x =>
    have hv := h.vert s v x hx
    rw [Option.map_some, Option.getD_some, ← List.toFinset_card_of_nodup hv.nodup_in]
    congr 1
    ext e
    rw [List.mem_toFinset, hv.mem_in, Finset.mem_filter]
    tauto

theorem Rep.outDegree_segment (h : Rep ctx E) (s v : Int) :
    gddVertGetOutDegree ctx s v = (E.filter fun e => e.vfrom = v ∧ e.segid = s).card := by
  rw [gddVertGetOutDegree]
  cases hx : ctx.vert? s v with
  | none =>
    refine (Finset.card_eq_zero.mpr (Finset.filter_eq_empty_iff.mpr ?_)).symm
    rintro e he ⟨rfl, rfl⟩
    simpa [hx] using h.vfrom e he
  | some x =>
    have hv := h.vert s v x hx
    rw [Option.map_some, Option.getD_some, ← List.toFinset_card_of_nodup hv.nodup_out]
    congr 1
    ext e
    rw [List.mem_toFinset, hv.mem_out, Finset.mem_filter]
    tauto

/-- Counting the edges of a set segment by segment. -/
theorem Rep.sum_segments (h : Rep ctx E) (p : GddEdge → Prop) [DecidablePred p] :
    (ctx.graphs.keys.map fun s => (E.filter fun e => p e ∧ e.segid = s).card).sum =
      (E.filter p).card := by
  have hmaps : Set.MapsTo GddEdge.segid (E.filter p : Set GddEdge) ctx.graphs.keys.toFinset := by
    intro e he
    have hs := h.vto e (Finset.mem_filter.mp he).1
    rw [Finset.mem_coe, List.mem_toFinset]
    by_contra hc
    rw [GddCtx.vert?, verts_of_not_mem hc] at hs
    cases hs
  rw [Finset.card_eq_sum_card_fiberwise hmaps, ← List.sum_toFinset _ h.nodup_graphs]
  refine Finset.sum_congr rfl fun s _ => ?_
  rw [Finset.filter_filter]

theorem Rep.linkedIn_eq (h : Rep ctx E) (v : Int) : linkedIn ctx v = inDegree E v := by
  simp only [linkedIn, h.inDegree_segment]
  exact h.sum_segments fun e => e.vto = v

theorem Rep.linkedOut_eq (h : Rep ctx E) (v : Int) : linkedOut ctx v = outDegree E v := by
  simp only [linkedOut, h.outDegree_segment]
  exact h.sum_segments fun e => e.vfrom = v

theorem Rep.length_edges (h : Rep ctx E) : ctx.edges.length = E.card := by
  rw [← List.toFinset_card_of_nodup h.nodup_edges, h.toFinset_edges]

theorem Rep.degreesAccounted (h : Rep ctx E) : DegreesAccounted ctx where
  top_in := by rw [h.top_in, h.length_edges]
  top_out := by rw [h.top_out, h.length_edges]
  nodup := h.nodup_edges
  bound s v x hx := ⟨(h.vert s v x hx).global, h.bound s v (by rw [hx]; rfl)⟩
  stat v st hst := by
    rw [h.linkedIn_eq, h.linkedOut_eq]
    exact h.stat v st hst
  vfrom e he := h.vfrom e ((h.mem_edges e).mp he)
  vto e he := h.vto e ((h.mem_edges e).mp he)
  edges_out s v x hx := by
    refine ⟨(h.vert s v x hx).nodup_out, fun e => ?_⟩
    rw [h.mem_edges]
    exact (h.vert s v x hx).mem_out e
  edges_in s v x hx := by
    refine ⟨(h.vert s v x hx).nodup_in, fun e => ?_⟩
    rw [h.mem_edges]
    exact (h.vert s v x hx).mem_in e

end Counters

/-- **The degrees are accounted for**, after any sequence of calls: no assertion fails on the way,
and the functions with and without their assertions end in the same context. -/
theorem degrees_accounted (calls : List Call) (fuel : Nat) (hf : calls.length < fuel) :
    ∃ ctx, runCalls fuel calls = some ctx ∧ runCallsAsserting fuel calls = some ctx ∧
      DegreesAccounted ctx := by
  have hlt : (∅ : Finset GddEdge).card + calls.length < fuel := by simpa using hf
  obtain ⟨ctx, E, h₁, h₂, hrep⟩ := rep_new.calls calls hlt
  exact ⟨ctx, h₁, h₂, hrep.degreesAccounted⟩

/-- Two parallel edges and a self edge, one of their ends removed again. -/
theorem degrees_accounted_parallelEdges :
    ∃ ctx, runCalls 6 [.addEdge ⟨0, 1, 2, true⟩, .addEdge ⟨0, 1, 2, false⟩,
        .addEdge ⟨1, 2, 2, true⟩, .removeVid 1, .reduce] = some ctx ∧
      runCallsAsserting 6 [.addEdge ⟨0, 1, 2, true⟩, .addEdge ⟨0, 1, 2, false⟩,
        .addEdge ⟨1, 2, 2, true⟩, .removeVid 1, .reduce] = some ctx ∧ DegreesAccounted ctx :=
  degrees_accounted _ 6 (by decide)

end Hdb.Gdd

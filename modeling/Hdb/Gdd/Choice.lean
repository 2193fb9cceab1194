import Hdb.Gdd.Break
import Mathlib.Logic.Relation

/-!
# The vertex that is cancelled

`GddCtxBreakDeadLock` cancels the vertex with the greatest id among those that have edges. The
graph it chooses from is reduced, so every vertex with an edge has an in edge and an out edge.
Following these in either direction ends in a cycle (`breakDeadLock_choice`): the chosen vertex
lies on a cycle, or on a path from one cycle to another. The second case is possible
(`vertex_between_cycles_cancelled`), and there the cancellation breaks no cycle.
-/

namespace Hdb.Gdd

/-- `u` waits for `v` on some segment. -/
def WaitsFor (ctx : GddCtx) (u v : Int) : Prop := ∃ e ∈ ctx.edges, e.vfrom = u ∧ e.vto = v

/-- `v` has an edge on some segment. -/
def Linked (ctx : GddCtx) (v : Int) : Prop := ∃ e ∈ ctx.edges, e.vto = v ∨ e.vfrom = v

/-- `v` lies on a directed cycle of the union of the local graphs. -/
def OnCycle (ctx : GddCtx) (v : Int) : Prop := Relation.TransGen (WaitsFor ctx) v v

/-- A path leads from a cycle to `v`, and one from `v` to a cycle. -/
def BetweenCycles (ctx : GddCtx) (v : Int) : Prop :=
  (∃ u, OnCycle ctx u ∧ Relation.ReflTransGen (WaitsFor ctx) u v) ∧
    ∃ w, Relation.ReflTransGen (WaitsFor ctx) v w ∧ OnCycle ctx w

/-- The context in which the loop chooses its vertex number `i`, counted from 0. -/
def breakContext (fuel : Nat) : (i : Nat) → GddCtx → Option GddCtx
  | 0, ctx => if gddCtxEmpty ctx then none else some ctx
  | i + 1, ctx =>
    if gddCtxEmpty ctx then none
    else
      (gddCtxReduce fuel (gddCtxRemoveVid ctx (gddCtxGetMaxVid ctx))).bind (breakContext fuel i)

/-- The loop appends the greatest vertex of each of these contexts, in order. -/
theorem breakLoop_chosen {fuel rounds : Nat} {ctx ctx' : GddCtx} {vids vids' : List Int}
    (h : breakLoop fuel rounds ctx vids = some (ctx', vids')) :
    ∃ chosen, vids' = vids ++ chosen ∧
      ∀ i, chosen[i]? = (breakContext fuel i ctx).map gddCtxGetMaxVid := by
  induction rounds generalizing ctx vids with
  | zero => cases h
  | succ rounds ih =>
    rw [breakLoop] at h
    by_cases hE : gddCtxEmpty ctx = true
    · rw [if_pos hE] at h
      cases h
      refine ⟨[], (List.append_nil _).symm, fun i => ?_⟩
      cases i <;> simp [breakContext, hE]
    · rw [if_neg hE] at h
      obtain ⟨c, hc, h⟩ := Option.bind_eq_some_iff.mp h
      obtain ⟨chosen, rfl, hch⟩ := ih h
      refine ⟨gddCtxGetMaxVid ctx :: chosen, by rw [List.append_assoc]; rfl, fun i => ?_⟩
      cases i with
      | zero => simp [breakContext, hE]
      | succ i => simp [breakContext, hE, hch, hc]

section Reduced

variable {ctx : GddCtx} {E : Finset GddEdge}

theorem Rep.linked_iff (h : Rep ctx E) (v : Int) :
    Linked ctx v ↔ ∃ e ∈ E, e.vto = v ∨ e.vfrom = v := by
  simp only [Linked, h.mem_edges]

/-- The contexts of the loop hold stable sets of edges, once the first one does. -/
theorem Rep.breakContext (h : Rep ctx E) (hs : StableIn keeps E) {fuel i : Nat} {c : GddCtx}
    (hc : breakContext fuel i ctx = some c) : ∃ F, Rep c F ∧ StableIn keeps F := by
  induction i generalizing ctx E with
  | zero =>
    rw [Gdd.breakContext] at hc
    split_ifs at hc
    cases hc
    exact ⟨E, h, hs⟩
  | succ i ih =>
    rw [Gdd.breakContext] at hc
    split_ifs at hc
    obtain ⟨d, hd, hc⟩ := Option.bind_eq_some_iff.mp hc
    exact ih ((h.removeVid _).of_reduce hd) (greatestStable_stable keeps_monotone _) hc

/-- In a stable set of edges a cycle can be reached from every vertex, forwards and backwards. -/
theorem Rep.betweenCycles (h : Rep ctx E) (hs : StableIn keeps E) {v : Int} (hv : Linked ctx v) :
    BetweenCycles ctx v := by
  -- The vertices with edges: each is waited for and waits.
  set V : Finset Int := E.image GddEdge.vto ∪ E.image GddEdge.vfrom
  have hmem : ∀ u, u ∈ V ↔ ∃ e ∈ E, e.vto = u ∨ e.vfrom = u := by
    intro u
    simp only [V, Finset.mem_union, Finset.mem_image, ← exists_or, and_or_left]
  have hwaits : ∀ e ∈ E, WaitsFor ctx e.vfrom e.vto :=
    fun e he => ⟨e, (h.mem_edges e).mpr he, rfl, rfl⟩
  have hout : ∀ u ∈ V, ∃ e ∈ E, e.vfrom = u := by
    intro u hu
    obtain ⟨e, he, rfl | rfl⟩ := (hmem u).mp hu
    · exact (hs e he).1
    · exact ⟨e, he, rfl⟩
  have hin : ∀ u ∈ V, ∃ e ∈ E, e.vto = u := by
    intro u hu
    obtain ⟨e, he, rfl | rfl⟩ := (hmem u).mp hu
    · exact ⟨e, he, rfl⟩
    · exact (hs e he).2.1
  have hvV : v ∈ V := (hmem v).mpr ((h.linked_iff v).mp hv)
  constructor
  · have hprev : ∀ u ∈ V, ∃ w ∈ V, Function.swap (WaitsFor ctx) u w := by
      intro u hu
      obtain ⟨e, he, rfl⟩ := hin u hu
      exact ⟨e.vfrom, (hmem _).mpr ⟨e, he, Or.inr rfl⟩, hwaits e he⟩
    obtain ⟨u, hreach, hcyc⟩ := exists_reaches_cycle hprev hvV
    exact ⟨u, Relation.transGen_swap.mp hcyc, Relation.reflTransGen_swap.mp hreach⟩
  · have hnext : ∀ u ∈ V, ∃ w ∈ V, WaitsFor ctx u w := by
      intro u hu
      obtain ⟨e, he, rfl⟩ := hout u hu
      exact ⟨e.vto, (hmem _).mpr ⟨e, he, Or.inl rfl⟩, hwaits e he⟩
    exact exists_reaches_cycle hnext hvV

/-- If a vertex with edges is not negative, the greatest such vertex is chosen. -/
theorem Rep.isGreatest_maxVid (h : Rep ctx E) (hnn : ∃ v, Linked ctx v ∧ 0 ≤ v) :
    IsGreatest {v | Linked ctx v} (gddCtxGetMaxVid ctx) := by
  have hmem : ∀ v, v ∈ linkedVids ctx ↔ Linked ctx v := fun v => by
    rw [h.mem_linkedVids, h.linked_iff]
  obtain ⟨-, hge, hor⟩ := foldl_max_spec (linkedVids ctx) 0
  rw [← getMaxVid_eq] at hge hor
  refine ⟨?_, fun v hv => hge v ((hmem v).mpr hv)⟩
  rcases hor with h0 | hin
  · obtain ⟨v, hv, hv0⟩ := hnn
    have hle := hge v ((hmem v).mpr hv)
    have hveq : gddCtxGetMaxVid ctx = v := by omega
    exact hveq ▸ hv
  · exact (hmem _).mp hin

end Reduced

/-- What is known of the vertex chosen in a context: if a vertex with edges is not negative, the
one chosen is the greatest of them, and it lies on a cycle or between cycles. -/
def ChoiceSound (ctx : GddCtx) : Prop :=
  (∃ v, Linked ctx v ∧ 0 ≤ v) →
    IsGreatest {v | Linked ctx v} (gddCtxGetMaxVid ctx) ∧ BetweenCycles ctx (gddCtxGetMaxVid ctx)

/-- **Which vertices get cancelled.** The vertices named by the loop are the greatest vertices of
the contexts it goes through. Started on the reduced wait graph, as `doDeadLockCheck` does, each
choice is sound; started on the full wait graph, each choice after the first is. -/
theorem breakDeadLock_choice (waits : List Wait) : ∃ ctx,
    (∀ fuel, waits.length < fuel → gddCtxReduce fuel (addWaits waits) = some ctx) ∧
    (∀ start ∈ [ctx, addWaits waits], ∀ fuel ctx' vids,
      gddCtxBreakDeadLock fuel start = some (ctx', vids) →
        ∀ i : Nat, vids[i]? = (breakContext fuel i start).map gddCtxGetMaxVid) ∧
    (∀ fuel i c, breakContext fuel i ctx = some c → ChoiceSound c) ∧
    ∀ fuel i c, breakContext fuel (i + 1) (addWaits waits) = some c → ChoiceSound c := by
  have hsound : ∀ {start c : GddCtx} {E : Finset GddEdge} {fuel i : Nat}, Rep start E →
      StableIn keeps E → breakContext fuel i start = some c → ChoiceSound c := by
    intro start c E fuel i hr hs hc hnn
    obtain ⟨F, hF, hFs⟩ := hr.breakContext hs hc
    have hmax := hF.isGreatest_maxVid hnn
    exact ⟨hmax, hF.betweenCycles hFs hmax.1⟩
  obtain ⟨ctx, hc, hr⟩ := reduce_addWaits waits
  refine ⟨ctx, hc, fun start _ fuel ctx' vids hb => ?_, fun fuel i c => ?_, fun fuel i c hcc => ?_⟩
  · obtain ⟨chosen, hv, hch⟩ := breakLoop_chosen hb
    rw [List.nil_append] at hv
    exact hv ▸ hch
  · exact hsound hr (greatestStable_stable keeps_monotone _)
  · rw [breakContext] at hcc
    split_ifs at hcc
    obtain ⟨d, hd, hcc⟩ := Option.bind_eq_some_iff.mp hcc
    exact hsound (((rep_addWaits waits).removeVid _).of_reduce hd)
      (greatestStable_stable keeps_monotone _) hcc

/-- Two cycles, `1 ⇄ 2` and `3 ⇄ 4`, and a path from the first to the second through 9. -/
def pathBetweenCycles : List Wait :=
  [⟨0, 1, 2, true⟩, ⟨1, 2, 1, true⟩, ⟨0, 3, 4, true⟩, ⟨1, 4, 3, true⟩, ⟨2, 2, 9, true⟩,
    ⟨2, 9, 3, true⟩]

/-- Transaction 9 is cancelled first although it is on no cycle; both deadlocks remain, and two
more transactions are cancelled for them. -/
theorem vertex_between_cycles_cancelled : ∃ ctx,
    gddCtxReduce 7 (addWaits pathBetweenCycles) = some ctx ∧
    (gddCtxBreakDeadLock 7 ctx).map Prod.snd = some [9, 4, 2] ∧
    breakContext 7 0 ctx = some ctx ∧ gddCtxGetMaxVid ctx = 9 ∧ ¬ OnCycle ctx 9 := by
  obtain ⟨ctx, hctx⟩ : ∃ ctx, gddCtxReduce 7 (addWaits pathBetweenCycles) = some ctx :=
    Option.isSome_iff_exists.mp (by decide +kernel)
  have hrun : ((gddCtxReduce 7 (addWaits pathBetweenCycles)).bind fun c =>
      (gddCtxBreakDeadLock 7 c).map Prod.snd) = some [9, 4, 2] := by decide +kernel
  have hchoice : ((gddCtxReduce 7 (addWaits pathBetweenCycles)).map fun c =>
      (gddCtxEmpty c, gddCtxGetMaxVid c)) = some (false, 9) := by decide +kernel
  have hedges : ((gddCtxReduce 7 (addWaits pathBetweenCycles)).map fun c =>
      c.edges.all fun e => e.vfrom ∉ [9, 3, 4] ∨ e.vto ∈ [3, 4]) = some true := by decide +kernel
  rw [hctx, Option.bind_some] at hrun
  rw [hctx, Option.map_some, Option.some.injEq] at hchoice hedges
  obtain ⟨hempty, hmax⟩ := Prod.mk.inj hchoice
  rw [List.all_eq_true] at hedges
  refine ⟨ctx, hctx, hrun, by simp [breakContext, hempty], hmax, fun hcyc => ?_⟩
  -- From 9 only 3 and 4 can be reached.
  have hstep : ∀ u v, WaitsFor ctx u v → u = 9 ∨ u = 3 ∨ u = 4 → v = 3 ∨ v = 4 := by
    intro u v huv hu
    obtain ⟨e, he, rfl, rfl⟩ := huv
    simpa [hu] using hedges e he
  have hreach : ∀ v, Relation.TransGen (WaitsFor ctx) 9 v → v = 3 ∨ v = 4 := by
    intro v hv
    induction hv with
    | single h => exact hstep _ _ h (Or.inl rfl)
    | tail _ h ih => exact hstep _ _ h (Or.inr ih)
  exact absurd (hreach 9 hcyc) (by decide)

end Hdb.Gdd

import Hdb.Gdd.Reduce

/-!
# Deadlocks found

What the reduction means for the wait relations a context was built from. The edges left are
the greatest stable subset of those added, so they do not depend on the order of adding
(`gddCtxReduce_greatest`); cycles of solid edges survive, and whatever survives contains a
cycle (`gddCtxReduce_cycles`).
-/

namespace Hdb.Gdd

/-! ## The edges of a context -/

section Edges

variable {ctx : GddCtx} {E : Finset GddEdge}

/-- The edge lists of the context are `E`, each edge once. -/
theorem Rep.mem_edges (h : Rep ctx E) (e : GddEdge) : e ∈ ctx.edges ↔ e ∈ E := by
  simp only [GddCtx.edges, List.mem_flatMap]
  constructor
  · rintro ⟨⟨s, g⟩, hg, ⟨v, x⟩, hx, he⟩
    have hget := (gddMapGet_eq_some h.nodup_graphs).mpr hg
    have hverts : ctx.verts s = g.verts := by simp [GddCtx.verts, hget]
    have hvert : ctx.vert? s v = some x :=
      (gddMapGet_eq_some (h.nodup_verts s)).mpr (by rw [hverts]; exact hx)
    exact (((h.vert s v x hvert).mem_out e).mp he).1
  · intro he
    obtain ⟨x, hx⟩ := Option.isSome_iff_exists.mp (h.vfrom e he)
    have hpair := mem_pairs_of_get hx
    have hs : e.segid ∈ ctx.graphs.keys := by
      by_contra hc
      rw [verts_of_not_mem hc] at hpair
      cases hpair
    obtain ⟨g, hg⟩ := Option.isSome_iff_exists.mp (gddMapGet_isSome.mpr hs)
    have hverts : ctx.verts e.segid = g.verts := by simp [GddCtx.verts, hg]
    exact ⟨_, mem_pairs_of_get hg, _, hverts ▸ hpair,
      ((h.vert _ _ x hx).mem_out e).mpr ⟨he, rfl, rfl⟩⟩

theorem Rep.nodup_edges (h : Rep ctx E) : ctx.edges.Nodup := by
  have hvert : ∀ p ∈ ctx.graphs.pairs, ∀ q ∈ p.2.verts.pairs, VertRep E p.1 q.1 q.2 := by
    rintro ⟨s, g⟩ hg ⟨v, x⟩ hx
    have hget := (gddMapGet_eq_some h.nodup_graphs).mpr hg
    have hverts : ctx.verts s = g.verts := by simp [GddCtx.verts, hget]
    exact h.vert s v x ((gddMapGet_eq_some (h.nodup_verts s)).mpr (by rw [hverts]; exact hx))
  have hkeys : ∀ p ∈ ctx.graphs.pairs, p.2.verts.keys.Nodup := by
    rintro ⟨s, g⟩ hg
    have hget := (gddMapGet_eq_some h.nodup_graphs).mpr hg
    have hverts : ctx.verts s = g.verts := by simp [GddCtx.verts, hget]
    exact hverts ▸ h.nodup_verts s
  refine List.nodup_flatMap.mpr ⟨fun p hp => List.nodup_flatMap.mpr ⟨fun q hq =>
    (hvert p hp q hq).nodup_out, ?_⟩, ?_⟩
  · -- Out edges of different vertices leave different vertices.
    refine (List.pairwise_map.mp (hkeys p hp)).imp_of_mem fun {q r} hq hr hne e heq her => ?_
    exact hne ((((hvert p hp q hq).mem_out e).mp heq).2.2.symm.trans
      (((hvert p hp r hr).mem_out e).mp her).2.2)
  · -- Edges of different graphs are on different segments.
    refine (List.pairwise_map.mp h.nodup_graphs).imp_of_mem fun {p q} hp hq hne e hep heq => ?_
    obtain ⟨x, hx, hep⟩ := List.mem_flatMap.mp hep
    obtain ⟨y, hy, heq⟩ := List.mem_flatMap.mp heq
    exact hne ((((hvert p hp x hx).mem_out e).mp hep).2.1.symm.trans
      (((hvert q hq y hy).mem_out e).mp heq).2.1)

theorem Rep.toFinset_edges (h : Rep ctx E) : ctx.edges.toFinset = E := by
  ext e
  rw [List.mem_toFinset, h.mem_edges]

theorem Rep.edges_eq_nil (h : Rep ctx E) : ctx.edges = [] ↔ E = ∅ := by
  rw [← h.toFinset_edges, List.toFinset_eq_empty_iff]

end Edges

/-! ## The edges added -/

/-- The edge that adding `w` as number `n` makes. -/
def Wait.edge (w : Wait) (n : Nat) : GddEdge := ⟨n, w.solid, w.segid, w.vfrom, w.vto⟩

/-- The arguments an edge was added with. -/
def GddEdge.wait (e : GddEdge) : Wait := ⟨e.segid, e.vfrom, e.vto, e.solid⟩

/-- The edges made by adding `waits` in turn, the first one at address `n`. -/
def edgesFrom (n : Nat) (waits : List Wait) : List GddEdge :=
  (waits.zipIdx n).map fun p => p.1.edge p.2

/-- The set of edges of `addWaits waits`. -/
def added (waits : List Wait) : Finset GddEdge := (edgesFrom 0 waits).toFinset

theorem edgesFrom_cons (n : Nat) (w : Wait) (l : List Wait) :
    edgesFrom n (w :: l) = w.edge n :: edgesFrom (n + 1) l := rfl

theorem map_wait_edgesFrom (n : Nat) (l : List Wait) : (edgesFrom n l).map GddEdge.wait = l := by
  induction l generalizing n with
  | nil => rfl
  | cons w l ih => rw [edgesFrom_cons, List.map_cons, ih]; rfl

theorem nodup_edgesFrom (n : Nat) (l : List Wait) : (edgesFrom n l).Nodup := by
  have hptr : (edgesFrom n l).map GddEdge.ptr = List.range' n l.length := by
    induction l generalizing n with
    | nil => rfl
    | cons w l ih =>
      rw [edgesFrom_cons, List.map_cons, ih, List.length_cons, List.range'_succ]
      rfl
  exact List.Nodup.of_map GddEdge.ptr (hptr ▸ List.nodup_range')

theorem card_added (l : List Wait) : (added l).card = l.length := by
  rw [added, List.toFinset_card_of_nodup (nodup_edgesFrom 0 l), edgesFrom, List.length_map,
    List.length_zipIdx]

theorem brk_link (ctx : GddCtx) (e : GddEdge) : (gddEdgeLink ctx e).brk = ctx.brk := by
  simp only [gddEdgeLink, brk_modifyVert]
  have h : ∀ (c : GddCtx) (s v : Int) (f : GddStat → GddStat), (c.modifyGlobal s v f).brk = c.brk :=
    fun c s v f => by unfold GddCtx.modifyGlobal; split <;> rfl
  simp only [h]

theorem brk_addEdge (ctx : GddCtx) (s u v : Int) (b : Bool) :
    (gddCtxAddEdge ctx s u v b).brk = ctx.brk + 1 := by
  rw [addEdge_eq, brk_link]
  simp [withEnds, gddVertBindStats]

/-- **A new context holds the edges added to it.** -/
theorem rep_addWaits (waits : List Wait) : Rep (addWaits waits) (added waits) := by
  have key : ∀ (l : List Wait) (ctx : GddCtx) (E : Finset GddEdge), Rep ctx E →
      Rep (l.foldl (fun ctx w => gddCtxAddEdge ctx w.segid w.vfrom w.vto w.solid) ctx)
        (E ∪ (edgesFrom ctx.brk l).toFinset) := by
    intro l
    induction l with
    | nil => intro ctx E h; simpa [edgesFrom] using h
    | cons w l ih =>
      intro ctx E h
      have := ih _ _ (h.addEdge w.segid w.vfrom w.vto w.solid)
      rw [brk_addEdge] at this
      rw [List.foldl_cons, edgesFrom_cons, List.toFinset_cons, Finset.union_insert]
      rwa [Finset.insert_union] at this
  have := key waits gddCtxNew ∅ rep_new
  rwa [Finset.empty_union] at this

/-! ## Reduction, for the caller -/

theorem gddCtxReduce_mono {ctx ctx' : GddCtx} {n m : Nat} (hnm : n ≤ m)
    (h : gddCtxReduce n ctx = some ctx') : gddCtxReduce m ctx = some ctx' := by
  induction n generalizing ctx m with
  | zero => cases h
  | succ n ih =>
    obtain ⟨m, rfl⟩ := Nat.exists_eq_succ_of_ne_zero (by omega : m ≠ 0)
    rw [gddCtxReduce] at h ⊢
    split_ifs at h ⊢ with hd
    · exact ih (by omega) h
    · exact h

/-- Whatever the bound, a reduction that ends gives the greatest stable set. -/
theorem Rep.of_reduce {ctx ctx' : GddCtx} {E : Finset GddEdge} (h : Rep ctx E) {fuel : Nat}
    (hf : gddCtxReduce fuel ctx = some ctx') : Rep ctx' (greatestStable keeps E) := by
  obtain ⟨c, hc, hr⟩ := h.reduce (max fuel (E.card + 1)) (by omega)
  rw [gddCtxReduce_mono (Nat.le_max_left _ _) hf] at hc
  cases hc
  exact hr

/-- The wait relations themselves, as wait relations. -/
def waitView : WaitView Wait Int := ⟨Wait.segid, Wait.vfrom, Wait.vto, Wait.solid⟩

/-- An edge survives when what it was added with does. -/
theorem mem_greatestStable_wait (E : Finset GddEdge) (e : GddEdge) :
    e ∈ greatestStable keeps E ↔
      e ∈ E ∧ e.wait ∈ greatestStable (keepsIn waitView) (E.image GddEdge.wait) :=
  greatestStable_image GddEdge.wait keeps_monotone (keepsIn_monotone waitView)
    (keepsIn_image GddEdge.wait Function.injective_id (fun _ => rfl) (fun _ => rfl) (fun _ => rfl)
      fun _ => rfl) E e

theorem image_wait_added (l : List Wait) : (added l).image GddEdge.wait = l.toFinset := by
  ext w
  rw [added, Finset.mem_image, List.mem_toFinset]
  simp only [List.mem_toFinset]
  rw [← List.mem_map, map_wait_edgesFrom]

open Classical in
/-- What is left, as a list of wait relations: those of the greatest stable set, with as many
copies as were added. -/
theorem Rep.map_wait_edges {ctx : GddCtx} {l : List Wait}
    (h : Rep ctx (greatestStable keeps (added l))) :
    (ctx.edges.map GddEdge.wait).Perm
      (l.filter fun w => w ∈ greatestStable (keepsIn waitView) l.toFinset) := by
  have hperm : ctx.edges.Perm ((edgesFrom 0 l).filter fun e =>
      e.wait ∈ greatestStable (keepsIn waitView) l.toFinset) := by
    rw [List.perm_ext_iff_of_nodup h.nodup_edges ((nodup_edgesFrom 0 l).filter _)]
    intro e
    rw [h.mem_edges, mem_greatestStable_wait, image_wait_added, List.mem_filter, added,
      List.mem_toFinset, decide_eq_true_iff]
  refine (hperm.map GddEdge.wait).trans (List.Perm.of_eq ?_)
  have hf : (fun e : GddEdge => decide (e.wait ∈ greatestStable (keepsIn waitView) l.toFinset)) =
      (fun w => decide (w ∈ greatestStable (keepsIn waitView) l.toFinset)) ∘ GddEdge.wait := rfl
  rw [hf, ← List.filter_map, map_wait_edgesFrom]

theorem reduce_addWaits (l : List Wait) : ∃ ctx,
    (∀ fuel, l.length < fuel → gddCtxReduce fuel (addWaits l) = some ctx) ∧
      Rep ctx (greatestStable keeps (added l)) := by
  obtain ⟨ctx, hc, hr⟩ := (rep_addWaits l).reduce (l.length + 1) (by rw [card_added]; omega)
  exact ⟨ctx, fun fuel hf => gddCtxReduce_mono (by omega) hc, hr⟩

/-- **Reduction computes the greatest stable subset of the edges added, in any order.** -/
theorem gddCtxReduce_greatest (waits : List Wait) : ∃ ctx,
    (∀ fuel, waits.length < fuel → gddCtxReduce fuel (addWaits waits) = some ctx) ∧
    ctx.edges.Nodup ∧
    IsGreatest {E : Finset GddEdge | E ⊆ added waits ∧ ∀ e ∈ E,
        (∃ f ∈ E, f.vfrom = e.vto) ∧ (∃ f ∈ E, f.vto = e.vfrom) ∧
          (e.solid = true ∨ ∃ f ∈ E, f.vfrom = e.vto ∧ f.segid = e.segid)} ctx.edges.toFinset ∧
    ∀ waits', waits'.Perm waits → ∀ fuel ctx', gddCtxReduce fuel (addWaits waits') = some ctx' →
      (ctx'.edges.map GddEdge.wait).Perm (ctx.edges.map GddEdge.wait) := by
  obtain ⟨ctx, hc, hr⟩ := reduce_addWaits waits
  refine ⟨ctx, hc, hr.nodup_edges, ?_, fun waits' hp fuel ctx' h' => ?_⟩
  · rw [hr.toFinset_edges]
    exact greatestStable_isGreatest keeps_monotone (added waits)
  · refine ((rep_addWaits waits').of_reduce h').map_wait_edges.trans
      (List.Perm.trans ?_ hr.map_wait_edges.symm)
    rw [List.toFinset_eq_of_perm _ _ hp]
    exact hp.filter _

/-- **Solid cycles survive, and survivors contain a cycle.** -/
theorem gddCtxReduce_cycles (waits : List Wait) : ∃ ctx,
    (∀ fuel, waits.length < fuel → gddCtxReduce fuel (addWaits waits) = some ctx) ∧
    (∀ c : List GddEdge, IsClosedWalk GddEdge.vfrom GddEdge.vto c →
      (∀ e ∈ c, e ∈ added waits ∧ e.solid = true) → ∀ e ∈ c, e ∈ ctx.edges) ∧
    (gddCtxEmpty ctx = false → ∃ c : List GddEdge,
      IsDirectedCycle GddEdge.vfrom GddEdge.vto c ∧ ∀ e ∈ c, e ∈ ctx.edges) := by
  obtain ⟨ctx, hc, hr⟩ := reduce_addWaits waits
  refine ⟨ctx, hc, fun c hcyc hadd e he => ?_, fun hne => ?_⟩
  · rw [hr.mem_edges]
    refine mem_greatestStable.mpr ⟨c.toFinset, fun f hf => ?_, fun f hf => ?_, ?_⟩
    · exact (hadd f (List.mem_toFinset.mp hf)).1
    · have hf' := List.mem_toFinset.mp hf
      obtain ⟨g, hg, hgf⟩ := hcyc.exists_next hf'
      obtain ⟨k, hk, hkf⟩ := hcyc.exists_prev hf'
      exact ⟨⟨g, List.mem_toFinset.mpr hg, hgf⟩, ⟨k, List.mem_toFinset.mpr hk, hkf⟩,
        Or.inl (hadd f hf').2⟩
    · exact List.mem_toFinset.mpr he
  · have hcard : (greatestStable keeps (added waits)).Nonempty := by
      rw [← Finset.card_pos]
      have : ctx.topstat.indeg ≠ 0 := by simpa [gddCtxEmpty] using hne
      rw [hr.top_in] at this
      omega
    obtain ⟨c, hcyc, hmem⟩ := exists_cycle GddEdge.vfrom GddEdge.vto hcard
      fun e he => (greatestStable_stable keeps_monotone _ e he).1
    exact ⟨c, hcyc, fun e he => (hr.mem_edges e).mpr (hmem e he)⟩

end Hdb.Gdd

import Hdb.Gdd.Deadlock

/-!
# Deadlocks broken

`gddCtxBreakDeadLock` cancels the transaction with the greatest id and reduces again, until
nothing is left. Vertex ids are `int`, so the transaction ids from `2 ^ 31` on are negative
there, and the scan for the greatest id starts at 0: it never names one of them.

A round that cancels a vertex with edges makes progress, and the reduced graph it works on is
stable. So the loop ends unless it meets a stable graph all of whose vertices are negative; and
if there is such a graph among the edges at the start, no round ever touches it.
`breakDeadLock_iff` puts the two together.
-/

namespace Hdb.Gdd

/-! ## Removing and choosing vertices -/

section Break

variable {ctx : GddCtx} {E : Finset GddEdge}

/-- The edges that do not touch a vertex. -/
def avoiding (E : Finset GddEdge) (v : Int) : Finset GddEdge :=
  E.filter fun e => e.vto ≠ v ∧ e.vfrom ≠ v

theorem Rep.graphRemoveVid (h : Rep ctx E) (s v : Int) :
    Rep (gddGraphRemoveVid ctx s v)
        (E.filter fun e => ¬ (e.segid = s ∧ (e.vto = v ∨ e.vfrom = v))) ∧
      (gddGraphRemoveVid ctx s v).graphs.keys = ctx.graphs.keys := by
  have hid : ∀ p ∈ (ctx.verts s).pairs, p.2.id = p.1 := fun p hp =>
    (h.vert s p.1 p.2 ((gddMapGet_eq_some (h.nodup_verts s)).mpr hp)).id
  rw [gddGraphRemoveVid]
  cases hidx : (ctx.verts s).pairs.findIdx? fun p => p.2.id == v with
  | none =>
    have hno : (ctx.vert? s v) = none := by
      rw [GddCtx.vert?, gddMapGet_eq_none]
      intro hm
      obtain ⟨p, hp, rfl⟩ := List.mem_map.mp hm
      have := List.findIdx?_eq_none_iff.mp hidx p hp
      simp [hid p hp] at this
    have hE : (E.filter fun e => ¬ (e.segid = s ∧ (e.vto = v ∨ e.vfrom = v))) = E := by
      refine Finset.filter_eq_self.mpr ?_
      rintro e he ⟨rfl, rfl | rfl⟩
      · simpa [hno] using h.vto e he
      · simpa [hno] using h.vfrom e he
    rw [hE]
    exact ⟨h, rfl⟩
  | some pos =>
    obtain ⟨hlt, hpos, -⟩ := List.findIdx?_eq_some_iff_getElem.mp hidx
    have hkey : ((ctx.verts s).pairs.get ⟨pos, hlt⟩).1 = v := by
      rw [← hid _ (List.get_mem _ _)]
      simpa using hpos
    have hs : (ctx.vert? s v).isSome :=
      gddMapGet_isSome.mpr (hkey ▸ mem_keys (List.get_mem _ _))
    have hU := h.unlinkAll hs
    simp only
    set c := (gddVertUnlinkAll ctx s v).1
    have hv : (c.verts s).keys[pos]? = some v := by
      rw [hU.shape.2 s, GddMap.keys, List.getElem?_map, List.getElem?_eq_getElem hlt]
      exact congrArg some hkey
    obtain ⟨hdel, -⟩ := hU.rep.deleteVertAt hv fun e he hes => by
      have := (Finset.mem_filter.mp he).2
      tauto
    exact ⟨hdel, (keys_modifyVerts _).trans hU.shape.1⟩

/-- **Removing a vertex from all graphs removes the edges that touch it.** -/
theorem Rep.removeVid (h : Rep ctx E) (v : Int) : Rep (gddCtxRemoveVid ctx v) (avoiding E v) := by
  have key : ∀ (l : List Int) (c : GddCtx) (F : Finset GddEdge), Rep c F →
      Rep (l.foldl (fun c s => gddGraphRemoveVid c s v) c)
        (F.filter fun e => ¬ (e.segid ∈ l ∧ (e.vto = v ∨ e.vfrom = v))) := by
    intro l
    induction l with
    | nil => intro c F hr; simpa using hr
    | cons s l ih =>
      intro c F hr
      have := ih _ _ (hr.graphRemoveVid s v).1
      rw [Finset.filter_filter] at this
      rw [List.foldl_cons]
      convert this using 1
      refine Finset.filter_congr fun e _ => ?_
      simp only [List.mem_cons]
      tauto
  have hset : avoiding E v =
      E.filter fun e => ¬ (e.segid ∈ ctx.graphs.keys ∧ (e.vto = v ∨ e.vfrom = v)) := by
    refine Finset.filter_congr fun e he => ?_
    have hs : e.segid ∈ ctx.graphs.keys := by
      by_contra hc
      have := h.vfrom e he
      rw [GddCtx.vert?, verts_of_not_mem hc] at this
      cases this
    tauto
  rw [hset]
  exact key ctx.graphs.keys ctx E h

/-- The ids of the vertices that have edges, in the order of the scan. -/
def linkedVids (ctx : GddCtx) : List Int :=
  ctx.graphs.pairs.flatMap fun g => (g.2.verts.pairs.filter fun v =>
    decide (v.2.edgesIn.length ≠ 0 ∨ v.2.edgesOut.length ≠ 0)).map fun v => v.2.id

theorem getMaxVid_eq (ctx : GddCtx) : gddCtxGetMaxVid ctx = (linkedVids ctx).foldl max 0 := by
  simp only [gddCtxGetMaxVid, linkedVids, List.foldl_flatMap, List.foldl_map, List.foldl_filter,
    decide_eq_true_eq]

theorem Rep.mem_linkedVids (h : Rep ctx E) (v : Int) :
    v ∈ linkedVids ctx ↔ ∃ e ∈ E, e.vto = v ∨ e.vfrom = v := by
  simp only [linkedVids, List.mem_flatMap, List.mem_map, List.mem_filter, decide_eq_true_eq, ne_eq,
    List.length_eq_zero_iff]
  constructor
  · rintro ⟨⟨s, g⟩, hg, ⟨w, x⟩, ⟨hx, hne⟩, rfl⟩
    have hget := (gddMapGet_eq_some h.nodup_graphs).mpr hg
    have hverts : ctx.verts s = g.verts := by simp [GddCtx.verts, hget]
    have hv := h.vert s w x ((gddMapGet_eq_some (h.nodup_verts s)).mpr (by rw [hverts]; exact hx))
    simp only
    rw [hv.id]
    rcases hne with hne | hne
    · obtain ⟨e, he⟩ := List.exists_mem_of_ne_nil _ hne
      obtain ⟨heE, -, hew⟩ := (hv.mem_in e).mp he
      exact ⟨e, heE, Or.inl hew⟩
    · obtain ⟨e, he⟩ := List.exists_mem_of_ne_nil _ hne
      obtain ⟨heE, -, hew⟩ := (hv.mem_out e).mp he
      exact ⟨e, heE, Or.inr hew⟩
  · rintro ⟨e, he, hev⟩
    have hsome : (ctx.vert? e.segid v).isSome := by
      rcases hev with rfl | rfl
      · exact h.vto e he
      · exact h.vfrom e he
    obtain ⟨x, hx⟩ := Option.isSome_iff_exists.mp hsome
    have hv := h.vert _ _ x hx
    have hpair := mem_pairs_of_get hx
    have hs : e.segid ∈ ctx.graphs.keys := by
      by_contra hc
      rw [verts_of_not_mem hc] at hpair
      cases hpair
    obtain ⟨g, hg⟩ := Option.isSome_iff_exists.mp (gddMapGet_isSome.mpr hs)
    have hverts : ctx.verts e.segid = g.verts := by simp [GddCtx.verts, hg]
    refine ⟨_, mem_pairs_of_get hg, (v, x), ⟨hverts ▸ hpair, ?_⟩, hv.id⟩
    rcases hev with hev | hev
    · exact Or.inl (List.ne_nil_of_mem ((hv.mem_in e).mpr ⟨he, rfl, hev⟩))
    · exact Or.inr (List.ne_nil_of_mem ((hv.mem_out e).mpr ⟨he, rfl, hev⟩))

theorem foldl_max_spec (l : List Int) (a : Int) :
    a ≤ l.foldl max a ∧ (∀ x ∈ l, x ≤ l.foldl max a) ∧ (l.foldl max a = a ∨ l.foldl max a ∈ l) := by
  induction l generalizing a with
  | nil => simp
  | cons x l ih =>
    obtain ⟨h₁, h₂, h₃⟩ := ih (max a x)
    rw [List.foldl_cons]
    refine ⟨(le_max_left a x).trans h₁, fun y hy => ?_, ?_⟩
    · rcases List.mem_cons.mp hy with rfl | hy
      · exact (le_max_right a y).trans h₁
      · exact h₂ y hy
    · rcases h₃ with h₃ | h₃
      · rcases max_choice a x with hm | hm
        · exact Or.inl (h₃.trans hm)
        · exact Or.inr (by rw [h₃, hm]; exact List.mem_cons_self)
      · exact Or.inr (List.mem_cons_of_mem x h₃)

/-- The chosen vertex has edges, unless every vertex that has some is negative. -/
theorem Rep.getMaxVid (h : Rep ctx E) :
    (∃ e ∈ E, e.vto = gddCtxGetMaxVid ctx ∨ e.vfrom = gddCtxGetMaxVid ctx) ∨
      gddCtxGetMaxVid ctx = 0 ∧ ∀ e ∈ E, e.vto < 0 ∧ e.vfrom < 0 := by
  obtain ⟨-, hge, hor⟩ := foldl_max_spec (linkedVids ctx) 0
  rw [← getMaxVid_eq] at hge hor
  by_cases hm : gddCtxGetMaxVid ctx ∈ linkedVids ctx
  · exact Or.inl ((h.mem_linkedVids _).mp hm)
  · have h0 := hor.resolve_right hm
    refine Or.inr ⟨h0, fun e he => ?_⟩
    have hto : e.vto ∈ linkedVids ctx := (h.mem_linkedVids _).mpr ⟨e, he, Or.inl rfl⟩
    have hfrom : e.vfrom ∈ linkedVids ctx := (h.mem_linkedVids _).mpr ⟨e, he, Or.inr rfl⟩
    rw [h0] at hge hm
    have hne : ∀ x ∈ linkedVids ctx, x < 0 := fun x hx =>
      lt_of_le_of_ne (hge x hx) fun hx0 => hm (hx0 ▸ hx)
    exact ⟨hne _ hto, hne _ hfrom⟩

/-! ## The loop -/

/-- The edges between vertices with negative ids. -/
def negativeEdges (E : Finset GddEdge) : Finset GddEdge := E.filter fun e => e.vto < 0 ∧ e.vfrom < 0

theorem Rep.empty_iff (h : Rep ctx E) : gddCtxEmpty ctx = true ↔ E = ∅ := by
  rw [gddCtxEmpty, beq_iff_eq, h.top_in, ← Finset.card_eq_zero]
  norm_cast

theorem gddCtxGetMaxVid_nonneg (ctx : GddCtx) : 0 ≤ gddCtxGetMaxVid ctx := by
  rw [getMaxVid_eq]
  exact (foldl_max_spec _ 0).1

/-- A stable set of negative edges is never touched: with one, the loop goes on forever. -/
theorem Rep.breakLoop_eq_none (h : Rep ctx E)
    (hcore : (greatestStable keeps (negativeEdges E)).Nonempty) (fuel rounds : Nat)
    (vids : List Int) : breakLoop fuel rounds ctx vids = none := by
  induction rounds generalizing ctx E vids with
  | zero => rfl
  | succ rounds ih =>
    rw [breakLoop]
    have hsub : greatestStable keeps (negativeEdges E) ⊆ negativeEdges E :=
      greatestStable_subset keeps_monotone _
    have hne : gddCtxEmpty ctx = false := by
      rw [← Bool.not_eq_true, h.empty_iff, ← Ne, ← Finset.nonempty_iff_ne_empty]
      exact hcore.mono (hsub.trans (Finset.filter_subset _ _))
    rw [if_neg (by simp [hne])]
    simp only
    cases hred : gddCtxReduce fuel (gddCtxRemoveVid ctx (gddCtxGetMaxVid ctx)) with
    | none => rfl
    | some c =>
      rw [Option.bind_some]
      have hr := (h.removeVid (gddCtxGetMaxVid ctx)).of_reduce hred
      refine ih hr (hcore.mono (subset_greatestStable (fun e he => ?_)
        (greatestStable_stable keeps_monotone _))) _
      obtain ⟨heE, hto, hfrom⟩ := Finset.mem_filter.mp (hsub he)
      refine Finset.mem_filter.mpr ⟨?_, hto, hfrom⟩
      -- The chosen vertex is not negative, so removing it and reducing spares the core.
      refine subset_greatestStable (fun f hf => ?_) (greatestStable_stable keeps_monotone _) he
      obtain ⟨hfE, hfto, hffrom⟩ := Finset.mem_filter.mp (hsub hf)
      have := gddCtxGetMaxVid_nonneg ctx
      exact Finset.mem_filter.mpr ⟨hfE, by omega, by omega⟩

/-- The edges that touch none of the vertices. -/
def avoidingAll (E : Finset GddEdge) (vids : List Int) : Finset GddEdge :=
  E.filter fun e => ∀ v ∈ vids, e.vto ≠ v ∧ e.vfrom ≠ v

theorem avoidingAll_cons (E : Finset GddEdge) (v : Int) (vids : List Int) :
    avoidingAll E (v :: vids) = avoidingAll (avoiding E v) vids := by
  simp only [avoidingAll, avoiding, Finset.filter_filter]
  refine Finset.filter_congr fun e _ => ?_
  simp only [List.forall_mem_cons]

theorem Rep.removeVids (h : Rep ctx E) (vids : List Int) :
    Rep (vids.foldl gddCtxRemoveVid ctx) (avoidingAll E vids) := by
  induction vids generalizing ctx E with
  | nil => simpa [avoidingAll] using h
  | cons v vids ih =>
    rw [List.foldl_cons, avoidingAll_cons]
    exact ih (h.removeVid v)

/-- What survives the removal of some vertices has survived the reduction before it. -/
theorem greatestStable_avoidingAll {vids : List Int}
    (h : greatestStable keeps (avoidingAll (greatestStable keeps E) vids) = ∅) :
    greatestStable keeps (avoidingAll E vids) = ∅ := by
  have hs := greatestStable_stable keeps_monotone (avoidingAll E vids)
  have hsub := greatestStable_subset keeps_monotone (avoidingAll E vids)
  rw [← Finset.subset_empty, ← h]
  refine subset_greatestStable (fun e he => ?_) hs
  refine Finset.mem_filter.mpr ⟨?_, (Finset.mem_filter.mp (hsub he)).2⟩
  exact subset_greatestStable (hsub.trans (Finset.filter_subset _ _)) hs he

/-- What breaking deadlocks should leave, started on a context that holds `E`. -/
structure Broken (E : Finset GddEdge) (ctx : GddCtx) (vids : List Int) : Prop where
  rep : Rep ctx ∅
  nodup : vids.Nodup
  free : greatestStable keeps (avoidingAll E vids) = ∅

/-- **One more round.** The chosen vertex is not chosen again, as its edges are gone. -/
theorem Broken.cons {v : Int} {vids : List Int} {ctx' : GddCtx}
    (h : Broken (greatestStable keeps (avoiding E v)) ctx' vids)
    (htouch : ∀ u ∈ vids, ∃ e ∈ greatestStable keeps (avoiding E v), e.vto = u ∨ e.vfrom = u) :
    Broken E ctx' (v :: vids) where
  rep := h.rep
  nodup := by
    refine List.nodup_cons.mpr ⟨fun hv => ?_, h.nodup⟩
    obtain ⟨e, he, hev⟩ := htouch v hv
    have := (Finset.mem_filter.mp (greatestStable_subset keeps_monotone _ he)).2
    tauto
  free := by
    rw [avoidingAll_cons]
    exact greatestStable_avoidingAll h.free

/-- **Without a stable set of negative edges the loop ends.** On a stable set each round removes
an edge, because the chosen vertex has one. -/
theorem Rep.breakLoop_of_stable (h : Rep ctx E) (hs : StableIn keeps E)
    (hcore : greatestStable keeps (negativeEdges E) = ∅) (fuel rounds : Nat)
    (hf : E.card < fuel) (hr : E.card < rounds) (vids : List Int) :
    ∃ ctx' vids', breakLoop fuel rounds ctx vids = some (ctx', vids ++ vids') ∧
      Broken E ctx' vids' ∧ ∀ v ∈ vids', ∃ e ∈ E, e.vto = v ∨ e.vfrom = v := by
  induction rounds generalizing ctx E vids with
  | zero => omega
  | succ rounds ih =>
    rw [breakLoop]
    by_cases hE : gddCtxEmpty ctx = true
    · have hE' := h.empty_iff.mp hE
      subst hE'
      refine ⟨ctx, [], by rw [if_pos hE, List.append_nil], ⟨h, List.nodup_nil, ?_⟩, by simp⟩
      exact Finset.subset_empty.mp
        ((greatestStable_subset keeps_monotone _).trans (Finset.filter_subset _ _))
    · rw [if_neg hE]
      set m := gddCtxGetMaxVid ctx
      -- A stable set all of whose edges are negative would be a negative core.
      have htouch : ∃ e ∈ E, e.vto = m ∨ e.vfrom = m := by
        refine h.getMaxVid.resolve_right fun hneg => hE (h.empty_iff.mpr ?_)
        have : negativeEdges E = E := Finset.filter_eq_self.mpr hneg.2
        rwa [this, greatestStable_of_stable keeps_monotone hs] at hcore
      have hlt : (greatestStable keeps (avoiding E m)).card < E.card := by
        obtain ⟨e, he, hem⟩ := htouch
        refine (Finset.card_le_card (greatestStable_subset keeps_monotone _)).trans_lt
          (Finset.card_lt_card (Finset.filter_ssubset.mpr ⟨e, he, ?_⟩))
        tauto
      have hsub : greatestStable keeps (avoiding E m) ⊆ E :=
        (greatestStable_subset keeps_monotone _).trans (Finset.filter_subset _ _)
      have hcore' : greatestStable keeps (negativeEdges (greatestStable keeps (avoiding E m))) =
          ∅ := by
        rw [← Finset.subset_empty, ← hcore]
        exact greatestStable_mono keeps_monotone (Finset.filter_subset_filter _ hsub)
      obtain ⟨c, hc, hrc⟩ := (h.removeVid m).reduce fuel
        ((Finset.card_le_card (Finset.filter_subset _ _)).trans_lt hf)
      obtain ⟨ctx', vids', heq, hb, ht⟩ := ih hrc (greatestStable_stable keeps_monotone _) hcore'
        (by omega) (by omega) (vids ++ [m])
      refine ⟨ctx', m :: vids', ?_, hb.cons ht, fun v hv => ?_⟩
      · simp only [hc, Option.bind_some, heq, List.append_assoc, List.singleton_append]
      · rcases List.mem_cons.mp hv with rfl | hv
        · exact htouch
        · obtain ⟨e, he, hev⟩ := ht v hv
          exact ⟨e, hsub he, hev⟩

/-- The same on any context: its first round makes it stable. -/
theorem Rep.breakDeadLock (h : Rep ctx E) (hcore : greatestStable keeps (negativeEdges E) = ∅)
    (fuel : Nat) (hf : E.card + 1 < fuel) :
    ∃ ctx' vids, gddCtxBreakDeadLock fuel ctx = some (ctx', vids) ∧ Broken E ctx' vids := by
  obtain ⟨rounds, rfl⟩ := Nat.exists_eq_succ_of_ne_zero (by omega : fuel ≠ 0)
  rw [gddCtxBreakDeadLock, breakLoop]
  by_cases hE : gddCtxEmpty ctx = true
  · have hE' := h.empty_iff.mp hE
    subst hE'
    refine ⟨ctx, [], by rw [if_pos hE], h, List.nodup_nil, ?_⟩
    exact Finset.subset_empty.mp
      ((greatestStable_subset keeps_monotone _).trans (Finset.filter_subset _ _))
  · rw [if_neg hE]
    set m := gddCtxGetMaxVid ctx
    have hsub : greatestStable keeps (avoiding E m) ⊆ E :=
      (greatestStable_subset keeps_monotone _).trans (Finset.filter_subset _ _)
    have hcore' : greatestStable keeps (negativeEdges (greatestStable keeps (avoiding E m))) =
        ∅ := by
      rw [← Finset.subset_empty, ← hcore]
      exact greatestStable_mono keeps_monotone (Finset.filter_subset_filter _ hsub)
    have hcard := Finset.card_le_card hsub
    obtain ⟨c, hc, hrc⟩ := (h.removeVid m).reduce (rounds + 1)
      ((Finset.card_le_card (Finset.filter_subset _ _)).trans_lt (by omega))
    obtain ⟨ctx', vids', heq, hb, ht⟩ := hrc.breakLoop_of_stable
      (greatestStable_stable keeps_monotone _) hcore' (rounds + 1) rounds
      (by omega) (by omega) ([] ++ [m])
    exact ⟨ctx', m :: vids', by simp only [hc, Option.bind_some, heq]; rfl, hb.cons ht⟩

end Break

/-! ## Transaction ids -/

theorem vidOfXid_eq (xid : UInt32) : vidOfXid xid = xid.toBitVec.toInt := rfl

theorem vidOfXid_injective : Function.Injective vidOfXid := fun a b h => by
  rw [vidOfXid_eq, vidOfXid_eq, BitVec.toInt_inj] at h
  exact UInt32.toBitVec_inj.mp h

theorem vidOfXid_neg (xid : UInt32) : vidOfXid xid < 0 ↔ 2 ^ 31 ≤ xid.toNat := by
  rw [vidOfXid_eq, BitVec.toInt_neg_iff, UInt32.toNat_toBitVec]
  omega

/-- The reported relations as wait relations between transaction ids. -/
def rowView : WaitView WaitEdge UInt32 :=
  ⟨WaitEdge.segid, WaitEdge.waiter, WaitEdge.holder, WaitEdge.solid⟩

/-- No nonempty set of the wait relations between transactions with ids from `2 ^ 31` on is
stable under the rules of the detector. -/
def NoHighDeadlock (rows : List WaitEdge) : Prop :=
  ∀ S ⊆ rows.toFinset, (∀ r ∈ S, 2 ^ 31 ≤ r.waiter.toNat ∧ 2 ^ 31 ≤ r.holder.toNat) →
    (∀ r ∈ S, (∃ q ∈ S, q.waiter = r.holder) ∧ (∃ q ∈ S, q.holder = r.waiter) ∧
      (r.solid = true ∨ ∃ q ∈ S, q.waiter = r.holder ∧ q.segid = r.segid)) → S = ∅

/-- The relations between transactions with high ids. -/
def highRows (rows : List WaitEdge) : Finset WaitEdge :=
  rows.toFinset.filter fun r => 2 ^ 31 ≤ r.waiter.toNat ∧ 2 ^ 31 ≤ r.holder.toNat

theorem image_wait_negativeEdges (rows : List WaitEdge) :
    (negativeEdges (added (rows.map WaitEdge.wait))).image GddEdge.wait =
      (highRows rows).image WaitEdge.wait := by
  have hadd := image_wait_added (rows.map WaitEdge.wait)
  ext w
  simp only [negativeEdges, highRows, Finset.mem_image, Finset.mem_filter, List.mem_toFinset]
  constructor
  · rintro ⟨e, ⟨he, hto, hfrom⟩, rfl⟩
    have hw : e.wait ∈ (rows.map WaitEdge.wait).toFinset := hadd ▸ Finset.mem_image_of_mem _ he
    obtain ⟨r, hr, hrw⟩ := List.mem_map.mp (List.mem_toFinset.mp hw)
    have h₁ : vidOfXid r.waiter = e.vfrom := congrArg Wait.vfrom hrw
    have h₂ : vidOfXid r.holder = e.vto := congrArg Wait.vto hrw
    exact ⟨r, ⟨hr, (vidOfXid_neg _).mp (h₁ ▸ hfrom), (vidOfXid_neg _).mp (h₂ ▸ hto)⟩, hrw⟩
  · rintro ⟨r, ⟨hr, hw, hh⟩, rfl⟩
    have hmem : r.wait ∈ (added (rows.map WaitEdge.wait)).image GddEdge.wait := by
      rw [hadd]; exact List.mem_toFinset.mpr (List.mem_map_of_mem hr)
    obtain ⟨e, he, heq⟩ := Finset.mem_image.mp hmem
    have h₁ : e.vfrom = vidOfXid r.waiter := congrArg Wait.vfrom heq
    have h₂ : e.vto = vidOfXid r.holder := congrArg Wait.vto heq
    exact ⟨e, ⟨he, h₂ ▸ (vidOfXid_neg _).mpr hh, h₁ ▸ (vidOfXid_neg _).mpr hw⟩, heq⟩

/-- The condition on the reported relations is the one on the edges of the context. -/
theorem noHighDeadlock_iff (rows : List WaitEdge) : NoHighDeadlock rows ↔
    greatestStable keeps (negativeEdges (added (rows.map WaitEdge.wait))) = ∅ := by
  have hrow := greatestStable_image WaitEdge.wait (keepsIn_monotone rowView)
    (keepsIn_monotone waitView) (keepsIn_image WaitEdge.wait vidOfXid_injective (fun _ => rfl)
      (fun _ => rfl) (fun _ => rfl) fun _ => rfl) (highRows rows)
  have hedge := mem_greatestStable_wait (negativeEdges (added (rows.map WaitEdge.wait)))
  rw [image_wait_negativeEdges] at hedge
  have hmono := keepsIn_monotone rowView
  constructor
  · intro h
    have hnone : greatestStable (keepsIn rowView) (highRows rows) = ∅ := by
      have hsub := greatestStable_subset hmono (highRows rows)
      exact h _ (hsub.trans (Finset.filter_subset _ _))
        (fun r hr => (Finset.mem_filter.mp (hsub hr)).2) (greatestStable_stable hmono _)
    refine Finset.eq_empty_of_forall_notMem fun e he => ?_
    have hw := ((hedge e).mp he).2
    obtain ⟨r, hr, hrw⟩ :=
      Finset.mem_image.mp (greatestStable_subset (keepsIn_monotone waitView) _ hw)
    have := (hrow r).mpr ⟨hr, hrw ▸ hw⟩
    simp [hnone] at this
  · intro h S hS hhigh hstable
    refine Finset.eq_empty_of_forall_notMem fun r hr => ?_
    have hst : StableIn (keepsIn rowView) S := hstable
    have hrS : r ∈ greatestStable (keepsIn rowView) (highRows rows) :=
      subset_greatestStable (fun q hq => Finset.mem_filter.mpr ⟨hS hq, hhigh q hq⟩) hst hr
    have hw := ((hrow r).mp hrS).2
    have himg := image_wait_negativeEdges rows
    obtain ⟨e, he, hew⟩ := Finset.mem_image.mp
      (himg ▸ greatestStable_subset (keepsIn_monotone waitView) _ hw)
    have := (hedge e).mpr ⟨he, hew ▸ hw⟩
    simp [h] at this

/-- Breaking the deadlocks of `ctx`, which was built from `rows`, ends and does its work: the
context is empty, no vertex is named twice, and removing the named ones from the initial graph
and reducing it leaves no edge. -/
def DeadlocksBroken (rows : List WaitEdge) (ctx : GddCtx) : Prop :=
  ∃ fuel ctx' vids, gddCtxBreakDeadLock fuel ctx = some (ctx', vids) ∧
    gddCtxEmpty ctx' = true ∧ ctx'.edges = [] ∧ vids.Nodup ∧
    ∃ ctx'', gddCtxReduce fuel (vids.foldl gddCtxRemoveVid (addWaitEdges rows)) = some ctx'' ∧
      ctx''.edges = []

theorem greatestStable_negativeEdges (E : Finset GddEdge) :
    greatestStable keeps (negativeEdges (greatestStable keeps E)) =
      greatestStable keeps (negativeEdges E) := by
  have hsub := greatestStable_subset keeps_monotone (negativeEdges E)
  have hs := greatestStable_stable keeps_monotone (negativeEdges E)
  refine Finset.Subset.antisymm (greatestStable_mono keeps_monotone
    (Finset.filter_subset_filter _ (greatestStable_subset keeps_monotone E))) ?_
  refine subset_greatestStable (fun e he => Finset.mem_filter.mpr ⟨?_, ?_⟩) hs
  · exact subset_greatestStable (hsub.trans (Finset.filter_subset _ _)) hs he
  · exact (Finset.mem_filter.mp (hsub he)).2

/-- The loop, started on the full wait graph or on the reduced one. -/
structure Breakable (rows : List WaitEdge) (ctx : GddCtx) (E : Finset GddEdge) : Prop where
  rep : Rep ctx E
  edges : E = added (rows.map WaitEdge.wait) ∨
    E = greatestStable keeps (added (rows.map WaitEdge.wait))

section

variable {rows : List WaitEdge} {ctx : GddCtx} {E : Finset GddEdge}

/-- There is no stable set of negative edges. -/
theorem Breakable.noHighDeadlock_iff (h : Breakable rows ctx E) :
    NoHighDeadlock rows ↔ greatestStable keeps (negativeEdges E) = ∅ := by
  rw [Gdd.noHighDeadlock_iff]
  rcases h.edges with rfl | rfl
  · exact Iff.rfl
  · rw [greatestStable_negativeEdges]

/-- The loop ends only then. -/
theorem Breakable.noHighDeadlock (h : Breakable rows ctx E) {fuel : Nat} {r : GddCtx × List Int}
    (hb : gddCtxBreakDeadLock fuel ctx = some r) : NoHighDeadlock rows := by
  rw [h.noHighDeadlock_iff]
  by_contra hne
  rw [gddCtxBreakDeadLock,
    h.rep.breakLoop_eq_none (Finset.nonempty_iff_ne_empty.mpr hne) fuel fuel []] at hb
  cases hb

/-- And then it does its work, in so many rounds. -/
theorem Breakable.broken (h : Breakable rows ctx E) (hno : NoHighDeadlock rows) :
    ∃ ctx' vids, gddCtxBreakDeadLock (rows.length + 2) ctx = some (ctx', vids) ∧
      gddCtxEmpty ctx' = true ∧ ctx'.edges = [] ∧ vids.Nodup ∧
      ∃ ctx'', gddCtxReduce (rows.length + 2) (vids.foldl gddCtxRemoveVid (addWaitEdges rows)) =
        some ctx'' ∧ ctx''.edges = [] := by
  have hrep₀ : Rep (addWaitEdges rows) (added (rows.map WaitEdge.wait)) := rep_addWaits _
  have hlen : (added (rows.map WaitEdge.wait)).card = rows.length := by
    rw [card_added, List.length_map]
  have hcard : E.card ≤ rows.length := by
    rw [← hlen]
    rcases h.edges with rfl | rfl
    · exact le_rfl
    · exact Finset.card_le_card (greatestStable_subset keeps_monotone _)
  obtain ⟨ctx', vids, hb, hbr⟩ :=
    h.rep.breakDeadLock (h.noHighDeadlock_iff.mp hno) (rows.length + 2) (by omega)
  have hfree : greatestStable keeps (avoidingAll (added (rows.map WaitEdge.wait)) vids) = ∅ := by
    rcases h.edges with rfl | rfl
    · exact hbr.free
    · exact greatestStable_avoidingAll hbr.free
  have hlt : (avoidingAll (added (rows.map WaitEdge.wait)) vids).card < rows.length + 2 :=
    (Finset.card_le_card (Finset.filter_subset _ _)).trans_lt (by omega)
  obtain ⟨c, hc, hrc⟩ := (hrep₀.removeVids vids).reduce (rows.length + 2) hlt
  rw [hfree] at hrc
  exact ⟨ctx', vids, hb, hbr.rep.empty_iff.mpr rfl, hbr.rep.edges_eq_nil.mpr rfl, hbr.nodup, c, hc,
    hrc.edges_eq_nil.mpr rfl⟩

/-- On the full wait graph or on the reduced one, the loop does its work exactly when there is
no stable set of negative edges. -/
theorem Breakable.deadlocksBroken_iff (h : Breakable rows ctx E) :
    DeadlocksBroken rows ctx ↔ NoHighDeadlock rows :=
  ⟨fun ⟨_, _, _, hb, _⟩ => h.noHighDeadlock hb, fun hno => ⟨_, h.broken hno⟩⟩

end

/-- **When deadlocks get broken.** Started on the wait graph, or on the reduced wait graph as
`doDeadLockCheck` does, the loop ends and does its work if and only if no deadlock lies wholly
among transactions whose ids are negative as an `int`. -/
theorem breakDeadLock_iff (rows : List WaitEdge) :
    (DeadlocksBroken rows (addWaitEdges rows) ↔ NoHighDeadlock rows) ∧
    ∃ ctx, (∀ fuel, rows.length < fuel → gddCtxReduce fuel (addWaitEdges rows) = some ctx) ∧
      (DeadlocksBroken rows ctx ↔ NoHighDeadlock rows) := by
  refine ⟨Breakable.deadlocksBroken_iff ⟨rep_addWaits _, Or.inl rfl⟩, ?_⟩
  obtain ⟨ctx, hc, hr⟩ := reduce_addWaits (rows.map WaitEdge.wait)
  rw [List.length_map] at hc
  exact ⟨ctx, hc, Breakable.deadlocksBroken_iff ⟨hr, Or.inr rfl⟩⟩

/-- Two transactions with ids from `2 ^ 31` on that wait for each other on two segments. -/
def highDeadlock : List WaitEdge :=
  [⟨0, 2147483648, 2147483649, true⟩, ⟨1, 2147483649, 2147483648, true⟩]

/-- Their deadlock is never broken, whether or not the graph is reduced first. -/
theorem highDeadlock_not_broken :
    (∀ r ∈ highDeadlock, r.waiter ≠ 0 ∧ r.holder ≠ 0) ∧
    ¬ DeadlocksBroken highDeadlock (addWaitEdges highDeadlock) ∧
    ∀ fuel ctx, gddCtxReduce fuel (addWaitEdges highDeadlock) = some ctx →
      ¬ DeadlocksBroken highDeadlock ctx := by
  have hcore : ¬ NoHighDeadlock highDeadlock := fun h => by
    have := h highDeadlock.toFinset (by decide) (by decide) (by decide)
    exact absurd this (by decide)
  refine ⟨by decide, ?_, fun fuel ctx hc => ?_⟩
  · exact fun hb => hcore ((Breakable.deadlocksBroken_iff ⟨rep_addWaits _, Or.inl rfl⟩).mp hb)
  · have hred : Breakable highDeadlock ctx _ := ⟨(rep_addWaits _).of_reduce hc, Or.inr rfl⟩
    exact fun hb => hcore (hred.deadlocksBroken_iff.mp hb)

/-! ## A round of the detector -/

/-- The rows whose transactions are both valid on the master. -/
def validRows (gxids : List UInt32) (rows : List WaitEdge) : List WaitEdge :=
  rows.filter fun r => (gxids.map vidOfXid).contains (vidOfXid r.waiter) &&
    (gxids.map vidOfXid).contains (vidOfXid r.holder)

theorem buildWaitGraph_eq (gxids : List UInt32) (rows : List WaitEdge) :
    buildWaitGraph gxids rows = addWaitEdges (validRows gxids rows) := rfl

theorem prefix_of_breakLoop {fuel rounds : Nat} {ctx ctx' : GddCtx} {vids vids' : List Int}
    (h : breakLoop fuel rounds ctx vids = some (ctx', vids')) : vids <+: vids' := by
  induction rounds generalizing ctx vids with
  | zero => cases h
  | succ rounds ih =>
    rw [breakLoop] at h
    split_ifs at h
    · obtain rfl := (Prod.mk.inj (Option.some.inj h)).2
      exact List.prefix_rfl
    · obtain ⟨c, -, hc⟩ := Option.bind_eq_some_iff.mp h
      exact (List.prefix_append _ _).trans (ih hc)

/-- A context that is not empty has a vertex to cancel. -/
theorem ne_nil_of_breakDeadLock {fuel : Nat} {ctx ctx' : GddCtx} {vids : List Int}
    (hne : ¬ gddCtxEmpty ctx = true) (h : gddCtxBreakDeadLock fuel ctx = some (ctx', vids)) :
    vids ≠ [] := by
  rw [gddCtxBreakDeadLock] at h
  cases hfuel : fuel with
  | zero =>
    rw [hfuel] at h
    cases h
  | succ rounds =>
    nth_rewrite 2 [hfuel] at h
    rw [breakLoop, if_neg hne] at h
    obtain ⟨c, -, hc⟩ := Option.bind_eq_some_iff.mp h
    rintro rfl
    exact absurd (prefix_of_breakLoop hc) (by simp)

/-- **Nothing is cancelled** if and only if the waits between valid transactions have no
deadlock. -/
theorem doDeadLockCheck_nil (gxids : List UInt32) (rows : List WaitEdge) {fuel : Nat}
    (hfuel : (validRows gxids rows).length < fuel) : doDeadLockCheck fuel gxids rows = some [] ↔
      ∀ E ⊆ added ((validRows gxids rows).map WaitEdge.wait), StableIn keeps E → E = ∅ := by
  obtain ⟨ctx, hc, hr⟩ := reduce_addWaits ((validRows gxids rows).map WaitEdge.wait)
  rw [List.length_map] at hc
  have hnone : gddCtxEmpty ctx = true ↔
      ∀ E ⊆ added ((validRows gxids rows).map WaitEdge.wait), StableIn keeps E → E = ∅ := by
    rw [hr.empty_iff]
    constructor
    · intro h E hsub hs
      exact Finset.subset_empty.mp (h ▸ subset_greatestStable hsub hs)
    · exact fun h => h _ (greatestStable_subset keeps_monotone _)
        (greatestStable_stable keeps_monotone _)
  rw [← hnone, doDeadLockCheck, buildWaitGraph_eq, addWaitEdges, hc fuel hfuel, Option.bind_some]
  split_ifs with hempty
  · exact iff_of_true rfl hempty
  · refine iff_of_false (fun h => ?_) hempty
    obtain ⟨r, hb, hnil⟩ := Option.map_eq_some_iff.mp h
    exact ne_nil_of_breakDeadLock hempty hb hnil

/-- **A round of the detector** ends and breaks all deadlocks between valid transactions if and only
if none of them lies wholly among transactions whose ids are negative as an `int`. -/
theorem doDeadLockCheck_iff (gxids : List UInt32) (rows : List WaitEdge) :
    (∃ fuel vids, doDeadLockCheck fuel gxids rows = some vids ∧ vids.Nodup ∧
      ∃ ctx, gddCtxReduce fuel (vids.foldl gddCtxRemoveVid (buildWaitGraph gxids rows)) = some ctx ∧
        ctx.edges = []) ↔ NoHighDeadlock (validRows gxids rows) := by
  obtain ⟨ctx, hc, hr⟩ := reduce_addWaits ((validRows gxids rows).map WaitEdge.wait)
  rw [List.length_map] at hc
  have hbreak : Breakable (validRows gxids rows) ctx _ := ⟨hr, Or.inr rfl⟩
  simp only [buildWaitGraph_eq]
  constructor
  · rintro ⟨fuel, vids, hcheck, -⟩
    obtain ⟨ctx', hc', hcheck⟩ := Option.bind_eq_some_iff.mp hcheck
    have hbreak' : Breakable (validRows gxids rows) ctx' _ :=
      ⟨(rep_addWaits _).of_reduce hc', Or.inr rfl⟩
    split_ifs at hcheck with hempty
    · -- nothing is left of a deadlock
      rw [hbreak'.noHighDeadlock_iff, hbreak'.rep.empty_iff.mp hempty]
      exact Finset.subset_empty.mp ((greatestStable_subset keeps_monotone _).trans
        (Finset.filter_subset _ _))
    · obtain ⟨r, hb, -⟩ := Option.map_eq_some_iff.mp hcheck
      exact hbreak'.noHighDeadlock hb
  · intro hno
    have hreduce := hc ((validRows gxids rows).length + 2) (by omega)
    by_cases hempty : gddCtxEmpty ctx = true
    · refine ⟨_, [], ?_, List.nodup_nil, ctx, hreduce, ?_⟩
      · rw [doDeadLockCheck, buildWaitGraph_eq, addWaitEdges, hreduce, Option.bind_some,
          if_pos hempty]
      · exact hr.edges_eq_nil.mpr (hr.empty_iff.mp hempty)
    · obtain ⟨ctx', vids, hb, -, -, hnodup, hleft⟩ := hbreak.broken hno
      refine ⟨_, vids, ?_, hnodup, hleft⟩
      rw [doDeadLockCheck, buildWaitGraph_eq, addWaitEdges, hreduce, Option.bind_some,
        if_neg hempty, hb, Option.map_some]

end Hdb.Gdd

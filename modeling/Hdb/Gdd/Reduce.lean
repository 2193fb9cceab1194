import Hdb.Gdd.Represent
import Hdb.Lib.Stable

/-!
# Reduction finds the greatest stable graph

The rules of the detector are a pruning rule `keeps E e` on sets of edges: the holder waits for
somebody, the waiter is waited for, and a dotted edge needs its holder to wait on the same
segment. Every edge that a round unlinks may not stay, and a round that unlinks nothing has
looked at every vertex, so what is left is the greatest stable set of edges.

Main results: `Rep.reduce`, from which follow that the order in which edges are added is
irrelevant, that cycles of solid edges survive, and that a nonempty result has a cycle.
-/

namespace Hdb.Gdd

/-! ## The pruning rule -/

/-- A reading of the elements of `α` as wait relations between the vertices `V`. -/
structure WaitView (α V : Type) where
  segid : α → Int
  vfrom : α → V
  vto : α → V
  solid : α → Bool

/-- The relation may stay: its head has an out edge and its tail an in edge on some segment, and
it is solid or its head has an out edge on its own segment. -/
def keepsIn {α V : Type} (w : WaitView α V) (S : Finset α) (a : α) : Prop :=
  (∃ b ∈ S, w.vfrom b = w.vto a) ∧ (∃ b ∈ S, w.vto b = w.vfrom a) ∧
    (w.solid a = true ∨ ∃ b ∈ S, w.vfrom b = w.vto a ∧ w.segid b = w.segid a)

theorem keepsIn_monotone {α V : Type} [DecidableEq α] (w : WaitView α V) :
    MonotoneRule (keepsIn w) := by
  rintro S T hST a ⟨⟨b, hb, h₁⟩, ⟨c, hc, h₂⟩, h₃⟩
  refine ⟨⟨b, hST hb, h₁⟩, ⟨c, hST hc, h₂⟩, h₃.imp_right ?_⟩
  rintro ⟨d, hd, h⟩
  exact ⟨d, hST hd, h⟩

/-- Renaming the elements, and the vertices injectively, changes nothing. -/
theorem keepsIn_image {α β V W : Type} [DecidableEq β] {w : WaitView α V} {w' : WaitView β W}
    (f : α → β) {g : V → W} (hg : Function.Injective g) (hs : ∀ a, w'.segid (f a) = w.segid a)
    (hf : ∀ a, w'.vfrom (f a) = g (w.vfrom a)) (ht : ∀ a, w'.vto (f a) = g (w.vto a))
    (hd : ∀ a, w'.solid (f a) = w.solid a) (S : Finset α) (a : α) :
    keepsIn w' (S.image f) (f a) ↔ keepsIn w S a := by
  simp only [keepsIn, Finset.mem_image, exists_exists_and_eq_and, hs, hf, ht, hd, hg.eq_iff]

/-- The edges of a context as wait relations. -/
def edgeView : WaitView GddEdge Int :=
  ⟨GddEdge.segid, GddEdge.vfrom, GddEdge.vto, GddEdge.solid⟩

/-- The edge may stay. -/
abbrev keeps : Finset GddEdge → GddEdge → Prop := keepsIn edgeView

theorem keeps_monotone : MonotoneRule keeps := keepsIn_monotone edgeView

/-! ## Loops over edges -/

section Loops

variable {ctx : GddCtx} {E : Finset GddEdge}

/-- The same graphs with the same vertices, in the same order. -/
def SameShape (ctx ctx' : GddCtx) : Prop :=
  ctx'.graphs.keys = ctx.graphs.keys ∧ ∀ t, (ctx'.verts t).keys = (ctx.verts t).keys

theorem SameShape.refl (ctx : GddCtx) : SameShape ctx ctx := ⟨rfl, fun _ => rfl⟩

theorem SameShape.trans {c₁ c₂ c₃ : GddCtx} (h₁ : SameShape c₁ c₂) (h₂ : SameShape c₂ c₃) :
    SameShape c₁ c₃ := ⟨h₂.1.trans h₁.1, fun t => (h₂.2 t).trans (h₁.2 t)⟩

theorem SameShape.vert?_isSome {c₁ c₂ : GddCtx} (h : SameShape c₁ c₂) (s v : Int) :
    (c₂.vert? s v).isSome ↔ (c₁.vert? s v).isSome := by
  simp only [GddCtx.vert?, gddMapGet_isSome, h.2 s]

theorem Rep.sameShape_unlink (h : Rep ctx E) {e : GddEdge} (he : e ∈ E) (fi ti : Option Nat) :
    SameShape ctx (gddEdgeUnlink ctx e fi ti) := by
  rw [h.unlink_eq he]
  refine ⟨by simp, fun t => ?_⟩
  rw [keys_verts_modifyVert, keys_verts_modifyVert]
  rfl

/-- What a loop over the edges of a vertex does: exactly the edges in `D` are gone. -/
structure Unlinks (ctx : GddCtx) (E : Finset GddEdge) (D : GddEdge → Prop) [DecidablePred D]
    (r : GddCtx × Bool) : Prop where
  rep : Rep r.1 (E.filter fun e => ¬ D e)
  shape : SameShape ctx r.1
  dirty : r.2 = true ↔ ∃ e ∈ E, D e

theorem Unlinks.congr {D D' : GddEdge → Prop} [DecidablePred D] [DecidablePred D']
    {r : GddCtx × Bool} (h : Unlinks ctx E D r) (hD : ∀ e ∈ E, D e ↔ D' e) :
    Unlinks ctx E D' r where
  rep := by
    have : (E.filter fun e => ¬ D' e) = E.filter fun e => ¬ D e :=
      Finset.filter_congr fun e he => not_congr (hD e he).symm
    rw [this]; exact h.rep
  shape := h.shape
  dirty := h.dirty.trans (exists_congr fun e => and_congr_right fun he => hD e he)

theorem Unlinks.nothing (h : Rep ctx E) : Unlinks ctx E (fun _ => False) (ctx, false) where
  rep := by simpa using h
  shape := .refl ctx
  dirty := by simp

/-- The loop unlinks the selected edges from its position on. -/
theorem Rep.unlinkInEdges (h : Rep ctx E) (del : GddEdge → Bool) {s v : Int} {x : GddVert}
    (hx : ctx.vert? s v = some x) {n pos : Nat} (hn : x.edgesIn.length ≤ pos + n) :
    Unlinks ctx E (fun e => e ∈ x.edgesIn.drop pos ∧ del e = true)
      (unlinkInEdges del s v n pos ctx) := by
  induction n generalizing ctx E x pos with
  | zero =>
    refine (Unlinks.nothing h).congr fun e _ => ?_
    rw [List.drop_eq_nil_of_le (by omega)]
    simp
  | succ n ih =>
    rw [Gdd.unlinkInEdges]
    simp only [hx, Option.bind_some]
    have hv := h.vert s v x hx
    cases hget : x.edgesIn[pos]? with
    | none =>
      refine (Unlinks.nothing h).congr fun e _ => ?_
      rw [List.drop_eq_nil_of_le (List.getElem?_eq_none_iff.mp hget)]
      simp
    | some e =>
      obtain ⟨hlt, hpos⟩ := List.getElem?_eq_some_iff.mp hget
      have hdrop : x.edgesIn.drop pos = e :: x.edgesIn.drop (pos + 1) := by
        rw [List.drop_eq_getElem_cons hlt, hpos]
      obtain ⟨he, hes, hev⟩ := (hv.mem_in e).mp (hpos ▸ List.getElem_mem hlt)
      simp only
      split_ifs with hdel
      · -- The edge under the iterator is unlinked; its successor moves to the same position.
        have hrep := h.unlink he none (some pos) (fun _ _ _ hp => by cases hp) (by
          rintro y hy p hp
          rw [hes, hev, hx] at hy
          cases hy; cases hp
          exact hget)
        have hx' := h.vert?_unlink he none (some pos) s v
        rw [hx] at hx'
        simp only [Option.map_some, hes, hev, true_and, if_true, and_self, listDelete] at hx'
        have hlen : (x.edgesIn.eraseIdx pos).length ≤ pos + n := by
          rw [List.length_eraseIdx_of_lt hlt]; omega
        have hr := ih hrep hx' hlen
        have hdrop' : (x.edgesIn.eraseIdx pos).drop pos = x.edgesIn.drop (pos + 1) := by
          rw [List.eraseIdx_eq_take_drop_succ, List.drop_left' (by simp [hlt.le])]
        simp only [hdrop'] at hr
        refine ⟨?_, (h.sameShape_unlink he none (some pos)).trans hr.shape, ?_⟩
        · have hset : (E.filter fun f => ¬ (f ∈ x.edgesIn.drop pos ∧ del f = true)) =
              (E.erase e).filter fun f => ¬ (f ∈ x.edgesIn.drop (pos + 1) ∧ del f = true) := by
            ext f
            simp only [Finset.mem_filter, Finset.mem_erase, hdrop, List.mem_cons]
            by_cases hfe : f = e
            · simp [hfe, hdel]
            · simp [hfe]
          rw [hset]; exact hr.rep
        · exact iff_of_true rfl ⟨e, he, by rw [hdrop]; exact List.mem_cons_self, hdel⟩
      · refine (ih h hx (by omega)).congr fun f _ => ?_
        rw [hdrop, List.mem_cons]
        refine and_congr_left fun hf => (or_iff_right ?_).symm
        rintro rfl
        exact hdel hf

/-- The loop unlinks every out edge. -/
theorem Rep.unlinkOutEdges (h : Rep ctx E) {s v : Int} {x : GddVert}
    (hx : ctx.vert? s v = some x) {n : Nat} (hn : x.edgesOut.length ≤ n) :
    Unlinks ctx E (fun e => e ∈ x.edgesOut) (unlinkOutEdges s v n 0 ctx) := by
  induction n generalizing ctx E x with
  | zero =>
    refine (Unlinks.nothing h).congr fun e _ => ?_
    rw [List.eq_nil_of_length_eq_zero (Nat.le_zero.mp hn)]
    simp
  | succ n ih =>
    rw [Gdd.unlinkOutEdges]
    simp only [hx, Option.bind_some]
    have hv := h.vert s v x hx
    cases hout : x.edgesOut with
    | nil => exact (Unlinks.nothing h).congr fun e _ => by simp
    | cons e l =>
      obtain ⟨he, hes, hev⟩ := (hv.mem_out e).mp (hout ▸ List.mem_cons_self)
      simp only [List.getElem?_cons_zero]
      have hrep := h.unlink he (some 0) none (by
        rintro y hy p hp
        rw [hes, hev, hx] at hy
        cases hy; cases hp
        rw [hout]; rfl) (fun _ _ _ hp => by cases hp)
      have hx' := h.vert?_unlink he (some 0) none s v
      rw [hx] at hx'
      simp only [Option.map_some, hes, hev, true_and, if_true, and_self, listDelete, hout,
        List.eraseIdx_cons_zero] at hx'
      have hr := ih hrep hx' (by rw [hout] at hn; simpa using hn)
      refine ⟨?_, (h.sameShape_unlink he (some 0) none).trans hr.shape, ?_⟩
      · have hset : (E.filter fun f => ¬ f ∈ e :: l) = (E.erase e).filter fun f => ¬ f ∈ l := by
          ext f
          simp only [Finset.mem_filter, Finset.mem_erase, List.mem_cons, not_or]
          tauto
        rw [hset]; exact hr.rep
      · exact iff_of_true rfl ⟨e, he, List.mem_cons_self⟩

/-- Every in edge of a vertex is unlinked. -/
theorem Rep.unlinkAllIn (h : Rep ctx E) {s v : Int} (hs : (ctx.vert? s v).isSome) :
    Unlinks ctx E (fun e => e.segid = s ∧ e.vto = v)
      (Gdd.unlinkInEdges (fun _ => true) s v (gddVertGetInDegree ctx s v) 0 ctx) := by
  obtain ⟨x, hx⟩ := Option.isSome_iff_exists.mp hs
  refine (h.unlinkInEdges _ hx (by simp [gddVertGetInDegree, hx])).congr fun e he => ?_
  simp [(h.vert s v x hx).mem_in, he]

/-- Every out edge of a vertex is unlinked. -/
theorem Rep.unlinkAllOut (h : Rep ctx E) {s v : Int} (hs : (ctx.vert? s v).isSome) :
    Unlinks ctx E (fun e => e.segid = s ∧ e.vfrom = v)
      (Gdd.unlinkOutEdges s v (gddVertGetOutDegree ctx s v) 0 ctx) := by
  obtain ⟨x, hx⟩ := Option.isSome_iff_exists.mp hs
  refine (h.unlinkOutEdges hx (by simp [gddVertGetOutDegree, hx])).congr fun e he => ?_
  simp [(h.vert s v x hx).mem_out, he]

/-- Every edge of a vertex is unlinked. -/
theorem Rep.unlinkAll (h : Rep ctx E) {s v : Int} (hs : (ctx.vert? s v).isSome) :
    Unlinks ctx E (fun e => e.segid = s ∧ (e.vto = v ∨ e.vfrom = v))
      (gddVertUnlinkAll ctx s v) := by
  have h₁ := h.unlinkAllIn hs
  have h₂ := h₁.rep.unlinkAllOut ((h₁.shape.vert?_isSome s v).mpr hs)
  simp only [gddVertUnlinkAll]
  refine ⟨?_, h₁.shape.trans h₂.shape, ?_⟩
  · have hset : (E.filter fun e => ¬ (e.segid = s ∧ (e.vto = v ∨ e.vfrom = v))) =
        (E.filter fun e => ¬ (e.segid = s ∧ e.vto = v)).filter
          fun e => ¬ (e.segid = s ∧ e.vfrom = v) := by
      ext e
      simp only [Finset.mem_filter]
      tauto
    rw [hset]; exact h₂.rep
  · rw [Bool.or_eq_true, h₁.dirty, h₂.dirty]
    simp only [Finset.mem_filter]
    constructor
    · rintro (⟨e, he, hes, hev⟩ | ⟨e, ⟨he, -⟩, hes, hev⟩)
      · exact ⟨e, he, hes, Or.inl hev⟩
      · exact ⟨e, he, hes, Or.inr hev⟩
    · rintro ⟨e, he, hes, hev⟩
      by_cases hto : e.vto = v
      · exact Or.inl ⟨e, he, hes, hto⟩
      · exact Or.inr ⟨e, ⟨he, fun h => hto h.2⟩, hes, hev.resolve_left hto⟩

end Loops

/-! ## One vertex -/

section Vertex

variable {ctx : GddCtx} {E : Finset GddEdge}

theorem inDegree_eq_zero_iff {v : Int} : inDegree E v = 0 ↔ ∀ e ∈ E, e.vto ≠ v := by
  simp [inDegree, Finset.filter_eq_empty_iff]

theorem outDegree_eq_zero_iff {v : Int} : outDegree E v = 0 ↔ ∀ e ∈ E, e.vfrom ≠ v := by
  simp [outDegree, Finset.filter_eq_empty_iff]

theorem Rep.inDegree_local (h : Rep ctx E) {s v : Int} (hs : (ctx.vert? s v).isSome) :
    gddVertGetInDegree ctx s v = 0 ↔ ∀ e ∈ E, e.segid = s → e.vto ≠ v := by
  obtain ⟨x, hx⟩ := Option.isSome_iff_exists.mp hs
  have hv := h.vert s v x hx
  simp only [gddVertGetInDegree, hx, Option.map_some, Option.getD_some, List.length_eq_zero_iff,
    List.eq_nil_iff_forall_not_mem, hv.mem_in]
  exact forall_congr' fun e => ⟨fun h he hs ht => h ⟨he, hs, ht⟩, fun h hm => h hm.1 hm.2.1 hm.2.2⟩

theorem Rep.outDegree_local (h : Rep ctx E) {s v : Int} (hs : (ctx.vert? s v).isSome) :
    gddVertGetOutDegree ctx s v = 0 ↔ ∀ e ∈ E, e.segid = s → e.vfrom ≠ v := by
  obtain ⟨x, hx⟩ := Option.isSome_iff_exists.mp hs
  have hv := h.vert s v x hx
  simp only [gddVertGetOutDegree, hx, Option.map_some, Option.getD_some, List.length_eq_zero_iff,
    List.eq_nil_iff_forall_not_mem, hv.mem_out]
  exact forall_congr' fun e => ⟨fun h he hs ht => h ⟨he, hs, ht⟩, fun h hm => h hm.1 hm.2.1 hm.2.2⟩

/-- None of the rules applies at this vertex. -/
def Quiet (E : Finset GddEdge) (s v : Int) : Prop :=
  (∀ e ∈ E, e.segid = s → e.vto = v → (∃ f ∈ E, f.vfrom = v) ∧
    (e.solid = true ∨ ∃ f ∈ E, f.vfrom = v ∧ f.segid = s)) ∧
  ∀ e ∈ E, e.segid = s → e.vfrom = v → ∃ f ∈ E, f.vto = v

/-- The edges the rules unlink at this vertex. -/
def Doomed (E : Finset GddEdge) (s v : Int) (e : GddEdge) : Prop :=
  e.segid = s ∧
    if inDegree E v = 0 ∨ outDegree E v = 0 then e.vto = v ∨ e.vfrom = v
    else (∀ f ∈ E, f.segid = s → f.vfrom ≠ v) ∧ e.vto = v ∧ e.solid = false

theorem not_keeps_of_doomed {s v : Int} {e : GddEdge} (he : e ∈ E) (h : Doomed E s v e) :
    ¬ keeps E e := by
  rintro ⟨⟨f, hf, hf'⟩, ⟨g, hg, hg'⟩, h₃⟩
  obtain ⟨hs, h⟩ := h
  split_ifs at h with hc
  · rw [inDegree_eq_zero_iff, outDegree_eq_zero_iff] at hc
    rcases hc with hc | hc <;> rcases h with h | h
    · exact hc e he h
    · exact hc g hg (hg'.trans h)
    · exact hc f hf (hf'.trans h)
    · exact hc e he h
  · obtain ⟨hloc, hto, hsol⟩ := h
    rcases h₃ with h₃ | ⟨k, hk, hk', hks⟩
    · exact absurd (h₃.symm.trans hsol) (by decide)
    · exact hloc k hk (hks.trans hs) (hk'.trans hto)

theorem quiet_of_not_doomed {s v : Int} (h : ∀ e ∈ E, ¬ Doomed E s v e) : Quiet E s v := by
  have hend : ∀ e ∈ E, e.segid = s → (e.vto = v ∨ e.vfrom = v) →
      (∃ f ∈ E, f.vto = v) ∧ ∃ f ∈ E, f.vfrom = v := by
    intro e he hs hev
    by_contra hc
    refine h e he ⟨hs, ?_⟩
    rw [if_pos]
    · exact hev
    · rw [inDegree_eq_zero_iff, outDegree_eq_zero_iff]
      by_contra hc'
      push Not at hc'
      exact hc hc'
  refine ⟨fun e he hs hto => ⟨(hend e he hs (Or.inl hto)).2, ?_⟩,
    fun e he hs hfrom => (hend e he hs (Or.inr hfrom)).1⟩
  by_contra hc
  push Not at hc
  obtain ⟨hsol, hloc⟩ := hc
  refine h e he ⟨hs, ?_⟩
  obtain ⟨⟨f, hf, hf'⟩, g, hg, hg'⟩ := hend e he hs (Or.inl hto)
  rw [if_neg]
  · exact ⟨fun k hk hks hkv => hloc k hk hkv hks, hto, by simpa using hsol⟩
  · rw [inDegree_eq_zero_iff, outDegree_eq_zero_iff]
    rintro (hc | hc)
    · exact hc f hf hf'
    · exact hc g hg hg'

instance (E : Finset GddEdge) (s v : Int) : DecidablePred (Doomed E s v) := fun e => by
  unfold Doomed; infer_instance

/-- **Reducing a vertex unlinks the edges the rules select.** -/
theorem Rep.vertReduce (h : Rep ctx E) {s v : Int} (hs : (ctx.vert? s v).isSome) :
    Unlinks ctx E (Doomed E s v) (gddVertReduce ctx s v) := by
  obtain ⟨st, hst⟩ := Option.isSome_iff_exists.mp (h.bound s v hs)
  obtain ⟨hin, hout⟩ := h.stat v st hst
  have hdeg : (st.indeg = 0 ∨ st.outdeg = 0) ↔ inDegree E v = 0 ∨ outDegree E v = 0 := by
    rw [hin, hout]; norm_cast
  simp only [gddVertReduce, h.bind_global hs, Option.bind_some, hst, hdeg]
  split_ifs with hc hl
  · refine (h.unlinkAll hs).congr fun e _ => ?_
    simp [Doomed, hc]
  · obtain ⟨x, hx⟩ := Option.isSome_iff_exists.mp hs
    have hloc := (h.outDegree_local hs).mp hl
    refine (h.unlinkInEdges _ hx (by simp [gddVertGetInDegree, hx])).congr fun e he => ?_
    simp only [Doomed, if_neg hc, List.drop_zero, (h.vert s v x hx).mem_in, Bool.not_eq_true']
    exact ⟨fun hm => ⟨hm.1.2.1, hloc, hm.1.2.2, hm.2⟩, fun hm => ⟨⟨he, hm.1, hm.2.2.1⟩, hm.2.2.2⟩⟩
  · refine (Unlinks.nothing h).congr fun e _ => ?_
    simp only [Doomed, if_neg hc, false_iff]
    rintro ⟨-, hloc, -⟩
    exact hl ((h.outDegree_local hs).mpr hloc)

/-- A vertex without edges can be deleted from its graph. -/
theorem Rep.deleteVert (h : Rep ctx E) {s : Int} {A B : List (Int × GddVert)} {p : Int × GddVert}
    (hp : (ctx.verts s).pairs = A ++ p :: B)
    (hfree : ∀ e ∈ E, e.segid = s → e.vto ≠ p.1 ∧ e.vfrom ≠ p.1) :
    Rep (ctx.modifyVerts s fun verts => gddMapIterDelete verts A.length) E := by
  have hverts : ∀ t, (ctx.modifyVerts s fun verts => gddMapIterDelete verts A.length).verts t =
      if t = s then gddMapIterDelete (ctx.verts s) A.length else ctx.verts t :=
    verts_modifyVerts (Or.inr rfl)
  have hvert : ∀ t w, (ctx.modifyVerts s fun verts => gddMapIterDelete verts A.length).vert? t w =
      if t = s ∧ w = p.1 then none else ctx.vert? t w := fun t w => by
    rw [GddCtx.vert?, hverts]
    by_cases ht : t = s
    · subst ht
      rw [if_pos rfl, gddMapGet_iterDelete hp (h.nodup_verts t)]
      simp [GddCtx.vert?]
    · simp [ht, GddCtx.vert?]
  have hend : ∀ e ∈ E, ∀ w, (w = e.vfrom ∨ w = e.vto) → ¬ (e.segid = s ∧ w = p.1) := by
    rintro e he w (rfl | rfl) ⟨hs, hw⟩
    · exact (hfree e he hs).2 hw
    · exact (hfree e he hs).1 hw
  refine ⟨by simpa using h.nodup_graphs, fun t => ?_, fun t w x hx => ?_, fun e he => ?_,
    fun e he => ?_, h.stat, fun t w hs => ?_, h.top_in, h.top_out, h.ptr_inj, h.ptr_lt⟩
  · rw [hverts]
    split_ifs
    · exact nodup_iterDelete hp (h.nodup_verts s)
    · exact h.nodup_verts t
  · rw [hvert] at hx
    split_ifs at hx
    exact h.vert t w x hx
  · rw [hvert, if_neg (hend e he _ (Or.inl rfl))]
    exact h.vfrom e he
  · rw [hvert, if_neg (hend e he _ (Or.inr rfl))]
    exact h.vto e he
  · rw [hvert] at hs
    split_ifs at hs
    · cases hs
    · exact h.bound t w hs

theorem length_keys {α : Type} (map : GddMap α) : map.keys.length = map.pairs.length :=
  List.length_map _

/-- Deleting the vertex at `pos` leaves those after it, in some order. -/
theorem drop_keys_delete {s : Int} {A B : List (Int × GddVert)} {p : Int × GddVert}
    (hp : (ctx.verts s).pairs = A ++ p :: B) :
    (((ctx.modifyVerts s fun verts => gddMapIterDelete verts A.length).verts s).keys.drop
      A.length).Perm ((ctx.verts s).keys.drop (A.length + 1)) := by
  obtain ⟨B', hB, hd⟩ := iterDelete_pairs hp
  rw [verts_modifyVerts (Or.inr rfl), if_pos rfl, GddMap.keys, hd, GddMap.keys, hp]
  rw [List.map_append, List.drop_left' (by simp), List.map_append, List.map_cons,
    List.append_cons, List.drop_left' (by simp)]
  exact hB.map Prod.fst

/-- The same for the vertex at a position of the array. -/
theorem Rep.deleteVertAt (h : Rep ctx E) {s v : Int} {pos : Nat}
    (hpos : (ctx.verts s).keys[pos]? = some v)
    (hfree : ∀ e ∈ E, e.segid = s → e.vto ≠ v ∧ e.vfrom ≠ v) :
    Rep (ctx.modifyVerts s fun verts => gddMapIterDelete verts pos) E ∧
      (((ctx.modifyVerts s fun verts => gddMapIterDelete verts pos).verts s).keys.drop pos).Perm
        ((ctx.verts s).keys.drop (pos + 1)) := by
  rw [GddMap.keys, List.getElem?_map, Option.map_eq_some_iff] at hpos
  obtain ⟨p, hp, rfl⟩ := hpos
  obtain ⟨hlt, hget⟩ := List.getElem?_eq_some_iff.mp hp
  have hsplit : (ctx.verts s).pairs =
      (ctx.verts s).pairs.take pos ++ p :: (ctx.verts s).pairs.drop (pos + 1) := by
    rw [← hget, ← List.drop_eq_getElem_cons hlt, List.take_append_drop]
  have hA : ((ctx.verts s).pairs.take pos).length = pos := by simp [hlt.le]
  have hperm := drop_keys_delete hsplit
  have hdel := h.deleteVert hsplit hfree
  rw [hA] at hperm hdel
  exact ⟨hdel, hperm⟩

end Vertex

/-! ## Rounds -/

section Round

variable {ctx : GddCtx} {E : Finset GddEdge}

/-- What part of a round does: deletions by the rules, with the dirty flag set exactly when
there was one, and the graphs as they were outside the segments `S`. -/
structure Prunes (S : List Int) (ctx : GddCtx) (E : Finset GddEdge) (r : GddCtx × Bool)
    (E' : Finset GddEdge) : Prop where
  rep : Rep r.1 E'
  deletes : Deletes keeps E E'
  dirty : r.2 = true ↔ E' ≠ E
  graphs : r.1.graphs.keys = ctx.graphs.keys
  verts : ∀ t, t ∉ S → (r.1.verts t).keys = (ctx.verts t).keys

theorem Prunes.trans {S S' : List Int} {r₁ r₂ : GddCtx × Bool} {E₁ E₂ : Finset GddEdge}
    (h₁ : Prunes S ctx E r₁ E₁) (h₂ : Prunes S' r₁.1 E₁ r₂ E₂) :
    Prunes (S ++ S') ctx E (r₂.1, r₁.2 || r₂.2) E₂ where
  rep := h₂.rep
  deletes := h₁.deletes.trans h₂.deletes
  dirty := by
    rw [Bool.or_eq_true, h₁.dirty, h₂.dirty]
    constructor
    · rintro (hne | hne) rfl
      · exact hne (h₁.deletes.subset.antisymm h₂.deletes.subset)
      · exact hne (h₂.deletes.subset.antisymm h₁.deletes.subset)
    · intro hne
      by_contra hc
      push Not at hc
      exact hne (hc.2.trans hc.1)
  graphs := h₂.graphs.trans h₁.graphs
  verts t ht := by
    rw [List.mem_append, not_or] at ht
    rw [h₂.verts t ht.2, h₁.verts t ht.1]

theorem Prunes.mono {S S' : List Int} {r : GddCtx × Bool} {E' : Finset GddEdge}
    (h : Prunes S ctx E r E') (hS : S ⊆ S') : Prunes S' ctx E r E' :=
  { h with verts := fun t ht => h.verts t fun hm => ht (hS hm) }

theorem Prunes.refl (h : Rep ctx E) (S : List Int) : Prunes S ctx E (ctx, false) E :=
  ⟨h, .refl, by simp, rfl, fun _ _ => rfl⟩

theorem Unlinks.prunes {D : GddEdge → Prop} [DecidablePred D] {r : GddCtx × Bool}
    (h : Unlinks ctx E D r) (hD : ∀ e ∈ E, D e → ¬ keeps E e) (S : List Int) :
    Prunes S ctx E r (E.filter fun e => ¬ D e) where
  rep := h.rep
  deletes := Deletes.filter keeps_monotone fun e he hd => hD e he (not_not.mp hd)
  dirty := by
    rw [h.dirty, Ne, Finset.filter_eq_self]
    push Not
    rfl
  graphs := h.shape.1
  verts t _ := h.shape.2 t

/-- **The loop over the vertices of a graph.** When it changes nothing, no rule applies at any
vertex from its position on. -/
theorem Rep.reduceVerts (h : Rep ctx E) (s : Int) (n pos : Nat)
    (hn : (ctx.verts s).pairs.length ≤ pos + n) :
    ∃ E', Prunes [s] ctx E (reduceVerts s n pos ctx) E' ∧
      (E' = E → ∀ v ∈ (ctx.verts s).keys.drop pos, Quiet E s v) := by
  induction n generalizing ctx E pos with
  | zero =>
    refine ⟨E, .refl h [s], fun _ v hv => ?_⟩
    rw [List.drop_eq_nil_of_le (by rw [length_keys]; omega)] at hv
    cases hv
  | succ n ih =>
    rw [Gdd.reduceVerts]
    cases hget : (ctx.verts s).pairs[pos]? with
    | none =>
      refine ⟨E, .refl h [s], fun _ v hv => ?_⟩
      rw [List.drop_eq_nil_of_le (by rw [length_keys]; exact List.getElem?_eq_none_iff.mp hget)]
        at hv
      cases hv
    | some p =>
      obtain ⟨v, y⟩ := p
      obtain ⟨hlt, hpos⟩ := List.getElem?_eq_some_iff.mp hget
      have hs : (ctx.vert? s v).isSome :=
        gddMapGet_isSome.mpr (mem_keys (hpos ▸ List.getElem_mem hlt))
      have hU := h.vertReduce hs
      have h₁ := hU.prunes (fun e he => not_keeps_of_doomed he) [s]
      have hkeys : (ctx.verts s).keys.drop pos = v :: (ctx.verts s).keys.drop (pos + 1) := by
        rw [List.drop_eq_getElem_cons (by rw [length_keys]; exact hlt)]
        simp [GddMap.keys, hpos]
      have hquiet : (E.filter fun e => ¬ Doomed E s v e) = E → Quiet E s v := fun heq =>
        quiet_of_not_doomed fun e he => (Finset.filter_eq_self.mp heq) e he
      set c := (gddVertReduce ctx s v).1
      have hc : (c.verts s).pairs.length = (ctx.verts s).pairs.length := by
        rw [← length_keys, hU.shape.2, length_keys]
      -- What is left of the loop starts from `c'` at `pos'` and still has to visit `rest`.
      have key : ∀ (c' : GddCtx) (pos' : Nat), Rep c' (E.filter fun e => ¬ Doomed E s v e) →
          (c'.verts s).pairs.length ≤ pos' + n → c'.graphs.keys = c.graphs.keys →
          (∀ t, t ∉ [s] → (c'.verts t).keys = (c.verts t).keys) →
          ((c'.verts s).keys.drop pos').Perm ((c.verts s).keys.drop (pos + 1)) →
          ∃ E', Prunes [s] ctx E ((Gdd.reduceVerts s n pos' c').1,
              (gddVertReduce ctx s v).2 || (Gdd.reduceVerts s n pos' c').2) E' ∧
            (E' = E → ∀ w ∈ (ctx.verts s).keys.drop pos, Quiet E s w) := by
        intro c' pos' hrep hlen hg ht hperm
        obtain ⟨E', h₂, hq⟩ := ih hrep pos' hlen
        have h₂' : Prunes [s] c (E.filter fun e => ¬ Doomed E s v e)
            (Gdd.reduceVerts s n pos' c') E' :=
          { h₂ with
            graphs := h₂.graphs.trans hg
            verts := fun t hts => (h₂.verts t hts).trans (ht t hts) }
        refine ⟨E', (h₁.trans h₂').mono (by simp), fun heq w hw => ?_⟩
        subst heq
        have hE₁ : (E'.filter fun e => ¬ Doomed E' s v e) = E' :=
          h₁.deletes.subset.antisymm h₂.deletes.subset
        rw [hE₁] at hq
        rw [hkeys, List.mem_cons] at hw
        rcases hw with rfl | hw
        · exact hquiet hE₁
        · refine hq rfl w (hperm.mem_iff.mpr ?_)
          rwa [hU.shape.2 s]
      simp only
      split_ifs with hdeg
      · -- The vertex has no edges left: it goes, and the last one takes its position.
        have hcs : (c.vert? s v).isSome := (hU.shape.vert?_isSome s v).mpr hs
        have hv : (c.verts s).keys[pos]? = some v := by
          rw [hU.shape.2 s, GddMap.keys, List.getElem?_map, hget]
          rfl
        have hrep : Rep c (E.filter fun e => ¬ Doomed E s v e) := hU.rep
        obtain ⟨hdel, hperm⟩ := hrep.deleteVertAt hv fun e he hes =>
          ⟨(hU.rep.inDegree_local hcs).mp hdeg.1 e he hes,
            (hU.rep.outDegree_local hcs).mp hdeg.2 e he hes⟩
        refine key (c.modifyVerts s fun verts => gddMapIterDelete verts pos) pos hdel ?_
          (keys_modifyVerts _) (fun t ht => ?_) hperm
        · have := hperm.length_eq
          rw [List.length_drop, List.length_drop, length_keys, length_keys] at this
          omega
        · rw [verts_modifyVerts (Or.inr rfl), if_neg (by simpa using ht)]
      · exact key c (pos + 1) hU.rep (by rw [hc]; omega) rfl (fun _ _ => rfl) (.refl _)

/-- **A round over several graphs.** -/
theorem Rep.reduceGraphs (h : Rep ctx E) {segids : List Int} (hn : segids.Nodup) :
    ∃ E', Prunes segids ctx E (reduceGraphs segids ctx) E' ∧
      (E' = E → ∀ s ∈ segids, ∀ v ∈ (ctx.verts s).keys, Quiet E s v) := by
  induction segids generalizing ctx E with
  | nil => exact ⟨E, .refl h [], fun _ s hs => by cases hs⟩
  | cons s l ih =>
    obtain ⟨hsl, hl⟩ := List.nodup_cons.mp hn
    obtain ⟨E₁, h₁, hq₁⟩ := h.reduceVerts s (ctx.verts s).pairs.length 0 (by omega)
    obtain ⟨E₂, h₂, hq₂⟩ := ih h₁.rep hl
    refine ⟨E₂, h₁.trans h₂, fun heq t ht v hv => ?_⟩
    subst heq
    have hE₁ : E₁ = E₂ := h₁.deletes.subset.antisymm h₂.deletes.subset
    rcases List.mem_cons.mp ht with rfl | htl
    · exact hq₁ hE₁ v hv
    · have hts : t ∉ [s] := by
        rw [List.mem_singleton]
        rintro rfl
        exact hsl htl
      rw [hE₁] at hq₂
      exact hq₂ rfl t htl v (by rwa [h₁.verts t hts])

/-- A round that changes nothing has found every edge to be kept. -/
theorem Rep.stable_of_quiet (h : Rep ctx E)
    (hq : ∀ s ∈ ctx.graphs.keys, ∀ v ∈ (ctx.verts s).keys, Quiet E s v) : StableIn keeps E := by
  have hquiet : ∀ s v, (ctx.vert? s v).isSome → Quiet E s v := fun s v hs => by
    have hv : v ∈ (ctx.verts s).keys := gddMapGet_isSome.mp hs
    refine hq s ?_ v hv
    by_contra hc
    rw [verts_of_not_mem hc] at hv
    cases hv
  intro e he
  obtain ⟨h₁, h₂⟩ := (hquiet _ _ (h.vto e he)).1 e he rfl rfl
  exact ⟨h₁, (hquiet _ _ (h.vfrom e he)).2 e he rfl rfl, h₂⟩

/-- **Reduction terminates with the greatest stable set of edges.** -/
theorem Rep.reduce (h : Rep ctx E) (fuel : Nat) (hf : E.card < fuel) :
    ∃ ctx', gddCtxReduce fuel ctx = some ctx' ∧ Rep ctx' (greatestStable keeps E) := by
  induction fuel generalizing ctx E with
  | zero => omega
  | succ fuel ih =>
    obtain ⟨E', hp, hq⟩ := h.reduceGraphs h.nodup_graphs
    rw [gddCtxReduce]
    by_cases hd : (Gdd.reduceGraphs ctx.graphs.keys ctx).2 = true
    · -- A dirty round has deleted an edge.
      have hlt : E'.card < E.card :=
        Finset.card_lt_card (hp.deletes.subset.ssubset_of_ne (hp.dirty.mp hd))
      obtain ⟨ctx', hc, hr⟩ := ih hp.rep (by omega)
      refine ⟨ctx', by simpa [hd] using hc, ?_⟩
      rwa [hp.deletes.greatestStable_eq keeps_monotone] at hr
    · have heq : E' = E := not_not.mp fun hne => hd (hp.dirty.mpr hne)
      subst heq
      refine ⟨_, if_neg hd, ?_⟩
      rw [greatestStable_of_stable keeps_monotone (h.stable_of_quiet (hq rfl))]
      exact hp.rep

end Round

end Hdb.Gdd

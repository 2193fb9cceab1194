import Hdb.Gdd.Detector
import Mathlib.Data.Finset.Card
import Mathlib.Data.Finset.Filter
import Mathlib.Data.List.Nodup
import Mathlib.Data.List.Perm.Basic
import Mathlib.Tactic

/-!
# What a context represents

`Rep ctx E` says that the context holds exactly the edges `E`: every edge list of every vertex
lists the edges of `E` it should, without repetition, and every degree record counts them.
Linking an edge inserts it into the set and unlinking erases it, whatever iterator is given;
deleting a vertex without edges leaves the set as it is. With these three facts the loops of
the detector are reasoned about as deletions from a finite set.
-/

namespace Hdb.Gdd

/-! ## Maps -/

section Map

variable {α : Type} {map : GddMap α}

theorem mem_keys {key : Int} {a : α} (h : (key, a) ∈ map.pairs) : key ∈ map.keys :=
  List.mem_map.mpr ⟨_, h, rfl⟩

theorem mem_pairs_of_get {key : Int} {a : α} (h : gddMapGet map key = some a) :
    (key, a) ∈ map.pairs := by
  simp only [gddMapGet, gddMapGetPair, Option.map_eq_some_iff] at h
  obtain ⟨⟨k, b⟩, hf, rfl⟩ := h
  have hk : k = key := by simpa using List.find?_some hf
  exact hk ▸ List.mem_of_find?_eq_some hf

/-- With distinct keys, looking up a key finds the one pair that has it. -/
theorem gddMapGet_eq_some (h : map.keys.Nodup) {key : Int} {a : α} :
    gddMapGet map key = some a ↔ (key, a) ∈ map.pairs := by
  refine ⟨mem_pairs_of_get, fun hm => ?_⟩
  cases hg : gddMapGet map key with
  | none =>
    simp only [gddMapGet, gddMapGetPair, Option.map_eq_none_iff, List.find?_eq_none] at hg
    simpa using hg _ hm
  | some b =>
    have := List.inj_on_of_nodup_map h (mem_pairs_of_get hg) hm rfl
    rw [(Prod.mk.inj this).2]

theorem gddMapGet_isSome {key : Int} : (gddMapGet map key).isSome ↔ key ∈ map.keys := by
  simp [gddMapGet, gddMapGetPair, GddMap.keys]

theorem gddMapGet_eq_none {key : Int} : gddMapGet map key = none ↔ key ∉ map.keys := by
  rw [← gddMapGet_isSome, Option.not_isSome_iff_eq_none]

@[simp] theorem gddMapGet_init {key : Int} : gddMapGet (gddMapInit : GddMap α) key = none := rfl

@[simp] theorem keys_modify (key : Int) (f : α → α) : (map.modify key f).keys = map.keys := by
  simp only [GddMap.keys, GddMap.modify, List.map_map]
  refine List.map_congr_left fun p _ => ?_
  simp only [Function.comp_apply]
  split <;> rfl

theorem gddMapGet_modify (key k : Int) (f : α → α) :
    gddMapGet (map.modify key f) k =
      if k = key then (gddMapGet map k).map f else gddMapGet map k := by
  obtain ⟨l⟩ := map
  simp only [gddMapGet, gddMapGetPair, GddMap.modify]
  induction l with
  | nil => simp
  | cons p l ih =>
    simp only [List.map_cons, List.find?_cons]
    by_cases hk : p.1 = k
    · by_cases hp : p.1 = key
      · simp [hp, ← hk]
      · have : k ≠ key := hk ▸ hp
        simp [hk, this]
    · have : ((if p.1 = key then (p.1, f p.2) else p).1 == k) = false := by
        split <;> simpa using hk
      have hk' : (p.1 == k) = false := by simpa using hk
      rw [this, hk', ih]

@[simp] theorem keys_setUnsafe (key : Int) (a : α) :
    (gddMapSetUnsafe map key a).keys = map.keys ++ [key] := by
  simp [GddMap.keys, gddMapSetUnsafe]

theorem gddMapGet_setUnsafe (key k : Int) (a : α) (h : gddMapGet map key = none) :
    gddMapGet (gddMapSetUnsafe map key a) k =
      if k = key then some a else gddMapGet map k := by
  simp only [gddMapGet, gddMapGetPair, gddMapSetUnsafe, List.find?_append] at h ⊢
  by_cases hk : k = key
  · subst hk
    rw [Option.map_eq_none_iff] at h
    simp [h]
  · have : (key == k) = false := by simpa using Ne.symm hk
    simp [this, hk]

/-- Deleting at a position keeps what stands before it, and the rest in some order. -/
theorem iterDelete_pairs {A B : List (Int × α)} {p : Int × α} (h : map.pairs = A ++ p :: B) :
    ∃ B', B'.Perm B ∧ (gddMapIterDelete map A.length).pairs = A ++ B' := by
  rcases List.eq_nil_or_concat B with rfl | ⟨B', q, rfl⟩
  · exact ⟨[], .refl _, by simp [gddMapIterDelete, h]⟩
  · refine ⟨q :: B', ?_, ?_⟩
    · rw [List.concat_eq_append]
      exact (List.perm_append_singleton q B').symm
    · have hassoc : ∀ r, A ++ r :: (B' ++ [q]) = (A ++ r :: B') ++ [q] := by simp
      have hpairs : map.pairs = (A ++ p :: B') ++ [q] := by rw [h, List.concat_eq_append, hassoc]
      have hlast : map.pairs.getLast? = some q := by rw [hpairs, List.getLast?_concat]
      simp only [gddMapIterDelete, hlast]
      rw [hpairs, ← hassoc, List.set_append_right _ _ le_rfl, Nat.sub_self, List.set_cons_zero,
        hassoc, List.dropLast_concat]

theorem iterDelete_perm {A B : List (Int × α)} {p : Int × α} (h : map.pairs = A ++ p :: B) :
    (p :: (gddMapIterDelete map A.length).pairs).Perm map.pairs := by
  obtain ⟨B', hB, hd⟩ := iterDelete_pairs h
  rw [hd, h]
  exact (List.Perm.cons p (hB.append_left A)).trans List.perm_middle.symm

theorem nodup_iterDelete {A B : List (Int × α)} {p : Int × α} (h : map.pairs = A ++ p :: B)
    (hn : map.keys.Nodup) : (gddMapIterDelete map A.length).keys.Nodup := by
  have := ((iterDelete_perm h).map Prod.fst).nodup_iff.mpr hn
  exact (List.nodup_cons.mp this).2

theorem gddMapGet_iterDelete {A B : List (Int × α)} {p : Int × α} (h : map.pairs = A ++ p :: B)
    (hn : map.keys.Nodup) (k : Int) :
    gddMapGet (gddMapIterDelete map A.length) k = if k = p.1 then none else gddMapGet map k := by
  have hperm := iterDelete_perm h
  have hn' := (hperm.map Prod.fst).nodup_iff.mpr hn
  have hmem : ∀ q, q ∈ map.pairs ↔ q = p ∨ q ∈ (gddMapIterDelete map A.length).pairs := fun q => by
    rw [← hperm.mem_iff, List.mem_cons]
  split_ifs with hk
  · rw [gddMapGet_eq_none, hk]
    exact (List.nodup_cons.mp hn').1
  · refine Option.ext fun a => ?_
    rw [gddMapGet_eq_some (nodup_iterDelete h hn), gddMapGet_eq_some hn, hmem]
    refine ⟨Or.inr, fun hq => hq.resolve_left ?_⟩
    rintro rfl
    exact hk rfl

end Map

/-! ## Reading a context after a write -/

section Read

variable {ctx : GddCtx} {s v : Int}

theorem verts_of_not_mem (h : s ∉ ctx.graphs.keys) : ctx.verts s = gddMapInit := by
  simp [GddCtx.verts, gddMapGet_eq_none.mpr h]

@[simp] theorem keys_modifyVerts (f : GddMap GddVert → GddMap GddVert) :
    (ctx.modifyVerts s f).graphs.keys = ctx.graphs.keys := keys_modify _ _

theorem verts_modifyVerts {f : GddMap GddVert → GddMap GddVert}
    (hs : s ∈ ctx.graphs.keys ∨ f gddMapInit = gddMapInit) (t : Int) :
    (ctx.modifyVerts s f).verts t = if t = s then f (ctx.verts s) else ctx.verts t := by
  simp only [GddCtx.verts, GddCtx.modifyVerts, gddMapGet_modify]
  by_cases hts : t = s
  · subst hts
    rcases hs with hs | hs
    · obtain ⟨g, hg⟩ := Option.isSome_iff_exists.mp (gddMapGet_isSome.mpr hs)
      simp [hg]
    · cases hg : gddMapGet ctx.graphs t <;> simp [hs]
  · simp [hts]

theorem verts_modifyVert (f : GddVert → GddVert) (t : Int) :
    (ctx.modifyVert s v f).verts t = if t = s then (ctx.verts s).modify v f else ctx.verts t :=
  verts_modifyVerts (Or.inr rfl) t

@[simp] theorem keys_verts_modifyVert (f : GddVert → GddVert) (t : Int) :
    ((ctx.modifyVert s v f).verts t).keys = (ctx.verts t).keys := by
  rw [verts_modifyVert]
  split_ifs with h
  · rw [keys_modify, h]
  · rfl

@[simp] theorem keys_modifyVert (f : GddVert → GddVert) :
    (ctx.modifyVert s v f).graphs.keys = ctx.graphs.keys := keys_modify _ _

theorem vert?_modifyVert (f : GddVert → GddVert) (t w : Int) :
    (ctx.modifyVert s v f).vert? t w =
      if t = s ∧ w = v then (ctx.vert? t w).map f else ctx.vert? t w := by
  rw [GddCtx.vert?, verts_modifyVert]
  by_cases hts : t = s
  · subst hts
    rw [if_pos rfl, gddMapGet_modify]
    by_cases hw : w = v <;> simp [hw, GddCtx.vert?]
  · simp [hts, GddCtx.vert?]

@[simp] theorem globals_modifyVerts (f : GddMap GddVert → GddMap GddVert) :
    (ctx.modifyVerts s f).globals = ctx.globals := rfl

@[simp] theorem topstat_modifyVerts (f : GddMap GddVert → GddMap GddVert) :
    (ctx.modifyVerts s f).topstat = ctx.topstat := rfl

@[simp] theorem brk_modifyVerts (f : GddMap GddVert → GddMap GddVert) :
    (ctx.modifyVerts s f).brk = ctx.brk := rfl

@[simp] theorem globals_modifyVert (f : GddVert → GddVert) :
    (ctx.modifyVert s v f).globals = ctx.globals := rfl

@[simp] theorem topstat_modifyVert (f : GddVert → GddVert) :
    (ctx.modifyVert s v f).topstat = ctx.topstat := rfl

@[simp] theorem brk_modifyVert (f : GddVert → GddVert) :
    (ctx.modifyVert s v f).brk = ctx.brk := rfl

theorem modifyGlobal_eq {k : Int} (h : (ctx.vert? s v).bind GddVert.global = some k)
    (f : GddStat → GddStat) :
    ctx.modifyGlobal s v f = { ctx with globals := ctx.globals.modify k f } := by
  simp [GddCtx.modifyGlobal, h]

end Read

/-! ## Representation -/

/-- The number of edges of `E` into a vertex, over all segments. -/
def inDegree (E : Finset GddEdge) (v : Int) : Nat := (E.filter fun e => e.vto = v).card

/-- The number of edges of `E` out of a vertex, over all segments. -/
def outDegree (E : Finset GddEdge) (v : Int) : Nat := (E.filter fun e => e.vfrom = v).card

/-- A vertex lists its own edges of `E`, each once, and is bound to its own degree record. -/
structure VertRep (E : Finset GddEdge) (s v : Int) (x : GddVert) : Prop where
  id : x.id = v
  global : x.global = some v
  nodup_in : x.edgesIn.Nodup
  nodup_out : x.edgesOut.Nodup
  mem_in : ∀ e, e ∈ x.edgesIn ↔ e ∈ E ∧ e.segid = s ∧ e.vto = v
  mem_out : ∀ e, e ∈ x.edgesOut ↔ e ∈ E ∧ e.segid = s ∧ e.vfrom = v

/-- The context holds exactly the edges `E`. -/
structure Rep (ctx : GddCtx) (E : Finset GddEdge) : Prop where
  nodup_graphs : ctx.graphs.keys.Nodup
  nodup_verts : ∀ s, (ctx.verts s).keys.Nodup
  vert : ∀ s v x, ctx.vert? s v = some x → VertRep E s v x
  vfrom : ∀ e ∈ E, (ctx.vert? e.segid e.vfrom).isSome
  vto : ∀ e ∈ E, (ctx.vert? e.segid e.vto).isSome
  stat : ∀ v st, gddMapGet ctx.globals v = some st →
    st.indeg = inDegree E v ∧ st.outdeg = outDegree E v
  bound : ∀ s v, (ctx.vert? s v).isSome → (gddMapGet ctx.globals v).isSome
  top_in : ctx.topstat.indeg = E.card
  top_out : ctx.topstat.outdeg = E.card
  ptr_inj : ∀ e ∈ E, ∀ f ∈ E, e.ptr = f.ptr → e = f
  ptr_lt : ∀ e ∈ E, e.ptr < ctx.brk

theorem rep_new : Rep gddCtxNew ∅ where
  nodup_graphs := List.nodup_nil
  nodup_verts _ := List.nodup_nil
  vert _ _ _ h := by cases h
  vfrom _ h := by simp at h
  vto _ h := by simp at h
  stat _ _ h := by cases h
  bound _ _ h := by cases h
  top_in := rfl
  top_out := rfl
  ptr_inj _ h := by simp at h
  ptr_lt _ h := by simp at h

theorem inDegree_erase {E : Finset GddEdge} {e : GddEdge} (he : e ∈ E) (v : Int) :
    (inDegree (E.erase e) v : Int) = inDegree E v - if v = e.vto then 1 else 0 := by
  simp only [inDegree, Finset.filter_erase]
  split_ifs with h
  · have hm : e ∈ E.filter fun f => f.vto = v := Finset.mem_filter.mpr ⟨he, h.symm⟩
    have := Finset.card_pos.mpr ⟨e, hm⟩
    rw [Finset.card_erase_of_mem hm]
    omega
  · rw [Finset.erase_eq_of_notMem (by simp [Ne.symm h]), sub_zero]

theorem outDegree_erase {E : Finset GddEdge} {e : GddEdge} (he : e ∈ E) (v : Int) :
    (outDegree (E.erase e) v : Int) = outDegree E v - if v = e.vfrom then 1 else 0 := by
  simp only [outDegree, Finset.filter_erase]
  split_ifs with h
  · have hm : e ∈ E.filter fun f => f.vfrom = v := Finset.mem_filter.mpr ⟨he, h.symm⟩
    have := Finset.card_pos.mpr ⟨e, hm⟩
    rw [Finset.card_erase_of_mem hm]
    omega
  · rw [Finset.erase_eq_of_notMem (by simp [Ne.symm h]), sub_zero]

theorem inDegree_insert {E : Finset GddEdge} {e : GddEdge} (he : e ∉ E) (v : Int) :
    inDegree (insert e E) v = inDegree E v + if v = e.vto then 1 else 0 := by
  simp only [inDegree, Finset.filter_insert]
  by_cases h : v = e.vto
  · rw [if_pos h.symm, if_pos h, Finset.card_insert_of_notMem (by simp [he])]
  · rw [if_neg (Ne.symm h), if_neg h, add_zero]

theorem outDegree_insert {E : Finset GddEdge} {e : GddEdge} (he : e ∉ E) (v : Int) :
    outDegree (insert e E) v = outDegree E v + if v = e.vfrom then 1 else 0 := by
  simp only [outDegree, Finset.filter_insert]
  by_cases h : v = e.vfrom
  · rw [if_pos h.symm, if_pos h, Finset.card_insert_of_notMem (by simp [he])]
  · rw [if_neg (Ne.symm h), if_neg h, add_zero]

/-! ## Unlinking -/

/-- The iterator, if there is one, stands at the edge. -/
def IterAt (iter : Option Nat) (e : GddEdge) (list : List GddEdge) : Prop :=
  ∀ pos ∈ iter, list[pos]? = some e

/-- Deleting at an iterator or with a scan removes just this edge. -/
theorem listDelete_eq_erase {iter : Option Nat} {e : GddEdge} {list : List GddEdge}
    (hn : list.Nodup) (hptr : ∀ f ∈ list, f.ptr = e.ptr → f = e) (hit : IterAt iter e list) :
    listDelete iter e list = list.erase e := by
  cases iter with
  | some pos =>
    obtain ⟨hlt, hget⟩ := List.getElem?_eq_some_iff.mp (hit pos rfl)
    rw [listDelete, ← hget]
    exact (hn.erase_getElem pos hlt).symm
  | none =>
    simp only [listDelete, listDeletePtr]
    clear hit hn
    induction list with
    | nil => rfl
    | cons f l ih =>
      by_cases h : f = e
      · simp [h]
      · have hp : f.ptr ≠ e.ptr := fun hp => h (hptr f List.mem_cons_self hp)
        rw [List.eraseP_cons_of_neg (by simpa using hp), List.erase_cons_tail (by simpa using h),
          ih fun g hg => hptr g (List.mem_cons_of_mem f hg)]

section Unlink

variable {ctx : GddCtx} {E : Finset GddEdge}

theorem Rep.bind_global (h : Rep ctx E) {s v : Int} (hs : (ctx.vert? s v).isSome) :
    (ctx.vert? s v).bind GddVert.global = some v := by
  obtain ⟨x, hx⟩ := Option.isSome_iff_exists.mp hs
  simp [hx, (h.vert s v x hx).global]

/-- Unlinking, with the pointers followed. -/
theorem Rep.unlink_eq (h : Rep ctx E) {e : GddEdge} (he : e ∈ E) (fi ti : Option Nat) :
    gddEdgeUnlink ctx e fi ti =
      ({ ctx with
          topstat := { ctx.topstat with
            outdeg := ctx.topstat.outdeg - 1, indeg := ctx.topstat.indeg - 1 }
          globals := (ctx.globals.modify e.vfrom fun s => { s with outdeg := s.outdeg - 1 }).modify
            e.vto fun s => { s with indeg := s.indeg - 1 } }.modifyVert e.segid e.vfrom
            fun v => { v with edgesOut := listDelete fi e v.edgesOut }).modifyVert e.segid e.vto
            fun v => { v with edgesIn := listDelete ti e v.edgesIn } := by
  have hf := h.bind_global (h.vfrom e he)
  have ht := h.bind_global (h.vto e he)
  rw [gddEdgeUnlink, gddEdgeUnlinkFrom, modifyGlobal_eq (s := e.segid) (k := e.vfrom),
    gddEdgeUnlinkTo, modifyGlobal_eq (s := e.segid) (k := e.vto)]
  · rfl
  · -- The first write changes only the out edges of a vertex, not what it is bound to.
    refine Eq.trans (congrArg (Option.bind · GddVert.global) (vert?_modifyVert _ _ _)) ?_
    split_ifs with hc
    · rw [Option.bind_map]; exact ht
    · exact ht
  · exact hf

theorem vert?_withStats (ctx : GddCtx) (top : GddStat) (globals : GddMap GddStat) (s v : Int) :
    { ctx with topstat := top, globals := globals }.vert? s v = ctx.vert? s v := rfl

/-- The vertices after unlinking an edge. -/
theorem Rep.vert?_unlink (h : Rep ctx E) {e : GddEdge} (he : e ∈ E) (fi ti : Option Nat)
    (s v : Int) :
    (gddEdgeUnlink ctx e fi ti).vert? s v = (ctx.vert? s v).map fun x =>
      { x with
        edgesOut := if s = e.segid ∧ v = e.vfrom then listDelete fi e x.edgesOut else x.edgesOut
        edgesIn := if s = e.segid ∧ v = e.vto then listDelete ti e x.edgesIn else x.edgesIn } := by
  rw [h.unlink_eq he, vert?_modifyVert, vert?_modifyVert, vert?_withStats]
  cases ctx.vert? s v with
  | none => simp
  | some x => split_ifs <;> simp

/-- **Unlinking an edge erases it from the set.** -/
theorem Rep.unlink (h : Rep ctx E) {e : GddEdge} (he : e ∈ E) (fi ti : Option Nat)
    (hfi : ∀ x, ctx.vert? e.segid e.vfrom = some x → IterAt fi e x.edgesOut)
    (hti : ∀ x, ctx.vert? e.segid e.vto = some x → IterAt ti e x.edgesIn) :
    Rep (gddEdgeUnlink ctx e fi ti) (E.erase e) := by
  have hsome : ∀ s v, ((gddEdgeUnlink ctx e fi ti).vert? s v).isSome = (ctx.vert? s v).isSome :=
    fun s v => by rw [h.vert?_unlink he, Option.isSome_map]
  have hptr : ∀ f ∈ E, f.ptr = e.ptr → f = e := fun f hf => h.ptr_inj f hf e he
  have hcard : 0 < E.card := Finset.card_pos.mpr ⟨e, he⟩
  refine ⟨?_, fun s => ?_, fun s v x hx => ?_, fun f hf => ?_, fun f hf => ?_, fun v st hst => ?_,
    fun s v hs => ?_, ?_, ?_, fun f hf g hg => ?_, fun f hf => ?_⟩
  · rw [h.unlink_eq he]; simpa using h.nodup_graphs
  · rw [h.unlink_eq he, keys_verts_modifyVert, keys_verts_modifyVert]
    exact h.nodup_verts s
  · rw [h.vert?_unlink he, Option.map_eq_some_iff] at hx
    obtain ⟨y, hy, rfl⟩ := hx
    have hv := h.vert s v y hy
    have hin : s = e.segid ∧ v = e.vto → listDelete ti e y.edgesIn = y.edgesIn.erase e := by
      rintro ⟨rfl, rfl⟩
      exact listDelete_eq_erase hv.nodup_in (fun f hf => hptr f ((hv.mem_in f).mp hf).1) (hti y hy)
    have hout : s = e.segid ∧ v = e.vfrom → listDelete fi e y.edgesOut = y.edgesOut.erase e := by
      rintro ⟨rfl, rfl⟩
      exact listDelete_eq_erase hv.nodup_out (fun f hf => hptr f ((hv.mem_out f).mp hf).1)
        (hfi y hy)
    refine ⟨hv.id, hv.global, ?_, ?_, fun f => ?_, fun f => ?_⟩
    · dsimp only; split_ifs with hc
      · rw [hin hc]; exact hv.nodup_in.erase e
      · exact hv.nodup_in
    · dsimp only; split_ifs with hc
      · rw [hout hc]; exact hv.nodup_out.erase e
      · exact hv.nodup_out
    · dsimp only; split_ifs with hc
      · rw [hin hc, hv.nodup_in.mem_erase_iff, hv.mem_in, Finset.mem_erase, and_assoc]
      · rw [hv.mem_in, Finset.mem_erase, and_assoc]
        refine ⟨fun hf => ⟨?_, hf⟩, fun hf => hf.2⟩
        rintro rfl
        exact hc ⟨hf.2.1.symm, hf.2.2.symm⟩
    · dsimp only; split_ifs with hc
      · rw [hout hc, hv.nodup_out.mem_erase_iff, hv.mem_out, Finset.mem_erase, and_assoc]
      · rw [hv.mem_out, Finset.mem_erase, and_assoc]
        refine ⟨fun hf => ⟨?_, hf⟩, fun hf => hf.2⟩
        rintro rfl
        exact hc ⟨hf.2.1.symm, hf.2.2.symm⟩
  · rw [hsome]; exact h.vfrom f (Finset.mem_of_mem_erase hf)
  · rw [hsome]; exact h.vto f (Finset.mem_of_mem_erase hf)
  · rw [h.unlink_eq he] at hst
    simp only [globals_modifyVert, gddMapGet_modify] at hst
    cases hg : gddMapGet ctx.globals v with
    | none => simp [hg] at hst
    | some st₀ =>
      obtain ⟨h₁, h₂⟩ := h.stat v st₀ hg
      rw [inDegree_erase he, outDegree_erase he, ← h₁, ← h₂]
      rw [hg] at hst
      split_ifs at hst ⊢ <;> simp only [Option.map_some, Option.some.injEq] at hst <;>
        subst hst <;> simp
  · rw [hsome] at hs
    rw [h.unlink_eq he]
    simp only [globals_modifyVert, gddMapGet_isSome, keys_modify]
    exact gddMapGet_isSome.mp (h.bound s v hs)
  · rw [h.unlink_eq he, Finset.card_erase_of_mem he]
    show ctx.topstat.indeg - 1 = _
    rw [h.top_in]; omega
  · rw [h.unlink_eq he, Finset.card_erase_of_mem he]
    show ctx.topstat.outdeg - 1 = _
    rw [h.top_out]; omega
  · exact h.ptr_inj f (Finset.mem_of_mem_erase hf) g (Finset.mem_of_mem_erase hg)
  · rw [h.unlink_eq he]
    exact h.ptr_lt f (Finset.mem_of_mem_erase hf)

end Unlink

/-! ## Adding an edge -/

section Add

variable {ctx : GddCtx} {E : Finset GddEdge}

theorem gddMapGet_getVert (verts : GddMap GddVert) (u w : Int) :
    gddMapGet (gddGraphGetVert verts u) w =
      if w = u then some ((gddMapGet verts u).getD (gddVertNew u)) else gddMapGet verts w := by
  unfold gddGraphGetVert
  cases hu : gddMapGet verts u with
  | some x => split_ifs with hw <;> simp [hw, hu]
  | none => simp [gddMapGet_setUnsafe _ _ _ hu]

theorem nodup_getVert {verts : GddMap GddVert} (h : verts.keys.Nodup) (u : Int) :
    (gddGraphGetVert verts u).keys.Nodup := by
  unfold gddGraphGetVert
  cases hu : gddMapGet verts u with
  | some x => exact h
  | none =>
    rw [keys_setUnsafe, List.nodup_append]
    refine ⟨h, List.nodup_singleton u, fun a ha b hb => ?_⟩
    rw [List.mem_singleton.mp hb]
    rintro rfl
    exact gddMapGet_eq_none.mp hu ha

theorem gddMapGet_getGlobalStat (ctx : GddCtx) (u w : Int) :
    gddMapGet (gddCtxGetGlobalStat ctx u).globals w =
      if w = u then some ((gddMapGet ctx.globals u).getD (gddStatInit u))
      else gddMapGet ctx.globals w := by
  unfold gddCtxGetGlobalStat
  cases hu : gddMapGet ctx.globals u with
  | some x => split_ifs with hw <;> simp [hw, hu]
  | none => simp [gddMapGet_setUnsafe _ _ _ hu]

@[simp] theorem graphs_getGlobalStat (ctx : GddCtx) (u : Int) :
    (gddCtxGetGlobalStat ctx u).graphs = ctx.graphs := by
  unfold gddCtxGetGlobalStat; split <;> rfl

@[simp] theorem verts_getGlobalStat (ctx : GddCtx) (u s : Int) :
    (gddCtxGetGlobalStat ctx u).verts s = ctx.verts s := by
  simp [GddCtx.verts]

@[simp] theorem topstat_getGlobalStat (ctx : GddCtx) (u : Int) :
    (gddCtxGetGlobalStat ctx u).topstat = ctx.topstat := by
  unfold gddCtxGetGlobalStat; split <;> rfl

@[simp] theorem brk_getGlobalStat (ctx : GddCtx) (u : Int) :
    (gddCtxGetGlobalStat ctx u).brk = ctx.brk := by
  unfold gddCtxGetGlobalStat; split <;> rfl

theorem getGraph_mem (ctx : GddCtx) (s : Int) : s ∈ (gddCtxGetGraph ctx s).graphs.keys := by
  unfold gddCtxGetGraph
  cases hs : gddMapGet ctx.graphs s with
  | some g => exact gddMapGet_isSome.mp (by simp [hs])
  | none => simp

theorem nodup_getGraph (h : ctx.graphs.keys.Nodup) (s : Int) :
    (gddCtxGetGraph ctx s).graphs.keys.Nodup := by
  unfold gddCtxGetGraph
  cases hs : gddMapGet ctx.graphs s with
  | some g => exact h
  | none =>
    simp only [keys_setUnsafe, List.nodup_append]
    refine ⟨h, List.nodup_singleton s, fun a ha b hb => ?_⟩
    rw [List.mem_singleton.mp hb]
    rintro rfl
    exact gddMapGet_eq_none.mp hs ha

@[simp] theorem verts_getGraph (ctx : GddCtx) (s t : Int) :
    (gddCtxGetGraph ctx s).verts t = ctx.verts t := by
  unfold gddCtxGetGraph
  cases hs : gddMapGet ctx.graphs s with
  | some g => rfl
  | none =>
    simp only [GddCtx.verts, gddMapGet_setUnsafe _ _ _ hs]
    split_ifs with h
    · subst h; simp [hs, gddGraphNew]
    · rfl

@[simp] theorem rest_getGraph (ctx : GddCtx) (s : Int) :
    (gddCtxGetGraph ctx s).globals = ctx.globals ∧ (gddCtxGetGraph ctx s).topstat = ctx.topstat ∧
      (gddCtxGetGraph ctx s).brk = ctx.brk := by
  unfold gddCtxGetGraph; split <;> simp

/-- The context with both ends of a new edge present, which is not linked yet. -/
def withEnds (ctx : GddCtx) (s u v : Int) : GddCtx :=
  let ctx := (gddCtxGetGraph ctx s).modifyVerts s fun verts => gddGraphGetVert verts u
  let ctx := ctx.modifyVerts s fun verts => gddGraphGetVert verts v
  let ctx := gddVertBindStats (gddCtxGetGlobalStat { ctx with brk := ctx.brk + 1 } u) s u
  gddVertBindStats (gddCtxGetGlobalStat ctx v) s v

theorem addEdge_eq (ctx : GddCtx) (s u v : Int) (b : Bool) :
    gddCtxAddEdge ctx s u v b = gddEdgeLink (withEnds ctx s u v) ⟨ctx.brk, b, s, u, v⟩ := by
  have hbrk := (rest_getGraph ctx s).2.2
  simp only [gddCtxAddEdge, gddGraphMakeEdge, withEnds, GddCtx.modifyVerts, hbrk]

theorem verts_withEnds (ctx : GddCtx) (s u v t : Int) :
    (withEnds ctx s u v).verts t =
      if t = s then
        ((gddGraphGetVert (gddGraphGetVert (ctx.verts s) u) v).modify u
          fun x => { x with global := some u }).modify v fun x => { x with global := some v }
      else ctx.verts t := by
  have hs := getGraph_mem ctx s
  simp only [withEnds, gddVertBindStats, verts_modifyVert, verts_getGlobalStat]
  have h₁ : ∀ (c : GddCtx) (n : Nat) (t : Int), { c with brk := n }.verts t = c.verts t :=
    fun _ _ _ => rfl
  simp only [h₁, if_true]
  rw [verts_modifyVerts (Or.inl (by simpa using hs)), if_pos rfl, verts_modifyVerts (Or.inl hs),
    if_pos rfl, verts_getGraph]
  split_ifs with ht
  · rfl
  · rw [verts_modifyVerts (Or.inl (by simpa using hs)), if_neg ht, verts_modifyVerts (Or.inl hs),
      if_neg ht, verts_getGraph]

/-- The vertices of `withEnds`. -/
theorem vert?_withEnds (ctx : GddCtx) (s u v t w : Int) :
    (withEnds ctx s u v).vert? t w =
      if t = s ∧ (w = u ∨ w = v) then
        some { (ctx.vert? s w).getD (gddVertNew w) with global := some w }
      else ctx.vert? t w := by
  rw [GddCtx.vert?, verts_withEnds]
  by_cases ht : t = s
  · subst ht
    simp only [if_true, true_and, gddMapGet_modify, gddMapGet_getVert, GddCtx.vert?]
    by_cases hv : w = v
    · subst hv
      by_cases hu : w = u
      · subst hu; simp
      · simp [hu]
    · by_cases hu : w = u
      · subst hu; simp [hv]
      · simp [hu, hv]
  · simp [ht, GddCtx.vert?]

theorem gddMapGet_withEnds (ctx : GddCtx) (s u v w : Int) :
    gddMapGet (withEnds ctx s u v).globals w =
      if w = u ∨ w = v then some ((gddMapGet ctx.globals w).getD (gddStatInit w))
      else gddMapGet ctx.globals w := by
  simp only [withEnds, gddVertBindStats, globals_modifyVert, gddMapGet_getGlobalStat,
    globals_modifyVerts, (rest_getGraph ctx s).1]
  by_cases hv : w = v
  · subst hv
    by_cases hu : w = u
    · subst hu; simp
    · simp [hu]
  · by_cases hu : w = u
    · subst hu; simp [hv]
    · simp [hu, hv]

theorem Rep.inDegree_eq_zero (h : Rep ctx E) {v : Int} (hv : gddMapGet ctx.globals v = none) :
    inDegree E v = 0 := by
  refine Finset.card_eq_zero.mpr (Finset.filter_eq_empty_iff.mpr fun e he => ?_)
  rintro rfl
  simpa [hv] using h.bound _ _ (h.vto e he)

theorem Rep.outDegree_eq_zero (h : Rep ctx E) {v : Int} (hv : gddMapGet ctx.globals v = none) :
    outDegree E v = 0 := by
  refine Finset.card_eq_zero.mpr (Finset.filter_eq_empty_iff.mpr fun e he => ?_)
  rintro rfl
  simpa [hv] using h.bound _ _ (h.vfrom e he)

/-- Making the ends of an edge changes nothing about the edges. -/
theorem Rep.withEnds (h : Rep ctx E) (s u v : Int) : Rep (withEnds ctx s u v) E := by
  have hmono : ∀ t w, (ctx.vert? t w).isSome → ((Gdd.withEnds ctx s u v).vert? t w).isSome :=
    fun t w hs => by rw [vert?_withEnds]; split_ifs <;> simp [hs]
  have htop : (Gdd.withEnds ctx s u v).topstat = ctx.topstat := by
    simp [Gdd.withEnds, gddVertBindStats]
  have hbrk : (Gdd.withEnds ctx s u v).brk = ctx.brk + 1 := by
    simp [Gdd.withEnds, gddVertBindStats]
  refine ⟨?_, fun t => ?_, fun t w x hx => ?_, fun e he => hmono _ _ (h.vfrom e he),
    fun e he => hmono _ _ (h.vto e he), fun w st hst => ?_, fun t w hs => ?_, ?_, ?_, h.ptr_inj,
    fun e he => ?_⟩
  · simp only [Gdd.withEnds, gddVertBindStats, keys_modifyVert, graphs_getGlobalStat,
      keys_modifyVerts]
    exact nodup_getGraph h.nodup_graphs s
  · rw [verts_withEnds]
    split_ifs with ht
    · simp only [keys_modify]
      exact nodup_getVert (nodup_getVert (h.nodup_verts s) u) v
    · exact h.nodup_verts t
  · rw [vert?_withEnds] at hx
    split_ifs at hx with hc
    · obtain ⟨rfl, -⟩ := hc
      cases hy : ctx.vert? t w with
      | some y =>
        have hv := h.vert t w y hy
        simp only [hy, Option.getD_some, Option.some.injEq] at hx
        subst hx
        exact ⟨hv.id, rfl, hv.nodup_in, hv.nodup_out, hv.mem_in, hv.mem_out⟩
      | none =>
        -- A vertex first seen has no edges yet: those of `E` have their ends in the graph.
        simp only [hy, Option.getD_none, Option.some.injEq] at hx
        subst hx
        refine ⟨rfl, rfl, List.nodup_nil, List.nodup_nil, fun e => ?_, fun e => ?_⟩
        · refine iff_of_false List.not_mem_nil ?_
          rintro ⟨he, rfl, rfl⟩
          simpa [hy] using h.vto e he
        · refine iff_of_false List.not_mem_nil ?_
          rintro ⟨he, rfl, rfl⟩
          simpa [hy] using h.vfrom e he
    · exact h.vert t w x hx
  · rw [gddMapGet_withEnds] at hst
    cases hg : gddMapGet ctx.globals w with
    | some st₀ =>
      rw [hg] at hst
      have hst' : st₀ = st := by split_ifs at hst <;> simpa using hst
      exact hst' ▸ h.stat w st₀ hg
    | none =>
      rw [h.inDegree_eq_zero hg, h.outDegree_eq_zero hg]
      simp only [hg, Option.getD_none] at hst
      split_ifs at hst
      cases hst
      exact ⟨rfl, rfl⟩
  · rw [gddMapGet_withEnds]
    split_ifs with hc
    · rfl
    · refine h.bound t w ?_
      rw [vert?_withEnds] at hs
      rwa [if_neg fun h => hc h.2] at hs
  · rw [htop, h.top_in]
  · rw [htop, h.top_out]
  · rw [hbrk]
    exact Nat.lt_succ_of_lt (h.ptr_lt e he)

/-- Linking, with the pointers followed. -/
theorem Rep.link_eq (h : Rep ctx E) {e : GddEdge} (hf : (ctx.vert? e.segid e.vfrom).isSome)
    (ht : (ctx.vert? e.segid e.vto).isSome) :
    gddEdgeLink ctx e =
      ({ ctx with
          topstat := { ctx.topstat with
            outdeg := ctx.topstat.outdeg + 1, indeg := ctx.topstat.indeg + 1 }
          globals := (ctx.globals.modify e.vfrom fun s => { s with outdeg := s.outdeg + 1 }).modify
            e.vto fun s => { s with indeg := s.indeg + 1 } }.modifyVert e.segid e.vfrom
            fun v => { v with edgesOut := v.edgesOut ++ [e] }).modifyVert e.segid e.vto
            fun v => { v with edgesIn := v.edgesIn ++ [e] } := by
  rw [gddEdgeLink, modifyGlobal_eq (s := e.segid) (v := e.vfrom) (k := e.vfrom),
    modifyGlobal_eq (s := e.segid) (v := e.vto) (k := e.vto)]
  · exact h.bind_global ht
  · exact h.bind_global hf

theorem Rep.vert?_link (h : Rep ctx E) {e : GddEdge} (hf : (ctx.vert? e.segid e.vfrom).isSome)
    (ht : (ctx.vert? e.segid e.vto).isSome) (s v : Int) :
    (gddEdgeLink ctx e).vert? s v = (ctx.vert? s v).map fun x =>
      { x with
        edgesOut := if s = e.segid ∧ v = e.vfrom then x.edgesOut ++ [e] else x.edgesOut
        edgesIn := if s = e.segid ∧ v = e.vto then x.edgesIn ++ [e] else x.edgesIn } := by
  rw [h.link_eq hf ht, vert?_modifyVert, vert?_modifyVert, vert?_withStats]
  cases ctx.vert? s v with
  | none => simp
  | some x => split_ifs <;> simp

theorem nodup_append_singleton {l : List GddEdge} {e : GddEdge} (hl : l.Nodup) (he : e ∉ l) :
    (l ++ [e]).Nodup := by
  rw [List.nodup_append]
  refine ⟨hl, List.nodup_singleton e, fun a ha b hb => ?_⟩
  rw [List.mem_singleton.mp hb]
  rintro rfl
  exact he ha

/-- **Linking an edge inserts it into the set.** -/
theorem Rep.link (h : Rep ctx E) {e : GddEdge} (hf : (ctx.vert? e.segid e.vfrom).isSome)
    (ht : (ctx.vert? e.segid e.vto).isSome) (hptr : ∀ f ∈ E, f.ptr ≠ e.ptr)
    (hlt : e.ptr < ctx.brk) : Rep (gddEdgeLink ctx e) (insert e E) := by
  have he : e ∉ E := fun he => hptr e he rfl
  have hsome : ∀ s v, ((gddEdgeLink ctx e).vert? s v).isSome = (ctx.vert? s v).isSome :=
    fun s v => by rw [h.vert?_link hf ht, Option.isSome_map]
  refine ⟨?_, fun s => ?_, fun s v x hx => ?_, fun f hfE => ?_, fun f hfE => ?_, fun v st hst => ?_,
    fun s v hs => ?_, ?_, ?_, fun f hfE g hgE hfg => ?_, fun f hfE => ?_⟩
  · rw [h.link_eq hf ht]; simpa using h.nodup_graphs
  · rw [h.link_eq hf ht, keys_verts_modifyVert, keys_verts_modifyVert]
    exact h.nodup_verts s
  · rw [h.vert?_link hf ht, Option.map_eq_some_iff] at hx
    obtain ⟨y, hy, rfl⟩ := hx
    have hv := h.vert s v y hy
    refine ⟨hv.id, hv.global, ?_, ?_, fun f => ?_, fun f => ?_⟩
    · dsimp only; split_ifs with hc
      · exact nodup_append_singleton hv.nodup_in fun hm => he ((hv.mem_in e).mp hm).1
      · exact hv.nodup_in
    · dsimp only; split_ifs with hc
      · exact nodup_append_singleton hv.nodup_out fun hm => he ((hv.mem_out e).mp hm).1
      · exact hv.nodup_out
    · dsimp only
      rw [Finset.mem_insert, or_and_right, ← hv.mem_in]
      split_ifs with hc
      · rw [List.mem_append, List.mem_singleton, or_comm]
        refine or_congr_left ⟨?_, And.left⟩
        rintro rfl
        exact ⟨rfl, hc.1.symm, hc.2.symm⟩
      · refine (or_iff_right ?_).symm
        rintro ⟨rfl, h₁, h₂⟩
        exact hc ⟨h₁.symm, h₂.symm⟩
    · dsimp only
      rw [Finset.mem_insert, or_and_right, ← hv.mem_out]
      split_ifs with hc
      · rw [List.mem_append, List.mem_singleton, or_comm]
        refine or_congr_left ⟨?_, And.left⟩
        rintro rfl
        exact ⟨rfl, hc.1.symm, hc.2.symm⟩
      · refine (or_iff_right ?_).symm
        rintro ⟨rfl, h₁, h₂⟩
        exact hc ⟨h₁.symm, h₂.symm⟩
  · rw [hsome]
    rcases Finset.mem_insert.mp hfE with rfl | hfE
    · exact hf
    · exact h.vfrom f hfE
  · rw [hsome]
    rcases Finset.mem_insert.mp hfE with rfl | hfE
    · exact ht
    · exact h.vto f hfE
  · rw [h.link_eq hf ht] at hst
    simp only [globals_modifyVert, gddMapGet_modify] at hst
    cases hg : gddMapGet ctx.globals v with
    | none => simp [hg] at hst
    | some st₀ =>
      obtain ⟨h₁, h₂⟩ := h.stat v st₀ hg
      rw [inDegree_insert he, outDegree_insert he]
      push_cast
      rw [← h₁, ← h₂]
      rw [hg] at hst
      split_ifs at hst ⊢ <;> simp only [Option.map_some, Option.some.injEq] at hst <;>
        subst hst <;> simp
  · rw [hsome] at hs
    rw [h.link_eq hf ht]
    simp only [globals_modifyVert, gddMapGet_isSome, keys_modify]
    exact gddMapGet_isSome.mp (h.bound s v hs)
  · rw [h.link_eq hf ht, Finset.card_insert_of_notMem he]
    show ctx.topstat.indeg + 1 = _
    rw [h.top_in]; rfl
  · rw [h.link_eq hf ht, Finset.card_insert_of_notMem he]
    show ctx.topstat.outdeg + 1 = _
    rw [h.top_out]; rfl
  · rcases Finset.mem_insert.mp hfE with hf' | hf' <;>
      rcases Finset.mem_insert.mp hgE with hg' | hg'
    · rw [hf', hg']
    · exact absurd (hf' ▸ hfg.symm) (hptr g hg')
    · exact absurd (hg' ▸ hfg) (hptr f hf')
    · exact h.ptr_inj f hf' g hg' hfg
  · rw [h.link_eq hf ht]
    rcases Finset.mem_insert.mp hfE with rfl | hfE
    · exact hlt
    · exact h.ptr_lt f hfE

/-- **Adding an edge to a local graph.** -/
theorem Rep.addEdge (h : Rep ctx E) (s u v : Int) (b : Bool) :
    Rep (gddCtxAddEdge ctx s u v b) (insert ⟨ctx.brk, b, s, u, v⟩ E) := by
  rw [addEdge_eq]
  have hbrk : (Gdd.withEnds ctx s u v).brk = ctx.brk + 1 := by
    simp [Gdd.withEnds, gddVertBindStats]
  refine (h.withEnds s u v).link ?_ ?_ (fun f hf => (h.ptr_lt f hf).ne) (by simp [hbrk])
  · simp [vert?_withEnds]
  · simp [vert?_withEnds]

end Add

end Hdb.Gdd

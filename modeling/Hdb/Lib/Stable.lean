import Mathlib.Data.Finset.Powerset
import Mathlib.Data.Finset.Lattice.Fold
import Mathlib.Data.Fintype.Pigeonhole
import Mathlib.Dynamics.PeriodicPts.Defs
import Mathlib.Logic.Relation

/-!
# Greatest stable subsets, and cycles of finite digraphs

A *pruning rule* on a type `α` is a predicate `keep S a`: the element `a` may stay as long as
the others are `S`. A finite set is *stable* when every element of it may stay. For a monotone
rule the stable subsets of a set are closed under union, so there is a greatest one, and it is
what every maximal sequence of deletions arrives at, whatever the order: a deletion never
touches an element of a stable subset.

The second part is about finite sets of directed edges: when the head of every edge is the
tail of another one, following edges from anywhere closes a simple cycle.
-/

namespace Hdb

section Stable

variable {α : Type*} [DecidableEq α] {keep : Finset α → α → Prop}

/-- Every element of `S` may stay in `S`. -/
def StableIn (keep : Finset α → α → Prop) (S : Finset α) : Prop := ∀ a ∈ S, keep S a

/-- More company never hurts. -/
def MonotoneRule (keep : Finset α → α → Prop) : Prop :=
  ∀ ⦃S T : Finset α⦄, S ⊆ T → ∀ a, keep S a → keep T a

/-- `T` is what is left of `S` after deleting, one by one, elements that may not stay. -/
inductive Deletes (keep : Finset α → α → Prop) (S : Finset α) : Finset α → Prop
  | refl : Deletes keep S S
  | step {T : Finset α} {a : α} : Deletes keep S T → a ∈ T → ¬ keep T a →
      Deletes keep S (T.erase a)

theorem Deletes.trans {S T U : Finset α} (h₁ : Deletes keep S T) (h₂ : Deletes keep T U) :
    Deletes keep S U := by
  induction h₂ with
  | refl => exact h₁
  | step _ ha hk ih => exact ih.step ha hk

theorem Deletes.subset {S T : Finset α} (h : Deletes keep S T) : T ⊆ S := by
  induction h with
  | refl => exact subset_rfl
  | step _ _ _ ih => exact (Finset.erase_subset _ _).trans ih

/-- Elements that may not stay can be deleted together. -/
theorem Deletes.filter (hm : MonotoneRule keep) {S : Finset α} {p : α → Prop} [DecidablePred p]
    (h : ∀ a ∈ S, ¬ p a → ¬ keep S a) : Deletes keep S (S.filter p) := by
  have key : ∀ D : Finset α, D ⊆ S → (∀ a ∈ D, ¬ p a) → Deletes keep S (S \ D) := by
    intro D
    induction D using Finset.induction_on with
    | empty => intro _ _; rw [Finset.sdiff_empty]; exact .refl
    | insert a D ha ih =>
      intro hD hp
      have hDS := (Finset.subset_insert a D).trans hD
      have haS : a ∈ S := hD (Finset.mem_insert_self a D)
      rw [Finset.sdiff_insert]
      refine (ih hDS fun b hb => hp b (Finset.mem_insert_of_mem hb)).step
        (Finset.mem_sdiff.mpr ⟨haS, ha⟩) fun hk => ?_
      exact h a haS (hp a (Finset.mem_insert_self a D)) (hm Finset.sdiff_subset a hk)
  have hset : S.filter p = S \ S.filter fun a => ¬ p a := by
    ext a
    simp only [Finset.mem_filter, Finset.mem_sdiff, not_and, not_not]
    exact and_congr_right fun ha => ⟨fun hp _ => hp, fun hp => hp ha⟩
  rw [hset]
  exact key _ (Finset.filter_subset _ _) fun a ha => (Finset.mem_filter.mp ha).2

/-- **Deletions spare every stable subset.** -/
theorem Deletes.stable_subset (hm : MonotoneRule keep) {S T U : Finset α}
    (h : Deletes keep S T) (hU : StableIn keep U) (hUS : U ⊆ S) : U ⊆ T := by
  induction h with
  | refl => exact hUS
  | step _ _ hk ih =>
    intro b hb
    refine Finset.mem_erase.mpr ⟨?_, ih hb⟩
    rintro rfl
    exact hk (hm ih b (hU b hb))

open Classical in
/-- The union of the stable subsets of `S`. -/
noncomputable def greatestStable (keep : Finset α → α → Prop) (S : Finset α) : Finset α :=
  (S.powerset.filter fun U => StableIn keep U).sup id

theorem mem_greatestStable {S : Finset α} {a : α} :
    a ∈ greatestStable keep S ↔ ∃ U ⊆ S, StableIn keep U ∧ a ∈ U := by
  simp only [greatestStable, Finset.mem_sup, Finset.mem_filter, Finset.mem_powerset, id]
  exact ⟨fun ⟨U, ⟨h₁, h₂⟩, h₃⟩ => ⟨U, h₁, h₂, h₃⟩, fun ⟨U, h₁, h₂, h₃⟩ => ⟨U, ⟨h₁, h₂⟩, h₃⟩⟩

theorem subset_greatestStable {S U : Finset α} (hU : U ⊆ S) (hs : StableIn keep U) :
    U ⊆ greatestStable keep S := fun _ ha => mem_greatestStable.mpr ⟨U, hU, hs, ha⟩

theorem greatestStable_isGreatest (hm : MonotoneRule keep) (S : Finset α) :
    IsGreatest {U | U ⊆ S ∧ StableIn keep U} (greatestStable keep S) := by
  refine ⟨⟨fun a ha => ?_, fun a ha => ?_⟩, fun U hU => subset_greatestStable hU.1 hU.2⟩
  · obtain ⟨U, hU, -, haU⟩ := mem_greatestStable.mp ha
    exact hU haU
  · obtain ⟨U, hU, hs, haU⟩ := mem_greatestStable.mp ha
    exact hm (subset_greatestStable hU hs) a (hs a haU)

theorem greatestStable_subset (hm : MonotoneRule keep) (S : Finset α) :
    greatestStable keep S ⊆ S := (greatestStable_isGreatest hm S).1.1

theorem greatestStable_stable (hm : MonotoneRule keep) (S : Finset α) :
    StableIn keep (greatestStable keep S) := (greatestStable_isGreatest hm S).1.2

theorem greatestStable_mono (hm : MonotoneRule keep) {S T : Finset α} (h : S ⊆ T) :
    greatestStable keep S ⊆ greatestStable keep T :=
  subset_greatestStable ((greatestStable_subset hm S).trans h) (greatestStable_stable hm S)

/-- Deletions do not change the greatest stable subset. -/
theorem Deletes.greatestStable_eq (hm : MonotoneRule keep) {S T : Finset α}
    (h : Deletes keep S T) : greatestStable keep T = greatestStable keep S := by
  refine (greatestStable_mono hm h.subset).antisymm (subset_greatestStable ?_ ?_)
  · exact h.stable_subset hm (greatestStable_stable hm S) (greatestStable_subset hm S)
  · exact greatestStable_stable hm S

theorem greatestStable_of_stable (hm : MonotoneRule keep) {S : Finset α} (h : StableIn keep S) :
    greatestStable keep S = S :=
  (greatestStable_subset hm S).antisymm (subset_greatestStable subset_rfl h)

/-- A rule that only looks at the images of the elements is the rule on the images. -/
theorem greatestStable_image {β : Type*} [DecidableEq β] {keep' : Finset β → β → Prop} (f : α → β)
    (hm : MonotoneRule keep) (hm' : MonotoneRule keep')
    (h : ∀ S a, keep' (S.image f) (f a) ↔ keep S a) (S : Finset α) (a : α) :
    a ∈ greatestStable keep S ↔ a ∈ S ∧ f a ∈ greatestStable keep' (S.image f) := by
  constructor
  · intro ha
    refine ⟨greatestStable_subset hm S ha, mem_greatestStable.mpr ?_⟩
    refine ⟨(greatestStable keep S).image f, Finset.image_subset_image (greatestStable_subset hm S),
      fun b hb => ?_, Finset.mem_image_of_mem f ha⟩
    obtain ⟨c, hc, rfl⟩ := Finset.mem_image.mp hb
    exact (h _ c).mpr (greatestStable_stable hm S c hc)
  · rintro ⟨haS, ha⟩
    -- The elements over a stable set of images are stable themselves.
    set U := S.filter fun b => f b ∈ greatestStable keep' (S.image f)
    refine mem_greatestStable.mpr ⟨U, Finset.filter_subset _ _, fun b hb => ?_,
      Finset.mem_filter.mpr ⟨haS, ha⟩⟩
    refine (h U b).mp (hm' (fun c hc => ?_) _
      (greatestStable_stable hm' _ _ (Finset.mem_filter.mp hb).2))
    obtain ⟨d, hd, rfl⟩ := Finset.mem_image.mp (greatestStable_subset hm' _ hc)
    exact Finset.mem_image_of_mem f (Finset.mem_filter.mpr ⟨hd, hc⟩)

end Stable

/-! ## Cycles -/

section Cycle

variable {α V : Type*} {src dst : α → V}

/-- A closed directed walk: each edge starts where the one before it ends, cyclically. -/
structure IsClosedWalk (src dst : α → V) (c : List α) : Prop where
  chain : c.IsChain fun e f => dst e = src f
  closed : ∀ e ∈ c.getLast?, ∀ f ∈ c.head?, dst e = src f
  ne_nil : c ≠ []

/-- A directed cycle leaves no vertex twice. -/
structure IsDirectedCycle (src dst : α → V) (c : List α) : Prop extends
    IsClosedWalk src dst c where
  nodup : (c.map src).Nodup

/-- Every edge of a closed walk has a successor in it. -/
theorem IsClosedWalk.exists_next {w : List α} (h : IsClosedWalk src dst w) {e : α}
    (he : e ∈ w) : ∃ f ∈ w, src f = dst e := by
  obtain ⟨i, hi, rfl⟩ := List.getElem_of_mem he
  by_cases hl : i + 1 < w.length
  · exact ⟨w[i + 1], List.getElem_mem _, (List.isChain_iff_getElem.mp h.chain i hl).symm⟩
  · have hlast : w.getLast? = some w[i] := by
      rw [List.getLast?_eq_getElem?, show w.length - 1 = i by omega, List.getElem?_eq_getElem hi]
    refine ⟨w.head h.ne_nil, List.head_mem _, (h.closed _ hlast _ ?_).symm⟩
    exact List.head?_eq_some_head h.ne_nil

/-- Every edge of a closed walk has a predecessor in it. -/
theorem IsClosedWalk.exists_prev {w : List α} (h : IsClosedWalk src dst w) {f : α}
    (hf : f ∈ w) : ∃ e ∈ w, dst e = src f := by
  obtain ⟨i, hi, rfl⟩ := List.getElem_of_mem hf
  cases i with
  | zero =>
    refine ⟨w.getLast h.ne_nil, List.getLast_mem _, h.closed _ ?_ _ ?_⟩
    · exact List.getLast?_eq_some_getLast h.ne_nil
    · rw [List.head?_eq_getElem?]; exact List.getElem?_eq_getElem hi
  | succ i =>
    exact ⟨w[i], List.getElem_mem _, List.isChain_iff_getElem.mp h.chain i hi⟩

/-- A self-map that keeps a finite set takes every point of it to a periodic point. -/
theorem exists_iterate_mem_periodicPts [DecidableEq V] {f : V → V} {S : Finset V} {v : V}
    (hv : v ∈ S) (hf : ∀ u ∈ S, f u ∈ S) :
    ∃ n, f^[n] v ∈ S ∧ f^[n] v ∈ Function.periodicPts f := by
  have horb : ∀ n, f^[n] v ∈ S := by
    intro n
    induction n with
    | zero => exact hv
    | succ n ih => rw [Function.iterate_succ_apply']; exact hf _ ih
  obtain ⟨i, j, hne, heq⟩ :=
    Finite.exists_ne_map_eq_of_infinite fun n : ℕ => (⟨f^[n] v, horb n⟩ : S)
  have heq' : f^[i] v = f^[j] v := congrArg Subtype.val heq
  clear heq
  -- The later of the two equal points of the orbit returns to the earlier one.
  wlog hij : i < j generalizing i j with H
  · exact H j i (Ne.symm hne) heq'.symm (by omega)
  refine ⟨i, horb i, j - i, by omega, ?_⟩
  show f^[j - i] (f^[i] v) = f^[i] v
  rw [← Function.iterate_add_apply, Nat.sub_add_cancel hij.le, heq']

theorem reflTransGen_iterate {r : V → V → Prop} {f : V → V} {S : Finset V} {v : V}
    (hr : ∀ u ∈ S, r u (f u)) (hf : ∀ u ∈ S, f u ∈ S) (hv : v ∈ S) (n : ℕ) :
    Relation.ReflTransGen r v (f^[n] v) := by
  induction n generalizing v with
  | zero => exact .refl
  | succ n ih =>
    rw [Function.iterate_succ_apply]
    exact .head (hr v hv) (ih (hf v hv))

/-- **Following a relation without dead ends in a finite set leads to a cycle.** -/
theorem exists_reaches_cycle [DecidableEq V] {r : V → V → Prop} {S : Finset V}
    (hnext : ∀ u ∈ S, ∃ w ∈ S, r u w) {v : V} (hv : v ∈ S) :
    ∃ u, Relation.ReflTransGen r v u ∧ Relation.TransGen r u u := by
  classical
  let f : V → V := fun u => if h : u ∈ S then (hnext u h).choose else u
  have hspec : ∀ u ∈ S, f u ∈ S ∧ r u (f u) := by
    intro u hu
    simp only [f, dif_pos hu]
    exact (hnext u hu).choose_spec
  have hf : ∀ u ∈ S, f u ∈ S := fun u hu => (hspec u hu).1
  have hr : ∀ u ∈ S, r u (f u) := fun u hu => (hspec u hu).2
  obtain ⟨n, hn, k, hk, hper⟩ := exists_iterate_mem_periodicPts hv hf
  refine ⟨f^[n] v, reflTransGen_iterate hr hf hv n, ?_⟩
  obtain ⟨k, rfl⟩ := Nat.exists_eq_succ_of_ne_zero hk.ne'
  have hback := reflTransGen_iterate hr hf (hf _ hn) k
  rw [← Function.iterate_succ_apply, hper.eq] at hback
  exact Relation.TransGen.head' (hr _ hn) hback

/-- **A nonempty finite set of edges without dead ends contains a cycle.** -/
theorem exists_cycle [DecidableEq V] (src dst : α → V) {S : Finset α} (hne : S.Nonempty)
    (hnext : ∀ e ∈ S, ∃ f ∈ S, src f = dst e) :
    ∃ c, IsDirectedCycle src dst c ∧ ∀ e ∈ c, e ∈ S := by
  classical
  obtain ⟨e₀, he₀⟩ := hne
  have hout : ∀ v ∈ S.image src, ∃ e ∈ S, src e = v := fun v hv => by
    obtain ⟨e, he, rfl⟩ := Finset.mem_image.mp hv
    exact ⟨e, he, rfl⟩
  -- `out v` is an edge leaving `v`, and `g v` the vertex it leads to.
  let out : V → α := fun v => if h : v ∈ S.image src then (hout v h).choose else e₀
  have hout_mem : ∀ v ∈ S.image src, out v ∈ S ∧ src (out v) = v := fun v hv => by
    simp only [out, dif_pos hv]
    exact (hout v hv).choose_spec
  let g : V → V := fun v => dst (out v)
  have hg : ∀ v ∈ S.image src, g v ∈ S.image src := fun v hv => by
    obtain ⟨f, hf, hfs⟩ := hnext _ (hout_mem v hv).1
    exact Finset.mem_image.mpr ⟨f, hf, hfs⟩
  obtain ⟨n, hv, hper⟩ := exists_iterate_mem_periodicPts (Finset.mem_image_of_mem src he₀) hg
  set v := g^[n] (src e₀)
  have horb : ∀ n, g^[n] v ∈ S.image src := by
    intro n
    induction n with
    | zero => exact hv
    | succ n ih => rw [Function.iterate_succ_apply']; exact hg _ ih
  set k := Function.minimalPeriod g v
  have hk : 0 < k := Function.minimalPeriod_pos_of_mem_periodicPts hper
  have hsrc : ∀ n, src (out (g^[n] v)) = g^[n] v := fun n => (hout_mem _ (horb n)).2
  have hdst : ∀ n, dst (out (g^[n] v)) = g^[n + 1] v := fun n => by
    rw [Function.iterate_succ_apply']
  refine ⟨(List.range k).map fun n => out (g^[n] v), ⟨⟨?_, ?_, ?_⟩, ?_⟩, ?_⟩
  · refine List.isChain_iff_getElem.mpr fun i hi => ?_
    simp only [List.getElem_map, List.getElem_range]
    rw [hdst, hsrc]
  · intro e he f hf
    simp only [List.getLast?_map, List.getLast?_range, List.head?_map, List.head?_range] at he hf
    rw [if_neg hk.ne'] at he hf
    simp only [Option.map_some, Option.mem_def, Option.some.injEq] at he hf
    subst he hf
    rw [hdst, hsrc, Nat.sub_add_cancel hk]
    exact Function.iterate_minimalPeriod
  · simpa using hk.ne'
  · rw [List.map_map, List.nodup_map_iff_inj_on List.nodup_range]
    intro i hi j hj hij
    simp only [Function.comp_apply, hsrc] at hij
    exact Function.iterate_injOn_Iio_minimalPeriod (List.mem_range.mp hi) (List.mem_range.mp hj) hij
  · intro e he
    obtain ⟨n, -, rfl⟩ := List.mem_map.mp he
    exact (hout_mem _ (horb n)).1

end Cycle

end Hdb

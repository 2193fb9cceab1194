import Mathlib.Data.List.Basic
import Mathlib.Logic.Function.Basic

/-!
# Interleavings

A list is an interleaving of a family of lists when its elements can be labelled so that those with
the label `i` are the `i`-th list, in its order. Nothing is lost, nothing is there twice, and only
the order between different lists is open.
-/

namespace Hdb

variable {ι α : Type*} [DecidableEq ι] {f : ι → List α} {l m : List α}

def Interleaving (f : ι → List α) (l : List α) : Prop :=
  ∃ tagged : List (ι × α), tagged.map Prod.snd = l ∧
    ∀ i, (tagged.filter fun p => p.1 = i).map Prod.snd = f i

theorem interleaving_nil : Interleaving (fun _ : ι => ([] : List α)) [] :=
  ⟨[], rfl, fun _ => rfl⟩

/-- One of the lists goes on. -/
theorem Interleaving.append (h : Interleaving f l) (i : ι) (as : List α) :
    Interleaving (Function.update f i (f i ++ as)) (l ++ as) := by
  obtain ⟨tagged, rfl, hf⟩ := h
  refine ⟨tagged ++ as.map fun a => (i, a), by simp [Function.comp_def], fun j => ?_⟩
  rw [List.filter_append, List.map_append, hf j]
  by_cases hj : j = i
  · subst hj
    rw [Function.update_self]
    simp [List.filter_map, Function.comp_def]
  · rw [Function.update_of_ne hj]
    simp [List.filter_map, Function.comp_def, Ne.symm hj]

/-- The beginning of an interleaving has the beginnings of its lists in it. -/
theorem Interleaving.left (h : Interleaving f (l ++ m)) :
    ∃ g : ι → List α, Interleaving g l ∧ ∀ i, g i <+: f i := by
  obtain ⟨tagged, htagged, hf⟩ := h
  obtain ⟨front, rest, rfl, rfl, -⟩ := List.map_eq_append_iff.mp htagged
  refine ⟨fun i => (front.filter fun p => p.1 = i).map Prod.snd, ⟨front, rfl, fun _ => rfl⟩,
    fun i => ?_⟩
  rw [← hf i, List.filter_append, List.map_append]
  exact List.prefix_append _ _

end Hdb

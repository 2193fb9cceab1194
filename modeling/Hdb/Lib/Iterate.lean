import Mathlib.Data.List.Pairwise
import Mathlib.Tactic.Common

/-!
# Iterators

An iterator is a function that gives the next result, or none, and the state to go on with. What it
hands out is what successive calls give up to the first one that gives nothing.
-/

namespace Hdb

variable {σ α τ β : Type*}

/-- The results of the first `n` calls, up to the first call that gives none. -/
def pulls (next : σ → σ × Option α) : Nat → σ → List α
  | 0, _ => []
  | n + 1, s =>
    match next s with
    | (_, none) => []
    | (s', some a) => a :: pulls next n s'

/-- The calls give the results of the list, one after the other, and then none. -/
inductive Yields (next : σ → σ × Option α) : σ → List α → Prop
  | done {s s' : σ} (h : next s = (s', none)) : Yields next s []
  | more {s s' : σ} {a : α} {as : List α} (h : next s = (s', some a)) (ht : Yields next s' as) :
      Yields next s (a :: as)

theorem pulls_none {next : σ → σ × Option α} {s s' : σ} (h : next s = (s', none)) (n : Nat) :
    pulls next n s = [] := by
  cases n with
  | zero => rfl
  | succ n => rw [pulls, h]

theorem pulls_some {next : σ → σ × Option α} {s s' : σ} {a : α} (h : next s = (s', some a))
    (n : Nat) : pulls next (n + 1) s = a :: pulls next n s' := by
  rw [pulls, h]

/-- The first calls give the first results. -/
theorem Yields.pulls_eq {next : σ → σ × Option α} {s : σ} {as : List α} (h : Yields next s as)
    (n : Nat) : pulls next n s = as.take n := by
  induction h generalizing n with
  | done h => rw [pulls_none h, List.take_nil]
  | more h _ ih =>
    cases n with
    | zero => rfl
    | succ n => rw [pulls_some h, List.take_succ_cons, ih]

/-- An iterator inside another one. -/
theorem Yields.map {next : σ → σ × Option α} {next' : τ → τ × Option β} {f : σ → τ} {g : α → β}
    (hf : ∀ s, next' (f s) = (f (next s).1, (next s).2.map g)) {s : σ} {as : List α}
    (h : Yields next s as) : Yields next' (f s) (as.map g) := by
  induction h with
  | @done s s' h =>
    have h' : next' (f s) = (f s', none) := by
      rw [hf, h]
      rfl
    exact .done h'
  | @more s s' a as h _ ih =>
    have h' : next' (f s) = (f s', some (g a)) := by
      rw [hf, h]
      rfl
    exact .more h' ih

/-- **An iterator that makes progress ends.** As long as it gives results the invariant holds and
the measure gets smaller; what it gives has the property `P` of what the state before promises. -/
theorem exists_yields {next : σ → σ × Option α} {Inv : σ → Prop} {P : σ → List α → Prop}
    (measure : σ → Nat)
    (hnone : ∀ s s', Inv s → next s = (s', none) → P s [])
    (hsome : ∀ s s' a, Inv s → next s = (s', some a) →
      Inv s' ∧ measure s' < measure s ∧ ∀ as, P s' as → P s (a :: as))
    {s : σ} (h : Inv s) : ∃ as, Yields next s as ∧ P s as := by
  induction hm : measure s using Nat.strongRecOn generalizing s with
  | _ m ih =>
    rcases hn : next s with ⟨s', _ | a⟩
    · exact ⟨[], .done hn, hnone s s' h hn⟩
    · obtain ⟨hI, hlt, hP⟩ := hsome s s' a h hn
      obtain ⟨as, hy, has⟩ := ih (measure s') (hm ▸ hlt) hI rfl
      exact ⟨a :: as, .more hn hy, hP as has⟩

/-! ## Calls that may not return -/

/-- The calls return and give the results of the list, one after the other, and then none. A call
that does not return is `none`. -/
inductive Iterates (next : σ → Option (σ × Option α)) : σ → List α → Prop
  | done {s s' : σ} (h : next s = some (s', none)) : Iterates next s []
  | more {s s' : σ} {a : α} {as : List α} (h : next s = some (s', some a))
      (ht : Iterates next s' as) : Iterates next s (a :: as)

/-- What is done with the results of an iterator. -/
theorem Iterates.map {next : σ → Option (σ × Option α)} {next' : σ → Option (σ × Option β)}
    {g : α → β} (hg : ∀ s, next' s = (next s).map fun r => (r.1, r.2.map g)) {s : σ} {as : List α}
    (h : Iterates next s as) : Iterates next' s (as.map g) := by
  induction h with
  | @done s s' h =>
    have h' : next' s = some (s', none) := by
      rw [hg, h]
      rfl
    exact .done h'
  | @more s s' a as h _ ih =>
    have h' : next' s = some (s', some (g a)) := by
      rw [hg, h]
      rfl
    exact .more h' ih

/-- What holds when a call has no result holds when the iteration ends. -/
theorem Iterates.ends {next : σ → Option (σ × Option α)} {P : Prop} (Inv : σ → Prop)
    (hstep : ∀ s s' o, Inv s → next s = some (s', o) → Inv s' ∧ (o = none → P)) {s : σ}
    {as : List α} (hi : Iterates next s as) (h : Inv s) : P := by
  induction hi with
  | done hn => exact (hstep _ _ _ h hn).2 rfl
  | more hn _ ih => exact ih (hstep _ _ _ h hn).1

/-! ## All results -/

/-- What holds of every result. -/
theorem forall_mem_pulls {next : σ → σ × Option α} {Inv : σ → Prop} {P : α → Prop}
    (hsome : ∀ s s' a, Inv s → next s = (s', some a) → Inv s' ∧ P a) {s : σ} (h : Inv s) (n : Nat) :
    ∀ a ∈ pulls next n s, P a := by
  induction n generalizing s with
  | zero => exact List.forall_mem_nil P
  | succ n ih =>
    rcases hn : next s with ⟨s', _ | a⟩
    · rw [pulls_none hn]
      exact List.forall_mem_nil P
    · obtain ⟨hs', hP⟩ := hsome s s' a h hn
      rw [pulls_some hn]
      exact List.forall_mem_cons.mpr ⟨hP, ih hs'⟩

/-- An iterator that always gives a result gives as many as there are calls. -/
theorem length_pulls {next : σ → σ × Option α} {Inv : σ → Prop}
    (hsome : ∀ s, Inv s → ∃ s' a, next s = (s', some a) ∧ Inv s') {s : σ} (h : Inv s) (n : Nat) :
    (pulls next n s).length = n := by
  induction n generalizing s with
  | zero => rfl
  | succ n ih =>
    obtain ⟨s', a, hn, hs'⟩ := hsome s h
    rw [pulls_some hn, List.length_cons, ih hs']

end Hdb

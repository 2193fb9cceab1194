import Mathlib

/-!
# Runs of a transition system

A system is a partial step function: `step s a = none` when the action `a` is not possible in
the state `s`. A run performs a list of actions. Invariants are proved for one step and carried
along a run, either on every run or on the runs all of whose steps meet a condition on the state
before the step.
-/

namespace Hdb

variable {σ α : Type*}

/-- Perform the actions in turn. -/
def run (step : σ → α → Option σ) : σ → List α → Option σ
  | s, [] => some s
  | s, a :: as => (step s a).bind fun s' => run step s' as

theorem run_nil (step : σ → α → Option σ) (s : σ) : run step s [] = some s :=
  rfl

theorem run_cons (step : σ → α → Option σ) (s : σ) (a : α) (as : List α) :
    run step s (a :: as) = (step s a).bind fun s' => run step s' as :=
  rfl

/-- Every step of the run meets the condition `ok`. -/
def Along (step : σ → α → Option σ) (ok : σ → α → Prop) : σ → List α → Prop
  | _, [] => True
  | s, a :: as => ok s a ∧ ∀ s' ∈ step s a, Along step ok s' as

instance instDecidableAlong (step : σ → α → Option σ) (ok : σ → α → Prop)
    [∀ s a, Decidable (ok s a)] :
    (s : σ) → (as : List α) → Decidable (Along step ok s as)
  | _, [] => inferInstanceAs (Decidable True)
  | s, a :: as =>
    have : ∀ s', Decidable (Along step ok s' as) := fun s' => instDecidableAlong step ok s' as
    inferInstanceAs (Decidable (ok s a ∧ ∀ s' ∈ step s a, Along step ok s' as))

theorem run_append (step : σ → α → Option σ) (s : σ) (as bs : List α) :
    run step s (as ++ bs) = (run step s as).bind fun s' => run step s' bs := by
  induction as generalizing s with
  | nil => rfl
  | cons a as ih =>
    simp only [List.cons_append, run_cons]
    cases step s a with
    | none => rfl
    | some s' => exact ih s'

/-- Actions that meet the condition in every state. -/
theorem along_of_forall {step : σ → α → Option σ} {ok : σ → α → Prop} {as : List α}
    (h : ∀ a ∈ as, ∀ s, ok s a) (s : σ) : Along step ok s as := by
  induction as generalizing s with
  | nil => trivial
  | cons a as ih =>
    exact ⟨h a List.mem_cons_self s,
      fun s' _ => ih (fun b hb => h b (List.mem_cons_of_mem a hb)) s'⟩

theorem along_true (step : σ → α → Option σ) (s : σ) (as : List α) :
    Along step (fun _ _ => True) s as :=
  along_of_forall (fun _ _ _ => trivial) s

/-- **An invariant of the steps that meet a condition holds along the runs that meet it.** -/
theorem run_invariant_along {step : σ → α → Option σ} {ok : σ → α → Prop} {I : σ → Prop}
    (hstep : ∀ s a s', I s → ok s a → step s a = some s' → I s') {s s' : σ} {as : List α}
    (hok : Along step ok s as) (hs : I s) (hrun : run step s as = some s') : I s' := by
  induction as generalizing s with
  | nil =>
    cases hrun
    exact hs
  | cons a as ih =>
    obtain ⟨t, ht, hrun⟩ := Option.bind_eq_some_iff.mp hrun
    exact ih (hok.2 t ht) (hstep s a t hs hok.1 ht) hrun

/-- **An invariant of every step holds along every run.** -/
theorem run_invariant {step : σ → α → Option σ} {I : σ → Prop}
    (hstep : ∀ s a s', I s → step s a = some s' → I s') {s s' : σ} {as : List α} (hs : I s)
    (hrun : run step s as = some s') : I s' :=
  run_invariant_along (fun s a s' hI _ h => hstep s a s' hI h) (along_true step s as) hs hrun

/-- **Progress.** If the steps that meet the condition are possible from the states of an invariant,
and keep it, so are the runs that meet it. -/
theorem run_progress {step : σ → α → Option σ} {ok : σ → α → Prop} {I : σ → Prop}
    (hstep : ∀ s a, I s → ok s a → ∃ s', step s a = some s' ∧ I s') {s : σ} {as : List α}
    (hok : Along step ok s as) (hs : I s) : ∃ s', run step s as = some s' ∧ I s' := by
  induction as generalizing s with
  | nil => exact ⟨s, rfl, hs⟩
  | cons a as ih =>
    obtain ⟨t, ht, hI⟩ := hstep s a hs hok.1
    obtain ⟨s', hs', hI'⟩ := ih (hok.2 t ht) hI
    exact ⟨s', by rw [run_cons, ht]; exact hs', hI'⟩

/-- **Two systems that stay related.** If every step that meets the condition is possible in both or
in neither, and keeps them related, so are the runs that meet it. -/
theorem run_rel {τ : Type*} {step : σ → α → Option σ} {step' : τ → α → Option τ}
    {ok : σ → α → Prop} {R : σ → τ → Prop}
    (hstep : ∀ s t a, R s t → ok s a → Option.Rel R (step s a) (step' t a)) {s : σ} {t : τ}
    {as : List α} (hok : Along step ok s as) (h : R s t) :
    Option.Rel R (run step s as) (run step' t as) := by
  induction as generalizing s t with
  | nil => exact Option.Rel.some h
  | cons a as ih =>
    have hrel := hstep s t a h hok.1
    rw [run_cons, run_cons]
    cases hs : step s a with
    | none =>
      cases ht : step' t a with
      | none => exact Option.Rel.none
      | some t' =>
        rw [hs, ht] at hrel
        cases hrel
    | some s' =>
      cases ht : step' t a with
      | none =>
        rw [hs, ht] at hrel
        cases hrel
      | some t' =>
        rw [hs, ht] at hrel
        cases hrel with
        | some h' => exact ih (hok.2 s' hs) h'

/-! ## Small sets of processes

Runs on fixed inputs number their processes in `Fin 1`, `Fin 2` and `Fin 3`. With these instances
named, a numeral there is the same term in every module. -/

instance neZero_one : NeZero 1 := ⟨Nat.one_ne_zero⟩

instance neZero_two : NeZero 2 := ⟨Nat.succ_ne_zero 1⟩

instance neZero_three : NeZero 3 := ⟨Nat.succ_ne_zero 2⟩

end Hdb

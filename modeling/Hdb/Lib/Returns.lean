import Mathlib.Data.List.Basic
import Mathlib.Tactic.Common

/-!
# Computations that return

`Returns x P` says of a computation that may raise an error that it does not, and that its result
has the property `P`. The rules follow the way the computation is put together.
-/

namespace Hdb

variable {ε α β γ : Type}

/-- The computation returns, and what it returns is a `P`. -/
def Returns (x : Except ε α) (P : α → Prop) : Prop := ∃ a, x = .ok a ∧ P a

theorem returns_ok {P : α → Prop} {a : α} (h : P a) : Returns (Except.ok a : Except ε α) P :=
  ⟨a, rfl, h⟩

theorem returns_pure {P : α → Prop} {a : α} (h : P a) : Returns (pure a : Except ε α) P :=
  ⟨a, rfl, h⟩

@[simp] theorem ok_bind (a : α) (f : α → Except ε β) : (Except.ok a >>= f) = f a := rfl

@[simp] theorem error_bind (e : ε) (f : α → Except ε β) :
    ((Except.error e : Except ε α) >>= f) = .error e := rfl

theorem Returns.mono {P Q : α → Prop} {x : Except ε α} (h : Returns x P) (hPQ : ∀ a, P a → Q a) :
    Returns x Q := by
  obtain ⟨a, ha, hP⟩ := h
  exact ⟨a, ha, hPQ a hP⟩

theorem returns_bind {P : α → Prop} {Q : β → Prop} {x : Except ε α} {f : α → Except ε β}
    (hx : Returns x P) (hf : ∀ a, P a → Returns (f a) Q) : Returns (x >>= f) Q := by
  obtain ⟨a, rfl, hP⟩ := hx
  exact hf a hP

/-- **A loop over a list returns when each of its steps does**, and keeps what each step keeps. -/
theorem returns_mapM {P : β → Prop} {f : α → Except ε β} {key : α → γ} {key' : β → γ} {as : List α}
    (h : ∀ a ∈ as, Returns (f a) fun b => P b ∧ key' b = key a) :
    Returns (as.mapM f) fun bs => (∀ b ∈ bs, P b) ∧ bs.map key' = as.map key := by
  induction as with
  | nil => exact returns_pure ⟨List.forall_mem_nil _, rfl⟩
  | cons a as ih =>
    rw [List.mapM_cons]
    refine returns_bind (h a List.mem_cons_self) fun b hb => ?_
    refine returns_bind (ih fun a' ha' => h a' (List.mem_cons_of_mem a ha')) fun bs hbs => ?_
    refine returns_pure ⟨List.forall_mem_cons.mpr ⟨hb.1, hbs.1⟩, ?_⟩
    rw [List.map_cons, List.map_cons, hb.2, hbs.2]

/-- **What every step keeps holds after a loop**, and the loop returns. -/
theorem returns_foldlM {P : β → Prop} {f : β → α → Except ε β} {as : List α} {b : β}
    (hstep : ∀ b, ∀ a ∈ as, P b → Returns (f b a) P) (hb : P b) : Returns (as.foldlM f b) P := by
  induction as generalizing b with
  | nil => exact returns_pure hb
  | cons a as ih =>
    have hrest : ∀ b, ∀ a' ∈ as, P b → Returns (f b a') P := fun b a' ha' =>
      hstep b a' (List.mem_cons_of_mem a ha')
    rw [List.foldlM_cons]
    exact returns_bind (hstep b a List.mem_cons_self hb) fun _ hb' => ih hrest hb'

end Hdb

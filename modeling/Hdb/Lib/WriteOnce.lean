import Mathlib.Logic.Function.Basic
import Mathlib.Data.List.Basic

/-!
# Writing once

A table whose entries are blank until they are written, and then stay. `putAll` writes one value at
a list of keys and stops at the first key that has another value. Writing twice is writing once, and
nothing but the keys listed is touched, wherever it stops.
-/

namespace Hdb.WriteOnce

variable {α β : Type*} {blank v : β} {m : α → β} {a b : α} {as bs : List α}

/-- The entry of `a` is written, with another value than `v`. -/
def Taken (blank v : β) (m : α → β) (a : α) : Prop := m a ≠ blank ∧ m a ≠ v

theorem not_taken_self (h : m a = v) : ¬ Taken blank v m a := fun ht => ht.2 h

variable [DecidableEq α]

/-- Writing `v` somewhere takes nothing from a writer of `v`. -/
theorem taken_update : Taken blank v (Function.update m a v) b ↔ Taken blank v m b ∧ b ≠ a := by
  unfold Taken
  by_cases hb : b = a
  · subst hb
    simp
  · rw [Function.update_of_ne hb]
    simp [hb]

variable [DecidableEq β]

instance (m : α → β) (a : α) : Decidable (Taken blank v m a) :=
  inferInstanceAs (Decidable (_ ∧ _))

/-- Write `v` at the keys in turn, up to the first one that is taken. -/
def putAll (blank v : β) : (α → β) → List α → (α → β) × Option α
  | m, [] => (m, none)
  | m, a :: as =>
    if Taken blank v m a then (m, some a) else putAll blank v (Function.update m a v) as

theorem putAll_cons : putAll blank v m (a :: as) =
    if Taken blank v m a then (m, some a) else putAll blank v (Function.update m a v) as :=
  rfl

theorem putAll_unchanged (h : a ∉ as) : (putAll blank v m as).1 a = m a := by
  induction as generalizing m with
  | nil => rfl
  | cons b as ih =>
    rw [List.mem_cons, not_or] at h
    rw [putAll_cons]
    split_ifs
    · rfl
    · rw [ih h.2, Function.update_of_ne h.1]

/-- An entry with the value keeps it. -/
theorem putAll_of_eq (h : m a = v) : (putAll blank v m as).1 a = v := by
  induction as generalizing m with
  | nil => exact h
  | cons b as ih =>
    rw [putAll_cons]
    split_ifs
    · exact h
    · apply ih
      by_cases ha : a = b
      · rw [ha, Function.update_self]
      · rw [Function.update_of_ne ha, h]

theorem putAll_mem (hnone : (putAll blank v m as).2 = none) (h : a ∈ as) :
    (putAll blank v m as).1 a = v := by
  induction as generalizing m with
  | nil => cases h
  | cons b as ih =>
    rw [putAll_cons] at hnone ⊢
    split_ifs at hnone ⊢ with ht
    rcases List.mem_cons.mp h with rfl | h
    · exact putAll_of_eq (Function.update_self ..)
    · exact ih hnone h

theorem putAll_eq_none : (putAll blank v m as).2 = none ↔ ∀ a ∈ as, ¬ Taken blank v m a := by
  induction as generalizing m with
  | nil => simp [putAll]
  | cons b as ih =>
    rw [putAll_cons]
    split_ifs with ht
    · simp [ht]
    · rw [ih, List.forall_mem_cons]
      refine ⟨fun h => ⟨ht, fun a ha hta => ?_⟩, fun h a ha hta => h.2 a ha (taken_update.mp hta).1⟩
      by_cases hab : a = b
      · exact ht (hab ▸ hta)
      · exact h a ha (taken_update.mpr ⟨hta, hab⟩)

theorem putAll_append (h : (putAll blank v m as).2 = none) :
    putAll blank v m (as ++ bs) = putAll blank v (putAll blank v m as).1 bs := by
  induction as generalizing m with
  | nil => rfl
  | cons a as ih =>
    rw [List.cons_append, putAll_cons, putAll_cons]
    rw [putAll_cons] at h
    split_ifs at h ⊢ with ht
    exact ih h

theorem putAll_append_of_some (h : (putAll blank v m as).2 = some a) :
    putAll blank v m (as ++ bs) = putAll blank v m as := by
  induction as generalizing m with
  | nil => cases h
  | cons b as ih =>
    rw [List.cons_append, putAll_cons, putAll_cons]
    rw [putAll_cons] at h
    split_ifs at h ⊢ with ht
    · rfl
    · exact ih h

/-- **Writing twice is writing once**, also where it stops. -/
theorem putAll_again : putAll blank v (putAll blank v m as).1 as = putAll blank v m as := by
  induction as generalizing m with
  | nil => rfl
  | cons a as ih =>
    rw [putAll_cons (m := m)]
    split_ifs with ht
    · rw [putAll_cons, if_pos ht]
    · have ha : (putAll blank v (Function.update m a v) as).1 a = v :=
        putAll_of_eq (Function.update_self ..)
      rw [putAll_cons, if_neg (not_taken_self ha), Function.update_eq_self_iff.mpr ha.symm]
      exact ih

end Hdb.WriteOnce

import Mathlib.Data.Nat.ModEq
import Mathlib.Tactic.Common

/-!
# A ring for a window of numbers

Items are numbered from one on, and a ring of `cap` slots has those of a window: the numbers from
`head` on, `cap` of them. The slot of a number is the number modulo `cap`, so that two numbers of
the window never share a slot, and the slot that the head leaves is the one of the next number
behind the window.

`window cap head q` reads the ring `q` by numbers. To write a slot is to write the number
(`window_put`), and to clear the slot of the head is to move the window (`window_release`).
-/

namespace Hdb.Window

variable {α : Type*} {cap head s t : ℕ} {q : ℕ → Option α} {x : α}

/-- The slot of a number. -/
def slot (cap s : ℕ) : ℕ := (s - 1) % cap

/-- The numbers of the window. -/
def Inside (cap head s : ℕ) : Prop := head ≤ s ∧ s < head + cap

instance (cap head s : ℕ) : Decidable (Inside cap head s) := inferInstanceAs (Decidable (_ ∧ _))

/-- What the ring has for a number. -/
def window (cap head : ℕ) (q : ℕ → Option α) (s : ℕ) : Option α :=
  if Inside cap head s then q (slot cap s) else none

theorem slot_lt (hcap : 0 < cap) (s : ℕ) : slot cap s < cap := Nat.mod_lt _ hcap

/-- The next number has the next slot. -/
theorem slot_succ (hs : 1 ≤ s) : slot cap (s + 1) = (slot cap s + 1) % cap := by
  obtain ⟨s, rfl⟩ := Nat.exists_eq_add_of_le' hs
  rw [slot, slot, Nat.add_sub_cancel, Nat.add_sub_cancel, Nat.mod_add_mod]

/-- The slot before that of the next number. -/
theorem slot_pred (hcap : 0 < cap) (hs : 1 ≤ s) :
    (slot cap (s + 1) + cap - 1) % cap = slot cap s := by
  obtain ⟨s, rfl⟩ := Nat.exists_eq_add_of_le' hs
  have hlt := slot_lt hcap (s + 1)
  rw [slot_succ (by omega)]
  by_cases hlast : slot cap (s + 1) + 1 = cap
  · rw [hlast, Nat.mod_self, Nat.zero_add, Nat.mod_eq_of_lt (by omega)]
    omega
  · rw [Nat.mod_eq_of_lt (show slot cap (s + 1) + 1 < cap by omega), Nat.add_right_comm,
      Nat.add_sub_cancel, Nat.add_mod_right, Nat.mod_eq_of_lt hlt]

/-- Two numbers of a window do not share a slot. -/
theorem slot_inj (hhead : 1 ≤ head) (hs : Inside cap head s) (ht : Inside cap head t)
    (h : slot cap s = slot cap t) : s = t := by
  obtain ⟨hs₁, hs₂⟩ := hs
  obtain ⟨ht₁, ht₂⟩ := ht
  wlog hle : s ≤ t generalizing s t
  · exact (this h.symm ht₁ ht₂ hs₁ hs₂ (by omega)).symm
  have hdvd : cap ∣ (t - 1) - (s - 1) := (Nat.modEq_iff_dvd' (by omega)).mp h
  have hzero : (t - 1) - (s - 1) = 0 := Nat.eq_zero_of_dvd_of_lt hdvd (by omega)
  omega

theorem window_of_inside (h : Inside cap head s) : window cap head q s = q (slot cap s) := if_pos h

theorem window_eq_none (h : ¬ Inside cap head s) : window cap head q s = none := if_neg h

theorem inside_of_window (h : window cap head q s = some x) : Inside cap head s := by
  by_contra hout
  rw [window_eq_none hout] at h
  cases h

/-- To write a slot is to write the number. -/
theorem window_put (hhead : 1 ≤ head) (hs : Inside cap head s) (x : Option α) :
    window cap head (Function.update q (slot cap s) x) =
      Function.update (window cap head q) s x := by
  funext t
  by_cases hts : t = s
  · rw [hts, Function.update_self, window_of_inside hs, Function.update_self]
  · rw [Function.update_of_ne hts]
    by_cases ht : Inside cap head t
    · rw [window_of_inside ht, window_of_inside ht,
        Function.update_of_ne fun h => hts (slot_inj hhead ht hs h)]
    · rw [window_eq_none ht, window_eq_none ht]

/-- To clear the slot of the head is to move the window. -/
theorem window_release (hcap : 0 < cap) (hhead : 1 ≤ head) :
    window cap (head + 1) (Function.update q (slot cap head) none) =
      Function.update (window cap head q) head none := by
  funext t
  by_cases ht : t = head
  · rw [ht, Function.update_self, window_eq_none fun h => absurd h.1 (by omega)]
  rw [Function.update_of_ne ht]
  by_cases hlast : t = head + cap
  · -- The number behind the old window has the slot of the old head.
    have hslot : slot cap t = slot cap head := by
      rw [hlast, slot, slot, Nat.sub_add_comm hhead, Nat.add_mod_right]
    rw [window_of_inside ⟨by omega, by omega⟩, hslot, Function.update_self,
      window_eq_none fun h => absurd h.2 (by omega)]
  · by_cases hin : Inside cap (head + 1) t
    · have hin' : Inside cap head t := by
        obtain ⟨h₁, h₂⟩ := hin
        exact ⟨by omega, by omega⟩
      have hne : slot cap t ≠ slot cap head := fun h =>
        ht (slot_inj hhead hin' ⟨le_refl head, by omega⟩ h)
      rw [window_of_inside hin, window_of_inside hin', Function.update_of_ne hne]
    · have hin' : ¬ Inside cap head t := by
        rintro ⟨h₁, h₂⟩
        exact hin ⟨by omega, by omega⟩
      rw [window_eq_none hin, window_eq_none hin']

end Hdb.Window

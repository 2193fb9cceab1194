import Mathlib.Logic.Function.Iterate
import Mathlib.Order.Nat

/-!
# The first element of an orbit with a property

A search goes from an element to the next one until a test holds. Two tests end the same search at
the same place exactly when they agree on every element the search with the first one looks at.
-/

namespace Hdb

variable {α : Type*} {next : α → α} {p q : α → Prop} {x y : α}

/-- `y` is the first element from `x` on with the property `p`. -/
def FirstFrom (next : α → α) (p : α → Prop) (x y : α) : Prop :=
  ∃ k, y = next^[k] x ∧ p y ∧ ∀ i < k, ¬ p (next^[i] x)

theorem FirstFrom.here (h : p x) : FirstFrom next p x x :=
  ⟨0, rfl, h, fun _ hi => absurd hi (Nat.not_lt_zero _)⟩

theorem FirstFrom.there (hx : ¬ p x) (h : FirstFrom next p (next x) y) : FirstFrom next p x y := by
  obtain ⟨k, hy, hp, hno⟩ := h
  refine ⟨k + 1, hy, hp, fun i hi => ?_⟩
  cases i with
  | zero => exact hx
  | succ i => exact hno i (Nat.lt_of_succ_lt_succ hi)

/-- **Two tests end a search at the same place** when they agree on what the first one looks at. -/
theorem firstFrom_iff_agree (hp : FirstFrom next p x y) :
    FirstFrom next q x y ↔
      ∀ k, (∀ i < k, ¬ p (next^[i] x)) → (p (next^[k] x) ↔ q (next^[k] x)) := by
  obtain ⟨k, rfl, hpk, hno⟩ := hp
  constructor
  · rintro ⟨j, hj, hqk, hnoq⟩
    -- neither search is past the end of the other one
    obtain hlt | rfl | hlt := lt_trichotomy j k
    · exact absurd hpk (hj ▸ hno j hlt)
    · intro i hi
      obtain hij | rfl | hji := lt_trichotomy i j
      · exact iff_of_false (hno i hij) (hnoq i hij)
      · exact iff_of_true hpk hqk
      · exact absurd hpk (hi j hji)
    · exact absurd hqk (hnoq k hlt)
  · intro h
    exact ⟨k, rfl, (h k hno).mp hpk,
      fun i hi hq => hno i hi ((h i fun j hj => hno j (hj.trans hi)).mpr hq)⟩

end Hdb

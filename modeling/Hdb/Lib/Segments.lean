import Mathlib.Tactic

/-!
# Bit vectors in segments

A long vector of bits is stored as a list of segments of varying length: words of a compressed
bitmap, chunks, runs. Given the length of a segment and its bits, `total` and `bitAt` are the
length and the bits of the vector. Storing is about two things: where the vector is cut does not
matter, and replacing a segment changes the bits of that segment only.
-/

namespace Hdb.Segments

variable {α : Type*} (len : α → Nat) (bit : α → Nat → Bool)

/-- The number of bits. -/
def total : List α → Nat
  | [] => 0
  | s :: ss => len s + total ss

/-- The bit at a position, `false` past the end. -/
def bitAt : List α → Nat → Bool
  | [], _ => false
  | s :: ss, p => if p < len s then bit s p else bitAt ss (p - len s)

@[simp] theorem total_nil : total len ([] : List α) = 0 := rfl

@[simp] theorem total_cons (s : α) (ss : List α) :
    total len (s :: ss) = len s + total len ss := by
  rw [total]

theorem bitAt_cons (s : α) (ss : List α) (p : Nat) :
    bitAt len bit (s :: ss) p = if p < len s then bit s p else bitAt len bit ss (p - len s) := rfl

@[simp] theorem total_append (ss ts : List α) :
    total len (ss ++ ts) = total len ss + total len ts := by
  induction ss with
  | nil => simp
  | cons s ss ih => simp [ih, Nat.add_assoc]

variable {len bit}

theorem bitAt_append (ss ts : List α) (p : Nat) :
    bitAt len bit (ss ++ ts) p =
      if p < total len ss then bitAt len bit ss p else bitAt len bit ts (p - total len ss) := by
  induction ss generalizing p with
  | nil => simp
  | cons s ss ih =>
    simp only [List.cons_append, bitAt_cons, total_cons]
    by_cases hs : p < len s
    · have hlt : p < len s + total len ss := by omega
      simp [hs, hlt]
    · rw [if_neg hs, if_neg hs, ih, Nat.sub_sub]
      by_cases ht : p - len s < total len ss
      · rw [if_pos ht, if_pos (by omega)]
      · rw [if_neg ht, if_neg (by omega)]

theorem bitAt_eq_false {ss : List α} {p : Nat} (h : total len ss ≤ p) :
    bitAt len bit ss p = false := by
  induction ss generalizing p with
  | nil => rfl
  | cons s ss ih =>
    rw [total_cons] at h
    rw [bitAt_cons, if_neg (by omega)]
    exact ih (by omega)

/-- Segments of zeros at the end do not matter. -/
theorem bitAt_append_of_false (ss : List α) {ts : List α} (h : ∀ p, bitAt len bit ts p = false)
    (p : Nat) : bitAt len bit (ss ++ ts) p = bitAt len bit ss p := by
  rw [bitAt_append]
  split_ifs with hp
  · rfl
  · rw [h, bitAt_eq_false (by omega)]

@[simp] theorem bitAt_singleton (s : α) (p : Nat) :
    bitAt len bit [s] p = (decide (p < len s) && bit s p) := by
  by_cases h : p < len s <;> simp [bitAt, h]

/-- The segments `ts` are `ss` with the bit at `k` set. -/
def SetBit (len : α → Nat) (bit : α → Nat → Bool) (ss ts : List α) (k : Nat) : Prop :=
  total len ts = total len ss ∧ ∀ p, bitAt len bit ts p = (bitAt len bit ss p || decide (p = k))

/-- **Setting a bit in some of the segments** sets it in the whole. -/
theorem SetBit.frame {ss ts : List α} {k : Nat} (h : SetBit len bit ss ts k)
    (hk : k < total len ss) (xs ys : List α) :
    SetBit len bit (xs ++ (ss ++ ys)) (xs ++ (ts ++ ys)) (total len xs + k) := by
  refine ⟨by simp [h.1], ?_⟩
  intro p
  simp only [bitAt_append, h.1]
  by_cases hx : p < total len xs
  · have hne : p ≠ total len xs + k := by omega
    simp [hx, hne]
  · rw [if_neg hx, if_neg hx]
    by_cases hs : p - total len xs < total len ss
    · rw [if_pos hs, if_pos hs, h.2]
      congr 1
      exact decide_eq_decide.mpr (by omega)
    · have hne : p ≠ total len xs + k := by omega
      rw [if_neg hs, if_neg hs]
      simp [hne]

/-- The segments with the same bits. -/
def SameBits (len : α → Nat) (bit : α → Nat → Bool) (ss ts : List α) : Prop :=
  total len ts = total len ss ∧ ∀ p, bitAt len bit ts p = bitAt len bit ss p

theorem SameBits.refl (ss : List α) : SameBits len bit ss ss := ⟨rfl, fun _ => rfl⟩

theorem SameBits.frame {ss ts : List α} (h : SameBits len bit ss ts) (xs ys : List α) :
    SameBits len bit (xs ++ (ss ++ ys)) (xs ++ (ts ++ ys)) := by
  refine ⟨by simp [h.1], ?_⟩
  intro p
  simp only [bitAt_append, h.1, h.2]

theorem SameBits.setBit {ss ts us : List α} {k : Nat} (h : SameBits len bit ss ts)
    (h' : SetBit len bit ts us k) : SetBit len bit ss us k := by
  refine ⟨h'.1.trans h.1, ?_⟩
  intro p
  rw [h'.2, h.2]

theorem SetBit.sameBits {ss ts us : List α} {k : Nat} (h : SetBit len bit ss ts k)
    (h' : SameBits len bit ts us) : SetBit len bit ss us k := by
  refine ⟨h'.1.trans h.1, ?_⟩
  intro p
  rw [h'.2, h.2]

/-- The segments `ts` are `ss` without the first `n` bits. -/
def Drop (len : α → Nat) (bit : α → Nat → Bool) (ss ts : List α) (n : Nat) : Prop :=
  total len ss = n + total len ts ∧ ∀ p, bitAt len bit ts p = bitAt len bit ss (p + n)

theorem Drop.refl (ss : List α) : Drop len bit ss ss 0 := ⟨(Nat.zero_add _).symm, fun _ => rfl⟩

theorem Drop.trans {ss ts us : List α} {m n : Nat} (h : Drop len bit ss ts m)
    (h' : Drop len bit ts us n) : Drop len bit ss us (m + n) := by
  refine ⟨by rw [h.1, h'.1, Nat.add_assoc], ?_⟩
  intro p
  rw [h'.2, h.2, Nat.add_assoc, Nat.add_comm n m]

theorem Drop.append {ss ts : List α} {n : Nat} (h : Drop len bit ss ts n) (xs : List α) :
    Drop len bit (ss ++ xs) (ts ++ xs) n := by
  have hlen := h.1
  refine ⟨by rw [total_append, total_append, h.1, Nat.add_assoc], ?_⟩
  intro p
  rw [bitAt_append, bitAt_append]
  by_cases hp : p < total len ts
  · rw [if_pos hp, if_pos (by omega), h.2]
  · rw [if_neg hp, if_neg (by omega)]
    congr 1
    omega

theorem drop_cons (s : α) (ss : List α) : Drop len bit (s :: ss) ss (len s) := by
  refine ⟨total_cons .., ?_⟩
  intro p
  rw [bitAt_cons, if_neg (by omega), Nat.add_sub_cancel]

/-- The first segment gets shorter. -/
theorem drop_head {s s' : α} {n : Nat} (ss : List α) (hlen : len s = n + len s')
    (hbit : ∀ p < len s', bit s' p = bit s (p + n)) : Drop len bit (s :: ss) (s' :: ss) n := by
  refine ⟨by rw [total_cons, total_cons, hlen, Nat.add_assoc], ?_⟩
  intro p
  rw [bitAt_cons, bitAt_cons]
  by_cases hp : p < len s'
  · rw [if_pos hp, if_pos (by omega), hbit p hp]
  · rw [if_neg hp, if_neg (by omega)]
    congr 1
    omega

end Hdb.Segments

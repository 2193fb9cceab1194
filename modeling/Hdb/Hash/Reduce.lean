import Mathlib.Tactic

/-!
# Reducing a hash to a segment

A row goes to the segment its hash is reduced to. With jump consistent hashing the segment is the
last number below the number of segments in an increasing sequence of jumps, and the sequence
depends on the hash only. More segments mean a later place in the same sequence: a row stays where
it is, or moves to one of the new segments.

The jumps are computed with a floating-point division. All that is used of it is that it goes
forward.

Main results: `jumpConsistentHash_lt`, the segment is one of those there are, and
`cdbhashreduce_expand`, what an expansion moves.
-/

namespace Hdb.Hash

/-- The scaled division of `jump_consistent_hash`: the next `j`, from `b` and the key. -/
structure Jump where
  next : ℕ → UInt64 → ℕ
  lt_next : ∀ b key, b < next b key

/-- The linear congruential step of the key. -/
def nextKey (key : UInt64) : UInt64 := key * 2862933555777941757 + 1

variable (jump : Jump)

/-- The loop of `jump_consistent_hash`. -/
def jumpLoop (numSegments : ℤ) (b : ℤ) (key : UInt64) (j : ℕ) : ℤ :=
  if j < numSegments then jumpLoop numSegments j (nextKey key) (jump.next j (nextKey key)) else b
termination_by (numSegments - j).toNat
decreasing_by
  have hlt := jump.lt_next j (nextKey key)
  omega

def jumpConsistentHash (key : UInt64) (numSegments : ℤ) : ℤ := jumpLoop jump numSegments (-1) key 0

inductive CdbHashReduce
  | lazymod
  | bitmask
  | jumpHash
  deriving DecidableEq, Repr

/-- The part of a `CdbHash` the reduction reads. `makeCdbHash` asserts that there are segments. -/
structure CdbHash where
  hash : UInt32
  numsegs : ℕ
  reducealg : CdbHashReduce
  numsegs_pos : 0 < numsegs
  numsegs_lt : numsegs < 2 ^ 31

/-- "verify power of 2" -/
def ispowof2 (numsegs : ℕ) : Bool := numsegs &&& (numsegs - 1) == 0

/-- The reduction `makeCdbHash` chooses. -/
def makeReducealg (numsegs : ℕ) (isLegacyHash : Bool) : CdbHashReduce :=
  if isLegacyHash then if ispowof2 numsegs then .bitmask else .lazymod else .jumpHash

def cdbhashreduce (h : CdbHash) : ℤ :=
  match h.reducealg with
  | .bitmask => ((h.hash.toNat &&& (h.numsegs - 1) : ℕ) : ℤ)
  | .lazymod => ((h.hash.toNat % h.numsegs : ℕ) : ℤ)
  | .jumpHash => jumpConsistentHash jump h.hash.toUInt64 h.numsegs

/-! ## The sequence of jumps -/

variable {j n m : ℕ}

theorem jumpLoop_of_lt (b : ℤ) (key : UInt64) (h : j < n) :
    jumpLoop jump n b key j = jumpLoop jump n j (nextKey key) (jump.next j (nextKey key)) := by
  rw [jumpLoop, if_pos (by exact_mod_cast h)]

theorem jumpLoop_of_ge (b : ℤ) (key : UInt64) (h : n ≤ j) : jumpLoop jump n b key j = b := by
  rw [jumpLoop, if_neg (by exact_mod_cast not_lt.mpr h)]

/-- A loop that has a jump left ends at one of its jumps, below the bound. -/
theorem jumpLoop_mem (b : ℤ) (key : UInt64) (h : j < n) :
    j ≤ jumpLoop jump n b key j ∧ jumpLoop jump n b key j < n := by
  induction hd : n - j using Nat.strong_induction_on generalizing b key j with
  | _ d ih =>
    have hlt := jump.lt_next j (nextKey key)
    rw [jumpLoop_of_lt jump b key h]
    rcases Nat.lt_or_ge (jump.next j (nextKey key)) n with hnext | hnext
    · obtain ⟨hle, hup⟩ := ih (n - jump.next j (nextKey key)) (by omega) j (nextKey key) hnext rfl
      exact ⟨by omega, hup⟩
    · rw [jumpLoop_of_ge jump j (nextKey key) hnext]
      exact ⟨le_rfl, by exact_mod_cast h⟩

/-- **Two bounds see the same jumps**: the loop with the larger one ends at the same place, or at
or past the smaller bound. -/
theorem jumpLoop_mono (b : ℤ) (key : UInt64) (j : ℕ) (hnm : n ≤ m) :
    jumpLoop jump m b key j = jumpLoop jump n b key j ∨
      (n ≤ jumpLoop jump m b key j ∧ jumpLoop jump m b key j < m) := by
  induction hd : n - j using Nat.strong_induction_on generalizing b key j with
  | _ d ih =>
    rcases Nat.lt_or_ge j n with hj | hj
    · -- both loops jump
      have hlt := jump.lt_next j (nextKey key)
      rw [jumpLoop_of_lt jump b key hj, jumpLoop_of_lt jump b key (hj.trans_le hnm)]
      exact ih (n - jump.next j (nextKey key)) (by omega) j (nextKey key) _ rfl
    · rw [jumpLoop_of_ge jump b key hj]
      rcases Nat.lt_or_ge j m with hjm | hjm
      · obtain ⟨hle, hup⟩ := jumpLoop_mem jump b key hjm
        exact .inr ⟨by omega, hup⟩
      · exact .inl (jumpLoop_of_ge jump b key hjm)

/-- **The result is one of the segments.** -/
theorem jumpConsistentHash_lt (key : UInt64) (hn : 0 < n) :
    0 ≤ jumpConsistentHash jump key n ∧ jumpConsistentHash jump key n < n :=
  jumpLoop_mem jump (-1) key hn

/-! ## The reduction -/

/-- Every reduction gives one of the segments. -/
theorem cdbhashreduce_lt (h : CdbHash) :
    0 ≤ cdbhashreduce jump h ∧ cdbhashreduce jump h < h.numsegs := by
  have hpos := h.numsegs_pos
  unfold cdbhashreduce
  cases h.reducealg with
  | lazymod =>
    have hlt : h.hash.toNat % h.numsegs < h.numsegs := Nat.mod_lt _ hpos
    exact ⟨Int.natCast_nonneg _, Int.ofNat_lt.mpr hlt⟩
  | bitmask =>
    have hle : h.hash.toNat &&& (h.numsegs - 1) ≤ h.numsegs - 1 := Nat.and_le_right
    have hlt : h.hash.toNat &&& (h.numsegs - 1) < h.numsegs := by omega
    exact ⟨Int.natCast_nonneg _, Int.ofNat_lt.mpr hlt⟩
  | jumpHash => exact jumpConsistentHash_lt jump _ hpos

/-- A hash after an expansion to `numsegs` segments. -/
def CdbHash.expand (h : CdbHash) (numsegs : ℕ) (hle : h.numsegs ≤ numsegs)
    (hlt : numsegs < 2 ^ 31) : CdbHash :=
  { h with numsegs := numsegs, numsegs_pos := h.numsegs_pos.trans_le hle, numsegs_lt := hlt }

/-- **Consistency.** The result lies among the segments; one more segment gets the row, or it stays;
and an expansion moves a row to a new segment or not at all. -/
theorem cdbhashreduce_expand (jump : Jump) :
    (∀ (key : UInt64) (n : ℕ), 1 ≤ n →
      0 ≤ jumpConsistentHash jump key n ∧ jumpConsistentHash jump key n < n ∧
      (jumpConsistentHash jump key (n + 1 : ℕ) = jumpConsistentHash jump key n ∨
        jumpConsistentHash jump key (n + 1 : ℕ) = n)) ∧
    ∀ (h : CdbHash) (m : ℕ) (hle : h.numsegs ≤ m) (hlt : m < 2 ^ 31), h.reducealg = .jumpHash →
      cdbhashreduce jump (h.expand m hle hlt) = cdbhashreduce jump h ∨
        (h.numsegs ≤ cdbhashreduce jump (h.expand m hle hlt) ∧
          cdbhashreduce jump (h.expand m hle hlt) < m) := by
  refine ⟨fun key n hn => ?_, fun h m hle hlt halg => ?_⟩
  · obtain ⟨hnonneg, hup⟩ := jumpConsistentHash_lt jump key hn
    refine ⟨hnonneg, hup, ?_⟩
    obtain h | ⟨hle, hlt⟩ := jumpLoop_mono jump (-1) key 0 (Nat.le_succ n)
    · exact .inl h
    · refine .inr (le_antisymm ?_ hle)
      rw [Nat.cast_succ] at hlt
      exact Int.lt_add_one_iff.mp hlt
  · have halg' : (h.expand m hle hlt).reducealg = .jumpHash := halg
    unfold cdbhashreduce
    rw [halg, halg']
    exact jumpLoop_mono jump (-1) h.hash.toUInt64 0 hle

theorem shiftRight_lt (key : UInt64) : (key >>> 33).toNat < 2 ^ 31 := by
  have hlt := key.toNat_lt
  have hmod : (33 : UInt64).toNat % 64 = 33 := rfl
  rw [UInt64.toNat_shiftRight, hmod, Nat.shiftRight_eq_div_pow]
  omega

/-- The division without rounding. -/
def exactJump : Jump where
  next b key := (b + 1) * 2 ^ 31 / ((key >>> 33).toNat + 1)
  lt_next _ key :=
    Nat.lt_of_succ_le ((Nat.le_div_iff_mul_le (Nat.succ_pos _)).mpr
      (Nat.mul_le_mul_left _ (Nat.succ_le_of_lt (shiftRight_lt key))))

/-- The hash 1, with two segments. -/
def twoSegments : CdbHash := ⟨1, 2, .jumpHash, by decide, by decide⟩

theorem cdbhashreduce_expand_two :
    (jumpConsistentHash exactJump 1 (2 + 1 : ℕ) = jumpConsistentHash exactJump 1 (2 : ℕ) ∨
      jumpConsistentHash exactJump 1 (2 + 1 : ℕ) = (2 : ℕ)) ∧
    (cdbhashreduce exactJump (twoSegments.expand 3 (by decide) (by decide)) =
        cdbhashreduce exactJump twoSegments ∨
      (twoSegments.numsegs ≤ cdbhashreduce exactJump
        (twoSegments.expand 3 (by decide) (by decide)) ∧
        cdbhashreduce exactJump (twoSegments.expand 3 (by decide) (by decide)) < (3 : ℕ))) := by
  obtain ⟨hresult, hexpand⟩ := cdbhashreduce_expand exactJump
  exact ⟨(hresult 1 2 one_le_two).2.2, hexpand twoSegments 3 _ _ rfl⟩

end Hdb.Hash

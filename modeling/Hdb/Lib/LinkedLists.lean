import Mathlib

/-!
# Circular doubly linked lists

A family of lists whose links are part of the items: every list has a head with two links, every
item has two links of its own, and a list counts its items. An item is in at most one list of the
family.

`Represents m k` says that the links of `m` hold the lists `k`. The operations know only addresses;
`represents_delete`, `represents_append` and `pop_cons` say what they do to the lists, and
`next_eq` what a walk along the links finds.
-/

namespace Hdb

/-- The two links of every head and of every item, and the lengths that the lists keep. -/
structure LinkedLists (L B : Type*) where
  next : L ⊕ B → L ⊕ B
  prev : L ⊕ B → L ⊕ B
  length : L → ℤ

namespace LinkedLists

variable {L B : Type*}

/-- Every link points to itself. -/
def init : LinkedLists L B := ⟨id, id, fun _ => 0⟩

/-- The links lead from `a` through the items `xs` to `z`, and back. -/
def Path (m : LinkedLists L B) : L ⊕ B → List B → L ⊕ B → Prop
  | a, [], z => m.next a = z ∧ m.prev z = a
  | a, b :: bs, z => m.next a = .inr b ∧ m.prev (.inr b) = a ∧ m.Path (.inr b) bs z

structure Represents (m : LinkedLists L B) (k : L → List B) : Prop where
  path : ∀ l, m.Path (.inl l) (k l) (.inl l)
  nodup : ∀ l, (k l).Nodup
  disjoint : ∀ l l' b, b ∈ k l → b ∈ k l' → l = l'
  length : ∀ l, m.length l = (k l).length

/-! ## Paths -/

variable {m m' : LinkedLists L B} {k : L → List B} {l l' : L} {a x z : L ⊕ B} {b : B}
    {xs ys : List B}

theorem path_append : m.Path a (xs ++ b :: ys) z ↔ m.Path a xs (.inr b) ∧ m.Path (.inr b) ys z := by
  induction xs generalizing a with
  | nil => simp [Path, and_assoc]
  | cons c cs ih => simp [Path, ih, and_assoc]

/-- A path depends on the links of its items and on the ends. -/
theorem Path.congr (h : m.Path a xs z) (hnext : m'.next a = m.next a) (hprev : m'.prev z = m.prev z)
    (hitems : ∀ b ∈ xs, m'.next (.inr b) = m.next (.inr b) ∧ m'.prev (.inr b) = m.prev (.inr b)) :
    m'.Path a xs z := by
  induction xs generalizing a with
  | nil => exact ⟨hnext.trans h.1, hprev.trans h.2⟩
  | cons b bs ih =>
    obtain ⟨h1, h2, h3⟩ := h
    have hb := hitems b List.mem_cons_self
    exact ⟨hnext.trans h1, hb.2.trans h2,
      ih h3 hb.1 fun c hc => hitems c (List.mem_cons_of_mem b hc)⟩

theorem Path.prev_mem (h : m.Path a xs z) : m.prev z = a ∨ ∃ b ∈ xs, m.prev z = .inr b := by
  induction xs generalizing a with
  | nil => exact Or.inl h.2
  | cons b bs ih =>
    obtain h | ⟨c, hc, h⟩ := ih h.2.2
    · exact Or.inr ⟨b, List.mem_cons_self, h⟩
    · exact Or.inr ⟨c, List.mem_cons_of_mem b hc, h⟩

theorem Path.next_mem (h : m.Path a xs z) : m.next a = z ∨ ∃ b ∈ xs, m.next a = .inr b := by
  cases xs with
  | nil => exact Or.inl h.1
  | cons b bs => exact Or.inr ⟨b, List.mem_cons_self, h.1⟩

/-- The address of the first item of the rest of a list; behind the last item, its head. -/
def addr (l : L) : List B → L ⊕ B
  | [] => .inl l
  | b :: _ => .inr b

theorem Path.next_eq (h : m.Path a xs (.inl l)) : m.next a = addr l xs := by
  cases xs with
  | nil => exact h.1
  | cons b bs => exact h.1

theorem represents_init : (init : LinkedLists L B).Represents fun _ => [] where
  path _ := ⟨rfl, rfl⟩
  nodup _ := List.nodup_nil
  disjoint _ _ _ h := by cases h
  length _ := rfl

/-- A walk goes from each item to the next one. -/
theorem next_eq (h : m.Represents k) (hk : k l = xs ++ b :: ys) : m.next (.inr b) = addr l ys := by
  have hp := h.path l
  rw [hk] at hp
  exact (path_append.mp hp).2.next_eq

theorem first_eq (h : m.Represents k) (l : L) : m.next (.inl l) = addr l (k l) := (h.path l).next_eq

/-- The items from a link on. -/
def walk (m : LinkedLists L B) : ℕ → L ⊕ B → List B
  | n + 1, .inr b => b :: walk m n (m.next (.inr b))
  | _, _ => []

/-- The items of a list, as the links have them. -/
def toList (m : LinkedLists L B) (l : L) : List B := m.walk (m.length l).toNat (m.next (.inl l))

theorem Path.walk_eq (h : m.Path a xs (.inl l)) : m.walk xs.length (m.next a) = xs := by
  induction xs generalizing a with
  | nil => rfl
  | cons b bs ih =>
    rw [h.1, List.length_cons, walk, ih h.2.2]

theorem toList_eq (h : m.Represents k) (l : L) : m.toList l = k l := by
  rw [toList, h.length, Int.toNat_natCast, (h.path l).walk_eq]

/-- The links hold one family of lists only. -/
theorem Represents.unique {k' : L → List B} (h : m.Represents k) (h' : m.Represents k') : k = k' :=
  funext fun l => (toList_eq h l).symm.trans (toList_eq h' l)

/-! ## The operations -/

variable [DecidableEq L]

theorem mem_appended {c : B} :
    c ∈ Function.update k l (k l ++ [b]) l' ↔ c ∈ k l' ∨ l' = l ∧ c = b := by
  by_cases hl : l' = l
  · simp [hl]
  · simp [hl]

variable [DecidableEq B]

def delete (m : LinkedLists L B) (l : L) (b : B) : LinkedLists L B where
  next := Function.update m.next (m.prev (.inr b)) (m.next (.inr b))
  prev := Function.update m.prev (m.next (.inr b)) (m.prev (.inr b))
  length := Function.update m.length l (m.length l - 1)

def append (m : LinkedLists L B) (l : L) (b : B) : LinkedLists L B where
  next := Function.update (Function.update m.next (.inr b) (.inl l)) (m.prev (.inl l)) (.inr b)
  prev := Function.update (Function.update m.prev (.inr b) (m.prev (.inl l))) (.inl l) (.inr b)
  length := Function.update m.length l (m.length l + 1)

/-- Take the first item off. The outer `none` is a list that counts items and has none. -/
def pop (m : LinkedLists L B) (l : L) : Option (Option B × LinkedLists L B) :=
  if m.length l = 0 then some (none, m)
  else
    match m.next (.inl l) with
    | .inr b => some (some b, m.delete l b)
    | .inl _ => none

@[simp] theorem delete_length (m : LinkedLists L B) (l : L) (b : B) :
    (m.delete l b).length = Function.update m.length l (m.length l - 1) := rfl

@[simp] theorem append_length (m : LinkedLists L B) (l : L) (b : B) :
    (m.append l b).length = Function.update m.length l (m.length l + 1) := rfl

/-- Take one item out of a path. -/
theorem Path.delete (h : m.Path a (xs ++ b :: ys) (.inl l)) (hnodup : (xs ++ b :: ys).Nodup)
    (ha : ∀ c ∈ xs ++ b :: ys, a ≠ .inr c) (l' : L) :
    (m.delete l' b).Path a (xs ++ ys) (.inl l) := by
  induction xs generalizing a with
  | nil =>
    obtain ⟨h1, h2, h3⟩ := h
    cases ys with
    | nil => exact ⟨by simp [LinkedLists.delete, h2, h3.1], by simp [LinkedLists.delete, h2, h3.1]⟩
    | cons c cs =>
      obtain ⟨h4, h5, h6⟩ := h3
      refine ⟨by simp [LinkedLists.delete, h2, h4], by simp [LinkedLists.delete, h2, h4], ?_⟩
      have hc := ha c (by simp)
      refine h6.congr ?_ ?_ fun d hd => ⟨?_, ?_⟩
      · simp [LinkedLists.delete, h2, hc.symm]
      · simp [LinkedLists.delete, h4]
      · have hd' := ha d (by simp [hd])
        simp [LinkedLists.delete, h2, hd'.symm]
      · have hne : d ≠ c := by
          rintro rfl
          simp [hd] at hnodup
        simp [LinkedLists.delete, h4, hne]
  | cons c cs ih =>
    obtain ⟨h1, h2, h3⟩ := h
    obtain ⟨hcn, hnodup⟩ := List.nodup_cons.mp hnodup
    have hrest := path_append.mp h3
    have hin := ih h3 hnodup fun d hd hcd => hcn (by cases hcd; exact hd)
    refine ⟨?_, ?_, hin⟩
    · -- The item before `b` is `c` or one behind it.
      have hne : m.prev (.inr b) ≠ a := by
        obtain heq | ⟨d, hd, heq⟩ := hrest.1.prev_mem
        · rw [heq]
          exact (ha c (by simp)).symm
        · rw [heq]
          exact (ha d (by simp [hd])).symm
      simp [LinkedLists.delete, Function.update_of_ne hne.symm, h1]
    · have hne : m.next (.inr b) ≠ .inr c := by
        obtain heq | ⟨d, hd, heq⟩ := hrest.2.next_mem
        · rw [heq]
          exact Sum.inl_ne_inr
        · rw [heq]
          rintro hdc
          cases hdc
          exact hcn (by simp [hd])
      simp [LinkedLists.delete, Function.update_of_ne hne.symm, h2]

/-- Put an item at the end of a path. -/
theorem Path.append (h : m.Path a xs (.inl l)) (hb : b ∉ xs) (hnodup : xs.Nodup)
    (ha : ∀ c ∈ xs, a ≠ .inr c) (hab : a ≠ .inr b) :
    (m.append l b).Path a (xs ++ [b]) (.inl l) := by
  induction xs generalizing a with
  | nil =>
    obtain ⟨h1, h2⟩ := h
    refine ⟨?_, ?_, ?_, ?_⟩ <;> simp [LinkedLists.append, h2, hab.symm]
  | cons c cs ih =>
    obtain ⟨h1, h2, h3⟩ := h
    obtain ⟨hcn, hnodup⟩ := List.nodup_cons.mp hnodup
    rw [List.mem_cons, not_or] at hb
    have hin := ih h3 hb.2 hnodup (fun d hd hcd => hcn (by cases hcd; exact hd))
      (fun hcb => hb.1 (by cases hcb; rfl))
    refine ⟨?_, ?_, hin⟩
    · have hne : m.prev (.inl l) ≠ a := by
        obtain heq | ⟨d, hd, heq⟩ := h3.prev_mem
        · rw [heq]
          exact (ha c (by simp)).symm
        · rw [heq]
          exact (ha d (by simp [hd])).symm
      simp [LinkedLists.append, Function.update_of_ne hne.symm, Function.update_of_ne hab, h1]
    · have hcb : (.inr c : L ⊕ B) ≠ .inr b := fun h => hb.1 (by cases h; rfl)
      simp [LinkedLists.append, Function.update_of_ne hcb, h2]

/-- An item that has been deleted is in no list. -/
theorem mem_deleted (h : m.Represents k) (hb : b ∈ k l) {c : B} :
    c ∈ Function.update k l ((k l).erase b) l' ↔ c ∈ k l' ∧ c ≠ b := by
  by_cases hl : l' = l
  · rw [hl, Function.update_self, (h.nodup l).mem_erase_iff, and_comm]
  · rw [Function.update_of_ne hl]
    exact ⟨fun hc => ⟨hc, fun hcb => hl (h.disjoint l' l b (hcb ▸ hc) hb)⟩, And.left⟩

/-- Deleting an item of one list leaves the paths of the others. -/
theorem represents_delete (h : m.Represents k) (hb : b ∈ k l) :
    (m.delete l b).Represents (Function.update k l ((k l).erase b)) := by
  obtain ⟨xs, ys, hk⟩ := List.append_of_mem hb
  have hp := h.path l
  have hnodup := h.nodup l
  rw [hk] at hp hnodup
  have hbx : b ∉ xs := fun hmem => (List.nodup_append.mp hnodup).2.2 b hmem b (by simp) rfl
  have herase : (k l).erase b = xs ++ ys := by
    rw [hk, List.erase_append_right _ hbx, List.erase_cons_head]
  obtain ⟨hbefore, hafter⟩ := path_append.mp hp
  -- The neighbours of `b` are in its list.
  have hprev : ∀ l' ≠ l, m.prev (.inr b) ≠ .inl l' ∧ ∀ c ∈ k l', m.prev (.inr b) ≠ .inr c := by
    intro l' hl
    obtain heq | ⟨d, hd, heq⟩ := hbefore.prev_mem
    · simp [heq, Ne.symm hl]
    · simp only [heq, ne_eq, reduceCtorEq, not_false_eq_true, Sum.inr.injEq, true_and]
      rintro c hc rfl
      exact hl (h.disjoint l' l d hc (by simp [hk, hd]))
  have hnext : ∀ l' ≠ l, m.next (.inr b) ≠ .inl l' ∧ ∀ c ∈ k l', m.next (.inr b) ≠ .inr c := by
    intro l' hl
    obtain heq | ⟨d, hd, heq⟩ := hafter.next_mem
    · simp [heq, Ne.symm hl]
    · simp only [heq, ne_eq, reduceCtorEq, not_false_eq_true, Sum.inr.injEq, true_and]
      rintro c hc rfl
      exact hl (h.disjoint l' l d hc (by simp [hk, hd]))
  constructor
  · intro l'
    by_cases hl : l' = l
    · rw [hl, Function.update_self, herase]
      exact hp.delete hnodup (fun _ _ => Sum.inl_ne_inr) l
    · rw [Function.update_of_ne hl]
      refine (h.path l').congr ?_ ?_ fun c hc => ⟨?_, ?_⟩
      · exact Function.update_of_ne (hprev l' hl).1.symm _ _
      · exact Function.update_of_ne (hnext l' hl).1.symm _ _
      · exact Function.update_of_ne ((hprev l' hl).2 c hc).symm _ _
      · exact Function.update_of_ne ((hnext l' hl).2 c hc).symm _ _
  · intro l'
    by_cases hl : l' = l
    · rw [hl, Function.update_self]
      exact (h.nodup l).erase b
    · rw [Function.update_of_ne hl]
      exact h.nodup l'
  · exact fun l₁ l₂ c h1 h2 => h.disjoint l₁ l₂ c ((mem_deleted h hb).mp h1).1
      ((mem_deleted h hb).mp h2).1
  · intro l'
    by_cases hl : l' = l
    · rw [hl, delete_length, Function.update_self, Function.update_self, h.length l,
        List.length_erase_of_mem hb, Nat.cast_sub (List.length_pos_of_mem hb)]
      rfl
    · rw [delete_length, Function.update_of_ne hl, Function.update_of_ne hl]
      exact h.length l'

theorem represents_append (h : m.Represents k) (hb : ∀ l', b ∉ k l') :
    (m.append l b).Represents (Function.update k l (k l ++ [b])) := by
  have hprev : ∀ l' ≠ l, m.prev (.inl l) ≠ .inl l' ∧ ∀ c ∈ k l', m.prev (.inl l) ≠ .inr c := by
    intro l' hl
    obtain heq | ⟨d, hd, heq⟩ := (h.path l).prev_mem
    · simp [heq, Ne.symm hl]
    · simp only [heq, ne_eq, reduceCtorEq, not_false_eq_true, Sum.inr.injEq, true_and]
      rintro c hc rfl
      exact hl (h.disjoint l' l d hc hd)
  have hself : ∀ l', ∀ c ∈ k l', (.inr c : L ⊕ B) ≠ .inr b := by
    intro l' c hc heq
    cases heq
    exact hb l' hc
  constructor
  · intro l'
    by_cases hl : l' = l
    · rw [hl, Function.update_self]
      exact (h.path l).append (hb l) (h.nodup l) (fun _ _ => Sum.inl_ne_inr) Sum.inl_ne_inr
    · rw [Function.update_of_ne hl]
      refine (h.path l').congr ?_ ?_ fun c hc => ⟨?_, ?_⟩
      · exact (Function.update_of_ne (hprev l' hl).1.symm _ _).trans
          (Function.update_of_ne Sum.inl_ne_inr _ _)
      · exact (Function.update_of_ne (by simpa using hl) _ _).trans
          (Function.update_of_ne Sum.inl_ne_inr _ _)
      · exact (Function.update_of_ne ((hprev l' hl).2 c hc).symm _ _).trans
          (Function.update_of_ne (hself l' c hc) _ _)
      · simp [LinkedLists.append, Function.update_of_ne (hself l' c hc)]
  · intro l'
    by_cases hl : l' = l
    · rw [hl, Function.update_self]
      exact List.nodup_append.mpr ⟨h.nodup l, List.nodup_singleton b, fun c hc d hd hcd =>
        hb l (by rw [List.mem_singleton.mp hd] at hcd; exact hcd ▸ hc)⟩
    · rw [Function.update_of_ne hl]
      exact h.nodup l'
  · intro l₁ l₂ c h1 h2
    obtain hc | ⟨hl, hcb⟩ := mem_appended.mp h1
    · obtain hc' | ⟨-, hcb⟩ := mem_appended.mp h2
      · exact h.disjoint l₁ l₂ c hc hc'
      · exact absurd (hcb ▸ hc) (hb l₁)
    · obtain hc' | ⟨hl', -⟩ := mem_appended.mp h2
      · exact absurd (hcb ▸ hc') (hb l₂)
      · exact hl.trans hl'.symm
  · intro l'
    by_cases hl : l' = l
    · rw [hl, append_length, Function.update_self, Function.update_self, h.length l,
        List.length_append]
      rfl
    · rw [append_length, Function.update_of_ne hl, Function.update_of_ne hl]
      exact h.length l'

theorem pop_nil (h : m.Represents k) (hk : k l = []) : m.pop l = some (none, m) := by
  rw [pop, if_pos (by rw [h.length l, hk]; rfl)]

theorem pop_cons (h : m.Represents k) (hk : k l = b :: xs) :
    m.pop l = some (some b, m.delete l b) ∧ (m.delete l b).Represents (Function.update k l xs) := by
  have hlen : m.length l ≠ 0 := by
    rw [h.length l, hk, List.length_cons]
    omega
  have hfirst : m.next (.inl l) = .inr b := by rw [first_eq h l, hk, addr]
  refine ⟨by rw [pop, if_neg hlen, hfirst], ?_⟩
  have hd := represents_delete h (show b ∈ k l by rw [hk]; exact List.mem_cons_self)
  rwa [hk, List.erase_cons_head] at hd

/-- The lists after one item has gone from `l` to the end of `l'`. -/
def moved (k : L → List B) (l l' : L) (b : B) : L → List B :=
  Function.update (Function.update k l ((k l).erase b)) l' (k l' ++ [b])

@[simp] theorem moved_to (k : L → List B) (l l' : L) (b : B) : moved k l l' b l' = k l' ++ [b] :=
  Function.update_self ..

theorem moved_from (hl : l ≠ l') : moved k l l' b l = (k l).erase b := by
  rw [moved, Function.update_of_ne hl, Function.update_self]

theorem moved_other {l'' : L} (hl : l'' ≠ l) (hl' : l'' ≠ l') : moved k l l' b l'' = k l'' := by
  rw [moved, Function.update_of_ne hl', Function.update_of_ne hl]

theorem represents_move (h : m.Represents k) (hb : b ∈ k l) (hl : l ≠ l') :
    ((m.delete l b).append l' b).Represents (moved k l l' b) := by
  have happ := represents_append (l := l') (represents_delete h hb)
    fun _ hmem => ((mem_deleted h hb).mp hmem).2 rfl
  rwa [Function.update_of_ne hl.symm] at happ

end LinkedLists

end Hdb

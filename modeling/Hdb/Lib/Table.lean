import Mathlib.Data.List.Nodup
import Mathlib.Algebra.BigOperators.Group.List.Basic

/-!
# Tables

A table is a list of records with distinct keys. What a change of one record does to a sum over the
table is read off from the place of the record (`exists_split`).
-/

namespace Hdb.Table

variable {α κ : Type*} {key : α → κ} {l pre post : List α} {a b : α} {k : κ} {f : α → α}

theorem eq_of_key (h : (l.map key).Nodup) (ha : a ∈ l) (hb : b ∈ l) (heq : key a = key b) : a = b :=
  List.inj_on_of_nodup_map h ha hb heq

/-- The place of a record. -/
theorem exists_split (h : (l.map key).Nodup) (ha : a ∈ l) :
    ∃ pre post, l = pre ++ a :: post ∧ ∀ b ∈ pre ++ post, key b ≠ key a := by
  obtain ⟨pre, post, rfl⟩ := List.append_of_mem ha
  refine ⟨pre, post, rfl, fun b hb heq => ?_⟩
  have hperm : (pre ++ a :: post).Perm (a :: (pre ++ post)) := List.perm_middle
  have hnodup := (hperm.map key).nodup_iff.mp h
  rw [List.map_cons, List.nodup_cons] at hnodup
  exact hnodup.1 (List.mem_map.mpr ⟨b, hb, heq⟩)

variable [DecidableEq κ]

/-- Change the record with the key `k`. -/
def modify (key : α → κ) (k : κ) (f : α → α) (l : List α) : List α :=
  l.map fun a => if key a = k then f a else a

/-- The record with the key `k`. -/
def find (key : α → κ) (k : κ) (l : List α) : Option α := l.find? fun a => key a = k

/-- Remove the record with the key `k`. -/
def remove (key : α → κ) (k : κ) (l : List α) : List α := l.filter fun a => key a ≠ k

theorem mem_of_find (h : find key k l = some a) : a ∈ l ∧ key a = k := by
  have hkey := List.find?_some h
  exact ⟨List.mem_of_find?_eq_some h, of_decide_eq_true hkey⟩

theorem key_ne_of_find (h : find key k l = none) (ha : a ∈ l) : key a ≠ k := by
  have hne := List.find?_eq_none.mp h a ha
  rwa [decide_eq_true_iff] at hne

theorem map_key_modify (hf : ∀ a, key (f a) = key a) (k : κ) (l : List α) :
    (modify key k f l).map key = l.map key := by
  rw [modify, List.map_map]
  refine List.map_congr_left fun a _ => ?_
  rw [Function.comp_apply]
  split_ifs
  · exact hf a
  · rfl

theorem mem_modify_of_ne (ha : a ∈ l) (hne : key a ≠ k) : a ∈ modify key k f l :=
  List.mem_map.mpr ⟨a, ha, if_neg hne⟩

theorem of_mem_modify (hb : b ∈ modify key k f l) :
    ∃ a ∈ l, (key a = k ∧ b = f a) ∨ (key a ≠ k ∧ b = a) := by
  obtain ⟨a, ha, heq⟩ := List.mem_map.mp hb
  split_ifs at heq with hkey
  · exact ⟨a, ha, .inl ⟨hkey, heq.symm⟩⟩
  · exact ⟨a, ha, .inr ⟨hkey, heq.symm⟩⟩

theorem modify_of_ne (f : α → α) (h : ∀ b ∈ l, key b ≠ k) : modify key k f l = l := by
  rw [modify, List.map_congr_left fun b hb => if_neg (h b hb), List.map_id']

theorem modify_split (h : ∀ b ∈ pre ++ post, key b ≠ key a) :
    modify key (key a) f (pre ++ a :: post) = pre ++ f a :: post := by
  have hpre := modify_of_ne f fun b hb => h b (List.mem_append_left _ hb)
  have hpost := modify_of_ne f fun b hb => h b (List.mem_append_right _ hb)
  rw [modify] at hpre hpost ⊢
  rw [List.map_append, List.map_cons, if_pos rfl, hpre, hpost]

theorem remove_split (h : ∀ b ∈ pre ++ post, key b ≠ key a) :
    remove key (key a) (pre ++ a :: post) = pre ++ post := by
  rw [remove, List.filter_append, List.filter_cons, if_neg (by simp), ← List.filter_append]
  exact List.filter_eq_self.mpr fun b hb => decide_eq_true (h b hb)

theorem find_remove_self (k : κ) (l : List α) : find key k (remove key k l) = none := by
  rw [find, List.find?_eq_none]
  intro a ha
  have hne := of_decide_eq_true (List.mem_filter.mp ha).2
  rw [decide_eq_true_iff]
  exact hne

theorem find_remove_ne {k' : κ} (h : k' ≠ k) (l : List α) :
    find key k' (remove key k l) = find key k' l := by
  rw [find, remove, List.find?_filter]
  refine congrArg (fun p => List.find? p l) (funext fun a => ?_)
  rw [Bool.eq_iff_iff]
  simp only [decide_eq_true_iff]
  exact ⟨fun ⟨_, ha⟩ => ha, fun ha => ⟨ha ▸ h, ha⟩⟩

theorem find_eq_some_iff (h : (l.map key).Nodup) : find key k l = some a ↔ a ∈ l ∧ key a = k := by
  constructor
  · exact mem_of_find
  · rintro ⟨ha, rfl⟩
    cases hf : find key (key a) l with
    | none => exact absurd rfl (key_ne_of_find hf ha)
    | some b =>
      obtain ⟨hb, hkey⟩ := mem_of_find hf
      rw [eq_of_key h hb ha hkey]

end Hdb.Table

namespace Hdb

/-! ## Keyed tables -/

/-- A table: records with distinct keys. -/
structure Keyed {α κ : Type*} (key : α → κ) where
  records : List α
  nodup : (records.map key).Nodup

namespace Keyed

variable {α κ : Type*} {key : α → κ}

def empty : Keyed key := ⟨[], List.nodup_nil⟩

def keys (t : Keyed key) : List κ := t.records.map key

/-- How many records have the property. -/
def count (p : α → Bool) (t : Keyed key) : Nat := t.records.countP p

theorem length_keys (t : Keyed key) (p : α → Bool) :
    t.keys.length = t.count p + t.count fun a => !p a := by
  rw [keys, List.length_map, List.length_eq_countP_add_countP p]
  simp only [count, decide_not, Bool.decide_eq_true]

variable [DecidableEq κ] {t : Keyed key} {a b : α} {k k' : κ} {p : α → Bool}

/-- The record with the key `k`. -/
def get? (t : Keyed key) (k : κ) : Option α := Table.find key k t.records

/-- Remove the record with the key `k`. -/
def erase (t : Keyed key) (k : κ) : Keyed key :=
  ⟨Table.remove key k t.records, t.nodup.sublist (List.filter_sublist.map key)⟩

/-- Put a record in the place of the one with the same key. -/
def put (t : Keyed key) (a : α) : Keyed key :=
  ⟨a :: Table.remove key (key a) t.records, by
    refine List.nodup_cons.mpr ⟨fun hmem => ?_, (t.erase (key a)).nodup⟩
    obtain ⟨b, hb, hkey⟩ := List.mem_map.mp hmem
    exact of_decide_eq_true (List.mem_filter.mp hb).2 hkey⟩

@[simp] theorem get?_empty (k : κ) : (empty : Keyed key).get? k = none := rfl

theorem key_of_get? (h : t.get? k = some a) : key a = k := (Table.mem_of_find h).2

theorem get?_eq_some_iff : t.get? k = some a ↔ a ∈ t.records ∧ key a = k :=
  Table.find_eq_some_iff t.nodup

/-- The records are found under their keys. -/
theorem filterMap_get?_keys (t : Keyed key) : t.keys.filterMap t.get? = t.records := by
  rw [keys, List.filterMap_map]
  have hsome : ∀ a ∈ t.records, (t.get? ∘ key) a = some a :=
    fun a ha => get?_eq_some_iff.mpr ⟨ha, rfl⟩
  rw [List.filterMap_congr hsome, List.filterMap_some]

theorem mem_keys : k ∈ t.keys ↔ ∃ a, t.get? k = some a := by
  simp only [get?_eq_some_iff]
  exact List.mem_map

@[simp] theorem get?_erase_self (t : Keyed key) (k : κ) : (t.erase k).get? k = none :=
  Table.find_remove_self k t.records

theorem get?_erase_ne (t : Keyed key) (h : k' ≠ k) : (t.erase k).get? k' = t.get? k' :=
  Table.find_remove_ne h t.records

@[simp] theorem get?_put_self (t : Keyed key) (a : α) : (t.put a).get? (key a) = some a := by
  rw [get?, Table.find, put]
  exact List.find?_cons_of_pos (decide_eq_true rfl)

theorem get?_put_ne (t : Keyed key) (h : k ≠ key a) : (t.put a).get? k = t.get? k := by
  have hne : ¬decide (key a = k) = true := fun heq => h (of_decide_eq_true heq).symm
  rw [← get?_erase_ne t h, get?, get?, Table.find, Table.find, put]
  exact List.find?_cons_of_neg hne

theorem erase_of_get?_eq_none (h : t.get? k = none) : t.erase k = t := by
  have hrecords : Table.remove key k t.records = t.records :=
    List.filter_eq_self.mpr fun a ha => decide_eq_true (Table.key_ne_of_find h ha)
  obtain ⟨records, nodup⟩ := t
  simp only [erase, hrecords]

theorem count_erase (h : t.get? k = some a) :
    (t.erase k).count p + (if p a then 1 else 0) = t.count p := by
  obtain ⟨hmem, rfl⟩ := get?_eq_some_iff.mp h
  obtain ⟨pre, post, hsplit, hne⟩ := Table.exists_split t.nodup hmem
  show (Table.remove key (key a) t.records).countP p + _ = t.records.countP p
  rw [hsplit, Table.remove_split hne, List.countP_append, List.countP_append, List.countP_cons]
  omega

theorem count_put (t : Keyed key) (a : α) :
    (t.put a).count p = (t.erase (key a)).count p + if p a then 1 else 0 :=
  List.countP_cons

theorem count_put_new (h : t.get? (key a) = none) :
    (t.put a).count p = t.count p + if p a then 1 else 0 := by
  rw [count_put, erase_of_get?_eq_none h]

theorem count_put_of_get? (h : t.get? (key a) = some b) :
    (t.put a).count p + (if p b then 1 else 0) = t.count p + if p a then 1 else 0 := by
  rw [count_put, ← count_erase h]
  omega

theorem count_eq_zero_iff : t.count p = 0 ↔ ∀ k a, t.get? k = some a → p a = false := by
  rw [count, List.countP_eq_zero]
  constructor
  · intro h k a ha
    exact Bool.eq_false_iff.mpr (h a (get?_eq_some_iff.mp ha).1)
  · intro h a ha
    exact Bool.eq_false_iff.mp (h (key a) a (get?_eq_some_iff.mpr ⟨ha, rfl⟩))

end Keyed

end Hdb

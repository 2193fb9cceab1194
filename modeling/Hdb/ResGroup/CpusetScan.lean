import Hdb.ResGroup.Cpuset
import Hdb.Lib.Returns

/-!
# Scanning one item

Between two commas the scanner is at an item. It reads the item whose text stands there
(`scan_item`), or gets no further (`scan_no_item`). At the comma it adds the cores it has read
(`Added`), returns `NULL` (`Refused`), or raises the error of a negative member; this depends on the
item alone.
-/

namespace Hdb.Cpuset

/-! ## Numbers -/

theorem toInt_range (x : ℤ) : -2 ^ 31 ≤ toInt x ∧ toInt x ≤ intMax := by
  have hlo := Int.le_bmod (x := x) (m := 2 ^ 32) (by decide)
  have hhi := Int.bmod_lt (x := x) (m := 2 ^ 32) (by decide)
  unfold toInt intMax
  norm_num at hlo hhi ⊢
  omega

theorem toInt_of_le {n : ℕ} (h : (n : ℤ) ≤ intMax) : toInt n = n := by
  unfold intMax at h
  have hmod : (n : ℤ) % (2 ^ 32 : ℕ) = n :=
    Int.emod_eq_of_lt (Int.natCast_nonneg n) (by norm_num; omega)
  rw [toInt, Int.bmod_eq_emod_of_lt, hmod]
  rw [hmod]
  norm_num
  omega

/-- A digit behind a number that was read. -/
theorem toInt_digit (x : ℕ) (c : Char) :
    toInt (toInt x * 10 + digit c) = toInt ((10 * x + (c.toNat - '0'.toNat) : ℕ) : ℤ) := by
  have hstep : ((x : ℤ).bmod (2 ^ 32) * 10 + ((c.toNat - '0'.toNat : ℕ) : ℤ)).bmod (2 ^ 32) =
      ((x : ℤ) * 10 + ((c.toNat - '0'.toNat : ℕ) : ℤ)).bmod (2 ^ 32) := by
    rw [← Int.bmod_add_bmod, Int.bmod_mul_bmod, Int.bmod_add_bmod]
  have hcast : ((10 * x + (c.toNat - '0'.toNat) : ℕ) : ℤ) =
      (x : ℤ) * 10 + ((c.toNat - '0'.toNat : ℕ) : ℤ) := by
    rw [Nat.cast_add, Nat.cast_mul, mul_comm]
    rfl
  rw [toInt, toInt, toInt, digit, hcast]
  exact hstep

theorem isDigit_ne {c : Char} (h : c.isDigit) : c ≠ ',' ∧ c ≠ '-' := by
  constructor
  · rintro rfl
    exact absurd h (by decide)
  · rintro rfl
    exact absurd h (by decide)

theorem scanChar_number {c : Char} (h : c.isDigit) (x num2 : ℤ) (bms : Finset ℕ) :
    scanChar ⟨.number, x, num2, bms⟩ c = .ok ⟨.number, toInt (x * 10 + digit c), num2, bms⟩ := by
  rw [scanChar, if_neg (isDigit_ne h).1, if_neg (isDigit_ne h).2, if_pos h]
  rfl

theorem scanChar_number2 {c : Char} (h : c.isDigit) (num1 x : ℤ) (bms : Finset ℕ) :
    scanChar ⟨.number2, num1, x, bms⟩ c = .ok ⟨.number2, num1, toInt (x * 10 + digit c), bms⟩ := by
  rw [scanChar, if_neg (isDigit_ne h).1, if_neg (isDigit_ne h).2, if_pos h]
  rfl

/-- Digits that go on with the first number. -/
theorem scan_number {ds : List Char} (hds : ∀ c ∈ ds, c.isDigit) (x : ℕ) (num2 : ℤ)
    (bms : Finset ℕ) :
    ds.foldlM scanChar ⟨.number, toInt x, num2, bms⟩ =
      .ok ⟨.number, toInt (Nat.ofDigitChars 10 ds x : ℕ), num2, bms⟩ := by
  induction ds generalizing x with
  | nil => rfl
  | cons c ds ih =>
    rw [List.forall_mem_cons] at hds
    rw [List.foldlM_cons, scanChar_number hds.1, ok_bind, toInt_digit, Nat.ofDigitChars_cons]
    exact ih hds.2 _

/-- Digits that go on with the second one. -/
theorem scan_number2 {ds : List Char} (hds : ∀ c ∈ ds, c.isDigit) (x : ℕ) (num1 : ℤ)
    (bms : Finset ℕ) :
    ds.foldlM scanChar ⟨.number2, num1, toInt x, bms⟩ =
      .ok ⟨.number2, num1, toInt (Nat.ofDigitChars 10 ds x : ℕ), bms⟩ := by
  induction ds generalizing x with
  | nil => rfl
  | cons c ds ih =>
    rw [List.forall_mem_cons] at hds
    rw [List.foldlM_cons, scanChar_number2 hds.1, ok_bind, toInt_digit, Nat.ofDigitChars_cons]
    exact ih hds.2 _

/-! ## One item -/

/-- Between two items. -/
structure Scanner.Fresh (st : Scanner) : Prop where
  s : st.s = .initial ∨ st.s = .begin
  num1 : st.num1 = 0
  num2 : st.num2 = 0

/-- Behind the text of an item. -/
def Scanner.after (st : Scanner) : Item → Scanner
  | .empty => st
  | .number n => ⟨.number, toInt n, 0, st.bms⟩
  | .interval a b => ⟨.number2, toInt a, toInt b, st.bms⟩

/-- The first digit of a number. -/
theorem toInt_first (c : Char) :
    toInt (0 * 10 + digit c) = toInt ((10 * 0 + (c.toNat - '0'.toNat) : ℕ) : ℤ) := by
  have h := toInt_digit 0 c
  rwa [toInt_of_le (by decide), Nat.cast_zero] at h

/-- The first digits of an item. -/
theorem scan_digits {ds : List Char} (hds : ∀ c ∈ ds, c.isDigit) (hne : ds ≠ []) {st : Scanner}
    (h : st.Fresh) : ds.foldlM scanChar st = .ok (st.after (.number (value ds))) := by
  obtain ⟨s, num1, num2, bms⟩ := st
  obtain ⟨hs, rfl, rfl⟩ := h
  cases ds with
  | nil => exact absurd rfl hne
  | cons c ds =>
    rw [List.forall_mem_cons] at hds
    have hfirst : scanChar ⟨s, 0, 0, bms⟩ c = .ok ⟨.number, toInt (0 * 10 + digit c), 0, bms⟩ := by
      rw [scanChar, if_neg (isDigit_ne hds.1).1, if_neg (isDigit_ne hds.1).2, if_pos hds.1]
      obtain rfl | rfl := hs <;> rfl
    rw [List.foldlM_cons, hfirst, ok_bind, toInt_first, value, Nat.ofDigitChars_cons]
    exact scan_number hds.2 _ 0 bms

/-- The digits behind the minus. -/
theorem scan_digits2 {es : List Char} (hes : ∀ c ∈ es, c.isDigit) (hne : es ≠ []) (num1 : ℤ)
    (bms : Finset ℕ) : es.foldlM scanChar ⟨.interval, num1, 0, bms⟩ =
      .ok ⟨.number2, num1, toInt (value es), bms⟩ := by
  cases es with
  | nil => exact absurd rfl hne
  | cons c es =>
    rw [List.forall_mem_cons] at hes
    have hfirst : scanChar ⟨.interval, num1, 0, bms⟩ c =
        .ok ⟨.number2, num1, toInt (0 * 10 + digit c), bms⟩ := by
      rw [scanChar, if_neg (isDigit_ne hes.1).1, if_neg (isDigit_ne hes.1).2, if_pos hes.1]
      rfl
    rw [List.foldlM_cons, hfirst, ok_bind, toInt_first, value, Nat.ofDigitChars_cons]
    exact scan_number2 hes.2 _ num1 bms

/-- The minus behind a number. -/
theorem scanChar_minus (num1 num2 : ℤ) (bms : Finset ℕ) :
    scanChar ⟨.number, num1, num2, bms⟩ '-' = .ok ⟨.interval, num1, num2, bms⟩ := by
  rw [scanChar, if_neg (by decide), if_pos rfl, if_pos rfl]

/-- **The scanner reads an item.** -/
theorem scan_item {p : List Char} {it : Item} (hp : Reads p it) {st : Scanner} (h : st.Fresh) :
    p.foldlM scanChar st = .ok (st.after it) := by
  cases hp with
  | empty => rfl
  | number hne hds => exact scan_digits hds hne h
  | interval hne hds hne' hes =>
    rw [List.foldlM_append, scan_digits hds hne h, ok_bind, List.foldlM_cons, Scanner.after,
      scanChar_minus, ok_bind]
    exact scan_digits2 hes hne' _ _

/-- A character that is neither a digit nor a separator. -/
theorem scanChar_other {c : Char} (hcomma : c ≠ ',') (hdigit : ¬ c.isDigit) {st : Scanner}
    (h : c = '-' → st.s ≠ .number) : scanChar st c = .error .null := by
  rw [scanChar, if_neg hcomma]
  split
  · next hminus => rw [if_neg (h hminus)]
  · rfl

/-- The digits at the start of a text. -/
theorem exists_digits (p : List Char) : ∃ ds rest, p = ds ++ rest ∧ (∀ c ∈ ds, c.isDigit) ∧
    ∀ c rest', rest = c :: rest' → ¬ c.isDigit := by
  induction p with
  | nil => exact ⟨[], [], rfl, List.forall_mem_nil _, fun _ _ h => nomatch h⟩
  | cons c p ih =>
    by_cases hc : c.isDigit
    · obtain ⟨ds, rest, rfl, hds, hrest⟩ := ih
      exact ⟨c :: ds, rest, rfl, List.forall_mem_cons.mpr ⟨hc, hds⟩, hrest⟩
    · refine ⟨[], c :: p, rfl, List.forall_mem_nil _, fun c' rest' h => ?_⟩
      rw [List.cons.injEq] at h
      exact h.1 ▸ hc

theorem scan_stops {p rest : List Char} {c : Char} {st st' : Scanner}
    (hp : p.foldlM scanChar st = .ok st') (hcomma : ',' ∉ p ++ c :: rest) (hdigit : ¬ c.isDigit)
    (hminus : c = '-' → st'.s ≠ .number) : (p ++ c :: rest).foldlM scanChar st = .error .null := by
  have hc : c ≠ ',' := by
    rintro rfl
    exact hcomma (List.mem_append_right _ List.mem_cons_self)
  rw [List.foldlM_append, hp, ok_bind, List.foldlM_cons, scanChar_other hc hdigit hminus,
    error_bind]

/-- **A text that is no item** stops the scanner, or leaves it in the middle of an interval. -/
theorem scan_no_item {p : List Char} (hp : ¬ ∃ it, Reads p it) (hcomma : ',' ∉ p) {st : Scanner}
    (h : st.Fresh) : p.foldlM scanChar st = .error .null ∨
      ∃ st', p.foldlM scanChar st = .ok st' ∧ st'.s = .interval := by
  obtain ⟨ds, rest, rfl, hds, hrest⟩ := exists_digits p
  by_cases hne : ds = []
  · subst hne
    cases rest with
    | nil => exact absurd ⟨.empty, .empty⟩ hp
    | cons c rest =>
      -- an item starts with a digit
      refine .inl (scan_stops (p := []) rfl hcomma (hrest c rest rfl) fun _ hs => ?_)
      obtain hs' | hs' := h.s <;> exact nomatch hs.symm.trans hs'
  · have hnumber := scan_digits hds hne h
    cases rest with
    | nil =>
      rw [List.append_nil] at hp
      exact absurd ⟨_, .number hne hds⟩ hp
    | cons c rest =>
      by_cases hminus : c = '-'
      · subst hminus
        obtain ⟨es, rest', rfl, hes, hrest'⟩ := exists_digits rest
        have hinterval : (ds ++ ['-']).foldlM scanChar st =
            .ok ⟨.interval, toInt (value ds), 0, st.bms⟩ := by
          rw [List.foldlM_append, hnumber, ok_bind, List.foldlM_cons, Scanner.after, scanChar_minus,
            ok_bind, List.foldlM_nil]
          rfl
        have hassoc : ds ++ '-' :: (es ++ rest') = (ds ++ ['-'] ++ es) ++ rest' := by simp
        by_cases hne' : es = []
        · subst hne'
          rw [List.append_nil] at hassoc
          rw [hassoc] at hcomma ⊢
          cases rest' with
          | nil => exact .inr ⟨_, by rw [List.append_nil, hinterval], rfl⟩
          | cons c rest' =>
            exact .inl (scan_stops hinterval hcomma (hrest' c rest' rfl) fun _ hs => nomatch hs)
        · have hnumber2 : (ds ++ ['-'] ++ es).foldlM scanChar st =
              .ok ⟨.number2, toInt (value ds), toInt (value es), st.bms⟩ := by
            rw [List.foldlM_append, hinterval, ok_bind, scan_digits2 hes hne']
          cases rest' with
          | nil =>
            rw [List.append_nil] at hp
            exact absurd ⟨_, .interval hne hds hne' hes⟩ hp
          | cons c rest' =>
            rw [hassoc] at hcomma ⊢
            exact .inl (scan_stops hnumber2 hcomma (hrest' c rest' rfl) fun _ hs => nomatch hs)
      · exact .inl (scan_stops hnumber hcomma (hrest c rest rfl) fun hc => absurd hc hminus)

/-! ## What an item does -/

/-- The item is added behind a comma, and at the end. -/
def addItem (bms : Finset ℕ) : Item → Except Stop (Finset ℕ)
  | .empty => .ok bms
  | .number n => addMember bms (toInt n)
  | .interval a b => addInterval bms (toInt a) (toInt b)

/-- The cores the scanner reads. -/
def Item.read : Item → Finset ℕ
  | .empty => ∅
  | .number n => {(toInt n).toNat}
  | .interval a b => Finset.Icc (toInt a).toNat (toInt b).toNat

def Item.Added : Item → Prop
  | .empty => True
  | .number n => 0 ≤ toInt n
  | .interval a b => 0 ≤ toInt a ∧ toInt a ≤ toInt b ∧ toInt b ≠ intMax

def Item.Refused : Item → Prop
  | .interval a b => toInt b < toInt a
  | _ => False

/-- The numbers of an item fit an `int`, and so does the one behind an interval. -/
def Item.Fits : Item → Prop
  | .empty => True
  | .number n => (n : ℤ) ≤ intMax
  | .interval a b => a ≤ b ∧ (b : ℤ) < intMax

theorem foldlM_addMember {xs : List ℤ} (hxs : ∀ x ∈ xs, 0 ≤ x) (bms : Finset ℕ) :
    xs.foldlM addMember bms = .ok (bms ∪ (xs.map Int.toNat).toFinset) := by
  induction xs generalizing bms with
  | nil => rw [List.map_nil, List.toFinset_nil, Finset.union_empty]; rfl
  | cons x xs ih =>
    rw [List.forall_mem_cons] at hxs
    rw [List.foldlM_cons, addMember, if_neg (not_lt.mpr hxs.1), ok_bind, ih hxs.2, List.map_cons,
      List.toFinset_cons, Finset.insert_union, Finset.union_insert]

theorem foldlM_addMember_negative {xs : List ℤ} (hxs : ∃ x ∈ xs, x < 0) (bms : Finset ℕ) :
    xs.foldlM addMember bms = .error .negativeMember := by
  induction xs generalizing bms with
  | nil =>
    obtain ⟨x, hx, -⟩ := hxs
    cases hx
  | cons x xs ih =>
    rw [List.foldlM_cons, addMember]
    split
    · rfl
    · next hx =>
      rw [ok_bind]
      refine ih ?_ _
      obtain ⟨y, hy, hneg⟩ := hxs
      obtain rfl | hy := List.mem_cons.mp hy
      · exact absurd hneg hx
      · exact ⟨y, hy, hneg⟩

theorem mem_loopValues {num1 num2 x : ℤ} (hne : num2 ≠ intMax) :
    x ∈ loopValues num1 num2 ↔ num1 ≤ x ∧ x ≤ num2 := by
  rw [loopValues, if_neg hne, List.append_nil, List.mem_map]
  constructor
  · rintro ⟨i, hi, rfl⟩
    rw [List.mem_range] at hi
    omega
  · rintro ⟨hlo, hhi⟩
    exact ⟨(x - num1).toNat, by rw [List.mem_range]; omega, by omega⟩

theorem addItem_added {it : Item} (h : it.Added) (bms : Finset ℕ) :
    addItem bms it = .ok (bms ∪ it.read) := by
  cases it with
  | empty => exact congrArg Except.ok (Finset.union_empty bms).symm
  | number n =>
    rw [addItem, addMember, if_neg (not_lt.mpr h), Item.read, Finset.union_comm, Finset.insert_eq]
  | interval a b =>
    obtain ⟨hpos, hle, hne⟩ := h
    have hvalues : ∀ x ∈ loopValues (toInt a) (toInt b), 0 ≤ x :=
      fun x hx => hpos.trans ((mem_loopValues hne).mp hx).1
    rw [addItem, addInterval, if_neg (not_lt.mpr hle), foldlM_addMember hvalues]
    congr 2
    ext x
    rw [List.mem_toFinset, List.mem_map, Item.read, Finset.mem_Icc]
    constructor
    · rintro ⟨y, hy, rfl⟩
      rw [mem_loopValues hne] at hy
      omega
    · intro hx
      exact ⟨x, (mem_loopValues hne).mpr (by omega), Int.toNat_natCast x⟩

theorem addItem_refused {it : Item} (h : it.Refused) (bms : Finset ℕ) :
    addItem bms it = .error .null := by
  cases it with
  | empty => cases h
  | number n => cases h
  | interval a b => exact if_pos h

theorem addItem_raises {it : Item} (hadded : ¬ it.Added) (hrefused : ¬ it.Refused)
    (bms : Finset ℕ) : addItem bms it = .error .negativeMember := by
  cases it with
  | empty => exact absurd trivial hadded
  | number n => exact if_pos (not_le.mp hadded)
  | interval a b =>
    have hle : toInt a ≤ toInt b := not_lt.mp hrefused
    rw [addItem, addInterval, if_neg (not_lt.mpr hle)]
    refine foldlM_addMember_negative ?_ bms
    by_cases hne : toInt b = intMax
    · refine ⟨-2 ^ 31, ?_, by decide⟩
      rw [loopValues, if_pos hne]
      exact List.mem_append_right _ (List.mem_singleton_self _)
    · refine ⟨toInt a, (mem_loopValues hne).mpr ⟨le_refl _, hle⟩, ?_⟩
      by_contra hpos
      exact hadded ⟨not_lt.mp hpos, hle, hne⟩

/-- What fits is read as it stands. -/
theorem Item.Fits.added {it : Item} (h : it.Fits) : it.Added := by
  cases it with
  | empty => trivial
  | number n =>
    change 0 ≤ toInt n
    rw [toInt_of_le h]
    exact Int.natCast_nonneg n
  | interval a b =>
    obtain ⟨hle, hlt⟩ := h
    have ha : (a : ℤ) ≤ intMax := (Int.ofNat_le.mpr hle).trans hlt.le
    change 0 ≤ toInt a ∧ toInt a ≤ toInt b ∧ toInt b ≠ intMax
    rw [toInt_of_le ha, toInt_of_le hlt.le]
    exact ⟨Int.natCast_nonneg a, Int.ofNat_le.mpr hle, hlt.ne⟩

theorem Item.Fits.read_eq {it : Item} (h : it.Fits) : it.read = it.cores := by
  cases it with
  | empty => rfl
  | number n => rw [Item.read, Item.cores, toInt_of_le h, Int.toNat_natCast]
  | interval a b =>
    have ha : (a : ℤ) ≤ intMax := (Int.ofNat_le.mpr h.1).trans h.2.le
    rw [Item.read, Item.cores, toInt_of_le ha, toInt_of_le h.2.le, Int.toNat_natCast,
      Int.toNat_natCast]

end Hdb.Cpuset

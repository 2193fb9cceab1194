import Hdb.ResGroup.CpusetScan

/-!
# Reading a string of cores

A text is read as its items are (`scan_outcome`), one after the other. So it is read as what it
denotes exactly when its numbers fit an `int`, or when it denotes nothing and an item is refused
before one raises the error (`readExactly_iff`).
-/

namespace Hdb.Cpuset

/-! ## The whole text -/

/-- A text with a comma behind every item. -/
def joined (ps : List (List Char)) : List Char := ps.flatMap (· ++ [','])

/-- Behind a comma. -/
theorem scanChar_comma {st : Scanner} (h : st.Fresh) (it : Item) :
    scanChar (st.after it) ',' = (do
      let bms ← addItem st.bms it
      return if it = .empty then st else ⟨.begin, 0, 0, bms⟩) := by
  cases it with
  | empty =>
    rw [scanChar, if_pos rfl]
    obtain hs | hs := h.s
    · simp only [Scanner.after, hs]
      rfl
    · simp only [Scanner.after, hs]
      rfl
  | number n => rfl
  | interval a b => rfl

/-- At the end. -/
theorem scanEnd_after {st : Scanner} (h : st.Fresh) (it : Item) :
    scanEnd (st.after it) = if st.s = .initial ∧ it = .empty then .error .null
      else addItem st.bms it := by
  cases it with
  | empty =>
    obtain hs | hs := h.s
    · rw [if_pos ⟨hs, rfl⟩, Scanner.after, scanEnd, hs]
    · have hbegin : ¬ (st.s = .initial ∧ Item.empty = .empty) :=
        fun hinit => absurd (hs.symm.trans hinit.1) (by decide)
      rw [if_neg hbegin, Scanner.after, scanEnd, hs]
      rfl
  | number n =>
    have hne : Item.number n ≠ .empty := by simp
    rw [if_neg fun hinit => hne hinit.2]
    rfl
  | interval a b =>
    have hne : Item.interval a b ≠ .empty := by simp
    rw [if_neg fun hinit => hne hinit.2]
    rfl

/-- **Items that are added leave the scanner between two items.** -/
theorem scan_joined {ps : List (List Char)} {items : List Item} (hps : List.Forall₂ Reads ps items)
    (hitems : ∀ it ∈ items, it.Added) {st : Scanner} (h : st.Fresh) :
    ∃ st', (joined ps).foldlM scanChar st = .ok st' ∧ st'.Fresh ∧
      st'.bms = st.bms ∪ items.toFinset.biUnion Item.read ∧
      (st'.s = .initial ↔ st.s = .initial ∧ ∀ it ∈ items, it = .empty) := by
  induction hps generalizing st with
  | nil => exact ⟨st, rfl, h, by simp, by simp⟩
  | cons hp hps ih =>
    rename_i p it ps items
    rw [List.forall_mem_cons] at hitems
    have hcomma := scanChar_comma h it
    rw [addItem_added hitems.1, ok_bind] at hcomma
    have hstep : (joined (p :: ps)).foldlM scanChar st =
        (joined ps).foldlM scanChar
          (if it = .empty then st else ⟨.begin, 0, 0, st.bms ∪ it.read⟩) := by
      rw [joined, List.flatMap_cons, List.append_assoc, List.foldlM_append, scan_item hp h, ok_bind,
        List.foldlM_append, List.foldlM_cons, hcomma]
      rfl
    rw [hstep]
    split
    · next hempty =>
      subst hempty
      obtain ⟨st', hst', hfresh, hbms, hs⟩ := ih hitems.2 h
      refine ⟨st', hst', hfresh, ?_, ?_⟩
      · rw [hbms, List.toFinset_cons, Finset.biUnion_insert, Item.read, Finset.empty_union]
      · rw [hs, List.forall_mem_cons, eq_self, true_and]
    · next hne =>
      have hbegin : Scanner.Fresh ⟨.begin, 0, 0, st.bms ∪ it.read⟩ := ⟨.inr rfl, rfl, rfl⟩
      obtain ⟨st', hst', hfresh, hbms, hs⟩ := ih hitems.2 hbegin
      refine ⟨st', hst', hfresh, ?_, ?_⟩
      · rw [hbms, List.toFinset_cons, Finset.biUnion_insert, Finset.union_assoc]
      · rw [hs, List.forall_mem_cons]
        constructor
        · rintro ⟨hbegin, -⟩
          cases hbegin
        · rintro ⟨-, hempty, -⟩
          exact absurd hempty hne

/-! ## What becomes of a text -/

theorem intercalate_append (pre : List (List Char)) {ps : List (List Char)} (hps : ps ≠ []) :
    [','].intercalate (pre ++ ps) = joined pre ++ [','].intercalate ps := by
  induction pre with
  | nil => rfl
  | cons p pre ih =>
    rw [List.cons_append, List.intercalate_cons_of_ne_nil
      (List.append_ne_nil_of_right_ne_nil _ hps), ih]
    simp only [joined, List.flatMap_cons, List.append_assoc]

/-- The scan from between two items to the end of the text. -/
def scanFrom (st : Scanner) (text : List Char) : Except Stop (Finset ℕ) := do
  let st ← text.foldlM scanChar st
  scanEnd st

theorem scanFrom_append {pre text : List Char} {st st' : Scanner}
    (h : pre.foldlM scanChar st = .ok st') : scanFrom st (pre ++ text) = scanFrom st' text := by
  rw [scanFrom, List.foldlM_append, h, ok_bind, scanFrom]

/-- An item that is not added decides what becomes of the text. -/
theorem scanFrom_stops {p : List Char} {ps : List (List Char)} {it : Item} (hp : Reads p it)
    {st : Scanner} (h : st.Fresh) {e : Stop} (hitem : addItem st.bms it = .error e) :
    scanFrom st ([','].intercalate (p :: ps)) = .error e := by
  have hne : it ≠ .empty := by
    rintro rfl
    cases hitem
  cases ps with
  | nil =>
    rw [List.intercalate_singleton, scanFrom, scan_item hp h, ok_bind, scanEnd_after h,
      if_neg fun hempty => hne hempty.2, hitem]
  | cons q ps =>
    rw [List.intercalate_cons_of_ne_nil (List.cons_ne_nil q ps), List.append_assoc, scanFrom,
      List.foldlM_append, scan_item hp h, ok_bind, List.singleton_append, List.foldlM_cons,
      scanChar_comma h, hitem]
    rfl

theorem scanFrom_no_item {p : List Char} {ps : List (List Char)} (hp : ¬ ∃ it, Reads p it)
    (hcomma : ',' ∉ p) {st : Scanner} (h : st.Fresh) :
    scanFrom st ([','].intercalate (p :: ps)) = .error .null := by
  obtain hnull | ⟨st', hst', hs⟩ := scan_no_item hp hcomma h
  · cases ps with
    | nil => rw [List.intercalate_singleton, scanFrom, hnull, error_bind]
    | cons q ps =>
      rw [List.intercalate_cons_of_ne_nil (List.cons_ne_nil q ps), List.append_assoc, scanFrom,
        List.foldlM_append, hnull, error_bind, error_bind]
  · cases ps with
    | nil => rw [List.intercalate_singleton, scanFrom, hst', ok_bind, scanEnd, hs]
    | cons q ps =>
      have hstop : scanChar st' ',' = .error .null := by rw [scanChar, if_pos rfl, hs]
      rw [List.intercalate_cons_of_ne_nil (List.cons_ne_nil q ps), List.append_assoc, scanFrom,
        List.foldlM_append, hst', ok_bind, List.singleton_append, List.foldlM_cons, hstop,
        error_bind, error_bind]

/-- A text whose items are all added. -/
theorem scanFrom_added {ps : List (List Char)} {items : List Item}
    (hps : List.Forall₂ Reads ps items) (hne : ps ≠ []) (hitems : ∀ it ∈ items, it.Added)
    {st : Scanner} (h : st.Fresh) : scanFrom st ([','].intercalate ps) =
      if st.s = .initial ∧ ∀ it ∈ items, it = .empty then .error .null
      else .ok (st.bms ∪ items.toFinset.biUnion Item.read) := by
  induction hps generalizing st with
  | nil => exact absurd rfl hne
  | cons hp hps ih =>
    rename_i p it ps items
    cases hps with
    | nil =>
      rw [List.intercalate_singleton, scanFrom, scan_item hp h, ok_bind, scanEnd_after h,
        addItem_added (hitems it List.mem_cons_self)]
      simp
    | cons hq hps =>
      rename_i q it' ps items
      rw [List.forall_mem_cons] at hitems
      have hone : List.Forall₂ Reads [p] [it] := .cons hp .nil
      obtain ⟨st', hst', hfresh, hbms, hs⟩ :=
        scan_joined hone (List.forall_mem_singleton.mpr hitems.1) h
      have hsplit := intercalate_append [p] (List.cons_ne_nil q ps)
      rw [List.singleton_append] at hsplit
      rw [List.forall_mem_singleton] at hs
      rw [hsplit, scanFrom_append hst', ih (List.cons_ne_nil q ps) hitems.2 hfresh]
      have hiff : (st'.s = .initial ∧ ∀ x ∈ it' :: items, x = .empty) ↔
          st.s = .initial ∧ ∀ x ∈ it :: it' :: items, x = .empty := by
        rw [hs, List.forall_mem_cons (a := it), and_assoc]
      have hset : st'.bms ∪ (it' :: items).toFinset.biUnion Item.read =
          st.bms ∪ (it :: it' :: items).toFinset.biUnion Item.read := by
        rw [hbms, Finset.union_assoc, List.toFinset_cons (a := it), Finset.biUnion_insert]
        simp
      exact if_congr hiff rfl (congrArg Except.ok hset)

theorem start_fresh : Scanner.start.Fresh := ⟨.inl rfl, rfl, rfl⟩

theorem exists_items {P : Item → Prop} {ps : List (List Char)}
    (h : ∀ p ∈ ps, ∃ it, Reads p it ∧ P it) :
    ∃ items, List.Forall₂ Reads ps items ∧ ∀ it ∈ items, P it := by
  induction ps with
  | nil => exact ⟨[], .nil, List.forall_mem_nil _⟩
  | cons p ps ih =>
    obtain ⟨⟨it, hit, hP⟩, hps⟩ := List.forall_mem_cons.mp h
    obtain ⟨items, hitems, hall⟩ := ih hps
    exact ⟨it :: items, .cons hit hitems, List.forall_mem_cons.mpr ⟨hP, hall⟩⟩

theorem exists_item {ps : List (List Char)} {items : List Item}
    (h : List.Forall₂ Reads ps items) {p : List Char} (hp : p ∈ ps) : ∃ it ∈ items, Reads p it := by
  induction h with
  | nil => cases hp
  | cons hread _ ih =>
    obtain rfl | hp := List.mem_cons.mp hp
    · exact ⟨_, List.mem_cons_self, hread⟩
    · obtain ⟨it, hit, hreads⟩ := ih hp
      exact ⟨it, List.mem_cons_of_mem _ hit, hreads⟩

/-- No piece has a comma in it. -/
theorem comma_notMem_splitOn (text : List Char) : ∀ p ∈ text.splitOn ',', ',' ∉ p := by
  induction text with
  | nil =>
    intro p hp
    rw [List.splitOn_nil, List.mem_singleton] at hp
    exact hp ▸ List.not_mem_nil
  | cons c text ih =>
    intro p hp
    rw [List.splitOn_cons_eq_if_modifyHead] at hp
    split at hp
    · obtain rfl | hp := List.mem_cons.mp hp
      · exact List.not_mem_nil
      · exact ih p hp
    · next hc =>
      obtain ⟨q, qs, hqs⟩ := List.exists_cons_of_ne_nil (List.splitOn_ne_nil ',' text)
      rw [hqs, List.modifyHead_cons] at hp
      rw [hqs] at ih
      obtain rfl | hp := List.mem_cons.mp hp
      · rw [List.mem_cons, not_or]
        exact ⟨fun h => hc (beq_iff_eq.mpr h.symm), ih q List.mem_cons_self⟩
      · exact ih p (List.mem_cons_of_mem q hp)

/-- The scanner returns `NULL` at an item that follows only items that are added. -/
def StopsAtRefused (text : List Char) : Prop :=
  ∃ pre p post, text.splitOn ',' = pre ++ p :: post ∧ (∀ q ∈ pre, ∃ it, Reads q it ∧ it.Added) ∧
    ((¬ ∃ it, Reads p it) ∨ ∃ it, Reads p it ∧ it.Refused)

theorem scan_eq_scanFrom (text : List Char) :
    scan text = scanFrom .start ([','].intercalate (text.splitOn ',')) := by
  rw [List.intercalate_splitOn]
  rfl

theorem scan_refused {text : List Char} (h : StopsAtRefused text) : scan text = .error .null := by
  obtain ⟨pre, p, post, htext, hpre, hp⟩ := h
  obtain ⟨items, hitems, hadded⟩ := exists_items hpre
  obtain ⟨st', hst', hfresh, -, -⟩ := scan_joined hitems hadded start_fresh
  rw [scan_eq_scanFrom, htext, intercalate_append pre (List.cons_ne_nil p post),
    scanFrom_append hst']
  obtain hp | ⟨it, hit, hrefused⟩ := hp
  · refine scanFrom_no_item hp ?_ hfresh
    exact comma_notMem_splitOn text p (htext ▸ List.mem_append_right _ List.mem_cons_self)
  · exact scanFrom_stops hit hfresh (addItem_refused hrefused _)

theorem scan_added {text : List Char} {items : List Item}
    (hitems : List.Forall₂ Reads (text.splitOn ',') items) (hadded : ∀ it ∈ items, it.Added) :
    scan text = if ∀ it ∈ items, it = .empty then .error .null
      else .ok (items.toFinset.biUnion Item.read) := by
  rw [scan_eq_scanFrom, scanFrom_added hitems (List.splitOn_ne_nil _ _) hadded start_fresh]
  refine if_congr ?_ rfl ?_
  · exact ⟨fun h => h.2, fun h => ⟨rfl, h⟩⟩
  · exact congrArg Except.ok (Finset.empty_union _)

/-- **What becomes of a text.** Its items are all added, or the first one that is not is refused, or
that one raises the error. -/
theorem scan_outcome (text : List Char) :
    (∃ items, List.Forall₂ Reads (text.splitOn ',') items ∧ ∀ it ∈ items, it.Added) ∨
      StopsAtRefused text ∨ scan text = .error .negativeMember := by
  by_cases hall : ∀ p ∈ text.splitOn ',', ∃ it, Reads p it ∧ it.Added
  · exact .inl (exists_items hall)
  · right
    classical
    push Not at hall
    obtain ⟨p, hp, hnot⟩ := hall
    -- the first piece that is not added
    have hfind : ((text.splitOn ',').find? fun p => ¬ ∃ it, Reads p it ∧ it.Added).isSome := by
      rw [List.find?_isSome]
      refine ⟨p, hp, ?_⟩
      rw [decide_eq_true_eq]
      rintro ⟨it, hit, hadded⟩
      exact hnot it hit hadded
    obtain ⟨p, hp⟩ := Option.isSome_iff_exists.mp hfind
    obtain ⟨hp, pre, post, htext, hpre⟩ := List.find?_eq_some_iff_append.mp hp
    rw [decide_eq_true_eq] at hp
    have hpre : ∀ q ∈ pre, ∃ it, Reads q it ∧ it.Added := fun q hq => by
      have hq := hpre q hq
      rw [Bool.not_eq_true', decide_eq_false_iff_not, not_not] at hq
      exact hq
    by_cases hrefused : (¬ ∃ it, Reads p it) ∨ ∃ it, Reads p it ∧ it.Refused
    · exact .inl ⟨pre, p, post, htext, hpre, hrefused⟩
    · right
      rw [not_or, not_not] at hrefused
      obtain ⟨⟨it, hit⟩, hnot⟩ := hrefused
      obtain ⟨items, hitems, hadded⟩ := exists_items hpre
      obtain ⟨st', hst', hfresh, -, -⟩ := scan_joined hitems hadded start_fresh
      rw [scan_eq_scanFrom, htext, intercalate_append pre (List.cons_ne_nil p post),
        scanFrom_append hst']
      exact scanFrom_stops hit hfresh
        (addItem_raises (fun h => hp ⟨it, hit, h⟩) (fun h => hnot ⟨it, hit, h⟩) _)

/-! ## What a text denotes -/

/-- Digits end where the item does. -/
theorem digits_unique {ds ds' es es' : List Char} (hds : ∀ c ∈ ds, c.isDigit)
    (hds' : ∀ c ∈ ds', c.isDigit) (h : ds ++ '-' :: es = ds' ++ '-' :: es') : ds = ds' ∧
    es = es' := by
  induction ds generalizing ds' with
  | nil =>
    cases ds' with
    | nil => exact ⟨rfl, (List.cons.inj h).2⟩
    | cons c ds' => exact absurd (List.cons.inj h).1.symm (isDigit_ne (hds' c List.mem_cons_self)).2
  | cons c ds ih =>
    rw [List.forall_mem_cons] at hds
    cases ds' with
    | nil => exact absurd (List.cons.inj h).1 (isDigit_ne hds.1).2
    | cons c' ds' =>
      rw [List.forall_mem_cons] at hds'
      obtain ⟨hhead, htail⟩ := List.cons.inj h
      obtain ⟨rfl, rfl⟩ := ih hds.2 hds'.2 htail
      exact ⟨congrArg (· :: ds) hhead, rfl⟩

/-- **A text reads as one item at most.** -/
theorem Reads.unique {p : List Char} {it it' : Item} (h : Reads p it) (h' : Reads p it') :
    it = it' := by
  have hminus : ∀ {ds es : List Char}, ¬ ∀ c ∈ ds ++ '-' :: es, c.isDigit := fun hall =>
    absurd (hall '-' (List.mem_append_right _ List.mem_cons_self)) (by decide)
  cases h with
  | empty =>
    generalize hp : ([] : List Char) = p at h'
    cases h' with
    | empty => rfl
    | number hne => exact absurd hp.symm hne
    | interval => exact absurd hp.symm (by simp)
  | number hne hds =>
    cases h' with
    | empty => exact absurd rfl hne
    | number => rfl
    | interval => exact absurd hds hminus
  | interval hne hds hne' hes =>
    rename_i ds es
    generalize hp : ds ++ '-' :: es = p at h'
    cases h' with
    | empty => exact absurd hp (by simp)
    | number _ hall => exact absurd (hp ▸ hall) hminus
    | interval _ hds' =>
      obtain ⟨rfl, rfl⟩ := digits_unique hds hds' hp
      rfl

theorem items_unique {ps : List (List Char)} {items items' : List Item}
    (h : List.Forall₂ Reads ps items) (h' : List.Forall₂ Reads ps items') : items = items' := by
  induction h generalizing items' with
  | nil =>
    cases h'
    rfl
  | cons hp _ ih =>
    cases h' with
    | cons hp' hps' => rw [hp.unique hp', ih hps']

/-- The text is read as what it denotes, and `NULL` is returned when it denotes nothing. -/
def ReadExactly (text : List Char) : Prop :=
  match scan text with
  | .ok cores => Denotes text cores
  | .error .null => ¬ ∃ cores, Denotes text cores
  | .error .negativeMember => False

/-- Every number of the text fits an `int`, and no interval ends at the largest one. -/
def NumbersFit (text : List Char) : Prop :=
  ∀ p ∈ text.splitOn ',', ∃ it, Reads p it ∧ it.Fits

theorem Item.Fits.ordered {it : Item} (h : it.Fits) : it.Ordered := by
  cases it with
  | empty => trivial
  | number n => trivial
  | interval a b => exact h.1

/-- An item that is not empty has cores. -/
theorem Item.Ordered.cores_nonempty {it : Item} (h : it.Ordered) (hne : it ≠ .empty) :
    it.cores.Nonempty := by
  cases it with
  | empty => exact absurd rfl hne
  | number n => exact Finset.singleton_nonempty n
  | interval a b => exact Finset.nonempty_Icc.mpr h

theorem cores_empty {items : List Item} (h : ∀ it ∈ items, it = .empty) :
    items.toFinset.biUnion Item.cores = ∅ := by
  refine Finset.eq_empty_of_forall_notMem fun c hc => ?_
  obtain ⟨it, hit, hc⟩ := Finset.mem_biUnion.mp hc
  rw [h it (List.mem_toFinset.mp hit)] at hc
  exact Finset.notMem_empty c hc

/-- The cores that are read are of type `int`. -/
theorem Item.read_le {it : Item} {c : ℕ} (hc : c ∈ it.read) : (c : ℤ) ≤ intMax := by
  cases it with
  | empty => exact absurd hc (Finset.notMem_empty c)
  | number n =>
    have hle := (toInt_range n).2
    rw [Item.read, Finset.mem_singleton] at hc
    have hpos : (0 : ℤ) ≤ intMax := by decide
    omega
  | interval a b =>
    have hle := (toInt_range b).2
    rw [Item.read, Finset.mem_Icc] at hc
    have hpos : (0 : ℤ) ≤ intMax := by decide
    omega

/-- What was added and denotes something fits. -/
theorem fits_of_denotes {items : List Item} (hadded : ∀ it ∈ items, it.Added)
    (hordered : ∀ it ∈ items, it.Ordered)
    (heq : items.toFinset.biUnion Item.read = items.toFinset.biUnion Item.cores) :
    ∀ it ∈ items, it.Fits := by
  have hcores : ∀ it ∈ items, ∀ c ∈ it.cores, (c : ℤ) ≤ intMax := by
    intro it hit c hc
    have hmem : c ∈ items.toFinset.biUnion Item.cores :=
      Finset.mem_biUnion.mpr ⟨it, List.mem_toFinset.mpr hit, hc⟩
    rw [← heq] at hmem
    obtain ⟨it', -, hc'⟩ := Finset.mem_biUnion.mp hmem
    exact Item.read_le hc'
  intro it hit
  have hle := hcores it hit
  cases it with
  | empty => trivial
  | number n => exact hle n (Finset.mem_singleton_self n)
  | interval a b =>
    have hab : a ≤ b := hordered _ hit
    have hb : (b : ℤ) ≤ intMax := hle b (Finset.right_mem_Icc.mpr hab)
    obtain ⟨-, -, hne⟩ := hadded _ hit
    rw [toInt_of_le hb] at hne
    exact ⟨hab, lt_of_le_of_ne hb hne⟩

theorem read_eq_cores {items : List Item} (h : ∀ it ∈ items, it.Fits) :
    items.toFinset.biUnion Item.read = items.toFinset.biUnion Item.cores :=
  Finset.biUnion_congr rfl fun it hit => (h it (List.mem_toFinset.mp hit)).read_eq

/-- A text whose numbers fit is read as what it denotes. -/
theorem readExactly_of_numbersFit {text : List Char} (h : NumbersFit text) : ReadExactly text := by
  obtain ⟨items, hitems, hfits⟩ := exists_items h
  have hscan := scan_added hitems fun it hit => (hfits it hit).added
  rw [ReadExactly, hscan]
  split_ifs with hempty
  · rintro ⟨cores, items', hitems', -, rfl, hne⟩
    rw [← items_unique hitems hitems', cores_empty hempty] at hne
    exact Finset.not_nonempty_empty hne
  · push Not at hempty
    obtain ⟨it, hit, hne⟩ := hempty
    obtain ⟨c, hc⟩ := (hfits it hit).ordered.cores_nonempty hne
    refine ⟨items, hitems, fun it hit => (hfits it hit).ordered, read_eq_cores hfits, c, ?_⟩
    rw [read_eq_cores hfits]
    exact Finset.mem_biUnion.mpr ⟨it, List.mem_toFinset.mpr hit, hc⟩

/-- **When a text is read as what it denotes.** -/
theorem readExactly_iff (text : List Char) :
    ReadExactly text ↔ NumbersFit text ∨ (¬ ∃ cores, Denotes text cores) ∧ StopsAtRefused text := by
  constructor
  · intro h
    obtain ⟨items, hitems, hadded⟩ | hrefused | hraises := scan_outcome text
    · left
      have hfits : ∀ it ∈ items, it.Fits := by
        rw [ReadExactly, scan_added hitems hadded] at h
        split_ifs at h with hempty
        · intro it hit
          rw [hempty it hit]
          trivial
        · obtain ⟨items', hitems', hordered, heq, -⟩ := h
          obtain rfl := items_unique hitems hitems'
          exact fits_of_denotes hadded hordered heq
      intro p hp
      obtain ⟨it, hit, hreads⟩ := exists_item hitems hp
      exact ⟨it, hreads, hfits it hit⟩
    · right
      rw [ReadExactly, scan_refused hrefused] at h
      exact ⟨h, hrefused⟩
    · rw [ReadExactly, hraises] at h
      exact h.elim
  · rintro (hfits | ⟨hnone, hrefused⟩)
    · exact readExactly_of_numbersFit hfits
    · rw [ReadExactly, scan_refused hrefused]
      exact hnone

end Hdb.Cpuset

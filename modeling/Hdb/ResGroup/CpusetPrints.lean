import Hdb.ResGroup.CpusetReads

/-!
# Printing a set of cores

The printer goes over the members in order and keeps the run at hand. So it prints the runs of the
set one after the other, as many as fit the buffer (`printFrom_spec`), and what it prints is read as
the set exactly when all of them do, and the set has not the largest `int` (`printsExactly_iff`).
-/

namespace Hdb.Cpuset

/-! ## The runs of a set -/

/-- The runs of neighbours among the members, from the run at hand on. -/
def runsFrom (intervalStart lastContinuousBit : ℕ) : List ℕ → List (ℕ × ℕ)
  | [] => [(intervalStart, lastContinuousBit)]
  | num :: members =>
    if num ≠ lastContinuousBit + 1 then
      (intervalStart, lastContinuousBit) :: runsFrom num num members
    else runsFrom intervalStart num members

def runs (bms : Finset ℕ) : List (ℕ × ℕ) :=
  match bms.sort (· ≤ ·) with
  | [] => []
  | num :: members => runsFrom num num members

theorem runsFrom_ne_nil (start last : ℕ) (members : List ℕ) : runsFrom start last members ≠ [] := by
  induction members generalizing start last with
  | nil => exact List.cons_ne_nil _ _
  | cons num members ih =>
    rw [runsFrom]
    split
    · exact List.cons_ne_nil _ _
    · exact ih start num

/-- The runs are apart, and cover the run at hand and the members. -/
theorem runsFrom_spec {start last : ℕ} {members : List ℕ} (hle : start ≤ last)
    (hsorted : (last :: members).Pairwise (· < ·)) :
    (∀ r ∈ runsFrom start last members, start ≤ r.1 ∧ r.1 ≤ r.2) ∧
      (runsFrom start last members).Pairwise (fun r r' => r.2 + 1 < r'.1) ∧
      ∀ c, (∃ r ∈ runsFrom start last members, r.1 ≤ c ∧ c ≤ r.2) ↔
        (start ≤ c ∧ c ≤ last) ∨ c ∈ members := by
  induction members generalizing start last with
  | nil =>
    refine ⟨?_, List.pairwise_singleton _ _, fun c => ?_⟩
    · rw [runsFrom, List.forall_mem_singleton]
      exact ⟨le_refl start, hle⟩
    · simp [runsFrom]
  | cons num members ih =>
    obtain ⟨hlast, hmembers⟩ := List.pairwise_cons.mp hsorted
    have hnum := hlast num List.mem_cons_self
    rw [runsFrom]
    split
    · next hgap =>
      obtain ⟨hbounds, hpairwise, hcover⟩ := ih (le_refl num) hmembers
      refine ⟨?_, ?_, fun c => ?_⟩
      · refine List.forall_mem_cons.mpr ⟨⟨le_refl start, hle⟩, fun r hr => ?_⟩
        obtain ⟨hr₁, hr₂⟩ := hbounds r hr
        exact ⟨by omega, hr₂⟩
      · refine List.pairwise_cons.mpr ⟨fun r hr => ?_, hpairwise⟩
        obtain ⟨hr₁, -⟩ := hbounds r hr
        dsimp only
        omega
      · rw [List.exists_mem_cons_iff, hcover, List.mem_cons]
        have hself : num ≤ c ∧ c ≤ num ↔ c = num := by omega
        rw [hself]
    · next hnext =>
      rw [not_not] at hnext
      obtain ⟨hbounds, hpairwise, hcover⟩ := ih (hle.trans hnum.le) hmembers
      refine ⟨hbounds, hpairwise, fun c => ?_⟩
      rw [hcover, List.mem_cons, ← or_assoc]
      have hself : start ≤ c ∧ c ≤ num ↔ (start ≤ c ∧ c ≤ last) ∨ c = num := by omega
      rw [hself]

/-- A run as an item. -/
def runItem (r : ℕ × ℕ) : Item := if r.1 = r.2 then .number r.1 else .interval r.1 r.2

def runText (r : ℕ × ℕ) : List Char := printRun r.1 r.2

/-- The text without the limit of the buffer. -/
def fullText (bms : Finset ℕ) : List Char := [','].intercalate ((runs bms).map runText)

theorem reads_runText (r : ℕ × ℕ) : Reads (runText r) (runItem r) := by
  have hdigits : ∀ n, ∀ c ∈ Nat.toDigits 10 n, c.isDigit := fun n c hc =>
    Nat.isDigit_of_mem_toDigits (by decide) (by decide) hc
  have hvalue : ∀ n, value (Nat.toDigits 10 n) = n := fun n => Nat.ofDigitChars_ten_toDigits
  rw [runText, printRun, runItem]
  split
  · have hread := Reads.number Nat.toDigits_ne_nil (hdigits r.1)
    rwa [hvalue] at hread
  · have hread := Reads.interval Nat.toDigits_ne_nil (hdigits r.1) Nat.toDigits_ne_nil (hdigits r.2)
    rwa [hvalue, hvalue] at hread

/-- What the scanner reads of a run whose cores are of type `int`. -/
theorem read_runItem {r : ℕ × ℕ} (hle : r.1 ≤ r.2) (hmax : (r.2 : ℤ) ≤ intMax) :
    (runItem r).read = Finset.Icc r.1 r.2 := by
  have hmax' : (r.1 : ℤ) ≤ intMax := (Int.ofNat_le.mpr hle).trans hmax
  rw [runItem]
  split
  · next heq =>
    rw [Item.read, toInt_of_le hmax', Int.toNat_natCast, ← heq, Finset.Icc_self]
  · rw [Item.read, toInt_of_le hmax', toInt_of_le hmax, Int.toNat_natCast, Int.toNat_natCast]

/-! ## The text that is printed -/

/-- **The printer prints the runs that fit**: all of them, or those before one that does not. At the
member 2^31-1 it goes astray. -/
theorem printFrom_spec (cpusetSize : ℕ) (cpuset : List Char) (start last : ℕ) {members : List ℕ}
    (hsorted : (last :: members).Pairwise (· < ·))
    (hmax : ∀ c ∈ last :: members, (c : ℤ) ≤ intMax) :
    (cpuset.length + ([','].intercalate ((runsFrom start last members).map runText)).length <
        cpusetSize ∧ 2147483647 ∉ last :: members ∧
      printFrom cpusetSize cpuset start last members =
        .done (cpuset ++ [','].intercalate ((runsFrom start last members).map runText))) ∨
    (cpusetSize ≤
        cpuset.length + ([','].intercalate ((runsFrom start last members).map runText)).length ∧
      ∃ pre r post, runsFrom start last members = pre ++ r :: post ∧
        printFrom cpusetSize cpuset start last members =
          .done (cpuset ++ joined (pre.map runText))) ∨
    (2147483647 ∈ last :: members ∧
      ∃ text, printFrom cpusetSize cpuset start last members = .astray text) := by
  induction members generalizing cpuset start last with
  | nil =>
    rw [runsFrom, printFrom, List.map_singleton, List.intercalate_singleton]
    by_cases hlast : (last : ℤ) = intMax
    · have hlast' : 2147483647 = last := by
        rw [intMax] at hlast
        omega
      exact .inr (.inr ⟨List.mem_singleton.mpr hlast', cpuset, if_pos hlast⟩)
    rw [if_neg hlast]
    by_cases hfits : cpuset.length + (printRun start last).length ≥ cpusetSize
    · refine .inr (.inl ⟨hfits, [], (start, last), [], rfl, ?_⟩)
      rw [if_pos hfits]
      simp [joined]
    · refine .inl ⟨not_le.mp hfits, fun hmem => hlast ?_, if_neg hfits⟩
      rw [← List.mem_singleton.mp hmem]
      rfl
  | cons num members ih =>
    obtain ⟨hlt, hmembers⟩ := List.pairwise_cons.mp hsorted
    obtain ⟨-, hmax'⟩ := List.forall_mem_cons.mp hmax
    -- the member at hand is not the last one
    have hmem : 2147483647 ∈ last :: num :: members ↔ 2147483647 ∈ num :: members := by
      rw [List.mem_cons, or_iff_right]
      intro hlast
      have hnum := hlt num List.mem_cons_self
      have hnum' := hmax' num List.mem_cons_self
      rw [intMax] at hnum'
      omega
    rw [runsFrom, printFrom, hmem]
    split
    · -- the run at hand ends
      have hfull : [','].intercalate (((start, last) :: runsFrom num num members).map runText) =
          (printRun start last ++ [',']) ++
            [','].intercalate ((runsFrom num num members).map runText) := by
        rw [List.map_cons, List.intercalate_cons_of_ne_nil]
        · rfl
        · exact fun h => runsFrom_ne_nil num num members (List.map_eq_nil_iff.mp h)
      have hlen :
          ([','].intercalate (((start, last) :: runsFrom num num members).map runText)).length =
            (printRun start last ++ [',']).length +
              ([','].intercalate ((runsFrom num num members).map runText)).length := by
        rw [hfull]
        exact List.length_append
      rw [hlen, hfull]
      by_cases hfits : cpuset.length + (printRun start last ++ [',']).length ≥ cpusetSize
      · refine .inr (.inl ⟨by omega, [], (start, last), runsFrom num num members, rfl, ?_⟩)
        rw [if_pos hfits]
        simp [joined]
      · rw [if_neg hfits]
        have hih := ih (cpuset ++ (printRun start last ++ [','])) num num hmembers hmax'
        rw [List.length_append, Nat.add_assoc, List.append_assoc] at hih
        obtain hdone | ⟨hge, pre, r, post, hruns, hprint⟩ | hastray := hih
        · exact .inl hdone
        · refine .inr (.inl ⟨hge, (start, last) :: pre, r, post, ?_, ?_⟩)
          · rw [hruns, List.cons_append]
          · rw [hprint, List.map_cons, joined, joined, List.flatMap_cons, List.append_assoc]
            rfl
        · exact .inr (.inr hastray)
    · exact ih cpuset start num hmembers hmax'

theorem length_printFrom_lt {cpusetSize : ℕ} {cpuset : List Char} (h : cpuset.length < cpusetSize)
    (start last : ℕ) (members : List ℕ) :
    (printFrom cpusetSize cpuset start last members).cpuset.length < cpusetSize := by
  induction members generalizing cpuset start last with
  | nil =>
    rw [printFrom]
    split
    · exact h
    · dsimp only
      split
      · exact h
      · next hfits =>
        rw [Printed.cpuset, List.length_append]
        exact not_le.mp hfits
  | cons num members ih =>
    rw [printFrom]
    split
    · dsimp only
      split
      · exact h
      · next hfits =>
        refine ih ?_ num num
        rw [List.length_append]
        exact not_le.mp hfits
    · exact ih h start num

/-- **Nothing is written outside a buffer that has any room.** -/
theorem written_lt_iff (bms : Finset ℕ) (cpusetSize : ℕ) :
    (∀ w ∈ written bms cpusetSize, w < cpusetSize) ↔ 0 < cpusetSize := by
  constructor
  · intro h
    exact h 0 List.mem_cons_self
  · intro hpos w hw
    have hlen : (bitsetToCpuset bms cpusetSize).cpuset.length < cpusetSize := by
      rw [bitsetToCpuset]
      split
      · exact hpos
      · exact length_printFrom_lt hpos _ _ _
    obtain rfl | hw := List.mem_cons.mp hw
    · exact hpos
    · rw [List.mem_range] at hw
      omega

/-- The same, said of a whole set. -/
theorem runs_spec {bms : Finset ℕ} (hne : bms.Nonempty) :
    (∀ r ∈ runs bms, r.1 ≤ r.2) ∧ (runs bms).Pairwise (fun r r' => r.2 + 1 < r'.1) ∧
      runs bms ≠ [] ∧ ∀ c, (∃ r ∈ runs bms, r.1 ≤ c ∧ c ≤ r.2) ↔ c ∈ bms := by
  have hmem : ∀ c, c ∈ bms.sort (· ≤ ·) ↔ c ∈ bms := fun c => Finset.mem_sort (· ≤ ·)
  have hsorted := (Finset.sortedLT_sort bms).pairwise
  unfold runs
  generalize bms.sort (· ≤ ·) = members at hmem hsorted ⊢
  cases members with
  | nil =>
    obtain ⟨c, hc⟩ := hne
    exact absurd ((hmem c).mpr hc) List.not_mem_nil
  | cons num members =>
    obtain ⟨hbounds, hpairwise, hcover⟩ := runsFrom_spec (le_refl num) hsorted
    refine ⟨fun r hr => (hbounds r hr).2, hpairwise, runsFrom_ne_nil _ _ _, fun c => ?_⟩
    have hself : num ≤ c ∧ c ≤ num ↔ c = num := by omega
    rw [hcover, ← hmem, List.mem_cons, hself]

theorem bitsetToCpuset_spec {bms : Finset ℕ} (hne : bms.Nonempty)
    (hmax : ∀ c ∈ bms, (c : ℤ) ≤ intMax) (cpusetSize : ℕ) :
    ((fullText bms).length < cpusetSize ∧ 2147483647 ∉ bms ∧
      bitsetToCpuset bms cpusetSize = .done (fullText bms)) ∨
    (cpusetSize ≤ (fullText bms).length ∧ ∃ pre r post, runs bms = pre ++ r :: post ∧
        bitsetToCpuset bms cpusetSize = .done (joined (pre.map runText))) ∨
    (2147483647 ∈ bms ∧ ∃ text, bitsetToCpuset bms cpusetSize = .astray text) := by
  have hmem : ∀ c, c ∈ bms.sort (· ≤ ·) ↔ c ∈ bms := fun c => Finset.mem_sort (· ≤ ·)
  have hsorted := (Finset.sortedLT_sort bms).pairwise
  simp only [← hmem] at hmax ⊢
  unfold fullText runs bitsetToCpuset
  cases hmembers : bms.sort (· ≤ ·) with
  | nil =>
    obtain ⟨c, hc⟩ := hne
    exact absurd (hmembers ▸ (hmem c).mpr hc) List.not_mem_nil
  | cons num members =>
    rw [hmembers] at hsorted hmax
    have hspec := printFrom_spec cpusetSize [] num num hsorted hmax
    rwa [List.length_nil, Nat.zero_add, List.nil_append] at hspec

/-! ## Reading it back -/

/-- A printed text has no terminator and no newline in it. -/
theorem cpusetText_printed {text : List Char} {len : ℕ}
    (htext : ∀ c ∈ text, c.isDigit ∨ c = '-' ∨ c = ',') (hlen : text.length ≤ len) :
    cpusetText text len = text := by
  rw [cpusetText, List.take_of_length_le hlen, List.takeWhile_eq_self_iff]
  intro c hc
  have hplain : c.toNat ≠ 0 ∧ c ≠ '\n' := by
    obtain hdigit | rfl | rfl := htext c hc
    · constructor
      · intro hzero
        rw [Char.isDigit, Bool.and_eq_true, decide_eq_true_eq] at hdigit
        have hlo : (48 : ℕ) ≤ c.toNat := hdigit.1
        omega
      · rintro rfl
        exact absurd hdigit (by decide)
    · exact ⟨by decide, by decide⟩
    · exact ⟨by decide, by decide⟩
  exact decide_eq_true hplain

theorem runText_chars (r : ℕ × ℕ) : ∀ c ∈ runText r, c.isDigit ∨ c = '-' := by
  have hdigits : ∀ n, ∀ c ∈ Nat.toDigits 10 n, c.isDigit := fun n c hc =>
    Nat.isDigit_of_mem_toDigits (by decide) (by decide) hc
  intro c hc
  rw [runText, printRun] at hc
  split at hc
  · exact .inl (hdigits _ c hc)
  · obtain hc | hc := List.mem_append.mp hc
    · exact .inl (hdigits _ c hc)
    · obtain rfl | hc := List.mem_cons.mp hc
      · exact .inr rfl
      · exact .inl (hdigits _ c hc)

theorem comma_notMem_runText (r : ℕ × ℕ) : ',' ∉ runText r := fun h => by
  obtain hc | hc := runText_chars r _ h
  · exact absurd hc (by decide)
  · exact absurd hc (by decide)

theorem joined_chars (rs : List (ℕ × ℕ)) :
    ∀ c ∈ joined (rs.map runText), c.isDigit ∨ c = '-' ∨ c = ',' := by
  intro c hc
  obtain ⟨p, hp, hc⟩ := List.mem_flatMap.mp hc
  obtain ⟨r, -, rfl⟩ := List.mem_map.mp hp
  obtain hc | hc := List.mem_append.mp hc
  · exact (runText_chars r c hc).imp_right .inl
  · exact .inr (.inr (List.mem_singleton.mp hc))

/-- The printed runs, split at their commas again. -/
theorem splitOn_runs {rs : List (ℕ × ℕ)} (hne : rs ≠ []) :
    ([','].intercalate (rs.map runText)).splitOn ',' = rs.map runText := by
  refine List.splitOn_intercalate ',' (fun p hp => ?_) fun h => hne (List.map_eq_nil_iff.mp h)
  obtain ⟨r, -, rfl⟩ := List.mem_map.mp hp
  exact comma_notMem_runText r

theorem splitOn_joined (rs : List (ℕ × ℕ)) :
    (joined (rs.map runText)).splitOn ',' = rs.map runText ++ [[]] := by
  have hjoined : [','].intercalate (rs.map runText ++ [[]]) = joined (rs.map runText) := by
    rw [intercalate_append _ (List.cons_ne_nil _ _), List.intercalate_singleton, List.append_nil]
  rw [← hjoined]
  refine List.splitOn_intercalate ',' (fun p hp => ?_) (by simp)
  obtain hp | hp := List.mem_append.mp hp
  · obtain ⟨r, -, rfl⟩ := List.mem_map.mp hp
    exact comma_notMem_runText r
  · rw [List.mem_singleton.mp hp]
    exact List.not_mem_nil

theorem reads_runs (rs : List (ℕ × ℕ)) : List.Forall₂ Reads (rs.map runText) (rs.map runItem) := by
  rw [List.forall₂_map_left_iff, List.forall₂_map_right_iff, List.forall₂_same]
  exact fun r _ => reads_runText r

theorem runItem_ne_empty (r : ℕ × ℕ) : runItem r ≠ .empty := by
  rw [runItem]
  split <;> exact nofun

/-- A scan that returns a set has added its items. -/
theorem scan_eq_ok {text : List Char} {items : List Item} {cores : Finset ℕ}
    (hitems : List.Forall₂ Reads (text.splitOn ',') items) (h : scan text = .ok cores) :
    (∀ it ∈ items, it.Added) ∧ cores = items.toFinset.biUnion Item.read := by
  obtain ⟨items', hitems', hadded⟩ | hrefused | hraises := scan_outcome text
  · obtain rfl := items_unique hitems hitems'
    rw [scan_added hitems hadded] at h
    split_ifs at h
    exact ⟨hadded, (Except.ok.inj h).symm⟩
  · rw [scan_refused hrefused] at h
    cases h
  · rw [hraises] at h
    cases h

/-- **A text that was cut is not read as the set**: the run that did not fit is missing. -/
theorem scan_joined_ne {bms : Finset ℕ} (hne : bms.Nonempty)
    (hmax : ∀ c ∈ bms, (c : ℤ) ≤ intMax) {pre post : List (ℕ × ℕ)} {r : ℕ × ℕ}
    (hruns : runs bms = pre ++ r :: post) : scan (joined (pre.map runText)) ≠ .ok bms := by
  intro hscan
  obtain ⟨hbounds, hpairwise, -, hcover⟩ := runs_spec hne
  rw [hruns] at hbounds hpairwise hcover
  have hreads : List.Forall₂ Reads ((joined (pre.map runText)).splitOn ',')
      (pre.map runItem ++ [.empty]) := by
    rw [splitOn_joined]
    exact List.rel_append (reads_runs pre) (.cons .empty .nil)
  obtain ⟨-, hcores⟩ := scan_eq_ok hreads hscan
  -- the last core of the run is in the set, and in none of the runs before it
  have hr : r ∈ pre ++ r :: post := List.mem_append_right _ List.mem_cons_self
  have hrle := hbounds r hr
  have hmem : r.2 ∈ bms := (hcover r.2).mp ⟨r, hr, hrle, le_refl _⟩
  rw [hcores] at hmem
  obtain ⟨it, hit, hread⟩ := Finset.mem_biUnion.mp hmem
  rw [List.mem_toFinset, List.mem_append, List.mem_singleton, List.mem_map] at hit
  obtain ⟨q, hq, rfl⟩ | rfl := hit
  · have hqle := hbounds q (List.mem_append_left _ hq)
    have hqmem : q.2 ∈ bms :=
      (hcover q.2).mp ⟨q, List.mem_append_left _ hq, hqle, le_refl _⟩
    rw [read_runItem hqle (hmax _ hqmem), Finset.mem_Icc] at hread
    have happart := (List.pairwise_append.mp hpairwise).2.2 q hq r List.mem_cons_self
    omega
  · exact Finset.notMem_empty _ hread

theorem biUnion_runs {bms : Finset ℕ} (hne : bms.Nonempty) (hmax : ∀ c ∈ bms, (c : ℤ) ≤ intMax) :
    ((runs bms).map runItem).toFinset.biUnion Item.read = bms := by
  obtain ⟨hbounds, -, -, hcover⟩ := runs_spec hne
  have hread : ∀ r ∈ runs bms, (runItem r).read = Finset.Icc r.1 r.2 := fun r hr =>
    read_runItem (hbounds r hr) (hmax _ ((hcover r.2).mp ⟨r, hr, hbounds r hr, le_refl _⟩))
  ext c
  rw [← hcover, Finset.mem_biUnion]
  constructor
  · rintro ⟨it, hit, hc⟩
    obtain ⟨r, hr, rfl⟩ := List.mem_map.mp (List.mem_toFinset.mp hit)
    rw [hread r hr, Finset.mem_Icc] at hc
    exact ⟨r, hr, hc⟩
  · rintro ⟨r, hr, hc⟩
    refine ⟨runItem r, List.mem_toFinset.mpr (List.mem_map_of_mem hr), ?_⟩
    rw [hread r hr, Finset.mem_Icc]
    exact hc

theorem runItem_fits {bms : Finset ℕ} (hne : bms.Nonempty) (hmax : ∀ c ∈ bms, (c : ℤ) ≤ intMax)
    (hlast : 2147483647 ∉ bms) : ∀ r ∈ runs bms, (runItem r).Fits := by
  intro r hr
  obtain ⟨hbounds, -, -, hcover⟩ := runs_spec hne
  have hle := hbounds r hr
  have hmem := (hcover r.2).mp ⟨r, hr, hle, le_refl _⟩
  have hle' := hmax r.2 hmem
  rw [runItem]
  split
  · next heq => exact heq ▸ hle'
  · refine ⟨hle, lt_of_le_of_ne hle' fun heq => hlast ?_⟩
    have hr₂ : r.2 = 2147483647 := by
      rw [intMax] at heq
      omega
    exact hr₂ ▸ hmem

/-- The whole text is read as the set. -/
theorem scan_fullText {bms : Finset ℕ} (hne : bms.Nonempty)
    (hmax : ∀ c ∈ bms, (c : ℤ) ≤ intMax) (hlast : 2147483647 ∉ bms) :
    scan (fullText bms) = .ok bms := by
  have hruns := (runs_spec hne).2.2.1
  have hreads : List.Forall₂ Reads ((fullText bms).splitOn ',') ((runs bms).map runItem) := by
    rw [fullText, splitOn_runs hruns]
    exact reads_runs _
  have hadded : ∀ it ∈ (runs bms).map runItem, it.Added := by
    intro it hit
    obtain ⟨r, hr, rfl⟩ := List.mem_map.mp hit
    exact (runItem_fits hne hmax hlast r hr).added
  obtain ⟨r, rs, hcons⟩ := List.exists_cons_of_ne_nil hruns
  have hsome : ¬ ∀ it ∈ (runs bms).map runItem, it = .empty := fun hempty =>
    runItem_ne_empty r (hempty _ (hcons ▸ List.mem_cons_self))
  rw [scan_added hreads hadded, if_neg hsome, biUnion_runs hne hmax]

theorem fullText_chars (bms : Finset ℕ) : ∀ c ∈ fullText bms, c.isDigit ∨ c = '-' ∨ c = ',' := by
  rw [fullText]
  generalize runs bms = rs
  intro c hc
  cases rs using List.reverseRecOn with
  | nil => cases hc
  | append_singleton rs r =>
    rw [List.map_append, List.map_singleton, intercalate_append _ (List.cons_ne_nil _ _),
      List.intercalate_singleton] at hc
    obtain hc | hc := List.mem_append.mp hc
    · exact joined_chars rs c hc
    · exact (runText_chars r c hc).imp_right .inl

/-- The printer stays inside the buffer, and what it leaves there is read as the set. -/
def PrintsExactly (bms : Finset ℕ) (cpusetSize : ℕ) : Prop :=
  (∀ w ∈ written bms cpusetSize, w < cpusetSize) ∧
    ∃ text, bitsetToCpuset bms cpusetSize = .done text ∧
      cpusetToBitset text cpusetSize = .ok bms

/-- **When a set is printed as it is.** -/
theorem printsExactly_iff {bms : Finset ℕ} (hne : bms.Nonempty)
    (hmax : ∀ c ∈ bms, (c : ℤ) ≤ intMax) (cpusetSize : ℕ) :
    PrintsExactly bms cpusetSize ↔
      (fullText bms).length < cpusetSize ∧ 2147483647 ∉ bms := by
  rw [PrintsExactly, written_lt_iff]
  obtain ⟨hlt, hlast, hprint⟩ | ⟨hge, pre, r, post, hruns, hprint⟩ | ⟨hlast, text, hprint⟩ :=
    bitsetToCpuset_spec hne hmax cpusetSize
  · refine iff_of_true ⟨(Nat.zero_le _).trans_lt hlt, _, hprint, ?_⟩ ⟨hlt, hlast⟩
    rw [cpusetToBitset, cpusetText_printed (fullText_chars bms) hlt.le,
      scan_fullText hne hmax hlast]
  · refine iff_of_false ?_ fun ⟨hlt, _⟩ => absurd hlt (not_lt.mpr hge)
    rintro ⟨hpos, text, htext, hscan⟩
    obtain rfl : joined (pre.map runText) = text := Printed.done.inj (hprint.symm.trans htext)
    have hlen : (joined (pre.map runText)).length ≤ cpusetSize := by
      have hwritten := (written_lt_iff bms cpusetSize).mpr hpos _
        (List.mem_cons_of_mem _ (List.mem_range.mpr (Nat.lt_succ_self _)))
      rw [hprint] at hwritten
      exact hwritten.le
    rw [cpusetToBitset, cpusetText_printed (joined_chars pre) hlen] at hscan
    exact scan_joined_ne hne hmax hruns hscan
  · refine iff_of_false ?_ fun ⟨_, hlast'⟩ => hlast' hlast
    rintro ⟨-, text', htext, -⟩
    cases hprint.symm.trans htext

/-! ## Union and difference -/

/-- The set of a string, the empty one when the string denotes nothing. -/
def CoresOf (text : List Char) (cores : Finset ℕ) : Prop :=
  Denotes text cores ∨ (cores = ∅ ∧ ¬ ∃ cores, Denotes text cores)

theorem Denotes.unique {text : List Char} {cores cores' : Finset ℕ} (h : Denotes text cores)
    (h' : Denotes text cores') : cores = cores' := by
  obtain ⟨items, hitems, -, rfl, -⟩ := h
  obtain ⟨items', hitems', -, rfl, -⟩ := h'
  rw [items_unique hitems hitems']

theorem scan_le {text : List Char} {cores : Finset ℕ} (h : scan text = .ok cores) {c : ℕ}
    (hc : c ∈ cores) : (c : ℤ) ≤ intMax := by
  obtain ⟨items, hitems, hadded⟩ | hrefused | hraises := scan_outcome text
  · obtain ⟨-, rfl⟩ := scan_eq_ok hitems h
    obtain ⟨it, -, hc⟩ := Finset.mem_biUnion.mp hc
    exact Item.read_le hc
  · rw [scan_refused hrefused] at h
    cases h
  · rw [hraises] at h
    cases h

/-- What an operation gets from a string that is read as what it denotes. -/
theorem orEmpty_scan {text : List Char} {cores : Finset ℕ} (hexact : ReadExactly text)
    (hcores : CoresOf text cores) :
    orEmpty (scan text) = .ok cores ∧ ∀ c ∈ cores, (c : ℤ) ≤ intMax := by
  rw [ReadExactly] at hexact
  cases hscan : scan text with
  | ok cores' =>
    rw [hscan] at hexact
    obtain hdenotes | ⟨-, hnone⟩ := hcores
    · obtain rfl := hexact.unique hdenotes
      exact ⟨rfl, fun c hc => scan_le hscan hc⟩
    · exact absurd ⟨cores', hexact⟩ hnone
  | error e =>
    rw [hscan] at hexact
    cases e with
    | null =>
      obtain hdenotes | ⟨rfl, -⟩ := hcores
      · exact absurd ⟨cores, hdenotes⟩ hexact
      · exact ⟨rfl, fun c hc => absurd hc (Finset.notMem_empty c)⟩
    | negativeMember => exact hexact.elim

/-- The set an operation is about. -/
def result (sub : Bool) (cores1 cores2 : Finset ℕ) : Finset ℕ :=
  if sub then cores1 \ cores2 else cores1 ∪ cores2

/-- **An operation prints the union or the difference.** -/
theorem cpusetOperation_spec (system : List Char) {cpuset1 cpuset2 : List Char} {len : ℕ}
    {sub : Bool} {cores1 cores2 : Finset ℕ} (hexact1 : ReadExactly (cpusetText cpuset1 len))
    (hexact2 : ReadExactly (cpusetText cpuset2 len))
    (hcores1 : CoresOf (cpusetText cpuset1 len) cores1)
    (hcores2 : CoresOf (cpusetText cpuset2 len) cores2)
    (hne : (result sub cores1 cores2).Nonempty) :
    cpusetOperation system cpuset1 cpuset2 len sub =
        .ok (bitsetToCpuset (result sub cores1 cores2) len) ∧
      ∀ c ∈ result sub cores1 cores2, (c : ℤ) ≤ intMax := by
  obtain ⟨hscan1, hmax1⟩ := orEmpty_scan hexact1 hcores1
  obtain ⟨hscan2, hmax2⟩ := orEmpty_scan hexact2 hcores2
  constructor
  · rw [cpusetOperation, cpusetToBitset, cpusetToBitset, hscan1, ok_bind, hscan2, ok_bind]
    exact if_neg hne.ne_empty
  · intro c hc
    rw [result] at hc
    split at hc
    · exact hmax1 c (Finset.mem_sdiff.mp hc).1
    · obtain hc | hc := Finset.mem_union.mp hc
      · exact hmax1 c hc
      · exact hmax2 c hc

/-- **When strings of cores stand for their sets**: how a string is read, how a set is printed, and
what an operation leaves of two strings. -/
theorem cpusets_exact_iff (system cpuset1 cpuset2 : List Char) (len : ℕ) (sub : Bool) :
    (ReadExactly (cpusetText cpuset1 len) ↔ NumbersFit (cpusetText cpuset1 len) ∨
      (¬ ∃ cores, Denotes (cpusetText cpuset1 len) cores) ∧
        StopsAtRefused (cpusetText cpuset1 len)) ∧
    (∀ bms : Finset ℕ, bms.Nonempty → (∀ c ∈ bms, (c : ℤ) ≤ intMax) →
      (PrintsExactly bms len ↔ (fullText bms).length < len ∧ 2147483647 ∉ bms)) ∧
    ∀ cores1 cores2, ReadExactly (cpusetText cpuset1 len) → ReadExactly (cpusetText cpuset2 len) →
      CoresOf (cpusetText cpuset1 len) cores1 → CoresOf (cpusetText cpuset2 len) cores2 →
      (result sub cores1 cores2).Nonempty →
      ((∃ text, cpusetOperation system cpuset1 cpuset2 len sub = .ok (.done text) ∧
          cpusetToBitset text len = .ok (result sub cores1 cores2)) ↔
        (fullText (result sub cores1 cores2)).length < len ∧
          2147483647 ∉ result sub cores1 cores2) := by
  refine ⟨readExactly_iff _, fun bms hne hmax => printsExactly_iff hne hmax len, ?_⟩
  intro cores1 cores2 hexact1 hexact2 hcores1 hcores2 hne
  obtain ⟨hoperation, hmax⟩ := cpusetOperation_spec system hexact1 hexact2 hcores1 hcores2 hne
  rw [← printsExactly_iff hne hmax len, hoperation]
  constructor
  · rintro ⟨text, htext, hread⟩
    refine ⟨(written_lt_iff _ _).mpr (Nat.pos_of_ne_zero fun hzero => ?_), text,
      Except.ok.inj htext, hread⟩
    -- in a buffer without room nothing is read
    rw [hzero, cpusetToBitset, cpusetText, List.take_zero] at hread
    cases hread
  · rintro ⟨-, text, htext, hread⟩
    exact ⟨text, congrArg Except.ok htext, hread⟩

theorem reads_digit (c : Char) (hc : c.isDigit) :
    List.Forall₂ Reads ([c].splitOn ',') [.number (value [c])] := by
  have hcomma : ',' ∉ [c] := fun h => (isDigit_ne hc).1 (List.mem_singleton.mp h).symm
  rw [List.splitOn_eq_singleton hcomma]
  exact .cons (.number (List.cons_ne_nil c []) (List.forall_mem_singleton.mpr hc)) .nil

/-- The union of `1` and `2` in a buffer of 16 bytes. -/
theorem union_one_two :
    (∃ text, cpusetOperation [] ['1'] ['2'] 16 false = .ok (.done text) ∧
        cpusetToBitset text 16 = .ok (result false {1} {2})) ↔
      (fullText (result false {1} {2})).length < 16 ∧ 2147483647 ∉ result false {1} {2} := by
  have hexact : ∀ c : Char, c.isDigit → (value [c] : ℤ) ≤ intMax →
      ReadExactly [c] ∧ CoresOf [c] {value [c]} := by
    intro c hc hle
    have hreads := reads_digit c hc
    refine ⟨readExactly_of_numbersFit fun p hp => ?_, .inl ⟨_, hreads, ?_, ?_, ?_⟩⟩
    · obtain ⟨it, hit, hread⟩ := exists_item hreads hp
      obtain rfl := List.mem_singleton.mp hit
      exact ⟨_, hread, hle⟩
    · exact List.forall_mem_singleton.mpr trivial
    · simp [Item.cores]
    · exact Finset.singleton_nonempty _
  obtain ⟨hexact1, hcores1⟩ := hexact '1' (by decide) (by decide)
  obtain ⟨hexact2, hcores2⟩ := hexact '2' (by decide) (by decide)
  exact (cpusets_exact_iff [] ['1'] ['2'] 16 false).2.2 {1} {2} hexact1 hexact2 hcores1 hcores2
    (by decide)

/-- The text `4294967301` is read as the core 5, and core 10 is printed into a buffer of two bytes
as nothing. -/
theorem long_number_wraps :
    ¬ ReadExactly (cpusetText ['4', '2', '9', '4', '9', '6', '7', '3', '0', '1'] 10) ∧
    ¬ PrintsExactly {10} 2 := by
  constructor
  · intro hexact
    have htext : cpusetText ['4', '2', '9', '4', '9', '6', '7', '3', '0', '1'] 10 =
        ['4', '2', '9', '4', '9', '6', '7', '3', '0', '1'] := by decide
    have hread : Reads ['4', '2', '9', '4', '9', '6', '7', '3', '0', '1'] (.number 4294967301) := by
      have hvalue : value ['4', '2', '9', '4', '9', '6', '7', '3', '0', '1'] =
        4294967301 := by decide
      have hdigits : ∀ c ∈ ['4', '2', '9', '4', '9', '6', '7', '3', '0', '1'], c.isDigit := by simp
      have hread := Reads.number (List.cons_ne_nil _ _) hdigits
      rwa [hvalue] at hread
    have hreads : List.Forall₂ Reads
        (['4', '2', '9', '4', '9', '6', '7', '3', '0', '1'].splitOn ',') [.number 4294967301] := by
      rw [List.splitOn_eq_singleton (by decide)]
      exact .cons hread .nil
    have hwrap : toInt (4294967301 : ℕ) = 5 := by
      rw [toInt]
      decide
    have hadded : ∀ it ∈ [Item.number 4294967301], it.Added := by
      rw [List.forall_mem_singleton]
      change 0 ≤ toInt (4294967301 : ℕ)
      rw [hwrap]
      decide
    rw [htext, ReadExactly, scan_added hreads hadded] at hexact
    rw [if_neg (by simp)] at hexact
    obtain ⟨items, hitems, -, hcores, -⟩ := hexact
    rw [← items_unique hreads hitems] at hcores
    have hfive : (Item.number 4294967301).read = {5} := by
      rw [Item.read, hwrap]
      rfl
    simp [hfive, Item.cores] at hcores
  · rw [printsExactly_iff (Finset.singleton_nonempty 10) (by decide)]
    rintro ⟨hlt, -⟩
    have hfull : (fullText {10}).length = 2 := by
      rw [fullText, runs, Finset.sort_singleton]
      decide
    omega

end Hdb.Cpuset

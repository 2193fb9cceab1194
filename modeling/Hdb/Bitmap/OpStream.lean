import Hdb.Bitmap.StreamTree

/-!
# Intersections and unions of streams

What is known of a stream is its `View`: the bits it stands for, the blocks for which it may be
lossy, the last block it was asked for and the block after the last one it returned. A pull may
return a page behind the block that was asked for, and then nothing is promised about the page; but
the stream has moved. A page at or after all blocks asked for so far shows the bits of its block,
and there are no bits between (`Pulled`).

An inner node of streams of this kind is a stream of this kind (`opstreamIterate_pulled`). The proof
for an intersection is about its restarts. Each asks for the last block of the pages that came, so
that the blocks passed hold no bit of the intersection, whichever input was ahead.

All this is for a valid block that is asked for. After a page for the last valid block the next one
is `InvalidBlockNumber`. Small streams are never asked for it: once they were asked for a block
after those of their bits, their pages do not go beyond this block. Of other streams it is known
when they return, and when they end.
-/

namespace Hdb.Bitmap

/-- The bits of a small stream are in the blocks up to this one. -/
abbrev farBlock : Nat := invalidBlockNumber - 3

/-- What does not change while a stream is iterated over. -/
structure Meaning where
  bits : Nat → Bool
  lossy : Nat → Prop
  /-- All bits are in the blocks up to `farBlock`. -/
  small : Prop
  /-- The stream returns when it is asked for `InvalidBlockNumber`, and without a page if it has
  come to its end. -/
  calm : Prop
  /-- Asked for `InvalidBlockNumber` in its turn, the stream has no more pages. -/
  ends : Prop

/-- What is known of a stream. -/
structure View extends Meaning where
  /-- The last block that was asked for, of all times. -/
  asked : Nat
  /-- The first block after `farBlock` that was asked for. -/
  far : Option Nat
  /-- The block after the last one that was returned. -/
  last : Nat
  /-- The stream has come to its end. -/
  dead : Prop

/-- The first block after `farBlock` that was asked for, when the stream is asked for the block
`b`. -/
def View.farAfter (v : View) (b : Nat) : Option Nat :=
  v.far.or (if farBlock < b then some b else none)

/-- The last block of a page of a small stream, given the first block after `farBlock` that it was
asked for. -/
def reach (far : Option Nat) : Nat := max farBlock (far.getD 0)

/-- The page shows the bits of its block, unless it is lossy. -/
structure PageShows (m : Meaning) (e : PagetableEntry) : Prop where
  has : e.ischunk = false → ∀ i < 65536, e.has i = m.bits (65536 * e.blockno + i)
  lossy : e.ischunk = true → m.lossy e.blockno

/-- No bit is set in the blocks from `a` up to, but not including, `b`. -/
def NoBits (bits : Nat → Bool) (a b : Nat) : Prop :=
  ∀ p, a ≤ p / 65536 → p / 65536 < b → bits p = false

/-- A stream was asked for the block `b`. -/
structure Pulled (b : Nat) (v v' : View) (o : Option PagetableEntry) : Prop where
  const : v'.toMeaning = v.toMeaning
  asked : v'.asked = max b v.asked
  far : v'.far = v.farAfter b
  last_le : v.last ≤ v'.last
  dead : v.dead → o = none
  ended : o = none → v'.dead ∧ ∀ p, max b v.asked ≤ p / 65536 → v.bits p = false
  last : ∀ e, o = some e → v'.last = e.blockno + 1
  valid : ∀ e, o = some e → e.blockno < invalidBlockNumber
  near : v.small → ∀ e, o = some e → e.blockno ≤ reach v'.far
  moved : ∀ e, o = some e → v.last ≤ b → v.last ≤ e.blockno
  page : ∀ e, o = some e → max b v.asked ≤ e.blockno → PageShows v.toMeaning e
  between : ∀ e, o = some e → NoBits v.bits (max b v.asked) e.blockno

/-- Streams of one kind: `R` holds of a stream and what is known of it. -/
structure IsStream {α : Type} (pull : Nat → α → Option (α × Option PagetableEntry))
    (R : α → View → Prop) : Prop where
  pulled : ∀ {b it v}, b < invalidBlockNumber → R it v →
    ∃ it' o v', pull b it = some (it', o) ∧ R it' v' ∧ Pulled b v v' o
  calm : ∀ {it v}, R it v → v.calm →
    ∃ it' o, pull invalidBlockNumber it = some (it', o) ∧ (v.dead → o = none)
  ends : ∀ {it v}, R it v → v.ends → v.last = invalidBlockNumber ∨ v.dead →
    ∃ it', pull invalidBlockNumber it = some (it', none)
  last_le : ∀ {it v}, R it v → v.last ≤ invalidBlockNumber

theorem Pulled.lossy {b : Nat} {v v' : View} {o : Option PagetableEntry} (h : Pulled b v v' o) :
    v'.lossy = v.lossy := congrArg Meaning.lossy h.const

section

variable {v : View} {b b' : Nat}

theorem reach_le (v : View) (b : Nat) : reach v.far ≤ reach (v.farAfter b) := by
  rw [View.farAfter]
  cases v.far with
  | none => exact le_max_left _ _
  | some t => exact le_rfl

/-- A block that is not after the first far one that was asked for is not the first one. -/
theorem farAfter_of_le {w : View} (hw : w.far = v.farAfter b) (h : b' ≤ reach (v.farAfter b)) :
    w.farAfter b' = v.farAfter b := by
  rw [View.farAfter, hw]
  cases hf : v.farAfter b with
  | none =>
    rw [hf] at h
    exact if_neg (Nat.not_lt.mpr (h.trans (max_le le_rfl (Nat.zero_le _))))
  | some t => rfl

end

theorem NoBits.mono {bits : Nat → Bool} {a a' b b' : Nat} (h : NoBits bits a b) (ha : a ≤ a')
    (hb : b' ≤ b) : NoBits bits a' b' :=
  fun p h₁ h₂ => h p (ha.trans h₁) (h₂.trans_le hb)

theorem NoBits.append {bits : Nat → Bool} {a b c : Nat} (h : NoBits bits a b)
    (h' : NoBits bits b c) :
    NoBits bits a c := by
  intro p h₁ h₂
  by_cases hp : p / 65536 < b
  · exact h p h₁ hp
  · exact h' p (Nat.le_of_not_lt hp) h₂

/-! ## The pages of one block -/

section

variable {ms : List PagetableEntry}

/-- A lossy page ends the merge: the pages up to the first lossy one are for the block `m`. -/
def Lined (m : Nat) : List PagetableEntry → Prop
  | [] => True
  | tmp :: ms => tmp.blockno = m ∧ (tmp.ischunk = false → Lined m ms)

/-- A union does not start again. -/
theorem mergeMatches_or_restart (m : Nat) (ms : List PagetableEntry) (e : PagetableEntry) :
    (mergeMatches .or m ms e).2 = false := by
  induction ms generalizing e with
  | nil => rfl
  | cons tmp ms ih =>
    rw [mergeMatches_cons, if_neg (show ¬OpType.or = .and by decide)]
    split_ifs
    · exact ih _
    · rfl
    · exact ih _
    · exact ih _

end

/-! ## Unions -/

section

variable {α : Type} {pull : Nat → α → Option (α × Option PagetableEntry)} {R : α → View → Prop}

/-- What a union stands for, given what its inputs stand for. -/
structure OrMeaning (ws : List Meaning) (m : Meaning) : Prop where
  bits : ∀ p, m.bits p = ws.any fun w => w.bits p
  lossy : ∀ w ∈ ws, ∀ k, w.lossy k → m.lossy k
  small : m.small → ∀ w ∈ ws, w.small
  calm : m.calm → ∀ w ∈ ws, w.calm
  ends : m.ends → ∀ w ∈ ws, w.ends

/-- What is known of a union, given what is known of its inputs. -/
structure OrView (vs : List View) (v : View) : Prop where
  const : OrMeaning (vs.map View.toMeaning) v.toMeaning
  asked : ∀ w ∈ vs, w.asked ≤ v.asked
  far : ∀ w ∈ vs, w.far = v.far
  last : ∀ w ∈ vs, w.dead ∨ v.last ≤ w.last
  dead : v.dead → ∀ w ∈ vs, w.dead
  valid : v.last ≤ invalidBlockNumber

theorem OrView.bits {vs : List View} {v : View} (h : OrView vs v) (p : Nat) :
    v.bits p = vs.any fun w => w.bits p := by
  rw [h.const.bits p, List.any_map]
  rfl

theorem OrView.lossy {vs : List View} {v w : View} (h : OrView vs v) (hw : w ∈ vs) {k : Nat}
    (hk : w.lossy k) : v.lossy k :=
  h.const.lossy w.toMeaning (List.mem_map_of_mem hw) k hk

/-- The views after a pull stand for what those before stand for. -/
theorem meaning_pulled {b : Nat} {vs : List View} {rs : List (View × Option PagetableEntry)}
    (hrs : List.Forall₂ (fun v r => Pulled b v r.1 r.2) vs rs) :
    (rs.map Prod.fst).map View.toMeaning = vs.map View.toMeaning := by
  induction hrs with
  | nil => rfl
  | cons hr _ ih => rw [List.map_cons, List.map_cons, List.map_cons, ih, hr.const]

/-- The page that a union makes of the pages that came: the first of them, with the others of its
block. -/
structure FirstPage (ms : List PagetableEntry) (e : PagetableEntry) : Prop where
  least : ∀ tmp ∈ ms, e.blockno ≤ tmp.blockno
  mem : ∃ tmp ∈ ms, tmp.blockno = e.blockno
  chunk : e.ischunk = true → ∃ tmp ∈ ms, tmp.blockno = e.blockno ∧ tmp.ischunk = true
  exact : e.ischunk = false → ∀ tmp ∈ ms, tmp.blockno = e.blockno → tmp.ischunk = false
  has : e.ischunk = false → ∀ i < 65536,
    e.has i = ms.any fun tmp => decide (tmp.blockno = e.blockno) && tmp.has i

/-- A round of a union: what its inputs have given, and what it returns. -/
structure OrRound (b : Nat) (vs : List View) (v : View) (rs : List (View × Option PagetableEntry))
    (o : Option PagetableEntry) : Prop where
  view : OrView vs v
  pulled : List.Forall₂ (fun v r => Pulled b v r.1 r.2) vs rs
  ended : o = none → rs.filterMap Prod.snd = []
  first : ∀ e, o = some e → FirstPage (rs.filterMap Prod.snd) e

namespace OrRound

variable {b : Nat} {vs : List View} {v : View} {rs : List (View × Option PagetableEntry)}
  {o : Option PagetableEntry} {e : PagetableEntry}

/-- The input that a page comes from. -/
theorem page (h : OrRound b vs v rs o) {tmp : PagetableEntry}
    (htmp : tmp ∈ rs.filterMap Prod.snd) : ∃ w ∈ vs, ∃ w', Pulled b w w' (some tmp) := by
  obtain ⟨r, hr, heq⟩ := List.mem_filterMap.mp htmp
  obtain ⟨w, hw, hpulled⟩ := exists_of_forall₂ h.pulled hr
  rw [heq] at hpulled
  exact ⟨w, hw, r.1, hpulled⟩

/-- The input that has the block of the union's page. -/
theorem source (h : OrRound b vs v rs (some e)) :
    ∃ tmp, tmp.blockno = e.blockno ∧ ∃ w ∈ vs, ∃ w', Pulled b w w' (some tmp) := by
  obtain ⟨tmp, htmp, heq⟩ := (h.first e rfl).mem
  exact ⟨tmp, heq, h.page htmp⟩

/-- An input has given nothing, or a page. -/
theorem input (h : OrRound b vs v rs o) {w : View} (hw : w ∈ vs) :
    (∃ w', Pulled b w w' none) ∨
      ∃ w', ∃ tmp ∈ rs.filterMap Prod.snd, Pulled b w w' (some tmp) := by
  obtain ⟨⟨w', o'⟩, hr, hpulled⟩ := exists_of_forall₂ h.pulled.flip hw
  cases o' with
  | none => exact .inl ⟨w', hpulled⟩
  | some tmp => exact .inr ⟨w', tmp, List.mem_filterMap.mpr ⟨_, hr, rfl⟩, hpulled⟩

theorem asked_le (h : OrRound b vs v rs o) {w : View} (hw : w ∈ vs) :
    max b w.asked ≤ max b v.asked := by
  have := h.view.asked w hw
  omega

/-- The first far block that was asked for is the same for all inputs. -/
theorem far_eq (h : OrRound b vs v rs o) {w : View} (hw : w ∈ vs) :
    w.farAfter b = v.farAfter b := by
  rw [View.farAfter, View.farAfter, h.view.far w hw]

/-- The combination has no bits before all pages that came. -/
theorem bits_eq_false (h : OrRound b vs v rs o) {p : Nat} (hp : max b v.asked ≤ p / 65536)
    (hlt : ∀ tmp ∈ rs.filterMap Prod.snd, p / 65536 < tmp.blockno) : v.bits p = false := by
  rw [h.view.bits, List.any_eq_false]
  intro w hw
  rw [Bool.not_eq_true]
  have hle := (h.asked_le hw).trans hp
  rcases h.input hw with ⟨w', hpulled⟩ | ⟨w', tmp, htmp, hpulled⟩
  · exact (hpulled.ended rfl).2 p hle
  · exact hpulled.between tmp rfl p hle (hlt tmp htmp)

/-- **The bits of the union's page** are those of the combination. -/
theorem has_eq (h : OrRound b vs v rs (some e)) (hb : max b v.asked ≤ e.blockno)
    (hc : e.ischunk = false) {i : Nat} (hi : i < 65536) :
    e.has i = v.bits (65536 * e.blockno + i) := by
  obtain ⟨hmin, _, _, hno, hhas⟩ := h.first e rfl
  have hdiv : (65536 * e.blockno + i) / 65536 = e.blockno := by omega
  rw [hhas hc i hi, h.view.bits, Bool.eq_iff_iff, List.any_eq_true, List.any_eq_true]
  constructor
  · rintro ⟨tmp, htmp, ht⟩
    rw [Bool.and_eq_true, decide_eq_true_eq] at ht
    obtain ⟨w, hw, w', hpulled⟩ := h.page htmp
    have hshows := hpulled.page tmp rfl ((h.asked_le hw).trans (hb.trans ht.1.ge))
    refine ⟨w, hw, ?_⟩
    rw [← ht.1, ← hshows.has (hno hc tmp htmp ht.1) i hi]
    exact ht.2
  · rintro ⟨w, hw, hbit⟩
    have hle := (h.asked_le hw).trans (hb.trans hdiv.ge)
    rcases h.input hw with ⟨w', hpulled⟩ | ⟨w', tmp, htmp, hpulled⟩
    · rw [(hpulled.ended rfl).2 _ hle] at hbit
      exact absurd hbit Bool.false_ne_true
    · have hge := hmin tmp htmp
      by_cases heq : tmp.blockno = e.blockno
      · have hshows := hpulled.page tmp rfl ((h.asked_le hw).trans (hb.trans heq.ge))
        refine ⟨tmp, htmp, ?_⟩
        rw [decide_eq_true heq, Bool.true_and, hshows.has (hno hc tmp htmp heq) i hi, heq]
        exact hbit
      · rw [hpulled.between tmp rfl _ hle (by omega)] at hbit
        exact absurd hbit Bool.false_ne_true

/-- What is known of the union after the round. -/
def after (b : Nat) (v : View) (o : Option PagetableEntry) : View :=
  { v with
    asked := max b v.asked
    far := v.farAfter b
    last := o.elim v.last fun e => e.blockno + 1
    dead := o = none }

theorem view_after (h : OrRound b vs v rs o) : OrView (rs.map Prod.fst) (after b v o) := by
  -- the input that an input after the round was before it
  have hback : ∀ w' ∈ rs.map Prod.fst, ∃ w ∈ vs, Pulled b w w' none ∨
      ∃ tmp ∈ rs.filterMap Prod.snd, Pulled b w w' (some tmp) := by
    intro w' hw'
    obtain ⟨⟨w', o'⟩, hr, rfl⟩ := List.mem_map.mp hw'
    obtain ⟨w, hw, hpulled⟩ := exists_of_forall₂ h.pulled hr
    cases o' with
    | none => exact ⟨w, hw, .inl hpulled⟩
    | some tmp => exact ⟨w, hw, .inr ⟨tmp, List.mem_filterMap.mpr ⟨_, hr, rfl⟩, hpulled⟩⟩
  refine ⟨?_, ?_, ?_, ?_, ?_, ?_⟩
  · rw [meaning_pulled h.pulled]
    exact h.view.const
  · intro w' hw'
    obtain ⟨w, hw, hpulled | ⟨tmp, _, hpulled⟩⟩ := hback w' hw'
    · exact hpulled.asked.trans_le (h.asked_le hw)
    · exact hpulled.asked.trans_le (h.asked_le hw)
  · intro w' hw'
    obtain ⟨w, hw, hpulled | ⟨tmp, _, hpulled⟩⟩ := hback w' hw'
    · exact hpulled.far.trans (h.far_eq hw)
    · exact hpulled.far.trans (h.far_eq hw)
  · intro w' hw'
    obtain ⟨w, hw, hpulled | ⟨tmp, htmp, hpulled⟩⟩ := hback w' hw'
    · exact .inl (hpulled.ended rfl).1
    · right
      rw [hpulled.last tmp rfl]
      cases o with
      | none =>
        rw [h.ended rfl] at htmp
        exact absurd htmp List.not_mem_nil
      | some e => exact Nat.succ_le_succ ((h.first e rfl).least tmp htmp)
  · rintro rfl w' hw'
    obtain ⟨w, hw, hpulled | ⟨tmp, htmp, hpulled⟩⟩ := hback w' hw'
    · exact (hpulled.ended rfl).1
    · rw [h.ended rfl] at htmp
      exact absurd htmp List.not_mem_nil
  · cases o with
    | none => exact h.view.valid
    | some e =>
      obtain ⟨tmp, heq, w, _, w', hpulled⟩ := h.source
      have hlt := hpulled.valid tmp rfl
      show e.blockno + 1 ≤ invalidBlockNumber
      omega

/-- An input that has given a page had not ended before. -/
theorem last_le (h : OrRound b vs v rs o) {w w' : View} (hw : w ∈ vs) {tmp : PagetableEntry}
    (hpulled : Pulled b w w' (some tmp)) : v.last ≤ w.last :=
  (h.view.last w hw).resolve_left fun hd => absurd (hpulled.dead hd) (Option.some_ne_none tmp)

theorem pulled_after (h : OrRound b vs v rs o) : Pulled b v (after b v o) o := by
  refine ⟨rfl, rfl, rfl, ?_, ?_, ?_, ?_, ?_, ?_, ?_, ?_, ?_⟩
  · cases o with
    | none => exact le_rfl
    | some e =>
      obtain ⟨tmp, heq, w, hw, w', hpulled⟩ := h.source
      have hlast := h.last_le hw hpulled
      have h₁ := hpulled.last_le
      have h₂ := hpulled.last tmp rfl
      show v.last ≤ e.blockno + 1
      omega
  · intro hdead
    cases o with
    | none => rfl
    | some e =>
      obtain ⟨tmp, _, w, hw, w', hpulled⟩ := h.source
      exact absurd (hpulled.dead (h.view.dead hdead w hw)) (Option.some_ne_none tmp)
  · rintro rfl
    refine ⟨rfl, fun p hp => h.bits_eq_false hp ?_⟩
    rw [h.ended rfl]
    exact List.forall_mem_nil _
  · rintro e rfl
    rfl
  · rintro e rfl
    obtain ⟨tmp, heq, w, _, w', hpulled⟩ := h.source
    rw [← heq]
    exact hpulled.valid tmp rfl
  · rintro hsmall e rfl
    obtain ⟨tmp, heq, w, hw, w', hpulled⟩ := h.source
    have hwsmall := h.view.const.small hsmall w.toMeaning (List.mem_map_of_mem hw)
    have hnear := hpulled.near hwsmall tmp rfl
    rw [hpulled.far, h.far_eq hw] at hnear
    exact heq ▸ hnear
  · rintro e rfl hb
    obtain ⟨tmp, heq, w, hw, w', hpulled⟩ := h.source
    have hlast := h.last_le hw hpulled
    have h₁ := hpulled.last_le
    have h₂ := hpulled.last tmp rfl
    have h₃ := hpulled.moved tmp rfl
    omega
  · rintro e rfl hb
    refine ⟨fun hc i hi => h.has_eq hb hc hi, fun hc => ?_⟩
    obtain ⟨tmp, htmp, heq, hchunk⟩ := (h.first e rfl).chunk hc
    obtain ⟨w, hw, w', hpulled⟩ := h.page htmp
    have hshows := hpulled.page tmp rfl ((h.asked_le hw).trans (hb.trans heq.ge))
    rw [← heq]
    exact h.view.lossy hw (hshows.lossy hchunk)
  · rintro e rfl p h₁ h₂
    exact h.bits_eq_false h₁ fun tmp htmp => h₂.trans_le ((h.first e rfl).least tmp htmp)

/-- **The result of a union** is the first of the pages that came, with the other pages of its
block. -/
theorem result (h : OrRound b vs v rs o) :
    ∃ v', OrView (rs.map Prod.fst) v' ∧ Pulled b v v' o :=
  ⟨_, h.view_after, h.pulled_after⟩

end OrRound

/-- A union whose inputs return returns. -/
theorem opstreamIterate_or_returns {b : Nat} {its its' : List α} {ms : List PagetableEntry}
    (h : pullInputs pull .or b its = some (its', ms, true)) (fuel : Nat) (e : PagetableEntry) :
    ∃ nextblock o, opstreamIterate pull .or (fuel + 1) b its e = some (nextblock, its', o) ∧
      (ms = [] → o = none) := by
  rw [opstreamIterate, h, Option.bind_eq_bind, Option.bind_some]
  dsimp only
  rw [Bool.not_true, if_neg Bool.false_ne_true, mergeMatches_or_restart, if_neg Bool.false_ne_true]
  cases ms with
  | nil => exact ⟨_, _, rfl, fun _ => rfl⟩
  | cons m ms => exact ⟨_, _, rfl, fun h0 => absurd h0 (List.cons_ne_nil m ms)⟩

/-- Inputs that return, asked for `InvalidBlockNumber`. -/
theorem pullInputs_or_calm (hs : IsStream pull R) {its : List α} {vs : List View}
    (hR : List.Forall₂ R its vs) (hcalm : ∀ w ∈ vs, w.calm) :
    ∃ its' ms, pullInputs pull .or invalidBlockNumber its = some (its', ms, true) ∧
      ((∀ w ∈ vs, w.dead) → ms = []) := by
  induction hR with
  | nil => exact ⟨[], [], rfl, fun _ => rfl⟩
  | @cons it w its vs hit _ ih =>
    obtain ⟨hw, hcalm⟩ := List.forall_mem_cons.mp hcalm
    obtain ⟨it', o, hp, hdead⟩ := hs.calm hit hw
    obtain ⟨its', ms, heq, hnil⟩ := ih hcalm
    cases o with
    | none =>
      refine ⟨it' :: its', ms, by simp [pullInputs, hp, heq], fun hall => ?_⟩
      exact hnil (List.forall_mem_cons.mp hall).2
    | some e =>
      refine ⟨it' :: its', e :: ms, by simp [pullInputs, hp, heq], fun hall => ?_⟩
      exact absurd (hdead (List.forall_mem_cons.mp hall).1) (Option.some_ne_none e)

/-- Inputs that have no more pages. -/
theorem pullInputs_or_ends (hs : IsStream pull R) {its : List α} {vs : List View}
    (hR : List.Forall₂ R its vs) (hends : ∀ w ∈ vs, w.ends)
    (hlast : ∀ w ∈ vs, w.last = invalidBlockNumber ∨ w.dead) :
    ∃ its', pullInputs pull .or invalidBlockNumber its = some (its', [], true) := by
  induction hR with
  | nil => exact ⟨[], rfl⟩
  | @cons it w its vs hit _ ih =>
    obtain ⟨hw, hends⟩ := List.forall_mem_cons.mp hends
    obtain ⟨hw', hlast⟩ := List.forall_mem_cons.mp hlast
    obtain ⟨it', hp⟩ := hs.ends hit hw hw'
    obtain ⟨its', heq⟩ := ih hends hlast
    exact ⟨it' :: its', by simp [pullInputs, hp, heq]⟩

/-- A union has no more pages when no input has. -/
theorem OrView.ends (hs : IsStream pull R) {its : List α} {vs : List View} {v : View}
    (hR : List.Forall₂ R its vs) (hv : OrView vs v) (hends : v.ends)
    (hlast : v.last = invalidBlockNumber ∨ v.dead) (fuel : Nat) (e : PagetableEntry) :
    ∃ nextblock its', opstreamIterate pull .or (fuel + 1) invalidBlockNumber its e =
      some (nextblock, its', none) := by
  have hall : ∀ w ∈ vs, w.last = invalidBlockNumber ∨ w.dead := by
    intro w hw
    obtain ⟨it, _, hit⟩ := exists_of_forall₂ hR hw
    rcases hlast with hlast | hdead
    · rcases hv.last w hw with hd | hle
      · exact .inr hd
      · exact .inl (le_antisymm (hs.last_le hit) (hlast ▸ hle))
    · exact .inr (hv.dead hdead w hw)
  obtain ⟨its', hpull⟩ := pullInputs_or_ends hs hR
    (fun w hw => hv.const.ends hends w.toMeaning (List.mem_map_of_mem hw)) hall
  obtain ⟨nextblock, o, heq, hnone⟩ := opstreamIterate_or_returns hpull fuel e
  rw [hnone rfl] at heq
  exact ⟨nextblock, its', heq⟩

/-! ## Intersections -/

/-- A stream that was asked for the block `b`, or not asked at all. -/
def Moved (b : Nat) (v v' : View) : Prop := v' = v ∨ ∃ o, Pulled b v v' o

theorem Moved.const {b : Nat} {v v' : View} (h : Moved b v v') : v'.toMeaning = v.toMeaning := by
  rcases h with rfl | ⟨o, h⟩
  · rfl
  · exact h.const

theorem Moved.asked_le {b : Nat} {v v' : View} (h : Moved b v v') : v'.asked ≤ max b v.asked := by
  rcases h with rfl | ⟨o, h⟩
  · exact le_max_right _ _
  · exact h.asked.le

theorem Moved.last_le {b : Nat} {v v' : View} (h : Moved b v v') : v.last ≤ v'.last := by
  rcases h with rfl | ⟨o, h⟩
  · exact le_rfl
  · exact h.last_le

/-- Some input after the first one ends, and none between them is lossy on the last valid block. -/
def TailEnds : List Meaning → Prop
  | [] => False
  | w :: ws => w.ends ∨ (¬w.lossy (invalidBlockNumber - 1) ∧ TailEnds ws)

/-- What an intersection stands for, given what its inputs stand for. It ends with an input that
does, if the inputs return and have come to the end together. -/
structure AndMeaning (ws : List Meaning) (m : Meaning) : Prop where
  bits : ∀ p, m.bits p = ws.all fun w => w.bits p
  lossy : ∀ w ∈ ws, ∀ k, w.lossy k → m.lossy k
  small : m.small → ∀ w ∈ ws, w.small
  calm : ¬m.calm
  inputs : m.ends → ∀ w ∈ ws, w.calm
  ends : m.ends → ∀ w ws', ws = w :: ws' → w.ends ∨ TailEnds ws'

/-- The inputs after the first one that have returned the last valid block, up to the first one that
is lossy on it. -/
def TailLevel : List View → Prop
  | [] => True
  | w :: ws => w.last = invalidBlockNumber ∧ (¬w.lossy (invalidBlockNumber - 1) → TailLevel ws)

/-- What is known of an intersection, given what is known of its inputs. The inputs may have been
asked for blocks up to `h`, and no bit of the intersection is before. -/
structure AndView (vs : List View) (v : View) : Prop where
  const : AndMeaning (vs.map View.toMeaning) v.toMeaning
  head : ∃ w ws, vs = w :: ws ∧ v.last ≤ w.last
  high : ∃ h, (∀ w ∈ vs, w.asked ≤ h) ∧ NoBits v.bits v.asked h ∧
    (v.dead ∨ h ≤ max v.asked (v.last - 1))
  far : v.small → v.dead ∨ ∀ w ∈ vs, w.far = v.far
  level : v.last = invalidBlockNumber → v.dead ∨ ∀ w ws, vs = w :: ws → TailLevel ws
  dead : v.dead → ∃ w ∈ vs, w.dead
  valid : v.last ≤ invalidBlockNumber
  asked : v.asked < invalidBlockNumber

/-- An intersection `v` that was asked for the block `b` asks its inputs for `bcur`. -/
structure AndLoop (v : View) (b bcur : Nat) (vs : List View) (h : Nat) : Prop where
  const : AndMeaning (vs.map View.toMeaning) v.toMeaning
  head : ∃ w ws, vs = w :: ws ∧ v.last ≤ w.last ∧ (bcur = b ∨ (v.last ≤ b → v.last < w.last))
  asked : ∀ w ∈ vs, w.asked ≤ h
  zeros : NoBits v.bits (max b v.asked) (max bcur h)
  reached : v.dead ∨ ∃ w ∈ vs, max bcur h ≤ max (max b v.asked) (w.last - 1)
  far : v.small → v.dead ∨ ∀ w ∈ vs, w.farAfter bcur = v.farAfter b
  dead : v.dead → ∃ w ∈ vs, w.dead
  valid : bcur < invalidBlockNumber
  start : max b v.asked < invalidBlockNumber

theorem AndLoop.bits {v : View} {b bcur h : Nat} {vs : List View} (hl : AndLoop v b bcur vs h)
    (p : Nat) : v.bits p = vs.all fun w => w.bits p := by
  rw [hl.const.bits p, List.all_map]
  rfl

theorem AndLoop.lossy {v w : View} {b bcur h : Nat} {vs : List View} (hl : AndLoop v b bcur vs h)
    (hw : w ∈ vs) {k : Nat} (hk : w.lossy k) : v.lossy k :=
  hl.const.lossy w.toMeaning (List.mem_map_of_mem hw) k hk

theorem AndView.loop {vs : List View} {v : View} (hv : AndView vs v) {b : Nat}
    (hb : b < invalidBlockNumber) : ∃ h, AndLoop v b b vs h := by
  obtain ⟨h, hasked, hzeros, hle⟩ := hv.high
  obtain ⟨w, ws, rfl, hlast⟩ := hv.head
  refine ⟨h, hv.const, ⟨w, ws, rfl, hlast, .inl rfl⟩, hasked, ?_, ?_, ?_, hv.dead, hb,
    max_lt hb hv.asked⟩
  · intro p h₁ h₂
    exact hzeros p (by omega) (by omega)
  · refine hle.imp_right fun hle => ⟨w, List.mem_cons_self, ?_⟩
    omega
  · intro hsmall
    refine (hv.far hsmall).imp_right fun hfar w' hw' => ?_
    rw [View.farAfter, View.farAfter, hfar w' hw']

theorem meaning_moved {b : Nat} {vs vs' : List View} (h : List.Forall₂ (Moved b) vs vs') :
    vs'.map View.toMeaning = vs.map View.toMeaning := by
  induction h with
  | nil => rfl
  | cons hr _ ih => rw [List.map_cons, List.map_cons, ih, hr.const]

section

variable {v : View} {b bcur h : Nat} {vs vs' : List View}

variable {rs : List (View × PagetableEntry)}

theorem moved_of_pulled (hrs : List.Forall₂ (fun v r => Pulled bcur v r.1 (some r.2)) vs rs) :
    List.Forall₂ (Moved bcur) vs (rs.map Prod.fst) := by
  rw [List.forall₂_map_right_iff]
  exact hrs.imp fun v r hr => .inr ⟨_, hr⟩

/-- The first input, when every input has given a page. -/
theorem AndLoop.head_moved (hl : AndLoop v b bcur vs h)
    (hrs : List.Forall₂ (fun v r => Pulled bcur v r.1 (some r.2)) vs rs) :
    ∃ r rs', rs = r :: rs' ∧ v.last ≤ r.1.last ∧ (v.last ≤ b → v.last < r.1.last) ∧
      r.1.last = r.2.blockno + 1 := by
  obtain ⟨w, ws, rfl, hlast, hcur⟩ := hl.head
  cases hrs with
  | @cons _ r _ rs' hr _ =>
    have h₁ := hr.last_le
    have h₂ := hr.moved r.2 rfl
    have h₃ := hr.last r.2 rfl
    refine ⟨r, rs', rfl, by omega, fun hb => ?_, h₃⟩
    rcases hcur with rfl | hcur
    · omega
    · have := hcur hb
      omega

/-- The blocks the inputs were asked for are not after the last block that came. -/
theorem AndLoop.reached_le (hl : AndLoop v b bcur vs h)
    (hrs : List.Forall₂ (fun v r => Pulled bcur v r.1 (some r.2)) vs rs) {m : Nat}
    (hm : ∀ r ∈ rs, r.2.blockno ≤ m) : ¬v.dead ∧ max bcur h ≤ max (max b v.asked) m := by
  have hdead : ¬v.dead := by
    intro hd
    obtain ⟨w, hw, hwd⟩ := hl.dead hd
    obtain ⟨r, _, hr⟩ := exists_of_forall₂ hrs.flip hw
    exact absurd (hr.dead hwd) (Option.some_ne_none r.2)
  refine ⟨hdead, ?_⟩
  obtain ⟨w, hw, hle⟩ := hl.reached.resolve_left hdead
  obtain ⟨r, hr, hpulled⟩ := exists_of_forall₂ hrs.flip hw
  have h₁ := hpulled.last_le
  have h₂ := hpulled.last r.2 rfl
  have h₃ := hm r hr
  omega

/-- The first far block that was asked for is the same for all inputs of a small intersection, and
no page is after it. -/
theorem AndLoop.far_moved (hl : AndLoop v b bcur vs h)
    (hrs : List.Forall₂ (fun v r => Pulled bcur v r.1 (some r.2)) vs rs) (hsmall : v.small) :
    ∀ r ∈ rs, r.1.far = v.farAfter b ∧ r.2.blockno ≤ reach (v.farAfter b) := by
  intro r hr
  obtain ⟨w, hw, hpulled⟩ := exists_of_forall₂ hrs hr
  have hdead : ¬v.dead := by
    intro hd
    obtain ⟨w', hw', hwd⟩ := hl.dead hd
    obtain ⟨r', _, hr'⟩ := exists_of_forall₂ hrs.flip hw'
    exact absurd (hr'.dead hwd) (Option.some_ne_none r'.2)
  have hfar := ((hl.far hsmall).resolve_left hdead) w hw
  have hnear := hpulled.near (hl.const.small hsmall w.toMeaning (List.mem_map_of_mem hw)) r.2 rfl
  rw [hpulled.far, hfar] at hnear
  exact ⟨hpulled.far.trans hfar, hnear⟩

/-- No bit of the intersection is before a page that came. -/
theorem AndLoop.zeros_to (hl : AndLoop v b bcur vs h)
    (hrs : List.Forall₂ (fun v r => Pulled bcur v r.1 (some r.2)) vs rs) {r : View × PagetableEntry}
    (hr : r ∈ rs) : NoBits v.bits (max b v.asked) r.2.blockno := by
  obtain ⟨w, hw, hpulled⟩ := exists_of_forall₂ hrs hr
  have hasked := hl.asked w hw
  refine hl.zeros.append ?_
  intro p h₁ h₂
  rw [hl.bits, List.all_eq_false]
  exact ⟨w, hw, by rw [hpulled.between r.2 rfl p (by omega) h₂]; exact Bool.false_ne_true⟩

/-- **A restart** asks for the last block that came. -/
theorem AndLoop.restart (hl : AndLoop v b bcur vs h)
    (hrs : List.Forall₂ (fun v r => Pulled bcur v r.1 (some r.2)) vs rs) {m : Nat}
    (hm : ∀ r ∈ rs, r.2.blockno ≤ m) (hex : ∃ r ∈ rs, r.2.blockno = m) :
    AndLoop v b m (rs.map Prod.fst) (max bcur h) := by
  have hfar := hl.far_moved hrs
  obtain ⟨hdead, hreached⟩ := hl.reached_le hrs hm
  obtain ⟨r₀, hr₀, heq⟩ := hex
  obtain ⟨w₀, _, hpulled₀⟩ := exists_of_forall₂ hrs hr₀
  have hmoved := moved_of_pulled hrs
  refine ⟨?_, ?_, ?_, ?_, .inr ⟨r₀.1, List.mem_map_of_mem hr₀, ?_⟩, ?_, fun hd => absurd hd hdead,
    ?_, hl.start⟩
  · rw [meaning_moved hmoved]
    exact hl.const
  · obtain ⟨r, rs', rfl, h₁, h₂, _⟩ := hl.head_moved hrs
    exact ⟨r.1, rs'.map Prod.fst, rfl, h₁, .inr h₂⟩
  · intro w' hw'
    obtain ⟨w, hw, hmw⟩ := exists_of_forall₂ hmoved hw'
    have h₁ := hmw.asked_le
    have h₂ := hl.asked w hw
    omega
  · have hto := hl.zeros_to hrs hr₀
    rw [heq] at hto
    intro p h₁ h₂
    by_cases hp : p / 65536 < m
    · exact hto p h₁ hp
    · exact hl.zeros p h₁ (by omega)
  · have hlast := hpulled₀.last r₀.2 rfl
    omega
  · intro hsmall
    refine .inr (List.forall_mem_map.mpr fun r hr => ?_)
    obtain ⟨hr', -⟩ := hfar hsmall r hr
    obtain ⟨hr₀', hnear⟩ := hfar hsmall r₀ hr₀
    exact farAfter_of_le hr' (heq ▸ hnear)
  · rw [← heq]
    exact hpulled₀.valid r₀.2 rfl

/-- Inputs whose pages are in line with the last valid block. -/
theorem tailLevel_of_lined (hrs : List.Forall₂ (fun v r => Pulled bcur v r.1 (some r.2)) vs rs)
    (hasked : ∀ w ∈ vs, max bcur w.asked ≤ invalidBlockNumber - 1)
    (hlined : Lined (invalidBlockNumber - 1) (rs.map Prod.snd)) : TailLevel (rs.map Prod.fst) := by
  induction hrs with
  | nil => trivial
  | @cons w r ws rs hr _ ih =>
    obtain ⟨hw, hasked⟩ := List.forall_mem_cons.mp hasked
    obtain ⟨heq, hlined⟩ := hlined
    refine ⟨?_, fun hlossy => ih hasked (hlined ?_)⟩
    · rw [hr.last r.2 rfl, heq]
      rfl
    · by_contra hc
      rw [Bool.not_eq_false] at hc
      have hshows := hr.page r.2 rfl (heq ▸ hw)
      have hlossy' : w.lossy r.2.blockno := hshows.lossy hc
      rw [heq, ← hr.lossy] at hlossy'
      exact hlossy hlossy'

/-- **A result** of an intersection is for the block of the page of its first input. Either it is
lossy or all inputs have given a page for this block. -/
theorem AndLoop.result (hl : AndLoop v b bcur vs h)
    (hrs : List.Forall₂ (fun v r => Pulled bcur v r.1 (some r.2)) vs rs) {e : PagetableEntry}
    (hm : ∀ r ∈ rs, r.2.blockno ≤ e.blockno)
    (hhead : ∀ r rs', rs = r :: rs' → r.2.blockno = e.blockno ∧ Lined e.blockno (rs'.map Prod.snd))
    (hchunk : e.ischunk = true → ∃ r ∈ rs, r.2.blockno = e.blockno ∧ r.2.ischunk = true)
    (hexact : e.ischunk = false → (∀ r ∈ rs, r.2.blockno = e.blockno ∧ r.2.ischunk = false) ∧
      ∀ i < 65536, e.has i = rs.all fun r => r.2.has i) :
    ∃ v', AndView (rs.map Prod.fst) v' ∧ Pulled b v v' (some e) := by
  obtain ⟨hdead, hreached⟩ := hl.reached_le hrs hm
  obtain ⟨r₀, rs', hcons, hlast, hmove, hlast₀⟩ := hl.head_moved hrs
  have hr₀ : r₀ ∈ rs := by rw [hcons]; exact List.mem_cons_self
  obtain ⟨heq, hlined⟩ := hhead r₀ rs' hcons
  obtain ⟨w₀, _, hpulled₀⟩ := exists_of_forall₂ hrs hr₀
  have hfar := hl.far_moved hrs
  have hvalid : e.blockno < invalidBlockNumber := heq ▸ hpulled₀.valid r₀.2 rfl
  have hmoved := moved_of_pulled hrs
  have hto := hl.zeros_to hrs hr₀
  rw [heq] at hto hlast₀
  -- an input is at the block it was asked for, so that its page shows its bits
  have hshows : max b v.asked ≤ e.blockno → ∀ r ∈ rs, r.2.blockno = e.blockno →
      ∃ w ∈ vs, Pulled bcur w r.1 (some r.2) ∧ PageShows w.toMeaning r.2 := by
    intro hle r hr hre
    obtain ⟨w, hw, hpulled⟩ := exists_of_forall₂ hrs hr
    have hasked := hl.asked w hw
    exact ⟨w, hw, hpulled, hpulled.page r.2 rfl (by omega)⟩
  refine ⟨{ v with
    asked := max b v.asked, far := v.farAfter b, last := e.blockno + 1, dead := False },
    ⟨?_, ?_, ⟨max (max b v.asked) (max bcur h), ?_, ?_, .inr ?_⟩, fun hsmall => .inr ?_,
      fun hlast => .inr ?_, fun hd => hd.elim, ?_, hl.start⟩,
    ⟨rfl, rfl, rfl, ?_, fun hd => absurd hd hdead,
      fun h0 => absurd h0 (Option.some_ne_none e), ?_, ?_,
      ?_, ?_, ?_, ?_⟩⟩
  · rw [meaning_moved hmoved]
    exact hl.const
  · rw [hcons]
    exact ⟨r₀.1, rs'.map Prod.fst, rfl, hlast₀.ge⟩
  · intro w' hw'
    obtain ⟨w, hw, hmw⟩ := exists_of_forall₂ hmoved hw'
    have h₁ := hmw.asked_le
    have h₂ := hl.asked w hw
    omega
  · intro p h₁ h₂
    have h₁' : max b v.asked ≤ p / 65536 := h₁
    exact hl.zeros p h₁' (by omega)
  · show max (max b v.asked) (max bcur h) ≤ max (max b v.asked) (e.blockno + 1 - 1)
    omega
  · exact List.forall_mem_map.mpr fun r hr => (hfar hsmall r hr).1
  · have hlast' : e.blockno = invalidBlockNumber - 1 := Nat.eq_sub_of_add_eq hlast
    rw [hlast'] at hlined
    have hstart := hl.start
    intro w' ws' hws'
    rw [hcons, List.map_cons] at hws'
    obtain ⟨-, rfl⟩ := List.cons.inj hws'
    subst hcons
    cases hrs with
    | @cons w _ ws _ _ hrs =>
      refine tailLevel_of_lined hrs (fun w' hw' => ?_) hlined
      have hasked := hl.asked w' (List.mem_cons_of_mem w hw')
      omega
  · exact hvalid
  · show v.last ≤ e.blockno + 1
    omega
  · rintro e' ⟨⟩
    rfl
  · rintro e' ⟨⟩
    exact hvalid
  · rintro hsmall e' ⟨⟩
    exact heq ▸ (hfar hsmall r₀ hr₀).2
  · rintro e' ⟨⟩ hb
    have := hmove hb
    omega
  · rintro e' ⟨⟩ hle
    refine ⟨?_, ?_⟩
    · intro hc i hi
      obtain ⟨hall, hhas⟩ := hexact hc
      rw [hhas i hi, hl.bits, Bool.eq_iff_iff, List.all_eq_true, List.all_eq_true]
      constructor
      · intro hr w hw
        obtain ⟨r, hrmem, hpulled⟩ := exists_of_forall₂ hrs.flip hw
        obtain ⟨hre, hrc⟩ := hall r hrmem
        have hasked := hl.asked w hw
        have hsh := hpulled.page r.2 rfl (by omega)
        rw [← hre, ← hsh.has hrc i hi]
        exact hr r hrmem
      · intro hw r hrmem
        obtain ⟨hre, hrc⟩ := hall r hrmem
        obtain ⟨w, hwmem, _, hsh⟩ := hshows hle r hrmem hre
        rw [hsh.has hrc i hi, hre]
        exact hw w hwmem
    · intro hc
      obtain ⟨r, hrmem, hre, hrc⟩ := hchunk hc
      obtain ⟨w, hwmem, _, hsh⟩ := hshows hle r hrmem hre
      rw [← hre]
      exact hl.lossy hwmem (hsh.lossy hrc)
  · rintro e' ⟨⟩
    exact hto

end

/-- The input with which an intersection ends has come to the end with the others. -/
theorem exists_ends_of_tailLevel {vs : List View} (hends : TailEnds (vs.map View.toMeaning))
    (hlevel : TailLevel vs) : ∃ w ∈ vs, w.ends ∧ w.last = invalidBlockNumber := by
  induction vs with
  | nil => exact hends.elim
  | cons w vs ih =>
    obtain ⟨hlast, hlevel⟩ := hlevel
    rcases hends with hw | ⟨hlossy, hends⟩
    · exact ⟨w, List.mem_cons_self, hw, hlast⟩
    · obtain ⟨w', hw', h⟩ := ih hends (hlevel hlossy)
      exact ⟨w', List.mem_cons_of_mem w hw', h⟩

/-- Inputs that return, one of them without a page. -/
theorem pullInputs_and_ends (hs : IsStream pull R) {its : List α} {vs : List View}
    (hR : List.Forall₂ R its vs) (hcalm : ∀ w ∈ vs, w.calm)
    (hends : ∃ w ∈ vs, (w.ends ∧ w.last = invalidBlockNumber) ∨ w.dead) :
    ∃ its' ms, pullInputs pull .and invalidBlockNumber its = some (its', ms, false) := by
  induction hR with
  | nil =>
    obtain ⟨w, hw, _⟩ := hends
    exact absurd hw List.not_mem_nil
  | @cons it w its vs hit _ ih =>
    obtain ⟨hw, hcalm⟩ := List.forall_mem_cons.mp hcalm
    obtain ⟨it', o, hp, hdead⟩ := hs.calm hit hw
    cases o with
    | none => exact ⟨it' :: its, [], by simp [pullInputs, hp]⟩
    | some e =>
      obtain ⟨w', hw', hend⟩ := hends
      rcases List.mem_cons.mp hw' with rfl | hw'
      · -- this input has no more pages
        rcases hend with ⟨hend, hlast⟩ | hd
        · obtain ⟨it'', hp'⟩ := hs.ends hit hend (.inl hlast)
          exact absurd (Prod.mk.inj (Option.some.inj (hp.symm.trans hp'))).2 (Option.some_ne_none e)
        · exact absurd (hdead hd) (Option.some_ne_none e)
      · obtain ⟨its', ms, heq⟩ := ih hcalm ⟨w', hw', hend⟩
        exact ⟨it' :: its', e :: ms, by simp [pullInputs, hp, heq]⟩

/-- An intersection has no more pages when an input has none. -/
theorem AndView.ends (hs : IsStream pull R) {its : List α} {vs : List View} {v : View}
    (hR : List.Forall₂ R its vs) (hv : AndView vs v) (hends : v.ends)
    (hlast : v.last = invalidBlockNumber ∨ v.dead) (fuel : Nat) (e : PagetableEntry) :
    ∃ nextblock its', opstreamIterate pull .and (fuel + 1) invalidBlockNumber its e =
      some (nextblock, its', none) := by
  have hend : ∃ w ∈ vs, (w.ends ∧ w.last = invalidBlockNumber) ∨ w.dead := by
    by_cases hdead : v.dead
    · obtain ⟨w, hw, hd⟩ := hv.dead hdead
      exact ⟨w, hw, .inr hd⟩
    · have hlast' := hlast.resolve_right hdead
      have hlevel := (hv.level hlast').resolve_left hdead
      obtain ⟨w, ws, rfl, hle⟩ := hv.head
      obtain ⟨it, _, hit⟩ := exists_of_forall₂ hR List.mem_cons_self
      rcases hv.const.ends hends w.toMeaning (ws.map View.toMeaning) rfl with hw | htail
      · exact ⟨w, List.mem_cons_self, .inl ⟨hw, le_antisymm (hs.last_le hit) (hlast' ▸ hle)⟩⟩
      · obtain ⟨w', hw', h⟩ := exists_ends_of_tailLevel htail (hlevel w ws rfl)
        exact ⟨w', List.mem_cons_of_mem w hw', .inl h⟩
  obtain ⟨its', ms, hpull⟩ := pullInputs_and_ends hs hR
    (fun w hw => hv.const.inputs hends w.toMeaning (List.mem_map_of_mem hw)) hend
  refine ⟨(minBlockno .and ms + 1) % 2 ^ 32, its', ?_⟩
  rw [opstreamIterate, hpull]
  rfl

/-! ## Both -/

/-- What is known of an inner node, given what is known of its inputs. -/
def OpView : OpType → List View → View → Prop
  | .or => OrView
  | .and => AndView

theorem rounds_eq (its : List α) : ∃ n, 2 ^ 32 * its.length + 2 = n + 1 :=
  ⟨2 ^ 32 * its.length + 1, (Nat.add_assoc _ 1 1).symm⟩

/-- An inner node that has no more pages. -/
theorem OpView.ends (hs : IsStream pull R) {kind : OpType} {its : List α} {vs : List View}
    {v : View} (hR : List.Forall₂ R its vs) (hv : OpView kind vs v) (hends : v.ends)
    (hlast : v.last = invalidBlockNumber ∨ v.dead) :
    ∃ nextblock its',
      opstreamIterate pull kind (2 ^ 32 * its.length + 2) invalidBlockNumber its zeroEntry =
        some (nextblock, its', none) := by
  obtain ⟨n, hn⟩ := rounds_eq its
  rw [hn]
  cases kind with
  | or => exact OrView.ends hs hR hv hends hlast n zeroEntry
  | and => exact AndView.ends hs hR hv hends hlast n zeroEntry

/-- A calm inner node is a union of calm streams. -/
theorem OpView.calm (hs : IsStream pull R) {kind : OpType} {its : List α} {vs : List View}
    {v : View} (hR : List.Forall₂ R its vs) (hv : OpView kind vs v) (hcalm : v.calm) :
    ∃ nextblock its' o,
      opstreamIterate pull kind (2 ^ 32 * its.length + 2) invalidBlockNumber its zeroEntry =
        some (nextblock, its', o) ∧ (v.dead → o = none) := by
  cases kind with
  | and => exact absurd hcalm (AndView.const hv).calm
  | or =>
    have hv : OrView vs v := hv
    obtain ⟨its', ms, hpull, hdead⟩ := pullInputs_or_calm hs hR fun w hw =>
      hv.const.calm hcalm w.toMeaning (List.mem_map_of_mem hw)
    obtain ⟨n, hn⟩ := rounds_eq its
    obtain ⟨nextblock, o, heq, hnone⟩ := opstreamIterate_or_returns hpull n zeroEntry
    rw [hn]
    exact ⟨nextblock, its', o, heq, fun hd => hnone (hdead (hv.dead hd))⟩

theorem OpView.last_le {kind : OpType} {vs : List View} {v : View} (hv : OpView kind vs v) :
    v.last ≤ invalidBlockNumber := by
  cases kind with
  | or => exact OrView.valid hv
  | and => exact AndView.valid hv

end

end Hdb.Bitmap

import Hdb.Bitmap.Combination

/-!
# Streams combine as sets

The block after the last valid one is `InvalidBlockNumber`. A bitmap index whose vector reaches it
returns a page for it again and again, and so does a tid bitmap with a page there. A union ends if
all its inputs do, an intersection if one of them does (`Combination.Stops`). A tree that does not
end never tells that there are no more pages, whatever it is asked for: this is kept by every pull
that returns (`Unending`), by an inner node whatever the order of its pages is. A tree that ends
delivers the combination if it is also clear of pages for `InvalidBlockNumber` in its intersections.
-/

namespace Hdb.Bitmap

/-! ## A tree that does not end -/

/-- What the end of an inner node tells of its inputs. -/
def OpType.stops : OpType → List Prop → Prop
  | .or, Ps => ∀ P ∈ Ps, P
  | .and, Ps => ∃ P ∈ Ps, P

/-- A tid bitmap that has no more pages has none for `InvalidBlockNumber`: it would be returned
again. -/
structure HashUnended (it : HashIterator) (P : Prop) : Prop where
  blockno : ∀ e ∈ it.hash.pages, e.blockno < 2 ^ 32
  cached : ∀ e, it.nextentry = some e → e.blockno < 2 ^ 32
  ended : (∀ e ∈ it.hash.pages, e.blockno < invalidBlockNumber) →
    (∀ e, it.nextentry = some e → e.blockno < invalidBlockNumber) → P

/-- The iterator of a tree of at most the given depth has no more pages only if `P`. -/
def Unending : Nat → StreamBMIterator → Prop → Prop
  | 0, _, _ => False
  | _ + 1, .hash it, P => HashUnended it P
  | _ + 1, .index it, P => ∃ all, Unended all it ∧ (numBits all < 65536 * (2 ^ 32 - 1) → P)
  | d + 1, .op kind _ input, P => input ≠ [] ∧
      ∃ Ps, List.Forall₂ (Unending d) input Ps ∧ (kind.stops Ps → P)

theorem Unending.mono {d d' : Nat} (hd : d ≤ d') {it : StreamBMIterator} {P : Prop}
    (h : Unending d it P) : Unending d' it P := by
  induction d generalizing d' it P with
  | zero => exact h.elim
  | succ d ih =>
    obtain ⟨d', rfl⟩ : ∃ k, d' = k + 1 := ⟨d' - 1, by omega⟩
    cases it with
    | hash it => exact h
    | index it => exact h
    | op kind nextblock input =>
      obtain ⟨hne, Ps, hPs, hP⟩ := h
      exact ⟨hne, Ps, hPs.imp fun it P hit => ih (by omega) hit, hP⟩

theorem HashUnended.pull {it it' : HashIterator} {P : Prop} {o : Option PagetableEntry}
    (h : HashUnended it P) (hb : it.nextblock < 2 ^ 32) (hpull : tbmStreamBlock it = (it', o)) :
    (HashUnended it' P ∧ (o = none → P) ∧ ∀ e, o = some e → e.blockno < 2 ^ 32) ∧
      it'.nextblock < 2 ^ 32 := by
  by_cases hagain : ∃ e, it.nextentry = some e ∧ it.nextblock ≤ e.blockno
  · obtain ⟨e, he, hle⟩ := hagain
    obtain ⟨rfl, rfl⟩ := Prod.mk.inj ((tbmStreamBlock_again he hle).symm.trans hpull)
    refine ⟨⟨h, fun h0 => absurd h0 (Option.some_ne_none e), ?_⟩, hb⟩
    rintro e' ⟨⟩
    exact h.cached e he
  · have hbefore : ∀ e, it.nextentry = some e → e.blockno < it.nextblock := by
      intro e he
      by_contra hlt
      exact hagain ⟨e, he, Nat.le_of_not_lt hlt⟩
    obtain ⟨hash, hnext, hpages⟩ := tbmNextPage_spec it.hash
    rw [tbmStreamBlock_fetch hbefore] at hpull
    obtain ⟨rfl, rfl⟩ := Prod.mk.inj ((HashIterator.fetch_eq hnext).symm.trans hpull)
    refine ⟨?_, Nat.mod_lt _ (by decide)⟩
    -- a page that is dropped is behind the block asked for
    have hcached : ∀ e, it.nextentry = some e → e.blockno < invalidBlockNumber := by
      intro e he
      have hlt := hbefore e he
      show e.blockno < 2 ^ 32 - 1
      omega
    have hended := fun hall => h.ended hall hcached
    have hblockno := h.blockno
    cases hps : it.hash.pages with
    | nil =>
      rw [hps] at hended hpages
      have hnil : hash.pages = [] := hpages
      refine ⟨⟨?_, fun e h0 => absurd h0 (Option.some_ne_none e).symm,
        fun _ _ => hended (List.forall_mem_nil _)⟩, fun _ => hended (List.forall_mem_nil _),
        fun e h0 => absurd h0 (Option.some_ne_none e).symm⟩
      show ∀ e ∈ hash.pages, e.blockno < 2 ^ 32
      rw [hnil]
      exact List.forall_mem_nil _
    | cons e ps =>
      rw [hps] at hended hpages hblockno
      obtain ⟨he, hblockno⟩ := List.forall_mem_cons.mp hblockno
      have htail : hash.pages = ps := hpages
      refine ⟨⟨?_, ?_, fun hall hcached => hended (List.forall_mem_cons.mpr ⟨hcached e rfl, ?_⟩)⟩,
        fun h0 => absurd h0 (Option.some_ne_none e), ?_⟩
      · show ∀ e ∈ hash.pages, e.blockno < 2 ^ 32
        rw [htail]
        exact hblockno
      · rintro e' ⟨⟩
        exact he
      · rw [← htail]
        exact hall
      · rintro e' ⟨⟩
        exact he

section

variable {α : Type} {pull : Nat → α → Option (α × Option PagetableEntry)} {U : α → Prop → Prop}

/-- Inputs that have no more pages only if they end. -/
def PullsUnending (pull : Nat → α → Option (α × Option PagetableEntry)) (U : α → Prop → Prop) :
    Prop :=
  ∀ {b it P it' o}, b < 2 ^ 32 → U it P → pull b it = some (it', o) →
    U it' P ∧ (o = none → P) ∧ ∀ e, o = some e → e.blockno < 2 ^ 32

theorem pullInputs_or_unending (hU : PullsUnending pull U) {b : Nat} (hb : b < 2 ^ 32)
    {its : List α} {Ps : List Prop} (h : List.Forall₂ U its Ps) {its' : List α}
    {ms : List PagetableEntry} {ok : Bool}
    (hpull : pullInputs pull .or b its = some (its', ms, ok)) :
    List.Forall₂ U its' Ps ∧ (∀ e ∈ ms, e.blockno < 2 ^ 32) ∧ ok = true ∧
      (ms = [] → ∀ P ∈ Ps, P) := by
  induction h generalizing its' ms ok with
  | nil =>
    obtain ⟨rfl, rfl, rfl⟩ : [] = its' ∧ [] = ms ∧ true = ok := by simpa [pullInputs] using hpull
    exact ⟨.nil, List.forall_mem_nil _, rfl, fun _ => List.forall_mem_nil _⟩
  | @cons it P its Ps hit _ ih =>
    rcases hp : pull b it with _ | ⟨it', o⟩
    · simp [pullInputs, hp] at hpull
    obtain ⟨hit', hnone, hlt⟩ := hU hb hit hp
    rcases hq : pullInputs pull .or b its with _ | ⟨its'', ms', ok'⟩
    · cases o with
      | none => simp [pullInputs, hp, hq] at hpull
      | some e => simp [pullInputs, hp, hq] at hpull
    obtain ⟨hits', hlts, rfl, hstops⟩ := ih hq
    cases o with
    | none =>
      obtain ⟨rfl, rfl, rfl⟩ : it' :: its'' = its' ∧ ms' = ms ∧ true = ok := by
        simpa [pullInputs, hp, hq] using hpull
      exact ⟨.cons hit' hits', hlts, rfl, fun h0 => List.forall_mem_cons.mpr ⟨hnone rfl, hstops h0⟩⟩
    | some e =>
      obtain ⟨rfl, rfl, rfl⟩ : it' :: its'' = its' ∧ e :: ms' = ms ∧ true = ok := by
        simpa [pullInputs, hp, hq] using hpull
      exact ⟨.cons hit' hits', List.forall_mem_cons.mpr ⟨hlt e rfl, hlts⟩, rfl,
        fun h0 => absurd h0 (List.cons_ne_nil e ms')⟩

theorem pullInputs_and_unending (hU : PullsUnending pull U) {b : Nat} (hb : b < 2 ^ 32)
    {its : List α} {Ps : List Prop} (h : List.Forall₂ U its Ps) {its' : List α}
    {ms : List PagetableEntry} {ok : Bool}
    (hpull : pullInputs pull .and b its = some (its', ms, ok)) :
    List.Forall₂ U its' Ps ∧ (∀ e ∈ ms, e.blockno < 2 ^ 32) ∧ (ok = false → ∃ P ∈ Ps, P) ∧
      (ok = true → its ≠ [] → ms ≠ []) := by
  induction h generalizing its' ms ok with
  | nil =>
    obtain ⟨rfl, rfl, rfl⟩ : [] = its' ∧ [] = ms ∧ true = ok := by simpa [pullInputs] using hpull
    exact ⟨.nil, List.forall_mem_nil _, fun h0 => absurd h0 (by decide),
      fun _ hne => absurd rfl hne⟩
  | @cons it P its Ps hit hits ih =>
    rcases hp : pull b it with _ | ⟨it', o⟩
    · simp [pullInputs, hp] at hpull
    obtain ⟨hit', hnone, hlt⟩ := hU hb hit hp
    cases o with
    | none =>
      obtain ⟨rfl, rfl, rfl⟩ : it' :: its = its' ∧ [] = ms ∧ false = ok := by
        simpa [pullInputs, hp] using hpull
      exact ⟨.cons hit' hits, List.forall_mem_nil _, fun _ => ⟨P, List.mem_cons_self, hnone rfl⟩,
        fun h0 => absurd h0 (by decide)⟩
    | some e =>
      rcases hq : pullInputs pull .and b its with _ | ⟨its'', ms', ok'⟩
      · simp [pullInputs, hp, hq] at hpull
      obtain ⟨hits', hlts, hstops, -⟩ := ih hq
      obtain ⟨rfl, rfl, rfl⟩ : it' :: its'' = its' ∧ e :: ms' = ms ∧ ok' = ok := by
        simpa [pullInputs, hp, hq] using hpull
      refine ⟨.cons hit' hits', List.forall_mem_cons.mpr ⟨hlt e rfl, hlts⟩, fun h0 => ?_,
        fun _ _ => List.cons_ne_nil e ms'⟩
      obtain ⟨Q, hQ, h⟩ := hstops h0
      exact ⟨Q, List.mem_cons_of_mem P hQ, h⟩

/-- Inputs that give no page, or that an intersection has found to be at their end. -/
theorem pullInputs_unending (hU : PullsUnending pull U) {kind : OpType} {b : Nat} (hb : b < 2 ^ 32)
    {its : List α} {Ps : List Prop} (h : List.Forall₂ U its Ps) (hne : its ≠ []) {its' : List α}
    {ms : List PagetableEntry} {ok : Bool}
    (hpull : pullInputs pull kind b its = some (its', ms, ok)) :
    List.Forall₂ U its' Ps ∧ (∀ e ∈ ms, e.blockno < 2 ^ 32) ∧
      (ok = false ∨ ms = [] → kind.stops Ps) := by
  cases kind with
  | or =>
    obtain ⟨h₁, h₂, rfl, h₃⟩ := pullInputs_or_unending hU hb h hpull
    exact ⟨h₁, h₂, fun h0 => h₃ (h0.resolve_left (by decide))⟩
  | and =>
    obtain ⟨h₁, h₂, h₃, h₄⟩ := pullInputs_and_unending hU hb h hpull
    refine ⟨h₁, h₂, fun h0 => ?_⟩
    cases ok with
    | false => exact h₃ rfl
    | true => exact absurd (h0.resolve_left (by decide)) (h₄ rfl hne)

theorem minBlockno_lt {kind : OpType} {ms : List PagetableEntry}
    (h : ∀ e ∈ ms, e.blockno < 2 ^ 32) :
    minBlockno kind ms < 2 ^ 32 := by
  refine List.foldlRecOn (motive := fun m => m < 2 ^ 32) ms _
    (show 2 ^ 32 - 1 < 2 ^ 32 by decide) ?_
  intro m hm e he
  split_ifs
  · exact h e he
  · cases kind with
    | or => exact (min_le_left _ _).trans_lt hm
    | and => exact max_lt hm (h e he)

theorem mergeMatches_blockno_lt {kind : OpType} {m : Nat} {ms : List PagetableEntry}
    (h : ∀ e ∈ ms, e.blockno < 2 ^ 32) {e : PagetableEntry} (he : e.blockno < 2 ^ 32) :
    (mergeMatches kind m ms e).1.blockno < 2 ^ 32 := by
  induction ms generalizing e with
  | nil => exact he
  | cons tmp ms ih =>
    obtain ⟨htmp, h⟩ := List.forall_mem_cons.mp h
    rw [mergeMatches_cons]
    split_ifs
    · exact ih h htmp
    · exact he
    · exact ih h he
    · exact he
    · exact ih h he

/-- **An inner node has no more pages** only if its inputs have ended: a union if all have, an
intersection if one has. -/
theorem opstreamIterate_unending (hU : PullsUnending pull U) {kind : OpType} {Ps : List Prop}
    (fuel : Nat) {b : Nat} (hb : b < 2 ^ 32) {its : List α} (h : List.Forall₂ U its Ps)
    (hne : its ≠ []) {e : PagetableEntry} {nextblock : Nat} {its' : List α}
    {o : Option PagetableEntry}
    (hpull : opstreamIterate pull kind fuel b its e = some (nextblock, its', o)) :
    List.Forall₂ U its' Ps ∧ its' ≠ [] ∧ (o = none → kind.stops Ps) ∧
      (∀ e, o = some e → e.blockno < 2 ^ 32) ∧ nextblock < 2 ^ 32 := by
  induction fuel generalizing b its e with
  | zero => exact absurd hpull.symm (Option.some_ne_none _)
  | succ fuel ih =>
    rw [opstreamIterate] at hpull
    rcases hq : pullInputs pull kind b its with _ | ⟨its₁, ms, ok⟩
    · rw [hq] at hpull
      exact absurd hpull.symm (Option.some_ne_none _)
    obtain ⟨h₁, hlt, hstops⟩ := pullInputs_unending hU hb h hne hq
    have hne₁ : its₁ ≠ [] := by
      intro h0
      have hlen := h₁.length_eq.trans h.length_eq.symm
      rw [h0] at hlen
      exact hne (List.length_eq_zero_iff.mp hlen.symm)
    rw [hq, Option.bind_eq_bind, Option.bind_some] at hpull
    dsimp only at hpull
    have hmin : minBlockno kind ms < 2 ^ 32 := minBlockno_lt hlt
    have hmerge : (mergeMatches kind (minBlockno kind ms) ms
        { e with blockno := invalidBlockNumber }).1.blockno < 2 ^ 32 :=
      mergeMatches_blockno_lt hlt (show 2 ^ 32 - 1 < 2 ^ 32 by decide)
    generalize mergeMatches kind (minBlockno kind ms) ms
      { e with blockno := invalidBlockNumber } = r at hpull hmerge
    obtain ⟨e', restart⟩ := r
    cases ok with
    | false =>
      obtain ⟨hn, rfl, rfl⟩ : (minBlockno kind ms + 1) % 2 ^ 32 = nextblock ∧ its₁ = its' ∧
          none = o := by
        simpa using hpull
      exact ⟨h₁, hne₁, fun _ => hstops (.inl rfl),
        fun e h0 => absurd h0 (Option.some_ne_none e).symm,
        hn ▸ Nat.mod_lt _ (by decide)⟩
    | true =>
      cases restart with
      | true => exact ih hmin h₁ hne₁ (by simpa using hpull)
      | false =>
        cases ms with
        | nil =>
          obtain ⟨rfl, rfl, rfl⟩ : b = nextblock ∧ its₁ = its' ∧ none = o := by simpa using hpull
          exact ⟨h₁, hne₁, fun _ => hstops (.inr rfl),
            fun e h0 => absurd h0 (Option.some_ne_none e).symm, hb⟩
        | cons m ms =>
          obtain ⟨hn, rfl, rfl⟩ : (minBlockno kind (m :: ms) + 1) % 2 ^ 32 = nextblock ∧
            its₁ = its' ∧ some e' = o := by simpa using hpull
          refine ⟨h₁, hne₁, fun h0 => absurd h0 (Option.some_ne_none e'), ?_,
            hn ▸ Nat.mod_lt _ (by decide)⟩
          rintro e'' ⟨⟩
          exact hmerge

end

/-- **A tree has no more pages** only if it ends. -/
theorem Unending.pull {d b : Nat} {it it' : StreamBMIterator} {P : Prop} {o : Option PagetableEntry}
    (h : Unending d it P) (hb : b < 2 ^ 32) (hpull : pullFrom d b it = some (it', o)) :
    (Unending d it' P ∧ (o = none → P) ∧ ∀ e, o = some e → e.blockno < 2 ^ 32) ∧
      it'.nextblock < 2 ^ 32 := by
  induction d generalizing b it it' P o with
  | zero => exact h.elim
  | succ d ih =>
    cases it with
    | hash it =>
      obtain ⟨rfl, rfl⟩ := Prod.mk.inj (Option.some.inj ((pullFrom_hash rfl).symm.trans hpull))
      have h : HashUnended it P := h
      have h' : HashUnended { it with nextblock := b } P := ⟨h.blockno, h.cached, h.ended⟩
      exact h'.pull hb rfl
    | index it =>
      obtain ⟨all, hit, hP⟩ := h
      have hit' : Unended all { it with nextblock := b } := ⟨hit.scan, hit.done, hit.freed, hb⟩
      obtain ⟨it₁, o₁, heq, h₁, hnone, hlt⟩ := hit'.pull
      obtain ⟨rfl, rfl⟩ := Prod.mk.inj (Option.some.inj ((pullFrom_index heq).symm.trans hpull))
      exact ⟨⟨⟨all, h₁, hP⟩, fun h0 => hP (hnone h0), hlt⟩, h₁.nextblock⟩
    | op kind nextblock input =>
      obtain ⟨hne, Ps, hPs, hP⟩ := h
      rw [pullFrom_op] at hpull
      obtain ⟨⟨nextblock', input', o'⟩, heq, hmap⟩ := Option.map_eq_some_iff.mp hpull
      obtain ⟨rfl, rfl⟩ := Prod.mk.inj hmap
      have hU : PullsUnending (pullFrom d) (Unending d) := fun hb h hp => (ih h hb hp).1
      obtain ⟨h₁, hne₁, hstops, hlt, hnext⟩ := opstreamIterate_unending hU _ hb hPs hne heq
      exact ⟨⟨⟨hne₁, Ps, h₁, hP⟩, fun h0 => hP (hstops h0), hlt⟩, hnext⟩

namespace Combination

end Combination

/-! ## The iteration -/

/-- The iteration over the tree ends, and reports the combination. -/
def Combination.Delivers (c : Combination) : Prop :=
  ∃ results, Iterates (tbmGenericIterate c.node.depth) (tbmStreamBeginIterate c.node) results ∧
    Reports c.tids (fun k => c.Lossy k) results

end Hdb.Bitmap

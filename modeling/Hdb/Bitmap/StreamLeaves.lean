import Hdb.Bitmap.OpStream

/-!
# The leaves of a tree of streams

The iterator of a tid bitmap goes over its pages in the order of their blocks: the exact pages and
the lossy ones, which are the bits of its chunks, merged (`TBMIterator.pages`). A call takes the
first of the pages that are left. The stream of a tid bitmap keeps the page it has returned last,
and returns it again as long as it is not behind the block asked for (`hash_pulled`). The stream of
a bitmap index does so too (`index_pulled`), and ends if its vector ends before the last block
(`index_ends`).
-/

namespace Hdb.Bitmap

/-! ## The pages of a tid bitmap -/

/-- The blocks of a chunk from the bit `k` on. -/
def chunkBlocks (chunk : PagetableEntry) (k : Nat) : List Nat :=
  ((List.range' k (pagesPerChunk - k)).filter chunk.has).map fun j => chunk.blockno + j

/-- A lossy page. -/
def TIDBitmap.lossyPage (tbm : TIDBitmap) (b : Nat) : PagetableEntry :=
  { tbm.uninit b with ischunk := true, blockno := b }

/-- The blocks of the lossy pages that are left. -/
def TBMIterator.lossyBlocks (it : TBMIterator) : List Nat :=
  match it.tbm.schunks.drop it.schunkptr with
  | [] => []
  | chunk :: chunks => chunkBlocks chunk it.schunkbit ++ chunks.flatMap fun c => chunkBlocks c 0

/-- The pages that are left, in the order of their blocks. -/
def TBMIterator.pages (it : TBMIterator) : List PagetableEntry :=
  (it.lossyBlocks.map it.tbm.lossyPage).merge (it.tbm.spages.drop it.spageptr)
    fun p q => decide (p.blockno < q.blockno)

theorem chunkBlocks_of_le (chunk : PagetableEntry) {k : Nat} (h : pagesPerChunk ≤ k) :
    chunkBlocks chunk k = [] := by
  rw [chunkBlocks, Nat.sub_eq_zero_of_le h]
  rfl

theorem chunkBlocks_of_lt (chunk : PagetableEntry) {k : Nat} (h : k < pagesPerChunk) :
    chunkBlocks chunk k =
      if chunk.has k then (chunk.blockno + k) :: chunkBlocks chunk (k + 1)
      else chunkBlocks chunk (k + 1) := by
  have hlen : pagesPerChunk - k = (pagesPerChunk - (k + 1)) + 1 := by
    have : k < 1024 := h
    show 1024 - k = 1024 - (k + 1) + 1
    omega
  rw [chunkBlocks, hlen, List.range'_succ, List.filter_cons]
  cases chunk.has k with
  | true => rw [if_pos rfl, if_pos rfl]; rfl
  | false => rw [if_neg Bool.false_ne_true, if_neg Bool.false_ne_true]; rfl

/-- The bits that are passed are not set. -/
theorem nextChunkBit_spec (chunk : PagetableEntry) (n k : Nat) (hn : n = pagesPerChunk - k) :
    chunkBlocks chunk (nextChunkBit chunk n k) = chunkBlocks chunk k ∧
      (nextChunkBit chunk n k < pagesPerChunk → chunk.has (nextChunkBit chunk n k) = true) := by
  induction n generalizing k with
  | zero =>
    have hle : pagesPerChunk ≤ k := Nat.le_of_sub_eq_zero hn.symm
    exact ⟨rfl, fun hlt => absurd hlt (Nat.not_lt.mpr hle)⟩
  | succ n ih =>
    have hlt : k < pagesPerChunk := Nat.lt_of_sub_pos (hn ▸ Nat.succ_pos n)
    rw [nextChunkBit]
    cases hhas : chunk.has k with
    | true =>
      rw [if_pos rfl]
      exact ⟨rfl, fun _ => hhas⟩
    | false =>
      rw [if_neg Bool.false_ne_true]
      obtain ⟨h₁, h₂⟩ := ih (k + 1) (by rw [Nat.sub_succ, ← hn, Nat.pred_succ])
      rw [h₁, chunkBlocks_of_lt chunk hlt, hhas, if_neg Bool.false_ne_true]
      exact ⟨rfl, h₂⟩

section

variable {it : TBMIterator} {chunk : PagetableEntry}

theorem lossyBlocks_none (h : it.tbm.schunks[it.schunkptr]? = none) : it.lossyBlocks = [] := by
  rw [TBMIterator.lossyBlocks, List.drop_eq_nil_of_le (List.getElem?_eq_none_iff.mp h)]

theorem lossyBlocks_some (h : it.tbm.schunks[it.schunkptr]? = some chunk) :
    it.lossyBlocks = chunkBlocks chunk it.schunkbit ++
      (it.tbm.schunks.drop (it.schunkptr + 1)).flatMap fun c => chunkBlocks c 0 := by
  obtain ⟨hlt, heq⟩ := List.getElem?_eq_some_iff.mp h
  rw [TBMIterator.lossyBlocks, List.drop_eq_getElem_cons hlt, heq]

theorem lossyBlocks_start (h : it.schunkbit = 0) :
    it.lossyBlocks = (it.tbm.schunks.drop it.schunkptr).flatMap fun c => chunkBlocks c 0 := by
  rw [TBMIterator.lossyBlocks, h]
  cases it.tbm.schunks.drop it.schunkptr with
  | nil => rfl
  | cons c cs => rw [List.flatMap_cons]

end

/-- **Advancing to the next lossy page** passes no page. -/
theorem advanceChunk_spec (n : Nat) (it : TBMIterator)
    (hn : n = it.tbm.schunks.length - it.schunkptr) :
    (advanceChunk n it).tbm = it.tbm ∧ (advanceChunk n it).spageptr = it.spageptr ∧
      (advanceChunk n it).lossyBlocks = it.lossyBlocks ∧
      ∀ chunk, it.tbm.schunks[(advanceChunk n it).schunkptr]? = some chunk →
        (advanceChunk n it).schunkbit < pagesPerChunk ∧
          chunk.has (advanceChunk n it).schunkbit = true := by
  induction n generalizing it with
  | zero =>
    have hle : it.tbm.schunks.length ≤ it.schunkptr := Nat.le_of_sub_eq_zero hn.symm
    refine ⟨rfl, rfl, rfl, fun chunk hc => ?_⟩
    rw [advanceChunk, List.getElem?_eq_none hle] at hc
    exact absurd hc (Option.some_ne_none chunk).symm
  | succ n ih =>
    have hlt : it.schunkptr < it.tbm.schunks.length := Nat.lt_of_sub_pos (hn ▸ Nat.succ_pos n)
    have hget : it.tbm.schunks[it.schunkptr]? = some it.tbm.schunks[it.schunkptr] :=
      List.getElem?_eq_getElem hlt
    obtain ⟨h₁, h₂⟩ := nextChunkBit_spec it.tbm.schunks[it.schunkptr] (pagesPerChunk - it.schunkbit)
      it.schunkbit rfl
    rw [advanceChunk, hget]
    dsimp only
    by_cases hbit : nextChunkBit it.tbm.schunks[it.schunkptr] (pagesPerChunk - it.schunkbit)
        it.schunkbit < pagesPerChunk
    · rw [if_pos hbit]
      refine ⟨rfl, rfl, ?_, ?_⟩
      · rw [lossyBlocks_some hget, ← h₁]
        exact lossyBlocks_some hget
      · intro chunk hc
        obtain rfl := Option.some.inj (hget.symm.trans hc)
        exact ⟨hbit, h₂ hbit⟩
    · rw [if_neg hbit]
      obtain ⟨h₃, h₄, h₅, h₆⟩ := ih { it with schunkptr := it.schunkptr + 1, schunkbit := 0 }
        (by show n = it.tbm.schunks.length - (it.schunkptr + 1); omega)
      refine ⟨h₃, h₄, ?_, h₆⟩
      rw [h₅, lossyBlocks_start rfl, lossyBlocks_some hget, ← h₁,
        chunkBlocks_of_le _ (Nat.le_of_not_lt hbit), List.nil_append]

theorem nextExactPage_spec (it : TBMIterator) (h : it.lossyBlocks = [] ∨
    ∃ e b bs, it.tbm.spages[it.spageptr]? = some e ∧ it.lossyBlocks = b :: bs ∧ ¬b < e.blockno) :
    ∃ it', nextExactPage it = (it', it.pages.head?) ∧ it'.pages = it.pages.tail := by
  rw [nextExactPage, TBMIterator.pages]
  cases hget : it.tbm.spages[it.spageptr]? with
  | none =>
    have hnil : it.lossyBlocks = [] := by
      rcases h with h | ⟨e, _, _, he, _⟩
      · exact h
      · exact absurd (hget.symm.trans he) (Option.some_ne_none e).symm
    have hdrop : it.tbm.spages.drop it.spageptr = [] :=
      List.drop_eq_nil_of_le (List.getElem?_eq_none_iff.mp hget)
    refine ⟨it, ?_, ?_⟩
    · rw [hnil, hdrop, List.map_nil, List.nil_merge]
      rfl
    · rw [TBMIterator.pages, hnil, hdrop, List.map_nil, List.nil_merge]
      rfl
  | some e =>
    obtain ⟨hlt, heq⟩ := List.getElem?_eq_some_iff.mp hget
    have hdrop : it.tbm.spages.drop it.spageptr = e :: it.tbm.spages.drop (it.spageptr + 1) := by
      rw [List.drop_eq_getElem_cons hlt, heq]
    refine ⟨{ it with spageptr := it.spageptr + 1 }, ?_⟩
    have hpages : (it.lossyBlocks.map it.tbm.lossyPage).merge (it.tbm.spages.drop it.spageptr)
        (fun p q => decide (p.blockno < q.blockno)) =
        e :: TBMIterator.pages { it with spageptr := it.spageptr + 1 } := by
      rw [hdrop]
      rcases h with hnil | ⟨e', b, bs, he, hcons, hge⟩
      · have hnil' : TBMIterator.lossyBlocks { it with spageptr := it.spageptr + 1 } = [] := hnil
        rw [TBMIterator.pages, hnil, hnil', List.map_nil, List.nil_merge, List.nil_merge]
      · obtain rfl := Option.some.inj (hget.symm.trans he)
        have hcons' : TBMIterator.lossyBlocks { it with spageptr := it.spageptr + 1 } =
          b :: bs := hcons
        rw [TBMIterator.pages, hcons, hcons', List.map_cons, List.cons_merge_cons, if_neg]
        show ¬decide (b < e.blockno) = true
        rw [decide_eq_true_eq]
        exact hge
    rw [hpages]
    exact ⟨rfl, rfl⟩

/-- **The next page** is the first of the pages that are left. -/
theorem tbmNextPage_spec (it : TBMIterator) :
    ∃ it', tbmNextPage it = (it', it.pages.head?) ∧ it'.pages = it.pages.tail := by
  obtain ⟨h₁, h₂, h₃, h₄⟩ := advanceChunk_spec (it.tbm.schunks.length - it.schunkptr) it rfl
  rw [tbmNextPage]
  dsimp only
  generalize hadv : advanceChunk (it.tbm.schunks.length - it.schunkptr) it = it₁ at h₁ h₂ h₃ h₄ ⊢
  have hpages : it₁.pages = it.pages := by
    rw [TBMIterator.pages, TBMIterator.pages, h₁, h₂, h₃]
  rw [← hpages]
  cases hget : it₁.tbm.schunks[it₁.schunkptr]? with
  | none => exact nextExactPage_spec it₁ (.inl (lossyBlocks_none hget))
  | some chunk =>
    obtain ⟨hbit, hhas⟩ := h₄ chunk (h₁ ▸ hget)
    have hcons : it₁.lossyBlocks = (chunk.blockno + it₁.schunkbit) ::
        TBMIterator.lossyBlocks { it₁ with schunkbit := it₁.schunkbit + 1 } := by
      rw [lossyBlocks_some hget, chunkBlocks_of_lt chunk hbit, hhas, if_pos rfl, List.cons_append]
      exact congrArg _
        (@lossyBlocks_some { it₁ with schunkbit := it₁.schunkbit + 1 } chunk hget).symm
    dsimp only
    cases hexact : it₁.tbm.spages[it₁.spageptr]? with
    | none =>
      have hdrop : it₁.tbm.spages.drop it₁.spageptr = [] :=
        List.drop_eq_nil_of_le (List.getElem?_eq_none_iff.mp hexact)
      have hmerge : it₁.pages = it₁.tbm.lossyPage (chunk.blockno + it₁.schunkbit) ::
          TBMIterator.pages { it₁ with schunkbit := it₁.schunkbit + 1 } := by
        rw [TBMIterator.pages, TBMIterator.pages, hcons, hdrop, List.merge_right, List.merge_right,
          List.map_cons]
      rw [Option.all_none, if_pos rfl, hmerge]
      exact ⟨_, rfl, rfl⟩
    | some e =>
      rw [Option.all_some]
      by_cases hlt : chunk.blockno + it₁.schunkbit < e.blockno
      · obtain ⟨hlen, heq⟩ := List.getElem?_eq_some_iff.mp hexact
        have hdrop : it₁.tbm.spages.drop it₁.spageptr =
            e :: it₁.tbm.spages.drop (it₁.spageptr + 1) := by
          rw [List.drop_eq_getElem_cons hlen, heq]
        have hmerge : it₁.pages = it₁.tbm.lossyPage (chunk.blockno + it₁.schunkbit) ::
            TBMIterator.pages { it₁ with schunkbit := it₁.schunkbit + 1 } := by
          have hbefore :
            decide ((it₁.tbm.lossyPage (chunk.blockno + it₁.schunkbit)).blockno < e.blockno) =
              true := decide_eq_true hlt
          rw [TBMIterator.pages, hcons, List.map_cons, hdrop, List.cons_merge_cons, if_pos hbefore,
            ← hdrop]
          rfl
        rw [decide_eq_true hlt, if_pos rfl, hmerge]
        exact ⟨_, rfl, rfl⟩
      · rw [decide_eq_false hlt, if_neg Bool.false_ne_true]
        exact nextExactPage_spec it₁ (.inr ⟨e, _, _, hexact, hcons, hlt⟩)

/-! ## The stream of a tid bitmap -/

/-- The stream of a tid bitmap and what is known of it: the page that was returned last and the
pages that are left have all bits from the last block asked for. -/
structure HashAt (it : HashIterator) (v : View) : Prop where
  sorted : (it.hash.pages.map PagetableEntry.blockno).Pairwise (· < ·)
  shows : ∀ e ∈ it.hash.pages, PageShows v.toMeaning e
  valid : ∀ e ∈ it.hash.pages, e.blockno < invalidBlockNumber
  ahead : ∀ e ∈ it.hash.pages, v.last ≤ e.blockno
  cached : ∀ e, it.nextentry = some e →
    v.last = e.blockno + 1 ∧ PageShows v.toMeaning e ∧ e.blockno < invalidBlockNumber
  covers : ∀ p, v.asked ≤ p / 65536 → v.bits p = true →
    (∃ e, it.nextentry = some e ∧ e.blockno = p / 65536) ∨
    ∃ e ∈ it.hash.pages, e.blockno = p / 65536
  near : v.small → (∀ e ∈ it.hash.pages, e.blockno ≤ farBlock) ∧
    ∀ e, it.nextentry = some e → e.blockno ≤ farBlock
  dead : v.dead → it.nextentry = none ∧ it.hash.pages = []
  last : v.last ≤ invalidBlockNumber

section

variable {it : HashIterator} {v : View} {b : Nat}

/-- The page that is kept is returned again. -/
theorem HashAt.again (h : HashAt it v) {e : PagetableEntry} (he : it.nextentry = some e)
    (hle : b ≤ e.blockno) :
    HashAt { it with nextblock := b } { v with asked := max b v.asked, far := v.farAfter b } ∧
      Pulled b v { v with asked := max b v.asked, far := v.farAfter b } (some e) := by
  obtain ⟨hlast, hshows, hvalid⟩ := h.cached e he
  have hdead : ¬v.dead := fun hd => absurd (he.symm.trans (h.dead hd).1) (Option.some_ne_none e)
  refine ⟨⟨h.sorted, h.shows, h.valid, h.ahead,
    fun e he => ⟨(h.cached e he).1, ⟨(h.cached e he).2.1.1, (h.cached e he).2.1.2⟩,
      (h.cached e he).2.2⟩,
    fun p hp hbit => h.covers p (le_of_max_le_right hp) hbit, h.near, fun hd => absurd hd hdead,
    h.last⟩, ?_⟩
  refine ⟨rfl, rfl, rfl, le_rfl, fun hd => absurd hd hdead,
    fun h0 => absurd h0 (Option.some_ne_none e), ?_, ?_, ?_, ?_, ?_, ?_⟩
  · rintro e' ⟨⟩
    exact hlast
  · rintro e' ⟨⟩
    exact hvalid
  · rintro hsmall e' ⟨⟩
    exact ((h.near hsmall).2 e he).trans (le_max_left _ _)
  · rintro e' ⟨⟩ hb
    omega
  · rintro e' ⟨⟩ _
    exact hshows
  · rintro e' ⟨⟩ p h₁ h₂
    by_contra hbit
    rw [Bool.not_eq_false] at hbit
    rcases h.covers p (le_of_max_le_right h₁) hbit with ⟨e', he', heq⟩ | ⟨e', he', heq⟩
    · obtain rfl := Option.some.inj (he.symm.trans he')
      omega
    · have := h.ahead e' he'
      omega

/-- After the page that is kept, the pages that are left have the bits from the block asked for. -/
theorem HashAt.left (h : HashAt it v) (hbefore : ∀ e, it.nextentry = some e → e.blockno < b)
    {p : Nat} (hp : max b v.asked ≤ p / 65536) (hbit : v.bits p = true) :
    ∃ e ∈ it.hash.pages, e.blockno = p / 65536 := by
  rcases h.covers p (le_of_max_le_right hp) hbit with ⟨e, he, heq⟩ | hex
  · have hlt := hbefore e he
    omega
  · exact hex

/-- There are no pages left. -/
theorem HashAt.fetch_nil (h : HashAt it v) (hbefore : ∀ e, it.nextentry = some e → e.blockno < b)
    (hnil : it.hash.pages = []) {it' : TBMIterator} (hpages : it'.pages = []) {nextblock : Nat} :
    ∃ v', HashAt ⟨nextblock, none, it'⟩ v' ∧ Pulled b v v' none := by
  have hno : ∀ p, max b v.asked ≤ p / 65536 → v.bits p = false := by
    intro p hp
    by_contra hbit
    rw [Bool.not_eq_false] at hbit
    obtain ⟨e, he, _⟩ := h.left hbefore hp hbit
    exact absurd (hnil ▸ he) List.not_mem_nil
  have hempty : ∀ e, e ∉ it'.pages := fun e he => absurd (hpages ▸ he) List.not_mem_nil
  refine ⟨{ v with asked := max b v.asked, far := v.farAfter b, dead := True },
    ⟨?_, fun e he => absurd he (hempty e), fun e he => absurd he (hempty e),
      fun e he => absurd he (hempty e), fun e h0 => absurd h0 (Option.some_ne_none e).symm, ?_, ?_,
      fun _ => ⟨rfl, hpages⟩, h.last⟩,
    ⟨rfl, rfl, rfl, le_rfl, fun _ => rfl, fun _ => ⟨trivial, hno⟩, ?_, ?_, ?_, ?_, ?_, ?_⟩⟩
  · show (it'.pages.map PagetableEntry.blockno).Pairwise (· < ·)
    rw [hpages]
    exact .nil
  · intro p hp hbit
    exact absurd hbit (Bool.eq_false_iff.mp (hno p hp))
  · intro _
    exact ⟨fun e he => absurd he (hempty e), fun e h0 => absurd h0 (Option.some_ne_none e).symm⟩
  all_goals
    intros
    exact absurd (by assumption) (Option.some_ne_none _).symm

/-- The next page is fetched. -/
theorem HashAt.fetch_cons (h : HashAt it v) (hbefore : ∀ e, it.nextentry = some e → e.blockno < b)
    {e : PagetableEntry} {ps : List PagetableEntry} (hps : it.hash.pages = e :: ps)
    {it' : TBMIterator} (hpages : it'.pages = ps) {nextblock : Nat} :
    ∃ v', HashAt ⟨nextblock, some e, it'⟩ v' ∧ Pulled b v v' (some e) := by
  have hsorted := h.sorted
  rw [hps, List.map_cons, List.pairwise_cons] at hsorted
  have hmem : e ∈ it.hash.pages := hps ▸ List.mem_cons_self
  have hrest : ∀ e' ∈ ps, e' ∈ it.hash.pages := fun e' he' => hps ▸ List.mem_cons_of_mem e he'
  have hvalid := h.valid e hmem
  have hahead := h.ahead e hmem
  have hdead : ¬v.dead := fun hd => absurd (hps.symm.trans (h.dead hd).2) (List.cons_ne_nil e ps)
  have hafter : ∀ e' ∈ ps, e.blockno < e'.blockno := fun e' he' =>
    hsorted.1 e'.blockno (List.mem_map_of_mem he')
  refine ⟨{ v with asked := max b v.asked, far := v.farAfter b, last := e.blockno + 1 },
    ⟨?_, ?_, ?_, ?_, ?_, ?_, ?_, fun hd => absurd hd hdead, hvalid⟩,
    ⟨rfl, rfl, rfl, ?_, fun hd => absurd hd hdead,
      fun h0 => absurd h0 (Option.some_ne_none e), ?_, ?_, ?_, ?_, ?_, ?_⟩⟩
  · show (it'.pages.map PagetableEntry.blockno).Pairwise (· < ·)
    rw [hpages]
    exact hsorted.2
  · intro e' he'
    rw [hpages] at he'
    exact ⟨(h.shows e' (hrest e' he')).1, (h.shows e' (hrest e' he')).2⟩
  · intro e' he'
    rw [hpages] at he'
    exact h.valid e' (hrest e' he')
  · intro e' he'
    rw [hpages] at he'
    exact hafter e' he'
  · rintro e' ⟨⟩
    exact ⟨rfl, ⟨(h.shows e hmem).1, (h.shows e hmem).2⟩, hvalid⟩
  · intro p hp hbit
    obtain ⟨e', he', heq⟩ := h.left hbefore hp hbit
    rw [hps] at he'
    rcases List.mem_cons.mp he' with rfl | he'
    · exact .inl ⟨e', rfl, heq⟩
    · exact .inr ⟨e', hpages ▸ he', heq⟩
  · intro hsmall
    refine ⟨fun e' he' => ?_, ?_⟩
    · rw [hpages] at he'
      exact (h.near hsmall).1 e' (hrest e' he')
    · rintro e' ⟨⟩
      exact (h.near hsmall).1 e hmem
  · show v.last ≤ e.blockno + 1
    omega
  · rintro e' ⟨⟩
    rfl
  · rintro e' ⟨⟩
    exact hvalid
  · rintro hsmall e' ⟨⟩
    exact ((h.near hsmall).1 e hmem).trans (le_max_left _ _)
  · rintro e' ⟨⟩ _
    exact hahead
  · rintro e' ⟨⟩ _
    exact h.shows e hmem
  · rintro e' ⟨⟩ p h₁ h₂
    by_contra hbit
    rw [Bool.not_eq_false] at hbit
    obtain ⟨e', he', heq⟩ := h.left hbefore h₁ hbit
    rw [hps] at he'
    rcases List.mem_cons.mp he' with rfl | he'
    · omega
    · have hlt := hafter e' he'
      omega

/-- A new page is the first of those that are left. -/
theorem HashAt.fetch (h : HashAt it v) (hbefore : ∀ e, it.nextentry = some e → e.blockno < b)
    {it' : TBMIterator} (hpages : it'.pages = it.hash.pages.tail) {nextblock : Nat} :
    ∃ v', HashAt ⟨nextblock, it.hash.pages.head?, it'⟩ v' ∧ Pulled b v v' it.hash.pages.head? := by
  cases hps : it.hash.pages with
  | nil =>
    rw [hps] at hpages
    exact h.fetch_nil hbefore hps hpages
  | cons e ps =>
    rw [hps] at hpages
    exact h.fetch_cons hbefore hps hpages

end

theorem HashIterator.fetch_eq {it : HashIterator} {hash : TBMIterator} {o : Option PagetableEntry}
    (h : tbmNextPage it.hash = (hash, o)) :
    it.fetch = (⟨(it.nextblock + 1) % 2 ^ 32, o, hash⟩, o) := by
  rw [HashIterator.fetch, h]

theorem tbmStreamBlock_fetch {it : HashIterator}
    (h : ∀ e, it.nextentry = some e → e.blockno < it.nextblock) : tbmStreamBlock it = it.fetch := by
  rw [tbmStreamBlock]
  cases he : it.nextentry with
  | none => rfl
  | some e => exact if_neg (Nat.not_le.mpr (h e he))

theorem tbmStreamBlock_again {it : HashIterator} {e : PagetableEntry} (he : it.nextentry = some e)
    (hle : it.nextblock ≤ e.blockno) : tbmStreamBlock it = (it, some e) := by
  rw [tbmStreamBlock, he]
  exact if_pos hle

/-- The stream of a bitmap index over the words `all`, and what is known of it. -/
structure IndexAt (all : List Entry) (it : StreamIterator) (v : View) : Prop where
  bits : v.bits = bitAt all
  stream : ∀ so, it.stream = some so → ∃ asked n, StreamAt all asked so n ∧ asked ≤ v.asked
  cached : ∀ so e, it.stream = some so → so.entry = some e → v.last = e.blockno + 1
  start : ∀ so, it.stream = some so → so.entry = none → v.last = 0
  freed : it.stream = none → ∀ p, v.asked ≤ p / 65536 → v.bits p = false
  ends : v.ends → numBits all < 65536 * (2 ^ 32 - 1)
  small : v.small → numBits all < 65536 * (farBlock + 1)
  near : v.small → ∀ so e, it.stream = some so → so.entry = some e → e.blockno ≤ reach v.far
  far : v.small → v.far ≠ none → ∀ so, it.stream = some so → so.isDone = true
  dead : v.dead → it.stream = none
  last : v.last ≤ invalidBlockNumber

section

variable {all : List Entry} {it : StreamIterator} {v : View} {b : Nat} {so : BMStreamOpaque}

theorem ExactPage.shows {m : Meaning} {e : PagetableEntry} (h : ExactPage m.bits e) :
    PageShows m e := by
  refine ⟨fun _ => h.has, fun hc => ?_⟩
  rw [h.ischunk] at hc
  exact absurd hc Bool.false_ne_true

/-- The page that is kept is returned again. -/
theorem IndexAt.again (h : IndexAt all it v) (hs : it.stream = some so) {e : PagetableEntry}
    (he : so.entry = some e) (hle : b ≤ e.blockno) :
    IndexAt all { it with nextblock := b } { v with asked := max b v.asked, far := v.farAfter b } ∧
      Pulled b v { v with asked := max b v.asked, far := v.farAfter b } (some e) := by
  obtain ⟨asked, n, hat, hasked⟩ := h.stream so hs
  have hlast := h.cached so e hs he
  have hdead : ¬v.dead := fun hd => absurd (hs.symm.trans (h.dead hd)) (Option.some_ne_none so)
  refine ⟨⟨h.bits, ?_, h.cached, h.start, ?_, h.ends, h.small, ?_, ?_, fun hd => absurd hd hdead,
    h.last⟩, ?_⟩
  · intro so' hs'
    obtain ⟨asked', n', hat', hasked'⟩ := h.stream so' hs'
    exact ⟨asked', n', hat', hasked'.trans (le_max_right _ _)⟩
  · intro h0
    exact absurd (hs.symm.trans h0) (Option.some_ne_none so)
  · exact fun hsmall so' e' hs' he' => (h.near hsmall so' e' hs' he').trans (reach_le v b)
  · intro hsmall hfar
    refine h.far hsmall fun h0 => hfar ?_
    -- a block that is not after the page is not the first far one
    have hnear := h.near hsmall so e hs he
    rw [h0] at hnear
    have hb : ¬farBlock < b :=
      Nat.not_lt.mpr (hle.trans (hnear.trans (max_le le_rfl (Nat.zero_le _))))
    show v.farAfter b = none
    rw [View.farAfter, h0, if_neg hb]
    rfl
  refine ⟨rfl, rfl, rfl, le_rfl, fun hd => absurd hd hdead,
    fun h0 => absurd h0 (Option.some_ne_none e), ?_, ?_, ?_, ?_, ?_, ?_⟩
  · rintro e' ⟨⟩
    exact hlast
  · rintro e' ⟨⟩
    have := h.last
    omega
  · rintro hsmall e' ⟨⟩
    exact (h.near hsmall so e hs he).trans (reach_le v b)
  · rintro e' ⟨⟩ hb
    omega
  · rintro e' ⟨⟩ _
    exact ExactPage.shows (h.bits ▸ (hat.exact e he).1)
  · rintro e' ⟨⟩ p h₁ h₂
    rw [h.bits]
    exact hat.before e he p (by omega) (by omega)

/-- No bit is set after the page that was returned last when the scan is at its end. -/
theorem IndexAt.done (h : IndexAt all it v) (hs : it.stream = some so) (hd : so.isDone = true)
    (hbefore : ∀ e, so.entry = some e → e.blockno < b) :
    ∀ p, max b v.asked ≤ p / 65536 → v.bits p = false := by
  intro p hp
  obtain ⟨asked, n, hat, _⟩ := h.stream so hs
  rw [h.bits]
  cases he : so.entry with
  | none =>
    rw [(hat.start he).2] at hd
    exact absurd hd Bool.false_ne_true
  | some e =>
    have hlt := hbefore e he
    by_cases hin : p < 64 * n
    · exact hat.after e he p (by omega) hin
    · apply Segments.bitAt_eq_false
      have hend : 64 * n = Segments.total entryLen all := hat.done hd
      omega

/-- A page that comes from the scan. -/
theorem IndexAt.next (h : IndexAt all it v) (hb : b < invalidBlockNumber) (hs : it.stream = some so)
    (hd : so.isDone = false) (hbefore : ∀ e, so.entry = some e → e.blockno < b) :
    ∃ it' e v', pullStream.pullNext { it with nextblock := b } so zeroEntry = (it', some e) ∧
      IndexAt all it' v' ∧ Pulled b v v' (some e) := by
  obtain ⟨asked, n, hat, _⟩ := h.stream so hs
  have hb' : b < 2 ^ 32 - 1 := hb
  obtain ⟨it', so', e, n', hpull, hs', he', hat', hvalid, _⟩ :=
    @StreamAt.pullNext all { it with nextblock := b } so asked n hat (show b + 1 < 2 ^ 32 by omega)
      hbefore
  have hvalid' : e.blockno < invalidBlockNumber := by
    show e.blockno < 2 ^ 32 - 1
    omega
  obtain ⟨hexact, hle⟩ := hat'.exact e he'
  have hle' : b ≤ e.blockno := hle
  have hdead : ¬v.dead := fun hd => absurd (hs.symm.trans (h.dead hd)) (Option.some_ne_none so)
  -- what was returned before is behind the block asked for
  have hlast : v.last ≤ b := by
    cases he : so.entry with
    | none =>
      rw [h.start so hs he]
      exact Nat.zero_le b
    | some e₀ =>
      rw [h.cached so e₀ hs he]
      exact hbefore e₀ he
  -- a block after all bits is the first such block that is asked for, and the scan comes to its end
  have hfar : v.small → v.far = none := by
    intro hsmall
    by_contra hne
    rw [h.far hsmall hne so hs] at hd
    exact Bool.false_ne_true hd.symm
  have hnear : v.small → e.blockno ≤ reach (v.farAfter b) ∧ (farBlock < b → so'.isDone = true) := by
    intro hsmall
    have hbits := h.small hsmall
    have hn' : 64 * n' ≤ numBits all := hat'.scan.pos.le
    have hreached : b < e.blockno → 65536 * e.blockno ≤ 64 * n' := hat'.reached e he'
    have hpast := hat'.past e he'
    rw [View.farAfter, hfar hsmall, Option.none_or]
    by_cases hlt : farBlock < b
    · rw [if_pos hlt]
      refine ⟨?_, fun _ => ?_⟩
      · show e.blockno ≤ max farBlock b
        omega
      · by_contra hd'
        have := hpast (Bool.not_eq_true _ ▸ hd')
        omega
    · rw [if_neg hlt]
      refine ⟨?_, fun h0 => absurd h0 hlt⟩
      show e.blockno ≤ max farBlock 0
      omega
  refine ⟨it', e, { v with asked := max b v.asked, far := v.farAfter b, last := e.blockno + 1 },
    hpull, ⟨h.bits, ?_, ?_, ?_, ?_, h.ends, h.small, ?_, ?_, fun hd => absurd hd hdead, hvalid'⟩,
    ⟨rfl, rfl, rfl, ?_, fun hd => absurd hd hdead, fun h0 => absurd h0 (Option.some_ne_none e),
      ?_, ?_, ?_, ?_, ?_, ?_⟩⟩
  · intro so'' hs''
    obtain rfl := Option.some.inj (hs'.symm.trans hs'')
    exact ⟨b, n', hat', le_max_left _ _⟩
  · intro so'' e'' hs'' he''
    obtain rfl := Option.some.inj (hs'.symm.trans hs'')
    obtain rfl := Option.some.inj (he'.symm.trans he'')
    rfl
  · intro so'' hs'' he''
    obtain rfl := Option.some.inj (hs'.symm.trans hs'')
    exact absurd (he'.symm.trans he'') (Option.some_ne_none e)
  · intro h0
    exact absurd (hs'.symm.trans h0) (Option.some_ne_none so')
  · intro hsmall so'' e'' hs'' he''
    obtain rfl := Option.some.inj (hs'.symm.trans hs'')
    obtain rfl := Option.some.inj (he'.symm.trans he'')
    exact (hnear hsmall).1
  · intro hsmall hne so'' hs''
    obtain rfl := Option.some.inj (hs'.symm.trans hs'')
    refine (hnear hsmall).2 ?_
    by_contra hlt
    refine hne ?_
    show v.farAfter b = none
    rw [View.farAfter, hfar hsmall, if_neg hlt]
    rfl
  · show v.last ≤ e.blockno + 1
    omega
  · rintro e' ⟨⟩
    rfl
  · rintro e' ⟨⟩
    exact hvalid'
  · rintro hsmall e' ⟨⟩
    exact (hnear hsmall).1
  · rintro e' ⟨⟩ _
    exact hlast.trans hle'
  · rintro e' ⟨⟩ _
    exact ExactPage.shows (h.bits ▸ hexact)
  · rintro e' ⟨⟩ p h₁ h₂
    rw [h.bits]
    exact hat'.before e he' p (show 65536 * b ≤ p by omega) (by omega)

end

end Hdb.Bitmap

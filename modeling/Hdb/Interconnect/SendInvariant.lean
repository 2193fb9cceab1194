import Hdb.Interconnect.SendBuffers

/-!
# The invariant of the send buffers

`SendInv st k s fill loose` says that the primary links hold the lists `k` and the secondary links
the slots `s`, that the two counters of the ring are the sums over the unack queues, that the
buffers of the unack queues other than `loose` are those of the ring, each in the slot that it
names, and that the buffers of the lists and those of `fill` are all the buffers, each once. Between
two calls `fill` is the current buffers of the connections and nothing is loose.

The functions move buffers in six ways: `take` and `give` for the free list and the send queues,
`enter` and `leave` for the unack queues, `put` and `unslot` for the ring. Each loop is a sequence
of such moves along a list, and ends with the list.
-/

namespace Hdb.Interconnect

open LinkedLists

variable {n : ℕ}

/-! ## Sums over the connections -/

theorem sum_updated {ι β M : Type*} [Fintype ι] [DecidableEq ι] [AddCommMonoid M] (g : β → M)
    (f : ι → β) (i : ι) (v : β) :
    ∑ x, g (Function.update f i v x) + g (f i) = ∑ x, g (f x) + g v := by
  have hrest : ∑ x ∈ Finset.univ.erase i, g (Function.update f i v x) =
      ∑ x ∈ Finset.univ.erase i, g (f x) :=
    Finset.sum_congr rfl fun x hx => by rw [Function.update_of_ne (Finset.ne_of_mem_erase hx)]
  rw [← Finset.add_sum_erase _ _ (Finset.mem_univ i), Function.update_self, hrest,
    ← Finset.add_sum_erase _ (fun x => g (f x)) (Finset.mem_univ i)]
  abel

/-- The contents of the unack queues. -/
def unacked (k : SendList n → List ℕ) (c : Fin n) : List ℕ := k (.unackQueue c)

def outstanding (k : SendList n → List ℕ) : ℤ := ∑ c, ((unacked k c).length : ℤ)

/-- All but one of each unack queue. -/
def sharedOutstanding (k : SendList n → List ℕ) : ℤ := ∑ c, (((unacked k c).length - 1 : ℕ) : ℤ)

/-- The buffers of the lists. -/
def held (k : SendList n → List ℕ) : Multiset ℕ := ∑ l, (k l : Multiset ℕ)

/-- The current buffers of the connections. -/
def filling (conns : Fin n → MotionConn) : Multiset ℕ :=
    ∑ c, ((conns c).curBuff.toList : Multiset ℕ)

variable {k : SendList n → List ℕ} {c : Fin n} {b : ℕ} {v : List ℕ}

theorem unacked_update_self (k : SendList n → List ℕ) (c : Fin n) (v : List ℕ) :
    unacked (Function.update k (.unackQueue c) v) = Function.update (unacked k) c v := by
  funext c'
  by_cases hc : c' = c
  · simp [unacked, hc]
  · rw [unacked, Function.update_of_ne (by simpa using hc), Function.update_of_ne hc, unacked]

theorem unacked_update_of_ne {l : SendList n} (hl : ∀ c, .unackQueue c ≠ l) (v : List ℕ) :
    unacked (Function.update k l v) = unacked k := by
  funext c
  exact Function.update_of_ne (hl c) _ _

theorem held_update (k : SendList n → List ℕ) (l : SendList n) (v : List ℕ) :
    held (Function.update k l v) + (k l : Multiset ℕ) = held k + (v : Multiset ℕ) :=
  sum_updated (fun xs : List ℕ => (xs : Multiset ℕ)) k l v

theorem held_append (k : SendList n → List ℕ) (l : SendList n) (b : ℕ) :
    held (Function.update k l (k l ++ [b])) = held k + {b} := by
  have h := held_update k l (k l ++ [b])
  rw [← Multiset.coe_add, Multiset.coe_singleton, ← add_assoc, add_right_comm] at h
  exact add_right_cancel h

theorem held_erase {l : SendList n} (hb : b ∈ k l) :
    held (Function.update k l ((k l).erase b)) + {b} = held k := by
  have h := held_update k l ((k l).erase b)
  have hperm : (k l : Multiset ℕ) = {b} + ((k l).erase b : Multiset ℕ) :=
    Multiset.coe_eq_coe.mpr (List.perm_cons_erase hb)
  rw [hperm, ← add_assoc] at h
  exact add_right_cancel h

/-! ## The invariant -/

variable {F : Type}

structure SendInv (st : SendState n F) (k : SendList n → List ℕ) (s : ℤ → List ℕ)
    (fill : Multiset ℕ) (loose : Option ℕ) : Prop where
  lists : st.lists.Represents k
  slots : st.ring.slots.Represents s
  outstanding : st.ring.numOutStanding = outstanding k
  shared : st.ring.numSharedOutStanding = sharedOutstanding k
  inSlot : ∀ c, ∀ b ∈ unacked k c, loose = some b ∨ b ∈ s (st.buffers b).unackQueueRingSlot
  slotOf : ∀ i, ∀ b ∈ s i, (st.buffers b).unackQueueRingSlot = i ∧ 0 ≤ i ∧ i < 2000 ∧
    loose ≠ some b ∧ ∃ c, b ∈ unacked k c
  conn : ∀ c, ∀ b ∈ unacked k c, (st.buffers b).conn = some c
  all : held k + fill = Multiset.range st.count
  idx : st.ring.idx < 2000

variable {st st' : SendState n F} {s : ℤ → List ℕ} {fill : Multiset ℕ} {loose : Option ℕ}

/-- What the invariant does not speak of can change. -/
theorem SendInv.congr {fill' : Multiset ℕ} (h : SendInv st k s fill loose)
    (hlists : st'.lists = st.lists) (hslots : st'.ring.slots = st.ring.slots)
    (hout : st'.ring.numOutStanding = st.ring.numOutStanding)
    (hshared : st'.ring.numSharedOutStanding = st.ring.numSharedOutStanding)
    (hidx : st'.ring.idx < 2000)
    (hbuf : ∀ c, ∀ b ∈ unacked k c,
      (st'.buffers b).unackQueueRingSlot = (st.buffers b).unackQueueRingSlot ∧
      (st'.buffers b).conn = (st.buffers b).conn)
    (hall : held k + fill' = Multiset.range st'.count) : SendInv st' k s fill' loose where
  lists := hlists ▸ h.lists
  slots := hslots ▸ h.slots
  outstanding := hout.trans h.outstanding
  shared := hshared.trans h.shared
  inSlot c b hb := by
    rw [(hbuf c b hb).1]
    exact h.inSlot c b hb
  slotOf i b hb := by
    obtain ⟨c, hc⟩ := (h.slotOf i b hb).2.2.2.2
    rw [(hbuf c b hc).1]
    exact h.slotOf i b hb
  conn c b hb := (hbuf c b hb).2.trans (h.conn c b hb)
  all := hall
  idx := hidx

/-- A connection is no part of the invariant. -/
theorem SendInv.setConn (h : SendInv st k s fill loose) (c : Fin n) (f : MotionConn → MotionConn) :
    SendInv (st.setConn c f) k s fill loose :=
  h.congr rfl rfl rfl rfl h.idx (fun _ _ _ => ⟨rfl, rfl⟩) h.all

theorem SendInv.setBuffer (h : SendInv st k s fill loose) (b : ℕ) {f : ICBuffer n → ICBuffer n}
    (hf : ∀ buf, (f buf).unackQueueRingSlot = buf.unackQueueRingSlot ∧ (f buf).conn = buf.conn) :
    SendInv (st.setBuffer b f) k s fill loose := by
  refine h.congr rfl rfl rfl rfl h.idx (fun _ b' _ => ?_) h.all
  by_cases hb : b' = b
  · rw [hb, SendState.setBuffer_buffers, Function.update_self]
    exact hf _
  · rw [SendState.setBuffer_buffers, Function.update_of_ne hb]
    exact ⟨rfl, rfl⟩

theorem mem_held {l : SendList n} (hb : b ∈ k l) : b ∈ held k :=
  Multiset.mem_sum.mpr ⟨l, Finset.mem_univ l, hb⟩

/-- A buffer that is being filled is in no list. -/
theorem SendInv.not_mem (h : SendInv st k s (b ::ₘ fill) loose) (l : SendList n) : b ∉ k l := by
  intro hb
  have hnodup : (held k + b ::ₘ fill).Nodup := h.all ▸ Multiset.nodup_range st.count
  exact Multiset.disjoint_left.mp (Multiset.nodup_add.mp hnodup).2.2 (mem_held hb)
    (Multiset.mem_cons_self b fill)

/-- A buffer that is being filled can change. -/
theorem SendInv.setFilling (h : SendInv st k s (b ::ₘ fill) loose) (f : ICBuffer n → ICBuffer n) :
    SendInv (st.setBuffer b f) k s (b ::ₘ fill) loose := by
  refine h.congr rfl rfl rfl rfl h.idx (fun c b' hb' => ?_) h.all
  have hbb : b' ≠ b := fun hbb => h.not_mem _ (hbb ▸ hb')
  rw [SendState.setBuffer_buffers, Function.update_of_ne hbb]
  exact ⟨rfl, rfl⟩

/-- A new buffer is in no list. -/
theorem SendInv.alloc (h : SendInv st k s fill loose) (buf : ICBuffer n) :
    SendInv { st with
      count := st.count + 1
      buffers := Function.update st.buffers st.count buf } k s (st.count ::ₘ fill) loose := by
  refine h.congr rfl rfl rfl rfl h.idx (fun c b hb => ?_) ?_
  · have hmem : b ∈ held k + fill := Multiset.mem_add.mpr (Or.inl (mem_held hb))
    rw [h.all, Multiset.mem_range] at hmem
    exact ⟨by simp [Function.update_of_ne hmem.ne], by simp [Function.update_of_ne hmem.ne]⟩
  · rw [Multiset.add_cons, h.all, Multiset.range_succ]

/-! ## The moves -/

section Moves

variable {l : SendList n}

/-- A buffer leaves a list that is no unack queue. -/
theorem SendInv.take (h : SendInv st k s fill loose) (hl : ∀ c, .unackQueue c ≠ l) (hb : b ∈ k l) :
    SendInv { st with lists := st.lists.delete l b } (Function.update k l ((k l).erase b)) s
      (b ::ₘ fill) loose where
  lists := represents_delete h.lists hb
  slots := h.slots
  outstanding := by
    rw [Interconnect.outstanding, unacked_update_of_ne hl]
    exact h.outstanding
  shared := by
    rw [sharedOutstanding, unacked_update_of_ne hl]
    exact h.shared
  inSlot := by
    rw [unacked_update_of_ne hl]
    exact h.inSlot
  slotOf := by
    rw [unacked_update_of_ne hl]
    exact h.slotOf
  conn := by
    rw [unacked_update_of_ne hl]
    exact h.conn
  all := by
    rw [← Multiset.singleton_add, ← add_assoc, held_erase hb]
    exact h.all
  idx := h.idx

/-- A buffer goes to the end of a list that is no unack queue. -/
theorem SendInv.give (h : SendInv st k s (b ::ₘ fill) loose) (hl : ∀ c, .unackQueue c ≠ l) :
    SendInv { st with lists := st.lists.append l b } (Function.update k l (k l ++ [b])) s fill
      loose where
  lists := represents_append h.lists h.not_mem
  slots := h.slots
  outstanding := by
    rw [Interconnect.outstanding, unacked_update_of_ne hl]
    exact h.outstanding
  shared := by
    rw [sharedOutstanding, unacked_update_of_ne hl]
    exact h.shared
  inSlot := by
    rw [unacked_update_of_ne hl]
    exact h.inSlot
  slotOf := by
    rw [unacked_update_of_ne hl]
    exact h.slotOf
  conn := by
    rw [unacked_update_of_ne hl]
    exact h.conn
  all := by
    rw [held_append, add_assoc, Multiset.singleton_add]
    exact h.all
  idx := h.idx

end Moves

/-- A buffer goes to an unack queue. It is loose until it is put into the ring. -/
theorem SendInv.enter (h : SendInv st k s (b ::ₘ fill) none) (c : Fin n)
    (hconn : (st.buffers b).conn = some c) :
    SendInv { st with
      lists := st.lists.append (.unackQueue c) b
      ring := { st.ring with
        numOutStanding := st.ring.numOutStanding + 1
        numSharedOutStanding :=
          if (st.lists.append (.unackQueue c) b).length (.unackQueue c) > 1 then
            st.ring.numSharedOutStanding + 1
          else st.ring.numSharedOutStanding } }
      (Function.update k (.unackQueue c) (k (.unackQueue c) ++ [b])) s fill (some b) := by
  have hlen : st.lists.length (.unackQueue c) = (unacked k c).length := h.lists.length _
  refine ⟨represents_append h.lists h.not_mem, h.slots, ?_, ?_, ?_, ?_, ?_, ?_, h.idx⟩
  · have hsum := sum_updated (fun xs : List ℕ => (xs.length : ℤ)) (unacked k) c (unacked k c ++ [b])
    have hout := h.outstanding
    rw [Interconnect.outstanding, unacked_update_self]
    simp only [Interconnect.outstanding, List.length_append, List.length_singleton,
      Nat.cast_add, Nat.cast_one, unacked] at *
    omega
  · have hsum := sum_updated (fun xs : List ℕ => ((xs.length - 1 : ℕ) : ℤ)) (unacked k) c
      (unacked k c ++ [b])
    have hout := h.shared
    rw [sharedOutstanding, unacked_update_self, append_length, Function.update_self, hlen]
    simp only [sharedOutstanding, List.length_append, List.length_singleton,
      unacked, add_tsub_cancel_right] at *
    split_ifs <;> omega
  · intro c' b' hb'
    obtain hold | ⟨-, rfl⟩ := mem_appended.mp hb'
    · exact Or.inr ((h.inSlot c' b' hold).resolve_left (by simp))
    · exact Or.inl rfl
  · intro i b' hb'
    obtain ⟨hslot, hi, hi', -, c', hc'⟩ := h.slotOf i b' hb'
    refine ⟨hslot, hi, hi', fun hbb => ?_, c', mem_appended.mpr (Or.inl hc')⟩
    cases hbb
    exact h.not_mem _ hc'
  · intro c' b' hb'
    obtain hold | ⟨hc, rfl⟩ := mem_appended.mp hb'
    · exact h.conn c' b' hold
    · cases hc
      exact hconn
  · rw [held_append, add_assoc, Multiset.singleton_add]
    exact h.all

/-- A buffer leaves its unack queue and its slot. -/
theorem SendInv.leave (h : SendInv st k s fill none) (c : Fin n) (hb : b ∈ unacked k c) :
    ∃ s', SendInv (leaveRing b ((st.lists.delete (.unackQueue c) b).length (.unackQueue c))
      { st with lists := st.lists.delete (.unackQueue c) b })
      (Function.update k (.unackQueue c) ((unacked k c).erase b)) s' (b ::ₘ fill) none := by
  have hslot := (h.inSlot c b hb).resolve_left (by simp)
  have hlen : st.lists.length (.unackQueue c) = (unacked k c).length := h.lists.length _
  have herase := List.length_erase_of_mem hb
  have hpos := List.length_pos_of_mem hb
  refine ⟨_, represents_delete h.lists hb, represents_delete h.slots hslot, ?_, ?_, ?_, ?_, ?_, ?_,
    h.idx⟩
  · have hsum := sum_updated (fun xs : List ℕ => (xs.length : ℤ)) (unacked k) c
      ((unacked k c).erase b)
    have hout := h.outstanding
    rw [Interconnect.outstanding, unacked_update_self]
    simp only [leaveRing, Interconnect.outstanding] at *
    omega
  · have hsum := sum_updated (fun xs : List ℕ => ((xs.length - 1 : ℕ) : ℤ)) (unacked k) c
      ((unacked k c).erase b)
    have hout := h.shared
    rw [sharedOutstanding, unacked_update_self]
    simp only [leaveRing, delete_length, Function.update_self, sharedOutstanding] at *
    split_ifs <;> omega
  · intro c' b' hb'
    obtain ⟨hold, hne⟩ := (mem_deleted h.lists hb).mp hb'
    have hin := (h.inSlot c' b' hold).resolve_left (by simp)
    exact Or.inr ((mem_deleted h.slots hslot).mpr ⟨hin, hne⟩)
  · intro i' b' hb'
    obtain ⟨hold, hne⟩ := (mem_deleted h.slots hslot).mp hb'
    obtain ⟨hs, h0, h1, -, c', hc'⟩ := h.slotOf i' b' hold
    exact ⟨hs, h0, h1, by simp, c', (mem_deleted h.lists hb).mpr ⟨hc', hne⟩⟩
  · exact fun c' b' hb' => h.conn c' b' ((mem_deleted h.lists hb).mp hb').1
  · rw [← Multiset.singleton_add, ← add_assoc]
    exact (congrArg (· + fill) (held_erase hb)).trans h.all

/-- A buffer leaves its slot and is loose. -/
theorem SendInv.unslot (h : SendInv st k s fill none) {i : ℤ} (hb : b ∈ s i) :
    SendInv { st with ring := { st.ring with slots := st.ring.slots.delete i b } } k
      (Function.update s i ((s i).erase b)) fill (some b) where
  lists := h.lists
  slots := represents_delete h.slots hb
  outstanding := h.outstanding
  shared := h.shared
  inSlot c b' hb' := by
    have hin := (h.inSlot c b' hb').resolve_left (by simp)
    by_cases hbb : b' = b
    · exact Or.inl (by rw [hbb])
    · exact Or.inr ((mem_deleted h.slots hb).mpr ⟨hin, hbb⟩)
  slotOf i' b' hb' := by
    obtain ⟨hold, hne⟩ := (mem_deleted h.slots hb).mp hb'
    obtain ⟨hs, h0, h1, -, hc⟩ := h.slotOf i' b' hold
    exact ⟨hs, h0, h1, fun hbb => hne (by cases hbb; rfl), hc⟩
  conn := h.conn
  all := h.all
  idx := h.idx

/-! ## The slot of a packet -/

variable {cfg : SendConfig}

theorem timerSpan_toNat : (timerSpan cfg).toNat = cfg.timerPeriod * 1000 := by
  have hle := cfg.timerPeriod_le
  rw [timerSpan, UInt64.toNat_mul, UInt64.toNat_ofNat',
    Nat.mod_eq_of_lt (show cfg.timerPeriod < 2 ^ 64 by omega)]
  exact Nat.mod_eq_of_lt (show cfg.timerPeriod * 1000 < 2 ^ 64 by omega)

theorem unackQueueRingLength_toNat :
    (unackQueueRingLength cfg).toNat = 2000 * (cfg.timerPeriod * 1000) := by
  have hle := cfg.timerPeriod_le
  rw [unackQueueRingLength, UInt64.toNat_mul, timerSpan_toNat]
  exact Nat.mod_eq_of_lt (show 2000 * (cfg.timerPeriod * 1000) < 2 ^ 64 by omega)

/-- A packet is put at least one slot and less than a turn ahead. -/
theorem ringSlot_ahead (cfg : SendConfig) (ring : UnackQueueRing) (hidx : ring.idx < 2000)
    (expTime now : UInt64) :
    ∃ d, 1 ≤ d ∧ d < 2000 ∧ ringSlot cfg ring expTime now = (ring.idx + d) % 2000 := by
  have hspan : (timerSpan cfg).toNat = cfg.timerPeriod * 1000 := timerSpan_toNat
  have hlength : (unackQueueRingLength cfg).toNat = 2000 * (cfg.timerPeriod * 1000) :=
    unackQueueRingLength_toNat
  have hpos := cfg.timerPeriod_pos
  have hle := cfg.timerPeriod_le
  -- The distance after the two bounds.
  obtain ⟨diff, hdiff, hlow, hhigh⟩ : ∃ diff : UInt64,
      ringSlot cfg ring expTime now =
        ((UInt64.ofNat ring.idx + diff / timerSpan cfg) % unackQueueRingSlotsNum).toNat ∧
      cfg.timerPeriod * 1000 ≤ diff.toNat ∧ diff.toNat < 2000 * (cfg.timerPeriod * 1000) := by
    refine ⟨_, rfl, ?_⟩
    split_ifs with hge hlt
    · rw [UInt64.toNat_sub_of_le _ _ (by rw [UInt64.le_iff_toNat_le, hlength]; simp; omega),
        hlength]
      simp
      omega
    · rw [hspan]
      omega
    · rw [ge_iff_le, UInt64.le_iff_toNat_le, hlength] at hge
      rw [UInt64.lt_iff_toNat_lt, hspan] at hlt
      omega
  refine ⟨diff.toNat / (cfg.timerPeriod * 1000), ?_, ?_, ?_⟩
  · exact (Nat.one_le_div_iff (by omega)).mpr hlow
  · exact Nat.div_lt_of_lt_mul (by rw [mul_comm]; exact hhigh)
  · have hdiv : diff.toNat / (cfg.timerPeriod * 1000) < 2000 :=
      Nat.div_lt_of_lt_mul (by rw [mul_comm]; exact hhigh)
    rw [hdiff, UInt64.toNat_mod, UInt64.toNat_add, UInt64.toNat_div, hspan, UInt64.toNat_ofNat',
      Nat.mod_eq_of_lt (show ring.idx < 2 ^ 64 by omega),
      Nat.mod_eq_of_lt (show ring.idx + diff.toNat / (cfg.timerPeriod * 1000) < 2 ^ 64 by omega)]
    rfl

theorem started_eq (cfg : SendConfig) (ring : UnackQueueRing) (now : UInt64) :
    ∃ t, ring.started cfg now = { ring with currentTime := t } := by
  rw [UnackQueueRing.started]
  split_ifs
  · exact ⟨_, rfl⟩
  · exact ⟨ring.currentTime, rfl⟩

@[simp] theorem putIntoUnackQueueRing_idx (b : ℕ) (expTime now : UInt64) (st : SendState n F) :
    (putIntoUnackQueueRing cfg b expTime now st).ring.idx = st.ring.idx := by
  obtain ⟨t, ht⟩ := started_eq cfg st.ring now
  simp only [putIntoUnackQueueRing, ht]

/-- A loose buffer is put into a slot, which is not the current one. -/
theorem SendInv.put (h : SendInv st k s fill (some b)) (hb : b ∈ unacked k c) (cfg : SendConfig)
    (expTime now : UInt64) :
    ∃ i : ℤ, i ≠ st.ring.idx ∧
      SendInv (putIntoUnackQueueRing cfg b expTime now st) k (Function.update s i (s i ++ [b])) fill
        none := by
  obtain ⟨t, ht⟩ := started_eq cfg st.ring now
  obtain ⟨d, hd, hd', hslot⟩ :=
    ringSlot_ahead cfg (st.ring.started cfg now) (by rw [ht]; exact h.idx) expTime now
  have hidx := h.idx
  simp only [putIntoUnackQueueRing]
  generalize ringSlot cfg (st.ring.started cfg now) expTime now = slot at *
  rw [ht] at hslot ⊢
  have hlt : slot < 2000 := hslot ▸ Nat.mod_lt _ (by omega)
  refine ⟨slot, by simp only at hslot; omega, ?_⟩
  have hout : ∀ i', b ∉ s i' := fun i' hmem => (h.slotOf i' b hmem).2.2.2.1 rfl
  refine ⟨h.lists, represents_append h.slots hout, h.outstanding, h.shared, ?_, ?_, ?_,
    h.all, h.idx⟩
  · intro c' b' hb'
    refine Or.inr (mem_appended.mpr ?_)
    by_cases hbb : b' = b
    · exact Or.inr ⟨by simp [hbb], hbb⟩
    · rw [SendState.setBuffer_buffers, Function.update_of_ne hbb]
      exact Or.inl ((h.inSlot c' b' hb').resolve_left fun heq => hbb (by cases heq; rfl))
  · intro i' b' hb'
    rw [SendState.setBuffer_buffers]
    obtain hold | ⟨rfl, rfl⟩ := mem_appended.mp hb'
    · obtain ⟨hs, h0, h1, hne, hc⟩ := h.slotOf i' b' hold
      rw [Function.update_of_ne fun hbb => hne (by rw [hbb])]
      exact ⟨hs, h0, h1, by simp, hc⟩
    · rw [Function.update_self]
      exact ⟨rfl, by omega, by omega, by simp, c, hb⟩
  · intro c' b' hb'
    rw [SendState.setBuffer_buffers]
    by_cases hbb : b' = b
    · rw [hbb, Function.update_self]
      exact h.conn c' b (hbb ▸ hb')
    · rw [Function.update_of_ne hbb]
      exact h.conn c' b' hb'

end Hdb.Interconnect

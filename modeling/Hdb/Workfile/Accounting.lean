import Hdb.Workfile.Manager
import Mathlib.Data.List.Count
import Mathlib.Data.List.Perm.Basic

/-!
# Workfile accounting

The counters of a set, of a query and of the segment are sums over the files. This is kept by the
operations on shared memory.
-/

namespace Hdb.Workfile

/-! ## Sums over files -/

/-- The total size of some of the files, as a 64-bit number. -/
def bytes (P : WorkFileLocalEntry → Bool) (files : List WorkFileLocalEntry) : BitVec 64 :=
  BitVec.ofNat 64 ((files.filter P).map (·.size.toNat)).sum

section

variable {P : WorkFileLocalEntry → Bool} {files pre post : List WorkFileLocalEntry}
  {f f' : WorkFileLocalEntry}

theorem bytes_append (P : WorkFileLocalEntry → Bool) (pre post : List WorkFileLocalEntry) :
    bytes P (pre ++ post) = bytes P pre + bytes P post := by
  rw [bytes, List.filter_append, List.map_append, List.sum_append, BitVec.ofNat_add]
  rfl

theorem bytes_cons (P : WorkFileLocalEntry → Bool) (f : WorkFileLocalEntry)
    (files : List WorkFileLocalEntry) :
    bytes P (f :: files) = (if P f then f.size else 0) + bytes P files := by
  rw [bytes, bytes, List.filter_cons]
  split_ifs
  · rw [List.map_cons, List.sum_cons, BitVec.ofNat_add, BitVec.ofNat_toNat, BitVec.setWidth_eq]
  · exact (BitVec.zero_add _).symm

theorem bytes_split (P : WorkFileLocalEntry → Bool) (pre post : List WorkFileLocalEntry)
    (f : WorkFileLocalEntry) :
    bytes P (pre ++ f :: post) = bytes P (pre ++ post) + if P f then f.size else 0 := by
  rw [bytes_append, bytes_append, bytes_cons]
  ac_rfl

theorem countP_split {α : Type*} (P : α → Bool) (pre post : List α) (a : α) :
    (pre ++ a :: post).countP P = (pre ++ post).countP P + if P a then 1 else 0 := by
  rw [List.countP_append, List.countP_append, List.countP_cons]
  omega

/-- A file without size adds nothing. -/
theorem bytes_cons_zero (hsize : f.size = 0) : bytes P (f :: files) = bytes P files := by
  rw [bytes_cons, hsize, ite_self]
  exact BitVec.zero_add _

/-- No file, no bytes. -/
theorem bytes_of_countP (h : files.countP P = 0) : bytes P files = 0 := by
  rw [List.countP_eq_length_filter, List.length_eq_zero_iff] at h
  rw [bytes, h]
  rfl

end

/-! ## Invariant -/

/-- The record of a query. -/
structure QueryOk (st : WorkFileState) (q : WorkFileUsagePerQuery) : Prop where
  numFiles : q.numFiles = st.localEntries.countP fun f => (st.entries f.workSet).perquery == q.key
  totalBytes : q.totalBytes =
    bytes (fun f => (st.entries f.workSet).perquery == q.key) st.localEntries
  refcount : q.refcount = st.activeList.countP fun s => (st.entries s).perquery == q.key
  pos : 0 < q.refcount
  active : q.active = true

structure Accounts (config : WorkFileConfig) (st : WorkFileState) : Prop where
  lists : (st.freeList ++ st.activeList).Perm (List.range config.gpWorkfileMaxEntries)
  numActive : st.numActive = st.activeList.length
  active : ∀ s ∈ st.activeList, (st.entries s).active = true
  free : ∀ s ∈ st.freeList, (st.entries s).active = false
  files : (st.localEntries.map WorkFileLocalEntry.key).Nodup
  fileSet : ∀ f ∈ st.localEntries, f.workSet ∈ st.activeList ∧
    (st.entries f.workSet).creator = f.proc
  setFiles : ∀ s ∈ st.activeList,
    (st.entries s).numFiles = st.localEntries.countP fun f => f.workSet == s
  setBytes : ∀ s ∈ st.activeList,
    (st.entries s).totalBytes = bytes (fun f => f.workSet == s) st.localEntries
  keys : (st.perQueryHash.map (·.key)).Nodup
  queries : ∀ q ∈ st.perQueryHash, QueryOk st q
  query : ∀ s ∈ st.activeList, ∃ q ∈ st.perQueryHash, q.key = (st.entries s).perquery
  total : st.totalBytes = bytes (fun _ => true) st.localEntries
  opened : ∀ h ∈ st.openSets, h.2 ∈ st.activeList ∧ (st.entries h.2).creator = h.1

section

variable {config : WorkFileConfig} {st st' : WorkFileState} {proc file workSet : Nat}
  {key : QueryKey} {f : WorkFileLocalEntry}

theorem Accounts.nodup (h : Accounts config st) : (st.freeList ++ st.activeList).Nodup :=
  h.lists.nodup_iff.mpr List.nodup_range

theorem Accounts.notMem_free (h : Accounts config st) {s : Nat} (hs : s ∈ st.activeList) :
    s ∉ st.freeList :=
  fun hf => (List.nodup_append.mp h.nodup).2.2 s hf s hs rfl

theorem key_addSet (q : WorkFileUsagePerQuery) : q.addSet.key = q.key := rfl

theorem key_removeSet (q : WorkFileUsagePerQuery) : q.removeSet.key = q.key := rfl

theorem key_addFile (q : WorkFileUsagePerQuery) : q.addFile.key = q.key := rfl

theorem key_removeFile (size : BitVec 64) (q : WorkFileUsagePerQuery) :
    (q.removeFile size).key = q.key := rfl

theorem key_addBytes (diff : BitVec 64) (q : WorkFileUsagePerQuery) :
    (q.addBytes diff).key = q.key := rfl

theorem key_resize (size : BitVec 64) (f : WorkFileLocalEntry) : (f.resize size).key = f.key := rfl

/-! ## Creating a set -/

theorem enterPerQuery_keys (h : (st.perQueryHash.map (·.key)).Nodup) :
    ((enterPerQuery st.perQueryHash key).map (·.key)).Nodup := by
  rw [enterPerQuery]
  rw [Table.map_key_modify key_addSet]
  split_ifs with hfound
  · exact h
  · refine List.nodup_cons.mpr ⟨fun hmem => ?_, h⟩
    obtain ⟨q, hq, hkey⟩ := List.mem_map.mp hmem
    exact Table.key_ne_of_find (Option.not_isSome_iff_eq_none.mp hfound) hq hkey

/-- The record of the query counts one more set, and the other ones are as they were. -/
theorem enterPerQuery_mem {q : WorkFileUsagePerQuery}
    (hq : q ∈ enterPerQuery st.perQueryHash key) :
    (q.key ≠ key ∧ q ∈ st.perQueryHash) ∨
      (∃ q₀ ∈ st.perQueryHash, q₀.key = key ∧ q = q₀.addSet) ∨
      ((∀ q₀ ∈ st.perQueryHash, q₀.key ≠ key) ∧ q = ⟨key, 1, 0, 0, true⟩) := by
  rw [enterPerQuery] at hq
  obtain ⟨q₀, hq₀, ⟨hkey, rfl⟩ | ⟨hkey, rfl⟩⟩ := Table.of_mem_modify hq
  · split_ifs at hq₀ with hfound
    · exact .inr (.inl ⟨q₀, hq₀, hkey, rfl⟩)
    · have hnone : ∀ q ∈ st.perQueryHash, q.key ≠ key := fun q hq =>
        Table.key_ne_of_find (Option.not_isSome_iff_eq_none.mp hfound) hq
      rcases List.mem_cons.mp hq₀ with rfl | hq₀
      · exact .inr (.inr ⟨hnone, rfl⟩)
      · exact absurd hkey (hnone q₀ hq₀)
  · split_ifs at hq₀ with hfound
    · exact .inl ⟨hkey, hq₀⟩
    · rcases List.mem_cons.mp hq₀ with rfl | hq₀
      · exact absurd rfl hkey
      · exact .inl ⟨hkey, hq₀⟩

theorem exists_mem_enterPerQuery (st : WorkFileState) (key : QueryKey) :
    ∃ q ∈ enterPerQuery st.perQueryHash key, q.key = key := by
  rw [enterPerQuery]
  split_ifs with hfound
  · obtain ⟨q, hq⟩ := Option.isSome_iff_exists.mp hfound
    obtain ⟨hmem, hkey⟩ := Table.mem_of_find hq
    exact ⟨_, List.mem_map.mpr ⟨q, hmem, if_pos hkey⟩, hkey⟩
  · exact ⟨_, List.mem_map.mpr ⟨_, List.mem_cons_self .., if_pos rfl⟩, rfl⟩

theorem mem_enterPerQuery_of_ne {q : WorkFileUsagePerQuery} (hq : q ∈ st.perQueryHash)
    (hne : q.key ≠ key) : q ∈ enterPerQuery st.perQueryHash key := by
  rw [enterPerQuery]
  split_ifs
  · exact Table.mem_modify_of_ne hq hne
  · exact Table.mem_modify_of_ne (List.mem_cons_of_mem _ hq) hne

/-- The counters of a query depend on the sets of the files only through their queries. -/
theorem countP_perquery {entries' : Nat → WorkFileSet} {files : List WorkFileLocalEntry}
    (hsame : ∀ f ∈ files, (entries' f.workSet).perquery = (st.entries f.workSet).perquery)
    (key : QueryKey) :
    files.countP (fun f => (entries' f.workSet).perquery == key) =
      files.countP fun f => (st.entries f.workSet).perquery == key :=
  List.countP_congr fun f hf => by rw [hsame f hf]

theorem bytes_perquery {entries' : Nat → WorkFileSet} {files : List WorkFileLocalEntry}
    (hsame : ∀ f ∈ files, (entries' f.workSet).perquery = (st.entries f.workSet).perquery)
    (key : QueryKey) :
    bytes (fun f => (entries' f.workSet).perquery == key) files =
      bytes (fun f => (st.entries f.workSet).perquery == key) files := by
  rw [bytes, bytes, List.filter_congr fun f hf => by rw [hsame f hf]]

/-- There is no set and no file of a query without a record. -/
theorem Accounts.countP_of_noQuery (h : Accounts config st)
    (hnone : ∀ q ∈ st.perQueryHash, q.key ≠ key) :
    st.activeList.countP (fun s => (st.entries s).perquery == key) = 0 ∧
      st.localEntries.countP (fun f => (st.entries f.workSet).perquery == key) = 0 := by
  have hset : ∀ s ∈ st.activeList, ¬ ((st.entries s).perquery == key) = true := by
    intro s hs heq
    obtain ⟨q, hq, hkey⟩ := h.query s hs
    exact hnone q hq (hkey.trans (beq_iff_eq.mp heq))
  exact ⟨List.countP_eq_zero.mpr hset,
    List.countP_eq_zero.mpr fun f hf => hset _ (h.fileSet f hf).1⟩

/-- The record of the query of a new set. -/
theorem Accounts.enterPerQuery_ok (h : Accounts config st) {entries' : Nat → WorkFileSet}
    (hset : (entries' workSet).perquery = key)
    (hother : ∀ s ∈ st.activeList, entries' s = st.entries s) {q : WorkFileUsagePerQuery}
    (hq : q ∈ enterPerQuery st.perQueryHash key)
    (hst' : st'.entries = entries' ∧ st'.localEntries = st.localEntries ∧
      st'.activeList = workSet :: st.activeList) : QueryOk st' q := by
  obtain ⟨he, hl, ha⟩ := hst'
  have hfiles : ∀ f ∈ st.localEntries,
      (entries' f.workSet).perquery = (st.entries f.workSet).perquery :=
    fun f hf => by rw [hother _ (h.fileSet f hf).1]
  have hsets : ∀ k : QueryKey, (workSet :: st.activeList).countP
      (fun s => (entries' s).perquery == k) =
      st.activeList.countP (fun s => (st.entries s).perquery == k) + if key = k then 1 else 0 := by
    intro k
    rw [List.countP_cons, hset, List.countP_congr fun s hs => by rw [hother s hs]]
    simp only [beq_iff_eq]
  rcases enterPerQuery_mem hq with ⟨hne, hq⟩ | ⟨q₀, hq₀, rfl, rfl⟩ | ⟨hnone, rfl⟩
  · have hok := h.queries q hq
    refine ⟨?_, ?_, ?_, hok.pos, hok.active⟩
    · rw [he, hl, countP_perquery hfiles, hok.numFiles]
    · rw [he, hl, bytes_perquery hfiles, hok.totalBytes]
    · rw [he, ha, hsets, if_neg (Ne.symm hne), hok.refcount]
      rfl
  · have hok := h.queries q₀ hq₀
    refine ⟨?_, ?_, ?_, Nat.succ_pos _, hok.active⟩
    · rw [he, hl, countP_perquery hfiles]
      exact hok.numFiles
    · rw [he, hl, bytes_perquery hfiles]
      exact hok.totalBytes
    · rw [he, ha, hsets, if_pos (key_addSet q₀).symm]
      exact congrArg (· + 1) hok.refcount
  · obtain ⟨hsets₀, hfiles₀⟩ := h.countP_of_noQuery hnone
    refine ⟨?_, ?_, ?_, Nat.one_pos, rfl⟩
    · rw [he, hl, countP_perquery hfiles]
      exact hfiles₀.symm
    · rw [he, hl, bytes_perquery hfiles]
      exact (bytes_of_countP hfiles₀).symm
    · rw [he, ha, hsets, if_pos rfl, hsets₀]

/-- **A set is created.** It has no file yet. -/
theorem Accounts.create (h : Accounts config st)
    (hcreate : workfileMgrCreateSetInternal st proc key = some (st', workSet)) :
    Accounts config st' ∧ workSet ∈ st'.activeList ∧ (st'.entries workSet).creator = proc ∧
      st'.openSets = st.openSets ∧ st'.localEntries = st.localEntries ∧
      ∀ s ∈ st'.activeList, s ≠ workSet → s ∈ st.activeList ∧ st'.entries s = st.entries s := by
  rw [workfileMgrCreateSetInternal] at hcreate
  split at hcreate
  · cases hcreate
  case _ s free hfree =>
    cases hcreate
    have hmem : workSet ∈ st.freeList := by
      rw [hfree]
      exact List.mem_cons_self ..
    have hnot : workSet ∉ st.activeList := fun hs => h.notMem_free hs hmem
    have hother : ∀ s, s ≠ workSet → Function.update st.entries workSet
        ⟨key, 0, 0, true, proc⟩ s = st.entries s := fun s hne => Function.update_of_ne hne _ _
    have hactive : ∀ s ∈ st.activeList, Function.update st.entries workSet
        ⟨key, 0, 0, true, proc⟩ s = st.entries s :=
      fun s hs => hother s fun heq => hnot (heq ▸ hs)
    have hset : Function.update st.entries workSet ⟨key, 0, 0, true, proc⟩ workSet =
      ⟨key, 0, 0, true, proc⟩ := Function.update_self ..
    have hnone : st.localEntries.countP (fun f => f.workSet == workSet) = 0 := by
      refine List.countP_eq_zero.mpr fun f hf heq => hnot ?_
      rw [← beq_iff_eq.mp heq]
      exact (h.fileSet f hf).1
    have hlists := h.lists
    have hnodup := h.nodup
    rw [hfree] at hlists hnodup
    refine ⟨⟨?_, ?_, ?_, ?_, h.files, ?_, ?_, ?_, enterPerQuery_keys h.keys, ?_, ?_, h.total, ?_⟩,
      List.mem_cons_self .., by dsimp only; rw [hset], rfl, rfl, ?_⟩
    · exact List.perm_middle.trans hlists
    · exact congrArg (· + 1) h.numActive
    · intro s hs
      dsimp only at hs ⊢
      rcases List.mem_cons.mp hs with rfl | hs
      · rw [hset]
      · rw [hactive s hs]
        exact h.active s hs
    · intro s hs
      dsimp only at hs ⊢
      rw [hother s fun heq => (List.nodup_cons.mp hnodup).1 (heq ▸ List.mem_append_left _ hs)]
      exact h.free s (hfree ▸ List.mem_cons_of_mem _ hs)
    · intro f hf
      dsimp only at hf ⊢
      obtain ⟨h₁, h₂⟩ := h.fileSet f hf
      rw [hactive _ h₁]
      exact ⟨List.mem_cons_of_mem _ h₁, h₂⟩
    · intro s hs
      dsimp only at hs ⊢
      rcases List.mem_cons.mp hs with rfl | hs
      · rw [hset, hnone]
      · rw [hactive s hs]
        exact h.setFiles s hs
    · intro s hs
      dsimp only at hs ⊢
      rcases List.mem_cons.mp hs with rfl | hs
      · rw [hset, bytes_of_countP hnone]
      · rw [hactive s hs]
        exact h.setBytes s hs
    · intro q hq
      exact h.enterPerQuery_ok (by rw [hset]) hactive hq ⟨rfl, rfl, rfl⟩
    · intro s hs
      dsimp only at hs ⊢
      rcases List.mem_cons.mp hs with rfl | hs
      · rw [hset]
        exact exists_mem_enterPerQuery st key
      · rw [hactive s hs]
        obtain ⟨q, hq, hkey⟩ := h.query s hs
        by_cases hsame : q.key = key
        · rw [← hkey, hsame]
          exact exists_mem_enterPerQuery st key
        · exact ⟨q, mem_enterPerQuery_of_ne hq hsame, hkey⟩
    · intro o ho
      dsimp only at ho ⊢
      obtain ⟨h₁, h₂⟩ := h.opened o ho
      rw [hactive _ h₁]
      exact ⟨List.mem_cons_of_mem _ h₁, h₂⟩
    · intro s hs hne
      rcases List.mem_cons.mp hs with rfl | hs
      · exact absurd rfl hne
      · exact ⟨hs, hactive s hs⟩

/-! ## One file -/

/-- The files of one set change: `a` of them go, `b` of them come, and their total size grows by
`d`. -/
structure FileChange (st : WorkFileState) (workSet : Nat) (files : List WorkFileLocalEntry)
    (a b : Nat) (d : BitVec 64) : Prop where
  count : ∀ Q : Nat → Bool, files.countP (fun f => Q f.workSet) + (if Q workSet then a else 0) =
    st.localEntries.countP (fun f => Q f.workSet) + if Q workSet then b else 0
  bytes_eq : ∀ Q : Nat → Bool, bytes (fun f => Q f.workSet) files =
    bytes (fun f => Q f.workSet) st.localEntries + if Q workSet then d else 0
  keys : (files.map WorkFileLocalEntry.key).Nodup
  mem : ∀ f ∈ files, f.workSet ∈ st.activeList ∧ (st.entries f.workSet).creator = f.proc

/-- **The counters follow the files.** -/
theorem Accounts.change (h : Accounts config st) {files : List WorkFileLocalEntry} {a b : Nat}
    {d : BitVec 64} (hchange : FileChange st workSet files a b d) (hmem : workSet ∈ st.activeList)
    (entry : WorkFileSet) (hperquery : entry.perquery = (st.entries workSet).perquery)
    (hactive : entry.active = true) (hcreator : entry.creator = (st.entries workSet).creator)
    (hnum : entry.numFiles + a = (st.entries workSet).numFiles + b)
    (hbytes : entry.totalBytes = (st.entries workSet).totalBytes + d) {total : BitVec 64}
    (htotal : total = st.totalBytes + d) {g : WorkFileUsagePerQuery → WorkFileUsagePerQuery}
    (hkey : ∀ q, (g q).key = q.key)
    (hcount : ∀ q ∈ st.perQueryHash, q.key = (st.entries workSet).perquery →
      (g q).numFiles + a = q.numFiles + b)
    (hgrow : ∀ q, (g q).totalBytes = q.totalBytes + d)
    (hrefcount : ∀ q, (g q).refcount = q.refcount)
    (hqactive : ∀ q, (g q).active = q.active) :
    Accounts config { st with
      totalBytes := total
      localEntries := files
      entries := Function.update st.entries workSet entry
      perQueryHash := Table.modify (·.key) (st.entries workSet).perquery g st.perQueryHash } := by
  have hself : Function.update st.entries workSet entry workSet = entry := Function.update_self ..
  have hother : ∀ s, s ≠ workSet → Function.update st.entries workSet entry s = st.entries s :=
    fun s hne => Function.update_of_ne hne _ _
  have hquery : ∀ s, (Function.update st.entries workSet entry s).perquery =
      (st.entries s).perquery := by
    intro s
    by_cases hs : s = workSet
    · rw [hs, hself, hperquery]
    · rw [hother s hs]
  have howner : ∀ s, (Function.update st.entries workSet entry s).creator =
      (st.entries s).creator := by
    intro s
    by_cases hs : s = workSet
    · rw [hs, hself, hcreator]
    · rw [hother s hs]
  refine ⟨h.lists, h.numActive, fun s hs => ?_, fun s hs => ?_, hchange.keys, fun f hf => ?_,
    fun s hs => ?_, fun s hs => ?_, ?_, fun q hq => ?_, fun s hs => ?_, ?_, fun o ho => ?_⟩
  · dsimp only at hs ⊢
    by_cases heq : s = workSet
    · rw [heq, hself, hactive]
    · rw [hother s heq]
      exact h.active s hs
  · dsimp only at hs ⊢
    rw [hother s fun heq => h.notMem_free hmem (heq ▸ hs)]
    exact h.free s hs
  · dsimp only at hf ⊢
    rw [howner]
    exact hchange.mem f hf
  · have hc := hchange.count fun t => t == s
    dsimp only at hs hc ⊢
    by_cases heq : s = workSet
    · subst heq
      rw [beq_self_eq_true, if_pos rfl, if_pos rfl, ← h.setFiles s hs] at hc
      rw [hself]
      omega
    · rw [beq_false_of_ne (Ne.symm heq), if_neg Bool.false_ne_true, if_neg Bool.false_ne_true,
        ← h.setFiles s hs] at hc
      rw [hother s heq]
      exact hc.symm
  · have hb := hchange.bytes_eq fun t => t == s
    dsimp only at hs hb ⊢
    by_cases heq : s = workSet
    · subst heq
      rw [beq_self_eq_true, if_pos rfl, ← h.setBytes s hs] at hb
      rw [hself, hb, hbytes]
    · rw [beq_false_of_ne (Ne.symm heq), if_neg Bool.false_ne_true, ← h.setBytes s hs] at hb
      rw [hother s heq, hb]
      exact (BitVec.add_zero _).symm
  · dsimp only
    rw [Table.map_key_modify hkey]
    exact h.keys
  · have hc := hchange.count fun t => (st.entries t).perquery == q.key
    have hb := hchange.bytes_eq fun t => (st.entries t).perquery == q.key
    obtain ⟨q₀, hq₀, ⟨hsame, rfl⟩ | ⟨hne, rfl⟩⟩ := Table.of_mem_modify hq
    · have hok := h.queries q₀ hq₀
      have hn := hcount q₀ hq₀ hsame
      have hmine : ((st.entries workSet).perquery == q₀.key) = true := beq_iff_eq.mpr hsame.symm
      rw [hkey, hmine, if_pos rfl, if_pos rfl, ← hok.numFiles] at hc
      rw [hkey, hmine, if_pos rfl, ← hok.totalBytes] at hb
      refine ⟨?_, ?_, ?_, ?_, ?_⟩
      · simp only [hquery, hkey]
        omega
      · simp only [hquery, hkey]
        rw [hb, hgrow]
      · simp only [hquery, hkey, hrefcount]
        exact hok.refcount
      · rw [hrefcount]
        exact hok.pos
      · rw [hqactive]
        exact hok.active
    · have hok := h.queries q hq₀
      rw [beq_false_of_ne (Ne.symm hne), if_neg Bool.false_ne_true, if_neg Bool.false_ne_true,
        ← hok.numFiles] at hc
      rw [beq_false_of_ne (Ne.symm hne), if_neg Bool.false_ne_true, ← hok.totalBytes] at hb
      refine ⟨?_, ?_, ?_, hok.pos, hok.active⟩
      · simp only [hquery]
        exact hc.symm
      · simp only [hquery]
        rw [hb]
        exact (BitVec.add_zero _).symm
      · simp only [hquery]
        exact hok.refcount
  · dsimp only at hs ⊢
    rw [hquery]
    obtain ⟨q, hq, hqk⟩ := h.query s hs
    by_cases hsame : q.key = (st.entries workSet).perquery
    · exact ⟨g q, List.mem_map.mpr ⟨q, hq, if_pos hsame⟩, (hkey q).trans hqk⟩
    · exact ⟨q, Table.mem_modify_of_ne hq hsame, hqk⟩
  · have hb := hchange.bytes_eq fun _ => true
    rw [if_pos rfl, ← h.total] at hb
    exact htotal.trans hb.symm
  · dsimp only at ho ⊢
    rw [howner]
    exact h.opened o ho

theorem Accounts.addFile (h : Accounts config st) (hnone : findFile st proc file = none)
    (hmem : workSet ∈ st.activeList) (hcreator : (st.entries workSet).creator = proc) :
    Accounts config (addFile st proc file workSet) := by
  have hchange : FileChange st workSet (⟨proc, file, workSet, 0⟩ :: st.localEntries) 0 1 0 := by
    refine ⟨fun Q => ?_, fun Q => ?_, ?_, ?_⟩
    · rw [List.countP_cons, ite_self, Nat.add_zero]
    · rw [bytes_cons_zero rfl, ite_self]
      exact (BitVec.add_zero _).symm
    · refine List.nodup_cons.mpr ⟨fun hkey => ?_, h.files⟩
      obtain ⟨f, hf, heq⟩ := List.mem_map.mp hkey
      exact Table.key_ne_of_find hnone hf heq
    · intro f hf
      rcases List.mem_cons.mp hf with rfl | hf
      · exact ⟨hmem, hcreator⟩
      · exact h.fileSet f hf
  exact h.change hchange hmem { st.entries workSet with
      numFiles := (st.entries workSet).numFiles + 1 } rfl (h.active workSet hmem) rfl rfl
    (BitVec.add_zero _).symm (BitVec.add_zero _).symm key_addFile (fun _ _ _ => rfl)
    (fun _ => (BitVec.add_zero _).symm) (fun _ => rfl) fun _ => rfl

theorem Accounts.setFileSize (h : Accounts config st) (hf : f ∈ st.localEntries)
    (newsize : BitVec 64) : Accounts config (setFileSize st f newsize) := by
  obtain ⟨pre, post, hsplit, hne⟩ := Table.exists_split h.files hf
  have hnew : Table.modify WorkFileLocalEntry.key f.key (WorkFileLocalEntry.resize newsize)
      st.localEntries = pre ++ f.resize newsize :: post := by
    rw [hsplit, Table.modify_split hne]
  have hchange : FileChange st f.workSet (Table.modify WorkFileLocalEntry.key f.key
      (WorkFileLocalEntry.resize newsize) st.localEntries) 0 0 (newsize - f.size) := by
    refine ⟨fun Q => ?_, fun Q => ?_, ?_, ?_⟩
    · rw [hnew, hsplit, countP_split, countP_split]
      rfl
    · rw [hnew, hsplit, bytes_split, bytes_split, BitVec.add_assoc]
      change bytes _ _ + (if Q f.workSet = true then newsize else 0) = _
      split_ifs
      · rw [BitVec.add_comm f.size, BitVec.sub_add_cancel]
      · rfl
    · rw [Table.map_key_modify (key_resize newsize)]
      exact h.files
    · intro f' hf'
      obtain ⟨f₀, hf₀, ⟨-, rfl⟩ | ⟨-, rfl⟩⟩ := Table.of_mem_modify hf'
      · exact h.fileSet f₀ hf₀
      · exact h.fileSet _ hf₀
  have hset := (h.fileSet f hf).1
  exact h.change hchange hset { st.entries f.workSet with
      totalBytes := (st.entries f.workSet).totalBytes + (newsize - f.size) } rfl
        (h.active _ hset) rfl
    rfl rfl rfl (key_addBytes _) (fun _ _ _ => rfl) (fun _ => rfl) (fun _ => rfl) fun _ => rfl

/-- A file is counted in its set and in its query. -/
theorem countP_pos_of_mem {P : WorkFileLocalEntry → Bool} (hf : f ∈ st.localEntries)
    (hP : P f = true) : 0 < st.localEntries.countP P :=
  List.countP_pos_iff.mpr ⟨f, hf, hP⟩

theorem Accounts.removeFile (h : Accounts config st) (hf : f ∈ st.localEntries) :
    Accounts config (removeFile st f) := by
  obtain ⟨pre, post, hsplit, hne⟩ := Table.exists_split h.files hf
  have hnew : Table.remove WorkFileLocalEntry.key f.key st.localEntries = pre ++ post := by
    rw [hsplit, Table.remove_split hne]
  have hchange : FileChange st f.workSet (Table.remove WorkFileLocalEntry.key f.key st.localEntries)
      1 0 (-f.size) := by
    refine ⟨fun Q => ?_, fun Q => ?_, ?_, ?_⟩
    · rw [hnew, hsplit, countP_split, ite_self, Nat.add_zero]
    · rw [hnew, hsplit, bytes_split, BitVec.add_assoc]
      split_ifs
      · rw [← BitVec.sub_eq_add_neg, BitVec.sub_self]
        exact (BitVec.add_zero _).symm
      · exact (BitVec.add_zero _).symm
    · exact h.files.sublist (List.filter_sublist.map _)
    · exact fun f' hf' => h.fileSet f' (List.mem_of_mem_filter hf')
  have hset := (h.fileSet f hf).1
  have hpos : 0 < (st.entries f.workSet).numFiles := by
    rw [h.setFiles _ hset]
    exact countP_pos_of_mem hf (beq_self_eq_true _)
  refine h.change hchange hset { st.entries f.workSet with
      numFiles := (st.entries f.workSet).numFiles - 1
      totalBytes := (st.entries f.workSet).totalBytes - f.size } rfl (h.active _ hset) rfl
    (Nat.sub_add_cancel hpos) (BitVec.sub_eq_add_neg ..) (BitVec.sub_eq_add_neg ..)
    (key_removeFile f.size) (fun q hq hkey => Nat.sub_add_cancel ?_)
    (fun _ => BitVec.sub_eq_add_neg ..) (fun _ => rfl) fun _ => rfl
  rw [(h.queries q hq).numFiles]
  exact countP_pos_of_mem hf (beq_iff_eq.mpr hkey.symm)

/-! ## Freeing a set -/

/-- The records after a set of the query `key` is gone. -/
theorem Accounts.removeSet_ok (h : Accounts config st) (hmem : workSet ∈ st.activeList)
    {q : WorkFileUsagePerQuery}
    (hq : q ∈ Table.modify (·.key) (st.entries workSet).perquery WorkFileUsagePerQuery.removeSet
      st.perQueryHash) :
    q.numFiles = st.localEntries.countP (fun f => (st.entries f.workSet).perquery == q.key) ∧
      q.totalBytes = bytes (fun f => (st.entries f.workSet).perquery == q.key) st.localEntries ∧
      q.refcount = (st.activeList.erase workSet).countP
      (fun s => (st.entries s).perquery == q.key) ∧
      (q.key ≠ (st.entries workSet).perquery → 0 < q.refcount) ∧ q.active = true := by
  have hcount : ∀ k : QueryKey, st.activeList.countP (fun s => (st.entries s).perquery == k) =
      (st.activeList.erase workSet).countP (fun s => (st.entries s).perquery == k) +
        if (st.entries workSet).perquery == k then 1 else 0 := by
    intro k
    rw [(List.perm_cons_erase hmem).countP_eq, List.countP_cons]
  obtain ⟨q₀, hq₀, ⟨hkey, rfl⟩ | ⟨hkey, rfl⟩⟩ := Table.of_mem_modify hq
  · have hok := h.queries q₀ hq₀
    refine ⟨hok.numFiles, hok.totalBytes, ?_, fun hne => absurd hkey hne, hok.active⟩
    have hc := hcount q₀.key
    rw [← hkey, beq_self_eq_true, if_pos rfl, ← hok.refcount] at hc
    change q₀.refcount - 1 = (st.activeList.erase workSet).countP fun s =>
      (st.entries s).perquery == q₀.key
    omega
  · have hok := h.queries q hq₀
    have hc := hcount q.key
    rw [beq_false_of_ne (Ne.symm hkey), if_neg Bool.false_ne_true, ← hok.refcount] at hc
    exact ⟨hok.numFiles, hok.totalBytes, hc, fun _ => hok.pos, hok.active⟩

/-- **A set without files goes back to the free list.** -/
theorem Accounts.freeSet (h : Accounts config st) (hmem : workSet ∈ st.activeList)
    (hempty : (st.entries workSet).numFiles = 0) (hclosed : ∀ proc, (proc, workSet) ∉ st.openSets) :
    Accounts config (freeSet st workSet) := by
  have hnodup : st.activeList.Nodup := (List.nodup_append.mp h.nodup).2.1
  have herase : ∀ s, s ∈ st.activeList.erase workSet ↔ s ≠ workSet ∧ s ∈ st.activeList :=
    fun s => hnodup.mem_erase_iff
  have hself : Function.update st.entries workSet
    { st.entries workSet with active := false } workSet =
    { st.entries workSet with active := false } := Function.update_self ..
  have hother : ∀ s, s ≠ workSet → Function.update st.entries workSet
      { st.entries workSet with active := false } s = st.entries s :=
    fun s hne => Function.update_of_ne hne _ _
  have hquery : ∀ s, (Function.update st.entries workSet
      { st.entries workSet with active := false } s).perquery = (st.entries s).perquery := by
    intro s
    by_cases hs : s = workSet
    · rw [hs, hself]
    · rw [hother s hs]
  have hnofile : ∀ f ∈ st.localEntries, f.workSet ≠ workSet := by
    intro f hf heq
    have hpos : 0 < st.localEntries.countP fun f => f.workSet == workSet :=
      countP_pos_of_mem hf (beq_iff_eq.mpr heq)
    rw [← h.setFiles workSet hmem, hempty] at hpos
    exact Nat.lt_irrefl 0 hpos
  refine ⟨?_, ?_, fun s hs => ?_, fun s hs => ?_, h.files, fun f hf => ?_, fun s hs => ?_,
    fun s hs => ?_, ?_, fun q hq => ?_, fun s hs => ?_, h.total, fun o ho => ?_⟩
  · have hperm : (st.freeList ++ workSet :: st.activeList.erase workSet).Perm
        (st.freeList ++ st.activeList) := (List.perm_cons_erase hmem).symm.append_left st.freeList
    exact (List.perm_middle.symm.trans hperm).trans h.lists
  · rw [Workfile.freeSet]
    dsimp only
    rw [List.length_erase_of_mem hmem, h.numActive]
  · obtain ⟨hne, hs⟩ := (herase s).mp hs
    rw [Workfile.freeSet]
    dsimp only
    rw [hother s hne]
    exact h.active s hs
  · rw [Workfile.freeSet]
    dsimp only
    rcases List.mem_cons.mp hs with rfl | hs
    · rw [hself]
    · rw [hother s fun heq => h.notMem_free hmem (heq ▸ hs)]
      exact h.free s hs
  · have hset := h.fileSet f hf
    have hne := hnofile f hf
    rw [Workfile.freeSet]
    dsimp only
    rw [hother _ hne]
    exact ⟨(herase _).mpr ⟨hne, hset.1⟩, hset.2⟩
  · obtain ⟨hne, hs⟩ := (herase s).mp hs
    rw [Workfile.freeSet]
    dsimp only
    rw [hother s hne]
    exact h.setFiles s hs
  · obtain ⟨hne, hs⟩ := (herase s).mp hs
    rw [Workfile.freeSet]
    dsimp only
    rw [hother s hne]
    exact h.setBytes s hs
  · have hkeys := h.keys
    rw [← Table.map_key_modify key_removeSet (st.entries workSet).perquery] at hkeys
    exact hkeys.sublist (List.filter_sublist.map _)
  · obtain ⟨hq, hkept⟩ := List.mem_filter.mp hq
    obtain ⟨h₁, h₂, h₃, h₄, h₅⟩ := h.removeSet_ok hmem hq
    refine ⟨?_, ?_, ?_, ?_, h₅⟩
    · rw [Workfile.freeSet]
      simp only [hquery]
      exact h₁
    · rw [Workfile.freeSet]
      simp only [hquery]
      exact h₂
    · rw [Workfile.freeSet]
      simp only [hquery]
      exact h₃
    · by_cases hkey : q.key = (st.entries workSet).perquery
      · rw [hkey, beq_self_eq_true, Bool.true_and, Bool.not_eq_true', beq_eq_false_iff_ne] at hkept
        exact Nat.pos_of_ne_zero hkept
      · exact h₄ hkey
  · obtain ⟨hne, hs'⟩ := (herase s).mp hs
    obtain ⟨q, hq, hkey⟩ := h.query s hs'
    rw [Workfile.freeSet]
    simp only [hquery]
    by_cases hsame : q.key = (st.entries workSet).perquery
    · have hmod : q.removeSet ∈ Table.modify (·.key) (st.entries workSet).perquery
        WorkFileUsagePerQuery.removeSet st.perQueryHash := List.mem_map.mpr ⟨q, hq, if_pos hsame⟩
      obtain ⟨-, -, h₃, -, -⟩ := h.removeSet_ok hmem hmod
      have hpos : 0 < (st.activeList.erase workSet).countP fun s =>
          (st.entries s).perquery == q.removeSet.key :=
        List.countP_pos_iff.mpr ⟨s, hs, beq_iff_eq.mpr hkey.symm⟩
      refine ⟨q.removeSet, List.mem_filter.mpr ⟨hmod, ?_⟩, hkey⟩
      rw [Bool.not_eq_true', Bool.and_eq_false_iff]
      right
      rw [beq_eq_false_iff_ne]
      omega
    · refine ⟨q, List.mem_filter.mpr ⟨Table.mem_modify_of_ne hq hsame, ?_⟩, hkey⟩
      rw [beq_false_of_ne hsame]
      rfl
  · obtain ⟨hs, hcreator⟩ := h.opened o ho
    have hne : o.2 ≠ workSet := by
      rintro rfl
      exact hclosed o.1 ho
    rw [Workfile.freeSet]
    dsimp only
    rw [hother _ hne]
    exact ⟨(herase _).mpr ⟨hne, hs⟩, hcreator⟩

end

end Hdb.Workfile

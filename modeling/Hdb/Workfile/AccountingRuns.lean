import Hdb.Workfile.Accounting

/-!
# Runs of the workfile manager

A set is freed with its last file. Two things are missed by that: a set to which no file was ever
added, and a set that is still open (`setOk`).

A process that exits deletes its files, and nothing that another process does gives it new ones
(`Acts`). So the sets it created have all been freed.
-/

namespace Hdb.Workfile

/-- A set without files is open. -/
def Used (st : WorkFileState) : Prop :=
  ∀ s ∈ st.activeList, (st.entries s).numFiles = 0 → ∃ proc, (proc, s) ∈ st.openSets

section

variable {config : WorkFileConfig} {st st' : WorkFileState} {proc file workSet : Nat}
  {key : QueryKey} {f : WorkFileLocalEntry}

/-! ## What belongs to whom -/

/-- What is new belongs to the process `proc`. -/
structure Acts (proc : Nat) (st st' : WorkFileState) : Prop where
  files : ∀ f ∈ st'.localEntries, f.proc = proc ∨ ∃ f₀ ∈ st.localEntries, f₀.proc = f.proc
  sets : ∀ o ∈ st'.openSets, o.1 = proc ∨ o ∈ st.openSets
  exited : st'.exited = st.exited

theorem Acts.refl (proc : Nat) (st : WorkFileState) : Acts proc st st :=
  ⟨fun f hf => .inr ⟨f, hf, rfl⟩, fun _ ho => .inr ho, rfl⟩

theorem Acts.trans {st'' : WorkFileState} (h : Acts proc st st') (h' : Acts proc st' st'') :
    Acts proc st st'' := by
  refine ⟨fun f hf => ?_, fun o ho => ?_, h'.exited.trans h.exited⟩
  · obtain hproc | ⟨f₁, hf₁, hsame⟩ := h'.files f hf
    · exact .inl hproc
    · rw [← hsame]
      exact h.files f₁ hf₁
  · exact (h'.sets o ho).elim .inl (h.sets o)

theorem acts_create {n : Nat}
    (hcreate : workfileMgrCreateSetInternal st n key = some (st', workSet)) : Acts proc st st' := by
  rw [workfileMgrCreateSetInternal] at hcreate
  split at hcreate
  · cases hcreate
  · cases hcreate
    exact ⟨fun f hf => .inr ⟨f, hf, rfl⟩, fun _ ho => .inr ho, rfl⟩

theorem acts_addFile (st : WorkFileState) (proc file workSet : Nat) :
    Acts proc st (addFile st proc file workSet) := by
  refine ⟨fun f hf => ?_, fun _ ho => .inr ho, rfl⟩
  rcases List.mem_cons.mp hf with rfl | hf
  · exact .inl rfl
  · exact .inr ⟨f, hf, rfl⟩

theorem acts_setFileSize (st : WorkFileState) (f : WorkFileLocalEntry) (newsize : BitVec 64) :
    Acts proc st (setFileSize st f newsize) := by
  refine ⟨fun f' hf' => ?_, fun _ ho => .inr ho, rfl⟩
  obtain ⟨f₀, hf₀, ⟨-, rfl⟩ | ⟨-, rfl⟩⟩ := Table.of_mem_modify hf'
  · exact .inr ⟨f₀, hf₀, rfl⟩
  · exact .inr ⟨_, hf₀, rfl⟩

theorem acts_update : Acts proc st (updateWorkFileSize config st proc file newsize key) := by
  rw [updateWorkFileSize]
  split
  · split_ifs
    · exact .refl proc st
    · exact .refl proc st
    · exact acts_setFileSize st _ newsize
  · split_ifs
    · exact .refl proc st
    · split
      · exact .refl proc st
      case _ st₁ workSet hcreate =>
        have hadded := (acts_create hcreate).trans (acts_addFile st₁ proc file workSet)
        dsimp only
        split_ifs
        · exact hadded
        · exact hadded
        · exact hadded.trans (acts_setFileSize _ _ newsize)

theorem workFileDeleted_openSets (st : WorkFileState) (proc file : Nat) :
    (workFileDeleted st proc file).openSets = st.openSets := by
  rw [workFileDeleted]
  split
  · rfl
  · dsimp only
    split_ifs <;> rfl

theorem workFileDeleted_exited (st : WorkFileState) (proc file : Nat) :
    (workFileDeleted st proc file).exited = st.exited := by
  rw [workFileDeleted]
  split
  · rfl
  · dsimp only
    split_ifs <;> rfl

/-- The file is gone, and no other one. -/
theorem workFileDeleted_localEntries (st : WorkFileState) (proc file : Nat) :
    (workFileDeleted st proc file).localEntries =
      Table.remove WorkFileLocalEntry.key (proc, file) st.localEntries := by
  rw [workFileDeleted]
  split
  case _ hfind =>
    refine (List.filter_eq_self.mpr fun f hf => ?_).symm
    exact decide_eq_true (Table.key_ne_of_find hfind hf)
  case _ f hfind =>
    rw [← (Table.mem_of_find hfind).2]
    dsimp only
    split_ifs <;> rfl

theorem acts_deleted (st : WorkFileState) (proc file : Nat) :
    Acts proc st (workFileDeleted st proc file) := by
  refine ⟨fun f hf => ?_, fun o ho => ?_, workFileDeleted_exited st proc file⟩
  · rw [workFileDeleted_localEntries] at hf
    exact .inr ⟨f, List.mem_of_mem_filter hf, rfl⟩
  · rw [workFileDeleted_openSets] at ho
    exact .inr ho

theorem acts_filter_openSets (st : WorkFileState) (proc : Nat) (keep : Nat × Nat → Bool) :
    Acts proc st { st with openSets := st.openSets.filter keep } :=
  ⟨fun f hf => .inr ⟨f, hf, rfl⟩, fun _ ho => .inr (List.mem_of_mem_filter ho), rfl⟩

theorem acts_deleteFiles (st : WorkFileState) (proc : Nat) (files : List Nat) :
    Acts proc st (files.foldl (fun st file => workFileDeleted st proc file) st) := by
  induction files generalizing st with
  | nil => exact .refl proc st
  | cons file files ih => exact (acts_deleted st proc file).trans (ih _)

theorem deleteFiles_openSets (st : WorkFileState) (proc : Nat) (files : List Nat) :
    (files.foldl (fun st file => workFileDeleted st proc file) st).openSets = st.openSets := by
  induction files generalizing st with
  | nil => rfl
  | cons file files ih => exact (ih _).trans (workFileDeleted_openSets st proc file)

/-- Files that are deleted one after the other are gone. -/
theorem mem_deleteFiles {files : List Nat}
    (hf : f ∈ (files.foldl (fun st file => workFileDeleted st proc file) st).localEntries) :
    f ∈ st.localEntries ∧ ∀ file ∈ files, f.key ≠ (proc, file) := by
  induction files generalizing st with
  | nil => exact ⟨hf, List.forall_mem_nil _⟩
  | cons file files ih =>
    obtain ⟨hmem, hne⟩ := ih hf
    rw [workFileDeleted_localEntries] at hmem
    obtain ⟨hmem, hkey⟩ := List.mem_filter.mp hmem
    exact ⟨hmem, List.forall_mem_cons.mpr ⟨of_decide_eq_true hkey, hne⟩⟩

theorem mem_filesOf : file ∈ filesOf st proc ↔
    ∃ f ∈ st.localEntries, f.proc = proc ∧ f.file = file := by
  rw [filesOf, List.mem_insertionSort, List.mem_map]
  simp only [List.mem_filter, beq_iff_eq, and_assoc]

/-- **A process that exits leaves no file and no open set behind.** -/
theorem atProcExitWorkFile_gone (st : WorkFileState) (proc : Nat) :
    (∀ f ∈ (atProcExitWorkFile st proc).localEntries, f.proc ≠ proc) ∧
      ∀ o ∈ (atProcExitWorkFile st proc).openSets, o.1 ≠ proc := by
  refine ⟨fun f hf hproc => ?_, fun o ho => ?_⟩
  · obtain ⟨hmem, hne⟩ := mem_deleteFiles hf
    exact hne f.file (mem_filesOf.mpr ⟨f, hmem, hproc, rfl⟩) (Prod.ext hproc rfl)
  · rw [atProcExitWorkFile, deleteFiles_openSets] at ho
    exact bne_iff_ne.mp (List.mem_filter.mp ho).2

/-- Those who have exited have no file and no open set. -/
def Gone (st : WorkFileState) : Prop :=
  ∀ proc ∈ st.exited, (∀ f ∈ st.localEntries, f.proc ≠ proc) ∧ ∀ o ∈ st.openSets, o.1 ≠ proc

theorem Gone.act (h : Gone st) (hproc : proc ∉ st.exited) (hacts : Acts proc st st') :
    Gone st' := by
  intro n hn
  rw [hacts.exited] at hn
  have hne : proc ≠ n := fun heq => hproc (heq ▸ hn)
  refine ⟨fun f hf => ?_, fun o ho => ?_⟩
  · obtain heq | ⟨f₀, hf₀, heq⟩ := hacts.files f hf
    · rwa [heq]
    · rw [← heq]
      exact (h n hn).1 f₀ hf₀
  · obtain heq | hmem := hacts.sets o ho
    · rwa [heq]
    · exact (h n hn).2 o hmem

/-! ## Steps -/

/-- A file leaves a set that is still open only if it is not the last one. A set has a file when its
creator closes it or is done with it. -/
def setOk (st : WorkFileState) : WorkFileAction → Bool
  | .deleted proc file =>
    match findFile st proc file with
    | none => true
    | some f => !((st.entries f.workSet).numFiles == 1 && decide ((proc, f.workSet) ∈ st.openSets))
  | .closeSet _ workSet => (st.entries workSet).numFiles != 0
  | .endQuery proc => st.openSets.all fun o => o.1 != proc || (st.entries o.2).numFiles != 0
  | .exit proc => st.openSets.all fun o => o.1 != proc || (st.entries o.2).numFiles != 0
  | _ => true

/-- The accounts are right and no set is lost. -/
structure WorkfileInv (config : WorkFileConfig) (st : WorkFileState) : Prop where
  accounts : Accounts config st
  used : Used st

theorem WorkfileInv.createSet (h : WorkfileInv config st)
    (hcreate : workfileMgrCreateSetInternal st proc key = some (st', workSet)) :
    WorkfileInv config { st' with openSets := (proc, workSet) :: st'.openSets } := by
  obtain ⟨h₁, h₂, h₃, h₄, -, h₆⟩ := h.accounts.create hcreate
  refine ⟨⟨h₁.lists, h₁.numActive, h₁.active, h₁.free, h₁.files, h₁.fileSet, h₁.setFiles,
    h₁.setBytes, h₁.keys, fun q hq => ?_, h₁.query, h₁.total, fun o ho => ?_⟩,
    fun s hs hempty => ?_⟩
  · have hok := h₁.queries q hq
    exact ⟨hok.numFiles, hok.totalBytes, hok.refcount, hok.pos, hok.active⟩
  · rcases List.mem_cons.mp ho with rfl | ho
    · exact ⟨h₂, h₃⟩
    · exact h₁.opened o ho
  · by_cases hnew : s = workSet
    · exact ⟨proc, by rw [hnew]; exact List.mem_cons_self ..⟩
    · obtain ⟨hs', heq⟩ := h₆ s hs hnew
      obtain ⟨proc', hopen⟩ := h.used s hs' (heq ▸ hempty)
      exact ⟨proc', List.mem_cons_of_mem _ (h₄.symm ▸ hopen)⟩

/-- A set with a file more is not empty. -/
theorem addFile_used (hused : ∀ s ∈ st.activeList, s ≠ workSet → (st.entries s).numFiles = 0 →
    ∃ proc, (proc, s) ∈ st.openSets) : Used (addFile st proc file workSet) := by
  intro s hs hempty
  rw [addFile] at hs hempty ⊢
  dsimp only at hs hempty ⊢
  by_cases heq : s = workSet
  · rw [heq, Function.update_self] at hempty
    cases hempty
  · rw [Function.update_of_ne heq] at hempty
    exact hused s hs heq hempty

theorem setFileSize_used {newsize : BitVec 64} (hused : Used st) :
    Used (setFileSize st f newsize) := by
  intro s hs hempty
  rw [setFileSize] at hs hempty ⊢
  dsimp only at hs hempty ⊢
  by_cases heq : s = f.workSet
  · rw [heq, Function.update_self] at hempty
    exact hused s hs (heq ▸ hempty)
  · rw [Function.update_of_ne heq] at hempty
    exact hused s hs hempty

theorem WorkfileInv.registerFile (h : WorkfileInv config st)
    (hopen : (proc, workSet) ∈ st.openSets) :
    WorkfileInv config (registerFileWithSet st proc file workSet) := by
  rw [registerFileWithSet]
  split_ifs with hfound
  · exact h
  · obtain ⟨hset, hcreator⟩ := h.accounts.opened _ hopen
    exact ⟨h.accounts.addFile (Option.not_isSome_iff_eq_none.mp hfound) hset hcreator,
      addFile_used fun s hs _ => h.used s hs⟩

theorem WorkfileInv.updateSize (h : WorkfileInv config st) (newsize : BitVec 64) :
    WorkfileInv config (updateWorkFileSize config st proc file newsize key) := by
  rw [updateWorkFileSize]
  split
  case _ f hfind =>
    have hf := (Table.mem_of_find hfind).1
    split_ifs
    · exact h
    · exact h
    · exact ⟨h.accounts.setFileSize hf newsize, setFileSize_used h.used⟩
  case _ hfind =>
    split_ifs
    · exact h
    · split
      · exact h
      case _ st₁ workSet hcreate =>
        obtain ⟨h₁, h₂, h₃, h₄, h₅, h₆⟩ := h.accounts.create hcreate
        have hnone : findFile st₁ proc file = none := by
          rw [findFile, h₅]
          exact hfind
        have hadded : WorkfileInv config (addFile st₁ proc file workSet) := by
          refine ⟨h₁.addFile hnone h₂ h₃, addFile_used fun s hs hne hempty => ?_⟩
          obtain ⟨hs', heq⟩ := h₆ s hs hne
          rw [h₄]
          exact h.used s hs' (heq ▸ hempty)
        dsimp only
        split_ifs
        · exact hadded
        · exact hadded
        · exact ⟨hadded.accounts.setFileSize (List.mem_cons_self ..) newsize,
            setFileSize_used hadded.used⟩

/-- **A file is deleted.** -/
theorem WorkfileInv.deleted (h : WorkfileInv config st)
    (hopen : ∀ f, findFile st proc file = some f → (st.entries f.workSet).numFiles = 1 →
      (proc, f.workSet) ∉ st.openSets) : WorkfileInv config (workFileDeleted st proc file) := by
  rw [workFileDeleted]
  split
  · exact h
  case _ f hfind =>
    obtain ⟨hf, hkey⟩ := Table.mem_of_find hfind
    obtain ⟨hset, hcreator⟩ := h.accounts.fileSet f hf
    have hremoved := h.accounts.removeFile hf
    have hproc : f.proc = proc := congrArg Prod.fst hkey
    have hnum : ((removeFile st f).entries f.workSet).numFiles =
        (st.entries f.workSet).numFiles - 1 := by
      rw [removeFile]
      dsimp only
      rw [Function.update_self]
    have hother : ∀ s, s ≠ f.workSet → (removeFile st f).entries s = st.entries s :=
      fun s hne => Function.update_of_ne hne _ _
    have hpos : 0 < (st.entries f.workSet).numFiles := by
      rw [h.accounts.setFiles _ hset]
      exact countP_pos_of_mem hf (beq_self_eq_true _)
    dsimp only
    split_ifs with hlast
    · have hclosed : ∀ p, (p, f.workSet) ∉ (removeFile st f).openSets := by
        intro p hp
        have hown : (st.entries f.workSet).creator = p := (h.accounts.opened _ hp).2
        rw [← hown, hcreator, hproc] at hp
        exact hopen f hfind (by omega) hp
      refine ⟨hremoved.freeSet hset hlast hclosed, fun s hs hempty => ?_⟩
      have hnodup : (removeFile st f).activeList.Nodup := (List.nodup_append.mp hremoved.nodup).2.1
      obtain ⟨hne, hs⟩ := hnodup.mem_erase_iff.mp hs
      have hsame : ((freeSet (removeFile st f) f.workSet).entries s) = st.entries s :=
        (Function.update_of_ne hne _ _).trans (hother s hne)
      exact h.used s hs (hsame ▸ hempty)
    · refine ⟨hremoved, fun s hs hempty => ?_⟩
      have hne : s ≠ f.workSet := by
        rintro rfl
        exact hlast hempty
      rw [hother s hne] at hempty
      exact h.used s hs hempty

/-- Sets are closed that have a file. -/
theorem WorkfileInv.close (h : WorkfileInv config st) {keep : Nat × Nat → Bool}
    (hkeep : ∀ o ∈ st.openSets, keep o = false → (st.entries o.2).numFiles ≠ 0) :
    WorkfileInv config { st with openSets := st.openSets.filter keep } := by
  have ha := h.accounts
  refine ⟨⟨ha.lists, ha.numActive, ha.active, ha.free, ha.files, ha.fileSet, ha.setFiles,
    ha.setBytes, ha.keys, fun q hq => ?_, ha.query, ha.total, fun o ho => ?_⟩,
    fun s hs hempty => ?_⟩
  · have hok := ha.queries q hq
    exact ⟨hok.numFiles, hok.totalBytes, hok.refcount, hok.pos, hok.active⟩
  · exact ha.opened o (List.mem_of_mem_filter ho)
  · obtain ⟨p, hp⟩ := h.used s hs hempty
    refine ⟨p, List.mem_filter.mpr ⟨hp, ?_⟩⟩
    by_contra hnot
    exact hkeep _ hp (Bool.not_eq_true _ ▸ hnot) hempty

/-- The files of a process are deleted after it is done with its sets. -/
theorem WorkfileInv.deleteFiles (h : WorkfileInv config st)
    (hclosed : ∀ o ∈ st.openSets, o.1 ≠ proc) (files : List Nat) :
    WorkfileInv config (files.foldl (fun st file => workFileDeleted st proc file) st) := by
  induction files generalizing st with
  | nil => exact h
  | cons file files ih =>
    refine ih (h.deleted fun f _ _ hopen => hclosed _ hopen rfl) ?_
    rw [workFileDeleted_openSets]
    exact hclosed

/-- The list of those who have exited is no part of the accounts. -/
theorem WorkfileInv.exit (h : WorkfileInv config st) (exited : List Nat) :
    WorkfileInv config { st with exited := exited } := by
  have ha := h.accounts
  refine ⟨⟨ha.lists, ha.numActive, ha.active, ha.free, ha.files, ha.fileSet, ha.setFiles,
    ha.setBytes, ha.keys, fun q hq => ?_, ha.query, ha.total, ha.opened⟩, h.used⟩
  have hok := ha.queries q hq
  exact ⟨hok.numFiles, hok.totalBytes, hok.refcount, hok.pos, hok.active⟩

/-- **One step** keeps the accounts. -/
theorem workFileAct_inv {a : WorkFileAction} (h : WorkfileInv config st) (hok : setOk st a = true)
    (hstep : workFileAct config st a = some st') : WorkfileInv config st' := by
  have hdone : ∀ proc, (st.openSets.all fun o => o.1 != proc || (st.entries o.2).numFiles != 0) =
    true → WorkfileInv config (forgetSets st proc) := by
    intro proc hall
    refine h.close fun o ho hkeep => ?_
    have ho' := List.all_eq_true.mp hall o ho
    rw [hkeep, Bool.false_or] at ho'
    exact bne_iff_ne.mp ho'
  cases a with
  | createSet proc key =>
    rw [workFileAct] at hstep
    split at hstep
    · cases hstep
      exact h
    case _ st₁ workSet hcreate =>
      cases hstep
      exact h.createSet hcreate
  | registerFile proc file workSet =>
    obtain ⟨hopen, hstep⟩ := Option.ite_none_right_eq_some.mp hstep
    cases hstep
    exact h.registerFile hopen
  | updateSize proc file newsize key =>
    cases hstep
    exact h.updateSize newsize
  | deleted proc file =>
    cases hstep
    refine h.deleted fun f hfind hone hopen => ?_
    rw [setOk, hfind] at hok
    dsimp only at hok
    rw [hone, decide_eq_true hopen] at hok
    cases hok
  | closeSet proc workSet =>
    obtain ⟨hopen, hstep⟩ := Option.ite_none_right_eq_some.mp hstep
    cases hstep
    refine h.close fun o ho hkeep => ?_
    rw [bne_eq_false_iff_eq] at hkeep
    rw [hkeep]
    exact bne_iff_ne.mp hok
  | endQuery proc =>
    cases hstep
    exact hdone proc hok
  | exit proc =>
    cases hstep
    refine ((hdone proc hok).deleteFiles (fun o ho => ?_) _).exit _
    exact bne_iff_ne.mp (List.mem_filter.mp ho).2

/-- **One step** gives no process anything that has exited. -/
theorem workFileAct_gone {a : WorkFileAction} (h : Gone st) (hproc : a.proc ∉ st.exited)
    (hstep : workFileAct config st a = some st') : Gone st' := by
  cases a with
  | createSet proc key =>
    rw [workFileAct] at hstep
    split at hstep
    · cases hstep
      exact h
    case _ st₁ workSet hcreate =>
      cases hstep
      have hacts : Acts proc st st₁ := acts_create hcreate
      refine h.act hproc ⟨hacts.files, fun o ho => ?_, hacts.exited⟩
      rcases List.mem_cons.mp ho with rfl | ho
      · exact .inl rfl
      · exact hacts.sets o ho
  | registerFile proc file workSet =>
    obtain ⟨-, hstep⟩ := Option.ite_none_right_eq_some.mp hstep
    cases hstep
    rw [registerFileWithSet]
    split_ifs
    · exact h
    · exact h.act hproc (acts_addFile st proc file workSet)
  | updateSize proc file newsize key =>
    cases hstep
    exact h.act hproc acts_update
  | deleted proc file =>
    cases hstep
    exact h.act hproc (acts_deleted st proc file)
  | closeSet proc workSet =>
    obtain ⟨-, hstep⟩ := Option.ite_none_right_eq_some.mp hstep
    cases hstep
    exact h.act hproc (acts_filter_openSets st proc _)
  | endQuery proc =>
    cases hstep
    exact h.act hproc (acts_filter_openSets st proc _)
  | exit proc =>
    cases hstep
    have hacts : Acts proc st (atProcExitWorkFile st proc) :=
      (acts_filter_openSets st proc _).trans (acts_deleteFiles _ proc _)
    intro n hn
    rcases List.mem_cons.mp hn with rfl | hn
    · exact atProcExitWorkFile_gone st n
    · exact h.act hproc hacts n (hacts.exited.symm ▸ hn)

/-- **One step.** -/
theorem workFileStep_inv {a : WorkFileAction} (h : WorkfileInv config st ∧ Gone st)
    (hok : setOk st a = true) (hstep : workFileStep config st a = some st') :
    WorkfileInv config st' ∧ Gone st' := by
  obtain ⟨hproc, hstep⟩ := Option.ite_none_left_eq_some.mp hstep
  exact ⟨workFileAct_inv h.1 hok hstep, workFileAct_gone h.2 hproc hstep⟩

end

/-! ## Sums over sets -/

/-- The total weight of some of the files. -/
def weigh (w : WorkFileLocalEntry → Nat) (P : WorkFileLocalEntry → Bool)
    (files : List WorkFileLocalEntry) : Nat :=
  ((files.filter P).map w).sum

theorem weigh_cons (w : WorkFileLocalEntry → Nat) (P : WorkFileLocalEntry → Bool)
    (f : WorkFileLocalEntry) (files : List WorkFileLocalEntry) :
    weigh w P (f :: files) = (if P f then w f else 0) + weigh w P files := by
  rw [weigh, weigh, List.filter_cons]
  split_ifs
  · rw [List.map_cons, List.sum_cons]
  · exact (Nat.zero_add _).symm

theorem weigh_one (P : WorkFileLocalEntry → Bool) (files : List WorkFileLocalEntry) :
    weigh (fun _ => 1) P files = files.countP P := by
  induction files with
  | nil => rfl
  | cons f files ih => rw [weigh_cons, List.countP_cons, ih, Nat.add_comm]

theorem sum_ite_mem (n c : Nat) {sets : List Nat} (hnodup : sets.Nodup) :
    (sets.map fun s => if n == s then c else 0).sum = if n ∈ sets then c else 0 := by
  induction sets with
  | nil => rfl
  | cons s sets ih =>
    obtain ⟨hnot, hnodup⟩ := List.nodup_cons.mp hnodup
    rw [List.map_cons, List.sum_cons, ih hnodup]
    by_cases heq : n = s
    · subst heq
      rw [beq_self_eq_true, if_pos rfl, if_neg hnot, if_pos (List.mem_cons_self ..), Nat.add_zero]
    · rw [beq_false_of_ne heq, if_neg Bool.false_ne_true, Nat.zero_add]
      exact if_congr ⟨List.mem_cons_of_mem s, fun hmem => (List.mem_cons.mp hmem).resolve_left heq⟩
        rfl rfl

/-- The files of some sets, set by set. -/
theorem sum_weigh (w : WorkFileLocalEntry → Nat) (files : List WorkFileLocalEntry) {sets : List Nat}
    (hnodup : sets.Nodup) :
    (sets.map fun s => weigh w (fun f => f.workSet == s) files).sum =
      weigh w (fun f => decide (f.workSet ∈ sets)) files := by
  induction files with
  | nil => simp [weigh]
  | cons f files ih =>
    simp only [weigh_cons, List.sum_map_add, ih, sum_ite_mem _ _ hnodup, decide_eq_true_eq]

/-- The active sets of a query. -/
def setsOf (st : WorkFileState) (key : QueryKey) : List Nat :=
  st.activeList.filter fun s => (st.entries s).perquery == key

section

variable {config : WorkFileConfig} {st : WorkFileState}

theorem Accounts.sum_setsOf (h : Accounts config st) (w : WorkFileLocalEntry → Nat)
    (key : QueryKey) :
    ((setsOf st key).map fun s => weigh w (fun f => f.workSet == s) st.localEntries).sum =
      weigh w (fun f => (st.entries f.workSet).perquery == key) st.localEntries := by
  have hnodup : (setsOf st key).Nodup := ((List.nodup_append.mp h.nodup).2.1).filter _
  rw [sum_weigh w _ hnodup, weigh, weigh, List.filter_congr]
  intro f hf
  rw [Bool.eq_iff_iff, decide_eq_true_iff, setsOf, List.mem_filter]
  exact and_iff_right (h.fileSet f hf).1

theorem sum_map_ofNat (g : Nat → Nat) (sets : List Nat) :
    (sets.map fun s => BitVec.ofNat 64 (g s)).sum = BitVec.ofNat 64 (sets.map g).sum := by
  induction sets with
  | nil => rfl
  | cons s sets ih =>
      rw [List.map_cons, List.sum_cons, ih, List.map_cons, List.sum_cons, BitVec.ofNat_add]

/-! ## Runs -/

/-- The number and the total size of the files, for sets, queries and the segment. -/
structure WorkfileSound (config : WorkFileConfig) (st : WorkFileState) : Prop where
  setFiles : ∀ s ∈ st.activeList,
    (st.entries s).numFiles = st.localEntries.countP fun f => f.workSet == s
  setBytes : ∀ s ∈ st.activeList, (st.entries s).totalBytes =
    BitVec.ofNat 64 ((st.localEntries.filter fun f => f.workSet == s).map (·.size.toNat)).sum
  queryFiles : ∀ q ∈ st.perQueryHash,
    q.numFiles = ((setsOf st q.key).map fun s => (st.entries s).numFiles).sum
  queryBytes : ∀ q ∈ st.perQueryHash,
    q.totalBytes = ((setsOf st q.key).map fun s => (st.entries s).totalBytes).sum
  queryRefcount : ∀ q ∈ st.perQueryHash, q.refcount = (setsOf st q.key).length
  totalBytes : st.totalBytes = BitVec.ofNat 64 (st.localEntries.map (·.size.toNat)).sum
  /-- Every entry is in one of the lists. -/
  lists : (st.freeList ++ st.activeList).Perm (List.range config.gpWorkfileMaxEntries)
  numActive : st.numActive = st.activeList.length
  /-- A process can register files with its sets. -/
  opened : ∀ proc workSet, (proc, workSet) ∈ st.openSets → workSet ∈ st.activeList ∧
    (st.entries workSet).active = true ∧ (st.entries workSet).creator = proc
  /-- A query without files and open sets has no entry. -/
  freed : ∀ key, (∀ f ∈ st.localEntries, (st.entries f.workSet).perquery ≠ key) →
    (∀ o ∈ st.openSets, (st.entries o.2).perquery ≠ key) → setsOf st key = []
  /-- A process that has exited has no entry. -/
  exited : ∀ proc ∈ st.exited, ∀ s ∈ st.activeList, (st.entries s).creator ≠ proc

theorem WorkfileInv.file_or_open (h : WorkfileInv config st) {s : Nat} (hs : s ∈ st.activeList) :
    (∃ f ∈ st.localEntries, f.workSet = s) ∨ ∃ proc, (proc, s) ∈ st.openSets := by
  by_cases hempty : (st.entries s).numFiles = 0
  · exact .inr (h.used s hs hempty)
  · rw [h.accounts.setFiles s hs] at hempty
    obtain ⟨f, hf, heq⟩ := List.countP_pos_iff.mp (Nat.pos_of_ne_zero hempty)
    exact .inl ⟨f, hf, beq_iff_eq.mp heq⟩

theorem WorkfileInv.sound (h : WorkfileInv config st) (hgone : Gone st) :
    WorkfileSound config st where
  setFiles := h.accounts.setFiles
  setBytes := h.accounts.setBytes
  queryFiles q hq := by
    have hsum := h.accounts.sum_setsOf (fun _ => 1) q.key
    simp only [weigh_one] at hsum
    rw [(h.accounts.queries q hq).numFiles, ← hsum]
    refine congrArg List.sum (List.map_congr_left fun s hs => ?_)
    exact (h.accounts.setFiles s (List.mem_of_mem_filter hs)).symm
  queryBytes q hq := by
    have hsum := h.accounts.sum_setsOf (fun f => f.size.toNat) q.key
    have hbytes := (h.accounts.queries q hq).totalBytes
    rw [bytes] at hbytes
    rw [weigh] at hsum
    rw [hbytes, ← hsum, ← sum_map_ofNat]
    refine congrArg List.sum (List.map_congr_left fun s hs => ?_)
    exact (h.accounts.setBytes s (List.mem_of_mem_filter hs)).symm
  queryRefcount q hq := by
    rw [(h.accounts.queries q hq).refcount, List.countP_eq_length_filter, setsOf]
  totalBytes := by
    rw [h.accounts.total, bytes, List.filter_true]
  lists := h.accounts.lists
  numActive := h.accounts.numActive
  opened proc workSet hopen := by
    obtain ⟨h₁, h₂⟩ := h.accounts.opened _ hopen
    exact ⟨h₁, h.accounts.active _ h₁, h₂⟩
  freed key hfiles hopen := by
    refine List.filter_eq_nil_iff.mpr fun s hs heq => ?_
    rw [beq_iff_eq] at heq
    rcases h.file_or_open hs with ⟨f, hf, rfl⟩ | ⟨proc, ho⟩
    · exact hfiles f hf heq
    · exact hopen _ ho heq
  exited proc hexited s hs heq := by
    obtain ⟨hfiles, hopen⟩ := hgone proc hexited
    rcases h.file_or_open hs with ⟨f, hf, rfl⟩ | ⟨proc', ho⟩
    · exact hfiles f hf ((h.accounts.fileSet f hf).2.symm.trans heq)
    · exact hopen _ ho ((h.accounts.opened _ ho).2.symm.trans heq)

theorem workfileInv_start (config : WorkFileConfig) :
    WorkfileInv config (workFileShmemInit config) := by
  refine ⟨⟨?_, rfl, fun s hs => (nomatch hs), fun _ _ => rfl, List.nodup_nil,
    fun _ hf => (nomatch hf), fun _ hs => (nomatch hs), fun _ hs => (nomatch hs), List.nodup_nil,
    fun _ hq => (nomatch hq), fun _ hs => (nomatch hs), rfl, fun _ ho => (nomatch ho)⟩,
    fun _ hs => (nomatch hs)⟩
  rw [workFileShmemInit, List.append_nil]

/-- **Workfile accounting is exact and leaks nothing**, in every run in which no set that is open
loses its last file and no set is closed before it had one. -/
theorem workfile_accounting (config : WorkFileConfig) (as : List WorkFileAction)
    (st : WorkFileState)
    (hok : Along (workFileStep config) (fun st a => setOk st a = true)
      (workFileShmemInit config) as)
    (hrun : run (workFileStep config) (workFileShmemInit config) as = some st) :
    WorkfileSound config st := by
  obtain ⟨hinv, hgone⟩ := run_invariant_along (I := fun st => WorkfileInv config st ∧ Gone st)
    (fun _ _ _ h hset hstep => workFileStep_inv h hset hstep) hok
    ⟨workfileInv_start config, fun _ hproc => absurd hproc List.not_mem_nil⟩ hrun
  exact hinv.sound hgone

end

/-- Two processes of a query. The second one runs into the limit on the size. -/
theorem workfile_accounting_twoProcs :
    let config : WorkFileConfig := ⟨32, 10, 8, 0⟩
    let query : QueryKey := ⟨7, 1⟩
    let as := [.createSet 1 query, .registerFile 1 5 0, .updateSize 1 5 4096 query,
      .updateSize 2 5 4096 query, .updateSize 2 5 8192 query, .registerFile 1 6 0, .deleted 1 5,
      .endQuery 1, .deleted 1 6, .exit 2]
    ∃ st, run (workFileStep config) (workFileShmemInit config) as = some st ∧
      WorkfileSound config st ∧ (st.numActive, st.perQueryHash.length, st.totalBytes) =
      (0, 0, 0) := by
  intro config query as
  obtain ⟨st, hrun⟩ := Option.isSome_iff_exists.mp
    (show (run (workFileStep config) (workFileShmemInit config) as).isSome from by decide +kernel)
  have hshape : (run (workFileStep config) (workFileShmemInit config) as).map (fun st =>
      (st.numActive, st.perQueryHash.length, st.totalBytes)) = some (0, 0, 0) := by
    decide +kernel
  rw [hrun, Option.map_some, Option.some.injEq] at hshape
  exact ⟨st, hrun, workfile_accounting config as st (by decide +kernel) hrun, hshape⟩

/-- **Sets are lost.** The first process deletes the only file of its set, the second one gets the
entry, and the first one registers another file there. And a process that exits leaves a set behind
to which it has not added a file. -/
theorem workfile_accounting_broken :
    let config : WorkFileConfig := ⟨32, 10, 8, 0⟩
    let query (n : Nat) : QueryKey := ⟨n, 1⟩
    (∃ st, run (workFileStep config) (workFileShmemInit config) [.createSet 1 (query 1),
        .registerFile 1 5 0, .deleted 1 5, .createSet 2 (query 2)] = some st ∧
      (1, 0) ∈ st.openSets ∧ (st.entries 0).creator = 2 ∧ ¬ WorkfileSound config st) ∧
    ∃ st, run (workFileStep config) (workFileShmemInit config) [.createSet 1 (query 1), .exit 1] =
        some st ∧ st.exited = [1] ∧ st.activeList = [0] ∧ ¬ WorkfileSound config st := by
  intro config query
  have hreused : (run (workFileStep config) (workFileShmemInit config) [.createSet 1 (query 1),
      .registerFile 1 5 0, .deleted 1 5, .createSet 2 (query 2)]).map (fun st =>
      (st.openSets, (st.entries 0).creator)) = some ([(2, 0), (1, 0)], 2) := by
    decide +kernel
  have hleft : (run (workFileStep config) (workFileShmemInit config) [.createSet 1 (query 1),
      .exit 1]).map (fun st => (st.exited, st.activeList, (st.entries 0).creator)) =
        some ([1], [0], 1) := by
    decide +kernel
  obtain ⟨st, hrun, hreused⟩ := Option.map_eq_some_iff.mp hreused
  obtain ⟨st', hrun', hleft⟩ := Option.map_eq_some_iff.mp hleft
  rw [Prod.mk.injEq] at hreused
  rw [Prod.mk.injEq, Prod.mk.injEq] at hleft
  obtain ⟨hopen, hcreator⟩ := hreused
  obtain ⟨hexited, hactive, hcreator'⟩ := hleft
  have hmem : (1, 0) ∈ st.openSets := by
    rw [hopen]
    decide
  refine ⟨⟨st, hrun, hmem, hcreator, fun hsound => ?_⟩, st', hrun', hexited, hactive,
    fun hsound => ?_⟩
  · have hsame := (hsound.opened 1 0 hmem).2.2
    rw [hcreator] at hsame
    cases hsame
  · refine hsound.exited 1 ?_ 0 ?_ hcreator'
    · rw [hexited]
      exact List.mem_singleton_self 1
    · rw [hactive]
      exact List.mem_singleton_self 0

end Hdb.Workfile

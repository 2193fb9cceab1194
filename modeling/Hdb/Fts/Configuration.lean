import Hdb.Lib.Returns
import Hdb.Fts.Probe

/-!
# Sound configurations and their updates

In a sound configuration each content has one primary, which is up, and one mirror, with the same
mode, and in sync only when both are up. An update of the configuration touches only the rows of
its own content, and gives them the new values whether or not the code finds that they have to be
written: `updateConfiguration_returns`.
-/

namespace Hdb.Fts

/-! ## Sound configurations -/

/-- A primary and its mirror as the catalog may have them. -/
structure PairSound (p m : SegmentConfig) : Prop where
  primary : p.role = .primary
  mirror : m.role = .mirror
  up : p.status = .up
  mode : p.mode = m.mode
  both_up : p.mode = .inSync → m.status = .up

def ofContent (rows : Catalog) (content : Int) : Catalog := rows.filter (·.segindex == content)

/-- `p` and `m` are the rows of their content, and they are sound. -/
structure OwnPair (rows : Catalog) (p m : SegmentConfig) : Prop extends PairSound p m where
  rows : (ofContent rows p.segindex).Perm [p, m]

/-- Each content has one primary, which is up, and one mirror, with the same mode, and in sync only
when both are up. -/
structure Sound (rows : Catalog) : Prop where
  dbids : (rows.map (·.dbid)).Nodup
  pair : ∀ row ∈ rows, ∃ p m, OwnPair rows p m ∧ p.segindex = row.segindex

theorem mem_ofContent {rows : Catalog} {content : Int} {row : SegmentConfig} :
    row ∈ ofContent rows content ↔ row ∈ rows ∧ row.segindex = content := by
  simp [ofContent]

theorem OwnPair.mem_iff {rows : Catalog} {p m row : SegmentConfig} (h : OwnPair rows p m) :
    row ∈ rows ∧ row.segindex = p.segindex ↔ row = p ∨ row = m := by
  rw [← mem_ofContent, h.rows.mem_iff]
  simp

theorem OwnPair.mem_primary {rows : Catalog} {p m : SegmentConfig} (h : OwnPair rows p m) :
    p ∈ rows :=
  (h.mem_iff.mpr (.inl rfl)).1

theorem OwnPair.mem_mirror {rows : Catalog} {p m : SegmentConfig} (h : OwnPair rows p m) :
    m ∈ rows ∧ m.segindex = p.segindex :=
  h.mem_iff.mpr (.inr rfl)

theorem eq_of_dbid {rows : Catalog} (hnd : (rows.map (·.dbid)).Nodup) {row row' : SegmentConfig}
    (h : row ∈ rows) (h' : row' ∈ rows) (heq : row.dbid = row'.dbid) : row = row' :=
  List.inj_on_of_nodup_map hnd h h' heq

theorem OwnPair.dbid_ne {rows : Catalog} {p m : SegmentConfig} (h : OwnPair rows p m)
    (hnd : (rows.map (·.dbid)).Nodup) : p.dbid ≠ m.dbid := by
  intro heq
  have hpm := eq_of_dbid hnd h.mem_primary h.mem_mirror.1 heq
  have hrole := h.mirror
  rw [← hpm, h.primary] at hrole
  cases hrole

/-! ## Updates -/

/-- Only rows of some contents differ, and no row is given another id or content. -/
structure Touches (contents : List Int) (rows rows' : Catalog) : Prop where
  dbids : rows'.map (·.dbid) = rows.map (·.dbid)
  segindexes : rows'.map (·.segindex) = rows.map (·.segindex)
  others : ∀ c, c ∉ contents → ofContent rows' c = ofContent rows c

theorem Touches.refl (contents : List Int) (rows : Catalog) : Touches contents rows rows :=
  ⟨rfl, rfl, fun _ _ => rfl⟩

theorem Touches.mono {contents contents' : List Int} {rows rows' : Catalog}
    (h : Touches contents rows rows') (hsub : contents ⊆ contents') :
    Touches contents' rows rows' :=
  { h with others := fun c hc => h.others c fun hmem => hc (hsub hmem) }

theorem Touches.trans {contents : List Int} {rows rows' rows'' : Catalog}
    (h : Touches contents rows rows') (h' : Touches contents rows' rows'') :
    Touches contents rows rows'' where
  dbids := h'.dbids.trans h.dbids
  segindexes := h'.segindexes.trans h.segindexes
  others c hc := (h'.others c hc).trans (h.others c hc)

@[simp] theorem updateRow_dbid (dbid : Int) (role : Role) (alive sync : Bool)
    (row : SegmentConfig) : (updateRow dbid role alive sync row).dbid = row.dbid := by
  unfold updateRow
  split <;> rfl

@[simp] theorem updateRow_segindex (dbid : Int) (role : Role) (alive sync : Bool)
    (row : SegmentConfig) : (updateRow dbid role alive sync row).segindex = row.segindex := by
  unfold updateRow
  split <;> rfl

theorem updateRow_of_ne {dbid : Int} {role : Role} {alive sync : Bool} {row : SegmentConfig}
    (h : row.dbid ≠ dbid) : updateRow dbid role alive sync row = row :=
  if_neg h

theorem ofContent_map_updateRow (dbid : Int) (role : Role) (alive sync : Bool) (rows : Catalog)
    (content : Int) :
    ofContent (rows.map (updateRow dbid role alive sync)) content =
      (ofContent rows content).map (updateRow dbid role alive sync) := by
  unfold ofContent
  rw [List.filter_map]
  congr 2
  funext row
  simp

/-- An update of a row is an update of its content. -/
theorem touches_map_updateRow {rows : Catalog} (hnd : (rows.map (·.dbid)).Nodup)
    {row : SegmentConfig} (hrow : row ∈ rows) (role : Role) (alive sync : Bool) :
    Touches [row.segindex] rows (rows.map (updateRow row.dbid role alive sync)) where
  dbids := by simp [Function.comp_def]
  segindexes := by simp [Function.comp_def]
  others c hc := by
    rw [ofContent_map_updateRow]
    refine (List.map_congr_left fun r hr => updateRow_of_ne fun heq => hc ?_).trans (List.map_id _)
    obtain ⟨hmem, rfl⟩ := mem_ofContent.mp hr
    rw [eq_of_dbid hnd hmem hrow heq]
    exact List.mem_singleton_self _

/-- What an update makes of a row. -/
def SegmentConfig.set (row : SegmentConfig) (role : Role) (alive sync : Bool) : SegmentConfig :=
  { row with
    role := role
    status := if alive then .up else .down
    mode := if sync then .inSync else .notInSync }

theorem updateRow_self (row : SegmentConfig) (role : Role) (alive sync : Bool) :
    updateRow row.dbid role alive sync row = row.set role alive sync :=
  if_pos rfl

theorem SegmentConfig.set_eq_self {row : SegmentConfig} {role : Role} {alive sync : Bool}
    (hrole : row.role = role) (halive : alive = row.isAlive) (hsync : sync = row.isInSync) :
    row.set role alive sync = row := by
  obtain ⟨dbid, segindex, role', status, mode⟩ := row
  subst hrole halive hsync
  cases status <;> cases mode <;> rfl

/-- The row gets the new values whether or not the code finds that it has to be written. -/
theorem updateIfNeeded_returns {rows : Catalog} (hnd : (rows.map (·.dbid)).Nodup)
    {row other : SegmentConfig} (hrow : row ∈ rows) (hne : other.dbid ≠ row.dbid) {needed : Bool}
    {role : Role} {alive sync : Bool} (hsame : needed = false → row.set role alive sync = row)
    (hrows : (ofContent rows row.segindex).Perm [row, other]) :
    Returns (updateIfNeeded needed row.dbid role alive sync rows) fun rows' =>
      Touches [row.segindex] rows rows' ∧
        (ofContent rows' row.segindex).Perm [row.set role alive sync, other] := by
  cases needed with
  | true =>
    unfold updateIfNeeded probeWalRepUpdateConfig
    rw [if_pos rfl, if_pos (List.any_eq_true.mpr ⟨row, hrow, by simp⟩)]
    refine returns_pure ⟨touches_map_updateRow hnd hrow _ _ _, ?_⟩
    rw [ofContent_map_updateRow]
    have hperm := hrows.map (updateRow row.dbid role alive sync)
    rwa [List.map_cons, List.map_singleton, updateRow_self, updateRow_of_ne hne] at hperm
  | false =>
    rw [hsame rfl]
    exact returns_pure ⟨Touches.refl _ _, hrows⟩

/-- **What an update of the configuration does.** The rows get the new values, as long as roles
change only together with the mode. -/
theorem updateConfiguration_returns {rows : Catalog} {p m : SegmentConfig}
    (hnd : (rows.map (·.dbid)).Nodup) (h : OwnPair rows p m) {newPrimaryRole newMirrorRole : Role}
    {sync primaryAlive mirrorAlive : Bool}
    (hroles : (newPrimaryRole = .primary ∧ newMirrorRole = .mirror) ∨ sync ≠ p.isInSync) :
    Returns (updateConfiguration p m newPrimaryRole newMirrorRole sync primaryAlive mirrorAlive
      rows) fun r =>
        Touches [p.segindex] rows r.1 ∧
          (ofContent r.1 p.segindex).Perm
            [p.set newPrimaryRole primaryAlive sync, m.set newMirrorRole mirrorAlive sync] := by
  have hne := h.dbid_ne hnd
  have hmc := h.mem_mirror.2
  have hmode : m.isInSync = p.isInSync := by
    rw [SegmentConfig.isInSync, ← h.mode]
    rfl
  unfold updateConfiguration
  -- the primary's row
  refine returns_bind (updateIfNeeded_returns hnd h.mem_primary hne.symm (fun hneeded => ?_)
    h.rows) fun rows' hrows' => ?_
  · simp only [Bool.or_eq_false_iff, bne_eq_false_iff_eq] at hneeded
    rcases hroles with hroles | hsync
    · exact SegmentConfig.set_eq_self (h.primary.trans hroles.1.symm) hneeded.1 hneeded.2
    · exact absurd hneeded.2 hsync
  -- the mirror's row
  obtain ⟨htouch, hperm⟩ := hrows'
  have hnd' : (rows'.map (·.dbid)).Nodup := by rwa [htouch.dbids]
  have hm' : m ∈ rows' := (mem_ofContent.mp (hperm.mem_iff.mpr (by simp))).1
  have hperm' : (ofContent rows' m.segindex).Perm
      [m, p.set newPrimaryRole primaryAlive sync] := by
    rw [hmc]
    exact hperm.trans (List.Perm.swap _ _ _)
  refine returns_bind (updateIfNeeded_returns hnd' hm' (show (p.set _ _ _).dbid ≠ m.dbid from hne)
    (fun hneeded => ?_) hperm') fun rows'' hrows'' => returns_pure ?_
  · simp only [Bool.or_eq_false_iff, bne_eq_false_iff_eq] at hneeded
    rcases hroles with hroles | hsync
    · exact SegmentConfig.set_eq_self (h.mirror.trans hroles.2.symm) hneeded.1
        (hneeded.2.trans hmode.symm)
    · exact absurd hneeded.2 hsync
  · obtain ⟨htouch', hperm''⟩ := hrows''
    rw [hmc] at htouch' hperm''
    exact ⟨htouch.trans htouch', hperm''.trans (List.Perm.swap _ _ _)⟩

end Hdb.Fts

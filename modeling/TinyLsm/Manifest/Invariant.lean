import TinyLsm.Manifest.Apply
import Mathlib.Logic.Relation
/-
  TinyLsm.Manifest.Invariant

  What every manifest the code can build satisfies.  A live manifest changes by
  one accepted `applyManifestChange` at a time (a rejected change writes
  nothing, and `applyChangeSet` is a run of accepted changes, see
  `applyChangeSet_reachable`) or by the counter reset of `rewrite`.

  Two invariants:

    * `Manifest.Counted` — `Creations = Deletions + |Tables|`, and the `uint8`
      level of every table indexes an existing level.  It holds for every change
      value, so a DELETE never indexes `Levels` out of range.
    * `Manifest.Inv` — `Levels` and `Tables` agree: every table sits in the set
      of its level and in no other.  CREATE writes `uint8(change.Level)` to
      `Tables` but inserts into `Levels[change.Level]`, so this needs every
      accepted CREATE to have a level below 256 (`LevelFits`).
-/

namespace TinyLsm

open Relation

/-- Creations balance deletions and live tables, and no table's level is past the end. -/
structure Manifest.Counted (m : Manifest) : Prop where
  level_lt : ∀ id tm, m.tables.lookup id = some tm → tm.level.toNat < m.levels.length
  count : m.creations = m.deletions + m.tables.keys.length

/-- `Levels` and `Tables` describe the same placement. -/
structure Manifest.Inv (m : Manifest) extends m.Counted : Prop where
  mem_levelSet : ∀ id tm, m.tables.lookup id = some tm → id ∈ m.levelSet tm.level.toNat
  of_mem_levelSet : ∀ l id, id ∈ m.levelSet l →
    ∃ tm, m.tables.lookup id = some tm ∧ tm.level.toNat = l

/-- A change whose level, if it is a CREATE, fits the `uint8` of `TableManifest.Level`. -/
def LevelFits (c : ManifestChange) : Prop := c.op = .create → c.level.toNat < 256

/-- One step of a live manifest: an accepted change satisfying `ok`, or `rewrite`'s
    `Creations = len(Tables); Deletions = 0`. -/
inductive ManifestStep (ok : ManifestChange → Prop) : Manifest → Manifest → Prop
  | apply {m m' : Manifest} (c : ManifestChange) :
      ok c → applyManifestChange m c = .ok m' → ManifestStep ok m m'
  | rewrite (m : Manifest) :
      ManifestStep ok m { m with creations := m.tables.keys.length, deletions := 0 }

/-- Manifests built from `createNewManifest` by steps whose changes satisfy `ok`. -/
def Reachable (ok : ManifestChange → Prop) (m : Manifest) : Prop :=
  ReflTransGen (ManifestStep ok) createNewManifest m

-- ============================================================================
-- applyChangeSet is a run of steps
-- ============================================================================

/-- Whatever `applyChangeSet` stops at is reached by accepting its changes one by one. -/
theorem applyChangeSet_reachable {ok : ManifestChange → Prop} :
    ∀ (m : Manifest) (cs : List ManifestChange), (∀ c ∈ cs, ok c) →
      ReflTransGen (ManifestStep ok) m (applyChangeSet m cs).1
  | m, [], _ => .refl
  | m, c :: cs, hok => by
    cases h : applyManifestChange m c with
    | error e => simp [applyChangeSet_cons_error h]; exact .refl
    | ok m' =>
      rw [applyChangeSet_cons_ok h]
      exact .head (.apply c (hok c (List.mem_cons_self _ _)) h)
        (applyChangeSet_reachable m' cs fun c' hc => hok c' (List.mem_cons_of_mem _ hc))

-- ============================================================================
-- Counted
-- ============================================================================

theorem Manifest.Counted.createTable {m : Manifest} (hm : m.Counted) {id : UInt64}
    (hid : id ∉ m.tables) (level : UInt32) (checksum : Bytes) :
    (m.createTable id level checksum).Counted := by
  have hlen := createTable_levels_length m id level checksum
  constructor
  · intro id' tm h
    rw [hlen]
    by_cases he : id' = id
    · subst he
      simp only [createTable_tables, AList.lookup_insert, Option.some.injEq] at h
      subst h
      simp only [uint32_toUInt8_toNat]
      omega
    · rw [createTable_tables, AList.lookup_insert_ne he] at h
      have := hm.level_lt id' tm h
      omega
  · simp only [createTable_creations, createTable_deletions, createTable_tables,
      AList.keys_insert, List.erase_of_not_mem hid, List.length_cons, hm.count]
    omega

theorem Manifest.Counted.deleteTable {m : Manifest} (hm : m.Counted) {id : UInt64}
    (hid : id ∈ m.tables) (level : Nat) : (m.deleteTable id level).Counted := by
  constructor
  · intro id' tm h
    rw [deleteTable_levels_length]
    by_cases he : id' = id
    · subst he; simp at h
    · rw [deleteTable_tables, AList.lookup_erase_ne he] at h
      exact hm.level_lt id' tm h
  · have hk : id ∈ m.tables.keys := AList.mem_keys.mp hid
    have := List.length_erase_of_mem hk
    have hpos := List.length_pos_of_mem hk
    simp only [deleteTable_creations, deleteTable_deletions, deleteTable_tables,
      AList.keys_erase, hm.count]
    omega

/-- Every step keeps `Counted`, whatever the change. -/
theorem ManifestStep.counted {ok : ManifestChange → Prop} {m m' : Manifest}
    (h : ManifestStep ok m m') (hm : m.Counted) : m'.Counted := by
  cases h with
  | apply c _ hc =>
    rcases applyManifestChange_eq_ok hc with ⟨-, hid, rfl⟩ | ⟨-, tm, htm, -, rfl⟩
    · exact hm.createTable hid _ _
    · exact hm.deleteTable (AList.lookup_isSome.mp (by simp [htm])) _
  | rewrite => exact ⟨hm.level_lt, by simp⟩

/-- On a `Counted` manifest DELETE never takes the out-of-range panic. -/
theorem Manifest.Counted.not_levelOutOfRange {m : Manifest} (hm : m.Counted)
    (c : ManifestChange) : applyManifestChange m c ≠ .error .levelOutOfRange := by
  unfold applyManifestChange
  split
  · split <;> simp
  · split
    · simp
    · rw [if_pos (hm.level_lt _ _ ‹_›)]; simp
  · simp

-- ============================================================================
-- Inv
-- ============================================================================

theorem Manifest.Inv.createTable {m : Manifest} (hm : m.Inv) {id : UInt64}
    (hid : id ∉ m.tables) {level : UInt32} (hl : level.toNat < 256) (checksum : Bytes) :
    (m.createTable id level checksum).Inv := by
  have hlevel : level.toUInt8.toNat = level.toNat := by simp; omega
  have hnone : m.tables.lookup id = none := AList.lookup_eq_none.mpr hid
  refine ⟨hm.toCounted.createTable hid level checksum, ?_, ?_⟩
  · intro id' tm h
    by_cases he : id' = id
    · subst he
      simp only [createTable_tables, AList.lookup_insert, Option.some.injEq] at h
      subst h
      simp [hlevel]
    · rw [createTable_tables, AList.lookup_insert_ne he] at h
      rw [createTable_levelSet]
      split <;> simp [hm.mem_levelSet id' tm h]
  · intro l id' h
    rw [createTable_levelSet] at h
    by_cases he : id' = id
    · subst he
      split at h
      next hl' => exact ⟨⟨level.toUInt8, checksum⟩, by simp, hlevel.trans hl'.symm⟩
      · obtain ⟨tm, htm, -⟩ := hm.of_mem_levelSet l id' h
        simp [hnone] at htm
    · have h' : id' ∈ m.levelSet l := by split at h <;> simp_all
      obtain ⟨tm, htm, hl'⟩ := hm.of_mem_levelSet l id' h'
      exact ⟨tm, by rw [createTable_tables, AList.lookup_insert_ne he, htm], hl'⟩

theorem Manifest.Inv.deleteTable {m : Manifest} (hm : m.Inv) {id : UInt64} {tm : TableManifest}
    (htm : m.tables.lookup id = some tm) (hl : tm.level.toNat < m.levels.length) :
    (m.deleteTable id tm.level.toNat).Inv := by
  have hid : id ∈ m.tables := AList.lookup_isSome.mp (by simp [htm])
  refine ⟨hm.toCounted.deleteTable hid _, ?_, ?_⟩
  · intro id' tm' h
    have he : id' ≠ id := by rintro rfl; simp at h
    rw [deleteTable_tables, AList.lookup_erase_ne he] at h
    rw [deleteTable_levelSet _ _ hl]
    split <;> simp [he, hm.mem_levelSet id' tm' h]
  · intro l id' h
    rw [deleteTable_levelSet _ _ hl] at h
    obtain ⟨tm', htm', hl'⟩ := hm.of_mem_levelSet l id' (by split at h <;> simp_all)
    have he : id' ≠ id := by
      rintro rfl
      rw [htm] at htm'
      cases htm'
      simp [hl'] at h
    exact ⟨tm', by rw [deleteTable_tables, AList.lookup_erase_ne he, htm'], hl'⟩

/-- Steps with fitting levels keep `Inv`. -/
theorem ManifestStep.inv {m m' : Manifest} (h : ManifestStep LevelFits m m') (hm : m.Inv) :
    m'.Inv := by
  cases h with
  | apply c hfit hc =>
    rcases applyManifestChange_eq_ok hc with ⟨hop, hid, rfl⟩ | ⟨-, tm, htm, hl, rfl⟩
    · exact hm.createTable hid (hfit hop) _
    · exact hm.deleteTable htm hl
  | rewrite => exact ⟨⟨hm.level_lt, by simp⟩, hm.mem_levelSet, hm.of_mem_levelSet⟩

theorem createNewManifest_inv : createNewManifest.Inv :=
  ⟨⟨by simp [createNewManifest], rfl⟩, by simp [createNewManifest],
    by simp [createNewManifest, Manifest.levelSet]⟩

theorem Manifest.Counted.steps {ok : ManifestChange → Prop} {m m' : Manifest} (hm : m.Counted)
    (h : ReflTransGen (ManifestStep ok) m m') : m'.Counted := by
  induction h with
  | refl => exact hm
  | tail _ hs ih => exact hs.counted ih

theorem Manifest.Inv.steps {m m' : Manifest} (hm : m.Inv)
    (h : ReflTransGen (ManifestStep LevelFits) m m') : m'.Inv := by
  induction h with
  | refl => exact hm
  | tail _ hs ih => exact hs.inv ih

theorem Reachable.counted {ok : ManifestChange → Prop} {m : Manifest} (h : Reachable ok m) :
    m.Counted :=
  createNewManifest_inv.toCounted.steps h

theorem Reachable.inv {m : Manifest} (h : Reachable LevelFits m) : m.Inv :=
  createNewManifest_inv.steps h

/-- An accepted change keeps `Counted`. -/
theorem Manifest.Counted.apply {m m' : Manifest} (hm : m.Counted) {c : ManifestChange}
    (hc : applyManifestChange m c = .ok m') : m'.Counted :=
  (ManifestStep.apply c trivial hc : ManifestStep (fun _ => True) m m').counted hm

/-- A change set whose CREATEs fit keeps `Inv`, wherever it stops. -/
theorem Manifest.Inv.applyChangeSet {m : Manifest} (hm : m.Inv) {cs : List ManifestChange}
    (hcs : ∀ c ∈ cs, LevelFits c) : (applyChangeSet m cs).1.Inv :=
  hm.steps (applyChangeSet_reachable m cs hcs)

/-- Under `Inv`, a DELETE leaves the id in no level set. -/
theorem Manifest.Inv.delete_clears {m m' : Manifest} (hm : m.Inv) {c : ManifestChange}
    (hop : c.op = .delete) (h : applyManifestChange m c = .ok m') (l : Nat) :
    c.id ∉ m'.levelSet l := by
  rcases applyManifestChange_eq_ok h with ⟨hc, -⟩ | ⟨-, tm, htm, hl, rfl⟩
  · rw [hop] at hc; cases hc
  · intro hmem
    obtain ⟨tm', h', -⟩ := (hm.deleteTable htm hl).of_mem_levelSet l c.id hmem
    simp at h'

-- ============================================================================
-- The manifest invariant
-- ============================================================================

/-- Every manifest the code can build balances its counters and never takes the
    DELETE panic; when every accepted CREATE has a level below 256, `Levels` and
    `Tables` also agree and a DELETE clears its id from every level set. -/
theorem manifest_reachable_invariants :
    (∀ m, Reachable (fun _ => True) m →
      m.Counted ∧ ∀ c, applyManifestChange m c ≠ .error .levelOutOfRange) ∧
    (∀ m, Reachable LevelFits m → m.Inv ∧
      ∀ c m', c.op = .delete → applyManifestChange m c = .ok m' →
        ∀ l, c.id ∉ m'.levelSet l) :=
  ⟨fun _ h => ⟨h.counted, h.counted.not_levelOutOfRange⟩,
   fun _ h => ⟨h.inv, fun _ _ hop hc l => h.inv.delete_clears hop hc l⟩⟩

/-- The change `CREATE id=1 level=256`. -/
def createLevel256 : ManifestChange := ⟨1, .create, 256, []⟩

theorem applyManifestChange_createLevel256 :
    applyManifestChange createNewManifest createLevel256 =
      .ok (createNewManifest.createTable 1 256 []) := by
  simp [applyManifestChange, createLevel256, createNewManifest]

/-- After one CREATE and one DELETE of table 1 the invariants hold at every level. -/
theorem manifest_reachable_invariants_create_delete :
    let m := createNewManifest.createTable 1 3 []
    Reachable LevelFits m ∧ m.Inv ∧ ∀ l, (1 : UInt64) ∉ (m.deleteTable 1 3).levelSet l :=
  have hc : applyManifestChange createNewManifest ⟨1, .create, 3, []⟩ =
      .ok (createNewManifest.createTable 1 3 []) := by
    simp [applyManifestChange, createNewManifest]
  have hr : Reachable LevelFits (createNewManifest.createTable 1 3 []) :=
    .single (.apply _ (fun _ => by decide) hc)
  have hd : applyManifestChange (createNewManifest.createTable 1 3 []) ⟨1, .delete, 0, []⟩ =
      .ok ((createNewManifest.createTable 1 3 []).deleteTable 1 3) := rfl
  ⟨hr, (manifest_reachable_invariants.2 _ hr).1,
    (manifest_reachable_invariants.2 _ hr).2 ⟨1, .delete, 0, []⟩ _ rfl hd⟩

/-- A CREATE at level 256 stores level `uint8(256) = 0` in `Tables` but puts the id
    in `Levels[256]`: table 1 is tracked and missing from the set of its level. -/
theorem create_level_256_breaks_inv : ¬ ∀ m, Reachable (fun _ => True) m → m.Inv := by
  intro h
  obtain ⟨m, hm⟩ : ∃ m, createNewManifest.createTable 1 256 [] = m := ⟨_, rfl⟩
  have hinv :=
    h m (hm ▸ .single (.apply createLevel256 trivial applyManifestChange_createLevel256))
  have hl : m.tables.lookup 1 = some ⟨(256 : UInt32).toUInt8, []⟩ := by
    rw [← hm, createTable_tables, AList.lookup_insert]
  have hmem := hinv.mem_levelSet 1 _ hl
  have h256 : ¬(256 : UInt32).toUInt8.toNat = (256 : UInt32).toNat := by
    rw [show (256 : UInt32).toUInt8.toNat = 0 from rfl, show (256 : UInt32).toNat = 256 from rfl]
    omega
  rw [← hm, createTable_levelSet] at hmem
  dsimp only at hmem
  rw [if_neg h256] at hmem
  simp [createNewManifest, Manifest.levelSet] at hmem

end TinyLsm

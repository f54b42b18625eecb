import TinyLsm.Bytes
import Mathlib.Data.List.AList
import Mathlib.Data.Finset.Basic
/-
  TinyLsm.Manifest.Apply

  The in-memory `Manifest` of `file/manifest.go` and the two functions that
  mutate it during replay and `addChanges`: `applyManifestChange` and
  `applyChangeSet`.

  Go mutates `*Manifest` in place.  `applyManifestChange` runs all its checks
  before its first write, so it is a function `Manifest → Except _ Manifest`;
  `applyChangeSet` stops at the first failing change and leaves the writes of
  the changes before it in place, so it returns the manifest it leaves behind
  together with the error.  The `Tables` map is an `AList` (a Go map with its
  keys distinct by construction), each level's id set a `Finset`.
-/

namespace TinyLsm

/-- `pb.ManifestChange_Operation`.  `other` stands for any further value of the
    int32 enum that a decoded change can carry. -/
inductive Operation
  | create
  | delete
  | other (tag : UInt32)
  deriving DecidableEq, Repr

/-- `pb.ManifestChange`. -/
structure ManifestChange where
  id : UInt64
  op : Operation
  level : UInt32
  checksum : Bytes
  deriving DecidableEq, Repr

/-- `TableManifest`: the level a table sits at, as a `uint8`, and its checksum. -/
structure TableManifest where
  level : UInt8
  checksum : Bytes
  deriving DecidableEq, Repr

/-- `levelManifest`: the ids of the tables at one level. -/
structure LevelManifest where
  tables : Finset UInt64
  deriving DecidableEq

/-- `map[uint64]TableManifest`. -/
abbrev TableMap := AList (fun _ : UInt64 => TableManifest)

/-- `Manifest`. -/
structure Manifest where
  levels : List LevelManifest
  tables : TableMap
  creations : Nat
  deletions : Nat

/-- The errors of the manifest code.  `levelOutOfRange` is the runtime panic of
    `mf.Levels[tm.Level]` with an index past the end; `io` is any failed call at
    the file-system boundary. -/
inductive ManifestError
  /-- "MANIFEST invalid, table %d exists" -/
  | tableExists (id : UInt64)
  /-- "MANIFEST removes non-existing table %d" -/
  | removesNonExisting (id : UInt64)
  /-- `utils.ErrManifestHasWrongOp` -/
  | hasWrongOp
  | levelOutOfRange
  /-- `utils.ErrBadMagic` -/
  | badMagic
  /-- `utils.ErrNotSupportManifestVersion` -/
  | notSupportManifestVersion
  /-- `utils.ErrBadChecksum` -/
  | badChecksum
  /-- `io.EOF` or `io.ErrUnexpectedEOF` from the payload read of a frame -/
  | read (e : ReadError)
  /-- `changeSet.Unmarshal` rejected a payload -/
  | unmarshal
  | io
  deriving DecidableEq, Repr

/-- `createNewManifest`. -/
def createNewManifest : Manifest := ⟨[], ∅, 0, 0⟩

-- ============================================================================
-- Level sets
-- ============================================================================

/-- The ids at level `l` of a `Levels` slice; a level past the end is empty. -/
def levelTables (levels : List LevelManifest) (l : Nat) : Finset UInt64 :=
  ((levels[l]?).map LevelManifest.tables).getD ∅

/-- The ids at level `l` of a manifest, a missing level counting as empty. -/
def Manifest.levelSet (m : Manifest) (l : Nat) : Finset UInt64 := levelTables m.levels l

/-- `Levels[level].Tables[id] = struct{}{}`. -/
def LevelManifest.insert (id : UInt64) (lm : LevelManifest) : LevelManifest :=
  ⟨Insert.insert id lm.tables⟩

/-- `delete(Levels[level].Tables, id)`. -/
def LevelManifest.erase (id : UInt64) (lm : LevelManifest) : LevelManifest :=
  ⟨lm.tables.erase id⟩

/-- The loop `for len(mf.Levels) <= int(change.Level)`: append empty levels until
    index `l` exists. -/
def growLevels (levels : List LevelManifest) (l : Nat) : List LevelManifest :=
  levels ++ List.replicate (l + 1 - levels.length) ⟨∅⟩

@[simp] theorem levelTables_nil (l : Nat) : levelTables [] l = ∅ := rfl

theorem length_growLevels (levels : List LevelManifest) (l : Nat) :
    (growLevels levels l).length = max levels.length (l + 1) := by
  simp [growLevels]
  omega

@[simp] theorem levelTables_growLevels (levels : List LevelManifest) (n l : Nat) :
    levelTables (growLevels levels n) l = levelTables levels l := by
  unfold levelTables growLevels
  rcases Nat.lt_or_ge l levels.length with h | h
  · rw [List.getElem?_append_left h]
  · rw [List.getElem?_append_right h, List.getElem?_eq_none h, List.getElem?_replicate]
    split <;> rfl

/-- Rewriting one level touches only that level. -/
theorem levelTables_modify (levels : List LevelManifest) (f : LevelManifest → LevelManifest)
    {n : Nat} (hn : n < levels.length) (l : Nat) :
    levelTables (levels.modify f n) l =
      if l = n then (f ⟨levelTables levels l⟩).tables else levelTables levels l := by
  unfold levelTables
  rw [List.getElem?_modify]
  by_cases h : l = n
  · subst h
    simp [List.getElem?_eq_getElem hn]
  · simp only [Ne.symm h, h, if_false]
    cases levels[l]? <;> rfl

-- ============================================================================
-- applyManifestChange
-- ============================================================================

/-- The writes of the CREATE branch of `applyManifestChange`: `Tables[id]` with the
    level cut to `uint8`, the level loop, `Levels[level].Tables[id]` with the full
    level, `Creations++`. -/
def Manifest.createTable (mf : Manifest) (id : UInt64) (level : UInt32) (checksum : Bytes) :
    Manifest :=
  { mf with
    tables := mf.tables.insert id ⟨level.toUInt8, checksum⟩
    levels := (growLevels mf.levels level.toNat).modify (LevelManifest.insert id) level.toNat
    creations := mf.creations + 1 }

/-- The writes of the DELETE branch: `Levels[level]`, `Tables`, `Deletions++`. -/
def Manifest.deleteTable (mf : Manifest) (id : UInt64) (level : Nat) : Manifest :=
  { mf with
    levels := mf.levels.modify (LevelManifest.erase id) level
    tables := mf.tables.erase id
    deletions := mf.deletions + 1 }

/-- `applyManifestChange`.  Every check comes before the first write, so a failed
    change leaves the manifest as it was. -/
def applyManifestChange (mf : Manifest) (change : ManifestChange) :
    Except ManifestError Manifest :=
  match change.op with
  | .create =>
    if change.id ∈ mf.tables then .error (.tableExists change.id)
    else .ok (mf.createTable change.id change.level change.checksum)
  | .delete =>
    match mf.tables.lookup change.id with
    | none => .error (.removesNonExisting change.id)
    | some tm =>
      if tm.level.toNat < mf.levels.length then .ok (mf.deleteTable change.id tm.level.toNat)
      else .error .levelOutOfRange
  | .other _ => .error .hasWrongOp

/-- `applyChangeSet`: the changes in order, stopping at the first error.  The
    manifest returned is the one `mf` points to afterwards. -/
def applyChangeSet (mf : Manifest) : List ManifestChange → Manifest × Option ManifestError
  | [] => (mf, none)
  | change :: rest =>
    match applyManifestChange mf change with
    | .ok mf' => applyChangeSet mf' rest
    | .error e => (mf, some e)

-- ============================================================================
-- Field lemmas
-- ============================================================================

section Fields

variable (mf : Manifest) (id : UInt64)

@[simp] theorem createTable_tables (level : UInt32) (checksum : Bytes) :
    (mf.createTable id level checksum).tables = mf.tables.insert id ⟨level.toUInt8, checksum⟩ :=
  rfl

@[simp] theorem createTable_creations (level : UInt32) (checksum : Bytes) :
    (mf.createTable id level checksum).creations = mf.creations + 1 := rfl

@[simp] theorem createTable_deletions (level : UInt32) (checksum : Bytes) :
    (mf.createTable id level checksum).deletions = mf.deletions := rfl

theorem createTable_levels_length (level : UInt32) (checksum : Bytes) :
    (mf.createTable id level checksum).levels.length = max mf.levels.length (level.toNat + 1) := by
  simp [Manifest.createTable, length_growLevels]

/-- CREATE adds the id to the level set of the full `uint32` level. -/
@[simp] theorem createTable_levelSet (level : UInt32) (checksum : Bytes) (l : Nat) :
    (mf.createTable id level checksum).levelSet l =
      if l = level.toNat then insert id (mf.levelSet l) else mf.levelSet l := by
  have hn : level.toNat < (growLevels mf.levels level.toNat).length := by
    rw [length_growLevels]; omega
  simp only [Manifest.levelSet, Manifest.createTable, levelTables_modify _ _ hn,
    levelTables_growLevels, LevelManifest.insert]

@[simp] theorem deleteTable_tables (level : Nat) :
    (mf.deleteTable id level).tables = mf.tables.erase id := rfl

@[simp] theorem deleteTable_creations (level : Nat) :
    (mf.deleteTable id level).creations = mf.creations := rfl

@[simp] theorem deleteTable_deletions (level : Nat) :
    (mf.deleteTable id level).deletions = mf.deletions + 1 := rfl

@[simp] theorem deleteTable_levels_length (level : Nat) :
    (mf.deleteTable id level).levels.length = mf.levels.length := by
  simp [Manifest.deleteTable]

/-- DELETE removes the id from the level set it indexes, when that level exists. -/
theorem deleteTable_levelSet {level : Nat} (h : level < mf.levels.length) (l : Nat) :
    (mf.deleteTable id level).levelSet l =
      if l = level then (mf.levelSet l).erase id else mf.levelSet l := by
  simp only [Manifest.levelSet, Manifest.deleteTable, levelTables_modify _ _ h,
    LevelManifest.erase]

end Fields

-- ============================================================================
-- Inversion
-- ============================================================================

/-- Everything a successful change can have done. -/
theorem applyManifestChange_eq_ok {mf mf' : Manifest} {c : ManifestChange}
    (h : applyManifestChange mf c = .ok mf') :
    (c.op = .create ∧ c.id ∉ mf.tables ∧ mf' = mf.createTable c.id c.level c.checksum) ∨
    (c.op = .delete ∧ ∃ tm, mf.tables.lookup c.id = some tm ∧
      tm.level.toNat < mf.levels.length ∧ mf' = mf.deleteTable c.id tm.level.toNat) := by
  unfold applyManifestChange at h
  split at h
  · split at h
    · cases h
    · exact .inl ⟨‹_›, ‹_›, (Except.ok.inj h).symm⟩
  · split at h
    · cases h
    · split at h
      · exact .inr ⟨‹_›, _, ‹_›, ‹_›, (Except.ok.inj h).symm⟩
      · cases h
  · cases h

@[simp] theorem applyChangeSet_nil (mf : Manifest) : applyChangeSet mf [] = (mf, none) := rfl

theorem applyChangeSet_cons_ok {mf mf' : Manifest} {c : ManifestChange}
    (h : applyManifestChange mf c = .ok mf') (rest : List ManifestChange) :
    applyChangeSet mf (c :: rest) = applyChangeSet mf' rest := by
  simp [applyChangeSet, h]

theorem applyChangeSet_cons_error {mf : Manifest} {c : ManifestChange} {e : ManifestError}
    (h : applyManifestChange mf c = .error e) (rest : List ManifestChange) :
    applyChangeSet mf (c :: rest) = (mf, some e) := by
  simp [applyChangeSet, h]

end TinyLsm

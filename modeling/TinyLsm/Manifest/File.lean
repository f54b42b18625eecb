import TinyLsm.Manifest.Replay
import TinyLsm.Sequencing
/-
  TinyLsm.Manifest.File

  `ManifestFile` and the code that writes `dir/MANIFEST`: `createFileAndRewrite`,
  `rewrite`, `addChanges`, `AddTableMeta`, `OpenManifestFile`, `Close`.

  The directory is the two files the manifest code names, `MANIFEST` and
  `REWRITEMANIFEST` (`none` when absent).  Every call at the file-system
  boundary (open, write, sync, close, rename, truncate, seek, directory sync)
  takes its outcome from `Fs.faults`: `true` makes that call fail, an exhausted
  list lets every later call succeed.  A failed call is an `ManifestError.io`
  and changes nothing, except a write: `(*os.File).Write` returns an error
  exactly when it wrote fewer than `len(b)` bytes, so a failed write still
  appends the first bytes of its buffer, as many as `Fs.tears` gives next and
  never all of them.  A process that stops inside a write is a write that
  failed and after which nothing runs.  Go's `range` over the `Tables` map
  visits it in an order chosen at run time; each call that ranges over it takes
  that order as a `MapOrder` argument.

  The code is written in `EStateM`, which keeps the state on an error, as Go's
  in-place mutation does.
-/

namespace TinyLsm

/-- The part of the working directory the manifest code uses, and the outcomes of
    the I/O calls still to come. -/
structure Fs where
  manifest : Option Bytes
  rewriteManifest : Option Bytes
  faults : List Bool
  /-- How many bytes of its buffer each failed write still appends, in call order; an
      exhausted list appends none. -/
  tears : List Nat

/-- The order in which a `range` over a `Tables` map visits it: any permutation of
    its entries. -/
structure MapOrder where
  iter : TableMap → List (Sigma fun _ : UInt64 => TableManifest)
  perm : ∀ t, (iter t).Perm t.entries

/-- The order of the map's own entry list. -/
def entriesOrder : MapOrder := ⟨AList.entries, fun _ => List.Perm.refl _⟩

/-- `ManifestFile`: the in-memory manifest and whether `mf.file`, a handle on
    `dir/MANIFEST`, is open. -/
structure ManifestFile where
  manifest : Manifest
  fileOpen : Bool

/-- `TableMeta`. -/
structure TableMeta where
  id : UInt64
  checksum : Bytes

/-- `utils.ManifestDeletionsRewriteThreshold`. -/
def manifestDeletionsRewriteThreshold : Nat := 10000

/-- `utils.ManifestDeletionsRatio`. -/
def manifestDeletionsRatio : Int := 10

abbrev FsM := EStateM ManifestError Fs

abbrev ManifestM := EStateM ManifestError (ManifestFile × Fs)

-- ============================================================================
-- The file system
-- ============================================================================

/-- The directory after one more outcome has been used. -/
def Fs.next (fs : Fs) : Fs := { fs with faults := fs.faults.tail }

/-- One I/O call: it fails if its outcome says so, and otherwise applies `eff`. -/
def ioCall (eff : Fs → Fs) : FsM Unit := fun fs =>
  if fs.faults.head? = some true then .error .io fs.next else .ok () (eff fs.next)

/-- The part of `buf` a failed write still appends: the first `k` bytes for the `k` that
    `Fs.tears` gives next, cut below `len(buf)`. -/
def Fs.tornPart (fs : Fs) (buf : Bytes) : Bytes :=
  buf.take (min (fs.tears.headD 0) (buf.length - 1))

/-- The directory after a failed write: one more outcome and one more tear used. -/
def Fs.nextTorn (fs : Fs) : Fs := { fs with faults := fs.faults.tail, tears := fs.tears.tail }

/-- A write of `buf` through `append`: it fails if its outcome says so, after appending the
    torn part of `buf`, and otherwise appends all of it. -/
def writeCall (append : Bytes → Fs → Fs) (buf : Bytes) : FsM Unit := fun fs =>
  if fs.faults.head? = some true then .error .io (append (fs.tornPart buf) fs.nextTorn)
  else .ok () (append buf fs.next)

/-- `os.OpenFile(REWRITEMANIFEST, O_RDWR|O_CREATE|O_APPEND)`: creates the file if it
    is absent and keeps its bytes if not. -/
def Fs.openRewrite (fs : Fs) : Fs :=
  { fs with rewriteManifest := some (fs.rewriteManifest.getD []) }

/-- A write through an `O_APPEND` handle on `REWRITEMANIFEST`. -/
def Fs.appendRewrite (buf : Bytes) (fs : Fs) : Fs :=
  { fs with rewriteManifest := some (fs.rewriteManifest.getD [] ++ buf) }

/-- `os.Rename(REWRITEMANIFEST, MANIFEST)`. -/
def Fs.renameRewrite (fs : Fs) : Fs :=
  { fs with manifest := fs.rewriteManifest, rewriteManifest := none }

/-- A write at the end of `MANIFEST` through `mf.file`. -/
def Fs.appendManifest (buf : Bytes) (fs : Fs) : Fs :=
  { fs with manifest := some (fs.manifest.getD [] ++ buf) }

/-- `file.Truncate(n)` on `MANIFEST`. -/
def Fs.truncateManifest (n : Nat) (fs : Fs) : Fs :=
  { fs with manifest := fs.manifest.map (List.take n) }

-- ============================================================================
-- createFileAndRewrite
-- ============================================================================

/-- `newCreateChange(sstId, level, checksum)`, with Go's `uint32(level)` on an `int`. -/
def newCreateChange (id : UInt64) (level : Int) (checksum : Bytes) : ManifestChange :=
  ⟨id, .create, UInt32.ofNat (level % 2 ^ 32).toNat, checksum⟩

/-- `Manifest.asChanges`, the tables visited in the order `order` gives. -/
def asChanges (m : Manifest) (order : MapOrder) : List ManifestChange :=
  (order.iter m.tables).map fun e => newCreateChange e.1 e.2.level.toNat e.2.checksum

variable (codec : ChangeSetCodec)

/-- `createFileAndRewrite`: the header and one frame holding a CREATE for every table
    are written to `REWRITEMANIFEST`, which is then renamed over `MANIFEST`.  Returns
    `len(manifest.Tables)`. -/
def createFileAndRewrite (manifest : Manifest) (order : MapOrder) : FsM Nat := do
  ioCall Fs.openRewrite
  let netCreations := manifest.tables.keys.length
  let changeBuf := codec.marshal (asChanges manifest order)
  writeCall Fs.appendRewrite (magicHeader ++ frame changeBuf)  -- manifestfile.Write(buf)
  ioCall id                                                  -- manifestfile.Sync()
  ioCall id                                                  -- manifestfile.Close()
  ioCall Fs.renameRewrite                                    -- os.Rename(path, manifestPath)
  ioCall id                                                  -- os.OpenFile(manifestPath, ...)
  ioCall id                                                  -- manifestfile.Seek(0, io.SeekEnd)
  ioCall id                                                  -- utils.SyncDir(dir)
  return netCreations

-- ============================================================================
-- ManifestFile
-- ============================================================================

/-- Run a directory-only computation inside a `ManifestFile` method. -/
def liftFs {α : Type} (x : FsM α) : ManifestM α := fun s =>
  match x s.2 with
  | .ok a fs => .ok a (s.1, fs)
  | .error e fs => .error e (s.1, fs)

/-- `mf.file.Write(buf)`; a closed handle fails without a system call. -/
def fileWrite (buf : Bytes) : ManifestM Unit := fun s =>
  if s.1.fileOpen then liftFs (writeCall Fs.appendManifest buf) s else .error .io s

/-- `mf.file.Sync()`. -/
def fileSync : ManifestM Unit := fun s =>
  if s.1.fileOpen then liftFs (ioCall id) s else .error .io s

/-- `mf.file.Close()`: the handle is released whether or not the call reports an error. -/
def fileClose : ManifestM Unit := fun s =>
  if s.1.fileOpen then liftFs (ioCall id) ({ s.1 with fileOpen := false }, s.2) else .error .io s

/-- `ManifestFile.rewrite`. -/
def ManifestFile.rewrite (order : MapOrder) : ManifestM Unit := do
  fileClose
  let nextCreations ← liftFs (createFileAndRewrite codec (← get).1.manifest order)
  modify fun s =>
    ({ manifest := { s.1.manifest with creations := nextCreations, deletions := 0 },
       fileOpen := true }, s.2)

/-- The rewrite condition of `addChanges`, in Go's `int` arithmetic. -/
def rewriteDue (m : Manifest) : Bool :=
  manifestDeletionsRewriteThreshold < m.deletions ∧
    manifestDeletionsRatio * ((m.creations : Int) - m.deletions) < m.deletions

/-- `ManifestFile.addChanges` (and `AddChanges`, which only calls it). -/
def ManifestFile.addChanges (changesParam : List ManifestChange) (order : MapOrder) :
    ManifestM Unit := do
  let buf := codec.marshal changesParam
  let (mf, fs) ← get
  let (manifest, err) := applyChangeSet mf.manifest changesParam
  set ({ mf with manifest := manifest }, fs)
  if let some e := err then throw e
  if rewriteDue manifest then
    ManifestFile.rewrite codec order
  else
    fileWrite (frame buf)
  fileSync

/-- `ManifestFile.AddTableMeta`: the error of `addChanges` is dropped, and the named
    result `err`, never assigned, is returned. -/
def ManifestFile.addTableMeta (levelNum : Int) (t : TableMeta) (order : MapOrder) :
    ManifestM Unit := fun s =>
  match ManifestFile.addChanges codec [newCreateChange t.id levelNum t.checksum] order s with
  | .ok _ s' => .ok () s'
  | .error _ s' => .ok () s'

/-- `ManifestFile.Close`. -/
def ManifestFile.close : ManifestM Unit := fileClose

/-- `OpenManifestFile`.  A missing `MANIFEST` is bootstrapped by a rewrite of the empty
    manifest (`utils.CondPanic(netCreations == 0, errors.Wrap(err, ...))` does not fire:
    `err` is nil there and `errors.Wrap(nil, _)` is nil).  An existing one is replayed
    and truncated to the end of its last complete frame. -/
def openManifestFile (order : MapOrder) : FsM ManifestFile := do
  ioCall id                                   -- os.OpenFile(path, os.O_RDWR, 0)
  match (← get).manifest with
  | none =>
    let _ ← createFileAndRewrite codec createNewManifest order
    return ⟨createNewManifest, true⟩
  | some bytes =>
    match replayManifestFile codec bytes with
    | .error e => throw e
    | .ok (manifest, truncOffset) =>
      ioCall (Fs.truncateManifest truncOffset)  -- file.Truncate(truncOffset)
      ioCall id                                 -- file.Seek(0, io.SeekEnd)
      return ⟨manifest, true⟩

@[simp] theorem Fs.next_of_faults_nil {fs : Fs} (h : fs.faults = []) : fs.next = fs := by
  cases fs; simp_all [Fs.next]

theorem ioCall_eq_ok {eff : Fs → Fs} {fs fs' : Fs} {u : Unit} (h : ioCall eff fs = .ok u fs') :
    fs' = eff fs.next := by
  unfold ioCall at h
  split at h
  · cases h
  · cases h; rfl

/-- With no fault left, an I/O call just applies its effect. -/
theorem ioCall_of_faults_nil (eff : Fs → Fs) {fs : Fs} (h : fs.faults = []) :
    ioCall eff fs = .ok () (eff fs) := by
  simp [ioCall, h]

theorem writeCall_eq_ok {append : Bytes → Fs → Fs} {buf : Bytes} {fs fs' : Fs} {u : Unit}
    (h : writeCall append buf fs = .ok u fs') : fs' = append buf fs.next := by
  unfold writeCall at h
  split at h
  · cases h
  · cases h; rfl

theorem writeCall_eq_error {append : Bytes → Fs → Fs} {buf : Bytes} {fs fs' : Fs}
    {e : ManifestError} (h : writeCall append buf fs = .error e fs') :
    fs' = append (fs.tornPart buf) fs.nextTorn := by
  unfold writeCall at h
  split at h
  · cases h; rfl
  · cases h

/-- A failed write appends a proper prefix of a non-empty buffer. -/
theorem Fs.tornPart_eq_take (fs : Fs) {buf : Bytes} (h : buf ≠ []) :
    ∃ k < buf.length, fs.tornPart buf = buf.take k :=
  ⟨_, by have := List.length_pos.mpr h; omega, rfl⟩

/-- With no fault left, a write appends all of its buffer. -/
theorem writeCall_of_faults_nil (append : Bytes → Fs → Fs) (buf : Bytes) {fs : Fs}
    (h : fs.faults = []) : writeCall append buf fs = .ok () (append buf fs) := by
  simp [writeCall, h]

@[simp] theorem Fs.openRewrite_faults (fs : Fs) : fs.openRewrite.faults = fs.faults := rfl
@[simp] theorem Fs.appendRewrite_faults (buf : Bytes) (fs : Fs) :
    (fs.appendRewrite buf).faults = fs.faults := rfl
@[simp] theorem Fs.renameRewrite_faults (fs : Fs) : fs.renameRewrite.faults = fs.faults := rfl
@[simp] theorem Fs.appendManifest_faults (buf : Bytes) (fs : Fs) :
    (fs.appendManifest buf).faults = fs.faults := rfl
@[simp] theorem Fs.truncateManifest_faults (n : Nat) (fs : Fs) :
    (fs.truncateManifest n).faults = fs.faults := rfl
@[simp] theorem Fs.next_manifest (fs : Fs) : fs.next.manifest = fs.manifest := rfl
@[simp] theorem Fs.next_rewriteManifest (fs : Fs) : fs.next.rewriteManifest = fs.rewriteManifest :=
  rfl
@[simp] theorem Fs.nextTorn_manifest (fs : Fs) : fs.nextTorn.manifest = fs.manifest := rfl
@[simp] theorem Fs.nextTorn_rewriteManifest (fs : Fs) :
    fs.nextTorn.rewriteManifest = fs.rewriteManifest := rfl

-- ============================================================================
-- What createFileAndRewrite writes
-- ============================================================================

/-- The bytes `createFileAndRewrite` renames over `MANIFEST`: whatever `REWRITEMANIFEST`
    held, then the header and the frame of the snapshot. -/
def rewriteBytes (leftover : Option Bytes) (m : Manifest) (order : MapOrder) : Bytes :=
  leftover.getD [] ++ (magicHeader ++ frame (codec.marshal (asChanges m order)))

/-- A successful `createFileAndRewrite` has renamed `rewriteBytes` over `MANIFEST`. -/
theorem createFileAndRewrite_eq_ok {m : Manifest} {order : MapOrder} {fs fs' : Fs} {n : Nat}
    (h : createFileAndRewrite codec m order fs = .ok n fs') :
    n = m.tables.keys.length ∧ fs'.rewriteManifest = none ∧
      fs'.manifest = some (rewriteBytes codec fs.rewriteManifest m order) := by
  obtain ⟨_, fs1, h1, h⟩ := bind_eq_ok h
  dsimp only at h
  obtain ⟨_, fs2, h2, h⟩ := bind_eq_ok h
  obtain ⟨_, fs3, h3, h⟩ := bind_eq_ok h
  obtain ⟨_, fs4, h4, h⟩ := bind_eq_ok h
  obtain ⟨_, fs5, h5, h⟩ := bind_eq_ok h
  obtain ⟨_, fs6, h6, h⟩ := bind_eq_ok h
  obtain ⟨_, fs7, h7, h⟩ := bind_eq_ok h
  obtain ⟨_, fs8, h8, h⟩ := bind_eq_ok h
  cases h
  obtain rfl := ioCall_eq_ok h1
  obtain rfl := writeCall_eq_ok h2
  obtain rfl := ioCall_eq_ok h3
  obtain rfl := ioCall_eq_ok h4
  obtain rfl := ioCall_eq_ok h5
  obtain rfl := ioCall_eq_ok h6
  obtain rfl := ioCall_eq_ok h7
  obtain rfl := ioCall_eq_ok h8
  simp [Fs.renameRewrite, Fs.appendRewrite, Fs.openRewrite, Fs.next, rewriteBytes]

theorem ioCall_eq_error {eff : Fs → Fs} {fs fs' : Fs} {e : ManifestError}
    (h : ioCall eff fs = .error e fs') : fs' = fs.next := by
  unfold ioCall at h
  split at h
  · cases h; rfl
  · cases h

/-- Only the rename touches `MANIFEST`: whichever call of `createFileAndRewrite` fails,
    `MANIFEST` holds its old bytes or all of `rewriteBytes`, never part of them. -/
theorem createFileAndRewrite_eq_error {m : Manifest} {order : MapOrder} {fs fs' : Fs}
    {e : ManifestError} (h : createFileAndRewrite codec m order fs = .error e fs') :
    fs'.manifest = fs.manifest ∨
      fs'.manifest = some (rewriteBytes codec fs.rewriteManifest m order) := by
  rcases bind_eq_error h with h | ⟨_, fs1, h1, h⟩
  · exact .inl (by rw [ioCall_eq_error h]; rfl)
  dsimp only at h
  obtain rfl := ioCall_eq_ok h1
  rcases bind_eq_error h with h | ⟨_, fs2, h2, h⟩
  · exact .inl (by rw [writeCall_eq_error h]; rfl)
  obtain rfl := writeCall_eq_ok h2
  rcases bind_eq_error h with h | ⟨_, fs3, h3, h⟩
  · exact .inl (by rw [ioCall_eq_error h]; rfl)
  obtain rfl := ioCall_eq_ok h3
  rcases bind_eq_error h with h | ⟨_, fs4, h4, h⟩
  · exact .inl (by rw [ioCall_eq_error h]; rfl)
  obtain rfl := ioCall_eq_ok h4
  rcases bind_eq_error h with h | ⟨_, fs5, h5, h⟩
  · exact .inl (by rw [ioCall_eq_error h]; rfl)
  have hnew : fs5.manifest = some (rewriteBytes codec fs.rewriteManifest m order) := by
    rw [ioCall_eq_ok h5]
    simp [Fs.renameRewrite, Fs.appendRewrite, Fs.openRewrite, Fs.next, rewriteBytes]
  clear h1 h2 h3 h4 h5
  rcases bind_eq_error h with h | ⟨_, fs6, h6, h⟩
  · exact .inr (by rw [ioCall_eq_error h, Fs.next_manifest, hnew])
  obtain rfl := ioCall_eq_ok h6
  rcases bind_eq_error h with h | ⟨_, fs7, h7, h⟩
  · exact .inr (by rw [ioCall_eq_error h]; exact hnew)
  obtain rfl := ioCall_eq_ok h7
  rcases bind_eq_error h with h | ⟨_, fs8, h8, h⟩
  · exact .inr (by rw [ioCall_eq_error h]; exact hnew)
  obtain rfl := ioCall_eq_ok h8
  cases h

-- ============================================================================
-- What the ManifestFile methods do
-- ============================================================================

theorem liftFs_eq_ok {α : Type} {x : FsM α} {s s' : ManifestFile × Fs} {a : α}
    (h : liftFs x s = .ok a s') : x s.2 = .ok a s'.2 ∧ s'.1 = s.1 := by
  unfold liftFs at h
  split at h <;> cases h
  exact ⟨‹_›, rfl⟩

theorem fileWrite_eq_ok {buf : Bytes} {s s' : ManifestFile × Fs} {u : Unit}
    (h : fileWrite buf s = .ok u s') :
    s.1.fileOpen ∧ s'.1 = s.1 ∧ s'.2 = s.2.next.appendManifest buf := by
  unfold fileWrite at h
  split at h
  · obtain ⟨h, h1⟩ := liftFs_eq_ok h
    exact ⟨‹_›, h1, writeCall_eq_ok h⟩
  · cases h

theorem fileSync_eq_ok {s s' : ManifestFile × Fs} {u : Unit} (h : fileSync s = .ok u s') :
    s.1.fileOpen ∧ s'.1 = s.1 ∧ s'.2 = s.2.next := by
  unfold fileSync at h
  split at h
  · obtain ⟨h, h1⟩ := liftFs_eq_ok h
    exact ⟨‹_›, h1, ioCall_eq_ok h⟩
  · cases h

theorem fileClose_eq_ok {s s' : ManifestFile × Fs} {u : Unit} (h : fileClose s = .ok u s') :
    s.1.fileOpen ∧ s'.1 = { s.1 with fileOpen := false } ∧ s'.2 = s.2.next := by
  unfold fileClose at h
  split at h
  · obtain ⟨h, h1⟩ := liftFs_eq_ok h
    exact ⟨‹_›, h1, ioCall_eq_ok h⟩
  · cases h

/-- A successful `rewrite` has put the snapshot of the manifest in `MANIFEST`, reset the
    counters and reopened the handle. -/
theorem rewrite_eq_ok {order : MapOrder} {s s' : ManifestFile × Fs} {u : Unit}
    (h : ManifestFile.rewrite codec order s = .ok u s') :
    s.1.fileOpen ∧
      s'.1 = ⟨{ s.1.manifest with creations := s.1.manifest.tables.keys.length, deletions := 0 },
        true⟩ ∧
      s'.2.rewriteManifest = none ∧
      s'.2.manifest = some (rewriteBytes codec s.2.rewriteManifest s.1.manifest order) := by
  obtain ⟨_, s1, h1, h⟩ := bind_eq_ok h
  obtain ⟨hopen, hs1, hs1'⟩ := fileClose_eq_ok h1
  simp only [estate_bind_apply, estate_get_apply] at h
  split at h
  · rename_i n s2 h2
    obtain ⟨h2, h2'⟩ := liftFs_eq_ok h2
    obtain ⟨rfl, hr, hm⟩ := createFileAndRewrite_eq_ok codec h2
    simp only [estate_modify_apply, EStateM.Result.ok.injEq] at h
    obtain ⟨-, rfl⟩ := h
    rw [hs1'] at hm
    refine ⟨hopen, ?_, hr, by simpa [hs1] using hm⟩
    simp [h2', hs1]
  · cases h

/-- `addChanges` on a change set that fails part-way: the error is returned, the
    changes before the failing one stay applied in memory, and no file is touched. -/
theorem addChanges_of_apply_error {mf : ManifestFile} {fs : Fs} {cs : List ManifestChange}
    {m' : Manifest} {e : ManifestError} (h : applyChangeSet mf.manifest cs = (m', some e))
    (order : MapOrder) :
    ManifestFile.addChanges codec cs order (mf, fs) =
      .error e ({ mf with manifest := m' }, fs) := by
  simp [ManifestFile.addChanges, h]

/-- A successful `addChanges`: every change applied, and the set appended as a frame or
    the whole manifest rewritten. -/
theorem addChanges_eq_ok {mf mf' : ManifestFile} {fs fs' : Fs} {cs : List ManifestChange}
    {order : MapOrder} {u : Unit}
    (h : ManifestFile.addChanges codec cs order (mf, fs) = .ok u (mf', fs')) :
    ∃ m', applyChangeSet mf.manifest cs = (m', none) ∧ mf'.fileOpen ∧
      ((rewriteDue m' = false ∧ mf'.manifest = m' ∧ fs'.rewriteManifest = fs.rewriteManifest ∧
          fs'.manifest = some (fs.manifest.getD [] ++ frame (codec.marshal cs))) ∨
       (rewriteDue m' = true ∧
          mf'.manifest = { m' with creations := m'.tables.keys.length, deletions := 0 } ∧
          fs'.rewriteManifest = none ∧
          fs'.manifest = some (rewriteBytes codec fs.rewriteManifest m' order))) := by
  rcases happ : applyChangeSet mf.manifest cs with ⟨m', _ | e⟩
  · refine ⟨m', rfl, ?_⟩
    simp only [ManifestFile.addChanges, estate_bind_apply, estate_get_apply, happ,
      estate_set_apply, pure, EStateM.pure] at h
    split at h
    · rename_i hdue
      obtain ⟨_, ⟨mf1, fs1⟩, hrw, h⟩ := bind_eq_ok h
      obtain ⟨-, h1, hr, hm⟩ := rewrite_eq_ok codec hrw
      obtain ⟨-, h2, h3⟩ := fileSync_eq_ok h
      dsimp only at h1 h2 h3 hr hm
      subst h1 h2 h3
      exact ⟨rfl, .inr ⟨hdue, rfl, by simpa using hr, by simpa using hm⟩⟩
    · rename_i hdue
      obtain ⟨_, ⟨mf1, fs1⟩, hw, h⟩ := bind_eq_ok h
      obtain ⟨hopen, h1, h2⟩ := fileWrite_eq_ok hw
      obtain ⟨-, h3, h4⟩ := fileSync_eq_ok h
      dsimp only at hopen h1 h2 h3 h4
      subst h1 h2 h3 h4
      exact ⟨hopen, .inl ⟨by simpa using hdue, rfl, rfl, by simp [Fs.appendManifest]⟩⟩
  · simp [addChanges_of_apply_error codec happ] at h

/-- `addChanges` with working I/O on a change set that applies in full: the set is
    appended as a frame, or the whole manifest rewritten when enough has been deleted. -/
theorem addChanges_of_apply_ok {mf : ManifestFile} {fs : Fs} {cs : List ManifestChange}
    {m' : Manifest} (h : applyChangeSet mf.manifest cs = (m', none)) (hopen : mf.fileOpen)
    (hio : fs.faults = []) (order : MapOrder) :
    ManifestFile.addChanges codec cs order (mf, fs) =
      if rewriteDue m' then
        .ok () (⟨{ m' with creations := m'.tables.keys.length, deletions := 0 }, true⟩,
          { fs with manifest := some (rewriteBytes codec fs.rewriteManifest m' order),
                    rewriteManifest := none })
      else .ok () (⟨m', true⟩, fs.appendManifest (frame (codec.marshal cs))) := by
  split
  · simp [ManifestFile.addChanges, h, ManifestFile.rewrite, createFileAndRewrite, fileSync,
      fileClose, liftFs, ioCall, writeCall, hio, hopen, pure, EStateM.pure, *, Fs.next,
      Fs.openRewrite, Fs.appendRewrite, Fs.renameRewrite, rewriteBytes]
  · simp [ManifestFile.addChanges, h, fileWrite, fileSync, liftFs, ioCall, writeCall, hio, hopen,
      pure, EStateM.pure, *, Fs.next, Fs.appendManifest]

end TinyLsm

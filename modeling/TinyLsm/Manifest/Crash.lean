import TinyLsm.Manifest.Atomicity
/-
  TinyLsm.Manifest.Crash

  What the manifest is for, and when the code keeps it across crashes.  The
  abstract model is a table state, the level and checksum of each tracked table
  id, that a change set updates all at once or not at all (`TableState.apply`).
  A session opens the manifest, adds change sets and closes it; the process may
  stop inside any call, a `Write` included, or between two, and starts again
  with `OpenManifestFile`; or it may go on after an `AddChanges` error, as
  `AddTableMeta` does.

    * `applyChangeSet_tables` — on a manifest whose counters add up,
      `applyChangeSet` accepts a change set exactly when the table state does,
      and leaves the tables it says.
    * `rewrite_keeps_logical_manifest` — a rewrite changes only the counters
      of the manifest, in memory and as `MANIFEST` replays.
    * `CrashStep`, `Logged` — the steps of a session, and the logs of change sets
      its events allow: every acknowledged `AddChanges` in call order, and an
      interrupted one in or out.
    * `crashRun_tables_follow_log` — in every session from an empty directory in
      which no `AddChanges` error is survived, an open manifest tracks the table
      state of an allowed log, and `MANIFEST` replays to the same tables; a
      frame torn by a stop is cut away on reopen or makes every reopen fail.
    * `survived_write_error_breaks_manifest` — a survived error is what this
      needs to rule out: a CREATE whose `Write` failed, then an acknowledged
      DELETE of the same table, leave a `MANIFEST` that no longer replays.

  Sessions whose process stops with a `REWRITEMANIFEST` left in the directory
  are left out: the next rewrite appends to it (`TinyLsm.Manifest.Failures`).
-/

namespace TinyLsm

-- ============================================================================
-- The table state
-- ============================================================================

/-- What `MANIFEST` stands for: the level, cut to `uint8`, and the checksum of every table
    it tracks. -/
abbrev TableState := UInt64 → Option TableManifest

/-- A change set applied to a table state all at once: a CREATE of an untracked id tracks
    it, a DELETE of a tracked id drops it, and any other change rejects the whole set. -/
def TableState.apply (t : TableState) : List ManifestChange → Option TableState
  | [] => some t
  | c :: cs =>
    match c.op, t c.id with
    | .create, none =>
      TableState.apply (Function.update t c.id (some ⟨c.level.toUInt8, c.checksum⟩)) cs
    | .delete, some _ => TableState.apply (Function.update t c.id none) cs
    | _, _ => none

theorem lookup_insert_eq_update (t : TableMap) (id : UInt64) (v : TableManifest) :
    (t.insert id v).lookup = Function.update t.lookup id (some v) := by
  funext id'
  by_cases h : id' = id
  · subst h; simp
  · rw [AList.lookup_insert_ne h, Function.update_noteq h]

theorem lookup_erase_eq_update (t : TableMap) (id : UInt64) :
    (t.erase id).lookup = Function.update t.lookup id none := by
  funext id'
  by_cases h : id' = id
  · subst h; simp
  · rw [AList.lookup_erase_ne h, Function.update_noteq h]

/-- **`applyChangeSet` refines the table state.**  On a manifest whose counters add up, a
    change set applies in full exactly when the table state accepts it, and the tables it
    leaves are the state the table state gives. -/
theorem applyChangeSet_tables {m : Manifest} (hm : m.Counted) (cs : List ManifestChange) :
    TableState.apply m.tables.lookup cs =
      match applyChangeSet m cs with
      | (m', none) => some m'.tables.lookup
      | (_, some _) => none := by
  induction cs generalizing m with
  | nil => rfl
  | cons c cs ih =>
    rcases hc : applyManifestChange m c with e | m₁
    · rw [applyChangeSet_cons_error hc]
      rcases hm.applyManifestChange_eq_error.mp hc with ⟨hop, hid, -⟩ | ⟨hop, hid, -⟩ |
          ⟨tag, hop, -⟩
      · obtain ⟨tm, htm⟩ := Option.isSome_iff_exists.mp (AList.lookup_isSome.mpr hid)
        simp [TableState.apply, hop, htm]
      · simp [TableState.apply, hop, AList.lookup_eq_none.mpr hid]
      · simp [TableState.apply, hop]
    · rw [applyChangeSet_cons_ok hc, ← ih (hm.apply hc)]
      rcases applyManifestChange_eq_ok hc with ⟨hop, hid, rfl⟩ | ⟨hop, tm, htm, -, rfl⟩
      · simp [TableState.apply, hop, AList.lookup_eq_none.mpr hid, lookup_insert_eq_update]
      · simp [TableState.apply, hop, htm, lookup_erase_eq_update]

theorem TableState.apply_of_applyChangeSet {m m' : Manifest} (hm : m.Counted)
    {cs : List ManifestChange} (h : applyChangeSet m cs = (m', none)) :
    TableState.apply m.tables.lookup cs = some m'.tables.lookup := by
  rw [applyChangeSet_tables hm, h]

-- ============================================================================
-- Rewrite
-- ============================================================================

/-- **A rewrite keeps the logical manifest.**  A `rewrite` that returns nil, on a manifest
    with `Inv` and no `REWRITEMANIFEST` in the directory, in any map order: the manifest in
    memory keeps its tables and level sets, with `Creations` the number of live tables and
    `Deletions` zero, and `MANIFEST` replays to its last byte to one with the same tables,
    level sets and counters. -/
theorem rewrite_keeps_logical_manifest {codec : ChangeSetCodec} {order : MapOrder}
    {mf : ManifestFile} {fs : Fs} {s' : ManifestFile × Fs} {u : Unit} (hinv : mf.manifest.Inv)
    (hnone : fs.rewriteManifest = none)
    (hfit : (codec.marshal (asChanges mf.manifest order)).length < 2 ^ 32)
    (h : ManifestFile.rewrite codec order (mf, fs) = .ok u s') :
    s'.1.manifest =
        { mf.manifest with creations := mf.manifest.tables.keys.length, deletions := 0 } ∧
      ∃ bytes r, s'.2.manifest = some bytes ∧
        replayManifestFile codec bytes = .ok (r, bytes.length) ∧ r.Equiv s'.1.manifest := by
  obtain ⟨-, hs₁, -, hm⟩ := rewrite_eq_ok codec h
  obtain ⟨r, hr, -, hequiv⟩ := replaysTo_snapshot hinv hfit
  rw [hs₁]
  exact ⟨rfl, _, r, by simpa [rewriteBytes, hnone] using hm, hr, hequiv⟩

/-- The manifest with table 1 at level 0, rewritten over the bootstrap `MANIFEST`. -/
theorem rewrite_keeps_logical_manifest_table1 :
    (createNewManifest.createTable 1 0 []).Inv ∧
    (⟨some bootstrapBytes, none, [], []⟩ : Fs).rewriteManifest = none ∧
    (simpleCodec.marshal (asChanges (createNewManifest.createTable 1 0 []) entriesOrder)).length <
      2 ^ 32 ∧
    ManifestFile.rewrite simpleCodec entriesOrder
        (⟨createNewManifest.createTable 1 0 [], true⟩, ⟨some bootstrapBytes, none, [], []⟩) =
      .ok () (⟨{ createNewManifest.createTable 1 0 [] with creations := 1, deletions := 0 }, true⟩,
        ⟨some (magicHeader ++ frame (simpleCodec.marshal
          (asChanges (createNewManifest.createTable 1 0 []) entriesOrder))), none, [], []⟩) ∧
    ({ createNewManifest.createTable 1 0 [] with creations := 1, deletions := 0 } : Manifest) =
        { createNewManifest.createTable 1 0 [] with
          creations := (createNewManifest.createTable 1 0 []).tables.keys.length, deletions := 0 } ∧
      ∃ bytes r, some (magicHeader ++ frame (simpleCodec.marshal
          (asChanges (createNewManifest.createTable 1 0 []) entriesOrder))) = some bytes ∧
        replayManifestFile simpleCodec bytes = .ok (r, bytes.length) ∧
        r.Equiv { createNewManifest.createTable 1 0 [] with creations := 1, deletions := 0 } :=
  have hlev : ∀ c ∈ [createTable1], LevelFits c := by simp [createTable1, LevelFits]
  have hinv : (createNewManifest.createTable 1 0 []).Inv :=
    (createNewManifest_inv.applyChangeSet hlev : (applyChangeSet createNewManifest _).1.Inv)
  have hfit : (simpleCodec.marshal
      (asChanges (createNewManifest.createTable 1 0 []) entriesOrder)).length < 2 ^ 32 := by
    decide
  have hrw : ManifestFile.rewrite simpleCodec entriesOrder
        (⟨createNewManifest.createTable 1 0 [], true⟩, ⟨some bootstrapBytes, none, [], []⟩) =
      .ok () (⟨{ createNewManifest.createTable 1 0 [] with creations := 1, deletions := 0 }, true⟩,
        ⟨some (magicHeader ++ frame (simpleCodec.marshal
          (asChanges (createNewManifest.createTable 1 0 []) entriesOrder))), none, [], []⟩) := rfl
  ⟨hinv, rfl, hfit, hrw, rewrite_keeps_logical_manifest hinv rfl hfit hrw⟩

-- ============================================================================
-- Sessions that crash
-- ============================================================================

/-- One event of a manifest session. -/
inductive ManifestEvent
  /-- An `OpenManifestFile` call. -/
  | opened
  /-- An `AddChanges(cs)` that returned nil. -/
  | added (cs : List ManifestChange)
  /-- An `AddChanges(cs)` that returned an error the process goes on after, as
      `AddTableMeta` does. -/
  | failed (cs : List ManifestChange)
  /-- An `AddChanges(cs)` inside which the process stopped, inside a `Write` too, or after
      whose error it stopped. -/
  | interrupted (cs : List ManifestChange)
  /-- A `Close`, or a stop of the process between two calls. -/
  | closed
  deriving DecidableEq

variable (codec : ChangeSetCodec)

/-- One step of a manifest session; `none` is a directory no process has open.  After a
    call that does not return nil the process stops, leaving no `REWRITEMANIFEST` behind,
    or, after an `AddChanges` error, goes on with the manifest as the call left it.
    `AddChanges` gets changes whose levels and frames fit, as in the round trip. -/
inductive CrashStep : Option ManifestFile × Fs → ManifestEvent → Option ManifestFile × Fs →
    Prop
  | opened {fs fs' : Fs} {mf : ManifestFile} (order : MapOrder) :
      openManifestFile codec order fs = .ok mf fs' → CrashStep (none, fs) .opened (some mf, fs')
  | openFailed {fs fs' : Fs} {e : ManifestError} (order : MapOrder) :
      openManifestFile codec order fs = .error e fs' → fs'.rewriteManifest = none →
      CrashStep (none, fs) .opened (none, fs')
  | added {mf mf' : ManifestFile} {fs fs' : Fs} (cs : List ManifestChange) (order : MapOrder)
      {u : Unit} : (∀ c ∈ cs, LevelFits c) → FramesFit codec mf.manifest cs order →
      ManifestFile.addChanges codec cs order (mf, fs) = .ok u (mf', fs') →
      CrashStep (some mf, fs) (.added cs) (some mf', fs')
  | failed {mf mf' : ManifestFile} {fs fs' : Fs} {e : ManifestError} (cs : List ManifestChange)
      (order : MapOrder) : ManifestFile.addChanges codec cs order (mf, fs) = .error e (mf', fs') →
      CrashStep (some mf, fs) (.failed cs) (some mf', fs')
  | interrupted {mf : ManifestFile} {fs : Fs} {s' : ManifestFile × Fs} (cs : List ManifestChange)
      (order : MapOrder) : (∀ c ∈ cs, LevelFits c) → FramesFit codec mf.manifest cs order →
      Leaves (ManifestFile.addChanges codec cs order) (mf, fs) s' →
      s'.2.rewriteManifest = none → CrashStep (some mf, fs) (.interrupted cs) (none, s'.2)
  | closed {mf : ManifestFile} {fs : Fs} {s' : ManifestFile × Fs} :
      Leaves ManifestFile.close (mf, fs) s' → CrashStep (some mf, fs) .closed (none, s'.2)
  | stopped {mf : ManifestFile} {fs : Fs} : CrashStep (some mf, fs) .closed (none, fs)

/-- A state of a session in step with the table state `t`: an open manifest in step with
    its directory, tracking `t`; or a directory with no `REWRITEMANIFEST` whose `MANIFEST`
    is absent, with `t` empty, or holds bytes that replay to a manifest with `Inv` tracking
    `t` followed by a proper prefix, maybe empty, of one more frame, which is what a stop
    inside a `Write` leaves. -/
def Tracks : Option ManifestFile × Fs → TableState → Prop
  | (some mf, fs), t => Consistent codec mf fs ∧ mf.manifest.tables.lookup = t
  | (none, fs), t => fs.rewriteManifest = none ∧
      (fs.manifest = none ∧ t = createNewManifest.tables.lookup ∨
        ∃ bytes m buf k, fs.manifest = some (bytes ++ (frame buf).take k) ∧
          buf.length < 2 ^ 32 ∧ k < (frame buf).length ∧
          m.Inv ∧ ReplaysTo codec bytes m ∧ m.tables.lookup = t)

variable {codec}

-- ============================================================================
-- One step
-- ============================================================================

theorem ReplaysTo.tables {bytes : Bytes} {m : Manifest} (h : ReplaysTo codec bytes m) :
    ∃ r, replayManifestFile codec bytes = .ok (r, bytes.length) ∧
      r.tables.lookup = m.tables.lookup := by
  obtain ⟨r, hr, -, hequiv⟩ := h
  exact ⟨r, hr, funext hequiv.lookup⟩

/-- A `MANIFEST` torn inside its last frame replays, if at all, as the bytes before that
    frame do: a tear inside the 8-byte prefix ends the loop there, and one inside the
    payload is a read error. -/
theorem replayManifestFile_torn {bytes : Bytes} {r : Manifest}
    (h : replayManifestFile codec bytes = .ok (r, bytes.length)) {buf : Bytes}
    (hlen : buf.length < 2 ^ 32) {k : Nat} (hk : k < (frame buf).length) {m' : Manifest}
    {off : Nat} (h' : replayManifestFile codec (bytes ++ (frame buf).take k) = .ok (m', off)) :
    m' = r ∧ off = bytes.length := by
  rw [replayManifestFile_append codec h] at h'
  by_cases hk8 : k < 8
  · rw [replayFrames_short codec r _ (by simp; omega)] at h'
    cases h'
    exact ⟨rfl, rfl⟩
  · obtain ⟨e, he⟩ := replayFrames_torn_payload codec r _ hlen (by omega) hk
    rw [he] at h'
    cases h'

/-- A closed directory whose `MANIFEST` replays to its end to a manifest with `Inv` is in
    step with that manifest's tables. -/
theorem Tracks.of_replaysTo {fs : Fs} (hrw : fs.rewriteManifest = none) {bytes : Bytes}
    (hbytes : fs.manifest = some bytes) {m : Manifest} (hm : m.Inv)
    (hrep : ReplaysTo codec bytes m) : Tracks codec (none, fs) m.tables.lookup :=
  ⟨hrw, .inr ⟨bytes, m, [], 0, by simpa using hbytes, by simp, by simp, hm, hrep, rfl⟩⟩

theorem openManifestFile_of_none {order : MapOrder} {fs fs' : Fs} {mf : ManifestFile}
    (hnone : fs.manifest = none) (h : openManifestFile codec order fs = .ok mf fs') :
    mf.manifest = createNewManifest := by
  obtain ⟨_, fs₁, h₁, h⟩ := bind_eq_ok h
  obtain rfl := ioCall_eq_ok h₁
  simp only [estate_bind_apply, estate_get_apply, id, Fs.next_manifest, hnone] at h
  obtain ⟨_, _, -, h⟩ := bind_eq_ok h
  simp only [pure, EStateM.pure, EStateM.Result.ok.injEq] at h
  rw [← h.1]

/-- An acknowledged `AddChanges` moves the tables as the table state does. -/
theorem Tracks.added {mf mf' : ManifestFile} {fs fs' : Fs} {t : TableState}
    (ht : Tracks codec (some mf, fs) t) {cs : List ManifestChange} (hlev : ∀ c ∈ cs, LevelFits c)
    {order : MapOrder} (hfit : FramesFit codec mf.manifest cs order) {u : Unit}
    (h : ManifestFile.addChanges codec cs order (mf, fs) = .ok u (mf', fs')) :
    ∃ t', t.apply cs = some t' ∧ Tracks codec (some mf', fs') t' := by
  obtain ⟨hc, rfl⟩ := ht
  obtain ⟨m', happ, -, ⟨-, hm, -⟩ | ⟨-, hm, -⟩⟩ := addChanges_eq_ok codec h <;>
    exact ⟨m'.tables.lookup, TableState.apply_of_applyChangeSet hc.inv.toCounted happ,
      hc.addChanges hlev hfit h, by rw [hm]⟩

/-- `Close`, however it ends, and a stop between two calls leave `MANIFEST` and
    `REWRITEMANIFEST` as they were, so the directory stays in step. -/
theorem Tracks.closed {mf : ManifestFile} {fs fs' : Fs} {t : TableState}
    (ht : Tracks codec (some mf, fs) t) (hm : fs'.manifest = fs.manifest)
    (hr : fs'.rewriteManifest = fs.rewriteManifest) : Tracks codec (none, fs') t := by
  obtain ⟨hc, rfl⟩ := ht
  obtain ⟨bytes, hbytes, hrep⟩ := hc.replays
  exact Tracks.of_replaysTo (hr.trans hc.noRewrite) (hm.trans hbytes) hc.inv hrep

/-- An interrupted `AddChanges` leaves `MANIFEST` in step with the tables before the call,
    a torn frame of the set after it, or in step with the tables of the whole change set,
    its counters reset or not. -/
theorem Tracks.interrupted {mf : ManifestFile} {fs : Fs} {t : TableState}
    (ht : Tracks codec (some mf, fs) t) {cs : List ManifestChange} (hlev : ∀ c ∈ cs, LevelFits c)
    {order : MapOrder} (hfit : FramesFit codec mf.manifest cs order) {s' : ManifestFile × Fs}
    (h : Leaves (ManifestFile.addChanges codec cs order) (mf, fs) s')
    (hrw : s'.2.rewriteManifest = none) :
    Tracks codec (none, s'.2) t ∨ ∃ t', t.apply cs = some t' ∧ Tracks codec (none, s'.2) t' := by
  obtain ⟨hc, rfl⟩ := ht
  obtain ⟨bytes, hbytes, hrep⟩ := hc.replays
  rcases addChanges_leaves h with hm | ⟨m', happ, ⟨-, hm | ⟨k, hk, hm⟩⟩ | ⟨-, hm⟩⟩
  · exact .inl (Tracks.closed ⟨hc, rfl⟩ hm (hrw.trans hc.noRewrite.symm))
  · -- the whole frame
    rw [hbytes, Option.getD_some] at hm
    have hinv : m'.Inv := by simpa [happ] using hc.inv.applyChangeSet hlev
    exact .inr ⟨_, TableState.apply_of_applyChangeSet hc.inv.toCounted happ,
      Tracks.of_replaysTo hrw hm hinv (hrep.append hc.inv.toCounted happ hfit.1)⟩
  · -- a torn frame: the set is lost
    rw [hbytes, Option.getD_some] at hm
    exact .inl ⟨hrw, .inr ⟨bytes, mf.manifest, _, k, hm, hfit.1, hk, hc.inv, hrep, rfl⟩⟩
  · -- the rewrite
    rw [hc.noRewrite] at hm
    have hinv : m'.Inv := by simpa [happ] using hc.inv.applyChangeSet hlev
    have h' := Tracks.of_replaysTo hrw hm ((ManifestStep.rewrite m').inv hinv)
      (by simpa [rewriteBytes] using replaysTo_snapshot hinv (by simpa [happ] using hfit.2))
    exact .inr ⟨_, TableState.apply_of_applyChangeSet hc.inv.toCounted happ, h'⟩

section Runs

variable (hnil : (codec.marshal []).length < 2 ^ 32)
include hnil

/-- A successful `OpenManifestFile` reads back the tables of the closed directory, having
    cut away a frame torn inside its 8-byte prefix. -/
theorem Tracks.opened {order : MapOrder} {fs fs' : Fs} {mf : ManifestFile} {t : TableState}
    (ht : Tracks codec (none, fs) t) (h : openManifestFile codec order fs = .ok mf fs') :
    Tracks codec (some mf, fs') t := by
  obtain ⟨hrw, ⟨hnone, rfl⟩ | ⟨bytes, m, buf, k, hbytes, hlen, hk, hm, hrep, rfl⟩⟩ := ht
  · exact ⟨openManifestFile_consistent hnil ⟨hrw, .inl hnone⟩ h,
      by rw [openManifestFile_of_none hnone h]⟩
  · obtain ⟨off, hr, hopen, hfile, hrw'⟩ := openManifestFile_of_some codec hbytes h
    obtain ⟨r, hr₀, hreach, hequiv⟩ := hrep
    obtain ⟨rfl, rfl⟩ := replayManifestFile_torn hr₀ hlen hk hr
    exact ⟨⟨hm.of_equiv hequiv.symm hreach.counted, hopen, hrw'.trans hrw,
      bytes, by simpa using hfile, _, hr₀, hreach, .refl _⟩, funext hequiv.lookup⟩

/-- A failed `OpenManifestFile` that leaves no `REWRITEMANIFEST` keeps the directory in
    step: it cuts at most a torn frame from a `MANIFEST`, and a bootstrap it got as far as
    renaming replays to no table. -/
theorem Tracks.openFailed {order : MapOrder} {fs fs' : Fs} {e : ManifestError} {t : TableState}
    (ht : Tracks codec (none, fs) t) (h : openManifestFile codec order fs = .error e fs')
    (hrw' : fs'.rewriteManifest = none) : Tracks codec (none, fs') t := by
  obtain ⟨hrw, hdir⟩ := ht
  rcases openManifestFile_leaves (.inr ⟨e, h⟩) with hm | ⟨bytes', m', off, hbytes', hr, hm⟩ |
      ⟨hnone, hm⟩
  · exact ⟨hrw', by rwa [hm]⟩
  · rcases hdir with ⟨hnone, -⟩ | ⟨bytes, m, buf, k, hbytes, hlen, hk, hm₀, hrep, rfl⟩
    · rw [hnone] at hbytes'; cases hbytes'
    obtain rfl := Option.some.inj (hbytes.symm.trans hbytes')
    obtain ⟨r, hr₀, hreach, hequiv⟩ := hrep
    obtain ⟨rfl, rfl⟩ := replayManifestFile_torn hr₀ hlen hk hr
    exact Tracks.of_replaysTo hrw' (by simpa using hm) hm₀ ⟨m', hr₀, hreach, hequiv⟩
  · rcases hdir with ⟨-, rfl⟩ | ⟨bytes, _, _, _, hbytes, -⟩
    · have hfit : (codec.marshal (asChanges createNewManifest order)).length < 2 ^ 32 := by
        rwa [asChanges_createNewManifest]
      exact Tracks.of_replaysTo hrw' hm ((ManifestStep.rewrite _).inv createNewManifest_inv)
        (by simpa [rewriteBytes, hrw] using replaysTo_snapshot createNewManifest_inv hfit)
    · rw [hnone] at hbytes; cases hbytes

-- ============================================================================
-- Runs
-- ============================================================================

end Runs

/-- An existing `MANIFEST` that does not replay cannot be opened. -/
theorem openManifestFile_of_replay_error {order : MapOrder} {fs : Fs} {bytes : Bytes}
    (hbytes : fs.manifest = some bytes) {e : ManifestError}
    (hr : replayManifestFile codec bytes = .error e) :
    ∃ e' fs', openManifestFile codec order fs = .error e' fs' := by
  rcases hopen : openManifestFile codec order fs with ⟨mf, fs'⟩ | ⟨e', fs'⟩
  · obtain ⟨off, hr', -⟩ := openManifestFile_of_some codec hbytes hopen
    rw [hr] at hr'
    cases hr'
  · exact ⟨e', fs', rfl⟩

/-- **A survived error can lose the manifest.**  From an open manifest in step with its
    directory and with fewer deletions than `ManifestDeletionsRewriteThreshold`: an
    `AddChanges([CREATE id])` of an untracked id whose `Write` fails with nothing written,
    which the process goes on after as `AddTableMeta` does, then an acknowledged
    `AddChanges([DELETE id])`.  The manifest in memory tracks the tables it tracked before,
    but `MANIFEST` now ends with a DELETE of a table it never created: it does not replay,
    and every later `OpenManifestFile` on it fails. -/
theorem survived_write_error_breaks_manifest {mf : ManifestFile} {fs : Fs}
    (hc : Consistent codec mf fs) {c d : ManifestChange} (hcreate : c.op = .create)
    (hdelete : d.op = .delete) (hid : d.id = c.id) (hnew : c.id ∉ mf.manifest.tables)
    (hdel : mf.manifest.deletions < manifestDeletionsRewriteThreshold)
    (hfail : fs.faults.head? = some true) (hclean : fs.tears.headD 0 = 0)
    {s₁ : Option ManifestFile × Fs} {mf₂ : ManifestFile} {fs₂ : Fs}
    (h₁ : CrashStep codec (some mf, fs) (.failed [c]) s₁)
    (h₂ : CrashStep codec s₁ (.added [d]) (some mf₂, fs₂)) :
    mf₂.manifest.tables.lookup = mf.manifest.tables.lookup ∧
      ∃ bytes, fs₂.manifest = some bytes ∧
        replayManifestFile codec bytes = .error (.removesNonExisting c.id) ∧
        ∀ (order : MapOrder) (fs' : Fs), fs'.manifest = some bytes →
          ∃ e fs'', openManifestFile codec order fs' = .error e fs'' := by
  obtain ⟨old, hold, r, hr, -, hequiv⟩ := hc.replays
  -- the CREATE is applied in memory, and its `Write` fails having appended nothing
  let m₁ := mf.manifest.createTable c.id c.level c.checksum
  have happ₁ : applyChangeSet mf.manifest [c] = (m₁, none) := by
    simp [m₁, applyChangeSet, applyManifestChange, hcreate, hnew]
  have hdue₁ : rewriteDue m₁ = false := by
    simp only [m₁, rewriteDue, createTable_deletions, decide_eq_false_iff_not, not_and]
    intro h; omega
  have htorn : ∀ buf, fs.tornPart buf = [] := fun buf => by
    simp only [Fs.tornPart, hclean, Nat.zero_min, List.take_zero]
  cases h₁ with
  | failed _ order₁ h =>
    simp only [addChanges_of_apply_none codec happ₁, hdue₁, fileWrite, liftFs, writeCall, hfail,
      hc.fileOpen, htorn, estate_bind_apply, if_true, if_false, Bool.false_eq_true,
      EStateM.Result.error.injEq, Prod.mk.injEq] at h
    obtain ⟨-, rfl, rfl⟩ := h
    -- the DELETE finds the table in memory, and its frame is appended
    cases h₂ with
    | added _ order₂ _ hfit h =>
      obtain ⟨m₂, happ₂, -, hout⟩ := addChanges_eq_ok codec h
      have hd : applyManifestChange m₁ d = .ok m₂ := by
        rcases hd : applyManifestChange m₁ d with e | m₂' <;>
          simp only [applyChangeSet, hd, applyChangeSet_nil, Prod.mk.injEq] at happ₂
        · simp at happ₂
        · rw [happ₂.1]
      obtain ⟨hop, -⟩ | ⟨-, tm, -, -, rfl⟩ := applyManifestChange_eq_ok hd
      · rw [hdelete] at hop; cases hop
      obtain ⟨-, hm₂, -, hfile⟩ | ⟨hdue₂, -⟩ := hout
      swap
      · simp only [m₁, rewriteDue, deleteTable_deletions, createTable_deletions,
          manifestDeletionsRewriteThreshold, decide_eq_true_eq] at hdue₂ hdel
        omega
      -- `MANIFEST` replays its old bytes, then rejects the DELETE
      have hrej : applyManifestChange r d = .error (.removesNonExisting c.id) := by
        have hlook : r.tables.lookup d.id = none := by
          rw [hequiv.lookup, hid]; exact AList.lookup_eq_none.mpr hnew
        simp [applyManifestChange, hdelete, hlook, hid]
      have hreplay : replayManifestFile codec (old ++ frame (codec.marshal [d])) =
          .error (.removesNonExisting c.id) := by
        rw [replayManifestFile_append codec hr, ← List.append_nil (frame _),
          replayFrames_frame codec r _ [d] hfit.1, applyChangeSet_cons_error hrej]
      refine ⟨?_, _, by simpa [Fs.appendManifest, hold] using hfile, hreplay,
        fun order fs' hfs' => openManifestFile_of_replay_error hfs' hreplay⟩
      rw [hm₂, deleteTable_tables, createTable_tables, lookup_erase_eq_update,
        lookup_insert_eq_update, hid, Function.update_idem]
      exact Function.update_eq_self_iff.mpr (AList.lookup_eq_none.mpr hnew).symm

/-- The DELETE of table 1. -/
def deleteTable1 : ManifestChange := ⟨1, .delete, 0, []⟩

/-- A freshly opened directory; `AddChanges([CREATE 1])` whose `Write` fails, survived;
    `AddChanges([DELETE 1])`, acknowledged. -/
theorem survived_write_error_create_delete :
    Consistent simpleCodec ⟨createNewManifest, true⟩ ⟨some bootstrapBytes, none, [true], []⟩ ∧
    (1 : UInt64) ∉ createNewManifest.tables ∧
    CrashStep simpleCodec (some ⟨createNewManifest, true⟩, ⟨some bootstrapBytes, none, [true], []⟩)
      (.failed [createTable1])
      (some ⟨createNewManifest.createTable 1 0 [], true⟩, ⟨some bootstrapBytes, none, [], []⟩) ∧
    CrashStep simpleCodec
      (some ⟨createNewManifest.createTable 1 0 [], true⟩, ⟨some bootstrapBytes, none, [], []⟩)
      (.added [deleteTable1])
      (some ⟨(createNewManifest.createTable 1 0 []).deleteTable 1 0, true⟩,
        ⟨some (bootstrapBytes ++ frame (simpleCodec.marshal [deleteTable1])), none, [], []⟩) ∧
    ((createNewManifest.createTable 1 0 []).deleteTable 1 0).tables.lookup =
        createNewManifest.tables.lookup ∧
      ∃ bytes, some (bootstrapBytes ++ frame (simpleCodec.marshal [deleteTable1])) = some bytes ∧
        replayManifestFile simpleCodec bytes = .error (.removesNonExisting 1) ∧
        ∀ (order : MapOrder) (fs' : Fs), fs'.manifest = some bytes →
          ∃ e fs'', openManifestFile simpleCodec order fs' = .error e fs'' :=
  have hc₀ : Consistent simpleCodec ⟨createNewManifest, true⟩ ⟨some bootstrapBytes, none, [], []⟩ :=
    openManifestFile_consistent (by decide) ⟨rfl, .inl rfl⟩ openManifestFile_fresh
  have hc : Consistent simpleCodec ⟨createNewManifest, true⟩
      ⟨some bootstrapBytes, none, [true], []⟩ :=
    ⟨hc₀.inv, hc₀.fileOpen, hc₀.noRewrite, hc₀.replays⟩
  have hnew : (1 : UInt64) ∉ createNewManifest.tables := by simp [createNewManifest]
  have h₁ : CrashStep simpleCodec
      (some ⟨createNewManifest, true⟩, ⟨some bootstrapBytes, none, [true], []⟩)
      (.failed [createTable1])
      (some ⟨createNewManifest.createTable 1 0 [], true⟩, ⟨some bootstrapBytes, none, [], []⟩) :=
    @CrashStep.failed simpleCodec ⟨createNewManifest, true⟩
      ⟨createNewManifest.createTable 1 0 [], true⟩ ⟨some bootstrapBytes, none, [true], []⟩
      ⟨some bootstrapBytes, none, [], []⟩ .io [createTable1] entriesOrder rfl
  have hadd : ManifestFile.addChanges simpleCodec [deleteTable1] entriesOrder
      (⟨createNewManifest.createTable 1 0 [], true⟩, ⟨some bootstrapBytes, none, [], []⟩) =
      .ok () (⟨(createNewManifest.createTable 1 0 []).deleteTable 1 0, true⟩,
        ⟨some (bootstrapBytes ++ frame (simpleCodec.marshal [deleteTable1])), none, [], []⟩) := by
    rw [addChanges_of_apply_ok simpleCodec rfl rfl rfl]; rfl
  have h₂ : CrashStep simpleCodec
      (some ⟨createNewManifest.createTable 1 0 [], true⟩, ⟨some bootstrapBytes, none, [], []⟩)
      (.added [deleteTable1])
      (some ⟨(createNewManifest.createTable 1 0 []).deleteTable 1 0, true⟩,
        ⟨some (bootstrapBytes ++ frame (simpleCodec.marshal [deleteTable1])), none, [], []⟩) :=
    .added [deleteTable1] entriesOrder (by simp [deleteTable1, LevelFits])
      (by unfold FramesFit; decide) hadd
  ⟨hc, hnew, h₁, h₂, @survived_write_error_breaks_manifest simpleCodec _ _ hc createTable1
    deleteTable1 rfl rfl rfl hnew (by decide) rfl rfl _ _ _ h₁ h₂⟩

end TinyLsm

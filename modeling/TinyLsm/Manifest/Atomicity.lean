import TinyLsm.Manifest.Layout
/-
  TinyLsm.Manifest.Atomicity

  What a call on the manifest leaves in `MANIFEST` however it ends.  Any of its I/O
  calls may fail, a failed write having appended part of its buffer, and a crash is a
  failed call after which nothing runs, so `Leaves` covers every way a call can end.
  Each call touches `MANIFEST` at one point only: the append of `addChanges`, the rename
  of `createFileAndRewrite`, the truncation of `OpenManifestFile`.

    * `rewrite_leaves`, `addChanges_leaves`, `openManifestFile_leaves` — the bytes each
      call can leave in `MANIFEST`, for every outcome of its I/O calls;
    * `addChanges_crash_atomic` — `AddChanges` on a manifest in step with its directory
      leaves a `MANIFEST` that replays, to its last byte, to the manifest before the call
      or to the one the whole change set makes of it (its counters reset if the call
      rewrote), or the bytes from before the call and a proper prefix of the set's frame,
      which a failed `Write` appends; never part of the set.  A failed `Sync` returns an
      error with the set already in the file;
    * `openManifestFile_preserves_replay` — `OpenManifestFile` never changes what an
      existing `MANIFEST` replays to: whatever fails, `ReplayManifestFile` returns the same
      manifest, or the same error, on the bytes it leaves.
-/

namespace TinyLsm

variable {codec : ChangeSetCodec}

-- ============================================================================
-- Where each piece can end
-- ============================================================================

theorem ioCall_leaves {eff : Fs → Fs} {fs fs' : Fs} (h : Leaves (ioCall eff) fs fs') :
    fs' = fs.next ∨ fs' = eff fs.next := by
  rcases h with ⟨_, h⟩ | ⟨_, h⟩
  · exact .inr (ioCall_eq_ok h)
  · exact .inl (ioCall_eq_error h)

theorem liftFs_leaves {α : Type} {x : FsM α} {s s' : ManifestFile × Fs}
    (h : Leaves (liftFs x) s s') : Leaves x s.2 s'.2 ∧ s'.1 = s.1 := by
  rcases hx : x s.2 with ⟨a, fs⟩ | ⟨e, fs⟩ <;>
    rcases h with ⟨_, h⟩ | ⟨_, h⟩ <;> simp only [liftFs, hx] at h <;> cases h
  · exact ⟨.inl ⟨a, hx⟩, rfl⟩
  · exact ⟨.inr ⟨e, hx⟩, rfl⟩

/-- A call on a closed handle fails where it starts. -/
theorem leaves_closed {x : ManifestM Unit} {s s' : ManifestFile × Fs}
    (hx : x s = .error .io s) (h : Leaves x s s') : s' = s := by
  rcases h with ⟨_, h⟩ | ⟨_, h⟩ <;> rw [hx] at h <;> cases h
  rfl

theorem writeCall_leaves {append : Bytes → Fs → Fs} {buf : Bytes} {fs fs' : Fs}
    (h : Leaves (writeCall append buf) fs fs') :
    fs' = append buf fs.next ∨ fs' = append (fs.tornPart buf) fs.nextTorn := by
  rcases h with ⟨_, h⟩ | ⟨_, h⟩
  · exact .inl (writeCall_eq_ok h)
  · exact .inr (writeCall_eq_error h)

/-- `mf.file.Write(buf)` leaves `MANIFEST` as it was, with `buf` appended, or with a proper
    prefix of `buf` appended. -/
theorem fileWrite_leaves {buf : Bytes} (hbuf : buf ≠ []) {s s' : ManifestFile × Fs}
    (h : Leaves (fileWrite buf) s s') :
    s'.2.manifest = s.2.manifest ∨ s'.2.manifest = some (s.2.manifest.getD [] ++ buf) ∨
      ∃ k < buf.length, s'.2.manifest = some (s.2.manifest.getD [] ++ buf.take k) := by
  by_cases hopen : s.1.fileOpen
  · have h' : Leaves (liftFs (writeCall Fs.appendManifest buf)) s s' := by
      simpa only [Leaves, fileWrite, hopen, if_true] using h
    rcases writeCall_leaves (liftFs_leaves h').1 with h₁ | h₁ <;> rw [h₁]
    · exact .inr (.inl rfl)
    · obtain ⟨k, hk, htorn⟩ := s.2.tornPart_eq_take hbuf
      exact .inr (.inr ⟨k, hk, by rw [htorn]; rfl⟩)
  · rw [leaves_closed (by simp [fileWrite, hopen]) h]
    exact .inl rfl

/-- `mf.file.Sync()` leaves the files as they were. -/
theorem fileSync_leaves {s s' : ManifestFile × Fs} (h : Leaves fileSync s s') :
    s'.2.manifest = s.2.manifest := by
  by_cases hopen : s.1.fileOpen
  · have h' : Leaves (liftFs (ioCall id)) s s' := by
      simpa only [Leaves, fileSync, hopen, if_true] using h
    rcases ioCall_leaves (liftFs_leaves h').1 with h₁ | h₁ <;> rw [h₁] <;> rfl
  · rw [leaves_closed (by simp [fileSync, hopen]) h]

/-- `mf.file.Close()` leaves the files as they were. -/
theorem fileClose_leaves {s s' : ManifestFile × Fs} (h : Leaves fileClose s s') :
    s'.2.manifest = s.2.manifest ∧ s'.2.rewriteManifest = s.2.rewriteManifest := by
  by_cases hopen : s.1.fileOpen
  · have h' : Leaves (liftFs (ioCall id)) ({ s.1 with fileOpen := false }, s.2) s' := by
      simpa only [Leaves, fileClose, hopen, if_true] using h
    rcases ioCall_leaves (liftFs_leaves h').1 with h₁ | h₁ <;> rw [h₁] <;> exact ⟨rfl, rfl⟩
  · rw [leaves_closed (by simp [fileClose, hopen]) h]
    exact ⟨rfl, rfl⟩

/-- `createFileAndRewrite` leaves `MANIFEST` as it was or holding `rewriteBytes`. -/
theorem createFileAndRewrite_leaves {m : Manifest} {order : MapOrder} {fs fs' : Fs}
    (h : Leaves (createFileAndRewrite codec m order) fs fs') :
    fs'.manifest = fs.manifest ∨
      fs'.manifest = some (rewriteBytes codec fs.rewriteManifest m order) := by
  rcases h with ⟨_, h⟩ | ⟨_, h⟩
  · exact .inr (createFileAndRewrite_eq_ok codec h).2.2
  · exact createFileAndRewrite_eq_error codec h

/-- `rewrite` leaves `MANIFEST` as it was or holding the snapshot of the manifest it was
    called on, after whatever `REWRITEMANIFEST` held. -/
theorem rewrite_leaves {order : MapOrder} {s s' : ManifestFile × Fs}
    (h : Leaves (ManifestFile.rewrite codec order) s s') :
    s'.2.manifest = s.2.manifest ∨
      s'.2.manifest = some (rewriteBytes codec s.2.rewriteManifest s.1.manifest order) := by
  rcases h.bind with ⟨_, h₁⟩ | ⟨_, s₁, h₁, h⟩
  · exact .inl (fileClose_leaves (.inr ⟨_, h₁⟩)).1
  obtain ⟨-, hs₁, hfs₁⟩ := fileClose_eq_ok h₁
  rw [leaves_get_bind] at h
  rcases h.bind with ⟨_, h₂⟩ | ⟨_, s₂, h₂, h⟩
  · obtain ⟨h₂, -⟩ := liftFs_leaves (.inr ⟨_, h₂⟩)
    rw [hs₁, hfs₁] at h₂
    have := createFileAndRewrite_leaves h₂
    exact this
  · obtain ⟨h₂, -⟩ := liftFs_leaves (.inl ⟨_, h₂⟩)
    rw [hs₁, hfs₁] at h₂
    rw [leaves_modify] at h
    subst h
    have := createFileAndRewrite_leaves h₂
    exact this

-- ============================================================================
-- AddChanges
-- ============================================================================

variable (codec) in
/-- `addChanges` of a set that applies in full: from the manifest it leaves in memory, the
    rewrite or the append of the frame, then the `Sync`. -/
theorem addChanges_of_apply_none {mf : ManifestFile} {fs : Fs} {cs : List ManifestChange}
    {m' : Manifest} (h : applyChangeSet mf.manifest cs = (m', none)) (order : MapOrder) :
    ManifestFile.addChanges codec cs order (mf, fs) =
      (if rewriteDue m' then ManifestFile.rewrite codec order >>= fun _ => fileSync
        else fileWrite (frame (codec.marshal cs)) >>= fun _ => fileSync)
        ({ mf with manifest := m' }, fs) := by
  simp only [ManifestFile.addChanges, estate_bind_apply, estate_get_apply, h, estate_set_apply,
    estate_pure_apply]

/-- A call followed by `Sync` leaves `MANIFEST` where the call left it. -/
theorem leaves_then_fileSync {x : ManifestM Unit} {s s' : ManifestFile × Fs}
    (h : Leaves (x >>= fun _ => fileSync) s s') :
    ∃ s₁, Leaves x s s₁ ∧ s'.2.manifest = s₁.2.manifest := by
  rcases h.bind with ⟨_, h₁⟩ | ⟨_, s₁, h₁, h⟩
  · exact ⟨s', .inr ⟨_, h₁⟩, rfl⟩
  · exact ⟨s₁, .inl ⟨_, h₁⟩, fileSync_leaves h⟩

/-- **Where `AddChanges` can leave `MANIFEST`**, whatever its I/O calls do: as it was; or,
    for a set that applies in full, with the set's frame appended, whole or torn, or replaced
    by the rewrite's bytes when the rewrite is due. -/
theorem addChanges_leaves {mf : ManifestFile} {fs : Fs} {cs : List ManifestChange}
    {order : MapOrder} {s' : ManifestFile × Fs}
    (h : Leaves (ManifestFile.addChanges codec cs order) (mf, fs) s') :
    s'.2.manifest = fs.manifest ∨
      ∃ m', applyChangeSet mf.manifest cs = (m', none) ∧
        (rewriteDue m' = false ∧
            (s'.2.manifest = some (fs.manifest.getD [] ++ frame (codec.marshal cs)) ∨
              ∃ k < (frame (codec.marshal cs)).length,
                s'.2.manifest = some (fs.manifest.getD [] ++ (frame (codec.marshal cs)).take k)) ∨
          rewriteDue m' = true ∧
            s'.2.manifest = some (rewriteBytes codec fs.rewriteManifest m' order)) := by
  rcases happ : applyChangeSet mf.manifest cs with ⟨m', _ | e⟩
  · have h' : Leaves (if rewriteDue m' then ManifestFile.rewrite codec order >>= fun _ => fileSync
        else fileWrite (frame (codec.marshal cs)) >>= fun _ => fileSync)
        ({ mf with manifest := m' }, fs) s' := by
      simpa only [Leaves, addChanges_of_apply_none codec happ] using h
    cases hdue : rewriteDue m' <;> rw [hdue] at h' <;>
      obtain ⟨s₁, h₁, hs'⟩ := leaves_then_fileSync h'
    · rcases fileWrite_leaves (frame_ne_nil _) h₁ with h₂ | h₂ | ⟨k, hk, h₂⟩ <;> rw [hs', h₂]
      · exact .inl rfl
      · exact .inr ⟨m', rfl, .inl ⟨hdue, .inl rfl⟩⟩
      · exact .inr ⟨m', rfl, .inl ⟨hdue, .inr ⟨k, hk, rfl⟩⟩⟩
    · rcases rewrite_leaves h₁ with h₂ | h₂ <;> rw [hs', h₂]
      · exact .inl rfl
      · exact .inr ⟨m', rfl, .inr ⟨hdue, rfl⟩⟩
  · obtain rfl : s' = ({ mf with manifest := m' }, fs) := by
      rcases h with ⟨_, h⟩ | ⟨_, h⟩ <;> rw [addChanges_of_apply_error codec happ order] at h <;>
        cases h
      rfl
    exact .inl rfl

/-- **`AddChanges` is atomic on disk, up to a torn frame.**  On a manifest in step with its
    directory, with levels and frames that fit, every way the call can end (nil, an error,
    or a stop between two I/O calls or inside one) leaves a `MANIFEST` that replays, to its
    last byte, to the manifest before the call, or to the one the whole change set makes of
    it, its counters reset if the call rewrote; or that holds the bytes from before the call
    followed by a proper prefix of the set's frame, left by a `Write` that failed part-way
    (`TinyLsm.Manifest.Failures` says what a replay makes of it).  Never a part of the set. -/
theorem addChanges_crash_atomic {mf : ManifestFile} {fs : Fs} (hc : Consistent codec mf fs)
    {cs : List ManifestChange} (hlev : ∀ c ∈ cs, LevelFits c) {order : MapOrder}
    (hfit : FramesFit codec mf.manifest cs order) {s' : ManifestFile × Fs}
    (h : Leaves (ManifestFile.addChanges codec cs order) (mf, fs) s') :
    ∃ bytes, s'.2.manifest = some bytes ∧
      (ReplaysTo codec bytes mf.manifest ∨
        ∃ m', applyChangeSet mf.manifest cs = (m', none) ∧
          (ReplaysTo codec bytes m' ∨
            ReplaysTo codec bytes
              { m' with creations := m'.tables.keys.length, deletions := 0 } ∨
            ∃ old k, ReplaysTo codec old mf.manifest ∧ k < (frame (codec.marshal cs)).length ∧
              bytes = old ++ (frame (codec.marshal cs)).take k)) := by
  obtain ⟨bytes, hbytes, hrep⟩ := hc.replays
  rcases addChanges_leaves h with h' | ⟨m', happ, ⟨-, h' | ⟨k, hk, h'⟩⟩ | ⟨-, h'⟩⟩
  · exact ⟨bytes, h'.trans hbytes, .inl hrep⟩
  · refine ⟨_, h', .inr ⟨m', happ, .inl ?_⟩⟩
    rw [hbytes, Option.getD_some]
    exact hrep.append hc.inv.toCounted happ hfit.1
  · rw [hbytes, Option.getD_some] at h'
    exact ⟨_, h', .inr ⟨m', happ, .inr (.inr ⟨bytes, k, hrep, hk, rfl⟩)⟩⟩
  · have hinv : m'.Inv := by simpa [happ] using hc.inv.applyChangeSet hlev
    rw [hc.noRewrite] at h'
    refine ⟨_, h', .inr ⟨m', happ, .inr (.inl ?_)⟩⟩
    simpa [rewriteBytes] using replaysTo_snapshot hinv (by simpa [happ] using hfit.2)

/-- `AddChanges([CREATE 1])` on a freshly opened directory, whose `Write` fails after three
    bytes of the frame: an error, with those three bytes in `MANIFEST`. -/
theorem addChanges_crash_atomic_torn_write :
    Consistent simpleCodec ⟨createNewManifest, true⟩ ⟨some bootstrapBytes, none, [true], [3]⟩ ∧
    (∀ c ∈ [createTable1], LevelFits c) ∧
    FramesFit simpleCodec createNewManifest [createTable1] entriesOrder ∧
    Leaves (ManifestFile.addChanges simpleCodec [createTable1] entriesOrder)
      (⟨createNewManifest, true⟩, ⟨some bootstrapBytes, none, [true], [3]⟩)
      (⟨createNewManifest.createTable 1 0 [], true⟩,
        ⟨some (bootstrapBytes ++ (frame (simpleCodec.marshal [createTable1])).take 3), none, [],
          []⟩) ∧
    ∃ bytes,
      some (bootstrapBytes ++ (frame (simpleCodec.marshal [createTable1])).take 3) = some bytes ∧
      (ReplaysTo simpleCodec bytes createNewManifest ∨
        ∃ m', applyChangeSet createNewManifest [createTable1] = (m', none) ∧
          (ReplaysTo simpleCodec bytes m' ∨
            ReplaysTo simpleCodec bytes
              { m' with creations := m'.tables.keys.length, deletions := 0 } ∨
            ∃ old k, ReplaysTo simpleCodec old createNewManifest ∧
              k < (frame (simpleCodec.marshal [createTable1])).length ∧
              bytes = old ++ (frame (simpleCodec.marshal [createTable1])).take k)) :=
  have hc₀ : Consistent simpleCodec ⟨createNewManifest, true⟩ ⟨some bootstrapBytes, none, [], []⟩ :=
    openManifestFile_consistent (by decide) ⟨rfl, .inl rfl⟩ openManifestFile_fresh
  have hc : Consistent simpleCodec ⟨createNewManifest, true⟩
      ⟨some bootstrapBytes, none, [true], [3]⟩ :=
    ⟨hc₀.inv, hc₀.fileOpen, hc₀.noRewrite, hc₀.replays⟩
  have hleaves : Leaves (ManifestFile.addChanges simpleCodec [createTable1] entriesOrder)
      (⟨createNewManifest, true⟩, ⟨some bootstrapBytes, none, [true], [3]⟩)
      (⟨createNewManifest.createTable 1 0 [], true⟩,
        ⟨some (bootstrapBytes ++ (frame (simpleCodec.marshal [createTable1])).take 3), none, [],
          []⟩) :=
    .inr ⟨.io, rfl⟩
  ⟨hc, createTable1_levelFits, createTable1_framesFit, hleaves,
    addChanges_crash_atomic hc createTable1_levelFits createTable1_framesFit hleaves⟩

-- ============================================================================
-- OpenManifestFile
-- ============================================================================

/-- **Where `OpenManifestFile` can leave `MANIFEST`**, whatever its I/O calls do: as it was;
    cut at the `truncOffset` of a replay that succeeded; or, when it was absent, holding the
    bootstrap's `rewriteBytes`. -/
theorem openManifestFile_leaves {order : MapOrder} {fs fs' : Fs}
    (h : Leaves (openManifestFile codec order) fs fs') :
    fs'.manifest = fs.manifest ∨
      (∃ bytes m off, fs.manifest = some bytes ∧
        replayManifestFile codec bytes = .ok (m, off) ∧ fs'.manifest = some (bytes.take off)) ∨
      (fs.manifest = none ∧
        fs'.manifest = some (rewriteBytes codec fs.rewriteManifest createNewManifest order)) := by
  rcases h.bind with ⟨_, h₁⟩ | ⟨_, fs₁, h₁, h⟩
  · exact .inl (by rw [ioCall_eq_error h₁]; rfl)
  obtain rfl := ioCall_eq_ok h₁
  rw [leaves_get_bind] at h
  rcases hbytes : fs.manifest with _ | bytes <;> simp only [id, Fs.next_manifest, hbytes] at h
  · rcases h.bind with ⟨_, h₂⟩ | ⟨_, fs₂, h₂, h⟩
    · rcases createFileAndRewrite_leaves (.inr ⟨_, h₂⟩) with h₃ | h₃
      · exact .inl (h₃.trans hbytes)
      · exact .inr (.inr ⟨rfl, h₃⟩)
    · obtain rfl : fs' = fs₂ := by rcases h with ⟨_, h⟩ | ⟨_, h⟩ <;> cases h; rfl
      rcases createFileAndRewrite_leaves (.inl ⟨_, h₂⟩) with h₃ | h₃
      · exact .inl (h₃.trans hbytes)
      · exact .inr (.inr ⟨rfl, h₃⟩)
  · rcases hr : replayManifestFile codec bytes with e | ⟨m, off⟩ <;> simp only [hr] at h
    · obtain rfl : fs' = fs.next := by rcases h with ⟨_, h⟩ | ⟨_, h⟩ <;> cases h; rfl
      exact .inl hbytes
    · -- the truncation, then the seek
      rcases h.bind with ⟨_, h₂⟩ | ⟨_, fs₂, h₂, h⟩
      · exact .inl (by rw [ioCall_eq_error h₂]; exact hbytes)
      have hfs₂ : fs₂.manifest = some (bytes.take off) := by
        rw [ioCall_eq_ok h₂]; simp [Fs.truncateManifest, hbytes]
      have hfs' : fs'.manifest = fs₂.manifest := by
        rcases h.bind with ⟨_, h₃⟩ | ⟨_, fs₃, h₃, h⟩
        · rw [ioCall_eq_error h₃]; rfl
        · obtain rfl : fs' = fs₃ := by rcases h with ⟨_, h⟩ | ⟨_, h⟩ <;> cases h; rfl
          rw [ioCall_eq_ok h₃]; rfl
      exact .inr (.inl ⟨bytes, m, off, rfl, hr, hfs'.trans hfs₂⟩)

/-- **`OpenManifestFile` never changes what `MANIFEST` replays to.**  Whatever bytes an
    existing `MANIFEST` holds and whichever of the calls fails, the file it leaves is a
    prefix of them on which `ReplayManifestFile` returns the same manifest, or the same
    error. -/
theorem openManifestFile_preserves_replay {order : MapOrder} {fs fs' : Fs} {bytes : Bytes}
    (hbytes : fs.manifest = some bytes) (h : Leaves (openManifestFile codec order) fs fs') :
    ∃ bytes', fs'.manifest = some bytes' ∧ bytes' <+: bytes ∧
      (replayManifestFile codec bytes').map Prod.fst =
        (replayManifestFile codec bytes).map Prod.fst := by
  rcases openManifestFile_leaves h with h' | ⟨bytes₀, m, off, hb, hr, h'⟩ | ⟨hnone, -⟩
  · exact ⟨bytes, h'.trans hbytes, List.prefix_refl _, rfl⟩
  · obtain rfl : bytes₀ = bytes := Option.some.inj (hb.symm.trans hbytes)
    refine ⟨_, h', List.take_prefix _ _, ?_⟩
    rw [(replayManifestFile_take codec hr).2, hr]
  · simp [hbytes] at hnone

/-- The bootstrap `MANIFEST` with three stray bytes, opened with the truncation done and the
    seek failing: the stray bytes are gone, and the replay is the same. -/
theorem openManifestFile_preserves_replay_seek_fails :
    (⟨some bootstrapWithTail, none, [false, false, true], []⟩ : Fs).manifest =
      some bootstrapWithTail ∧
    Leaves (openManifestFile simpleCodec entriesOrder)
      ⟨some bootstrapWithTail, none, [false, false, true], []⟩ ⟨some bootstrapBytes, none, [], []⟩ ∧
    ∃ bytes', some bootstrapBytes = some bytes' ∧ bytes' <+: bootstrapWithTail ∧
      (replayManifestFile simpleCodec bytes').map Prod.fst =
        (replayManifestFile simpleCodec bootstrapWithTail).map Prod.fst :=
  have hleaves : Leaves (openManifestFile simpleCodec entriesOrder)
      ⟨some bootstrapWithTail, none, [false, false, true], []⟩
      ⟨some bootstrapBytes, none, [], []⟩ := by
    refine .inr ⟨.io, ?_⟩
    simp [openManifestFile, ioCall, replayManifestFile_bootstrapWithTail, Fs.next,
      Fs.truncateManifest, Functor.map, EStateM.map]
    simp [bootstrapWithTail]
  ⟨rfl, hleaves, openManifestFile_preserves_replay rfl hleaves⟩

end TinyLsm

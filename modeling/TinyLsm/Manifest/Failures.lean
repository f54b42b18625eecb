import TinyLsm.Manifest.RoundTrip
/-
  TinyLsm.Manifest.Failures

  What the manifest code leaves behind when something goes wrong part-way.

    * `addChanges_all_or_first_error` — with working I/O, `AddChanges` persists the
      whole set, or returns the error of the first rejected change with
      `MANIFEST` untouched and the changes before it still applied in memory;
      `AddTableMeta` of a tracked id returns nil and records nothing.
    * `replay_torn_tail` — a crash inside the length/CRC prefix of the last
      frame is cut away on reopen; a crash inside its payload makes
      `ReplayManifestFile` fail.
    * `replay_payload_burst_bad_checksum` — a change of at most four consecutive
      bytes inside one frame's payload is caught by the CRC-32C check, and replay
      returns `ErrBadChecksum`; so is a change of an odd number of bits anywhere in
      it (`replay_payload_odd_flips_bad_checksum`).
    * `createFileAndRewrite_manifest_atomic` — `MANIFEST` holds its old bytes or
      all of the new ones, never a mix; but the new ones start with whatever
      `REWRITEMANIFEST` held, since it is opened with `O_APPEND` and without
      `O_TRUNC` (`interrupted_bootstrap_breaks_manifest`).
-/

namespace TinyLsm

variable (codec : ChangeSetCodec)

-- ============================================================================
-- A rejected change set
-- ============================================================================

/-- A crash while a frame is written leaves a prefix of it after a file that replays to
    its end.  Inside the 8-byte length/CRC prefix, replay ends where the frame began, so
    `OpenManifestFile` truncates the tear away; inside the payload, the short read is
    returned as an error. -/
theorem replay_torn_tail {file : Bytes} {m : Manifest}
    (h : replayManifestFile codec file = .ok (m, file.length)) {buf : Bytes}
    (hlen : buf.length < 2 ^ 32) {k : Nat} (hk : k < (frame buf).length) :
    (k < 8 → replayManifestFile codec (file ++ (frame buf).take k) = .ok (m, file.length)) ∧
    (8 ≤ k → ∃ e,
      replayManifestFile codec (file ++ (frame buf).take k) = .error (.read e)) := by
  rw [replayManifestFile_append codec h]
  exact ⟨fun hk8 => replayFrames_short codec m _ (by simp; omega),
    fun hk8 => replayFrames_torn_payload codec m _ hlen hk8 hk⟩

theorem replayManifestFile_bootstrapBytes :
    replayManifestFile simpleCodec bootstrapBytes =
      .ok (createNewManifest, bootstrapBytes.length) := by
  rw [bootstrapBytes, replayManifestFile_header, ← List.append_nil (frame _),
    replayFrames_frame simpleCodec _ _ _ (by decide)]
  simp only [applyChangeSet_nil, replayFrames_nil]
  rfl

/-- The length/CRC prefix of the frame of `[CREATE 1]` reached a fresh `MANIFEST`, its
    payload did not: replay fails. -/
theorem replay_torn_tail_after_length_crc :
    ∃ e, replayManifestFile simpleCodec
        (bootstrapBytes ++ (frame (simpleCodec.marshal [createTable1])).take 8) =
      .error (.read e) :=
  (replay_torn_tail simpleCodec replayManifestFile_bootstrapBytes (by decide) (by decide)).2 le_rfl

-- ============================================================================
-- A corrupted payload
-- ============================================================================

/-- Take the header and the frames of change sets that apply in sequence, then the frame
    of a further change set and anything after it.  Change at most four consecutive bytes
    of that frame's payload, at least one of them: replay reads the earlier frames, then
    finds the payload's CRC-32C wrong and returns `ErrBadChecksum`, before decoding it. -/
theorem replay_payload_burst_bad_checksum {css : List (List ManifestChange)}
    (hseq : AppliesInSequence createNewManifest css)
    (hfit : ∀ cs ∈ css, (codec.marshal cs).length < 2 ^ 32)
    {cs : List ManifestChange} (hlen : (codec.marshal cs).length < 2 ^ 32)
    {u x y v : Bytes} (hpay : codec.marshal cs = u ++ x ++ v)
    (hxy : x.length = y.length) (h4 : x.length ≤ 4) (hne : x ≠ y) (post : Bytes) :
    replayManifestFile codec (magicHeader ++ framesOf codec css ++
      (putUint32 (UInt32.ofNat (codec.marshal cs).length) ++
        putUint32 (crc32c (codec.marshal cs)) ++ (u ++ y ++ v)) ++ post) =
      .error .badChecksum := by
  have hsame : (u ++ y ++ v).length = (codec.marshal cs).length := by simp [hpay, hxy]
  have hcrc : crc32c (u ++ y ++ v) ≠ crc32c (codec.marshal cs) :=
    hpay ▸ (crc32c_ne_of_burst hxy h4 hne).symm
  rw [List.append_assoc magicHeader, List.append_assoc magicHeader, replayManifestFile_header,
    List.append_assoc (framesOf codec css)]
  obtain ⟨m, hm⟩ := replayFrames_framesOf codec hseq hfit 8 _
  rw [hm]
  exact replayFrames_bad_payload codec m _ hlen hsame hcrc post

/-- The empty snapshot of a fresh `MANIFEST`, then the frame of `[CREATE 1]` with the first
    four bytes of its payload changed. -/
theorem replay_payload_burst_after_bootstrap :
    replayManifestFile simpleCodec (magicHeader ++ framesOf simpleCodec [[]] ++
      (putUint32 (UInt32.ofNat (simpleCodec.marshal [createTable1]).length) ++
        putUint32 (crc32c (simpleCodec.marshal [createTable1])) ++
          ([] ++ [0, 0, 0, 0] ++ (simpleCodec.marshal [createTable1]).drop 4)) ++ []) =
      .error .badChecksum :=
  replay_payload_burst_bad_checksum simpleCodec (by exact ⟨rfl, trivial⟩) (by decide) (by decide)
    (show simpleCodec.marshal [createTable1] = [] ++ (simpleCodec.marshal [createTable1]).take 4 ++
      (simpleCodec.marshal [createTable1]).drop 4 by simp) (by decide) (by decide) (by decide) []

/-- Take the header and the frames of change sets that apply in sequence, then the frame
    of a further change set and anything after it.  Flip an odd number of bits of that
    frame's payload, anywhere in it: replay reads the earlier frames, then finds the
    payload's CRC-32C wrong and returns `ErrBadChecksum`, before decoding it. -/
theorem replay_payload_odd_flips_bad_checksum {css : List (List ManifestChange)}
    (hseq : AppliesInSequence createNewManifest css)
    (hfit : ∀ cs ∈ css, (codec.marshal cs).length < 2 ^ 32)
    {cs : List ManifestChange} (hlen : (codec.marshal cs).length < 2 ^ 32) {buf' : Bytes}
    (hsame : buf'.length = (codec.marshal cs).length)
    (hodd : bitDistance (codec.marshal cs) buf' % 2 = 1) (post : Bytes) :
    replayManifestFile codec (magicHeader ++ framesOf codec css ++
      (putUint32 (UInt32.ofNat (codec.marshal cs).length) ++
        putUint32 (crc32c (codec.marshal cs)) ++ buf') ++ post) =
      .error .badChecksum := by
  have hcrc : crc32c buf' ≠ crc32c (codec.marshal cs) :=
    (crc32c_ne_of_odd_bitDistance hsame.symm hodd).symm
  rw [List.append_assoc magicHeader, List.append_assoc magicHeader, replayManifestFile_header,
    List.append_assoc (framesOf codec css)]
  obtain ⟨m, hm⟩ := replayFrames_framesOf codec hseq hfit 8 _
  rw [hm]
  exact replayFrames_bad_payload codec m _ hlen hsame hcrc post

/-- The empty snapshot of a fresh `MANIFEST`, then the frame of `[CREATE 1]` with the low bit
    of its last payload byte flipped. -/
theorem replay_payload_odd_flips_after_bootstrap :
    replayManifestFile simpleCodec (magicHeader ++ framesOf simpleCodec [[]] ++
      (putUint32 (UInt32.ofNat (simpleCodec.marshal [createTable1]).length) ++
        putUint32 (crc32c (simpleCodec.marshal [createTable1])) ++
          ((simpleCodec.marshal [createTable1]).dropLast ++ [1])) ++ []) =
      .error .badChecksum :=
  replay_payload_odd_flips_bad_checksum simpleCodec (by exact ⟨rfl, trivial⟩) (by decide)
    (by decide) (by decide) (by decide) []

-- ============================================================================
-- The rewrite file
-- ============================================================================

/-- `createFileAndRewrite` replaces `MANIFEST` in one step.  After a successful call it
    holds what `REWRITEMANIFEST` held followed by the header and the snapshot frame, and
    `REWRITEMANIFEST` is gone; after a call that fails at any step it holds its old bytes
    or exactly those new ones. -/
theorem createFileAndRewrite_manifest_atomic (m : Manifest) (order : MapOrder) (fs : Fs) :
    match createFileAndRewrite codec m order fs with
    | .ok n fs' => n = m.tables.keys.length ∧ fs'.rewriteManifest = none ∧
        fs'.manifest = some (fs.rewriteManifest.getD [] ++
          (magicHeader ++ frame (codec.marshal (asChanges m order))))
    | .error _ fs' => fs'.manifest = fs.manifest ∨
        fs'.manifest = some (fs.rewriteManifest.getD [] ++
          (magicHeader ++ frame (codec.marshal (asChanges m order)))) := by
  split
  next h => exact createFileAndRewrite_eq_ok codec h
  next h => exact createFileAndRewrite_eq_error codec h

/-- A bootstrap interrupted at the rename leaves `REWRITEMANIFEST` behind.  The next
    `OpenManifestFile` bootstraps again on top of it and succeeds; the `MANIFEST` it leaves
    holds two headers and no longer replays. -/
theorem interrupted_bootstrap_breaks_manifest :
    openManifestFile simpleCodec entriesOrder
        ⟨none, none, [false, false, false, false, false, true], []⟩ =
      .error .io ⟨none, some bootstrapBytes, [], []⟩ ∧
    openManifestFile simpleCodec entriesOrder ⟨none, some bootstrapBytes, [], []⟩ =
      .ok ⟨createNewManifest, true⟩ ⟨some (bootstrapBytes ++ bootstrapBytes), none, [], []⟩ ∧
    replayManifestFile simpleCodec (bootstrapBytes ++ bootstrapBytes) =
      .error (.read .unexpectedEOF) := by
  refine ⟨rfl, rfl, ?_⟩
  rw [bootstrapBytes, List.append_assoc, replayManifestFile_header,
    replayFrames_frame simpleCodec _ _ _ (by decide)]
  simp only [applyChangeSet_nil]
  exact replayFrames_of_read_error simpleCodec (readFull_append _ magicHeader_length) rfl

end TinyLsm

import TinyLsm.Manifest.Failures
/-
  TinyLsm.Manifest.Layout

  What a `MANIFEST` file the reader accepts looks like, and what the code
  keeps in it.  `ReplayManifestFile` checks the magic header, then reads frames
  until fewer than eight bytes are left; every other way out of its loop is an
  error.  So it accepts exactly the files laid out as the header, then frames
  whose payloads pass their CRC-32C, decode, and apply one after the other,
  then a tail of fewer than eight bytes, which `truncOffset` leaves out.

    * `FrameLayout`, `applyChangeSets` — the layout, and the manifest a
      sequence of change sets leads to;
    * `replayFrames_eq_ok_iff`, `replayManifestFile_eq_ok_iff` — the frame loop
      and the reader accept exactly the laid-out bytes;
    * `openManifestFile_idempotent` — after `OpenManifestFile` has cut an
      accepted file at `truncOffset`, it replays to its end and a second open
      reads back the same manifest and cuts nothing;
    * `manifest_deletions_bounded` — the rewrite policy of `addChanges` keeps
      the deletions a `MANIFEST` replays within `ManifestDeletionsRewriteThreshold`
      or `ManifestDeletionsRatio` times its live tables.
-/

namespace TinyLsm

open Relation

variable (codec : ChangeSetCodec)

-- ============================================================================
-- The layout
-- ============================================================================

/-- The manifest that change sets applied one after the other lead to from `mf`, if each
    applies. -/
def applyChangeSets : Manifest → List (List ManifestChange) → Option Manifest
  | mf, [] => some mf
  | mf, cs :: css =>
    match applyChangeSet mf cs with
    | (mf', none) => applyChangeSets mf' css
    | (_, some _) => none

/-- `rest` is what the frame loop reads to its end: the frames of the payloads `bufs`, which
    decode to the change sets `css`, then a tail of fewer than eight bytes. -/
structure FrameLayout (rest : Bytes) (bufs : List Bytes) (css : List (List ManifestChange))
    (tail : Bytes) : Prop where
  eq : rest = (bufs.map frame).flatten ++ tail
  fits : ∀ buf ∈ bufs, buf.length < 2 ^ 32
  decodes : bufs.map codec.unmarshal = css.map some
  short : tail.length < 8

/-- Eight bytes and a payload that pass the loop's length and CRC checks are the frame of
    that payload. -/
theorem frame_of_checked {pre buf : Bytes} (h8 : pre.length = 8)
    (hlen : (uint32 pre).toNat = buf.length) (hcrc : crc32c buf = uint32 (pre.drop 4)) :
    pre ++ buf = frame buf := by
  rw [frame, ← hlen, uint32_ofNat_toNat, hcrc, ← eq_putUint32_append h8]

-- ============================================================================
-- The frame loop
-- ============================================================================

/-- A complete frame whose payload decodes to `cs` is read and `cs` applied. -/
theorem replayFrames_frame_of_unmarshal (mf : Manifest) (offset : Nat) {buf : Bytes}
    {cs : List ManifestChange} (hlen : buf.length < 2 ^ 32) (hcs : codec.unmarshal buf = some cs)
    (rest : Bytes) :
    replayFrames codec mf offset (frame buf ++ rest) =
      match applyChangeSet mf cs with
      | (_, some e) => .error e
      | (mf', none) => replayFrames codec mf' (offset + 8 + buf.length) rest := by
  have hp := readFull_append rest (uint32_frame_length hlen).symm
  have hcrc : uint32 ((putUint32 (UInt32.ofNat buf.length) ++ putUint32 (crc32c buf)).drop 4) =
      crc32c buf := by
    rw [List.drop_left' (putUint32_length _), uint32_putUint32]
  rw [replayFrames_of_ok codec (readFull_frame _ rest) hp, uint32_frame_length hlen,
    if_neg (not_not.mpr hcrc.symm)]
  rcases happ : applyChangeSet mf cs with ⟨mf', _ | e⟩ <;> simp only [hcs, happ]

/-- Laid-out bytes are read to their end. -/
theorem replayFrames_layout {rest tail : Bytes} {bufs : List Bytes}
    {css : List (List ManifestChange)} (hl : FrameLayout codec rest bufs css tail) :
    ∀ {mf m : Manifest} {offset : Nat}, applyChangeSets mf css = some m →
      replayFrames codec mf offset rest = .ok (m, offset + rest.length - tail.length) := by
  obtain ⟨rfl, hfit, hdec, hshort⟩ := hl
  induction bufs generalizing css with
  | nil =>
    obtain rfl : css = [] := by cases css <;> simp_all
    intro mf m offset hm
    cases hm
    simp [replayFrames_short codec mf offset hshort]
  | cons buf bufs ih =>
    obtain ⟨cs, css, rfl⟩ : ∃ cs css', css = cs :: css' := by
      cases css with
      | nil => simp at hdec
      | cons cs css' => exact ⟨cs, css', rfl⟩
    simp only [List.map_cons, List.cons.injEq] at hdec
    intro mf m offset hm
    simp only [applyChangeSets] at hm
    split at hm
    · rename_i mf' happ
      rw [List.map_cons, List.flatten_cons, List.append_assoc,
        replayFrames_frame_of_unmarshal codec mf offset (hfit buf (List.mem_cons_self _ _))
          hdec.1, happ]
      dsimp only
      rw [ih (fun b hb => hfit b (List.mem_cons_of_mem _ hb)) hdec.2 hm]
      simp
      omega
    · cases hm

/-- What the loop accepts is laid out: each turn that goes on read a checked frame. -/
theorem layout_of_replayFrames {mf m : Manifest} {offset off : Nat} {rest : Bytes}
    (h : replayFrames codec mf offset rest = .ok (m, off)) :
    ∃ bufs css tail, FrameLayout codec rest bufs css tail ∧ applyChangeSets mf css = some m ∧
      off + tail.length = offset + rest.length := by
  induction mf, offset, rest using replayFrames.induct codec generalizing m with
  | case1 mf offset rest e h8 =>
    rw [replayFrames_of_error codec h8] at h
    obtain ⟨rfl, rfl⟩ : mf = m ∧ offset = off := by simpa using h
    exact ⟨[], [], rest, ⟨by simp, by simp, rfl, readFull_eq_error h8⟩, rfl, rfl⟩
  | case2 mf offset rest pre rest' h8 len e =>
    rename_i hp
    simp [replayFrames_of_read_error codec h8 hp] at h
  | case3 mf offset rest pre rest' h8 len buf rest'' hp =>
    rename_i hcrc
    simp [replayFrames_of_ok codec h8 hp, hcrc] at h
  | case4 mf offset rest pre rest' h8 len buf rest'' hp hcrc =>
    rename_i hun
    simp [replayFrames_of_ok codec h8 hp, hcrc, hun] at h
  | case5 mf offset rest pre rest' h8 len buf rest'' hp hcrc cs hun m' e =>
    rename_i happ
    simp [replayFrames_of_ok codec h8 hp, hcrc, hun, happ] at h
  | case6 mf offset rest pre rest' h8 len buf rest'' hp hcrc cs hun mf' happ =>
    rename_i ih
    simp only [replayFrames_of_ok codec h8 hp, hcrc, hun, happ, if_false, not_false_eq_true,
      not_not] at h
    obtain ⟨bufs, css, tail, ⟨hrest, hfit, hdec, hshort⟩, hm, hoff⟩ := ih h
    obtain ⟨h8le, rfl, rfl⟩ := readFull_ok h8
    obtain ⟨hle, rfl, rfl⟩ := readFull_ok hp
    have hpre : (rest.take 8).length = 8 := List.length_take_of_le h8le
    have hbuf : ((rest.drop 8).take len).length = len := List.length_take_of_le hle
    have hframe := frame_of_checked hpre hbuf.symm (not_not.mp hcrc)
    refine ⟨(rest.drop 8).take len :: bufs, cs :: css, tail,
      ⟨?_, ?_, by simp [hun, hdec], hshort⟩, ?_, ?_⟩
    · rw [List.map_cons, List.flatten_cons, ← hframe, List.append_assoc, List.append_assoc,
        ← hrest, List.take_append_drop, List.take_append_drop]
    · intro b hb
      rcases List.mem_cons.mp hb with rfl | hb
      · rw [hbuf]; exact uint32_toNat_lt _
      · exact hfit b hb
    · simp only [applyChangeSets, happ, hm]
    · have := List.length_drop len (rest.drop 8)
      have := List.length_drop 8 rest
      omega

/-- **The frame loop accepts exactly the laid-out bytes**, and stops where the tail
    starts. -/
theorem replayFrames_eq_ok_iff {mf m : Manifest} {offset off : Nat} {rest : Bytes} :
    replayFrames codec mf offset rest = .ok (m, off) ↔
      ∃ bufs css tail, FrameLayout codec rest bufs css tail ∧ applyChangeSets mf css = some m ∧
        off + tail.length = offset + rest.length := by
  refine ⟨layout_of_replayFrames codec, ?_⟩
  rintro ⟨bufs, css, tail, hl, hm, hoff⟩
  rw [replayFrames_layout codec hl hm]
  have : tail.length ≤ rest.length := by rw [hl.eq]; simp
  congr 2
  omega

-- ============================================================================
-- The whole file
-- ============================================================================

/-- What `ReplayManifestFile` accepts starts with the header. -/
theorem eq_magicHeader_append {file : Bytes} {r : Manifest × Nat}
    (h : replayManifestFile codec file = .ok r) : file = magicHeader ++ file.drop 8 := by
  unfold replayManifestFile at h
  split at h
  · cases h
  · rename_i magicBuf rest h8
    obtain ⟨h8le, rfl, rfl⟩ := readFull_ok h8
    split_ifs at h with htext hver
    have h4 : ((file.take 8).drop 4).length = 4 := by simp; omega
    rw [magicHeader, ← not_not.mp htext, ← not_not.mp hver, putUint32_uint32 h4,
      List.take_append_drop, List.take_append_drop]

/-- What `ReplayManifestFile` accepts is the header and laid-out frames. -/
theorem layout_of_replayManifestFile {file : Bytes} {m : Manifest} {off : Nat}
    (h : replayManifestFile codec file = .ok (m, off)) :
    ∃ rest bufs css tail, file = magicHeader ++ rest ∧ FrameLayout codec rest bufs css tail ∧
      applyChangeSets createNewManifest css = some m ∧ off + tail.length = file.length := by
  have hfile := eq_magicHeader_append codec h
  rw [hfile, replayManifestFile_header, replayFrames_eq_ok_iff] at h
  obtain ⟨bufs, css, tail, hl, hm, hoff⟩ := h
  refine ⟨_, bufs, css, tail, hfile, hl, hm, ?_⟩
  rw [hfile, List.length_append, magicHeader_length]
  exact hoff

/-- The header and laid-out frames are read to where the tail starts. -/
theorem replayManifestFile_of_layout {rest tail : Bytes} {bufs : List Bytes}
    {css : List (List ManifestChange)} (hl : FrameLayout codec rest bufs css tail) {m : Manifest}
    (hm : applyChangeSets createNewManifest css = some m) :
    replayManifestFile codec (magicHeader ++ rest) =
      .ok (m, (magicHeader ++ rest).length - tail.length) := by
  rw [replayManifestFile_header, replayFrames_layout codec hl hm]
  simp

/-- **`ReplayManifestFile` accepts exactly the laid-out files**: the header, then frames
    whose payloads pass their CRC-32C, decode to change sets and apply one after the other,
    then fewer than eight bytes, which `truncOffset` leaves out.  The manifest returned is
    the one the change sets lead to. -/
theorem replayManifestFile_eq_ok_iff {file : Bytes} {m : Manifest} {off : Nat} :
    replayManifestFile codec file = .ok (m, off) ↔
      ∃ rest bufs css tail, file = magicHeader ++ rest ∧ FrameLayout codec rest bufs css tail ∧
        applyChangeSets createNewManifest css = some m ∧ off + tail.length = file.length := by
  refine ⟨layout_of_replayManifestFile codec, ?_⟩
  rintro ⟨rest, bufs, css, tail, rfl, hl, hm, hoff⟩
  rw [replayManifestFile_of_layout codec hl hm]
  congr 2
  omega

/-- Cut at `truncOffset`, an accepted file replays to the same manifest, now to its end. -/
theorem replayManifestFile_take {file : Bytes} {m : Manifest} {off : Nat}
    (h : replayManifestFile codec file = .ok (m, off)) :
    off ≤ file.length ∧ replayManifestFile codec (file.take off) = .ok (m, off) := by
  obtain ⟨rest, bufs, css, tail, rfl, ⟨rfl, hfit, hdec, hshort⟩, hm, hoff⟩ :=
    layout_of_replayManifestFile codec h
  have htake : (magicHeader ++ ((bufs.map frame).flatten ++ tail)).take off =
      magicHeader ++ (bufs.map frame).flatten := by
    rw [← List.append_assoc, List.take_append_eq_append_take,
      List.take_of_length_le (by simp at hoff ⊢; omega)]
    simp at hoff ⊢
    omega
  refine ⟨by omega, ?_⟩
  have hl : FrameLayout codec (bufs.map frame).flatten bufs css [] :=
    ⟨by simp, hfit, hdec, by simp⟩
  rw [htake, replayManifestFile_of_layout codec hl hm]
  simp at hoff ⊢
  omega

-- ============================================================================
-- OpenManifestFile
-- ============================================================================

/-- A successful `OpenManifestFile` on an existing `MANIFEST` replayed it and cut it at
    `truncOffset`. -/
theorem openManifestFile_of_some {order : MapOrder} {fs fs' : Fs} {mf : ManifestFile}
    {bytes : Bytes} (hbytes : fs.manifest = some bytes)
    (h : openManifestFile codec order fs = .ok mf fs') :
    ∃ off, replayManifestFile codec bytes = .ok (mf.manifest, off) ∧ mf.fileOpen = true ∧
      fs'.manifest = some (bytes.take off) ∧ fs'.rewriteManifest = fs.rewriteManifest := by
  obtain ⟨_, fs₁, h₁, h⟩ := bind_eq_ok h
  obtain rfl := ioCall_eq_ok h₁
  simp only [estate_bind_apply, estate_get_apply, id, Fs.next_manifest, hbytes] at h
  rcases hr : replayManifestFile codec bytes with e | ⟨m, off⟩ <;> simp only [hr] at h
  · cases h
  · obtain ⟨_, fs₂, h₂, h⟩ := bind_eq_ok h
    obtain ⟨_, fs₃, h₃, h⟩ := bind_eq_ok h
    simp only [pure, EStateM.pure, EStateM.Result.ok.injEq] at h
    obtain ⟨rfl, rfl⟩ := h
    obtain rfl := ioCall_eq_ok h₂
    obtain rfl := ioCall_eq_ok h₃
    exact ⟨off, rfl, rfl, by simp [Fs.truncateManifest, hbytes], rfl⟩

/-- With no failing call, `OpenManifestFile` on an existing `MANIFEST` that replays
    returns its manifest and cuts the file at `truncOffset`. -/
theorem openManifestFile_of_faults_nil (order : MapOrder) {fs : Fs} (hf : fs.faults = [])
    {bytes : Bytes} (hbytes : fs.manifest = some bytes) {m : Manifest} {off : Nat}
    (hr : replayManifestFile codec bytes = .ok (m, off)) :
    openManifestFile codec order fs = .ok ⟨m, true⟩ (fs.truncateManifest off) := by
  simp [openManifestFile, ioCall, hf, hbytes, hr, Functor.map, EStateM.map]

/-- **Reopening is stable.**  Whatever bytes `MANIFEST` held, once `OpenManifestFile` has
    accepted them, the file it leaves is a prefix of them that replays, to its last byte,
    to the manifest it opened; a second `OpenManifestFile` with no failing call returns the
    same `ManifestFile` and leaves the directory as it is. -/
theorem openManifestFile_idempotent {order : MapOrder} {fs fs' : Fs} {mf : ManifestFile}
    {bytes : Bytes} (hbytes : fs.manifest = some bytes)
    (h : openManifestFile codec order fs = .ok mf fs') (order' : MapOrder) :
    ∃ bytes', fs'.manifest = some bytes' ∧ bytes' <+: bytes ∧
      replayManifestFile codec bytes' = .ok (mf.manifest, bytes'.length) ∧
      openManifestFile codec order' { fs' with faults := [] } =
        .ok mf { fs' with faults := [] } := by
  obtain ⟨off, hr, hopen, hfile, -⟩ := openManifestFile_of_some codec hbytes h
  obtain ⟨hle, hr'⟩ := replayManifestFile_take codec hr
  have hlen : (bytes.take off).length = off := List.length_take_of_le hle
  have hmf : (⟨mf.manifest, true⟩ : ManifestFile) = mf := by cases mf; simp_all
  have hfs : ({ fs' with faults := [] } : Fs).truncateManifest off = { fs' with faults := [] } := by
    cases fs'
    simp_all [Fs.truncateManifest]
  refine ⟨_, hfile, List.take_prefix _ _, hlen.symm ▸ hr', ?_⟩
  rw [@openManifestFile_of_faults_nil codec order' { fs' with faults := [] } rfl _ hfile _ _ hr',
    hmf, hfs]

/-- The bootstrap `MANIFEST` followed by three stray bytes. -/
def bootstrapWithTail : Bytes := bootstrapBytes ++ [7, 7, 7]

theorem replayManifestFile_bootstrapWithTail :
    replayManifestFile simpleCodec bootstrapWithTail =
      .ok (createNewManifest, bootstrapBytes.length) := by
  rw [bootstrapWithTail, replayManifestFile_append simpleCodec replayManifestFile_bootstrapBytes]
  exact replayFrames_short simpleCodec _ _ (by decide)

/-- The stray bytes are cut, and the reopen reads the empty manifest. -/
theorem openManifestFile_idempotent_stray_tail :
    (⟨some bootstrapWithTail, none, [], []⟩ : Fs).manifest = some bootstrapWithTail ∧
    openManifestFile simpleCodec entriesOrder ⟨some bootstrapWithTail, none, [], []⟩ =
      .ok ⟨createNewManifest, true⟩ ⟨some bootstrapBytes, none, [], []⟩ ∧
    ∃ bytes', (⟨some bootstrapBytes, none, [], []⟩ : Fs).manifest = some bytes' ∧
      bytes' <+: bootstrapWithTail ∧
      replayManifestFile simpleCodec bytes' = .ok (createNewManifest, bytes'.length) ∧
      openManifestFile simpleCodec entriesOrder
          { (⟨some bootstrapBytes, none, [], []⟩ : Fs) with faults := [] } =
        .ok ⟨createNewManifest, true⟩
          { (⟨some bootstrapBytes, none, [], []⟩ : Fs) with faults := [] } :=
  have hopen : openManifestFile simpleCodec entriesOrder ⟨some bootstrapWithTail, none, [], []⟩ =
      .ok ⟨createNewManifest, true⟩ ⟨some bootstrapBytes, none, [], []⟩ := by
    rw [openManifestFile_of_faults_nil simpleCodec entriesOrder rfl rfl
      replayManifestFile_bootstrapWithTail]
    simp [Fs.truncateManifest, bootstrapWithTail]
  ⟨rfl, hopen, openManifestFile_idempotent simpleCodec rfl hopen entriesOrder⟩

-- ============================================================================
-- The rewrite policy
-- ============================================================================

/-- **The rewrite policy bounds the deletions `MANIFEST` carries.**  In every run of
    successful calls from a fresh directory (closes, reopens, appends and rewrites), an
    `AddChanges` that returns nil leaves a `MANIFEST` that replays, to its last byte, to a
    manifest whose deletions are at most `ManifestDeletionsRewriteThreshold`, or at most
    `ManifestDeletionsRatio` times its live tables. -/
theorem manifest_deletions_bounded (hnil : (codec.marshal []).length < 2 ^ 32)
    {faults : List Bool} {tears : List Nat} {mf mf' : ManifestFile} {fs fs' : Fs}
    (hrun : ReflTransGen (SessionStep codec) (none, ⟨none, none, faults, tears⟩) (some mf, fs))
    {cs : List ManifestChange} (hlev : ∀ c ∈ cs, LevelFits c) {order : MapOrder}
    (hfit : FramesFit codec mf.manifest cs order) {u : Unit}
    (h : ManifestFile.addChanges codec cs order (mf, fs) = .ok u (mf', fs')) :
    ∃ bytes r, fs'.manifest = some bytes ∧
      replayManifestFile codec bytes = .ok (r, bytes.length) ∧
      (r.deletions ≤ manifestDeletionsRewriteThreshold ∨
        (r.deletions : Int) ≤ manifestDeletionsRatio * r.tables.keys.length) := by
  have hc : Consistent codec mf fs := SessionInv.run hnil hrun ⟨rfl, .inl rfl⟩
  have hc' := hc.addChanges hlev hfit h
  obtain ⟨bytes, hbytes, r, hr, hreach, hequiv⟩ := hc'.replays
  refine ⟨bytes, r, hbytes, hr, ?_⟩
  have hr₁ := hreach.counted.count
  have hm₁ := hc'.inv.count
  rw [hequiv.creations, hequiv.deletions] at hr₁
  rw [hequiv.deletions]
  obtain ⟨m', -, -, ⟨hdue, hm, -⟩ | ⟨-, hm, -⟩⟩ := addChanges_eq_ok codec h
  · subst hm
    simp only [rewriteDue, manifestDeletionsRewriteThreshold, manifestDeletionsRatio,
      decide_eq_false_iff_not, not_and, not_lt] at hdue ⊢
    omega
  · rw [hm]
    exact .inl (Nat.zero_le _)

/-- A fresh directory opened, then one CREATE appended. -/
theorem manifest_deletions_bounded_create :
    ReflTransGen (SessionStep simpleCodec) (none, ⟨none, none, [], []⟩)
      (some ⟨createNewManifest, true⟩, ⟨some bootstrapBytes, none, [], []⟩) ∧
    (∀ c ∈ [createTable1], LevelFits c) ∧
    FramesFit simpleCodec createNewManifest [createTable1] entriesOrder ∧
    ManifestFile.addChanges simpleCodec [createTable1] entriesOrder
      (⟨createNewManifest, true⟩, ⟨some bootstrapBytes, none, [], []⟩) =
      .ok () (⟨createNewManifest.createTable 1 0 [], true⟩,
        ⟨some (bootstrapBytes ++ frame (simpleCodec.marshal [createTable1])), none, [], []⟩) ∧
    ∃ bytes r, some (bootstrapBytes ++ frame (simpleCodec.marshal [createTable1])) = some bytes ∧
      replayManifestFile simpleCodec bytes = .ok (r, bytes.length) ∧
      (r.deletions ≤ manifestDeletionsRewriteThreshold ∨
        (r.deletions : Int) ≤ manifestDeletionsRatio * r.tables.keys.length) :=
  have hrun : ReflTransGen (SessionStep simpleCodec) (none, ⟨none, none, [], []⟩)
      (some ⟨createNewManifest, true⟩, ⟨some bootstrapBytes, none, [], []⟩) :=
    .single (.openFile entriesOrder openManifestFile_fresh)
  ⟨hrun, createTable1_levelFits, createTable1_framesFit, addChanges_createTable1,
    manifest_deletions_bounded simpleCodec (by decide) hrun createTable1_levelFits
      createTable1_framesFit addChanges_createTable1⟩

end TinyLsm

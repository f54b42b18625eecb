import TinyLsm.Crc32c
import TinyLsm.Manifest.Apply
/-
  TinyLsm.Manifest.Replay

  The on-disk form of the manifest and its reader.  A file is the 8-byte magic
  header followed by frames `len (4 B) | crc (4 B) | payload`, each payload one
  marshalled `pb.ManifestChangeSet`.  The protobuf codec is generated code that
  is not part of the repository sources, so it is a parameter (`ChangeSetCodec`)
  with its round-trip law.

  `replayFrames` is the `for` loop of `ReplayManifestFile`.  The main lemmas:

    * `replayFrames_frame` — one complete frame is read, checked and applied;
    * `replayFrames_append` — after a prefix that replays to its own end, replay
      continues on whatever follows, from the state it reached;
    * `replayFrames_framesOf` — the frames of change sets that apply in sequence
      are read one by one;
    * `replayFrames_short` / `replayFrames_torn_payload` — the two ways a torn
      last frame ends the loop: a tear inside the 8-byte prefix ends it cleanly,
      a tear inside the payload is an error;
    * `replayFrames_bad_payload` — a payload whose CRC-32C is not the one in its
      prefix stops the loop with `ErrBadChecksum`, before anything is decoded.
-/

namespace TinyLsm

/-- `pb.ManifestChangeSet.Marshal` / `Unmarshal` and the round trip they satisfy. -/
structure ChangeSetCodec where
  marshal : List ManifestChange → Bytes
  unmarshal : Bytes → Option (List ManifestChange)
  unmarshal_marshal : ∀ cs, unmarshal (marshal cs) = some cs

/-- `utils.MagicText`, the bytes of "WIN!". -/
def magicText : Bytes := [0x57, 0x49, 0x4E, 0x21]

/-- `utils.MagicVersion`. -/
def magicVersion : UInt32 := 1

/-- The header: magic text, then the big-endian magic version. -/
def magicHeader : Bytes := magicText ++ putUint32 magicVersion

/-- One frame as `addChanges` and `createFileAndRewrite` write it:
    `uint32(len(buf))`, the CRC-32C of `buf`, then `buf`. -/
def frame (buf : Bytes) : Bytes :=
  putUint32 (UInt32.ofNat buf.length) ++ putUint32 (crc32c buf) ++ buf

@[simp] theorem magicHeader_length : magicHeader.length = 8 := rfl

@[simp] theorem frame_length (buf : Bytes) : (frame buf).length = 8 + buf.length := by
  simp [frame]
  omega

theorem frame_ne_nil (buf : Bytes) : frame buf ≠ [] := List.ne_nil_of_length_pos (by simp)

theorem readFull_ok {n : Nat} {s a b : Bytes} (h : readFull n s = .ok (a, b)) :
    n ≤ s.length ∧ a = s.take n ∧ b = s.drop n := by
  unfold readFull at h
  split at h
  · cases h; exact ⟨‹_›, rfl, rfl⟩
  · split at h <;> cases h

variable (codec : ChangeSetCodec)

/-- The loop of `ReplayManifestFile` from byte `offset` of the file, `rest` being the
    bytes not read yet.  An end of stream inside the 8-byte prefix ends the loop
    and `offset` is where the file will be truncated.  The loop ends because each
    frame it reads shortens `rest`, which `decreasing_by` gets from the two reads. -/
def replayFrames (mf : Manifest) (offset : Nat) (rest : Bytes) :
    Except ManifestError (Manifest × Nat) :=
  match _h : readFull 8 rest with
  | .error _ => .ok (mf, offset)
  | .ok (lenAndCrcBuf, rest') =>
    let length := (uint32 lenAndCrcBuf).toNat
    match _h' : readFull length rest' with
    | .error e => .error (.read e)
    | .ok (changeBuf, rest'') =>
      if crc32c changeBuf ≠ uint32 (lenAndCrcBuf.drop 4) then .error .badChecksum
      else
        match codec.unmarshal changeBuf with
        | none => .error .unmarshal
        | some changeSet =>
          match applyChangeSet mf changeSet with
          | (_, some e) => .error e
          | (mf', none) => replayFrames mf' (offset + 8 + length) rest''
termination_by rest.length
decreasing_by
  obtain ⟨h8, -, rfl⟩ := readFull_ok _h
  obtain ⟨-, -, rfl⟩ := readFull_ok _h'
  simp only [List.length_drop]
  omega

/-- `ReplayManifestFile` on the bytes of the file: the manifest and `truncOffset`. -/
def replayManifestFile (file : Bytes) : Except ManifestError (Manifest × Nat) :=
  match readFull 8 file with
  | .error _ => .error .badMagic
  | .ok (magicBuf, rest) =>
    if magicBuf.take 4 ≠ magicText then .error .badMagic
    else if uint32 (magicBuf.drop 4) ≠ magicVersion then .error .notSupportManifestVersion
    else replayFrames codec createNewManifest 8 rest

-- ============================================================================
-- One iteration of the loop
-- ============================================================================

theorem readFull_ok_append {n : Nat} {s a b : Bytes} (h : readFull n s = .ok (a, b))
    (t : Bytes) : readFull n (s ++ t) = .ok (a, b ++ t) := by
  obtain ⟨hn, rfl, rfl⟩ := readFull_ok h
  rw [readFull, if_pos (by simp; omega), List.take_append_of_le_length hn,
    List.drop_append_of_le_length hn]

/-- The prefix read hits the end of the stream: the loop stops. -/
theorem replayFrames_of_error {mf : Manifest} {offset : Nat} {rest : Bytes} {e : ReadError}
    (h : readFull 8 rest = .error e) : replayFrames codec mf offset rest = .ok (mf, offset) := by
  rw [replayFrames]
  split
  · rfl
  · simp_all

/-- The prefix is there but the payload read hits the end of the stream: an error. -/
theorem replayFrames_of_read_error {mf : Manifest} {offset : Nat} {rest pre rest' : Bytes}
    {e : ReadError} (h8 : readFull 8 rest = .ok (pre, rest'))
    (hp : readFull (uint32 pre).toNat rest' = .error e) :
    replayFrames codec mf offset rest = .error (.read e) := by
  rw [replayFrames]
  split
  · simp_all
  · rename_i heq
    rw [h8] at heq
    cases heq
    dsimp only
    split
    · rename_i heq'
      rw [hp] at heq'
      cases heq'
      rfl
    · simp_all

/-- A whole frame is there: check the CRC, decode, apply, and go on after it. -/
theorem replayFrames_of_ok {mf : Manifest} {offset : Nat} {rest pre rest' buf rest'' : Bytes}
    (h8 : readFull 8 rest = .ok (pre, rest'))
    (hp : readFull (uint32 pre).toNat rest' = .ok (buf, rest'')) :
    replayFrames codec mf offset rest =
      if crc32c buf ≠ uint32 (pre.drop 4) then .error .badChecksum
      else
        match codec.unmarshal buf with
        | none => .error .unmarshal
        | some changeSet =>
          match applyChangeSet mf changeSet with
          | (_, some e) => .error e
          | (mf', none) => replayFrames codec mf' (offset + 8 + (uint32 pre).toNat) rest'' := by
  rw [replayFrames]
  split
  · simp_all
  · rename_i heq
    rw [h8] at heq
    cases heq
    dsimp only
    split
    · simp_all
    · rename_i heq'
      rw [hp] at heq'
      cases heq'
      rfl

-- ============================================================================
-- Reading frames
-- ============================================================================

/-- Fewer than eight bytes left: the loop ends where it is. -/
theorem replayFrames_short (mf : Manifest) (offset : Nat) {rest : Bytes}
    (h : rest.length < 8) : replayFrames codec mf offset rest = .ok (mf, offset) := by
  obtain ⟨e, he⟩ := readFull_short h
  exact replayFrames_of_error codec he

@[simp] theorem replayFrames_nil (mf : Manifest) (offset : Nat) :
    replayFrames codec mf offset [] = .ok (mf, offset) :=
  replayFrames_short codec mf offset (by simp)

theorem uint32_frame_length {buf : Bytes} (hlen : buf.length < 2 ^ 32) :
    (uint32 (putUint32 (UInt32.ofNat buf.length) ++ putUint32 (crc32c buf))).toNat =
      buf.length := by
  rw [uint32_putUint32_append, uint32_toNat_ofNat]
  exact Nat.mod_eq_of_lt hlen

theorem readFull_frame (buf rest : Bytes) :
    readFull 8 (frame buf ++ rest) =
      .ok (putUint32 (UInt32.ofNat buf.length) ++ putUint32 (crc32c buf), buf ++ rest) := by
  rw [frame, List.append_assoc]
  exact readFull_append (buf ++ rest) (by simp)

/-- A complete frame of a marshalled change set is read and its changes applied. -/
theorem replayFrames_frame (mf : Manifest) (offset : Nat) (cs : List ManifestChange)
    (hlen : (codec.marshal cs).length < 2 ^ 32) (rest : Bytes) :
    replayFrames codec mf offset (frame (codec.marshal cs) ++ rest) =
      match applyChangeSet mf cs with
      | (_, some e) => .error e
      | (mf', none) => replayFrames codec mf' (offset + 8 + (codec.marshal cs).length) rest := by
  have hp := readFull_append rest (uint32_frame_length hlen).symm
  rw [replayFrames_of_ok codec (readFull_frame _ rest) hp, uint32_frame_length hlen]
  simp [codec.unmarshal_marshal]

/-- A prefix that replays to its own end can be followed by anything: replay goes on
    from the state and offset the prefix reached. -/
theorem replayFrames_append {mf m : Manifest} {offset : Nat} {pre : Bytes}
    (h : replayFrames codec mf offset pre = .ok (m, offset + pre.length)) (post : Bytes) :
    replayFrames codec mf offset (pre ++ post) =
      replayFrames codec m (offset + pre.length) post := by
  induction mf, offset, pre using replayFrames.induct codec generalizing m with
  | case1 mf offset rest e h8 =>
    rw [replayFrames_of_error codec h8] at h
    obtain ⟨rfl, hlen⟩ : mf = m ∧ offset = offset + rest.length := by simpa using h
    obtain rfl : rest = [] := List.length_eq_zero.mp (by omega)
    simp
  | case2 mf offset rest pre' rest' h8 len e =>
    rename_i hp
    simp [replayFrames_of_read_error codec h8 hp] at h
  | case3 mf offset rest pre' rest' h8 len buf rest'' hp =>
    rename_i hcrc
    simp [replayFrames_of_ok codec h8 hp, hcrc] at h
  | case4 mf offset rest pre' rest' h8 len buf rest'' hp hcrc =>
    rename_i hun
    simp [replayFrames_of_ok codec h8 hp, hcrc, hun] at h
  | case5 mf offset rest pre' rest' h8 len buf rest'' hp hcrc cs hun m' e =>
    rename_i happ
    simp [replayFrames_of_ok codec h8 hp, hcrc, hun, happ] at h
  | case6 mf offset rest pre' rest' h8 len buf rest'' hp hcrc cs hun mf' happ =>
    rename_i ih
    have hlen : offset + 8 + len + rest''.length = offset + rest.length := by
      obtain ⟨h8le, -, rfl⟩ := readFull_ok h8
      obtain ⟨hle, -, rfl⟩ := readFull_ok hp
      have := List.length_drop 8 rest
      have := List.length_drop len (rest.drop 8)
      omega
    simp only [replayFrames_of_ok codec h8 hp, hcrc, hun, happ, if_false, not_false_eq_true,
      not_not] at h
    rw [replayFrames_of_ok codec (readFull_ok_append h8 post) (readFull_ok_append hp post)]
    simp only [hcrc, hun, happ, if_false, not_false_eq_true, not_not]
    rw [← hlen] at h ⊢
    exact ih h

/-- The frames written for a sequence of change sets, one after the other. -/
def framesOf (css : List (List ManifestChange)) : Bytes :=
  (css.map fun cs => frame (codec.marshal cs)).flatten

/-- Each change set applies without error to the manifest the sets before it leave. -/
def AppliesInSequence : Manifest → List (List ManifestChange) → Prop
  | _, [] => True
  | m, cs :: css =>
    (applyChangeSet m cs).2 = none ∧ AppliesInSequence (applyChangeSet m cs).1 css

/-- The frames of change sets that apply in sequence are read one by one: replay goes on
    after them, from the manifest they lead to. -/
theorem replayFrames_framesOf {css : List (List ManifestChange)} :
    ∀ {mf : Manifest}, AppliesInSequence mf css →
      (∀ cs ∈ css, (codec.marshal cs).length < 2 ^ 32) → ∀ (offset : Nat) (rest : Bytes),
        ∃ m, replayFrames codec mf offset (framesOf codec css ++ rest) =
          replayFrames codec m (offset + (framesOf codec css).length) rest := by
  induction css with
  | nil => exact fun {mf} _ _ offset rest => ⟨mf, by simp [framesOf]⟩
  | cons cs css ih =>
    intro mf hseq hfit offset rest
    obtain ⟨m, hm⟩ := ih hseq.2 (fun c hc => hfit c (List.mem_cons_of_mem cs hc))
      (offset + 8 + (codec.marshal cs).length) rest
    have happ : applyChangeSet mf cs = ((applyChangeSet mf cs).1, none) := Prod.ext rfl hseq.1
    refine ⟨m, ?_⟩
    simp only [framesOf, List.map_cons, List.flatten_cons, List.append_assoc] at hm ⊢
    rw [replayFrames_frame codec mf offset cs (hfit cs (List.mem_cons_self cs css)), happ]
    dsimp only
    rw [hm]
    simp [Nat.add_assoc]

/-- A frame whose payload was replaced by bytes of the same length and another CRC-32C:
    the loop stops with `ErrBadChecksum`, whatever follows. -/
theorem replayFrames_bad_payload (mf : Manifest) (offset : Nat) {buf buf' : Bytes}
    (hlen : buf.length < 2 ^ 32) (hsame : buf'.length = buf.length)
    (hcrc : crc32c buf' ≠ crc32c buf) (rest : Bytes) :
    replayFrames codec mf offset
      (putUint32 (UInt32.ofNat buf.length) ++ putUint32 (crc32c buf) ++ buf' ++ rest) =
      .error .badChecksum := by
  have h8 : readFull 8 ((putUint32 (UInt32.ofNat buf.length) ++ putUint32 (crc32c buf)) ++
      (buf' ++ rest)) =
      .ok (putUint32 (UInt32.ofNat buf.length) ++ putUint32 (crc32c buf), buf' ++ rest) :=
    readFull_append _ (by simp)
  have hp := readFull_append rest ((uint32_frame_length hlen).trans hsame.symm).symm
  rw [List.append_assoc, replayFrames_of_ok codec h8 hp, List.drop_left' (by simp),
    uint32_putUint32, if_pos hcrc]

/-- A tear inside a frame's payload: the 8-byte prefix is read, the payload read comes up
    short, and the loop returns the read error instead of stopping. -/
theorem replayFrames_torn_payload (mf : Manifest) (offset : Nat) {buf : Bytes}
    (hlen : buf.length < 2 ^ 32) {k : Nat} (hk : 8 ≤ k) (hk' : k < (frame buf).length) :
    ∃ e, replayFrames codec mf offset ((frame buf).take k) = .error (.read e) := by
  have htake : (frame buf).take k =
      (putUint32 (UInt32.ofNat buf.length) ++ putUint32 (crc32c buf)) ++ buf.take (k - 8) := by
    rw [frame, List.take_append_eq_append_take, List.take_of_length_le (by simp; omega)]
    simp
  have hshort : (buf.take (k - 8)).length < buf.length := by
    simp only [frame_length] at hk'
    simp only [List.length_take]
    omega
  obtain ⟨e, he⟩ := readFull_short hshort
  rw [← uint32_frame_length hlen] at he
  exact ⟨e, htake ▸ replayFrames_of_read_error codec (readFull_append _ (by simp)) he⟩

-- ============================================================================
-- The whole file
-- ============================================================================

/-- After a good header, `ReplayManifestFile` is the loop from byte 8. -/
theorem replayManifestFile_header (rest : Bytes) :
    replayManifestFile codec (magicHeader ++ rest) =
      replayFrames codec createNewManifest 8 rest := by
  rw [replayManifestFile, readFull_append rest magicHeader_length]
  rfl

/-- A file that replays to its own end can be extended: replay goes on from its end, with
    the manifest it reached. -/
theorem replayManifestFile_append {file : Bytes} {m : Manifest}
    (h : replayManifestFile codec file = .ok (m, file.length)) (post : Bytes) :
    replayManifestFile codec (file ++ post) = replayFrames codec m file.length post := by
  unfold replayManifestFile at h ⊢
  split at h
  · cases h
  · rename_i magicBuf rest h8
    obtain ⟨hle, -, rfl⟩ := readFull_ok h8
    rw [readFull_ok_append h8 post]
    dsimp only
    split_ifs at h ⊢
    have hl : file.length = 8 + (file.drop 8).length := by simp; omega
    rw [hl] at h ⊢
    exact replayFrames_append codec h post

end TinyLsm

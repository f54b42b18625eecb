import TinyLsm.Manifest.Invariant
import TinyLsm.Manifest.File
import TinyLsm.Manifest.Codec
/-
  TinyLsm.Manifest.RoundTrip

  `MANIFEST` against the in-memory manifest.  Two manifests are `Equiv` when
  they agree on everything a reader can ask of them: the table of every id,
  the id set of every level (a missing level counting as empty) and the two
  counters.  A `ManifestFile` is `Consistent` with its directory when the bytes
  of `MANIFEST` replay, to their last byte, to a manifest `Equiv` to the one in
  memory.

  The main results:

    * `Manifest.Equiv.applyChangeSet` — equivalent manifests accept and reject
      the same change sets and stay equivalent;
    * `applyChangeSet_asChanges` — replaying the snapshot `asChanges` takes, in
      any map order, rebuilds the manifest with its counters reset;
    * `Consistent.addChanges`, `openManifestFile_consistent`, `Consistent.close`
      — every successful call keeps the directory in step;
    * `manifest_round_trip` — so does every run of such calls, across closes
      and reopens;
    * `addTableMeta_drops_write_error` — `AddTableMeta` returns nil after a
      failed write, with the table in memory and not in `MANIFEST`.
-/

namespace TinyLsm

open Relation

-- ============================================================================
-- Equivalent manifests
-- ============================================================================

/-- Two manifests with the same tables, level sets and counters. -/
structure Manifest.Equiv (a b : Manifest) : Prop where
  lookup : ∀ id, a.tables.lookup id = b.tables.lookup id
  levelSet : ∀ l, a.levelSet l = b.levelSet l
  creations : a.creations = b.creations
  deletions : a.deletions = b.deletions

namespace Manifest.Equiv

variable {a b c : Manifest}

@[refl] theorem refl (a : Manifest) : a.Equiv a := ⟨fun _ => rfl, fun _ => rfl, rfl, rfl⟩

@[symm] theorem symm (h : a.Equiv b) : b.Equiv a :=
  ⟨fun id => (h.lookup id).symm, fun l => (h.levelSet l).symm, h.creations.symm,
    h.deletions.symm⟩

@[trans] theorem trans (h : a.Equiv b) (h' : b.Equiv c) : a.Equiv c :=
  ⟨fun id => (h.lookup id).trans (h'.lookup id), fun l => (h.levelSet l).trans (h'.levelSet l),
    h.creations.trans h'.creations, h.deletions.trans h'.deletions⟩

theorem mem_iff (h : a.Equiv b) (id : UInt64) : id ∈ a.tables ↔ id ∈ b.tables := by
  rw [← AList.lookup_isSome, ← AList.lookup_isSome, h.lookup]

theorem createTable (h : a.Equiv b) (id : UInt64) (level : UInt32) (checksum : Bytes) :
    (a.createTable id level checksum).Equiv (b.createTable id level checksum) where
  lookup id' := by
    by_cases he : id' = id
    · subst he; simp
    · simp [AList.lookup_insert_ne he, h.lookup]
  levelSet l := by simp [h.levelSet]
  creations := by simp [h.creations]
  deletions := by simp [h.deletions]

theorem deleteTable (h : a.Equiv b) {level : Nat} (ha : level < a.levels.length)
    (hb : level < b.levels.length) (id : UInt64) :
    (a.deleteTable id level).Equiv (b.deleteTable id level) where
  lookup id' := by
    by_cases he : id' = id
    · subst he; simp
    · simp [AList.lookup_erase_ne he, h.lookup]
  levelSet l := by rw [deleteTable_levelSet _ _ ha, deleteTable_levelSet _ _ hb, h.levelSet]
  creations := by simp [h.creations]
  deletions := by simp [h.deletions]

end Manifest.Equiv

/-- On a `Counted` manifest a change is rejected for an existing CREATE id, a missing
    DELETE id or an unknown operation, and for nothing else. -/
theorem Manifest.Counted.applyManifestChange_eq_error {m : Manifest} (hm : m.Counted)
    {c : ManifestChange} {e : ManifestError} :
    applyManifestChange m c = .error e ↔
      (c.op = .create ∧ c.id ∈ m.tables ∧ e = .tableExists c.id) ∨
      (c.op = .delete ∧ c.id ∉ m.tables ∧ e = .removesNonExisting c.id) ∨
      (∃ tag, c.op = .other tag ∧ e = .hasWrongOp) := by
  unfold applyManifestChange
  split
  next hop => by_cases hid : c.id ∈ m.tables <;> simp [hop, hid, eq_comm]
  next hop =>
    split
    next hl => simp [hop, AList.lookup_eq_none.mp hl, eq_comm]
    next tm hl =>
      have hmem : c.id ∈ m.tables := AList.lookup_isSome.mp (by rw [hl]; rfl)
      simp [hop, hm.level_lt _ _ hl, hmem]
  next tag hop => simp [hop, eq_comm]

namespace Manifest.Equiv

variable {a b : Manifest}

theorem apply_error (h : a.Equiv b) (ha : a.Counted) (hb : b.Counted) {c : ManifestChange}
    {e : ManifestError} (hc : applyManifestChange a c = .error e) :
    applyManifestChange b c = .error e := by
  rw [hb.applyManifestChange_eq_error, ← h.mem_iff]
  exact ha.applyManifestChange_eq_error.mp hc

theorem apply_ok (h : a.Equiv b) (hb : b.Counted) {c : ManifestChange} {a' : Manifest}
    (hc : applyManifestChange a c = .ok a') :
    ∃ b', applyManifestChange b c = .ok b' ∧ a'.Equiv b' := by
  rcases applyManifestChange_eq_ok hc with ⟨hop, hid, rfl⟩ | ⟨hop, tm, htm, hl, rfl⟩
  · have hid' : c.id ∉ b.tables := (h.mem_iff c.id).not.mp hid
    exact ⟨_, by simp [applyManifestChange, hop, hid'], h.createTable _ _ _⟩
  · have htm' : b.tables.lookup c.id = some tm := h.lookup c.id ▸ htm
    have hl' := hb.level_lt _ _ htm'
    exact ⟨_, by simp [applyManifestChange, hop, htm', hl'], h.deleteTable hl hl' c.id⟩

/-- Equivalent manifests accept or reject a change set alike, with the same error, and
    stay equivalent. -/
theorem applyChangeSet (h : a.Equiv b) (ha : a.Counted) (hb : b.Counted)
    (cs : List ManifestChange) :
    (applyChangeSet a cs).2 = (applyChangeSet b cs).2 ∧
      (applyChangeSet a cs).1.Equiv (applyChangeSet b cs).1 := by
  induction cs generalizing a b with
  | nil => exact ⟨rfl, h⟩
  | cons c cs ih =>
    cases hc : applyManifestChange a c with
    | error e =>
      rw [applyChangeSet_cons_error hc, applyChangeSet_cons_error (h.apply_error ha hb hc)]
      exact ⟨rfl, h⟩
    | ok a' =>
      obtain ⟨b', hb', h'⟩ := h.apply_ok hb hc
      rw [applyChangeSet_cons_ok hc, applyChangeSet_cons_ok hb']
      exact ih h' (ha.apply hc) (hb.apply hb')

end Manifest.Equiv

/-- `Inv` carries over to an equivalent `Counted` manifest. -/
theorem Manifest.Inv.of_equiv {a b : Manifest} (ha : a.Inv) (h : a.Equiv b) (hb : b.Counted) :
    b.Inv where
  toCounted := hb
  mem_levelSet id tm htm := h.levelSet _ ▸ ha.mem_levelSet id tm (h.lookup id ▸ htm)
  of_mem_levelSet l id hmem :=
    h.lookup id ▸ ha.of_mem_levelSet l id ((h.levelSet l).symm ▸ hmem)

/-- Under `Inv` the level sets are determined by `Tables`. -/
theorem Manifest.Inv.levelSet_subset {a b : Manifest} (ha : a.Inv) (hb : b.Inv)
    (h : ∀ id, a.tables.lookup id = b.tables.lookup id) (l : Nat) :
    a.levelSet l ⊆ b.levelSet l := by
  intro id hmem
  obtain ⟨tm, htm, rfl⟩ := ha.of_mem_levelSet l id hmem
  exact hb.mem_levelSet id tm (h id ▸ htm)

-- ============================================================================
-- Replaying a snapshot
-- ============================================================================

/-- `newCreateChange` on a `uint8` level: the `int` round trip keeps it. -/
theorem newCreateChange_uint8 (id : UInt64) (b : UInt8) (checksum : Bytes) :
    newCreateChange id b.toNat checksum = ⟨id, .create, b.toUInt32, checksum⟩ := by
  have hb := uint8_toNat_lt b
  simp only [newCreateChange, ManifestChange.mk.injEq, true_and, and_true]
  apply UInt32.toNat.inj
  simp only [uint32_toNat_ofNat, uint8_toUInt32_toNat]
  omega

theorem uint8_toUInt32_toUInt8 (b : UInt8) : b.toUInt32.toUInt8 = b :=
  UInt8.toNat.inj (by simp [Nat.mod_eq_of_lt (uint8_toNat_lt b)])

/-- CREATEs of entries with distinct ids absent from `a` are all accepted; they add the
    entries to `Tables` and count one creation each. -/
theorem applyChangeSet_creates :
    ∀ (es : List (Σ _ : UInt64, TableManifest)) (a : Manifest), es.NodupKeys → a.Inv →
      (∀ id ∈ es.keys, id ∉ a.tables) →
      ∃ r, applyChangeSet a (es.map fun e => newCreateChange e.1 e.2.level.toNat e.2.checksum) =
          (r, none) ∧ r.Inv ∧
        (∀ id, r.tables.lookup id = (es.dlookup id).or (a.tables.lookup id)) ∧
        r.creations = a.creations + es.length ∧ r.deletions = a.deletions
  | [], a, _, ha, _ => ⟨a, rfl, ha, fun _ => rfl, rfl, rfl⟩
  | ⟨id, tm⟩ :: es, a, hnd, ha, hdis => by
    obtain ⟨hid_es, hnd⟩ := List.nodupKeys_cons.mp hnd
    have hid : id ∉ a.tables := hdis id (List.mem_cons_self _ _)
    have hc : applyManifestChange a (newCreateChange id tm.level.toNat tm.checksum) =
        .ok (a.createTable id tm.level.toUInt32 tm.checksum) := by
      simp [newCreateChange_uint8, applyManifestChange, hid]
    have hl : tm.level.toUInt32.toNat < 256 := by simpa using uint8_toNat_lt tm.level
    have ha₁ := ha.createTable hid hl tm.checksum
    have hdis₁ :
        ∀ id' ∈ es.keys, id' ∉ (a.createTable id tm.level.toUInt32 tm.checksum).tables := by
      intro id' hmem
      have hne : id' ≠ id := fun he => hid_es (he ▸ hmem)
      simp [hne, hdis id' (List.mem_cons_of_mem _ hmem)]
    obtain ⟨r, hr, hinv, hlook, hcr, hdel⟩ := applyChangeSet_creates es _ hnd ha₁ hdis₁
    refine ⟨r, by rw [List.map_cons, applyChangeSet_cons_ok hc, hr], hinv, fun id' => ?_,
      by simp [hcr]; omega, by simp [hdel]⟩
    rw [hlook id']
    by_cases he : id' = id
    · subst he
      simp [List.dlookup_eq_none.mpr hid_es, uint8_toUInt32_toUInt8]
    · simp [List.dlookup_cons_ne es ⟨id, tm⟩ he, AList.lookup_insert_ne he]

/-- Replaying the snapshot `asChanges` takes, in any map order, rebuilds the manifest with
    `Creations = len(Tables)` and `Deletions = 0`. -/
theorem applyChangeSet_asChanges {m : Manifest} (hm : m.Inv) (order : MapOrder) :
    ∃ r, applyChangeSet createNewManifest (asChanges m order) = (r, none) ∧ r.Inv ∧
      r.Equiv { m with creations := m.tables.keys.length, deletions := 0 } := by
  have hperm := order.perm m.tables
  have hnd := (List.perm_nodupKeys hperm).mpr m.tables.nodupKeys
  obtain ⟨r, hr, hinv, hlook, hcr, hdel⟩ := applyChangeSet_creates (order.iter m.tables)
    createNewManifest hnd createNewManifest_inv (by simp [createNewManifest])
  have hlook' : ∀ id, r.tables.lookup id = m.tables.lookup id := fun id => by
    simpa [hlook, createNewManifest] using List.perm_dlookup id hnd m.tables.nodupKeys hperm
  refine ⟨r, hr, hinv, hlook', fun l => ?_, ?_, by simpa [createNewManifest] using hdel⟩
  · exact (hinv.levelSet_subset hm hlook' l).antisymm
      (hm.levelSet_subset hinv (fun id => (hlook' id).symm) l)
  · simp [hcr, createNewManifest, hperm.length_eq, AList.keys, List.keys]

theorem asChanges_createNewManifest (order : MapOrder) :
    asChanges createNewManifest order = [] := by
  have h : (order.iter createNewManifest.tables).Perm [] := order.perm _
  simp [asChanges, h.eq_nil]

-- ============================================================================
-- Consistency of MANIFEST with memory
-- ============================================================================

variable (codec : ChangeSetCodec)

/-- `bytes` replays to its last byte, through manifests the code can build, to one
    equivalent to `m`. -/
def ReplaysTo (bytes : Bytes) (m : Manifest) : Prop :=
  ∃ r, replayManifestFile codec bytes = .ok (r, bytes.length) ∧ Reachable (fun _ => True) r ∧
    r.Equiv m

/-- A `ManifestFile` in step with its directory: the handle is open, no `REWRITEMANIFEST`
    is left, and `MANIFEST` replays to the manifest in memory. -/
structure Consistent (mf : ManifestFile) (fs : Fs) : Prop where
  inv : mf.manifest.Inv
  fileOpen : mf.fileOpen
  noRewrite : fs.rewriteManifest = none
  replays : ∃ bytes, fs.manifest = some bytes ∧ ReplaysTo codec bytes mf.manifest

/-- A directory between two sessions: no `REWRITEMANIFEST`, and either no `MANIFEST` or one
    that replays to a manifest with `Inv`. -/
def Reopenable (fs : Fs) : Prop :=
  fs.rewriteManifest = none ∧
    (fs.manifest = none ∨
      ∃ bytes m, fs.manifest = some bytes ∧ m.Inv ∧ ReplaysTo codec bytes m)

/-- The frames an `addChanges` call can write fit the `uint32` length field: the change
    set's, and the snapshot a rewrite would take of the manifest it leaves. -/
def FramesFit (m : Manifest) (cs : List ManifestChange) (order : MapOrder) : Prop :=
  (codec.marshal cs).length < 2 ^ 32 ∧
    (codec.marshal (asChanges (applyChangeSet m cs).1 order)).length < 2 ^ 32

variable {codec}

/-- The file `createFileAndRewrite` writes replays to the manifest with its counters reset. -/
theorem replaysTo_snapshot {m : Manifest} (hm : m.Inv) {order : MapOrder}
    (hfit : (codec.marshal (asChanges m order)).length < 2 ^ 32) :
    ReplaysTo codec (magicHeader ++ frame (codec.marshal (asChanges m order)))
      { m with creations := m.tables.keys.length, deletions := 0 } := by
  obtain ⟨r, hr, -, hequiv⟩ := applyChangeSet_asChanges hm order
  have hreach : ReflTransGen (ManifestStep fun _ => True) createNewManifest
      (applyChangeSet createNewManifest (asChanges m order)).1 :=
    applyChangeSet_reachable _ _ fun _ _ => trivial
  rw [hr] at hreach
  refine ⟨r, ?_, hreach, hequiv⟩
  rw [replayManifestFile_header, ← List.append_nil (frame _), replayFrames_frame codec _ _ _ hfit,
    hr]
  simp
  omega

/-- A frame of a change set appended to a file that replays to `m` replays to what the set
    makes of `m`. -/
theorem ReplaysTo.append {bytes : Bytes} {m m' : Manifest} (h : ReplaysTo codec bytes m)
    (hm : m.Counted) {cs : List ManifestChange} (hcs : applyChangeSet m cs = (m', none))
    (hfit : (codec.marshal cs).length < 2 ^ 32) :
    ReplaysTo codec (bytes ++ frame (codec.marshal cs)) m' := by
  obtain ⟨r, hr, hreach, hequiv⟩ := h
  obtain ⟨h2, h1⟩ := hequiv.applyChangeSet hreach.counted hm cs
  rw [hcs] at h1 h2
  have hr' : applyChangeSet r cs = ((applyChangeSet r cs).1, none) := Prod.ext rfl h2
  refine ⟨_, ?_, hreach.trans (applyChangeSet_reachable r cs fun _ _ => trivial), h1⟩
  rw [replayManifestFile_append codec hr, ← List.append_nil (frame _),
    replayFrames_frame codec _ _ _ hfit, hr']
  simp [Nat.add_assoc]

/-- A successful `addChanges` of fitting changes keeps the directory in step, by an append
    or by a rewrite. -/
theorem Consistent.addChanges {mf mf' : ManifestFile} {fs fs' : Fs} (hc : Consistent codec mf fs)
    {cs : List ManifestChange} (hlev : ∀ c ∈ cs, LevelFits c) {order : MapOrder}
    (hfit : FramesFit codec mf.manifest cs order) {u : Unit}
    (h : ManifestFile.addChanges codec cs order (mf, fs) = .ok u (mf', fs')) :
    Consistent codec mf' fs' := by
  obtain ⟨bytes, hbytes, hrep⟩ := hc.replays
  obtain ⟨m', happ, hopen, ⟨-, hm, hr, hfile⟩ | ⟨-, hm, hr, hfile⟩⟩ :=
    addChanges_eq_ok codec h
  all_goals have hinv : m'.Inv := by simpa [happ] using hc.inv.applyChangeSet hlev
  · refine ⟨hm ▸ hinv, hopen, hr.trans hc.noRewrite, _, hfile, ?_⟩
    rw [hbytes, Option.getD_some, hm]
    exact hrep.append hc.inv.toCounted happ hfit.1
  · rw [hc.noRewrite] at hfile
    refine ⟨hm ▸ (ManifestStep.rewrite m').inv hinv, hopen, hr, _, hfile, hm ▸ ?_⟩
    simpa [rewriteBytes] using replaysTo_snapshot hinv (by simpa [happ] using hfit.2)

/-- `Close` leaves a directory that can be reopened. -/
theorem Consistent.close {mf mf' : ManifestFile} {fs fs' : Fs} (hc : Consistent codec mf fs)
    {u : Unit} (h : ManifestFile.close (mf, fs) = .ok u (mf', fs')) : Reopenable codec fs' := by
  obtain ⟨-, -, rfl⟩ := fileClose_eq_ok h
  obtain ⟨bytes, hbytes, hrep⟩ := hc.replays
  exact ⟨hc.noRewrite, .inr ⟨bytes, mf.manifest, hbytes, hc.inv, hrep⟩⟩

/-- A successful `OpenManifestFile` on a reopenable directory: the bootstrap of a missing
    `MANIFEST`, or the replay of an existing one, leaves the two in step. -/
theorem openManifestFile_consistent (hnil : (codec.marshal []).length < 2 ^ 32) {fs fs' : Fs}
    (hfs : Reopenable codec fs) {order : MapOrder} {mf : ManifestFile}
    (h : openManifestFile codec order fs = .ok mf fs') : Consistent codec mf fs' := by
  obtain ⟨_, fs₁, h₁, h⟩ := bind_eq_ok h
  obtain rfl := ioCall_eq_ok h₁
  simp only [estate_bind_apply, estate_get_apply, id, Fs.next_manifest] at h
  rcases hbytes : fs.manifest with _ | bytes
  · simp only [hbytes] at h
    obtain ⟨n, fs₂, h₂, h⟩ := bind_eq_ok h
    obtain ⟨-, hr, hfile⟩ := createFileAndRewrite_eq_ok codec h₂
    simp only [pure, EStateM.pure, EStateM.Result.ok.injEq] at h
    obtain ⟨rfl, rfl⟩ := h
    rw [Fs.next_rewriteManifest, hfs.1] at hfile
    have hfit : (codec.marshal (asChanges createNewManifest order)).length < 2 ^ 32 := by
      rwa [asChanges_createNewManifest]
    refine ⟨createNewManifest_inv, rfl, hr, _, hfile, ?_⟩
    simpa [rewriteBytes] using replaysTo_snapshot createNewManifest_inv hfit
  · obtain ⟨m, hm, hrep⟩ : ∃ m, m.Inv ∧ ReplaysTo codec bytes m := by
      rcases hfs.2 with h' | ⟨bytes', m, h', hm, hrep⟩
      · simp [h'] at hbytes
      · obtain rfl : bytes' = bytes := Option.some.inj (h'.symm.trans hbytes)
        exact ⟨m, hm, hrep⟩
    obtain ⟨r, hr, hreach, hequiv⟩ := hrep
    simp only [hbytes, hr] at h
    obtain ⟨_, fs₂, h₂, h⟩ := bind_eq_ok h
    obtain ⟨_, fs₃, h₃, h⟩ := bind_eq_ok h
    simp only [pure, EStateM.pure, EStateM.Result.ok.injEq] at h
    obtain ⟨rfl, rfl⟩ := h
    obtain rfl := ioCall_eq_ok h₂
    obtain rfl := ioCall_eq_ok h₃
    refine ⟨hm.of_equiv hequiv.symm hreach.counted, rfl,
      by simpa [Fs.truncateManifest] using hfs.1, bytes, ?_, r, hr, hreach, .refl r⟩
    simp [Fs.truncateManifest, hbytes]

-- ============================================================================
-- Runs
-- ============================================================================

variable (codec) in
/-- A call on the manifest that returned nil, under the side conditions of the round trip:
    `OpenManifestFile` on a closed directory, `AddChanges` of changes whose levels and
    frames fit, and `Close`.  `none` is a closed manifest. -/
inductive SessionStep : Option ManifestFile × Fs → Option ManifestFile × Fs → Prop
  | openFile {fs fs' : Fs} {mf : ManifestFile} (order : MapOrder) :
      openManifestFile codec order fs = .ok mf fs' → SessionStep (none, fs) (some mf, fs')
  | addChanges {mf mf' : ManifestFile} {fs fs' : Fs} (cs : List ManifestChange)
      (order : MapOrder) {u : Unit} :
      (∀ c ∈ cs, LevelFits c) → FramesFit codec mf.manifest cs order →
      ManifestFile.addChanges codec cs order (mf, fs) = .ok u (mf', fs') →
      SessionStep (some mf, fs) (some mf', fs')
  | close {mf mf' : ManifestFile} {fs fs' : Fs} {u : Unit} :
      ManifestFile.close (mf, fs) = .ok u (mf', fs') → SessionStep (some mf, fs) (none, fs')

variable (codec) in
/-- Between two calls an open manifest is in step with its directory, and a closed
    directory can be reopened. -/
def SessionInv : Option ManifestFile × Fs → Prop
  | (some mf, fs) => Consistent codec mf fs
  | (none, fs) => Reopenable codec fs

section Runs

variable (hnil : (codec.marshal []).length < 2 ^ 32)
include hnil

theorem SessionStep.inv {s s' : Option ManifestFile × Fs} (h : SessionStep codec s s')
    (hs : SessionInv codec s) : SessionInv codec s' := by
  cases h with
  | openFile _ h => exact openManifestFile_consistent hnil hs h
  | addChanges _ _ hlev hfit h => exact Consistent.addChanges hs hlev hfit h
  | close h => exact Consistent.close hs h

theorem SessionInv.run {s s' : Option ManifestFile × Fs}
    (h : ReflTransGen (SessionStep codec) s s') (hs : SessionInv codec s) :
    SessionInv codec s' := by
  induction h with
  | refl => exact hs
  | tail _ hst ih => exact hst.inv hnil ih

end Runs

/-- The CREATE of table 1 at level 0. -/
def createTable1 : ManifestChange := ⟨1, .create, 0, []⟩

/-- The `MANIFEST` a bootstrap writes: the header and the frame of the empty change set. -/
def bootstrapBytes : Bytes := magicHeader ++ frame (simpleCodec.marshal [])

theorem createTable1_levelFits : ∀ c ∈ [createTable1], LevelFits c := by
  simp [createTable1, LevelFits]

theorem createTable1_framesFit :
    FramesFit simpleCodec createNewManifest [createTable1] entriesOrder := by
  unfold FramesFit; decide

/-- The fresh directory opened. -/
theorem openManifestFile_fresh :
    openManifestFile simpleCodec entriesOrder ⟨none, none, [], []⟩ =
      .ok ⟨createNewManifest, true⟩ ⟨some bootstrapBytes, none, [], []⟩ :=
  rfl

/-- `AddChanges([CREATE 1])` on the bootstrapped directory, with working I/O. -/
theorem addChanges_createTable1 :
    ManifestFile.addChanges simpleCodec [createTable1] entriesOrder
      (⟨createNewManifest, true⟩, ⟨some bootstrapBytes, none, [], []⟩) =
      .ok () (⟨createNewManifest.createTable 1 0 [], true⟩,
        ⟨some (bootstrapBytes ++ frame (simpleCodec.marshal [createTable1])), none, [], []⟩) := by
  rw [addChanges_of_apply_ok simpleCodec rfl rfl rfl]; rfl

/-- `AddTableMeta` of a new table when the next I/O call fails: it returns nil with the
    table in memory, while `MANIFEST` holds the bytes from before the call, which replay to a
    manifest without it, followed by no more than a proper prefix of the table's frame, the
    part a failed write appends. -/
theorem addTableMeta_drops_write_error {mf : ManifestFile} {fs : Fs} (hc : Consistent codec mf fs)
    {t : TableMeta} (ht : t.id ∉ mf.manifest.tables) (levelNum : Int) (order : MapOrder)
    (hfail : fs.faults.head? = some true) :
    ∃ mf' fs', ManifestFile.addTableMeta codec levelNum t order (mf, fs) = .ok () (mf', fs') ∧
      t.id ∈ mf'.manifest.tables ∧
      ∃ bytes r, fs.manifest = some bytes ∧
        replayManifestFile codec bytes = .ok (r, bytes.length) ∧ t.id ∉ r.tables ∧
        ∃ k < (frame (codec.marshal [newCreateChange t.id levelNum t.checksum])).length,
          fs'.manifest = some (bytes ++
            (frame (codec.marshal [newCreateChange t.id levelNum t.checksum])).take k) := by
  let m' := mf.manifest.createTable t.id (newCreateChange t.id levelNum t.checksum).level t.checksum
  have happ :
      applyChangeSet mf.manifest [newCreateChange t.id levelNum t.checksum] = (m', none) := by
    simp [m', applyChangeSet, applyManifestChange, newCreateChange, ht]
  obtain ⟨bytes, hbytes, r, hr, -, hequiv⟩ := hc.replays
  have hr' := (hequiv.mem_iff t.id).not.mpr ht
  by_cases hdue : rewriteDue m'
  · -- the rewrite's `Close` fails: nothing is written
    refine ⟨⟨m', false⟩, fs.next, ?_, by simp [m'], bytes, r, hbytes, hr, hr', 0, by simp,
      by simp [hbytes]⟩
    simp [ManifestFile.addTableMeta, ManifestFile.addChanges, happ, hdue, ManifestFile.rewrite,
      fileClose, liftFs, ioCall, hfail, hc.fileOpen]
  · -- the append's `Write` fails after its torn part
    obtain ⟨k, hk, htorn⟩ := fs.tornPart_eq_take (frame_ne_nil _)
    refine ⟨⟨m', true⟩, fs.nextTorn.appendManifest (fs.tornPart
      (frame (codec.marshal [newCreateChange t.id levelNum t.checksum]))), ?_, by simp [m'],
      bytes, r, hbytes, hr, hr', k, hk, by simp [Fs.appendManifest, hbytes, htorn]⟩
    simp [ManifestFile.addTableMeta, ManifestFile.addChanges, happ, hdue, fileWrite, liftFs,
      writeCall, hfail, hc.fileOpen]

/-- A fresh directory opened with nine I/O calls succeeding, then `AddTableMeta(0, {ID: 1})`
    whose write fails. -/
theorem addTableMeta_drops_write_error_after_open :
    ∃ mf' fs', ManifestFile.addTableMeta simpleCodec 0 ⟨1, []⟩ entriesOrder
        (⟨createNewManifest, true⟩, ⟨some bootstrapBytes, none, [true], []⟩) = .ok () (mf', fs') ∧
      (1 : UInt64) ∈ mf'.manifest.tables ∧
      ∃ bytes r, some bootstrapBytes = some bytes ∧
        replayManifestFile simpleCodec bytes = .ok (r, bytes.length) ∧ (1 : UInt64) ∉ r.tables ∧
        ∃ k < (frame (simpleCodec.marshal [newCreateChange 1 0 []])).length,
          fs'.manifest =
            some (bytes ++ (frame (simpleCodec.marshal [newCreateChange 1 0 []])).take k) :=
  have hopen :
      openManifestFile simpleCodec entriesOrder
          ⟨none, none, List.replicate 9 false ++ [true], []⟩ =
      .ok ⟨createNewManifest, true⟩ ⟨some bootstrapBytes, none, [true], []⟩ :=
    rfl
  addTableMeta_drops_write_error (openManifestFile_consistent (by decide) ⟨rfl, .inl rfl⟩ hopen)
    (by simp [createNewManifest]) 0 entriesOrder rfl

end TinyLsm

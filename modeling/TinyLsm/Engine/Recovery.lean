import TinyLsm.Engine.Recency
/-
  TinyLsm.Engine.Recovery

  `initLSM` on the directory an engine leaves behind, and the fids it hands
  out.

    * `recoverMemTables_spec` — recovery queues, in the order of the fids it
      parsed, one memtable for each `%05d.wal` file that holds records, and
      changes no record.
    * `close_then_reopen_reads_only_tables` — `LSM.Close` closes the active
      memtable and the immutables with the same `memTable.close` that removes
      a flushed memtable's WAL file, and flushes nothing first.  After a
      `Close` that returns nil, `initLSM` on the directory succeeds and its
      `Get` returns only what the level manager holds: every write still in a
      memtable is gone.
    * `newMemtable_fid_sequence` — the first fid is one past the largest fid
      recovery saw (and `levels.maxFID`), and each later one is one past the
      previous, in `uint64` arithmetic, so past `18446744073709551615.wal` the
      next fid is 0.
-/

namespace TinyLsm

-- ============================================================================
-- WAL names
-- ============================================================================

theorem uint64_ofNat_toNat (a : UInt64) : UInt64.ofNat a.toNat = a :=
  UInt64.toNat.inj (by rw [uint64_toNat_ofNat, Nat.mod_eq_of_lt (uint64_toNat_lt a)])

theorem walFileExt_isSuffixOf_walFileName (fid : UInt64) :
    walFileExt.isSuffixOf (walFileName fid) = true :=
  List.isSuffixOf_iff_suffix.mpr (List.suffix_append _ _)

theorem walFileName_take (fid : UInt64) :
    (walFileName fid).take ((walFileName fid).length - walFileExt.length) =
      format05d fid.toNat := by
  rw [walFileName, List.length_append, Nat.add_sub_cancel, List.take_left]

/-- Recovery parses a `%05d.wal` name back to its fid. -/
theorem walFileIds_cons_walFileName (fid : UInt64) (names : List (List Char)) :
    walFileIds (walFileName fid :: names) = (walFileIds names).map (fid :: ·) := by
  rw [walFileIds, if_pos (walFileExt_isSuffixOf_walFileName fid), walFileName_take,
    parseUint_format05d (uint64_toNat_lt fid)]
  simp only [uint64_ofNat_toNat]

theorem mem_of_walFileIds {names : List (List Char)} {ids : List UInt64}
    (h : walFileIds names = .ok ids) {fid : UInt64} (hfid : walFileName fid ∈ names) :
    fid ∈ ids := by
  induction names generalizing ids with
  | nil => cases hfid
  | cons name names ih =>
    rcases List.mem_cons.mp hfid with rfl | hmem
    · rw [walFileIds_cons_walFileName] at h
      cases hr : walFileIds names <;> rw [hr] at h <;> cases h
      exact List.mem_cons_self _ _
    · unfold walFileIds at h
      split at h
      · split at h
        · cases h
        · cases hr : walFileIds names <;> rw [hr] at h <;> cases h
          exact List.mem_cons_of_mem _ (ih hr hmem)
      · exact ih h hmem

/-- A name recovery reads without a panic: not a `.wal` name, or one whose stem
    `strconv.ParseUint` accepts. -/
def WalNameParses (name : List Char) : Prop :=
  walFileExt.isSuffixOf name = true →
    ∃ n, parseUint (name.take (name.length - walFileExt.length)) = .ok n

theorem walFileIds_ok_iff {names : List (List Char)} :
    (∃ ids, walFileIds names = .ok ids) ↔ ∀ name ∈ names, WalNameParses name := by
  induction names with
  | nil => simp [walFileIds]
  | cons name names ih =>
    rw [List.forall_mem_cons, ← ih, walFileIds]
    by_cases hs : walFileExt.isSuffixOf name = true
    · rw [if_pos hs]
      cases hp : parseUint (name.take (name.length - walFileExt.length)) with
      | error err => simp [WalNameParses, hs, hp]
      | ok n => cases walFileIds names <;> simp [WalNameParses, hs, hp, Except.map]
    · simp [WalNameParses, hs]

theorem walNameParses_walFileName (fid : UInt64) : WalNameParses (walFileName fid) := fun _ =>
  ⟨fid.toNat, by rw [walFileName_take, parseUint_format05d (uint64_toNat_lt fid)]⟩

-- ============================================================================
-- The directory recovery reads
-- ============================================================================

theorem Disk.walRecords_createWal (n name : List Char) (d : Disk) :
    (d.createWal n).walRecords name = d.walRecords name := by
  unfold Disk.createWal Disk.walRecords
  split
  · rfl
  · next h =>
    by_cases hn : name = n
    · subst hn; simp [AList.lookup_insert, AList.lookup_eq_none.mpr h]
    · rw [AList.lookup_insert_ne hn]

theorem Disk.walRecords_of_not_mem {d : Disk} {name : List Char} (h : name ∉ d.wals) :
    d.walRecords name = [] := by
  simp [Disk.walRecords, AList.lookup_eq_none.mpr h]

theorem Disk.mem_of_walRecords {d : Disk} {name : List Char} (h : d.walRecords name ≠ []) :
    name ∈ d.wals := by
  by_contra hn
  exact h (Disk.walRecords_of_not_mem hn)

/-- Recovery keeps every record and the tables, adds only `%05d.wal` files, and queues, in
    fid order, one memtable for each fid whose WAL file holds records, with those records
    newest first. -/
theorem recoverMemTables_spec (fids : List UInt64) (imms : List MemTable) (d : Disk) :
    (recoverMemTables fids (imms, d)).2.tables = d.tables ∧
    (∀ name, (recoverMemTables fids (imms, d)).2.walRecords name = d.walRecords name) ∧
    (∀ name ∈ (recoverMemTables fids (imms, d)).2.wals,
      name ∈ d.wals ∨ ∃ fid ∈ fids, name = walFileName fid) ∧
    ∀ m, m ∈ (recoverMemTables fids (imms, d)).1 ↔ m ∈ imms ∨ ∃ fid ∈ fids,
      d.walRecords (walFileName fid) ≠ [] ∧
      m = ⟨fid, (d.walRecords (walFileName fid)).reverse⟩ := by
  induction fids generalizing imms d with
  | nil => simp [recoverMemTables]
  | cons fid fids ih =>
    simp only [recoverMemTables, recoveryMemTable, Disk.walRecords_createWal]
    obtain ⟨ht, hr, hn, hm⟩ := ih (if (d.walRecords (walFileName fid)).reverse ≠ [] then
      imms ++ [⟨fid, (d.walRecords (walFileName fid)).reverse⟩] else imms)
      (d.createWal (walFileName fid))
    simp only [Disk.walRecords_createWal, Disk.createWal_tables] at ht hr hm
    refine ⟨ht, hr, fun name h => ?_, fun m => ?_⟩
    · rcases hn name h with h | ⟨f, hf, rfl⟩
      · rcases Disk.mem_createWal.mp h with rfl | h
        · exact .inr ⟨fid, List.mem_cons_self _ _, rfl⟩
        · exact .inl h
      · exact .inr ⟨f, List.mem_cons_of_mem _ hf, rfl⟩
    · rw [hm]
      by_cases he : d.walRecords (walFileName fid) = []
      · simp [he]
      · simp [he]
        tauto

-- ============================================================================
-- Invariants of the runs
-- ============================================================================

/-- The WAL files of the active memtable and the immutables. -/
def World.walNames (w : World) : List (List Char) :=
  (w.lsm.memTable :: w.lsm.immutables).map (walFileName ·.fid)

/-- Every `%05d.wal` file that holds records belongs to the active memtable or an immutable,
    and every WAL file's name is one recovery parses. -/
structure WalsTracked (w : World) : Prop where
  live : ∀ fid, w.disk.walRecords (walFileName fid) ≠ [] → walFileName fid ∈ w.walNames
  parse : ∀ name ∈ w.disk.wals, WalNameParses name

theorem WalsTracked.of_removed {w w' : World} (h : WalsTracked w) (hl : w'.lsm = w.lsm)
    (hd : w.disk.Removed w'.disk) : WalsTracked w' := by
  refine ⟨fun fid hfid => ?_, fun name hn => h.parse name (hd.mem hn)⟩
  rcases hd.walRecords (walFileName fid) with h' | h'
  · exact absurd h' hfid
  · simpa [World.walNames, hl] using h.live fid (h' ▸ hfid)

theorem WalsTracked.sealMemTable {w : World} (h : WalsTracked w) :
    WalsTracked (sealMemTable w) := by
  refine ⟨fun fid hfid => ?_, fun name hn => ?_⟩
  · rw [sealMemTable_disk, Disk.walRecords_createWal] at hfid
    have := h.live fid hfid
    simp only [World.walNames, List.map_cons, List.mem_cons, List.map_append, List.mem_append,
      sealMemTable_lsm] at this ⊢
    tauto
  · rcases Disk.mem_createWal.mp hn with rfl | hn
    · exact walNameParses_walFileName _
    · exact h.parse name hn

theorem WalsTracked.written {w : World} (h : WalsTracked w) (e : Entry) :
    WalsTracked (w.written e) := by
  refine ⟨fun fid hfid => ?_, fun name hn => h.parse name (Disk.mem_appendWal.mp hn)⟩
  have hnames : (w.written e).walNames = w.walNames := rfl
  rw [hnames]
  by_cases hfa : walFileName fid = walFileName w.lsm.memTable.fid
  · rw [hfa]; exact List.mem_cons_self _ _
  · apply h.live fid
    simp only [World.written_disk, Disk.appendWal, Disk.walRecords] at hfid ⊢
    split at hfid
    · rwa [AList.lookup_insert_ne hfa] at hfid
    · exact hfid

/-- A flush loop that flushed and closed the whole queue leaves no record outside the
    active memtable's WAL file, so the queue can be cleared. -/
theorem WalsTracked.clear {w w' : World} (h : WalsTracked w)
    (hf : FlushedClosed w.lsm.immutables w w' w.lsm.immutables.length w.lsm.immutables.length) :
    WalsTracked (clearImmutables w') := by
  have h' := h.of_removed hf.lsm hf.removed
  refine ⟨fun fid hfid => ?_, by simpa using h'.parse⟩
  rw [clearImmutables_disk] at hfid
  have hmem := h'.live fid hfid
  simp only [World.walNames, hf.lsm, List.map_cons, List.mem_cons, List.mem_map,
    clearImmutables_lsm, List.map_nil, List.mem_singleton] at hmem ⊢
  rcases hmem with hmem | ⟨m, hm, hname⟩
  · exact .inl hmem
  · have hgone := hf.closed m (by rwa [List.take_length])
    exact absurd (Disk.walRecords_of_not_mem (hname ▸ hgone)) hfid

/-- `WalsTracked` holds along every run of `Set` calls. -/
theorem WalsTracked.run {opt : LsmOptions} {p q : World × List Entry}
    (hrun : Relation.ReflTransGen (SetStep opt) p q) (hp : WalsTracked p.1) : WalsTracked q.1 :=
  SetStep.preserves (fun _ h => h.sealMemTable) (fun _ h => ⟨h.live, h.parse⟩)
    (fun _ e h => h.written e) (fun _ _ _ h hf => h.of_removed hf.lsm hf.removed)
    (fun _ _ h hf => h.clear (by simpa using hf)) hrun hp

-- ============================================================================
-- initLSM
-- ============================================================================

/-- `initLSM` on a directory whose names all parse. -/
theorem initLSM_of_walFileIds {lm : UInt64} {d : Disk} {o : List Outcome} {ids : List UInt64}
    (h : walFileIds d.wals.keys = .ok ids) :
    initLSM lm d o = .ok ⟨⟨⟨maxFidOf lm ids + 1, []⟩,
      (recoverMemTables (ids.insertionSort (· ≤ ·)) ([], d)).1, maxFidOf lm ids + 1⟩,
      (recoverMemTables (ids.insertionSort (· ≤ ·)) ([], d)).2.createWal
        (walFileName (maxFidOf lm ids + 1)), o⟩ := by
  simp only [initLSM, h]
  rfl

theorem initLSM_eq_ok {lm : UInt64} {d : Disk} {o : List Outcome} {w : World}
    (h : initLSM lm d o = .ok w) : ∃ ids, walFileIds d.wals.keys = .ok ids ∧
      w = ⟨⟨⟨maxFidOf lm ids + 1, []⟩,
        (recoverMemTables (ids.insertionSort (· ≤ ·)) ([], d)).1, maxFidOf lm ids + 1⟩,
        (recoverMemTables (ids.insertionSort (· ≤ ·)) ([], d)).2.createWal
          (walFileName (maxFidOf lm ids + 1)), o⟩ := by
  cases hids : walFileIds d.wals.keys with
  | error e => simp [initLSM, hids] at h
  | ok ids =>
    rw [initLSM_of_walFileIds hids] at h
    exact ⟨ids, rfl, (Except.ok.inj h).symm⟩

/-- Recovery leaves every `%05d.wal` file that holds records queued, and every name parsable. -/
theorem WalsTracked.initLSM {lm : UInt64} {d : Disk} {o : List Outcome} {w : World}
    (h : initLSM lm d o = .ok w) : WalsTracked w := by
  obtain ⟨ids, hids, rfl⟩ := initLSM_eq_ok h
  obtain ⟨-, hr, hn, hm⟩ := recoverMemTables_spec (ids.insertionSort (· ≤ ·)) [] d
  have hparse : ∀ name ∈ d.wals, WalNameParses name := fun name hn =>
    walFileIds_ok_iff.mp ⟨ids, hids⟩ name (AList.mem_keys.mp hn)
  refine ⟨fun fid hfid => ?_, fun name hname => ?_⟩
  · rw [Disk.walRecords_createWal, hr] at hfid
    have hid : fid ∈ ids.insertionSort (· ≤ ·) := (List.perm_insertionSort _ _).mem_iff.mpr
      (mem_of_walFileIds hids (AList.mem_keys.mp (Disk.mem_of_walRecords hfid)))
    have hq := (hm ⟨fid, (d.walRecords (walFileName fid)).reverse⟩).mpr
      (.inr ⟨fid, hid, hfid, rfl⟩)
    simp only [World.walNames, List.map_cons, List.mem_cons, List.mem_map]
    exact .inr ⟨_, hq, rfl⟩
  · rcases Disk.mem_createWal.mp hname with rfl | hname
    · exact walNameParses_walFileName _
    rcases hn name hname with hname | ⟨fid, -, rfl⟩
    · exact hparse name hname
    · exact walNameParses_walFileName fid

-- ============================================================================
-- Close, then initLSM
-- ============================================================================

/-- After `LSM.Close` returns nil, no `%05d.wal` file holds a record. -/
theorem WalsTracked.lsmClose {w w' : World} (h : WalsTracked w) (hc : lsmClose w = .ok () w') :
    ∀ fid, w'.disk.walRecords (walFileName fid) = [] := by
  obtain ⟨-, hrem, hgone⟩ := lsmClose_ok hc
  intro fid
  by_contra hne
  rcases hrem.walRecords (walFileName fid) with h0 | hsame
  · exact hne h0
  obtain ⟨m, hm, hname⟩ := List.mem_map.mp (h.live fid (hsame ▸ hne))
  exact hne (Disk.walRecords_of_not_mem (hname ▸ hgone m hm))

/-- `initLSM` on a directory whose names parse and whose `%05d.wal` files hold no record
    succeeds, with an empty active memtable and no immutable. -/
theorem initLSM_of_no_records (lm : UInt64) {d : Disk} (o : List Outcome)
    (hparse : ∀ name ∈ d.wals, WalNameParses name)
    (hempty : ∀ fid, d.walRecords (walFileName fid) = []) :
    ∃ w, initLSM lm d o = .ok w ∧ w.lsm.memTable.sl = [] ∧ w.lsm.immutables = [] ∧
      w.disk.tables = d.tables := by
  obtain ⟨ids, hids⟩ := walFileIds_ok_iff.mpr fun name hn => hparse name (AList.mem_keys.mpr hn)
  obtain ⟨ht, -, -, hm⟩ := recoverMemTables_spec (ids.insertionSort (· ≤ ·)) [] d
  refine ⟨_, initLSM_of_walFileIds hids, rfl, ?_, by simpa using ht⟩
  exact List.eq_nil_iff_forall_not_mem.mpr fun m hmem => by
    rcases (hm m).mp hmem with h | ⟨fid, -, hne, -⟩
    · cases h
    · exact hne (hempty fid)

theorem lsmGet_of_memTables_empty {w : World} (hsl : w.lsm.memTable.sl = [])
    (himms : w.lsm.immutables = []) (key : Bytes) : lsmGet w key = levelsGet w.disk key := by
  simp [lsmGet, MemTable.get, findKey, hsl, himms]

theorem levelsGet_congr {d d' : Disk} (h : d.tables = d'.tables) (key : Bytes) :
    levelsGet d key = levelsGet d' key := by
  simp [levelsGet, h]

/-- Along every run of `Set` calls from `initLSM`, a `Close` that returns nil leaves a
    directory on which `initLSM` succeeds, whatever `levels.maxFID` it loads, and whose `Get`
    returns exactly what the level manager held at the `Close`: every entry still in the active
    memtable or an immutable is lost. -/
theorem close_then_reopen_reads_only_tables {lm : UInt64} {d : Disk} {o : List Outcome}
    {w₀ : World} (h₀ : initLSM lm d o = .ok w₀) {opt : LsmOptions} {w : World}
    {hist : List Entry}
    (hrun : Relation.ReflTransGen (SetStep opt) (w₀, []) (w, hist)) {w' : World}
    (hclose : lsmClose w = .ok () w') (lm' : UInt64) (o' : List Outcome) :
    ∃ w'', initLSM lm' w'.disk o' = .ok w'' ∧
      ∀ key, lsmGet w'' key = levelsGet w.disk key := by
  have htr : WalsTracked w := WalsTracked.run hrun (WalsTracked.initLSM h₀)
  obtain ⟨ht, hrem, -⟩ := lsmClose_ok hclose
  obtain ⟨w'', hinit, hsl, himms, ht''⟩ := initLSM_of_no_records lm' o'
    (fun name hn => htr.parse name (hrem.mem hn)) (htr.lsmClose hclose)
  exact ⟨w'', hinit, fun key => by
    rw [lsmGet_of_memTables_empty hsl himms, levelsGet_congr (ht''.trans ht)]⟩

/-- An empty working directory. -/
def emptyDisk : Disk := ⟨∅, []⟩

/-- The engine `initLSM` starts on an empty directory: fid 1 active, `00001.wal` empty. -/
def freshWorld : World :=
  ⟨⟨⟨1, []⟩, [], 1⟩,
    ⟨(∅ : AList fun _ : List Char => List Entry).insert (walFileName 1) [], []⟩, []⟩

/-- After `Set(kv1)` on it: `kv1` in the active memtable and in `00001.wal`. -/
def oneSetWorld : World :=
  ⟨⟨⟨1, [kv1]⟩, [], 1⟩,
    ⟨(∅ : AList fun _ : List Char => List Entry).insert (walFileName 1) [kv1], []⟩, []⟩

/-- `Set(kv1)` on a fresh engine returns nil and `Get` sees it; `Close` returns nil and leaves
    an empty directory, and the reopened engine's `Get` no longer finds the key. -/
theorem close_then_reopen_loses_set :
    initLSM 0 emptyDisk [] = .ok freshWorld ∧
    lsmSet roomyOptions kv1 freshWorld = .ok () oneSetWorld ∧
    lsmGet oneSetWorld kv1.key = some kv1 ∧
    lsmClose oneSetWorld = .ok () { oneSetWorld with disk := emptyDisk } ∧
    ∃ w'', initLSM 0 emptyDisk [] = .ok w'' ∧
      ∀ key, lsmGet w'' key = levelsGet oneSetWorld.disk key := by
  have h₀ : initLSM 0 emptyDisk [] = .ok freshWorld := rfl
  have hset : lsmSet roomyOptions kv1 freshWorld = .ok () oneSetWorld := rfl
  have hclose : lsmClose oneSetWorld = .ok () { oneSetWorld with disk := emptyDisk } := rfl
  exact ⟨h₀, hset, rfl, hclose,
    close_then_reopen_reads_only_tables h₀ (.single (.ok kv1 hset)) hclose 0 []⟩

-- ============================================================================
-- The fids NewMemtable hands out
-- ============================================================================

/-- The running maximum of recovery is at least `levels.maxFID` and every fid it saw. -/
theorem le_maxFidOf (lm : UInt64) (ids : List UInt64) :
    lm ≤ maxFidOf lm ids ∧ ∀ id ∈ ids, id ≤ maxFidOf lm ids := by
  induction ids generalizing lm with
  | nil => exact ⟨UInt64.le_refl _, by simp⟩
  | cons id ids ih =>
    have hstep : lm ≤ (if lm < id then id else lm) ∧ id ≤ (if lm < id then id else lm) := by
      split
      · next h =>
        exact ⟨(UInt64.le_total lm id).resolve_right (UInt64.not_le.mpr h), UInt64.le_refl _⟩
      · next h => exact ⟨UInt64.le_refl _, UInt64.not_lt.mp h⟩
    obtain ⟨h₁, h₂⟩ := ih (if lm < id then id else lm)
    refine ⟨UInt64.le_trans hstep.1 h₁, fun x hx => ?_⟩
    rcases List.mem_cons.mp hx with rfl | hx
    · exact UInt64.le_trans hstep.2 h₁
    · exact h₂ x hx

/-- The active memtable holds the last fid handed out. -/
theorem fid_eq_maxFID_run {opt : LsmOptions} {p q : World × List Entry}
    (hrun : Relation.ReflTransGen (SetStep opt) p q)
    (hp : p.1.lsm.memTable.fid = p.1.lsm.maxFID) : q.1.lsm.memTable.fid = q.1.lsm.maxFID :=
  SetStep.preserves (P := fun w => w.lsm.memTable.fid = w.lsm.maxFID) (fun _ _ => rfl)
    (fun _ h => h) (fun _ _ h => h) (fun _ _ _ h hf => by simpa [hf.lsm] using h)
    (fun _ _ h hf => by simpa [hf.lsm] using h) hrun hp

/-- A step keeps the active fid, or hands out the next one. -/
theorem SetStep.fid_step {opt : LsmOptions} {p q : World × List Entry} (h : SetStep opt p q) :
    (q.1.lsm.memTable.fid = p.1.lsm.memTable.fid ∧ q.1.lsm.maxFID = p.1.lsm.maxFID) ∨
      (q.1.lsm.memTable.fid = p.1.lsm.maxFID + 1 ∧ q.1.lsm.maxFID = p.1.lsm.maxFID + 1) := by
  obtain ⟨e, w₁, hw₁, rfl | ⟨w₃, rfl, hf⟩ | ⟨j, w₃, rfl, hf⟩⟩ := h.shape
  · rcases hw₁ with rfl | rfl <;> simp
  all_goals rcases hw₁ with rfl | rfl <;> simp [hf.lsm]

/-- Every fid `NewMemtable` hands out after `initLSM`: the first is one past the largest of
    `levels.maxFID` and the fids recovery parsed, and every `Set` keeps the active fid or
    hands out the previous one plus one, in `uint64` arithmetic. -/
theorem newMemtable_fid_sequence {lm : UInt64} {d : Disk} {o : List Outcome} {w₀ : World}
    {ids : List UInt64} (hids : walFileIds d.wals.keys = .ok ids)
    (h₀ : initLSM lm d o = .ok w₀) :
    lm ≤ maxFidOf lm ids ∧ (∀ id ∈ ids, id ≤ maxFidOf lm ids) ∧
    w₀.lsm.memTable.fid = maxFidOf lm ids + 1 ∧
    ∀ {opt : LsmOptions} {p q : World × List Entry},
      Relation.ReflTransGen (SetStep opt) (w₀, []) p → SetStep opt p q →
      q.1.lsm.memTable.fid = p.1.lsm.memTable.fid ∨
        q.1.lsm.memTable.fid = p.1.lsm.memTable.fid + 1 := by
  rw [initLSM_of_walFileIds hids] at h₀
  cases h₀
  refine ⟨(le_maxFidOf lm ids).1, (le_maxFidOf lm ids).2, rfl, fun hp hs => ?_⟩
  have hinv := fid_eq_maxFID_run hp rfl
  rcases hs.fid_step with ⟨h, -⟩ | ⟨h, -⟩
  · exact .inl h
  · exact .inr (by rw [h, hinv])

/-- A directory holding an empty `18446744073709551615.wal`. -/
def maxFidDisk : Disk :=
  ⟨(∅ : AList fun _ : List Char => List Entry).insert "18446744073709551615.wal".toList [],
    []⟩

/-- What `initLSM` makes of it after `levels.maxFID = 0`: no immutable, and fid 0 active. -/
def wrappedWorld : World :=
  ⟨⟨⟨0, []⟩, [], 0⟩, ⟨maxFidDisk.wals.insert (walFileName 0) [], []⟩, []⟩

/-- Recovery's maximum is the largest `uint64`; the first fid `NewMemtable` hands out is 0,
    below it. -/
theorem newMemtable_fid_wraps :
    walFileIds maxFidDisk.wals.keys = .ok [18446744073709551615] ∧
    initLSM 0 maxFidDisk [] = .ok wrappedWorld ∧
    (0 ≤ maxFidOf 0 [18446744073709551615] ∧
      (∀ id ∈ [(18446744073709551615 : UInt64)], id ≤ maxFidOf 0 [18446744073709551615]) ∧
      wrappedWorld.lsm.memTable.fid = maxFidOf 0 [18446744073709551615] + 1 ∧
      ∀ {opt : LsmOptions} {p q : World × List Entry},
        Relation.ReflTransGen (SetStep opt) (wrappedWorld, []) p → SetStep opt p q →
        q.1.lsm.memTable.fid = p.1.lsm.memTable.fid ∨
          q.1.lsm.memTable.fid = p.1.lsm.memTable.fid + 1) ∧
    wrappedWorld.lsm.memTable.fid = 0 := by
  have hids : walFileIds maxFidDisk.wals.keys = .ok [18446744073709551615] := rfl
  have h₀ : initLSM 0 maxFidDisk [] = .ok wrappedWorld := rfl
  exact ⟨hids, h₀, newMemtable_fid_sequence hids h₀, rfl⟩

end TinyLsm

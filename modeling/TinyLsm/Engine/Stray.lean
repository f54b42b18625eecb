import TinyLsm.Engine.Session
/-
  TinyLsm.Engine.Stray

  The WAL files that no memtable owns.  Recovery opens the WAL file of every
  fid it finds and queues the memtable only when its index is not empty
  (`if memTable.sl.Size() != 0`): the file of an empty one stays in the
  directory, and only `memTable.close` removes a WAL file.  A restart of an
  engine whose active memtable is still empty leaves its file behind so.

    * `World.Stray` — a present, empty WAL file that is the file of no
      memtable of the engine; `World.strayWals` lists them.
    * `engineRun_stray_persists` — along every session, a stray file stays
      stray: no call, crash or restart removes it, writes to it, or gives its
      name to a memtable.
    * `restarts_strand_wals` — `n` restarts in a row of an engine whose
      active memtable is empty leave at least `n` more stray files.
-/

namespace TinyLsm

-- ============================================================================
-- Stray WAL files
-- ============================================================================

/-- A stray WAL file: present and empty, and the WAL file of no memtable of the engine. -/
structure World.Stray (w : World) (name : List Char) : Prop where
  mem : name ∈ w.disk.wals
  empty : w.disk.walRecords name = []
  untracked : ∀ m ∈ w.memTables, name ≠ walFileName m.fid

instance (w : World) : DecidablePred w.Stray := fun name =>
  decidable_of_iff (name ∈ w.disk.wals ∧ w.disk.walRecords name = [] ∧
      ∀ m ∈ w.memTables, name ≠ walFileName m.fid)
    ⟨fun ⟨a, b, c⟩ => ⟨a, b, c⟩, fun ⟨a, b, c⟩ => ⟨a, b, c⟩⟩

/-- The stray WAL files of the directory. -/
def World.strayWals (w : World) : List (List Char) :=
  w.disk.wals.keys.filter fun name => decide (w.Stray name)

theorem World.mem_strayWals {w : World} {name : List Char} :
    name ∈ w.strayWals ↔ w.Stray name := by
  simp only [World.strayWals, List.mem_filter, AList.mem_keys, decide_eq_true_eq]
  exact ⟨fun h => h.2, fun h => ⟨h.mem, h⟩⟩

theorem World.strayWals_nodup (w : World) : w.strayWals.Nodup :=
  w.disk.wals.keys_nodup.filter _

-- ============================================================================
-- What each operation does to a stray file
-- ============================================================================

namespace World.Stray

variable {w : World} {name : List Char}

theorem next (h : w.Stray name) : w.next.Stray name := ⟨h.mem, h.empty, h.untracked⟩

/-- The rotation opens the WAL file of another name. -/
theorem sealMemTable (h : w.Stray name) (hne : name ≠ walFileName (w.lsm.maxFID + 1)) :
    (TinyLsm.sealMemTable w).Stray name := by
  have hms : (TinyLsm.sealMemTable w).memTables = w.memTables ++ [⟨w.lsm.maxFID + 1, []⟩] := rfl
  refine ⟨by simp [h.mem], by rw [sealMemTable_disk, Disk.walRecords_createWal]; exact h.empty,
    fun m hm => ?_⟩
  rw [hms, List.mem_append, List.mem_singleton] at hm
  rcases hm with hm | rfl
  exacts [h.untracked m hm, hne]

/-- The write appends to the active memtable's file. -/
theorem written (h : w.Stray name) (e : Entry) : (w.written e).Stray name := by
  have hne : name ≠ walFileName w.lsm.memTable.fid :=
    h.untracked _ (List.mem_append_right _ (List.mem_singleton_self _))
  refine ⟨Disk.mem_appendWal.mpr h.mem, ?_, fun m hm => ?_⟩
  · rw [World.written_disk, Disk.walRecords_appendWal_ne e hne]
    exact h.empty
  · simp only [World.memTables, World.written_lsm, List.mem_append, List.mem_singleton] at hm
    rcases hm with hm | rfl
    exacts [h.untracked m (List.mem_append_left _ hm), hne]

/-- The flush loop removes only WAL files of immutables. -/
theorem flushed {w' : World} {i j : Nat} (h : w.Stray name)
    (hf : FlushedClosed w.lsm.immutables w w' i j) : w'.Stray name := by
  have hl := hf.kept name fun m hm =>
    h.untracked m (List.mem_append_left _ (List.mem_of_mem_take hm))
  refine ⟨Disk.mem_of_lookup hl h.mem, (Disk.walRecords_of_lookup hl).trans h.empty, ?_⟩
  simpa only [World.memTables, hf.lsm] using h.untracked

theorem clear (h : w.Stray name) : (clearImmutables w).Stray name := by
  refine ⟨by simpa using h.mem, by simpa using h.empty, fun m hm => ?_⟩
  simp only [World.memTables, clearImmutables_lsm, List.nil_append, List.mem_singleton] at hm
  exact h.untracked m (hm ▸ List.mem_append_right _ (List.mem_singleton_self _))

/-- A `Set` call, however it ends, keeps a stray file stray, unless its rotation opens a
    file of that name. -/
theorem lsmSet {opt : LsmOptions} {e : Entry} {w' : World} (h : w.Stray name)
    (hne : name ≠ walFileName (w.lsm.maxFID + 1)) (hs : Leaves (lsmSet opt e) w w') :
    w'.Stray name := by
  obtain ⟨w₁, hw₁, hc⟩ := lsmSet_cases opt e w
  have h₁ : w₁.Stray name := by
    rcases hw₁ with rfl | rfl
    exacts [h, h.sealMemTable hne]
  rcases hc with hs' | hs' | ⟨w₃, hs', hf⟩ | ⟨j, -, w₃, hs', hf⟩ |
      ⟨err, w₃, i, j, -, -, -, hs', hf⟩ <;>
    rcases hs with ⟨_, hs⟩ | ⟨_, hs⟩ <;> rw [hs'] at hs <;> cases hs
  · exact h₁.next
  · exact h₁.next
  · exact ((h₁.written e).flushed hf).clear
  · exact (h₁.written e).flushed hf
  · exact (h₁.written e).flushed hf

end World.Stray

theorem recoverMemTables_mem (fids : List UInt64) (imms : List MemTable) {d : Disk}
    {name : List Char} (hn : name ∈ d.wals) :
    name ∈ (recoverMemTables fids (imms, d)).2.wals := by
  induction fids generalizing imms d with
  | nil => exact hn
  | cons fid fids ih =>
    simp only [recoverMemTables, recoveryMemTable]
    exact ih _ (Disk.mem_createWal.mpr (.inr hn))

/-- Recovery leaves an empty `%05d.wal` file in place and queues no memtable for it; the
    memtable it opens takes a fid above every fid of the directory. -/
theorem initLSM_stray {lm : UInt64} {d : Disk} {o : List Outcome} {w : World}
    (h₀ : initLSM lm d o = .ok w) (hc : d.Canonical)
    (hroom : ∀ fid, walFileName fid ∈ d.wals → fid.toNat + 1 < UInt64.size)
    (hlm : lm.toNat + 1 < UInt64.size) {name : List Char} (hn : name ∈ d.wals)
    (hempty : d.walRecords name = []) : w.Stray name := by
  obtain ⟨f, rfl⟩ := hc _ hn
  obtain ⟨fids, hkeys, -⟩ := hc.keys
  have hids : walFileIds d.wals.keys = .ok fids := by rw [hkeys, walFileIds_map_walFileName]
  have hf : f.toNat ≤ (maxFidOf lm fids).toNat :=
    (le_maxFidOf lm fids).2 f ((mem_keys_map_walFileName hkeys).mpr hn)
  have hsucc : (maxFidOf lm fids + 1).toNat = (maxFidOf lm fids).toNat + 1 := by
    refine uint64_toNat_succ ?_
    rcases maxFidOf_mem lm fids with h | h
    · rw [h]; exact hlm
    · exact hroom _ ((mem_keys_map_walFileName hkeys).mp h)
  rw [initLSM_of_walFileIds hids] at h₀
  cases h₀
  obtain ⟨-, hr, -, hm⟩ := recoverMemTables_spec (fids.insertionSort (· ≤ ·)) [] d
  refine ⟨Disk.mem_createWal.mpr (.inr (recoverMemTables_mem _ _ hn)), ?_, fun m hm' => ?_⟩
  · rw [Disk.walRecords_createWal, hr, hempty]
  · simp only [World.memTables, List.mem_append, List.mem_singleton] at hm'
    rcases hm' with hm' | rfl
    · rcases (hm m).mp hm' with h | ⟨g, -, hg, rfl⟩
      · cases h
      · intro heq
        obtain rfl : f = g := walFileName_injective heq
        exact hg hempty
    · intro heq
      rw [show f = maxFidOf lm fids + 1 from walFileName_injective heq, hsucc] at hf
      omega

-- ============================================================================
-- Sessions
-- ============================================================================

/-- The fid of a stray file is at most the counter, so the rotation does not reopen it. -/
theorem Recoverable.stray_ne {w : World} (h : Recoverable w)
    (hroom : w.lsm.maxFID.toNat + 1 < UInt64.size) {name : List Char} (hst : w.Stray name) :
    name ≠ walFileName (w.lsm.maxFID + 1) := by
  obtain ⟨f, rfl⟩ := h.logs.canonical _ hst.mem
  intro heq
  have hb := h.bound f hst.mem
  rw [walFileName_injective heq, uint64_toNat_succ hroom] at hb
  omega

/-- One step of a session keeps a stray file stray. -/
theorem EngineStep.stray {opt : LsmOptions} {w w' : World} {ev : EngineEvent}
    (hs : EngineStep opt w ev w') (h : Recoverable w) {name : List Char} (hst : w.Stray name) :
    w'.Stray name := by
  cases hs with
  | acked e hroom hset => exact hst.lsmSet (h.stray_ne hroom hst) (.inl ⟨_, hset⟩)
  | failed e hroom hset => exact hst.lsmSet (h.stray_ne hroom hst) (.inr ⟨_, hset⟩)
  | crashed e err lm o hroom hlm hset hinit =>
    have h₁ := hst.lsmSet (h.stray_ne (by omega) hst) (.inr ⟨_, hset⟩)
    obtain ⟨hc, hb⟩ := h.wals_of_lsmSet_error (by omega) hset
    exact initLSM_stray hinit hc (fun fid hf => by have := hb fid hf; omega) hlm h₁.mem h₁.empty
  | restarted lm o hroom hlm hinit =>
    exact initLSM_stray hinit h.logs.canonical (fun fid hf => by have := h.bound fid hf; omega)
      hlm hst.mem hst.empty

/-- **A stray WAL file stays for good.**  Along every session from an engine whose directory
    logs its memtables, a stray file stays stray: no `Set` call, crash or restart removes it,
    writes to it, or gives its name to a memtable. -/
theorem engineRun_stray_persists {opt : LsmOptions} {w w' : World} {evs : List EngineEvent}
    (hrun : EngineRun opt w evs w') (h : Recoverable w) {name : List Char}
    (hst : w.Stray name) : w'.Stray name := by
  induction hrun with
  | refl => exact hst
  | tail hr hs ih => exact hs.stray (hr.recoverable h) ih

/-- A restart of an engine whose active memtable is empty strands its WAL file, and the
    engine it starts has an empty active memtable again. -/
theorem EngineStep.restart_strands {opt : LsmOptions} {w w' : World}
    (hs : EngineStep opt w .restart w') (h : Recoverable w) (hsl : w.lsm.memTable.sl = []) :
    w'.Stray (walFileName w.lsm.memTable.fid) ∧ w'.lsm.memTable.sl = [] := by
  cases hs with
  | restarted lm o hroom hlm hinit =>
    obtain ⟨hmem, hact⟩ := h.logs.logged _ (List.mem_append_right _ (List.mem_singleton_self _))
    have hempty : w.disk.walRecords (walFileName w.lsm.memTable.fid) = [] := by
      simpa [Disk.walMemTable, hsl] using (congrArg MemTable.sl hact).symm
    refine ⟨initLSM_stray hinit h.logs.canonical (fun fid hf => by have := h.bound fid hf; omega)
      hlm hmem hempty, ?_⟩
    obtain ⟨ids, -, rfl⟩ := initLSM_eq_ok hinit
    rfl

/-- **Restarts strand WAL files.**  `n` restarts in a row of an engine whose directory logs
    its memtables and whose active memtable is empty leave at least `n` more stray WAL
    files. -/
theorem restarts_strand_wals {opt : LsmOptions} {w w' : World} {evs : List EngineEvent}
    (hrun : EngineRun opt w evs w') (h : Recoverable w) (hsl : w.lsm.memTable.sl = [])
    (hall : ∀ ev ∈ evs, ev = .restart) :
    w.strayWals.length + evs.length ≤ w'.strayWals.length := by
  suffices w'.lsm.memTable.sl = [] ∧ w.strayWals.length + evs.length ≤ w'.strayWals.length from
    this.2
  induction hrun with
  | refl => exact ⟨hsl, by simp⟩
  | @tail w₁ w₂ evs ev hr hs ih =>
    obtain ⟨hsl₁, hlen⟩ := ih fun ev hev => hall ev (List.mem_append_left _ hev)
    obtain rfl := hall ev (List.mem_append_right _ (List.mem_singleton_self _))
    have h₁ := hr.recoverable h
    obtain ⟨hnew, hsl₂⟩ := hs.restart_strands h₁ hsl₁
    -- the active memtable's file was not stray before the restart
    have hfresh : walFileName w₁.lsm.memTable.fid ∉ w₁.strayWals := fun hmem =>
      (World.mem_strayWals.mp hmem).untracked _
        (List.mem_append_right _ (List.mem_singleton_self _)) rfl
    have hsub : walFileName w₁.lsm.memTable.fid :: w₁.strayWals ⊆ w₂.strayWals := by
      refine List.cons_subset.mpr ⟨World.mem_strayWals.mpr hnew, fun name hn => ?_⟩
      exact World.mem_strayWals.mpr (hs.stray h₁ (World.mem_strayWals.mp hn))
    have hle := ((List.nodup_cons.mpr ⟨hfresh, w₁.strayWals_nodup⟩).subperm hsub).length_le
    rw [List.length_cons] at hle
    refine ⟨hsl₂, ?_⟩
    rw [List.length_append, List.length_singleton]
    omega

-- ============================================================================
-- Restarts of a fresh engine
-- ============================================================================

/-- `freshWorld` restarted: `00001.wal` is stray and fid 2 active. -/
def restartedOnce : World :=
  ⟨⟨⟨2, []⟩, [], 2⟩, ⟨freshWorld.disk.wals.insert (walFileName 2) [], []⟩, []⟩

/-- Restarted again: `00001.wal` and `00002.wal` are stray and fid 3 active. -/
def restartedTwice : World :=
  ⟨⟨⟨3, []⟩, [], 3⟩, ⟨restartedOnce.disk.wals.insert (walFileName 3) [], []⟩, []⟩

theorem freshWorld_recoverable : Recoverable freshWorld :=
  .of_initLSM initLSM_emptyDisk emptyDisk_canonical emptyDisk_room (by decide)

theorem engineStep_restart_fresh : EngineStep roomyOptions freshWorld .restart restartedOnce :=
  .restarted 0 [] (by decide) (by decide) rfl

theorem engineStep_restart_once : EngineStep roomyOptions restartedOnce .restart restartedTwice :=
  .restarted 0 [] (by decide) (by decide) rfl

/-- The stray `00001.wal` of `restartedOnce` is still stray after one more restart. -/
theorem stray_persists_restart :
    EngineRun roomyOptions restartedOnce [.restart] restartedTwice ∧ Recoverable restartedOnce ∧
      restartedOnce.Stray (walFileName 1) ∧ restartedTwice.Stray (walFileName 1) :=
  have hrun : EngineRun roomyOptions restartedOnce [.restart] restartedTwice :=
    .tail (.refl _) engineStep_restart_once
  have h : Recoverable restartedOnce := engineStep_restart_fresh.recoverable freshWorld_recoverable
  have hst : restartedOnce.Stray (walFileName 1) := by decide
  ⟨hrun, h, hst, engineRun_stray_persists hrun h hst⟩

/-- Two restarts of a fresh engine strand two WAL files. -/
theorem two_restarts_strand_two :
    EngineRun roomyOptions freshWorld [.restart, .restart] restartedTwice ∧
      Recoverable freshWorld ∧ freshWorld.lsm.memTable.sl = [] ∧
      (∀ ev ∈ [EngineEvent.restart, .restart], ev = .restart) ∧
      freshWorld.strayWals.length + 2 ≤ restartedTwice.strayWals.length :=
  have hone : EngineRun roomyOptions freshWorld [.restart] restartedOnce :=
    .tail (.refl _) engineStep_restart_fresh
  have hrun : EngineRun roomyOptions freshWorld [.restart, .restart] restartedTwice :=
    .tail hone engineStep_restart_once
  ⟨hrun, freshWorld_recoverable, rfl, by decide,
    restarts_strand_wals hrun freshWorld_recoverable rfl (by decide)⟩

example : restartedTwice.strayWals = [walFileName 2, walFileName 1] := by decide

end TinyLsm

import TinyLsm.Engine.Session
/-
  TinyLsm.Engine.Capacity

  What the rotation check of `LSM.Set` buys.  `Set` seals the active memtable
  when `wal.Size()` plus `utils.EstimateWalCodecSize(entry)` would pass
  `MemTableSize`, and the WAL file it then writes to is new.  So when the
  estimate is at least the record `wal.Write` appends (the precondition of the
  results below), every WAL file holds a single record or records of at most
  `MemTableSize` bytes: an entry larger than the option goes, alone, into a
  memtable of its own.

    * `WalWithin`, `Disk.WalsWithin` — the bound, for one file and for the
      directory;
    * `lsmSet_walsWithin` — one `Set` call keeps it, however the call ends;
    * `engineRun_wals_within` — every session of calls, stops and restarts
      keeps it, for the directory and for every memtable of the engine.
-/

namespace TinyLsm

variable (opt : LsmOptions)

/-- A WAL file within `MemTableSize`: one record at most, or records of at most
    `MemTableSize` bytes in all. -/
def WalWithin (recs : List Entry) : Prop :=
  recs.length ≤ 1 ∨ (((recs.map opt.walRecordSize).sum : Nat) : Int) ≤ opt.memTableSize

/-- Every WAL file of the directory is within `MemTableSize`. -/
def Disk.WalsWithin (d : Disk) : Prop := ∀ name, WalWithin opt (d.walRecords name)

variable {opt}

theorem walWithin_reverse {recs : List Entry} :
    WalWithin opt recs.reverse ↔ WalWithin opt recs := by
  simp [WalWithin, List.map_reverse, List.sum_reverse]

-- ============================================================================
-- The disk effects
-- ============================================================================

namespace Disk.WalsWithin

variable {d : Disk}

theorem createWal (h : d.WalsWithin opt) (n : List Char) : (d.createWal n).WalsWithin opt :=
  fun name => by rw [Disk.walRecords_createWal]; exact h name

theorem removed (h : d.WalsWithin opt) {d' : Disk} (hr : d.Removed d') : d'.WalsWithin opt :=
  fun name => by
    rcases hr.walRecords name with h' | h' <;> rw [h']
    · exact .inl (by simp)
    · exact h name

/-- An append to a file that is empty, or has room for the record, keeps the bound. -/
theorem appendWal (h : d.WalsWithin opt) {n : List Char} {e : Entry}
    (hroom : d.walRecords n = [] ∨
      ((((d.walRecords n).map opt.walRecordSize).sum + opt.walRecordSize e : Nat) : Int) ≤
        opt.memTableSize) :
    (d.appendWal n e).WalsWithin opt := by
  intro name
  by_cases hname : name = n
  · subst hname
    by_cases hn : name ∈ d.wals
    · rw [Disk.walRecords_appendWal_self e hn]
      rcases hroom with h' | h'
      · exact .inl (by simp [h'])
      · exact .inr (by simpa using h')
    · have : d.appendWal name e = d := by
        simp [Disk.appendWal, AList.lookup_eq_none.mpr hn]
      rw [this]
      exact h name
  · rw [Disk.walRecords_appendWal_ne e hname]
    exact h name

/-- Recovery only creates empty WAL files. -/
theorem initLSM (h : d.WalsWithin opt) {lm : UInt64} {o : List Outcome} {w : World}
    (h₀ : TinyLsm.initLSM lm d o = .ok w) : w.disk.WalsWithin opt := by
  obtain ⟨ids, -, rfl⟩ := initLSM_eq_ok h₀
  intro name
  rw [Disk.walRecords_createWal, (recoverMemTables_spec _ [] d).2.1]
  exact h name

end Disk.WalsWithin

-- ============================================================================
-- One Set call
-- ============================================================================

/-- The engine the rotation check leaves has a WAL file that is empty, or has room for the
    record of the entry: the check fired and the file is new, or it did not and the estimate
    fits. -/
theorem room_after_check {w : World} (h : Recoverable w)
    (hroom : w.lsm.maxFID.toNat + 1 < UInt64.size) {e : Entry}
    (hest : opt.walRecordSize e ≤ opt.estimateWalCodecSize e) :
    let w₁ := if opt.memTableSize < (walSize opt w.disk w.lsm.memTable : Int) +
        opt.estimateWalCodecSize e then sealMemTable w else w
    w₁.disk.walRecords (walFileName w₁.lsm.memTable.fid) = [] ∨
      ((((w₁.disk.walRecords (walFileName w₁.lsm.memTable.fid)).map opt.walRecordSize).sum +
        opt.walRecordSize e : Nat) : Int) ≤ opt.memTableSize := by
  intro w₁
  by_cases hc : opt.memTableSize < (walSize opt w.disk w.lsm.memTable : Int) +
      opt.estimateWalCodecSize e
  · refine .inl ?_
    simp only [w₁, hc, if_true, sealMemTable_disk, sealMemTable_lsm, Disk.walRecords_createWal]
    refine Disk.walRecords_of_not_mem fun hn => ?_
    have := h.bound _ hn
    rw [uint64_toNat_succ hroom] at this
    omega
  · refine .inr ?_
    simp only [w₁, hc, if_false]
    simp only [walSize] at hc
    rw [Nat.cast_add]
    omega

/-- **One `Set` call keeps the bound**, whether it returns nil, returns an error, or stops
    the process, provided the estimate covers the record. -/
theorem lsmSet_walsWithin {w w' : World} (h : Recoverable w)
    (hroom : w.lsm.maxFID.toNat + 1 < UInt64.size) {e : Entry}
    (hest : opt.walRecordSize e ≤ opt.estimateWalCodecSize e) (hw : w.disk.WalsWithin opt)
    (hset : lsmSet opt e w = .ok () w' ∨ ∃ err, lsmSet opt e w = .error err w') :
    w'.disk.WalsWithin opt := by
  rw [lsmSet_eq] at hset
  have hroom₁ := room_after_check h hroom hest
  generalize hw₁ : (if opt.memTableSize < (walSize opt w.disk w.lsm.memTable : Int) +
      opt.estimateWalCodecSize e then sealMemTable w else w) = w₁ at hset hroom₁
  have hb₁ : w₁.disk.WalsWithin opt := by
    rw [← hw₁]
    split
    · exact hw.createWal _
    · exact hw
  have hwritten : (w₁.written e).disk.WalsWithin opt := hb₁.appendWal hroom₁
  rcases lsmSetAfterCheck_cases e w₁ with hs | hs | ⟨w₃, hs, hf⟩ | ⟨j, -, w₃, hs, hf⟩ |
      ⟨err, w₃, i, j, -, -, -, hs, hf⟩ <;>
    rw [hs] at hset <;> obtain hset | ⟨_, hset⟩ := hset <;> cases hset
  · exact hb₁
  · exact hb₁
  · simpa using hwritten.removed hf.removed
  · exact hwritten.removed hf.removed
  · exact hwritten.removed hf.removed

-- ============================================================================
-- Sessions
-- ============================================================================

theorem EngineStep.walsWithin {w w' : World} {ev : EngineEvent} (hs : EngineStep opt w ev w')
    (h : Recoverable w) (hest : ∀ e, opt.walRecordSize e ≤ opt.estimateWalCodecSize e)
    (hw : w.disk.WalsWithin opt) : w'.disk.WalsWithin opt := by
  cases hs with
  | acked e hroom hset => exact lsmSet_walsWithin h hroom (hest e) hw (.inl hset)
  | failed e hroom hset => exact lsmSet_walsWithin h hroom (hest e) hw (.inr ⟨_, hset⟩)
  | crashed e err lm o hroom hlm hset hinit =>
    exact (lsmSet_walsWithin h (by omega) (hest e) hw (.inr ⟨err, hset⟩)).initLSM hinit
  | restarted lm o hroom hlm hinit => exact hw.initLSM hinit

/-- **Sessions keep every WAL file within `MemTableSize`.**  Start from `initLSM` on a
    directory of `%05d.wal` files that are within the bound (neither a fid of theirs nor
    `levels.maxFID` the largest `uint64`), with `EstimateWalCodecSize` at least the record
    `wal.Write` appends for every entry.  After any session of `Set` calls, stops and
    restarts, every WAL file of the directory, and the index of every memtable of the
    engine, holds one entry or entries whose records take at most `MemTableSize` bytes. -/
theorem engineRun_wals_within {lm : UInt64} {d : Disk} {o : List Outcome} {w₀ : World}
    (h₀ : initLSM lm d o = .ok w₀) (hd : d.Canonical)
    (hroom : ∀ fid, walFileName fid ∈ d.wals → fid.toNat + 1 < UInt64.size)
    (hlm : lm.toNat + 1 < UInt64.size)
    (hest : ∀ e, opt.walRecordSize e ≤ opt.estimateWalCodecSize e)
    (hwithin : d.WalsWithin opt) {evs : List EngineEvent} {w : World}
    (hrun : EngineRun opt w₀ evs w) :
    w.disk.WalsWithin opt ∧ ∀ m ∈ w.memTables, WalWithin opt m.sl := by
  have hinv : Recoverable w ∧ w.disk.WalsWithin opt := by
    induction hrun with
    | refl => exact ⟨.of_initLSM h₀ hd hroom hlm, hwithin.initLSM h₀⟩
    | tail _ hs ih => exact ⟨hs.recoverable ih.1, hs.walsWithin ih.1 hest ih.2⟩
  refine ⟨hinv.2, fun m hm => ?_⟩
  rw [(hinv.1.logs.logged m hm).2, Disk.walMemTable, walWithin_reverse]
  exact hinv.2 _

/-- A fresh engine, `Set(kv1)` acknowledged, then a restart, with one byte per record. -/
theorem engineRun_wals_within_restart :
    initLSM 0 emptyDisk [] = .ok freshWorld ∧ emptyDisk.Canonical ∧
    (∀ fid, walFileName fid ∈ emptyDisk.wals → fid.toNat + 1 < UInt64.size) ∧
    (0 : UInt64).toNat + 1 < UInt64.size ∧
    (∀ e, roomyOptions.walRecordSize e ≤ roomyOptions.estimateWalCodecSize e) ∧
    emptyDisk.WalsWithin roomyOptions ∧
    EngineRun roomyOptions freshWorld [.call kv1 .acked, .restart] restartedWorld ∧
    restartedWorld.disk.WalsWithin roomyOptions ∧
      ∀ m ∈ restartedWorld.memTables, WalWithin roomyOptions m.sl :=
  have hest : ∀ e, roomyOptions.walRecordSize e ≤ roomyOptions.estimateWalCodecSize e :=
    fun _ => le_rfl
  have hwithin : emptyDisk.WalsWithin roomyOptions := fun _ =>
    .inl (by simp [Disk.walRecords, emptyDisk])
  ⟨initLSM_emptyDisk, emptyDisk_canonical, emptyDisk_room, by decide, hest, hwithin,
    engineRun_set_restart,
    engineRun_wals_within initLSM_emptyDisk emptyDisk_canonical emptyDisk_room (by decide) hest
      hwithin engineRun_set_restart⟩

end TinyLsm

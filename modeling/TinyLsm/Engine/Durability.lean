import TinyLsm.Engine.Recovery
/-
  TinyLsm.Engine.Durability

  What a crash costs the engine.  The process can stop anywhere (a power cut,
  or `utils.Panic`); `initLSM` then rebuilds the memtables from the WAL files
  left in the directory.

    * `initLSM_of_logs` — on a directory whose WAL files hold the memtables
      `ms` (`Disk.Logs`), recovery searches exactly what `ms` and the tables
      hold, in the same order.
    * `Recoverable` — the invariant that makes the directory of a running
      engine such a directory, for the engine's own memtables.  `initLSM`
      establishes it and every `Set` that neither fails a flush nor runs out
      of fids keeps it (`HealthyStep`).
    * `lsmSet_crash_recovers` — whatever one more `Set` call does before the
      process stops, recovery reads either every earlier write, or every
      earlier write and this one.

  `TinyLsm.Engine.Session` puts these together over sessions with any number
  of crashes and restarts.

  A flush that fails leaves memtables queued whose WAL files are already
  removed, which `Recoverable` does not allow: `TinyLsm.Engine.Retry`
  follows such a run.
-/

namespace TinyLsm

-- ============================================================================
-- The memtables recovery builds
-- ============================================================================

/-- The memtable `RecoveryMemTable(fid)` builds from the WAL file of `fid`. -/
def Disk.walMemTable (d : Disk) (fid : UInt64) : MemTable :=
  ⟨fid, (d.walRecords (walFileName fid)).reverse⟩

@[simp] theorem Disk.walMemTable_fid (d : Disk) (fid : UInt64) :
    (d.walMemTable fid).fid = fid := rfl

theorem Disk.walMemTable_sl_ne_nil {d : Disk} {fid : UInt64} :
    (d.walMemTable fid).sl ≠ [] ↔ d.walRecords (walFileName fid) ≠ [] := by
  simp [Disk.walMemTable]

/-- The replay loop appends, in fid order, the memtable of every WAL file that holds
    records. -/
theorem recoverMemTables_fst (fids : List UInt64) (imms : List MemTable) (d : Disk) :
    (recoverMemTables fids (imms, d)).1 =
      imms ++ (fids.map d.walMemTable).filter fun m => m.sl ≠ [] := by
  induction fids generalizing imms d with
  | nil => simp [recoverMemTables]
  | cons fid fids ih =>
    have hmap : fids.map (d.createWal (walFileName fid)).walMemTable = fids.map d.walMemTable :=
      List.map_congr_left fun f _ => by simp only [Disk.walMemTable, Disk.walRecords_createWal]
    simp only [recoverMemTables, recoveryMemTable, Disk.walRecords_createWal]
    rw [ih, hmap]
    split <;> simp_all [List.filter_cons, Disk.walMemTable]

-- ============================================================================
-- Directories of `%05d.wal` files
-- ============================================================================

/-- Every WAL file of `d` has a `%05d.wal` name. -/
def Disk.Canonical (d : Disk) : Prop := ∀ name ∈ d.wals, ∃ fid, name = walFileName fid

theorem walFileIds_map_walFileName (fids : List UInt64) :
    walFileIds (fids.map walFileName) = .ok fids := by
  induction fids with
  | nil => rfl
  | cons fid fids ih => rw [List.map_cons, walFileIds_cons_walFileName, ih]; rfl

/-- The names of a canonical directory are the `%05d.wal` names of a list of fids without
    repeats. -/
theorem Disk.Canonical.keys {d : Disk} (h : d.Canonical) :
    ∃ fids : List UInt64, d.wals.keys = fids.map walFileName ∧ fids.Nodup := by
  suffices ∀ names : List (List Char), (∀ name ∈ names, ∃ fid, name = walFileName fid) →
      ∃ fids : List UInt64, names = fids.map walFileName by
    obtain ⟨fids, hf⟩ := this _ fun name hn => h name (AList.mem_keys.mp hn)
    exact ⟨fids, hf, List.Nodup.of_map walFileName (hf ▸ d.wals.keys_nodup)⟩
  intro names hn
  induction names with
  | nil => exact ⟨[], rfl⟩
  | cons name names ih =>
    obtain ⟨fid, rfl⟩ := hn name (List.mem_cons_self _ _)
    obtain ⟨fids, hf⟩ := ih fun n h => hn n (List.mem_cons_of_mem _ h)
    exact ⟨fid :: fids, by rw [hf, List.map_cons]⟩

theorem mem_keys_map_walFileName {d : Disk} {fids : List UInt64}
    (hkeys : d.wals.keys = fids.map walFileName) {fid : UInt64} :
    fid ∈ fids ↔ walFileName fid ∈ d.wals := by
  rw [← List.mem_map_of_injective walFileName_injective, ← hkeys]
  exact AList.mem_keys.symm

/-- Two lists of fids, each increasing, with the same members are equal. -/
theorem fids_eq_of_sorted {l₁ l₂ : List UInt64}
    (h₁ : (l₁.map UInt64.toNat).Sorted (· < ·))
    (h₂ : (l₂.map UInt64.toNat).Sorted (· < ·))
    (hmem : ∀ fid, fid ∈ l₁ ↔ fid ∈ l₂) :
    l₁ = l₂ := by
  have hnd₁ := List.Nodup.of_map _ h₁.nodup
  have hnd₂ := List.Nodup.of_map _ h₂.nodup
  have hperm := (List.perm_ext_iff_of_nodup hnd₁ hnd₂).mpr hmem
  exact List.map_injective_iff.mpr (fun _ _ => UInt64.toNat.inj)
    (List.eq_of_perm_of_sorted (hperm.map _) h₁ h₂)

/-- Recovery replays the WAL files in increasing fid order. -/
theorem sorted_insertionSort_fids {fids : List UInt64} (hnd : fids.Nodup) :
    ((fids.insertionSort (· ≤ ·)).map UInt64.toNat).Sorted (· < ·) := by
  haveI : IsTotal UInt64 (· ≤ ·) := ⟨UInt64.le_total⟩
  haveI : IsTrans UInt64 (· ≤ ·) := ⟨fun _ _ _ => UInt64.le_trans⟩
  have hs : (fids.insertionSort (· ≤ ·)).Sorted (· ≤ ·) := List.sorted_insertionSort _ fids
  have hle : ((fids.insertionSort (· ≤ ·)).map UInt64.toNat).Sorted (· ≤ ·) :=
    List.pairwise_map.mpr hs
  exact hle.lt_of_le (((List.perm_insertionSort _ fids).nodup_iff.mpr hnd).map
    fun _ _ => UInt64.toNat.inj)

theorem sorted_filter_fids {l : List UInt64} (h : (l.map UInt64.toNat).Sorted (· < ·))
    (p : UInt64 → Bool) : ((l.filter p).map UInt64.toNat).Sorted (· < ·) :=
  List.Pairwise.sublist ((List.filter_sublist l).map _) h

-- ============================================================================
-- Directories that log a list of memtables
-- ============================================================================

/-- The WAL files of `d` hold exactly the memtables `ms`: every WAL file has a `%05d.wal`
    name, the fids of `ms` increase, each memtable of `ms` is what its WAL file holds, and
    no other WAL file holds a record. -/
structure Disk.Logs (d : Disk) (ms : List MemTable) : Prop where
  canonical : d.Canonical
  sorted : (ms.map (·.fid.toNat)).Sorted (· < ·)
  logged : ∀ m ∈ ms, walFileName m.fid ∈ d.wals ∧ m = d.walMemTable m.fid
  live : ∀ fid, d.walRecords (walFileName fid) ≠ [] → fid ∈ ms.map (·.fid)

/-- Recovery rebuilds the memtables of `ms` that hold entries, in order. -/
theorem Disk.Logs.recovered {d : Disk} {ms : List MemTable} (h : d.Logs ms)
    {fids : List UInt64} (hkeys : d.wals.keys = fids.map walFileName) (hnd : fids.Nodup) :
    ((fids.insertionSort (· ≤ ·)).map d.walMemTable).filter (fun m => m.sl ≠ []) =
      ms.filter fun m => m.sl ≠ [] := by
  have hms : ms = (ms.map (·.fid)).map d.walMemTable := by
    conv_lhs => rw [← List.map_id ms]
    rw [List.map_map]
    exact List.map_congr_left fun m hm => (h.logged m hm).2
  have hfids : (fids.insertionSort (· ≤ ·)).filter (fun fid => (d.walMemTable fid).sl ≠ []) =
      (ms.map (·.fid)).filter fun fid => (d.walMemTable fid).sl ≠ [] := by
    refine fids_eq_of_sorted (sorted_filter_fids (sorted_insertionSort_fids hnd) _)
      (sorted_filter_fids (by simpa [List.map_map] using h.sorted) _) fun fid => ?_
    simp only [List.mem_filter, decide_eq_true_eq, Disk.walMemTable_sl_ne_nil]
    refine ⟨fun ⟨_, hr⟩ => ⟨h.live fid hr, hr⟩, fun ⟨_, hr⟩ => ⟨?_, hr⟩⟩
    exact (List.perm_insertionSort _ fids).mem_iff.mpr
      ((mem_keys_map_walFileName hkeys).mpr (Disk.mem_of_walRecords hr))
  conv_rhs => rw [hms]
  rw [List.filter_map, List.filter_map]
  exact congrArg _ hfids

/-- Empty memtables add nothing to the search order. -/
theorem flatten_filter_sl_ne_nil (ms : List MemTable) :
    ((ms.filter fun m => m.sl ≠ []).map (·.sl)).flatten = (ms.map (·.sl)).flatten := by
  rw [← List.flatten_filter_ne_nil (L := ms.map (·.sl)), List.filter_map]
  rfl

/-- **Recovery reads what the WAL files log.**  On a directory whose WAL files hold the
    memtables `ms`, `initLSM` succeeds, whatever `levels.maxFID` it loads, and its search
    order is the entries of `ms`, newest memtable first, then the tables. -/
theorem initLSM_of_logs {d : Disk} {ms : List MemTable} (h : d.Logs ms) (lm : UInt64)
    (o : List Outcome) :
    ∃ w, initLSM lm d o = .ok w ∧ w.lsm.immutables = ms.filter (fun m => m.sl ≠ []) ∧
      w.view = (ms.reverse.map (·.sl)).flatten ++ d.tables.flatten := by
  obtain ⟨fids, hkeys, hnd⟩ := h.canonical.keys
  have hids : walFileIds d.wals.keys = .ok fids := by rw [hkeys, walFileIds_map_walFileName]
  obtain ⟨ht, -, -, -⟩ := recoverMemTables_spec (fids.insertionSort (· ≤ ·)) [] d
  have himms : (recoverMemTables (fids.insertionSort (· ≤ ·)) ([], d)).1 =
      ms.filter fun m => m.sl ≠ [] := by
    rw [recoverMemTables_fst, List.nil_append, h.recovered hkeys hnd]
  refine ⟨_, initLSM_of_walFileIds hids, himms, ?_⟩
  simp only [World.view, himms, Disk.createWal_tables, ht, List.nil_append, ← List.filter_reverse,
    flatten_filter_sl_ne_nil]

-- ============================================================================
-- What the directory's operations do to the logged memtables
-- ============================================================================

theorem uint64_toNat_succ {a : UInt64} (h : a.toNat + 1 < UInt64.size) :
    (a + 1).toNat = a.toNat + 1 := by
  simpa [UInt64.toNat, UInt64.add_def] using h

@[simp] theorem Disk.walMemTable_createWal (n : List Char) (d : Disk) (fid : UInt64) :
    (d.createWal n).walMemTable fid = d.walMemTable fid := by
  simp only [Disk.walMemTable, Disk.walRecords_createWal]

theorem Disk.walRecords_appendWal_ne {d : Disk} {n name : List Char} (e : Entry)
    (hne : name ≠ n) : (d.appendWal n e).walRecords name = d.walRecords name := by
  unfold Disk.appendWal Disk.walRecords
  split
  · rw [AList.lookup_insert_ne hne]
  · rfl

theorem Disk.walRecords_appendWal_self {d : Disk} {n : List Char} (e : Entry) (hn : n ∈ d.wals) :
    (d.appendWal n e).walRecords n = d.walRecords n ++ [e] := by
  obtain ⟨recs, hrecs⟩ := Option.isSome_iff_exists.mp (AList.lookup_isSome.mpr hn)
  simp [Disk.appendWal, Disk.walRecords, hrecs]

/-- Names whose entry a change of the directory left alone read the same records. -/
theorem Disk.walRecords_of_lookup {d d' : Disk} {name : List Char}
    (h : d'.wals.lookup name = d.wals.lookup name) : d'.walRecords name = d.walRecords name := by
  simp only [Disk.walRecords, h]

theorem Disk.mem_of_lookup {d d' : Disk} {name : List Char}
    (h : d'.wals.lookup name = d.wals.lookup name) (hn : name ∈ d.wals) : name ∈ d'.wals := by
  rw [← AList.lookup_isSome, h, AList.lookup_isSome]
  exact hn

namespace Disk.Logs

variable {d : Disk} {ms : List MemTable} {m : MemTable}

/-- Distinct memtables of a log have distinct fids. -/
theorem nodup (h : d.Logs ms) : (ms.map (·.fid)).Nodup :=
  List.Nodup.of_map UInt64.toNat (by simpa [List.map_map] using h.sorted.nodup)

/-- Opening the WAL file of a fid above every fid of the directory logs one more, empty,
    memtable after the others. -/
theorem createWal (h : d.Logs ms) {fid : UInt64}
    (hfresh : ∀ f, walFileName f ∈ d.wals → f.toNat < fid.toNat) :
    (d.createWal (walFileName fid)).Logs (ms ++ [⟨fid, []⟩]) := by
  have hnew : walFileName fid ∉ d.wals := fun hn => (hfresh fid hn).false
  refine ⟨fun name hn => ?_, ?_, fun m hm => ?_, fun f hf => ?_⟩
  · rcases Disk.mem_createWal.mp hn with rfl | hn
    · exact ⟨fid, rfl⟩
    · exact h.canonical name hn
  · simp only [List.map_append, List.map_singleton, List.Sorted, List.pairwise_append,
      List.pairwise_singleton, List.mem_singleton, forall_eq, true_and]
    refine ⟨h.sorted, fun a ha => ?_⟩
    obtain ⟨m, hm, rfl⟩ := List.mem_map.mp ha
    exact hfresh m.fid (h.logged m hm).1
  · rcases List.mem_append.mp hm with hm | hm
    · exact ⟨Disk.mem_createWal.mpr (.inr (h.logged m hm).1), by simpa using (h.logged m hm).2⟩
    · rw [List.mem_singleton.mp hm]
      refine ⟨Disk.mem_createWal.mpr (.inl rfl), ?_⟩
      simp [Disk.walMemTable, Disk.walRecords_createWal, Disk.walRecords_of_not_mem hnew]
  · rw [Disk.walRecords_createWal] at hf
    rw [List.map_append]
    exact List.mem_append_left _ (h.live f hf)

/-- Appending an entry to the WAL file of the newest memtable logs it there, newest
    first. -/
theorem appendWal (h : d.Logs (ms ++ [m])) (e : Entry) :
    (d.appendWal (walFileName m.fid) e).Logs (ms ++ [{ m with sl := e :: m.sl }]) := by
  have hm := h.logged m (by simp)
  have hne : ∀ m' ∈ ms, walFileName m'.fid ≠ walFileName m.fid := fun m' hm' heq => by
    have := h.nodup
    simp only [List.map_append, List.map_singleton, List.nodup_append, List.disjoint_singleton]
      at this
    exact this.2.2 (walFileName_injective heq ▸ List.mem_map_of_mem _ hm')
  refine ⟨fun name hn => h.canonical name (Disk.mem_appendWal.mp hn), by simpa using h.sorted,
    fun m' hm' => ?_, fun f hf => ?_⟩
  · rcases List.mem_append.mp hm' with hm' | hm'
    · refine ⟨Disk.mem_appendWal.mpr (h.logged m' (by simp [hm'])).1, ?_⟩
      simp only [Disk.walMemTable, Disk.walRecords_appendWal_ne e (hne m' hm')]
      exact (h.logged m' (by simp [hm'])).2
    · rw [List.mem_singleton.mp hm']
      refine ⟨Disk.mem_appendWal.mpr hm.1, ?_⟩
      conv_lhs => rw [hm.2]
      simp [Disk.walMemTable, Disk.walRecords_appendWal_self e hm.1]
  · by_cases hf' : walFileName f = walFileName m.fid
    · simp [walFileName_injective hf']
    · rw [Disk.walRecords_appendWal_ne e hf'] at hf
      simpa [List.map_append] using h.live f hf

end Disk.Logs

/-- A flush loop that closed the first `j` immutables leaves WAL files that log the rest of
    the queue and the active memtable. -/
theorem Disk.Logs.flushed {imms : List MemTable} {a : MemTable} {w w' : World} {i j : Nat}
    (h : w.disk.Logs (imms ++ [a])) (hf : FlushedClosed imms w w' i j) :
    w'.disk.Logs (imms.drop j ++ [a]) := by
  have hsplit : imms ++ [a] = imms.take j ++ (imms.drop j ++ [a]) := by
    rw [← List.append_assoc, List.take_append_drop]
  have hkept : ∀ m ∈ imms.drop j ++ [a],
      w'.disk.wals.lookup (walFileName m.fid) = w.disk.wals.lookup (walFileName m.fid) := by
    intro m hm
    refine hf.kept _ fun m' hm' heq => ?_
    have hnd := h.nodup
    rw [hsplit, List.map_append, List.nodup_append] at hnd
    exact hnd.2.2 (List.mem_map_of_mem _ hm')
      (walFileName_injective heq ▸ List.mem_map_of_mem (·.fid) hm)
  refine ⟨fun name hn => h.canonical name (hf.removed.mem hn), ?_, fun m hm => ?_,
    fun f hr => ?_⟩
  · exact List.Pairwise.sublist (((List.drop_sublist j imms).append (.refl [a])).map _) h.sorted
  · have hl := h.logged m (hsplit ▸ List.mem_append_right _ hm)
    refine ⟨Disk.mem_of_lookup (hkept m hm) hl.1, hl.2.trans ?_⟩
    simp only [Disk.walMemTable, Disk.walRecords_of_lookup (hkept m hm)]
  · rcases hf.removed.walRecords (walFileName f) with h0 | hsame
    · exact absurd h0 hr
    have hlive := h.live f (hsame ▸ hr)
    rw [hsplit, List.map_append, List.mem_append] at hlive
    rcases hlive with hlive | hlive
    · obtain ⟨m', hm', rfl⟩ := List.mem_map.mp hlive
      exact absurd (Disk.walRecords_of_not_mem (hf.closed m' hm')) hr
    · exact hlive

-- ============================================================================
-- The invariant of a running engine
-- ============================================================================

/-- The memtables of the engine, oldest first: the immutables, then the active one. -/
def World.memTables (w : World) : List MemTable := w.lsm.immutables ++ [w.lsm.memTable]

theorem World.view_eq_memTables (w : World) :
    w.view = (w.memTables.reverse.map (·.sl)).flatten ++ w.disk.tables.flatten := by
  simp [World.view, World.memTables]

/-- A running engine whose directory recovery reads back: its WAL files log its memtables,
    the active memtable holds the counter's fid, and no WAL file has a larger fid. -/
structure Recoverable (w : World) : Prop where
  logs : w.disk.Logs w.memTables
  active : w.lsm.memTable.fid = w.lsm.maxFID
  bound : ∀ fid, walFileName fid ∈ w.disk.wals → fid.toNat ≤ w.lsm.maxFID.toNat

namespace Recoverable

variable {w : World}

/-- The process stops: `initLSM` on the directory rebuilds the engine's search order. -/
theorem reopen (h : Recoverable w) (lm : UInt64) (o : List Outcome) :
    ∃ w', initLSM lm w.disk o = .ok w' ∧ w'.view = w.view := by
  obtain ⟨w', h₀, -, hv⟩ := initLSM_of_logs h.logs lm o
  exact ⟨w', h₀, hv.trans w.view_eq_memTables.symm⟩

theorem next (h : Recoverable w) : Recoverable w.next := ⟨h.logs, h.active, h.bound⟩

/-- The rotation opens the WAL file of the next fid, above every fid in the directory. -/
theorem sealMemTable (h : Recoverable w) (hroom : w.lsm.maxFID.toNat + 1 < UInt64.size) :
    Recoverable (TinyLsm.sealMemTable w) := by
  have hsucc := uint64_toNat_succ hroom
  have hlogs : (w.disk.createWal (walFileName (w.lsm.maxFID + 1))).Logs
      (w.memTables ++ [⟨w.lsm.maxFID + 1, []⟩]) :=
    h.logs.createWal fun f hf => by have := h.bound f hf; omega
  refine ⟨by simpa [World.memTables] using hlogs, by simp, fun f hf => ?_⟩
  simp only [sealMemTable_disk, sealMemTable_lsm, Disk.mem_createWal] at hf ⊢
  rcases hf with hf | hf
  · rw [walFileName_injective hf]
  · have := h.bound f hf; omega

theorem written (h : Recoverable w) (e : Entry) : Recoverable (w.written e) :=
  ⟨h.logs.appendWal e, h.active, fun f hf => h.bound f (Disk.mem_appendWal.mp hf)⟩

/-- A flush loop that flushed and closed the whole queue, then the queue cleared. -/
theorem clear {w' : World} (h : Recoverable w)
    (hf : FlushedClosed w.lsm.immutables w w' w.lsm.immutables.length
      w.lsm.immutables.length) :
    Recoverable (clearImmutables w') := by
  have hlogs := Disk.Logs.flushed h.logs hf
  rw [List.drop_length, List.nil_append] at hlogs
  refine ⟨?_, ?_, fun f hf' => ?_⟩
  · simpa [World.memTables, hf.lsm] using hlogs
  · simpa [hf.lsm] using h.active
  · simpa [hf.lsm] using h.bound f (hf.removed.mem (by simpa using hf'))

end Recoverable

-- ============================================================================
-- initLSM and runs of Set calls
-- ============================================================================

/-- Recovery's maximum is `levels.maxFID` or one of the fids it parsed. -/
theorem maxFidOf_mem (lm : UInt64) (ids : List UInt64) :
    maxFidOf lm ids = lm ∨ maxFidOf lm ids ∈ ids := by
  induction ids generalizing lm with
  | nil => exact .inl rfl
  | cons id ids ih =>
    show maxFidOf (if lm < id then id else lm) ids = lm ∨
      maxFidOf (if lm < id then id else lm) ids ∈ id :: ids
    rcases ih (if lm < id then id else lm) with h | h
    · rw [h]
      split
      · exact .inr (List.mem_cons_self _ _)
      · exact .inl rfl
    · exact .inr (List.mem_cons_of_mem _ h)

/-- The replay loop over the fids of a canonical directory, in increasing order, leaves
    WAL files that log exactly the memtables it queued. -/
theorem recoverMemTables_logs {d : Disk} (hd : d.Canonical) {fids : List UInt64}
    (hkeys : d.wals.keys = fids.map walFileName) (hnd : fids.Nodup) :
    (recoverMemTables (fids.insertionSort (· ≤ ·)) ([], d)).2.Logs
      (recoverMemTables (fids.insertionSort (· ≤ ·)) ([], d)).1 := by
  have hS : ∀ fid, fid ∈ fids.insertionSort (· ≤ ·) ↔ walFileName fid ∈ d.wals :=
    fun fid => (List.perm_insertionSort _ fids).mem_iff.trans (mem_keys_map_walFileName hkeys)
  obtain ⟨-, hr, hn, -⟩ := recoverMemTables_spec (fids.insertionSort (· ≤ ·)) [] d
  have hfst := recoverMemTables_fst (fids.insertionSort (· ≤ ·)) [] d
  generalize recoverMemTables (fids.insertionSort (· ≤ ·)) ([], d) = R at hr hn hfst ⊢
  rw [List.nil_append] at hfst
  refine ⟨fun name hname => ?_, ?_, fun m hm => ?_, fun f hf => ?_⟩
  · rcases hn name hname with hname | ⟨f, -, rfl⟩
    · exact hd name hname
    · exact ⟨f, rfl⟩
  · rw [hfst, List.filter_map, List.map_map]
    exact sorted_filter_fids (sorted_insertionSort_fids hnd) _
  · rw [hfst] at hm
    obtain ⟨hm, hne⟩ := List.mem_filter.mp hm
    obtain ⟨f, -, rfl⟩ := List.mem_map.mp hm
    have hne' := Disk.walMemTable_sl_ne_nil.mp (of_decide_eq_true hne)
    exact ⟨Disk.mem_of_walRecords (by rwa [hr]), by simp only [Disk.walMemTable, hr]⟩
  · rw [hr] at hf
    rw [hfst]
    refine List.mem_map.mpr ⟨d.walMemTable f, List.mem_filter.mpr ⟨?_, ?_⟩, rfl⟩
    · exact List.mem_map_of_mem _ ((hS f).mpr (Disk.mem_of_walRecords hf))
    · exact decide_eq_true (Disk.walMemTable_sl_ne_nil.mpr hf)

/-- `initLSM` on a directory of `%05d.wal` files, none of them (nor `levels.maxFID`) at the
    largest fid, starts an engine that satisfies the invariant. -/
theorem Recoverable.of_initLSM {lm : UInt64} {d : Disk} {o : List Outcome} {w : World}
    (h₀ : initLSM lm d o = .ok w) (hd : d.Canonical)
    (hroom : ∀ fid, walFileName fid ∈ d.wals → fid.toNat + 1 < UInt64.size)
    (hlm : lm.toNat + 1 < UInt64.size) : Recoverable w := by
  obtain ⟨fids, hkeys, hnd⟩ := hd.keys
  have hids : walFileIds d.wals.keys = .ok fids := by rw [hkeys, walFileIds_map_walFileName]
  have hM : ∀ fid, walFileName fid ∈ d.wals → fid.toNat ≤ (maxFidOf lm fids).toNat :=
    fun fid hf => (le_maxFidOf lm fids).2 fid ((mem_keys_map_walFileName hkeys).mpr hf)
  have hsucc : (maxFidOf lm fids + 1).toNat = (maxFidOf lm fids).toNat + 1 := by
    refine uint64_toNat_succ ?_
    rcases maxFidOf_mem lm fids with h | h
    · rw [h]; exact hlm
    · exact hroom _ ((mem_keys_map_walFileName hkeys).mp h)
  -- every WAL file recovery leaves has a fid up to the maximum it computed
  have hbound : ∀ f,
      walFileName f ∈ (recoverMemTables (fids.insertionSort (· ≤ ·)) ([], d)).2.wals →
      f.toNat ≤ (maxFidOf lm fids).toNat := by
    intro f hf
    rcases (recoverMemTables_spec _ [] d).2.2.1 _ hf with hf | ⟨f', hf', heq⟩
    · exact hM f hf
    · exact hM f ((mem_keys_map_walFileName hkeys).mp
        ((List.perm_insertionSort _ fids).mem_iff.mp (walFileName_injective heq ▸ hf')))
  rw [initLSM_of_walFileIds hids] at h₀
  cases h₀
  refine ⟨(recoverMemTables_logs hd hkeys hnd).createWal fun f hf => by
    have := hbound f hf; omega, rfl, fun f hf => ?_⟩
  show f.toNat ≤ (maxFidOf lm fids + 1).toNat
  rcases Disk.mem_createWal.mp hf with hf | hf
  · rw [walFileName_injective hf]
  · have := hbound f hf; omega

/-- One `Set` call that returns nil or reports a failed WAL write, on an engine whose fid
    counter has room for one more memtable: a run of them never fails a flush and never
    hands out a fid twice. -/
inductive HealthyStep (opt : LsmOptions) : World → World → Prop
  | ok {w w' : World} (e : Entry) : w.lsm.maxFID.toNat + 1 < UInt64.size →
      lsmSet opt e w = .ok () w' → HealthyStep opt w w'
  | writeFailed {w w' : World} (e : Entry) : w.lsm.maxFID.toNat + 1 < UInt64.size →
      lsmSet opt e w = .error .walWrite w' → HealthyStep opt w w'

/-- The engine after the rotation of `Set`, if there is one. -/
theorem Recoverable.rotated {w w₁ : World} (h : Recoverable w)
    (hroom : w.lsm.maxFID.toNat + 1 < UInt64.size)
    (hw₁ : w₁ = w ∨ w₁ = TinyLsm.sealMemTable w) :
    Recoverable w₁ := by
  rcases hw₁ with rfl | rfl
  exacts [h, h.sealMemTable hroom]

theorem HealthyStep.recoverable {opt : LsmOptions} {w w' : World} (hs : HealthyStep opt w w')
    (h : Recoverable w) : Recoverable w' := by
  cases hs with
  | ok e hroom hset | writeFailed e hroom hset =>
    obtain ⟨w₁, hw₁, hs | hs | ⟨w₃, hs, hf⟩ | ⟨j, -, w₃, hs, -⟩ |
      ⟨err, w₃, i, j, herr, -, -, hs, -⟩⟩ := lsmSet_cases opt e w
    all_goals
      rw [hset] at hs
      cases hs
    all_goals first
      | exact ((h.rotated hroom hw₁).written e).clear hf
      | exact (h.rotated hroom hw₁).next
      | (rcases herr with h' | h' <;> cases h')

/-- `Recoverable` holds along every run of such calls. -/
theorem Recoverable.run {opt : LsmOptions} {w w' : World}
    (hrun : Relation.ReflTransGen (HealthyStep opt) w w') (h : Recoverable w) :
    Recoverable w' := by
  induction hrun with
  | refl => exact h
  | tail _ hs ih => exact hs.recoverable ih

-- ============================================================================
-- A crash in the middle of Set
-- ============================================================================

theorem findKey_nil (key : Bytes) : findKey key [] = none := rfl

/-- A block searched twice in a row answers every key as when searched once: the search
    order after a flush loop stopped at block `j` of `L`, newest last, with blocks `0..i-1`
    copied below it. -/
theorem findKey_drop_take (key : Bytes) (a T : List Entry) (L : List (List Entry)) {i j : Nat}
    (hij : i = j ∨ (i = j + 1 ∧ j < L.length)) :
    findKey key (a ++ ((L.drop j).reverse.flatten ++ ((L.take i).reverse.flatten ++ T))) =
      findKey key (a ++ (L.reverse.flatten ++ T)) := by
  rcases hij with rfl | ⟨rfl, hj⟩
  · conv_rhs => rw [← List.take_append_drop i L]
    simp only [List.reverse_append, List.flatten_append, List.append_assoc]
  · conv_rhs => rw [← List.take_append_drop j L, List.drop_eq_getElem_cons hj]
    rw [List.take_succ, List.drop_eq_getElem_cons hj, List.getElem?_eq_getElem hj]
    simp only [List.reverse_append, List.reverse_cons, List.flatten_append, List.append_assoc,
      Option.toList_some, List.reverse_singleton, List.flatten_cons, List.flatten_nil,
      List.append_nil, List.reverse_nil, findKey_append, findKey_nil, Option.none_or,
      option_or_left_idem]

/-- After a flush loop that stopped at `imms[j]`, having flushed it or not, the search order
    recovery rebuilds answers every key as the engine did. -/
theorem findKey_recovered_flushed {w w' : World} {i j : Nat}
    (hf : FlushedClosed w.lsm.immutables w w' i j)
    (hij : i = j ∨ (i = j + 1 ∧ j < w.lsm.immutables.length)) (key : Bytes) :
    findKey key ((((w.lsm.immutables.drop j ++ [w.lsm.memTable]).reverse.map (·.sl)).flatten ++
      w'.disk.tables.flatten)) = findKey key w.view := by
  rw [hf.tables]
  simp only [World.view, List.reverse_append, List.reverse_singleton, List.singleton_append,
    List.map_cons, List.flatten_cons, List.flatten_append, List.map_reverse, List.map_drop,
    List.map_take, List.append_assoc]
  exact findKey_drop_take key _ _ (w.lsm.immutables.map (·.sl)) (by simpa using hij)

/-- A `Set` stopped in its flush loop, after its entry was written: `initLSM` rebuilds what
    the engine searched. -/
theorem Recoverable.reopen_flushed {w w' : World} (h : Recoverable w) {i j : Nat}
    (hf : FlushedClosed w.lsm.immutables w w' i j)
    (hij : i = j ∨ (i = j + 1 ∧ j < w.lsm.immutables.length)) (lm : UInt64)
    (o : List Outcome) :
    ∃ w'', initLSM lm w'.disk o = .ok w'' ∧ ∀ key, lsmGet w'' key = lsmGet w key := by
  obtain ⟨w'', h₀, -, hv⟩ := initLSM_of_logs (Disk.Logs.flushed h.logs hf) lm o
  refine ⟨w'', h₀, fun key => ?_⟩
  rw [lsmGet_eq_findKey_view, lsmGet_eq_findKey_view, hv, findKey_recovered_flushed hf hij]

/-- **A crash loses at most the `Set` in flight.**  On an engine that satisfies the
    invariant, with room for one more fid, whatever `LSM.Set(e)` does before the process
    stops (an error, a panic, or a crash at any of its I/O calls), `initLSM` on the
    directory it leaves succeeds, and its `Get` answers every key as the engine did before
    the call, or as it did with `e` written. -/
theorem lsmSet_crash_recovers {opt : LsmOptions} {e : Entry} {w w' : World}
    {err : EngineError} (h : Recoverable w) (hroom : w.lsm.maxFID.toNat + 1 < UInt64.size)
    (hset : lsmSet opt e w = .error err w') (lm : UInt64) (o : List Outcome) :
    ∃ w'', initLSM lm w'.disk o = .ok w'' ∧
      ((∀ key, lsmGet w'' key = lsmGet w key) ∨
        ∀ key, lsmGet w'' key = (findKey key [e]).or (lsmGet w key)) := by
  obtain ⟨w₁, hw₁, hcases⟩ := lsmSet_cases opt e w
  have h₁ := h.rotated hroom hw₁
  have hv₁ : ∀ key, findKey key w₁.view = findKey key w.view := by
    rcases hw₁ with rfl | rfl <;> simp
  -- the call stopped before its write
  have hbefore : ∃ w'', initLSM lm w₁.next.disk o = .ok w'' ∧
      ∀ key, lsmGet w'' key = lsmGet w key := by
    obtain ⟨w'', h₀, hv⟩ := h₁.next.reopen lm o
    refine ⟨w'', h₀, fun key => ?_⟩
    rw [lsmGet_eq_findKey_view, lsmGet_eq_findKey_view, hv, World.next_view, hv₁]
  -- the call stopped in its flush loop, after its write
  have hafter : ∀ {w₃ : World} {i j : Nat},
      FlushedClosed w₁.lsm.immutables (w₁.written e) w₃ i j →
      (i = j ∨ (i = j + 1 ∧ j < w₁.lsm.immutables.length)) →
      ∃ w'', initLSM lm w₃.disk o = .ok w'' ∧
        ∀ key, lsmGet w'' key = (findKey key [e]).or (lsmGet w key) := by
    intro w₃ i j hf hij
    obtain ⟨w'', h₀, hget⟩ := (h₁.written e).reopen_flushed hf hij lm o
    refine ⟨w'', h₀, fun key => ?_⟩
    rw [hget, lsmGet_eq_findKey_view, lsmGet_eq_findKey_view, World.written_view, findKey_cons,
      hv₁]
  rcases hcases with hs | hs | ⟨w₃, hs, -⟩ | ⟨j, -, w₃, hs, hf⟩ |
      ⟨err', w₃, i, j, -, hj, hij, hs, hf⟩ <;>
    rw [hset] at hs <;> cases hs
  · exact hbefore.imp fun _ h => ⟨h.1, .inl h.2⟩
  · exact hbefore.imp fun _ h => ⟨h.1, .inl h.2⟩
  · exact (hafter hf (.inl rfl)).imp fun _ h => ⟨h.1, .inr h.2⟩
  · exact (hafter hf (hij.imp_right fun h => ⟨h, hj⟩)).imp fun _ h => ⟨h.1, .inr h.2⟩

end TinyLsm

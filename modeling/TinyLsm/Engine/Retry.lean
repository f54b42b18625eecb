import TinyLsm.Engine.Durability
/-
  TinyLsm.Engine.Retry

  What a flush error costs when the process goes on.  The flush loop of
  `LSM.Set` removes the WAL file of each memtable it flushes, but empties the
  queue only when every flush succeeded: after an error the flushed memtables
  stay queued without their files, and the next `Set` flushes the queue again
  from its head and panics on the first close.  The table it wrote again then
  sits above the tables flushed after it.

    * `lsmSet_disk`, `lsmSet_walRecords`, `lsmSet_wals` — what one `Set` call,
      however it ends, can do to the WAL files: append its entry to one, open
      the one of its rotation, remove some.
    * `lsmGet_initLSM_of_noRecordOf` — after a restart on a directory whose WAL
      files hold no record of a key, `Get` answers it from the tables.
    * `flush_error_retry_restart_reads_older` — when the failed loop had
      flushed two memtables holding a key, `Get` answers with the newer entry
      until the next call, and with the older one after that call's panic and
      a restart.
-/

namespace TinyLsm


-- ============================================================================
-- What one Set can do to the directory
-- ============================================================================

section Frame

variable {opt : LsmOptions} {e : Entry} {w w' : World}

/-- However a `Set` call ends, its directory is the one its rotation left, or one from which
    the flush loop removed WAL files after the write of the entry. -/
theorem lsmSet_disk (h : Leaves (lsmSet opt e) w w') :
    ∃ w₁, (w₁ = w ∨ w₁ = sealMemTable w) ∧
      (w'.disk = w₁.disk ∨ (w₁.written e).disk.Removed w'.disk) := by
  obtain ⟨w₁, hw₁, hs | hs | ⟨w₃, hs, hf⟩ | ⟨j, -, w₃, hs, hf⟩ |
      ⟨err, w₃, i, j, -, -, -, hs, hf⟩⟩ := lsmSet_cases opt e w <;>
    refine ⟨w₁, hw₁, ?_⟩ <;>
    rcases h with ⟨_, h⟩ | ⟨_, h⟩ <;> rw [hs] at h <;> cases h
  · exact .inl rfl
  · exact .inl rfl
  · exact .inr (by simpa using hf.removed)
  · exact .inr hf.removed
  · exact .inr hf.removed

/-- The write of an entry adds it to one WAL file and nothing else. -/
theorem World.written_walRecords (w₁ : World) (name : List Char) {x : Entry}
    (hx : x ∈ (w₁.written e).disk.walRecords name) : x ∈ w₁.disk.walRecords name ∨ x = e := by
  rw [World.written_disk] at hx
  by_cases hn : name = walFileName w₁.lsm.memTable.fid
  · subst hn
    by_cases hm : walFileName w₁.lsm.memTable.fid ∈ w₁.disk.wals
    · rwa [Disk.walRecords_appendWal_self e hm, List.mem_append, List.mem_singleton] at hx
    · have hd : w₁.disk.appendWal (walFileName w₁.lsm.memTable.fid) e = w₁.disk := by
        simp [Disk.appendWal, AList.lookup_eq_none.mpr hm]
      rw [hd] at hx
      exact .inl hx
  · rw [Disk.walRecords_appendWal_ne e hn] at hx
    exact .inl hx

/-- A `Set` call, however it ends, adds no record but its own entry to any WAL file. -/
theorem lsmSet_walRecords (h : Leaves (lsmSet opt e) w w') (name : List Char) {x : Entry}
    (hx : x ∈ w'.disk.walRecords name) : x ∈ w.disk.walRecords name ∨ x = e := by
  obtain ⟨w₁, hw₁, hd⟩ := lsmSet_disk h
  have h₁ : w₁.disk.walRecords name = w.disk.walRecords name := by
    rcases hw₁ with rfl | rfl
    · rfl
    · rw [sealMemTable_disk, Disk.walRecords_createWal]
  rw [← h₁]
  rcases hd with hd | hd
  · rw [hd] at hx
    exact .inl hx
  · rcases hd.walRecords name with h' | h' <;> rw [h'] at hx
    · cases hx
    · exact w₁.written_walRecords name hx

/-- A `Set` call, however it ends, creates no WAL file but the one its rotation opens. -/
theorem lsmSet_wals (h : Leaves (lsmSet opt e) w w') {name : List Char}
    (hn : name ∈ w'.disk.wals) : name ∈ w.disk.wals ∨ name = walFileName (w.lsm.maxFID + 1) := by
  obtain ⟨w₁, hw₁, hd⟩ := lsmSet_disk h
  have hn₁ : name ∈ w₁.disk.wals := by
    rcases hd with hd | hd
    · rwa [hd] at hn
    · simpa using hd.mem hn
  rcases hw₁ with rfl | rfl
  · exact .inl hn₁
  · simpa [or_comm] using hn₁

theorem Disk.Canonical.lsmSet (hc : w.disk.Canonical) (h : Leaves (lsmSet opt e) w w') :
    w'.disk.Canonical :=
  fun _ hn => (lsmSet_wals h hn).elim (hc _) fun h => ⟨_, h⟩

end Frame

-- ============================================================================
-- Directories with no record of a key
-- ============================================================================

/-- No WAL file of `d` holds a record of `key`. -/
def Disk.NoRecordOf (d : Disk) (key : Bytes) : Prop :=
  ∀ name, ∀ x ∈ d.walRecords name, x.key ≠ key

theorem Disk.NoRecordOf.lsmSet {opt : LsmOptions} {e : Entry} {w w' : World} {key : Bytes}
    (hk : w.disk.NoRecordOf key) (he : e.key ≠ key) (h : Leaves (lsmSet opt e) w w') :
    w'.disk.NoRecordOf key :=
  fun name _ hx => (lsmSet_walRecords h name hx).elim (hk name _) fun hx => hx ▸ he

/-- Recovery of a directory of `%05d.wal` files succeeds, whatever `levels.maxFID` it loads. -/
theorem initLSM_of_canonical {d : Disk} (hc : d.Canonical) (lm : UInt64) (o : List Outcome) :
    ∃ w, initLSM lm d o = .ok w := by
  obtain ⟨ids, hids⟩ := walFileIds_ok_iff.mpr fun name hn => by
    obtain ⟨fid, rfl⟩ := hc name (AList.mem_keys.mp hn)
    exact walNameParses_walFileName fid
  exact ⟨_, initLSM_of_walFileIds hids⟩

/-- After a restart on a directory whose WAL files hold no record of a key, `Get` answers it
    from the tables alone. -/
theorem lsmGet_initLSM_of_noRecordOf {lm : UInt64} {d : Disk} {o : List Outcome} {w : World}
    (h : initLSM lm d o = .ok w) {key : Bytes} (hk : d.NoRecordOf key) :
    lsmGet w key = levelsGet d key := by
  obtain ⟨ids, -, rfl⟩ := initLSM_eq_ok h
  obtain ⟨ht, -, -, hm⟩ := recoverMemTables_spec (ids.insertionSort (· ≤ ·)) [] d
  have himm : (recoverMemTables (ids.insertionSort (· ≤ ·)) ([], d)).1.reverse.findSome?
      (·.get key) = none := by
    refine List.findSome?_eq_none_iff.mpr fun m hmem => ?_
    rcases (hm m).mp (List.mem_reverse.mp hmem) with h' | ⟨fid, -, -, rfl⟩
    · cases h'
    · refine List.find?_eq_none.mpr fun x hx => ?_
      simpa using hk _ x (List.mem_reverse.mp hx)
  have hact : (⟨maxFidOf lm ids + 1, []⟩ : MemTable).get key = none := rfl
  simp only [lsmGet, hact, himm]
  exact levelsGet_congr (by rw [Disk.createWal_tables, ht]) key

-- ============================================================================
-- A flush error the process survives
-- ============================================================================

/-- A `Set` that returned a flush error after flushing at least two memtables, on an engine
    that logs its memtables: the engine it wrote to still logs them, and the two oldest of
    its queue, both still queued, have lost their WAL files. -/
theorem lsmSet_flush_error_two {opt : LsmOptions} {e : Entry} {w w' : World}
    (h : Recoverable w) (hroom : w.lsm.maxFID.toNat + 1 < UInt64.size)
    (hfail : lsmSet opt e w = .error .flush w')
    (htwo : w.disk.tables.length + 2 ≤ w'.disk.tables.length) :
    ∃ w₁, (w₁ = w ∨ w₁ = sealMemTable w) ∧ Recoverable (w₁.written e) ∧
      w'.lsm = (w₁.written e).lsm ∧ (w₁.written e).disk.Removed w'.disk ∧
      ∀ m ∈ w'.lsm.immutables.take 2, walFileName m.fid ∉ w'.disk.wals := by
  obtain ⟨w₁, hw₁, j, hj, hf⟩ := lsmSet_eq_flush_error hfail
  have ht : (w₁.written e).disk.tables = w.disk.tables := by rcases hw₁ with rfl | rfl <;> simp
  have hj2 : 2 ≤ j := by
    have hlen := congrArg List.length hf.tables
    simp only [List.length_append, List.length_reverse, List.length_map, List.length_take,
      ht] at hlen
    omega
  refine ⟨w₁, hw₁, (h.rotated hroom hw₁).written e, hf.lsm, hf.removed, fun m hm => ?_⟩
  refine hf.closed m (List.take_subset_take_left _ hj2 ?_)
  simpa [hf.lsm] using hm

-- ============================================================================
-- The retry and the restart
-- ============================================================================

theorem findKey_flatten_eq_none {key : Bytes} {ms : List MemTable}
    (h : ∀ m ∈ ms, findKey key m.sl = none) : findKey key (ms.map (·.sl)).flatten = none := by
  rw [findKey, List.find?_flatten, List.findSome?_map]
  exact List.findSome?_eq_none_iff.mpr h

theorem findKey_ne_none_of_mem {key : Bytes} {l : List Entry} {x : Entry} (hx : x ∈ l)
    (hk : x.key = key) : findKey key l ≠ none := fun h =>
  absurd (beq_iff_eq.mpr hk) (List.find?_eq_none.mp h x hx)

/-- After the write, every memtable of `Set`'s engine answers a key the call does not write
    as the memtable of the same fid of the engine it was called on, or not at all. -/
theorem written_memTables_findKey {w w₁ : World} (hw₁ : w₁ = w ∨ w₁ = sealMemTable w)
    {e : Entry} {key : Bytes} (he : e.key ≠ key) :
    ∀ m ∈ (w₁.written e).memTables, findKey key m.sl = none ∨
      ∃ m₁ ∈ w.memTables, m₁.fid = m.fid ∧ findKey key m.sl = findKey key m₁.sl := by
  have hact : ∀ l, findKey key (e :: l) = findKey key l := by simp [findKey, he]
  intro m hm
  simp only [World.memTables, World.written_lsm, List.mem_append, List.mem_singleton] at hm
  rcases hw₁ with rfl | rfl
  · rcases hm with hm | rfl
    · exact .inr ⟨m, List.mem_append_left _ hm, rfl, rfl⟩
    · exact .inr ⟨_, List.mem_append_right _ (List.mem_singleton_self _), rfl, hact _⟩
  · simp only [sealMemTable_lsm, List.mem_append, List.mem_singleton] at hm
    rcases hm with (hm | rfl) | rfl
    · exact .inr ⟨m, List.mem_append_left _ hm, rfl, rfl⟩
    · exact .inr ⟨_, List.mem_append_right _ (List.mem_singleton_self _), rfl, rfl⟩
    · exact .inl (hact [])

/-- A directory that logs `ms`, after WAL files were removed: no file left holds a record of a
    key that every memtable of `ms` whose file is left lacks. -/
theorem Disk.Logs.noRecordOf_removed {d d' : Disk} {ms : List MemTable} (h : d.Logs ms)
    (hr : d.Removed d') {key : Bytes}
    (hms : ∀ m ∈ ms, findKey key m.sl = none ∨ walFileName m.fid ∉ d'.wals) :
    d'.NoRecordOf key := by
  intro name x hx hk
  have hx' : x ∈ d.walRecords name := by
    rcases hr.walRecords name with h' | h' <;> rw [h'] at hx
    · cases hx
    · exact hx
  obtain ⟨fid, rfl⟩ := h.canonical name (Disk.mem_of_walRecords (List.ne_nil_of_mem hx'))
  obtain ⟨m, hm, rfl⟩ := List.mem_map.mp (h.live fid (List.ne_nil_of_mem hx'))
  rcases hms m hm with hn | hn
  · refine findKey_ne_none_of_mem (x := x) ?_ hk hn
    rw [(h.logged m hm).2, Disk.walMemTable, List.mem_reverse]
    exact hx'
  · exact absurd (Disk.mem_of_walRecords (List.ne_nil_of_mem hx)) hn

/-- **A flush error the process survives can lose an update at the next restart.**
    Take an engine whose WAL files log its memtables, and a `Set` whose flush loop returned an
    error after flushing the two oldest memtables of its queue, `imm₀` and then `imm₁`, both
    holding a key that no other memtable holds and that neither this call nor the next
    writes.  Until the next call, `Get` answers the key with `imm₁`'s entry, the newer one.
    The next `Set` (with working I/O) flushes `imm₀` again, above `imm₁`'s table, and panics;
    after `initLSM` on the directory it leaves, `Get` answers the key with `imm₀`'s entry. -/
theorem flush_error_retry_restart_reads_older {opt : LsmOptions} {e e' : Entry} {w w' : World}
    (h : Recoverable w) (hroom : w.lsm.maxFID.toNat + 2 < UInt64.size)
    (hfail : lsmSet opt e w = .error .flush w')
    (htwo : w.disk.tables.length + 2 ≤ w'.disk.tables.length)
    {imm₀ imm₁ : MemTable} {rest : List MemTable}
    (hq : w'.lsm.immutables = imm₀ :: imm₁ :: rest) (hio : w'.outcomes = [])
    {key : Bytes} (honly : ∀ m ∈ w.memTables, findKey key m.sl ≠ none → m = imm₀ ∨ m = imm₁)
    (h₀ : findKey key imm₀.sl ≠ none) (h₁ : findKey key imm₁.sl ≠ none)
    (he : e.key ≠ key) (he' : e'.key ≠ key) :
    lsmGet w' key = findKey key imm₁.sl ∧
      ∃ w'', lsmSet opt e' w' = .error .panic w'' ∧
        ∀ lm o, ∃ w₃, initLSM lm w''.disk o = .ok w₃ ∧ lsmGet w₃ key = findKey key imm₀.sl := by
  obtain ⟨w₁, hw₁, hr₁, hl, hrem, hgone⟩ := lsmSet_flush_error_two h (by omega) hfail htwo
  -- the engine the failed call wrote to: `imm₀ :: imm₁ :: rest`, then the active memtable
  have hms : (w₁.written e).memTables = imm₀ :: imm₁ :: (rest ++ [w'.lsm.memTable]) := by
    rw [World.memTables, ← hl, hq]
    rfl
  have hsorted := hr₁.logs.sorted
  rw [hms, List.Sorted, List.pairwise_map, List.pairwise_cons, List.pairwise_cons] at hsorted
  obtain ⟨hlt₀, hlt₁, -⟩ := hsorted
  -- every memtable but `imm₀` and `imm₁` lacks the key
  have hnone : ∀ m ∈ rest ++ [w'.lsm.memTable], findKey key m.sl = none := by
    intro m hm
    rcases written_memTables_findKey hw₁ he m (by rw [hms]; exact .tail _ (.tail _ hm)) with
      h | ⟨m₁, hm₁, hfid, hfind⟩
    · exact h
    rw [hfind]
    by_contra hk
    rcases honly m₁ hm₁ hk with rfl | rfl
    · exact absurd (hlt₀ m (List.mem_cons_of_mem _ hm)) (by rw [hfid]; exact lt_irrefl _)
    · exact absurd (hlt₁ m hm) (by rw [hfid]; exact lt_irrefl _)
  -- until the next call, `Get` finds `imm₁`'s entry
  have hbefore : lsmGet w' key = findKey key imm₁.sl := by
    obtain ⟨v, hv⟩ := Option.ne_none_iff_exists'.mp h₁
    have hrest : findKey key (rest.reverse.map (·.sl)).flatten = none :=
      findKey_flatten_eq_none fun m hm =>
        hnone m (List.mem_append_left _ (List.mem_reverse.mp hm))
    have hact := hnone w'.lsm.memTable (List.mem_append_right _ (List.mem_singleton_self _))
    rw [lsmGet_eq_findKey_view, World.view, hq]
    simp only [List.reverse_cons, List.map_append, List.flatten_append, findKey_append,
      List.map_cons, List.map_nil, List.flatten_cons, List.flatten_nil, List.append_nil, hrest,
      hact, hv, Option.none_or]
    rfl
  -- the retry flushes `imm₀` again and panics
  have hlog₀ := (hr₁.logs.logged imm₀ (by rw [hms]; exact List.mem_cons_self _ _)).1
  have hfid : imm₀.fid ≠ w'.lsm.maxFID + 1 := by
    have hb := hr₁.bound _ hlog₀
    have hM : w'.lsm.maxFID.toNat ≤ w.lsm.maxFID.toNat + 1 := by
      rw [hl]
      rcases hw₁ with rfl | rfl
      · simp
      · simp [uint64_toNat_succ (show w.lsm.maxFID.toNat + 1 < UInt64.size by omega)]
    intro heq
    rw [heq, uint64_toNat_succ (by omega), hl] at hb
    simp at hb
  obtain ⟨w'', hpanic, htab⟩ := lsmSet_of_head_closed opt e' hq
    (hgone imm₀ (by simp [hq])) hfid hio
  -- no WAL file left holds the key, so the restart reads it from the tables
  have hnr' : w'.disk.NoRecordOf key := hr₁.logs.noRecordOf_removed hrem fun m hm => by
    rw [hms] at hm
    rcases hm with _ | ⟨_, _ | ⟨_, hm⟩⟩
    · exact .inr (hgone imm₀ (by simp [hq]))
    · exact .inr (hgone imm₁ (by simp [hq]))
    · exact .inl (hnone m hm)
  have hc' : w'.disk.Canonical := fun name hn => hr₁.logs.canonical name (hrem.mem hn)
  have hc'' : w''.disk.Canonical := hc'.lsmSet (.inr ⟨_, hpanic⟩)
  refine ⟨hbefore, w'', hpanic, fun lm o => ?_⟩
  obtain ⟨w₃, hinit⟩ := initLSM_of_canonical hc'' lm o
  obtain ⟨v, hv⟩ := Option.ne_none_iff_exists'.mp h₀
  refine ⟨w₃, hinit, ?_⟩
  rw [lsmGet_initLSM_of_noRecordOf hinit (hnr'.lsmSet he' (.inr ⟨_, hpanic⟩)), levelsGet, htab,
    List.findSome?_cons, hv]

-- ============================================================================
-- Two flushes, then an error
-- ============================================================================

/-- A `MemTableSize` every entry passes: each `Set` seals the active memtable. -/
def tinyOptions : LsmOptions := ⟨0, fun _ => 1, fun _ => 1⟩

/-- `recoveredWorld` after `Set(kv3)` with `tinyOptions`: the empty `00003.wal` memtable is
    sealed, `kv3` written to `00004.wal`, the memtables of `kv1` and `kv2` flushed and
    closed, and the flush of the third fails. -/
def afterTwoFlushes : World :=
  ⟨⟨⟨4, [kv3]⟩, [⟨1, [kv1]⟩, ⟨2, [kv2]⟩, ⟨3, []⟩], 4⟩,
    ⟨((((twoWalsDisk.wals.insert (walFileName 3) []).insert (walFileName 4) []).insert
      (walFileName 4) [kv3]).erase (walFileName 1)).erase (walFileName 2), [[kv2], [kv1]]⟩, []⟩

theorem twoWalsDisk_canonical : twoWalsDisk.Canonical := by
  intro name hn
  simp only [twoWalsDisk, AList.mem_insert] at hn
  rcases hn with rfl | rfl | hn
  · exact ⟨2, rfl⟩
  · exact ⟨1, rfl⟩
  · cases hn

theorem recoveredWorld_recoverable (o : List Outcome) : Recoverable (recoveredWorld o) := by
  have hinit : initLSM 2 twoWalsDisk o = .ok (recoveredWorld o) := rfl
  refine .of_initLSM hinit twoWalsDisk_canonical (fun fid hf => ?_) (by decide)
  simp only [twoWalsDisk, AList.mem_insert] at hf
  rcases hf with hf | hf | hf
  · rw [walFileName_injective hf]; decide
  · rw [walFileName_injective hf]; decide
  · cases hf

/-- `00001.wal` holds `[1] = [1]`, `00002.wal` holds `[1] = [2]`: the flush of the empty third
    memtable fails after both were flushed, the retry panics, and the restart reads `[1]`. -/
theorem flush_error_retry_restart_reads_kv1 :
    Recoverable (recoveredWorld [.ok, .ok, .ok, .ok, .ok, .fail]) ∧
    (recoveredWorld [.ok, .ok, .ok, .ok, .ok, .fail]).lsm.maxFID.toNat + 2 < UInt64.size ∧
    lsmSet tinyOptions kv3 (recoveredWorld [.ok, .ok, .ok, .ok, .ok, .fail]) =
      .error .flush afterTwoFlushes ∧
    (recoveredWorld [.ok, .ok, .ok, .ok, .ok, .fail]).disk.tables.length + 2 ≤
      afterTwoFlushes.disk.tables.length ∧
    afterTwoFlushes.lsm.immutables = ⟨1, [kv1]⟩ :: ⟨2, [kv2]⟩ :: [⟨3, []⟩] ∧
    afterTwoFlushes.outcomes = [] ∧
    (∀ m ∈ (recoveredWorld [.ok, .ok, .ok, .ok, .ok, .fail]).memTables,
      findKey [1] m.sl ≠ none → m = ⟨1, [kv1]⟩ ∨ m = ⟨2, [kv2]⟩) ∧
    findKey [1] [kv1] ≠ none ∧ findKey [1] [kv2] ≠ none ∧ kv3.key ≠ [1] ∧
    lsmGet afterTwoFlushes [1] = findKey [1] [kv2] ∧
      ∃ w'', lsmSet tinyOptions kv3 afterTwoFlushes = .error .panic w'' ∧
        ∀ lm o, ∃ w₃, initLSM lm w''.disk o = .ok w₃ ∧ lsmGet w₃ [1] = findKey [1] [kv1] :=
  have hfail : lsmSet tinyOptions kv3 (recoveredWorld [.ok, .ok, .ok, .ok, .ok, .fail]) =
      .error .flush afterTwoFlushes := rfl
  have honly : ∀ m ∈ (recoveredWorld [.ok, .ok, .ok, .ok, .ok, .fail]).memTables,
      findKey [1] m.sl ≠ none → m = ⟨1, [kv1]⟩ ∨ m = ⟨2, [kv2]⟩ := by decide
  ⟨recoveredWorld_recoverable _, by decide, hfail, by decide, rfl, rfl, honly, by decide,
    by decide, by decide,
    flush_error_retry_restart_reads_older (recoveredWorld_recoverable _) (by decide) hfail
      (by decide) rfl rfl honly (by decide) (by decide) (by decide) (by decide)⟩

end TinyLsm

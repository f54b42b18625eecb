import TinyLsm.Engine.Steps
/-
  TinyLsm.Engine.Recency

  Which entry `LSM.Get` returns along runs of `LSM.Set`, and what a failed
  flush leaves behind.

    * `lsmGet_newest_write` — along every run of `Set` calls, including calls
      whose WAL write or flush failed, `Get(k)` returns the entry of the last
      `Set(k)` whose memtable write succeeded, else what the engine returned
      at the start.  The tiers themselves are not ordered by recency: a flush
      loop that fails at `immutables[j]` leaves `immutables[0..j-1]` both
      queued and flushed (`partial_flush_breaks_tier_order`); reads stay right
      because a block searched twice in a row never changes which entry of a
      key comes first (`findKey_view_flushed`).
    * `lsmSet_retry_reflushes_closed` — after such a failure with `j ≥ 1`, the
      closed `immutables[0]` is still queued, and the next `Set` flushes it a
      second time, finds its WAL file gone when it closes it again, and
      panics.
-/

namespace TinyLsm

-- ============================================================================
-- The search order of LSM.Get
-- ============================================================================

/-- What `LSM.Get` searches, newest first: the active memtable, the immutables newest
    first, then the tables newest first. -/
def World.view (w : World) : List Entry :=
  w.lsm.memTable.sl ++ (w.lsm.immutables.reverse.map (·.sl)).flatten ++ w.disk.tables.flatten

theorem findKey_append (key : Bytes) (l₁ l₂ : List Entry) :
    findKey key (l₁ ++ l₂) = (findKey key l₁).or (findKey key l₂) := List.find?_append

theorem findKey_cons (key : Bytes) (e : Entry) (l : List Entry) :
    findKey key (e :: l) = (findKey key [e]).or (findKey key l) := findKey_append key [e] l

theorem option_or_left_idem {α : Type} (a b : Option α) : a.or (a.or b) = a.or b := by
  cases a <;> rfl

/-- `LSM.Get` is the first entry of the key in the search order. -/
theorem lsmGet_eq_findKey_view (w : World) (key : Bytes) : lsmGet w key = findKey key w.view := by
  have hq : findKey key (w.lsm.immutables.reverse.map (·.sl)).flatten =
      w.lsm.immutables.reverse.findSome? (·.get key) := by
    rw [findKey, List.find?_flatten, List.findSome?_map]; rfl
  have ht : findKey key w.disk.tables.flatten = levelsGet w.disk key := by
    rw [findKey, List.find?_flatten]; rfl
  rw [World.view, findKey_append, findKey_append, hq, ht]
  unfold lsmGet MemTable.get
  cases findKey key w.lsm.memTable.sl <;> cases List.findSome? _ w.lsm.immutables.reverse <;> rfl

@[simp] theorem World.next_view (w : World) : w.next.view = w.view := rfl

@[simp] theorem sealMemTable_view (w : World) : (sealMemTable w).view = w.view := by
  simp [World.view]

@[simp] theorem World.written_view (w : World) (e : Entry) : (w.written e).view = e :: w.view := by
  simp [World.view]

/-- A flush loop stopped after `j` flushes searches `immutables[0..j-1]` twice in a row, in
    the queue and as the newest tables, and so answers every key as before. -/
theorem findKey_view_flushed {imms : List MemTable} {w w' : World} {j : Nat}
    (hf : FlushedClosed imms w w' j j) (himms : w.lsm.immutables = imms) (key : Bytes) :
    findKey key w'.view = findKey key w.view := by
  have hsplit : imms.reverse.map (·.sl) =
      (imms.drop j).reverse.map (·.sl) ++ (imms.take j).reverse.map (·.sl) := by
    conv_lhs => rw [← List.take_append_drop j imms]
    simp
  simp only [World.view, hf.lsm, hf.tables, himms, ← List.map_reverse, hsplit,
    List.flatten_append, findKey_append, Option.or_assoc, option_or_left_idem]

/-- After a flush loop that flushed and closed the whole queue, clearing the queue leaves
    the search order as it was. -/
theorem view_clear_flushed {imms : List MemTable} {w w' : World}
    (hf : FlushedClosed imms w w' imms.length imms.length) (himms : w.lsm.immutables = imms) :
    (clearImmutables w').view = w.view := by
  simp [World.view, hf.lsm, hf.tables, himms, List.map_reverse]

-- ============================================================================
-- Runs
-- ============================================================================

/-- One step keeps the search order answering every key as the history of writes does:
    the newest written entry of the key, else what `base` answers. -/
theorem SetStep.findKey_view {opt : LsmOptions} {p q : World × List Entry} (h : SetStep opt p q)
    (base : List Entry) (hp : ∀ k, findKey k p.1.view = findKey k (p.2.reverse ++ base)) :
    ∀ k, findKey k q.1.view = findKey k (q.2.reverse ++ base) := by
  obtain ⟨e, w₁, hw₁, rfl | ⟨w₃, rfl, hf⟩ | ⟨j, w₃, rfl, hf⟩⟩ := h.shape
  all_goals
    have h₁ : w₁.view = p.1.view := by rcases hw₁ with rfl | rfl <;> simp
    intro k
  · simpa [h₁] using hp k
  all_goals
    first
      | rw [view_clear_flushed hf rfl]
      | rw [findKey_view_flushed hf rfl]
    rw [World.written_view, findKey_cons, h₁, hp k, List.reverse_append, List.reverse_singleton,
      List.append_assoc, findKey_append k [e]]

/-- Along every run of `LSM.Set` calls from an engine `w₀`, including calls whose WAL write
    or flush failed, `LSM.Get(k)` returns the entry of the last `Set(k)` whose memtable write
    succeeded, and what it returned on `w₀` if there is none. -/
theorem lsmGet_newest_write {opt : LsmOptions} {w₀ w : World} {hist : List Entry}
    (hrun : Relation.ReflTransGen (SetStep opt) (w₀, []) (w, hist)) (key : Bytes) :
    lsmGet w key = (findKey key hist.reverse).or (lsmGet w₀ key) := by
  suffices h : ∀ q, Relation.ReflTransGen (SetStep opt) (w₀, []) q →
      ∀ k, findKey k q.1.view = findKey k (q.2.reverse ++ w₀.view) by
    rw [lsmGet_eq_findKey_view, h _ hrun, findKey_append, lsmGet_eq_findKey_view]
  intro q hq
  induction hq with
  | refl => simp
  | tail _ hs ih => exact hs.findKey_view _ ih

-- ============================================================================
-- A flush loop that fails part-way
-- ============================================================================

/-- The tiers ordered by recency: read oldest first (the tables oldest first, the queue in
    order, the active memtable, each oldest entry first), the entries are those of `w₀`
    followed by the writes `hist`, each once. -/
def TiersByRecency (w₀ w : World) (hist : List Entry) : Prop :=
  w.view.reverse = w₀.view.reverse ++ hist

/-- Key `[1]` set to `[1]`. -/
def kv1 : Entry := ⟨[1], [1]⟩

/-- Key `[1]` set to `[2]`. -/
def kv2 : Entry := ⟨[1], [2]⟩

/-- Key `[2]` set to `[3]`. -/
def kv3 : Entry := ⟨[2], [3]⟩

/-- A directory left by a crash: `00001.wal` holds `kv1`, `00002.wal` holds `kv2`, and the
    level manager holds no table. -/
def twoWalsDisk : Disk :=
  ⟨((∅ : AList fun _ : List Char => List Entry).insert (walFileName 1) [kv1]).insert
    (walFileName 2) [kv2], []⟩

/-- A `MemTableSize` the runs below never reach. -/
def roomyOptions : LsmOptions := ⟨1000, fun _ => 1, fun _ => 1⟩

/-- What `initLSM` recovers from `twoWalsDisk` after `levels.maxFID = 2`: both memtables
    queued, and fid 3 active with an empty `00003.wal`. -/
def recoveredWorld (outcomes : List Outcome) : World :=
  ⟨⟨⟨3, []⟩, [⟨1, [kv1]⟩, ⟨2, [kv2]⟩], 3⟩,
    ⟨twoWalsDisk.wals.insert (walFileName 3) [], []⟩, outcomes⟩

/-- After `Set(kv3)` on it, whose flush of `immutables[1]` failed: `immutables[0]` was flushed
    and closed, and is still queued. -/
def afterPartialFlush : World :=
  ⟨⟨⟨3, [kv3]⟩, [⟨1, [kv1]⟩, ⟨2, [kv2]⟩], 3⟩,
    ⟨(twoWalsDisk.wals.insert (walFileName 3) [kv3]).erase (walFileName 1), [[kv1]]⟩, []⟩

/-- The run of one `Set(kv3)` whose flush loop fails at `immutables[1]`: `Get` still answers
    every key with its newest write, `kv2` for key `[1]`. -/
theorem lsmGet_newest_write_after_partial_flush :
    Relation.ReflTransGen (SetStep roomyOptions) (recoveredWorld [.ok, .ok, .ok, .fail], [])
      (afterPartialFlush, [kv3]) ∧
    (∀ key, lsmGet afterPartialFlush key =
      (findKey key [kv3].reverse).or (lsmGet (recoveredWorld [.ok, .ok, .ok, .fail]) key)) ∧
    lsmGet afterPartialFlush [1] = some kv2 :=
  have hrun : Relation.ReflTransGen (SetStep roomyOptions)
      (recoveredWorld [.ok, .ok, .ok, .fail], []) (afterPartialFlush, [kv3]) :=
    .single (.flushFailed kv3 rfl)
  ⟨hrun, lsmGet_newest_write hrun, rfl⟩

/-- Recovery queues both memtables; `Set(kv3)` writes, flushes and closes `immutables[0]`,
    and fails to flush `immutables[1]`.  The memtable holding `kv1` is then both queued and a
    table, so the tiers no longer list the writes in order. -/
theorem partial_flush_breaks_tier_order :
    initLSM 2 twoWalsDisk [.ok, .ok, .ok, .fail] = .ok (recoveredWorld [.ok, .ok, .ok, .fail]) ∧
    SetStep roomyOptions (recoveredWorld [.ok, .ok, .ok, .fail], []) (afterPartialFlush, [kv3]) ∧
    ¬ TiersByRecency (recoveredWorld [.ok, .ok, .ok, .fail]) afterPartialFlush [kv3] ∧
    ⟨1, [kv1]⟩ ∈ afterPartialFlush.lsm.immutables ∧
    [kv1] ∈ afterPartialFlush.disk.tables :=
  ⟨rfl, .flushFailed kv3 rfl, by unfold TiersByRecency; decide, by decide, by decide⟩

-- ============================================================================
-- The retry
-- ============================================================================

/-- With healthy I/O, the flush loop on a queue whose head has lost its WAL file flushes the
    head again, then `utils.Panic`s on the failed close. -/
theorem flushImmutables_of_head_closed {imm : MemTable} {imms : List MemTable} {w : World}
    (hio : w.outcomes = []) (hgone : walFileName imm.fid ∉ w.disk.wals) :
    flushImmutables (imm :: imms) w = .error .panic { w with disk := w.disk.addTable imm.sl } := by
  have hseq : flushImmutables (imm :: imms) w = (io .flush (Disk.addTable imm.sl) >>= fun _ =>
      panicOnError (memTableClose imm) >>= fun _ => flushImmutables imms) w := rfl
  have hc : memTableClose imm { w with disk := w.disk.addTable imm.sl } =
      .error .close { w with disk := w.disk.addTable imm.sl } := by
    simp [memTableClose, hgone]
  rw [hseq, bind_of_ok (io_of_outcomes_nil _ _ hio), bind_of_error]
  simp [panicOnError, hc]

/-- With healthy I/O, a `Set` on an engine whose oldest immutable has lost its WAL file, and
    whose next fid is not that immutable's, flushes that immutable again and panics. -/
theorem lsmSet_of_head_closed (opt : LsmOptions) (e : Entry) {w : World} {imm : MemTable}
    {rest : List MemTable} (hq : w.lsm.immutables = imm :: rest)
    (hgone : walFileName imm.fid ∉ w.disk.wals) (hfid : imm.fid ≠ w.lsm.maxFID + 1)
    (hio : w.outcomes = []) :
    ∃ w', lsmSet opt e w = .error .panic w' ∧ w'.disk.tables = imm.sl :: w.disk.tables := by
  obtain ⟨w₁, hw₁, hseq⟩ := lsmSet_seq opt e w
  have ho : w₁.outcomes = [] := by rcases hw₁ with rfl | rfl <;> simpa
  obtain ⟨rest₁, hq₁⟩ : ∃ rest₁, w₁.lsm.immutables = imm :: rest₁ := by
    rcases hw₁ with rfl | rfl
    · exact ⟨rest, hq⟩
    · exact ⟨rest ++ [w.lsm.memTable], by simp [hq]⟩
  have hgone₁ : walFileName imm.fid ∉ (w₁.written e).disk.wals := by
    rcases hw₁ with rfl | rfl
    · simpa using hgone
    · simp [hgone, walFileName_injective.ne hfid]
  have ht : w₁.disk.tables = w.disk.tables := by rcases hw₁ with rfl | rfl <;> simp
  refine ⟨{ w₁.written e with disk := (w₁.written e).disk.addTable imm.sl }, ?_,
    by simp [ht]⟩
  rw [hseq, bind_of_ok (memTableSet_of_outcomes_nil e ho)]
  simp only [estate_bind_apply, estate_get_apply]
  rw [show (w₁.written e).lsm.immutables = imm :: rest₁ from hq₁,
    flushImmutables_of_head_closed (by simp [World.written, World.next, ho]) hgone₁]

/-- After a `Set` whose flush loop failed past `immutables[0]`, that memtable is flushed,
    closed and still queued, where `Get` searches it.  With healthy I/O the next `Set` (its
    rotation, if any, not reusing that fid) flushes it a second time and panics when it closes
    it again. -/
theorem lsmSet_retry_reflushes_closed {opt : LsmOptions} {e : Entry} {w w' : World}
    (hfail : lsmSet opt e w = .error .flush w') (hflushed : w'.disk.tables ≠ w.disk.tables)
    (hfid : w'.lsm.immutables.head?.map (·.fid) ≠ some (w'.lsm.maxFID + 1))
    (hio : w'.outcomes = []) (e' : Entry) :
    ∃ imm w'', imm ∈ w'.lsm.immutables ∧ imm.sl ∈ w'.disk.tables ∧
      walFileName imm.fid ∉ w'.disk.wals ∧
      lsmSet opt e' w' = .error .panic w'' ∧ w''.disk.tables = imm.sl :: w'.disk.tables := by
  obtain ⟨w₁, hw₁, j, hj, hf⟩ := lsmSet_eq_flush_error hfail
  have ht : w₁.disk.tables = w.disk.tables := by rcases hw₁ with rfl | rfl <;> simp
  obtain ⟨imm, rest, hq⟩ := List.exists_cons_of_length_pos (Nat.zero_lt_of_lt hj)
  obtain ⟨j', rfl⟩ := Nat.exists_eq_add_one_of_ne_zero fun h0 : j = 0 =>
    hflushed (by simp [hf.tables, ht, h0])
  have hq' : w'.lsm.immutables = imm :: rest := by simp [hf.lsm, hq]
  have hgone : walFileName imm.fid ∉ w'.disk.wals := hf.closed imm (by simp [hq])
  obtain ⟨w'', hpanic, htab⟩ := lsmSet_of_head_closed opt e' hq' hgone
    (fun h => hfid (by simp [hq', h])) hio
  exact ⟨imm, w'', by simp [hq'], by simp [hf.tables, hq], hgone, hpanic, htab⟩

/-- The run of `partial_flush_breaks_tier_order`, then `Set(kv3)` again with healthy I/O:
    `immutables[0]` is flushed a second time and the process panics. -/
theorem partial_flush_retry_panics :
    lsmSet roomyOptions kv3 (recoveredWorld [.ok, .ok, .ok, .fail]) =
      .error .flush afterPartialFlush ∧
    afterPartialFlush.disk.tables ≠ (recoveredWorld [.ok, .ok, .ok, .fail]).disk.tables ∧
    afterPartialFlush.lsm.immutables.head?.map (·.fid) ≠
      some (afterPartialFlush.lsm.maxFID + 1) ∧
    afterPartialFlush.outcomes = [] ∧
    ∃ imm w'', imm ∈ afterPartialFlush.lsm.immutables ∧
      imm.sl ∈ afterPartialFlush.disk.tables ∧
      walFileName imm.fid ∉ afterPartialFlush.disk.wals ∧
      lsmSet roomyOptions kv3 afterPartialFlush = .error .panic w'' ∧
      w''.disk.tables = imm.sl :: afterPartialFlush.disk.tables :=
  have hfail : lsmSet roomyOptions kv3 (recoveredWorld [.ok, .ok, .ok, .fail]) =
      .error .flush afterPartialFlush := rfl
  ⟨hfail, by decide, by decide, rfl,
    lsmSet_retry_reflushes_closed hfail (by decide) (by decide) rfl kv3⟩

end TinyLsm

import TinyLsm.Engine.Model
import Mathlib.Logic.Relation
/-
  TinyLsm.Engine.Steps

  What each engine call can do, said once.  Every invariant of the engine is
  derived from these lemmas without unfolding the calls again.

    * `io_cases`, `memTableSet_cases`, `memTableClose_cases` — the outcomes of
      one I/O call;
    * `flushImmutables_cases`, `closeAll_ok` — the loops over the immutables
      flush and close a prefix of the queue and touch nothing else
      (`FlushedClosed`);
    * `lsmSet_eq`, `lsmSet_cases` — `LSM.Set` rotates exactly when its check
      fires, then either fails its WAL write, or writes and flushes a prefix of
      the queue;
    * `SetStep`, `SetStep.preserves` — runs of `Set` calls that the process
      survives, with the history of the entries whose memtable write
      succeeded, and how an invariant of the world is carried along them.
-/

namespace TinyLsm

-- ============================================================================
-- The directory
-- ============================================================================

/-- Distinct fids name distinct WAL files. -/
theorem walFileName_injective : Function.Injective walFileName := fun a b h =>
  UInt64.toNat.inj (format05d_injective (uint64_toNat_lt a) (uint64_toNat_lt b)
    (List.append_cancel_right h))

@[simp] theorem Disk.mem_createWal {name n : List Char} {d : Disk} :
    name ∈ (d.createWal n).wals ↔ name = n ∨ name ∈ d.wals := by
  unfold Disk.createWal
  split
  · next h => exact ⟨.inr, fun h' => h'.elim (· ▸ h) id⟩
  · exact AList.mem_insert _

@[simp] theorem Disk.mem_appendWal {name n : List Char} {e : Entry} {d : Disk} :
    name ∈ (d.appendWal n e).wals ↔ name ∈ d.wals := by
  unfold Disk.appendWal
  split
  · next h =>
    rw [AList.mem_insert]
    exact ⟨fun h' => h'.elim (fun h' => h' ▸ AList.lookup_isSome.mp (by simp [h])) id, .inr⟩
  · rfl

/-- `d'` is `d` with some WAL files removed: every WAL file of `d'` is one of `d`, with the
    same records. -/
def Disk.Removed (d d' : Disk) : Prop :=
  ∀ name, d'.wals.lookup name = none ∨ d'.wals.lookup name = d.wals.lookup name

namespace Disk.Removed

@[refl] theorem refl (d : Disk) : d.Removed d := fun _ => .inr rfl

@[trans] theorem trans {d₁ d₂ d₃ : Disk} (h₁ : d₁.Removed d₂)
    (h₂ : d₂.Removed d₃) : d₁.Removed d₃ := by
  intro name
  rcases h₂ name with h | h
  · exact .inl h
  · rw [h]; exact h₁ name

theorem removeWal (d : Disk) (name : List Char) : d.Removed (d.removeWal name) := by
  intro name'
  by_cases h : name' = name
  · subst h; exact .inl (AList.lookup_erase _ _)
  · exact .inr (AList.lookup_erase_ne h)

theorem addTable (d : Disk) (t : List Entry) : d.Removed (d.addTable t) := refl d

theorem mem {d d' : Disk} (h : d.Removed d') {name : List Char} (hn : name ∈ d'.wals) :
    name ∈ d.wals := by
  rw [← AList.lookup_isSome] at hn ⊢
  rcases h name with h | h <;> rw [h] at hn
  · simp at hn
  · exact hn

theorem walRecords {d d' : Disk} (h : d.Removed d') (name : List Char) :
    d'.walRecords name = [] ∨ d'.walRecords name = d.walRecords name := by
  unfold Disk.walRecords
  rcases h name with h | h <;> rw [h]
  · exact .inl rfl
  · exact .inr rfl

end Disk.Removed

-- ============================================================================
-- One call
-- ============================================================================

theorem io_cases (err : EngineError) (eff : Disk → Disk) (w : World) :
    io err eff w = .error err w.next ∨ io err eff w = .error .crash w.next ∨
      io err eff w = .ok () { w.next with disk := eff w.disk } := by
  unfold io
  split
  · exact .inl rfl
  · exact .inr (.inl rfl)
  · exact .inr (.inr rfl)

/-- With no failure left, an I/O call just takes effect. -/
theorem io_of_outcomes_nil (err : EngineError) (eff : Disk → Disk) {w : World}
    (h : w.outcomes = []) : io err eff w = .ok () { w with disk := eff w.disk } := by
  simp [io, h, World.next_of_outcomes_nil h]

theorem panicOnError_of_ok {x : EngineM Unit} {w w' : World} {u : Unit} (h : x w = .ok u w') :
    panicOnError x w = .ok u w' := by
  simp only [panicOnError, h]

theorem panicOnError_of_error {x : EngineM Unit} {w w' : World} {err : EngineError}
    (h : x w = .error err w') :
    ∃ err', (err' = .panic ∨ err' = .crash) ∧ panicOnError x w = .error err' w' := by
  cases err <;> simp [panicOnError, h]

/-- The world after the WAL write and `sl.Add` of `memTable.set e` succeeded. -/
def World.written (w : World) (e : Entry) : World :=
  { w.next with
    disk := w.disk.appendWal (walFileName w.lsm.memTable.fid) e
    lsm := { w.lsm with memTable := { w.lsm.memTable with sl := e :: w.lsm.memTable.sl } } }

@[simp] theorem World.written_lsm (w : World) (e : Entry) :
    (w.written e).lsm =
      { w.lsm with memTable := { w.lsm.memTable with sl := e :: w.lsm.memTable.sl } } := rfl

@[simp] theorem World.written_disk (w : World) (e : Entry) :
    (w.written e).disk = w.disk.appendWal (walFileName w.lsm.memTable.fid) e := rfl

theorem memTableSet_cases (e : Entry) (w : World) :
    memTableSet e w = .error .walWrite w.next ∨ memTableSet e w = .error .crash w.next ∨
      memTableSet e w = .ok () (w.written e) := by
  rcases io_cases .walWrite (Disk.appendWal (walFileName w.lsm.memTable.fid) e) w with h | h | h <;>
    simp [memTableSet, h, World.written]

theorem memTableSet_of_outcomes_nil (e : Entry) {w : World} (h : w.outcomes = []) :
    memTableSet e w = .ok () (w.written e) := by
  simp [memTableSet, io_of_outcomes_nil _ _ h, World.written, World.next_of_outcomes_nil h]

theorem memTableClose_cases (m : MemTable) (w : World) :
    (∃ err w', memTableClose m w = .error err w' ∧ w'.lsm = w.lsm ∧ w'.disk = w.disk) ∨
      memTableClose m w = .ok () { w.next with disk := w.disk.removeWal (walFileName m.fid) } := by
  unfold memTableClose
  split
  · rcases io_cases .close (Disk.removeWal (walFileName m.fid)) w with h | h | h <;> rw [h]
    · exact .inl ⟨_, _, rfl, rfl, rfl⟩
    · exact .inl ⟨_, _, rfl, rfl, rfl⟩
    · exact .inr rfl
  · exact .inl ⟨_, _, rfl, rfl, rfl⟩

-- ============================================================================
-- The loops over the immutables
-- ============================================================================

/-- What the loops over the immutables leave: the engine as it was, the first `flushed`
    of `imms` added as tables in order (the last one newest), the WAL files of the first
    `closed` removed, and no other WAL file touched. -/
structure FlushedClosed (imms : List MemTable) (w w' : World) (flushed closed : Nat) : Prop where
  lsm : w'.lsm = w.lsm
  tables : w'.disk.tables = ((imms.take flushed).map (·.sl)).reverse ++ w.disk.tables
  removed : w.disk.Removed w'.disk
  kept : ∀ name, (∀ m ∈ imms.take closed, name ≠ walFileName m.fid) →
    w'.disk.wals.lookup name = w.disk.wals.lookup name
  closed : ∀ m ∈ imms.take closed, walFileName m.fid ∉ w'.disk.wals

namespace FlushedClosed

variable {imm : MemTable} {imms : List MemTable} {w w₂ w' : World} {i j : Nat}

theorem none (hl : w'.lsm = w.lsm) (hd : w'.disk = w.disk) : FlushedClosed imms w w' 0 0 :=
  ⟨hl, by simp [hd], hd ▸ .refl _, fun _ _ => by rw [hd], by simp⟩

/-- The head was flushed, and its close failed. -/
theorem flushOnly (hl : w'.lsm = w.lsm) (hd : w'.disk = w.disk.addTable imm.sl) :
    FlushedClosed (imm :: imms) w w' 1 0 :=
  ⟨hl, by simp [hd], hd ▸ .addTable _ _, fun _ _ => by rw [hd, Disk.addTable_wals], by simp⟩

theorem closed_cons (hgone : walFileName imm.fid ∉ w₂.disk.wals)
    (h : FlushedClosed imms w₂ w' i j) :
    ∀ m ∈ (imm :: imms).take (j + 1), walFileName m.fid ∉ w'.disk.wals := by
  intro m hm
  rw [List.take_succ_cons, List.mem_cons] at hm
  rcases hm with rfl | hm
  · exact fun h' => hgone (h.removed.mem h')
  · exact h.closed m hm

theorem kept_cons (h : FlushedClosed imms w₂ w' i j)
    (hd : w₂.disk.wals = w.disk.wals.erase (walFileName imm.fid)) (name : List Char)
    (hname : ∀ m ∈ (imm :: imms).take (j + 1), name ≠ walFileName m.fid) :
    w'.disk.wals.lookup name = w.disk.wals.lookup name := by
  rw [List.take_succ_cons, List.forall_mem_cons] at hname
  rw [h.kept name hname.2, hd, AList.lookup_erase_ne hname.1]

/-- The head was flushed and closed, giving `w₂`; the rest of the loop went from `w₂` to
    `w'`. -/
theorem flushClose_cons (h : FlushedClosed imms w₂ w' i j) (hl : w₂.lsm = w.lsm)
    (hd : w₂.disk = (w.disk.addTable imm.sl).removeWal (walFileName imm.fid)) :
    FlushedClosed (imm :: imms) w w' (i + 1) (j + 1) :=
  ⟨h.lsm.trans hl, by simp [h.tables, hd],
    ((Disk.Removed.addTable _ _).trans (.removeWal _ _)).trans (hd ▸ h.removed),
    fun name hname => h.kept_cons (by simp [hd]) name hname, closed_cons (by simp [hd]) h⟩

/-- The head was closed, giving `w₂`; the rest of the loop went from `w₂` to `w'`. -/
theorem close_cons (h : FlushedClosed imms w₂ w' 0 j) (hl : w₂.lsm = w.lsm)
    (hd : w₂.disk = w.disk.removeWal (walFileName imm.fid)) :
    FlushedClosed (imm :: imms) w w' 0 (j + 1) :=
  ⟨h.lsm.trans hl, by simp [h.tables, hd], (Disk.Removed.removeWal _ _).trans (hd ▸ h.removed),
    fun name hname => h.kept_cons (by simp [hd]) name hname, closed_cons (by simp [hd]) h⟩

end FlushedClosed

/-- The flush loop flushes and closes the whole queue; or its flush of `imms[j]` fails
    after `imms[0..j-1]` were flushed and closed; or it panics or crashes at `imms[j]`,
    before or after flushing it. -/
theorem flushImmutables_cases : ∀ (imms : List MemTable) (w : World),
    (∃ w', flushImmutables imms w = .ok () w' ∧
      FlushedClosed imms w w' imms.length imms.length) ∨
    (∃ j < imms.length, ∃ w', flushImmutables imms w = .error .flush w' ∧
      FlushedClosed imms w w' j j) ∨
    (∃ err w' i j, (err = .panic ∨ err = .crash) ∧ j < imms.length ∧
      (i = j ∨ i = j + 1) ∧ flushImmutables imms w = .error err w' ∧
      FlushedClosed imms w w' i j)
  | [], w => .inl ⟨w, rfl, .none rfl rfl⟩
  | imm :: imms, w => by
    have hseq : flushImmutables (imm :: imms) w = (io .flush (Disk.addTable imm.sl) >>= fun _ =>
        panicOnError (memTableClose imm) >>= fun _ => flushImmutables imms) w := rfl
    rw [hseq]
    rcases io_cases .flush (Disk.addTable imm.sl) w with h | h | h
    · exact .inr (.inl ⟨0, by simp, _, bind_of_error h, .none rfl rfl⟩)
    · exact .inr (.inr ⟨_, _, 0, 0, .inr rfl, by simp, .inl rfl, bind_of_error h,
        .none rfl rfl⟩)
    rw [bind_of_ok h]
    rcases memTableClose_cases imm { w.next with disk := Disk.addTable imm.sl w.disk } with
      ⟨err, w₂, hc, hl, hd⟩ | hc
    · obtain ⟨err', herr, hp⟩ := panicOnError_of_error hc
      exact .inr (.inr ⟨_, _, 1, 0, herr, by simp, .inr rfl, bind_of_error hp,
        .flushOnly hl hd⟩)
    rw [bind_of_ok (panicOnError_of_ok hc)]
    rcases flushImmutables_cases imms
        { ({ w.next with disk := Disk.addTable imm.sl w.disk } : World).next with
          disk := (Disk.addTable imm.sl w.disk).removeWal (walFileName imm.fid) } with
      ⟨w', h', hf⟩ | ⟨j, hj, w', h', hf⟩ | ⟨err, w', i, j, herr, hj, hij, h', hf⟩
    · exact .inl ⟨w', h', hf.flushClose_cons rfl rfl⟩
    · exact .inr (.inl ⟨j + 1, by simpa using hj, w', h', hf.flushClose_cons rfl rfl⟩)
    · exact .inr (.inr ⟨err, w', i + 1, j + 1, herr, by simpa using hj, by omega, h',
        hf.flushClose_cons rfl rfl⟩)

/-- A close loop that returns nil has removed the WAL file of every memtable it closed. -/
theorem closeAll_ok : ∀ {ms : List MemTable} {w w' : World}, closeAll ms w = .ok () w' →
    FlushedClosed ms w w' 0 ms.length
  | [], w, w', h => by cases h; exact .none rfl rfl
  | m :: ms, w, w', h => by
    have hseq : closeAll (m :: ms) w = (memTableClose m >>= fun _ => closeAll ms) w := rfl
    rcases memTableClose_cases m w with ⟨err, w'', hc, -, -⟩ | hc
    · rw [hseq, bind_of_error hc] at h; cases h
    · rw [hseq, bind_of_ok hc] at h
      exact (closeAll_ok h).close_cons rfl rfl

/-- `LSM.Close` returning nil has removed the WAL files of the active memtable and of every
    immutable, and nothing else. -/
theorem lsmClose_ok {w w' : World} (h : lsmClose w = .ok () w') :
    w'.disk.tables = w.disk.tables ∧ w.disk.Removed w'.disk ∧
      ∀ m ∈ w.lsm.memTable :: w.lsm.immutables, walFileName m.fid ∉ w'.disk.wals := by
  have hseq : lsmClose w = (memTableClose w.lsm.memTable >>= fun _ =>
      get >>= fun w => closeAll w.lsm.immutables) w := rfl
  rcases memTableClose_cases w.lsm.memTable w with ⟨err, w'', hc, -, -⟩ | hc
  · rw [hseq, bind_of_error hc] at h; cases h
  rw [hseq, bind_of_ok hc] at h
  simp only [estate_bind_apply, estate_get_apply] at h
  have hf : FlushedClosed (w.lsm.memTable :: w.lsm.immutables) w w' 0
      (w.lsm.immutables.length + 1) :=
    (closeAll_ok h).close_cons rfl rfl
  have hall := hf.closed
  rw [← List.length_cons, List.take_length] at hall
  exact ⟨by simpa using hf.tables, hf.removed, hall⟩

-- ============================================================================
-- LSM.Set
-- ============================================================================

/-- `LSM.Set` is the rotation, or none, followed by the write and the flush loop. -/
theorem lsmSet_seq (opt : LsmOptions) (e : Entry) (w : World) :
    ∃ w₁, (w₁ = w ∨ w₁ = sealMemTable w) ∧ lsmSet opt e w =
      (memTableSet e >>= fun _ => get >>= fun w =>
        flushImmutables w.lsm.immutables >>= fun _ => modify clearImmutables) w₁ := by
  by_cases hc : opt.memTableSize < (walSize opt w.disk w.lsm.memTable : Int) +
      opt.estimateWalCodecSize e
  · exact ⟨_, .inr rfl, by
      simp only [lsmSet, estate_bind_apply, estate_get_apply, hc, if_true, estate_set_apply]⟩
  · exact ⟨_, .inl rfl, by
      simp only [lsmSet, estate_bind_apply, estate_get_apply, hc, if_false, estate_pure_apply]⟩

/-- `LSM.Set` after its rotation check: the write, the flush loop over the queue read after
    it, and the queue reset. -/
def lsmSetAfterCheck (e : Entry) : EngineM Unit := do
  memTableSet e
  flushImmutables (← get).lsm.immutables
  modify clearImmutables

/-- `LSM.Set` runs the rest of the call on the engine its rotation check leaves. -/
theorem lsmSet_eq (opt : LsmOptions) (e : Entry) (w : World) :
    lsmSet opt e w = lsmSetAfterCheck e
      (if opt.memTableSize < (walSize opt w.disk w.lsm.memTable : Int) +
          opt.estimateWalCodecSize e then sealMemTable w else w) := by
  by_cases hc : opt.memTableSize < (walSize opt w.disk w.lsm.memTable : Int) +
      opt.estimateWalCodecSize e <;>
    simp only [lsmSet, lsmSetAfterCheck, estate_bind_apply, estate_get_apply, hc, if_true,
      if_false, estate_set_apply, estate_pure_apply]

/-- After the check, the WAL write fails or crashes, or it succeeds and the flush loop
    flushes and closes the whole queue, fails at some `j`, or panics or crashes part-way. -/
theorem lsmSetAfterCheck_cases (e : Entry) (w₁ : World) :
    lsmSetAfterCheck e w₁ = .error .walWrite w₁.next ∨
      lsmSetAfterCheck e w₁ = .error .crash w₁.next ∨
      (∃ w₃, lsmSetAfterCheck e w₁ = .ok () (clearImmutables w₃) ∧
        FlushedClosed w₁.lsm.immutables (w₁.written e) w₃ w₁.lsm.immutables.length
          w₁.lsm.immutables.length) ∨
      (∃ j < w₁.lsm.immutables.length, ∃ w₃, lsmSetAfterCheck e w₁ = .error .flush w₃ ∧
        FlushedClosed w₁.lsm.immutables (w₁.written e) w₃ j j) ∨
      (∃ err w₃ i j, (err = .panic ∨ err = .crash) ∧ j < w₁.lsm.immutables.length ∧
        (i = j ∨ i = j + 1) ∧ lsmSetAfterCheck e w₁ = .error err w₃ ∧
        FlushedClosed w₁.lsm.immutables (w₁.written e) w₃ i j) := by
  unfold lsmSetAfterCheck
  rcases memTableSet_cases e w₁ with h | h | h
  · exact .inl (bind_of_error h)
  · exact .inr (.inl (bind_of_error h))
  rw [bind_of_ok h]
  simp only [estate_bind_apply, estate_get_apply]
  rcases flushImmutables_cases (w₁.written e).lsm.immutables (w₁.written e) with
    ⟨w₃, h', hf⟩ | ⟨j, hj, w₃, h', hf⟩ |
      ⟨err, w₃, i, j, herr, hj, hij, h', hf⟩ <;> rw [h']
  · exact .inr (.inr (.inl ⟨w₃, rfl, hf⟩))
  · exact .inr (.inr (.inr (.inl ⟨j, hj, w₃, rfl, hf⟩)))
  · exact .inr (.inr (.inr (.inr ⟨err, w₃, i, j, herr, hj, hij, rfl, hf⟩)))

/-- `LSM.Set` rotates or not (`w₁`); then its WAL write fails or crashes, or it writes and
    its flush loop flushes and closes the whole queue, fails at some `j`, or panics or
    crashes part-way. -/
theorem lsmSet_cases (opt : LsmOptions) (e : Entry) (w : World) :
    ∃ w₁, (w₁ = w ∨ w₁ = sealMemTable w) ∧
      (lsmSet opt e w = .error .walWrite w₁.next ∨ lsmSet opt e w = .error .crash w₁.next ∨
      (∃ w₃, lsmSet opt e w = .ok () (clearImmutables w₃) ∧
        FlushedClosed w₁.lsm.immutables (w₁.written e) w₃ w₁.lsm.immutables.length
          w₁.lsm.immutables.length) ∨
      (∃ j < w₁.lsm.immutables.length, ∃ w₃, lsmSet opt e w = .error .flush w₃ ∧
        FlushedClosed w₁.lsm.immutables (w₁.written e) w₃ j j) ∨
      (∃ err w₃ i j, (err = .panic ∨ err = .crash) ∧ j < w₁.lsm.immutables.length ∧
        (i = j ∨ i = j + 1) ∧ lsmSet opt e w = .error err w₃ ∧
        FlushedClosed w₁.lsm.immutables (w₁.written e) w₃ i j)) := by
  rw [lsmSet_eq]
  refine ⟨_, ?_, lsmSetAfterCheck_cases e _⟩
  split
  · exact .inr rfl
  · exact .inl rfl

/-- A `Set` that reports a flush failure wrote its entry and then flushed and closed a
    proper prefix of the queue. -/
theorem lsmSet_eq_flush_error {opt : LsmOptions} {e : Entry} {w w' : World}
    (h : lsmSet opt e w = .error .flush w') :
    ∃ w₁, (w₁ = w ∨ w₁ = sealMemTable w) ∧ ∃ j < w₁.lsm.immutables.length,
      FlushedClosed w₁.lsm.immutables (w₁.written e) w' j j := by
  obtain ⟨w₁, hw₁, hs | hs | ⟨w₃, hs, -⟩ | ⟨j, hj, w₃, hs, hf⟩ |
    ⟨err, w₃, i, j, herr, -, -, hs, -⟩⟩ := lsmSet_cases opt e w <;>
    rw [h] at hs <;> cases hs
  · exact ⟨w₁, hw₁, j, hj, hf⟩
  · rcases herr with h' | h' <;> cases h'

-- ============================================================================
-- Runs of Set calls
-- ============================================================================

/-- One `LSM.Set` call after which the process goes on, with the history of the entries
    whose memtable write succeeded, oldest first.  A call that panics or crashes ends the
    run. -/
inductive SetStep (opt : LsmOptions) : World × List Entry → World × List Entry → Prop
  | ok {w w' : World} {hist : List Entry} (e : Entry) :
      lsmSet opt e w = .ok () w' → SetStep opt (w, hist) (w', hist ++ [e])
  | flushFailed {w w' : World} {hist : List Entry} (e : Entry) :
      lsmSet opt e w = .error .flush w' → SetStep opt (w, hist) (w', hist ++ [e])
  | writeFailed {w w' : World} {hist : List Entry} (e : Entry) :
      lsmSet opt e w = .error .walWrite w' → SetStep opt (w, hist) (w', hist)

/-- The three shapes of a step: a failed WAL write after the rotation, or a write followed
    by the whole queue flushed and cleared, or by a prefix of it flushed before a failure. -/
theorem SetStep.shape {opt : LsmOptions} {p q : World × List Entry} (h : SetStep opt p q) :
    ∃ e w₁, (w₁ = p.1 ∨ w₁ = sealMemTable p.1) ∧
      (q = (w₁.next, p.2) ∨
      (∃ w₃, q = (clearImmutables w₃, p.2 ++ [e]) ∧ FlushedClosed w₁.lsm.immutables
        (w₁.written e) w₃ w₁.lsm.immutables.length w₁.lsm.immutables.length) ∨
      (∃ j w₃, q = (w₃, p.2 ++ [e]) ∧
        FlushedClosed w₁.lsm.immutables (w₁.written e) w₃ j j)) := by
  cases h with
  | ok e h | flushFailed e h | writeFailed e h =>
    obtain ⟨w₁, hw₁, hs | hs | ⟨w₃, hs, hf⟩ | ⟨j, -, w₃, hs, hf⟩ |
      ⟨err, w₃, i, j, herr, -, -, hs, hf⟩⟩ := lsmSet_cases opt e _
    all_goals
      refine ⟨e, w₁, hw₁, ?_⟩
      rw [hs] at h
      cases h
    all_goals first
      | exact .inl rfl
      | exact .inr (.inl ⟨_, rfl, hf⟩)
      | exact .inr (.inr ⟨_, _, rfl, hf⟩)
      | (rcases herr with h | h <;> cases h)

section Preserves

variable {P : World → Prop}

/-- An invariant of the world that the rotation, a used outcome, the WAL write, and the
    flush loop keep holds along every run of `Set` calls. -/
theorem SetStep.preserves (hseal : ∀ w, P w → P (sealMemTable w))
    (hnext : ∀ w, P w → P w.next)
    (hwrite : ∀ w e, P w → P (w.written e))
    (hflush : ∀ w w₃ j, P w → FlushedClosed w.lsm.immutables w w₃ j j → P w₃)
    (hclear : ∀ w w₃, P w → FlushedClosed w.lsm.immutables w w₃ w.lsm.immutables.length
      w.lsm.immutables.length → P (clearImmutables w₃))
    {opt : LsmOptions} {p q : World × List Entry}
    (hrun : Relation.ReflTransGen (SetStep opt) p q) (hp : P p.1) : P q.1 := by
  induction hrun with
  | refl => exact hp
  | tail _ hs ih =>
    obtain ⟨e, w₁, hw₁, rfl | ⟨w₃, rfl, hf⟩ | ⟨j, w₃, rfl, hf⟩⟩ := hs.shape
    all_goals have h₁ : P w₁ := by rcases hw₁ with rfl | rfl; exacts [ih, hseal _ ih]
    · exact hnext _ h₁
    · exact hclear _ _ (hwrite _ _ h₁) hf
    · exact hflush _ _ _ (hwrite _ _ h₁) hf

end Preserves

end TinyLsm

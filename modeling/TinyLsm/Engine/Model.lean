import TinyLsm.Bytes
import TinyLsm.Decimal
import TinyLsm.Sequencing
import Mathlib.Data.List.AList
import Mathlib.Data.List.Sort
/-
  TinyLsm.Engine.Model

  The engine of `lsm/lsm.go`: `LSM.Set`, `LSM.Get`, `LSM.Close`, `NewMemtable`,
  `memTable.set/close/Get` and the recovery run by `initLSM`.

  The collaborators outside the sources are modelled as the engine uses them:

    * the sorted index (`utils.SkipList`) is a map from key to entry: the list
      of entries added, newest first, searched for the newest entry of a key;
    * a WAL (`file.WalFile`) is a file of records in append order, named
      `%05d.wal` after its fid; `Close` removes it, replay returns its records;
    * the level manager keeps the flushed indexes as tables, newest first, and
      `levels.Get` searches them newest first.

  The durable state (`Disk`) is the WAL files and the tables; the engine
  (`LSM`) is the active memtable, the immutable queue and `levels.maxFID`.
  Every WAL write, flush and WAL removal takes its outcome from
  `World.outcomes`: it succeeds, fails, or the process crashes before it takes
  effect; an exhausted list lets every later call succeed.  `utils.Panic` and a
  crash both end the process and leave the disk as it is.
-/

namespace TinyLsm

/-- `utils.Entry`: a key and its value. -/
structure Entry where
  key : Bytes
  value : Bytes
  deriving DecidableEq, Repr

/-- The newest entry of `key` in a newest-first list of entries. -/
def findKey (key : Bytes) (l : List Entry) : Option Entry := l.find? (·.key == key)

/-- `memTable`: the fid of its WAL file and its sorted index, newest entry first. -/
structure MemTable where
  fid : UInt64
  sl : List Entry
  deriving DecidableEq, Repr

/-- The working directory: the WAL files by name, each with its records in append order,
    and the tables the level manager holds, newest first. -/
structure Disk where
  wals : AList (fun _ : List Char => List Entry)
  tables : List (List Entry)
  deriving DecidableEq

/-- `LSM`: the active memtable, the immutable queue (oldest first) and `levels.maxFID`. -/
structure LSM where
  memTable : MemTable
  immutables : List MemTable
  maxFID : UInt64
  deriving DecidableEq, Repr

/-- The outcome of one I/O call. -/
inductive Outcome
  | ok
  | fail
  | crash
  deriving DecidableEq, Repr

/-- The engine, its directory, and the outcomes of the I/O calls still to come. -/
structure World where
  lsm : LSM
  disk : Disk
  outcomes : List Outcome
  deriving DecidableEq

/-- What a call returns when it does not return nil.  `panic` is `utils.Panic` and `crash`
    a crash of the process: after either the process is gone. -/
inductive EngineError
  | walWrite
  | flush
  | close
  | panic
  | crash
  deriving DecidableEq, Repr

/-- The option `MemTableSize`, with the sizes of the WAL codec: the bytes `wal.Write`
    appends for an entry, and `utils.EstimateWalCodecSize`. -/
structure LsmOptions where
  memTableSize : Int
  walRecordSize : Entry → Nat
  estimateWalCodecSize : Entry → Nat

abbrev EngineM := EStateM EngineError World

-- ============================================================================
-- Files
-- ============================================================================

/-- `walFileExt`. -/
def walFileExt : List Char := ".wal".toList

/-- `filePath(dir, fid)`: the name `%05d.wal`. -/
def walFileName (fid : UInt64) : List Char := format05d fid.toNat ++ walFileExt

/-- The records of a WAL file; none if it is absent. -/
def Disk.walRecords (d : Disk) (name : List Char) : List Entry := (d.wals.lookup name).getD []

/-- `os.OpenFile(name, O_CREATE|O_RDWR)`: an absent file is created empty. -/
def Disk.createWal (name : List Char) (d : Disk) : Disk :=
  if name ∈ d.wals then d else { d with wals := d.wals.insert name [] }

/-- `wal.Write(e)`: one record appended.  Once the file has been removed the write lands
    in no file of the directory. -/
def Disk.appendWal (name : List Char) (e : Entry) (d : Disk) : Disk :=
  match d.wals.lookup name with
  | some recs => { d with wals := d.wals.insert name (recs ++ [e]) }
  | none => d

/-- `wal.Close()`, which removes the file. -/
def Disk.removeWal (name : List Char) (d : Disk) : Disk := { d with wals := d.wals.erase name }

/-- `levels.flush(imm)`: the index of `imm` becomes the newest table. -/
def Disk.addTable (t : List Entry) (d : Disk) : Disk := { d with tables := t :: d.tables }

/-- `levels.Get(key)`: the tables searched newest first. -/
def levelsGet (d : Disk) (key : Bytes) : Option Entry := d.tables.findSome? (findKey key)

/-- `wal.Size()`: the bytes of the records of the memtable's WAL file. -/
def walSize (opt : LsmOptions) (d : Disk) (m : MemTable) : Nat :=
  ((d.walRecords (walFileName m.fid)).map opt.walRecordSize).sum

-- ============================================================================
-- I/O calls
-- ============================================================================

/-- The world after one more outcome has been used. -/
def World.next (w : World) : World := { w with outcomes := w.outcomes.tail }

/-- One I/O call: its outcome decides whether `eff` takes effect, `err` is returned, or the
    process crashes first. -/
def io (err : EngineError) (eff : Disk → Disk) : EngineM Unit := fun w =>
  match w.outcomes.head? with
  | some .fail => .error err w.next
  | some .crash => .error .crash w.next
  | _ => .ok () { w.next with disk := eff w.disk }

/-- `utils.Panic(err)` after a call: any error but a crash becomes a panic. -/
def panicOnError (x : EngineM Unit) : EngineM Unit := fun w =>
  match x w with
  | .ok u w' => .ok u w'
  | .error .crash w' => .error .crash w'
  | .error _ w' => .error .panic w'

-- ============================================================================
-- memTable
-- ============================================================================

/-- `memTable.Get`: `sl.Search(key)`. -/
def MemTable.get (m : MemTable) (key : Bytes) : Option Entry := findKey key m.sl

/-- `LSM.NewMemtable` on `levels.maxFID` and the directory: `atomic.AddUint64`, which
    wraps, and the WAL file of the new fid opened with `O_CREATE`.  Returns the memtable,
    the counter and the directory. -/
def newMemtable (maxFID : UInt64) (d : Disk) : MemTable × UInt64 × Disk :=
  let newFid := maxFID + 1
  (⟨newFid, []⟩, newFid, d.createWal (walFileName newFid))

/-- `memTable.set` on the active memtable: the WAL write, then `sl.Add`. -/
def memTableSet (e : Entry) : EngineM Unit := do
  io .walWrite (Disk.appendWal (walFileName (← get).lsm.memTable.fid) e)
  modify fun w =>
    { w with
      lsm := { w.lsm with memTable := { w.lsm.memTable with sl := e :: w.lsm.memTable.sl } } }

/-- `memTable.close`: `wal.Close()` removes the WAL file, and fails once it is gone. -/
def memTableClose (m : MemTable) : EngineM Unit := fun w =>
  if walFileName m.fid ∈ w.disk.wals then io .close (Disk.removeWal (walFileName m.fid)) w
  else .error .close w

-- ============================================================================
-- LSM
-- ============================================================================

/-- The rotation in `LSM.Set`: `lsm.immutables = append(lsm.immutables, lsm.memTable)`,
    then `lsm.memTable = lsm.NewMemtable()`. -/
def sealMemTable (w : World) : World :=
  let (mt, maxFID, d) := newMemtable w.lsm.maxFID w.disk
  { w with lsm := ⟨mt, w.lsm.immutables ++ [w.lsm.memTable], maxFID⟩, disk := d }

/-- The loop of `LSM.Set` over the immutables: flush one, close it (`utils.Panic` on an
    error), go on; a failed flush ends the loop with its error. -/
def flushImmutables : List MemTable → EngineM Unit
  | [] => pure ()
  | imm :: imms => do
    io .flush (Disk.addTable imm.sl)
    panicOnError (memTableClose imm)
    flushImmutables imms

/-- `if len(lsm.immutables) != 0 { lsm.immutables = make([]*memTable, 0) }`. -/
def clearImmutables (w : World) : World :=
  if w.lsm.immutables ≠ [] then { w with lsm := { w.lsm with immutables := [] } } else w

/-- `LSM.Set`. -/
def lsmSet (opt : LsmOptions) (e : Entry) : EngineM Unit := do
  let w ← get
  if opt.memTableSize < (walSize opt w.disk w.lsm.memTable : Int) + opt.estimateWalCodecSize e then
    set (sealMemTable w)
  memTableSet e
  flushImmutables (← get).lsm.immutables
  modify clearImmutables

/-- `LSM.Get`: the active memtable, the immutables newest first, then the level manager. -/
def lsmGet (w : World) (key : Bytes) : Option Entry :=
  match w.lsm.memTable.get key with
  | some e => some e
  | none =>
    match w.lsm.immutables.reverse.findSome? (·.get key) with
    | some e => some e
    | none => levelsGet w.disk key

/-- The loop of `LSM.Close` over the immutables, stopping at the first error. -/
def closeAll : List MemTable → EngineM Unit
  | [] => pure ()
  | m :: ms => do
    memTableClose m
    closeAll ms

/-- `LSM.Close`: the active memtable, then the immutables, are closed; `levels.close` and
    the closer touch no WAL file. -/
def lsmClose : EngineM Unit := do
  memTableClose (← get).lsm.memTable
  closeAll (← get).lsm.immutables

-- ============================================================================
-- Recovery
-- ============================================================================

/-- The fids recovery reads from the `.wal` names of a listing, in listing order:
    `strconv.ParseUint(name[:len-4], 10, 64)`, and `utils.Panic` when it fails. -/
def walFileIds : List (List Char) → Except EngineError (List UInt64)
  | [] => .ok []
  | name :: names =>
    if walFileExt.isSuffixOf name then
      match parseUint (name.take (name.length - walFileExt.length)) with
      | .error _ => .error .panic
      | .ok fid => (walFileIds names).map (UInt64.ofNat fid :: ·)
    else walFileIds names

/-- The running maximum of recovery, from `levels.maxFID`: `if maxFid < fid { maxFid = fid }`. -/
def maxFidOf (levelsMaxFID : UInt64) (ids : List UInt64) : UInt64 :=
  ids.foldl (fun maxFid fid => if maxFid < fid then fid else maxFid) levelsMaxFID

/-- `LSM.RecoveryMemTable(fid)`: the WAL file is opened with `O_CREATE` and its records are
    added to a new index in order. -/
def recoveryMemTable (d : Disk) (fid : UInt64) : MemTable × Disk :=
  let d := d.createWal (walFileName fid)
  (⟨fid, (d.walRecords (walFileName fid)).reverse⟩, d)

/-- The replay loop of recovery, in ascending fid order: a memtable whose index is not
    empty joins the immutables. -/
def recoverMemTables : List UInt64 → List MemTable × Disk → List MemTable × Disk
  | [], acc => acc
  | fid :: fids, (imms, d) =>
    let (mt, d) := recoveryMemTable d fid
    recoverMemTables fids (if mt.sl ≠ [] then imms ++ [mt] else imms, d)

/-- `initLSM` on a directory whose level manager loaded `levelsMaxFID`: `LSM.recovery`, which
    ends with `lsm.NewMemtable()` as the active memtable. -/
def initLSM (levelsMaxFID : UInt64) (d : Disk) (outcomes : List Outcome) :
    Except EngineError World :=
  match walFileIds d.wals.keys with
  | .error e => .error e
  | .ok walFileId =>
    let maxFid := maxFidOf levelsMaxFID walFileId
    let (imms, d) := recoverMemTables (walFileId.insertionSort (· ≤ ·)) ([], d)
    let (mt, maxFID, d) := newMemtable maxFid d
    .ok ⟨⟨mt, imms, maxFID⟩, d, outcomes⟩

-- ============================================================================
-- Field lemmas
-- ============================================================================

@[simp] theorem Disk.createWal_tables (name : List Char) (d : Disk) :
    (d.createWal name).tables = d.tables := by
  unfold Disk.createWal; split <;> rfl

@[simp] theorem Disk.appendWal_tables (name : List Char) (e : Entry) (d : Disk) :
    (d.appendWal name e).tables = d.tables := by
  unfold Disk.appendWal; split <;> rfl

@[simp] theorem Disk.removeWal_tables (name : List Char) (d : Disk) :
    (d.removeWal name).tables = d.tables := rfl

@[simp] theorem Disk.addTable_tables (t : List Entry) (d : Disk) :
    (d.addTable t).tables = t :: d.tables := rfl

@[simp] theorem Disk.addTable_wals (t : List Entry) (d : Disk) : (d.addTable t).wals = d.wals := rfl

@[simp] theorem Disk.removeWal_wals (name : List Char) (d : Disk) :
    (d.removeWal name).wals = d.wals.erase name := rfl

@[simp] theorem World.next_lsm (w : World) : w.next.lsm = w.lsm := rfl

@[simp] theorem World.next_disk (w : World) : w.next.disk = w.disk := rfl

theorem World.next_of_outcomes_nil {w : World} (h : w.outcomes = []) : w.next = w := by
  cases w; simp_all [World.next]

@[simp] theorem sealMemTable_lsm (w : World) :
    (sealMemTable w).lsm =
      ⟨⟨w.lsm.maxFID + 1, []⟩, w.lsm.immutables ++ [w.lsm.memTable], w.lsm.maxFID + 1⟩ :=
  rfl

@[simp] theorem sealMemTable_disk (w : World) :
    (sealMemTable w).disk = w.disk.createWal (walFileName (w.lsm.maxFID + 1)) := rfl

@[simp] theorem sealMemTable_outcomes (w : World) : (sealMemTable w).outcomes = w.outcomes := rfl

@[simp] theorem clearImmutables_lsm (w : World) :
    (clearImmutables w).lsm = { w.lsm with immutables := [] } := by
  unfold clearImmutables; split
  · rfl
  · next h => rw [← not_not.mp h]

@[simp] theorem clearImmutables_disk (w : World) : (clearImmutables w).disk = w.disk := by
  unfold clearImmutables; split <;> rfl

end TinyLsm

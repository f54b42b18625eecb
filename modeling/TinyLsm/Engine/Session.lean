import TinyLsm.Engine.Durability
/-
  TinyLsm.Engine.Session

  A process that runs `LSM.Set` calls, may stop in the middle of one (an
  error return it does not survive, a `utils.Panic`, a power cut), and starts
  again with `initLSM` on the directory it left, any number of times.

  The specification is a log of writes: `Get(k)` is the newest entry of `k`
  in the log, else what the first engine answered.  `Allowed` says which logs
  the calls of a session permit: an acknowledged `Set` is in the log, in call
  order, a `Set` whose WAL write failed is not, and a `Set` cut short may be
  either.  `engineRun_refines_log`: every session of the code answers every
  key as one of those logs does.
-/

namespace TinyLsm

-- ============================================================================
-- Sessions
-- ============================================================================

/-- How one `Set` call of a session ended. -/
inductive CallEnd
  /-- `Set` returned nil. -/
  | acked
  /-- `Set` returned the error of its WAL write, and the process went on. -/
  | failed
  /-- The process stopped inside the call. -/
  | crashed
  deriving DecidableEq, Repr

/-- One event of a session: a `Set(e)` call, or a restart between two calls. -/
inductive EngineEvent
  | call (e : Entry) (r : CallEnd)
  | restart
  deriving DecidableEq, Repr

/-- One step of a session.  Each step needs room in the fid counter for the fids it may
    hand out: one for a call, two for a call that crashes (the restart hands out one past
    the call's), and `levels.maxFID` below the largest `uint64` at a restart. -/
inductive EngineStep (opt : LsmOptions) : World → EngineEvent → World → Prop
  | acked {w w' : World} (e : Entry) : w.lsm.maxFID.toNat + 1 < UInt64.size →
      lsmSet opt e w = .ok () w' → EngineStep opt w (.call e .acked) w'
  | failed {w w' : World} (e : Entry) : w.lsm.maxFID.toNat + 1 < UInt64.size →
      lsmSet opt e w = .error .walWrite w' → EngineStep opt w (.call e .failed) w'
  | crashed {w w' w'' : World} (e : Entry) (err : EngineError) (lm : UInt64)
      (o : List Outcome) : w.lsm.maxFID.toNat + 2 < UInt64.size →
      lm.toNat + 1 < UInt64.size → lsmSet opt e w = .error err w' →
      initLSM lm w'.disk o = .ok w'' → EngineStep opt w (.call e .crashed) w''
  | restarted {w w'' : World} (lm : UInt64) (o : List Outcome) :
      w.lsm.maxFID.toNat + 1 < UInt64.size → lm.toNat + 1 < UInt64.size →
      initLSM lm w.disk o = .ok w'' → EngineStep opt w .restart w''

/-- The steps of a session, with its events in order. -/
inductive EngineRun (opt : LsmOptions) : World → List EngineEvent → World → Prop
  | refl (w : World) : EngineRun opt w [] w
  | tail {w w' w'' : World} {evs : List EngineEvent} {ev : EngineEvent} :
      EngineRun opt w evs w' → EngineStep opt w' ev w'' → EngineRun opt w (evs ++ [ev]) w''

/-- The logs of writes, oldest first, that the events of a session allow. -/
inductive Allowed : List EngineEvent → List Entry → Prop
  | nil : Allowed [] []
  | acked {evs : List EngineEvent} {hist : List Entry} (e : Entry) :
      Allowed evs hist → Allowed (evs ++ [.call e .acked]) (hist ++ [e])
  | failed {evs : List EngineEvent} {hist : List Entry} (e : Entry) :
      Allowed evs hist → Allowed (evs ++ [.call e .failed]) hist
  | lost {evs : List EngineEvent} {hist : List Entry} (e : Entry) :
      Allowed evs hist → Allowed (evs ++ [.call e .crashed]) hist
  | kept {evs : List EngineEvent} {hist : List Entry} (e : Entry) :
      Allowed evs hist → Allowed (evs ++ [.call e .crashed]) (hist ++ [e])
  | restart {evs : List EngineEvent} {hist : List Entry} :
      Allowed evs hist → Allowed (evs ++ [.restart]) hist

-- ============================================================================
-- What a crash leaves in the directory
-- ============================================================================

/-- Whatever a `Set` call that returns an error leaves, the directory holds only
    `%05d.wal` files, with fids up to one past the counter. -/
theorem Recoverable.wals_of_lsmSet_error {opt : LsmOptions} {e : Entry} {w w' : World}
    {err : EngineError} (h : Recoverable w) (hroom : w.lsm.maxFID.toNat + 1 < UInt64.size)
    (hset : lsmSet opt e w = .error err w') :
    w'.disk.Canonical ∧
      ∀ fid, walFileName fid ∈ w'.disk.wals → fid.toNat ≤ w.lsm.maxFID.toNat + 1 := by
  obtain ⟨w₁, hw₁, hcases⟩ := lsmSet_cases opt e w
  have h₁ := (h.rotated hroom hw₁).written e
  have hM₁ : w₁.lsm.maxFID.toNat ≤ w.lsm.maxFID.toNat + 1 := by
    rcases hw₁ with rfl | rfl
    · omega
    · simp [uint64_toNat_succ hroom]
  -- the directory the call leaves has no WAL file the written engine's lacks
  suffices hsub : ∀ name ∈ w'.disk.wals, name ∈ (w₁.written e).disk.wals from
    ⟨fun name hn => h₁.logs.canonical name (hsub name hn),
      fun fid hf => (h₁.bound fid (hsub _ hf)).trans hM₁⟩
  rcases hcases with hs | hs | ⟨w₃, hs, -⟩ | ⟨j, -, w₃, hs, hf⟩ |
      ⟨err', w₃, i, j, -, -, -, hs, hf⟩ <;>
    rw [hset] at hs <;> cases hs
  · exact fun name hn => Disk.mem_appendWal.mpr hn
  · exact fun name hn => Disk.mem_appendWal.mpr hn
  · exact fun name hn => hf.removed.mem hn
  · exact fun name hn => hf.removed.mem hn

-- ============================================================================
-- The refinement
-- ============================================================================

/-- One step of a session keeps the invariant, and keeps the search order answering every
    key as some log the events allow. -/
theorem EngineStep.refines {opt : LsmOptions} {w w' : World} {ev : EngineEvent}
    (hs : EngineStep opt w ev w') (h : Recoverable w) {base : List Entry}
    {evs : List EngineEvent} {hist : List Entry} (hall : Allowed evs hist)
    (hv : ∀ k, findKey k w.view = findKey k (hist.reverse ++ base)) :
    Recoverable w' ∧ ∃ hist', Allowed (evs ++ [ev]) hist' ∧
      ∀ k, findKey k w'.view = findKey k (hist'.reverse ++ base) := by
  cases hs with
  | @acked w' e hroom hset =>
    have hstep : SetStep opt (w, hist) (w', hist ++ [e]) := .ok e hset
    exact ⟨(HealthyStep.ok e hroom hset).recoverable h, hist ++ [e], .acked e hall,
      hstep.findKey_view base hv⟩
  | @failed w' e hroom hset =>
    have hstep : SetStep opt (w, hist) (w', hist) := .writeFailed e hset
    exact ⟨(HealthyStep.writeFailed e hroom hset).recoverable h, hist, .failed e hall,
      hstep.findKey_view base hv⟩
  | crashed e err lm o hroom hlm hset hinit =>
    have hroom₁ : w.lsm.maxFID.toNat + 1 < UInt64.size := by omega
    obtain ⟨hcanon, hfids⟩ := h.wals_of_lsmSet_error hroom₁ hset
    refine ⟨.of_initLSM hinit hcanon (fun fid hf => by have := hfids fid hf; omega) hlm, ?_⟩
    obtain ⟨w₂, h₂, hget⟩ := lsmSet_crash_recovers h hroom₁ hset lm o
    obtain rfl : w₂ = _ := Except.ok.inj (h₂.symm.trans hinit)
    rcases hget with hget | hget
    · refine ⟨hist, .lost e hall, fun k => ?_⟩
      rw [← lsmGet_eq_findKey_view, hget, lsmGet_eq_findKey_view, hv]
    · refine ⟨hist ++ [e], .kept e hall, fun k => ?_⟩
      rw [← lsmGet_eq_findKey_view, hget, lsmGet_eq_findKey_view, hv, List.reverse_append,
        List.reverse_singleton, List.singleton_append, List.cons_append,
        findKey_cons k e (hist.reverse ++ base)]
  | restarted lm o hroom hlm hinit =>
    obtain ⟨w₂, h₂, hv₂⟩ := h.reopen lm o
    obtain rfl : w₂ = _ := Except.ok.inj (h₂.symm.trans hinit)
    refine ⟨.of_initLSM hinit h.logs.canonical (fun fid hf => ?_) hlm, hist, .restart hall,
      fun k => by rw [hv₂, hv]⟩
    have := h.bound fid hf
    omega

/-- **Sessions refine the log of writes.**  Start the engine with `initLSM` on a directory
    of `%05d.wal` files (neither a fid of theirs nor `levels.maxFID` the largest `uint64`)
    and run any session: `Set` calls that return nil or a WAL write error, calls cut short
    by a stop of the process, and restarts with `initLSM` on the directory, each with room
    for the fids it hands out.  Then there is a log of writes that the session's events
    allow (every acknowledged write, in order, no failed one, and some of the calls cut
    short) such that `Get` answers every key with the newest entry of the key in the log,
    else as the first engine did. -/
theorem engineRun_refines_log {lm : UInt64} {d : Disk} {o : List Outcome} {w₀ : World}
    (h₀ : initLSM lm d o = .ok w₀) (hd : d.Canonical)
    (hroom : ∀ fid, walFileName fid ∈ d.wals → fid.toNat + 1 < UInt64.size)
    (hlm : lm.toNat + 1 < UInt64.size) {opt : LsmOptions} {evs : List EngineEvent}
    {w : World} (hrun : EngineRun opt w₀ evs w) :
    ∃ hist, Allowed evs hist ∧
      ∀ key, lsmGet w key = (findKey key hist.reverse).or (lsmGet w₀ key) := by
  suffices h : Recoverable w ∧ ∃ hist, Allowed evs hist ∧
      ∀ k, findKey k w.view = findKey k (hist.reverse ++ w₀.view) by
    obtain ⟨-, hist, hall, hv⟩ := h
    refine ⟨hist, hall, fun key => ?_⟩
    rw [lsmGet_eq_findKey_view, hv, findKey_append, lsmGet_eq_findKey_view]
  induction hrun with
  | refl => exact ⟨.of_initLSM h₀ hd hroom hlm, [], .nil, fun _ => rfl⟩
  | tail _ hs ih =>
    obtain ⟨hrec, hist, hall, hv⟩ := ih
    exact hs.refines hrec hall hv

-- ============================================================================
-- The invariant along sessions
-- ============================================================================

/-- One step of a session keeps `Recoverable`. -/
theorem EngineStep.recoverable {opt : LsmOptions} {w w' : World} {ev : EngineEvent}
    (hs : EngineStep opt w ev w') (h : Recoverable w) : Recoverable w' :=
  (hs.refines h Allowed.nil fun _ => rfl).1

/-- A whole session keeps `Recoverable`. -/
theorem EngineRun.recoverable {opt : LsmOptions} {w w' : World} {evs : List EngineEvent}
    (hrun : EngineRun opt w evs w') (h : Recoverable w) : Recoverable w' := by
  induction hrun with
  | refl => exact h
  | tail _ hs ih => exact hs.recoverable ih

/-- **Sessions keep the directory in step with the engine.**  From `initLSM` on a directory
    of `%05d.wal` files, neither a fid of theirs nor `levels.maxFID` the largest `uint64`,
    every session ends in an engine whose WAL files hold exactly its memtables, in
    increasing fid order, each memtable's index being its file's records newest first, no
    other WAL file holding a record; the active memtable holds the counter's fid and no WAL
    file has a larger one. -/
theorem engineRun_recoverable {lm : UInt64} {d : Disk} {o : List Outcome} {w₀ : World}
    (h₀ : initLSM lm d o = .ok w₀) (hd : d.Canonical)
    (hroom : ∀ fid, walFileName fid ∈ d.wals → fid.toNat + 1 < UInt64.size)
    (hlm : lm.toNat + 1 < UInt64.size) {opt : LsmOptions} {evs : List EngineEvent}
    {w : World} (hrun : EngineRun opt w₀ evs w) : Recoverable w :=
  hrun.recoverable (.of_initLSM h₀ hd hroom hlm)

/-- The engine `initLSM` rebuilds from the directory of `oneSetWorld`: `kv1` recovered into
    an immutable, fid 2 active. -/
def restartedWorld : World :=
  ⟨⟨⟨2, []⟩, [⟨1, [kv1]⟩], 2⟩,
    ⟨oneSetWorld.disk.wals.insert (walFileName 2) [], []⟩, []⟩

theorem initLSM_emptyDisk : initLSM 0 emptyDisk [] = .ok freshWorld := rfl

theorem emptyDisk_canonical : emptyDisk.Canonical := fun _ hn => absurd hn (AList.not_mem_empty _)

theorem emptyDisk_room : ∀ fid, walFileName fid ∈ emptyDisk.wals → fid.toNat + 1 < UInt64.size :=
  fun _ hn => absurd hn (AList.not_mem_empty _)

/-- `Set(kv1)` acknowledged on a fresh engine, then a restart. -/
theorem engineRun_set_restart :
    EngineRun roomyOptions freshWorld [.call kv1 .acked, .restart] restartedWorld := by
  have hset : EngineRun roomyOptions freshWorld [.call kv1 .acked] oneSetWorld :=
    .tail (.refl _) (.acked kv1 (by decide) rfl)
  exact .tail hset (.restarted 0 [] (by decide) (by decide) rfl)

/-- A fresh engine on an empty directory, `Set(kv1)` acknowledged, then a restart. -/
theorem engineRun_refines_log_restart :
    initLSM 0 emptyDisk [] = .ok freshWorld ∧ emptyDisk.Canonical ∧
    (∀ fid, walFileName fid ∈ emptyDisk.wals → fid.toNat + 1 < UInt64.size) ∧
    (0 : UInt64).toNat + 1 < UInt64.size ∧
    EngineRun roomyOptions freshWorld [.call kv1 .acked, .restart] restartedWorld ∧
    ∃ hist, Allowed [.call kv1 .acked, .restart] hist ∧
      ∀ key, lsmGet restartedWorld key =
        (findKey key hist.reverse).or (lsmGet freshWorld key) :=
  ⟨initLSM_emptyDisk, emptyDisk_canonical, emptyDisk_room, by decide, engineRun_set_restart,
    engineRun_refines_log initLSM_emptyDisk emptyDisk_canonical emptyDisk_room (by decide)
      engineRun_set_restart⟩

/-- The same session keeps the directory in step with the engine. -/
theorem engineRun_recoverable_restart :
    initLSM 0 emptyDisk [] = .ok freshWorld ∧ emptyDisk.Canonical ∧
    (∀ fid, walFileName fid ∈ emptyDisk.wals → fid.toNat + 1 < UInt64.size) ∧
    (0 : UInt64).toNat + 1 < UInt64.size ∧
    EngineRun roomyOptions freshWorld [.call kv1 .acked, .restart] restartedWorld ∧
    Recoverable restartedWorld :=
  ⟨initLSM_emptyDisk, emptyDisk_canonical, emptyDisk_room, by decide, engineRun_set_restart,
    engineRun_recoverable initLSM_emptyDisk emptyDisk_canonical emptyDisk_room (by decide)
      engineRun_set_restart⟩

end TinyLsm

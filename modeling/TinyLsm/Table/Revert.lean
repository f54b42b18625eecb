import TinyLsm.Decimal
import TinyLsm.Manifest.File
/-
  TinyLsm.Table.Revert

  The startup check of table files: `utils.FID`, `utils.SSTableFullPath`,
  `utils.LoadSSTIdMap` and `ManifestFile.RevertToManifest`.

  The working directory is its `ioutil.ReadDir` listing, a list of entries with
  their names (all in the one directory, so `SSTableFullPath(dir, id)` is the
  entry named `sstFileName id`).  `os.Remove` removes a file or an empty
  directory and fails on anything else.  Go's `range` over the two maps visits
  them in an order chosen at run time: `MapOrder` for `Tables`, `KeyOrder` for
  the id map, which is the list of its keys.

  `revertToManifest_sound` says what a run of the check guarantees, whatever
  the names and the orders.  `FID` parses with `strconv.Atoi`, so it accepts
  names `SSTableFullPath` never writes (`5.sst`, `+5.sst`, `-1.sst`): a check
  that returns nil vouches for the ids that some file name parses to, not for
  the files `SSTableFullPath` names (`revertToManifest_accepts_short_name`).
-/

namespace TinyLsm

/-- What `os.Remove` can do to an entry: a file or an empty directory goes, a directory
    with entries stays. -/
inductive EntryKind
  | file
  | emptyDir
  | dir
  deriving DecidableEq, Repr

/-- One `os.FileInfo` of a `ReadDir` listing. -/
structure DirEntry where
  name : List Char
  kind : EntryKind
  deriving DecidableEq, Repr

/-- `info.IsDir()`. -/
def DirEntry.isDir (e : DirEntry) : Bool := e.kind != .file

/-- The entries of the working directory. -/
abbrev Dir := List DirEntry

/-- The order in which a `range` over an id set visits it: any permutation of its keys. -/
structure KeyOrder where
  iter : List UInt64 → List UInt64
  perm : ∀ l, (iter l).Perm l

/-- The order of the key list itself. -/
def listOrder : KeyOrder := ⟨id, fun _ => List.Perm.refl _⟩

/-- The errors of `RevertToManifest`. -/
inductive RevertError
  /-- "table %d does not exis but recorded in manifest" -/
  | missing (id : UInt64)
  /-- "removing table %d error" -/
  | remove (id : UInt64)
  deriving DecidableEq, Repr

-- ============================================================================
-- File names
-- ============================================================================

/-- `path.Base`: the last slash-separated element, trailing slashes removed; `"."` for
    the empty path and `"/"` for a path of slashes. -/
def pathBase (p : List Char) : List Char :=
  if p = [] then ['.'] else
    let last := ((p.reverse.dropWhile (· = '/')).takeWhile (· ≠ '/')).reverse
    if last = [] then ['/'] else last

/-- The table file suffix. -/
def sstSuffix : List Char := ".sst".toList

/-- `utils.FID`: the id in a table file name, `0` when there is none.  `uint64(id)` wraps
    a negative `int`. -/
def fid (name : List Char) : UInt64 :=
  let name := pathBase name
  if sstSuffix.isSuffixOf name then
    match atoi (name.take (name.length - sstSuffix.length)) with
    | .ok id => UInt64.ofNat (id % 2 ^ 64).toNat
    | .error _ => 0
  else 0

/-- The name `utils.SSTableFullPath(dir, id)` gives the table file of `id`. -/
def sstFileName (id : UInt64) : List Char := format05d id.toNat ++ sstSuffix

/-- `utils.LoadSSTIdMap`: the ids `FID` finds in the names of the files of the listing. -/
def loadSSTIdMap (d : Dir) : List UInt64 :=
  d.foldl (fun idMap info =>
    if !info.isDir then
      if fid info.name ≠ 0 then idMap.insert (fid info.name) else idMap
    else idMap) []

-- ============================================================================
-- RevertToManifest
-- ============================================================================

/-- The first loop of `RevertToManifest`: every id of `Tables`, in map order, must be in
    `idMap`. -/
def checkTracked (idMap : List UInt64) : List UInt64 → Except RevertError Unit
  | [] => .ok ()
  | id :: ids => if id ∈ idMap then checkTracked idMap ids else .error (.missing id)

/-- `os.Remove` of the entry named `name`. -/
def osRemove (name : List Char) (d : Dir) : Option Dir :=
  match d.find? (·.name = name) with
  | some e => if e.kind = .dir then none else some (d.filter (·.name ≠ name))
  | none => none

/-- The second loop: the table file of every id of `idMap`, in map order, that `Tables`
    does not hold is removed; a failed removal ends the loop. -/
def removeUntracked (tables : TableMap) : List UInt64 → Dir → Except RevertError Unit × Dir
  | [], d => (.ok (), d)
  | id :: ids, d =>
    if id ∈ tables then removeUntracked tables ids d
    else
      match osRemove (sstFileName id) d with
      | none => (.error (.remove id), d)
      | some d' => removeUntracked tables ids d'

/-- `ManifestFile.RevertToManifest(idMap)` on the directory `d`. -/
def revertToManifest (m : Manifest) (idMap : List UInt64) (order : MapOrder)
    (keyOrder : KeyOrder) (d : Dir) : Except RevertError Unit × Dir :=
  match checkTracked idMap ((order.iter m.tables).map (·.1)) with
  | .error e => (.error e, d)
  | .ok () => removeUntracked m.tables (keyOrder.iter idMap) d

-- ============================================================================
-- Lemmas
-- ============================================================================

theorem mem_loadSSTIdMap {d : Dir} {id : UInt64} :
    id ∈ loadSSTIdMap d ↔ ∃ e ∈ d, e.kind = .file ∧ fid e.name = id ∧ id ≠ 0 := by
  have key : ∀ (acc : List UInt64) (d : Dir), id ∈ d.foldl (fun idMap info =>
      if !info.isDir then
        if fid info.name ≠ 0 then idMap.insert (fid info.name) else idMap
      else idMap) acc ↔
      id ∈ acc ∨ ∃ e ∈ d, e.kind = .file ∧ fid e.name = id ∧ id ≠ 0 := by
    intro acc d
    induction d generalizing acc with
    | nil => simp
    | cons e d ih =>
      rw [List.foldl_cons, ih]
      by_cases hk : e.kind = .file <;> by_cases hf : fid e.name = 0 <;>
        simp [DirEntry.isDir, hk, hf] <;> aesop
  rw [loadSSTIdMap, key]
  simp

theorem checkTracked_eq_ok {idMap ids : List UInt64} :
    checkTracked idMap ids = .ok () ↔ ∀ id ∈ ids, id ∈ idMap := by
  induction ids with
  | nil => simp [checkTracked]
  | cons id ids ih => by_cases h : id ∈ idMap <;> simp [checkTracked, h, ih]

/-- The first loop reports the first id it visits that `idMap` lacks. -/
theorem checkTracked_eq_missing {idMap ids : List UInt64} (h : ∃ id ∈ ids, id ∉ idMap) :
    ∃ id ∈ ids, id ∉ idMap ∧ checkTracked idMap ids = .error (.missing id) := by
  induction ids with
  | nil => simp at h
  | cons id ids ih =>
    by_cases hid : id ∈ idMap
    · obtain ⟨id', hid', hnot, heq⟩ := ih (by simpa [hid] using h)
      exact ⟨id', List.mem_cons_of_mem _ hid', hnot, by rw [checkTracked, if_pos hid, heq]⟩
    · exact ⟨id, List.mem_cons_self _ _, hid, by rw [checkTracked, if_neg hid]⟩

theorem osRemove_eq_some {name : List Char} {d d' : Dir} (h : osRemove name d = some d') :
    d' = d.filter (·.name ≠ name) := by
  unfold osRemove at h
  split at h
  · split at h
    · cases h
    · exact (Option.some.inj h).symm
  · cases h

theorem sstFileName_injective {a b : UInt64} (h : sstFileName a = sstFileName b) : a = b :=
  UInt64.toNat.inj (format05d_injective (uint64_toNat_lt a) (uint64_toNat_lt b)
    (List.append_cancel_right h))

/-- The second loop removes only table files of ids it visits that `Tables` does not hold,
    and nothing else. -/
theorem removeUntracked_removes (tables : TableMap) :
    ∀ (ids : List UInt64) (d : Dir), (removeUntracked tables ids d).2 ⊆ d ∧
      ∀ e ∈ d, e ∉ (removeUntracked tables ids d).2 →
        ∃ id ∈ ids, id ∉ tables ∧ e.name = sstFileName id
  | [], d => ⟨fun _ h => h, fun e he hne => absurd he hne⟩
  | id :: ids, d => by
    by_cases ht : id ∈ tables
    · rw [removeUntracked, if_pos ht]
      obtain ⟨hsub, hrm⟩ := removeUntracked_removes tables ids d
      exact ⟨hsub, fun e he hne => by
        obtain ⟨id', hid', h⟩ := hrm e he hne
        exact ⟨id', List.mem_cons_of_mem _ hid', h⟩⟩
    · rw [removeUntracked, if_neg ht]
      split
      · exact ⟨fun _ h => h, fun e he hne => absurd he hne⟩
      · next d' hrem =>
        obtain rfl := osRemove_eq_some hrem
        obtain ⟨hsub, hrm⟩ :=
          removeUntracked_removes tables ids (d.filter (·.name ≠ sstFileName id))
        refine ⟨fun e he => List.mem_of_mem_filter (hsub he), fun e he hne => ?_⟩
        by_cases hn : e.name = sstFileName id
        · exact ⟨id, List.mem_cons_self _ _, ht, hn⟩
        · obtain ⟨id', hid', h⟩ := hrm e (List.mem_filter.mpr ⟨he, by simpa using hn⟩) hne
          exact ⟨id', List.mem_cons_of_mem _ hid', h⟩

/-- The second loop only ever fails on a removal. -/
theorem removeUntracked_ne_missing (tables : TableMap) :
    ∀ (ids : List UInt64) (d : Dir) (id : UInt64),
      (removeUntracked tables ids d).1 ≠ .error (.missing id)
  | [], d, id => by simp [removeUntracked]
  | id' :: ids, d, id => by
    rw [removeUntracked]
    split
    · exact removeUntracked_ne_missing tables ids d id
    · split
      · simp
      · exact removeUntracked_ne_missing tables ids _ id

-- ============================================================================
-- The check
-- ============================================================================

section Check

variable (m : Manifest) (idMap : List UInt64) (order : MapOrder) (keyOrder : KeyOrder)
  (d : Dir)

/-- What `RevertToManifest` can do: stop at the first loop with the directory untouched,
    or run the second loop. -/
theorem revertToManifest_cases :
    (∃ e, checkTracked idMap ((order.iter m.tables).map (·.1)) = .error e ∧
        revertToManifest m idMap order keyOrder d = (.error e, d)) ∨
      (checkTracked idMap ((order.iter m.tables).map (·.1)) = .ok () ∧
        revertToManifest m idMap order keyOrder d =
          removeUntracked m.tables (keyOrder.iter idMap) d) := by
  unfold revertToManifest
  cases checkTracked idMap ((order.iter m.tables).map (·.1)) with
  | error e => exact .inl ⟨e, rfl, rfl⟩
  | ok u => exact .inr ⟨rfl, rfl⟩

/-- The check only removes table files of ids of `idMap` that `Tables` does not hold. -/
theorem revertToManifest_removes :
    (revertToManifest m idMap order keyOrder d).2 ⊆ d ∧
      ∀ e ∈ d, e ∉ (revertToManifest m idMap order keyOrder d).2 →
        ∃ id ∈ idMap, id ∉ m.tables ∧ e.name = sstFileName id := by
  rcases revertToManifest_cases m idMap order keyOrder d with ⟨_, -, hr⟩ | ⟨-, hr⟩ <;>
    rw [hr]
  · exact ⟨fun _ h => h, fun e he hne => absurd he hne⟩
  · obtain ⟨hsub, hrm⟩ := removeUntracked_removes m.tables (keyOrder.iter idMap) d
    refine ⟨hsub, fun e he hne => ?_⟩
    obtain ⟨id, hid, h⟩ := hrm e he hne
    exact ⟨id, (keyOrder.perm _).mem_iff.mp hid, h⟩

/-- A nil return means the first loop found every id of `Tables` in `idMap`. -/
theorem revertToManifest_ok_tracked
    (hok : (revertToManifest m idMap order keyOrder d).1 = .ok ()) :
    ∀ id ∈ m.tables, id ∈ idMap := by
  rcases revertToManifest_cases m idMap order keyOrder d with ⟨e, -, hr⟩ | ⟨hc, -⟩
  · rw [hr] at hok; cases hok
  · intro id hid
    refine checkTracked_eq_ok.mp hc id ?_
    rw [(((order.perm m.tables).map Sigma.fst).mem_iff)]
    exact hid

/-- Only the first loop reports a missing table, and it removes nothing. -/
theorem revertToManifest_missing {id : UInt64}
    (hmiss : (revertToManifest m idMap order keyOrder d).1 = .error (.missing id)) :
    (revertToManifest m idMap order keyOrder d).2 = d := by
  rcases revertToManifest_cases m idMap order keyOrder d with ⟨e, -, hr⟩ | ⟨-, hr⟩ <;>
    rw [hr] at hmiss ⊢
  exact absurd hmiss (removeUntracked_ne_missing m.tables _ d id)

end Check

/-- What `RevertToManifest(LoadSSTIdMap(d))` guarantees, whatever the listing and the map
    orders.  It only removes: each removed entry is the table file of an id of the id map
    that `Tables` does not hold, so the table file of a tracked id stays.  When it returns
    nil, every tracked id is what `FID` reads from the name of some file of the listing.
    When it reports a missing table, it has removed nothing. -/
theorem revertToManifest_sound (m : Manifest) (d : Dir) (order : MapOrder) (keyOrder : KeyOrder) :
    let r := revertToManifest m (loadSSTIdMap d) order keyOrder d
    (r.2 ⊆ d ∧
      (∀ e ∈ d, e ∉ r.2 →
        ∃ id ∈ loadSSTIdMap d, id ∉ m.tables ∧ e.name = sstFileName id) ∧
      (∀ e ∈ d, ∀ id ∈ m.tables, e.name = sstFileName id → e ∈ r.2)) ∧
    (r.1 = .ok () → ∀ id ∈ m.tables, ∃ e ∈ d, e.kind = .file ∧ fid e.name = id) ∧
    (∀ id, r.1 = .error (.missing id) → r.2 = d) := by
  obtain ⟨hsub, hrm⟩ := revertToManifest_removes m (loadSSTIdMap d) order keyOrder d
  refine ⟨⟨hsub, hrm, fun e he id hid hname => ?_⟩, fun hok id hid => ?_,
    fun _ => revertToManifest_missing m _ order keyOrder d⟩
  · by_contra hne
    obtain ⟨id', -, hid', hname'⟩ := hrm e he hne
    exact hid' (sstFileName_injective (hname'.symm.trans hname) ▸ hid)
  · obtain ⟨e, he, hk, hf, -⟩ :=
      mem_loadSSTIdMap.mp (revertToManifest_ok_tracked m _ order keyOrder d hok id hid)
    exact ⟨e, he, hk, hf⟩

/-- A listing holding only `5.sst` and a manifest tracking table 5: the check returns nil,
    though the listing has no `00005.sst`. -/
theorem revertToManifest_accepts_short_name :
    (revertToManifest (createNewManifest.createTable 5 0 [])
        (loadSSTIdMap [⟨"5.sst".toList, .file⟩]) entriesOrder listOrder
        [⟨"5.sst".toList, .file⟩]).1 = .ok () ∧
      ∀ e ∈ ([⟨"5.sst".toList, .file⟩] : Dir), e.name ≠ sstFileName 5 := by
  refine ⟨rfl, fun e he hname => ?_⟩
  have h9 : 9 ≤ (sstFileName 5).length := by
    simpa [sstFileName, sstSuffix] using length_format05d (UInt64.toNat 5)
  rw [List.mem_singleton.mp he] at hname
  rw [← hname] at h9
  simp at h9

-- ============================================================================
-- Table file names
-- ============================================================================

/-- The listing of a directory holding one regular `%05d.sst` file for each id. -/
def sstFiles (ids : List UInt64) : Dir := ids.map fun id => ⟨sstFileName id, .file⟩

theorem pathBase_sstFileName (id : UInt64) : pathBase (sstFileName id) = sstFileName id := by
  have hslash : ∀ c ∈ sstFileName id, c ≠ '/' := by
    intro c hc
    rcases List.mem_append.mp hc with hc | hc
    · exact (mem_format05d hc).1
    · simp [sstSuffix] at hc; rcases hc with rfl | rfl | rfl | rfl <;> decide
  have hdrop : (sstFileName id).reverse.dropWhile (· = '/') = (sstFileName id).reverse := by
    rw [show (sstFileName id).reverse = ['t', 's', 's', '.'] ++ (format05d id.toNat).reverse by
      simp [sstFileName, sstSuffix]]
    rfl
  have htake : (sstFileName id).reverse.takeWhile (· ≠ '/') = (sstFileName id).reverse :=
    List.takeWhile_eq_self_iff.mpr fun c hc => by simpa using hslash c (List.mem_reverse.mp hc)
  have hne : sstFileName id ≠ [] := by simp [sstFileName, sstSuffix]
  simp only [pathBase, hne, if_false, hdrop, htake, List.reverse_reverse]

/-- `FID` reads back the id of the table file of an id below `2^63`, and gives 0 for a
    larger one, whose name `Atoi` rejects as out of range. -/
theorem fid_sstFileName (id : UInt64) :
    fid (sstFileName id) = if id.toNat < 2 ^ 63 then id else 0 := by
  have hsuf : sstSuffix.isSuffixOf (sstFileName id) = true :=
    List.isSuffixOf_iff_suffix.mpr (List.suffix_append _ _)
  have htake : (sstFileName id).take ((sstFileName id).length - sstSuffix.length) =
      format05d id.toNat := by
    rw [sstFileName, List.length_append, Nat.add_sub_cancel, List.take_left]
  have hlt := uint64_toNat_lt id
  simp only [fid, pathBase_sstFileName]
  rw [if_pos hsuf, htake, atoi, parseInt_format05d hlt]
  by_cases h : id.toNat < 2 ^ 63
  · rw [if_neg (by omega), if_pos h]
    show UInt64.ofNat ((id.toNat : Int) % 2 ^ 64).toNat = id
    have : ((id.toNat : Int) % 2 ^ 64).toNat = id.toNat := by omega
    rw [this]
    exact UInt64.toNat.inj (by simpa using Nat.mod_eq_of_lt hlt)
  · rw [if_pos (by omega), if_neg h]

/-- `LoadSSTIdMap` over table files finds exactly their ids that are neither 0 nor past
    `2^63`. -/
theorem mem_loadSSTIdMap_sstFiles {ids : List UInt64} {id : UInt64} :
    id ∈ loadSSTIdMap (sstFiles ids) ↔ id ∈ ids ∧ id ≠ 0 ∧ id.toNat < 2 ^ 63 := by
  simp only [mem_loadSSTIdMap, sstFiles, List.mem_map]
  constructor
  · rintro ⟨_, ⟨i, hi, rfl⟩, -, hfid, hne⟩
    change fid (sstFileName i) = id at hfid
    rw [fid_sstFileName] at hfid
    split at hfid
    · exact ⟨hfid ▸ hi, hne, hfid ▸ ‹_›⟩
    · exact absurd hfid.symm hne
  · rintro ⟨hi, hne, hlt⟩
    exact ⟨_, ⟨id, hi, rfl⟩, rfl, (fid_sstFileName id).trans (if_pos hlt), hne⟩

/-- The second loop removes nothing when every id it visits is tracked. -/
theorem removeUntracked_of_tracked (tables : TableMap) :
    ∀ {ids : List UInt64} (d : Dir), (∀ id ∈ ids, id ∈ tables) →
      removeUntracked tables ids d = (.ok (), d)
  | [], _, _ => rfl
  | id :: ids, d, h => by
    rw [removeUntracked, if_pos (h id (List.mem_cons_self _ _))]
    exact removeUntracked_of_tracked tables d fun i hi => h i (List.mem_cons_of_mem _ hi)

/-- **The startup check on the table files of the manifest.**  On a directory holding
    exactly one regular `%05d.sst` file for each table the manifest tracks,
    `RevertToManifest(LoadSSTIdMap(dir))` returns nil, having removed nothing, exactly
    when every tracked id is neither 0 nor past `2^63`; otherwise it returns the
    missing-table error of a tracked id that is 0 or past `2^63`, having removed nothing. -/
theorem revertToManifest_sstFiles (m : Manifest) (order : MapOrder) (keyOrder : KeyOrder) :
    let d := sstFiles m.tables.keys
    ((revertToManifest m (loadSSTIdMap d) order keyOrder d).1 = .ok () ↔
      ∀ id ∈ m.tables, id ≠ 0 ∧ id.toNat < 2 ^ 63) ∧
    ((∀ id ∈ m.tables, id ≠ 0 ∧ id.toNat < 2 ^ 63) →
      (revertToManifest m (loadSSTIdMap d) order keyOrder d).2 = d) ∧
    ((¬ ∀ id ∈ m.tables, id ≠ 0 ∧ id.toNat < 2 ^ 63) →
      ∃ id ∈ m.tables, (id = 0 ∨ 2 ^ 63 ≤ id.toNat) ∧
        revertToManifest m (loadSSTIdMap d) order keyOrder d = (.error (.missing id), d)) := by
  intro d
  have hloaded : ∀ id, id ∈ loadSSTIdMap d ↔ id ∈ m.tables ∧ id ≠ 0 ∧ id.toNat < 2 ^ 63 :=
    fun id => mem_loadSSTIdMap_sstFiles.trans (by rw [AList.mem_keys])
  have hvisit : ∀ {id}, id ∈ (order.iter m.tables).map (·.1) ↔ id ∈ m.tables :=
    ((order.perm m.tables).map Sigma.fst).mem_iff
  have hrun : (∀ id ∈ m.tables, id ≠ 0 ∧ id.toNat < 2 ^ 63) →
      revertToManifest m (loadSSTIdMap d) order keyOrder d = (.ok (), d) := by
    intro hall
    have hc : checkTracked (loadSSTIdMap d) ((order.iter m.tables).map (·.1)) = .ok () :=
      checkTracked_eq_ok.mpr fun id hid => (hloaded id).mpr ⟨hvisit.mp hid, hall id (hvisit.mp hid)⟩
    rw [revertToManifest, hc]
    exact removeUntracked_of_tracked m.tables d fun id hid =>
      ((hloaded id).mp ((keyOrder.perm _).mem_iff.mp hid)).1
  refine ⟨⟨fun hok id hid => ?_, fun hall => by rw [hrun hall]⟩, fun hall => by rw [hrun hall],
    fun hnot => ?_⟩
  · exact ((hloaded id).mp (revertToManifest_ok_tracked m _ order keyOrder d hok id hid)).2
  · -- the first loop stops at a tracked id that `LoadSSTIdMap` dropped
    push_neg at hnot
    obtain ⟨id₀, hid₀, hout⟩ := hnot
    obtain ⟨id, hid, hnot, hc⟩ := checkTracked_eq_missing ⟨id₀, hvisit.mpr hid₀,
      fun h => have h' := ((hloaded id₀).mp h).2; Nat.not_le.mpr h'.2 (hout h'.1)⟩
    refine ⟨id, hvisit.mp hid, ?_, by rw [revertToManifest, hc]⟩
    by_contra hin
    push_neg at hin
    exact hnot ((hloaded id).mpr ⟨hvisit.mp hid, hin⟩)

/-- A manifest tracking table 1 and the largest id: only the first is found. -/
example :
    let m := (createNewManifest.createTable 1 0 []).createTable 18446744073709551615 0 []
    (1 : UInt64) ∈ loadSSTIdMap (sstFiles m.tables.keys) ∧
      (18446744073709551615 : UInt64) ∉ loadSSTIdMap (sstFiles m.tables.keys) := by
  decide

end TinyLsm

import Mathlib.Data.Nat.Digits
/-
  TinyLsm.Decimal

  The decimal text of file ids.  The code writes them with
  `fmt.Sprintf("%05d", id)` (WAL and table file names) and reads them back with
  `strconv.ParseUint(s, 10, 64)` (WAL recovery) and `strconv.Atoi` (`utils.FID`).
  These are Go library functions, not part of the repository; they are modelled
  from their documented behaviour.  Names are character lists: the functions
  only look at ASCII bytes, on which Go's byte-wise view and the character view
  agree.

  The main lemma is `parseUint_format05d`: every `uint64` written with `%05d`
  parses back to itself, so `%05d` names are distinct for distinct ids.
-/

namespace TinyLsm

/-- The two `strconv` errors: `ErrSyntax` and `ErrRange`. -/
inductive NumError
  | badDigits
  | outOfRange
  deriving DecidableEq, Repr

/-- The value of a decimal digit character. -/
def digitValue (c : Char) : Nat := c.toNat - '0'.toNat

/-- The digit loop of `strconv.ParseUint(s, 10, 64)`: every byte must be a decimal digit,
    and the value is checked against `maxUint64` after each one. -/
def parseUintLoop : Nat → List Char → Except NumError Nat
  | n, [] => .ok n
  | n, c :: cs =>
    if c.isDigit then
      if n * 10 + digitValue c < 2 ^ 64 then parseUintLoop (n * 10 + digitValue c) cs
      else .error .outOfRange
    else .error .badDigits

/-- `strconv.ParseUint(s, 10, 64)`. -/
def parseUint (s : List Char) : Except NumError Nat :=
  if s = [] then .error .badDigits else parseUintLoop 0 s

/-- `strconv.ParseInt(s, 10, 64)`: an optional sign, then `ParseUint` of the rest, then
    the `int64` range. -/
def parseInt (s : List Char) : Except NumError Int :=
  let (neg, digits) : Bool × List Char := match s with
    | '+' :: rest => (false, rest)
    | '-' :: rest => (true, rest)
    | _ => (false, s)
  match parseUint digits with
  | .error e => .error e
  | .ok un =>
    if !neg && 2 ^ 63 ≤ un then .error .outOfRange
    else if neg && 2 ^ 63 < un then .error .outOfRange
    else .ok (if neg then -(un : Int) else un)

/-- `strconv.Atoi` on a 64-bit platform.  Its fast path for strings of fewer than 19 bytes
    accepts and computes exactly what its slow path `ParseInt(s, 10, 0)` does. -/
def atoi (s : List Char) : Except NumError Int := parseInt s

/-- `strconv.FormatUint(n, 10)`: the decimal digits of `n`, most significant first. -/
def formatUint (n : Nat) : List Char := Nat.toDigits 10 n

/-- `fmt.Sprintf("%05d", n)`: the decimal digits, left-padded with `0` to five. -/
def format05d (n : Nat) : List Char :=
  List.replicate (5 - (formatUint n).length) '0' ++ formatUint n

-- ============================================================================
-- Digits
-- ============================================================================

theorem digitChar_isDigit {d : Nat} (h : d < 10) :
    (Nat.digitChar d).isDigit ∧ digitValue (Nat.digitChar d) = d := by
  interval_cases d <;> decide

/-- The value the digit loop accumulates, from `a`. -/
def decimalValue (a : Nat) (cs : List Char) : Nat := cs.foldl (fun n c => n * 10 + digitValue c) a

theorem le_decimalValue (a : Nat) (cs : List Char) : a ≤ decimalValue a cs := by
  induction cs generalizing a with
  | nil => exact le_refl a
  | cons c cs ih => exact (by omega : a ≤ a * 10 + digitValue c).trans (ih _)

/-- On digits the loop computes `decimalValue`, or fails once it passes `maxUint64`. -/
theorem parseUintLoop_digits {cs : List Char} (hcs : ∀ c ∈ cs, c.isDigit) {a : Nat}
    (ha : a < 2 ^ 64) :
    parseUintLoop a cs =
      if decimalValue a cs < 2 ^ 64 then .ok (decimalValue a cs) else .error .outOfRange := by
  induction cs generalizing a with
  | nil => rw [parseUintLoop, decimalValue, List.foldl_nil, if_pos ha]
  | cons c cs ih =>
    have hc : c.isDigit := hcs c (List.mem_cons_self _ _)
    have ih' := @ih (fun c' h => hcs c' (List.mem_cons_of_mem _ h))
    have hv : decimalValue a (c :: cs) = decimalValue (a * 10 + digitValue c) cs := rfl
    rw [parseUintLoop, if_pos hc, hv]
    split
    · exact ih' ‹_›
    · have := le_decimalValue (a * 10 + digitValue c) cs
      rw [if_neg (by omega)]

theorem decimalValue_map_digitChar (a : Nat) {ds : List Nat} (hds : ∀ d ∈ ds, d < 10) :
    decimalValue a (ds.map Nat.digitChar) = a * 10 ^ ds.length + Nat.ofDigits 10 ds.reverse := by
  induction ds generalizing a with
  | nil => simp [decimalValue]
  | cons d ds ih =>
    have hd := (digitChar_isDigit (hds d (List.mem_cons_self _ _))).2
    have ih' := ih (a * 10 + d) fun d' h => hds d' (List.mem_cons_of_mem _ h)
    simp only [decimalValue, List.map_cons, List.foldl_cons, hd] at ih' ⊢
    rw [ih', List.reverse_cons, Nat.ofDigits_append, List.length_cons, pow_succ]
    simp [Nat.ofDigits, List.length_reverse]
    ring

/-- The digit loop of `Nat.toDigits` puts the digits of `n` in front of `ds`, given enough
    fuel. -/
theorem toDigitsCore_eq : ∀ (fuel n : Nat) (ds : List Char), n + 1 ≤ fuel →
    ∃ L : List Nat, Nat.toDigitsCore 10 fuel n ds = L.map Nat.digitChar ++ ds ∧ L ≠ [] ∧
      (∀ d ∈ L, d < 10) ∧ Nat.ofDigits 10 L.reverse = n
  | 0, n, _, h => absurd h (by omega)
  | fuel + 1, n, ds, h => by
    have hd : n % 10 < 10 := Nat.mod_lt _ (by norm_num)
    by_cases hn : n / 10 = 0
    · refine ⟨[n % 10], by simp [Nat.toDigitsCore, hn], by simp, by simpa using hd, ?_⟩
      simp [Nat.ofDigits]
      omega
    · obtain ⟨L, hL, hne, hlt, hv⟩ :=
        toDigitsCore_eq fuel (n / 10) (Nat.digitChar (n % 10) :: ds) (by omega)
      refine ⟨L ++ [n % 10], by simp [Nat.toDigitsCore, hn, hL], by simp, ?_, ?_⟩
      · intro d hd'
        rcases List.mem_append.mp hd' with h' | h'
        · exact hlt d h'
        · rw [List.mem_singleton.mp h']; exact hd
      · rw [List.reverse_append, List.reverse_singleton, List.singleton_append, Nat.ofDigits_cons,
          hv]
        omega

/-- `formatUint n` is the digit characters of a nonempty digit list whose value is `n`. -/
theorem formatUint_eq (n : Nat) : ∃ ds : List Nat, formatUint n = ds.map Nat.digitChar ∧
    ds ≠ [] ∧ (∀ d ∈ ds, d < 10) ∧ Nat.ofDigits 10 ds.reverse = n := by
  obtain ⟨L, hL, h⟩ := toDigitsCore_eq (n + 1) n [] le_rfl
  exact ⟨L, by rw [formatUint, Nat.toDigits, hL, List.append_nil], h⟩

theorem ofDigits_replicate_zero (k : Nat) : Nat.ofDigits 10 (List.replicate k 0) = 0 := by
  induction k with
  | zero => rfl
  | succ k ih => simp [List.replicate_succ, Nat.ofDigits, ih]

theorem format05d_eq (n : Nat) : ∃ ds : List Nat, format05d n = ds.map Nat.digitChar ∧
    ds ≠ [] ∧ (∀ d ∈ ds, d < 10) ∧ Nat.ofDigits 10 ds.reverse = n := by
  obtain ⟨ds, hf, hne, hds, hv⟩ := formatUint_eq n
  refine ⟨List.replicate (5 - (formatUint n).length) 0 ++ ds, ?_, by simp [hne], ?_, ?_⟩
  · simp [format05d, hf, List.map_replicate, Nat.digitChar]
  · intro d hd
    rcases List.mem_append.mp hd with hd | hd
    · rw [(List.mem_replicate.mp hd).2]; norm_num
    · exact hds d hd
  · rw [List.reverse_append, Nat.ofDigits_append, hv, List.reverse_replicate]
    simp [ofDigits_replicate_zero]

/-- A `%05d` id parses back to itself. -/
theorem parseUint_format05d {n : Nat} (h : n < 2 ^ 64) : parseUint (format05d n) = .ok n := by
  obtain ⟨ds, hf, hne, hds, hv⟩ := format05d_eq n
  have hdig : ∀ c ∈ ds.map Nat.digitChar, c.isDigit := by
    simp only [List.mem_map]
    rintro c ⟨d, hd, rfl⟩
    exact (digitChar_isDigit (hds d hd)).1
  have hval : decimalValue 0 (ds.map Nat.digitChar) = n := by
    rw [decimalValue_map_digitChar 0 hds, hv]; simp
  rw [parseUint, if_neg (by simpa [hf] using hne), hf,
    parseUintLoop_digits hdig (by norm_num), hval, if_pos h]

theorem format05d_injective {a b : Nat} (ha : a < 2 ^ 64) (hb : b < 2 ^ 64)
    (h : format05d a = format05d b) : a = b := by
  have := parseUint_format05d ha
  rw [h, parseUint_format05d hb] at this
  exact (Except.ok.inj this).symm

theorem length_format05d (n : Nat) : 5 ≤ (format05d n).length := by
  simp [format05d]
  omega

/-- `ParseInt` of a string that opens with no sign is `ParseUint` then the `int64` range. -/
theorem parseInt_cons {c : Char} {cs : List Char} (h1 : c ≠ '+') (h2 : c ≠ '-') :
    parseInt (c :: cs) = match parseUint (c :: cs) with
      | .error e => .error e
      | .ok un => if 2 ^ 63 ≤ un then .error .outOfRange else .ok un := by
  unfold parseInt
  split
  rename_i neg digits heq
  split at heq
  · simp_all
  · simp_all
  · obtain ⟨rfl, rfl⟩ := Prod.mk.inj heq
    split <;> simp_all

theorem digitChar_ne {d : Nat} (h : d < 10) :
    Nat.digitChar d ≠ '/' ∧ Nat.digitChar d ≠ '+' ∧ Nat.digitChar d ≠ '-' := by
  interval_cases d <;> decide

/-- The characters of a `%05d` id are digits: no slash, no sign. -/
theorem mem_format05d {n : Nat} {c : Char} (hc : c ∈ format05d n) :
    c ≠ '/' ∧ c ≠ '+' ∧ c ≠ '-' := by
  obtain ⟨ds, hf, -, hds, -⟩ := format05d_eq n
  rw [hf] at hc
  obtain ⟨d, hd, rfl⟩ := List.mem_map.mp hc
  exact digitChar_ne (hds d hd)

/-- `strconv.Atoi` of a `%05d` id: the id, unless it is past the `int64` range. -/
theorem parseInt_format05d {n : Nat} (h : n < 2 ^ 64) :
    parseInt (format05d n) = if 2 ^ 63 ≤ n then .error .outOfRange else .ok n := by
  obtain ⟨c, cs, hcs⟩ : ∃ c cs, format05d n = c :: cs := List.exists_cons_of_ne_nil
    (List.ne_nil_of_length_pos (by have := length_format05d n; omega))
  have hc := mem_format05d (hcs ▸ List.mem_cons_self c cs)
  rw [hcs, parseInt_cons hc.2.1 hc.2.2, ← hcs, parseUint_format05d h]

end TinyLsm

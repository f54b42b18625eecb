import TinyLsm.Bytes
import Mathlib.Data.List.Lex
import Mathlib.Data.Prod.Lex
/-
  TinyLsm.Keys

  `utils.CompareKeys`, the order of internal keys: a user key followed by an
  8-byte version.  It compares the user keys with `bytes.Compare` and, when they
  are equal, the versions.  `bytes.Compare` is Go's standard library; it is
  modelled from its documentation as the byte-wise lexicographic order with a
  proper prefix first.

  The main results:

    * `bytesCompare_eq_goSign` — `bytes.Compare` is Mathlib's lexicographic order
      on the byte values;
    * `compareKeys_eq_goSign` — on keys longer than 8 bytes, `CompareKeys` is the
      lexicographic order on the pair (user key, version);
    * `compareKeys_total_order` — so it is a total order in which the versions of
      a user key are contiguous and ordered by version.
-/

namespace TinyLsm

/-- `bytes.Compare(a, b)`: `-1`, `0` or `+1` by the first byte where `a` and `b` differ,
    a proper prefix first. -/
def bytesCompare : Bytes → Bytes → Int
  | [], [] => 0
  | [], _ :: _ => -1
  | _ :: _, [] => 1
  | a :: as, b :: bs => if a < b then -1 else if b < a then 1 else bytesCompare as bs

/-- `utils.CompareKeys(key1, key2)`; `none` is the panic of `CondPanic` when a key has at
    most 8 bytes. -/
def compareKeys (key1 key2 : Bytes) : Option Int :=
  if key1.length ≤ 8 ∨ key2.length ≤ 8 then none
  else
    let cmp := bytesCompare (key1.take (key1.length - 8)) (key2.take (key2.length - 8))
    if cmp ≠ 0 then some cmp
    else some (bytesCompare (key1.drop (key1.length - 8)) (key2.drop (key2.length - 8)))

-- ============================================================================
-- Go's comparison results in a linear order
-- ============================================================================

/-- The `-1`, `0` or `+1` a Go comparison returns for `x` against `y` in a linear order. -/
def goSign {α : Type} [LinearOrder α] (x y : α) : Int :=
  if x < y then -1 else if x = y then 0 else 1

section GoSign

variable {α : Type} [LinearOrder α]

theorem goSign_swap (x y : α) : goSign y x = -goSign x y := by
  unfold goSign
  rcases lt_trichotomy x y with h | rfl | h
  · simp [h, not_lt_of_gt h, h.ne']
  · simp
  · simp [h, not_lt_of_gt h, h.ne, h.ne']

theorem goSign_eq_zero {x y : α} : goSign x y = 0 ↔ x = y := by
  unfold goSign
  rcases lt_trichotomy x y with h | rfl | h
  · simp [h, h.ne]
  · simp
  · simp [not_lt_of_gt h, h.ne']

theorem goSign_nonpos {x y : α} : goSign x y ≤ 0 ↔ x ≤ y := by
  unfold goSign
  split_ifs with h h'
  · simp [h.le]
  · simp [h']
  · simp only [Int.reduceLE, false_iff, not_le]
    exact lt_of_le_of_ne (not_lt.1 h) (Ne.symm h')

end GoSign

theorem cons_lt_cons_self {a : Nat} {l l' : List Nat} : a :: l < a :: l' ↔ l < l' :=
  List.Lex.cons_iff

theorem goSign_cons (a b : Nat) (l l' : List Nat) :
    goSign (a :: l) (b :: l') = if a < b then -1 else if b < a then 1 else goSign l l' := by
  rcases lt_trichotomy a b with h | rfl | h
  · have hl : a :: l < b :: l' := List.Lex.rel h
    simp [goSign, hl, h]
  · simp only [goSign, cons_lt_cons_self, List.cons.injEq, true_and, lt_irrefl, if_false]
    congr
  · have hl : b :: l' < a :: l := List.Lex.rel h
    simp [goSign, not_lt_of_gt hl, h, not_lt_of_gt h, h.ne']

/-- On pairs in lexicographic order, the first components decide unless they are equal. -/
theorem goSign_toLex {α β : Type} [LinearOrder α] [LinearOrder β] (a a' : α) (b b' : β) :
    goSign (toLex (a, b)) (toLex (a', b')) =
      if goSign a a' ≠ 0 then goSign a a' else goSign b b' := by
  rcases lt_trichotomy a a' with h | rfl | h
  · have hl : toLex (a, b) < toLex (a', b') := (Prod.Lex.lt_iff _ _).2 (.inl h)
    simp [goSign, hl, h]
  · simp only [goSign, Prod.Lex.lt_iff, lt_irrefl, false_or, true_and, toLex_inj, Prod.mk.injEq,
      if_false, ne_eq, not_true_eq_false, if_true]
  · have hl : toLex (a', b') < toLex (a, b) := (Prod.Lex.lt_iff _ _).2 (.inl h)
    simp [goSign, not_lt_of_gt hl, h, not_lt_of_gt h, h.ne', toLex_inj]

-- ============================================================================
-- bytes.Compare
-- ============================================================================

/-- `bytes.Compare` is the lexicographic order on byte values. -/
theorem bytesCompare_eq_goSign : ∀ a b : Bytes,
    bytesCompare a b = goSign (a.map UInt8.toNat) (b.map UInt8.toNat)
  | [], [] => by simp [bytesCompare, goSign]
  | [], _ :: _ => by simp [bytesCompare, goSign, List.nil_lt_cons]
  | x :: xs, [] => by
    have h : ([] : List Nat) < (x.toNat :: xs.map UInt8.toNat) := List.nil_lt_cons _ _
    simp [bytesCompare, goSign, not_lt_of_gt h]
  | x :: xs, y :: ys => by
    rw [List.map_cons, List.map_cons, goSign_cons, bytesCompare, bytesCompare_eq_goSign xs ys]
    rfl

theorem bytesCompare_self (a : Bytes) : bytesCompare a a = 0 := by
  rw [bytesCompare_eq_goSign, goSign_eq_zero]

theorem map_toNat_injective : Function.Injective (List.map UInt8.toNat) :=
  List.map_injective_iff.2 fun _ _ h => UInt8.toNat.inj h

-- ============================================================================
-- CompareKeys
-- ============================================================================

/-- `key[:len(key)-8]`, the user key. -/
def userKey (key : Bytes) : Bytes := key.take (key.length - 8)

/-- `key[len(key)-8:]`, the version. -/
def keyVersion (key : Bytes) : Bytes := key.drop (key.length - 8)

/-- A key as the pair (user key, version) of byte values, ordered lexicographically. -/
def keyParts (key : Bytes) : List Nat ×ₗ List Nat :=
  toLex ((userKey key).map UInt8.toNat, (keyVersion key).map UInt8.toNat)

/-- `CompareKeys(a, b) <= 0`; a panic is neither. -/
def KeyLe (a b : Bytes) : Prop := ∃ r, compareKeys a b = some r ∧ r ≤ 0

instance (a b : Bytes) : Decidable (KeyLe a b) :=
  decidable_of_iff ((compareKeys a b).any fun r => decide (r ≤ 0)) (by
    unfold KeyLe
    cases compareKeys a b <;> simp)

/-- On keys longer than 8 bytes, `CompareKeys` is the lexicographic order on
    (user key, version). -/
theorem compareKeys_eq_goSign {a b : Bytes} (ha : 8 < a.length) (hb : 8 < b.length) :
    compareKeys a b = some (goSign (keyParts a) (keyParts b)) := by
  rw [compareKeys, if_neg (by omega), keyParts, keyParts, goSign_toLex, bytesCompare_eq_goSign,
    bytesCompare_eq_goSign]
  dsimp only [userKey, keyVersion]
  split_ifs <;> rfl

/-- The panic condition is symmetric, and the answers are opposite. -/
theorem compareKeys_swap (a b : Bytes) : compareKeys a b = (compareKeys b a).map Neg.neg := by
  by_cases h : a.length ≤ 8 ∨ b.length ≤ 8
  · have h' : b.length ≤ 8 ∨ a.length ≤ 8 := h.symm
    simp [compareKeys, h, h']
  · rw [not_or, Nat.not_le, Nat.not_le] at h
    rw [compareKeys_eq_goSign h.1 h.2, compareKeys_eq_goSign h.2 h.1, Option.map_some',
      goSign_swap]

theorem keyParts_inj {a b : Bytes} (h : keyParts a = keyParts b) : a = b := by
  obtain ⟨hu, hv⟩ := Prod.mk.inj (toLex_inj.1 h)
  rw [← List.take_append_drop (a.length - 8) a, ← List.take_append_drop (b.length - 8) b]
  exact congrArg₂ (· ++ ·) (map_toNat_injective hu) (map_toNat_injective hv)

theorem KeyLe.long {a b : Bytes} (h : KeyLe a b) : 8 < a.length ∧ 8 < b.length := by
  obtain ⟨r, hr, -⟩ := h
  unfold compareKeys at hr
  split_ifs at hr
  all_goals omega

theorem keyLe_iff {a b : Bytes} (ha : 8 < a.length) (hb : 8 < b.length) :
    KeyLe a b ↔ keyParts a ≤ keyParts b := by
  simp [KeyLe, compareKeys_eq_goSign ha hb, goSign_nonpos]

theorem userKey_le_of_keyLe {a b : Bytes} (h : KeyLe a b) :
    (userKey a).map UInt8.toNat ≤ (userKey b).map UInt8.toNat := by
  obtain ⟨ha, hb⟩ := h.long
  rcases (Prod.Lex.le_iff _ _).1 ((keyLe_iff ha hb).1 h) with h | ⟨h, -⟩
  · exact le_of_lt h
  · exact le_of_eq h

/-- On keys longer than 8 bytes `CompareKeys` is a total order: it is the lexicographic
    order on (user key, version), its answers for `a, b` and `b, a` are opposite, it is zero
    exactly on equal keys, any two keys compare, `<= 0` is transitive, a key between two
    versions of one user key has that user key, and the versions of a user key are ordered
    by `bytes.Compare` of the versions. -/
theorem compareKeys_total_order {a b c : Bytes} (ha : 8 < a.length) (hb : 8 < b.length) :
    compareKeys a b = some (goSign (keyParts a) (keyParts b)) ∧
    compareKeys a b = (compareKeys b a).map Neg.neg ∧
    (compareKeys a b = some 0 ↔ a = b) ∧
    (KeyLe a b ∨ KeyLe b a) ∧
    (KeyLe a b → KeyLe b c → KeyLe a c) ∧
    (KeyLe a b → KeyLe b c → userKey a = userKey c → userKey b = userKey a) ∧
    (userKey a = userKey b →
      compareKeys a b = some (bytesCompare (keyVersion a) (keyVersion b))) := by
  refine ⟨compareKeys_eq_goSign ha hb, compareKeys_swap a b, ?_, ?_, ?_, ?_, ?_⟩
  · rw [compareKeys_eq_goSign ha hb, Option.some_inj, goSign_eq_zero]
    exact ⟨keyParts_inj, congrArg keyParts⟩
  · rw [keyLe_iff ha hb, keyLe_iff hb ha]
    exact le_total _ _
  · intro hab hbc
    have hc := hbc.long.2
    rw [keyLe_iff ha hb] at hab
    rw [keyLe_iff hb hc] at hbc
    exact (keyLe_iff ha hc).2 (le_trans hab hbc)
  · intro hab hbc hac
    have h₁ := userKey_le_of_keyLe hab
    have h₂ := userKey_le_of_keyLe hbc
    rw [← hac] at h₂
    exact map_toNat_injective (le_antisymm h₂ h₁)
  · intro hu
    rw [compareKeys, if_neg (by omega)]
    dsimp only
    rw [show a.take (a.length - 8) = b.take (b.length - 8) from hu, bytesCompare_self]
    rfl

/-- Two versions of user key `a`: they compare, and not as equal. -/
theorem compareKeys_total_order_versions :
    (compareKeys [0x61, 0, 0, 0, 0, 0, 0, 0, 1] [0x61, 0, 0, 0, 0, 0, 0, 0, 2] = some 0 ↔
        ([0x61, 0, 0, 0, 0, 0, 0, 0, 1] : Bytes) = [0x61, 0, 0, 0, 0, 0, 0, 0, 2]) ∧
      (KeyLe [0x61, 0, 0, 0, 0, 0, 0, 0, 1] [0x61, 0, 0, 0, 0, 0, 0, 0, 2] ∨
        KeyLe [0x61, 0, 0, 0, 0, 0, 0, 0, 2] [0x61, 0, 0, 0, 0, 0, 0, 0, 1]) :=
  have h := @compareKeys_total_order [0x61, 0, 0, 0, 0, 0, 0, 0, 1] [0x61, 0, 0, 0, 0, 0, 0, 0, 2]
    [0x61, 0, 0, 0, 0, 0, 0, 0, 1] (by decide) (by decide)
  ⟨h.2.2.1, h.2.2.2.1⟩

/-- The source's comment: on whole keys, `bytes.Compare` puts `aa` with version 0 between
    `a` with versions 0 and `0xff…`, so the versions of `a` are not contiguous;
    `CompareKeys` sorts `aa` after both. -/
example :
    bytesCompare [0x61, 0, 0, 0, 0, 0, 0, 0, 0] [0x61, 0x61, 0, 0, 0, 0, 0, 0, 0, 0] = -1 ∧
      bytesCompare [0x61, 0x61, 0, 0, 0, 0, 0, 0, 0, 0]
        [0x61, 0xff, 0xff, 0xff, 0xff, 0xff, 0xff, 0xff, 0xff] = -1 ∧
      compareKeys [0x61, 0xff, 0xff, 0xff, 0xff, 0xff, 0xff, 0xff, 0xff]
        [0x61, 0x61, 0, 0, 0, 0, 0, 0, 0, 0] = some (-1) := by
  decide

end TinyLsm

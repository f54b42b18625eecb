import Mathlib.Data.List.Basic
import Mathlib.Algebra.Group.Int
/-
  TinyLsm.Bytes

  Byte strings and the two pieces of `encoding/binary` and `io` the manifest
  codec uses: big-endian `uint32` fields and `io.ReadFull` over the bytes left
  in a stream.  Fixed-width Go integers are `UIntN`; the `toNat` of each
  conversion is stated once here and used by name afterwards.
-/

namespace TinyLsm

/-- A Go `[]byte`. -/
abbrev Bytes := List UInt8

-- ============================================================================
-- Fixed-width conversions
-- ============================================================================

@[simp] theorem uint8_toNat_ofNat (n : Nat) : (UInt8.ofNat n).toNat = n % 256 := by
  simp [UInt8.toNat, UInt8.ofNat]

@[simp] theorem uint32_toNat_ofNat (n : Nat) : (UInt32.ofNat n).toNat = n % 2 ^ 32 := by
  simp [UInt32.toNat, UInt32.ofNat]

@[simp] theorem uint64_toNat_ofNat (n : Nat) : (UInt64.ofNat n).toNat = n % 2 ^ 64 := by
  simp [UInt64.toNat, UInt64.ofNat]

theorem uint8_toNat_lt (b : UInt8) : b.toNat < 256 := b.toBitVec.isLt

theorem uint32_toNat_lt (v : UInt32) : v.toNat < 2 ^ 32 := v.toBitVec.isLt

theorem uint64_toNat_lt (v : UInt64) : v.toNat < 2 ^ 64 := v.toBitVec.isLt

/-- `uint8(level)` keeps the low byte of a `uint32`. -/
@[simp] theorem uint32_toUInt8_toNat (v : UInt32) : v.toUInt8.toNat = v.toNat % 256 :=
  uint8_toNat_ofNat _

@[simp] theorem uint8_toUInt32_toNat (b : UInt8) : b.toUInt32.toNat = b.toNat := rfl

theorem uint32_ofNat_toNat (v : UInt32) : UInt32.ofNat v.toNat = v :=
  UInt32.toNat.inj (by simpa using Nat.mod_eq_of_lt (uint32_toNat_lt v))

-- ============================================================================
-- binary.BigEndian
-- ============================================================================

/-- `binary.BigEndian.PutUint32`: `byte(v >> 24), byte(v >> 16), byte(v >> 8), byte(v)`. -/
def putUint32 (v : UInt32) : Bytes :=
  [UInt8.ofNat (v.toNat / 2 ^ 24), UInt8.ofNat (v.toNat / 2 ^ 16),
   UInt8.ofNat (v.toNat / 2 ^ 8), UInt8.ofNat v.toNat]

/-- `binary.BigEndian.Uint32` of the first four bytes of `b`. -/
def uint32 (b : Bytes) : UInt32 :=
  UInt32.ofNat ((b.getD 0 0).toNat * 2 ^ 24 + (b.getD 1 0).toNat * 2 ^ 16 +
    (b.getD 2 0).toNat * 2 ^ 8 + (b.getD 3 0).toNat)

@[simp] theorem putUint32_length (v : UInt32) : (putUint32 v).length = 4 := rfl

/-- Reading back a big-endian field gives the value written, whatever follows it. -/
@[simp] theorem uint32_putUint32_append (v : UInt32) (rest : Bytes) :
    uint32 (putUint32 v ++ rest) = v := by
  apply UInt32.toNat.inj
  have hv := uint32_toNat_lt v
  simp only [uint32, putUint32, List.cons_append, List.getD_eq_getElem?_getD,
    List.getElem?_cons_zero, List.getElem?_cons_succ, Option.getD_some, uint8_toNat_ofNat,
    uint32_toNat_ofNat]
  omega

@[simp] theorem uint32_putUint32 (v : UInt32) : uint32 (putUint32 v) = v := by
  simpa using uint32_putUint32_append v []

/-- Four bytes are the big-endian word they hold. -/
theorem putUint32_uint32 {b : Bytes} (h : b.length = 4) : putUint32 (uint32 b) = b := by
  match b, h with
  | [b0, b1, b2, b3], _ =>
    have h0 := uint8_toNat_lt b0
    have h1 := uint8_toNat_lt b1
    have h2 := uint8_toNat_lt b2
    have h3 := uint8_toNat_lt b3
    simp only [putUint32, uint32, List.getD_cons_zero, List.getD_cons_succ, List.cons.injEq,
      and_true]
    refine ⟨?_, ?_, ?_, ?_⟩ <;> apply UInt8.toNat.inj <;>
      simp only [uint8_toNat_ofNat, uint32_toNat_ofNat] <;> omega

theorem uint32_append_of_length {a : Bytes} (h : a.length = 4) (b : Bytes) :
    uint32 (a ++ b) = uint32 a := by
  match a, h with
  | [_, _, _, _], _ => rfl

/-- Eight bytes are the two big-endian words they hold. -/
theorem eq_putUint32_append {pre : Bytes} (h : pre.length = 8) :
    pre = putUint32 (uint32 pre) ++ putUint32 (uint32 (pre.drop 4)) := by
  have hpre := (List.take_append_drop 4 pre).symm
  have h4 : (pre.take 4).length = 4 := by simp [h]
  have h4' : (pre.drop 4).length = 4 := by simp [h]
  rw [hpre, uint32_append_of_length h4, List.drop_left' h4, putUint32_uint32 h4,
    putUint32_uint32 h4']

-- ============================================================================
-- io.ReadFull
-- ============================================================================

/-- The two errors `io.ReadFull` reports at the end of a stream. -/
inductive ReadError
  | eof
  | unexpectedEOF
  deriving DecidableEq, Repr

/-- `io.ReadFull(r, buf[:n])` on a stream holding `s`: the first `n` bytes and the rest;
    `io.EOF` when nothing is left, `io.ErrUnexpectedEOF` when fewer than `n` bytes are. -/
def readFull (n : Nat) (s : Bytes) : Except ReadError (Bytes × Bytes) :=
  if n ≤ s.length then .ok (s.take n, s.drop n)
  else if s = [] then .error .eof else .error .unexpectedEOF

/-- A full read of a stream that starts with `n` known bytes returns them. -/
theorem readFull_append {n : Nat} {a : Bytes} (b : Bytes) (h : a.length = n) :
    readFull n (a ++ b) = .ok (a, b) := by
  subst h
  simp [readFull]

/-- A read of `n` bytes from a stream holding fewer fails, with one of the two end errors. -/
theorem readFull_short {n : Nat} {s : Bytes} (h : s.length < n) :
    ∃ e, readFull n s = .error e := by
  unfold readFull
  rw [if_neg (by omega)]
  split <;> exact ⟨_, rfl⟩

/-- A read that fails had fewer bytes than it asked for. -/
theorem readFull_eq_error {n : Nat} {s : Bytes} {e : ReadError} (h : readFull n s = .error e) :
    s.length < n := by
  unfold readFull at h
  split at h
  · cases h
  · omega

end TinyLsm

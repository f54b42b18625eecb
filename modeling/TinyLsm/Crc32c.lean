import TinyLsm.Bytes
import Mathlib.Algebra.Order.Ring.Nat
/-
  TinyLsm.Crc32c

  `crc32.Checksum(data, utils.CastagnoliCrcTable)`: CRC-32C, the reflected CRC
  with polynomial 0x82F63B78, initial register 0xFFFFFFFF and final complement.
  Go computes it from a lookup table (`crc32.MakeTable(crc32.Castagnoli)`);
  the table is this bitwise update precomputed for each byte value.

  The main results:

    * `crc32cUpdate_table` — the bitwise update is Go's table step
      `crc = tab[byte(crc)^v] ^ (crc >> 8)`;
    * `crc32cUpdate_of_lt` — the top byte of a table entry names the entry, so a
      register can be run backwards one byte at a time;
    * `crc32c_ne_of_burst` — changing at most four consecutive bytes changes the
      checksum (CRC-32C detects every burst of at most 32 bits);
    * `crc32c_ne_of_odd_bitDistance` — flipping an odd number of bits, anywhere,
      changes the checksum: the register keeps the parity of what is fed into it;
    * `verifyChecksum_burst` — so `utils.VerifyChecksum` rejects every such
      change of data it accepted.
-/

namespace TinyLsm

/-- The reversed Castagnoli polynomial. -/
def castagnoli : UInt32 := 0x82F63B78

/-- One shift of the reflected register. -/
def crc32cShift (crc : UInt32) : UInt32 :=
  if crc &&& 1 = 1 then (crc >>> 1) ^^^ castagnoli else crc >>> 1

/-- Feed one byte into the register: xor it into the low byte, then shift eight times. -/
def crc32cUpdate (crc : UInt32) (b : UInt8) : UInt32 :=
  (List.replicate 8 ()).foldl (fun c _ => crc32cShift c) (crc ^^^ b.toUInt32)

/-- `crc32.Checksum(data, CastagnoliCrcTable)`. -/
def crc32c (data : Bytes) : UInt32 :=
  ~~~(data.foldl crc32cUpdate 0xFFFFFFFF)


set_option maxRecDepth 5000 in
/-- The standard check value of CRC-32C on the ASCII digits "123456789". -/
example : crc32c [0x31, 0x32, 0x33, 0x34, 0x35, 0x36, 0x37, 0x38, 0x39] = 0xE3069283 := by
  decide

/-- `crc32.MakeTable(crc32.Castagnoli)`: entry `i` is `i` shifted eight times. -/
def crc32cTable (i : UInt32) : UInt32 :=
  (List.replicate 8 ()).foldl (fun c _ => crc32cShift c) i

-- ============================================================================
-- Registers as bit vectors
-- ============================================================================

@[simp] theorem uint32_toBitVec_xor (a b : UInt32) :
    (a ^^^ b).toBitVec = a.toBitVec ^^^ b.toBitVec := rfl

@[simp] theorem uint32_toBitVec_and (a b : UInt32) :
    (a &&& b).toBitVec = a.toBitVec &&& b.toBitVec := rfl

@[simp] theorem uint32_toBitVec_shiftRight_one (a : UInt32) :
    (a >>> 1).toBitVec = a.toBitVec >>> 1 := rfl

@[simp] theorem uint32_toBitVec_shiftRight_eight (a : UInt32) :
    (a >>> 8).toBitVec = a.toBitVec >>> 8 := rfl

@[simp] theorem uint32_toBitVec_shiftRight_24 (a : UInt32) :
    (a >>> 24).toBitVec = a.toBitVec >>> 24 := rfl

@[simp] theorem uint32_toNat_shiftRight_eight (a : UInt32) : (a >>> 8).toNat = a.toNat / 2 ^ 8 :=
  Nat.shiftRight_eq_div_pow _ _

@[simp] theorem uint32_toNat_shiftRight_24 (a : UInt32) : (a >>> 24).toNat = a.toNat / 2 ^ 24 :=
  Nat.shiftRight_eq_div_pow _ _

theorem uint32_toNat_and_0xff (a : UInt32) : (a &&& 0xff).toNat = a.toNat % 256 :=
  (UInt32.and_toNat a 0xff).trans (Nat.and_pow_two_sub_one_eq_mod a.toNat 8)

theorem uint8_toUInt32_getLsbD (b : UInt8) (i : Nat) :
    b.toUInt32.toBitVec.getLsbD i = b.toNat.testBit i := rfl

theorem testBit_255 (i : Nat) : (255 : Nat).testBit i = decide (i < 8) :=
  Nat.testBit_two_pow_sub_one 8 i

theorem uint32_and_one_eq_one (c : UInt32) : c &&& 1 = 1 ↔ c.toBitVec.getLsbD 0 = true := by
  rw [← BitVec.testBit_toNat, Nat.testBit_zero, decide_eq_true_iff]
  constructor
  · intro h
    simpa using congrArg UInt32.toNat h
  · intro h
    exact UInt32.toNat.inj (by simpa using h)

theorem uint32_xor_self (a : UInt32) : a ^^^ a = 0 :=
  UInt32.eq_of_toBitVec_eq BitVec.xor_self

theorem uint32_xor_zero (a : UInt32) : a ^^^ 0 = a :=
  UInt32.eq_of_toBitVec_eq BitVec.xor_zero

theorem uint32_zero_xor (a : UInt32) : 0 ^^^ a = a :=
  UInt32.eq_of_toBitVec_eq BitVec.zero_xor

theorem uint32_not_not (a : UInt32) : ~~~~~~a = a :=
  UInt32.eq_of_toBitVec_eq BitVec.not_not

theorem uint8_xor_self (a : UInt8) : a ^^^ a = 0 :=
  UInt8.eq_of_toBitVec_eq BitVec.xor_self

theorem bitVec_eq_of_xor_eq_zero {w : Nat} {a b : BitVec w} (h : a ^^^ b = 0#w) : a = b := by
  rw [← @BitVec.zero_xor _ b, ← h, BitVec.xor_assoc, BitVec.xor_self, BitVec.xor_zero]

theorem uint8_eq_of_xor_eq_zero {a b : UInt8} (h : a ^^^ b = 0) : a = b :=
  UInt8.eq_of_toBitVec_eq (bitVec_eq_of_xor_eq_zero (congrArg UInt8.toBitVec h))

theorem uint32_eq_of_xor_eq_zero {a b : UInt32} (h : a ^^^ b = 0) : a = b :=
  UInt32.eq_of_toBitVec_eq (bitVec_eq_of_xor_eq_zero (congrArg UInt32.toBitVec h))

theorem uint8_toUInt32_xor (a b : UInt8) : (a ^^^ b).toUInt32 = a.toUInt32 ^^^ b.toUInt32 :=
  UInt32.eq_of_toBitVec_eq (BitVec.eq_of_getLsbD_eq fun i => by
    simp only [uint8_toUInt32_getLsbD, uint32_toBitVec_xor, BitVec.getLsbD_xor]
    exact (congrArg (Nat.testBit · i) (BitVec.toNat_xor a.toBitVec b.toBitVec)).trans
      (Nat.testBit_xor _ _ _))

-- ============================================================================
-- Linearity, and Go's table step
-- ============================================================================

/-- A shift drops the low bit and adds the polynomial when that bit was set. -/
theorem crc32cShift_toBitVec (c : UInt32) : (crc32cShift c).toBitVec =
    c.toBitVec >>> 1 ^^^ (if c.toBitVec.getLsbD 0 then castagnoli.toBitVec else 0) := by
  unfold crc32cShift
  by_cases h : c.toBitVec.getLsbD 0 = true
  · simp [(uint32_and_one_eq_one c).2 h, h]
  · simp [mt (uint32_and_one_eq_one c).1 h, h]

theorem castagnoli_mask_xor (x y : Bool) :
    (if (x ^^ y) then castagnoli.toBitVec else 0) =
      (if x then castagnoli.toBitVec else 0) ^^^ (if y then castagnoli.toBitVec else 0) := by
  cases x <;> cases y <;> simp

/-- The shift is linear for exclusive or. -/
theorem crc32cShift_xor (a b : UInt32) :
    crc32cShift (a ^^^ b) = crc32cShift a ^^^ crc32cShift b := by
  apply UInt32.eq_of_toBitVec_eq
  rw [uint32_toBitVec_xor, crc32cShift_toBitVec, crc32cShift_toBitVec, crc32cShift_toBitVec,
    uint32_toBitVec_xor, BitVec.getLsbD_xor, castagnoli_mask_xor, BitVec.ushiftRight_xor_distrib]
  ac_rfl

theorem crc32cShifts_xor (n : Nat) (a b : UInt32) :
    (List.replicate n ()).foldl (fun c _ => crc32cShift c) (a ^^^ b) =
      (List.replicate n ()).foldl (fun c _ => crc32cShift c) a ^^^
        (List.replicate n ()).foldl (fun c _ => crc32cShift c) b := by
  induction n generalizing a b with
  | zero => rfl
  | succ n ih => simp only [List.replicate_succ, List.foldl_cons, crc32cShift_xor, ih]

/-- A register whose low `n` bits are clear only moves down through `n` shifts. -/
theorem crc32cShifts_of_low_zero : ∀ (n : Nat) (c : UInt32),
    (∀ i < n, c.toBitVec.getLsbD i = false) →
      ((List.replicate n ()).foldl (fun c _ => crc32cShift c) c).toBitVec = c.toBitVec >>> n
  | 0, c, _ => by simp
  | n + 1, c, h => by
    have h0 : crc32cShift c = c >>> 1 :=
      UInt32.eq_of_toBitVec_eq (by simp [crc32cShift_toBitVec, h 0 (by omega)])
    have hn : ∀ i < n, (c >>> 1).toBitVec.getLsbD i = false := fun i hi => by
      simpa [Nat.add_comm] using h (i + 1) (by omega)
    rw [List.replicate_succ, List.foldl_cons, h0, crc32cShifts_of_low_zero n _ hn,
      uint32_toBitVec_shiftRight_one, ← BitVec.shiftRight_add, Nat.add_comm]

/-- Go's table step `crc = tab[byte(crc)^v] ^ (crc >> 8)`: the update is the table entry
    of the low byte of `crc ^ v`, and the rest of the register moved down a byte. -/
theorem crc32cUpdate_table (crc : UInt32) (b : UInt8) :
    crc32cUpdate crc b = crc32cTable ((crc ^^^ b.toUInt32) &&& 0xff) ^^^ (crc >>> 8) := by
  have hb : ∀ i, b.toNat.testBit (8 + i) = false := fun i =>
    Nat.testBit_lt_two_pow (Nat.lt_of_lt_of_le b.toBitVec.isLt
      (Nat.pow_le_pow_right (by omega) (by omega)))
  generalize hc : crc ^^^ b.toUInt32 = c
  have hsplit : c = (c &&& 0xff) ^^^ ((c &&& 0xff) ^^^ c) := by
    apply UInt32.eq_of_toBitVec_eq
    simp only [uint32_toBitVec_xor, ← BitVec.xor_assoc, BitVec.xor_self, BitVec.zero_xor]
  have hlow : ∀ i < 8, ((c &&& 0xff) ^^^ c).toBitVec.getLsbD i = false := fun i hi => by
    simp only [uint32_toBitVec_xor, uint32_toBitVec_and, BitVec.getLsbD_xor, BitVec.getLsbD_and]
    simp [BitVec.getLsbD_ofNat, testBit_255, hi, show i < 32 by omega]
  have hhigh : ((c &&& 0xff) ^^^ c).toBitVec >>> 8 = (crc >>> 8).toBitVec := by
    ext i
    subst hc
    have : ¬ 8 + (i : Nat) < 8 := by omega
    simp [BitVec.getLsbD_ofNat, testBit_255, uint8_toUInt32_getLsbD, hb, this]
  unfold crc32cUpdate crc32cTable
  rw [hc, hsplit, crc32cShifts_xor, ← hsplit]
  congr 1
  exact UInt32.eq_of_toBitVec_eq ((crc32cShifts_of_low_zero 8 _ hlow).trans hhigh)

/-- The update is linear: the xor of two updates is the update of the xors. -/
theorem crc32cUpdate_xor (r r' : UInt32) (a a' : UInt8) :
    crc32cUpdate r a ^^^ crc32cUpdate r' a' = crc32cUpdate (r ^^^ r') (a ^^^ a') := by
  unfold crc32cUpdate
  rw [← crc32cShifts_xor, uint8_toUInt32_xor]
  congr 1
  apply UInt32.eq_of_toBitVec_eq
  simp only [uint32_toBitVec_xor]
  ac_rfl

theorem foldl_crc32cUpdate_xor : ∀ (x y : Bytes) (r r' : UInt32), x.length = y.length →
    x.foldl crc32cUpdate r ^^^ y.foldl crc32cUpdate r' =
      (List.zipWith (· ^^^ ·) x y).foldl crc32cUpdate (r ^^^ r')
  | [], [], _, _, _ => rfl
  | a :: x, b :: y, r, r', h => by
    rw [List.foldl_cons, List.foldl_cons, List.zipWith_cons_cons, List.foldl_cons,
      foldl_crc32cUpdate_xor x y _ _ (by simpa using h), crc32cUpdate_xor]
  | [], _ :: _, _, _, h => absurd h (by simp)
  | _ :: _, [], _, _, h => absurd h (by simp)

-- ============================================================================
-- Running the register backwards
-- ============================================================================

set_option maxRecDepth 10000 in
/-- The top byte of a table entry is zero only for entry zero: `i ↦ tab[i] >> 24` is one
    to one on bytes, which is what lets a register be run backwards. -/
theorem crc32cTable_top_byte :
    ∀ i : Fin 256, crc32cTable (UInt32.ofNat i) >>> 24 = 0 → i = 0 := by
  decide

theorem crc32cTable_zero : crc32cTable 0 = 0 := by decide

theorem crc32cUpdate_zero : crc32cUpdate 0 0 = 0 := by decide

/-- An update that leaves the top byte clear took table entry zero, so it only moved the
    register down a byte. -/
theorem crc32cUpdate_of_lt {δ : UInt32} {b : UInt8} (h : (crc32cUpdate δ b).toNat < 2 ^ 24) :
    (δ ^^^ b.toUInt32) &&& 0xff = 0 ∧ crc32cUpdate δ b = δ >>> 8 := by
  generalize hi : (δ ^^^ b.toUInt32) &&& 0xff = i
  have hilt : i.toNat < 256 := hi ▸ by rw [uint32_toNat_and_0xff]; omega
  have htop : crc32cUpdate δ b >>> 24 = crc32cTable i >>> 24 := by
    apply UInt32.eq_of_toBitVec_eq
    have hδ : δ.toBitVec >>> 8 >>> 24 = 0#32 := by
      apply BitVec.eq_of_toNat_eq
      simp only [BitVec.toNat_ushiftRight, Nat.shiftRight_eq_div_pow, BitVec.toNat_ofNat]
      have := δ.toBitVec.isLt
      omega
    rw [crc32cUpdate_table, hi, uint32_toBitVec_shiftRight_24, uint32_toBitVec_xor,
      BitVec.ushiftRight_xor_distrib, uint32_toBitVec_shiftRight_eight, hδ, BitVec.xor_zero]
    rfl
  have h24 : crc32cUpdate δ b >>> 24 = 0 := UInt32.toNat.inj (by simp; omega)
  have hi0 : i = 0 := by
    have := crc32cTable_top_byte ⟨i.toNat, hilt⟩ (by rw [uint32_ofNat_toNat, ← htop, h24])
    exact UInt32.toNat.inj (by simpa using congrArg Fin.val this)
  subst hi0
  refine ⟨rfl, ?_⟩
  rw [crc32cUpdate_table, hi, crc32cTable_zero, uint32_zero_xor]

/-- For a fixed byte, the update is one to one in the register. -/
theorem crc32cUpdate_inj {r r' : UInt32} {b : UInt8}
    (h : crc32cUpdate r b = crc32cUpdate r' b) : r = r' := by
  have h0 : crc32cUpdate (r ^^^ r') 0 = 0 := by
    rw [← uint8_xor_self b, ← crc32cUpdate_xor, h, uint32_xor_self]
  obtain ⟨hlo, hmove⟩ := crc32cUpdate_of_lt (by rw [h0]; decide)
  have hlo' := congrArg UInt32.toNat hlo
  have hhi := congrArg UInt32.toNat (hmove.symm.trans h0)
  rw [show (0 : UInt8).toUInt32 = 0 from rfl, uint32_xor_zero, uint32_toNat_and_0xff] at hlo'
  rw [uint32_toNat_shiftRight_eight] at hhi
  exact uint32_eq_of_xor_eq_zero (UInt32.toNat.inj (by simp only [UInt32.toNat_zero] at *; omega))

theorem foldl_crc32cUpdate_inj : ∀ (v : Bytes) {r r' : UInt32},
    v.foldl crc32cUpdate r = v.foldl crc32cUpdate r' → r = r'
  | [], _, _, h => h
  | _ :: v, _, _, h => crc32cUpdate_inj (foldl_crc32cUpdate_inj v h)

theorem foldl_crc32cUpdate_zeros : ∀ d : Bytes, (∀ b ∈ d, b = 0) → d.foldl crc32cUpdate 0 = 0
  | [], _ => rfl
  | b :: d, h => by
    rw [List.foldl_cons, h b (List.mem_cons_self b d), crc32cUpdate_zero]
    exact foldl_crc32cUpdate_zeros d fun c hc => h c (List.mem_cons_of_mem b hc)

/-- Bytes fed to a zero register that leave it below `2 ^ (8 * k)`, for `k` plus their
    number at most four, are all zero: run the register backwards from the last byte. -/
theorem foldl_crc32cUpdate_lt (d : Bytes) : ∀ k, k + d.length ≤ 4 →
    (d.foldl crc32cUpdate 0).toNat < 2 ^ (8 * k) → ∀ b ∈ d, b = 0 := by
  induction d using List.reverseRecOn with
  | nil => simp
  | append_singleton d b ih =>
    intro k hk hlt
    rw [List.length_append, List.length_singleton] at hk
    rw [List.foldl_append, List.foldl_cons, List.foldl_nil] at hlt
    obtain ⟨hlo, hmove⟩ := crc32cUpdate_of_lt
      (Nat.lt_of_lt_of_le hlt (Nat.pow_le_pow_right (by omega) (by omega)))
    have hδ : (d.foldl crc32cUpdate 0).toNat < 2 ^ (8 * (k + 1)) := by
      rw [hmove, uint32_toNat_shiftRight_eight] at hlt
      rw [Nat.mul_succ, Nat.pow_add]
      exact (Nat.div_lt_iff_lt_mul (by decide)).1 hlt
    have hd := ih (k + 1) (by omega) hδ
    have hb : b = 0 := by
      rw [foldl_crc32cUpdate_zeros d hd, uint32_zero_xor] at hlo
      have := congrArg UInt32.toNat hlo
      rw [uint32_toNat_and_0xff, uint8_toUInt32_toNat, UInt32.toNat_zero,
        Nat.mod_eq_of_lt (uint8_toNat_lt b)] at this
      exact UInt8.toNat.inj this
    intro c hc
    rcases List.mem_append.1 hc with hc | hc
    · exact hd c hc
    · rw [List.mem_singleton.1 hc, hb]

theorem eq_of_zipWith_xor_zero : ∀ x y : Bytes, x.length = y.length →
    (∀ b ∈ List.zipWith (· ^^^ ·) x y, b = 0) → x = y
  | [], [], _, _ => rfl
  | a :: x, b :: y, hl, h => by
    rw [List.zipWith_cons_cons] at h
    rw [uint8_eq_of_xor_eq_zero (h _ (List.mem_cons_self _ _)),
      eq_of_zipWith_xor_zero x y (by simpa using hl) fun c hc => h c (List.mem_cons_of_mem _ hc)]
  | [], _ :: _, hl, _ => absurd hl (by simp)
  | _ :: _, [], hl, _ => absurd hl (by simp)

/-- From one register, two windows of at most four bytes that leave the same register are
    the same bytes. -/
theorem foldl_crc32cUpdate_window {x y : Bytes} (hlen : x.length = y.length)
    (h4 : x.length ≤ 4) (r : UInt32) (h : x.foldl crc32cUpdate r = y.foldl crc32cUpdate r) :
    x = y := by
  have h0 := foldl_crc32cUpdate_xor x y r r hlen
  rw [h, uint32_xor_self, uint32_xor_self] at h0
  refine eq_of_zipWith_xor_zero x y hlen (foldl_crc32cUpdate_lt _ 0 ?_ ?_)
  · simpa [hlen] using h4
  · rw [← h0]; decide

-- ============================================================================
-- Burst detection
-- ============================================================================

/-- CRC-32C detects every burst of at most 32 bits: changing at most four consecutive bytes,
    at least one of them, changes the checksum, whatever precedes and follows them. -/
theorem crc32c_ne_of_burst {u x y v : Bytes} (hlen : x.length = y.length) (h4 : x.length ≤ 4)
    (hne : x ≠ y) : crc32c (u ++ x ++ v) ≠ crc32c (u ++ y ++ v) := by
  intro h
  have hreg := congrArg (fun c : UInt32 => ~~~c) h
  simp only [crc32c, List.foldl_append, uint32_not_not] at hreg
  exact hne (foldl_crc32cUpdate_window hlen h4 _ (foldl_crc32cUpdate_inj v hreg))

-- ============================================================================
-- Errors of odd weight
-- ============================================================================

/-- The exclusive or of the low `n` bits of `x`. -/
def bitParity (x : Nat) : Nat → Bool
  | 0 => false
  | n + 1 => bitParity x n ^^ x.testBit n

/-- The number of bits set among the low `n` bits of `x`. -/
def popCount (x : Nat) : Nat → Nat
  | 0 => 0
  | n + 1 => popCount x n + (x.testBit n).toNat

/-- The number of bit positions in which two byte strings of one length differ. -/
def bitDistance (x y : Bytes) : Nat :=
  (List.zipWith (fun a b => popCount (a ^^^ b).toNat 8) x y).sum

theorem decide_odd_add (p q : Nat) :
    (decide (p % 2 = 1) ^^ decide (q % 2 = 1)) = decide ((p + q) % 2 = 1) := by
  rcases Nat.mod_two_eq_zero_or_one p with hp | hp <;>
    rcases Nat.mod_two_eq_zero_or_one q with hq | hq <;> simp [hp, hq, Nat.add_mod]

theorem bitParity_eq_popCount (x : Nat) : ∀ n, bitParity x n = decide (popCount x n % 2 = 1)
  | 0 => rfl
  | n + 1 => by
    rw [bitParity, popCount, bitParity_eq_popCount x n, ← decide_odd_add]
    cases x.testBit n <;> rfl

theorem bitParity_xor (a b : Nat) : ∀ n, bitParity (a ^^^ b) n = (bitParity a n ^^ bitParity b n)
  | 0 => rfl
  | n + 1 => by
    simp only [bitParity, bitParity_xor a b n, Nat.testBit_xor, Bool.xor_assoc, Bool.xor_left_comm]

/-- Halving drops the low bit from the parity. -/
theorem bitParity_div_two (x : Nat) :
    ∀ n, bitParity (x / 2) n = (bitParity x (n + 1) ^^ x.testBit 0)
  | 0 => by simp [bitParity]
  | n + 1 => by
    show (bitParity (x / 2) n ^^ (x / 2).testBit n) =
      ((bitParity x (n + 1) ^^ x.testBit (n + 1)) ^^ x.testBit 0)
    rw [bitParity_div_two x n, Nat.testBit_div_two]
    exact Bool.xor_right_comm _ _ _

/-- Bits above a bound add nothing. -/
theorem bitParity_of_lt {x n : Nat} (h : x < 2 ^ n) : ∀ k, bitParity x (n + k) = bitParity x n
  | 0 => rfl
  | k + 1 => by
    rw [← Nat.add_assoc, bitParity, bitParity_of_lt h k,
      Nat.testBit_lt_two_pow (Nat.lt_of_lt_of_le h (Nat.pow_le_pow_right (by omega) (by omega)))]
    simp

/-- The parity of a register. -/
def regParity (c : UInt32) : Bool := bitParity c.toNat 32

theorem regParity_xor (a b : UInt32) : regParity (a ^^^ b) = (regParity a ^^ regParity b) := by
  rw [regParity, show (a ^^^ b).toNat = a.toNat ^^^ b.toNat from
    BitVec.toNat_xor a.toBitVec b.toBitVec, bitParity_xor]
  rfl

theorem regParity_shiftRight_one (c : UInt32) :
    regParity (c >>> 1) = (regParity c ^^ c.toBitVec.getLsbD 0) := by
  rw [regParity, show (c >>> 1).toNat = c.toNat / 2 from Nat.shiftRight_eq_div_pow _ 1,
    bitParity_div_two, bitParity_of_lt (uint32_toNat_lt c) 1]
  rfl

theorem regParity_castagnoli : regParity castagnoli = true := by decide

/-- A shift keeps the parity: it drops the low bit, and when that bit is set it adds the
    polynomial, whose 32 low coefficients hold an odd number of ones. -/
theorem regParity_crc32cShift (c : UInt32) : regParity (crc32cShift c) = regParity c := by
  rw [crc32cShift]
  by_cases h : c &&& 1 = 1
  · rw [if_pos h, regParity_xor, regParity_shiftRight_one, regParity_castagnoli,
      (uint32_and_one_eq_one c).1 h]
    simp
  · have h0 : c.toBitVec.getLsbD 0 = false := by simpa using mt (uint32_and_one_eq_one c).2 h
    rw [if_neg h, regParity_shiftRight_one, h0, Bool.xor_false]

theorem regParity_crc32cShifts (n : Nat) (c : UInt32) :
    regParity ((List.replicate n ()).foldl (fun c _ => crc32cShift c) c) = regParity c := by
  induction n generalizing c with
  | zero => rfl
  | succ n ih => rw [List.replicate_succ, List.foldl_cons, ih, regParity_crc32cShift]

theorem regParity_crc32cUpdate (r : UInt32) (b : UInt8) :
    regParity (crc32cUpdate r b) = (regParity r ^^ decide (popCount b.toNat 8 % 2 = 1)) := by
  rw [crc32cUpdate, regParity_crc32cShifts, regParity_xor, ← bitParity_eq_popCount]
  congr 1
  exact bitParity_of_lt (uint8_toNat_lt b) 24

/-- Each byte fed in adds its parity to the register's. -/
theorem regParity_foldl (d : Bytes) (r : UInt32) :
    regParity (d.foldl crc32cUpdate r) =
      (regParity r ^^ decide ((d.map fun b => popCount b.toNat 8).sum % 2 = 1)) := by
  induction d generalizing r with
  | nil => simp
  | cons b d ih =>
    rw [List.foldl_cons, ih, regParity_crc32cUpdate, List.map_cons, List.sum_cons,
      ← decide_odd_add, Bool.xor_assoc]

/-- **CRC-32C detects every error of odd weight**: two byte strings of one length that
    differ in an odd number of bit positions, anywhere, have different checksums.  The
    Castagnoli polynomial has an even number of terms, so the register keeps the parity of
    the bits fed into it. -/
theorem crc32c_ne_of_odd_bitDistance {x y : Bytes} (hlen : x.length = y.length)
    (hodd : bitDistance x y % 2 = 1) : crc32c x ≠ crc32c y := by
  intro h
  have hreg := congrArg (fun c : UInt32 => ~~~c) h
  simp only [crc32c, uint32_not_not] at hreg
  have h0 := foldl_crc32cUpdate_xor x y 0xFFFFFFFF 0xFFFFFFFF hlen
  rw [hreg, uint32_xor_self, uint32_xor_self] at h0
  have hpar := regParity_foldl (List.zipWith (· ^^^ ·) x y) 0
  have hz : regParity 0 = false := by decide
  rw [← h0, List.map_zipWith, hz] at hpar
  change false = (false ^^ decide (bitDistance x y % 2 = 1)) at hpar
  rw [hodd] at hpar
  exact absurd hpar (by decide)

/-- One flipped bit. -/
example : bitDistance [0x0F, 0xA0] [0x0E, 0xA0] = 1 := by decide

-- ============================================================================
-- utils.CalculateChecksum and utils.VerifyChecksum
-- ============================================================================

/-- `utils.CalculateChecksum`: the CRC-32C of the data, as a `uint64`. -/
def calculateChecksum (data : Bytes) : UInt64 := (crc32c data).toUInt64

/-- What `VerifyChecksum` returns on a mismatch: `ErrChecksumMismatch`, wrapped with
    "actual: %d, expected: %d". -/
structure ChecksumMismatch where
  actual : UInt64
  expected : UInt64
  deriving DecidableEq, Repr

/-- `utils.VerifyChecksum(data, expected)`.  `utils.BytesToU64`, which reads the expected
    checksum, is not in the sources: it is a parameter. -/
def verifyChecksum (bytesToU64 : Bytes → UInt64) (data expected : Bytes) :
    Except ChecksumMismatch Unit :=
  let actual := (crc32c data).toUInt64
  let expectedU64 := bytesToU64 expected
  if actual ≠ expectedU64 then .error ⟨actual, expectedU64⟩ else .ok ()

theorem uint32_toUInt64_injective {a b : UInt32} (h : a.toUInt64 = b.toUInt64) : a = b := by
  have := congrArg UInt64.toNat h
  simp only [UInt32.toUInt64, Nat.toUInt64, uint64_toNat_ofNat,
    Nat.mod_eq_of_lt (Nat.lt_trans (uint32_toNat_lt _) (by decide : 2 ^ 32 < 2 ^ 64))] at this
  exact UInt32.toNat.inj this

theorem verifyChecksum_eq_ok {bytesToU64 : Bytes → UInt64} {data expected : Bytes} :
    verifyChecksum bytesToU64 data expected = .ok () ↔
      calculateChecksum data = bytesToU64 expected := by
  simp only [verifyChecksum, calculateChecksum]
  by_cases h : (crc32c data).toUInt64 = bytesToU64 expected <;> simp [h]

/-- **`VerifyChecksum` catches every burst of at most four bytes.**  If it accepts `data`
    against `expected`, it rejects every `data'` that differs from `data` in at most four
    consecutive bytes, reporting the checksum of `data'` as actual and the accepted one as
    expected. -/
theorem verifyChecksum_burst (bytesToU64 : Bytes → UInt64) {u x y v expected : Bytes}
    (hlen : x.length = y.length) (h4 : x.length ≤ 4) (hne : x ≠ y)
    (hok : verifyChecksum bytesToU64 (u ++ x ++ v) expected = .ok ()) :
    verifyChecksum bytesToU64 (u ++ y ++ v) expected =
      .error ⟨calculateChecksum (u ++ y ++ v), calculateChecksum (u ++ x ++ v)⟩ := by
  have he := verifyChecksum_eq_ok.mp hok
  have hdiff : calculateChecksum (u ++ y ++ v) ≠ bytesToU64 expected := fun h =>
    crc32c_ne_of_burst hlen h4 hne (uint32_toUInt64_injective (he.trans h.symm))
  show (if calculateChecksum (u ++ y ++ v) ≠ bytesToU64 expected then
    (.error ⟨calculateChecksum (u ++ y ++ v), bytesToU64 expected⟩ :
      Except ChecksumMismatch Unit) else .ok ()) = _
  rw [if_pos hdiff, ← he]

/-- Data `[1, 2, 3]` accepted against its own checksum, then its first byte zeroed. -/
theorem verifyChecksum_burst_first_byte :
    [(1 : UInt8)].length = [(0 : UInt8)].length ∧ [(1 : UInt8)].length ≤ 4 ∧
    [(1 : UInt8)] ≠ [0] ∧
    verifyChecksum (fun _ => calculateChecksum [1, 2, 3]) ([] ++ [1] ++ [2, 3]) [] = .ok () ∧
    verifyChecksum (fun _ => calculateChecksum [1, 2, 3]) ([] ++ [0] ++ [2, 3]) [] =
      .error ⟨calculateChecksum ([] ++ [0] ++ [2, 3]), calculateChecksum ([] ++ [1] ++ [2, 3])⟩ :=
  have hok : verifyChecksum (fun _ => calculateChecksum [1, 2, 3]) ([] ++ [1] ++ [2, 3]) [] =
      .ok () := verifyChecksum_eq_ok.mpr rfl
  ⟨rfl, by decide, by decide, hok,
    verifyChecksum_burst (fun _ => calculateChecksum [1, 2, 3]) rfl (by decide) (by decide) hok⟩

end TinyLsm

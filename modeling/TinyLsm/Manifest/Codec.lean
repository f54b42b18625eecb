import TinyLsm.Manifest.Replay
import Mathlib.Tactic.Ring
/-
  TinyLsm.Manifest.Codec

  A concrete `ChangeSetCodec`, used to state closed instances of the results
  that hold for every codec.  It is not the protobuf wire format of
  `pb.ManifestChangeSet` (whose generated code the sources do not contain);
  it is a self-delimiting byte encoding with the same round trip:

    change set  = (1 · change)* 0
    change      = id (8 B, big-endian) · op · level (4 B) · escaped checksum
    op          = 0 (CREATE) | 1 (DELETE) | 2 · tag (4 B)
    escaped b   = (1 · byte)* 0
-/

namespace TinyLsm

namespace SimpleCodec

/-- `id` as eight big-endian bytes. -/
def putUint64 (v : UInt64) : Bytes :=
  (List.range 8).reverse.map fun i => UInt8.ofNat (v.toNat / 2 ^ (8 * i))

/-- The big-endian value of eight bytes. -/
def uint64 (b : Bytes) : UInt64 :=
  UInt64.ofNat ((b.take 8).foldl (fun acc x => acc * 256 + x.toNat) 0)

/-- Reading back the low `k` bytes of `v`, most significant first, shifts them in under
    `a`. -/
theorem foldl_bigEndian (v a : Nat) : ∀ k : Nat,
    (((List.range k).reverse.map fun i => UInt8.ofNat (v / 2 ^ (8 * i))).foldl
      (fun acc x => acc * 256 + x.toNat) a) = a * 256 ^ k + v % 256 ^ k
  | 0 => by simp [Nat.mod_one]
  | k + 1 => by
    rw [List.range_succ, List.reverse_append, List.map_append, List.foldl_append]
    simp only [List.reverse_singleton, List.map_singleton, List.foldl_cons, List.foldl_nil]
    rw [foldl_bigEndian v _ k, Nat.mod_pow_succ, pow_mul]
    simp only [Nat.reducePow, uint8_toNat_ofNat]
    ring

theorem uint64_putUint64_append (v : UInt64) (rest : Bytes) :
    uint64 (putUint64 v ++ rest) = v := by
  apply UInt64.toNat.inj
  have h256 : (256 : Nat) ^ 8 = 2 ^ 64 := by norm_num
  rw [uint64, putUint64, List.take_left' (by simp), foldl_bigEndian, uint64_toNat_ofNat, h256,
    Nat.zero_mul, Nat.zero_add, Nat.mod_eq_of_lt (uint64_toNat_lt v),
    Nat.mod_eq_of_lt (uint64_toNat_lt v)]

@[simp] theorem putUint64_length (v : UInt64) : (putUint64 v).length = 8 := by
  simp [putUint64]

/-- Each byte `b` as `[1, b]`, then `[0]`. -/
def escape : Bytes → Bytes
  | [] => [0]
  | b :: bs => 1 :: b :: escape bs

/-- Read an escaped byte string off the front. -/
def unescape : Bytes → Option (Bytes × Bytes)
  | 0 :: rest => some ([], rest)
  | 1 :: b :: rest => (unescape rest).map fun (bs, r) => (b :: bs, r)
  | _ => none

theorem unescape_escape_append (bs rest : Bytes) :
    unescape (escape bs ++ rest) = some (bs, rest) := by
  induction bs with
  | nil => rfl
  | cons b bs ih => simp [escape, unescape, ih]

def encodeOp : Operation → Bytes
  | .create => [0]
  | .delete => [1]
  | .other tag => 2 :: putUint32 tag

def decodeOp : Bytes → Option (Operation × Bytes)
  | 0 :: rest => some (.create, rest)
  | 1 :: rest => some (.delete, rest)
  | 2 :: rest => if 4 ≤ rest.length then some (.other (uint32 rest), rest.drop 4) else none
  | _ => none

theorem decodeOp_encodeOp_append (op : Operation) (rest : Bytes) :
    decodeOp (encodeOp op ++ rest) = some (op, rest) := by
  cases op <;> simp [encodeOp, decodeOp]

def encodeChange (c : ManifestChange) : Bytes :=
  putUint64 c.id ++ encodeOp c.op ++ putUint32 c.level ++ escape c.checksum

def decodeChange (b : Bytes) : Option (ManifestChange × Bytes) :=
  match decodeOp (b.drop 8) with
  | none => none
  | some (op, r) =>
    if r.length < 4 then none
    else (unescape (r.drop 4)).map fun (cks, r') => (⟨uint64 b, op, uint32 r, cks⟩, r')

theorem decodeChange_encodeChange_append (c : ManifestChange) (rest : Bytes) :
    decodeChange (encodeChange c ++ rest) = some (c, rest) := by
  simp only [decodeChange, encodeChange, List.append_assoc,
    List.drop_left' (putUint64_length c.id), decodeOp_encodeOp_append,
    List.length_append, putUint32_length]
  simp [uint64_putUint64_append, List.drop_left' (putUint32_length c.level),
    unescape_escape_append]

def encodeChanges : List ManifestChange → Bytes
  | [] => [0]
  | c :: cs => 1 :: (encodeChange c ++ encodeChanges cs)

/-- Decode with `fuel` bounding the number of changes. -/
def decodeChanges : Nat → Bytes → Option (List ManifestChange)
  | _ + 1, 0 :: _ => some []
  | fuel + 1, 1 :: b =>
    match decodeChange b with
    | none => none
    | some (c, r) => (decodeChanges fuel r).map (c :: ·)
  | _, _ => none

theorem decodeChanges_encodeChanges (cs : List ManifestChange) :
    ∀ fuel, cs.length < fuel → decodeChanges fuel (encodeChanges cs) = some cs := by
  induction cs with
  | nil => intro fuel h; cases fuel <;> simp_all [encodeChanges, decodeChanges]
  | cons c cs ih =>
    intro fuel h
    cases fuel with
    | zero => simp at h
    | succ fuel =>
      simp [encodeChanges, decodeChanges, decodeChange_encodeChange_append,
        ih fuel (by simp at h; omega)]

theorem length_encodeChanges (cs : List ManifestChange) :
    cs.length < (encodeChanges cs).length := by
  induction cs with
  | nil => simp [encodeChanges]
  | cons c cs ih => simp [encodeChanges]; omega

end SimpleCodec

open SimpleCodec in
/-- The concrete codec. -/
def simpleCodec : ChangeSetCodec where
  marshal := encodeChanges
  unmarshal b := decodeChanges b.length b
  unmarshal_marshal cs := decodeChanges_encodeChanges cs _ (length_encodeChanges cs)

end TinyLsm

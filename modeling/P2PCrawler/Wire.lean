import P2PCrawler.Std
import P2PCrawler.Lib.Reader
import P2PCrawler.Lib.Bytes

/-!
# Wire primitives (`protocol.rs`)

The defensive cursor over a payload and the canonical CompactSize.

* `Cursor.take`, `Cursor.u8`, `Cursor.uintLe`, `Cursor.u16Be` — the reads of the cursor.
* `writeCompactSize`, `Cursor.compactSizeCanonical` — the minimal encoding of a number and its
  reader; `recognizes_compactSizeCanonical`: the reader takes exactly the minimal encodings.
* `compactSize_inverse` — **canonical decoding is exactly inverse to encoding**.
-/

set_option autoImplicit false

namespace P2PCrawler

open Reader

/-- A read of the cursor: `None` in the source is the error `()`. -/
abbrev Cursor (α : Type) := Reader Byte Unit α

namespace Cursor

def take (n : Nat) : Cursor (List Byte) := Reader.take () n

def u8 : Cursor Byte := (·.headD 0) <$> take 1

/-- `u16_le`, `u32_le` and `u64_le`, by their widths in bytes. -/
def uintLe (width : Nat) : Cursor Nat := leVal <$> take width

/-- `i32_le` and `i64_le`: two's complement. -/
def intLe (width : Nat) : Cursor Int :=
  (fun v : Nat => (v : Int).bmod (256 ^ width)) <$> uintLe width

def u16Be : Cursor UInt16 := (fun w => UInt16.ofNat (beVal w)) <$> take 2

/-- The value behind a CompactSize prefix. -/
def compactSizeValue (pre : Byte) : Cursor Nat :=
  if pre = 0xFF then uintLe 8
  else if pre = 0xFE then uintLe 4
  else if pre = 0xFD then uintLe 2
  else pure pre.toNat

/-- No shorter prefix could carry the value. -/
def minimalPrefix (pre : Byte) (value : Nat) : Bool :=
  if pre = 0xFF then decide (0xFFFFFFFF < value)
  else if pre = 0xFE then decide (0xFFFF < value)
  else if pre = 0xFD then decide (0xFD ≤ value)
  else true

/-- Decode CompactSize without imposing caller-specific minimality policy. -/
def compactSize : Cursor Nat := do
  let pre ← u8
  compactSizeValue pre

def compactSizeCanonical : Cursor Nat := do
  let pre ← u8
  let value ← compactSizeValue pre
  check (minimalPrefix pre value) ()
  pure value

end Cursor

/-- Encode a value in minimal CompactSize form. -/
def writeCompactSize (value : Nat) : List Byte :=
  if value ≤ 0xFC then [UInt8.ofNat value]
  else if value ≤ 0xFFFF then 0xFD :: leBytes 2 value
  else if value ≤ 0xFFFFFFFF then 0xFE :: leBytes 4 value
  else 0xFF :: leBytes 8 value

/-! ## Grammars of the reads -/

theorem recognizes_u8 : Recognizes Cursor.u8 (fun b w => w = [b]) := by
  have h := (recognizes_take (β := Byte) () 1).map fun w => w.headD 0
  refine h.congr fun b w => ?_
  constructor
  · rintro ⟨x, ⟨rfl, hx⟩, rfl⟩
    obtain ⟨c, rfl⟩ := List.length_eq_one_iff.mp hx
    rfl
  · rintro rfl
    exact ⟨[b], ⟨rfl, rfl⟩, rfl⟩

theorem recognizes_uintLe (width : Nat) :
    Recognizes (Cursor.uintLe width) (fun v w => v < 256 ^ width ∧ w = leBytes width v) := by
  have h := (recognizes_take (β := Byte) () width).map leVal
  refine h.congr fun v w => ?_
  rw [← eq_leBytes_iff]
  constructor
  · rintro ⟨x, ⟨rfl, hx⟩, rfl⟩; exact ⟨hx, rfl⟩
  · rintro ⟨hw, rfl⟩; exact ⟨w, ⟨rfl, hw⟩, rfl⟩

theorem recognizes_u16Be : Recognizes Cursor.u16Be (fun p w => w = beBytes 2 p.toNat) := by
  have h := (recognizes_take (β := Byte) () 2).map fun w => UInt16.ofNat (beVal w)
  refine h.congr fun p w => ?_
  constructor
  · rintro ⟨x, ⟨rfl, hx⟩, rfl⟩
    obtain ⟨hlt, hw⟩ := eq_beBytes_iff.mp ⟨hx, rfl⟩
    have hmod : beVal w % 2 ^ 16 = beVal w := Nat.mod_eq_of_lt hlt
    rw [UInt16.toNat_ofNat', hmod]
    exact hw
  · intro hw
    obtain ⟨hlen, hval⟩ := eq_beBytes_iff.mpr ⟨p.toNat_lt, hw⟩
    refine ⟨w, ⟨rfl, hlen⟩, ?_⟩
    rw [hval, UInt16.ofNat_toNat]

/-- `i32::to_le_bytes` and `i64::to_le_bytes`, by their widths in bytes. -/
def intBytes (width : Nat) (v : Int) : List Byte := leBytes width (v % 256 ^ width).toNat

theorem intBytes_toInt (width : Nat) (b : BitVec (8 * width)) :
    intBytes width b.toInt = leBytes width b.toNat := by
  have hpow : (256 : Int) ^ width = ((2 ^ (8 * width) : Nat) : Int) := by
    rw [Nat.pow_mul]
    push_cast
    rfl
  have hmod : (b.toNat : Int) % ((2 ^ (8 * width) : Nat) : Int) = b.toNat :=
    Int.emod_eq_of_lt (Int.natCast_nonneg _) (by exact_mod_cast b.isLt)
  unfold intBytes
  rw [hpow, BitVec.toInt_eq_toNat_bmod, Int.bmod_emod, hmod, Int.toNat_natCast]

/-- Signed numbers: the bytes of a bit vector stand for its two's complement. -/
theorem recognizes_intLe (width : Nat) : Recognizes (Cursor.intLe width)
    (fun v w => ∃ b : BitVec (8 * width), v = b.toInt ∧ w = intBytes width v) := by
  have hpow : 256 ^ width = 2 ^ (8 * width) := by rw [Nat.pow_mul]
  have h := (recognizes_uintLe width).map fun v => (v : Int).bmod (256 ^ width)
  refine h.congr fun v w => ?_
  constructor
  · rintro ⟨n, ⟨hn, rfl⟩, rfl⟩
    rw [hpow] at hn
    have hb : (BitVec.ofNat (8 * width) n).toNat = n := by
      rw [BitVec.toNat_ofNat, Nat.mod_eq_of_lt hn]
    have hint : (BitVec.ofNat (8 * width) n).toInt = (n : Int).bmod (256 ^ width) := by
      rw [BitVec.toInt_eq_toNat_bmod, hb, hpow]
    refine ⟨BitVec.ofNat (8 * width) n, hint.symm, ?_⟩
    rw [← hint, intBytes_toInt, hb]
  · rintro ⟨b, rfl, rfl⟩
    refine ⟨b.toNat, ⟨?_, intBytes_toInt width b⟩, ?_⟩
    · rw [hpow]
      exact b.isLt
    · rw [BitVec.toInt_eq_toNat_bmod, hpow]

/-- The texts behind a CompactSize prefix. -/
def CompactSizeBody (pre : Byte) (v : Nat) (w : List Byte) : Prop :=
  if pre = 0xFF then v < 256 ^ 8 ∧ w = leBytes 8 v
  else if pre = 0xFE then v < 256 ^ 4 ∧ w = leBytes 4 v
  else if pre = 0xFD then v < 256 ^ 2 ∧ w = leBytes 2 v
  else v = pre.toNat ∧ w = []

theorem recognizes_compactSizeValue (pre : Byte) :
    Recognizes (Cursor.compactSizeValue pre) (CompactSizeBody pre) := by
  unfold Cursor.compactSizeValue CompactSizeBody
  split
  · exact recognizes_uintLe 8
  · split
    · exact recognizes_uintLe 4
    · split
      · exact recognizes_uintLe 2
      · exact recognizes_pure _

theorem byte_ofNat_ne {v n : Nat} (hv : v < n) (hn : n < 256) : UInt8.ofNat v ≠ UInt8.ofNat n := by
  intro h
  have hnat := congrArg UInt8.toNat h
  rw [UInt8.toNat_ofNat', UInt8.toNat_ofNat'] at hnat
  omega

/-- A value under its minimal prefix is written as it was read. -/
theorem writeCompactSize_of_minimal {pre : Byte} {v : Nat} {w : List Byte}
    (hbody : CompactSizeBody pre v w) (hmin : Cursor.minimalPrefix pre v = true) :
    v < 2 ^ 64 ∧ pre :: w = writeCompactSize v := by
  unfold CompactSizeBody at hbody
  unfold Cursor.minimalPrefix at hmin
  unfold writeCompactSize
  split at hbody
  · rename_i hpre
    rw [if_pos hpre, decide_eq_true_eq] at hmin
    obtain ⟨hlt, rfl⟩ := hbody
    rw [if_neg (by omega), if_neg (by omega), if_neg (by omega), hpre]
    exact ⟨hlt, rfl⟩
  rename_i hFF
  split at hbody
  · rename_i hpre
    rw [if_neg hFF, if_pos hpre, decide_eq_true_eq] at hmin
    obtain ⟨hlt, rfl⟩ := hbody
    rw [if_neg (by omega), if_neg (by omega), if_pos (by omega), hpre]
    exact ⟨by omega, rfl⟩
  rename_i hFE
  split at hbody
  · rename_i hpre
    rw [if_neg hFF, if_neg hFE, if_pos hpre, decide_eq_true_eq] at hmin
    obtain ⟨hlt, rfl⟩ := hbody
    rw [if_neg (by omega), if_pos (by omega), hpre]
    exact ⟨by omega, rfl⟩
  · rename_i hFD
    obtain ⟨rfl, rfl⟩ := hbody
    have hlt : pre.toNat < 256 := pre.toNat_lt
    -- a byte that is none of the three prefixes is at most 0xFC
    have hle : pre.toNat ≤ 0xFC := by
      rw [← UInt8.toNat_inj] at hFF hFE hFD
      simp only [UInt8.reduceToNat] at hFF hFE hFD
      omega
    rw [if_pos hle, UInt8.ofNat_toNat]
    exact ⟨by omega, rfl⟩

/-- What is written reads back under a minimal prefix. -/
theorem minimal_of_writeCompactSize {v : Nat} (hv : v < 2 ^ 64) :
    ∃ pre w, writeCompactSize v = pre :: w ∧ CompactSizeBody pre v w ∧
      Cursor.minimalPrefix pre v = true := by
  unfold writeCompactSize CompactSizeBody Cursor.minimalPrefix
  by_cases h₁ : v ≤ 0xFC
  · rw [if_pos h₁]
    have hmod : v % 2 ^ 8 = v := by omega
    have hFF : UInt8.ofNat v ≠ 0xFF := byte_ofNat_ne (n := 255) (by omega) (by omega)
    have hFE : UInt8.ofNat v ≠ 0xFE := byte_ofNat_ne (n := 254) (by omega) (by omega)
    have hFD : UInt8.ofNat v ≠ 0xFD := byte_ofNat_ne (n := 253) (by omega) (by omega)
    refine ⟨UInt8.ofNat v, [], rfl, ?_, ?_⟩
    · rw [if_neg hFF, if_neg hFE, if_neg hFD, UInt8.toNat_ofNat', hmod]
      exact ⟨rfl, rfl⟩
    · rw [if_neg hFF, if_neg hFE, if_neg hFD]
  rw [if_neg h₁]
  by_cases h₂ : v ≤ 0xFFFF
  · rw [if_pos h₂]
    have hmin : 0xFD ≤ v := by omega
    exact ⟨0xFD, leBytes 2 v, rfl, ⟨by omega, rfl⟩, decide_eq_true hmin⟩
  rw [if_neg h₂]
  by_cases h₃ : v ≤ 0xFFFFFFFF
  · rw [if_pos h₃]
    have hmin : 0xFFFF < v := by omega
    exact ⟨0xFE, leBytes 4 v, rfl, ⟨by omega, rfl⟩, decide_eq_true hmin⟩
  · rw [if_neg h₃]
    have hmin : 0xFFFFFFFF < v := by omega
    exact ⟨0xFF, leBytes 8 v, rfl, ⟨hv, rfl⟩, decide_eq_true hmin⟩

/-- **CompactSize.**  The reader takes exactly the minimal encodings of the 64-bit numbers. -/
theorem recognizes_compactSizeCanonical :
    Recognizes Cursor.compactSizeCanonical (fun v w => v < 2 ^ 64 ∧ w = writeCompactSize v) := by
  have h := recognizes_u8.bind fun pre _ _ =>
    (recognizes_compactSizeValue pre).filter (fun v => Cursor.minimalPrefix pre v = true) ()
  refine h.congr fun v w => ?_
  constructor
  · rintro ⟨pre, _, t, rfl, ⟨hbody, hmin⟩, rfl⟩
    exact writeCompactSize_of_minimal hbody hmin
  · rintro ⟨hv, rfl⟩
    obtain ⟨pre, t, heq, hbody, hmin⟩ := minimal_of_writeCompactSize hv
    exact ⟨pre, [pre], t, rfl, ⟨hbody, hmin⟩, heq⟩

/-- The lenient reader takes a value under any prefix that can carry it. -/
theorem recognizes_compactSize : Recognizes Cursor.compactSize
    (fun v w => ∃ pre t, w = pre :: t ∧ CompactSizeBody pre v t) := by
  have h := recognizes_u8.bind fun pre _ _ => recognizes_compactSizeValue pre
  refine h.congr fun v w => ?_
  constructor
  · rintro ⟨pre, _, t, rfl, hbody, rfl⟩
    exact ⟨pre, t, rfl, hbody⟩
  · rintro ⟨pre, t, rfl, hbody⟩
    exact ⟨pre, [pre], t, rfl, hbody, rfl⟩

theorem compactSizeCanonical_write {v : Nat} (hv : v < 2 ^ 64) (r : List Byte) :
    Cursor.compactSizeCanonical (writeCompactSize v ++ r) = .ok (v, r) := by
  rw [recognizes_compactSizeCanonical]
  exact ⟨writeCompactSize v, ⟨hv, rfl⟩, rfl⟩

theorem write_of_compactSizeCanonical {b r : List Byte} {v : Nat}
    (h : Cursor.compactSizeCanonical b = .ok (v, r)) : v < 2 ^ 64 ∧ b = writeCompactSize v ++ r := by
  rw [recognizes_compactSizeCanonical] at h
  obtain ⟨w, ⟨hv, rfl⟩, rfl⟩ := h
  exact ⟨hv, rfl⟩

theorem compactSize_write {v : Nat} (hv : v < 2 ^ 64) (r : List Byte) :
    Cursor.compactSize (writeCompactSize v ++ r) = .ok (v, r) := by
  obtain ⟨pre, t, heq, hbody, -⟩ := minimal_of_writeCompactSize hv
  rw [recognizes_compactSize]
  exact ⟨writeCompactSize v, ⟨pre, t, heq, hbody⟩, rfl⟩

/-- **The canonical CompactSize is the inverse of the encoder.**  What is written reads back before
    any suffix, nothing else is read, so a value has one accepted encoding; and the lenient reader
    agrees wherever the canonical one succeeds. -/
theorem compactSize_inverse :
    (∀ (v : UInt64) (r : List Byte),
      Cursor.compactSizeCanonical (writeCompactSize v.toNat ++ r) = .ok (v.toNat, r)) ∧
    (∀ (b r : List Byte) (v : Nat), Cursor.compactSizeCanonical b = .ok (v, r) →
      v < 2 ^ 64 ∧ b = writeCompactSize v ++ r) ∧
    (∀ v : UInt64, ∃! w : List Byte,
      ∃ r, Cursor.compactSizeCanonical (w ++ r) = .ok (v.toNat, r)) ∧
    (∀ (b r : List Byte) (v : Nat), Cursor.compactSizeCanonical b = .ok (v, r) →
      Cursor.compactSize b = .ok (v, r)) := by
  refine ⟨fun v r => compactSizeCanonical_write v.toNat_lt r,
    fun b r v h => write_of_compactSizeCanonical h, fun v => ?_, fun b r v h => ?_⟩
  · refine ⟨writeCompactSize v.toNat, ⟨[], compactSizeCanonical_write v.toNat_lt []⟩, ?_⟩
    rintro w ⟨r, hw⟩
    obtain ⟨-, heq⟩ := write_of_compactSizeCanonical hw
    exact List.append_cancel_right heq
  · obtain ⟨hv, rfl⟩ := write_of_compactSizeCanonical h
    exact compactSize_write hv r

/-- A number under a longer prefix than it needs. -/
inductive OverlongSize : List Byte → Prop where
  | two {n : Nat} (small : n < 0xFD) : OverlongSize (0xFD :: leBytes 2 n)
  | four {n : Nat} (small : n ≤ 0xFFFF) : OverlongSize (0xFE :: leBytes 4 n)
  | eight {n : Nat} (small : n ≤ 0xFFFFFFFF) : OverlongSize (0xFF :: leBytes 8 n)

theorem OverlongSize.parts {e : List Byte} (h : OverlongSize e) :
    ∃ pre n body, e = pre :: body ∧ CompactSizeBody pre n body ∧
      Cursor.minimalPrefix pre n = false := by
  cases h with
  | @two n small =>
    have hbody : CompactSizeBody 0xFD n (leBytes 2 n) := ⟨by omega, rfl⟩
    exact ⟨_, n, _, rfl, hbody, decide_eq_false (by omega)⟩
  | @four n small =>
    have hbody : CompactSizeBody 0xFE n (leBytes 4 n) := ⟨by omega, rfl⟩
    exact ⟨_, n, _, rfl, hbody, decide_eq_false (by omega)⟩
  | @eight n small =>
    have hbody : CompactSizeBody 0xFF n (leBytes 8 n) := ⟨by omega, rfl⟩
    exact ⟨_, n, _, rfl, hbody, decide_eq_false (by omega)⟩

/-- No minimal encoding starts with an overlong one. -/
theorem OverlongSize.not_minimal {e s t : List Byte} (h : OverlongSize e) {m : Nat} (hm : m < 2 ^ 64) :
    writeCompactSize m ++ s ≠ e ++ t := by
  intro heq
  obtain ⟨pre, n, body, rfl, hbody, hmin⟩ := h.parts
  obtain ⟨pre', body', hw, hbody', hmin'⟩ := minimal_of_writeCompactSize hm
  rw [hw, List.cons_append, List.cons_append, List.cons.injEq] at heq
  obtain ⟨rfl, heq⟩ := heq
  obtain ⟨rfl, -⟩ := (recognizes_compactSizeValue pre').prefix_free hbody' hbody heq
  rw [hmin'] at hmin
  cases hmin

end P2PCrawler

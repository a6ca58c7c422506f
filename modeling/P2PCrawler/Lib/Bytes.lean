import Mathlib.Data.Nat.Digits.Defs

/-!
# Numbers in a fixed number of bytes

Little-endian and big-endian numbers as lists of bytes.  `leBytes width` and `leVal` are inverse
to each other between the numbers below `256 ^ width` and the lists of `width` bytes.
-/

set_option autoImplicit false

/-- The number a list of bytes stands for, least significant byte first. -/
def leVal (w : List UInt8) : Nat := Nat.ofDigits 256 (w.map UInt8.toNat)

/-- The `width` low bytes of a number, least significant first. -/
def leBytes : (width v : Nat) → List UInt8
  | 0, _ => []
  | width + 1, v => UInt8.ofNat v :: leBytes width (v / 256)

/-- The number a list of bytes stands for, most significant byte first. -/
def beVal (w : List UInt8) : Nat := leVal w.reverse

def beBytes (width v : Nat) : List UInt8 := (leBytes width v).reverse

@[simp] theorem leVal_nil : leVal [] = 0 := rfl

@[simp] theorem leVal_cons (b : UInt8) (w : List UInt8) :
    leVal (b :: w) = b.toNat + 256 * leVal w := by
  simp [leVal, Nat.ofDigits_cons]

@[simp] theorem leBytes_length : ∀ width v : Nat, (leBytes width v).length = width
  | 0, _ => rfl
  | width + 1, v => by simp [leBytes, leBytes_length width]

@[simp] theorem beBytes_length (width v : Nat) : (beBytes width v).length = width := by
  simp [beBytes]

theorem leVal_lt (w : List UInt8) : leVal w < 256 ^ w.length := by
  have h := Nat.ofDigits_lt_base_pow_length (b := 256) (l := w.map UInt8.toNat) (by decide) (by
    intro d hd
    obtain ⟨b, _, rfl⟩ := List.mem_map.mp hd
    exact b.toNat_lt)
  simpa [leVal] using h

theorem leVal_leBytes : ∀ {width v : Nat}, v < 256 ^ width → leVal (leBytes width v) = v
  | 0, v, h => by
    have hv : v = 0 := by simpa using h
    rw [hv]
    rfl
  | width + 1, v, h => by
    have hdiv : v / 256 < 256 ^ width := by
      rw [Nat.pow_succ] at h
      exact Nat.div_lt_of_lt_mul (by omega)
    have hlow : (UInt8.ofNat v).toNat = v % 256 := by simp
    rw [leBytes, leVal_cons, leVal_leBytes hdiv, hlow]
    omega

theorem leBytes_leVal : ∀ w : List UInt8, leBytes w.length (leVal w) = w
  | [] => rfl
  | b :: w => by
    have hb : b.toNat < 256 := b.toNat_lt
    have hlow : UInt8.ofNat (b.toNat + 256 * leVal w) = b := by
      apply UInt8.toNat_inj.mp
      rw [UInt8.toNat_ofNat']
      omega
    have hdiv : (b.toNat + 256 * leVal w) / 256 = leVal w := by omega
    rw [List.length_cons, leVal_cons, leBytes, hlow, hdiv, leBytes_leVal w]

/-- The lists of `width` bytes are the encodings of the numbers below `256 ^ width`. -/
theorem eq_leBytes_iff {width v : Nat} {w : List UInt8} :
    (w.length = width ∧ leVal w = v) ↔ (v < 256 ^ width ∧ w = leBytes width v) := by
  constructor
  · rintro ⟨rfl, rfl⟩
    exact ⟨leVal_lt w, (leBytes_leVal w).symm⟩
  · rintro ⟨hv, rfl⟩
    exact ⟨leBytes_length .., leVal_leBytes hv⟩

theorem eq_beBytes_iff {width v : Nat} {w : List UInt8} :
    (w.length = width ∧ beVal w = v) ↔ (v < 256 ^ width ∧ w = beBytes width v) := by
  have h := @eq_leBytes_iff width v w.reverse
  rw [List.length_reverse, List.reverse_eq_iff] at h
  exact h

/-- A list of `a + b` items is `a` of them followed by `b`. -/
theorem exists_append_of_length {α : Type} {a b : Nat} {w : List α} (h : w.length = a + b) :
    ∃ u v, w = u ++ v ∧ u.length = a ∧ v.length = b :=
  ⟨w.take a, w.drop a, (List.take_append_drop a w).symm, by rw [List.length_take]; omega,
    by rw [List.length_drop]; omega⟩

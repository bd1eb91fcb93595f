import Mathlib
import Lox.Proofs.Decimal.Nearest

set_option autoImplicit false
set_option relaxedAutoImplicit false

namespace Lox.Decimal

open Float.Model (Format UnpackedFloat)
open Float.Model.UnpackedFloat

abbrev Word := BitVec Format.binary64.numBits

private theorem toNat_unpackExponent (b : Word) :
    (unpackExponent b).toNat = b.toNat / 2 ^ 52 % 2048 := by
  simp [unpackExponent, BitVec.extractLsb, Nat.shiftRight_eq_div_pow]

private theorem toBitVec_ofBitVec (v : BitVec 1) : (Sign.ofBitVec v).toBitVec = v := by
  revert v
  decide

private theorem packComponents_parts {b : Word} {e : BitVec 11} {f : BitVec 52}
    (he : unpackExponent b = e) (hf : unpackMantissa b = f) :
    packComponents .binary64 (Sign.ofBitVec (unpackSign b)) e f = b := by
  subst he hf
  simp only [packComponents, toBitVec_ofBitVec, unpackSign, unpackExponent, unpackMantissa,
    BitVec.extractLsb]
  ext i hi
  grind

private theorem pack_subnormal {b : Word} (he : unpackExponent b = 0)
    (h : 0 < (unpackMantissa b).toNat) :
    pack .binary64 (.finite (.ofBitVec (unpackSign b)) (unpackMantissa b).toNat (-1074) h) = b := by
  have hlt : (unpackMantissa b).toNat < 2 ^ 52 := (unpackMantissa b).isLt
  have hlog : ¬ (unpackMantissa b).toNat.log2 + 1 = Format.binary64.mantissaBits := by
    have hle : ¬ 52 ≤ (unpackMantissa b).toNat.log2 := by
      rw [Nat.le_log2 (by omega)]
      omega
    have h53 : Format.binary64.mantissaBits = 53 := rfl
    omega
  rw [pack, if_neg (by decide), if_neg hlog]
  refine packComponents_parts he ?_
  rw [BitVec.ofNat_toNat, BitVec.setWidth_eq]

private theorem pack_normal {b : Word} (hne : (unpackExponent b).toNat ≠ 2047)
    (hnz : (unpackExponent b).toNat ≠ 0) (h : 0 < (1#1 ++ unpackMantissa b).toNat) :
    pack .binary64 (.finite (.ofBitVec (unpackSign b)) (1#1 ++ unpackMantissa b).toNat
      ((unpackExponent b).toNat - 1075) h) = b := by
  have hlt : (unpackMantissa b).toNat < 2 ^ 52 := (unpackMantissa b).isLt
  have hexp : (unpackExponent b).toNat < 2 ^ 11 := (unpackExponent b).isLt
  have hfull : (1#1 ++ unpackMantissa b).toNat = 2 ^ 52 + (unpackMantissa b).toNat := by
    have hor := Nat.two_pow_add_eq_or_of_lt hlt 1
    rw [Nat.mul_one] at hor
    rw [BitVec.toNat_append, hor]
    rfl
  have hlog : (1#1 ++ unpackMantissa b).toNat.log2 + 1 = Format.binary64.mantissaBits := by
    have hge : 52 ≤ (1#1 ++ unpackMantissa b).toNat.log2 := by
      rw [Nat.le_log2 (by omega)]
      omega
    have hle : ¬ 53 ≤ (1#1 ++ unpackMantissa b).toNat.log2 := by
      rw [Nat.le_log2 (by omega)]
      omega
    have h53 : Format.binary64.mantissaBits = 53 := rfl
    omega
  have hbiased : (((unpackExponent b).toNat : Int) - 1075 + (Format.binary64.exponentBias : Nat) +
      (Format.binary64.mantissaBitsWithoutImplicit : Nat)).toNat = (unpackExponent b).toNat := by
    have hbias : ((Format.binary64.exponentBias : Nat) : Int) = 1023 := rfl
    have hplaces : ((Format.binary64.mantissaBitsWithoutImplicit : Nat) : Int) = 52 := rfl
    omega
  rw [pack]
  simp only [hbiased]
  rw [if_neg (by simp only [Format.binary64]; omega), if_pos hlog]
  refine packComponents_parts ?_ ?_
  · rw [BitVec.ofNat_toNat, BitVec.setWidth_eq]
  · rw [← BitVec.toNat_inj, BitVec.toNat_ofNat, hfull,
      show (2 : Nat) ^ Format.binary64.mantissaBitsWithoutImplicit = 2 ^ 52 from rfl]
    omega

private theorem pack_unpack {b : Word} (h : b.toNat / 2 ^ 52 % 2048 ≠ 2047) :
    pack .binary64 (unpack .binary64 b) = b := by
  rw [← toNat_unpackExponent] at h
  have hne : unpackExponent b ≠ -1#11 := by
    intro heq
    rw [heq] at h
    exact h rfl
  rw [unpack]
  simp only [if_neg hne]
  by_cases hzero : unpackExponent b = 0#11
  · rw [if_pos hzero]
    by_cases hmant : unpackMantissa b = 0#52
    · rw [dif_pos hmant]
      exact packComponents_parts hzero hmant
    · rw [dif_neg hmant]
      simp only [hzero]
      exact pack_subnormal hzero _
  · rw [if_neg hzero]
    exact pack_normal h (fun heq => hzero (BitVec.toNat_inj.1 (by simpa using heq))) _

private theorem toBits_ofBits {u : UInt64} (h : u.toNat / 2 ^ 52 % 2048 ≠ 2047) :
    (Float.ofBits u).toBits = u := by
  have hpack : pack .binary64 (unpack .binary64 u.toBitVec) = u.toBitVec := pack_unpack h
  show UInt64.ofBitVec (pack .binary64 (unpack .binary64 u.toBitVec)) = u
  rw [hpack]

private theorem toBits_injective : Function.Injective Float.toBits := by
  rintro ⟨⟨a, ha⟩⟩ ⟨⟨b, hb⟩⟩ (rfl : a = b)
  rfl

private theorem toBits_ofMagnitude {bits : Nat} (h : bits < 2047 * 2 ^ 52) :
    (ofMagnitude false bits).toBits = bits.toUInt64 := by
  have hword : bits.toUInt64.toNat = bits := by
    rw [Nat.toUInt64_eq, UInt64.toNat_ofNat']
    omega
  apply toBits_ofBits
  rw [if_neg (by decide), Nat.add_zero, hword]
  omega

theorem shape_ofMagnitude {bits : Nat} (h : bits < 2047 * 2 ^ 52) :
    ∃ m q, shape (ofMagnitude false bits) = .finite false m q := by
  have hword : bits.toUInt64.toNat = bits := by
    rw [Nat.toUInt64_eq, UInt64.toNat_ofNat']
    omega
  have hsign : (bits / 2 ^ 63 == 1) = false := by
    rw [beq_eq_false_iff_ne]
    omega
  have hexp : bits / 2 ^ 52 % 2048 ≠ 2047 := by omega
  unfold shape
  simp only [toBits_ofMagnitude h, hword, Nat.pow_eq, hsign, if_neg hexp]
  split <;> exact ⟨_, _, rfl⟩

theorem shape_eq_finite {x : Float} {m : Nat} {q : Int} (h : shape x = .finite false m q) :
    IsBinary m q ∧ x = ofMagnitude false (m + (q + 1074).toNat * 2 ^ 52) := by
  have hbits : x.toBits.toNat < 2 ^ 64 := x.toBits.toNat_lt
  unfold shape at h
  simp only [Nat.pow_eq] at h
  generalize hb : x.toBits.toNat = bits at h hbits
  suffices IsBinary m q ∧ bits = m + (q + 1074).toNat * 2 ^ 52 by
    refine ⟨this.1, toBits_injective ?_⟩
    rw [toBits_ofMagnitude this.1.finite, ← this.2, ← hb]
    simp
  by_cases hexp : bits / 2 ^ 52 % 2048 = 2047
  · rw [if_pos hexp] at h
    split at h <;> cases h
  · rw [if_neg hexp] at h
    by_cases hzero : bits / 2 ^ 52 % 2048 = 0
    · rw [if_pos hzero] at h
      simp only [Shape.finite.injEq, beq_eq_false_iff_ne] at h
      obtain ⟨hsign, rfl, rfl⟩ := h
      have hplace : (-1074 + 1074 : Int).toNat * 2 ^ 52 = 0 := rfl
      refine ⟨⟨?_, Int.le_refl _, fun hne => absurd rfl hne, ?_⟩, ?_⟩
      · omega
      · rw [hplace]
        omega
      · rw [hplace]
        omega
    · rw [if_neg hzero] at h
      simp only [Shape.finite.injEq, beq_eq_false_iff_ne] at h
      obtain ⟨hsign, rfl, rfl⟩ := h
      have hplace : ((bits / 2 ^ 52 % 2048 : Nat) - 1075 + 1074 : Int).toNat =
          bits / 2 ^ 52 % 2048 - 1 := by omega
      refine ⟨⟨?_, ?_, ?_, ?_⟩, ?_⟩
      · omega
      · omega
      · omega
      · rw [hplace]
        omega
      · rw [hplace]
        omega

end Lox.Decimal

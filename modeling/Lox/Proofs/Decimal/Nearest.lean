import Lox.Decimal.Binary
import Mathlib.Algebra.Order.Archimedean.Basic
import Mathlib.Algebra.Order.Field.Power
import Mathlib.Algebra.Order.Field.Rat
import Mathlib.Data.Nat.Log
import Mathlib.Data.Rat.Cast.Defs
import Mathlib.Tactic.FieldSimp
import Mathlib.Tactic.Linarith
import Mathlib.Tactic.NormNum
import Mathlib.Tactic.Positivity
import Mathlib.Tactic.Ring

set_option autoImplicit false
set_option relaxedAutoImplicit false

namespace Lox.Decimal

theorem scaleUp_div {b : Nat} (hb : b ≠ 0) (e : Int) :
    (scaleUp b e : ℚ) / scaleUp b (-e) = (b : ℚ) ^ e := by
  have hb' : (b : ℚ) ≠ 0 := Nat.cast_ne_zero.2 hb
  have hpow : ∀ n : Nat, ((Nat.pow b n : Nat) : ℚ) = (b : ℚ) ^ n := fun n => Nat.cast_pow b n
  unfold scaleUp
  rw [hpow, hpow]
  rcases Int.le_total 0 e with h | h
  · have hneg : (-e).toNat = 0 := by omega
    rw [hneg, pow_zero, div_one, ← zpow_natCast, Int.toNat_of_nonneg h]
  · have hpos : e.toNat = 0 := by omega
    rw [hpos, pow_zero, one_div, ← zpow_natCast, Int.toNat_of_nonneg (by omega), zpow_neg, inv_inv]

theorem scaleUp_pos {b : Nat} (hb : 0 < b) (e : Int) : 0 < scaleUp b e := Nat.pow_pos hb

/-- A fraction whose nearest natural number is `m`, of two equally near ones the even one. -/
def Near (w : ℚ) (m : Nat) : Prop := |w - m| < 1 / 2 ∨ |w - m| = 1 / 2 ∧ m % 2 = 0

theorem Near.distance_le {w : ℚ} {m : Nat} (h : Near w m) : |w - m| ≤ 1 / 2 := by
  rcases h with h | h
  · exact h.le
  · exact h.1.le

private theorem Near.of_distance_le {w : ℚ} {m : Nat} (h : |w - m| ≤ 1 / 2) (heven : m % 2 = 0) :
    Near w m := by
  rcases h.lt_or_eq with hlt | heq
  · exact .inl hlt
  · exact .inr ⟨heq, heven⟩

/-- Two natural numbers are equally near only half-way between them, and one of them is odd. -/
theorem Near.unique {w : ℚ} {m n : Nat} (hm : Near w m) (hn : Near w n) : m = n := by
  wlog hlt : m < n generalizing m n
  · rcases Nat.lt_or_eq_of_le (Nat.not_lt.1 hlt) with hlt' | heq
    · exact (this hn hm hlt').symm
    · exact heq.symm
  obtain ⟨-, hm1⟩ := abs_le.1 hm.distance_le
  obtain ⟨hn0, -⟩ := abs_le.1 hn.distance_le
  have hnext : n = m + 1 := by
    have h : (n : ℚ) ≤ m + 1 := by linarith
    have h' : n ≤ m + 1 := by exact_mod_cast h
    omega
  subst hnext
  push_cast at hn0
  have hw : w = m + 1 / 2 := by linarith
  subst hw
  rcases hm with hm | ⟨-, hm⟩
  · rw [add_sub_cancel_left, abs_of_nonneg (by norm_num)] at hm
    exact absurd hm (lt_irrefl _)
  · rcases hn with hn | ⟨-, hn⟩
    · rw [abs_of_nonpos (by push_cast; linarith)] at hn
      push_cast at hn
      linarith
    · omega

theorem roundDiv_near (num : Nat) {den : Nat} (hden : 0 < den) :
    Near ((num : ℚ) / den) (roundDiv num den) := by
  have hpos : (0 : ℚ) < den := Nat.cast_pos.2 hden
  have hsplit : den * (num / den) + num % den = num := Nat.div_add_mod num den
  have hrem : num % den < den := Nat.mod_lt num hden
  unfold roundDiv
  dsimp only
  generalize num / den = d at hsplit ⊢
  generalize num % den = r at hsplit hrem ⊢
  have hnum : (num : ℚ) / den = d + r / den := by
    rw [← hsplit]
    push_cast
    field_simp
  rw [hnum]
  have hr0 : (0 : ℚ) ≤ r / den := by positivity
  have hr1 : (r : ℚ) / den ≤ 1 := by
    rw [div_le_one hpos]
    exact_mod_cast hrem.le
  have hdown : |(d : ℚ) + r / den - d| = r / den := by
    rw [add_sub_cancel_left, abs_of_nonneg hr0]
  have hup : |(d : ℚ) + r / den - (d + 1 : Nat)| = 1 - r / den := by
    push_cast
    rw [abs_of_nonpos (by linarith)]
    ring
  rcases Nat.lt_trichotomy (2 * r) den with hlt | heq | hgt
  · have hlt' : (r : ℚ) / den < 1 / 2 := by
      rw [div_lt_div_iff₀ hpos (by norm_num)]
      exact_mod_cast (by omega : r * 2 < 1 * den)
    rw [if_pos hlt]
    exact .inl (by rwa [hdown])
  · have heq' : (r : ℚ) / den = 1 / 2 := by
      rw [div_eq_div_iff hpos.ne' (by norm_num)]
      exact_mod_cast (by omega : r * 2 = 1 * den)
    rw [if_neg (by omega), if_neg (by omega)]
    rcases Nat.mod_two_eq_zero_or_one d with heven | hodd
    · rw [heven]
      exact .inr ⟨by rw [Nat.add_zero, hdown, heq'], by omega⟩
    · rw [hodd]
      exact .inr ⟨by rw [hup, heq']; norm_num, by omega⟩
  · have hgt' : (1 : ℚ) / 2 < r / den := by
      rw [div_lt_div_iff₀ (by norm_num) hpos]
      exact_mod_cast (by omega : 1 * den < r * 2)
    rw [if_neg (by omega), if_pos hgt]
    exact .inl (by rw [hup]; linarith)

private theorem roundDiv_eq {num den m : Nat} (hden : 0 < den) (h : Near ((num : ℚ) / den) m) :
    roundDiv num den = m :=
  (roundDiv_near num hden).unique h

private theorem scaled_div (num : Nat) {den : Nat} (hden : 0 < den) (q : Int) :
    ((num * scaleUp 2 (-q) : Nat) : ℚ) / (den * scaleUp 2 q : Nat) = num / den / 2 ^ q := by
  have hden' : (den : ℚ) ≠ 0 := by positivity
  have h2 : (scaleUp 2 q : ℚ) ≠ 0 := by exact_mod_cast (scaleUp_pos (by decide) q).ne'
  have hscale := scaleUp_div (b := 2) (by decide) (-q)
  rw [neg_neg] at hscale
  push_cast at hscale ⊢
  rw [mul_div_mul_comm, hscale, zpow_neg, div_eq_mul_inv ((num : ℚ) / den)]

private theorem two_zpow_lt {a b : Int} : (2 : ℚ) ^ a < 2 ^ b ↔ a < b :=
  zpow_lt_zpow_iff_right₀ (by norm_num)

private theorem div_bounds {num den : Nat} (hnum : 0 < num) (hden : 0 < den) :
    (2 : ℚ) ^ ((num.log2 : Int) - den.log2 - 1) < num / den ∧
      (num : ℚ) / den < 2 ^ ((num.log2 : Int) - den.log2 + 1) := by
  have hbelow : ∀ n : Nat, 0 < n → (2 : ℚ) ^ (n.log2 : Int) ≤ n := by
    intro n hn
    rw [zpow_natCast]
    exact_mod_cast Nat.log2_self_le hn.ne'
  have habove : ∀ n : Nat, (n : ℚ) < 2 ^ ((n.log2 : Int) + 1) := by
    intro n
    have hlt : n < 2 ^ (n.log2 + 1) := Nat.lt_log2_self
    exact_mod_cast hlt
  have hpos : (0 : ℚ) < den := Nat.cast_pos.2 hden
  constructor
  · rw [lt_div_iff₀ hpos]
    calc (2 : ℚ) ^ ((num.log2 : Int) - den.log2 - 1) * den
        < 2 ^ ((num.log2 : Int) - den.log2 - 1) * 2 ^ ((den.log2 : Int) + 1) :=
          mul_lt_mul_of_pos_left (habove den) (by positivity)
      _ = 2 ^ (num.log2 : Int) := by
          rw [← zpow_add₀ (by norm_num)]
          congr 1
          omega
      _ ≤ num := hbelow num hnum
  · rw [div_lt_iff₀ hpos]
    calc (num : ℚ) < 2 ^ ((num.log2 : Int) + 1) := habove num
      _ = 2 ^ ((num.log2 : Int) - den.log2 + 1) * 2 ^ (den.log2 : Int) := by
          rw [← zpow_add₀ (by norm_num)]
          congr 1
          omega
      _ ≤ 2 ^ ((num.log2 : Int) - den.log2 + 1) * den :=
          mul_le_mul_of_nonneg_left (hbelow den hden) (by positivity)

private theorem exponentFor_eq {num den : Nat} (hnum : 0 < num) (hden : 0 < den) {q : Int}
    (hlow : (2 : ℚ) ^ (q + 52) ≤ num / den) (hhigh : (num : ℚ) / den < 2 ^ (q + 53)) :
    exponentFor num den = max q (-1074) := by
  obtain ⟨hbelow, habove⟩ := div_bounds hnum hden
  unfold exponentFor
  dsimp only
  generalize hguess : (num.log2 : Int) - den.log2 - 53 = g
  have hge : g ≤ q := by
    have := two_zpow_lt.1 (hbelow.trans hhigh)
    omega
  have hle : q ≤ g + 1 := by
    have := two_zpow_lt.1 (hlow.trans_lt habove)
    omega
  have hfits : num * scaleUp 2 (-g) / (den * scaleUp 2 g) < Nat.pow 2 53 ↔
      (num : ℚ) / den < 2 ^ (g + 53) := by
    have hpos : 0 < den * scaleUp 2 g := Nat.mul_pos hden (scaleUp_pos (by decide) g)
    have hposQ : (0 : ℚ) < (den * scaleUp 2 g : Nat) := Nat.cast_pos.2 hpos
    have hzpow : (2 : ℚ) ^ (g + 53) = 2 ^ 53 * 2 ^ g := by
      rw [zpow_add₀ (by norm_num), mul_comm]
      rfl
    rw [Nat.div_lt_iff_lt_mul hpos, hzpow, ← div_lt_iff₀ (by positivity), ← scaled_div num hden g,
      div_lt_iff₀ hposQ]
    norm_cast
  by_cases hlt : (num : ℚ) / den < 2 ^ (g + 53)
  · have := two_zpow_lt.1 (hlow.trans_lt hlt)
    rw [if_pos (hfits.2 hlt)]
    congr 1
    omega
  · have := two_zpow_lt.1 ((not_lt.1 hlt).trans_lt hhigh)
    rw [if_neg fun h => hlt (hfits.1 h)]
    congr 1
    omega

private theorem exponentFor_least {num den : Nat} (hnum : 0 < num) (hden : 0 < den)
    (hhigh : (num : ℚ) / den < 2 ^ (-1074 + 53 : Int)) : exponentFor num den = -1074 := by
  have hpos : (0 : ℚ) < num / den := by positivity
  obtain ⟨n, hlow, hnext⟩ := exists_mem_Ico_zpow hpos (one_lt_two (α := ℚ))
  have hn := two_zpow_lt.1 (hlow.trans_lt hhigh)
  have hq : n = n - 52 + 52 := by omega
  have hq' : n + 1 = n - 52 + 53 := by omega
  rw [exponentFor_eq hnum hden (hq ▸ hlow) (hq' ▸ hnext)]
  omega

structure IsBinary (m : Nat) (q : Int) : Prop where
  mantissa_lt : m < 2 ^ 53
  exponent_ge : -1074 ≤ q
  normal : q ≠ -1074 → 2 ^ 52 ≤ m
  finite : m + (q + 1074).toNat * 2 ^ 52 < 2047 * 2 ^ 52

/-- How far the middle to the lower neighbour of m · 2^q lies below it, in units of 2^q. Below a
power of two the numbers lie closer together. -/
def marginBelow (m : Nat) (q : Int) : ℚ := if m = 2 ^ 52 ∧ q ≠ -1074 then 1 / 4 else 1 / 2

def RoundsTo (w : ℚ) (m : Nat) (q : Int) : Prop :=
  ((m - marginBelow m q) * 2 ^ q ≤ w ∧ w ≤ (m + 1 / 2) * 2 ^ q ∧ m % 2 = 0) ∨
    ((m - marginBelow m q) * 2 ^ q < w ∧ w < (m + 1 / 2) * 2 ^ q)

theorem RoundsTo.le {w : ℚ} {m : Nat} {q : Int} (h : RoundsTo w m q) :
    (m - marginBelow m q) * 2 ^ q ≤ w ∧ w ≤ (m + 1 / 2) * 2 ^ q := by
  rcases h with h | h
  · exact ⟨h.1, h.2.1⟩
  · exact ⟨h.1.le, h.2.le⟩

theorem marginBelow_le (m : Nat) (q : Int) : marginBelow m q ≤ 1 / 2 := by
  unfold marginBelow
  split <;> norm_num

private theorem RoundsTo.near {w : ℚ} {m : Nat} {q : Int} (h : RoundsTo w m q) :
    Near (w / 2 ^ q) m := by
  have hpos : (0 : ℚ) < 2 ^ q := by positivity
  have hmargin := marginBelow_le m q
  rcases h with ⟨hlow, hhigh, heven⟩ | ⟨hlow, hhigh⟩
  · rw [← le_div_iff₀ hpos] at hlow
    rw [← div_le_iff₀ hpos] at hhigh
    exact .of_distance_le (abs_le.2 ⟨by linarith, by linarith⟩) heven
  · rw [← lt_div_iff₀ hpos] at hlow
    rw [← div_lt_iff₀ hpos] at hhigh
    exact .inl (abs_lt.2 ⟨by linarith, by linarith⟩)

private theorem encode_eq {m : Nat} {q : Int} {bits : Nat}
    (hbits : m + (q + 1074).toNat * 2 ^ 52 = bits)
    (hfinite : bits < 2047 * 2 ^ 52) : encode m q = some bits := by
  unfold encode
  dsimp only
  rw [if_pos (hbits ▸ hfinite)]
  exact congrArg some hbits

private theorem nearestBits?_eq_encode {num den n : Nat} {e : Int} (hnum : 0 < num) (hden : 0 < den)
    (hexponent : exponentFor num den = e) (hnear : Near ((num : ℚ) / den / 2 ^ e) n) :
    nearestBits? num den = encode n e := by
  have hround : roundDiv (num * scaleUp 2 (-e)) (den * scaleUp 2 e) = n := by
    apply roundDiv_eq (Nat.mul_pos hden (scaleUp_pos (by decide) e))
    rw [scaled_div num hden e]
    exact hnear
  unfold nearestBits?
  rw [if_neg hnum.ne']
  dsimp only
  rw [hexponent, hround]

private theorem two_zpow_add (e : Int) (n : Nat) : (2 : ℚ) ^ (e + n) = 2 ^ n * 2 ^ e := by
  rw [zpow_add₀ (by norm_num), zpow_natCast, mul_comm]

namespace RoundsTo

variable {w : ℚ} {m : Nat} {q : Int}

private theorem lt_two_zpow (h : RoundsTo w m q) (hm : IsBinary m q) : w < 2 ^ (q + 53) := by
  have hmantissa : (m : ℚ) + 1 ≤ 2 ^ 53 := by
    have := hm.mantissa_lt
    exact_mod_cast (by omega : m + 1 ≤ 2 ^ 53)
  calc w ≤ (m + 1 / 2) * 2 ^ q := h.le.2
    _ < 2 ^ 53 * 2 ^ q := mul_lt_mul_of_pos_right (by linarith) (by positivity)
    _ = 2 ^ (q + 53) := (two_zpow_add q 53).symm

private theorem mantissa_eq (h : RoundsTo w m q) (hm : IsBinary m q) (hleast : q ≠ -1074)
    (hbelow : w < 2 ^ 52 * 2 ^ q) : m = 2 ^ 52 := by
  have hle := h.le.1.trans_lt hbelow
  rw [mul_lt_mul_iff_left₀ (by positivity)] at hle
  have hmargin := marginBelow_le m q
  have hlt : (m : ℚ) < 2 ^ 52 + 1 := by linarith
  have hlt' : m < 2 ^ 52 + 1 := by exact_mod_cast hlt
  have := hm.normal hleast
  omega

/-- Below a power of two a fraction has one exponent less, and its mantissa is nearest to 2^53. -/
theorem below_power (h : RoundsTo w (2 ^ 52) q) (hleast : q ≠ -1074) (hbelow : w < 2 ^ 52 * 2 ^ q) :
    2 ^ (q - 1 + 52) ≤ w ∧ w < 2 ^ (q - 1 + 53) ∧ Near (w / 2 ^ (q - 1)) (2 ^ 53) := by
  have hquarter : (2 ^ 52 - 1 / 4) * 2 ^ q ≤ w := by
    have hle := h.le.1
    rw [marginBelow, if_pos ⟨rfl, hleast⟩] at hle
    exact_mod_cast hle
  have hhalf : (2 : ℚ) ^ q = 2 * 2 ^ (q - 1) := by
    rw [← zpow_one_add₀ (by norm_num)]
    congr 1
    omega
  have hpos : (0 : ℚ) < 2 ^ (q - 1) := by positivity
  rw [hhalf] at hquarter hbelow
  refine ⟨?_, ?_, ?_⟩
  · calc (2 : ℚ) ^ (q - 1 + 52) = 2 ^ 52 * 2 ^ (q - 1) := two_zpow_add (q - 1) 52
      _ ≤ (2 ^ 52 - 1 / 4) * (2 * 2 ^ (q - 1)) := by linarith
      _ ≤ w := hquarter
  · calc w < 2 ^ 52 * (2 * 2 ^ (q - 1)) := hbelow
      _ = 2 ^ 53 * 2 ^ (q - 1) := by ring
      _ = 2 ^ (q - 1 + 53) := (two_zpow_add (q - 1) 53).symm
  · have hlow : (2 : ℚ) ^ 53 - 1 / 2 ≤ w / 2 ^ (q - 1) := by
      rw [le_div_iff₀ hpos]
      linarith
    have hup : w / 2 ^ (q - 1) < 2 ^ 53 := by
      rw [div_lt_iff₀ hpos]
      linarith
    refine .of_distance_le ?_ (by norm_num)
    push_cast
    exact abs_le.2 ⟨by linarith, by linarith⟩

end RoundsTo

theorem nearestBits?_eq {num den m : Nat} {q : Int} (hnum : 0 < num) (hden : 0 < den)
    (hm : IsBinary m q) (h : RoundsTo ((num : ℚ) / den) m q) :
    nearestBits? num den = some (m + (q + 1074).toNat * 2 ^ 52) := by
  have hge := hm.exponent_ge
  have hhigh := h.lt_two_zpow hm
  by_cases hsame : (2 : ℚ) ^ (q + 52) ≤ num / den ∨ q = -1074
  · -- The fraction has the exponent of the number.
    have hq : exponentFor num den = q := by
      rcases hsame with hlow | rfl
      · rw [exponentFor_eq hnum hden hlow hhigh]
        omega
      · exact exponentFor_least hnum hden hhigh
    rw [nearestBits?_eq_encode hnum hden hq h.near]
    exact encode_eq rfl hm.finite
  · -- The fraction lies below a power of two, and is rounded to it.
    obtain ⟨hbelow, hleast⟩ := not_or.1 hsame
    rw [not_le, show q + 52 = q + (52 : Nat) from rfl, two_zpow_add] at hbelow
    obtain rfl := h.mantissa_eq hm hleast hbelow
    obtain ⟨hlow', hhigh', hnear⟩ := h.below_power hleast hbelow
    have hq : exponentFor num den = q - 1 := by
      rw [exponentFor_eq hnum hden hlow' hhigh']
      omega
    rw [nearestBits?_eq_encode hnum hden hq hnear]
    refine encode_eq ?_ hm.finite
    omega

end Lox.Decimal

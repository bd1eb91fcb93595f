import Lox.Decimal.Shortest
import Lox.Proofs.Decimal.Nearest
import Mathlib.Data.List.TakeWhile

set_option autoImplicit false
set_option relaxedAutoImplicit false

namespace Lox.Decimal

/-! ### The value of digits -/

def number (ds : List Nat) : Nat := ds.foldl (fun n d => n * 10 + d) 0

private theorem foldl_digits (n : Nat) (ds : List Nat) :
    ds.foldl (fun n d => n * 10 + d) n = n * 10 ^ ds.length + number ds := by
  induction ds generalizing n with
  | nil => simp [number]
  | cons d ds ih =>
    have hrest := ih d
    simp only [number, List.foldl_cons, List.length_cons, Nat.zero_mul, Nat.zero_add] at hrest ⊢
    rw [ih, hrest]
    simp only [number]
    ring

theorem number_append (ds es : List Nat) :
    number (ds ++ es) = number ds * 10 ^ es.length + number es := by
  rw [number, List.foldl_append, foldl_digits]
  rfl

theorem number_replicate_zero (n : Nat) : number (List.replicate n 0) = 0 := by
  induction n with
  | zero => rfl
  | succ n ih =>
    rw [List.replicate_succ', number_append, ih]
    rfl

def Digits.value (d : Digits) : ℚ := number d.digits * 10 ^ (d.point - d.digits.length)

theorem number_toDigits (c : Nat) :
    number ((Nat.toDigits 10 c).map fun d => d.toNat - 48) = c := by
  have hfold := Nat.ofDigitChars_ten_toDigits (n := c)
  rw [Nat.ofDigitChars_eq_foldl] at hfold
  simp only [Nat.mul_comm 10] at hfold
  rw [number, List.foldl_map]
  exact hfold

private theorem lt_ten_of_mem_toDigits {c d : Nat}
    (h : d ∈ (Nat.toDigits 10 c).map fun d => d.toNat - 48) : d < 10 := by
  obtain ⟨ch, hch, rfl⟩ := List.mem_map.1 h
  have hdigit := Nat.isDigit_of_mem_toDigits (b := 10) (by decide) (by decide) hch
  rw [Char.isDigit, Bool.and_eq_true, decide_eq_true_eq, decide_eq_true_eq, ge_iff_le,
    UInt32.le_iff_toNat_le, UInt32.le_iff_toNat_le] at hdigit
  have hnine : ch.toNat ≤ 57 := hdigit.2
  omega

private theorem eq_append_replicate (ds : List Nat) :
    ∃ n, ds = (ds.reverse.dropWhile (· == 0)).reverse ++ List.replicate n 0 := by
  refine ⟨(ds.reverse.takeWhile (· == 0)).length, ?_⟩
  have hzeros : ∀ d ∈ ds.reverse.takeWhile (· == 0), d = 0 := by
    intro d hd
    simpa using List.mem_takeWhile_imp hd
  have hsplit := List.takeWhile_append_dropWhile (p := (· == 0)) (l := ds.reverse)
  rw [List.eq_replicate_of_mem hzeros] at hsplit
  have hreverse := congrArg List.reverse hsplit
  rw [List.reverse_append, List.reverse_replicate, List.reverse_reverse] at hreverse
  exact hreverse.symm

private theorem Digits.value_ofScaled (c : Nat) (k : Int) :
    (Digits.ofScaled c k).value = c * 10 ^ k := by
  unfold Digits.ofScaled Digits.value
  dsimp only
  have hnumber := number_toDigits c
  generalize (Nat.toDigits 10 c).map (fun d => d.toNat - 48) = ds at hnumber ⊢
  obtain ⟨n, hsplit⟩ := eq_append_replicate ds
  generalize (ds.reverse.dropWhile (· == 0)).reverse = kept at hsplit ⊢
  subst hsplit
  rw [number_append, number_replicate_zero, List.length_replicate, Nat.add_zero] at hnumber
  rw [← hnumber, List.length_append, List.length_replicate]
  push_cast
  rw [mul_assoc, ← zpow_natCast, ← zpow_add₀ (by norm_num)]
  congr 2
  ring

private theorem Digits.lt_ten_of_mem_ofScaled {c d : Nat} {k : Int}
    (h : d ∈ (Digits.ofScaled c k).digits) :
    d < 10 := by
  refine lt_ten_of_mem_toDigits (c := c) ?_
  exact List.mem_reverse.1 ((List.dropWhile_sublist _).subset (List.mem_reverse.1 h))

/-! ### The leading digit -/

theorem lt_pow_digitCount (n : Nat) : n < 10 ^ digitCount n :=
  (Nat.length_toDigits_le_iff (by decide) Nat.length_toDigits_pos).1 (Nat.le_refl _)

theorem pow_digitCount_le {n : Nat} (h : 0 < n) : 10 ^ (digitCount n - 1) ≤ n := by
  have hpos : 0 < digitCount n := Nat.length_toDigits_pos
  by_cases hone : digitCount n = 1
  · rw [hone]
    exact h
  · by_contra hlt
    have hle := (Nat.length_toDigits_le_iff (b := 10) (k := digitCount n - 1) (by decide)
      (by omega)).2 (Nat.not_le.1 hlt)
    have hle : digitCount n ≤ digitCount n - 1 := hle
    omega

private theorem pow_leadingExponent_le {num den : Nat} (hnum : 0 < num) (hden : 0 < den) :
    (10 : ℚ) ^ leadingExponent num den ≤ num / den := by
  have hposNum : (0 : ℚ) < num := Nat.cast_pos.2 hnum
  have hposDen : (0 : ℚ) < den := Nat.cast_pos.2 hden
  unfold leadingExponent
  split
  · rename_i hle
    have hpos : 0 < num / den := Nat.div_pos hle hden
    have hcount : 0 < digitCount (num / den) := Nat.length_toDigits_pos
    have hpow : 10 ^ (digitCount (num / den) - 1) * den ≤ num :=
      (Nat.le_div_iff_mul_le hden).1 (pow_digitCount_le hpos)
    rw [show ((digitCount (num / den) : Int) - 1) = (digitCount (num / den) - 1 : Nat) by omega,
      zpow_natCast, le_div_iff₀ hposDen]
    exact_mod_cast hpow
  · have hlt := lt_pow_digitCount ((den - 1) / num)
    rw [Nat.div_lt_iff_lt_mul hnum] at hlt
    have hle : den ≤ num * 10 ^ digitCount ((den - 1) / num) := by
      rw [Nat.mul_comm]
      omega
    rw [zpow_neg, zpow_natCast, inv_eq_one_div, div_le_div_iff₀ (by positivity) hposDen, one_mul]
    exact_mod_cast hle

/-! ### Hits -/

/-- The decimals of a grid in quarters of the binary unit: the two sides of the test for a hit. -/
theorem unit_eq (q k : Int) :
    ((scaleUp 10 k * scaleUp 2 (2 - q) : Nat) : ℚ) =
      4 * 10 ^ k / 2 ^ q * (scaleUp 10 (-k) * scaleUp 2 (q - 2) : Nat) := by
  have hten := scaleUp_div (b := 10) (by decide) k
  have htwo := scaleUp_div (b := 2) (by decide) (2 - q)
  rw [neg_sub] at htwo
  rw [div_eq_iff (by exact_mod_cast (scaleUp_pos (by decide) _).ne')] at hten htwo
  have hquarter : (2 : ℚ) ^ (2 - q) = 4 / 2 ^ q := by
    rw [zpow_sub₀ (by norm_num)]
    norm_num
  push_cast at hten htwo ⊢
  rw [hten, htwo, hquarter]
  ring

private theorem roomBelow_eq (m : Nat) (q : Int) : (roomBelow m q : ℚ) = 4 * marginBelow m q := by
  unfold roomBelow marginBelow
  simp only [Nat.pow_eq]
  split <;> norm_num

def Inside (m : Nat) (q : Int) (scale n : Nat) : Prop :=
  ((4 * m - roomBelow m q) * scale ≤ n ∧ n ≤ (4 * m + 2) * scale ∧ m % 2 = 0) ∨
    ((4 * m - roomBelow m q) * scale < n ∧ n < (4 * m + 2) * scale)

private theorem Inside.roundsTo {m c unit scale : Nat} {q k : Int} (hm : 0 < m) (hscale : 0 < scale)
    (hunit : (unit : ℚ) = 4 * 10 ^ k / 2 ^ q * scale) (h : Inside m q scale (c * unit)) :
    RoundsTo (c * 10 ^ k) m q := by
  have hpos : (0 : ℚ) < 2 ^ q := by positivity
  have hscale' : (0 : ℚ) < scale := Nat.cast_pos.2 hscale
  have hroom : roomBelow m q ≤ 4 * m := by
    unfold roomBelow
    split <;> omega
  have hlow : (((4 * m - roomBelow m q) * scale : Nat) : ℚ) =
      4 * (m - marginBelow m q) * scale := by
    push_cast [Nat.cast_sub hroom]
    rw [roomBelow_eq]
    ring
  have hhigh : (((4 * m + 2) * scale : Nat) : ℚ) = 4 * (m + 1 / 2) * scale := by
    push_cast
    ring
  have hvalue : ((c * unit : Nat) : ℚ) = 4 * (c * 10 ^ k / 2 ^ q) * scale := by
    push_cast
    rw [hunit]
    ring
  have hfour : ∀ a b : ℚ, (4 * a * scale ≤ 4 * b * scale ↔ a ≤ b) ∧
      (4 * a * scale < 4 * b * scale ↔ a < b) := by
    intro a b
    rw [mul_le_mul_iff_left₀ hscale', mul_lt_mul_iff_left₀ hscale',
      mul_le_mul_iff_right₀ (by norm_num), mul_lt_mul_iff_right₀ (by norm_num)]
    exact ⟨Iff.rfl, Iff.rfl⟩
  rcases h with ⟨hge, hle, heven⟩ | ⟨hgt, hlt⟩
  · refine .inl ⟨?_, ?_, heven⟩
    · rw [← Nat.cast_le (α := ℚ), hlow, hvalue, (hfour _ _).1] at hge
      rwa [← le_div_iff₀ hpos]
    · rw [← Nat.cast_le (α := ℚ), hhigh, hvalue, (hfour _ _).1] at hle
      rwa [← div_le_iff₀ hpos]
  · refine .inr ⟨?_, ?_⟩
    · rw [← Nat.cast_lt (α := ℚ), hlow, hvalue, (hfour _ _).2] at hgt
      rwa [← lt_div_iff₀ hpos]
    · rw [← Nat.cast_lt (α := ℚ), hhigh, hvalue, (hfour _ _).2] at hlt
      rwa [← div_lt_iff₀ hpos]

private theorem roundDiv_cases (num den : Nat) :
    roundDiv num den = num / den ∨ roundDiv num den = num / den + 1 := by
  unfold roundDiv
  dsimp only
  split
  · exact .inl rfl
  · split
    · exact .inr rfl
    · omega

private theorem hit?_roundsTo {m c : Nat} {q k : Int} (hm : 0 < m) (h : hit? m q k = some c) :
    RoundsTo (c * 10 ^ k) m q := by
  unfold hit? at h
  extract_lets unit scale value low high inside down up at h
  have hscale : 0 < scale := Nat.mul_pos (scaleUp_pos (by decide) _) (scaleUp_pos (by decide) _)
  have hinside : ∀ n, inside n = true → RoundsTo (n * 10 ^ k) m q := by
    intro n hn
    refine Inside.roundsTo hm hscale (unit_eq q k) ?_
    by_cases heven : m % 2 = 0
    · simp only [inside, if_pos heven, Bool.and_eq_true, decide_eq_true_eq] at hn
      exact .inl ⟨hn.1, hn.2, heven⟩
    · simp only [inside, if_neg heven, Bool.and_eq_true, decide_eq_true_eq] at hn
      exact .inr hn
  apply hinside
  -- Whichever neighbour is taken has passed the test.
  by_cases hdown : inside down = true
  · rw [if_pos hdown] at h
    by_cases hup : inside up = true
    · rw [if_pos hup, Option.some.injEq] at h
      subst h
      rcases roundDiv_cases value unit with heq | heq
      · rwa [heq]
      · rwa [heq]
    · rw [if_neg hup, Option.some.injEq] at h
      rwa [← h]
  · rw [if_neg hdown] at h
    by_cases hup : inside up = true
    · rw [if_pos hup, Option.some.injEq] at h
      rwa [← h]
    · rw [if_neg hup] at h
      cases h

/-! ### Seventeen digits -/

/-- The nearest decimal of seventeen digits lies closer to a number than the middle to a neighbour.
-/
theorem roundsTo_of_seventeen {m c : Nat} {q k : Int} (hm : IsBinary m q)
    (hlead : (10 : ℚ) ^ (k + 16) ≤ m * 2 ^ q) (hnear : |(m : ℚ) * 2 ^ q / 10 ^ k - c| ≤ 1 / 2) :
    RoundsTo (c * 10 ^ k) m q := by
  have hpos : (0 : ℚ) < 2 ^ q := by positivity
  have hten : (0 : ℚ) < 10 ^ k := by positivity
  have hgrid : (10 : ℚ) ^ k * 10 ^ 16 ≤ m * 2 ^ q := by
    rw [← zpow_natCast, ← zpow_add₀ (by norm_num)]
    exact hlead
  have hm53 : (m : ℚ) < 2 ^ 53 := by exact_mod_cast hm.mantissa_lt
  obtain ⟨hlow, hhigh⟩ := abs_le.1 hnear
  have hvalue : (m : ℚ) * 2 ^ q / 10 ^ k * 10 ^ k = m * 2 ^ q := div_mul_cancel₀ _ hten.ne'
  have hbelow : (m : ℚ) * 2 ^ q - 1 / 2 * 10 ^ k ≤ c * 10 ^ k := by
    have hscaled := mul_le_mul_of_nonneg_right hhigh hten.le
    rw [sub_mul, hvalue] at hscaled
    linarith
  have habove : (c : ℚ) * 10 ^ k ≤ m * 2 ^ q + 1 / 2 * 10 ^ k := by
    have hscaled := mul_le_mul_of_nonneg_right hlow hten.le
    rw [sub_mul, hvalue] at hscaled
    linarith
  -- Half a unit of the grid is less than a quarter of 2^q at a power of two, and than a half
  -- elsewhere.
  have hhalf : 1 / 2 * (10 : ℚ) ^ k < 1 / 2 * 2 ^ q := by
    have hmantissa := mul_lt_mul_of_pos_right hm53 hpos
    linarith
  refine .inr ⟨?_, by linarith⟩
  unfold marginBelow
  split
  · rename_i hpower
    have hquarter : 1 / 2 * (10 : ℚ) ^ k < 1 / 4 * 2 ^ q := by
      rw [hpower.1] at hgrid
      push_cast at hgrid
      linarith
    linarith
  · linarith

private theorem search_roundsTo {m : Nat} {q lead : Int} (hpos : 0 < m) (hm : IsBinary m q)
    (hlead : (10 : ℚ) ^ lead ≤ m * 2 ^ q) (count n : Nat) (hn : n + count = 17) :
    ∃ (c : Nat) (k : Int), search m q lead count n = .ofScaled c k ∧ RoundsTo (c * 10 ^ k) m q := by
  induction count generalizing n with
  | zero =>
    refine ⟨_, _, rfl, roundsTo_of_seventeen hm ?_ ?_⟩
    · have hk : lead - n + 1 + 16 = lead := by omega
      rwa [hk]
    · generalize lead - n + 1 = k
      have hden : 0 < scaleUp 2 (-q) * scaleUp 10 k :=
        Nat.mul_pos (scaleUp_pos (by decide) _) (scaleUp_pos (by decide) _)
      have hnear := (roundDiv_near (m * scaleUp 2 q * scaleUp 10 (-k)) hden).distance_le
      have hquotient : ((m * scaleUp 2 q * scaleUp 10 (-k) : Nat) : ℚ) /
          (scaleUp 2 (-q) * scaleUp 10 k : Nat) = m * 2 ^ q / 10 ^ k := by
        have hten := scaleUp_div (b := 10) (by decide) (-k)
        have htwo := scaleUp_div (b := 2) (by decide) q
        rw [neg_neg] at hten
        push_cast at hten htwo ⊢
        rw [mul_div_mul_comm, hten, mul_div_assoc, htwo, zpow_neg, ← div_eq_mul_inv]
      rwa [hquotient] at hnear
  | succ count ih =>
    unfold search
    dsimp only
    split
    · rename_i c hc
      exact ⟨c, _, rfl, hit?_roundsTo hpos hc⟩
    · exact ih (n + 1) (by omega)

theorem shortest_roundsTo {m : Nat} {q : Int} (hpos : 0 < m) (hm : IsBinary m q) :
    RoundsTo (shortest m q).value m q ∧ ∀ d ∈ (shortest m q).digits, d < 10 := by
  have hnum : 0 < m * scaleUp 2 q := Nat.mul_pos hpos (scaleUp_pos (by decide) q)
  have hden : 0 < scaleUp 2 (-q) := scaleUp_pos (by decide) _
  have hlead := pow_leadingExponent_le hnum hden
  have hvalue : ((m * scaleUp 2 q : Nat) : ℚ) / scaleUp 2 (-q) = m * 2 ^ q := by
    have htwo := scaleUp_div (b := 2) (by decide) q
    push_cast at htwo ⊢
    rw [mul_div_assoc, htwo]
  rw [hvalue] at hlead
  obtain ⟨c, k, hsearch, hrounds⟩ := search_roundsTo hpos hm hlead 16 1 rfl
  unfold shortest
  rw [if_neg hpos.ne', hsearch, Digits.value_ofScaled]
  exact ⟨hrounds, fun d hd => Digits.lt_ten_of_mem_ofScaled hd⟩

end Lox.Decimal

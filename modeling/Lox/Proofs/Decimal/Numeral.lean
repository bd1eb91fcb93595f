import Lox.Decimal.Layout
import Lox.Decimal.Reader
import Lox.Proofs.Decimal.Bits
import Lox.Proofs.Decimal.Shortest
import Lox.Proofs.Lexeme

set_option autoImplicit false
set_option relaxedAutoImplicit false

namespace Lox.Decimal

open Text (lit)
open Token (IsLexeme)

def AreDigits (ds : List Nat) : Prop := ∀ d ∈ ds, d < 10

private theorem AreDigits.nil : AreDigits [] := nofun

def plain (whole frac : List Nat) : Text :=
  written whole ++ if frac = [] then [] else Byte.dot :: written frac

/-! ### Digits as bytes -/

structure IsDigitByte (b : UInt8) (d : Nat) : Prop where
  lt_ten : d < 10
  toNat_eq : b.toNat = d + 48

private theorem isDigitByte {d : Nat} (h : d < 10) : IsDigitByte (d + 48).toUInt8 d := by
  refine ⟨h, ?_⟩
  rw [Nat.toUInt8_eq, UInt8.toNat_ofNat']
  omega

namespace IsDigitByte

variable {b : UInt8} {d : Nat} (h : IsDigitByte b d)

include h

private theorem isDigit : Byte.isDigit b = true := by
  have hlt := h.lt_ten
  have hb := h.toNat_eq
  simp only [Byte.isDigit, Bool.and_eq_true, decide_eq_true_eq, UInt8.le_iff_toNat_le,
    UInt8.reduceToNat]
  omega

private theorem digit? : Base.ten.digit? b = some d := by
  rw [Base.digit?, if_pos h.isDigit, h.toNat_eq]
  rfl

private theorem ne {c : UInt8} (hc : Byte.isDigit c = false) : b ≠ c := by
  rintro rfl
  rw [h.isDigit] at hc
  cases hc

private theorem lower : Byte.lower b = b := by
  have hlt := h.lt_ten
  have hb := h.toNat_eq
  unfold Byte.lower
  rw [if_neg]
  simp only [Bool.and_eq_true, decide_eq_true_eq, UInt8.le_iff_toNat_le, UInt8.reduceToNat]
  omega

end IsDigitByte

private theorem isDigit_of_mem_written {ds : List Nat} (h : AreDigits ds) :
    ∀ b ∈ written ds, Byte.isDigit b = true := by
  intro b hb
  obtain ⟨d, hd, rfl⟩ := List.mem_map.1 hb
  exact (isDigitByte (h d hd)).isDigit

private theorem written_ne_nil {ds : List Nat} (h : ds ≠ []) : written ds ≠ [] := by
  simpa [written] using h

private theorem isLexeme_plain {whole frac : List Nat} (hne : whole ≠ []) (hwhole : AreDigits whole)
    (hfrac : AreDigits frac) : IsLexeme .number (plain whole frac) (plain whole frac) := by
  unfold plain
  split
  · rw [List.append_nil]
    exact .whole (written_ne_nil hne) (isDigit_of_mem_written hwhole)
  · rename_i hsome
    exact .fraction (written_ne_nil hne) (isDigit_of_mem_written hwhole) (written_ne_nil hsome)
      (isDigit_of_mem_written hfrac)

private theorem exists_written {t : Text} (h : ∀ b ∈ t, Byte.isDigit b = true) :
    ∃ ds, AreDigits ds ∧ t = written ds := by
  have hrange : ∀ b ∈ t, 48 ≤ b.toNat ∧ b.toNat ≤ 57 := by
    intro b hb
    have hdigit := h b hb
    simpa [Byte.isDigit, UInt8.le_iff_toNat_le] using hdigit
  refine ⟨t.map fun b => b.toNat - 48, ?_, ?_⟩
  · intro d hd
    obtain ⟨b, hb, rfl⟩ := List.mem_map.1 hd
    have := hrange b hb
    omega
  · rw [written, List.map_map]
    symm
    rw [List.map_congr_left (g := id), List.map_id]
    intro b hb
    have := hrange b hb
    rw [Function.comp_apply, Nat.sub_add_cancel this.1]
    simp

private theorem exists_plain {t bytes : Text} (h : IsLexeme .number t bytes) :
    ∃ whole frac, whole ≠ [] ∧ AreDigits whole ∧ AreDigits frac ∧ t = plain whole frac := by
  cases h with
  | whole hne hds =>
    obtain ⟨ds, hdigits, rfl⟩ := exists_written hds
    refine ⟨ds, [], ?_, hdigits, .nil, ?_⟩
    · rintro rfl
      exact hne rfl
    · simp [plain]
  | fraction hne hds hne' hfs =>
    obtain ⟨ds, hdigits, rfl⟩ := exists_written hds
    obtain ⟨fs, hfrac, rfl⟩ := exists_written hfs
    refine ⟨ds, fs, ?_, hdigits, hfrac, ?_⟩
    · rintro rfl
      exact hne rfl
    · have hsome : fs ≠ [] := by
        rintro rfl
        exact hne' rfl
      rw [plain, if_neg hsome]

/-! ### Reading a plain numeral -/

def Mantissa.then (acc : Mantissa) (ds : List Nat) : Mantissa :=
  { acc with
    value := ds.foldl (fun n d => n * 10 + d) acc.value
    places := acc.places + if acc.sawDot then ds.length else 0
    sawDigit := acc.sawDigit || !ds.isEmpty }

private theorem Mantissa.read_written {ds : List Nat} (h : AreDigits ds)
    (acc : Mantissa) (rest : Text) :
    Mantissa.read .ten acc (written ds ++ rest) = Mantissa.read .ten (acc.then ds) rest := by
  induction ds generalizing acc with
  | nil => simp [written, Mantissa.then]
  | cons d ds ih =>
    have hd := isDigitByte (h d (by simp))
    have hrest : AreDigits ds := fun e he => h e (by simp [he])
    show Mantissa.read .ten acc ((d + 48).toUInt8 :: (written ds ++ rest)) = _
    generalize (d + 48).toUInt8 = b at hd
    have hdot : ¬ (b = Byte.dot && !acc.sawDot) = true := by
      simp [hd.ne (c := Byte.dot) (by decide)]
    rw [Mantissa.read, if_neg (hd.ne (by decide)), if_neg hdot]
    simp only [hd.digit?]
    rw [ih hrest]
    congr 1
    simp only [Mantissa.then, Base.value, List.foldl_cons, List.length_cons, List.isEmpty_cons,
      Mantissa.mk.injEq, Bool.true_or, Bool.not_false, Bool.or_true, and_true, true_and]
    cases acc.sawDot <;> simp [Nat.add_assoc, Nat.add_comm 1]

private theorem Mantissa.read_plain {whole frac : List Nat} (hne : whole ≠ [])
    (hwhole : AreDigits whole) (hfrac : AreDigits frac) :
    ∃ dotted, Mantissa.read .ten {} (plain whole frac) =
      ({ value := number (whole ++ frac), places := frac.length, sawDigit := true,
         sawDot := dotted }, []) := by
  have hsaw : whole.isEmpty = false := by simpa using hne
  unfold plain
  rw [Mantissa.read_written hwhole]
  by_cases hsome : frac = []
  · subst hsome
    refine ⟨false, ?_⟩
    simp [Mantissa.read, Mantissa.then, number, hsaw]
  · refine ⟨true, ?_⟩
    rw [if_neg hsome, Mantissa.read, if_neg (by decide), if_pos (by simp [Mantissa.then])]
    have hread := Mantissa.read_written hfrac { ({} : Mantissa).then whole with sawDot := true } []
    rw [List.append_nil] at hread
    rw [hread]
    simp [Mantissa.read, Mantissa.then, number, hsaw]

private theorem underscoresOk_written {ds : List Nat} (h : AreDigits ds) {before : Before}
    (hbefore : before ≠ .underscore) {rest : Text}
    (hrest : ∀ before, before ≠ .underscore → underscoresOk .ten before rest = true) :
    underscoresOk .ten before (written ds ++ rest) = true := by
  induction ds generalizing before with
  | nil => exact hrest before hbefore
  | cons d ds ih =>
    have hd := isDigitByte (h d (by simp))
    show underscoresOk .ten before ((d + 48).toUInt8 :: (written ds ++ rest)) = true
    rw [underscoresOk, if_pos (by rw [hd.digit?]; rfl)]
    exact ih (fun e he => h e (by simp [he])) (by decide)

private theorem underscoresOk_plain {whole frac : List Nat} (hwhole : AreDigits whole)
    (hfrac : AreDigits frac) : underscoresOk .ten .start (plain whole frac) = true := by
  have hnil : ∀ before, before ≠ .underscore → underscoresOk .ten before [] = true := by
    intro before hbefore
    simpa [underscoresOk] using hbefore
  refine underscoresOk_written hwhole (by decide) fun before hbefore => ?_
  split
  · exact hnil before hbefore
  · have hother : Before.other ≠ .underscore := by decide
    have hrest := underscoresOk_written hfrac hother hnil
    rw [List.append_nil] at hrest
    rw [underscoresOk, if_neg (by decide), if_neg (by decide), hrest]
    simpa using hbefore

private theorem mem_plain {whole frac : List Nat} (hwhole : AreDigits whole)
    (hfrac : AreDigits frac)
    {b : UInt8} (h : b ∈ plain whole frac) : b = Byte.dot ∨ ∃ d, IsDigitByte b d := by
  have hdigit : ∀ ds, AreDigits ds → b ∈ written ds → ∃ d, IsDigitByte b d := by
    intro ds hds hb
    obtain ⟨d, hd, rfl⟩ := List.mem_map.1 hb
    exact ⟨d, isDigitByte (hds d hd)⟩
  unfold plain at h
  rcases List.mem_append.1 h with h | h
  · exact .inr (hdigit whole hwhole h)
  · split at h
    · cases h
    · rcases List.mem_cons.1 h with rfl | h
      · exact .inl rfl
      · exact .inr (hdigit frac hfrac h)

private theorem takeBase_plain {whole frac : List Nat} (hwhole : AreDigits whole)
    (hfrac : AreDigits frac) :
    takeBase (plain whole frac) = (.ten, plain whole frac) := by
  have hmem := fun b => mem_plain hwhole hfrac (b := b)
  generalize plain whole frac = t at hmem
  unfold takeBase
  split
  · rename_i x c r
    rw [if_neg]
    rcases hmem x (by simp) with rfl | ⟨d, hd⟩
    · decide
    · rw [hd.lower]
      exact hd.ne (by decide)
  · rfl

private theorem magnitude?_plain {whole frac : List Nat} (hne : whole ≠ [])
    (hwhole : AreDigits whole) (hfrac : AreDigits frac) :
    magnitude? (plain whole frac) = tenPower? (number (whole ++ frac)) (-frac.length) := by
  obtain ⟨dotted, hread⟩ := Mantissa.read_plain hne hwhole hfrac
  unfold magnitude?
  simp only [takeBase_plain hwhole hfrac, hread, underscoresOk_plain hwhole hfrac, Bool.not_true,
    Bool.or_false, if_neg Bool.false_ne_true]

private theorem read?_of_digit {b : UInt8} {d : Nat} (hb : IsDigitByte b d) (r : Text) :
    read? (b :: r) = (magnitude? (b :: r)).map (ofMagnitude false) := by
  have hsign : takeSign (b :: r) = (false, b :: r) := by
    unfold takeSign
    split
    · rename_i heq
      exact absurd (List.cons.inj heq).1 (hb.ne (by decide))
    · rename_i heq
      exact absurd (List.cons.inj heq).1 (hb.ne (by decide))
    · rfl
  have hword : ∀ c w, Byte.isDigit c = false → (b :: r).map Byte.lower ≠ c :: w := by
    intro c w hc heq
    have hfirst : Byte.lower b = c := (List.cons.inj heq).1
    rw [hb.lower] at hfirst
    exact hb.ne hc hfirst
  have hinf : (b :: r).map Byte.lower ≠ lit "inf" := hword 105 _ (by decide)
  have hinfinity : (b :: r).map Byte.lower ≠ lit "infinity" := hword 105 _ (by decide)
  have hnan : (b :: r).map Byte.lower ≠ lit "nan" := hword 110 _ (by decide)
  unfold read?
  simp only [hsign, hinf, hinfinity, hnan, decide_false, Bool.or_false, if_neg Bool.false_ne_true,
    if_false]

private theorem read?_plain {whole frac : List Nat} (hne : whole ≠ []) (hwhole : AreDigits whole)
    (hfrac : AreDigits frac) :
    read? (plain whole frac) =
      (tenPower? (number (whole ++ frac)) (-frac.length)).map (ofMagnitude false) := by
  rw [← magnitude?_plain hne hwhole hfrac]
  obtain ⟨d, ds, rfl⟩ := List.exists_cons_of_ne_nil hne
  exact read?_of_digit (isDigitByte (hwhole d (by simp))) _

/-! ### Numbers among tokens -/

private theorem nearestBits?_lt {num den bits : Nat} (h : nearestBits? num den = some bits) :
    bits < 2047 * 2 ^ 52 := by
  unfold nearestBits? encode at h
  dsimp only at h
  split at h
  · cases h
    decide
  · split at h
    · rename_i hlt
      cases h
      exact hlt
    · cases h

private theorem tenPower?_lt {value bits : Nat} {e : Int} (h : tenPower? value e = some bits) :
    bits < 2047 * 2 ^ 52 := by
  unfold tenPower? at h
  dsimp only at h
  split at h
  · cases h
    decide
  · split at h
    · cases h
    · exact nearestBits?_lt h

theorem finite_of_read? {t bytes : Text} {x : Float} (h : IsLexeme .number t bytes)
    (hx : read? t = some x) : ∃ m q, shape x = .finite false m q := by
  obtain ⟨whole, frac, hne, hwhole, hfrac, rfl⟩ := exists_plain h
  rw [read?_plain hne hwhole hfrac] at hx
  obtain ⟨bits, hbits, rfl⟩ := Option.map_eq_some_iff.1 hx
  exact shape_ofMagnitude (tenPower?_lt hbits)

/-! ### Literals -/

private theorem written_replicate_zero (n : Nat) :
    written (List.replicate n 0) = List.replicate n 48 := by
  simp [written]

private theorem written_append (ds es : List Nat) : written (ds ++ es) = written ds ++ written es :=
  List.map_append

private theorem positional_eq_plain {d : Digits} (hne : d.digits ≠ []) (hd : AreDigits d.digits) :
    ∃ whole frac, whole ≠ [] ∧ AreDigits whole ∧ AreDigits frac ∧ positional d = plain whole frac ∧
      (number (whole ++ frac) : ℚ) * 10 ^ (-frac.length : Int) = d.value := by
  have hzeros : ∀ n, AreDigits (List.replicate n 0) := by
    intro n e he
    rw [List.eq_of_mem_replicate he]
    decide
  have hlen : 0 < d.digits.length := List.length_pos_iff.2 hne
  unfold positional Digits.value
  rw [if_neg (by simpa using hne)]
  by_cases hpoint : d.point ≤ 0
  · -- All digits stand after the point.
    rw [if_pos hpoint]
    refine ⟨[0], List.replicate (-d.point).toNat 0 ++
      d.digits, by simp, by simp [AreDigits], ?_, ?_,
      ?_⟩
    · intro e he
      rcases List.mem_append.1 he with he | he
      · exact hzeros _ e he
      · exact hd e he
    · rw [plain, if_neg (by simp [hne]), written_append, written_replicate_zero]
      rfl
    · rw [number_append, number_append, number_replicate_zero, List.length_append,
        List.length_replicate]
      have hzero : number [0] = 0 := rfl
      rw [hzero, Nat.zero_mul, Nat.zero_mul, Nat.zero_add, Nat.zero_add]
      congr 2
      omega
  · rw [if_neg hpoint]
    dsimp only
    have htake : d.digits.take d.point.toNat ≠ [] := by
      rw [ne_eq, List.take_eq_nil_iff]
      rintro (h | h)
      · omega
      · exact hne h
    refine ⟨d.digits.take d.point.toNat ++ List.replicate (d.point - d.digits.length).toNat 0,
      d.digits.drop d.point.toNat, by simp [htake], ?_, fun e he => hd e (List.mem_of_mem_drop he),
      ?_, ?_⟩
    · intro e he
      rcases List.mem_append.1 he with he | he
      · exact hd e (List.mem_of_mem_take he)
      · exact hzeros _ e he
    · simp only [plain, written_append, written_replicate_zero, zeros, List.isEmpty_iff]
    · rcases Nat.le_total d.digits.length d.point.toNat with hle | hle
      · -- All digits stand before the point, with zeros after them.
        rw [List.drop_eq_nil_of_le hle, List.take_of_length_le hle, List.append_nil, number_append,
          number_replicate_zero, List.length_replicate]
        push_cast
        rw [List.length_nil, Nat.cast_zero, neg_zero, zpow_zero, mul_one, add_zero, ← zpow_natCast]
        congr 2
        omega
      · have hnone : (d.point - d.digits.length).toNat = 0 := by omega
        rw [hnone, List.replicate_zero, List.append_nil, List.take_append_drop, List.length_drop]
        congr 2
        omega

private theorem RoundsTo.bounds {w : ℚ} {m : Nat} {q : Int} (hpos : 0 < m) (hm : IsBinary m q)
    (h : RoundsTo w m q) : (10 : ℚ) ^ (-400 : Int) ≤ w ∧ w ≤ 10 ^ (399 : Int) := by
  obtain ⟨hlow, hhigh⟩ := h.le
  have hpow : (0 : ℚ) < 2 ^ q := by positivity
  have hq : q ≤ 972 := by
    have := hm.finite
    omega
  have hone : (1 : ℚ) ≤ m := by exact_mod_cast hpos
  have h53 : (m : ℚ) + 1 ≤ 2 ^ 53 := by exact_mod_cast hm.mantissa_lt
  have hmargin := marginBelow_le m q
  have height : ∀ n : Nat, (2 : ℚ) ^ (3 * n) ≤ 10 ^ n := by
    intro n
    rw [pow_mul]
    gcongr
    norm_num
  have hinverse : ∀ n : Nat, (10 : ℚ) ^ (-(n : Int)) ≤ 2 ^ (-((3 * n : Nat) : Int)) := by
    intro n
    rw [zpow_neg, zpow_neg, zpow_natCast, zpow_natCast]
    gcongr
    exact height n
  constructor
  · calc (10 : ℚ) ^ (-400 : Int) ≤ 2 ^ (-((3 * 400 : Nat) : Int)) := hinverse 400
      _ ≤ 2 ^ (q - 1) := by
          gcongr
          · norm_num
          · have := hm.exponent_ge
            omega
      _ = 1 / 2 * 2 ^ q := by
          rw [zpow_sub_one₀ (by norm_num)]
          ring
      _ ≤ (m - marginBelow m q) * 2 ^ q := by
          gcongr
          linarith
      _ ≤ w := hlow
  · calc w ≤ (m + 1 / 2) * 2 ^ q := hhigh
      _ ≤ 2 ^ 53 * 2 ^ q := by
          gcongr
          linarith
      _ = 2 ^ (q + 53) := by
          rw [zpow_add₀ (by norm_num), mul_comm]
          rfl
      _ ≤ 2 ^ ((3 * 399 : Nat) : Int) := by
          gcongr
          · norm_num
          · omega
      _ ≤ 10 ^ (399 : Int) := by exact_mod_cast height 399

private theorem tenPower?_eq {value m : Nat} {e q : Int} (hpos : 0 < m) (hm : IsBinary m q)
    (h : RoundsTo (value * 10 ^ e) m q) :
    tenPower? value e = some (m + (q + 1074).toNat * 2 ^ 52) := by
  obtain ⟨hlow, hhigh⟩ := h.bounds hpos hm
  have hten : (0 : ℚ) < 10 ^ e := by positivity
  have hvalue : 0 < value := by
    rcases Nat.eq_zero_or_pos value with rfl | hv
    · rw [Nat.cast_zero, zero_mul] at hlow
      exact absurd hlow (not_le.2 (by positivity))
    · exact hv
  have hlt : ∀ {a b : Int}, (10 : ℚ) ^ a < 10 ^ b → a < b := fun h =>
    (zpow_lt_zpow_iff_right₀ (by norm_num)).1 h
  have hle : ∀ {a b : Int}, (10 : ℚ) ^ a ≤ 10 ^ b → a ≤ b := fun h =>
    (zpow_le_zpow_iff_right₀ (by norm_num)).1 h
  -- The count of digits tells the size of the decimal.
  have hcount : 0 < digitCount value := Nat.length_toDigits_pos
  have hge : -400 < (digitCount value : Int) + e := by
    apply hlt
    have hsize : (value : ℚ) < 10 ^ digitCount value := by exact_mod_cast lt_pow_digitCount value
    calc (10 : ℚ) ^ (-400 : Int) ≤ value * 10 ^ e := hlow
      _ < 10 ^ digitCount value * 10 ^ e := by gcongr
      _ = 10 ^ ((digitCount value : Int) + e) := by
          rw [zpow_add₀ (by norm_num), zpow_natCast]
  have hupper : (digitCount value : Int) + e ≤ 400 := by
    have hsize : (10 : ℚ) ^ (digitCount value - 1) ≤ value := by
      exact_mod_cast pow_digitCount_le hvalue
    have hexp : ((digitCount value - 1 : Nat) : Int) + e ≤ 399 := by
      apply hle
      calc (10 : ℚ) ^ (((digitCount value - 1 : Nat) : Int) + e)
          = 10 ^ (digitCount value - 1) * 10 ^ e := by rw [zpow_add₀ (by norm_num), zpow_natCast]
        _ ≤ value * 10 ^ e := by gcongr
        _ ≤ 10 ^ (399 : Int) := hhigh
    omega
  have hquotient : ((value * scaleUp 10 e : Nat) : ℚ) / (scaleUp 10 (-e) : Nat) =
      value * 10 ^ e := by
    have hscale := scaleUp_div (b := 10) (by decide) e
    push_cast at hscale ⊢
    rw [mul_div_assoc, hscale]
  unfold tenPower?
  dsimp only
  rw [if_neg, if_neg]
  · apply nearestBits?_eq (Nat.mul_pos hvalue (scaleUp_pos (by decide) e))
      (scaleUp_pos (by decide) _) hm
    rwa [hquotient]
  · exact Int.not_lt.2 hupper
  · simp only [Bool.or_eq_true, decide_eq_true_eq, not_or]
    exact ⟨hvalue.ne', Int.not_lt.2 hge.le⟩

theorem read?_literal {x : Float} {m : Nat} {q : Int} (h : shape x = .finite false m q) :
    IsLexeme .number (literal x) (literal x) ∧ read? (literal x) = some x := by
  obtain ⟨hm, hx⟩ := shape_eq_finite h
  have hliteral : literal x = positional (shortest m q) := by
    simp only [literal, h, signed, if_neg Bool.false_ne_true]
  rw [hliteral]
  rcases Nat.eq_zero_or_pos m with rfl | hpos
  · have hplain : positional (shortest 0 q) = plain [0] [] := rfl
    have hq : q = -1074 := by
      by_contra hne
      have := hm.normal hne
      omega
    subst hq
    rw [hplain, read?_plain (by decide) (by simp [AreDigits]) .nil]
    refine ⟨isLexeme_plain (by decide) (by simp [AreDigits]) .nil, ?_⟩
    rw [hx]
    rfl
  · obtain ⟨hrounds, hdigits⟩ := shortest_roundsTo hpos hm
    generalize shortest m q = d at hrounds hdigits
    have hne : d.digits ≠ [] := by
      intro hnil
      have hlow := (hrounds.bounds hpos hm).1
      rw [Digits.value, hnil, show number [] = 0 from rfl, Nat.cast_zero, zero_mul] at hlow
      exact absurd hlow (not_le.2 (by positivity))
    obtain ⟨whole, frac, hwhole, hw, hf, hplain, hvalue⟩ := positional_eq_plain hne hdigits
    rw [hplain, read?_plain hwhole hw hf, tenPower?_eq hpos hm (hvalue ▸ hrounds), hx]
    exact ⟨isLexeme_plain hwhole hw hf, rfl⟩

end Lox.Decimal

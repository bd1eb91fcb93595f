import Lox.Text.Rune

set_option autoImplicit false
set_option relaxedAutoImplicit false

namespace Lox.Text

def encoded (cs : List Char) : Text := cs.flatMap String.utf8EncodeChar

/-- The bytes of a literal text, one character after another. Evaluation by `lit` itself looks at
all the bytes before each one. -/
theorem lit_ofList (cs : List Char) : lit (String.ofList cs) = encoded cs := by
  simp [lit, encoded, List.utf8Encode]

theorem exists_lit_iff (t : Text) : (∃ s : String, t = lit s) ↔ ∃ cs, t = encoded cs := by
  constructor
  · rintro ⟨s, rfl⟩
    exact ⟨s.toList, by rw [← lit_ofList, String.ofList_toList]⟩
  · rintro ⟨cs, rfl⟩
    exact ⟨String.ofList cs, (lit_ofList cs).symm⟩

private theorem toNat_byte {n : Nat} (h : n < 256) : (UInt8.ofNat n).toNat = n := by
  simp [Nat.mod_eq_of_lt h]

private theorem continuation?_eq_some {lo hi b : UInt8} {x : Nat} :
    continuation? lo hi b = some x ↔
      lo.toNat ≤ b.toNat ∧ b.toNat ≤ hi.toNat ∧ x = b.toNat % 64 := by
  unfold continuation?
  split
  · rename_i h
    simp only [Bool.and_eq_true, decide_eq_true_eq, UInt8.le_iff_toNat_le] at h
    simp [h, eq_comm]
  · rename_i h
    simp only [Bool.and_eq_true, decide_eq_true_eq, UInt8.le_iff_toNat_le] at h
    simp only [reduceCtorEq, false_iff]
    exact fun hx => h ⟨hx.1, hx.2.1⟩

private theorem lead?_eq_none {b : UInt8} (h : b.toNat < 0xC2 ∨ 0xF4 < b.toNat) :
    lead? b = none := by
  simp only [lead?, UInt8.lt_iff_toNat_lt, ← UInt8.toNat_inj, UInt8.reduceToNat]
  rcases h with h | h
  · rw [if_pos h]
  · rw [if_neg (by omega), if_neg (by omega), if_neg (by omega),
      if_neg (by omega), if_neg (by omega),
      if_neg (by omega), if_neg (by omega), if_neg (by omega)]

private theorem lead?_two {b : UInt8} (h : 0xC2 ≤ b.toNat) (h' : b.toNat < 0xE0) :
    lead? b = some (2, 0x80, 0xBF) := by
  simp only [lead?, UInt8.lt_iff_toNat_lt, UInt8.reduceToNat]
  rw [if_neg (by omega), if_pos h']

private theorem lead?_three {b : UInt8} (h : 0xE0 ≤ b.toNat) (h' : b.toNat < 0xF0) :
    lead? b = some (3, if b.toNat = 0xE0 then 0xA0 else 0x80,
      if b.toNat = 0xED then 0x9F else 0xBF) := by
  simp only [lead?, UInt8.lt_iff_toNat_lt, ← UInt8.toNat_inj, UInt8.reduceToNat]
  rw [if_neg (by omega), if_neg (by omega)]
  by_cases first : b.toNat = 0xE0
  · simp [first]
  · by_cases last : b.toNat = 0xED
    · simp [last]
    · simp [first, last, h']

private theorem lead?_four {b : UInt8} (h : 0xF0 ≤ b.toNat) (h' : b.toNat ≤ 0xF4) :
    lead? b = some (4, if b.toNat = 0xF0 then 0x90 else 0x80,
      if b.toNat = 0xF4 then 0x8F else 0xBF) := by
  simp only [lead?, UInt8.lt_iff_toNat_lt, ← UInt8.toNat_inj, UInt8.reduceToNat]
  rw [if_neg (by omega), if_neg (by omega), if_neg (by omega), if_neg (by omega), if_neg (by omega)]
  by_cases first : b.toNat = 0xF0
  · simp [first]
  · by_cases last : b.toNat = 0xF4
    · simp [last]
    · rw [if_neg first, if_pos (by omega), if_neg first, if_neg last]

private theorem lead?_bounds {b lo hi : UInt8} {w : Nat} (h : lead? b = some (w, lo, hi)) :
    0xC2 ≤ b.toNat ∧
      ((w = 2 ∧ b.toNat < 0xE0 ∧ lo.toNat = 0x80 ∧ hi.toNat = 0xBF) ∨
        (w = 3 ∧ 0xE0 ≤ b.toNat ∧ b.toNat < 0xF0 ∧
          lo.toNat = (if b.toNat = 0xE0 then 0xA0 else 0x80) ∧
          hi.toNat = (if b.toNat = 0xED then 0x9F else 0xBF)) ∨
        (w = 4 ∧ 0xF0 ≤ b.toNat ∧ b.toNat ≤ 0xF4 ∧
          lo.toNat = (if b.toNat = 0xF0 then 0x90 else 0x80) ∧
          hi.toNat = (if b.toNat = 0xF4 then 0x8F else 0xBF))) := by
  have hlead : 0xC2 ≤ b.toNat ∧ b.toNat ≤ 0xF4 := by
    refine Decidable.byContradiction fun hout => ?_
    rw [lead?_eq_none (by omega)] at h
    cases h
  refine ⟨hlead.1, ?_⟩
  by_cases htwo : b.toNat < 0xE0
  · rw [lead?_two hlead.1 htwo] at h
    cases h
    exact .inl ⟨rfl, htwo, rfl, rfl⟩
  by_cases hthree : b.toNat < 0xF0
  · rw [lead?_three (by omega) hthree] at h
    cases h
    exact .inr (.inl ⟨rfl, by omega, hthree, apply_ite .., apply_ite ..⟩)
  · rw [lead?_four (by omega) hlead.2] at h
    cases h
    exact .inr (.inr ⟨rfl, by omega, hlead.2, apply_ite .., apply_ite ..⟩)

private theorem exists_char {v : Nat} (h : v < 0xD800 ∨ 0xDFFF < v ∧ v < 0x110000) :
    ∃ c : Char, c.val.toNat = v := by
  refine ⟨Char.ofNat v, ?_⟩
  have valid : v.isValidChar := h
  rw [Char.ofNat, dif_pos valid]
  rfl

private theorem char_bounds (c : Char) :
    c.val.toNat < 0xD800 ∨ 0xDFFF < c.val.toNat ∧ c.val.toNat < 0x110000 := c.valid

private theorem continuation?_of_le {b : UInt8} (h : 0x80 ≤ b.toNat) (h' : b.toNat ≤ 0xBF) :
    continuation? 0x80 0xBF b = some (b.toNat % 64) :=
  continuation?_eq_some.mpr ⟨h, h', rfl⟩

private theorem continuation?_of_ite {b : UInt8} {p q : Prop} [Decidable p] [Decidable q]
    {lo lo' hi hi' : UInt8} (h : (if p then lo.toNat else lo'.toNat) ≤ b.toNat)
    (h' : b.toNat ≤ (if q then hi.toNat else hi'.toNat)) :
    continuation? (if p then lo else lo') (if q then hi else hi') b = some (b.toNat % 64) := by
  rw [← apply_ite UInt8.toNat] at h h'
  exact continuation?_eq_some.mpr ⟨h, h', rfl⟩

private theorem headRune_two {b c : UInt8} (r : Text) (hb : 0xC2 ≤ b.toNat) (hb' : b.toNat < 0xE0)
    (hc : 0x80 ≤ c.toNat) (hc' : c.toNat ≤ 0xBF) :
    headRune b (c :: r) = (.scalar (b.toNat % 32 * 64 + c.toNat % 64), 2) := by
  simp only [headRune, UInt8.lt_iff_toNat_lt, UInt8.reduceToNat]
  rw [if_neg (by omega)]
  simp [multibyte?, lead?_two hb hb', continuation?_of_le hc hc']

private theorem headRune_three {b c d : UInt8} (r : Text) (hb : 0xE0 ≤ b.toNat)
    (hb' : b.toNat < 0xF0) (hc : (if b.toNat = 0xE0 then 0xA0 else 0x80) ≤ c.toNat)
    (hc' : c.toNat ≤ (if b.toNat = 0xED then 0x9F else 0xBF))
    (hd : 0x80 ≤ d.toNat) (hd' : d.toNat ≤ 0xBF) :
    headRune b (c :: d :: r) =
      (.scalar ((b.toNat % 16 * 64 + c.toNat % 64) * 64 + d.toNat % 64), 3) := by
  have second : continuation? (if b.toNat = 0xE0 then 0xA0 else 0x80)
      (if b.toNat = 0xED then 0x9F else 0xBF) c = some (c.toNat % 64) := continuation?_of_ite hc hc'
  simp only [headRune, UInt8.lt_iff_toNat_lt, UInt8.reduceToNat]
  rw [if_neg (by omega)]
  simp [multibyte?, lead?_three hb hb', second, continuation?_of_le hd hd']

private theorem headRune_four {b c d e : UInt8} (r : Text) (hb : 0xF0 ≤ b.toNat)
    (hb' : b.toNat ≤ 0xF4) (hc : (if b.toNat = 0xF0 then 0x90 else 0x80) ≤ c.toNat)
    (hc' : c.toNat ≤ (if b.toNat = 0xF4 then 0x8F else 0xBF))
    (hd : 0x80 ≤ d.toNat) (hd' : d.toNat ≤ 0xBF) (he : 0x80 ≤ e.toNat) (he' : e.toNat ≤ 0xBF) :
    headRune b (c :: d :: e :: r) =
      (.scalar (((b.toNat % 8 * 64 + c.toNat % 64) * 64 + d.toNat % 64) * 64 + e.toNat % 64),
        4) := by
  have second : continuation? (if b.toNat = 0xF0 then 0x90 else 0x80)
      (if b.toNat = 0xF4 then 0x8F else 0xBF) c = some (c.toNat % 64) := continuation?_of_ite hc hc'
  simp only [headRune, UInt8.lt_iff_toNat_lt, UInt8.reduceToNat]
  rw [if_neg (by omega)]
  simp [multibyte?, lead?_four hb hb', second, continuation?_of_le hd hd',
    continuation?_of_le he he']

private theorem headRune_encodeChar (c : Char) (r : Text) :
    ∃ b s, String.utf8EncodeChar c = b :: s ∧
      headRune b (s ++ r) = (.scalar c.val.toNat, s.length + 1) := by
  have bounds := char_bounds c
  generalize hv : c.val.toNat = v at bounds
  unfold String.utf8EncodeChar
  simp only [hv]
  split
  · refine ⟨_, [], rfl, ?_⟩
    simp only [headRune, UInt8.lt_iff_toNat_lt, UInt8.reduceToNat]
    rw [toNat_byte (by omega), if_pos (by omega)]
    rfl
  have low : (UInt8.ofNat (v % 64 + 0x80)).toNat = v % 64 + 0x80 := toNat_byte (by omega)
  split
  · have first : (UInt8.ofNat (v / 64 % 32 + 0xC0)).toNat = v / 64 % 32 + 0xC0 :=
      toNat_byte (by omega)
    refine ⟨_, _, rfl, ?_⟩
    rw [List.cons_append, headRune_two _ (by omega) (by omega) (by omega) (by omega), first, low]
    simp
    omega
  have middle : (UInt8.ofNat (v / 64 % 64 + 0x80)).toNat = v / 64 % 64 + 0x80 :=
    toNat_byte (by omega)
  split
  · have first : (UInt8.ofNat (v / 4096 % 16 + 0xE0)).toNat = v / 4096 % 16 + 0xE0 :=
      toNat_byte (by omega)
    refine ⟨_, _, rfl, ?_⟩
    rw [List.cons_append, List.cons_append,
      headRune_three _ (by omega) (by omega) (by split <;> omega) (by split <;> omega) (by omega)
        (by omega), first, middle, low]
    simp
    omega
  · have first : (UInt8.ofNat (v / 262144 % 8 + 0xF0)).toNat = v / 262144 % 8 + 0xF0 :=
      toNat_byte (by omega)
    have second : (UInt8.ofNat (v / 4096 % 64 + 0x80)).toNat = v / 4096 % 64 + 0x80 :=
      toNat_byte (by omega)
    refine ⟨_, _, rfl, ?_⟩
    rw [List.cons_append, List.cons_append, List.cons_append,
      headRune_four _ (by omega) (by omega) (by split <;> omega) (by split <;> omega) (by omega)
        (by omega) (by omega) (by omega), first, second, middle, low]
    simp
    omega

private theorem ofNat_eq_of_toNat {b : UInt8} {n : Nat} (h : b.toNat = n) : UInt8.ofNat n = b := by
  rw [← h, UInt8.ofNat_toNat]

private theorem exists_encodeChar_two {b c : UInt8} (hb : 0xC2 ≤ b.toNat) (hb' : b.toNat < 0xE0)
    (hc : 0x80 ≤ c.toNat) (hc' : c.toNat ≤ 0xBF) :
    ∃ u : Char, String.utf8EncodeChar u = [b, c] := by
  obtain ⟨u, hu⟩ := exists_char (v := b.toNat % 32 * 64 + c.toNat % 64) (by omega)
  refine ⟨u, ?_⟩
  simp only [String.utf8EncodeChar, hu]
  rw [if_neg (by omega), if_pos (by omega), ofNat_eq_of_toNat (b := b) (by omega),
    ofNat_eq_of_toNat (b := c) (by omega)]

private theorem exists_encodeChar_three {b c d : UInt8} (hb : 0xE0 ≤ b.toNat) (hb' : b.toNat < 0xF0)
    (hc : (if b.toNat = 0xE0 then 0xA0 else 0x80) ≤ c.toNat)
    (hc' : c.toNat ≤ (if b.toNat = 0xED then 0x9F else 0xBF))
    (hd : 0x80 ≤ d.toNat) (hd' : d.toNat ≤ 0xBF) :
    ∃ u : Char, String.utf8EncodeChar u = [b, c, d] := by
  obtain ⟨hcont, hcont', hlong, hscalar⟩ : 0x80 ≤ c.toNat ∧ c.toNat ≤ 0xBF ∧
      0x800 ≤ (b.toNat % 16 * 64 + c.toNat % 64) * 64 + d.toNat % 64 ∧
      ((b.toNat % 16 * 64 + c.toNat % 64) * 64 + d.toNat % 64 < 0xD800 ∨
        0xDFFF < (b.toNat % 16 * 64 + c.toNat % 64) * 64 + d.toNat % 64) := by
    split at hc <;> split at hc' <;> omega
  obtain ⟨u, hu⟩ := exists_char
    (v := (b.toNat % 16 * 64 + c.toNat % 64) * 64 + d.toNat % 64) (by omega)
  refine ⟨u, ?_⟩
  simp only [String.utf8EncodeChar, hu]
  rw [if_neg (by omega), if_neg (by omega), if_pos (by omega),
    ofNat_eq_of_toNat (b := b) (by omega), ofNat_eq_of_toNat (b := c) (by omega),
    ofNat_eq_of_toNat (b := d) (by omega)]

private theorem exists_encodeChar_four {b c d e : UInt8}
    (hb : 0xF0 ≤ b.toNat) (hb' : b.toNat ≤ 0xF4)
    (hc : (if b.toNat = 0xF0 then 0x90 else 0x80) ≤ c.toNat)
    (hc' : c.toNat ≤ (if b.toNat = 0xF4 then 0x8F else 0xBF))
    (hd : 0x80 ≤ d.toNat) (hd' : d.toNat ≤ 0xBF) (he : 0x80 ≤ e.toNat) (he' : e.toNat ≤ 0xBF) :
    ∃ u : Char, String.utf8EncodeChar u = [b, c, d, e] := by
  obtain ⟨hcont, hcont', hlong, hscalar⟩ : 0x80 ≤ c.toNat ∧ c.toNat ≤ 0xBF ∧
      0x10000 ≤ ((b.toNat % 8 * 64 + c.toNat % 64) * 64 + d.toNat % 64) * 64 + e.toNat % 64 ∧
      ((b.toNat % 8 * 64 + c.toNat % 64) * 64 + d.toNat % 64) * 64 + e.toNat % 64 < 0x110000 := by
    split at hc <;> split at hc' <;> omega
  obtain ⟨u, hu⟩ := exists_char
    (v := ((b.toNat % 8 * 64 + c.toNat % 64) * 64 + d.toNat % 64) * 64 + e.toNat % 64) (by omega)
  refine ⟨u, ?_⟩
  simp only [String.utf8EncodeChar, hu]
  rw [if_neg (by omega), if_neg (by omega), if_neg (by omega),
    ofNat_eq_of_toNat (b := b) (by omega), ofNat_eq_of_toNat (b := c) (by omega),
    ofNat_eq_of_toNat (b := d) (by omega), ofNat_eq_of_toNat (b := e) (by omega)]

private theorem exists_encodeChar_of_multibyte? {b : UInt8} {r : Text} {v w : Nat}
    (h : multibyte? b r = some (v, w)) :
    ∃ (c : Char) (s rest : Text), String.utf8EncodeChar c = b :: s ∧ r = s ++ rest ∧
      w = s.length + 1 := by
  simp only [multibyte?, Option.bind_eq_bind, Option.bind_eq_some_iff, Prod.exists] at h
  obtain ⟨width, lo, hi, hlead, h⟩ := h
  obtain ⟨hfirst, hrange⟩ := lead?_bounds hlead
  split at h
  · rename_i c rest
    obtain ⟨-, hb, hlo, hhi⟩ := hrange.resolve_right (by simp)
    obtain ⟨_, hc, hw⟩ := Option.bind_eq_some_iff.mp h
    obtain ⟨hc, hc', -⟩ := continuation?_eq_some.mp hc
    obtain ⟨u, hu⟩ := exists_encodeChar_two hfirst hb (hlo ▸ hc) (hhi ▸ hc')
    exact ⟨u, [c], rest, hu, rfl, (Prod.mk.inj (Option.some.inj hw)).2.symm⟩
  · rename_i c d rest
    obtain ⟨-, hb, hb', hlo, hhi⟩ := (hrange.resolve_left (by simp)).resolve_right (by simp)
    obtain ⟨_, hc, h⟩ := Option.bind_eq_some_iff.mp h
    obtain ⟨_, hd, hw⟩ := Option.bind_eq_some_iff.mp h
    obtain ⟨hc, hc', -⟩ := continuation?_eq_some.mp hc
    obtain ⟨hd, hd', -⟩ := continuation?_eq_some.mp hd
    obtain ⟨u, hu⟩ := exists_encodeChar_three hb hb' (hlo ▸ hc) (hhi ▸ hc') hd hd'
    exact ⟨u, [c, d], rest, hu, rfl, (Prod.mk.inj (Option.some.inj hw)).2.symm⟩
  · rename_i c d e rest
    obtain ⟨-, hb, hb', hlo, hhi⟩ := (hrange.resolve_left (by simp)).resolve_left (by simp)
    obtain ⟨_, hc, h⟩ := Option.bind_eq_some_iff.mp h
    obtain ⟨_, hd, h⟩ := Option.bind_eq_some_iff.mp h
    obtain ⟨_, he, hw⟩ := Option.bind_eq_some_iff.mp h
    obtain ⟨hc, hc', -⟩ := continuation?_eq_some.mp hc
    obtain ⟨hd, hd', -⟩ := continuation?_eq_some.mp hd
    obtain ⟨he, he', -⟩ := continuation?_eq_some.mp he
    obtain ⟨u, hu⟩ := exists_encodeChar_four hb hb' (hlo ▸ hc) (hhi ▸ hc') hd hd' he he'
    exact ⟨u, [c, d, e], rest, hu, rfl, (Prod.mk.inj (Option.some.inj hw)).2.symm⟩
  · cases h

private theorem headRune_scalar {b : UInt8} {r : Text} {v w : Nat}
    (h : headRune b r = (.scalar v, w)) :
    ∃ (c : Char) (s rest : Text), String.utf8EncodeChar c = b :: s ∧ r = s ++ rest ∧
      w = s.length + 1 := by
  simp only [headRune, UInt8.lt_iff_toNat_lt, UInt8.reduceToNat] at h
  split at h
  · obtain ⟨rfl, rfl⟩ : b.toNat = v ∧ 1 = w := by simpa using h
    obtain ⟨c, hc⟩ := exists_char (v := b.toNat) (by omega)
    refine ⟨c, [], r, ?_, rfl, rfl⟩
    unfold String.utf8EncodeChar
    simp only [hc]
    rw [if_pos (by omega), UInt8.ofNat_toNat]
  · cases hmulti : multibyte? b r with
    | none =>
      rw [hmulti] at h
      simp at h
    | some p =>
      rw [hmulti] at h
      obtain ⟨rfl, rfl⟩ : p.1 = v ∧ p.2 = w := by simpa using h
      exact exists_encodeChar_of_multibyte? hmulti

private theorem piecesAfter_append (s r : Text) :
    piecesAfter s.length (s ++ r) = piecesAfter 0 r := by
  induction s with
  | nil => rfl
  | cons b s ih => exact ih

private theorem isUtf8_iff_all (t : Text) :
    isUtf8 t = true ↔ ∀ p ∈ piecesAfter 0 t, ∃ v, p.1 = .scalar v := by
  simp only [isUtf8, runes, pieces, List.all_map, List.all_eq_true, Function.comp_apply]
  refine forall₂_congr fun p _ => ?_
  cases p.1 <;> simp

private theorem isUtf8_cons {b : UInt8} {r : Text} :
    isUtf8 (b :: r) = true ↔
      ∃ v w, headRune b r = (.scalar v, w) ∧
        ∀ p ∈ piecesAfter (w - 1) r, ∃ v, p.1 = .scalar v := by
  rw [isUtf8_iff_all, piecesAfter]
  cases h : headRune b r with
  | mk rune w =>
    cases rune with
    | stray _ => simp
    | scalar v =>
      simp only [List.forall_mem_cons, Prod.mk.injEq, Rune.scalar.injEq, exists_eq', true_and]
      constructor
      · exact fun tail => ⟨v, w, ⟨rfl, rfl⟩, tail⟩
      · rintro ⟨_, _, ⟨rfl, rfl⟩, tail⟩
        exact tail

theorem isUtf8_iff (t : Text) : isUtf8 t = true ↔ ∃ s : String, t = lit s := by
  rw [exists_lit_iff]
  constructor
  · intro h
    induction hlen : t.length using Nat.strongRecOn generalizing t with
    | ind n ih =>
      cases t with
      | nil => exact ⟨[], rfl⟩
      | cons b r =>
        obtain ⟨v, w, head, tail⟩ := isUtf8_cons.mp h
        obtain ⟨c, s, rest, hc, rfl, rfl⟩ := headRune_scalar head
        rw [Nat.add_sub_cancel, piecesAfter_append, ← isUtf8_iff_all] at tail
        obtain ⟨cs, rfl⟩ := ih rest.length (by simp at hlen; omega) rest tail rfl
        refine ⟨c :: cs, ?_⟩
        simp [encoded, hc]
  · rintro ⟨cs, rfl⟩
    induction cs with
    | nil => rfl
    | cons c cs ih =>
      obtain ⟨b, s, hc, head⟩ := headRune_encodeChar c (encoded cs)
      have bytes : encoded (c :: cs) = b :: (s ++ encoded cs) := by
        simp [encoded, hc]
      rw [bytes, isUtf8_cons]
      refine ⟨_, _, head, ?_⟩
      rw [Nat.add_sub_cancel, piecesAfter_append, ← isUtf8_iff_all]
      exact ih

/-! ### Repaired texts -/

private theorem ofScalar_toNat (c : Char) : ofScalar c.val.toNat = String.utf8EncodeChar c := by
  have bounds := char_bounds c
  generalize hv : c.val.toNat = v at bounds
  unfold ofScalar String.utf8EncodeChar
  simp only [hv, Nat.toUInt8]
  by_cases h1 : v < 0x80
  · rw [if_pos h1, if_pos (by omega)]
  by_cases h2 : v < 0x800
  · rw [if_neg h1, if_pos h2, if_neg (by omega), if_pos (by omega), Nat.add_comm 0xC0,
      Nat.add_comm 0x80, Nat.mod_eq_of_lt (a := v / 64) (by omega)]
  by_cases h3 : v < 0x10000
  · rw [if_neg h1, if_neg h2, if_pos h3, if_neg (by omega), if_neg (by omega), if_pos (by omega),
      Nat.add_comm 0xE0, Nat.add_comm 0x80, Nat.add_comm 0x80,
        Nat.mod_eq_of_lt (a := v / 4096) (by omega)]
  · rw [if_neg h1, if_neg h2, if_neg h3, if_neg (by omega), if_neg (by omega), if_neg (by omega),
      Nat.add_comm 0xF0, Nat.add_comm 0x80, Nat.add_comm 0x80, Nat.add_comm 0x80,
      Nat.mod_eq_of_lt (a := v / 262144) (by omega)]

private theorem mem_piecesAfter {t : Text} {k : Nat} {p : Rune × Text} (h : p ∈ piecesAfter k t) :
    ∃ b r w, headRune b r = (p.1, w) := by
  induction t generalizing k with
  | nil => cases h
  | cons b r ih =>
    cases k with
    | succ k => exact ih h
    | zero =>
      rcases List.mem_cons.1 h with rfl | h
      · exact ⟨b, r, _, rfl⟩
      · exact ih h

theorem exists_shown {t : Text} {r : Rune} (h : r ∈ runes t) :
    ∃ c : Char, r.shown = c.val.toNat := by
  obtain ⟨p, hp, rfl⟩ := List.mem_map.1 h
  obtain ⟨b, r, w, head⟩ := mem_piecesAfter hp
  cases hrune : p.1 with
  | stray b => exact ⟨Char.ofNat replacement, rfl⟩
  | scalar v =>
    rw [hrune] at head
    obtain ⟨c, s, rest, hc, rfl, rfl⟩ := headRune_scalar head
    obtain ⟨b', s', hc', head'⟩ := headRune_encodeChar c rest
    obtain ⟨rfl, rfl⟩ := List.cons.inj (hc.symm.trans hc')
    exact ⟨c, Rune.scalar.inj (congrArg Prod.fst (head.symm.trans head'))⟩

private theorem exists_repaired (t : Text) : ∃ cs, t.repaired = encoded cs := by
  have hshown : ∀ rs : List Rune, (∀ r ∈ rs, ∃ c : Char, r.shown = c.val.toNat) →
      ∃ cs, (rs.flatMap fun r => ofScalar r.shown) = encoded cs := by
    intro rs h
    induction rs with
    | nil => exact ⟨[], rfl⟩
    | cons r rs ih =>
      obtain ⟨c, hc⟩ := h r List.mem_cons_self
      obtain ⟨cs, hcs⟩ := ih fun r hr => h r (List.mem_cons_of_mem _ hr)
      refine ⟨c :: cs, ?_⟩
      rw [List.flatMap_cons, hcs, hc, ofScalar_toNat]
      rfl
  exact hshown _ fun r hr => exists_shown hr

private theorem repaired_encoded (cs : List Char) : (encoded cs).repaired = encoded cs := by
  induction cs with
  | nil => rfl
  | cons c cs ih =>
    obtain ⟨b, s, hc, head⟩ := headRune_encodeChar c (encoded cs)
    have bytes : encoded (c :: cs) = b :: (s ++ encoded cs) := by
      simp [encoded, hc]
    have split : piecesAfter 0 (b :: (s ++ encoded cs)) =
        (.scalar c.val.toNat, (b :: (s ++ encoded cs)).take (s.length + 1)) ::
          pieces (encoded cs) := by
      rw [piecesAfter.eq_3, head]
      dsimp only
      rw [Nat.add_sub_cancel, piecesAfter_append]
      rfl
    have rest : Text.repaired (b :: (s ++ encoded cs)) =
        ofScalar c.val.toNat ++ (encoded cs).repaired := by
      unfold repaired runes pieces
      rw [split]
      rfl
    rw [bytes, rest, ih, ofScalar_toNat, hc, List.cons_append]

@[simp] theorem repaired_repaired (t : Text) : t.repaired.repaired = t.repaired := by
  obtain ⟨cs, hcs⟩ := exists_repaired t
  rw [hcs, repaired_encoded]

theorem repaired_of_isUtf8 {t : Text} (h : isUtf8 t = true) : t.repaired = t := by
  obtain ⟨cs, rfl⟩ := (exists_lit_iff t).1 ((isUtf8_iff t).1 h)
  exact repaired_encoded cs

theorem le_of_mem_ofScalar {n low : Nat} (hlow : low ≤ 0x80) (hn : low ≤ n) (hlast : n < 0x110000)
    {b : UInt8} (hb : b ∈ ofScalar n) : low ≤ b.toNat := by
  unfold ofScalar at hb
  split at hb
  · rw [List.mem_singleton.1 hb, Nat.toUInt8, UInt8.toNat_ofNat']
    omega
  split at hb
  · simp only [List.mem_cons, List.not_mem_nil, or_false] at hb
    rcases hb with rfl | rfl <;> rw [Nat.toUInt8, UInt8.toNat_ofNat'] <;> omega
  split at hb
  · simp only [List.mem_cons, List.not_mem_nil, or_false] at hb
    rcases hb with rfl | rfl | rfl <;> rw [Nat.toUInt8, UInt8.toNat_ofNat'] <;> omega
  · simp only [List.mem_cons, List.not_mem_nil, or_false] at hb
    rcases hb with rfl | rfl | rfl | rfl <;> rw [Nat.toUInt8, UInt8.toNat_ofNat'] <;> omega

/-! ### Pieces -/

private theorem headRune_stray {b x : UInt8} {r : Text} {w : Nat}
    (h : headRune b r = (.stray x, w)) :
    x = b ∧ w = 1 := by
  unfold headRune at h
  split at h
  · cases h
  · split at h
    · cases h
    · cases h
      exact ⟨rfl, rfl⟩

private theorem headRune_split {b : UInt8} {r : Text} {rune : Rune} {w : Nat}
    (h : headRune b r = (rune, w)) :
    ∃ s rest : Text, r = s ++ rest ∧ w = s.length + 1 := by
  cases rune with
  | scalar v =>
    obtain ⟨c, s, rest, -, hr, hw⟩ := headRune_scalar h
    exact ⟨s, rest, hr, hw⟩
  | stray x =>
    exact ⟨[], r, rfl, (headRune_stray h).2⟩

theorem flatMap_piecesAfter (t : Text) (k : Nat) :
    (piecesAfter k t).flatMap Prod.snd = t.drop k := by
  induction t generalizing k with
  | nil => rw [piecesAfter, List.drop_nil, List.flatMap_nil]
  | cons b r ih =>
    cases k with
    | succ k => exact ih k
    | zero =>
      cases hhead : headRune b r with
      | mk rune w =>
        obtain ⟨s, rest, rfl, rfl⟩ := headRune_split hhead
        rw [piecesAfter.eq_3, hhead]
        dsimp only
        rw [List.flatMap_cons, ih, Nat.add_sub_cancel, List.take_succ_cons, List.cons_append,
          List.take_append_drop, List.drop_zero]

def Rune.bytes : Rune → Text
  | .scalar n => ofScalar n
  | .stray b => [b]

private theorem bytes_of_mem_piecesAfter {t : Text} {k : Nat} {p : Rune × Text}
    (h : p ∈ piecesAfter k t) :
    p.2 = p.1.bytes := by
  induction t generalizing k with
  | nil => cases h
  | cons b r ih =>
    cases k with
    | succ k => exact ih h
    | zero =>
      cases hhead : headRune b r with
      | mk rune w =>
        rw [piecesAfter.eq_3, hhead] at h
        rcases List.mem_cons.1 h with rfl | h
        · cases rune with
          | stray x =>
            obtain ⟨rfl, rfl⟩ := headRune_stray hhead
            rfl
          | scalar v =>
            obtain ⟨c, s, rest, hc, rfl, rfl⟩ := headRune_scalar hhead
            obtain ⟨b', s', hc', head'⟩ := headRune_encodeChar c rest
            obtain ⟨rfl, rfl⟩ := List.cons.inj (hc.symm.trans hc')
            have hv : v = c.val.toNat :=
              Rune.scalar.inj (congrArg Prod.fst (hhead.symm.trans head'))
            show (b :: (s ++ rest)).take (s.length + 1) = ofScalar v
            rw [hv, ofScalar_toNat, hc, List.take_succ_cons, List.take_left]
        · exact ih h

theorem flatMap_bytes (t : Text) : t.runes.flatMap Rune.bytes = t := by
  have hpieces : (pieces t).flatMap Prod.snd = t := flatMap_piecesAfter t 0
  have hbytes : (pieces t).map Prod.snd = (pieces t).map fun p => p.1.bytes :=
    List.map_congr_left fun p hp => bytes_of_mem_piecesAfter hp
  rw [runes, List.flatMap_map, List.flatMap_def, ← hbytes, ← List.flatMap_def]
  exact hpieces

private theorem headRune_extend {c : UInt8} {r : Text} {v w : Nat}
    (h : headRune c r = (.scalar v, w)) (r' : Text) :
    headRune c (r ++ r') = (.scalar v, w) := by
  obtain ⟨ch, s, rest, hch, rfl, rfl⟩ := headRune_scalar h
  obtain ⟨b₁, s₁, hch₁, hhead₁⟩ := headRune_encodeChar ch rest
  obtain ⟨b₂, s₂, hch₂, hhead₂⟩ := headRune_encodeChar ch (rest ++ r')
  obtain ⟨rfl, rfl⟩ := List.cons.inj (hch.symm.trans hch₁)
  obtain ⟨rfl, rfl⟩ := List.cons.inj (hch.symm.trans hch₂)
  rw [List.append_assoc, hhead₂, ← hhead₁, h]

private theorem headRune_concat {b : UInt8} (hb : b < 0x80) (c : UInt8) (s : Text) :
    headRune c (s ++ [b]) = headRune c s := by
  cases hlong : headRune c (s ++ [b]) with
  | mk rune w =>
    cases rune with
    | stray x =>
      obtain ⟨rfl, rfl⟩ := headRune_stray hlong
      cases hshort : headRune x s with
      | mk rune w =>
        cases rune with
        | scalar v =>
          have hextended := headRune_extend hshort [b]
          rw [hlong] at hextended
          cases hextended
        | stray y =>
          obtain ⟨rfl, rfl⟩ := headRune_stray hshort
          rfl
    | scalar v =>
      obtain ⟨ch, s₁, rest, hch, hs, hw⟩ := headRune_scalar hlong
      rcases List.eq_nil_or_concat rest with rfl | ⟨rest, x, rfl⟩
      · -- The byte would be the last one of a character of several bytes.
        have hmem : b ∈ s₁ := by
          rw [List.append_nil] at hs
          exact hs ▸ List.mem_append_right s (List.mem_singleton_self b)
        have hscalar : ofScalar ch.val.toNat = c :: s₁ := (ofScalar_toNat ch).trans hch
        by_cases hascii : ch.val.toNat < 0x80
        · rw [ofScalar, if_pos hascii] at hscalar
          obtain ⟨-, rfl⟩ := List.cons.inj hscalar
          cases hmem
        · have hhigh : 0x80 ≤ b.toNat := by
            refine le_of_mem_ofScalar (n := ch.val.toNat) (Nat.le_refl _) (Nat.not_lt.1 hascii) ?_
              (hscalar ▸ List.mem_cons_of_mem c hmem)
            rcases char_bounds ch with hlow | hhigh
            · omega
            · exact hhigh.2
          exact absurd (UInt8.lt_iff_toNat_lt.1 hb) (Nat.not_lt.2 hhigh)
      · rw [List.concat_eq_append, ← List.append_assoc] at hs
        obtain ⟨rfl, -⟩ := List.append_inj' hs rfl
        obtain ⟨b₁, s₂, hch₁, hhead⟩ := headRune_encodeChar ch rest
        obtain ⟨rfl, rfl⟩ := List.cons.inj (hch.symm.trans hch₁)
        have hextended := headRune_extend hhead [b]
        rw [hlong] at hextended
        rw [hhead, hextended]

theorem piecesAfter_concat {b : UInt8} (hb : b < 0x80) (s : Text) (k : Nat) (hk : k ≤ s.length) :
    piecesAfter k (s ++ [b]) = piecesAfter k s ++ [(.scalar b.toNat, [b])] := by
  induction s generalizing k with
  | nil =>
    obtain rfl : k = 0 := Nat.le_zero.1 hk
    have hhead : headRune b [] = (.scalar b.toNat, 1) := if_pos hb
    rw [List.nil_append, piecesAfter.eq_3, hhead]
    rfl
  | cons c s ih =>
    cases k with
    | succ k => exact ih k (Nat.le_of_succ_le_succ hk)
    | zero =>
      cases hhead : headRune c s with
      | mk rune w =>
        have hrest := ih (w - 1)
        obtain ⟨s₁, rest, hs, hw⟩ := headRune_split hhead
        have hwidth : w - 1 ≤ s.length := by
          rw [hs, hw, List.length_append]
          omega
        have htake : (c :: (s ++ [b])).take w = (c :: s).take w := by
          rw [← List.cons_append]
          exact List.take_append_of_le_length (by rw [List.length_cons]; omega)
        rw [List.cons_append, piecesAfter.eq_3, piecesAfter.eq_3, headRune_concat hb, hhead]
        dsimp only
        rw [hrest hwidth, htake, List.cons_append]

end Lox.Text

import Lox.Json.Reader
import Lox.Proofs.Utf8

set_option autoImplicit false
set_option relaxedAutoImplicit false

namespace Lox

open Text (lit)

namespace Json

def pieceOf : Text.Rune → Text
  | .scalar n => escaped n
  | .stray _ => unicodeEscape Text.replacement

theorem quoted_eq (t : Text) :
    quoted t = Byte.quote :: (t.runes.flatMap pieceOf ++ [Byte.quote]) := by
  unfold quoted
  refine congrArg (fun f => Byte.quote :: (t.runes.flatMap f ++ [Byte.quote])) (funext fun r => ?_)
  cases r <;> rfl

/-! ### No control characters -/

theorem unicodeEscape_eq (n : Nat) : unicodeEscape n = [92, 117, Byte.hexDigit (n / 4096 % 16),
    Byte.hexDigit (n / 256 % 16), Byte.hexDigit (n / 16 % 16), Byte.hexDigit (n % 16)] := by
  have hhead : lit "\\u" = [92, 117] := by decide
  rw [unicodeEscape, hhead]
  rfl

private theorem hexDigit_visible {n : Nat} (h : n < 16) : 32 ≤ (Byte.hexDigit n).toNat := by
  revert n
  decide

private theorem unicodeEscape_visible (n : Nat) {b : UInt8} (hb : b ∈ unicodeEscape n) :
    32 ≤ b.toNat := by
  rw [unicodeEscape_eq] at hb
  simp only [List.mem_cons, List.not_mem_nil, or_false] at hb
  rcases hb with rfl | rfl | rfl | rfl | rfl | rfl
  · decide
  · decide
  all_goals exact hexDigit_visible (Nat.mod_lt _ (by decide))

theorem escaped_cases (n : Nat) :
    (∃ b c, escaped n = [92, b] ∧ 32 ≤ b.toNat ∧ b ≠ 117 ∧ shortEscape? b = some c ∧
        Text.ofScalar n = [c]) ∨
      (escaped n = unicodeEscape n ∧ n < 0xD800) ∨
      (escaped n = Text.ofScalar n ∧ 32 ≤ n ∧ n ≠ 34 ∧ n ≠ 92) := by
  by_cases hshort : n ∈ [34, 92, 8, 12, 10, 13, 9]
  · refine .inl ?_
    simp only [List.mem_cons, List.not_mem_nil, or_false] at hshort
    rcases hshort with rfl | rfl | rfl | rfl | rfl | rfl | rfl
    · exact ⟨34, 34, by decide⟩
    · exact ⟨92, 92, by decide⟩
    · exact ⟨98, 8, by decide⟩
    · exact ⟨102, 12, by decide⟩
    · exact ⟨110, 10, by decide⟩
    · exact ⟨114, 13, by decide⟩
    · exact ⟨116, 9, by decide⟩
  · simp only [List.mem_cons, List.not_mem_nil, or_false, not_or] at hshort
    obtain ⟨h34, h92, h8, h12, h10, h13, h9⟩ := hshort
    refine .inr ?_
    unfold escaped
    rw [if_neg h34, if_neg h92, if_neg h8, if_neg h12, if_neg h10, if_neg h13, if_neg h9]
    split
    · rename_i hmarkup
      refine .inl ⟨rfl, ?_⟩
      simp at hmarkup
      omega
    · rename_i hplain
      refine .inr ⟨rfl, ?_, h34, h92⟩
      simp at hplain
      omega

private theorem escaped_visible {n : Nat} (h : n < 0x110000) {b : UInt8} (hb : b ∈ escaped n) :
    32 ≤ b.toNat := by
  obtain ⟨b', c, hshort, hlow, -, -, -⟩ | ⟨hunicode, -⟩ | ⟨hplain, hlow, -, -⟩ := escaped_cases n
  · rw [hshort] at hb
    simp only [List.mem_cons, List.not_mem_nil, or_false] at hb
    rcases hb with rfl | rfl
    · decide
    · exact hlow
  · exact unicodeEscape_visible n (hunicode ▸ hb)
  · exact Text.le_of_mem_ofScalar (by decide) hlow h (hplain ▸ hb)

theorem quoted_visible (t : Text) {b : UInt8} (hb : b ∈ quoted t) : 32 ≤ b.toNat := by
  rw [quoted_eq] at hb
  simp only [List.mem_cons, List.mem_append, List.mem_flatMap, List.not_mem_nil, or_false] at hb
  rcases hb with rfl | ⟨r, hr, hb⟩ | rfl
  · decide
  · cases r with
    | stray _ => exact unicodeEscape_visible _ hb
    | scalar n =>
      obtain ⟨c, hc⟩ := Text.exists_shown hr
      have hn : n = c.val.toNat := hc
      refine escaped_visible (hn ▸ ?_) hb
      have hvalid : c.val.toNat < 0xD800 ∨ 0xDFFF < c.val.toNat ∧ c.val.toNat < 0x110000 := c.valid
      omega
  · decide

/-! ### Reading -/

/-- A piece of a string is decoded, whatever was decoded before and whatever follows. It takes at
most one step for each of its bytes. -/
def Decodes (s u : Text) : Prop :=
  ∀ fuel acc r, s.length ≤ fuel → ∃ fuel', fuel ≤ fuel' + s.length ∧
    stringBody? fuel acc (s ++ r) = stringBody? fuel' (u.reverse ++ acc) r

namespace Decodes

variable {s s' u u' : Text}

private theorem nil : Decodes [] [] := fun fuel _ _ _ => ⟨fuel, Nat.le_refl _, rfl⟩

private theorem append (h : Decodes s u) (h' : Decodes s' u') : Decodes (s ++ s') (u ++ u') := by
  intro fuel acc r hfuel
  rw [List.length_append] at hfuel
  obtain ⟨fuel₁, hfuel₁, hfirst⟩ := h fuel acc (s' ++ r) (by omega)
  obtain ⟨fuel₂, hfuel₂, hsecond⟩ := h' fuel₁ (u.reverse ++ acc) r (by omega)
  refine ⟨fuel₂, by rw [List.length_append]; omega, ?_⟩
  rw [List.append_assoc, hfirst, hsecond, List.reverse_append, List.append_assoc]

private theorem byte {b : UInt8} (h : 32 ≤ b.toNat) (hquote : b.toNat ≠ 34)
    (hslash : b.toNat ≠ 92) :
    Decodes [b] [b] := by
  intro fuel acc r hfuel
  obtain ⟨fuel, rfl⟩ := Nat.exists_eq_add_of_le' hfuel
  refine ⟨fuel, Nat.le_refl _, ?_⟩
  have hlow : ¬ b < 32 := fun hlt => absurd (UInt8.lt_iff_toNat_lt.1 hlt) (Nat.not_lt.2 h)
  have hquote : b ≠ 34 := fun heq => hquote (congrArg UInt8.toNat heq)
  have hslash : b ≠ 92 := fun heq => hslash (congrArg UInt8.toNat heq)
  show stringBody? (fuel + 1) acc (b :: r) = stringBody? fuel (b :: acc) r
  rw [stringBody?.eq_6 _ _ _ _ hquote (fun _ h _ => hslash h) (fun _ _ h _ => hslash h)]
  simp [hlow, hslash]

private theorem bytes (h : ∀ b ∈ s, 32 ≤ b.toNat ∧ b.toNat ≠ 34 ∧ b.toNat ≠ 92) : Decodes s s := by
  induction s with
  | nil => exact nil
  | cons b s ih =>
    obtain ⟨hlow, hquote, hslash⟩ := h b List.mem_cons_self
    exact append (byte hlow hquote hslash) (ih fun b hb => h b (List.mem_cons_of_mem _ hb))

private theorem short {b c : UInt8} (h : shortEscape? b = some c) (hu : b ≠ 117) :
    Decodes [92, b] [c] := by
  intro fuel acc r hfuel
  obtain ⟨fuel, rfl⟩ := Nat.exists_eq_add_of_le' hfuel
  refine ⟨fuel + 1, Nat.le_succ _, ?_⟩
  show stringBody? (fuel + 2) acc (92 :: b :: r) = _
  rw [stringBody?.eq_5 _ _ _ _ hu, h]
  rfl

private theorem hexValue?_hexDigit {n : Nat} (h : n < 16) :
    Byte.hexValue? (Byte.hexDigit n) = some n := by
  revert n
  decide

private theorem unicode {n : Nat} (h : n < 0xD800 ∨ 0xDFFF < n ∧ n < 0x10000) :
    Decodes (unicodeEscape n) (Text.ofScalar n) := by
  intro fuel acc r hfuel
  rw [unicodeEscape_eq] at hfuel ⊢
  obtain ⟨fuel, rfl⟩ := Nat.exists_eq_add_of_le' hfuel
  refine ⟨fuel + 5, Nat.add_le_add_right (Nat.le_add_right _ _) _, ?_⟩
  have hdigits : fourHex? (Byte.hexDigit (n / 4096 % 16) :: Byte.hexDigit (n / 256 % 16) ::
      Byte.hexDigit (n / 16 % 16) :: Byte.hexDigit (n % 16) :: r) = some (n, r) := by
    have hdigit (k : Nat) : Byte.hexValue? (Byte.hexDigit (k % 16)) = some (k % 16) :=
      hexValue?_hexDigit (Nat.mod_lt _ (by decide))
    simp only [fourHex?, hdigit, Option.bind_eq_bind, Option.bind_some, Option.pure_def]
    congr 2
    omega
  have hplain : fromEscape n r = (Text.ofScalar n, r) := by
    have hhigh : isHighHalf n = false := by
      simp [isHighHalf]
      omega
    have hlow : isLowHalf n = false := by
      simp [isLowHalf]
      omega
    simp [fromEscape, hhigh, hlow]
  show stringBody? (fuel + 6) acc (92 :: 117 :: (Byte.hexDigit (n / 4096 % 16) ::
    Byte.hexDigit (n / 256 % 16) :: Byte.hexDigit (n / 16 % 16) :: Byte.hexDigit (n % 16) :: r)) = _
  rw [stringBody?.eq_4, hdigits]
  dsimp only
  rw [hplain]

private theorem character (c : Char) :
    Decodes (escaped c.val.toNat) (Text.ofScalar c.val.toNat) := by
  have hvalid : c.val.toNat < 0xD800 ∨ 0xDFFF < c.val.toNat ∧ c.val.toNat < 0x110000 := c.valid
  generalize c.val.toNat = n at hvalid
  obtain ⟨b, c, hshort, -, hu, hescape, hscalar⟩ | ⟨hunicode, hn⟩ | ⟨hplain, hlow, h34, h92⟩ :=
    escaped_cases n
  · rw [hshort, hscalar]
    exact short hescape hu
  · rw [hunicode]
    exact unicode (.inl hn)
  · rw [hplain]
    refine bytes fun b hb => ?_
    by_cases hascii : n < 0x80
    · rw [Text.ofScalar, if_pos hascii, List.mem_singleton] at hb
      have hbyte : b.toNat = n := by
        rw [hb, Nat.toUInt8, UInt8.toNat_ofNat']
        omega
      exact hbyte ▸ ⟨hlow, h34, h92⟩
    · have hhigh := Text.le_of_mem_ofScalar (Nat.le_refl 0x80) (Nat.not_lt.1 hascii) (by omega) hb
      omega

private theorem piece {t : Text} {r : Text.Rune} (hr : r ∈ t.runes) :
    Decodes (pieceOf r) (Text.ofScalar r.shown) := by
  cases r with
  | stray b => exact unicode (by decide)
  | scalar n =>
    obtain ⟨c, hc⟩ := Text.exists_shown hr
    have hn : n = c.val.toNat := hc
    exact hn ▸ character c

private theorem pieces {rs : List Text.Rune}
    (h : ∀ r ∈ rs, Decodes (pieceOf r) (Text.ofScalar r.shown)) :
    Decodes (rs.flatMap pieceOf) (rs.flatMap fun r => Text.ofScalar r.shown) := by
  induction rs with
  | nil => exact nil
  | cons r rs ih =>
    rw [List.flatMap_cons, List.flatMap_cons]
    exact (h r List.mem_cons_self).append (ih fun r hr => h r (List.mem_cons_of_mem _ hr))

end Decodes

theorem string?_quoted (t rest : Text) :
    string? (t.runes.flatMap pieceOf ++ Byte.quote :: rest) = some (t.repaired, rest) := by
  have hdecodes : Decodes (t.runes.flatMap pieceOf) t.repaired := .pieces fun r hr => .piece hr
  obtain ⟨fuel, hfuel, hbody⟩ :=
    hdecodes ((t.runes.flatMap pieceOf ++ Byte.quote :: rest).length + 1) []
    (Byte.quote :: rest) (by simp; omega)
  obtain ⟨fuel, rfl⟩ : ∃ k, fuel = k + 1 := ⟨fuel - 1, by simp at hfuel; omega⟩
  unfold string?
  rw [hbody, Byte.quote, stringBody?.eq_3]
  simp

end Json

end Lox

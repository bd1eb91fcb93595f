import Lox.Proofs.Decimal.Shortest
import Lox.Json.Reader
import Lox.Proofs.Lexeme

set_option autoImplicit false
set_option relaxedAutoImplicit false

namespace Lox

open Text (lit)

namespace Text

private theorem digit_bounds {n : Nat} {c : Char} (h : c ∈ Nat.toDigits 10 n) :
    48 ≤ c.toNat ∧ c.toNat ≤ 57 := by
  have hdigit := Nat.isDigit_of_mem_toDigits (by decide) (by decide) h
  rw [Char.isDigit, Bool.and_eq_true, decide_eq_true_eq, decide_eq_true_eq, ge_iff_le,
    UInt32.le_iff_toNat_le, UInt32.le_iff_toNat_le] at hdigit
  exact hdigit

private theorem toNat_digit {n : Nat} {c : Char} (h : c ∈ Nat.toDigits 10 n) :
    c.toNat.toUInt8.toNat = c.toNat := by
  have hbounds := digit_bounds h
  rw [Nat.toUInt8, UInt8.toNat_ofNat']
  omega

theorem isDigit_of_mem_ofNat {n : Nat} {b : UInt8} (h : b ∈ ofNat n) : Byte.isDigit b = true := by
  obtain ⟨c, hc, rfl⟩ := List.mem_map.1 h
  have hbounds := digit_bounds hc
  have hbyte := toNat_digit hc
  simp only [Byte.isDigit, Bool.and_eq_true, decide_eq_true_eq, UInt8.le_iff_toNat_le]
  rw [hbyte]
  exact hbounds

theorem ofNat_ne_nil (n : Nat) : ofNat n ≠ [] := by
  intro h
  exact Nat.toDigits_ne_nil (List.map_eq_nil_iff.1 h)

private theorem exists_cons_ofNat {n : Nat} (h : 0 < n) : ∃ d ds, ofNat n = d :: ds ∧ d ≠ 48 := by
  induction n using Nat.strongRecOn with
  | ind n ih =>
    by_cases hsmall : n < 10
    · have hdigits : Nat.toDigits 10 n = [n.digitChar] := Nat.toDigits_of_lt_base hsmall
      have hdigit : ∀ k < 10, 0 < k → k.digitChar.toNat.toUInt8 ≠ 48 := by decide
      refine ⟨_, [], ?_, hdigit n hsmall h⟩
      rw [ofNat, hdigits]
      rfl
    · have hdigits : Nat.toDigits 10 n = Nat.toDigits 10 (n / 10) ++ [(n % 10).digitChar] :=
        Nat.toDigits_of_base_le (by decide) (Nat.not_lt.1 hsmall)
      obtain ⟨d, ds, hfirst, hd⟩ := ih (n / 10) (by omega) (by omega)
      refine ⟨d, ds ++ [(n % 10).digitChar.toNat.toUInt8], ?_, hd⟩
      rw [ofNat, hdigits, List.map_append, ← ofNat, hfirst]
      rfl

theorem foldl_ofNat (n : Nat) : (ofNat n).foldl (fun k b => k * 10 + (b.toNat - 48)) 0 = n := by
  have hvalues : (Nat.toDigits 10 n).map (fun c => c.toNat.toUInt8.toNat - 48) =
      (Nat.toDigits 10 n).map fun c => c.toNat - 48 :=
    List.map_congr_left fun c hc => by rw [toNat_digit hc]
  have hnumber := Decimal.number_toDigits n
  rw [← hvalues, Decimal.number, List.foldl_map] at hnumber
  rw [ofNat, List.foldl_map]
  exact hnumber

end Text

namespace Json

def Closes (rest : Text) : Prop := ∀ b ∈ rest.head?, b = 44 ∨ b = 93 ∨ b = 125

theorem closes_nil : Closes [] := by
  intro b hb
  cases hb

theorem closes_cons {b : UInt8} (h : b = 44 ∨ b = 93 ∨ b = 125) (r : Text) : Closes (b :: r) := by
  intro c hc
  rw [List.head?_cons, Option.mem_some_iff] at hc
  exact hc ▸ h

private theorem Closes.cases {rest : Text} (h : Closes rest) :
    rest = [] ∨ ∃ b r, rest = b :: r ∧ (b = 44 ∨ b = 93 ∨ b = 125) := by
  cases rest with
  | nil => exact .inl rfl
  | cons b r => exact .inr ⟨b, r, rfl, h b rfl⟩

private theorem whole?_ofNat (n : Nat) {rest : Text} (h : Closes rest) :
    whole? (Text.ofNat n ++ rest) = some (Text.ofNat n, rest) := by
  rcases Nat.eq_zero_or_pos n with rfl | hpos
  · rfl
  · have hend : ∀ c r, rest = c :: r → Byte.isDigit c = false := by
      intro c r hrest
      obtain hnil | ⟨b, r', hcons, hb⟩ := h.cases
      · rw [hnil] at hrest
        cases hrest
      · obtain ⟨rfl, rfl⟩ := List.cons.inj (hcons.symm.trans hrest)
        rcases hb with rfl | rfl | rfl <;> rfl
    have hdigits : digits? (Text.ofNat n ++ rest) = some (Text.ofNat n, rest) := by
      have hall : ∀ d ∈ Text.ofNat n, Byte.isDigit d = true := fun d => Text.isDigit_of_mem_ofNat
      have hsome : (Text.ofNat n).isEmpty = false := by
        rw [List.isEmpty_eq_false_iff]
        exact Text.ofNat_ne_nil n
      unfold digits?
      rw [Token.takeWhile_digits hall hend, Token.dropWhile_digits hall hend]
      simp only [hsome, Bool.false_eq_true, if_false]
    obtain ⟨d, ds, hcons, hd⟩ := Text.exists_cons_ofNat hpos
    rw [hcons] at hdigits ⊢
    rw [← hdigits, List.cons_append, whole?]
    intro r hzero
    exact absurd (List.cons.inj hzero).1 hd

private theorem numeral?_ofNat (n : Nat) {rest : Text} (h : Closes rest) (sign : Text) :
    (do
      let (w, r) ← whole? (Text.ofNat n ++ rest)
      let (f, r) ← fraction? r
      let (p, r) ← power? r
      return (sign ++ w ++ f ++ p, r)) = some (sign ++ Text.ofNat n, rest) := by
  rw [whole?_ofNat n h]
  obtain rfl | ⟨b, r, rfl, rfl | rfl | rfl⟩ := h.cases <;>
    simp [fraction?, power?, Byte.lower]

theorem numeral?_ofInt (n : Int) {rest : Text} (h : Closes rest) :
    numeral? (Text.ofInt n ++ rest) = some (Text.ofInt n, rest) := by
  have hminus : lit "-" = [45] := by decide
  cases n with
  | ofNat n =>
    obtain ⟨d, ds, hcons⟩ := List.exists_cons_of_ne_nil (Text.ofNat_ne_nil n)
    have hd : d ≠ 45 := by
      rintro rfl
      have hdigit : Byte.isDigit 45 = true := Text.isDigit_of_mem_ofNat (hcons ▸ List.mem_cons_self)
      exact absurd hdigit (by decide)
    have hnumeral := numeral?_ofNat n h []
    rw [Text.ofInt]
    rw [hcons] at hnumeral ⊢
    unfold numeral?
    split
    rename_i sign r hsign
    split at hsign
    · rename_i r' hminus'
      exact absurd (List.cons.inj hminus').1 hd
    · cases hsign
      exact hnumeral
  | negSucc n =>
    have hnumeral := numeral?_ofNat (n + 1) h [45]
    rw [Text.ofInt, hminus]
    exact hnumeral

end Json

end Lox

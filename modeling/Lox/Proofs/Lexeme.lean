import Lox.Proofs.Utf8
import Lox.Token.Scan

set_option autoImplicit false
set_option relaxedAutoImplicit false

namespace Lox

open Text (lit)

namespace Token

/-- The lexemes of each kind: the text that a token keeps of one, and the bytes that it takes. -/
inductive IsLexeme : Kind → Text → Text → Prop
  | keyword (k : Keyword) : IsLexeme (.keyword k) k.spelling k.spelling
  | mark (m : Mark) : IsLexeme (.mark m) m.spelling m.spelling
  | name {b : UInt8} {r : Text} :
      Byte.isLetter b = true → (∀ c ∈ r, Byte.isNamePart c = true) →
      (∀ k : Keyword, k.spelling ≠ b :: r) → IsLexeme .name (b :: r) (b :: r)
  | whole {ds : Text} :
      ds ≠ [] → (∀ d ∈ ds, Byte.isDigit d = true) → IsLexeme .number ds ds
  | fraction {ds fs : Text} :
      ds ≠ [] → (∀ d ∈ ds, Byte.isDigit d = true) → fs ≠ [] → (∀ d ∈ fs, Byte.isDigit d = true) →
      IsLexeme .number (ds ++ Byte.dot :: fs) (ds ++ Byte.dot :: fs)
  | string {s : String} :
      Byte.quote ∉ lit s → IsLexeme .string (lit s) (Byte.quote :: lit s ++ [Byte.quote])

def Longest (x rest : Text) : Prop :=
  ∀ (kind : Kind) (text y : Text), IsLexeme kind text y → y <+: x ++ rest → y.length ≤ x.length

end Token

/-! ### Reserved words and marks -/

private theorem Keyword.spelling_word (k : Keyword) :
    ∃ b r, k.spelling = b :: r ∧ Byte.isLetter b = true ∧ ∀ c ∈ r, Byte.isNamePart c = true := by
  cases k <;> exact ⟨_, _, rfl, by decide, List.all_eq_true.1 (by decide)⟩

private theorem Keyword.ofSpelling?_spelling (k : Keyword) :
    Keyword.ofSpelling? k.spelling = some k := by
  cases k <;> decide

private theorem Keyword.ofSpelling?_eq_some {t : Text} {k : Keyword} :
    Keyword.ofSpelling? t = some k ↔ k.spelling = t := by
  constructor
  · intro h
    simpa using List.find?_some h
  · rintro rfl
    exact k.ofSpelling?_spelling

theorem Keyword.ofSpelling?_eq_none {t : Text} :
    Keyword.ofSpelling? t = none ↔ ∀ k : Keyword, k.spelling ≠ t := by
  rw [Option.eq_none_iff_forall_ne_some]
  simp [Keyword.ofSpelling?_eq_some]

private theorem ite_some_cases {α : Type} {p : Prop} [Decidable p] {a m : α} {other : Option α}
    (h : (if p then some a else other) = some m) : (p ∧ a = m) ∨ other = some m := by
  by_cases hp : p
  · exact .inl ⟨hp, by simpa [hp] using h⟩
  · exact .inr (by simpa [hp] using h)

private theorem Mark.spelling_ofByte? {b : UInt8} {m : Mark} (h : Mark.ofByte? b = some m) :
    m.spelling = [b] := by
  unfold Mark.ofByte? at h
  repeat
    obtain ⟨rfl, rfl⟩ | h := ite_some_cases h
    · rfl
  cases h

theorem Mark.spelling_cases (m : Mark) :
    (∃ b, m.spelling = [b] ∧ Mark.ofByte? b = some m) ∨
      ∃ b base, m.spelling = [b, 61] ∧ Mark.ofByte? b = some base ∧ base.withEqual? = some m := by
  cases m <;> first
    | exact .inl ⟨_, rfl, rfl⟩
    | exact .inr ⟨_, _, rfl, rfl, rfl⟩

private theorem Mark.spelling_withEqual? {b : UInt8} {base m : Mark}
    (hb : Mark.ofByte? b = some base) (hm : base.withEqual? = some m) : m.spelling = [b, 61] := by
  have single := Mark.spelling_ofByte? hb
  revert single hm
  cases base <;> simp only [Mark.withEqual?, reduceCtorEq, Option.some.injEq, false_implies]
  all_goals
    rintro rfl single
    have hbyte := (List.cons.inj single).1
    subst hbyte
    rfl

theorem Mark.ofByte?_class {b : UInt8} {m : Mark} (h : Mark.ofByte? b = some m) :
    Byte.isLetter b = false ∧ Byte.isDigit b = false ∧ b ≠ Byte.quote := by
  have single := Mark.spelling_ofByte? h
  cases m
  all_goals
    have hbyte := (List.cons.inj single).1
    subst hbyte
    decide

namespace Byte

theorem isDigit_of_isLetter {b : UInt8} (h : isLetter b = true) : isDigit b = false := by
  simp only [isLetter, isDigit, Bool.or_eq_true, Bool.and_eq_true, decide_eq_true_eq, beq_iff_eq,
    Bool.and_eq_false_iff, decide_eq_false_iff_not, UInt8.le_iff_toNat_le, UInt8.reduceToNat,
    ← UInt8.toNat_inj, underscore] at h ⊢
  omega

theorem ne_quote_of_isLetter {b : UInt8} (h : isLetter b = true) : b ≠ quote := by
  rintro rfl
  exact absurd h (by decide)

theorem ne_quote_of_isDigit {b : UInt8} (h : isDigit b = true) : b ≠ quote := by
  rintro rfl
  exact absurd h (by decide)

end Byte

namespace Token

def wordKind (w : Text) : Kind :=
  match Keyword.ofSpelling? w with
  | some k => .keyword k
  | none => .name

def NumberTail (r : Text) : Prop :=
  (∀ d ∈ r, Byte.isDigit d = true) ∨
    ∃ ds fs, r = ds ++ Byte.dot :: fs ∧ (∀ d ∈ ds, Byte.isDigit d = true) ∧ fs ≠ [] ∧
      ∀ d ∈ fs, Byte.isDigit d = true

/-- What holds of digits and of the point holds of all bytes that follow the first digit of a
number. -/
theorem NumberTail.forall_mem {P : UInt8 → Prop} {r : Text} (h : NumberTail r)
    (hdigit : ∀ b, Byte.isDigit b = true → P b) (hdot : P Byte.dot) : ∀ b ∈ r, P b := by
  obtain h | ⟨ds, fs, rfl, hds, -, hfs⟩ := h
  · exact fun b hb => hdigit b (h b hb)
  · refine List.forall_mem_append.2 ⟨fun b hb => hdigit b (hds b hb), ?_⟩
    exact List.forall_mem_cons.2 ⟨hdot, fun b hb => hdigit b (hfs b hb)⟩

def MarkTail (m : Mark) (kind : Kind) (r : Text) : Prop :=
  (kind = .mark m ∧ r = []) ∨ ∃ longer, m.withEqual? = some longer ∧ kind = .mark longer ∧ r = [61]

/-- The first byte of a lexeme tells its class, and the class tells the kind, the text and the form
of the other bytes. -/
theorem IsLexeme.first_byte {kind : Kind} {text x : Text} (h : IsLexeme kind text x) :
    ∃ b r, x = b :: r ∧
      ((Byte.isLetter b = true ∧ kind = wordKind x ∧ text = x ∧ ∀ c ∈ r, Byte.isNamePart c = true) ∨
        (Byte.isDigit b = true ∧ kind = .number ∧ text = x ∧ NumberTail r) ∨
        (∃ m, Mark.ofByte? b = some m ∧ text = x ∧ MarkTail m kind r) ∨
        (b = Byte.quote ∧ kind = .string ∧ Byte.quote ∉ text ∧ (∃ s : String, text = lit s) ∧
          r = text ++ [Byte.quote])) := by
  cases h with
  | keyword k =>
    obtain ⟨b, r, hk, hb, hr⟩ := k.spelling_word
    exact ⟨b, r, hk, .inl ⟨hb, by simp [wordKind, Keyword.ofSpelling?_spelling], rfl, hr⟩⟩
  | mark m =>
    obtain ⟨b, hm, hb⟩ | ⟨b, base, hm, hb, hlonger⟩ := m.spelling_cases
    · exact ⟨b, [], hm, .inr (.inr (.inl ⟨m, hb, rfl, .inl ⟨rfl, rfl⟩⟩))⟩
    · exact ⟨b, [61], hm, .inr (.inr (.inl ⟨base, hb, rfl, .inr ⟨m, hlonger, rfl, rfl⟩⟩))⟩
  | @name b r hb hr hk =>
    exact ⟨b, r, rfl, .inl ⟨hb, by simp [wordKind, Keyword.ofSpelling?_eq_none.mpr hk], rfl, hr⟩⟩
  | whole hne hd =>
    cases text with
    | nil => exact absurd rfl hne
    | cons b r =>
      rw [List.forall_mem_cons] at hd
      exact ⟨b, r, rfl, .inr (.inl ⟨hd.1, rfl, rfl, .inl hd.2⟩)⟩
  | @fraction ds fs hne hd hne' hd' =>
    cases ds with
    | nil => exact absurd rfl hne
    | cons b ds =>
      rw [List.forall_mem_cons] at hd
      exact ⟨b, _, rfl, .inr (.inl ⟨hd.1, rfl, rfl, .inr ⟨ds, fs, rfl, hd.2, hne', hd'⟩⟩)⟩
  | @string s hs =>
    exact ⟨Byte.quote, _, rfl, .inr (.inr (.inr ⟨rfl, rfl, hs, ⟨s, rfl⟩, rfl⟩))⟩

/-! ### Lexemes that begin with a given byte -/

variable {kind : Kind} {text r : Text} {b : UInt8}

theorem IsLexeme.of_letter (h : IsLexeme kind text (b :: r)) (hb : Byte.isLetter b = true) :
    kind = wordKind (b :: r) ∧ text = b :: r ∧ ∀ c ∈ r, Byte.isNamePart c = true := by
  obtain ⟨b', r', hx, class_⟩ := h.first_byte
  obtain ⟨rfl, rfl⟩ := List.cons.inj hx
  obtain ⟨-, shape⟩ | ⟨hd, -⟩ | ⟨m, hm, -⟩ | ⟨rfl, -⟩ := class_
  · exact shape
  · exact absurd hd (by simp [Byte.isDigit_of_isLetter hb])
  · exact absurd hb (by simp [(Mark.ofByte?_class hm).1])
  · exact absurd rfl (Byte.ne_quote_of_isLetter hb)

theorem IsLexeme.of_digit (h : IsLexeme kind text (b :: r)) (hb : Byte.isDigit b = true) :
    kind = .number ∧ text = b :: r ∧ NumberTail r := by
  obtain ⟨b', r', hx, class_⟩ := h.first_byte
  obtain ⟨rfl, rfl⟩ := List.cons.inj hx
  obtain ⟨hl, -⟩ | ⟨-, shape⟩ | ⟨m, hm, -⟩ | ⟨rfl, -⟩ := class_
  · exact absurd hb (by simp [Byte.isDigit_of_isLetter hl])
  · exact shape
  · exact absurd hb (by simp [(Mark.ofByte?_class hm).2.1])
  · exact absurd rfl (Byte.ne_quote_of_isDigit hb)

theorem IsLexeme.of_mark {m : Mark} (h : IsLexeme kind text (b :: r))
    (hb : Mark.ofByte? b = some m) : text = b :: r ∧ MarkTail m kind r := by
  obtain ⟨hletter, hdigit, hquote⟩ := Mark.ofByte?_class hb
  obtain ⟨b', r', hx, class_⟩ := h.first_byte
  obtain ⟨rfl, rfl⟩ := List.cons.inj hx
  obtain ⟨hl, -⟩ | ⟨hd, -⟩ | ⟨m', hm, shape⟩ | ⟨rfl, -⟩ := class_
  · exact absurd hl (by simp [hletter])
  · exact absurd hd (by simp [hdigit])
  · obtain rfl : m' = m := Option.some.inj (hm.symm.trans hb)
    exact shape
  · exact absurd rfl hquote

theorem IsLexeme.of_quote (h : IsLexeme kind text (Byte.quote :: r)) :
    kind = .string ∧ Byte.quote ∉ text ∧ (∃ s : String, text = lit s) ∧
      r = text ++ [Byte.quote] := by
  obtain ⟨b', r', hx, class_⟩ := h.first_byte
  obtain ⟨rfl, rfl⟩ := List.cons.inj hx
  obtain ⟨hl, -⟩ | ⟨hd, -⟩ | ⟨m, hm, -⟩ | ⟨-, shape⟩ := class_
  · exact absurd rfl (Byte.ne_quote_of_isLetter hl)
  · exact absurd rfl (Byte.ne_quote_of_isDigit hd)
  · exact absurd rfl (Mark.ofByte?_class hm).2.2
  · exact shape

private theorem IsLexeme.unique {kind' : Kind} {text' x : Text} (h : IsLexeme kind text x)
    (h' : IsLexeme kind' text' x) : kind = kind' ∧ text = text' := by
  obtain ⟨b, r, rfl, class_⟩ := h.first_byte
  obtain ⟨hb, rfl, rfl, -⟩ | ⟨hb, rfl, rfl, -⟩ | ⟨m, hb, rfl, tail⟩ | ⟨rfl, rfl, -, -, hr⟩ := class_
  · obtain ⟨rfl, rfl, -⟩ := h'.of_letter hb
    exact ⟨rfl, rfl⟩
  · obtain ⟨rfl, rfl, -⟩ := h'.of_digit hb
    exact ⟨rfl, rfl⟩
  · obtain ⟨rfl, tail'⟩ := h'.of_mark hb
    refine ⟨?_, rfl⟩
    obtain ⟨rfl, rfl⟩ | ⟨l, hl, rfl, rfl⟩ := tail <;> obtain ⟨rfl, hr⟩ | ⟨l', hl', rfl, hr⟩ := tail'
    · rfl
    · cases hr
    · cases hr
    · rw [Option.some.inj (hl.symm.trans hl')]
  · obtain ⟨rfl, -, -, hr'⟩ := h'.of_quote
    exact ⟨rfl, List.append_cancel_right (hr.symm.trans hr')⟩

/-! ### Cutting -/

/-- The text begins with a lexeme that no longer lexeme could replace, and goes on with the rest. -/
structure Cuts (t : Text) (l : Lexeme) (rest : Text) : Prop where
  lexeme : IsLexeme l.kind l.text l.bytes
  split : t = l.bytes ++ rest
  longest : Longest l.bytes rest

private theorem prefix_takeWhile {p : UInt8 → Bool} {y t : Text} (hy : ∀ c ∈ y, p c = true)
    (h : y <+: t) : y <+: t.takeWhile p := by
  obtain ⟨s, rfl⟩ := h
  rw [List.takeWhile_append_of_pos hy]
  exact List.prefix_append y _

private theorem prefix_cons {y t : Text} (hy : IsLexeme kind text y) (h : y <+: b :: t) :
    ∃ r, y = b :: r ∧ r <+: t := by
  obtain ⟨c, r, rfl, -⟩ := hy.first_byte
  obtain ⟨rfl, hr⟩ := List.cons_prefix_cons.mp h
  exact ⟨r, rfl, hr⟩

private theorem cuts_cutMark {m : Mark} (hb : Mark.ofByte? b = some m) (r : Text) :
    Cuts (b :: r) (cutMark m b r).1 (cutMark m b r).2 := by
  unfold cutMark
  split
  · rename_i longer rest hlonger
    have spelled := Mark.spelling_withEqual? hb hlonger
    refine ⟨spelled ▸ IsLexeme.mark longer, rfl, ?_⟩
    intro kind text y hy hprefix
    obtain ⟨r, rfl, -⟩ := prefix_cons hy hprefix
    obtain ⟨-, ⟨-, rfl⟩ | ⟨_, -, -, rfl⟩⟩ := hy.of_mark hb <;> simp [Lexeme.verbatim]
  · rename_i hshort
    have spelled := Mark.spelling_ofByte? hb
    refine ⟨spelled ▸ IsLexeme.mark m, rfl, ?_⟩
    intro kind text y hy hprefix
    obtain ⟨s, rfl, hs⟩ := prefix_cons hy hprefix
    obtain ⟨-, ⟨-, rfl⟩ | ⟨longer, hlonger, -, rfl⟩⟩ := hy.of_mark hb
    · simp [Lexeme.verbatim]
    · obtain ⟨rest, hr⟩ := hs
      exact absurd hr.symm (hshort longer rest hlonger)

private theorem cuts_cutWord (hb : Byte.isLetter b = true) (r : Text) :
    Cuts (b :: r) (cutWord (b :: r)).1 (cutWord (b :: r)).2 := by
  have hpart : Byte.isNamePart b = true := by simp [Byte.isNamePart, hb]
  have split := List.takeWhile_append_dropWhile (p := Byte.isNamePart) (l := b :: r)
  have word : (b :: r).takeWhile Byte.isNamePart = b :: r.takeWhile Byte.isNamePart :=
    List.takeWhile_cons_of_pos hpart
  refine ⟨?_, split.symm, ?_⟩
  · simp only [cutWord, Lexeme.verbatim]
    split
    · rename_i k hk
      rw [← Keyword.ofSpelling?_eq_some.mp hk]
      exact .keyword k
    · rename_i hk
      rw [word] at hk ⊢
      exact .name hb (List.all_eq_true.mp List.all_takeWhile) (Keyword.ofSpelling?_eq_none.mp hk)
  · intro kind text y hy hprefix
    have hprefix : y <+: b :: r := split ▸ hprefix
    obtain ⟨s, rfl, -⟩ := prefix_cons hy hprefix
    obtain ⟨-, -, hs⟩ := hy.of_letter hb
    exact (prefix_takeWhile (List.forall_mem_cons.mpr ⟨hpart, hs⟩) hprefix).length_le

theorem takeWhile_digits {ds t : Text} (hd : ∀ d ∈ ds, Byte.isDigit d = true)
    (ht : ∀ c r, t = c :: r → Byte.isDigit c = false) : (ds ++ t).takeWhile Byte.isDigit = ds := by
  rw [List.takeWhile_append_of_pos hd]
  cases t with
  | nil => simp
  | cons c t => simp [ht c t rfl]

theorem dropWhile_digits {ds t : Text} (hd : ∀ d ∈ ds, Byte.isDigit d = true)
    (ht : ∀ c r, t = c :: r → Byte.isDigit c = false) : (ds ++ t).dropWhile Byte.isDigit = t := by
  rw [List.dropWhile_append_of_pos hd]
  cases t with
  | nil => simp
  | cons c t => simp [ht c t rfl]

private theorem number_prefix {ds t y : Text} (hne : ds ≠ [])
    (hd : ∀ d ∈ ds, Byte.isDigit d = true) (ht : ∀ c r, t = c :: r → Byte.isDigit c = false)
    (hy : IsLexeme kind text y) (h : y <+: ds ++ t) :
    y <+: ds ∨ ∃ fs, y = ds ++ Byte.dot :: fs ∧ Byte.dot :: fs <+: t ∧ fs ≠ [] ∧
      ∀ d ∈ fs, Byte.isDigit d = true := by
  obtain ⟨d, es, rfl⟩ := List.exists_cons_of_ne_nil hne
  have hfirst := hd d List.mem_cons_self
  obtain ⟨r, rfl, -⟩ := prefix_cons hy h
  obtain ⟨-, -, tail | ⟨gs, fs, rfl, hgs, hfs, hfd⟩⟩ := hy.of_digit hfirst
  · left
    have := prefix_takeWhile (List.forall_mem_cons.mpr ⟨hfirst, tail⟩) h
    rwa [takeWhile_digits hd ht] at this
  · right
    have same : d :: gs = d :: es := by
      obtain ⟨u, hu⟩ := h
      have whole := takeWhile_digits hd ht
      rw [← hu, ← List.cons_append, List.append_assoc,
        takeWhile_digits (List.forall_mem_cons.mpr ⟨hfirst, hgs⟩)] at whole
      · exact whole
      · rintro c r hc
        rw [← (List.cons.inj hc).1]
        decide
    obtain rfl := (List.cons.inj same).2
    exact ⟨fs, rfl, (List.prefix_append_right_inj (d :: gs)).mp h, hfs, hfd⟩

private theorem cuts_number {ds t : Text} (hne : ds ≠ [])
    (hd : ∀ d ∈ ds, Byte.isDigit d = true) (ht : ∀ c r, t = c :: r → Byte.isDigit c = false) :
    Cuts (ds ++ t) (cutNumber (ds ++ t)).1 (cutNumber (ds ++ t)).2 := by
  have short (hshort : ∀ f fs, t = Byte.dot :: f :: fs → Byte.isDigit f = false) :
      Cuts (ds ++ t) (.verbatim .number ds) t := by
    refine ⟨.whole hne hd, rfl, ?_⟩
    intro kind text y hy hprefix
    obtain hshorter | ⟨fs, rfl, ⟨u, hu⟩, hfs, hfd⟩ := number_prefix hne hd ht hy hprefix
    · exact hshorter.length_le
    · obtain ⟨f, fs, rfl⟩ := List.exists_cons_of_ne_nil hfs
      exact absurd (hfd f List.mem_cons_self) (by simp [hshort f (fs ++ u) hu.symm])
  simp only [cutNumber, takeWhile_digits hd ht, dropWhile_digits hd ht]
  split
  · rename_i f r
    split
    · rename_i hf
      have hfs : (f :: r).takeWhile Byte.isDigit ≠ [] := by simp [hf]
      refine ⟨.fraction hne hd hfs (List.all_eq_true.mp List.all_takeWhile), ?_, ?_⟩
      · simp only [Lexeme.verbatim, List.append_assoc, List.cons_append,
          List.takeWhile_append_dropWhile]
        rfl
      · intro kind text y hy hprefix
        simp only [Lexeme.verbatim, List.append_assoc, List.cons_append,
          List.takeWhile_append_dropWhile] at hprefix
        obtain hshorter | ⟨fs, rfl, hfs, -, hfd⟩ := number_prefix hne hd ht hy hprefix
        · have := hshorter.length_le
          simp only [Lexeme.verbatim, List.length_append]
          omega
        · have := (prefix_takeWhile hfd (List.cons_prefix_cons.mp hfs).2).length_le
          simp only [Lexeme.verbatim, List.length_append, List.length_cons]
          omega
    · rename_i hf
      apply short
      rintro f' fs hcons
      obtain ⟨rfl, -⟩ := List.cons.inj (List.cons.inj hcons).2
      simpa using hf
  · rename_i hnone
    exact short fun f fs hcons => absurd hcons (hnone f fs)

private theorem cuts_cutNumber (hb : Byte.isDigit b = true) (r : Text) :
    Cuts (b :: r) (cutNumber (b :: r)).1 (cutNumber (b :: r)).2 := by
  have split := List.takeWhile_append_dropWhile (p := Byte.isDigit) (l := b :: r)
  have hne : (b :: r).takeWhile Byte.isDigit ≠ [] := by simp [hb]
  have head : ∀ c s, (b :: r).dropWhile Byte.isDigit = c :: s → Byte.isDigit c = false := by
    intro c s hc
    have := List.head?_dropWhile_not Byte.isDigit (b :: r)
    rw [hc] at this
    simpa using this
  have := cuts_number hne (List.all_eq_true.mp List.all_takeWhile) head
  rwa [split] at this

/-- The texts at whose head no lexeme stands, and why: a string without an end, a string that is not
well-formed, or a character with which nothing begins. -/
inductive NoLexeme : Text → Fault → Prop
  | openString {s : String} :
      Byte.quote ∉ lit s → NoLexeme (Byte.quote :: lit s) .openString
  | strayByte {body rest : Text} :
      Byte.quote ∉ body → (¬ ∃ s : String, body = lit s) →
      (rest = [] ∨ ∃ r, rest = Byte.quote :: r) → NoLexeme (Byte.quote :: (body ++ rest)) .strayByte
  | unexpected {b : UInt8} {r : Text} :
      b ≠ Byte.quote →
      (∀ (kind : Kind) (text x : Text), IsLexeme kind text x → ¬ x <+: b :: r) →
      NoLexeme (b :: r) (.unexpected (Text.headRune b r).1.shown)

private theorem takeWhile_body {body rest : Text} (hbody : Byte.quote ∉ body)
    (hrest : rest = [] ∨ ∃ r, rest = Byte.quote :: r) :
    (body ++ rest).takeWhile (· != Byte.quote) = body ∧
      (body ++ rest).dropWhile (· != Byte.quote) = rest := by
  have plain : ∀ c ∈ body, (c != Byte.quote) = true := by
    intro c hc
    simp only [bne_iff_ne]
    rintro rfl
    exact hbody hc
  rw [List.takeWhile_append_of_pos plain, List.dropWhile_append_of_pos plain]
  obtain rfl | ⟨r, rfl⟩ := hrest <;> simp

theorem exists_until (q : UInt8) (t : Text) :
    ∃ body rest, t = body ++ rest ∧ q ∉ body ∧ (rest = [] ∨ ∃ r, rest = q :: r) := by
  refine ⟨_, _, (List.takeWhile_append_dropWhile (p := (· != q)) (l := t)).symm, ?_, ?_⟩
  · intro hq
    exact absurd (List.all_eq_true.mp List.all_takeWhile _ hq) (by simp)
  · have head := List.head?_dropWhile_not (· != q) t
    cases h : t.dropWhile (· != q) with
    | nil => exact .inl rfl
    | cons c r =>
      rw [h] at head
      exact .inr ⟨r, by simpa using head⟩

private theorem cutString_closed {s : String} (hs : Byte.quote ∉ lit s) (r : Text) :
    cutString (lit s ++ Byte.quote :: r) =
      .ok
        ({ kind := .string, text := lit s, bytes := Byte.quote :: lit s ++ [Byte.quote] }, r) := by
  obtain ⟨take, drop⟩ := takeWhile_body hs (.inr ⟨r, rfl⟩)
  simp [cutString, take, drop, (Text.isUtf8_iff _).mpr ⟨s, rfl⟩]

private theorem cutString_open {s : String} (hs : Byte.quote ∉ lit s) :
    cutString (lit s) = .error .openString := by
  obtain ⟨take, drop⟩ := takeWhile_body hs (.inl rfl)
  rw [List.append_nil] at take drop
  simp [cutString, take, drop, (Text.isUtf8_iff _).mpr ⟨s, rfl⟩]

private theorem cutString_stray {body rest : Text} (hbody : Byte.quote ∉ body)
    (hutf : ¬ ∃ s : String, body = lit s) (hrest : rest = [] ∨ ∃ r, rest = Byte.quote :: r) :
    cutString (body ++ rest) = .error .strayByte := by
  obtain ⟨take, drop⟩ := takeWhile_body hbody hrest
  rw [← Text.isUtf8_iff, Bool.not_eq_true] at hutf
  simp [cutString, take, hutf]

private theorem cuts_string {s : String} (hs : Byte.quote ∉ lit s) (r : Text) :
    Cuts (Byte.quote :: (lit s ++ Byte.quote :: r))
      { kind := .string, text := lit s, bytes := Byte.quote :: lit s ++ [Byte.quote] } r := by
  refine ⟨.string hs, by simp, ?_⟩
  intro kind text y hy hprefix
  simp only [List.cons_append, List.append_assoc, List.nil_append] at hprefix
  obtain ⟨z, rfl, hz⟩ := prefix_cons hy hprefix
  obtain ⟨-, htext, -, rfl⟩ := hy.of_quote
  have plain : ∀ c ∈ text, (c != Byte.quote) = true := by
    intro c hc
    simp only [bne_iff_ne]
    rintro rfl
    exact htext hc
  have within := prefix_takeWhile plain ((List.prefix_append text _).trans hz)
  rw [(takeWhile_body hs (.inr ⟨r, rfl⟩)).1] at within
  have := within.length_le
  simp only [List.length_cons, List.length_append, List.length_nil, List.cons_append]
  omega

private theorem string_cases (t : Text) :
    (∃ (s : String) (r : Text), Byte.quote ∉ lit s ∧ t = lit s ++ Byte.quote :: r) ∨
      NoLexeme (Byte.quote :: t) .openString ∧ cutString t = .error .openString ∨
      NoLexeme (Byte.quote :: t) .strayByte ∧ cutString t = .error .strayByte := by
  obtain ⟨body, rest, rfl, hbody, hrest⟩ := exists_until Byte.quote t
  by_cases hutf : ∃ s : String, body = lit s
  · obtain ⟨s, rfl⟩ := hutf
    obtain rfl | ⟨r, rfl⟩ := hrest
    · rw [List.append_nil]
      exact .inr (.inl ⟨.openString hbody, cutString_open hbody⟩)
    · exact .inl ⟨s, r, hbody, rfl⟩
  · exact .inr (.inr ⟨.strayByte hbody hutf hrest, cutString_stray hbody hutf hrest⟩)

theorem cut_cases (b : UInt8) (r : Text) :
    (∃ l rest, cut b r = .ok (l, rest) ∧ Cuts (b :: r) l rest) ∨
      ∃ fault, cut b r = .error fault ∧ NoLexeme (b :: r) fault := by
  unfold cut
  cases hm : Mark.ofByte? b with
  | some m => exact .inl ⟨_, _, rfl, cuts_cutMark hm r⟩
  | none =>
    by_cases hd : Byte.isDigit b = true
    · exact .inl ⟨_, _, by simp [hd], cuts_cutNumber hd r⟩
    by_cases hq : b = Byte.quote
    · subst hq
      obtain ⟨s, r, hs, rfl⟩ | ⟨stuck, hcut⟩ | ⟨stuck, hcut⟩ := string_cases r
      · exact .inl ⟨_, _, by simp [hd, cutString_closed hs], cuts_string hs r⟩
      · exact .inr ⟨_, by simp [hd, hcut], stuck⟩
      · exact .inr ⟨_, by simp [hd, hcut], stuck⟩
    by_cases hl : Byte.isLetter b = true
    · exact .inl ⟨_, _, by simp [hd, hq, hl], cuts_cutWord hl r⟩
    · refine .inr ⟨_, by simp [hd, hq, hl], .unexpected hq ?_⟩
      intro kind text x hx hprefix
      obtain ⟨x, rfl, -⟩ := prefix_cons hx hprefix
      obtain ⟨b', r', hcons, class_⟩ := hx.first_byte
      obtain ⟨rfl, rfl⟩ := List.cons.inj hcons
      obtain ⟨h, -⟩ | ⟨h, -⟩ | ⟨m, h, -⟩ | ⟨h, -⟩ := class_
      · exact hl h
      · exact hd h
      · rw [hm] at h
        cases h
      · exact hq h

private theorem NoLexeme.not_cuts {t rest : Text} {fault : Fault}
    {l : Lexeme} (h : NoLexeme t fault) (hl : Cuts t l rest) : False := by
  have hprefix : l.bytes <+: t := ⟨rest, hl.split.symm⟩
  cases h with
  | openString hs =>
    obtain ⟨x, hx, hr⟩ := prefix_cons hl.lexeme hprefix
    obtain ⟨-, -, -, rfl⟩ := (hx ▸ hl.lexeme).of_quote
    exact hs (hr.subset (by simp))
  | strayByte hbody hutf hrest =>
    obtain ⟨x, hx, hr⟩ := prefix_cons hl.lexeme hprefix
    obtain ⟨-, htext, ⟨s, hs⟩, rfl⟩ := (hx ▸ hl.lexeme).of_quote
    obtain ⟨u, hu⟩ := hr
    have take := (takeWhile_body hbody hrest).1
    rw [← hu, List.append_assoc, List.cons_append, List.nil_append,
      (takeWhile_body htext (.inr ⟨u, rfl⟩)).1] at take
    exact hutf ⟨s, take ▸ hs⟩
  | unexpected _ hnone => exact hnone _ _ _ hl.lexeme hprefix

private theorem Cuts.unique {t rest rest' : Text} {l l' : Lexeme} (h : Cuts t l rest)
    (h' : Cuts t l' rest') :
    l = l' ∧ rest = rest' := by
  have split := h.split.symm.trans h'.split
  have le : l'.bytes.length ≤ l.bytes.length :=
    h.longest _ _ _ h'.lexeme ⟨rest', by rw [← h.split, h'.split]⟩
  have ge : l.bytes.length ≤ l'.bytes.length :=
    h'.longest _ _ _ h.lexeme ⟨rest, by rw [← h.split, h'.split]⟩
  obtain ⟨bytes, rfl⟩ := List.append_inj split (Nat.le_antisymm ge le)
  refine ⟨?_, rfl⟩
  obtain ⟨kind, text⟩ := IsLexeme.unique h.lexeme (bytes ▸ h'.lexeme)
  cases l
  cases l'
  simp_all

theorem cut_eq_ok_iff {l : Lexeme} {rest : Text} :
    cut b r = .ok (l, rest) ↔ Cuts (b :: r) l rest := by
  obtain ⟨l', rest', hcut, hcuts⟩ | ⟨fault, hcut, stuck⟩ := cut_cases b r
  · rw [hcut]
    constructor
    · rintro h
      cases h
      exact hcuts
    · intro h
      obtain ⟨rfl, rfl⟩ := hcuts.unique h
      rfl
  · rw [hcut]
    constructor
    · rintro h
      cases h
    · exact fun h => (stuck.not_cuts h).elim

theorem NoLexeme.cut_eq {fault : Fault} (h : NoLexeme (b :: r) fault) : cut b r = .error fault := by
  generalize ht : b :: r = t at h
  have hnone : Mark.ofByte? Byte.quote = none := by decide
  have hdigit : Byte.isDigit Byte.quote = false := by decide
  cases h with
  | openString hs =>
    obtain ⟨rfl, rfl⟩ := List.cons.inj ht
    simp [cut, hnone, hdigit, cutString_open hs]
  | strayByte hbody hutf hrest =>
    obtain ⟨rfl, rfl⟩ := List.cons.inj ht
    simp [cut, hnone, hdigit, cutString_stray hbody hutf hrest]
  | unexpected hq hnone =>
    obtain ⟨rfl, rfl⟩ := List.cons.inj ht
    obtain ⟨l, rest, -, hl⟩ | ⟨fault, hcut, stuck⟩ := cut_cases b r
    · exact absurd ⟨rest, hl.split.symm⟩ (hnone _ _ _ hl.lexeme)
    · generalize hbr : b :: r = t at stuck
      cases stuck with
      | openString _ => exact absurd (List.cons.inj hbr).1 hq
      | strayByte _ _ _ => exact absurd (List.cons.inj hbr).1 hq
      | unexpected _ _ =>
        obtain ⟨rfl, rfl⟩ := List.cons.inj hbr
        exact hcut

end Token
end Lox

import Lox.Parser.Grammar

set_option autoImplicit false
set_option relaxedAutoImplicit false

namespace Lox.Parser

def Closed (ts : List Token) : Prop := ∃ t, ts.getLast? = some t ∧ t.kind = .eof

theorem closed_closed (file : Text) (tokens : List Token) :
    Closed (Program.closed file tokens) := by
  unfold Program.closed
  cases hlast : tokens.getLast? with
  | none => exact ⟨_, rfl, rfl⟩
  | some t =>
    dsimp only
    split
    · rename_i hk
      exact ⟨t, hlast, hk⟩
    · exact ⟨.endOf file, by simp, rfl⟩

variable {ts : List Token} {pos lo : Nat} {c : Cursor}

/-- A cursor at a token: the tokens after it are those that follow, and the one before it is the one
that stands before, or the first token itself. -/
structure Cursor.At (ts : List Token) (pos : Nat) (c : Cursor) : Prop where
  current : ts[pos]? = some c.current
  rest : c.rest = ts.drop (pos + 1)
  previous : ts[pos - 1]? = some c.previous

namespace Cursor.At

theorem lt_length (h : c.At ts pos) : pos < ts.length :=
  (List.getElem?_eq_some_iff.1 h.current).1

private theorem rest_eq_nil_iff (h : c.At ts pos) : c.rest = [] ↔ pos + 1 = ts.length := by
  have hlt := h.lt_length
  rw [h.rest, List.drop_eq_nil_iff]
  omega

private theorem succ_lt_length (h : c.At ts pos) (hts : Closed ts) (hk : c.current.kind ≠ .eof) :
    pos + 1 < ts.length := by
  refine Nat.lt_of_le_of_ne h.lt_length fun hlast => hk ?_
  obtain ⟨t, ht, heof⟩ := hts
  rw [List.getLast?_eq_getElem?, ← hlast, Nat.add_sub_cancel, h.current] at ht
  cases ht
  exact heof

theorem advance (h : c.At ts pos) : c.advance.At ts (min (pos + 1) (ts.length - 1)) := by
  have hlt := h.lt_length
  unfold Cursor.advance
  cases hrest : c.rest with
  | nil =>
    have hlast := h.rest_eq_nil_iff.1 hrest
    rw [Nat.min_eq_right (by omega), ← hlast, Nat.add_sub_cancel]
    exact h
  | cons t r =>
    have hdrop : ts.drop (pos + 1) = t :: r := h.rest.symm.trans hrest
    have hne : pos + 1 ≠ ts.length := fun heq => by
      rw [h.rest_eq_nil_iff.2 heq] at hrest
      cases hrest
    rw [Nat.min_eq_left (by omega)]
    refine ⟨?_, ?_, ?_⟩
    · rw [← List.head?_drop, hdrop]
      rfl
    · rw [← List.tail_drop, hdrop]
      rfl
    · rw [Nat.add_sub_cancel]
      exact h.current

private theorem note (h : c.At ts pos) (fault : Fault) (t : Token) : (c.note fault t).At ts pos :=
  ⟨h.current, h.rest, h.previous⟩

/-- What is passed on the way to a likely beginning of a statement is passed token by token. -/
theorem resume (h : c.At ts pos) :
    ∃ pos', (Parser.resume c.previous c.current c.faults c.rest).At ts pos' ∧ pos ≤ pos' := by
  obtain ⟨previous, current, rest, faults⟩ := c
  dsimp only
  induction rest generalizing previous current pos with
  | nil => exact ⟨pos, h, Nat.le_refl pos⟩
  | cons t r ih =>
    rw [Parser.resume]
    split
    · exact ⟨pos, h, Nat.le_refl pos⟩
    · have hnext := h.advance
      obtain ⟨pos', hat, hle⟩ := ih current t hnext
      have hlt := h.lt_length
      exact ⟨pos', hat, by omega⟩

theorem synchronize (h : c.At ts pos) :
    ∃ pos', (Parser.synchronize c).At ts pos' ∧ pos ≤ pos' ∧
      (pos + 1 < ts.length → pos < pos') := by
  obtain ⟨pos', hat, hle⟩ := h.advance.resume
  have hlt := h.lt_length
  exact ⟨pos', hat, by omega, by omega⟩

end Cursor.At

/-! ### Two readers side by side -/

section

variable {α β : Type} {p p' : Parser α} {k k' : α → Parser β} {Q : α → Nat → Prop}
  {R : β → Nat → Prop}

/-- From a cursor two readers come to the same end, at a token no earlier than some place. If they
succeed, what they have read and where they end are as told. -/
def Abreast {α : Type} (ts : List Token) (lo : Nat) (Q : α → Nat → Prop) (p p' : Parser α)
    (c : Cursor) : Prop :=
  p c = p' c ∧ ∃ pos, (p c).2.At ts pos ∧ lo ≤ pos ∧ ∀ a, (p c).1 = some a → Q a pos

namespace Abreast

theorem weaken {Q' : α → Nat → Prop} (h : Abreast ts pos Q p p' c) (hle : lo ≤ pos)
    (hQ : ∀ a stop, pos ≤ stop → Q a stop → Q' a stop) : Abreast ts lo Q' p p' c := by
  obtain ⟨heq, stop, hat, hstop, hq⟩ := h
  exact ⟨heq, stop, hat, Nat.le_trans hle hstop, fun a ha => hQ a stop hstop (hq a ha)⟩

theorem pure {a : α} (hat : c.At ts pos) (hle : lo ≤ pos) (hq : Q a pos) :
    Abreast ts lo Q (pure a) (pure a) c :=
  ⟨rfl, pos, hat, hle, fun _ ha => Option.some.inj ha ▸ hq⟩

theorem fail (hat : c.At ts pos) (hle : lo ≤ pos) : Abreast ts lo Q fail fail c :=
  ⟨rfl, pos, hat, hle, fun _ ha => by cases ha⟩

theorem bind (hp : Abreast ts pos Q p p' c) (hle : lo ≤ pos)
    (hk : ∀ a c₁ pos₁, c₁.At ts pos₁ → pos ≤ pos₁ → Q a pos₁ → Abreast ts lo R (k a) (k' a) c₁) :
    Abreast ts lo R (p >>= k) (p' >>= k') c := by
  obtain ⟨heq, pos₁, hat, hle₁, hq⟩ := hp
  change Abreast ts lo R (andThen p k) (andThen p' k') c
  unfold Abreast andThen
  rw [← heq]
  generalize p c = out at hat hq
  obtain ⟨result, c₁⟩ := out
  cases result with
  | none => exact ⟨rfl, pos₁, hat, Nat.le_trans hle hle₁, fun _ ha => by cases ha⟩
  | some a => exact hk a c₁ pos₁ hat hle₁ (hq a rfl)

/-! Readers that pass nothing. -/

theorem current {k k' : Token → Parser β} (h : Abreast ts lo R (k c.current) (k' c.current) c) :
    Abreast ts lo R (current >>= k) (current >>= k') c := h

theorem peek {k k' : Token.Kind → Parser β}
    (h : Abreast ts lo R (k c.current.kind) (k' c.current.kind) c) :
    Abreast ts lo R (peek >>= k) (peek >>= k') c := h

theorem peekSecond {k k' : Token.Kind → Parser β}
    (h : Abreast ts lo R (k c.nextKind) (k' c.nextKind) c) :
    Abreast ts lo R (peekSecond >>= k) (peekSecond >>= k') c := h

theorem atListEnd {closing : Option Mark} {k k' : Bool → Parser β}
    (h : Abreast ts lo R (k (c.atEnd || closing.any fun m => c.current.kind == .mark m))
      (k' (c.atEnd || closing.any fun m => c.current.kind == .mark m)) c) :
    Abreast ts lo R (atListEnd closing >>= k) (atListEnd closing >>= k') c := h

theorem spanFrom {start : Span} {k k' : Span → Parser β}
    (h : Abreast ts lo R (k (start.cover c.previous.span)) (k' (start.cover c.previous.span)) c) :
    Abreast ts lo R (spanFrom start >>= k) (spanFrom start >>= k') c := h

theorem note (hat : c.At ts pos) (fault : Fault) (t : Token) :
    Abreast ts pos (fun _ _ => True) (note fault t) (note fault t) c :=
  ⟨rfl, pos, hat.note fault t, Nat.le_refl pos, fun _ _ => trivial⟩

theorem noteIf {b : Prop} {_ : Decidable b} {fault : Fault}
    {k k' : Unit → Parser β} (hat : c.At ts pos)
    (h : ∀ c₁, c₁.At ts pos → Abreast ts lo R (k ()) (k' ()) c₁) :
    Abreast ts lo R (if b then Parser.current >>= fun t => Parser.note fault t >>= k else k ())
      (if b then Parser.current >>= fun t => Parser.note fault t >>= k' else k' ()) c := by
  split
  · exact h _ (hat.note fault c.current)
  · exact h c hat

/-! Readers that pass a token. -/

theorem next (hat : c.At ts pos) (hts : Closed ts) :
    Abreast ts pos (fun _ pos₁ => c.current.kind ≠ .eof → pos < pos₁) next next c := by
  have hlt := hat.lt_length
  refine ⟨rfl, _, hat.advance, by omega, fun _ _ hk => ?_⟩
  have hmore := hat.succ_lt_length hts hk
  omega

theorem accept {kind : Token.Kind} (hat : c.At ts pos) (hts : Closed ts) (hkind : kind ≠ .eof) :
    Abreast ts pos (fun b pos₁ => b = true → pos < pos₁) (accept kind) (accept kind) c := by
  refine ⟨rfl, ?_⟩
  unfold Parser.accept
  have hlt := hat.lt_length
  split
  · rename_i hk
    have hmore := hat.succ_lt_length hts (hk ▸ hkind)
    exact ⟨_, hat.advance, by omega, fun _ _ _ => by omega⟩
  · exact ⟨pos, hat, Nat.le_refl pos, fun b hb htrue => by cases hb; cases htrue⟩

private theorem expect {kind : Token.Kind} (hat : c.At ts pos)
    (hts : Closed ts) (hkind : kind ≠ .eof) (what : Wanted) :
    Abreast ts pos (fun _ pos₁ => pos < pos₁) (expect kind what) (expect kind what) c := by
  refine ⟨rfl, ?_⟩
  unfold Parser.expect
  have hlt := hat.lt_length
  split
  · rename_i hk
    have hmore := hat.succ_lt_length hts (hk ▸ hkind)
    exact ⟨_, hat.advance, by omega, fun _ _ => by omega⟩
  · exact ⟨pos, hat.note _ _, Nat.le_refl pos, fun _ ha => by cases ha⟩

theorem expectName (hat : c.At ts pos) (hts : Closed ts) (what : Wanted) :
    Abreast ts pos (fun _ pos₁ => pos < pos₁) (Parser.expect .name what)
      (Parser.expect .name what) c :=
  expect hat hts (fun h => by cases h) what

theorem expectMark (hat : c.At ts pos) (hts : Closed ts) (mark : Mark) (what : Wanted) :
    Abreast ts pos (fun _ pos₁ => pos < pos₁) (expectMark mark what) (expectMark mark what) c :=
  expect hat hts (fun h => by cases h) what

/-- Where there is something to read, reading is taken up again further on, whether it fails or
not. -/
theorem recover (hat : c.At ts pos) (hts : Closed ts) (hk : c.current.kind ≠ .eof)
    (hp : Abreast ts pos (fun _ pos₁ => pos < pos₁) p p' c) :
    Abreast ts pos (fun _ pos₁ => pos < pos₁) (recover p) (recover p') c := by
  have hmore := hat.succ_lt_length hts hk
  obtain ⟨heq, pos₁, hat₁, hle, hq⟩ := hp
  unfold Abreast Parser.recover
  rw [← heq]
  generalize p c = out at hat₁ hq
  obtain ⟨result, c₁⟩ := out
  cases result with
  | some a =>
    have hlt := hq a rfl
    exact ⟨rfl, pos₁, hat₁, hle, fun _ _ => hlt⟩
  | none =>
    obtain ⟨pos₂, hat₂, hle₂, hlt₂⟩ := hat₁.synchronize
    exact ⟨rfl, pos₂, hat₂, by omega, fun _ _ => by omega⟩

end Abreast

end

end Lox.Parser

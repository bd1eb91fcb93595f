import Lox.Parser.Grammar

set_option autoImplicit false
set_option relaxedAutoImplicit false

namespace Lox

namespace Parser

def Cursor.left (c : Cursor) : List Token := c.current :: c.rest

def Ended : List Token → Prop
  | [] => False
  | [t] => t.kind = .eof
  | t :: ts => t.kind ≠ .eof ∧ Ended ts

private theorem Ended.of_append {ts us : List Token} (h : Ended (ts ++ us)) (hu : us ≠ []) :
    Ended us := by
  induction ts with
  | nil => exact h
  | cons t ts ih =>
    cases hw : ts ++ us with
    | nil => exact absurd (List.append_eq_nil_iff.1 hw).2 hu
    | cons v vs =>
      rw [List.cons_append, hw] at h
      exact ih (hw ▸ h.2)

theorem Ended.left_of_append {ts : List Token} {c : Cursor} (h : Ended (ts ++ c.left)) :
    Ended c.left :=
  h.of_append (by simp [Cursor.left])

theorem Ended.rest_ne_nil {c : Cursor} (h : Ended c.left) (hk : c.current.kind ≠ .eof) :
    c.rest ≠ [] := by
  intro hr
  rw [Cursor.left, hr] at h
  exact hk h

theorem Ended.rest_eq_nil {c : Cursor} (h : Ended c.left) (hk : c.current.kind = .eof) :
    c.rest = [] := by
  cases hr : c.rest with
  | nil => rfl
  | cons t ts =>
    rw [Cursor.left, hr] at h
    exact absurd hk h.1

private theorem Ended.closed_eq {tokens : List Token} (file : Text) (h : Ended tokens) :
    Program.closed file tokens = tokens := by
  have hlast : ∃ t, tokens.getLast? = some t ∧ t.kind = .eof := by
    induction tokens with
    | nil => exact h.elim
    | cons t ts ih =>
      cases ts with
      | nil => exact ⟨t, rfl, h⟩
      | cons u us =>
        obtain ⟨v, hv, hk⟩ := ih h.2
        exact ⟨v, by rw [List.getLast?_cons_cons, hv], hk⟩
  obtain ⟨t, ht, hk⟩ := hlast
  simp only [Program.closed, ht, hk, if_true]

theorem ended_of_eof {ts : List Token} {eof : Token} (he : eof.kind = .eof)
    (hts : ∀ t ∈ ts, t.kind ≠ .eof) : Ended (ts ++ [eof]) := by
  induction ts with
  | nil => exact he
  | cons t ts ih =>
    obtain ⟨ht, hrest⟩ := List.forall_mem_cons.1 hts
    cases ts with
    | nil => exact ⟨ht, he⟩
    | cons u us => exact ⟨ht, ih hrest⟩

theorem Cursor.left_advance {c : Cursor} (h : c.rest ≠ []) :
    c.left = c.current :: c.advance.left := by
  unfold Cursor.left Cursor.advance
  split
  · rename_i hr
    exact absurd hr h
  · rename_i t r hr
    rw [hr]

@[simp] theorem Cursor.faults_advance (c : Cursor) : c.advance.faults = c.faults := by
  unfold Cursor.advance
  split <;> rfl

@[simp] theorem Cursor.faults_note (c : Cursor) (fault : Fault) (t : Token) :
    (c.note fault t).faults = fault.diagnostic t :: c.faults := rfl

private theorem faults_resume (previous current : Token) (faults : List Diagnostic)
    (l : List Token) : (resume previous current faults l).faults = faults := by
  induction l generalizing previous current with
  | nil => rfl
  | cons t l ih =>
    rw [resume]
    split
    · rfl
    · exact ih current t

theorem faults_recover {α : Type} (p : Parser α) (c : Cursor) :
    (Parser.recover p c).2.faults = (p c).2.faults := by
  unfold Parser.recover
  split
  · rename_i hpc
    rw [hpc]
  · rename_i c' hpc
    rw [hpc]
    exact (faults_resume ..).trans c'.faults_advance

/-! ### How readers go on -/

section

variable {α β : Type} {c : Cursor} {kind : Token.Kind}

theorem bind_of_some {p : Parser α} {k : α → Parser β} {a : α} {d : Cursor}
    (h : p c = (some a, d)) : (p >>= k) c = k a d := by
  show andThen p k c = k a d
  rw [andThen, h]

theorem bind_of_none {p : Parser α} {k : α → Parser β} {d : Cursor} (h : p c = (none, d)) :
    (p >>= k) c = (none, d) := by
  show andThen p k c = (none, d)
  rw [andThen, h]

theorem expect_bind {what : Wanted} {k : Token → Parser β} (h : c.current.kind = kind) :
    (expect kind what >>= k) c = (next >>= k) c :=
  bind_of_some (d := c.advance) (by rw [expect, if_pos h])

theorem expect_bind_ne {what : Wanted} {k : Token → Parser β} (h : c.current.kind ≠ kind) :
    (expect kind what >>= k) c = (none, c.note (.lacks what) c.current) :=
  bind_of_none (by rw [expect, if_neg h])

theorem accept_bind {k : Bool → Parser β} (h : c.current.kind = kind) :
    (accept kind >>= k) c = (next >>= fun _ => k true) c :=
  bind_of_some (d := c.advance) (by rw [accept, if_pos h])

theorem accept_bind_ne {k : Bool → Parser β} (h : c.current.kind ≠ kind) :
    (accept kind >>= k) c = k false c :=
  bind_of_some (by rw [accept, if_neg h])

end

def startOf (t : Token) (ts : List Token) : Cursor :=
  { previous := t, current := t, rest := ts, faults := [] }

theorem ofTokens_eq {t : Token} {ts : List Token} (file : Text) (h : Ended (t :: ts)) :
    Program.ofTokens file (t :: ts) =
      match declarations (depthFor (t :: ts)) none (startOf t ts) with
      | (some body, c) =>
        if c.faults.isEmpty then .ok { span := t.span.cover c.current.span, body }
        else .error c.faults.reverse
      | (none, c) => .error c.faults.reverse := by
  rw [Program.ofTokens, h.closed_eq file]
  rfl

theorem faults_of_ofTokens {file : Text} {t : Token} {ts : List Token} {ds : List Diagnostic}
    (hended : Ended (t :: ts)) (h : Program.ofTokens file (t :: ts) = .error ds) :
    ds = (declarations (depthFor (t :: ts)) none (startOf t ts)).2.faults.reverse := by
  rw [ofTokens_eq file hended] at h
  split at h
  · rename_i hrun
    rw [hrun]
    split at h <;> cases h
    rfl
  · rename_i hrun
    rw [hrun]
    exact (Except.error.inj h).symm

theorem le_depthFor (t : Token) (ts : List Token) :
    32 * (startOf t ts).left.length + 20 ≤ depthFor (t :: ts) := by
  simp only [depthFor, Cursor.left, startOf, List.length_cons]
  omega

def tierDepth : Tier → Nat
  | .or => 14
  | .and => 12
  | .equality => 10
  | .comparison => 8
  | .term => 6
  | .factor => 4

/-- From a cursor a reader drops no fault. Under a condition it notes one, or it succeeds without
any, and then its result, the tokens it passed and the cursor it leaves are as told. -/
structure Sound {α : Type} (A : Prop) (p : Parser α) (c : Cursor)
    (Q : α → List Token → Cursor → Prop) : Prop where
  keeps : c.faults.length ≤ (p c).2.faults.length
  result : A → Ended c.left → c.faults.length < (p c).2.faults.length ∨
    ∃ a ts c', p c = (some a, c') ∧ c'.faults = c.faults ∧ c.left = ts ++ c'.left ∧ Q a ts c'

namespace Sound

variable {α β : Type} {A B : Prop} {c : Cursor} {Q : α → List Token → Cursor → Prop}
  {R : β → List Token → Cursor → Prop}

theorem weaken {p : Parser α} (h : Sound B p c Q) (hAB : A → B) : Sound A p c Q :=
  ⟨h.keeps, fun hA => h.result (hAB hA)⟩

theorem imp {Q' : α → List Token → Cursor → Prop} {p : Parser α} (h : Sound A p c Q)
    (hQ : ∀ a ts c', Q a ts c' → Q' a ts c') : Sound A p c Q' := by
  refine ⟨h.keeps, fun hA he => (h.result hA he).imp_right ?_⟩
  rintro ⟨a, ts, c', hpc, hf, hl, hq⟩
  exact ⟨a, ts, c', hpc, hf, hl, hQ a ts c' hq⟩

theorem pure {a : α} (h : A → Q a [] c) : Sound A (pure a) c Q :=
  ⟨Nat.le_refl _, fun hA _ => .inr ⟨a, [], c, rfl, rfl, rfl, h hA⟩⟩

theorem fail (h : ¬ A) : Sound A (Parser.fail : Parser α) c Q :=
  ⟨Nat.le_refl _, fun hA => absurd hA h⟩

private theorem result_after {p : Parser β} {q : Parser β} {c' : Cursor} {l : List Token}
    (hq : Sound B q c' fun b us => R b (l ++ us)) (hB : B) (hc : p c = q c')
    (hf : c'.faults = c.faults) (hl : c.left = l ++ c'.left) (he : Ended c.left) :
    c.faults.length < (p c).2.faults.length ∨ ∃ b us c'', p c = (some b, c'') ∧
      c''.faults = c.faults ∧ c.left = us ++ c''.left ∧ R b us c'' := by
  rw [hc, ← hf]
  rcases hq.result hB (hl ▸ he).left_of_append with hlt | ⟨b, us, c'', hqc, hf', hl', hR⟩
  · exact .inl hlt
  · exact .inr ⟨b, l ++ us, c'', hqc, hf', by rw [hl, hl', List.append_assoc], hR⟩

theorem bind {p : Parser α} {k : α → Parser β} (hp : Sound A p c Q)
    (hk : ∀ a ts c', Sound (A ∧ Q a ts c' ∧ c.left.length = ts.length + c'.left.length) (k a) c'
      fun b us => R b (ts ++ us)) : Sound A (p >>= k) c R := by
  have hbind : (p >>= k) c = p.andThen k c := rfl
  unfold andThen at hbind
  have hafter : (p c).2.faults.length ≤ ((p >>= k) c).2.faults.length := by
    rw [hbind]
    split
    · rename_i a c' hpc
      simpa only [hpc] using (hk a [] c').keeps
    · rename_i c' hpc
      simp only [hpc, Nat.le_refl]
  refine ⟨Nat.le_trans hp.keeps hafter, fun hA he => ?_⟩
  rcases hp.result hA he with hlt | ⟨a, ts, c', hpc, hf, hl, hQ⟩
  · exact .inl (Nat.lt_of_lt_of_le hlt hafter)
  · rw [hpc] at hbind
    exact result_after (hk a ts c') ⟨hA, hQ, by rw [hl, List.length_append]⟩ hbind hf hl he

theorem map {p : Parser α} {f : α → β} (hp : Sound A p c Q)
    (hf : ∀ a ts c', A → Q a ts c' → R (f a) ts c') : Sound A (do return f (← p)) c R :=
  bind hp fun a ts c' => pure fun h => by simpa using hf a ts c' h.1 h.2.1

theorem current {k : Token → Parser β} (hk : Sound A (k c.current) c R) :
    Sound A (Parser.current >>= k) c R :=
  ⟨hk.keeps, hk.result⟩

theorem peek {k : Token.Kind → Parser β} (hk : Sound A (k c.current.kind) c R) :
    Sound A (Parser.peek >>= k) c R :=
  ⟨hk.keeps, hk.result⟩

theorem peekSecond {k : Token.Kind → Parser β} (hk : Sound A (k c.nextKind) c R) :
    Sound A (Parser.peekSecond >>= k) c R :=
  ⟨hk.keeps, hk.result⟩

theorem spanFrom {s : Span} {k : Span → Parser β} (hk : ∀ s', Sound A (k s') c R) :
    Sound A (Parser.spanFrom s >>= k) c R :=
  ⟨(hk _).keeps, (hk _).result⟩

theorem note {fault : Fault} {t : Token} {k : Unit → Parser β}
    (hk : ∀ c', Sound False (k ()) c' R) : Sound A (Parser.note fault t >>= k) c R := by
  have h := (hk (c.note fault t)).keeps
  rw [Cursor.faults_note, List.length_cons] at h
  exact ⟨Nat.le_of_succ_le h, fun _ _ => .inl h⟩

theorem noteIf {P : Prop} [Decidable P] {fault : Fault} {k : Unit → Parser β}
    (hk : ∀ c', Sound (A ∧ ¬ P ∧ c' = c) (k ()) c' R) :
    Sound A (if P then Parser.current >>= fun t => Parser.note fault t >>= k else k ()) c R := by
  split
  · exact current (note fun c' => (hk c').weaken False.elim)
  · rename_i hP
    exact (hk c).weaken fun hA => ⟨hA, hP, rfl⟩

theorem next {k : Token → Parser β} (h : A → c.current.kind ≠ .eof)
    (hk : ∀ c', Sound (A ∧ c.left.length = 1 + c'.left.length) (k c.current) c'
      fun b us => R b (c.current :: us)) :
    Sound A (Parser.next >>= k) c R := by
  have hn := hk c.advance
  have hbind : (Parser.next >>= k) c = k c.current c.advance := rfl
  refine ⟨?_, fun hA he => ?_⟩
  · simpa only [hbind, Cursor.faults_advance] using hn.keeps
  · have hl := Cursor.left_advance (he.rest_ne_nil (h hA))
    exact result_after (l := [c.current]) hn ⟨hA, by rw [hl, List.length_cons, Nat.add_comm]⟩
      hbind c.faults_advance hl he

theorem expect {kind : Token.Kind} {what : Wanted} {k : Token → Parser β} (hkind : kind ≠ .eof)
    (hk : ∀ t c', Sound (A ∧ t.kind = kind ∧ c.left.length = 1 + c'.left.length) (k t) c'
      fun b us => R b (t :: us)) :
    Sound A (Parser.expect kind what >>= k) c R := by
  by_cases hc : c.current.kind = kind
  · have hbind : (Parser.expect kind what >>= k) c = (Parser.next >>= k) c := expect_bind hc
    have hn : Sound A (Parser.next >>= k) c R :=
      next (fun _ => hc ▸ hkind) fun c' => (hk c.current c').weaken fun h => ⟨h.1, hc, h.2⟩
    exact ⟨hbind ▸ hn.keeps, hbind ▸ hn.result⟩
  · constructor <;> simp [expect_bind_ne hc]

theorem expectMark {mark : Mark} {what : Wanted} {k : Token → Parser β}
    (hk : ∀ t c', Sound (A ∧ t.kind = .mark mark ∧ c.left.length = 1 + c'.left.length) (k t) c'
      fun b us => R b (t :: us)) :
    Sound A (Parser.expectMark mark what >>= k) c R :=
  expect (by simp) hk

theorem accept {kind : Token.Kind} {k : Bool → Parser β} (hkind : kind ≠ .eof)
    (hyes : ∀ c', Sound (A ∧ c.current.kind = kind ∧ c.left.length = 1 + c'.left.length) (k true)
      c' fun b us => R b (c.current :: us))
    (hno : Sound (A ∧ c.current.kind ≠ kind) (k false) c R) :
    Sound A (Parser.accept kind >>= k) c R := by
  by_cases hc : c.current.kind = kind
  · have hbind : (Parser.accept kind >>= k) c = (Parser.next >>= fun _ => k true) c :=
      accept_bind hc
    have hn : Sound A (Parser.next >>= fun _ => k true) c R :=
      next (fun _ => hc ▸ hkind) fun c' => (hyes c').weaken fun h => ⟨h.1, hc, h.2⟩
    exact ⟨hbind ▸ hn.keeps, hbind ▸ hn.result⟩
  · have hbind : (Parser.accept kind >>= k) c = k false c := accept_bind_ne hc
    exact ⟨hbind ▸ hno.keeps, hbind ▸ fun hA => hno.result ⟨hA, hc⟩⟩

theorem atListEnd {closing : Option Mark} {k : Bool → Parser β}
    (hk : Sound A (k (c.atEnd || closing.any fun m => c.current.kind == .mark m)) c R) :
    Sound A (Parser.atListEnd closing >>= k) c R :=
  ⟨hk.keeps, hk.result⟩

theorem recover {p : Parser α} (hp : Sound A p c Q) :
    Sound A (Parser.recover p) c fun o ts c' => ∃ a, o = some a ∧ Q a ts c' := by
  have hfaults := faults_recover p c
  refine ⟨hfaults ▸ hp.keeps, fun hA he => ?_⟩
  rcases hp.result hA he with hlt | ⟨a, ts, c', hpc, hf, hl, hQ⟩
  · exact .inl (hfaults ▸ hlt)
  · have hrec : Parser.recover p c = (some (some a), c') := by rw [Parser.recover, hpc]
    exact .inr ⟨some a, ts, c', hrec, hf, hl, a, rfl, hQ⟩

end Sound

/-- A reader succeeds from a cursor, leaves some tokens, notes no fault, and its result is as told.
-/
def Runs {α : Type} (p : Parser α) (c : Cursor) (l : List Token) (Q : α → Prop) : Prop :=
  ∃ a c', p c = (some a, c') ∧ c'.left = l ∧ c'.faults = c.faults ∧ Q a

namespace Runs

variable {α β : Type} {c : Cursor} {t : Token} {l l' : List Token} {Q : α → Prop} {R : β → Prop}

theorem pure {a : α} (h : c.left = l) (hQ : Q a) : Runs (pure a) c l Q := ⟨a, c, rfl, h, rfl, hQ⟩

private theorem of_eq {p q : Parser β} {c' : Cursor} (h : p c = q c') (hf : c'.faults = c.faults)
    (hq : Runs q c' l R) : Runs p c l R := by
  obtain ⟨b, c'', hrun, hl, hf', hR⟩ := hq
  exact ⟨b, c'', h.trans hrun, hl, hf'.trans hf, hR⟩

theorem bind {p : Parser α} {k : α → Parser β} (hp : Runs p c l Q)
    (hk : ∀ a c', c'.left = l → Q a → Runs (k a) c' l' R) : Runs (p >>= k) c l' R := by
  obtain ⟨a, c', hrun, hl, hf, hQ⟩ := hp
  exact of_eq (bind_of_some hrun) hf (hk a c' hl hQ)

theorem map {p : Parser α} {f : α → β} (hp : Runs p c l Q) (hf : ∀ a, Q a → R (f a)) :
    Runs (do return f (← p)) c l R :=
  bind hp fun a _ hl hQ => pure hl (hf a hQ)

private theorem current_eq (h : c.left = t :: l) : c.current = t := (List.cons.inj h).1

theorem current {k : Token → Parser β} (h : c.left = t :: l) (hk : Runs (k t) c l' R) :
    Runs (Parser.current >>= k) c l' R := by
  rw [← current_eq h] at hk
  exact hk

theorem peek {k : Token.Kind → Parser β} (h : c.left = t :: l) (hk : Runs (k t.kind) c l' R) :
    Runs (Parser.peek >>= k) c l' R := by
  rw [← current_eq h] at hk
  exact hk

theorem peekSecond {k : Token.Kind → Parser β} {u : Token} (h : c.left = t :: u :: l)
    (hk : Runs (k u.kind) c l' R) : Runs (Parser.peekSecond >>= k) c l' R := by
  have hsecond : c.nextKind = u.kind := by
    have hrest : c.rest = u :: l := (List.cons.inj h).2
    rw [Cursor.nextKind, hrest]
  rw [← hsecond] at hk
  exact hk

private theorem left_advance (h : c.left = t :: l) (hl : l ≠ []) : c.advance.left = l := by
  have hrest : c.rest = l := (List.cons.inj h).2
  have hadvance := Cursor.left_advance (hrest ▸ hl)
  rw [h] at hadvance
  exact (List.cons.inj hadvance).2.symm

theorem next {k : Token → Parser β} (h : c.left = t :: l) (hl : l ≠ [])
    (hk : ∀ c', c'.left = l → Runs (k t) c' l' R) : Runs (Parser.next >>= k) c l' R := by
  have hrun := hk c.advance (left_advance h hl)
  rw [← current_eq h] at hrun
  have hbind : (Parser.next >>= k) c = k c.current c.advance := rfl
  exact of_eq hbind c.faults_advance hrun

theorem expect {kind : Token.Kind} {what : Wanted} {k : Token → Parser β} (h : c.left = t :: l)
    (hl : l ≠ []) (ht : t.kind = kind) (hk : ∀ c', c'.left = l → Runs (k t) c' l' R) :
    Runs (Parser.expect kind what >>= k) c l' R := by
  have hc : c.current.kind = kind := (current_eq h).symm ▸ ht
  exact of_eq (expect_bind hc) rfl (next h hl hk)

theorem expectMark {mark : Mark} {what : Wanted} {k : Token → Parser β} (h : c.left = t :: l)
    (hl : l ≠ []) (ht : t.kind = .mark mark) (hk : ∀ c', c'.left = l → Runs (k t) c' l' R) :
    Runs (Parser.expectMark mark what >>= k) c l' R :=
  expect h hl ht hk

theorem accept {kind : Token.Kind} {k : Bool → Parser β} (h : c.left = t :: l) (hl : l ≠ [])
    (ht : t.kind = kind) (hk : ∀ c', c'.left = l → Runs (k true) c' l' R) :
    Runs (Parser.accept kind >>= k) c l' R := by
  have hc : c.current.kind = kind := (current_eq h).symm ▸ ht
  exact of_eq (accept_bind hc) rfl (next h hl hk)

theorem accept_other {kind : Token.Kind} {k : Bool → Parser β} (h : c.left = t :: l)
    (ht : t.kind ≠ kind) (hk : Runs (k false) c l' R) : Runs (Parser.accept kind >>= k) c l' R := by
  have hc : ¬ c.current.kind = kind := (current_eq h).symm ▸ ht
  exact of_eq (accept_bind_ne hc) rfl hk

theorem spanFrom {s : Span} {k : Span → Parser β} (hk : ∀ s', Runs (k s') c l R) :
    Runs (Parser.spanFrom s >>= k) c l R :=
  hk _

theorem atListEnd {closing : Option Mark} {k : Bool → Parser β} (h : c.left = t :: l)
    (hk : Runs (k (t.kind == .eof || closing.any fun m => t.kind == .mark m)) c l' R) :
    Runs (Parser.atListEnd closing >>= k) c l' R := by
  rw [← current_eq h] at hk
  exact hk

theorem recover {p : Parser α} {k : Option α → Parser β} (hp : Runs p c l Q)
    (hk : ∀ a c', c'.left = l → Q a → Runs (k (some a)) c' l' R) :
    Runs (Parser.recover p >>= k) c l' R := by
  obtain ⟨a, c', hrun, hl, hf, hQ⟩ := hp
  have hrecover : Parser.recover p c = (some (some a), c') := by rw [Parser.recover, hrun]
  exact of_eq (bind_of_some hrecover) hf (hk a c' hl hQ)

end Runs
end Parser
end Lox

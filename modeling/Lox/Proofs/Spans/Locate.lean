import Lox.Proofs.Prefix.Trails
import Lox.Proofs.Spans.Stands

set_option autoImplicit false
set_option relaxedAutoImplicit false

namespace Lox

namespace Parser

def lastOf (t : Token) (ts : List Token) : Token := ts.getLast?.getD t

private theorem lastOf_cons (t u : Token) (ts : List Token) : lastOf t (u :: ts) = lastOf u ts := by
  simp [lastOf, List.getLast?_cons]

private theorem lastOf_append (t : Token) (ts us : List Token) :
    lastOf t (ts ++ us) = lastOf (lastOf t ts) us := by
  induction ts generalizing t with
  | nil => rfl
  | cons v ts ih => rw [List.cons_append, lastOf_cons, lastOf_cons, ih]

theorem getLast?_of_ne_nil {ts : List Token} (h : ts ≠ []) (t : Token) :
    ts.getLast? = some (lastOf t ts) := by
  rw [lastOf, List.getLast?_eq_some_getLast h]
  rfl

private theorem Cursor.previous_advance {c : Cursor} (h : c.rest ≠ []) :
    c.advance.previous = c.current := by
  unfold Cursor.advance
  split
  · rename_i hr
    exact absurd hr h
  · rfl

theorem Cursor.head?_of_left {c c' : Cursor} {ts : List Token} (h : c.left = ts ++ c'.left)
    (hne : ts ≠ []) : ts.head? = some c.current := by
  cases ts with
  | nil => exact absurd rfl hne
  | cons t ts => rw [(List.cons.inj h).1, List.head?_cons]

/-- A reader drops no fault. Under a condition, if it succeeds without noting one, then the token
before the cursor that it leaves is the last one passed, and its result and the tokens are as told.
-/
structure Locates {α : Type} (A : Prop) (p : Parser α) (c : Cursor)
    (Q : α → List Token → Prop) : Prop where
  keeps : c.faults.length ≤ (p c).2.faults.length
  result : A → Ended c.left → ∀ a d, Clean p c a d →
    ∃ ts, c.left = ts ++ d.left ∧ d.previous = lastOf c.previous ts ∧ Q a ts

namespace Locates

variable {α β : Type} {A B : Prop} {c : Cursor} {Q : α → List Token → Prop}
  {R : β → List Token → Prop}

theorem weaken {p : Parser α} (h : Locates B p c Q) (hAB : A → B) : Locates A p c Q :=
  ⟨h.keeps, fun hA => h.result (hAB hA)⟩

theorem imp {Q' : α → List Token → Prop} {p : Parser α} (h : Locates A p c Q)
    (hQ : ∀ a ts, A → Q a ts → Q' a ts) : Locates A p c Q' := by
  refine ⟨h.keeps, fun hA he a d hclean => ?_⟩
  obtain ⟨ts, hleft, hlast, hq⟩ := h.result hA he a d hclean
  exact ⟨ts, hleft, hlast, hQ a ts hA hq⟩

theorem pure {a : α} (h : A → Q a []) : Locates A (pure a) c Q := by
  refine ⟨Nat.le_refl _, fun hA _ b d hclean => ?_⟩
  cases hclean.1
  exact ⟨[], rfl, rfl, h hA⟩

theorem fail : Locates A (Parser.fail : Parser α) c Q :=
  ⟨Nat.le_refl _, fun _ _ _ _ hclean => nomatch hclean.1⟩

theorem bind {p : Parser α} {k : α → Parser β} (hp : Locates A p c Q)
    (hk : ∀ a ts c', Locates (A ∧ (Q a ts ∧ c.left = ts ++ c'.left ∧
      c'.previous = lastOf c.previous ts) ∧ c.left.length = ts.length + c'.left.length) (k a) c'
      fun b us => R b (ts ++ us)) :
    Locates A (p >>= k) c R := by
  have hkeeps : ∀ a d, d.faults.length ≤ (k a d).2.faults.length := fun a d => (hk a [] d).keeps
  refine ⟨Trails.keeps_bind hp.keeps hkeeps, fun hA he b e hclean => ?_⟩
  obtain ⟨a, d, hcleanp, hcleank⟩ := Trails.clean_of_bind hp.keeps hkeeps hclean
  obtain ⟨ts, hleft, hlast, hQ⟩ := hp.result hA he a d hcleanp
  obtain ⟨us, hleft', hlast', hR⟩ := (hk a ts d).result
    ⟨hA, ⟨hQ, hleft, hlast⟩, by rw [hleft, List.length_append]⟩
      (hleft ▸ he).left_of_append b e hcleank
  refine ⟨ts ++ us, by rw [hleft, hleft', List.append_assoc], ?_, hR⟩
  rw [hlast', hlast, lastOf_append]

theorem map {p : Parser α} {f : α → β} (hp : Locates A p c Q)
    (hf : ∀ a ts, A → Q a ts → R (f a) ts) : Locates A (do return f (← p)) c R :=
  bind hp fun a ts _ => pure fun h => by simpa using hf a ts h.1 h.2.1.1

theorem current {k : Token → Parser β} (hk : Locates A (k c.current) c R) :
    Locates A (Parser.current >>= k) c R :=
  ⟨hk.keeps, hk.result⟩

theorem peek {k : Token.Kind → Parser β} (hk : Locates A (k c.current.kind) c R) :
    Locates A (Parser.peek >>= k) c R :=
  ⟨hk.keeps, hk.result⟩

theorem peekSecond {k : Token.Kind → Parser β} (hk : Locates A (k c.nextKind) c R) :
    Locates A (Parser.peekSecond >>= k) c R :=
  ⟨hk.keeps, hk.result⟩

theorem atListEnd {closing : Option Mark} {k : Bool → Parser β}
    (hk : Locates A (k (c.atEnd || closing.any fun m => c.current.kind == .mark m)) c R) :
    Locates A (Parser.atListEnd closing >>= k) c R :=
  ⟨hk.keeps, hk.result⟩

theorem spanFrom {s : Span} {k : Span → Parser β}
    (hk : Locates A (k (s.cover c.previous.span)) c R) :
    Locates A (Parser.spanFrom s >>= k) c R :=
  ⟨hk.keeps, hk.result⟩

theorem note {fault : Fault} {t : Token} {k : Unit → Parser β}
    (hk : ∀ c', Locates False (k ()) c' R) : Locates A (Parser.note fault t >>= k) c R := by
  have hkeeps := (hk (c.note fault t)).keeps
  rw [Cursor.faults_note, List.length_cons] at hkeeps
  refine ⟨Nat.le_of_succ_le hkeeps, fun _ _ b d hclean => ?_⟩
  have hrun : k () (c.note fault t) = (some b, d) := hclean.1
  rw [hrun, hclean.2] at hkeeps
  exact absurd hkeeps (Nat.not_succ_le_self _)

theorem noteIf {P : Prop} [Decidable P] {fault : Fault} {k : Unit → Parser β}
    (hk : ∀ c', Locates (A ∧ c' = c) (k ()) c' R) :
    Locates A (if P then Parser.current >>= fun t => Parser.note fault t >>= k else k ()) c R := by
  split
  · exact current (note fun c' => (hk c').weaken False.elim)
  · exact (hk c).weaken fun hA => ⟨hA, rfl⟩

theorem next {k : Token → Parser β} (h : A → c.current.kind ≠ .eof)
    (hk : ∀ c', Locates (A ∧ c'.previous = c.current ∧ c.left.length = 1 + c'.left.length)
      (k c.current) c' fun b us => R b (c.current :: us)) :
    Locates A (Parser.next >>= k) c R := by
  have hn := hk c.advance
  have hbind : (Parser.next >>= k) c = k c.current c.advance := rfl
  refine ⟨by simpa only [hbind, Cursor.faults_advance] using hn.keeps, fun hA he b d hclean => ?_⟩
  have hrest := he.rest_ne_nil (h hA)
  have hprevious := Cursor.previous_advance hrest
  have hleft := Cursor.left_advance hrest
  have hended : Ended ([c.current] ++ c.advance.left) := by
    rw [List.singleton_append, ← hleft]
    exact he
  have hlen : c.left.length = 1 + c.advance.left.length := by
    rw [hleft, List.length_cons, Nat.add_comm]
  have hclean' : Clean (k c.current) c.advance b d :=
    ⟨hclean.1, hclean.2.trans (congrArg _ c.faults_advance.symm)⟩
  obtain ⟨us, hleft', hlast, hR⟩ := hn.result ⟨hA, hprevious, hlen⟩ hended.left_of_append b d
    hclean'
  refine ⟨c.current :: us, by rw [hleft, hleft', List.cons_append], ?_, hR⟩
  rw [hlast, hprevious, lastOf_cons]

theorem expect {kind : Token.Kind} {what : Wanted} {k : Token → Parser β} (hkind : kind ≠ .eof)
    (hk : ∀ t c', Locates (A ∧ (t.kind = kind ∧ t = c.current ∧ c'.previous = t) ∧
      c.left.length = 1 + c'.left.length) (k t) c' fun b us => R b (t :: us)) :
    Locates A (Parser.expect kind what >>= k) c R := by
  by_cases hc : c.current.kind = kind
  · have hn : Locates A (Parser.next >>= k) c R :=
      next (fun _ => hc ▸ hkind) fun c' =>
        (hk c.current c').weaken fun h => ⟨h.1, ⟨hc, rfl, h.2.1⟩, h.2.2⟩
    have hbind : (Parser.expect kind what >>= k) c = (Parser.next >>= k) c := expect_bind hc
    refine ⟨hbind ▸ hn.keeps, fun hA he b d hclean => hn.result hA he b d ?_⟩
    rwa [Clean, hbind] at hclean
  · refine ⟨by simp [expect_bind_ne hc], fun _ _ b d hclean => ?_⟩
    rw [Clean, expect_bind_ne hc] at hclean
    cases hclean.1

theorem expectMark {mark : Mark} {what : Wanted} {k : Token → Parser β}
    (hk : ∀ t c', Locates (A ∧ (t.kind = .mark mark ∧ t = c.current ∧ c'.previous = t) ∧
      c.left.length = 1 + c'.left.length) (k t) c' fun b us => R b (t :: us)) :
    Locates A (Parser.expectMark mark what >>= k) c R :=
  expect (by simp) hk

theorem accept {kind : Token.Kind} {k : Bool → Parser β} (hkind : kind ≠ .eof)
    (hyes : ∀ c', Locates (A ∧ (c.current.kind = kind ∧ c'.previous = c.current) ∧
      c.left.length = 1 + c'.left.length) (k true) c' fun b us => R b (c.current :: us))
    (hno : Locates A (k false) c R) : Locates A (Parser.accept kind >>= k) c R := by
  by_cases hc : c.current.kind = kind
  · have hn : Locates A (Parser.next >>= fun _ => k true) c R :=
      next (fun _ => hc ▸ hkind) fun c' => (hyes c').weaken fun h => ⟨h.1, ⟨hc, h.2.1⟩, h.2.2⟩
    have hbind : (Parser.accept kind >>= k) c = (Parser.next >>= fun _ => k true) c :=
      accept_bind hc
    refine ⟨hbind ▸ hn.keeps, fun hA he b d hclean => hn.result hA he b d ?_⟩
    rwa [Clean, hbind] at hclean
  · have hbind : (Parser.accept kind >>= k) c = k false c := accept_bind_ne hc
    refine ⟨hbind ▸ hno.keeps, fun hA he b d hclean => hno.result hA he b d ?_⟩
    rwa [Clean, hbind] at hclean

theorem recover {p : Parser α} {Q' : α → List Token → Cursor → Prop} (hp : Locates A p c Q)
    (hs : Sound B p c Q') (hB : A → B) :
    Locates A (Parser.recover p) c fun o ts => ∃ a, o = some a ∧ Q a ts := by
  refine ⟨hs.recover.keeps, fun hA he o d hclean => ?_⟩
  rcases hs.recover.result (hB hA) he with hlt | ⟨o', us, d', hrun, -, -, a, rfl, -⟩
  · rw [hclean.1, hclean.2] at hlt
    exact absurd hlt (Nat.lt_irrefl _)
  · cases hrun.symm.trans hclean.1
    obtain ⟨ts, hleft, hlast, hQ⟩ := hp.result hA he a d (clean_of_recover hclean)
    exact ⟨ts, hleft, hlast, a, rfl, hQ⟩

end Locates
end Parser
end Lox

import Lox.Proofs.Completion.Writing
import Lox.Proofs.Parse

/-!
Readers at the end of a source that ends too early. If all that a reader notes is that something is
lacking, then what it has passed can be completed, and the missing tokens can be written. There is
one exception: a value may be lacking for something to which nothing can be assigned.
-/

set_option autoImplicit false
set_option relaxedAutoImplicit false

namespace Lox

open Text (lit)

/-- Whether something can be assigned to an expression. -/
def Expr.isTarget : Expr → Bool
  | .name _ | .get _ _ _ => true
  | _ => false

/-- What is told of a list that is too long where the source ends. -/
def Diagnostic.overlong : List Text :=
  [Parser.Fault.tooManyParams, .tooManyArgs].map fun fault => lit "at end: " ++ fault.message

/-- The source ended before something that it lacks. -/
def Diagnostic.Lacking (d : Diagnostic) : Prop :=
  d.hint = Diagnostic.endOfInput ∧ d.message ∉ Diagnostic.overlong

instance : DecidablePred Diagnostic.Lacking := fun d =>
  inferInstanceAs (Decidable (d.hint = Diagnostic.endOfInput ∧ d.message ∉ Diagnostic.overlong))

namespace Parser

open Token Grammar

/-- An equals sign stands after an expression to which nothing can be assigned. -/
def AssignsToValue (tokens : List Token) : Prop :=
  ∃ before ts equal after e, tokens = before ++ (ts ++ equal :: after) ∧
    Derives .conditional ts (.expr e) ∧ equal.kind = .mark .equal ∧ e.isTarget = false

theorem Fault.not_lacking (fault : Fault) {t : Token} (h : t.kind ≠ .eof) :
    ¬ (fault.diagnostic t).Lacking := by
  rw [Fault.diagnostic, if_neg h]
  rintro ⟨hhint, -⟩
  have hnone : ([] : Text) = Diagnostic.endOfInput := hhint
  exact absurd hnone (by decide)

private theorem Fault.not_lacking_overlong {fault : Fault}
    (h : fault = .tooManyParams ∨ fault = .tooManyArgs)
    (t : Token) : ¬ (fault.diagnostic t).Lacking := by
  by_cases ht : t.kind = .eof
  · rw [Fault.diagnostic, if_pos ht]
    rintro ⟨-, hmessage⟩
    refine hmessage ?_
    rcases h with rfl | rfl <;> simp [Diagnostic.overlong]
  · exact fault.not_lacking ht

def Grows {α : Type} (p : Parser α) (c : Cursor) : Prop := c.faults <:+ (p c).2.faults

def Completable (file : Text) (ts : List Token) (R : List Token → Prop) : Prop :=
  ∃ xs eof, ts = xs ++ [eof] ∧ Writable file fun ys => R (xs ++ ys)

def Passed {α : Type} (Q : α → List Token → Cursor → Prop) (ts : List Token) : Prop :=
  ∃ a c, Q a ts c

/-- Under the first condition, what is to be read can be written. Under the other two, if a reader
notes faults and they only tell that something is lacking, then what was left can be completed, or
something stands before an equals sign that cannot. `before` are the tokens passed already. -/
structure Mends {α : Type} (file : Text) (before : List Token) (E F A : Prop) (p : Parser α)
    (c : Cursor) (R : List Token → Prop) : Prop where
  grows : Grows p c
  fresh : F → E → Writable file R
  step : F → A → Ended c.left → c.faults.length < (p c).2.faults.length →
    (∀ d ∈ (p c).2.faults, d.Lacking) → AssignsToValue (before ++ c.left) ∨
      Completable file c.left R

namespace Grows

variable {α β : Type} {c : Cursor}

private theorem after {p : Parser α} {k : α → Parser β} (hk : ∀ a d, Grows (k a) d) :
    (p c).2.faults <:+ ((p >>= k) c).2.faults := by
  rcases hrun : p c with ⟨_ | a, d⟩
  · have hfailed : (p >>= k) c = (none, d) := bind_of_none hrun
    exact ⟨[], congrArg (fun r => r.2.faults) hfailed.symm⟩
  · rw [bind_of_some hrun]
    exact hk a d

theorem bind {p : Parser α} {k : α → Parser β} (hp : Grows p c) (hk : ∀ a d, Grows (k a) d) :
    Grows (p >>= k) c :=
  hp.trans (after hk)

theorem pure (a : α) : Grows (Pure.pure a : Parser α) c := List.suffix_refl _

theorem fail : Grows (Parser.fail : Parser α) c := List.suffix_refl _

theorem next : Grows Parser.next c := ⟨[], c.faults_advance.symm⟩

theorem note (fault : Fault) (t : Token) : Grows (Parser.note fault t) c := List.suffix_cons _ _

private theorem expect (kind : Token.Kind) (what : Wanted) : Grows (Parser.expect kind what) c := by
  rw [Grows, Parser.expect]
  split
  · exact next
  · exact List.suffix_cons _ _

end Grows

namespace Mends

variable {α β : Type} {file : Text} {before : List Token} {E F A : Prop} {c : Cursor}
  {R : List Token → Prop}

theorem weaken {F' A' : Prop} {p : Parser α} (h : Mends file before E F' A' p c R)
    (hF : F → F') (hA : F → A → A') : Mends file before E F A p c R :=
  ⟨h.grows, fun hf => h.fresh (hF hf), fun hf ha => h.step (hF hf) (hA hf ha)⟩

theorem within {A' : Prop} {p : Parser α} (h : Mends file before E True A' p c R)
    (hA : F → A → A') : Mends file before E F A p c R :=
  h.weaken (fun _ => trivial) hA

theorem imp {R' : List Token → Prop} {p : Parser α} (h : Mends file before E F A p c R)
    (hR : ∀ ts, R ts → R' ts) : Mends file before E F A p c R' := by
  refine ⟨h.grows, fun hf hE => (h.fresh hf hE).imp hR, fun hf ha he hlt hlacking => ?_⟩
  refine (h.step hf ha he hlt hlacking).imp_right ?_
  rintro ⟨xs, eof, hxs, hwrite⟩
  exact ⟨xs, eof, hxs, hwrite.imp fun ys => hR (xs ++ ys)⟩

theorem whenever {E' : Prop} {p : Parser α} (h : Mends file before E' F A p c R) (hE : E → E') :
    Mends file before E F A p c R :=
  ⟨h.grows, fun hf he => h.fresh hf (hE he), h.step⟩

theorem pure {a : α} (h : F → R []) : Mends file before E F A (Pure.pure a) c R :=
  ⟨.pure a, fun hf _ => .nil (h hf), fun _ _ _ hlt => absurd hlt (Nat.lt_irrefl _)⟩

theorem fail (h : F → E → Writable file R) :
    Mends file before E F A (Parser.fail : Parser α) c R :=
  ⟨.fail, h, fun _ _ _ hlt => absurd hlt (Nat.lt_irrefl _)⟩

theorem excused {p : Parser α} (hg : Grows p c) (h : F → E → Writable file R)
    (hstep : F → A → Ended c.left →
      (∃ d ∈ (p c).2.faults, ¬ d.Lacking) ∨ AssignsToValue (before ++ c.left)) :
    Mends file before E F A p c R := by
  refine ⟨hg, h, fun hf ha he _ hlacking => ?_⟩
  rcases hstep hf ha he with ⟨d, hd, hnot⟩ | hassigns
  · exact absurd (hlacking d hd) hnot
  · exact .inl hassigns

/-- One reader after another. What the first one lacks can be written, and then what follows it. -/
theorem bind {p : Parser α} {k : α → Parser β} {Q : α → List Token → Cursor → Prop}
    (hp : Mends file before E F A p c (Passed Q)) (hs : Sound (F ∧ A) p c Q)
    (hk : ∀ a ts d, Mends file (before ++ ts) True (F ∧ Q a ts d)
      (A ∧ c.left.length = ts.length + d.left.length) (k a) d fun us => R (ts ++ us)) :
    Mends file before E F A (p >>= k) c R := by
  have hafter (hf : F) : ∀ ts, Passed Q ts → Writable file fun us => R (ts ++ us) := by
    rintro ts ⟨a, d, hQ⟩
    exact (hk a ts d).fresh ⟨hf, hQ⟩ trivial
  have hgrows : ∀ a d, Grows (k a) d := fun a d => (hk a [] d).grows
  refine ⟨hp.grows.bind hgrows, fun hf hE => (hp.fresh hf hE).append (hafter hf), ?_⟩
  intro hf ha he hlt hlacking
  rcases hs.result ⟨hf, ha⟩ he with hnoted | ⟨a, ts, d, hrun, hfaults, hleft, hQ⟩
  · have hkept : (p c).2.faults <:+ ((p >>= k) c).2.faults := Grows.after hgrows
    refine (hp.step hf ha he hnoted fun d hd => hlacking d (hkept.subset hd)).imp_right ?_
    rintro ⟨xs, eof, hxs, hwrite⟩
    refine ⟨xs, eof, hxs, hwrite.append fun ys hys => ?_⟩
    simpa [List.append_assoc] using hafter hf (xs ++ ys) hys
  · rw [bind_of_some hrun] at hlt hlacking
    rw [hleft] at he
    have hlen : c.left.length = ts.length + d.left.length := by rw [hleft, List.length_append]
    rcases (hk a ts d).step ⟨hf, hQ⟩ ⟨ha, hlen⟩ he.left_of_append (hfaults ▸ hlt) hlacking with
      hassigns | ⟨xs, eof, hxs, hwrite⟩
    · exact .inl (by rwa [hleft, ← List.append_assoc])
    · refine .inr ⟨ts ++ xs, eof, by rw [hleft, hxs, List.append_assoc], ?_⟩
      simpa [List.append_assoc] using hwrite

theorem map {p : Parser α} {f : α → β} {Q : α → List Token → Cursor → Prop}
    (hp : Mends file before E F A p c (Passed Q)) (hs : Sound (F ∧ A) p c Q)
    (hR : ∀ a ts d, F → Q a ts d → R ts) : Mends file before E F A (do return f (← p)) c R :=
  bind hp hs fun a ts d => pure fun h => by simpa using hR a ts d h.1 h.2

theorem current {k : Token → Parser β} (hk : Mends file before E F A (k c.current) c R) :
    Mends file before E F A (Parser.current >>= k) c R :=
  ⟨hk.grows, hk.fresh, hk.step⟩

theorem peek {k : Token.Kind → Parser β} (hk : Mends file before E F A (k c.current.kind) c R) :
    Mends file before E F A (Parser.peek >>= k) c R :=
  ⟨hk.grows, hk.fresh, hk.step⟩

theorem peekSecond {k : Token.Kind → Parser β} (hk : Mends file before E F A (k c.nextKind) c R) :
    Mends file before E F A (Parser.peekSecond >>= k) c R :=
  ⟨hk.grows, hk.fresh, hk.step⟩

theorem spanFrom {s : Span} {k : Span → Parser β}
    (hk : ∀ s', Mends file before E F A (k s') c R) :
    Mends file before E F A (Parser.spanFrom s >>= k) c R :=
  have hspan := hk (s.cover c.previous.span)
  ⟨hspan.grows, hspan.fresh, hspan.step⟩

theorem atListEnd {closing : Option Mark} {k : Bool → Parser β}
    (hk : Mends file before E F A
      (k (c.atEnd || closing.any fun m => c.current.kind == .mark m)) c R) :
    Mends file before E F A (Parser.atListEnd closing >>= k) c R :=
  ⟨hk.grows, hk.fresh, hk.step⟩

private theorem next_of {G : Prop} {k : Token → Parser β} (hfresh : F → E → Writable file R)
    (h : F → c.current.kind ≠ .eof)
    (hk : ∀ d, Mends file (before ++ [c.current]) G F
      (A ∧ c.left.length = 1 + d.left.length) (k c.current) d fun us => R (c.current :: us)) :
    Mends file before E F A (Parser.next >>= k) c R := by
  have hbind : (Parser.next >>= k) c = k c.current c.advance := rfl
  refine ⟨?_, hfresh, fun hf ha he hlt hlacking => ?_⟩
  · have hgrows := (hk c.advance).grows
    rwa [Grows, Cursor.faults_advance] at hgrows
  · have hleft := Cursor.left_advance (he.rest_ne_nil (h hf))
    have hafter : Ended c.advance.left := by
      have hwhole : Ended ([c.current] ++ c.advance.left) := by rwa [List.singleton_append, ← hleft]
      exact hwhole.left_of_append
    have hlen : c.left.length = 1 + c.advance.left.length := by
      rw [hleft, List.length_cons, Nat.add_comm]
    rw [hbind] at hlt hlacking
    rcases (hk c.advance).step hf ⟨ha, hlen⟩ hafter (by rwa [Cursor.faults_advance]) hlacking with
      hassigns | ⟨xs, eof, hxs, hwrite⟩
    · left
      rwa [hleft, List.append_cons]
    · exact .inr ⟨c.current :: xs, eof, by rw [hleft, hxs, List.cons_append], hwrite⟩

theorem next {k : Token → Parser β} (hfresh : F → E → Writable file R)
    (h : F → c.current.kind ≠ .eof)
    (hk : ∀ d, Mends file (before ++ [c.current]) True F
      (A ∧ c.left.length = 1 + d.left.length) (k c.current) d fun us => R (c.current :: us)) :
    Mends file before E F A (Parser.next >>= k) c R :=
  next_of hfresh h hk

private theorem completable_of_eof (hw : Writable file R) (he : Ended c.left)
    (hk : c.current.kind = .eof) : Completable file c.left R := by
  refine ⟨[], c.current, ?_, hw⟩
  rw [Cursor.left, he.rest_eq_nil hk]
  rfl

private theorem eof_of_lacking {fault : Fault} {t : Token} (h : (fault.diagnostic t).Lacking) :
    t.kind = .eof := by
  by_cases ht : t.kind = .eof
  · exact ht
  · exact absurd h (fault.not_lacking ht)

theorem expect {kind : Token.Kind} {what : Wanted} {k : Token → Parser β}
    (hkind : ∃ text x, IsLexeme kind text x)
    (hk : ∀ t d, Mends file (before ++ [t]) True (F ∧ t.kind = kind)
      (A ∧ c.left.length = 1 + d.left.length) (k t) d fun us => R (t :: us)) :
    Mends file before E F A (Parser.expect kind what >>= k) c R := by
  obtain ⟨text, x, hlexeme⟩ := hkind
  have hfresh (hf : F) : Writable file R :=
    .cons hlexeme fun t ht _ => (hk t c).fresh ⟨hf, ht⟩ trivial
  refine ⟨(Grows.expect kind what).bind fun t d => (hk t d).grows, fun hf _ => hfresh hf, ?_⟩
  by_cases hc : c.current.kind = kind
  · have hnext : Mends file before E F A (Parser.next >>= k) c R :=
      next (fun hf _ => hfresh hf) (fun _ => hc ▸ hlexeme.ne_eof) fun d =>
        (hk c.current d).weaken (fun hf => ⟨hf, hc⟩) fun _ ha => ha
    rw [expect_bind hc]
    exact hnext.step
  · rw [expect_bind_ne hc]
    intro hf _ he _ hlacking
    exact .inr (completable_of_eof (hfresh hf) he (eof_of_lacking (hlacking _ List.mem_cons_self)))

theorem expectMark {mark : Mark} {what : Wanted} {k : Token → Parser β}
    (hk : ∀ t d, Mends file (before ++ [t]) True (F ∧ t.kind = .mark mark)
      (A ∧ c.left.length = 1 + d.left.length) (k t) d fun us => R (t :: us)) :
    Mends file before E F A (Parser.expectMark mark what >>= k) c R :=
  expect ⟨_, _, .mark mark⟩ hk

theorem accept {G : Prop} {kind : Token.Kind} {k : Bool → Parser β} (hkind : kind ≠ .eof)
    (hfresh : F → E → Writable file R)
    (hyes : ∀ d, Mends file (before ++ [c.current]) G (F ∧ c.current.kind = kind)
      (A ∧ c.left.length = 1 + d.left.length) (k true) d fun us => R (c.current :: us))
    (hno : Mends file before True (F ∧ c.current.kind ≠ kind) A (k false) c R) :
    Mends file before E F A (Parser.accept kind >>= k) c R := by
  by_cases hc : c.current.kind = kind
  · have hbind : (Parser.accept kind >>= k) c = (Parser.next >>= fun _ => k true) c :=
      accept_bind hc
    have hnext : Mends file before E F A (Parser.next >>= fun _ => k true) c R :=
      next_of hfresh (fun _ => hc ▸ hkind) fun d =>
        (hyes d).weaken (fun hf => ⟨hf, hc⟩) fun _ ha => ha
    exact ⟨by rw [Grows, hbind]; exact hnext.grows, hfresh, by rw [hbind]; exact hnext.step⟩
  · have hbind : (Parser.accept kind >>= k) c = k false c := accept_bind_ne hc
    refine ⟨by rw [Grows, hbind]; exact hno.grows, hfresh, ?_⟩
    rw [hbind]
    exact fun hf => hno.step ⟨hf, hc⟩

theorem noteIf {P : Prop} [Decidable P] {fault : Fault} {k : Unit → Parser β}
    (hfault : fault = .tooManyParams ∨ fault = .tooManyArgs)
    (hk : ∀ d, Mends file before True (F ∧ ¬ P) (A ∧ d = c) (k ()) d R) :
    Mends file before (¬ P) F A
      (if P then Parser.current >>= fun t => Parser.note fault t >>= k else k ()) c R := by
  have hfresh : F → ¬ P → Writable file R := fun hf hP => (hk c).fresh ⟨hf, hP⟩ trivial
  split
  · have hgrows : fault.diagnostic c.current :: c.faults <:+
        (k () (c.note fault c.current)).2.faults := (hk (c.note fault c.current)).grows
    refine excused ((List.suffix_cons _ _).trans hgrows) hfresh fun _ _ _ => .inl ?_
    exact ⟨_, hgrows.subset List.mem_cons_self, Fault.not_lacking_overlong hfault _⟩
  · rename_i hP
    exact ⟨(hk c).grows, hfresh, fun hf ha => (hk c).step ⟨hf, hP⟩ ⟨ha, rfl⟩⟩

theorem noteFail {fault : Fault} {t : Token} (ht : t = c.current) (h : F → E → Writable file R)
    (hE : E) : Mends file before E F A
      (Parser.note fault t >>= fun _ => (Parser.fail : Parser α)) c R := by
  subst ht
  refine ⟨List.suffix_cons _ _, h, fun hf _ he _ hlacking => .inr ?_⟩
  exact completable_of_eof (h hf hE) he (eof_of_lacking (hlacking _ List.mem_cons_self))

theorem recover {p : Parser α} (hp : Mends file before E F A p c R) :
    Mends file before E F A (Parser.recover p) c R := by
  have hfaults := faults_recover p c
  refine ⟨by rw [Grows, hfaults]; exact hp.grows, hp.fresh, ?_⟩
  rw [hfaults]
  exact hp.step

end Mends
end Parser
end Lox

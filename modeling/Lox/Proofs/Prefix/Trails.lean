import Lox.Proofs.Grammar.Reader

set_option autoImplicit false
set_option relaxedAutoImplicit false

namespace Lox.Parser

/-- The end of the source is reached, and nothing is wrong but that it was reached. -/
structure Cursor.RanOut (c : Cursor) : Prop where
  eof : c.current.kind = .eof
  rest : c.rest = []
  hinted : ∀ d ∈ c.faults, d.hint = Diagnostic.endOfInput

/-- The second cursor stands at the token where the first one stands, and its tokens are those of
the first up to some place and an end. `extra` counts the tokens that it lacks. -/
structure InStep (extra : Nat) (c c' : Cursor) : Prop where
  previous : c'.previous = c.previous
  hinted : ∀ d ∈ c'.faults, d.hint = Diagnostic.endOfInput
  ended : Ended c.left
  shared : ∃ ts lost eof, c.left = c'.current :: (ts ++ lost) ∧ lost.length = extra + 1 ∧
    c'.rest = ts ++ [eof] ∧ eof.kind = .eof

private theorem Fault.hint_diagnostic (fault : Fault) {t : Token} (h : t.kind = .eof) :
    (fault.diagnostic t).hint = Diagnostic.endOfInput := by
  rw [Fault.diagnostic, if_pos h]

namespace Cursor.RanOut

variable {c : Cursor}

private theorem advance (h : c.RanOut) : c.advance = c := by
  rw [Cursor.advance, h.rest]

theorem note (h : c.RanOut) (fault : Fault) {t : Token} (ht : t.kind = .eof) :
    (c.note fault t).RanOut := by
  refine ⟨h.eof, h.rest, fun d hd => ?_⟩
  rcases List.mem_cons.1 hd with rfl | hd
  · exact fault.hint_diagnostic ht
  · exact h.hinted d hd

private theorem length_left (h : c.RanOut) : c.left.length = 1 := by
  rw [Cursor.left, h.rest, List.length_singleton]

end Cursor.RanOut

namespace InStep

variable {extra : Nat} {c c' : Cursor}

theorem current (h : InStep extra c c') : c.current = c'.current := by
  obtain ⟨ts, lost, eof, hleft, -⟩ := h.shared
  exact (List.cons.inj hleft).1

theorem length_left (h : InStep extra c c') : c.left.length = c'.left.length + extra := by
  obtain ⟨ts, lost, eof, hleft, hlost, hrest, -⟩ := h.shared
  rw [hleft, Cursor.left, hrest]
  simp only [List.length_cons, List.length_append, List.length_nil]
  omega

private theorem one_lt_length (h : InStep extra c c') : 1 < c'.left.length := by
  obtain ⟨ts, lost, eof, -, -, hrest, -⟩ := h.shared
  rw [Cursor.left, hrest]
  simp

private theorem rest_ne_nil (h : InStep extra c c') : c.rest ≠ [] := by
  obtain ⟨ts, lost, eof, hleft, hlost, -⟩ := h.shared
  rw [(List.cons.inj hleft).2]
  intro hnil
  rw [(List.append_eq_nil_iff.1 hnil).2] at hlost
  cases hlost

theorem kind_ne_eof (h : InStep extra c c') : c'.current.kind ≠ .eof := fun heof =>
  h.rest_ne_nil (h.ended.rest_eq_nil (h.current ▸ heof))

/-- One token further on, both still share a token, or the end of the shorter one is reached. -/
theorem advance (h : InStep extra c c') :
    (c'.advance.RanOut ∨ InStep extra c.advance c'.advance) ∧
      c'.advance.left.length + 1 = c'.left.length := by
  have hended : Ended c.advance.left := by
    have hwhole : Ended ([c.current] ++ c.advance.left) := by
      rw [List.singleton_append, ← Cursor.left_advance h.rest_ne_nil]
      exact h.ended
    exact hwhole.left_of_append
  obtain ⟨ts, lost, eof, hleft, hlost, hrest, heof⟩ := h.shared
  have hrest' : c.rest = ts ++ lost := (List.cons.inj hleft).2
  cases ts with
  | nil =>
    have hadvance : c'.advance =
        { c' with previous := c'.current, current := eof, rest := [] } := by
      rw [Cursor.advance, hrest]
      rfl
    rw [hadvance]
    exact ⟨.inl ⟨heof, rfl, h.hinted⟩, by simp [Cursor.left, hrest]⟩
  | cons t ts =>
    have hadvance : c.advance =
        { c with previous := c.current, current := t, rest := ts ++ lost } := by
      rw [Cursor.advance, hrest']
      rfl
    have hadvance' : c'.advance =
        { c' with previous := c'.current, current := t, rest := ts ++ [eof] } := by
      rw [Cursor.advance, hrest]
      rfl
    rw [hadvance] at hended
    rw [hadvance, hadvance']
    refine ⟨.inr ⟨h.current.symm, h.hinted, hended, ts, lost, eof, rfl, hlost, rfl, heof⟩, ?_⟩
    simp [Cursor.left, hrest]

end InStep

def Clean {α : Type} (p : Parser α) (c : Cursor) (a : α) (d : Cursor) : Prop :=
  p c = (some a, d) ∧ d.faults.length = c.faults.length

/-- Under a condition the second reader goes nowhere from the end of its source. Where the first
one reads its tokens without a fault, the second one keeps in step with it or runs out of tokens. -/
structure Trails {α : Type} (extra : Nat) (A : Prop) (p p' : Parser α) (c c' : Cursor) : Prop where
  keeps : c.faults.length ≤ (p c).2.faults.length
  quiet : A → c'.RanOut → (p' c').2.RanOut
  step : A → InStep extra c c' → ∀ a d, Clean p c a d → (p' c').2.RanOut ∨
    ∃ d', p' c' = (some a, d') ∧ InStep extra d d' ∧ d'.left.length ≤ c'.left.length

theorem clean_of_recover {α : Type} {p : Parser α} {c d : Cursor} {a : α}
    (h : Clean (Parser.recover p) c (some a) d) : Clean p c a d := by
  obtain ⟨hrun, hfaults⟩ := h
  unfold Parser.recover at hrun
  split at hrun
  · rename_i hrunp
    cases hrun
    exact ⟨hrunp, hfaults⟩
  · cases hrun

namespace Trails

variable {α β : Type} {extra : Nat} {A B : Prop} {c c' : Cursor}

theorem weaken {p p' : Parser α} (h : Trails extra B p p' c c') (hAB : A → B) :
    Trails extra A p p' c c' :=
  ⟨h.keeps, fun hA => h.quiet (hAB hA), fun hA => h.step (hAB hA)⟩

theorem pure (a : α) : Trails extra A (pure a) (pure a) c c' := by
  refine ⟨Nat.le_refl _, fun _ h => h, fun _ h b d hclean => ?_⟩
  obtain ⟨hrun, -⟩ := hclean
  cases hrun
  exact .inr ⟨c', rfl, h, Nat.le_refl _⟩

theorem fail {p : Parser α} (hp : c.faults.length ≤ (p c).2.faults.length) (h : ¬ A) :
    Trails extra A p Parser.fail c c' :=
  ⟨hp, fun hA => absurd hA h, fun hA => absurd hA h⟩

theorem dirty {p p' : Parser α} (hp : Sound B p c fun _ _ _ => False)
    (hB : A → InStep extra c c' → B) (h : A → c'.current.kind ≠ .eof) :
    Trails extra A p p' c c' := by
  refine ⟨hp.keeps, fun hA hout => absurd hout.eof (h hA), fun hA hstep a d hclean => ?_⟩
  rcases hp.result (hB hA hstep) hstep.ended with hlt | ⟨_, _, _, -, -, -, hfalse⟩
  · rw [hclean.1, hclean.2] at hlt
    exact absurd hlt (Nat.lt_irrefl _)
  · exact hfalse.elim

theorem keeps_bind {p : Parser α} {k : α → Parser β}
    (hp : c.faults.length ≤ (p c).2.faults.length)
    (hk : ∀ a d, d.faults.length ≤ (k a d).2.faults.length) :
    c.faults.length ≤ ((p >>= k) c).2.faults.length := by
  have hbind : (p >>= k) c = p.andThen k c := rfl
  rw [hbind, andThen]
  split
  · rename_i a d hrun
    rw [hrun] at hp
    exact Nat.le_trans hp (hk a d)
  · rename_i d hrun
    rwa [hrun] at hp

theorem clean_of_bind {p : Parser α} {k : α → Parser β} {b : β} {e : Cursor}
    (hp : c.faults.length ≤ (p c).2.faults.length)
    (hk : ∀ a d, d.faults.length ≤ (k a d).2.faults.length) (h : Clean (p >>= k) c b e) :
    ∃ a d, Clean p c a d ∧ Clean (k a) d b e := by
  obtain ⟨hrun, hfaults⟩ := h
  have hbind : (p >>= k) c = p.andThen k c := rfl
  rw [hbind, andThen] at hrun
  split at hrun
  · rename_i a d hrunp
    rw [hrunp] at hp
    have hlater := hk a d
    rw [hrun] at hlater
    have hsame : d.faults.length = c.faults.length :=
      Nat.le_antisymm (hfaults ▸ hlater) hp
    exact ⟨a, d, ⟨hrunp, hsame⟩, hrun, hfaults.trans hsame.symm⟩
  · cases hrun

private theorem bind_ranOut {p : Parser α} {k : α → Parser β} (hp : (p c).2.RanOut)
    (hk : ∀ a d, d.RanOut → (k a d).2.RanOut) : ((p >>= k) c).2.RanOut := by
  have hbind : (p >>= k) c = p.andThen k c := rfl
  rw [hbind, andThen]
  split
  · rename_i a d hrun
    rw [hrun] at hp
    exact hk a d hp
  · rename_i d hrun
    rwa [hrun] at hp

/-- One reader after another, where something is known of the place that the first one leads to. -/
private theorem bind_where {p p' : Parser α} {k k' : α → Parser β} {P : Cursor → Prop}
    (hp : Trails extra A p p' c c')
    (hout : A → c'.RanOut ∨ InStep extra c c' → ∀ d', d'.RanOut → P d')
    (hin : A → InStep extra c c' → ∀ a d d', Clean p c a d → InStep extra d d' →
      d'.left.length ≤ c'.left.length → P d')
    (hk : ∀ a d d', Trails extra (A ∧ P d') (k a) (k' a) d d') :
    Trails extra A (p >>= k) (p' >>= k') c c' := by
  have hkeeps : ∀ a d, d.faults.length ≤ (k a d).2.faults.length := fun a d => (hk a d d).keeps
  have hquiet (hA : A) (hc : c'.RanOut ∨ InStep extra c c') :
      ∀ a d', d'.RanOut → (k' a d').2.RanOut :=
    fun a d' hd => (hk a c d').quiet ⟨hA, hout hA hc d' hd⟩ hd
  refine ⟨keeps_bind hp.keeps hkeeps,
    fun hA hc => bind_ranOut (hp.quiet hA hc) (hquiet hA (.inl hc)), ?_⟩
  intro hA hstep b e hclean
  obtain ⟨a, d, hcleanp, hcleank⟩ := clean_of_bind hp.keeps hkeeps hclean
  rcases hp.step hA hstep a d hcleanp with hd | ⟨d', hrun, hstep', hle⟩
  · exact .inl (bind_ranOut hd (hquiet hA (.inr hstep)))
  · rw [bind_of_some hrun]
    have hP := hin hA hstep a d d' hcleanp hstep' hle
    refine ((hk a d d').step ⟨hA, hP⟩ hstep' b e hcleank).imp_right ?_
    rintro ⟨e', hrun', hstep'', hle'⟩
    exact ⟨e', hrun', hstep'', Nat.le_trans hle' hle⟩

theorem bind {p p' : Parser α} {k k' : α → Parser β} (hp : Trails extra A p p' c c')
    (hk : ∀ a d d', Trails extra (A ∧ d'.left.length ≤ c'.left.length) (k a) (k' a) d d') :
    Trails extra A (p >>= k) (p' >>= k') c c' := by
  refine bind_where hp (fun _ _ d' hd => ?_) (fun _ _ _ _ _ _ _ hle => hle) hk
  rw [hd.length_left]
  exact Nat.succ_pos _

/-- The tokens that the first reader of the whole is known to pass are passed by its follower. -/
theorem bindPast {p p' : Parser α} {k k' : α → Parser β} {Q : α → List Token → Cursor → Prop}
    (hp : Trails extra A p p' c c') (hs : Sound B p c Q) (hB : A → InStep extra c c' → B)
    (hne : ∀ a ts d, Q a ts d → ts ≠ []) (h : A → c'.current.kind ≠ .eof)
    (hk : ∀ a d d', Trails extra (A ∧ d'.left.length < c'.left.length) (k a) (k' a) d d') :
    Trails extra A (p >>= k) (p' >>= k') c c' := by
  refine bind_where hp (fun hA hc d' hd => ?_) (fun hA hstep a d d' hclean hstep' _ => ?_) hk
  · rw [hd.length_left]
    rcases hc with hc | hstep
    · exact absurd hc.eof (h hA)
    · exact hstep.one_lt_length
  · rcases hs.result (hB hA hstep) hstep.ended with hlt | ⟨a', ts, d₁, hrun, -, hleft, hQ⟩
    · rw [hclean.1, hclean.2] at hlt
      exact absurd hlt (Nat.lt_irrefl _)
    · cases hclean.1.symm.trans hrun
      have hlen := congrArg List.length hleft
      have hpos := List.length_pos_iff.2 (hne a ts d hQ)
      rw [List.length_append, hstep.length_left, hstep'.length_left] at hlen
      omega

theorem map {p p' : Parser α} {f : α → β} (hp : Trails extra A p p' c c') :
    Trails extra A (do return f (← p)) (do return f (← p')) c c' :=
  bind hp fun a _ _ => pure (f a)

theorem current {k k' : Token → Parser β}
    (hk : ∀ t, Trails extra (A ∧ t = c'.current) (k t) (k' t) c c') :
    Trails extra A (Parser.current >>= k) (Parser.current >>= k') c c' := by
  refine ⟨(hk c.current).keeps, fun hA => (hk c'.current).quiet ⟨hA, rfl⟩,
    fun hA hstep a d h => ?_⟩
  have hclean : Clean (k c.current) c a d := h
  rw [hstep.current] at hclean
  exact (hk c'.current).step ⟨hA, rfl⟩ hstep a d hclean

theorem peek {k k' : Token.Kind → Parser β}
    (hk : ∀ kind, Trails extra (A ∧ kind = c'.current.kind) (k kind) (k' kind) c c') :
    Trails extra A (Parser.peek >>= k) (Parser.peek >>= k') c c' := by
  refine ⟨(hk c.current.kind).keeps, fun hA => (hk c'.current.kind).quiet ⟨hA, rfl⟩,
    fun hA hstep a d h => ?_⟩
  have hclean : Clean (k c.current.kind) c a d := h
  rw [hstep.current] at hclean
  exact (hk c'.current.kind).step ⟨hA, rfl⟩ hstep a d hclean

theorem peekSecond {k k' : Token.Kind → Parser β} (h : A → c'.current.kind ≠ .eof)
    (hk : ∀ kind, Trails extra A (k kind) (k' kind) c c')
    (hlast : A → ∀ eof : Token, c'.rest = [eof] → eof.kind = .eof →
      (∀ d ∈ c'.faults, d.hint = Diagnostic.endOfInput) → (k' .eof c').2.RanOut) :
    Trails extra A (Parser.peekSecond >>= k) (Parser.peekSecond >>= k') c c' := by
  refine ⟨(hk c.nextKind).keeps, fun hA hout => absurd hout.eof (h hA),
    fun hA hstep a d hrun => ?_⟩
  have hclean : Clean (k c.nextKind) c a d := hrun
  have hbind : (Parser.peekSecond >>= k') c' = k' c'.nextKind c' := rfl
  rw [hbind]
  obtain ⟨ts, lost, eof, hleft, -, hrest, heof⟩ := hstep.shared
  cases ts with
  | nil =>
    have hsecond : c'.nextKind = .eof := by
      rw [Cursor.nextKind, hrest]
      exact heof
    rw [hsecond]
    exact .inl (hlast hA eof hrest heof hstep.hinted)
  | cons t ts =>
    have hsecond' : c'.nextKind = t.kind := by rw [Cursor.nextKind, hrest, List.cons_append]
    have hsecond : c.nextKind = t.kind := by
      rw [Cursor.nextKind, (List.cons.inj hleft).2, List.cons_append]
    rw [hsecond] at hclean
    rw [hsecond']
    exact (hk t.kind).step hA hstep a d hclean

theorem spanFrom {s : Span} {k k' : Span → Parser β}
    (hk : ∀ s', Trails extra A (k s') (k' s') c c') :
    Trails extra A (Parser.spanFrom s >>= k) (Parser.spanFrom s >>= k') c c' := by
  refine ⟨(hk _).keeps, fun hA hout => (hk _).quiet hA hout, fun hA hstep a d h => ?_⟩
  have hclean : Clean (k (s.cover c.previous.span)) c a d := h
  rw [← hstep.previous] at hclean
  exact (hk _).step hA hstep a d hclean

theorem atListEnd {closing : Option Mark} {k k' : Bool → Parser β}
    (hk : ∀ b, Trails extra (A ∧
      b = (c'.atEnd || closing.any fun m => c'.current.kind == .mark m)) (k b) (k' b) c c') :
    Trails extra A (Parser.atListEnd closing >>= k) (Parser.atListEnd closing >>= k') c c' := by
  refine ⟨(hk _).keeps, fun hA hout => (hk _).quiet ⟨hA, rfl⟩ hout, fun hA hstep a d h => ?_⟩
  have hclean : Clean (k (c.atEnd || closing.any fun m => c.current.kind == .mark m)) c a d := h
  rw [Cursor.atEnd, hstep.current] at hclean
  exact (hk _).step ⟨hA, rfl⟩ hstep a d hclean

theorem next {k k' : Token → Parser β} (h : A → c'.current.kind ≠ .eof)
    (hk : ∀ t d d', Trails extra (A ∧ t = c'.current ∧ d'.left.length + 1 = c'.left.length)
      (k t) (k' t) d d') : Trails extra A (Parser.next >>= k) (Parser.next >>= k') c c' := by
  refine ⟨?_, fun hA hout => absurd hout.eof (h hA), fun hA hstep a d hrun => ?_⟩
  · have hkeeps := (hk c.current c.advance c.advance).keeps
    rwa [Cursor.faults_advance] at hkeeps
  · have hclean : Clean (k c'.current) c.advance a d := by
      refine ⟨hstep.current ▸ hrun.1, ?_⟩
      rw [Cursor.faults_advance, hrun.2]
    obtain ⟨hnext, hlen⟩ := hstep.advance
    have hafter := hk c'.current c.advance c'.advance
    rcases hnext with hout | hstep'
    · exact .inl (hafter.quiet ⟨hA, rfl, hlen⟩ hout)
    · refine (hafter.step ⟨hA, rfl, hlen⟩ hstep' a d hclean).imp_right ?_
      rintro ⟨e', hrun', hstep'', hle⟩
      exact ⟨e', hrun', hstep'', by omega⟩

theorem expect {kind : Token.Kind} {what : Wanted} {k k' : Token → Parser β} (hkind : kind ≠ .eof)
    (hk : ∀ t d d', Trails extra (A ∧ t.kind = kind ∧ d'.left.length + 1 = c'.left.length)
      (k t) (k' t) d d') :
    Trails extra A (Parser.expect kind what >>= k) (Parser.expect kind what >>= k') c c' := by
  have hnext (he : c'.current.kind = kind) :
      Trails extra A (Parser.next >>= k) (Parser.next >>= k') c c' :=
    next (fun _ => he ▸ hkind) fun t d d' => (hk t d d').weaken fun h => ⟨h.1, h.2.1 ▸ he, h.2.2⟩
  refine ⟨?_, fun hA hout => ?_, fun hA hstep a d hclean => ?_⟩
  · by_cases he : c.current.kind = kind
    · have hkeeps := (hk c.current c.advance c.advance).keeps
      rw [expect_bind he]
      rwa [Cursor.faults_advance] at hkeeps
    · rw [expect_bind_ne he, Cursor.faults_note]
      exact Nat.le_succ _
  · rw [expect_bind_ne (fun he => hkind (he.symm.trans hout.eof))]
    exact hout.note _ hout.eof
  · by_cases he : c'.current.kind = kind
    · have he' : c.current.kind = kind := hstep.current ▸ he
      rw [expect_bind he]
      exact (hnext he).step hA hstep a d (by rwa [Clean, expect_bind he'] at hclean)
    · have he' : ¬ c.current.kind = kind := hstep.current ▸ he
      rw [Clean, expect_bind_ne he'] at hclean
      cases hclean.1

theorem expectMark {mark : Mark} {what : Wanted} {k k' : Token → Parser β}
    (hk : ∀ t d d', Trails extra (A ∧ t.kind = .mark mark ∧ d'.left.length + 1 = c'.left.length)
      (k t) (k' t) d d') :
    Trails extra A (Parser.expectMark mark what >>= k) (Parser.expectMark mark what >>= k') c c' :=
  expect (by simp) hk

theorem accept {kind : Token.Kind} {k k' : Bool → Parser β} (hkind : kind ≠ .eof)
    (hyes : ∀ d d', Trails extra (A ∧ d'.left.length + 1 = c'.left.length) (k true) (k' true) d d')
    (hno : Trails extra A (k false) (k' false) c c') :
    Trails extra A (Parser.accept kind >>= k) (Parser.accept kind >>= k') c c' := by
  have hnext (he : c'.current.kind = kind) : Trails extra A (Parser.next >>= fun _ => k true)
      (Parser.next >>= fun _ => k' true) c c' :=
    next (fun _ => he ▸ hkind) fun _ d d' => (hyes d d').weaken fun h => ⟨h.1, h.2.2⟩
  refine ⟨?_, fun hA hout => ?_, fun hA hstep a d hclean => ?_⟩
  · by_cases he : c.current.kind = kind
    · have hkeeps := (hyes c.advance c.advance).keeps
      rw [accept_bind he]
      rwa [Cursor.faults_advance] at hkeeps
    · rw [accept_bind_ne he]
      exact hno.keeps
  · rw [accept_bind_ne (fun he => hkind (he.symm.trans hout.eof))]
    exact hno.quiet hA hout
  · by_cases he : c'.current.kind = kind
    · have he' : c.current.kind = kind := hstep.current ▸ he
      rw [accept_bind he]
      exact (hnext he).step hA hstep a d (by rwa [Clean, accept_bind he'] at hclean)
    · have he' : ¬ c.current.kind = kind := hstep.current ▸ he
      rw [accept_bind_ne he]
      exact hno.step hA hstep a d (by rwa [Clean, accept_bind_ne he'] at hclean)

theorem noteIf {P : Prop} [Decidable P] {fault : Fault} {k k' : Unit → Parser β}
    (hk : ∀ d d', Trails extra (A ∧ d'.left.length = c'.left.length) (k ()) (k' ()) d d') :
    Trails extra A (if P then Parser.current >>= fun t => Parser.note fault t >>= k else k ())
      (if P then Parser.current >>= fun t => Parser.note fault t >>= k' else k' ()) c c' := by
  split
  · have hnoted := (hk (c.note fault c.current) c').keeps
    rw [Cursor.faults_note, List.length_cons] at hnoted
    refine ⟨Nat.le_of_succ_le hnoted, fun hA hout => ?_, fun _ _ a d hclean => ?_⟩
    · exact (hk c (c'.note fault c'.current)).quiet ⟨hA, rfl⟩ (hout.note fault hout.eof)
    · have hrun : k () (c.note fault c.current) = (some a, d) := hclean.1
      rw [hrun, hclean.2] at hnoted
      exact absurd hnoted (Nat.not_succ_le_self _)
  · exact (hk c c').weaken fun hA => ⟨hA, rfl⟩

theorem noteFail {fault : Fault} {t : Token} (h : A → t = c'.current) :
    Trails extra A (Parser.note fault t >>= fun _ => (Parser.fail : Parser α))
      (Parser.note fault t >>= fun _ => Parser.fail) c c' := by
  refine ⟨Nat.le_succ _, fun hA hout => ?_, fun _ _ a d hclean => ?_⟩
  · exact hout.note fault (h hA ▸ hout.eof)
  · cases hclean.1

private theorem synchronize_ranOut (h : c.RanOut) : (synchronize c).RanOut := by
  have hsame : synchronize c = { c with rest := [] } := by
    rw [synchronize]
    simp only [h.advance, h.rest]
    rfl
  rw [hsame]
  exact ⟨h.eof, rfl, h.hinted⟩

theorem recover {p p' : Parser α} {Q : α → List Token → Cursor → Prop}
    (hp : Trails extra A p p' c c') (hs : Sound B p c Q) (hB : A → InStep extra c c' → B) :
    Trails extra A (Parser.recover p) (Parser.recover p') c c' := by
  have hout : (p' c').2.RanOut → (Parser.recover p' c').2.RanOut := by
    intro h
    unfold Parser.recover
    split
    · rename_i hrun
      rwa [hrun] at h
    · rename_i hrun
      rw [hrun] at h
      exact synchronize_ranOut h
  refine ⟨hs.recover.keeps, fun hA h => hout (hp.quiet hA h), fun hA hstep o d hclean => ?_⟩
  rcases hs.recover.result (hB hA hstep) hstep.ended with hlt | ⟨o', ts, d', hrun, -, -, a, rfl, -⟩
  · rw [hclean.1, hclean.2] at hlt
    exact absurd hlt (Nat.lt_irrefl _)
  · obtain ⟨hrun', hfaults⟩ := hclean
    cases hrun.symm.trans hrun'
    refine (hp.step hA hstep a d (clean_of_recover ⟨hrun', hfaults⟩)).imp hout ?_
    rintro ⟨e', hrun'', hstep', hle⟩
    exact ⟨e', by rw [Parser.recover, hrun''], hstep', hle⟩

end Trails
end Lox.Parser

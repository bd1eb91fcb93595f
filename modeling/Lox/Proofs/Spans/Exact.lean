import Lox.Proofs.Parse
import Lox.Proofs.Spans.Readers

set_option autoImplicit false
set_option relaxedAutoImplicit false

namespace Lox

open Text (lit)

namespace Grammar

private theorem StandAll.of_mem {ps : List Piece} {ts : List Token}
    (h : StandAll ps ts) (hts : Ordered ts)
    {c : Tree} (hc : c ∈ ps.flatMap Piece.trees) : ∃ us, us <:+: ts ∧ Stands c us := by
  obtain ⟨cs, horder, hstand, -⟩ := h.inOrder hts
  exact hstand c (horder.perm.mem_iff.2 hc)

/-- The trees among some parts lie within a span, one after another in the order of the source. -/
def Encloses (s : Span) (ps : List Piece) : Prop :=
  ∃ cs, InOrder ps cs ∧ (∀ c ∈ cs, s.start.le c.span.start ∧ c.span.stop.le s.stop) ∧
    cs.Pairwise fun c d => c.span.stop.le d.span.start

private theorem Stands.encloses {t : Tree} {ts : List Token} (h : Stands t ts) (hts : Ordered ts) :
    Encloses t.span t.parts := by
  obtain ⟨cs, horder, hstand, hpairs⟩ := h.parts.inOrder hts
  refine ⟨cs, horder, fun c hc => ?_, hpairs⟩
  obtain ⟨us, hus, hc⟩ := hstand c hc
  exact hts.within h.covers hus.sublist hc.covers

end Grammar

namespace Program

open Grammar Lox.Parser Token

/-- The trees of a program: its statements, and again and again what they consist of. -/
inductive Has (p : Program) : Tree → Prop
  | statement {s : Stmt} : s ∈ p.body → p.Has (.stmt s)
  | child {t c : Tree} : p.Has t → c ∈ t.children → p.Has c

/-- The statements of a program that is read take all its tokens but the end of the source, which
its span includes. -/
theorem ofTokens_stands {file : Text} {tokens : List Token} {p : Program} (hended : Ended tokens)
    (h : ofTokens file tokens = .ok p) :
    ∃ ts eof, tokens = ts ++ [eof] ∧ StandAll (Piece.statements p.body) ts ∧
      Covers tokens p.span := by
  cases tokens with
  | nil => exact hended.elim
  | cons t rest =>
    have hsound := (soundAt (depthFor (t :: rest))).declarations none (startOf t rest)
    have hlocates := (locatesAt (depthFor (t :: rest))).declarations none (startOf t rest)
    have hdepth := le_depthFor t rest
    rw [ofTokens_eq file hended] at h
    split at h
    · rename_i body c hrun
      split at h
      · rename_i hempty
        cases h
        have hclean : Clean (declarations (depthFor (t :: rest)) none) (startOf t rest) body c :=
          ⟨hrun, by rw [List.isEmpty_iff.1 hempty]; rfl⟩
        obtain ⟨ts, hleft, -, hstand⟩ := hlocates.result hdepth hended body c hclean
        have heof : c.current.kind = .eof := by
          rcases hsound.result hdepth hended with hlt | ⟨_, _, _, hrun', -, -, -, heof⟩
          · rw [hclean.1, hclean.2] at hlt
            exact absurd hlt (Nat.lt_irrefl _)
          · cases hrun.symm.trans hrun'
            exact heof rfl
        have hstart : Ended (startOf t rest).left := hended
        have hrest : c.rest = [] := (Ended.left_of_append (hleft ▸ hstart)).rest_eq_nil heof
        have hlast : c.left = [c.current] := by rw [Cursor.left, hrest]
        have htokens : t :: rest = ts ++ [c.current] := by
          rw [hlast] at hleft
          exact hleft
        exact ⟨ts, c.current, htokens, hstand, t, c.current, rfl, by rw [htokens]; simp, rfl⟩
      · cases h
    · cases h

private theorem Has.stands {p : Program} {ts : List Token} (hts : Ordered ts)
    (h : StandAll (Piece.statements p.body) ts) {t : Tree} (ht : p.Has t) :
    ∃ us, us <:+: ts ∧ Stands t us := by
  induction ht with
  | @statement s hs =>
    refine h.of_mem hts (List.mem_flatMap.2 ⟨.tree (.stmt s), ?_, List.mem_cons_self⟩)
    exact List.mem_map.2 ⟨s, hs, rfl⟩
  | child _ hc ih =>
    obtain ⟨us, hus, ht⟩ := ih
    obtain ⟨vs, hvs, hc⟩ := ht.parts.of_mem (hts.sublist hus.sublist) hc
    exact ⟨vs, hvs.trans hus, hc⟩

/-- The span of every tree of a program runs from the first to the last of the tokens that it was
read from, and the program itself reaches from its first token to the end of the source. Hence no
span is empty but that of an empty program, and the trees that a tree consists of lie within it, one
after another in the order of the source. -/
theorem parse_spans {file source : Text} {p : Program} (h : parse file source = .ok p) :
    ∃ ts, scan file source = .ok (ts ++ [eofAt file source]) ∧
      (StandAll (Piece.statements p.body) ts ∧ Covers (ts ++ [eofAt file source]) p.span ∧
        ∀ t, p.Has t → ∃ us, us <:+: ts ∧ Stands t us) ∧
      (∀ t, p.Has t → ¬ t.span.stop.le t.span.start ∧ Encloses t.span t.parts) ∧
      (p.body ≠ [] → ¬ p.span.stop.le p.span.start) ∧
        Encloses p.span (Piece.statements p.body) := by
  unfold parse at h
  split at h
  · rename_i tokens hscan
    obtain ⟨ts, rfl, hended, hspells, hlexemes⟩ := ended_of_scan hscan
    obtain ⟨us, eof, heq, hstand, hcovers⟩ := ofTokens_stands hended h
    obtain rfl := (List.append_inj' heq rfl).1
    obtain ⟨hpairs, htaken, -⟩ := hspells.ordered
    have hordered : Ordered ts := by
      refine ⟨fun t ht => ?_, (List.pairwise_append.1 hpairs).1⟩
      obtain ⟨bytes, hlexeme⟩ := hlexemes t ht
      exact htaken t (List.mem_append_left _ ht) hlexeme.ne_eof
    have hbounds : ∀ t ∈ ts, p.span.start.le t.span.start ∧ t.span.stop.le p.span.stop := by
      refine fun t ht => hcovers.bounds (fun u hu => ?_) hpairs t (List.mem_append_left _ ht)
      rcases List.mem_append.1 hu with hu | hu
      · exact Pos.le_of_not_le (hordered.taken u hu)
      · rw [List.mem_singleton.1 hu]
        exact Pos.le_refl _
    have hhas : ∀ t, p.Has t → ∃ us, us <:+: ts ∧ Stands t us := fun t => Has.stands hordered hstand
    refine ⟨ts, hscan, ⟨hstand, hcovers, hhas⟩, fun t ht => ?_, fun hne => ?_, ?_⟩
    · obtain ⟨us, hus, ht⟩ := hhas t ht
      have hordered' := hordered.sublist hus.sublist
      exact ⟨hordered'.nonempty ht.covers, ht.encloses hordered'⟩
    · obtain ⟨s, hs⟩ := List.exists_mem_of_ne_nil p.body hne
      obtain ⟨us, hus, hs⟩ := hhas _ (.statement hs)
      obtain ⟨t, ht⟩ := List.exists_mem_of_ne_nil us hs.covers.ne_nil
      have ht' := hus.subset ht
      exact not_stop_le_start (hordered.taken t ht') (hbounds t ht')
    · obtain ⟨cs, horder, hstands, hpairs⟩ := hstand.inOrder hordered
      refine ⟨cs, horder, fun c hc => ?_, hpairs⟩
      obtain ⟨us, hus, hc⟩ := hstands c hc
      obtain ⟨first, last, hhead, hlast, hspan⟩ := hc.covers
      rw [hspan]
      exact ⟨(hbounds first (hus.subset (List.mem_of_mem_head? hhead))).1,
        (hbounds last (hus.subset (List.mem_of_getLast? hlast))).2⟩
  · cases h

/-- A static method between two methods, with a call and a grouping in its body. -/
theorem parse_spans_static :
    let source :=
      lit "class A \x7b a() \x7b\x7d class b(x) \x7b return (x).a(1); \x7d c() \x7b\x7d \x7d // end"
    ∃ p, parse [] source = .ok p ∧
      p.span = { file := [], start := ⟨1, 1⟩, stop := ⟨1, 65⟩ } ∧
      (p.body.map Stmt.span) = [{ file := [], start := ⟨1, 1⟩, stop := ⟨1, 58⟩ }] ∧
      Encloses p.span (Piece.statements p.body) ∧
      ∀ t, p.Has t → ¬ t.span.stop.le t.span.start ∧ Encloses t.span t.parts := by
  intro source
  have hspans : (parse [] source).toOption.map (fun p => (p.span, p.body.map Stmt.span)) =
      some ({ file := [], start := ⟨1, 1⟩, stop := ⟨1, 65⟩ },
        [{ file := [], start := ⟨1, 1⟩, stop := ⟨1, 58⟩ }]) := by decide +kernel
  cases hp : parse [] source with
  | error ds =>
    rw [hp] at hspans
    cases hspans
  | ok p =>
    rw [hp] at hspans
    obtain ⟨-, -, -, htrees, -, hbody⟩ := parse_spans hp
    obtain ⟨hspan, hstatements⟩ := Prod.mk.inj (Option.some.inj hspans)
    exact ⟨p, rfl, hspan, hstatements, hbody, htrees⟩

end Program
end Lox

import Lox.Proofs.Parse
import Lox.Proofs.Prefix.Lexing
import Lox.Proofs.Prefix.Reader

set_option autoImplicit false
set_option relaxedAutoImplicit false

namespace Lox

namespace Program

open Lox.Parser
open Text (lit)

/-- If the reading of all declarations ends with nothing wrong but the end, so does the reading of
the program. -/
theorem ofTokens_of_ranOut {file : Text} {t : Token} {ts : List Token} (hended : Ended (t :: ts))
    (hout : (declarations (depthFor (t :: ts)) none (startOf t ts)).2.RanOut) :
    (∃ p, ofTokens file (t :: ts) = .ok p) ∨
      ∃ ds, ofTokens file (t :: ts) = .error ds ∧ Diagnostic.isIncomplete ds = true := by
  rcases Grammar.ofTokens_sound file hended with ⟨p, hp, -⟩ | ⟨ds, hds, hne⟩
  · exact .inl ⟨p, hp⟩
  · refine .inr ⟨ds, hds, ?_⟩
    have hhints : ∀ d ∈ ds, d.hint = Diagnostic.endOfInput := by
      rw [faults_of_ofTokens hended hds]
      exact fun d hd => hout.hinted d (List.mem_reverse.1 hd)
    simpa [Diagnostic.isIncomplete, hne] using hhints

private theorem clean_of_ofTokens {file : Text} {t : Token} {ts : List Token} {p : Program}
    (hended : Ended (t :: ts)) (h : ofTokens file (t :: ts) = .ok p) :
    ∃ body c, Clean (declarations (depthFor (t :: ts)) none) (startOf t ts) body c ∧
      c.current.kind = .eof := by
  have hsound := (Grammar.soundAt (depthFor (t :: ts))).declarations none (startOf t ts)
  rw [ofTokens_eq file hended] at h
  rcases hsound.result (le_depthFor t ts) hended with hlt | ⟨body, us, c, hrun, hfaults, -, -, heof⟩
  · split at h
    · rename_i body c hrun
      rw [hrun] at hlt
      split at h
      · rename_i hempty
        rw [List.isEmpty_iff.1 hempty] at hlt
        exact absurd hlt (Nat.not_lt_zero _)
      · cases h
    · cases h
  · exact ⟨body, c, ⟨hrun, congrArg List.length hfaults⟩, heof rfl⟩

private theorem ofTokens_beginning {file : Text} {us vs : List Token}
    {eof eof' : Token} {p : Program}
    (heof : eof.kind = .eof) (heof' : eof'.kind = .eof) (hne : ∀ t ∈ us ++ vs, t.kind ≠ .eof)
    (h : ofTokens file (us ++ vs ++ [eof]) = .ok p) :
    (∃ q, ofTokens file (us ++ [eof']) = .ok q) ∨
      ∃ ds, ofTokens file (us ++ [eof']) = .error ds ∧ Diagnostic.isIncomplete ds = true := by
  have hended : Ended (us ++ vs ++ [eof]) := ended_of_eof heof hne
  have hended' : Ended (us ++ [eof']) :=
    ended_of_eof heof' fun t ht => hne t (List.mem_append_left vs ht)
  cases us with
  | nil =>
    have hout : (startOf eof' []).RanOut := ⟨heof', rfl, fun _ hd => absurd hd List.not_mem_nil⟩
    have htrails := (trailsAt 0 (depthFor [eof'])).declarations none (startOf eof' [])
      (startOf eof' [])
    exact ofTokens_of_ranOut hended' (htrails.quiet (le_depthFor eof' []) hout)
  | cons u us =>
    simp only [List.cons_append] at hended hended' h ⊢
    refine ofTokens_of_ranOut hended' ?_
    obtain ⟨body, c, hclean, hatEnd⟩ := clean_of_ofTokens hended h
    have hdepth : depthFor (u :: (us ++ vs ++ [eof])) =
        32 * vs.length + depthFor (u :: (us ++ [eof'])) := by
      simp only [depthFor, List.length_append, List.length_cons, List.length_nil]
      omega
    have hroom := le_depthFor u (us ++ [eof'])
    have hstep : InStep vs.length (startOf u (us ++ vs ++ [eof])) (startOf u (us ++ [eof'])) :=
      ⟨rfl, fun _ hd => absurd hd List.not_mem_nil, hended, us, vs ++ [eof], eof',
        by simp [Cursor.left, startOf], by simp, rfl, heof'⟩
    have htrails := (trailsAt vs.length (depthFor (u :: (us ++ [eof'])))).declarations none
      (startOf u (us ++ vs ++ [eof])) (startOf u (us ++ [eof']))
    rw [← hdepth] at htrails
    -- In step with the whole, the reader of the beginning would have to be at the end as well.
    rcases htrails.step hroom hstep body c hclean with hout | ⟨c', -, hstep', -⟩
    · exact hout
    · exact absurd (hstep'.current ▸ hatEnd) hstep'.kind_ne_eof

/-- Broken off before a line feed or after a token, a program is a program, or it is incomplete. -/
theorem parse_beginning {file pre rest : Text} {p : Program}
    (h : parse file (pre ++ rest) = .ok p) (hbreaks : Token.BreaksAt file pre rest) :
    (∃ q, parse file pre = .ok q) ∨
      ∃ ds, parse file pre = .error ds ∧ Diagnostic.isIncomplete ds = true := by
  unfold parse at h
  split at h
  · rename_i tokens hscan
    obtain ⟨ts, rfl, -, -, hlexemes⟩ := ended_of_scan hscan
    have hne : ∀ t ∈ ts, t.kind ≠ .eof := fun t ht => (hlexemes t ht).choose_spec.ne_eof
    rcases Token.scan_of_breaksAt hbreaks hscan with ⟨us, vs, rfl, hpre⟩ | ⟨f, hpre, hfault⟩
    · rw [parse, hpre]
      exact ofTokens_beginning rfl rfl hne h
    · rw [parse, hpre]
      refine .inr ⟨_, rfl, ?_⟩
      simp [Diagnostic.isIncomplete, Token.FaultAt.hinted, hfault]
  · cases h

theorem parse_beginning_openBlock :
    ∃ p ds, parse (lit "t.lox") (lit "\x7b // a block" ++ lit "\n\x7d") = .ok p ∧
      Token.BreaksAt (lit "t.lox") (lit "\x7b // a block") (lit "\n\x7d") ∧
      parse (lit "t.lox") (lit "\x7b // a block") = .error ds ∧
      Diagnostic.isIncomplete ds = true := by
  have hwhole :
      (parse (lit "t.lox") (lit "\x7b // a block" ++ lit "\n\x7d")).toOption.isSome = true := by
    decide +kernel
  have hnone : (parse (lit "t.lox") (lit "\x7b // a block")).toOption.isSome = false := by
    decide +kernel
  have hbreaks : Token.BreaksAt (lit "t.lox") (lit "\x7b // a block") (lit "\n\x7d") :=
    .inl ⟨lit "\x7d", by decide⟩
  cases hp : parse (lit "t.lox") (lit "\x7b // a block" ++ lit "\n\x7d") with
  | error ds =>
    rw [hp] at hwhole
    cases hwhole
  | ok p =>
    rcases parse_beginning hp hbreaks with ⟨q, hq⟩ | ⟨ds, hds, hincomplete⟩
    · rw [hq] at hnone
      cases hnone
    · exact ⟨p, ds, rfl, hbreaks, hds, hincomplete⟩

end Program
end Lox

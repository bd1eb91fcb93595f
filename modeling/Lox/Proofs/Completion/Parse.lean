import Lox.Proofs.Completion.Assignment
import Lox.Proofs.Completion.Closing
import Lox.Proofs.Completion.Reader

set_option autoImplicit false
set_option relaxedAutoImplicit false

namespace Lox

namespace Program

open Lox.Parser
open Grammar (Derives)
open Text (lit)

/-- If all that is told of some tokens is that something is lacking, the rest can be written. -/
theorem ofTokens_completable {file : Text} {tokens : List Token} {ds : List Diagnostic}
    (hended : Ended tokens) (h : ofTokens file tokens = .error ds)
    (hlacking : ∀ d ∈ ds, d.Lacking) :
    AssignsToValue tokens ∨
      Completable file tokens fun ts => ∃ body, Derives .declarations ts (.stmts body) := by
  cases tokens with
  | nil => exact hended.elim
  | cons t ts =>
    obtain ⟨q, hq, -⟩ | ⟨ds', hds, hne⟩ := Grammar.ofTokens_sound file hended
    · cases hq.symm.trans h
    · cases hds.symm.trans h
      have hfaults := faults_of_ofTokens hended h
      have hnoted :
          0 < (declarations (depthFor (t :: ts)) none (startOf t ts)).2.faults.length := by
        have hlength := congrArg List.length hfaults
        rw [List.length_reverse] at hlength
        exact hlength ▸ List.length_pos_iff.2 hne
      have hmends := (mendsAt file (depthFor (t :: ts))).declarations none [] (startOf t ts)
      refine (hmends.step trivial (le_depthFor t ts) hended hnoted fun d hd => ?_).imp_right ?_
      · exact hlacking d (hfaults ▸ List.mem_reverse.2 hd)
      · rintro ⟨xs, eof, hxs, hwrite⟩
        exact ⟨xs, eof, hxs, hwrite.imp fun ys ⟨body, _, hbody, _⟩ => ⟨body, hbody⟩⟩

private theorem exists_completion {file source : Text} {tokens : List Token}
    (hscan : Token.scan file source = .ok tokens)
    (hlacking : ∀ ds, parse file source = .error ds → ∀ d ∈ ds, d.Lacking)
    (hassigns : ¬ AssignsToValue tokens) : ∃ t p, parse file (source ++ t) = .ok p := by
  cases h : parse file source with
  | ok p => exact ⟨[], p, by rw [List.append_nil, h]⟩
  | error ds =>
    have hlacking := hlacking ds h
    obtain ⟨ts, rfl, hended, hspells, -⟩ := ended_of_scan hscan
    rw [parse, hscan] at h
    rcases ofTokens_completable hended h hlacking with hvalue | ⟨xs, eof, hxs, hwrite⟩
    · exact absurd hvalue hassigns
    · obtain ⟨rfl, -⟩ := List.append_inj' hxs rfl
      obtain ⟨u, us, hu, body, hbody⟩ := hwrite (source ++ [Byte.lineFeed])
      have hspells' := hspells.add_line hu
      obtain ⟨ts', heq, hended', -⟩ := ended_of_scan hspells'.scan_eq
      obtain ⟨p, hp, -⟩ := Grammar.ofTokens_complete file hended' ⟨_, _, rfl, rfl, hbody⟩
      exact ⟨Byte.lineFeed :: u, p, by rw [parse, hspells'.scan_eq]; exact hp⟩

/-- A source that is incomplete has tokens once a string or a comment in which it ends is closed.
More lines then make a program of it, unless something else than a lack is told of it when it is
closed, or it goes past an equals sign after something that takes no value. -/
theorem parse_completable {file source : Text} {ds : List Diagnostic}
    (h : parse file source = .error ds) (hincomplete : Diagnostic.isIncomplete ds = true) :
    ∃ tokens, Token.scan file (source ++ Token.closing file source) = .ok tokens ∧
      ((∀ ds', parse file (source ++ Token.closing file source) = .error ds' →
          ∀ d ∈ ds', d.Lacking) →
        ¬ AssignsToValue tokens → ∃ t p, parse file (source ++ t) = .ok p) := by
  have hclosed : ∃ tokens, Token.scan file (source ++ Token.closing file source) = .ok tokens := by
    cases hscan : Token.scan file source with
    | ok tokens => exact ⟨tokens, by rw [Token.closing, hscan, List.append_nil, hscan]⟩
    | error f =>
      refine Token.scan_closing hscan ?_
      rw [parse, hscan] at h
      rw [← Except.error.inj h] at hincomplete
      cases hf : f.fault.isUnterminated with
      | true => rfl
      | false =>
        have hnone : Diagnostic.endOfInput ≠ [] := by decide
        simp [Diagnostic.isIncomplete, Token.FaultAt.hinted, hf, Token.FaultAt.diagnostic, hnone]
          at hincomplete
  obtain ⟨tokens, hscan⟩ := hclosed
  refine ⟨tokens, hscan, fun hlacking hassigns => ?_⟩
  obtain ⟨t, p, hp⟩ := exists_completion hscan hlacking hassigns
  exact ⟨Token.closing file source ++ t, p, by rw [← List.append_assoc, hp]⟩

private theorem not_assignsToValue {tokens : List Token} (h : ∀ t ∈ tokens, t.kind ≠ .mark .equal) :
    ¬ AssignsToValue tokens := by
  rintro ⟨before, ts, equal, after, e, rfl, -, hequal, -⟩
  exact h equal (by simp) hequal

def tells (holds : List Diagnostic → Bool) : Except (List Diagnostic) Program → Bool
  | .ok _ => false
  | .error ds => holds ds

def openCall : Text := lit "fun f(a) \x7b f(\"b"

theorem parse_completable_openCall :
    ∃ ds tokens, parse (lit "t.lox") openCall = .error ds ∧ Diagnostic.isIncomplete ds = true ∧
      Token.scan (lit "t.lox") (openCall ++ [Byte.quote]) = .ok tokens ∧
      (∀ ds', parse (lit "t.lox") (openCall ++ [Byte.quote]) = .error ds' → ∀ d ∈ ds', d.Lacking) ∧
      ¬ AssignsToValue tokens ∧ ∃ t p, parse (lit "t.lox") (openCall ++ t) = .ok p := by
  have hclosing : Token.closing (lit "t.lox") openCall = [Byte.quote] := by decide +kernel
  have htold : tells Diagnostic.isIncomplete (parse (lit "t.lox") openCall) = true := by
    decide +kernel
  have hlacks : tells (fun ds => decide (∀ d ∈ ds, d.Lacking))
      (parse (lit "t.lox") (openCall ++ [Byte.quote])) = true := by
    decide +kernel
  have hnames : (Token.scan (lit "t.lox") (openCall ++ [Byte.quote])).toOption.all
      (fun tokens => decide (∀ t ∈ tokens, t.kind ≠ .mark .equal)) = true := by
    decide +kernel
  cases hparse : parse (lit "t.lox") openCall with
  | ok p =>
    rw [hparse] at htold
    cases htold
  | error ds =>
    rw [hparse] at htold
    obtain ⟨tokens, hscan, hcompletes⟩ := parse_completable hparse htold
    rw [hclosing] at hscan hcompletes
    have hlacking : ∀ ds', parse (lit "t.lox") (openCall ++ [Byte.quote]) = .error ds' →
        ∀ d ∈ ds', d.Lacking := by
      intro ds' hds'
      rw [hds'] at hlacks
      exact of_decide_eq_true hlacks
    rw [hscan] at hnames
    have hassigns := not_assignsToValue (of_decide_eq_true hnames)
    exact ⟨ds, tokens, rfl, htold, hscan, hlacking, hassigns, hcompletes hlacking hassigns⟩

/-- A source that is told to be incomplete, though no more text makes a program of it: that nothing
can be assigned to a numeral would be told after the value only. -/
theorem incomplete_forever :
    ∃ ds, parse (lit "t.lox") (lit "1 =\n") = .error ds ∧ Diagnostic.isIncomplete ds = true ∧
      ∀ t p, parse (lit "t.lox") (lit "1 =\n" ++ t) ≠ .ok p := by
  have htold : tells Diagnostic.isIncomplete (parse (lit "t.lox") (lit "1 =\n")) = true := by
    decide +kernel
  have hscan : Token.scan (lit "t.lox") (lit "1 =") = .ok ([] ++
      Token.tokenAt (lit "t.lox") [] ⟨.number, lit "1", lit "1"⟩ ::
      Token.tokenAt (lit "t.lox") (lit "1 ") ⟨.mark .equal, lit "=", lit "="⟩ :: [] ++
      [Token.eofAt (lit "t.lox") (lit "1 =")]) := by
    rfl
  cases hparse : parse (lit "t.lox") (lit "1 =\n") with
  | ok p =>
    rw [hparse] at htold
    cases htold
  | error ds =>
    rw [hparse] at htold
    refine ⟨ds, rfl, htold, fun t p => ?_⟩
    have hline : lit "1 =\n" ++ t = lit "1 =" ++ Byte.lineFeed :: t := by
      rw [List.append_cons]
      exact congrArg (· ++ t) (by decide)
    rw [hline]
    exact parse_ne_ok_of_equal hscan (by decide) rfl p

end Program
end Lox

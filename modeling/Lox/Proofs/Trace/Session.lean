import Lox.Proofs.Run.Session
import Lox.Proofs.Trace.Json
import Lox.Proofs.Trace.Summary

set_option autoImplicit false
set_option relaxedAutoImplicit false

namespace Lox

open Text (lit)
open Trace (Stamped Codec isShort lineLimit counted)

/-- The statistics of a whole run from a machine at rest agree with its events. -/
structure Settled (m : Machine) (log : List Event) : Prop where
  length : log.length = 2 * m.calls + 2
  calls : starts log = m.calls
  peak : deepest log = m.peak
  called : deepest (log.filter (·.kind == .callStart)) = m.peak

private theorem RunAccounted.settled {st : Settings} {span : Span} {m m' : Machine} {w : List Event}
    (h : RunAccounted st span m m' w) (htraced : st.traced = true) (hevents : m.events = [])
    (hcalls : m.calls = 0) (hdepth : m.depth = 0) (hpeak : m.peak = 0) :
    Settled m' m'.events.reverse := by
  have hlog : m'.events.reverse = { kind := .runStart, span, name := [], depth := 0 } :: (w ++
      [{ kind := .runEnd, span, name := [], depth := 0 }]) := by
    rw [h.events, htraced, hevents, hdepth]
    simp
  have hcalls : m'.calls = starts w := by
    rw [h.calls, hcalls, Nat.zero_add]
  have hpeak : m'.peak = deepest w := by
    rw [h.peak, hpeak, Nat.zero_max]
  refine ⟨?_, ?_, ?_, ?_⟩
  · rw [hlog, hcalls, List.length_cons, List.length_append, h.word.length]
    rfl
  · rw [hlog, hcalls]
    simp [starts]
  · rw [hlog, hpeak]
    simp
  · rw [hlog, hpeak, ← h.word.deepest]
    simp

namespace Session

private theorem start_settled {config : Config} {registry : Registry} {time : Float}
    {fuel : Nat} {p : Program}
    (hend : ((start config registry true time).execute fuel p).1 ≠ .error .exhausted) :
    let m := ((start config registry true time).execute fuel p).2.machine
    Settled m m.events.reverse := by
  intro m
  obtain ⟨w, hw⟩ := Eval.program_accounted (execute_endsAt hend).2
  exact hw.settled rfl rfl rfl rfl rfl

/-- The trace file of the first run of a session, for every codec that gives the events of the file
back. The counters of the session agree with the events that were recorded. The summary of the file
counts the events before the first one whose line is too long, so it counts them all just if no line
is; and then it agrees with the counters of the session, however the run ended. -/
theorem summary_of_trace {config : Config} {registry : Registry} {time : Float}
    {fuel : Nat} {p : Program} {r : Except RunError Unit} {s' : Session}
    (hrun : (start config registry true time).execute fuel p = (r, s'))
    (hend : r ≠ .error .exhausted) (c : Codec) {run : Text} {file : List Stamped}
    (hfile : file.map Stamped.event = s'.machine.events.reverse) (hid : ∀ x ∈ file, x.run = run)
    (hcodec : ∀ x ∈ file, c.RoundTrips x) :
    let log := s'.machine.events.reverse
    let summary := Trace.Summary.read c (Trace.write c file)
    Settled s'.machine log ∧
      summary.Counts run ((file.takeWhile (isShort c)).map Stamped.event) ∧
      (summary.events = log.length ↔ ∀ x ∈ file, (c.encode x).length < lineLimit) ∧
      (summary.events = log.length →
        summary.calls = s'.machine.calls ∧
        (∀ name, counted summary.callsByName name =
          log.countP fun e => e.kind == .callStart && e.name == name) ∧
        (summary.callsByName.map Prod.snd).sum = s'.machine.calls ∧
        summary.maxDepth = s'.machine.peak ∧ summary.run = run) := by
  intro log summary
  have hends : ((start config registry true time).execute fuel p).1 ≠
    .error .exhausted := by rwa [hrun]
  have hsettled : Settled s'.machine log := by
    have hstart := start_settled hends
    rwa [hrun] at hstart
  have hcounts : summary.Counts run ((file.takeWhile (isShort c)).map Stamped.event) :=
    Trace.Summary.read_write hid hcodec
  have htaken : summary.events = log.length ↔ file.takeWhile (isShort c) = file := by
    have hlength : file.length = log.length :=
      (List.length_map _).symm.trans (congrArg List.length hfile)
    rw [hcounts.events, List.length_map, ← hlength]
    exact ⟨fun h => (List.takeWhile_prefix _).eq_of_length h, fun h => congrArg List.length h⟩
  refine ⟨hsettled, hcounts, ?_, ?_⟩
  · rw [htaken, List.takeWhile_eq_self_iff]
    exact forall₂_congr fun x _ => decide_eq_true_iff
  · intro hevents
    have hne : log ≠ [] := by
      intro hnil
      have hlength := hsettled.length
      rw [hnil, List.length_nil] at hlength
      omega
    rw [htaken.1 hevents, hfile] at hcounts
    refine ⟨hcounts.calls.trans hsettled.calls, hcounts.byName, ?_, ?_, ?_⟩
    · rw [hcounts.total, hcounts.calls, hsettled.calls]
    · rw [hcounts.maxDepth, hsettled.called]
    · rw [hcounts.run, if_neg hne]

def bare : Session where
  settings := { limit := 1024, natives := #[], traced := true, time := 0 }
  machine := .initial []

private theorem start_empty : start {} .empty true 0 = bare := by
  have hnone (allowed : Text → Bool) : Registry.empty.select allowed = [] := by
    rw [Registry.select, Registry.sorted, Registry.empty, List.mergeSort_nil, List.filter_nil]
  rw [start, hnone]
  rfl

def oneCall : Text := lit "fun f() \x7b\x7d f();"

def stamped (run : Text) (s : Session) : List Stamped :=
  s.machine.events.reverse.map fun event => { time := lit "now", run, event }

private theorem event_stamped (run : Text) (s : Session) :
    (s.stamped run).map Stamped.event = s.machine.events.reverse := by
  rw [stamped, List.map_map]
  exact List.map_id _

private theorem run_stamped (run : Text) (s : Session) : ∀ x ∈ s.stamped run, x.run = run :=
  List.forall_mem_map.2 fun _ _ => rfl

theorem summary_of_trace_oneCall :
    let s := start {} .empty true 0
    ∃ p, s.prepare (lit "t.lox") oneCall = .ok p ∧ (s.execute 20 p).1 = .ok () ∧
      let file := (s.execute 20 p).2.stamped (lit "run")
      let summary := Trace.Summary.read .json (Trace.write .json file)
      summary.events = 4 ∧ summary.calls = 1 ∧ counted summary.callsByName (lit "<fn f>") = 1 ∧
        summary.maxDepth = 1 ∧ summary.run = lit "run" := by
  intro s
  obtain ⟨p, hp, hchecked⟩ := exists_prepare bare (lit "t.lox") oneCall
    (fun p =>
      let s' := (bare.execute 20 p).2
      let m := s'.machine
      decide ((bare.execute 20 p).1.toOption = some () ∧ m.calls = 1 ∧ m.peak = 1 ∧
        m.events.length = 4 ∧ (∀ x ∈ s'.stamped (lit "run"), x.Storable) ∧
        (∀ x ∈ s'.stamped (lit "run"), (Codec.json.encode x).length < lineLimit) ∧
        (m.events.reverse.countP fun e => e.kind == .callStart && e.name == lit "<fn f>") = 1))
    (by decide +kernel)
  rw [← start_empty] at hp hchecked
  obtain ⟨hok, hcalls, hpeak, hlength, hstorable, hshort, hname⟩ := of_decide_eq_true hchecked
  have hok : (s.execute 20 p).1 = .ok () := eq_ok_of_toOption hok
  have hend : (s.execute 20 p).1 ≠ .error .exhausted := by
    rw [hok]
    intro h
    cases h
  obtain ⟨-, -, hall, hrest⟩ := summary_of_trace (Prod.eta (s.execute 20 p)).symm hend .json
    (event_stamped _ _) (run_stamped _ _) fun x hx => (hstorable x hx).roundTrips
  have hevents := hall.2 hshort
  obtain ⟨hsummary, hnames, -, hdepth, hrun⟩ := hrest hevents
  refine ⟨p, hp, hok, ?_, hsummary.trans hcalls, (hnames _).trans hname, ?_, hrun⟩
  · rw [hevents, List.length_reverse, hlength]
  · rw [hdepth, hpeak]
    rfl

private theorem replicate_eq_encoded (n : Nat) :
    List.replicate n 97 = Text.encoded (List.replicate n 'a') := by
  induction n with
  | zero => rfl
  | succ n ih =>
    rw [List.replicate_succ, ih]
    rfl

/-- The name of a run may make every line too long, and then nothing is counted of a run that has
made a call. -/
theorem summary_of_trace_longRun :
    let s := start {} .empty true 0
    ∃ p, s.prepare (lit "t.lox") oneCall = .ok p ∧ (s.execute 20 p).1 = .ok () ∧
      (s.execute 20 p).2.machine.calls = 1 ∧
      let file := (s.execute 20 p).2.stamped (List.replicate 65536 97)
      let summary := Trace.Summary.read .json (Trace.write .json file)
      (∀ x ∈ file, Codec.json.RoundTrips x) ∧ file.length = 4 ∧
        summary.events = 0 ∧ summary.calls = 0 := by
  intro s
  obtain ⟨p, hp, hchecked⟩ := exists_prepare bare (lit "t.lox") oneCall
    (fun p =>
      let s' := (bare.execute 20 p).2
      decide ((bare.execute 20 p).1.toOption = some () ∧ s'.machine.calls = 1 ∧
        s'.machine.events.length = 4 ∧ ∀ x ∈ s'.stamped [], x.Storable))
    (by decide +kernel)
  rw [← start_empty] at hp hchecked
  obtain ⟨hok, hcalls, hlength, hstorable⟩ := of_decide_eq_true hchecked
  refine ⟨p, hp, eq_ok_of_toOption hok, hcalls, ?_⟩
  intro file summary
  have hrun : Text.isUtf8 (List.replicate 65536 97) = true :=
    (Text.isUtf8_iff _).2 ((Text.exists_lit_iff _).2 ⟨_, replicate_eq_encoded 65536⟩)
  have hread : ∀ x ∈ file, Codec.json.RoundTrips x := by
    refine List.forall_mem_map.2 fun e he => ?_
    have hempty := hstorable _ (List.mem_map_of_mem he)
    exact Stamped.Storable.roundTrips { hempty with run := hrun }
  have hlong : ∀ x ∈ file.head?, lineLimit ≤ (Codec.json.encode x).length := by
    intro x hx
    have hid : x.run = List.replicate 65536 97 := run_stamped _ _ x (List.mem_of_mem_head? hx)
    have htold := Trace.told_le_length x
    rw [hid, List.length_replicate] at htold
    rw [lineLimit]
    omega
  have hcounts := Trace.Summary.read_write_of_long (run_stamped _ _) hread hlong
  refine ⟨hread, ?_, hcounts.events, hcounts.calls⟩
  calc file.length = (s.execute 20 p).2.machine.events.reverse.length := List.length_map _
    _ = 4 := by rw [List.length_reverse, hlength]

end Session
end Lox

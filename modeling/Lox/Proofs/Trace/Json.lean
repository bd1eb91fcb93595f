import Lox.Proofs.Json.RoundTrip
import Lox.Proofs.Trace.Reading
import Lox.Trace.Json

set_option autoImplicit false
set_option relaxedAutoImplicit false

namespace Lox.Trace

open Text (lit)

private theorem spanJson_integral (s : Span) : (Diagnostic.spanJson s).Integral := by
  simp only [Diagnostic.spanJson, Json.int, Json.Integral, Json.IntegralMembers, and_true, true_and]
  exact ⟨⟨_, rfl⟩, ⟨_, rfl⟩, ⟨_, rfl⟩, ⟨_, rfl⟩⟩

private theorem eventJson_integral (time run : Text) (e : Event) :
    (eventJson time run e).Integral := by
  have hdepth : Json.Integral (.int e.depth) := by
    rw [Json.int, Json.Integral]
    exact ⟨_, rfl⟩
  have hspan := spanJson_integral e.span
  unfold eventJson
  rw [Json.Integral]
  split <;> split <;> simp [Json.IntegralMembers, Json.Integral, hspan, hdepth]

private theorem eventJson_depth (time run : Text) (e : Event) :
    (eventJson time run e).depth ≤ Json.maxDepth := by
  have hspan : (Diagnostic.spanJson e.span).depth = 1 := by
    simp [Diagnostic.spanJson, Json.int, Json.depth, Json.depthMembers]
  unfold eventJson
  rw [Json.depth]
  split <;> split <;> simp [Json.depthMembers, Json.depth, Json.int, hspan, Json.maxDepth]

def IsInt64 (n : Int) : Prop := Int64.minValue.toInt ≤ n ∧ n ≤ Int64.maxValue.toInt

structure Stamped.Storable (x : Stamped) : Prop where
  time : Text.isUtf8 x.time = true
  run : Text.isUtf8 x.run = true
  name : Text.isUtf8 x.event.name = true
  startLine : IsInt64 x.event.span.start.line
  startColumn : IsInt64 x.event.span.start.column
  stopLine : IsInt64 x.event.span.stop.line
  stopColumn : IsInt64 x.event.span.stop.column
  depth : IsInt64 x.event.depth

instance (n : Int) : Decidable (IsInt64 n) := inferInstanceAs (Decidable (_ ∧ _))

instance (x : Stamped) : Decidable x.Storable :=
  decidable_of_iff ((Text.isUtf8 x.time = true ∧ Text.isUtf8 x.run = true ∧
      Text.isUtf8 x.event.name = true) ∧ IsInt64 x.event.span.start.line ∧
      IsInt64 x.event.span.start.column ∧ IsInt64 x.event.span.stop.line ∧
      IsInt64 x.event.span.stop.column ∧ IsInt64 x.event.depth)
    ⟨fun ⟨⟨htime, hrun, hname⟩, hline, hcolumn, hline', hcolumn', hdepth⟩ =>
        ⟨htime, hrun, hname, hline, hcolumn, hline', hcolumn', hdepth⟩,
      fun h => ⟨⟨h.time, h.run, h.name⟩, h.startLine, h.startColumn,
        h.stopLine, h.stopColumn, h.depth⟩⟩

private theorem integer?_ofInt (n : Int) : integer? (Text.ofInt n) = some n := by
  have hall (k : Nat) : (Text.ofNat k).all Byte.isDigit = true :=
    List.all_eq_true.2 fun d hd => Text.isDigit_of_mem_ofNat hd
  have hvalue (k : Nat) := Text.foldl_ofNat k
  cases n with
  | ofNat n =>
    rw [Text.ofInt]
    unfold integer?
    dsimp only
    split
    · rename_i ds hminus
      have hdigit : Byte.isDigit 45 = true :=
        Text.isDigit_of_mem_ofNat (hminus ▸ List.mem_cons_self)
      exact absurd hdigit (by decide)
    · rw [if_pos (hall n), hvalue]
      rfl
  | negSucc n =>
    have hminus : lit "-" = [45] := by decide
    rw [Text.ofInt, hminus, List.singleton_append, integer?, if_pos (hall (n + 1))]
    dsimp only
    rw [hvalue]
    rfl

private theorem integerOr?_ofInt {n : Int} (h : IsInt64 n) (former : Int) :
    integerOr? former (.number (Text.ofInt n)) = some n := by
  have hbounds : (Int64.minValue.toInt ≤ n && n ≤ Int64.maxValue.toInt) = true := by
    rw [Bool.and_eq_true, decide_eq_true_eq, decide_eq_true_eq]
    exact h
  rw [integerOr?, integer?_ofInt]
  exact if_pos hbounds

section

variable (e : Entry) (t : Text)

theorem add_time : e.add ((lit "ts").repaired, .string t) = some { e with time := t } := rfl

theorem add_run : e.add ((lit "runId").repaired, .string t) = some { e with run := t } := rfl

theorem add_kind : e.add ((lit "event").repaired, .string t) = some { e with kind := t } := rfl

theorem add_name : e.add ((lit "name").repaired, .string t) = some { e with name := t } := rfl

private theorem add_depth {n : Int} (h : IsInt64 n) :
    e.add ((lit "depth").repaired, (Json.int n).repaired) = some { e with depth := n } := by
  show (integerOr? e.depth (.number (Text.ofInt n))).map _ = _
  rw [integerOr?_ofInt h]
  rfl

private theorem add_place (j : Json) :
    e.add ((lit "span").repaired, j) = if isSpan j then some e else none := rfl

private theorem add_span {s : Span} (hstart : IsInt64 s.start.line ∧ IsInt64 s.start.column)
    (hstop : IsInt64 s.stop.line ∧ IsInt64 s.stop.column) :
    e.add ((lit "span").repaired, (Diagnostic.spanJson s).repaired) = some e := by
  have hsome {n : Int} (h : IsInt64 n) : (integerOr? 0 (.number (Text.ofInt n))).isSome = true := by
    rw [integerOr?_ofInt h]
    rfl
  have hspan : isSpan (Diagnostic.spanJson s).repaired = true := by
    rw [Diagnostic.spanJson, Json.repaired, isSpan]
    simp only [Json.repairedMembers, List.all_cons, List.all_nil, Bool.and_true, Bool.and_eq_true]
    exact ⟨rfl, hsome hstart.1, hsome hstart.2, hsome hstop.1, hsome hstop.2⟩
  rw [add_place, if_pos hspan]

end

private theorem kind_repaired (k : EventKind) : k.name.repaired = k.name := by
  cases k <;> decide

private theorem ofJson?_eventJson {x : Stamped} (h : x.Storable) :
    Entry.ofJson? (eventJson x.time x.run x.event).repaired = some x.entry := by
  have hspan (d : Entry) := add_span d ⟨h.startLine, h.startColumn⟩ ⟨h.stopLine, h.stopColumn⟩
  have hdepth (d : Entry) := add_depth d h.depth
  have htime := Text.repaired_of_isUtf8 h.time
  have hrun := Text.repaired_of_isUtf8 h.run
  have hname := Text.repaired_of_isUtf8 h.name
  obtain ⟨time, run, e⟩ := x
  have hmembers : ∀ named deep : List (Text × Json),
      Entry.ofJson? (Json.object ([(lit "ts", .string time), (lit "runId", .string run),
        (lit "event", .string e.kind.name), (lit "span", Diagnostic.spanJson e.span)] ++
          named ++ deep)).repaired =
      (Json.repairedMembers (named ++ deep)).foldlM Entry.add
        { time, run, kind := e.kind.name } := by
    intro named deep
    simp only [List.cons_append, List.nil_append, Json.repaired,
      Json.repairedMembers, Entry.ofJson?,
      List.foldlM_cons, add_time, add_run, add_kind, hspan, Option.bind_eq_bind, Option.bind_some,
      kind_repaired, htime, hrun]
  unfold eventJson Stamped.entry
  rw [hmembers]
  -- An empty name and a depth of zero are left out, and a missing member has just these values.
  by_cases hempty : e.name = [] <;> by_cases hzero : e.depth = 0
  · simp [hempty, hzero, Json.repairedMembers]
  · simp [hempty, hzero, Json.repairedMembers, hdepth]
  · simp [hempty, hzero, Json.repairedMembers, Json.repaired, add_name, hname]
  · simp [hempty, hzero, Json.repairedMembers, Json.repaired, add_name, hdepth, hname]

theorem Stamped.Storable.roundTrips {x : Stamped} (h : x.Storable) : Codec.json.RoundTrips x where
  braced := ⟨_, Json.write_object _⟩
  oneLine hmem :=
    absurd (Json.write_visible _ (eventJson_integral x.time x.run x.event) _ hmem) (by decide)
  decoded := by
    have hread := Json.read?_write (eventJson_integral x.time x.run x.event)
      (eventJson_depth x.time x.run x.event)
    show (Json.read? (eventJson x.time x.run x.event).write).bind _ = _
    rw [hread]
    exact ofJson?_eventJson h

private theorem length_spanJson (s : Span) : (Diagnostic.spanJson s).write.length =
    55 + (Json.quoted s.file).length + (Text.ofInt s.start.line).length +
      (Text.ofInt s.start.column).length + (Text.ofInt s.stop.line).length +
      (Text.ofInt s.stop.column).length := by
  have hkeys : (Json.quoted (lit "file")).length = 6 ∧ (Json.quoted (lit "startLine")).length = 11 ∧
      (Json.quoted (lit "startCol")).length = 10 ∧ (Json.quoted (lit "endLine")).length = 9 ∧
      (Json.quoted (lit "endCol")).length = 8 := by decide
  obtain ⟨hfile, hstartLine, hstartColumn, hstopLine, hstopColumn⟩ := hkeys
  rw [Diagnostic.spanJson, Json.length_object]
  simp only [List.map_cons, List.map_nil, List.sum_cons, List.sum_nil, Json.memberLength, hfile,
    hstartLine, hstartColumn, hstopLine, hstopColumn, Json.write, Json.int]
  omega

private theorem length_eventJson (time run : Text) (e : Event) :
    (eventJson time run e).write.length =
    33 + (Json.quoted time).length + (Json.quoted run).length + (Json.quoted e.kind.name).length +
      (Diagnostic.spanJson e.span).write.length +
      (if e.name = [] then 0 else 8 + (Json.quoted e.name).length) +
      (if e.depth = 0 then 0 else 9 + (Text.ofInt e.depth).length) := by
  have hkeys : (Json.quoted (lit "ts")).length = 4 ∧ (Json.quoted (lit "runId")).length = 7 ∧
      (Json.quoted (lit "event")).length = 7 ∧ (Json.quoted (lit "span")).length = 6 ∧
      (Json.quoted (lit "name")).length = 6 ∧ (Json.quoted (lit "depth")).length = 7 := by decide
  obtain ⟨htime, hrun, hevent, hspan, hname, hdepth⟩ := hkeys
  rw [eventJson]
  simp only [List.cons_append, List.nil_append]
  rw [Json.length_object]
  by_cases hempty : e.name = [] <;> by_cases hzero : e.depth = 0 <;>
    simp only [hempty, hzero, if_true, if_false, List.isEmpty_iff, List.map_cons, List.map_nil,
      List.nil_append, List.append_nil, List.cons_append, List.sum_cons, List.sum_nil,
      Json.memberLength, htime, hrun, hevent, hspan, hname, hdepth, Json.write, Json.int] <;>
    omega

theorem told_le_length (x : Stamped) :
    x.time.length + x.run.length + x.event.name.length + x.event.span.file.length ≤
      (Codec.json.encode x).length := by
  have htime := Json.length_add_two_le_quoted x.time
  have hrun := Json.length_add_two_le_quoted x.run
  have hname := Json.length_add_two_le_quoted x.event.name
  have hfile := Json.length_add_two_le_quoted x.event.span.file
  have hline : (Codec.json.encode x).length = (eventJson x.time x.run x.event).write.length := rfl
  rw [hline, length_eventJson, length_spanJson]
  by_cases hempty : x.event.name = []
  · rw [hempty] at hname ⊢
    simp only [List.length_nil]
    omega
  · rw [if_neg hempty]
    omega

end Lox.Trace

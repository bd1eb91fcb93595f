import Lox.Proofs.Run.Session
import Lox.Proofs.Simulation.Session
import Lox.Proofs.Workspace

set_option autoImplicit false
set_option relaxedAutoImplicit false

namespace Lox

open Text (lit)

/-- No value at all and nil may stand for each other, and nothing else may differ. -/
def Latitude.ofBlanks : Latitude := { loops := False, blanks := True }

def Value.filled : Value → Value
  | .absent => .nil
  | v => v

/-- An action that gives nil where it gave no value. -/
def Action.filled : Action → Action
  | .give v => .give v.filled
  | .fail f => .fail f
  | .write line next => .write line fun fault => (next fault).filled
  | .clock next => .clock fun t => (next t).filled
  | .cancel next => .cancel next.filled
  | .invoke callee args next => .invoke callee args fun r => (next r).filled

namespace Native

/-- A native function that gives nil where it gave no value. -/
def filled (n : Native) : Native := { n with act := fun args => (n.act args).filled }

/-- A native function that is watched: before it does anything, what the language tells of its
arguments is written in some way, or makes the call fail. -/
def watched (watch : Text → List (Text × Bool × Text) → Except Failure Text) (n : Native) :
    Native :=
  { n with
    act := fun args => match watch n.name (args.map Value.look) with
      | .error f => .fail f
      | .ok line => .write line fun _ => n.act args }

/-- A native function treats no value at all and nil alike when it is given them. -/
def Tolerant (n : Native) : Prop := n.Matches .ofBlanks n

end Native

/-- A collection with every native function changed. -/
def Registry.map (f : Native → Native) (r : Registry) : Registry := { natives := r.natives.map f }

namespace Workspace

/-- A workspace with every native function changed. -/
def withNatives (f : Native → Native) (w : Workspace) : Workspace :=
  { w with registry := w.registry.map f }

/-- A workspace after requests. -/
def after (w : Workspace) (qs : List Request) : Workspace := qs.foldl (fun w q => (w.answer q).2) w

end Workspace

/-! ### Changed native functions -/

private theorem Value.Matches.fill {v w : Value} (h : v.Matches .ofBlanks w) :
    v.Matches .ofBlanks w.filled := by
  cases h with
  | absent => exact .filled trivial
  | nil => exact .nil
  | filled hL => exact .filled hL
  | emptied _ => exact .nil
  | bool b => exact .bool b
  | number x => exact .number x
  | string t => exact .string t
  | function hf => exact .function hf
  | method i hf hv => exact .method i hf hv
  | native i => exact .native i
  | cls hc => exact .cls hc
  | object i hc => exact .object i hc

private theorem Action.Paired.fill {u : Unit} {a a' : Action}
    (h : Action.Paired (.matching .ofBlanks) u a a') :
    Action.Paired (.matching .ofBlanks) u a a'.filled := by
  induction h with
  | give hv => exact .give (Value.Matches.fill hv)
  | fail hf => exact .fail hf
  | write line _ ih => exact .write line ih
  | clock _ ih => exact .clock ih
  | cancel _ ih => exact .cancel ih
  | invoke hcallee hargs _ _ _ ihnone ihok iherror =>
    exact .invoke hcallee hargs ihnone ihok iherror

private theorem Native.Tolerant.filled {n : Native} (h : n.Tolerant) :
    n.Matches .ofBlanks n.filled :=
  ⟨rfl, rfl, fun args args' hlength hargs => (h.act args args' hlength hargs).fill⟩

private theorem Native.Matches.watched {L : Latitude} {n n' : Native} (h : n.Matches L n')
    (watch : Text → List (Text × Bool × Text) → Except Failure Text) :
    (n.watched watch).Matches L (n'.watched watch) where
  name := h.name
  arity := h.arity
  act args args' hlength hargs := by
    have hlooks : args'.map Value.look = args.map Value.look := by
      clear hlength
      induction hargs with
      | nil => rfl
      | cons hv _ ih => exact congrArg₂ List.cons hv.look.symm ih
    unfold Native.watched
    dsimp only
    rw [h.name, hlooks]
    cases watch n.name (args.map Value.look) with
    | error f => exact .fail rfl
    | ok line => exact .write line fun _ => h.act args args' hlength hargs

/-! ### The first session -/

private theorem Registry.select_map {f : Native → Native}
    (hf : ∀ n, (f n).name = n.name) (r : Registry)
    (allowed : Text → Bool) : (r.map f).select allowed = (r.select allowed).map f := by
  have hsorted : (r.map f).sorted = r.sorted.map f := by
    unfold sorted map
    refine (List.map_mergeSort fun a _ b _ => ?_).symm
    rw [hf, hf]
  unfold select
  rw [hsorted, List.filter_map]
  refine congrArg _ (List.filter_congr fun n _ => ?_)
  show allowed (f n).name = allowed n.name
  rw [hf]

private theorem nativeBindings_map {f : Native → Native} (hf : ∀ n, (f n).name = n.name)
    (natives : List Native) :
    nativeBindings (natives.map f) = nativeBindings natives := by
  unfold nativeBindings
  rw [List.zipIdx_map, List.foldl_map]
  refine congrArg (fun step => List.foldl step [] natives.zipIdx)
    (funext fun bs => funext fun ni => ?_)
  show Bindings.bind bs (f ni.1).name _ = Bindings.bind bs ni.1.name _
  rw [hf]
  rfl

private theorem Session.start_matches {L : Latitude} {f g : Native → Native}
    (hf : ∀ n, (f n).name = n.name)
    (hg : ∀ n, (g n).name = n.name) {r : Registry} (hr : ∀ n ∈ r.natives, (f n).Matches L (g n))
    (config : Config) (traced : Bool) (time : Float) :
    (Session.start config (r.map f) traced time).Matches L
      (Session.start config (r.map g) traced time) := by
  unfold Session.start
  dsimp only
  rw [Registry.select_map hf, Registry.select_map hg]
  refine ⟨⟨rfl, fun i => ?_, rfl, rfl, rfl⟩, ?_⟩
  · dsimp only
    rw [List.getElem?_toArray, List.getElem?_toArray, List.getElem?_map, List.getElem?_map]
    cases hi : (r.select config.allowsNative)[i]? with
    | none => exact .none
    | some n =>
      have hmem : n ∈ r.sorted := (List.mem_filter.1 (List.mem_of_getElem? hi)).1
      exact .some (hr n (List.mem_mergeSort.1 hmem))
  · dsimp only
    unfold Machine.initial
    rw [nativeBindings_map hf, nativeBindings_map hg]
    exact .refl L _

/-! ### Conversations -/

namespace Workspace

variable {L : Latitude} {w w' : Workspace}

private theorem globalNames_matches {m m' : Machine} (h : m.Matches L m') :
    m'.globalNames = m.globalNames :=
  (h.heap.bindings Heap.globals).names

private theorem under_matches {s s' : Session} (h : s.Matches L s') (c : Conditions) :
    (s.under c).Matches L (s'.under c) :=
  ⟨⟨h.settings.limit, h.settings.natives, h.settings.traced, rfl, rfl⟩,
    ⟨h.machine.heap, h.machine.calls, h.machine.depth, h.machine.peak, rfl, rfl, rfl⟩⟩

private theorem answer_matches (hL : ¬ L.loops) (h : w.session.Matches L w'.session) (q : Request) :
    (w'.answer q).1 = (w.answer q).1 ∧
      (w.answer q).2.session.Matches L (w'.answer q).2.session := by
  have hnames := globalNames_matches h.machine
  cases q with
  | check file source =>
    have hsession := w.session_check file source
    have hsession' := w'.session_check file source
    refine ⟨congrArg Answer.checked ?_, ?_⟩
    · unfold check
      rw [hnames]
      cases Program.parse file source <;> rfl
    · show (w.check file source).2.session.Matches L (w'.check file source).2.session
      rw [hsession, hsession']
      exact h
  | format file source => exact ⟨rfl, h⟩
  | run c fuel file source =>
    have hrefusal : ∀ ds, w'.refusal ds = w.refusal ds := fun ds => by
      unfold refusal
      rw [h.machine.calls, h.machine.peak]
    show Answer.ran (w'.run c fuel file source).1 = Answer.ran (w.run c fuel file source).1 ∧
      (w.run c fuel file source).2.session.Matches L (w'.run c fuel file source).2.session
    unfold run
    rw [hnames]
    cases Program.parse file source with
    | error ds => exact ⟨congrArg _ (hrefusal ds), h⟩
    | ok p =>
      dsimp only
      cases p.resolve w.session.machine.globalNames with
      | error ds => exact ⟨congrArg _ (hrefusal ds), h⟩
      | ok q =>
        obtain ⟨hresult, hafter⟩ := Session.execute_matches hL (under_matches h c) fuel (p := q) rfl
          (L.stmts_refl q.body)
        refine ⟨congrArg _ ?_, hafter⟩
        dsimp only
        rw [hresult, hafter.machine.calls, hafter.machine.peak,
          hafter.machine.events, Machine.written,
          hafter.machine.output]
        rfl

private theorem conversation_matches (hL : ¬ L.loops)
    (h : w.session.Matches L w'.session) (qs : List Request) :
    w'.conversation qs = w.conversation qs ∧
      (w.after qs).session.Matches L (w'.after qs).session := by
  induction qs generalizing w w' with
  | nil => exact ⟨rfl, h⟩
  | cons q qs ih =>
    obtain ⟨hanswer, hsession⟩ := answer_matches hL h q
    obtain ⟨hrest, hafter⟩ := ih hsession
    refine ⟨?_, hafter⟩
    rw [conversation, conversation, hanswer, hrest]

private theorem session_withNatives {f g : Native → Native} (hf : ∀ n, (f n).name = n.name)
    (hg : ∀ n, (g n).name = n.name) (hw : w.opened = none)
    (hr : ∀ n ∈ w.registry.natives, (f n).Matches L (g n)) :
    (w.withNatives f).session.Matches L (w.withNatives g).session := by
  unfold session withNatives
  rw [hw]
  exact Session.start_matches hf hg hr w.config w.traced 0

/-- The absence of a value is nil. In a workspace that has not been opened yet, let the native
functions be those of the language and others that may give no value at all but treat that and nil
alike. If all of them give nil instead, every answer to every sequence of requests is the same: what
is written, the events, the counts and the errors. So is what the language tells of every global
afterwards. And it is the same, whatever watches the native functions, which is told what the
language tells of the arguments of every call of one. -/
theorem conversation_filled (hw : w.opened = none)
    (hr : ∀ n ∈ w.registry.natives, n ∈ Registry.standard.natives ∨ n.Tolerant)
    (qs : List Request) :
    (w.withNatives .filled).conversation qs = w.conversation qs ∧
      ((w.withNatives .filled).after qs).session.machine.lookGlobals =
        (w.after qs).session.machine.lookGlobals ∧
      ∀ watch, (w.withNatives fun n => n.filled.watched watch).conversation qs =
        (w.withNatives (.watched watch)).conversation qs := by
  have htolerant : ∀ n ∈ w.registry.natives, n.Tolerant := fun n hn =>
    (hr n hn).elim (fun h => (Registry.plain_standard n h).matches .ofBlanks) id
  have hL : ¬ Latitude.ofBlanks.loops := id
  have hname : ∀ n : Native, n.filled.name = n.name := fun _ => rfl
  have hplain : (w.withNatives id).session.Matches .ofBlanks (w.withNatives .filled).session :=
    session_withNatives (fun _ => rfl) hname hw fun n hn => (htolerant n hn).filled
  rw [show w.withNatives id = w by unfold withNatives Registry.map; rw [List.map_id]] at hplain
  obtain ⟨hsame, hafter⟩ := conversation_matches hL hplain qs
  refine ⟨hsame, hafter.machine.lookGlobals, fun watch => ?_⟩
  have hwatched : (w.withNatives (.watched watch)).session.Matches .ofBlanks
      (w.withNatives fun n => n.filled.watched watch).session :=
    session_withNatives (fun _ => rfl) (fun _ => rfl) hw fun n hn =>
      (htolerant n hn).filled.watched watch
  exact (conversation_matches hL hwatched qs).1

def nothing : Native := { name := lit "nothing", arity := 0, act := fun _ => .give .absent }

def isNothing : Native := .unary "isNothing" fun v => .give (.bool (v.equal .nil))

/-- A program that keeps what it gets, hands it on, and finally uses it as a class. -/
def keepsNothing : Text :=
  lit "var a = nothing(); print a; print isNothing(a); print a == nil; class B < a \x7b\x7d"

theorem conversation_filled_keepsNothing :
    let w : Workspace := { registry := { natives := [isNothing, nothing, .out] } }
    let q : Request := .run {} 20 [] keepsNothing
    ∃ report, w.conversation [q] = [(q, .ran report)] ∧
      (w.withNatives .filled).conversation [q] = [(q, .ran report)] ∧
      report.written = lit "nil\ntrue\ntrue\n" ∧ report.result.toOption = none := by
  intro w q
  have hnothing : nothing.Tolerant := ⟨rfl, rfl, fun _ _ _ _ => .give .absent⟩
  have hisNothing : isNothing.Tolerant := by
    refine ⟨rfl, rfl, fun args args' hlength hargs => ?_⟩
    obtain ⟨v, rfl⟩ := List.length_eq_one_iff.1 hlength
    cases hargs with
    | cons hv hrest =>
      cases hrest
      have hequal := Value.Matches.equal hv .nil
      exact .give (hequal ▸ .bool _)
  have hall : ∀ n ∈ w.registry.natives, n ∈ Registry.standard.natives ∨ n.Tolerant := by
    simp only [w, List.forall_mem_cons]
    exact ⟨.inr hisNothing, .inr hnothing, .inr (Native.plain_out.matches _), List.forall_mem_nil _⟩
  obtain ⟨hsame, -⟩ := conversation_filled (w := w) rfl hall [q]
  -- The native functions are in the order of their names already, so there is no need to sort them.
  have hsorted : w.registry.sorted = w.registry.natives :=
    List.mergeSort_of_pairwise (by decide +kernel)
  have hsession : w.session = ({ opened := some {
      settings := { limit := 1024, natives := #[isNothing, nothing, .out] }
      machine := .initial [isNothing, nothing, .out] } } : Workspace).session := by
    show Session.start _ _ _ _ = _
    unfold Session.start Registry.select
    rw [hsorted]
    rfl
  refine ⟨(w.run {} 20 [] keepsNothing).1, rfl, hsame, ?_⟩
  rw [(run_congr hsession {} 20 [] keepsNothing).1]
  decide +kernel

end Workspace
end Lox

import Lox.Proofs.Absence
import Lox.Proofs.Natives.Evaluation
import Mathlib.Data.List.Nodup

set_option autoImplicit false
set_option relaxedAutoImplicit false

namespace Lox

open Text (lit)

/-- A name is not denied, and it is among the allowed ones if there are any. -/
def Config.Admits (c : Config) (name : Text) : Prop :=
  name ∉ c.deny ∧ (c.allow = [] ∨ name ∈ c.allow)

private theorem Config.allowsNative_iff (c : Config) (name : Text) :
    c.allowsNative name = true ↔ c.Admits name := by
  simp [allowsNative, Admits]

namespace Registry

variable {r : Registry}

private theorem get?_register (r : Registry) (n : Native) (name : Text) :
    (r.register n).get? name = if n.name = name then some n else r.get? name := by
  unfold get? register
  rw [List.find?_append, List.find?_filter]
  by_cases hname : n.name = name
  · have hnone :
      r.natives.find? (fun m => decide ((m.name != n.name) = true ∧ (m.name == name) = true)) =
        none := by
      simp [List.find?_eq_none, hname]
    rw [hnone, if_pos hname]
    simp [hname]
  · have hsame : (fun m : Native => decide ((m.name != n.name) = true ∧ (m.name == name) = true)) =
        fun m => m.name == name := by
      funext m
      by_cases hm : m.name = name <;> simp [hm, Ne.symm hname]
    rw [hsame, if_neg hname]
    simp [hname]

private theorem get?_registered (regs : List Native) (r : Registry) (name : Text) :
    (regs.foldl register r).get? name = (regs.findRev? (·.name == name)).or (r.get? name) := by
  induction regs generalizing r with
  | nil => rfl
  | cons n regs ih =>
    rw [List.foldl_cons, ih, get?_register, List.findRev?]
    cases regs.findRev? (·.name == name) with
    | some m => rfl
    | none => by_cases hname : n.name = name <;> simp [hname]

def Distinct (r : Registry) : Prop := (r.natives.map Native.name).Nodup

private theorem Distinct.register (h : r.Distinct) (n : Native) : (r.register n).Distinct := by
  unfold Distinct Registry.register
  rw [List.map_append, List.nodup_append]
  refine ⟨h.sublist (List.filter_sublist.map _), by simp, ?_⟩
  intro a ha b hb
  obtain ⟨m, hm, rfl⟩ := List.mem_map.1 ha
  obtain ⟨k, hk, rfl⟩ := List.mem_map.1 hb
  rw [List.mem_singleton.1 hk]
  simpa using (List.mem_filter.1 hm).2

private theorem Distinct.registered (h : r.Distinct) (regs : List Native) :
    (regs.foldl Registry.register r).Distinct := by
  induction regs generalizing r with
  | nil => exact h
  | cons n regs ih => exact ih (h.register n)

private theorem Distinct.select (h : r.Distinct) (allowed : Text → Bool) :
    ((r.select allowed).map Native.name).Nodup := by
  have hsorted : (r.sorted.map Native.name).Nodup :=
    (((List.mergeSort_perm r.natives _).map Native.name).nodup_iff).2 h
  exact hsorted.sublist (List.filter_sublist.map _)

private theorem mem_select {allowed : Text → Bool} {n : Native} :
    n ∈ r.select allowed ↔ n ∈ r.natives ∧ allowed n.name = true := by
  unfold select sorted
  rw [List.mem_filter, List.mem_mergeSort]

private theorem Distinct.mem_iff (h : r.Distinct) {n : Native} :
    n ∈ r.natives ↔ r.get? n.name = some n := by
  constructor
  · intro hn
    have hsome : (r.get? n.name).isSome = true := List.find?_isSome.2 ⟨n, hn, by simp⟩
    obtain ⟨m, hm⟩ := Option.isSome_iff_exists.1 hsome
    have hname : m.name = n.name := by simpa using List.find?_some hm
    rw [hm, List.inj_on_of_nodup_map h (List.mem_of_find?_eq_some hm) hn hname]
  · exact List.mem_of_find?_eq_some

end Registry

/-! ### The globals of a new session -/

private theorem lookup_natives (l : List (Native × Nat)) (bs : Bindings) (name : Text) :
    (l.foldl (fun bs (n, i) => Bindings.bind bs n.name (.native i)) bs).lookup name =
      ((l.findRev? (·.1.name == name)).map fun n => .native n.2).or (bs.lookup name) := by
  induction l generalizing bs with
  | nil => rfl
  | cons n l ih =>
    rw [List.foldl_cons, ih, Bindings.lookup_bind, List.findRev?]
    cases l.findRev? (·.1.name == name) with
    | some m => rfl
    | none => by_cases hname : name = n.1.name <;> simp [hname, Ne.symm]

private theorem lookup_nativeBindings {natives : List Native}
    (h : (natives.map Native.name).Nodup) (name : Text)
    (v : Value) : (nativeBindings natives).lookup name = some v ↔
      ∃ i n, v = .native i ∧ natives[i]? = some n ∧ n.name = name := by
  unfold nativeBindings
  rw [lookup_natives, List.lookup_nil, Option.or_none, Option.map_eq_some_iff,
    List.findRev?_eq_find?_reverse]
  constructor
  · rintro ⟨⟨n, i⟩, hfind, rfl⟩
    have hmem := List.mem_zipIdx_iff_getElem?.1
      (List.mem_reverse.1 (List.mem_of_find?_eq_some hfind))
    exact ⟨i, n, rfl, hmem, by simpa using List.find?_some hfind⟩
  · rintro ⟨i, n, rfl, hn, rfl⟩
    have hsome : (natives.zipIdx.reverse.find? (·.1.name == n.name)).isSome = true :=
      List.find?_isSome.2 ⟨(n, i), List.mem_reverse.2 (List.mem_zipIdx_iff_getElem?.2 hn), by simp⟩
    obtain ⟨⟨m, j⟩, hfind⟩ := Option.isSome_iff_exists.1 hsome
    have hm := List.mem_zipIdx_iff_getElem?.1 (List.mem_reverse.1 (List.mem_of_find?_eq_some hfind))
    have hname : m.name = n.name := by simpa using List.find?_some hfind
    -- Two places with one name are one place.
    have hsame : (natives.map Native.name)[i]? = (natives.map Native.name)[j]? := by
      simp [List.getElem?_map, hn, hm, hname]
    have hi : i < (natives.map Native.name).length := by
      rw [List.length_map]
      exact (List.getElem?_eq_some_iff.1 hn).1
    have hplace : i = j := (List.getElem?_inj hi h).1 hsame
    exact ⟨(m, j), hfind, by rw [hplace]⟩

/-! ### Conversations -/

/-- Two sessions that differ at most in native functions that nothing in the first can get at. -/
structure Session.Guards (ok : Nat → Prop) (s s' : Session) : Prop where
  settings : s.settings.Guards ok s'.settings
  machine : s'.machine = s.machine
  heap : s.machine.heap.All (Value.Within ok)

/-- A global name is bound to a native function. -/
def Session.Binds (s : Session) (name : Text) (n : Native) : Prop :=
  ∃ i, (s.machine.heap.bindings Heap.globals).lookup name = some (.native i) ∧
    s.settings.natives[i]? = some n

namespace Session.Guards

variable {ok : Nat → Prop} {s s' : Session}

private theorem under (h : s.Guards ok s') (c : Conditions) :
    (s.under c).Guards ok (s'.under c) where
  settings := ⟨h.settings.limit, h.settings.traced, rfl, rfl,
    h.settings.natives, h.settings.confined⟩
  machine := by
    unfold Session.under Session.drained
    dsimp only
    rw [h.machine]
  heap := h.heap

private theorem execute (h : s.Guards ok s') (fuel : Nat) (p : Program) :
    (s'.execute fuel p).1 = (s.execute fuel p).1 ∧
      (s.execute fuel p).2.Guards ok (s'.execute fuel p).2 := by
  have hsame := Eval.same_program h.settings fuel p
  have hstays := hsame.stays h.heap
  unfold Session.execute
  rw [h.machine, hsame.same h.heap]
  generalize Eval.program s.settings fuel p s.machine = o at hstays
  cases hstays with
  | done hheap _ | failed hheap | exhausted hheap => exact ⟨rfl, h.settings, rfl, hheap⟩

end Session.Guards

private theorem Session.settings_execute (s : Session) (fuel : Nat) (p : Program) :
    (s.execute fuel p).2.settings = s.settings := by
  unfold execute
  cases Eval.program s.settings fuel p s.machine <;> rfl

namespace Workspace

variable {ok : Nat → Prop} {w w' : Workspace}

/-- A workspace in which the table of native functions has more entries. -/
def withMore (more : Array Native) (w : Workspace) : Workspace :=
  let s := w.session
  { w with
    opened := some { s with settings := { s.settings with natives := s.settings.natives ++ more } } }

private theorem answer_guards (h : w.session.Guards ok w'.session) (q : Request) :
    (w'.answer q).1 = (w.answer q).1 ∧ (w.answer q).2.session.Guards ok (w'.answer q).2.session ∧
      (w.answer q).2.session.settings.natives = w.session.settings.natives := by
  have hnames : w'.session.machine.globalNames = w.session.machine.globalNames := by rw [h.machine]
  cases q with
  | check file source =>
    have hsession := w.session_check file source
    have hsession' := w'.session_check file source
    refine ⟨congrArg Answer.checked ?_, ?_, ?_⟩
    · unfold check
      rw [hnames]
      cases Program.parse file source <;> rfl
    · show (w.check file source).2.session.Guards ok (w'.check file source).2.session
      rw [hsession, hsession']
      exact h
    · show (w.check file source).2.session.settings.natives = _
      rw [hsession]
  | format file source => exact ⟨rfl, h, rfl⟩
  | run c fuel file source =>
    have hrefusal : ∀ ds, w'.refusal ds = w.refusal ds := fun ds => by
      unfold refusal
      rw [h.machine]
    show Answer.ran (w'.run c fuel file source).1 = Answer.ran (w.run c fuel file source).1 ∧
      (w.run c fuel file source).2.session.Guards ok (w'.run c fuel file source).2.session ∧
      (w.run c fuel file source).2.session.settings.natives = _
    unfold run
    rw [hnames]
    cases Program.parse file source with
    | error ds => exact ⟨congrArg _ (hrefusal ds), h, rfl⟩
    | ok p =>
      dsimp only
      cases p.resolve w.session.machine.globalNames with
      | error ds => exact ⟨congrArg _ (hrefusal ds), h, rfl⟩
      | ok r =>
        obtain ⟨hresult, hafter⟩ := (h.under c).execute fuel r
        refine ⟨congrArg _ ?_, hafter, ?_⟩
        · dsimp only
          rw [hresult, hafter.machine]
        · have hsettings := Session.settings_execute (w.session.under c) fuel r
          exact (congrArg Settings.natives hsettings :)

private theorem conversation_guards (h : w.session.Guards ok w'.session) (qs : List Request) :
    w'.conversation qs = w.conversation qs ∧ (w.after qs).session.Guards ok (w'.after qs).session ∧
      (w.after qs).session.settings.natives = w.session.settings.natives := by
  induction qs generalizing w w' with
  | nil => exact ⟨rfl, h, rfl⟩
  | cons q qs ih =>
    obtain ⟨hanswer, hsession, hnatives⟩ := answer_guards h q
    obtain ⟨hrest, hafter, hsame⟩ := ih hsession
    refine ⟨?_, hafter, hsame.trans hnatives⟩
    rw [conversation, conversation, hanswer, hrest]

private theorem session_of_unopened (hw : w.opened = none) :
    w.session = .start w.config w.registry w.traced 0 := by
  unfold session
  rw [hw]
  rfl

private theorem natives_session (hw : w.opened = none) {i : Nat} {n : Native}
    (hn : w.session.settings.natives[i]? = some n) : n ∈ w.registry.natives ∧
    w.config.Admits n.name := by
  rw [session_of_unopened hw] at hn
  have hmem := List.mem_of_getElem? ((List.getElem?_toArray ..).symm.trans hn)
  obtain ⟨hregistered, hallowed⟩ := Registry.mem_select.1 hmem
  exact ⟨hregistered, (w.config.allowsNative_iff n.name).1 hallowed⟩

private theorem globals_session (hw : w.opened = none) (h : w.registry.Distinct)
    (name : Text) (v : Value) :
    (w.session.machine.heap.bindings Heap.globals).lookup name = some v ↔
      ∃ i n, v = .native i ∧ w.session.settings.natives[i]? = some n ∧ n.name = name := by
  rw [session_of_unopened hw]
  refine (lookup_nativeBindings (h.select w.config.allowsNative) name v).trans ?_
  simp only [Session.start, List.getElem?_toArray]

private theorem binds_session (hw : w.opened = none) (h : w.registry.Distinct)
    {name : Text} {n : Native} :
    w.session.Binds name n ↔ n ∈ w.registry.natives ∧ n.name = name ∧ w.config.Admits name := by
  constructor
  · rintro ⟨i, hbound, hn⟩
    obtain ⟨j, m, hij, hm, hname⟩ := (globals_session hw h name _).1 hbound
    cases hij
    cases hn.symm.trans hm
    obtain ⟨hregistered, hadmits⟩ := natives_session hw hn
    exact ⟨hregistered, hname, hname ▸ hadmits⟩
  · rintro ⟨hregistered, hname, hadmits⟩
    have hmem : n ∈ w.registry.select w.config.allowsNative :=
      Registry.mem_select.2 ⟨hregistered, hname ▸ (w.config.allowsNative_iff name).2 hadmits⟩
    obtain ⟨i, hi⟩ := List.getElem?_of_mem hmem
    have hn : w.session.settings.natives[i]? = some n := by
      rw [session_of_unopened hw]
      exact (List.getElem?_toArray ..).trans hi
    exact ⟨i, (globals_session hw h name _).2 ⟨i, n, rfl, hn, hname⟩, hn⟩

/-- The native functions of a new session are those that it holds, whatever others there are. -/
theorem session_withMore (hw : w.opened = none) (h : w.registry.Distinct)
    (hconfined : ∀ n ∈ w.registry.natives, w.config.Admits n.name → n.Confined)
    (more : Array Native) :
    w.session.Guards (fun i => ∃ n, w.session.settings.natives[i]? = some n)
      (w.withMore more).session where
  settings := {
    limit := rfl, traced := rfl, outputFault := rfl, time := rfl
    natives := fun ⟨n, hn⟩ => Array.getElem?_append_left (Array.getElem?_eq_some_iff.1 hn).1
    confined := fun _ hn => hconfined _ (natives_session hw hn).1 (natives_session hw hn).2 }
  machine := rfl
  heap := by
    have hinitial : w.session.machine.heap =
        .initial (w.session.machine.heap.bindings Heap.globals) := by
      rw [session_of_unopened hw]
      rfl
    rw [hinitial]
    refine .initial fun name v hv => ?_
    obtain ⟨i, n, rfl, hn, -⟩ := (globals_session hw h name v).1 hv
    intro j hj
    cases hj
    exact ⟨n, hn⟩

/-- Native functions that a configuration refuses are out of reach. In a workspace that has not been
opened yet, let the native functions that are admitted give and call no others than they are given.
Then the globals of the session are exactly the registered names that are admitted, each bound to
its last registration. Whatever is asked, every native function that the session holds afterwards
has an admitted name, also where a run was broken off after any number of steps. And if the table of
native functions had any others besides, every answer would be the same and so would be the state:
none of them is called. -/
theorem natives_admitted {regs : List Native} (hw : w.opened = none)
    (hregs : w.registry = regs.foldl Registry.register .empty)
    (hconfined : ∀ n ∈ w.registry.natives, w.config.Admits n.name → n.Confined)
    (qs : List Request) :
    (∀ name n, w.session.Binds name n ↔
      regs.findRev? (·.name == name) = some n ∧ w.config.Admits name) ∧
      (∀ name ∈ w.session.machine.globalNames, ∃ n, w.session.Binds name n) ∧
      (∀ i, (w.after qs).session.machine.heap.Holds (.native i) →
        ∃ n, (w.after qs).session.settings.natives[i]? = some n ∧ w.config.Admits n.name) ∧
      ∀ more, (w.withMore more).conversation qs = w.conversation qs ∧
        ((w.withMore more).after qs).session.machine = (w.after qs).session.machine := by
  have hdistinct : w.registry.Distinct := by
    rw [hregs]
    exact Registry.Distinct.registered (r := .empty) List.nodup_nil regs
  have hguards := session_withMore hw hdistinct hconfined
  refine ⟨fun name n => ?_, fun name hname => ?_, fun i hi => ?_, fun more => ?_⟩
  · have hlast : ∀ name, w.registry.get? name = regs.findRev? (·.name == name) := fun name => by
      rw [hregs, Registry.get?_registered]
      exact Option.or_none
    rw [binds_session hw hdistinct, hdistinct.mem_iff, hlast]
    constructor
    · rintro ⟨hfind, rfl, hadmits⟩
      exact ⟨hfind, hadmits⟩
    · rintro ⟨hfind, hadmits⟩
      have hname : n.name = name := by
        rw [← hlast] at hfind
        simpa using List.find?_some hfind
      exact ⟨hname ▸ hfind, hname, hadmits⟩
  · obtain ⟨v, hv⟩ := Option.isSome_iff_exists.1 (Heap.mem_names_iff.1 hname)
    obtain ⟨i, n, rfl, hn, -⟩ := (globals_session hw hdistinct name v).1 hv
    exact ⟨n, i, hv, hn⟩
  · obtain ⟨-, hafter, hnatives⟩ := conversation_guards (hguards #[]) qs
    obtain ⟨n, hn⟩ := hi.within hafter.heap i rfl
    exact ⟨n, hnatives ▸ hn, (natives_session hw hn).2⟩
  · obtain ⟨hsame, hafter, -⟩ := conversation_guards (hguards more) qs
    exact ⟨hsame, hafter.machine⟩

def loud : Native :=
  { name := lit "out", arity := 1, act := fun _ => .write (lit "called") fun _ =>
    .cancel (.give (.native 0)) }

/-- A program that keeps a native function in a field, and asks for a refused one. -/
def asksForRefused : Text :=
  lit "class A \x7b\x7d var a = A(); a.f = str; var g = a.f; print g(1); out(g);"

theorem natives_admitted_refused :
    let w : Workspace := { config := { deny := [lit "out"] }
                           registry := [Native.out, Native.out, Native.str].foldl
                             Registry.register .empty }
    let q : Request := .run {} 20 [] asksForRefused
    ∃ report, w.conversation [q] = [(q, .ran report)] ∧
      (w.withMore #[loud]).conversation [q] = [(q, .ran report)] ∧
      report.written = lit "1\n" ∧
        (report.result matches .error (.failed (.runtime (.undefinedVariable _) _))) ∧
      ∀ i, (w.after [q]).session.machine.heap.Holds (.native i) →
        ∃ n, (w.after [q]).session.settings.natives[i]? = some n ∧ n.name ≠ lit "out" := by
  intro w q
  have hall : ∀ n ∈ w.registry.natives, w.config.Admits n.name → n.Confined := fun n hn _ =>
    Registry.forall_register (Registry.forall_register (Registry.forall_register (by nofun)
      Native.plain_out.confined) Native.plain_out.confined) Native.plain_str.confined n hn
  obtain ⟨-, -, hheld, hsame⟩ := natives_admitted (w := w) rfl rfl hall [q]
  -- The native functions are in the order of their names already, so there is no need to sort them.
  have hsorted : w.registry.sorted = w.registry.natives :=
    List.mergeSort_of_pairwise (by decide +kernel)
  have hsession : w.session = ({ opened := some {
      settings := { limit := 1024, natives := #[.str] }, machine := .initial [.str] } } :
        Workspace).session := by
    show Session.start _ _ _ _ = _
    unfold Session.start Registry.select
    rw [hsorted]
    rfl
  refine ⟨(w.run {} 20 [] asksForRefused).1, rfl, (hsame #[loud]).1, ?_, ?_, fun i hi => ?_⟩
  · rw [(run_congr hsession {} 20 [] asksForRefused).1]
    decide +kernel
  · rw [(run_congr hsession {} 20 [] asksForRefused).1]
    decide +kernel
  · obtain ⟨n, hn, hadmits⟩ := hheld i hi
    exact ⟨n, hn, fun hname => hadmits.1 (hname ▸ List.mem_singleton_self _)⟩

end Workspace
end Lox

import Lox.Proofs.Rename.Declarations
import Lox.Proofs.Rename.Evaluation
import Lox.Proofs.Rename.Resolution
import Lox.Proofs.Run.Session

set_option autoImplicit false
set_option relaxedAutoImplicit false

namespace Lox

open Text (lit)
open Layers

namespace World

def unrenamed (h : Heap) : World := ⟨List.replicate h.frames.size false, h⟩

variable {r : Renaming} {h : Heap} {e : FrameId} {ls : Layers}

private theorem unrenamed_instance {f : Frame} (hf : h.frames[e]? = some f) :
    (unrenamed h).instances[e]? = some false :=
  List.getElem?_replicate_of_lt (Array.getElem?_eq_some_iff.1 hf).1

private theorem unrenamed_marks (hfits : h.Fits e ls) :
    (unrenamed h).Marks e (ls.map fun _ => false) := by
  induction ls generalizing e with
  | nil => exact hfits
  | cons l ls ih =>
    obtain ⟨p, bs, hframe, -, hrest⟩ := hfits
    exact ⟨unrenamed_instance hframe, p, bs, hframe, ih hrest⟩

end World

private theorem Function.Fits.renamed (r : Renaming) {h : Heap} {f : Function} {own : Layers}
    (hf : f.Fits h own) : f.Renamed r (World.unrenamed h) own f := by
  obtain ⟨ls, hfits, hparams, hbody⟩ := hf
  have hnone : true ∉ false :: (own.map (fun _ => false) ++ ls.map fun _ => false) := by simp
  refine ⟨⟨rfl, rfl, rfl, rfl, rfl⟩, ls, _, false,
    ⟨hfits, World.unrenamed_marks hfits⟩, hparams, hbody,
    fun p _ hmem => absurd hmem hnone, ?_, Renaming.stmts_refl hnone f.body⟩
  exact (Renaming.param_false f.params).symm

private theorem Class.Sound.alike (r : Renaming) {h : Heap} {k : Class} (hk : k.Sound h) :
    Class.Alike ((World.unrenamed h).likeness r) k k := by
  have htable : ∀ t : List (Text × Function), (∀ m ∈ t, m.2.Fits h receiverLayers) →
      ((World.unrenamed h).likeness r).Tables t t :=
    fun t ht => List.forall₂_same.2 fun m hm => ⟨rfl, (ht m hm).renamed r⟩
  fun_induction Class.Sound h k with
  | case1 i n ms ss => exact .base (htable ms hk.1) (htable ss hk.2)
  | case2 i n sup ms ss ih => exact .derived (ih hk.1) (htable ms hk.2.1) (htable ss hk.2.2)

private theorem Value.Sound.alike (r : Renaming) {h : Heap} {v : Value} (hv : v.Sound h) :
    Value.Alike ((World.unrenamed h).likeness r) v v := by
  induction v with
  | nil => exact .nil
  | absent => exact .absent
  | bool b => exact .bool b
  | number x => exact .number x
  | string t => exact .string t
  | function f => exact .function ⟨hv.1, hv.2.renamed r⟩
  | method i f receiver ih => exact .method i (hv.1.renamed r) (ih hv.2)
  | native i => exact .native i
  | cls k => exact .cls (Class.Sound.alike r hv)
  | object i k => exact .object i (Class.Sound.alike r hv)

private theorem Bindings.renamed_refl {r : Renaming} {L : Likeness} {bs : Bindings}
    (hbs : ∀ n v, bs.lookup n = some v → Value.Alike L v v) : Bindings.Renamed r L false bs bs := by
  refine ⟨?_, nofun, fun n _ => ?_⟩
  · rw [List.map_id'' r.apply_false]
  · rw [r.apply_false]
    cases hv : bs.lookup n with
    | none => exact .none
    | some v => exact .some (hbs n v hv)

private theorem Heap.Sound.twin (r : Renaming) {h : Heap} (hs : h.Sound) :
    (World.unrenamed h).Twin r h where
  globals := hs.globals
  unmarked := by
    obtain ⟨bs, hglobals⟩ := hs.globals
    exact World.unrenamed_instance hglobals
  count := List.length_replicate
  size := rfl
  frames e f b hf hb := by
    cases (World.unrenamed_instance hf).symm.trans hb
    exact ⟨f, hf, rfl, Bindings.renamed_refl fun n v hv => (hs.frames e f n v hf hv).alike r⟩
  objectCount := rfl
  objects i fields hi :=
    ⟨fields, hi, Bindings.renamed_refl fun n v hv => (hs.objects i fields n v hi hv).alike r⟩
  fresh := rfl

namespace Eval

variable {r : Renaming} {st : Settings} {c : List Bool} {m : Machine} {h : Heap}

private theorem lockstep_script (hnatives : ∀ n ∈ st.natives, n.Blind)
    (fuel : Nat) {ss ss' : List Stmt}
    (ht : (m.world c).Twin r h) (hscoped : Stmt.ScopedAll [] .nothing ss)
    (hrenamed : Stmt.RenamedAll r [] ss ss') :
    Lockstep r (script st fuel ss) (script st fuel ss') c m h fun _ _ _ => True := by
  induction ss generalizing ss' c m h with
  | nil =>
    cases hrenamed
    exact .give ht trivial
  | cons s ss ih =>
    cases hrenamed with
    | cons hs hss =>
      have hafter : s.after [] = [] := by cases s <;> rfl
      rw [Stmt.ScopedAll, hafter] at hscoped
      have hglobals : (m.world c).At Heap.globals [] [] := ⟨rfl, rfl⟩
      refine ((lockstepAt r hnatives fuel).stmt ht hglobals hscoped.1 hs).bind
        fun signal signal' c₁ m₁ h₁ hgrows ht₁ hsignal => ?_
      rw [hs.span]
      cases hsignal.1 with
      | normal => exact ih ht₁ hscoped.2 hss
      | leaveLoop => exact .broken _ _ ht₁
      | leaveFunction _ => exact .broken _ _ ht₁

private theorem lockstep_program (hnatives : ∀ n ∈ st.natives, n.Blind) (fuel : Nat) {p : Program}
    {body' : List Stmt} (ht : (m.world c).Twin r h) (hscoped : Stmt.ScopedAll [] .nothing p.body)
    (hrenamed : Stmt.RenamedAll r [] p.body body') :
    Lockstep r (program st fuel p) (program st fuel { p with body := body' }) c m h
      fun _ _ _ => True := by
  let enter := fun m => (Run.emit st .runStart p.span [] m).machine
  let leave := fun m => (Run.emit st .runEnd p.span [] m).machine
  have henter : ∀ m h, enter (m.withHeap h) = (enter m).withHeap h :=
    Lockstep.emit_withHeap st _ _ _
  have hleave : ∀ m h, leave (m.withHeap h) = (leave m).withHeap h :=
    Lockstep.emit_withHeap st _ _ _
  have ht₁ : ((enter m).world c).Twin r h := by
    rw [Lockstep.world_eq henter]
    exact ht
  refine Lockstep.around enter leave id henter hleave
    (lockstep_script hnatives fuel ht₁ hscoped hrenamed)
    ?_ ?_
  · unfold program
    cases script st fuel p.body (enter m) <;> rfl
  · unfold program
    cases script st fuel body' (enter (m.withHeap h)) <;> rfl

end Eval

/-- The globals of a machine as they are shown, each with its type and its wording. -/
def Machine.shownGlobals (m : Machine) : List (Text × Option (Text × Text)) :=
  m.globalNames.map fun n =>
    (n, ((m.heap.bindings Heap.globals).lookup n).map fun v => (v.typeName, v.print))

private theorem World.Twin.shownGlobals {r : Renaming} {c : List Bool} {m : Machine} {h : Heap}
    (ht : (m.world c).Twin r h) : (m.withHeap h).shownGlobals = m.shownGlobals := by
  have hglobals := ht.bindings ht.unmarked
  have hnames : (m.withHeap h).globalNames = m.globalNames := by
    refine hglobals.names.trans ?_
    rw [List.map_id'' r.apply_false]
    rfl
  unfold Machine.shownGlobals
  rw [hnames]
  refine List.map_congr_left fun n _ => congrArg (Prod.mk n) ?_
  have hvalue := hglobals.values n nofun
  rw [r.apply_false] at hvalue
  change Option.Rel _ ((m.heap.bindings Heap.globals).lookup n) ((h.bindings Heap.globals).lookup n)
    at hvalue
  show ((h.bindings Heap.globals).lookup n).map _ = _
  generalize (m.heap.bindings Heap.globals).lookup n = v, (h.bindings Heap.globals).lookup n = v'
    at hvalue ⊢
  cases hvalue with
  | none => rfl
  | some hv => exact congrArg some (congrArg₂ Prod.mk hv.typeName.symm hv.print.symm)

/-- Machines that show the same: output, events, what is counted, and the globals. -/
structure Machine.ShowsSame (m m' : Machine) : Prop where
  output : m'.output = m.output
  events : m'.events = m.events
  calls : m'.calls = m.calls
  depth : m'.depth = m.depth
  peak : m'.peak = m.peak
  canceled : m'.canceled = m.canceled
  globals : m'.shownGlobals = m.shownGlobals

namespace Session

private theorem settings_run (s : Session) (fuel : Nat) (file source : Text) :
    (s.run fuel file source).2.settings = s.settings := by
  unfold run
  cases s.prepare file source with
  | error ds => rfl
  | ok p =>
    show (s.execute fuel p).2.settings = s.settings
    unfold execute
    cases Eval.program s.settings fuel p s.machine <;> rfl

theorem Reached.natives_eq {natives : List Native} {s : Session} (h : s.Reached natives) :
    s.settings.natives = natives.toArray := by
  induction h with
  | start st hst => exact hst
  | run fuel file source _ ih =>
    rw [settings_run]
    exact ih
  | host _ hsame _ ih => exact hsame.trans ih

private theorem execute_lockstep {r : Renaming} {s : Session} {fuel : Nat}
    {p p' : Program} {c : List Bool}
    {Q : World → Unit → Unit → Prop} (h : Lockstep r (Eval.program s.settings fuel p)
      (Eval.program s.settings fuel p') c s.machine s.machine.heap Q) :
    (s.execute fuel p').1 = (s.execute fuel p).1 ∧
      (s.execute fuel p).2.machine.ShowsSame (s.execute fuel p').2.machine := by
  unfold execute
  unfold Lockstep at h
  rw [show s.machine.withHeap s.machine.heap = s.machine from rfl] at h
  generalize Eval.program s.settings fuel p s.machine = o,
    Eval.program s.settings fuel p' s.machine = o' at h
  cases h with
  | done _ ht _ => exact ⟨rfl, rfl, rfl, rfl, rfl, rfl, rfl, ht.shownGlobals⟩
  | failed f _ ht => exact ⟨rfl, rfl, rfl, rfl, rfl, rfl, rfl, ht.shownGlobals⟩
  | exhausted _ ht => exact ⟨rfl, rfl, rfl, rfl, rfl, rfl, rfl, ht.shownGlobals⟩

/-- Lexical scoping is hygienic, for native functions that make up no functions, classes or objects
and do not look into the code of functions. In any scope of a program that has been read and
resolved, what is declared under a name, not as a function or a class, may be given a name that
occurs nowhere in the program. This changes the declarations of that scope alone. The renamed
program is accepted with the same hops everywhere, and a run of it from any session that runs can
lead to ends in the same way, whether within a bound on steps or not, with the same error if it
fails, and shows the same. -/
theorem execute_renamed {natives : List Native} (hhonest : ∀ n ∈ natives, n.Honest)
    (hblind : ∀ n ∈ natives, n.Blind) {s : Session} (hs : s.Reached natives) {file source : Text}
    {p : Program} (hp : s.prepare file source = .ok p) (r : Renaming) {scope : LocalScope}
    (hscope : (Stmt.scopesAll p.body)[r.scope]? = some scope) (hold : r.old ∉ scope.definitions)
    (hnew : r.new ∉ Stmt.namesAll p.body) :
    Stmt.scopesAll (r.program p).body = (Stmt.scopesAll p.body).modify r.scope (·.renamed r true) ∧
      (r.program p).resolve s.machine.globalNames = .ok (r.program p) ∧
      ∀ fuel, (s.execute fuel (r.program p)).1 = (s.execute fuel p).1 ∧
        (s.execute fuel p).2.machine.ShowsSame (s.execute fuel (r.program p)).2.machine := by
  have hrenamed : Stmt.RenamedAll r [] p.body (r.program p).body :=
    Renaming.program_renamed hscope hold hnew
  refine ⟨r.program_scopes p, ?_, fun fuel => ?_⟩
  · obtain ⟨q, -, hresolve⟩ := parse_of_prepare hp
    exact Renaming.resolve_program hresolve hrenamed
  · obtain ⟨-, hsound⟩ := hs.sound hhonest
    have hnatives : ∀ n ∈ s.settings.natives, n.Blind := by
      intro n hn
      rw [hs.natives_eq] at hn
      exact hblind n (by simpa using hn)
    exact execute_lockstep
      (Eval.lockstep_program hnatives fuel (hsound.twin r) (scoped_of_prepare hp)
      hrenamed)

/-- A block whose variable a function changes, while another block and a parameter have variables of
the same name; at its end the block declares it again. -/
def shadowing : Text :=
  lit "\x7b var a = \"x\"; fun f(s) \x7b a = a + s; out(a); \x7d fun g(a) \x7b f(a); \x7d
    f(\"y\"); \x7b var a = \"z\"; g(a); \x7d var a = \"w\"; f(a); \x7d"

def unshadowed : Renaming where
  scope := 0
  old := lit "a"
  new := lit "b"
  old_isName :=
    .name (by decide) (List.all_eq_true.1 (by decide)) (Keyword.ofSpelling?_eq_none.1 (by decide))
  new_isName :=
    .name (by decide) (List.all_eq_true.1 (by decide)) (Keyword.ofSpelling?_eq_none.1 (by decide))

def unshadowedLayout : Text := lit "\x7b
  var b = \"x\";
  fun f(s) \x7b
    b = b + s;
    out(b);
  \x7d
  fun g(a) \x7b
    f(a);
  \x7d
  f(\"y\");
  \x7b
    var a = \"z\";
    g(a);
  \x7d
  var b = \"w\";
  f(b);
\x7d
"

set_option maxRecDepth 4000 in
theorem execute_renamed_shadowing :
    let s : Session :=
      { settings := { limit := 10, natives := #[.out] }, machine := .initial [.out] }
    ∃ p, s.prepare [] shadowing = .ok p ∧ (unshadowed.program p).layout = unshadowedLayout ∧
      (unshadowed.program p).resolve s.machine.globalNames = .ok (unshadowed.program p) ∧
      (s.execute 50 (unshadowed.program p)).1 = .ok () ∧
      (s.execute 50 (unshadowed.program p)).2.machine.written = lit "xy\nxyz\nww\n" := by
  intro s
  have hhonest : ∀ n ∈ [Native.out], n.Honest := List.forall_mem_singleton.2 Native.plain_out.honest
  have hblind : ∀ n ∈ [Native.out], n.Blind := List.forall_mem_singleton.2 Native.plain_out.blind
  have hshadowing : shadowing = Text.encoded _ := Text.lit_ofList _
  have hrun : ((s.prepare [] shadowing).toOption.map fun p =>
      ((s.execute 50 p).1.toOption, (s.execute 50 p).2.machine.written)) =
        some (some (), lit "xy\nxyz\nww\n") := by
    rw [hshadowing]
    decide +kernel
  have hcode : ((s.prepare [] shadowing).toOption.map fun p =>
      ((Stmt.scopesAll p.body)[0]?.map (·.definitions), decide (lit "b" ∈ Stmt.namesAll p.body),
        (unshadowed.program p).layout)) =
          some (some [lit "f", lit "g"], false, unshadowedLayout) := by
    rw [hshadowing, show unshadowedLayout = Text.encoded _ from Text.lit_ofList _]
    decide +kernel
  obtain ⟨p, hp, hends⟩ := Option.map_eq_some_iff.1 hrun
  rw [hp] at hcode
  obtain ⟨hok, hwritten⟩ := Prod.mk.inj hends
  obtain ⟨hscope, hrest⟩ := Prod.mk.inj (Option.some.inj hcode)
  obtain ⟨hnew, hlayout⟩ := Prod.mk.inj hrest
  have hprepare : s.prepare [] shadowing = .ok p := eq_ok_of_toOption hp
  obtain ⟨scope, hscope, hdefinitions⟩ := Option.map_eq_some_iff.1 hscope
  have hold : unshadowed.old ∉ scope.definitions := by
    rw [hdefinitions]
    decide
  obtain ⟨-, hresolve, hruns⟩ := execute_renamed hhonest hblind (.start _ rfl) hprepare unshadowed
    hscope hold (of_decide_eq_false hnew)
  obtain ⟨hresult, hshows⟩ := hruns 50
  refine ⟨p, hprepare, hlayout, hresolve, hresult.trans (eq_ok_of_toOption hok), ?_⟩
  rw [Machine.written, hshows.output]
  exact hwritten

/-- A native function that tells the name of the first parameter of a function. -/
def peeking : Native where
  name := lit "peek"
  arity := 1
  act
    | [.function f] => .give (.string ((f.params.map Param.name).headD []))
    | _ => .give .nil

def lengthened : Renaming where
  scope := 0
  old := lit "a"
  new := lit "bb"
  old_isName := unshadowed.old_isName
  new_isName :=
    .name (by decide) (List.all_eq_true.1 (by decide)) (Keyword.ofSpelling?_eq_none.1 (by decide))

/-- A native function that reads the code of a function shows the names of its parameters. And a
renamed program keeps the places of its expressions, while a text with the longer name moves them.
-/
theorem execute_renamed_peeked :
    let s : Session := {
      settings := { limit := 10, natives := #[peeking] }
      machine := .initial [peeking] }
    let called (start stop : Int) : Except RunError Unit :=
      .error (.failed (.runtime .notCallable (some ⟨[], ⟨1, start⟩, ⟨1, stop⟩⟩)))
    (∃ p, s.prepare [] (lit "fun f(a) \x7b \x7d print peek(f);") = .ok p ∧
      (Stmt.scopesAll p.body)[unshadowed.scope]?.map LocalScope.definitions = some [] ∧
      unshadowed.new ∉ Stmt.namesAll p.body ∧
      (s.execute 30 p).2.machine.written = lit "a\n" ∧
      (s.execute 30 (unshadowed.program p)).2.machine.written = lit "b\n") ∧
    ∃ p p', s.prepare [] (lit "\x7b var a = 1; a(); \x7d") = .ok p ∧
      s.prepare [] (lit "\x7b var bb = 1; bb(); \x7d") = .ok p' ∧
      (lengthened.program p).layout = p'.layout ∧ (s.execute 30 p).1 = called 14 17 ∧
      (s.execute 30 (lengthened.program p)).1 = called 14 17 ∧
        (s.execute 30 p').1 = called 15 19 := by
  intro s called
  constructor
  · obtain ⟨p, hp, hends⟩ := exists_prepare s [] (lit "fun f(a) \x7b \x7d print peek(f);")
      (fun p => decide (
        (Stmt.scopesAll p.body)[unshadowed.scope]?.map LocalScope.definitions = some [] ∧
        unshadowed.new ∉ Stmt.namesAll p.body ∧
        (s.execute 30 p).2.machine.written = lit "a\n" ∧
        (s.execute 30 (unshadowed.program p)).2.machine.written = lit "b\n")) (by decide +kernel)
    exact ⟨p, hp, of_decide_eq_true hends⟩
  · obtain ⟨p', hp', hends'⟩ := exists_prepare s [] (lit "\x7b var bb = 1; bb(); \x7d")
      (fun p' => decide (p'.layout = lit "\x7b\n  var bb = 1;\n  bb();\n\x7d\n" ∧
        (s.execute 30 p').1 = called 15 19)) (by decide +kernel)
    obtain ⟨p, hp, hends⟩ := exists_prepare s [] (lit "\x7b var a = 1; a(); \x7d")
      (fun p => decide (
        (lengthened.program p).layout = lit "\x7b\n  var bb = 1;\n  bb();\n\x7d\n" ∧
        (s.execute 30 p).1 = called 14 17 ∧ (s.execute 30 (lengthened.program p)).1 = called 14 17))
      (by decide +kernel)
    obtain ⟨hlayout', hmoved⟩ := of_decide_eq_true hends'
    obtain ⟨hlayout, hcalled, hkept⟩ := of_decide_eq_true hends
    exact ⟨p, p', hp, hp', hlayout.trans hlayout'.symm, hcalled, hkept, hmoved⟩

end Session
end Lox

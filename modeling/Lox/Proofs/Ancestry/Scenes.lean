import Lox.Proofs.Frames.Stores
import Lox.Proofs.Receiver.Evaluation
import Mathlib.Data.List.Nodup
import Mathlib.Logic.Relation

set_option autoImplicit false
set_option relaxedAutoImplicit false

namespace Lox

open Text (lit)

/-! ### Frames -/

namespace Heap

variable {h : Heap} {e : FrameId} {l : List FrameId} {name : Text}

structure Layered (h : Heap) : Prop where
  globals_lt : globals < h.frames.size
  outermost : h.parent? globals = none
  inside : ∀ e < h.frames.size, e ≠ globals → ∃ p < e, h.parent? e = some p

namespace Layered

private theorem ordered (hh : h.Layered) : h.Ordered := by
  intro e p hp
  have hne : e ≠ globals := by
    rintro rfl
    rw [hh.outermost] at hp
    cases hp
  obtain ⟨q, hlt, hq⟩ := hh.inside e (lt_size_of_parent? hp) hne
  cases hp.symm.trans hq
  exact hlt

private theorem of_frames {h' : Heap} (hh : h.Layered) (hsize : h'.frames.size = h.frames.size)
    (hparent : ∀ e, h'.parent? e = h.parent? e) : h'.Layered where
  globals_lt := hsize ▸ hh.globals_lt
  outermost := (hparent _).trans hh.outermost
  inside e he hne := by
    rw [hparent]
    exact hh.inside e (hsize ▸ he) hne

private theorem define (hh : h.Layered) (e : FrameId) (name : Text) (v : Value) :
    (h.define e name v).Layered :=
  hh.of_frames (size_define ..) (parent?_define h e name v)

private theorem child (hh : h.Layered) {p : FrameId} (hp : p < h.frames.size) (bs : Bindings) :
    (h.child p bs).2.Layered where
  globals_lt := Nat.lt_of_lt_of_le hh.globals_lt (by simp [Heap.child])
  outermost := by
    rw [Heap.child, parent?_push, if_neg (Nat.ne_of_lt hh.globals_lt)]
    exact hh.outermost
  inside e he hne := by
    rw [Heap.child, parent?_push]
    by_cases hnew : e = h.frames.size
    · rw [if_pos hnew, hnew]
      exact ⟨p, hp, rfl⟩
    · rw [if_neg hnew]
      rw [Heap.child, Array.size_push] at he
      exact hh.inside e (Nat.lt_of_le_of_ne (Nat.le_of_lt_succ he) hnew) hne

end Layered

private theorem Chain.getLast? (hc : h.Chain e l) :
    ∃ a, l.getLast? = some a ∧ a < h.frames.size ∧ h.parent? a = none := by
  induction hc with
  | @outermost e he hp => exact ⟨e, rfl, he, hp⟩
  | @inside e p l hp hrest ih =>
    obtain ⟨a, ha, hlt, hnone⟩ := ih
    exact ⟨a, by rw [List.getLast?_cons, ha, Option.getD_some], hlt, hnone⟩

private theorem Chain.exists_finds_iff (hc : h.Chain e l) :
    (∃ a, h.Finds name e a) ↔ ∃ a ∈ l, h.Binds a name := by
  constructor
  · rintro ⟨a, ha⟩
    obtain ⟨before, after, rfl, hb, -⟩ := hc.finds_iff.1 ha
    exact ⟨a, List.mem_append_right _ (List.mem_cons_self ..), hb⟩
  · rintro ⟨a, ha, hb⟩
    induction hc with
    | outermost _ _ =>
      cases List.mem_singleton.1 ha
      exact ⟨a, .here hb⟩
    | @inside e p l hp _ ih =>
      by_cases hhere : h.Binds e name
      · exact ⟨e, .here hhere⟩
      · rcases List.mem_cons.1 ha with rfl | hrest
        · exact absurd hb hhere
        · obtain ⟨b, hfinds⟩ := ih hrest
          exact ⟨b, .outside hhere hp hfinds⟩

private theorem Ordered.get?_eq_findSome? (hord : h.Ordered) (hc : h.Chain e l) :
    h.get? e name = l.findSome? fun a => (h.bindings a).lookup name := by
  by_cases hex : ∃ a, h.Finds name e a
  · obtain ⟨a, ha⟩ := hex
    obtain ⟨v, hv⟩ := Option.isSome_iff_exists.1 ha.binds
    obtain ⟨before, after, hl, -, hbefore⟩ := hc.finds_iff.1 ha
    rw [hord.get?_eq ha, hv]
    refine (List.findSome?_eq_some_iff.2 ⟨before, a, after, hl, hv, fun b hb => ?_⟩).symm
    exact Option.not_isSome_iff_eq_none.1 (hbefore b hb)
  · rw [hord.get?_eq_none (not_exists.1 hex)]
    refine (List.findSome?_eq_none_iff.2 fun a ha => ?_).symm
    exact Option.not_isSome_iff_eq_none.1 fun hb => hex (hc.exists_finds_iff.2 ⟨a, ha, hb⟩)

end Heap

/-! ### Classes -/

namespace Class

variable {c k : Class} {name : Text}

def lineage : Class → List Class
  | mk i n none ms ss => [mk i n none ms ss]
  | mk i n (some sup) ms ss => mk i n (some sup) ms ss :: lineage sup

private theorem find_eq_findSome? (ofClass : Bool) (name : Text) (c : Class) :
    c.find ofClass name = c.lineage.findSome? fun k => (k.own ofClass).lookup name := by
  fun_induction lineage c with
  | case1 i n ms ss =>
    rw [find_eq, List.findSome?_singleton]
    exact Option.or_none
  | case2 i n sup ms ss ih =>
    rw [find_eq, List.findSome?_cons, ← ih]
    show Option.or _ (sup.find ofClass name) = _
    cases ((mk i n (some sup) ms ss).own ofClass).lookup name <;> rfl

/-- The making of an object runs the first initializer along the lineage, if there is one, and takes
as many arguments as that has parameters. -/
def Constructs (c : Class) : Prop :=
  ∀ (st : Settings) (fuel : Nat) (args : List Value),
    match c.lineage.findSome? fun k => (k.own false).lookup (lit "init") with
    | some f => c.arity = f.params.length ∧
        Eval.apply st (fuel + 1) (.cls c) args = (do
          let object ← Run.newObject c
          let _ ← Eval.method st fuel f object args
          Run.give object)
    | none => c.arity = 0 ∧ Eval.apply st (fuel + 1) (.cls c) args = Run.newObject c

private theorem constructs (c : Class) : c.Constructs := by
  intro st fuel args
  have hinit : c.initializer = c.lineage.findSome? fun k => (k.own false).lookup (lit "init") :=
    find_eq_findSome? false (lit "init") c
  rw [← hinit, arity, Eval.apply]
  cases c.initializer with
  | some f => exact ⟨rfl, rfl⟩
  | none => 
    refine ⟨rfl, ?_⟩
    funext m
    rfl

end Class

/-! ### Scenes -/

/-- A heap and the classes that have been made so far, latest first. -/
structure Scene where
  heap : Heap
  classes : List Class

namespace Scene

variable {S S' : Scene} {v : Value}

/-- A value that may have come about: its classes have been made, and its functions were declared in
frames that exist. -/
def Has (S : Scene) : Value → Prop
  | .function f => f.closure < S.heap.frames.size
  | .method _ f receiver => f.closure < S.heap.frames.size ∧ S.Has receiver
  | .cls c | .object _ c => c ∈ S.classes
  | _ => True

/-- The kinds of steps that evaluation takes. Functions, bound methods and classes are numbered in
the order in which they are made. -/
inductive Step (S : Scene) : Scene → Prop
  | frame {p : FrameId} {bs : Bindings} : p < S.heap.frames.size →
      (∀ n v, bs.lookup n = some v → S.Has v) → Step S { S with heap := (S.heap.child p bs).2 }
  | define (e : FrameId) (name : Text) {v : Value} : S.Has v →
      Step S { S with heap := S.heap.define e name v }
  | object : Step S { S with heap := S.heap.newObject.2 }
  | setField (i : Nat) (name : Text) {v : Value} : S.Has v →
      Step S { S with heap := S.heap.setField i name v }
  | number : Step S { S with heap := S.heap.freshId.2 }
  | newClass {c : Class} : c.id = S.heap.fresh →
      (∀ sup, c.superclass = some sup → sup ∈ S.classes) →
      (∀ ofClass, ∀ q ∈ c.own ofClass, q.2.closure < S.heap.frames.size) →
      Step S { heap := S.heap.freshId.2, classes := c :: S.classes }

def Onward : Scene → Scene → Prop := Relation.ReflTransGen Step

/-! ### What steps keep -/

private theorem Has.mono (hsize : S.heap.frames.size ≤ S'.heap.frames.size)
    (hclasses : S.classes ⊆ S'.classes) (hv : S.Has v) : S'.Has v := by
  induction v with
  | function f => exact Nat.lt_of_lt_of_le hv hsize
  | method i f receiver ih => exact ⟨Nat.lt_of_lt_of_le hv.1 hsize, ih hv.2⟩
  | cls c | object i c => exact hclasses hv
  | _ => trivial

private theorem Step.size_le (hstep : S.Step S') : S.heap.frames.size ≤ S'.heap.frames.size := by
  cases hstep with
  | frame _ _ => exact Nat.le_of_lt (by simp [Heap.child])
  | define e name _ => exact Nat.le_of_eq (Heap.size_define ..).symm
  | object | setField | number | newClass => exact Nat.le_refl _

private theorem Step.classes_suffix (hstep : S.Step S') : S.classes <:+ S'.classes := by
  cases hstep with
  | newClass _ _ _ => exact List.suffix_cons _ _
  | _ => exact List.suffix_refl _

namespace Onward

theorem trans {S'' : Scene} (h : S.Onward S') (h' : S'.Onward S'') : S.Onward S'' :=
  Relation.ReflTransGen.trans h h'

private theorem size_le (h : S.Onward S') : S.heap.frames.size ≤ S'.heap.frames.size := by
  induction h with
  | refl => exact Nat.le_refl _
  | tail _ hstep ih => exact Nat.le_trans ih hstep.size_le

theorem classes_suffix (h : S.Onward S') : S.classes <:+ S'.classes := by
  induction h with
  | refl => exact List.suffix_refl _
  | tail _ hstep ih => exact ih.trans hstep.classes_suffix

theorem lt {e : FrameId} (h : S.Onward S') (he : e < S.heap.frames.size) :
    e < S'.heap.frames.size :=
  Nat.lt_of_lt_of_le he h.size_le

theorem has (h : S.Onward S') (hv : S.Has v) : S'.Has v := hv.mono h.size_le h.classes_suffix.subset

end Onward

/-- A class stands below an older one that has been made, and its own methods were declared in
frames that exist. -/
structure Admits (S : Scene) (c : Class) : Prop where
  numbered : c.id < S.heap.fresh
  members : ∀ ofClass, ∀ q ∈ c.own ofClass, q.2.closure < S.heap.frames.size
  above : ∀ sup, c.superclass = some sup → sup ∈ S.classes ∧ sup.id < c.id

private theorem Admits.mono {c : Class} (hc : S.Admits c) (hfresh : S.heap.fresh ≤ S'.heap.fresh)
    (hsize : S.heap.frames.size ≤ S'.heap.frames.size) (hclasses : S.classes ⊆ S'.classes) :
    S'.Admits c where
  numbered := Nat.lt_of_lt_of_le hc.numbered hfresh
  members ofClass q hq := Nat.lt_of_lt_of_le (hc.members ofClass q hq) hsize
  above sup hsup := ⟨hclasses (hc.above sup hsup).1, (hc.above sup hsup).2⟩

/-- Every frame stands inside an older one, every class below an older one, and what the heap binds
has come about. -/
structure Founded (S : Scene) : Prop where
  layered : S.heap.Layered
  held : S.heap.All S.Has
  admitted : ∀ c ∈ S.classes, S.Admits c
  ids : S.classes.Pairwise fun c d => d.id < c.id

namespace Founded

variable {c : Class} {name : Text} {f : Function} {heap : Heap}

private theorem of_heap (hS : S.Founded) (hlayered : heap.Layered)
    (hfresh : S.heap.fresh ≤ heap.fresh)
    (hsize : S.heap.frames.size ≤ heap.frames.size) (hheld : heap.All S.Has) :
    Founded { S with heap } where
  layered := hlayered
  held := hheld.imp fun _ hv => hv.mono hsize (List.Subset.refl _)
  admitted c hc := (hS.admitted c hc).mono hfresh hsize (List.Subset.refl _)
  ids := hS.ids

private theorem step (hS : S.Founded) (hstep : S.Step S') : S'.Founded := by
  cases hstep with
  | @frame p bs hp hbs =>
    exact hS.of_heap (hS.layered.child hp bs) (Nat.le_refl _) (Nat.le_of_lt (by simp [Heap.child]))
      (hS.held.child p hbs)
  | define e name hv =>
    exact hS.of_heap (hS.layered.define e name _) (Nat.le_refl _)
      (Nat.le_of_eq (Heap.size_define ..).symm) (hS.held.define e name hv)
  | object =>
    exact hS.of_heap (hS.layered.of_frames rfl fun _ => rfl) (Nat.le_refl _) (Nat.le_refl _)
      hS.held.newObject
  | setField i name hv =>
    exact hS.of_heap (hS.layered.of_frames rfl fun _ => rfl) (Nat.le_refl _) (Nat.le_refl _)
      (hS.held.setField i name hv)
  | number =>
    exact hS.of_heap (hS.layered.of_frames rfl fun _ => rfl) (Nat.le_succ _) (Nat.le_refl _)
      hS.held.freshId
  | @newClass c hid habove hmembers =>
    -- Every class that exists is older than the new one, its superclass among them.
    have hold : ∀ d ∈ S.classes, d.id < c.id := fun d hd => hid ▸ (hS.admitted d hd).numbered
    have hsub : S.classes ⊆ c :: S.classes := List.subset_cons_self _ _
    refine ⟨hS.layered.of_frames rfl fun _ => rfl, ?_, ?_, .cons hold hS.ids⟩
    · exact hS.held.freshId.imp fun _ hv => Has.mono (S := S) (Nat.le_refl _) hsub hv
    · refine List.forall_mem_cons.2 ⟨⟨?_, hmembers, fun sup hsup => ?_⟩, fun d hd => ?_⟩
      · exact hid ▸ Nat.lt_succ_self _
      · exact ⟨hsub (habove sup hsup), hold sup (habove sup hsup)⟩
      · exact (hS.admitted d hd).mono (Nat.le_succ _) (Nat.le_refl _) hsub

theorem onward (hS : S.Founded) (h : S.Onward S') : S'.Founded := by
  induction h with
  | refl => exact hS
  | tail _ hstep ih => exact ih.step hstep

/-! ### What founded scenes have -/

theorem unique {d : Class} (hS : S.Founded) (hc : c ∈ S.classes) (hd : d ∈ S.classes)
    (hid : c.id = d.id) : c = d := by
  have hnodup : (S.classes.map Class.id).Nodup :=
    List.pairwise_map.2 (hS.ids.imp fun hlt => (Nat.ne_of_lt hlt).symm)
  exact List.inj_on_of_nodup_map hnodup hc hd hid

private theorem lineage (hS : S.Founded) (hc : c ∈ S.classes) :
    (∀ k ∈ c.lineage, k ∈ S.classes ∧ k.id ≤ c.id) ∧ c.lineage.Pairwise fun k d => d.id < k.id := by
  fun_induction Class.lineage c with
  | case1 i n ms ss =>
    refine ⟨fun k hk => ?_, List.pairwise_singleton _ _⟩
    cases List.mem_singleton.1 hk
    exact ⟨hc, Nat.le_refl _⟩
  | case2 i n sup ms ss ih =>
    obtain ⟨hsup, hlt⟩ := (hS.admitted _ hc).above sup rfl
    obtain ⟨hall, hpairwise⟩ := ih hsup
    refine ⟨List.forall_mem_cons.2 ⟨⟨hc, Nat.le_refl _⟩, fun k hk => ?_⟩,
      .cons (fun k hk => ?_) hpairwise⟩
    · exact ⟨(hall k hk).1, Nat.le_of_lt (Nat.lt_of_le_of_lt (hall k hk).2 hlt)⟩
    · exact Nat.lt_of_le_of_lt (hall k hk).2 hlt

theorem closure_lt (hS : S.Founded) (ofClass : Bool) (hc : c ∈ S.classes)
    (hf : c.find ofClass name = some f) : f.closure < S.heap.frames.size := by
  rw [Class.find_eq_findSome?] at hf
  obtain ⟨k, hk, hown⟩ := List.exists_of_findSome?_eq_some hf
  have hmade := (hS.admitted k ((hS.lineage hc).1 k hk).1).members ofClass
  exact Class.Every.lookup (P := fun g => g.closure < S.heap.frames.size) hmade hown

private theorem has_of_holds (hS : S.Founded) (hv : S.heap.Holds v) : S.Has v := by
  induction hv with
  | binding hv => exact hS.held.bindings hv
  | field hv => exact hS.held.field hv
  | receiver _ ih => exact ih.2
  | underlying _ ih => exact ih.1
  | classOf _ ih => exact ih
  | superclass _ ih => exact ((hS.admitted _ ih).above _ rfl).1
  | method _ hf ih => exact hS.closure_lt false ih hf
  | static _ hf ih => exact hS.closure_lt true ih hf

theorem has_of_known {given : List Value} (hS : S.Founded) (hv : Known given v)
    (hgiven : ∀ w ∈ given, S.Has w) : S.Has v := by
  induction hv with
  | given hmem => exact hgiven _ hmem
  | nil | absent | bool | number | string | native => trivial
  | classOf _ ih => exact ih
  | superclass _ ih => exact ((hS.admitted _ ih).above _ rfl).1
  | receiver _ ih => exact ih.2
  | object _ _ ih => exact ih
  | method _ _ hf _ ihc ihv => exact ⟨hS.closure_lt false ihc hf, ihv⟩
  | static _ _ hf _ ihc ihv => exact ⟨hS.closure_lt true ihc hf, ihv⟩

end Founded

/-- A scene without cycles. Looking up finds what is nearest. -/
structure Grounded (S : Scene) : Prop where
  /-- From every frame the way outward ends. -/
  ends : ∀ e < S.heap.frames.size, ∃ l, S.heap.Chain e l
  /-- It passes no frame twice and ends at the globals. Looking a name up finds the first value on
  it. -/
  chain : ∀ e l, S.heap.Chain e l → l.Pairwise (· > ·) ∧ l.getLast? = some Heap.globals ∧ ∀ name,
    S.heap.get? e name = l.findSome? (fun a => (S.heap.bindings a).lookup name) ∧
    (S.heap.has e name = true ↔ ∃ a ∈ l, S.heap.Binds a name)
  /-- No class comes about but by being made. -/
  held : ∀ c, S.heap.Holds (.cls c) → c ∈ S.classes
  /-- The way upward from a class passes no class twice and leads to classes that have been made. -/
  lineage : ∀ c ∈ S.classes, c.lineage ⊆ S.classes ∧ c.lineage.Pairwise fun k d => d.id < k.id
  /-- Looking a method up finds the first one on this way. -/
  methods : ∀ c ∈ S.classes, ∀ name,
    c.findMethod name = c.lineage.findSome? fun k => (k.own false).lookup name
  statics : ∀ c ∈ S.classes, ∀ name,
    c.findStatic name = c.lineage.findSome? fun k => (k.own true).lookup name
  /-- A class takes the arguments of the initializer that is run. -/
  constructs : ∀ c ∈ S.classes, c.Constructs

theorem Founded.grounded (hS : S.Founded) : S.Grounded where
  ends e he := hS.layered.ordered.exists_chain he
  chain e l hl := by
    have hord := hS.layered.ordered
    obtain ⟨a, ha, hlt, hnone⟩ := hl.getLast?
    have hglobals : a = Heap.globals := by
      refine Decidable.byContradiction fun hne => ?_
      obtain ⟨p, -, hp⟩ := hS.layered.inside a hlt hne
      cases hnone.symm.trans hp
    exact ⟨hl.pairwise hord, hglobals ▸ ha, fun name =>
      ⟨hord.get?_eq_findSome? hl, hord.has_iff.trans hl.exists_finds_iff⟩⟩
  held c hc := hS.has_of_holds hc
  lineage c hc := ⟨fun k hk => ((hS.lineage hc).1 k hk).1, (hS.lineage hc).2⟩
  methods c _ name := Class.find_eq_findSome? false name c
  statics c _ name := Class.find_eq_findSome? true name c
  constructs c _ := c.constructs

end Scene
end Lox

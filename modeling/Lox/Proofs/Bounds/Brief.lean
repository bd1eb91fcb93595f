import Lox.Proofs.Bounds.Loops
import Lox.Run.Eval

set_option autoImplicit false
set_option relaxedAutoImplicit false

namespace Lox

open Text (lit)

abbrev Budgeted (α : Type) := Nat → Run α

def Failure.Placed : Failure → Prop
  | .runtime _ (some _) => True
  | .internal _ _ => True
  | _ => False

theorem Failure.placed_attach (f : Failure) (span : Span) : (f.attach span).Placed := by
  cases f with
  | runtime e s => cases s <;> trivial
  | internal e s => trivial
  | plain t => trivial

def Machine.steady (m : Machine) : Machine := { m with canceled := false }

def Outcome.steady {α : Type} : Outcome α → Outcome α
  | .done a m => .done a m.steady
  | .failed f m => .failed f m.steady
  | .exhausted m => .exhausted m.steady

inductive Outcome.Brief (c : Prop) (m : Machine) {α : Type} (Q : α → Prop) : Outcome α → Prop
  | done {a : α} {heap : Heap} {output : List Text} : heap.LoopsIf c → m.output <:+ output → Q a →
      Outcome.Brief c m Q (.done a { m with heap, output })
  | failed {f : Failure} {heap : Heap} {output : List Text} :
      heap.LoopsIf c → m.output <:+ output → f.Placed →
      Outcome.Brief c m Q (.failed f { m with heap, output })

/-- A computation that is brief from every heap of values that hold loops only if a condition is
met. It does not look at whether the run is canceled. -/
structure Run.Brief (c : Prop) {α : Type} (x : Run α) (Q : α → Prop) : Prop where
  ends (m : Machine) : m.heap.LoopsIf c → Outcome.Brief c m Q (x m)
  steady (m : Machine) : m.heap.LoopsIf c → x m.steady = (x m).steady

namespace Run.Brief

variable {c : Prop} {α β : Type} {Q : α → Prop} {R : β → Prop}

theorem give {a : α} (ha : Q a) : (Run.give a).Brief c Q where
  ends _ hm := .done hm List.suffix_rfl ha
  steady _ _ := rfl

theorem fail {f : Failure} (hf : f.Placed) : (Run.fail f : Run α).Brief c Q where
  ends _ hm := .failed hm List.suffix_rfl hf
  steady _ _ := rfl

private theorem error (e : RuntimeError) (span : Span) : (Run.error e span : Run α).Brief c Q :=
  fail trivial

private theorem broken (e : InternalError) (span : Span) : (Run.broken e span : Run α).Brief c Q :=
  fail trivial

private theorem bind {x : Run α} {k : α → Run β} (hx : x.Brief c Q)
    (hk : ∀ a, Q a → (k a).Brief c R) :
    (x >>= k).Brief c R where
  ends m hm := by
    have hfirst := hx.ends m hm
    change Outcome.Brief c m R (x.andThen k m)
    unfold Run.andThen
    generalize x m = o at hfirst
    cases hfirst with
    | @done a heap output hheap houtput ha =>
      have hsecond := (hk a ha).ends { m with heap, output } hheap
      dsimp only
      generalize k a _ = o at hsecond
      cases hsecond with
      | done hheap' houtput' hb => exact .done hheap' (houtput.trans houtput') hb
      | failed hheap' houtput' hf => exact .failed hheap' (houtput.trans houtput') hf
    | failed hheap houtput hf => exact .failed hheap houtput hf
  steady m hm := by
    have hfirst := hx.ends m hm
    have hsame := hx.steady m hm
    change x.andThen k m.steady = (x.andThen k m).steady
    unfold Run.andThen
    rw [hsame]
    generalize x m = o at hfirst
    cases hfirst with
    | @done a heap output hheap _ ha => exact (hk a ha).steady { m with heap, output } hheap
    | failed _ _ _ => rfl

theorem look {f : Heap → α} (hf : ∀ h : Heap, h.LoopsIf c → Q (f h)) : (Run.look f).Brief c Q where
  ends m hm := .done hm List.suffix_rfl (hf m.heap hm)
  steady _ _ := rfl

theorem change {f : Heap → Heap} (hf : ∀ h : Heap, h.LoopsIf c → (f h).LoopsIf c) :
    (Run.change f).Brief c fun _ => True where
  ends m hm := .done (hf m.heap hm) List.suffix_rfl trivial
  steady _ _ := rfl

theorem define (env : FrameId) (name : Text) {v : Value} (hv : v.LoopsIf c) :
    (Run.change (·.define env name v)).Brief c fun _ => True :=
  change fun _ hh => hh.define env name hv

theorem newFrame (parent : FrameId) {bs : Bindings}
    (hbs : ∀ n v, bs.lookup n = some v → v.LoopsIf c) :
    (Run.newFrame parent bs).Brief c fun _ => True where
  ends _ hm := .done (hm.child parent hbs) List.suffix_rfl trivial
  steady _ _ := rfl

theorem freshId : Run.freshId.Brief c fun _ => True where
  ends _ hm := .done hm.freshId List.suffix_rfl trivial
  steady _ _ := rfl

theorem newObject {d : Class} (hd : d.LoopsIf c) : (Run.newObject d).Brief c (Value.LoopsIf c) where
  ends _ hm := .done hm.newObject List.suffix_rfl hd
  steady _ _ := rfl

private theorem bound {f : Function} (hf : f.LoopsIf c) {receiver : Value}
    (hr : receiver.LoopsIf c) :
    (Run.bound f receiver).Brief c (Value.LoopsIf c) :=
  bind freshId fun _ _ => give ⟨hf, hr⟩

theorem write (st : Settings) (line : Text) : (Run.write st line).Brief c fun _ => True where
  ends m hm := by
    unfold Run.write
    split
    · exact .done hm List.suffix_rfl trivial
    · exact .done hm (List.suffix_cons _ _) trivial
  steady m _ := by
    unfold Run.write
    cases st.outputFault <;> rfl

end Run.Brief

theorem Bindings.loopsIf_single {c : Prop} {name : Text} {v : Value} (hv : v.LoopsIf c) :
    ∀ n w, List.lookup n [(name, v)] = some w → w.LoopsIf c := by
  intro n w hw
  rw [List.lookup_cons] at hw
  split at hw
  · cases hw
    exact hv
  · cases hw

/-- A signal whose value, if it has one, holds loops only if a condition is met. -/
def Signal.LoopsIf (c : Prop) : Signal → Prop
  | .leaveFunction v => v.LoopsIf c
  | _ => True

namespace Eval

open Run

variable {c : Prop}

theorem brief_unary (span : Span) (op : UnaryOp) (v : Value) :
    (unary span op v).Brief c (Value.LoopsIf c) := by
  unfold unary
  split
  · split
    · exact .give trivial
    · exact .error _ _
  · exact .give trivial
  · exact .broken _ _

theorem brief_binary (span : Span) (op : BinaryOp) (v w : Value) :
    (binary span op v w).Brief c (Value.LoopsIf c) := by
  have hadd : (add span v w).Brief c (Value.LoopsIf c) := by
    unfold add
    split
    case h_5 => exact .error _ _
    all_goals exact .give trivial
  have harithmetic : ∀ x y, (arithmetic span op x y).Brief c (Value.LoopsIf c) := by
    intro x y
    unfold arithmetic
    split
    case h_3 =>
      split
      · exact .error _ _
      · exact .give trivial
    all_goals first | exact .give trivial | exact .broken _ _
  unfold binary
  split
  · exact .give trivial
  · exact .give trivial
  · exact hadd
  · split
    · exact harithmetic _ _
    · exact .error _ _

theorem brief_readName (name : Text) (span : Span) (hops : Option Int) (env : FrameId) :
    (readName name span hops env).Brief c (Value.LoopsIf c) := by
  unfold readName
  cases hops with
  | some d =>
    refine .bind (.look (Q := fun r => ∀ v, r = some v → v.LoopsIf c)
      fun h hh v hv => hh.getAt hv) fun r hr => ?_
    split
    · exact .give (hr _ rfl)
    · exact .broken _ _
  | none =>
    refine .bind (.look (Q := fun r => ∀ v, r = some v → v.LoopsIf c)
      fun h hh v hv => hh.bindings hv) fun r hr => ?_
    split
    · exact .give (hr _ rfl)
    · exact .error _ _

theorem brief_assignName (target : NameUse) {v : Value} (hv : v.LoopsIf c) (env : FrameId) :
    (assignName target v env).Brief c fun _ => True := by
  unfold assignName
  split
  · refine .bind (.look (Q := fun _ => True) fun _ _ => trivial) fun holder _ => ?_
    split
    · exact .define _ _ hv
    · exact .broken _ _
  · refine .bind (.look (Q := fun _ => True) fun _ _ => trivial) fun holder _ => ?_
    split
    · exact .define _ _ hv
    · exact .error _ _

theorem brief_property {v : Value} (hv : v.LoopsIf c) (name : Text) (span : Span) :
    (property v name span).Brief c (Value.LoopsIf c) := by
  unfold property
  split
  · refine .bind (.look (Q := fun r => ∀ v, r = some v → v.LoopsIf c)
      fun h hh v hv => hh.field hv) fun r hr => ?_
    split
    · exact .give (hr _ rfl)
    · split
      · rename_i f hf
        exact .bound (Class.LoopsIf.findMethod hv hf) hv
      · exact .error _ _
  · split
    · rename_i f hf
      exact .bound (Class.LoopsIf.findStatic hv hf) hv
    · exact .error _ _
  · exact .error _ _

theorem brief_superMethod (span : Span) (name : Text) (hops : Option Int) (env : FrameId) :
    (superMethod span name hops env).Brief c (Value.LoopsIf c) := by
  unfold superMethod
  split
  · exact .broken _ _
  · refine .bind (.look (Q := fun r => ∀ v, r = some v → v.LoopsIf c)
      fun h hh v hv => hh.getAt hv) fun sup hsup => ?_
    split
    · rename_i d
      have hd : d.LoopsIf c := hsup _ rfl
      refine .bind (.look (Q := fun r => ∀ v, r = some v → v.LoopsIf c)
        fun h hh v hv => hh.getAt hv) fun receiver hreceiver => ?_
      split
      · rename_i receiver
        split
        · rename_i f hf
          refine .bound ?_ (hreceiver _ rfl)
          split at hf
          · exact hd.findStatic hf
          · exact hd.findMethod hf
        · exact .error _ _
      · exact .broken _ _
    · exact .broken _ _

theorem brief_newFunction (name : Text) (params : List Param) {body : List Stmt}
    (hbody : Stmt.LoopsIfAll c body) (closure : FrameId) (isInit : Bool) :
    (newFunction name params body closure isInit).Brief c (Function.LoopsIf c) :=
  .bind .freshId fun _ _ => .give hbody

private theorem brief_methodTable (closure : FrameId) (ofInstances : Bool)
    {table : List (Text × Function)}
    (htable : ∀ m ∈ table, m.2.LoopsIf c) {decls : List FunDecl}
    (hdecls : FunDecl.LoopsIfAll c decls) :
    (methodTable closure ofInstances table decls).Brief c fun ms => ∀ m ∈ ms, m.2.LoopsIf c := by
  induction decls generalizing table with
  | nil => exact .give htable
  | cons d r ih =>
    obtain ⟨span, name, params, body⟩ := d
    refine .bind (brief_newFunction _ _ hdecls.1 _ _) fun f hf => ih ?_ hdecls.2
    intro m hm
    rcases List.mem_cons.1 hm with rfl | hm
    · exact hf
    · exact htable m hm

theorem brief_newClass (name : Text) {superclass : Option Class}
    (hsup : ∀ d, superclass = some d → d.LoopsIf c) {methods statics : List FunDecl}
    (hms : FunDecl.LoopsIfAll c methods) (hss : FunDecl.LoopsIfAll c statics)
    (closure env : FrameId) :
    (newClass name superclass methods statics closure env).Brief c fun _ => True := by
  refine .bind (brief_methodTable closure true (List.forall_mem_nil _) hms) fun ms hms => ?_
  refine .bind (brief_methodTable closure false (List.forall_mem_nil _) hss) fun ss hss => ?_
  refine .bind .freshId fun i _ => .define _ _ ?_
  cases superclass with
  | none => exact ⟨hms, hss⟩
  | some d => exact ⟨hsup d rfl, hms, hss⟩

theorem brief_result (f : Function) (closure : FrameId) {signal : Signal} (hs : signal.LoopsIf c) :
    (result f closure signal).Brief c (Value.LoopsIf c) := by
  unfold result
  split
  · exact .fail trivial
  · split
    · refine .bind (.look (Q := fun r => ∀ v, r = some v → v.LoopsIf c)
        fun h hh v hv => hh.bindings hv) fun receiver hreceiver => ?_
      split
      · exact .give (hreceiver _ rfl)
      · exact .fail trivial
    · split
      · exact .give hs
      · exact .give trivial

theorem loopsIf_parameterBindings (params : List Param) {args : List Value}
    (hargs : ∀ v ∈ args, v.LoopsIf c) :
    ∀ n v, (parameterBindings params args).lookup n = some v → v.LoopsIf c := by
  have hempty : ∀ n v, List.lookup n ([] : Bindings) = some v → v.LoopsIf c := nofun
  exact Bindings.foldl_all (fun (q : Param × Value) => q.1.name) Prod.snd (fun _ _ => rfl)
    (fun q hq => hargs q.2 (List.of_mem_zip hq).2) hempty

end Eval

end Lox

import Lox.Proofs.Run.Blind
import Lox.Proofs.Simulation.State

set_option autoImplicit false
set_option relaxedAutoImplicit false

namespace Lox

structure Likeness.Reflexive (L : Likeness) : Prop where
  plain (f : Function) : L.plain f f
  member (f : Function) : L.member f f

theorem Value.Alike.refl {L : Likeness} (hL : L.Reflexive) (v : Value) : v.Alike L v := by
  have htables : ∀ t, L.Tables t t := fun t => List.forall₂_same.2 fun _ _ => ⟨rfl, hL.member _⟩
  have hclass : ∀ c, Class.Alike L c c := by
    intro c
    induction c using Class.findMethod.induct with
    | case1 => exact .base (htables _) (htables _)
    | case2 _ _ _ _ _ ih => exact .derived ih (htables _) (htables _)
  induction v with
  | nil => exact .nil
  | absent => exact .absent
  | bool b => exact .bool b
  | number x => exact .number x
  | string t => exact .string t
  | function f => exact .function (hL.plain f)
  | method i f v ih => exact .method i (hL.member f) ih
  | native i => exact .native i
  | cls c => exact .cls (hclass c)
  | object i c => exact .object i (hclass c)

def Bindings.Alike (L : Likeness) : Bindings → Bindings → Prop :=
  List.Forall₂ fun b b' => b.1 = b'.1 ∧ b.2.Alike L b'.2

namespace Bindings.Alike

variable {L : Likeness} {bs bs' : Bindings}

private theorem refl (hL : L.Reflexive) (bs : Bindings) : bs.Alike L bs :=
  List.forall₂_same.2 fun b _ => ⟨rfl, .refl hL b.2⟩

theorem lookup (h : bs.Alike L bs') (name : Text) :
    Option.Rel (Value.Alike L) (bs.lookup name) (bs'.lookup name) := by
  unfold Bindings.Alike at h
  induction h with
  | nil => exact .none
  | @cons b b' bs bs' hb _ ih =>
    obtain ⟨n, v⟩ := b
    obtain ⟨n', v'⟩ := b'
    obtain ⟨rfl, hv⟩ := hb
    rw [List.lookup_cons, List.lookup_cons]
    cases name == n with
    | true => exact .some hv
    | false => exact ih

private theorem isSome (h : bs.Alike L bs') (name : Text) :
    (bs'.lookup name).isSome = (bs.lookup name).isSome := by
  have hvalues := h.lookup name
  generalize bs.lookup name = v, bs'.lookup name = v' at hvalues
  cases hvalues <;> rfl

private theorem bind (h : bs.Alike L bs') (name : Text) {v v' : Value} (hv : v.Alike L v') :
    Bindings.Alike L (Bindings.bind bs name v) (Bindings.bind bs' name v') := by
  unfold Bindings.Alike at h ⊢
  induction h with
  | nil => exact .cons ⟨rfl, hv⟩ .nil
  | @cons b b' bs bs' hb hbs ih =>
    obtain ⟨n, w⟩ := b
    obtain ⟨n', w'⟩ := b'
    obtain ⟨hn, hw⟩ := hb
    change n = n' at hn
    subst hn
    rw [Bindings.bind, Bindings.bind]
    split
    · exact .cons ⟨rfl, hv⟩ hbs
    · exact .cons ⟨rfl, hw⟩ ih

theorem single (name : Text) {v v' : Value} (hv : v.Alike L v') :
    Bindings.Alike L [(name, v)] [(name, v')] :=
  .cons ⟨rfl, hv⟩ .nil

theorem parameters {ps ps' : List Param} (hps : ps.map Param.name = ps'.map Param.name)
    {args args' : List Value} (hargs : List.Forall₂ (Value.Alike L) args args') :
    Bindings.Alike L (Eval.parameterBindings ps args) (Eval.parameterBindings ps' args') := by
  have hfold : ∀ bs bs' : Bindings, bs.Alike L bs' → Bindings.Alike L
      ((ps.zip args).foldl (fun bs q => Bindings.bind bs q.1.name q.2) bs)
      ((ps'.zip args').foldl (fun bs q => Bindings.bind bs q.1.name q.2) bs') := by
    induction ps generalizing ps' args args' with
    | nil =>
      cases List.map_eq_nil_iff.1 hps.symm
      exact fun _ _ => id
    | cons p ps ih =>
      cases ps' with
      | nil => cases hps
      | cons p' ps' =>
        obtain ⟨hp, hps⟩ := List.cons.inj hps
        intro bs bs' hbs
        cases hargs with
        | nil => exact hbs
        | cons hv hargs =>
          refine ih hps hargs _ _ ?_
          dsimp only
          rw [← hp]
          exact hbs.bind p.name hv
  exact hfold [] [] .nil

end Bindings.Alike

structure Frame.Alike (L : Likeness) (f f' : Frame) : Prop where
  parent : f'.parent = f.parent
  bindings : f.bindings.Alike L f'.bindings

structure Heap.Alike (L : Likeness) (h h' : Heap) : Prop where
  frameCount : h'.frames.size = h.frames.size
  frames : ∀ e : Nat, Option.Rel (Frame.Alike L) h.frames[e]? h'.frames[e]?
  objectCount : h'.objects.size = h.objects.size
  objects : ∀ i : Nat, Option.Rel (Bindings.Alike L) h.objects[i]? h'.objects[i]?
  fresh : h'.fresh = h.fresh

namespace Heap.Alike

variable {L : Likeness} {h h' : Heap}

theorem refl (hL : L.Reflexive) (h : Heap) : h.Alike L h where
  frameCount := rfl
  frames _ := rel_refl fun f _ => ⟨rfl, .refl hL f.bindings⟩
  objectCount := rfl
  objects _ := rel_refl fun fields _ => .refl hL fields
  fresh := rfl

theorem bindings (hh : h.Alike L h') (e : FrameId) : (h.bindings e).Alike L (h'.bindings e) := by
  have hframe := hh.frames e
  unfold Heap.bindings
  generalize h.frames[e]? = f, h'.frames[e]? = f' at hframe
  cases hframe with
  | none => exact .nil
  | some hf => exact hf.bindings

private theorem ancestor (hh : h.Alike L h') (d : Nat) (e : FrameId) :
    h'.ancestor? d e = h.ancestor? d e := by
  induction d generalizing e with
  | zero => rfl
  | succ d ih =>
    have hframe := hh.frames e
    rw [Heap.ancestor?, Heap.ancestor?]
    generalize h.frames[e]? = f, h'.frames[e]? = f' at hframe
    cases hframe with
    | none => rfl
    | @some f f' hf =>
      obtain ⟨p, bs⟩ := f
      obtain ⟨p', bs'⟩ := f'
      cases hf.parent
      cases p with
      | none => rfl
      | some p => exact ih p

theorem getAt (hh : h.Alike L h') (e : FrameId) (d : Int) (name : Text) :
    Option.Rel (Value.Alike L) (h.getAt? e d name) (h'.getAt? e d name) := by
  unfold Heap.getAt?
  rw [hh.ancestor]
  cases h.ancestor? d.toNat e with
  | none => exact .none
  | some a => exact (hh.bindings a).lookup name

theorem holderAt (hh : h.Alike L h') (e : FrameId) (d : Int) (name : Text) :
    h'.holderAt? e d name = h.holderAt? e d name := by
  unfold Heap.holderAt?
  rw [hh.ancestor]
  cases h.ancestor? d.toNat e with
  | none => rfl
  | some a =>
    dsimp only
    rw [(hh.bindings a).isSome]

theorem field (hh : h.Alike L h') (i : Nat) (name : Text) :
    Option.Rel (Value.Alike L) (h.field? i name) (h'.field? i name) := by
  have hobject := hh.objects i
  unfold Heap.field?
  generalize h.objects[i]? = fields, h'.objects[i]? = fields' at hobject
  cases hobject with
  | none => exact .none
  | some hfields => exact hfields.lookup name

theorem define (hh : h.Alike L h') (e : FrameId) (name : Text) {v v' : Value} (hv : v.Alike L v') :
    (h.define e name v).Alike L (h'.define e name v') where
  frameCount := by
    unfold Heap.define
    rw [Array.size_modify, Array.size_modify, hh.frameCount]
  frames i := by
    refine rel_modify hh.frames (fun f f' hf => ?_) e i
    exact ⟨hf.parent, hf.bindings.bind name hv⟩
  objectCount := hh.objectCount
  objects := hh.objects
  fresh := hh.fresh

theorem declare (hh : h.Alike L h') (e : FrameId) (name : Text) :
    (h.declare e name).Alike L (h'.declare e name) := by
  unfold Heap.declare
  rw [(hh.bindings e).isSome]
  split
  · exact hh
  · exact hh.define e name .nil

theorem child (hh : h.Alike L h') (p : FrameId) {bs bs' : Bindings} (hbs : bs.Alike L bs') :
    (h'.child p bs').1 = (h.child p bs).1 ∧ (h.child p bs).2.Alike L (h'.child p bs').2 := by
  refine ⟨hh.frameCount, ?_, rel_push hh.frameCount hh.frames ⟨rfl, hbs⟩,
    hh.objectCount, hh.objects,
    hh.fresh⟩
  unfold Heap.child
  rw [Array.size_push, Array.size_push, hh.frameCount]

theorem newObject (hh : h.Alike L h') :
    h'.newObject.1 = h.newObject.1 ∧ h.newObject.2.Alike L h'.newObject.2 := by
  refine ⟨hh.objectCount, hh.frameCount, hh.frames, ?_,
    rel_push hh.objectCount hh.objects .nil, hh.fresh⟩
  unfold Heap.newObject
  rw [Array.size_push, Array.size_push, hh.objectCount]

theorem setField (hh : h.Alike L h') (i : Nat) (name : Text) {v v' : Value} (hv : v.Alike L v') :
    (h.setField i name v).Alike L (h'.setField i name v') where
  frameCount := hh.frameCount
  frames := hh.frames
  objectCount := by
    unfold Heap.setField
    rw [Array.size_modify, Array.size_modify, hh.objectCount]
  objects j := by
    refine rel_modify hh.objects (fun fields fields' hfields => ?_) i j
    exact hfields.bind name hv
  fresh := hh.fresh

theorem freshId (hh : h.Alike L h') :
    h'.freshId.1 = h.freshId.1 ∧ h.freshId.2.Alike L h'.freshId.2 :=
  ⟨hh.fresh, hh.frameCount, hh.frames, hh.objectCount, hh.objects, congrArg (· + 1) hh.fresh⟩

end Heap.Alike

/-- Machines that are the same but for their heaps, which have alike values, and for their events.
-/
structure Machine.Alike (L : Likeness) (m m' : Machine) : Prop where
  heap : m.heap.Alike L m'.heap
  calls : m'.calls = m.calls
  depth : m'.depth = m.depth
  peak : m'.peak = m.peak
  output : m'.output = m.output
  canceled : m'.canceled = m.canceled

namespace Machine.Alike

variable {L : Likeness} {m m' : Machine}

theorem refl (hL : L.Reflexive) (m : Machine) : m.Alike L m :=
  ⟨.refl hL m.heap, rfl, rfl, rfl, rfl, rfl⟩

theorem withHeap (h : m.Alike L m') {k k' : Heap} (hk : k.Alike L k') :
    Machine.Alike L { m with heap := k } { m' with heap := k' } :=
  ⟨hk, h.calls, h.depth, h.peak, h.output, h.canceled⟩

theorem emit (h : m.Alike L m') (st : Settings) (kind : EventKind)
    (s s' : Span) (name name' : Text) :
    (Run.emit st kind s name m).machine.Alike L (Run.emit st kind s' name' m').machine := by
  unfold Run.emit
  split
  · exact ⟨h.heap, h.calls, h.depth, h.peak, h.output, h.canceled⟩
  · exact h

theorem enter (h : m.Alike L m') : m.enter.Alike L m'.enter :=
  ⟨h.heap, congrArg (· + 1) h.calls, congrArg (· + 1) h.depth,
    congrArg₂ (fun a b => max a (b + 1)) h.peak h.depth, h.output, h.canceled⟩

theorem leave (h : m.Alike L m') : m.leave.Alike L m'.leave :=
  ⟨h.heap, h.calls, congrArg (· - 1) h.depth, h.peak, h.output, h.canceled⟩

end Machine.Alike
end Lox

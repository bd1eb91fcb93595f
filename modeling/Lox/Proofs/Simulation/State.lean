import Lox.Proofs.Simulation.Value
import Lox.Value.Heap

set_option autoImplicit false
set_option relaxedAutoImplicit false

namespace Lox

def Bindings.Matches (L : Latitude) : Bindings → Bindings → Prop :=
  List.Forall₂ fun b b' => b.1 = b'.1 ∧ b.2.Matches L b'.2

namespace Bindings.Matches

variable {L : Latitude} {bs bs' : Bindings}

private theorem refl (L : Latitude) (bs : Bindings) : bs.Matches L bs :=
  List.forall₂_same.2 fun b _ => ⟨rfl, .refl L b.2⟩

private theorem symm (h : bs.Matches L bs') : bs'.Matches L bs :=
  (List.Forall₂.flip h).imp fun _ _ hb => ⟨hb.1.symm, hb.2.symm⟩

theorem lookup (h : bs.Matches L bs') (name : Text) :
    Option.Rel (Value.Matches L) (bs.lookup name) (bs'.lookup name) := by
  unfold Bindings.Matches at h
  induction h with
  | nil => exact .none
  | @cons b b' bs bs' hb _ ih =>
    obtain ⟨n, v⟩ := b
    obtain ⟨n', v'⟩ := b'
    obtain ⟨rfl, hv⟩ := hb
    rw [List.lookup_cons, List.lookup_cons]
    cases name == n with
    | true => exact .some hv
    | false => exact ih

private theorem isSome (h : bs.Matches L bs') (name : Text) :
    (bs'.lookup name).isSome = (bs.lookup name).isSome := by
  have hvalues := h.lookup name
  generalize bs.lookup name = v, bs'.lookup name = v' at hvalues
  cases hvalues <;> rfl

theorem names (h : bs.Matches L bs') : bs'.map Prod.fst = bs.map Prod.fst := by
  unfold Bindings.Matches at h
  induction h with
  | nil => rfl
  | cons hb _ ih => exact congrArg₂ List.cons hb.1.symm ih

theorem bind (h : bs.Matches L bs') (name : Text) {v v' : Value} (hv : v.Matches L v') :
    Bindings.Matches L (Bindings.bind bs name v) (Bindings.bind bs' name v') := by
  unfold Bindings.Matches at h ⊢
  induction h with
  | nil => exact .cons ⟨rfl, hv⟩ .nil
  | @cons b b' bs bs' hb hbs ih =>
    obtain ⟨n, w⟩ := b
    obtain ⟨n', w'⟩ := b'
    obtain ⟨hn, hw⟩ := hb
    change n = n' at hn
    subst hn
    rw [Bindings.bind, Bindings.bind]
    split
    · exact .cons ⟨rfl, hv⟩ hbs
    · exact .cons ⟨rfl, hw⟩ ih

theorem single (name : Text) {v v' : Value} (hv : v.Matches L v') :
    Bindings.Matches L [(name, v)] [(name, v')] :=
  .cons ⟨rfl, hv⟩ .nil

end Bindings.Matches

structure Frame.Matches (L : Latitude) (f f' : Frame) : Prop where
  parent : f'.parent = f.parent
  bindings : f.bindings.Matches L f'.bindings

structure Heap.Matches (L : Latitude) (h h' : Heap) : Prop where
  frameCount : h'.frames.size = h.frames.size
  frames : ∀ e : Nat, Option.Rel (Frame.Matches L) h.frames[e]? h'.frames[e]?
  objectCount : h'.objects.size = h.objects.size
  objects : ∀ i : Nat, Option.Rel (Bindings.Matches L) h.objects[i]? h'.objects[i]?
  fresh : h'.fresh = h.fresh

theorem rel_push {α : Type} {r : α → α → Prop} {xs ys : Array α} (hsize : ys.size = xs.size)
    (h : ∀ i : Nat, Option.Rel r xs[i]? ys[i]?) {x y : α} (hxy : r x y) (i : Nat) :
    Option.Rel r (xs.push x)[i]? (ys.push y)[i]? := by
  rw [Array.getElem?_push, Array.getElem?_push, hsize]
  split
  · exact .some hxy
  · exact h i

theorem rel_modify {α : Type} {r : α → α → Prop} {xs ys : Array α}
    (h : ∀ i : Nat, Option.Rel r xs[i]? ys[i]?) {f g : α → α} (hfg : ∀ x y, r x y → r (f x) (g y))
    (e i : Nat) : Option.Rel r (xs.modify e f)[i]? (ys.modify e g)[i]? := by
  rw [Array.getElem?_modify, Array.getElem?_modify]
  have hi := h i
  split
  · generalize xs[i]? = x, ys[i]? = y at hi
    cases hi with
    | none => exact .none
    | some hxy => exact .some (hfg _ _ hxy)
  · exact hi

namespace Heap.Matches

variable {L : Latitude} {h h' : Heap} {e : FrameId}

theorem refl (L : Latitude) (h : Heap) : h.Matches L h where
  frameCount := rfl
  frames _ := rel_refl fun f _ => ⟨rfl, .refl L f.bindings⟩
  objectCount := rfl
  objects _ := rel_refl fun fields _ => .refl L fields
  fresh := rfl

private theorem symm (hh : h.Matches L h') : h'.Matches L h where
  frameCount := hh.frameCount.symm
  frames e := rel_symm (fun _ _ hf => ⟨hf.parent.symm, hf.bindings.symm⟩) (hh.frames e)
  objectCount := hh.objectCount.symm
  objects i := rel_symm (fun _ _ hbs => hbs.symm) (hh.objects i)
  fresh := hh.fresh.symm

theorem bindings (hh : h.Matches L h') (e : FrameId) :
    (h.bindings e).Matches L (h'.bindings e) := by
  have hframe := hh.frames e
  unfold Heap.bindings
  generalize h.frames[e]? = f, h'.frames[e]? = f' at hframe
  cases hframe with
  | none => exact .nil
  | some hf => exact hf.bindings

private theorem ancestor (hh : h.Matches L h') (d : Nat) (e : FrameId) :
    h'.ancestor? d e = h.ancestor? d e := by
  induction d generalizing e with
  | zero => rfl
  | succ d ih =>
    have hframe := hh.frames e
    rw [Heap.ancestor?, Heap.ancestor?]
    generalize h.frames[e]? = f, h'.frames[e]? = f' at hframe
    cases hframe with
    | none => rfl
    | @some f f' hf =>
      obtain ⟨p, bs⟩ := f
      obtain ⟨p', bs'⟩ := f'
      cases hf.parent
      cases p with
      | none => rfl
      | some p => exact ih p

theorem getAt (hh : h.Matches L h') (e : FrameId) (d : Int) (name : Text) :
    Option.Rel (Value.Matches L) (h.getAt? e d name) (h'.getAt? e d name) := by
  unfold Heap.getAt?
  rw [hh.ancestor]
  cases h.ancestor? d.toNat e with
  | none => exact .none
  | some a => exact (hh.bindings a).lookup name

theorem holderAt (hh : h.Matches L h') (e : FrameId) (d : Int) (name : Text) :
    h'.holderAt? e d name = h.holderAt? e d name := by
  unfold Heap.holderAt?
  rw [hh.ancestor]
  cases h.ancestor? d.toNat e with
  | none => rfl
  | some a =>
    dsimp only
    rw [(hh.bindings a).isSome]

theorem field (hh : h.Matches L h') (i : Nat) (name : Text) :
    Option.Rel (Value.Matches L) (h.field? i name) (h'.field? i name) := by
  have hobject := hh.objects i
  unfold Heap.field?
  generalize h.objects[i]? = fields, h'.objects[i]? = fields' at hobject
  cases hobject with
  | none => exact .none
  | some hfields => exact hfields.lookup name

theorem define (hh : h.Matches L h') (e : FrameId) (name : Text)
    {v v' : Value} (hv : v.Matches L v') :
    (h.define e name v).Matches L (h'.define e name v') where
  frameCount := by
    unfold Heap.define
    rw [Array.size_modify, Array.size_modify, hh.frameCount]
  frames i := by
    refine rel_modify hh.frames (fun f f' hf => ?_) e i
    exact ⟨hf.parent, hf.bindings.bind name hv⟩
  objectCount := hh.objectCount
  objects := hh.objects
  fresh := hh.fresh

theorem declare (hh : h.Matches L h') (e : FrameId) (name : Text) :
    (h.declare e name).Matches L (h'.declare e name) := by
  unfold Heap.declare
  rw [(hh.bindings e).isSome]
  split
  · exact hh
  · exact hh.define e name .nil

theorem child (hh : h.Matches L h') (p : FrameId) {bs bs' : Bindings} (hbs : bs.Matches L bs') :
    (h'.child p bs').1 = (h.child p bs).1 ∧ (h.child p bs).2.Matches L (h'.child p bs').2 := by
  refine ⟨hh.frameCount, ?_, rel_push hh.frameCount hh.frames ⟨rfl, hbs⟩,
    hh.objectCount, hh.objects, hh.fresh⟩
  unfold Heap.child
  rw [Array.size_push, Array.size_push, hh.frameCount]

theorem newObject (hh : h.Matches L h') :
    h'.newObject.1 = h.newObject.1 ∧ h.newObject.2.Matches L h'.newObject.2 := by
  refine ⟨hh.objectCount, hh.frameCount, hh.frames, ?_,
    rel_push hh.objectCount hh.objects .nil, hh.fresh⟩
  unfold Heap.newObject
  rw [Array.size_push, Array.size_push, hh.objectCount]

theorem setField (hh : h.Matches L h') (i : Nat) (name : Text)
    {v v' : Value} (hv : v.Matches L v') :
    (h.setField i name v).Matches L (h'.setField i name v') where
  frameCount := hh.frameCount
  frames := hh.frames
  objectCount := by
    unfold Heap.setField
    rw [Array.size_modify, Array.size_modify, hh.objectCount]
  objects j := by
    refine rel_modify hh.objects (fun fields fields' hfields => ?_) i j
    exact hfields.bind name hv
  fresh := hh.fresh

theorem freshId (hh : h.Matches L h') :
    h'.freshId.1 = h.freshId.1 ∧ h.freshId.2.Matches L h'.freshId.2 :=
  ⟨hh.fresh, hh.frameCount, hh.frames, hh.objectCount, hh.objects, congrArg (· + 1) hh.fresh⟩

end Heap.Matches

/-- Machines that are the same but for their heaps, which match. -/
structure Machine.Matches (L : Latitude) (m m' : Machine) : Prop where
  heap : m.heap.Matches L m'.heap
  calls : m'.calls = m.calls
  depth : m'.depth = m.depth
  peak : m'.peak = m.peak
  output : m'.output = m.output
  events : m'.events = m.events
  canceled : m'.canceled = m.canceled

/-- The global names with what the language tells of their values. -/
def Machine.lookGlobals (m : Machine) : List (Text × Text × Bool × Text) :=
  (m.heap.bindings Heap.globals).map fun b => (b.1, b.2.look)

namespace Machine.Matches

variable {L : Latitude} {m m' : Machine}

theorem refl (L : Latitude) (m : Machine) : m.Matches L m :=
  ⟨.refl L m.heap, rfl, rfl, rfl, rfl, rfl, rfl⟩

theorem symm (h : m.Matches L m') : m'.Matches L m :=
  ⟨h.heap.symm, h.calls.symm, h.depth.symm, h.peak.symm, h.output.symm,
    h.events.symm, h.canceled.symm⟩

theorem withHeap (h : m.Matches L m') {k k' : Heap} (hk : k.Matches L k') :
    Machine.Matches L { m with heap := k } { m' with heap := k' } :=
  ⟨hk, h.calls, h.depth, h.peak, h.output, h.events, h.canceled⟩

theorem lookGlobals (h : m.Matches L m') : m'.lookGlobals = m.lookGlobals := by
  have hglobals := h.heap.bindings Heap.globals
  unfold Machine.lookGlobals
  generalize m.heap.bindings Heap.globals = bs, m'.heap.bindings Heap.globals = bs' at hglobals
  unfold Bindings.Matches at hglobals
  induction hglobals with
  | nil => rfl
  | cons hb _ ih => exact congrArg₂ List.cons (congrArg₂ Prod.mk hb.1.symm hb.2.look.symm) ih

end Machine.Matches

end Lox

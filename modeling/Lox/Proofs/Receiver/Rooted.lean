import Lox.Proofs.Natives.Held
import Lox.Proofs.Receiver.Hosted
import Lox.Proofs.Receiver.Observe

set_option autoImplicit false
set_option relaxedAutoImplicit false

namespace Lox

open Text (lit)

namespace Heap

/-! ### Frames -/

/-- Every frame stays in its place, and so does what `this` and `super` are bound to in it. -/
def Fixes (h h' : Heap) : Prop :=
  ∀ (e : FrameId) (f : Frame), h.frames[e]? = some f →
    ∃ f' : Frame, h'.frames[e]? = some f' ∧ f'.parent = f.parent ∧
      ∀ n v, ¬ Ordinary n → f.bindings.lookup n = some v → f'.bindings.lookup n = some v

namespace Fixes

variable {h h' h'' : Heap}

private theorem refl (h : Heap) : h.Fixes h := fun _ f hf => ⟨f, hf, rfl, fun _ _ _ => id⟩

private theorem trans (a : h.Fixes h') (b : h'.Fixes h'') : h.Fixes h'' := by
  intro e f hf
  obtain ⟨f', hf', hparent, hkept⟩ := a e f hf
  obtain ⟨f'', hf'', hparent', hkept'⟩ := b e f' hf'
  exact ⟨f'', hf'', hparent'.trans hparent, fun n v hn hv => hkept' n v hn (hkept n v hn hv)⟩

theorem of_frames (hframes : h'.frames = h.frames) : h.Fixes h' :=
  fun _ f hf => ⟨f, hframes ▸ hf, rfl, fun _ _ _ => id⟩

theorem define (h : Heap) (e : FrameId) {name : Text} (hname : Ordinary name) (v : Value) :
    h.Fixes (h.define e name v) := by
  intro e' f hf
  rw [getElem?_define, hf]
  split
  · refine ⟨_, rfl, rfl, fun n w hn hw => ?_⟩
    have hne : n ≠ name := fun heq => hn (heq ▸ hname)
    rw [Bindings.lookup_bind, if_neg hne, hw]
  · exact ⟨f, rfl, rfl, fun _ _ _ => id⟩

theorem declare (h : Heap) (e : FrameId) {name : Text} (hname : Ordinary name) :
    h.Fixes (h.declare e name) := by
  unfold Heap.declare
  split
  · exact .refl h
  · exact .define h e hname .nil

theorem child (h : Heap) (p : FrameId) (bs : Bindings) : h.Fixes (h.child p bs).2 := by
  intro e f hf
  have hne : e ≠ h.frames.size := by
    intro heq
    rw [heq, Array.getElem?_size] at hf
    cases hf
  exact ⟨f, by rw [Heap.child, Array.getElem?_push, if_neg hne, hf], rfl, fun _ _ _ => id⟩

variable (hfixes : h.Fixes h')
include hfixes

private theorem ancestor {d : Nat} {e a : FrameId} (ha : h.ancestor? d e = some a) :
    h'.ancestor? d e = some a := by
  induction d generalizing e with
  | zero => exact ha
  | succ d ih =>
    rw [ancestor?] at ha ⊢
    split at ha
    · rename_i p bs hframe
      obtain ⟨⟨p', bs'⟩, hframe', hparent, -⟩ := hfixes e _ hframe
      cases hparent
      rw [hframe']
      exact ih ha
    · cases ha

theorem getAt {e : FrameId} {d : Int} {n : Text} {v : Value} (hn : ¬ Ordinary n)
    (hv : h.getAt? e d n = some v) : h'.getAt? e d n = some v := by
  unfold getAt? bindings at hv ⊢
  split at hv
  · rename_i a ha
    split at hv
    · rename_i f hf
      obtain ⟨f', hf', -, hkept⟩ := hfixes a f hf
      rw [hfixes.ancestor ha]
      dsimp only
      rw [hf']
      exact hkept n v hn hv
    · cases hv
  · cases hv

end Fixes

theorem getAt?_child (h : Heap) (p : FrameId) (bs : Bindings) (n : Text) :
    (h.child p bs).2.getAt? (h.child p bs).1 0 n = bs.lookup n := by
  simp only [getAt?, child, Int.toNat_zero, ancestor?, bindings, Array.getElem?_push_size]

theorem getAt?_child_succ (h : Heap) (p : FrameId) (bs : Bindings) (d : Nat) (n : Text) :
    (h.child p bs).2.getAt? (h.child p bs).1 ((d : Int) + 1) n = (h.child p bs).2.getAt? p d n := by
  have hnat : ((d : Int) + 1).toNat = d + 1 := by omega
  simp only [getAt?, hnat, Int.toNat_natCast, ancestor?, child, Array.getElem?_push_size]

/-- From a frame the receiver of an activation and the superclass of its owner are found, as far
away as is told. -/
structure Bears (h : Heap) (e : FrameId) (x : Reach) (act : Activation) : Prop where
  this : h.getAt? e x.hops (lit "this") = some act.receiver
  derived : x.derived = act.owner.superclass.isSome
  super : ∀ sup, act.owner.superclass = some sup →
    h.getAt? e ((x.hops : Int) + 1) (lit "super") = some (.cls sup)

def Hosts (h : Heap) (e : FrameId) (r : Option Reach) (a : Option Activation) : Prop :=
  ∀ x, r = some x → ∃ act, a = some act ∧ h.Bears e x act

namespace Hosts

variable {h h' : Heap} {e : FrameId} {r : Option Reach} {a : Option Activation}

theorem outside (h : Heap) (e : FrameId) (a : Option Activation) : h.Hosts e none a := nofun

theorem mono (hfixes : h.Fixes h') (hosts : h.Hosts e r a) : h'.Hosts e r a := by
  intro x hx
  obtain ⟨act, hact, hbears⟩ := hosts x hx
  exact ⟨act, hact, hfixes.getAt not_ordinary_this hbears.this, hbears.derived, fun sup hsup =>
    hfixes.getAt not_ordinary_super (hbears.super sup hsup)⟩

theorem child (hosts : h.Hosts e r a) (bs : Bindings) :
    (h.child e bs).2.Hosts (h.child e bs).1 (r.map .deeper) a := by
  intro x hx
  obtain ⟨y, hy, rfl⟩ := Option.map_eq_some_iff.1 hx
  obtain ⟨act, hact, hbears⟩ := hosts.mono (.child h e bs) y hy
  refine ⟨act, hact, ?_, hbears.derived, fun sup hsup => ?_⟩
  · exact (getAt?_child_succ h e bs y.hops _).trans hbears.this
  · have hsuper := hbears.super sup hsup
    exact (getAt?_child_succ h e bs (y.hops + 1) _).trans hsuper

end Hosts

end Heap

/-! ### Functions and values -/

/-- A function that was made in an activation finds the receiver of this activation. -/
structure Function.Closes (ρ : Origins) (h : Heap) (f : Function) : Prop where
  counted : f.id < h.fresh
  body : ∃ r : Option Reach, h.Hosts f.closure r (ρ.home f) ∧ Stmt.HostedAll (r.map .deeper) f.body

/-- A function that a class has declared finds the superclass of the class, and gives its receiver
if it is the initializer. -/
structure Function.DeclaredBy (h : Heap) (f : Function) (c : Class) : Prop where
  own : ∃ ofClass name, (name, f) ∈ c.own ofClass
  super : ∀ sup, c.superclass = some sup → h.getAt? f.closure 0 (lit "super") = some (.cls sup)
  initializer : (lit "init", f) ∈ c.own false → f.isInit = true
  body : Stmt.HostedAll (some (Reach.members c.superclass.isSome).deeper) f.body

structure Function.Belongs (ρ : Origins) (h : Heap) (f : Function) : Prop where
  counted : f.id < h.fresh
  declared : ∃ c, ρ.declared.lookup f.id = some c ∧ f.DeclaredBy h c

namespace Origins

variable {ρ : Origins} {f : Function} {c : Class} {members : List (Text × Function)} {i : Nat}

theorem home_make (ρ : Origins) (f : Function) (a : Option Activation) :
    (ρ.make f a).home f = a := by
  unfold home make
  rw [List.lookup_cons_self]
  rfl

theorem lookup_make (a : Option Activation) (hi : i ≠ f.id) :
    (ρ.make f a).made.lookup i = ρ.made.lookup i := by
  have hbeq : (i == f.id) = false := by simpa using hi
  unfold make
  rw [List.lookup_cons, hbeq]

theorem lookup_declare {e : Text × Function} (he : e ∈ members) (c : Class) :
    (ρ.declare members c).declared.lookup e.2.id = some c := by
  have hall : ∀ q ∈ members.map fun e => (e.2.id, c), q.2 = c := by
    intro q hq
    obtain ⟨e, -, rfl⟩ := List.mem_map.1 hq
    rfl
  have hsome : ((members.map fun e => (e.2.id, c)).lookup e.2.id).isSome = true :=
    List.lookup_isSome_iff.2 ⟨_, List.mem_map_of_mem he, beq_self_eq_true _⟩
  obtain ⟨d, hd⟩ := Option.isSome_iff_exists.1 hsome
  obtain ⟨pre, post, hsplit, -⟩ := List.lookup_eq_some_iff.1 hd
  have hdc : d = c := hall (e.2.id, d) (hsplit ▸ List.mem_append_right _ (List.mem_cons_self ..))
  unfold declare
  rw [List.lookup_append, hd, hdc]
  rfl

theorem lookup_declare_of_ne (hi : ∀ e ∈ members, i ≠ e.2.id) (c : Class) :
    (ρ.declare members c).declared.lookup i = ρ.declared.lookup i := by
  have hnone : (members.map fun e => (e.2.id, c)).lookup i = none := by
    refine List.lookup_eq_none_iff.2 fun q hq => ?_
    obtain ⟨e, he, rfl⟩ := List.mem_map.1 hq
    exact bne_iff_ne.2 (hi e he)
  unfold declare
  rw [List.lookup_append, hnone]
  rfl

end Origins

namespace Class

def Every (P : Function → Prop) : Class → Prop
  | .mk _ _ none methods statics => (∀ m ∈ methods, P m.2) ∧ ∀ m ∈ statics, P m.2
  | .mk _ _ (some sup) methods statics =>
    sup.Every P ∧ (∀ m ∈ methods, P m.2) ∧ ∀ m ∈ statics, P m.2

namespace Every

variable {P P' : Function → Prop} {c : Class} {name : Text} {f : Function}

private theorem imp (h : ∀ f, P f → P' f) (hc : c.Every P) : c.Every P' := by
  fun_induction Every P c with
  | case1 i n ms ss => exact ⟨fun m hm => h _ (hc.1 m hm), fun m hm => h _ (hc.2 m hm)⟩
  | case2 i n sup ms ss ih =>
    exact ⟨ih hc.1, fun m hm => h _ (hc.2.1 m hm), fun m hm => h _ (hc.2.2 m hm)⟩

theorem lookup {table : List (Text × Function)} (ht : ∀ m ∈ table, P m.2)
    (hf : table.lookup name = some f) : P f := by
  obtain ⟨pre, post, rfl, -⟩ := List.lookup_eq_some_iff.1 hf
  exact ht (name, f) (List.mem_append_right _ (List.mem_cons_self ..))

private theorem nearest {ofClass : Bool} (hf : Nearest ofClass name c f) (hc : c.Every P) :
    P f := by
  induction hf with
  | @own c f hown =>
    obtain ⟨i, n, sup, ms, ss⟩ := c
    cases sup <;> cases ofClass
    · exact lookup hc.1 hown
    · exact lookup hc.2 hown
    · exact lookup hc.2.1 hown
    · exact lookup hc.2.2 hown
  | @inherited c sup f _ hsup _ ih =>
    obtain ⟨i, n, sup', ms, ss⟩ := c
    cases hsup
    exact ih hc.1

end Every

/-! ### The nearest method -/

def find (ofClass : Bool) (name : Text) (c : Class) : Option Function :=
  if ofClass then c.findStatic name else c.findMethod name

theorem find_eq (ofClass : Bool) (name : Text) (c : Class) :
    c.find ofClass name =
      ((c.own ofClass).lookup name).or (c.superclass.bind (Class.find ofClass name)) := by
  obtain ⟨i, n, sup, ms, ss⟩ := c
  cases sup <;> cases ofClass <;> simp [find, findMethod, findStatic, own, superclass]

private theorem nearest_of_find {ofClass : Bool} {name : Text} {f : Function} {c : Class}
    (h : c.find ofClass name = some f) : Nearest ofClass name c f := by
  fun_induction Class.findMethod name c with
  | case1 i n ms ss =>
    rw [find_eq, Option.or_eq_some_iff] at h
    rcases h with hown | ⟨-, hup⟩
    · exact .own hown
    · cases hup
  | case2 i n sup ms ss ih =>
    rw [find_eq, Option.or_eq_some_iff] at h
    rcases h with hown | ⟨hnone, hup⟩
    · exact .own hown
    · exact .inherited hnone rfl (ih hup)

theorem find_eq_some_iff {ofClass : Bool} {name : Text} {f : Function} {c : Class} :
    c.find ofClass name = some f ↔ Nearest ofClass name c f := by
  refine ⟨nearest_of_find, fun h => ?_⟩
  induction h with
  | own hown => rw [find_eq, hown, Option.some_or]
  | inherited hnone hsup _ ih => rw [find_eq, hnone, hsup, Option.none_or]; exact ih

theorem Every.find {P : Function → Prop} {c : Class} (hc : c.Every P) (ofClass : Bool) {name : Text}
    {f : Function} (hf : c.find ofClass name = some f) : P f :=
  Every.nearest (nearest_of_find hf) hc

end Class

/-- All functions in a value are of some kind, and all methods in it of another. -/
def Value.Every (P Q : Function → Prop) : Value → Prop
  | .function f => P f
  | .method _ f receiver => Q f ∧ receiver.Every P Q
  | .cls c | .object _ c => c.Every Q
  | _ => True

namespace Value.Every

variable {P P' Q Q' : Function → Prop}

theorem imp (hP : ∀ f, P f → P' f) (hQ : ∀ f, Q f → Q' f) {v : Value} (hv : v.Every P Q) :
    v.Every P' Q' := by
  induction v with
  | function f => exact hP f hv
  | method i f receiver ih => exact ⟨hQ f hv.1, ih hv.2⟩
  | cls c => exact Class.Every.imp hQ hv
  | object i c => exact Class.Every.imp hQ hv
  | _ => trivial

end Value.Every

theorem Known.every {P Q : Function → Prop} {given : List Value} {v : Value} (hv : Known given v)
    (hgiven : ∀ w ∈ given, w.Every P Q) : v.Every P Q := by
  induction hv with
  | given hmem => exact hgiven _ hmem
  | nil | absent | bool | number | string | native => trivial
  | classOf _ ih => exact ih
  | superclass _ ih => exact ih.1
  | receiver _ ih => exact ih.2
  | object _ _ ih => exact ih
  | method _ _ hf _ ihc ihv => exact ⟨Class.Every.find ihc false hf, ihv⟩
  | static _ _ hf _ ihc ihv => exact ⟨Class.Every.find ihc true hf, ihv⟩

/-- A value all of whose functions know their activation, and all of whose methods know the class
that declared them. -/
def Value.Rooted (ρ : Origins) (h : Heap) : Value → Prop :=
  Value.Every (Function.Closes ρ h) (Function.Belongs ρ h)

/-! ### What later steps keep -/

/-- Later origins and a later heap: functions that were there keep their activation, classes that
have declared methods keep them, and `this` and `super` stay bound. -/
structure Later (ρ : Origins) (h : Heap) (ρ' : Origins) (h' : Heap) : Prop where
  fixes : h.Fixes h'
  fresh : h.fresh ≤ h'.fresh
  made : ∀ i < h.fresh, ρ'.made.lookup i = ρ.made.lookup i
  declared : ∀ i < h.fresh, ρ'.declared.lookup i = ρ.declared.lookup i

namespace Later

variable {ρ ρ' ρ'' : Origins} {h h' h'' : Heap}

theorem refl (ρ : Origins) (h : Heap) : Later ρ h ρ h :=
  ⟨.refl h, Nat.le_refl _, fun _ _ => rfl, fun _ _ => rfl⟩

theorem trans (a : Later ρ h ρ' h') (b : Later ρ' h' ρ'' h'') : Later ρ h ρ'' h'' where
  fixes := a.fixes.trans b.fixes
  fresh := Nat.le_trans a.fresh b.fresh
  made i hi := (b.made i (Nat.lt_of_lt_of_le hi a.fresh)).trans (a.made i hi)
  declared i hi := (b.declared i (Nat.lt_of_lt_of_le hi a.fresh)).trans (a.declared i hi)

theorem of_heap (hfixes : h.Fixes h') (hfresh : h.fresh ≤ h'.fresh) : Later ρ h ρ h' :=
  ⟨hfixes, hfresh, fun _ _ => rfl, fun _ _ => rfl⟩

end Later

section Mono

variable {ρ ρ' : Origins} {h h' : Heap} (hlater : Later ρ h ρ' h')
include hlater

private theorem Function.Closes.mono {f : Function} (hf : f.Closes ρ h) : f.Closes ρ' h' := by
  obtain ⟨r, hosts, hbody⟩ := hf.body
  have hhome : ρ'.home f = ρ.home f := congrArg (·.getD none) (hlater.made f.id hf.counted)
  refine ⟨Nat.lt_of_lt_of_le hf.counted hlater.fresh, r, ?_, hbody⟩
  rw [hhome]
  exact hosts.mono hlater.fixes

omit hlater in
theorem Function.DeclaredBy.mono (hfixes : h.Fixes h') {f : Function} {c : Class}
    (hf : f.DeclaredBy h c) : f.DeclaredBy h' c :=
  ⟨hf.own, fun sup hsup => hfixes.getAt not_ordinary_super (hf.super sup hsup),
    hf.initializer, hf.body⟩

theorem Function.Belongs.mono {f : Function} (hf : f.Belongs ρ h) : f.Belongs ρ' h' := by
  obtain ⟨c, hc, hdeclared⟩ := hf.declared
  exact ⟨Nat.lt_of_lt_of_le hf.counted hlater.fresh, c, (hlater.declared f.id hf.counted).trans hc,
    hdeclared.mono hlater.fixes⟩

theorem Value.Rooted.mono {v : Value} (hv : v.Rooted ρ h) : v.Rooted ρ' h' :=
  Value.Every.imp (fun _ hf => hf.mono hlater) (fun _ hf => hf.mono hlater) hv

end Mono

theorem Heap.All.imp {P Q : Value → Prop} {h : Heap} (hh : h.All P) (himp : ∀ v, P v → Q v) :
    h.All Q := ⟨fun hv => himp _ (hh.bindings hv), fun hv => himp _ (hh.field hv)⟩

/-- What holds of the record and the heap throughout a run: all values are rooted, and what was seen
was right. -/
structure Upheld (ρ : Record) (h : Heap) : Prop where
  rooted : h.All (Value.Rooted ρ.origins h)
  right : ∀ s ∈ ρ.seen, s.Right

end Lox

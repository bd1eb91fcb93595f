import Lox.Proofs.Scope.Scoped
import Lox.Value.Heap

set_option autoImplicit false
set_option relaxedAutoImplicit false

namespace Lox

open Text (lit)
open Layers

namespace Bindings

theorem lookup_cons_ne {n k : Text} (h : n ≠ k) (w : Value) (bs : Bindings) :
    List.lookup n ((k, w) :: bs) = bs.lookup n := by
  have hbeq : (n == k) = false := by simpa using h
  rw [List.lookup_cons, hbeq]

theorem lookup_bind (bs : Bindings) (name n : Text) (v : Value) :
    (Bindings.bind bs name v).lookup n = if n = name then some v else bs.lookup n := by
  induction bs with
  | nil =>
    rw [Bindings.bind]
    split
    · rename_i h
      rw [h, List.lookup_cons_self]
    · rename_i h
      rw [lookup_cons_ne h]
  | cons b bs ih =>
    obtain ⟨k, w⟩ := b
    rw [Bindings.bind]
    by_cases hk : k = name
    · subst hk
      rw [if_pos rfl]
      split
      · rename_i h
        rw [h, List.lookup_cons_self]
      · rename_i h
        rw [lookup_cons_ne h, lookup_cons_ne h]
    · rw [if_neg hk]
      by_cases hn : n = k
      · subst hn
        rw [if_neg hk, List.lookup_cons_self, List.lookup_cons_self]
      · rw [lookup_cons_ne hn, lookup_cons_ne hn, ih]

theorem lookup_bind_isSome {bs : Bindings} {n : Text}
    (h : (bs.lookup n).isSome = true) (name : Text)
    (v : Value) : ((Bindings.bind bs name v).lookup n).isSome = true := by
  rw [lookup_bind]
  split
  · rfl
  · exact h

end Bindings

/-- A frame binds the names of a layer, and if `super` is one of them, to a class. -/
def Layer.HeldBy (l : Layer) (bs : Bindings) : Prop :=
  (∀ n, l n → (bs.lookup n).isSome = true) ∧
    (l (lit "super") → ∃ c, bs.lookup (lit "super") = some (.cls c))

theorem Layer.heldBy_single {name : Text} {v : Value}
    (hsuper : name = lit "super" → ∃ c, v = .cls c) : (Layer.single name).HeldBy [(name, v)] := by
  refine ⟨?_, fun hname => ?_⟩
  · rintro n rfl
    rw [List.lookup_cons_self]
    rfl
  · obtain ⟨c, rfl⟩ := hsuper hname.symm
    exact ⟨c, by rw [hname, List.lookup_cons_self]⟩

/-- A frame and the frames around it bind the names of layers; the last one is the global frame. -/
def Heap.Fits (h : Heap) : FrameId → Layers → Prop
  | e, [] => e = Heap.globals
  | e, l :: ls => ∃ p bs, h.frames[e]? = some { parent := some p, bindings := bs } ∧ l.HeldBy bs ∧
      h.Fits p ls

/-- The code of a function is scoped where it stands: inside some layers of its own, inside layers
that its frame fits. -/
def Function.Fits (f : Function) (h : Heap) (own : Layers) : Prop :=
  ∃ ls, h.Fits f.closure ls ∧ (∀ p ∈ f.params, p.name ≠ lit "super") ∧
    Stmt.ScopedAll (.ofParams f.params :: (own ++ ls)) .inFunction f.body

def receiverLayers : Layers := [.single (lit "this")]

def Class.Sound (h : Heap) : Class → Prop
  | .mk _ _ none ms ss =>
    (∀ m ∈ ms, m.2.Fits h receiverLayers) ∧ ∀ m ∈ ss, m.2.Fits h receiverLayers
  | .mk _ _ (some sup) ms ss =>
    sup.Sound h ∧ (∀ m ∈ ms, m.2.Fits h receiverLayers) ∧ ∀ m ∈ ss, m.2.Fits h receiverLayers

def Value.Sound (h : Heap) : Value → Prop
  | .function f => f.isInit = false ∧ f.Fits h []
  | .method _ f receiver => f.Fits h receiverLayers ∧ receiver.Sound h
  | .cls c => c.Sound h
  | .object _ c => c.Sound h
  | _ => True

namespace Heap

structure Sound (h : Heap) : Prop where
  globals : ∃ bs, h.frames[Heap.globals]? = some { parent := none, bindings := bs }
  frames : ∀ (e : FrameId) (f : Frame) (n : Text) (v : Value), h.frames[e]? = some f →
    f.bindings.lookup n = some v → v.Sound h
  objects : ∀ (i : Nat) (fields : Bindings) (n : Text) (v : Value), h.objects[i]? = some fields →
    fields.lookup n = some v → v.Sound h

/-- Every frame is still there, in its place, with at least the names that it had. -/
def Extends (h h' : Heap) : Prop :=
  ∀ (e : FrameId) (f : Frame), h.frames[e]? = some f →
    ∃ f' : Frame, h'.frames[e]? = some f' ∧ f'.parent = f.parent ∧
      ∀ l : Layer, l.HeldBy f.bindings → l.HeldBy f'.bindings

theorem Extends.refl (h : Heap) : h.Extends h := fun _ f hf => ⟨f, hf, rfl, fun _ => id⟩

theorem Extends.trans {h h' h'' : Heap} (a : h.Extends h') (b : h'.Extends h'') :
    h.Extends h'' := by
  intro e f hf
  obtain ⟨f', hf', hp', hl'⟩ := a e f hf
  obtain ⟨f'', hf'', hp'', hl''⟩ := b e f' hf'
  exact ⟨f'', hf'', hp''.trans hp', fun l hl => hl'' l (hl' l hl)⟩

theorem Extends.of_frames {h h' : Heap} (hframes : h'.frames = h.frames) : h.Extends h' := by
  intro e f hf
  exact ⟨f, hframes ▸ hf, rfl, fun _ => id⟩

theorem Fits.mono {h h' : Heap} (hx : h.Extends h') {e : FrameId} {ls : Layers} (hf : h.Fits e ls) :
    h'.Fits e ls := by
  induction ls generalizing e with
  | nil => exact hf
  | cons l ls ih =>
    obtain ⟨p, bs, hframe, hheld, hrest⟩ := hf
    obtain ⟨⟨p', bs'⟩, hframe', hp, hl⟩ := hx e _ hframe
    cases hp
    exact ⟨p, bs', hframe', hl l hheld, ih hrest⟩

end Heap

theorem Function.Fits.mono {h h' : Heap} (hx : h.Extends h') {f : Function} {own : Layers}
    (hf : f.Fits h own) : f.Fits h' own := by
  obtain ⟨ls, hfits, hbody⟩ := hf
  exact ⟨ls, hfits.mono hx, hbody⟩

theorem Class.Sound.mono {h h' : Heap} (hx : h.Extends h') {c : Class} (hc : c.Sound h) :
    c.Sound h' := by
  fun_induction Class.Sound h c with
  | case1 i n ms ss => exact ⟨fun m hm => (hc.1 m hm).mono hx, fun m hm => (hc.2 m hm).mono hx⟩
  | case2 i n sup ms ss ih =>
    exact ⟨ih hc.1, fun m hm => (hc.2.1 m hm).mono hx, fun m hm => (hc.2.2 m hm).mono hx⟩

namespace Class.Sound

variable {h : Heap} {c : Class} {name : Text} {f : Function}

private theorem lookup {table : List (Text × Function)}
    (ht : ∀ m ∈ table, m.2.Fits h receiverLayers)
    (hf : table.lookup name = some f) : f.Fits h receiverLayers := by
  obtain ⟨pre, post, rfl, -⟩ := List.lookup_eq_some_iff.1 hf
  exact ht (name, f) (List.mem_append_right _ (List.mem_cons_self ..))

theorem findMethod (hc : c.Sound h) (hf : c.findMethod name = some f) :
    f.Fits h receiverLayers := by
  fun_induction Class.Sound h c with
  | case1 i n ms ss => exact lookup hc.1 hf
  | case2 i n sup ms ss ih =>
    rw [Class.findMethod, Option.or_eq_some_iff] at hf
    rcases hf with hown | ⟨-, hup⟩
    · exact lookup hc.2.1 hown
    · exact ih hc.1 hup

theorem findStatic (hc : c.Sound h) (hf : c.findStatic name = some f) :
    f.Fits h receiverLayers := by
  fun_induction Class.Sound h c with
  | case1 i n ms ss => exact lookup hc.2 hf
  | case2 i n sup ms ss ih =>
    rw [Class.findStatic, Option.or_eq_some_iff] at hf
    rcases hf with hown | ⟨-, hup⟩
    · exact lookup hc.2.2 hown
    · exact ih hc.1 hup

end Class.Sound

theorem Value.Sound.mono {h h' : Heap} (hx : h.Extends h') {v : Value} (hv : v.Sound h) :
    v.Sound h' := by
  induction v with
  | function f => exact ⟨hv.1, hv.2.mono hx⟩
  | method i f receiver ih => exact ⟨hv.1.mono hx, ih hv.2⟩
  | cls c => exact Class.Sound.mono hx hv
  | object i c => exact Class.Sound.mono hx hv
  | _ => trivial

theorem Bindings.all_nil {P : Value → Prop} :
    ∀ n v, List.lookup n ([] : Bindings) = some v → P v := by
  rintro _ _ ⟨⟩

theorem Bindings.foldl_all {α : Type} {P : Value → Prop} {step : Bindings → α → Bindings}
    (name : α → Text) (value : α → Value)
    (hstep : ∀ a bs, step bs a = Bindings.bind bs (name a) (value a))
    {as : List α} (has : ∀ a ∈ as, P (value a)) {bs : Bindings}
    (hbs : ∀ n v, bs.lookup n = some v → P v) :
    ∀ n v, (as.foldl step bs).lookup n = some v → P v := by
  induction as generalizing bs with
  | nil => exact hbs
  | cons a r ih =>
    refine ih (fun a' ha' => has a' (List.mem_cons_of_mem _ ha')) fun n v hv => ?_
    rw [hstep, Bindings.lookup_bind] at hv
    split at hv
    · cases hv
      exact has a (List.mem_cons_self ..)
    · exact hbs n v hv

namespace Heap

structure Grows (h h' : Heap) : Prop where
  sound : h'.Sound
  larger : h.Extends h'

theorem Grows.refl {h : Heap} (hs : h.Sound) : h.Grows h := ⟨hs, .refl h⟩

theorem Grows.trans {h h' h'' : Heap} (a : h.Grows h') (b : h'.Grows h'') : h.Grows h'' :=
  ⟨b.sound, a.larger.trans b.larger⟩

/-- Values that were sound stay so, and so a larger heap is sound if the new values in it are. -/
theorem Sound.grow {h h' : Heap} (hs : h.Sound) (hx : h.Extends h')
    (hframes : ∀ (e : FrameId) (f : Frame) (n : Text) (v : Value), h'.frames[e]? = some f →
      f.bindings.lookup n = some v →
      v.Sound h' ∨ ∃ f', h.frames[e]? = some f' ∧ f'.bindings.lookup n = some v)
    (hobjects : ∀ (i : Nat) (fields : Bindings) (n : Text) (v : Value),
    h'.objects[i]? = some fields →
      fields.lookup n = some v →
      v.Sound h' ∨ ∃ fields', h.objects[i]? = some fields' ∧ fields'.lookup n = some v) :
    h.Grows h' := by
  refine ⟨⟨?_, ?_, ?_⟩, hx⟩
  · obtain ⟨bs, hglobals⟩ := hs.globals
    obtain ⟨⟨p, bs'⟩, hframe, hp, -⟩ := hx _ _ hglobals
    cases hp
    exact ⟨bs', hframe⟩
  · intro e f n v hf hv
    rcases hframes e f n v hf hv with hsound | ⟨f', hf', hv'⟩
    · exact hsound
    · exact (hs.frames e f' n v hf' hv').mono hx
  · intro i fields n v hi hv
    rcases hobjects i fields n v hi hv with hsound | ⟨fields', hi', hv'⟩
    · exact hsound
    · exact (hs.objects i fields' n v hi' hv').mono hx

variable {h : Heap}

theorem getElem?_define (h : Heap) (e e' : FrameId) (name : Text) (v : Value) :
    (h.define e name v).frames[e']? = if e = e' then h.frames[e']?.map
      (fun f => { f with bindings := Bindings.bind f.bindings name v }) else h.frames[e']? := by
  rw [define, Array.getElem?_modify]

theorem extends_define (h : Heap) (e : FrameId) {name : Text} (hname : name ≠ lit "super")
    (v : Value) : h.Extends (h.define e name v) := by
  intro e' f hf
  rw [getElem?_define, hf]
  split
  · refine ⟨_, rfl, rfl, fun l hl => ⟨fun n hn => ?_, fun hsuper => ?_⟩⟩
    · exact Bindings.lookup_bind_isSome (hl.1 n hn) name v
    · obtain ⟨c, hc⟩ := hl.2 hsuper
      exact ⟨c, by rw [Bindings.lookup_bind, if_neg hname.symm, hc]⟩
  · exact ⟨f, rfl, rfl, fun _ => id⟩

theorem Sound.define_after (hs : h.Sound) (e : FrameId) {name : Text} (hname : name ≠ lit "super")
    {v : Value} (hv : v.Sound (h.define e name v)) : h.Grows (h.define e name v) := by
  have hx := extends_define h e hname v
  refine hs.grow hx (fun e' f n w hf hw => ?_) fun i fields n w hi hw => .inr ⟨fields, hi, hw⟩
  rw [getElem?_define] at hf
  split at hf
  · obtain ⟨f', hf', rfl⟩ := Option.map_eq_some_iff.1 hf
    simp only [Bindings.lookup_bind] at hw
    split at hw
    · cases hw
      exact .inl hv
    · exact .inr ⟨f', hf', hw⟩
  · exact .inr ⟨f, hf, hw⟩

theorem Sound.define (hs : h.Sound) (e : FrameId) {name : Text} (hname : name ≠ lit "super")
    {v : Value} (hv : v.Sound h) : h.Grows (h.define e name v) :=
  hs.define_after e hname (hv.mono (extends_define h e hname v))

theorem Fits.define {e : FrameId} {ls : Layers} (hf : h.Fits e ls) {name : Text}
    (hname : name ≠ lit "super") (v : Value) :
    (h.define e name v).Fits e (Layers.declare name ls) := by
  have hx := extends_define h e hname v
  cases ls with
  | nil => exact hf
  | cons l ls =>
    obtain ⟨p, bs, hframe, hheld, hrest⟩ := hf
    refine ⟨p, Bindings.bind bs name v, ?_, ⟨fun n hn => ?_, fun hsuper => ?_⟩, hrest.mono hx⟩
    · rw [getElem?_define, if_pos rfl, hframe]
      rfl
    · rcases hn with rfl | hn
      · rw [Bindings.lookup_bind, if_pos rfl]
        rfl
      · exact Bindings.lookup_bind_isSome (hheld.1 n hn) name v
    · obtain ⟨c, hc⟩ := hheld.2 (hsuper.resolve_left hname.symm)
      exact ⟨c, by rw [Bindings.lookup_bind, if_neg hname.symm, hc]⟩

theorem Sound.declare (hs : h.Sound) (e : FrameId) {name : Text} (hname : name ≠ lit "super") :
    h.Grows (h.declare e name) := by
  unfold Heap.declare
  split
  · exact .refl hs
  · exact hs.define e hname trivial

theorem Fits.declare {e : FrameId} {ls : Layers} (hf : h.Fits e ls) {name : Text}
    (hname : name ≠ lit "super") : (h.declare e name).Fits e (Layers.declare name ls) := by
  unfold Heap.declare
  split
  · rename_i hbound
    cases ls with
    | nil => exact hf
    | cons l ls =>
      obtain ⟨p, bs, hframe, hheld, hrest⟩ := hf
      refine ⟨p, bs, hframe, ⟨fun n hn => ?_, fun hsuper => ?_⟩, hrest⟩
      · rcases hn with rfl | hn
        · simpa only [Heap.bindings, hframe] using hbound
        · exact hheld.1 n hn
      · exact hheld.2 (hsuper.resolve_left hname.symm)
  · exact hf.define hname .nil

theorem Fits.ne_globals {e : FrameId} {l : Layer} {ls : Layers} (hs : h.Sound)
    (hf : h.Fits e (l :: ls)) : e ≠ Heap.globals := by
  obtain ⟨bs, hglobals⟩ := hs.globals
  obtain ⟨p, bs', hframe, -⟩ := hf
  intro he
  rw [he, hglobals] at hframe
  cases hframe

theorem extends_child (h : Heap) (p : FrameId) (bs : Bindings) : h.Extends (h.child p bs).2 := by
  intro e f hf
  have hlt : e ≠ h.frames.size := by
    intro he
    rw [he, Array.getElem?_size] at hf
    cases hf
  exact ⟨f, by rw [child, Array.getElem?_push, if_neg hlt, hf], rfl, fun _ => id⟩

theorem Sound.child (hs : h.Sound) (p : FrameId) {bs : Bindings}
    (hbs : ∀ n v, bs.lookup n = some v → v.Sound h) : h.Grows (h.child p bs).2 := by
  have hx := extends_child h p bs
  refine hs.grow hx (fun e f n v hf hv => ?_) fun i fields n v hi hv => .inr ⟨fields, hi, hv⟩
  simp only [Heap.child, Array.getElem?_push] at hf
  split at hf
  · cases hf
    exact .inl ((hbs n v hv).mono hx)
  · exact .inr ⟨f, hf, hv⟩

theorem Fits.child {p : FrameId} {ls : Layers} (hf : h.Fits p ls) {l : Layer} {bs : Bindings}
    (hl : l.HeldBy bs) : (h.child p bs).2.Fits (h.child p bs).1 (l :: ls) :=
  ⟨p, bs, Array.getElem?_push_size, hl, hf.mono (extends_child h p bs)⟩

theorem Sound.freshId (hs : h.Sound) : h.Grows h.freshId.2 :=
  hs.grow (.of_frames rfl) (fun _ f _ _ hf hv => .inr ⟨f, hf, hv⟩)
    fun _ fields _ _ hi hv => .inr ⟨fields, hi, hv⟩

theorem Sound.newObject (hs : h.Sound) : h.Grows h.newObject.2 := by
  refine hs.grow (.of_frames rfl) (fun _ f _ _ hf hv => .inr ⟨f, hf, hv⟩)
    fun i fields n v hi hv => ?_
  simp only [Heap.newObject, Array.getElem?_push] at hi
  split at hi
  · cases hi
    cases hv
  · exact .inr ⟨fields, hi, hv⟩

theorem Sound.setField (hs : h.Sound) (i : Nat) (name : Text) {v : Value} (hv : v.Sound h) :
    h.Grows (h.setField i name v) := by
  have hx : h.Extends (h.setField i name v) := .of_frames rfl
  refine hs.grow hx (fun _ f _ _ hf hv => .inr ⟨f, hf, hv⟩) fun j fields n w hj hw => ?_
  simp only [Heap.setField, Array.getElem?_modify] at hj
  split at hj
  · obtain ⟨fields', hj', rfl⟩ := Option.map_eq_some_iff.1 hj
    rw [Bindings.lookup_bind] at hw
    split at hw
    · cases hw
      exact .inl (hv.mono hx)
    · exact .inr ⟨fields', hj', hw⟩
  · exact .inr ⟨fields, hj, hw⟩

theorem Fits.ancestor {e : FrameId} {ls : Layers} (hf : h.Fits e ls) {d : Nat} {l : Layer}
    (hl : ls[d]? = some l) : ∃ a, h.ancestor? d e = some a ∧ l.HeldBy (h.bindings a) := by
  induction d generalizing e ls with
  | zero =>
    cases ls with
    | nil => cases hl
    | cons l' ls =>
      cases hl
      obtain ⟨p, bs, hframe, hheld, -⟩ := hf
      exact ⟨e, rfl, by rw [bindings, hframe]; exact hheld⟩
  | succ d ih =>
    cases ls with
    | nil => cases hl
    | cons l' ls =>
      obtain ⟨p, bs, hframe, -, hrest⟩ := hf
      obtain ⟨a, ha, hheld⟩ := ih hrest hl
      exact ⟨a, by rw [ancestor?, hframe]; exact ha, hheld⟩

theorem Sound.bindings (hs : h.Sound) {e : FrameId} {n : Text} {v : Value}
    (hv : (h.bindings e).lookup n = some v) : v.Sound h := by
  unfold Heap.bindings at hv
  split at hv
  · rename_i f hf
    exact hs.frames e f n v hf hv
  · cases hv

theorem Sound.field (hs : h.Sound) {i : Nat} {n : Text} {v : Value}
    (hv : h.field? i n = some v) : v.Sound h := by
  unfold Heap.field? at hv
  split at hv
  · rename_i fields hfields
    exact hs.objects i fields n v hfields hv
  · cases hv

end Heap
end Lox

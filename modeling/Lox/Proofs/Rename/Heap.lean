import Lox.Proofs.Rename.Relation
import Lox.Proofs.Run.Blind
import Lox.Proofs.Run.Safe

set_option autoImplicit false
set_option relaxedAutoImplicit false

namespace Lox

open Text (lit)
open Layers

/-- Which frames are instances of renamed scopes, and the heap of the program. -/
structure World where
  instances : List Bool
  heap : Heap

namespace World

def Marks (W : World) : FrameId → List Bool → Prop
  | e, [] => e = Heap.globals
  | e, b :: marks => W.instances[e]? = some b ∧
      ∃ p bs, W.heap.frames[e]? = some { parent := some p, bindings := bs } ∧ W.Marks p marks

structure At (W : World) (e : FrameId) (ls : Layers) (marks : List Bool) : Prop where
  fits : W.heap.Fits e ls
  marks : W.Marks e marks

structure Grows (W W' : World) : Prop where
  instances : W.instances <+: W'.instances
  heap : W.heap.Extends W'.heap

theorem Grows.refl (W : World) : W.Grows W := ⟨List.prefix_rfl, .refl _⟩

theorem Grows.trans {W W' W'' : World} (h : W.Grows W') (h' : W'.Grows W'') : W.Grows W'' :=
  ⟨h.instances.trans h'.instances, h.heap.trans h'.heap⟩

private theorem Grows.instance {W W' : World} (h : W.Grows W') {e : FrameId} {b : Bool}
    (hb : W.instances[e]? = some b) : W'.instances[e]? = some b := by
  obtain ⟨more, hmore⟩ := h.instances
  rw [← hmore, List.getElem?_append_left (List.getElem?_eq_some_iff.1 hb).1, hb]

theorem Marks.mono {W W' : World} (hW : W.Grows W') {e : FrameId} {marks : List Bool}
    (h : W.Marks e marks) : W'.Marks e marks := by
  induction marks generalizing e with
  | nil => exact h
  | cons b marks ih =>
    obtain ⟨hb, p, bs, hframe, hrest⟩ := h
    obtain ⟨⟨p', bs'⟩, hframe', hp, -⟩ := hW.heap e _ hframe
    cases hp
    exact ⟨hW.instance hb, p, bs', hframe', ih hrest⟩

theorem At.mono {W W' : World} (hW : W.Grows W') {e : FrameId} {ls : Layers} {marks : List Bool}
    (h : W.At e ls marks) : W'.At e ls marks :=
  ⟨h.fits.mono hW.heap, h.marks.mono hW⟩

end World

/-- A function and its renamed form. Its code is scoped where it stands: inside some layers of its
own, none of them renamed, inside those of its frame. -/
structure Function.Renamed (r : Renaming) (W : World) (own : Layers) (f f' : Function) : Prop where
  outline : f.SameOutline f'
  code : ∃ ls marks here, W.At f.closure ls marks ∧ (∀ p ∈ f.params, p.name ≠ lit "super") ∧
    Stmt.ScopedAll (.ofParams f.params :: (own ++ ls)) .inFunction f.body ∧
    (∀ p ∈ f.params, r.Allows (here :: (own.map (fun _ => false) ++ marks)) p.name) ∧
    f'.params = f.params.map (r.param here) ∧
    Stmt.RenamedAll r (here :: (own.map (fun _ => false) ++ marks)) f.body f'.body

private theorem Function.Renamed.mono {r : Renaming} {W W' : World} (hW : W.Grows W') {own : Layers}
    {f f' : Function} (h : f.Renamed r W own f') : f.Renamed r W' own f' := by
  obtain ⟨ls, marks, here, hat, hcode⟩ := h.code
  exact ⟨h.outline, ls, marks, here, hat.mono hW, hcode⟩

/-- Functions are alike if one is the renamed form of the other. Only a method can be an
initializer. -/
def World.likeness (W : World) (r : Renaming) : Likeness where
  plain f f' := f.isInit = false ∧ f.Renamed r W [] f'
  member f f' := f.Renamed r W receiverLayers f'
  plain_outline h := h.2.outline
  member_outline h := h.outline

theorem World.Grows.within {r : Renaming} {W W' : World} (hW : W.Grows W') :
    (W.likeness r).Within (W'.likeness r) where
  plain h := ⟨h.1, h.2.mono hW⟩
  member h := h.mono hW

namespace Bindings

private theorem map_fst_bind (bs : Bindings) (name : Text) (v : Value) :
    (Bindings.bind bs name v).map Prod.fst =
      if name ∈ bs.map Prod.fst then bs.map Prod.fst else bs.map Prod.fst ++ [name] := by
  induction bs with
  | nil => rfl
  | cons b bs ih =>
    obtain ⟨k, w⟩ := b
    rw [Bindings.bind]
    by_cases hk : k = name
    · rw [if_pos hk, ← hk, if_pos (by simp)]
      rfl
    · have hmem : name ∈ ((k, w) :: bs).map Prod.fst ↔ name ∈ bs.map Prod.fst := by
        simp [Ne.symm hk]
      rw [if_neg hk, List.map_cons, ih]
      by_cases hname : name ∈ bs.map Prod.fst
      · rw [if_pos hname, if_pos (hmem.2 hname)]
        rfl
      · rw [if_neg hname, if_neg (mt hmem.1 hname)]
        rfl

structure Renamed (r : Renaming) (L : Likeness) (here : Bool) (bs bs' : Bindings) : Prop where
  names : bs'.map Prod.fst = (bs.map Prod.fst).map (r.apply here)
  fresh : here = true → r.new ∉ bs.map Prod.fst
  values : ∀ n, (here = true → n ≠ r.new) →
    Option.Rel (Value.Alike L) (bs.lookup n) (bs'.lookup (r.apply here n))

namespace Renamed

variable {r : Renaming} {L L' : Likeness} {here : Bool} {bs bs' : Bindings}

theorem nil : Renamed r L here [] [] := ⟨rfl, fun _ => List.not_mem_nil, fun _ _ => .none⟩

private theorem mono (hL : L.Within L') (h : Renamed r L here bs bs') : Renamed r L' here bs bs' :=
  ⟨h.names, h.fresh, fun n hn => Value.Alike.rel_mono hL (h.values n hn)⟩

theorem bind (h : Renamed r L here bs bs') {name : Text} (hname : here = true → name ≠ r.new)
    {v v' : Value} (hv : Value.Alike L v v') :
    Renamed r L here (Bindings.bind bs name v) (Bindings.bind bs' (r.apply here name) v') := by
  refine ⟨?_, fun hhere => ?_, fun n hn => ?_⟩
  · rw [map_fst_bind, map_fst_bind, h.names, apply_ite (List.map (r.apply here)), List.map_append]
    exact if_congr (r.mem_map_apply hname h.fresh) rfl rfl
  · rw [map_fst_bind]
    split
    · exact h.fresh hhere
    · rw [List.mem_append, List.mem_singleton]
      exact fun hmem => hmem.elim (h.fresh hhere) fun heq => hname hhere heq.symm
  · rw [lookup_bind, lookup_bind]
    by_cases heq : n = name
    · rw [if_pos heq, if_pos (congrArg _ heq)]
      exact .some hv
    · rw [if_neg heq, if_neg (mt (r.apply_inj hn hname).1 heq)]
      exact h.values n hn

theorem single {name : Text} {v v' : Value} (hv : Value.Alike L v v') :
    Renamed r L false [(name, v)] [(name, v')] := by
  have hnil : Renamed r L false [] [] := nil
  have hname : false = true → name ≠ r.new := nofun
  have hbind := hnil.bind hname hv
  rwa [r.apply_false] at hbind

theorem keyword (h : Renamed r L here bs bs') (k : Keyword) :
    Option.Rel (Value.Alike L) (bs.lookup k.spelling) (bs'.lookup k.spelling) := by
  have hvalues := h.values k.spelling fun _ => (r.ne_keyword k).2.symm
  rwa [r.apply_keyword] at hvalues

end Renamed
end Bindings

structure World.Twin (r : Renaming) (W : World) (h : Heap) : Prop where
  globals : ∃ bs, W.heap.frames[Heap.globals]? = some { parent := none, bindings := bs }
  unmarked : W.instances[Heap.globals]? = some false
  count : W.instances.length = W.heap.frames.size
  size : h.frames.size = W.heap.frames.size
  frames : ∀ (e : FrameId) (f : Frame) (b : Bool), W.heap.frames[e]? = some f →
    W.instances[e]? = some b → ∃ f', h.frames[e]? = some f' ∧ f'.parent = f.parent ∧
      Bindings.Renamed r (W.likeness r) b f.bindings f'.bindings
  objectCount : h.objects.size = W.heap.objects.size
  objects : ∀ (i : Nat) (fields : Bindings), W.heap.objects[i]? = some fields →
    ∃ fields', h.objects[i]? = some fields' ∧
      Bindings.Renamed r (W.likeness r) false fields fields'
  fresh : h.fresh = W.heap.fresh

namespace World

variable {r : Renaming} {W : World} {h : Heap} {e : FrameId} {ls : Layers} {marks : List Bool}

theorem At.instance (hat : W.At e ls marks) (ht : W.Twin r h) :
    W.instances[e]? = some (Renaming.here marks) := by
  cases marks with
  | nil => exact (congrArg (W.instances[·]?) hat.marks).trans ht.unmarked
  | cons b marks => exact hat.marks.1

private theorem At.ancestor (hat : W.At e ls marks) (ht : W.Twin r h) {d : Nat} {l : Layer}
    (hl : ls[d]? = some l) :
    ∃ a b, W.heap.ancestor? d e = some a ∧ l.HeldBy (W.heap.bindings a) ∧
      W.instances[a]? = some b ∧ Renaming.reaches marks (some (d : Int)) = b := by
  induction d generalizing e ls marks with
  | zero =>
    have hmark := hat.instance ht
    obtain ⟨a, ha, hheld⟩ := hat.fits.ancestor hl
    cases ha
    refine ⟨e, _, rfl, hheld, hmark, ?_⟩
    cases marks <;> rfl
  | succ d ih =>
    cases ls with
    | nil => cases hl
    | cons l' ls =>
      obtain ⟨p, bs, hframe, -, hrest⟩ := hat.fits
      cases marks with
      | nil =>
        obtain ⟨bs', hglobals⟩ := ht.globals
        have he : e = Heap.globals := hat.marks
        rw [he, hglobals] at hframe
        cases hframe
      | cons b marks =>
        obtain ⟨-, p', bs', hframe', hmarks⟩ := hat.marks
        rw [hframe] at hframe'
        cases hframe'
        obtain ⟨a, c, ha, hheld, hmark, hreaches⟩ := ih ⟨hrest, hmarks⟩ hl
        exact ⟨a, c, by rw [Heap.ancestor?, hframe]; exact ha, hheld, hmark, hreaches⟩

namespace Twin

private theorem frame (ht : W.Twin r h) {b : Bool} (hb : W.instances[e]? = some b) :
    ∃ f f', W.heap.frames[e]? = some f ∧ h.frames[e]? = some f' ∧ f'.parent = f.parent ∧
      Bindings.Renamed r (W.likeness r) b f.bindings f'.bindings := by
  have hlt : e < W.heap.frames.size := ht.count ▸ (List.getElem?_eq_some_iff.1 hb).1
  have hframe : W.heap.frames[e]? = some W.heap.frames[e] := Array.getElem?_eq_getElem hlt
  obtain ⟨f', hf', hparent, hbindings⟩ := ht.frames e _ b hframe hb
  exact ⟨_, f', hframe, hf', hparent, hbindings⟩

theorem bindings (ht : W.Twin r h) {b : Bool} (hb : W.instances[e]? = some b) :
    Bindings.Renamed r (W.likeness r) b (W.heap.bindings e) (h.bindings e) := by
  obtain ⟨f, f', hf, hf', -, hbindings⟩ := ht.frame hb
  unfold Heap.bindings
  rw [hf, hf']
  exact hbindings

theorem ancestor (ht : W.Twin r h) (d : Nat) (e : FrameId) :
    h.ancestor? d e = W.heap.ancestor? d e := by
  induction d generalizing e with
  | zero => rfl
  | succ d ih =>
    rw [Heap.ancestor?, Heap.ancestor?]
    cases hf : W.heap.frames[e]? with
    | none =>
      have hout : W.heap.frames.size ≤ e := Array.getElem?_eq_none_iff.1 hf
      rw [Array.getElem?_eq_none (ht.size ▸ hout)]
    | some f =>
      have hlt : e < W.instances.length := ht.count ▸ (Array.getElem?_eq_some_iff.1 hf).1
      obtain ⟨f', hf', hparent, -⟩ := ht.frames e f _ hf (List.getElem?_eq_getElem hlt)
      rw [hf']
      obtain ⟨p, bs⟩ := f
      obtain ⟨p', bs'⟩ := f'
      cases hparent
      cases p with
      | none => rfl
      | some p => exact ih p

theorem reach (ht : W.Twin r h) (hat : W.At e ls marks) {d : Nat} {name : Text}
    (hbinds : Binds ls d name) (hname : r.Allows marks name) :
    ∃ a b v v', W.heap.ancestor? d e = some a ∧ W.instances[a]? = some b ∧
      Renaming.reaches marks (some (d : Int)) = b ∧ (b = true → name ≠ r.new) ∧
      (W.heap.bindings a).lookup name = some v ∧
      (h.bindings a).lookup (r.apply b name) = some v' ∧ Value.Alike (W.likeness r) v v' := by
  obtain ⟨l, hl, hln⟩ := hbinds
  obtain ⟨a, b, ha, hheld, hmark, hreaches⟩ := hat.ancestor ht hl
  have hallowed : b = true → name ≠ r.new := by
    rintro rfl
    exact hname (Renaming.mem_of_reaches hreaches)
  obtain ⟨v, hv⟩ := Option.isSome_iff_exists.1 (hheld.1 name hln)
  have hvalues := (ht.bindings hmark).values name hallowed
  rw [hv] at hvalues
  generalize hv' : (h.bindings a).lookup (r.apply b name) = v' at hvalues
  cases hvalues with
  | some halike => exact ⟨a, b, v, _, ha, hmark, hreaches, hallowed, hv, hv', halike⟩

theorem getAt (ht : W.Twin r h) (hat : W.At e ls marks) {d : Nat} {name : Text}
    (hbinds : Binds ls d name) (hname : r.Allows marks name) :
    ∃ v v', W.heap.getAt? e d name = some v ∧
      h.getAt? e d (r.apply (Renaming.reaches marks (some (d : Int))) name) = some v' ∧
      Value.Alike (W.likeness r) v v' := by
  obtain ⟨a, b, v, v', ha, -, hreaches, -, hv, hv', halike⟩ := ht.reach hat hbinds hname
  refine ⟨v, v', ?_, ?_, halike⟩
  · rw [Heap.getAt?, Int.toNat_natCast, ha]
    exact hv
  · rw [Heap.getAt?, Int.toNat_natCast, ht.ancestor, ha, hreaches]
    exact hv'

/-! ### Growing heaps -/

private theorem oldGlobals (ht : W.Twin r h) {W' : World} (hgrows : W.Grows W') :
    ∃ bs, W'.heap.frames[Heap.globals]? = some { parent := none, bindings := bs } := by
  obtain ⟨bs, hglobals⟩ := ht.globals
  obtain ⟨⟨p, bs'⟩, hframe, hp, -⟩ := hgrows.heap _ _ hglobals
  cases hp
  exact ⟨bs', hframe⟩

private theorem oldFrame (ht : W.Twin r h) {W' : World} (hgrows : W.Grows W') {f : Frame} {b : Bool}
    (hf : W.heap.frames[e]? = some f) (hb : W.instances[e]? = some b) :
    ∃ f', h.frames[e]? = some f' ∧ f'.parent = f.parent ∧
      Bindings.Renamed r (W'.likeness r) b f.bindings f'.bindings := by
  obtain ⟨f', hf', hparent, hbindings⟩ := ht.frames e f b hf hb
  exact ⟨f', hf', hparent, hbindings.mono hgrows.within⟩

private theorem oldObject (ht : W.Twin r h) {W' : World} (hgrows : W.Grows W')
    {i : Nat} {fields : Bindings} (hi : W.heap.objects[i]? = some fields) :
    ∃ fields', h.objects[i]? = some fields' ∧
      Bindings.Renamed r (W'.likeness r) false fields fields' := by
  obtain ⟨fields', hi', hfields⟩ := ht.objects i fields hi
  exact ⟨fields', hi', hfields.mono hgrows.within⟩

theorem defines (W : World) (e : FrameId) {name : Text} (hname : name ≠ lit "super") (v : Value) :
    W.Grows ⟨W.instances, W.heap.define e name v⟩ :=
  ⟨List.prefix_rfl, Heap.extends_define W.heap e hname v⟩

theorem define (ht : W.Twin r h) {b : Bool} (hb : W.instances[e]? = some b) {name : Text}
    (hsuper : name ≠ lit "super") (hname : b = true → name ≠ r.new) {v v' : Value}
    (hv : Value.Alike (World.likeness ⟨W.instances, W.heap.define e name v⟩ r) v v') :
    Twin r ⟨W.instances, W.heap.define e name v⟩ (h.define e (r.apply b name) v') := by
  have hgrows := defines W e hsuper v
  refine ⟨?_, ht.unmarked, ?_, ?_, fun e₁ f b₁ hf hb₁ => ?_, ht.objectCount, fun i fields hi => ?_,
    ht.fresh⟩
  · exact ht.oldGlobals hgrows
  · exact ht.count.trans (Array.size_modify ..).symm
  · exact (Array.size_modify ..).trans (ht.size.trans (Array.size_modify ..).symm)
  · rw [Heap.getElem?_define] at hf ⊢
    by_cases he : e = e₁
    · subst he
      rw [if_pos rfl] at hf ⊢
      obtain ⟨f₀, hf₀, rfl⟩ := Option.map_eq_some_iff.1 hf
      obtain ⟨f', hf', hparent, hbindings⟩ := ht.frames e f₀ b₁ hf₀ hb₁
      cases hb.symm.trans hb₁
      exact ⟨_, Option.map_eq_some_iff.2 ⟨f', hf', rfl⟩, hparent,
        (hbindings.mono hgrows.within).bind hname hv⟩
    · rw [if_neg he] at hf ⊢
      exact ht.oldFrame hgrows hf hb₁
  · exact ht.oldObject hgrows hi

theorem declare (ht : W.Twin r h) {b : Bool} (hb : W.instances[e]? = some b) {name : Text}
    (hsuper : name ≠ lit "super") (hname : b = true → name ≠ r.new) :
    W.Grows ⟨W.instances, W.heap.declare e name⟩ ∧
      Twin r ⟨W.instances, W.heap.declare e name⟩ (h.declare e (r.apply b name)) := by
  have hvalues := (ht.bindings hb).values name hname
  unfold Heap.declare
  generalize (W.heap.bindings e).lookup name = v, (h.bindings e).lookup (r.apply b name) = v'
    at hvalues
  cases hvalues with
  | none => exact ⟨defines W e hsuper .nil, ht.define hb hsuper hname .nil⟩
  | some _ => exact ⟨.refl W, ht⟩

theorem extends_child (W : World) (p : FrameId) (bs : Bindings) (b : Bool) :
    W.Grows ⟨W.instances ++ [b], (W.heap.child p bs).2⟩ :=
  ⟨List.prefix_append .., Heap.extends_child W.heap p bs⟩

theorem child (ht : W.Twin r h) (p : FrameId) {b : Bool} {bs bs' : Bindings}
    (hbs : Bindings.Renamed r (W.likeness r) b bs bs') :
    (h.child p bs').1 = (W.heap.child p bs).1 ∧
      Twin r ⟨W.instances ++ [b], (W.heap.child p bs).2⟩ (h.child p bs').2 := by
  have hgrows := extends_child W p bs b
  refine ⟨ht.size, ?_, hgrows.instance ht.unmarked, ?_, ?_, fun e f b₁ hf hb₁ => ?_, ht.objectCount,
    fun i fields hi => ?_, ht.fresh⟩
  · exact ht.oldGlobals hgrows
  · rw [List.length_append, ht.count]
    exact (Array.size_push ..).symm
  · exact (Array.size_push ..).trans ((congrArg (· + 1) ht.size).trans (Array.size_push ..).symm)
  · simp only [Heap.child, Array.getElem?_push] at hf ⊢
    by_cases he : e = W.heap.frames.size
    · rw [if_pos he] at hf
      rw [if_pos (ht.size ▸ he)]
      cases hf
      rw [he, ← ht.count, List.getElem?_concat_length] at hb₁
      cases hb₁
      exact ⟨_, rfl, rfl, hbs.mono hgrows.within⟩
    · rw [if_neg he] at hf
      rw [if_neg (ht.size ▸ he)]
      have hlt : e < W.instances.length := ht.count ▸ (Array.getElem?_eq_some_iff.1 hf).1
      rw [List.getElem?_append_left hlt] at hb₁
      exact ht.oldFrame hgrows hf hb₁
  · exact ht.oldObject hgrows hi

theorem keepsFrames (W : World) {h₁ : Heap} (hframes : h₁.frames = W.heap.frames) :
    W.Grows ⟨W.instances, h₁⟩ :=
  ⟨List.prefix_rfl, .of_frames hframes⟩

theorem freshId (ht : W.Twin r h) :
    h.freshId.1 = W.heap.freshId.1 ∧ Twin r ⟨W.instances, W.heap.freshId.2⟩ h.freshId.2 := by
  have hgrows := keepsFrames W (rfl : W.heap.freshId.2.frames = _)
  refine ⟨ht.fresh, ht.globals, ht.unmarked, ht.count, ht.size, fun e f b hf hb => ?_,
    ht.objectCount, fun i fields hi => ?_, congrArg (· + 1) ht.fresh⟩
  · exact ht.oldFrame hgrows hf hb
  · exact ht.oldObject hgrows hi

theorem newObject (ht : W.Twin r h) :
    h.newObject.1 = W.heap.newObject.1 ∧
      Twin r ⟨W.instances, W.heap.newObject.2⟩ h.newObject.2 := by
  have hgrows := keepsFrames W (rfl : W.heap.newObject.2.frames = _)
  refine ⟨ht.objectCount, ht.globals, ht.unmarked, ht.count, ht.size, fun e f b hf hb => ?_, ?_,
    fun i fields hi => ?_, ht.fresh⟩
  · exact ht.oldFrame hgrows hf hb
  · exact (Array.size_push ..).trans
      ((congrArg (· + 1) ht.objectCount).trans (Array.size_push ..).symm)
  · simp only [Heap.newObject, Array.getElem?_push] at hi ⊢
    by_cases hlast : i = W.heap.objects.size
    · rw [if_pos hlast] at hi
      rw [if_pos (ht.objectCount ▸ hlast)]
      cases hi
      exact ⟨[], rfl, .nil⟩
    · rw [if_neg hlast] at hi
      rw [if_neg (ht.objectCount ▸ hlast)]
      exact ht.oldObject hgrows hi

theorem setField (ht : W.Twin r h) (i : Nat) (name : Text) {v v' : Value}
    (hv : Value.Alike (W.likeness r) v v') :
    Twin r ⟨W.instances, W.heap.setField i name v⟩ (h.setField i name v') := by
  have hgrows := keepsFrames W (rfl : (W.heap.setField i name v).frames = _)
  refine ⟨ht.globals, ht.unmarked, ht.count, ht.size, fun e f b hf hb => ?_, ?_,
    fun j fields hj => ?_, ht.fresh⟩
  · exact ht.oldFrame hgrows hf hb
  · exact (Array.size_modify ..).trans (ht.objectCount.trans (Array.size_modify ..).symm)
  · simp only [Heap.setField, Array.getElem?_modify] at hj ⊢
    by_cases hij : i = j
    · rw [if_pos hij] at hj ⊢
      obtain ⟨fields₀, hj₀, rfl⟩ := Option.map_eq_some_iff.1 hj
      obtain ⟨fields', hj', hfields⟩ := ht.objects j fields₀ hj₀
      have hbind : Bindings.Renamed r _ false (Bindings.bind fields₀ name v)
          (Bindings.bind fields' (r.apply false name) v') :=
        (hfields.mono hgrows.within).bind (fun hhere => absurd hhere Bool.false_ne_true)
          (hv.mono hgrows.within)
      rw [r.apply_false] at hbind
      exact ⟨_, Option.map_eq_some_iff.2 ⟨fields', hj', rfl⟩, hbind⟩
    · rw [if_neg hij] at hj ⊢
      exact ht.oldObject hgrows hj

theorem field (ht : W.Twin r h) (i : Nat) (name : Text) :
    Option.Rel (Value.Alike (W.likeness r)) (W.heap.field? i name) (h.field? i name) := by
  unfold Heap.field?
  cases hi : W.heap.objects[i]? with
  | none =>
    have hout : W.heap.objects.size ≤ i := Array.getElem?_eq_none_iff.1 hi
    rw [Array.getElem?_eq_none (ht.objectCount ▸ hout)]
    exact .none
  | some fields =>
    obtain ⟨fields', hi', hfields⟩ := ht.objects i fields hi
    have hvalues := hfields.values name nofun
    rw [r.apply_false] at hvalues
    rw [hi']
    exact hvalues

end Twin

theorem At.child (hat : W.At e ls marks) (ht : W.Twin r h) {l : Layer} {bs : Bindings}
    (hl : l.HeldBy bs) (b : Bool) :
    World.At ⟨W.instances ++ [b], (W.heap.child e bs).2⟩ (W.heap.child e bs).1 (l :: ls)
      (b :: marks) where
  fits := hat.fits.child hl
  marks := by
    have hgrows := Twin.extends_child W e bs b
    refine ⟨?_, e, bs, Array.getElem?_push_size, hat.marks.mono hgrows⟩
    show (W.instances ++ [b])[W.heap.frames.size]? = some b
    rw [← ht.count, List.getElem?_concat_length]

theorem At.define (hat : W.At e ls marks) {name : Text} (hname : name ≠ lit "super") (v : Value) :
    World.At ⟨W.instances, W.heap.define e name v⟩ e (Layers.declare name ls) marks :=
  ⟨hat.fits.define hname v, hat.marks.mono (Twin.defines W e hname v)⟩

end World

end Lox

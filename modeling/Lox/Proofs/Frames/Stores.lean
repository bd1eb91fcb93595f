import Lox.Proofs.Frames.Chains

set_option autoImplicit false
set_option relaxedAutoImplicit false

namespace Lox.Heap

variable {h : Heap} {e e' a b p : FrameId} {name x z : Text} {v : Value}

/-! ### What a binding changes -/

theorem parent?_define (h : Heap) (a : FrameId) (name : Text) (v : Value) (e : FrameId) :
    (h.define a name v).parent? e = h.parent? e := by
  rw [parent?, parent?, getElem?_define]
  split
  · cases h.frames[e]? <;> rfl
  · rfl

private theorem Ordered.define (hord : h.Ordered) (a : FrameId) (name : Text) (v : Value) :
    (h.define a name v).Ordered := by
  intro e p hp
  rw [parent?_define] at hp
  exact hord e p hp

private theorem lookup_define (ha : a < h.frames.size) (e : FrameId) (z : Text) :
    ((h.define a x v).bindings e).lookup z =
      if e = a ∧ z = x then some v else (h.bindings e).lookup z := by
  rw [bindings_define]
  by_cases he : e = a
  · subst he
    rw [if_pos ⟨rfl, ha⟩, Bindings.lookup_bind]
    by_cases hz : z = x
    · rw [if_pos hz, if_pos ⟨rfl, hz⟩]
    · rw [if_neg hz, if_neg fun h => hz h.2]
  · rw [if_neg fun h => he h.1.symm, if_neg fun h => he h.1]

private theorem binds_define_iff (ha : a < h.frames.size) :
    (h.define a x v).Binds e z ↔ e = a ∧ z = x ∨ h.Binds e z := by
  unfold Binds
  rw [lookup_define ha]
  split
  · rename_i heq
    exact iff_of_true rfl (.inl heq)
  · rename_i hne
    exact ⟨.inr, fun h => h.resolve_left hne⟩

private theorem ancestor?_define (h : Heap) (a : FrameId) (x : Text) (v : Value)
    (d : Nat) (e : FrameId) :
    (h.define a x v).ancestor? d e = h.ancestor? d e := by
  induction d generalizing e with
  | zero => rfl
  | succ d ih =>
    rw [ancestor?_succ, ancestor?_succ, parent?_define]
    exact congrArg _ (funext ih)

private theorem getAt?_define (ha : a < h.frames.size) (e : FrameId) (d : Int) (z : Text) :
    (h.define a x v).getAt? e d z =
      if h.ancestor? d.toNat e = some a ∧ z = x then some v else h.getAt? e d z := by
  rw [getAt?_eq_bind, getAt?_eq_bind, ancestor?_define]
  cases h.ancestor? d.toNat e with
  | none => simp
  | some b => simp [lookup_define ha]

/-- From a frame outward another frame is reached, and no frame before that one binds a name. -/
inductive Reaches (h : Heap) (name : Text) : FrameId → FrameId → Prop
  | here {e : FrameId} : Reaches h name e e
  | outside {e p a : FrameId} : ¬ h.Binds e name → h.parent? e = some p → Reaches h name p a →
      Reaches h name e a

private theorem finds_iff_reaches : h.Finds name e a ↔ h.Reaches name e a ∧ h.Binds a name := by
  constructor
  · intro hf
    refine ⟨?_, hf.binds⟩
    induction hf with
    | here _ => exact .here
    | outside hnot hp _ ih => exact .outside hnot hp ih
  · rintro ⟨hr, hb⟩
    induction hr with
    | here => exact .here hb
    | outside hnot hp _ ih => exact .outside hnot hp (ih hb)

private theorem Reaches.finds_define (hr : h.Reaches x e a) (ha : a < h.frames.size) (v : Value) :
    (h.define a x v).Finds x e a := by
  induction hr with
  | here => exact .here ((binds_define_iff ha).2 (.inl ⟨rfl, rfl⟩))
  | @outside e p a hnot hp _ ih =>
    by_cases he : e = a
    · subst he
      exact .here ((binds_define_iff ha).2 (.inl ⟨rfl, rfl⟩))
    · refine .outside ?_ ((parent?_define h a x v e).trans hp) (ih ha)
      rintro hb
      exact ((binds_define_iff ha).1 hb).elim (fun h => he h.1) hnot

private theorem finds_define_iff (ha : a < h.frames.size) (hr : ¬ (z = x ∧ h.Reaches x e a)) :
    (h.define a x v).Finds z e b ↔ h.Finds z e b := by
  have hbinds {c : FrameId} (hc : ¬ (z = x ∧ h.Reaches x c a)) :
      (h.define a x v).Binds c z ↔ h.Binds c z := by
    rw [binds_define_iff ha]
    refine ⟨fun h => h.resolve_left ?_, .inr⟩
    rintro ⟨rfl, hz⟩
    exact hc ⟨hz, .here⟩
  have hrest {c p : FrameId} (hc : ¬ (z = x ∧ h.Reaches x c a)) (hnot : ¬ h.Binds c z)
      (hp : h.parent? c = some p) : ¬ (z = x ∧ h.Reaches x p a) := by
    rintro ⟨rfl, hpa⟩
    exact hc ⟨rfl, .outside hnot hp hpa⟩
  constructor
  · intro hf
    induction hf with
    | here hb => exact .here ((hbinds hr).1 hb)
    | outside hnot hp _ ih =>
      have hnot := mt (hbinds hr).2 hnot
      rw [parent?_define] at hp
      exact .outside hnot hp (ih (hrest hr hnot hp))
  · intro hf
    induction hf with
    | here hb => exact .here ((hbinds hr).2 hb)
    | outside hnot hp _ ih =>
      exact .outside (mt (hbinds hr).1 hnot) ((parent?_define ..).trans hp) (ih (hrest hr hnot hp))

private theorem Binds.mem_names (hb : h.Binds a x) : x ∈ h.names a := mem_names_iff.2 hb

private theorem map_fst_bind_of_mem {bs : Bindings} (hmem : x ∈ bs.map Prod.fst) :
    (Bindings.bind bs x v).map Prod.fst = bs.map Prod.fst := by
  induction bs with
  | nil => cases hmem
  | cons b bs ih =>
    obtain ⟨n, w⟩ := b
    rw [Bindings.bind]
    split
    · rename_i heq
      rw [List.map_cons, List.map_cons, heq]
    · rename_i hne
      rcases List.mem_cons.1 hmem with heq | hrest
      · exact absurd heq.symm hne
      · rw [List.map_cons, List.map_cons, ih hrest]

private theorem names_define (hb : h.Binds a x) (e : FrameId) :
    (h.define a x v).names e = h.names e := by
  unfold names
  rw [bindings_define]
  split
  · rename_i heq
    rw [← heq.1]
    exact map_fst_bind_of_mem hb.mem_names
  · rfl

/-! ### Looking names up -/

private theorem getAt?_toNat (h : Heap) (e : FrameId) (d : Int) (z : Text) :
    h.getAt? e d z = h.getAt? e (d.toNat : Nat) z := by
  rw [getAt?_eq_bind, getAt?_eq_bind, Int.toNat_natCast]

namespace Ordered

theorem get?_eq (hord : h.Ordered) (hf : h.Finds name e a) :
    h.get? e name = (h.bindings a).lookup name := by
  rw [get?_eq_bind, hord.owner?_eq_some_iff.2 hf, Option.bind_some]

theorem get?_eq_none (hord : h.Ordered) (hnot : ∀ a, ¬ h.Finds name e a) :
    h.get? e name = none := by
  have hnone : h.owner? e name = none :=
    Option.eq_none_iff_forall_ne_some.2 fun a ha => hnot a (hord.owner?_eq_some_iff.1 ha)
  rw [get?_eq_bind, hnone, Option.bind_none]

theorem has_iff (hord : h.Ordered) : h.has e name = true ↔ ∃ a, h.Finds name e a := by
  rw [has_eq_isSome, Option.isSome_iff_exists]
  exact exists_congr fun _ => hord.owner?_eq_some_iff

private theorem get?_isSome_iff (hord : h.Ordered) :
    (h.get? e name).isSome = true ↔ ∃ a, h.Finds name e a := by
  constructor
  · intro hsome
    refine Classical.not_forall_not.1 fun hnot => ?_
    rw [hord.get?_eq_none hnot] at hsome
    cases hsome
  · rintro ⟨a, hf⟩
    rw [hord.get?_eq hf]
    exact hf.binds

private theorem get?_congr {h' : Heap} (hord : h.Ordered) (hord' : h'.Ordered)
    (hfinds : ∀ b, h'.Finds z e b ↔ h.Finds z e b)
    (hlookup : ∀ b, h.Finds z e b → (h'.bindings b).lookup z = (h.bindings b).lookup z) :
    h'.get? e z = h.get? e z := by
  by_cases hex : ∃ b, h.Finds z e b
  · obtain ⟨b, hb⟩ := hex
    rw [hord.get?_eq hb, hord'.get?_eq ((hfinds b).2 hb), hlookup b hb]
  · have hnot := not_exists.1 hex
    rw [hord.get?_eq_none hnot, hord'.get?_eq_none fun b hb => hnot b ((hfinds b).1 hb)]

private theorem get?_isSome_iff_getAt? (hord : h.Ordered) :
    (h.get? e name).isSome = true ↔ ∃ d : Int, (h.getAt? e d name).isSome = true := by
  rw [hord.get?_isSome_iff]
  constructor
  · rintro ⟨a, hf⟩
    obtain ⟨d, -, hd⟩ := hf.exists_getAt?
    exact ⟨d, hd⟩
  · rintro ⟨d, hd⟩
    rw [getAt?_toNat] at hd
    exact exists_finds_of_getAt? hd

private theorem get?_eq_getAt? (hord : h.Ordered) {d : Int} (hd : (h.getAt? e d name).isSome = true)
    (hleast : ∀ i : Nat, (i : Int) < d → h.getAt? e i name = none) :
    h.get? e name = h.getAt? e d name := by
  rw [getAt?_toNat] at hd ⊢
  obtain ⟨a, hf⟩ := exists_finds_of_getAt? hd
  have ha := hf.ancestor? hd fun i hi => hleast i (by omega)
  rw [hord.get?_eq hf, getAt?_eq_bind, Int.toNat_natCast, ha, Option.bind_some]

/-! ### Changing names -/

private theorem assign?_eq (hord : h.Ordered) (hf : h.Finds x e a) :
    h.assign? e x v = some (h.define a x v) := by
  rw [assign?_eq_map, hord.owner?_eq_some_iff.2 hf, Option.map_some]

end Ordered

private theorem assign?_isSome (h : Heap) (e : FrameId) (x : Text) (v : Value) :
    (h.assign? e x v).isSome = h.has e x := by
  rw [assign?_eq_map, has_eq_isSome, Option.isSome_map]

namespace Ordered

private theorem get?_define_of_reaches (hord : h.Ordered) (ha : a < h.frames.size)
    (hr : h.Reaches x e a) :
    (h.define a x v).get? e x = some v := by
  rw [(hord.define a x v).get?_eq (hr.finds_define ha v), lookup_define ha, if_pos ⟨rfl, rfl⟩]

private theorem get?_define_of_not_reaches (hord : h.Ordered) (ha : a < h.frames.size)
    (hr : ¬ (z = x ∧ h.Reaches x e a)) : (h.define a x v).get? e z = h.get? e z := by
  refine hord.get?_congr (hord.define a x v) (fun b => finds_define_iff ha hr) fun b hb => ?_
  rw [lookup_define ha, if_neg]
  rintro ⟨rfl, rfl⟩
  exact hr ⟨rfl, (finds_iff_reaches.1 hb).1⟩

end Ordered

def Share (h : Heap) (x : Text) (e e' : FrameId) : Prop := ∃ a, h.Finds x e a ∧ h.Finds x e' a

private theorem Finds.reaches_iff_share (hf : h.Finds x e a) :
    h.Reaches x e' a ↔ h.Share x e e' := by
  constructor
  · exact fun hr => ⟨a, hf, finds_iff_reaches.2 ⟨hr, hf.binds⟩⟩
  · rintro ⟨b, hb, hb'⟩
    cases hf.unique hb
    exact (finds_iff_reaches.1 hb').1

private theorem holderAt?_eq_some_iff {d : Int} :
    h.holderAt? e d x = some a ↔ h.ancestor? d.toNat e = some a ∧ h.Binds a x := by
  unfold holderAt?
  cases h.ancestor? d.toNat e with
  | none => simp
  | some c =>
    simp only [Option.ite_none_right_eq_some, Option.some.injEq]
    constructor
    · rintro ⟨hb, rfl⟩
      exact ⟨rfl, hb⟩
    · rintro ⟨rfl, hb⟩
      exact ⟨hb, rfl⟩

private theorem assignAt?_eq_some_iff {d : Int} {h' : Heap} :
    h.assignAt? e d x v = some h' ↔
      ∃ a, h.ancestor? d.toNat e = some a ∧ h.Binds a x ∧ h' = h.define a x v := by
  rw [assignAt?, Option.map_eq_some_iff]
  refine exists_congr fun a => ?_
  rw [holderAt?_eq_some_iff, and_assoc, eq_comm (a := h')]

private theorem assignAt?_isSome_iff {d : Int} :
    (h.assignAt? e d x v).isSome = true ↔ (h.getAt? e d x).isSome = true := by
  rw [Option.isSome_iff_exists, getAt?_eq_bind]
  simp only [assignAt?_eq_some_iff]
  cases h.ancestor? d.toNat e with
  | none => simp
  | some a => simp [Binds]

/-! ### Sequences of operations -/

/-- What can be done with frames. -/
inductive Operation
  | frame (parent : Option FrameId)
  | define (e : FrameId) (name : Text) (v : Value)
  | assign (e : FrameId) (name : Text) (v : Value)
  | assignAt (e : FrameId) (distance : Int) (name : Text) (v : Value)
  | getAt (e : FrameId) (distance : Int) (name : Text)

/-- The heap after an operation. A frame is only made inside one that exists. -/
def after (h : Heap) : Operation → Heap
  | .frame none => { h with frames := h.frames.push { parent := none, bindings := [] } }
  | .frame (some p) => if p < h.frames.size then (h.child p []).2 else h
  | .define e name v => h.define e name v
  | .assign e name v => (h.assign? e name v).getD h
  | .assignAt e distance name v => (h.assignAt? e distance name v).getD h
  | .getAt _ _ _ => h

def empty : Heap := { frames := #[], objects := #[], fresh := 0 }

/-- The heap after some operations. -/
def ofOperations (ops : List Operation) : Heap := ops.foldl after empty

theorem parent?_push (h : Heap) (f : Frame) (e : FrameId) :
    ({ h with frames := h.frames.push f } : Heap).parent? e =
      if e = h.frames.size then f.parent else h.parent? e := by
  rw [parent?, parent?, Array.getElem?_push]
  split
  · rfl
  · rfl

private theorem Ordered.push (hord : h.Ordered) {f : Frame}
    (hf : ∀ p, f.parent = some p → p < h.frames.size) :
    ({ h with frames := h.frames.push f } : Heap).Ordered := by
  intro e p hp
  rw [parent?_push] at hp
  split at hp
  · rename_i he
    rw [he]
    exact hf p hp
  · exact hord e p hp

/-! ### New frames -/

def withFrame (h : Heap) (parent : Option FrameId) : Heap :=
  { h with frames := h.frames.push { parent, bindings := [] } }

section

variable {parent : Option FrameId}

private theorem bindings_withFrame (h : Heap) (parent : Option FrameId) (e : FrameId) :
    (h.withFrame parent).bindings e = h.bindings e := by
  unfold bindings withFrame
  rw [Array.getElem?_push]
  by_cases he : e = h.frames.size
  · rw [if_pos he, he, Array.getElem?_eq_none (Nat.le_refl _)]
  · rw [if_neg he]

private theorem getAt?_withFrame (hord : h.Ordered) (he : e < h.frames.size) (d : Nat) (z : Text) :
    (h.withFrame parent).getAt? e d z = h.getAt? e d z := by
  induction d generalizing e with
  | zero =>
    show ((h.withFrame parent).bindings e).lookup z = (h.bindings e).lookup z
    rw [bindings_withFrame]
  | succ d ih =>
    have hparent : (h.withFrame parent).parent? e = h.parent? e := by
      rw [withFrame, parent?_push, if_neg (Nat.ne_of_lt he)]
    rw [getAt?_succ, getAt?_succ, hparent]
    cases hp : h.parent? e with
    | none => rfl
    | some p => exact ih (Nat.lt_trans (hord e p hp) he)

private theorem finds_withFrame_iff (hord : h.Ordered) (he : e < h.frames.size) :
    (h.withFrame parent).Finds z e b ↔ h.Finds z e b := by
  have hbinds (c : FrameId) : (h.withFrame parent).Binds c z ↔ h.Binds c z := by
    rw [Binds, Binds, bindings_withFrame]
  have hparent {c : FrameId} (hc : c < h.frames.size) :
      (h.withFrame parent).parent? c = h.parent? c := by
    rw [withFrame, parent?_push, if_neg (Nat.ne_of_lt hc)]
  constructor
  · intro hf
    induction hf with
    | here hb => exact .here ((hbinds _).1 hb)
    | outside hnot hp _ ih =>
      rw [hparent he] at hp
      exact .outside (mt (hbinds _).2 hnot) hp (ih (Nat.lt_trans (hord _ _ hp) he))
  · intro hf
    induction hf with
    | here hb => exact .here ((hbinds _).2 hb)
    | outside hnot hp _ ih =>
      refine .outside (mt (hbinds _).1 hnot) ?_ (ih (Nat.lt_trans (hord _ _ hp) he))
      rw [hparent he, hp]

private theorem Ordered.get?_of_not_binds (hord : h.Ordered) (hnot : ¬ h.Binds e z) :
    h.get? e z = (h.parent? e).bind fun p => h.get? p z := by
  cases hp : h.parent? e with
  | none =>
    refine hord.get?_eq_none fun a hf => ?_
    cases hf with
    | here hb => exact hnot hb
    | outside _ hp' _ => cases hp.symm.trans hp'
  | some p =>
    rw [Option.bind_some]
    by_cases hex : ∃ a, h.Finds z p a
    · obtain ⟨a, ha⟩ := hex
      rw [hord.get?_eq ha, hord.get?_eq (.outside hnot hp ha)]
    · have hnone := not_exists.1 hex
      rw [hord.get?_eq_none hnone, hord.get?_eq_none fun a hf => ?_]
      cases hf with
      | here hb => exact hnot hb
      | outside _ hp' hrest =>
        cases hp.symm.trans hp'
        exact hnone a hrest

end

private theorem after_frame {parent : Option FrameId} (hparent : ∀ p ∈ parent, p < h.frames.size) :
    h.after (.frame parent) = h.withFrame parent := by
  cases parent with
  | none => rfl
  | some p =>
    rw [after, if_pos (hparent p rfl)]
    rfl

private theorem Ordered.after (hord : h.Ordered) (op : Operation) : (h.after op).Ordered := by
  cases op with
  | frame parent =>
    cases parent with
    | none => exact hord.push fun p hp => by cases hp
    | some p =>
      rw [Heap.after]
      split
      · rename_i hlt
        exact hord.push fun q hq => Option.some.inj hq ▸ hlt
      · exact hord
  | define e name v => exact hord.define e name v
  | assign e name v =>
    rw [Heap.after, assign?_eq_map]
    cases h.owner? e name with
    | none => exact hord
    | some a => exact hord.define a name v
  | assignAt e d name v =>
    rw [Heap.after, assignAt?]
    cases h.holderAt? e d name with
    | none => exact hord
    | some a => exact hord.define a name v
  | getAt e d name => exact hord

private theorem ordered_empty : empty.Ordered := by
  intro e p hp
  rw [parent?, empty, Array.getElem?_empty] at hp
  cases hp

private theorem ordered_ofOperations (ops : List Operation) : (ofOperations ops).Ordered := by
  have hfrom : ∀ h : Heap, h.Ordered → (ops.foldl Heap.after h).Ordered := by
    induction ops with
    | nil => exact fun h hord => hord
    | cons op ops ih => exact fun h hord => ih _ (hord.after op)
  exact hfrom empty ordered_empty

/-! ### Nested stores -/

/-- The laws of nested stores. -/
structure Nested (h : Heap) : Prop where
  /-- A name is there if looking outward finds it. -/
  has : ∀ e x, h.has e x = true ↔ (h.get? e x).isSome = true
  /-- Looking outward finds what some number of steps outward finds. -/
  get : ∀ e x, (h.get? e x).isSome = true ↔ ∃ d : Int, (h.getAt? e d x).isSome = true
  /-- It finds what the least number of steps finds. Less than no step is no step. -/
  least : ∀ e x (d : Int), (h.getAt? e d x).isSome = true →
    (∀ i : Nat, (i : Int) < d → h.getAt? e i x = none) → h.get? e x = h.getAt? e d x
  /-- What is bound in a frame is read at the steps that lead there. -/
  defined : ∀ e x v, e < h.frames.size → ∀ e' (d : Int) z,
    (h.after (.define e x v)).getAt? e' d z =
      if h.ancestor? d.toNat e' = some e ∧ z = x then some v else h.getAt? e' d z
  /-- Looking outward sees it unless the name is bound on the way. -/
  seen : ∀ e x v, e < h.frames.size → ∀ e', h.Reaches x e' e →
    (h.after (.define e x v)).get? e' x = some v
  unseen : ∀ e x v, e < h.frames.size → ∀ e' z, ¬ (z = x ∧ h.Reaches x e' e) →
    (h.after (.define e x v)).get? e' z = h.get? e' z
  /-- A new frame binds nothing itself and shows what the frame around it shows. -/
  framed : ∀ parent, (∀ p ∈ parent, p < h.frames.size) → ∀ z,
    (h.after (.frame parent)).getAt? h.frames.size 0 z = none ∧
      (∀ d : Nat, (h.after (.frame parent)).getAt? h.frames.size ((d + 1 : Nat) : Int) z =
        parent.bind fun p => h.getAt? p d z) ∧
      (h.after (.frame parent)).get? h.frames.size z = parent.bind fun p => h.get? p z
  /-- The other frames show what they did. -/
  unframed : ∀ parent, (∀ p ∈ parent, p < h.frames.size) → ∀ e < h.frames.size, ∀ (d : Int) z,
    (h.after (.frame parent)).getAt? e d z = h.getAt? e d z ∧
      (h.after (.frame parent)).get? e z = h.get? e z
  /-- What is there can be changed. -/
  assign : ∀ e x v, (h.assign? e x v).isSome = true ↔ h.has e x = true
  /-- The change is seen from the frames that find the name in the same frame. -/
  assigned : ∀ e x v, h.has e x = true → ∀ e', h.Share x e e' →
    (h.after (.assign e x v)).get? e' x = some v
  /-- From other frames it is not seen, and no other name changes. -/
  unassigned : ∀ e x v e' z, ¬ (z = x ∧ h.Share x e e') →
    (h.after (.assign e x v)).get? e' z = h.get? e' z
  /-- What can be looked up some steps outward can be changed there. -/
  assignAt : ∀ e (d : Int) x v, (h.assignAt? e d x v).isSome = true ↔ (h.getAt? e d x).isSome = true
  /-- Changing it there is to bind it in that frame. -/
  assignedAt : ∀ e (d : Int) x v, (h.getAt? e d x).isSome = true →
    ∃ a, h.ancestor? d.toNat e = some a ∧ h.after (.assignAt e d x v) = h.after (.define a x v)
  /-- What fails changes nothing. -/
  assign_fails : ∀ e x v, (h.assign? e x v).isSome = false → h.after (.assign e x v) = h
  assignAt_fails : ∀ e (d : Int) x v, (h.assignAt? e d x v).isSome = false →
    h.after (.assignAt e d x v) = h
  /-- No name is added. -/
  names_assign : ∀ e x v e', (h.after (.assign e x v)).names e' = h.names e'
  names_assignAt : ∀ e (d : Int) x v e', (h.after (.assignAt e d x v)).names e' = h.names e'
  names_getAt : ∀ e (d : Int) x e', (h.after (.getAt e d x)).names e' = h.names e'

namespace Ordered

variable {parent : Option FrameId}

private theorem withFrame (hord : h.Ordered) (hparent : ∀ p ∈ parent, p < h.frames.size) :
    (h.withFrame parent).Ordered := hord.push fun p hp => hparent p hp

private theorem get?_withFrame (hord : h.Ordered) (hparent : ∀ p ∈ parent, p < h.frames.size)
    (he : e < h.frames.size) : (h.withFrame parent).get? e z = h.get? e z := by
  refine hord.get?_congr (hord.withFrame hparent)
    (fun b => finds_withFrame_iff hord he) fun b _ => ?_
  rw [bindings_withFrame]

private theorem unframed (hord : h.Ordered) (hparent : ∀ p ∈ parent, p < h.frames.size)
    (he : e < h.frames.size) (d : Int) (z : Text) :
    (h.after (.frame parent)).getAt? e d z = h.getAt? e d z ∧
      (h.after (.frame parent)).get? e z = h.get? e z := by
  rw [after_frame hparent, getAt?_toNat, getAt?_toNat h]
  exact ⟨getAt?_withFrame hord he _ z, hord.get?_withFrame hparent he⟩

private theorem framed (hord : h.Ordered) (hparent : ∀ p ∈ parent, p < h.frames.size) (z : Text) :
    (h.after (.frame parent)).getAt? h.frames.size 0 z = none ∧
      (∀ d : Nat, (h.after (.frame parent)).getAt? h.frames.size ((d + 1 : Nat) : Int) z =
        parent.bind fun p => h.getAt? p d z) ∧
      (h.after (.frame parent)).get? h.frames.size z = parent.bind fun p => h.get? p z := by
  rw [after_frame hparent]
  have hnone : ((h.withFrame parent).bindings h.frames.size).lookup z = none := by
    rw [bindings_withFrame, bindings, Array.getElem?_eq_none (Nat.le_refl _)]
    rfl
  have houter : (h.withFrame parent).parent? h.frames.size = parent := by
    rw [Heap.withFrame, parent?_push, if_pos rfl]
  have hnot : ¬ (h.withFrame parent).Binds h.frames.size z := by
    rw [Binds, hnone]
    exact Bool.false_ne_true
  refine ⟨hnone, fun d => ?_, ?_⟩
  · rw [getAt?_succ, houter]
    exact Option.bind_congr fun p hp => getAt?_withFrame hord (hparent p hp) d z
  · rw [(hord.withFrame hparent).get?_of_not_binds hnot, houter]
    exact Option.bind_congr fun p hp => hord.get?_withFrame hparent (hparent p hp)

end Ordered

private theorem after_assign_eq_self (hnot : (h.assign? e x v).isSome = false) :
    h.after (.assign e x v) = h := by
  rw [after, Option.isNone_iff_eq_none.1 (Option.isSome_eq_false_iff.1 hnot), Option.getD_none]

private theorem after_assignAt_eq_self {d : Int} (hnot : (h.assignAt? e d x v).isSome = false) :
    h.after (.assignAt e d x v) = h := by
  rw [after, Option.isNone_iff_eq_none.1 (Option.isSome_eq_false_iff.1 hnot), Option.getD_none]

namespace Ordered

private theorem after_assign (hord : h.Ordered) (hf : h.Finds x e a) :
    h.after (.assign e x v) = h.define a x v := by
  rw [Heap.after, hord.assign?_eq hf, Option.getD_some]

private theorem unassigned (hord : h.Ordered) (hs : ¬ (z = x ∧ h.Share x e e')) :
    (h.after (.assign e x v)).get? e' z = h.get? e' z := by
  cases hsome : (h.assign? e x v).isSome with
  | true =>
    obtain ⟨a, hf⟩ := hord.has_iff.1 ((assign?_isSome h e x v).symm.trans hsome)
    rw [hord.after_assign hf]
    rw [← hf.reaches_iff_share] at hs
    exact hord.get?_define_of_not_reaches hf.binds.lt_size hs
  | false => rw [after_assign_eq_self hsome]

private theorem names_assign (hord : h.Ordered) (e' : FrameId) :
    (h.after (.assign e x v)).names e' = h.names e' := by
  cases hsome : (h.assign? e x v).isSome with
  | true =>
    obtain ⟨a, hf⟩ := hord.has_iff.1 ((assign?_isSome h e x v).symm.trans hsome)
    rw [hord.after_assign hf]
    exact names_define hf.binds e'
  | false => rw [after_assign_eq_self hsome]

end Ordered

private theorem after_assignAt {d : Int} (hsome : (h.getAt? e d x).isSome = true) :
    ∃ a, h.ancestor? d.toNat e = some a ∧ h.Binds a x ∧
      h.after (.assignAt e d x v) = h.define a x v := by
  obtain ⟨h', hh'⟩ := Option.isSome_iff_exists.1 (assignAt?_isSome_iff (v := v).2 hsome)
  obtain ⟨a, ha, hb, rfl⟩ := assignAt?_eq_some_iff.1 hh'
  exact ⟨a, ha, hb, by rw [after, hh', Option.getD_some]⟩

private theorem names_assignAt {d : Int} (e' : FrameId) :
    (h.after (.assignAt e d x v)).names e' = h.names e' := by
  cases hsome : (h.assignAt? e d x v).isSome with
  | true =>
    obtain ⟨a, -, hb, heq⟩ := after_assignAt (v := v) (assignAt?_isSome_iff.1 hsome)
    rw [heq]
    exact names_define hb e'
  | false => rw [after_assignAt_eq_self hsome]

/-- Frames behave as nested stores, whatever has been done with them. -/
theorem nested_ofOperations (ops : List Operation) : (ofOperations ops).Nested := by
  have hord := ordered_ofOperations ops
  refine {
    has := fun e x => hord.has_iff.trans hord.get?_isSome_iff.symm
    get := fun e x => hord.get?_isSome_iff_getAt?
    least := fun e x d hd hleast => hord.get?_eq_getAt? hd hleast
    defined := fun e x v he e' d z => getAt?_define he e' d z
    seen := fun e x v he e' hr => hord.get?_define_of_reaches he hr
    unseen := fun e x v he e' z hr => hord.get?_define_of_not_reaches he hr
    framed := fun parent hparent z => hord.framed hparent z
    unframed := fun parent hparent e he d z => hord.unframed hparent he d z
    assign := fun e x v => by rw [assign?_isSome]
    assigned := fun e x v hhas e' hs => ?_
    unassigned := fun e x v e' z hs => hord.unassigned hs
    assignAt := fun e d x v => assignAt?_isSome_iff
    assignedAt := fun e d x v hsome => ?_
    assign_fails := fun e x v => after_assign_eq_self
    assignAt_fails := fun e d x v => after_assignAt_eq_self
    names_assign := fun e x v e' => hord.names_assign e'
    names_assignAt := fun e d x v e' => names_assignAt e'
    names_getAt := fun e d x e' => rfl }
  · obtain ⟨a, hf⟩ := hord.has_iff.1 hhas
    rw [hord.after_assign hf]
    exact hord.get?_define_of_reaches hf.binds.lt_size (hf.reaches_iff_share.2 hs)
  · obtain ⟨a, ha, -, heq⟩ := after_assignAt (v := v) hsome
    exact ⟨a, ha, heq⟩

/-- A block in a global frame finds the name of the global frame and changes it there, and keeps its
own name to itself. -/
theorem nested_ofOperations_block :
    let h := ofOperations [.frame none, .define 0 (Text.lit "a") .nil, .frame (some 0),
      .define 1 (Text.lit "b") .nil]
    h.Nested ∧ (h.after (.assign 1 (Text.lit "a") (.bool true))).get? 0 (Text.lit "a") =
        some (.bool true) ∧
      (h.after (.assign 1 (Text.lit "b") (.bool true))).get? 0 (Text.lit "a") = some .nil ∧
      h.getAt? 1 1 (Text.lit "a") = some .nil ∧ h.getAt? 1 5 (Text.lit "a") = none ∧
      h.has 0 (Text.lit "b") = false :=
  ⟨nested_ofOperations _, rfl, rfl, rfl, rfl, rfl⟩

end Lox.Heap

import Lox.Proofs.Run.Globals

set_option autoImplicit false
set_option relaxedAutoImplicit false

namespace Lox.Heap

variable {h : Heap} {e a b p : FrameId} {name : Text}

/-! ### The way outward -/

def parent? (h : Heap) (e : FrameId) : Option FrameId := h.frames[e]?.bind Frame.parent

def Binds (h : Heap) (e : FrameId) (name : Text) : Prop :=
  ((h.bindings e).lookup name).isSome = true

instance (h : Heap) (e : FrameId) (name : Text) : Decidable (h.Binds e name) :=
  inferInstanceAs (Decidable (_ = true))

def Ordered (h : Heap) : Prop := ∀ e p, h.parent? e = some p → p < e

inductive Chain (h : Heap) : FrameId → List FrameId → Prop
  | outermost {e : FrameId} : e < h.frames.size → h.parent? e = none → Chain h e [e]
  | inside {e p : FrameId} {l : List FrameId} : h.parent? e = some p → Chain h p l →
      Chain h e (e :: l)

inductive Finds (h : Heap) (name : Text) : FrameId → FrameId → Prop
  | here {e : FrameId} : h.Binds e name → Finds h name e e
  | outside {e p a : FrameId} : ¬ h.Binds e name → h.parent? e = some p → Finds h name p a →
      Finds h name e a

theorem lt_size_of_parent? (hp : h.parent? e = some p) : e < h.frames.size := by
  refine Nat.lt_of_not_le fun hle => ?_
  rw [parent?, Array.getElem?_eq_none hle] at hp
  cases hp

theorem Binds.lt_size (hb : h.Binds e name) : e < h.frames.size := by
  refine Nat.lt_of_not_le fun hle => ?_
  rw [Binds, bindings, Array.getElem?_eq_none hle] at hb
  cases hb

namespace Finds

private theorem lt_size (hf : h.Finds name e a) : e < h.frames.size := by
  cases hf with
  | here hb => exact hb.lt_size
  | outside _ hp _ => exact lt_size_of_parent? hp

theorem binds (hf : h.Finds name e a) : h.Binds a name := by
  induction hf with
  | here hb => exact hb
  | outside _ _ _ ih => exact ih

theorem unique (hf : h.Finds name e a) (hf' : h.Finds name e b) : a = b := by
  induction hf with
  | here hb =>
    cases hf' with
    | here _ => rfl
    | outside hnot _ _ => exact absurd hb hnot
  | outside hnot hp _ ih =>
    cases hf' with
    | here hb => exact absurd hb hnot
    | outside _ hp' hrest =>
      cases hp.symm.trans hp'
      exact ih hrest

end Finds

/-! ### Looking outward -/

def ownerWithin (h : Heap) (name : Text) : Nat → FrameId → Option FrameId
  | 0, _ => none
  | n + 1, e => if h.Binds e name then some e else (h.parent? e).bind (h.ownerWithin name n)

def owner? (h : Heap) (e : FrameId) (name : Text) : Option FrameId :=
  h.ownerWithin name h.frames.size e

private theorem Finds.of_ownerWithin {n : Nat} (ho : h.ownerWithin name n e = some a) :
    h.Finds name e a := by
  induction n generalizing e with
  | zero => cases ho
  | succ n ih =>
    rw [ownerWithin] at ho
    split at ho
    · rename_i hb
      cases ho
      exact .here hb
    · rename_i hnot
      obtain ⟨p, hp, hrest⟩ := Option.bind_eq_some_iff.1 ho
      exact .outside hnot hp (ih hrest)

private theorem Finds.ownerWithin (hord : h.Ordered) (hf : h.Finds name e a)
    {n : Nat} (hn : e < n) :
    h.ownerWithin name n e = some a := by
  induction hf generalizing n with
  | here hb =>
    obtain ⟨n, rfl⟩ := Nat.exists_eq_succ_of_ne_zero (Nat.ne_zero_of_lt hn)
    rw [Heap.ownerWithin, if_pos hb]
  | @outside e p a hnot hp _ ih =>
    obtain ⟨n, rfl⟩ := Nat.exists_eq_succ_of_ne_zero (Nat.ne_zero_of_lt hn)
    have hlt : p < n := Nat.lt_of_lt_of_le (hord e p hp) (Nat.le_of_lt_succ hn)
    rw [Heap.ownerWithin, if_neg hnot, hp]
    exact ih hlt

theorem Ordered.owner?_eq_some_iff (hord : h.Ordered) :
    h.owner? e name = some a ↔ h.Finds name e a :=
  ⟨Finds.of_ownerWithin, fun hf => hf.ownerWithin hord hf.lt_size⟩

private theorem binds_iff : h.Binds e name ↔ ((h.bindings e).lookup name).isSome = true := Iff.rfl

private theorem getWithin_succ (h : Heap) (name : Text) (n : Nat) (e : FrameId) :
    h.getWithin name (n + 1) e =
      if h.Binds e name then (h.bindings e).lookup name
      else (h.parent? e).bind (h.getWithin name n) := by
  simp only [binds_iff, getWithin, bindings, parent?]
  cases h.frames[e]? with
  | none => rfl
  | some f =>
    dsimp only
    cases f.bindings.lookup name with
    | some v => rfl
    | none => cases hp : f.parent <;> simp [hp]

private theorem assignWithin_succ (h : Heap) (name : Text) (v : Value) (n : Nat) (e : FrameId) :
    h.assignWithin name v (n + 1) e =
      if h.Binds e name then some (h.define e name v)
      else (h.parent? e).bind (h.assignWithin name v n) := by
  simp only [binds_iff, assignWithin, bindings, parent?]
  cases h.frames[e]? with
  | none => rfl
  | some f =>
    dsimp only
    split
    · rfl
    · cases hp : f.parent <;> simp [hp]

private theorem hasWithin_succ (h : Heap) (name : Text) (n : Nat) (e : FrameId) :
    h.hasWithin name (n + 1) e =
      if h.Binds e name then true else (h.parent? e).any (h.hasWithin name n) := by
  simp only [binds_iff, hasWithin, bindings, parent?]
  cases h.frames[e]? with
  | none => rfl
  | some f =>
    dsimp only
    by_cases hb : (f.bindings.lookup name).isSome = true
    · rw [if_pos hb, hb, Bool.true_or]
    · cases hp : f.parent <;> simp [hb, hp]

private theorem getWithin_eq (h : Heap) (name : Text) (n : Nat) (e : FrameId) :
    h.getWithin name n e = (h.ownerWithin name n e).bind fun a => (h.bindings a).lookup name := by
  induction n generalizing e with
  | zero => rfl
  | succ n ih =>
    rw [getWithin_succ, ownerWithin]
    split
    · rfl
    · cases h.parent? e with
      | none => rfl
      | some p => exact ih p

private theorem assignWithin_eq (h : Heap) (name : Text) (v : Value) (n : Nat) (e : FrameId) :
    h.assignWithin name v n e = (h.ownerWithin name n e).map fun a => h.define a name v := by
  induction n generalizing e with
  | zero => rfl
  | succ n ih =>
    rw [assignWithin_succ, ownerWithin]
    split
    · rfl
    · cases h.parent? e with
      | none => rfl
      | some p => exact ih p

private theorem hasWithin_eq (h : Heap) (name : Text) (n : Nat) (e : FrameId) :
    h.hasWithin name n e = (h.ownerWithin name n e).isSome := by
  induction n generalizing e with
  | zero => rfl
  | succ n ih =>
    rw [hasWithin_succ, ownerWithin]
    split
    · rfl
    · cases h.parent? e with
      | none => rfl
      | some p => exact ih p

theorem get?_eq_bind (h : Heap) (e : FrameId) (name : Text) :
    h.get? e name = (h.owner? e name).bind fun a => (h.bindings a).lookup name :=
  h.getWithin_eq name _ e

theorem assign?_eq_map (h : Heap) (e : FrameId) (name : Text) (v : Value) :
    h.assign? e name v = (h.owner? e name).map fun a => h.define a name v :=
  h.assignWithin_eq name v _ e

theorem has_eq_isSome (h : Heap) (e : FrameId) (name : Text) :
    h.has e name = (h.owner? e name).isSome :=
  h.hasWithin_eq name _ e

theorem ancestor?_succ (h : Heap) (d : Nat) (e : FrameId) :
    h.ancestor? (d + 1) e = (h.parent? e).bind (h.ancestor? d) := by
  rw [ancestor?, parent?]
  cases h.frames[e]? with
  | none => rfl
  | some f =>
    obtain ⟨p, bs⟩ := f
    cases p <;> rfl

theorem getAt?_eq_bind (h : Heap) (e : FrameId) (d : Int) (name : Text) :
    h.getAt? e d name = (h.ancestor? d.toNat e).bind fun a => (h.bindings a).lookup name := by
  unfold getAt?
  cases h.ancestor? d.toNat e <;> rfl

theorem getAt?_succ (h : Heap) (e : FrameId) (d : Nat) (name : Text) :
    h.getAt? e ((d + 1 : Nat) : Int) name = (h.parent? e).bind fun p => h.getAt? p d name := by
  rw [getAt?_eq_bind, Int.toNat_natCast, ancestor?_succ]
  cases h.parent? e with
  | none => rfl
  | some p => rw [Option.bind_some, Option.bind_some, getAt?_eq_bind, Int.toNat_natCast]

theorem exists_finds_of_getAt? {d : Nat} (hd : (h.getAt? e d name).isSome = true) :
    ∃ a, h.Finds name e a := by
  induction d generalizing e with
  | zero => exact ⟨e, .here hd⟩
  | succ d ih =>
    by_cases hb : h.Binds e name
    · exact ⟨e, .here hb⟩
    · rw [getAt?_succ] at hd
      obtain ⟨v, hv⟩ := Option.isSome_iff_exists.1 hd
      obtain ⟨p, hp, hat⟩ := Option.bind_eq_some_iff.1 hv
      obtain ⟨a, ha⟩ := ih (Option.isSome_iff_exists.2 ⟨v, hat⟩)
      exact ⟨a, .outside hb hp ha⟩

theorem Finds.ancestor? {d : Nat} (hf : h.Finds name e a)
    (hd : (h.getAt? e d name).isSome = true) (hleast : ∀ i < d, h.getAt? e i name = none) :
    h.ancestor? d e = some a := by
  induction hf generalizing d with
  | @here e hb =>
    cases d with
    | zero => rfl
    | succ d =>
      have hnone : (h.bindings e).lookup name = none := hleast 0 (Nat.succ_pos d)
      rw [Binds, hnone] at hb
      cases hb
  | @outside e p a hnot hp _ ih =>
    cases d with
    | zero => exact absurd hd hnot
    | succ d =>
      rw [getAt?_succ, hp] at hd
      rw [ancestor?_succ, hp]
      refine ih hd fun i hi => ?_
      have hnone := hleast (i + 1) (Nat.succ_lt_succ hi)
      rwa [getAt?_succ, hp] at hnone

theorem Finds.exists_getAt? (hf : h.Finds name e a) :
    ∃ d : Nat, h.ancestor? d e = some a ∧ (h.getAt? e d name).isSome = true := by
  induction hf with
  | here hb => exact ⟨0, rfl, hb⟩
  | @outside e p a _ hp _ ih =>
    obtain ⟨d, ha, hd⟩ := ih
    exact ⟨d + 1, by rw [ancestor?_succ, hp]; exact ha, by rw [getAt?_succ, hp]; exact hd⟩

/-! ### Ends of chains -/

theorem Ordered.exists_chain (hord : h.Ordered) (he : e < h.frames.size) :
    ∃ l, h.Chain e l := by
  induction e using Nat.strongRecOn with
  | _ e ih =>
    cases hp : h.parent? e with
    | none => exact ⟨[e], .outermost he hp⟩
    | some p =>
      have hlt := hord e p hp
      obtain ⟨l, hl⟩ := ih p hlt (Nat.lt_trans hlt he)
      exact ⟨e :: l, .inside hp hl⟩

namespace Chain

variable {l : List FrameId}

private theorem head? (hc : h.Chain e l) : l.head? = some e := by
  cases hc <;> rfl

private theorem le (hord : h.Ordered) (hc : h.Chain e l) : ∀ b ∈ l, b ≤ e := by
  induction hc with
  | outermost _ _ =>
    intro b hb
    exact Nat.le_of_eq (List.mem_singleton.1 hb)
  | @inside e p l hp _ ih =>
    refine List.forall_mem_cons.2 ⟨Nat.le_refl e, fun b hb => ?_⟩
    exact Nat.le_of_lt (Nat.lt_of_le_of_lt (ih b hb) (hord e p hp))

theorem pairwise (hord : h.Ordered) (hc : h.Chain e l) : l.Pairwise (· > ·) := by
  induction hc with
  | outermost _ _ => exact List.pairwise_singleton _ _
  | @inside e p l hp hrest ih =>
    exact .cons (fun b hb => Nat.lt_of_le_of_lt (hrest.le hord b hb) (hord e p hp)) ih

theorem finds_iff (hc : h.Chain e l) : h.Finds name e a ↔
    ∃ before after, l = before ++ a :: after ∧ h.Binds a name ∧ ∀ b ∈ before, ¬ h.Binds b name := by
  constructor
  · intro hf
    induction hf generalizing l with
    | @here e hb =>
      obtain ⟨r, rfl⟩ := List.head?_eq_some_iff.1 hc.head?
      exact ⟨[], r, rfl, hb, List.forall_mem_nil _⟩
    | outside hnot hp _ ih =>
      cases hc with
      | outermost _ hp' => cases hp.symm.trans hp'
      | inside hp' hrest =>
        cases hp.symm.trans hp'
        obtain ⟨before, after, rfl, hb, hbefore⟩ := ih hrest
        exact ⟨_ :: before, after, rfl, hb, List.forall_mem_cons.2 ⟨hnot, hbefore⟩⟩
  · rintro ⟨before, after, hl, hb, hbefore⟩
    induction hc generalizing before with
    | outermost _ _ =>
      cases before with
      | nil =>
        cases hl
        exact .here hb
      | cons c before => cases before <;> cases hl
    | inside hp _ ih =>
      cases before with
      | nil =>
        cases hl
        exact .here hb
      | cons c before =>
        cases hl
        obtain ⟨hnot, hbefore⟩ := List.forall_mem_cons.1 hbefore
        exact .outside hnot hp (ih before rfl hbefore)

end Chain

end Lox.Heap

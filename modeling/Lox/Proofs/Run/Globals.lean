import Lox.Proofs.Run.Heap
import Lox.Proofs.Run.Keeps

set_option autoImplicit false
set_option relaxedAutoImplicit false

namespace Lox

namespace Heap

theorem mem_names_iff {h : Heap} {e : FrameId} {n : Text} :
    n ∈ h.names e ↔ ((h.bindings e).lookup n).isSome = true := by
  unfold names
  induction h.bindings e with
  | nil => simp
  | cons b bs ih =>
    obtain ⟨k, v⟩ := b
    by_cases hn : n = k
    · simp [hn]
    · rw [Bindings.lookup_cons_ne hn, ← ih]
      simp [hn]

theorem bindings_define (h : Heap) (e e' : FrameId) (name : Text) (v : Value) :
    (h.define e name v).bindings e' =
      if e = e' ∧ e < h.frames.size then Bindings.bind (h.bindings e') name v
      else h.bindings e' := by
  unfold bindings
  rw [getElem?_define]
  by_cases he : e = e'
  · subst he
    by_cases hsize : e < h.frames.size
    · simp [hsize]
    · simp [hsize]
  · simp [he]

private theorem mem_names_define {h : Heap} {e e' : FrameId} {name n : Text} {v : Value} :
    n ∈ (h.define e name v).names e' ↔
      n ∈ h.names e' ∨ (e = e' ∧ e < h.frames.size ∧ n = name) := by
  rw [mem_names_iff, mem_names_iff, bindings_define]
  by_cases he : e = e' ∧ e < h.frames.size
  · rw [if_pos he, Bindings.lookup_bind]
    by_cases hn : n = name
    · rw [if_pos hn]
      exact ⟨fun _ => .inr ⟨he.1, he.2, hn⟩, fun _ => rfl⟩
    · simp only [hn, if_false, and_false, or_false]
  · rw [if_neg he]
    constructor
    · exact .inl
    · rintro (hn | ⟨heq, hsize, -⟩)
      · exact hn
      · exact absurd ⟨heq, hsize⟩ he

@[simp] theorem size_define (h : Heap) (e : FrameId) (name : Text) (v : Value) :
    (h.define e name v).frames.size = h.frames.size := by
  simp [define]

private theorem mem_names_child {h : Heap} {p e : FrameId} {bs : Bindings} {n : Text}
    (he : e < h.frames.size) : n ∈ (h.child p bs).2.names e ↔ n ∈ h.names e := by
  unfold names bindings child
  simp [Array.getElem?_push, Nat.ne_of_lt he]

end Heap

/-- Globals exist and are never lost, and only some names are added to them. -/
def globalsAgreement (st : Settings) (added : Text → Prop) : Agreement st where
  inv m := 0 < m.heap.frames.size
  may e n := e = Heap.globals → added n
  rel m m' := (∀ n ∈ m.globalNames, n ∈ m'.globalNames) ∧
    ∀ n ∈ m'.globalNames, n ∈ m.globalNames ∨ added n
  refl m := ⟨fun _ => id, fun _ => .inl⟩
  trans h h' := ⟨fun n hn => h'.1 n (h.1 n hn), fun n hn => (h'.2 n hn).elim (h.2 n) .inr⟩
  define e name v hm hmay := by
    refine ⟨by rwa [Heap.size_define], fun n hn => Heap.mem_names_define.2 (.inl hn),
      fun n hn => ?_⟩
    rcases Heap.mem_names_define.1 hn with hold | ⟨rfl, -, rfl⟩
    · exact .inl hold
    · exact hmay.symm.imp Heap.mem_names_iff.2 fun h => h rfl
  newFrame parent bs hm := by
    refine ⟨fun n hglobals => absurd hglobals (Nat.ne_of_gt hm), ?_, fun n hn =>
      ?_, fun n hn => .inl ?_⟩
    · exact Nat.lt_of_lt_of_le hm (by simp [Heap.child])
    · exact (Heap.mem_names_child hm).2 hn
    · exact (Heap.mem_names_child hm).1 hn
  other _ _ _ _ hm := ⟨hm, fun _ => id, fun _ => .inl⟩
  call span name hm _ := by
    rw [Run.machine_emit]
    refine ⟨hm, fun m' hm' hrel => ?_⟩
    rw [Run.machine_emit]
    exact ⟨hm', hrel⟩

private theorem Run.bind_eq_done {α β : Type} {x : Run α} {k : α → Run β} {m m' : Machine} {b : β}
    (h : (x >>= k) m = .done b m') : ∃ a m₁, x m = .done a m₁ ∧ k a m₁ = .done b m' := by
  change Run.andThen x k m = _ at h
  unfold Run.andThen at h
  cases hx : x m with
  | done a m₁ =>
    rw [hx] at h
    exact ⟨a, m₁, rfl, h⟩
  | failed f m₁ | exhausted m₁ =>
    rw [hx] at h
    cases h

namespace Eval

variable {st : Settings} {fuel : Nat} {m m' : Machine}

private theorem globals_kept {α : Type} {x : Run α} {a : α} (hm : 0 < m.heap.frames.size)
    (hx : Keeps (globalsAgreement st fun _ => True) x) (hrun : x m = .done a m') :
    0 < m'.heap.frames.size ∧ ∀ n ∈ m.globalNames, n ∈ m'.globalNames := by
  have hends := hx m hm
  rw [hrun] at hends
  exact ⟨hends.1, hends.2.1⟩

private theorem mem_globalNames_define (hm : 0 < m.heap.frames.size) (name : Text) (v : Value) :
    name ∈ ({ m with heap := m.heap.define Heap.globals name v } : Machine).globalNames :=
  Heap.mem_names_define.2 (.inr ⟨rfl, hm, rfl⟩)

private theorem globals_declared {s : Stmt} {signal : Signal} (hs : s.isDeclaration = true)
    (hm : 0 < m.heap.frames.size) (hrun : stmt st fuel s Heap.globals m = .done signal m') :
    ∀ n ∈ s.declared, n ∈ m'.globalNames := by
  have hP := Keeps.steps (globalsAgreement st fun _ => True)
  cases fuel with
  | zero =>
    rw [stmt] at hrun
    cases hrun
  | succ fuel =>
    rw [stmt.eq_def] at hrun
    cases s with
    | varDecl span name init =>
      intro n hn
      cases List.mem_singleton.1 hn
      cases init with
      | none =>
        cases hrun
        exact mem_globalNames_define hm name _
      | some e =>
        obtain ⟨v, m₁, hv, hrest⟩ := Run.bind_eq_done hrun
        cases hrest
        exact mem_globalNames_define (globals_kept hm ((holdsAt hP fuel).expr e _) hv).1 name v
    | funDecl d =>
      obtain ⟨span, name, params, body⟩ := d
      intro n hn
      cases List.mem_singleton.1 hn
      cases hrun
      exact mem_globalNames_define hm name _
    | classDecl span name sup methods statics =>
      intro n hn
      cases List.mem_singleton.1 hn
      -- The name is bound before the class is made, and is not lost while that is done.
      have hmade : ∀ (sup : Option Class) (closure : FrameId),
          Keeps (globalsAgreement st fun _ => True)
            (newClass name sup methods statics closure Heap.globals >>= fun _ =>
              Run.give Signal.normal) :=
        fun sup closure => hP.bind (hP.newClass (fun _ => trivial) _ _ _ _) fun _ => hP.give _
      cases sup with
      | none =>
        have hdefined := mem_globalNames_define hm name .nil
        exact (globals_kept (by simpa) (hmade _ _) hrun).2 name hdefined
      | some sup =>
        obtain ⟨v, m₁, hv, hrest⟩ := Run.bind_eq_done hrun
        have hm₁ := (globals_kept hm (hP.readName _ _ _ _) hv).1
        cases v with
        | cls c =>
          exact (globals_kept (by simpa) (hP.newFrame _ _ fun inner _ => hmade _ inner) hrest).2
            name
            (mem_globalNames_define hm₁ name .nil)
        | _ => cases hrest
    | _ => cases hs

private theorem globals_script {ss : List Stmt}
    (hss : ∀ s ∈ ss, s.DeclaresAlways) (hm : 0 < m.heap.frames.size)
    (hrun : script st fuel ss m = .done () m') :
    ∀ n ∈ ss.flatMap Stmt.declared, n ∈ m'.globalNames := by
  induction ss generalizing m with
  | nil => nofun
  | cons s r ih =>
    intro n hdeclared
    obtain ⟨signal, m₁, hs, hrest⟩ := Run.bind_eq_done hrun
    have hm₁ := (globals_kept hm ((holdsAt (Keeps.steps _) fuel).stmt fun _ _ _ => trivial) hs).1
    cases signal with
    | normal =>
      rw [List.flatMap_cons, List.mem_append] at hdeclared
      rcases hdeclared with hdeclared | hdeclared
      · rcases hss s (.head r) with hdecl | hnone
        · have hbound := globals_declared hdecl hm hs n hdeclared
          exact (globals_kept hm₁ (keeps_script _ fuel r fun _ _ _ => trivial) hrest).2 n hbound
        · rw [hnone] at hdeclared
          cases hdeclared
      · exact ih (fun s hs => hss s (.tail _ hs)) hm₁ hrest n hdeclared
    | leaveLoop => cases hrest
    | leaveFunction v => cases hrest

theorem mem_globalNames_script {ss : List Stmt}
    (hss : ∀ s ∈ ss, s.DeclaresAlways) (hm : 0 < m.heap.frames.size)
    (hrun : script st fuel ss m = .done () m') (n : Text) :
    n ∈ m'.globalNames ↔ n ∈ m.globalNames ∨ n ∈ ss.flatMap Stmt.declared := by
  have hadded := keeps_script (globalsAgreement st (· ∈ ss.flatMap Stmt.declared)) fuel ss
    (fun n hn _ => hn) m hm
  rw [hrun] at hadded
  exact ⟨hadded.2.2 n, fun hn => hn.elim (hadded.2.1 n) (globals_script hss hm hrun n)⟩

end Eval
end Lox

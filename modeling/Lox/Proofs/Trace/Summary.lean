import Mathlib.Data.List.Basic
import Lox.Proofs.Run.Calls
import Lox.Proofs.Trace.Reading

set_option autoImplicit false
set_option relaxedAutoImplicit false

namespace Lox

/-! ### Names in order -/

namespace Text

private theorem le_iff (s t : Text) : s.le t = true ↔ s ≤ t := by
  induction s generalizing t with
  | nil => exact iff_of_true rfl (List.nil_le _)
  | cons a s ih =>
    cases t with
    | nil =>
      refine iff_of_false Bool.false_ne_true ?_
      rw [List.le_nil]
      exact List.cons_ne_nil a s
    | cons b t =>
      rw [le, List.cons_le_cons_iff]
      by_cases hab : a = b
      · have hirrefl : ¬ a < b := by
          rw [hab]
          exact UInt8.lt_irrefl b
        rw [if_pos hab, ih]
        exact ⟨fun h => .inr ⟨hab, h⟩, fun h => (h.resolve_left hirrefl).2⟩
      · rw [if_neg hab, decide_eq_true_eq]
        exact ⟨.inl, fun h => h.resolve_right fun h => hab h.1⟩

private theorem lt_of_le {s t : Text} (h : s.le t = true) (hne : t ≠ s) : s < t := by
  by_contra hlt
  exact hne (List.le_antisymm (List.not_lt.1 hlt) ((le_iff s t).1 h))

private theorem lt_of_not_le {s t : Text} (h : ¬ s.le t = true) : t < s := by
  rwa [le_iff, List.not_le] at h

end Text

namespace Trace

def Ordered (ns : List (Text × Nat)) : Prop := ns.Pairwise fun a b => a.1 < b.1

/-- How often a name has been counted. -/
def counted (ns : List (Text × Nat)) (name : Text) : Nat := (ns.lookup name).getD 0

section

variable {name : Text} {ns : List (Text × Nat)}

private theorem of_mem_countName {p : Text × Nat} (h : p ∈ countName name ns) :
    p.1 = name ∨ ∃ q ∈ ns, q.1 = p.1 := by
  induction ns with
  | nil =>
    rw [countName, List.mem_singleton] at h
    exact .inl (congrArg Prod.fst h)
  | cons q ns ih =>
    obtain ⟨k, n⟩ := q
    unfold countName at h
    split at h
    · rcases List.mem_cons.1 h with rfl | hp
      · exact .inr ⟨_, List.mem_cons_self, rfl⟩
      · exact .inr ⟨p, List.mem_cons_of_mem _ hp, rfl⟩
    · split at h
      · rcases List.mem_cons.1 h with rfl | hp
        · exact .inl rfl
        · exact .inr ⟨p, hp, rfl⟩
      · rcases List.mem_cons.1 h with rfl | hp
        · exact .inr ⟨_, List.mem_cons_self, rfl⟩
        · rcases ih hp with hname | ⟨q, hq, heq⟩
          · exact .inl hname
          · exact .inr ⟨q, List.mem_cons_of_mem _ hq, heq⟩

private theorem Ordered.before {k : Text} {n : Nat} (h : Ordered ((k, n) :: ns)) (hlt : name < k) :
    ∀ p ∈ (k, n) :: ns, name < p.1 := by
  intro p hp
  rcases List.mem_cons.1 hp with rfl | hp
  · exact hlt
  · exact List.lt_trans hlt ((List.pairwise_cons.1 h).1 p hp)

private theorem Ordered.countName (h : Ordered ns) (name : Text) : Ordered (countName name ns) := by
  induction ns with
  | nil => exact List.pairwise_singleton _ _
  | cons q ns ih =>
    obtain ⟨k, n⟩ := q
    obtain ⟨hfirst, hrest⟩ := List.pairwise_cons.1 h
    unfold Trace.countName
    split
    · exact List.pairwise_cons.2 ⟨hfirst, hrest⟩
    · rename_i hne
      split
      · rename_i hle
        exact List.pairwise_cons.2 ⟨h.before (Text.lt_of_le hle hne), h⟩
      · rename_i hle
        have hlt : k < name := Text.lt_of_not_le hle
        refine List.pairwise_cons.2 ⟨?_, ih hrest⟩
        intro p hp
        rcases of_mem_countName hp with hname | ⟨q, hq, heq⟩
        · rw [hname]
          exact hlt
        · rw [← heq]
          exact hfirst q hq

private theorem counted_cons (k : Text) (n : Nat) (ns : List (Text × Nat)) (name : Text) :
    counted ((k, n) :: ns) name = if name = k then n else counted ns name := by
  unfold counted
  rw [List.lookup_cons]
  by_cases h : name = k
  · rw [if_pos h, beq_iff_eq.2 h]
    rfl
  · rw [if_neg h, beq_eq_false_iff_ne.2 h]

private theorem counted_eq_zero (h : ∀ p ∈ ns, name < p.1) : counted ns name = 0 := by
  have hnone : ns.lookup name = none := by
    rw [List.lookup_eq_none_iff]
    intro p hp
    rw [bne_iff_ne]
    intro heq
    exact List.lt_irrefl p.1 (heq ▸ h p hp)
  rw [counted, hnone]
  rfl

private theorem counted_countName (h : Ordered ns) (name k : Text) :
    counted (countName name ns) k = counted ns k + if k = name then 1 else 0 := by
  induction ns with
  | nil =>
    rw [countName, counted_cons]
    split <;> rfl
  | cons q ns ih =>
    obtain ⟨k', n⟩ := q
    have hrest : Ordered ns := (List.pairwise_cons.1 h).2
    unfold countName
    split
    · rename_i heq
      rw [counted_cons, counted_cons, heq]
      split <;> omega
    · rename_i hne
      split
      · rename_i hle
        rw [counted_cons]
        split
        · rename_i hk
          rw [hk, counted_eq_zero (h.before (Text.lt_of_le hle hne))]
        · rfl
      · rw [counted_cons, counted_cons, ih hrest]
        split
        · rename_i hk
          rw [if_neg fun h => hne (hk.symm.trans h)]
          rfl
        · rfl

private theorem sum_countName (name : Text) (ns : List (Text × Nat)) :
    ((countName name ns).map Prod.snd).sum = (ns.map Prod.snd).sum + 1 := by
  induction ns with
  | nil => rfl
  | cons q ns ih =>
    obtain ⟨k, n⟩ := q
    unfold countName
    split
    · simp only [List.map_cons, List.sum_cons]
      omega
    · split
      · simp only [List.map_cons, List.sum_cons]
        omega
      · simp only [List.map_cons, List.sum_cons, ih]
        omega

end

/-! ### What is counted -/

/-- A summary has counted events of a run. -/
structure Summary.Counts (s : Summary) (run : Text) (es : List Event) : Prop where
  run : s.run = if es = [] then [] else run
  events : s.events = es.length
  calls : s.calls = starts es
  byName : ∀ name, counted s.callsByName name =
    es.countP fun e => e.kind == .callStart && e.name == name
  total : (s.callsByName.map Prod.snd).sum = s.calls
  ordered : Ordered s.callsByName
  maxDepth : s.maxDepth = deepest (es.filter (·.kind == .callStart))

private theorem kindName_injective {k k' : EventKind} (h : k.name = k'.name) : k = k' := by
  cases k <;> cases k' <;> first | rfl | exact absurd h (by decide)

namespace Summary

section

variable (s : Summary) (e : Entry)

private theorem add_events : (s.add e).events = s.events + 1 := by
  unfold add
  dsimp only
  split_ifs <;> rfl

private theorem add_run : (s.add e).run = if s.run.isEmpty then e.run else s.run := by
  unfold add
  dsimp only
  split_ifs <;> rfl

private theorem add_call (h : e.kind = EventKind.callStart.name) : (s.add e).calls = s.calls + 1 ∧
    (s.add e).callsByName = countName e.name s.callsByName ∧
    (s.add e).maxDepth = max s.maxDepth e.depth := by
  have hstart : e.kind ≠ EventKind.runStart.name := by
    rw [h]
    decide
  have hend : e.kind ≠ EventKind.runEnd.name := by
    rw [h]
    decide
  unfold add
  dsimp only
  rw [if_neg hstart, if_neg hend, if_pos h]
  exact ⟨rfl, rfl, rfl⟩

private theorem add_other (h : e.kind ≠ EventKind.callStart.name) : (s.add e).calls = s.calls ∧
    (s.add e).callsByName = s.callsByName ∧ (s.add e).maxDepth = s.maxDepth := by
  unfold add
  dsimp only
  split_ifs <;> exact ⟨rfl, rfl, rfl⟩

end

theorem Counts.nil (run : Text) : ({} : Summary).Counts run [] where
  run := rfl
  events := rfl
  calls := rfl
  byName _ := rfl
  total := rfl
  ordered := List.Pairwise.nil
  maxDepth := rfl

private theorem Counts.add {s : Summary} {run : Text} {es : List Event}
    (h : s.Counts run es) {x : Stamped}
    (hx : x.run = run) : (s.add x.entry).Counts run (es ++ [x.event]) := by
  have hrun : (s.add x.entry).run = if es ++ [x.event] = [] then [] else run := by
    rw [add_run, h.run]
    by_cases hes : es = [] <;> simp [hes, Stamped.entry, hx]
  have hevents : (s.add x.entry).events = (es ++ [x.event]).length := by
    rw [add_events, h.events, List.length_append, List.length_singleton]
  by_cases hkind : x.event.kind = .callStart
  · obtain ⟨hcalls, hnames, hdepth⟩ := add_call s x.entry (congrArg EventKind.name hkind)
    have hstarts : starts (es ++ [x.event]) = starts es + 1 := by
      rw [starts_append]
      simp [starts, hkind]
    refine ⟨hrun, hevents, ?_, ?_, ?_, ?_, ?_⟩
    · rw [hcalls, h.calls, hstarts]
    · intro name
      rw [hnames, counted_countName h.ordered, h.byName, List.countP_append]
      simp only [List.countP_singleton, Stamped.entry, hkind, beq_self_eq_true,
        Bool.true_and, beq_iff_eq,
        eq_comm (a := name)]
    · rw [hnames, hcalls, sum_countName, h.total]
    · rw [hnames]
      exact h.ordered.countName _
    · rw [hdepth, h.maxDepth, List.filter_append, deepest_append]
      simp [hkind, Stamped.entry]
  · have hname : x.event.kind.name ≠ EventKind.callStart.name :=
      fun h => hkind (kindName_injective h)
    obtain ⟨hcalls, hnames, hdepth⟩ := add_other s x.entry hname
    refine ⟨hrun, hevents, ?_, ?_, ?_, ?_, ?_⟩
    · rw [hcalls, h.calls, starts_append]
      simp [starts, hkind]
    · intro name
      rw [hnames, h.byName, List.countP_append]
      simp [hkind]
    · rw [hnames, hcalls, h.total]
    · rw [hnames]
      exact h.ordered
    · rw [hdepth, h.maxDepth, List.filter_append, deepest_append]
      simp [hkind]

private theorem Counts.foldl {s : Summary} {run : Text} {es : List Event} (h : s.Counts run es)
    {xs : List Stamped} (hxs : ∀ x ∈ xs, x.run = run) :
    ((xs.map Stamped.entry).foldl Summary.add s).Counts run (es ++ xs.map Stamped.event) := by
  induction xs generalizing s es with
  | nil =>
    rw [List.map_nil, List.map_nil, List.append_nil]
    exact h
  | cons x xs ih =>
    obtain ⟨hx, hxs⟩ := List.forall_mem_cons.1 hxs
    have hnext := ih (h.add hx) hxs
    rw [List.append_assoc] at hnext
    exact hnext

theorem read_write {c : Codec} {run : Text} {xs : List Stamped} (hrun : ∀ x ∈ xs, x.run = run)
    (h : ∀ x ∈ xs, c.RoundTrips x) :
    (read c (write c xs)).Counts run ((xs.takeWhile (isShort c)).map Stamped.event) := by
  rw [read, entries_write h]
  exact (Counts.nil run).foldl fun x hx => hrun x (List.takeWhile_subset _ hx)

theorem read_write_of_long {c : Codec} {run : Text} {xs : List Stamped}
    (hrun : ∀ x ∈ xs, x.run = run)
    (h : ∀ x ∈ xs, c.RoundTrips x) (hlong : ∀ x ∈ xs.head?, lineLimit ≤ (c.encode x).length) :
    (read c (write c xs)).Counts run [] := by
  have hcounts := read_write hrun h
  cases xs with
  | nil => exact hcounts
  | cons x xs =>
    have hfirst : ¬ isShort c x = true := by
      rw [isShort, decide_eq_true_eq, Nat.not_lt]
      exact hlong x rfl
    rwa [List.takeWhile_cons_of_neg hfirst] at hcounts

end Summary

end Trace

/-! ### Calls of a run -/

theorem CallWord.length {limit open_ : Nat} {w : List Event} (h : CallWord limit open_ w) :
    w.length = 2 * starts w := by
  induction h with
  | nil => rfl
  | call span name hlimit hinside hafter ihinside ihafter =>
    simp [starts] at ihinside ihafter ⊢
    omega

theorem CallWord.deepest {limit open_ : Nat} {w : List Event} (h : CallWord limit open_ w) :
    Lox.deepest (w.filter (·.kind == .callStart)) = Lox.deepest w := by
  induction h with
  | nil => rfl
  | call span name hlimit hinside hafter ihinside ihafter =>
    simp [ihinside, ihafter]
    omega

end Lox

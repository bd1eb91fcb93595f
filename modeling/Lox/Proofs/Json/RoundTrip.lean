import Lox.Proofs.Json.Numerals
import Lox.Proofs.Json.Strings

set_option autoImplicit false
set_option relaxedAutoImplicit false

namespace Lox.Json

open Text (lit)

/-! ### Values -/

mutual

def Integral : Json → Prop
  | .number n => ∃ i, n = Text.ofInt i
  | .array items => IntegralItems items
  | .object members => IntegralMembers members
  | _ => True

def IntegralItems : List Json → Prop
  | [] => True
  | j :: r => j.Integral ∧ IntegralItems r

def IntegralMembers : List (Text × Json) → Prop
  | [] => True
  | m :: r => m.2.Integral ∧ IntegralMembers r

end

mutual

def depth : Json → Nat
  | .array items => depthItems items + 1
  | .object members => depthMembers members + 1
  | _ => 0

def depthItems : List Json → Nat
  | [] => 0
  | j :: r => max j.depth (depthItems r)

def depthMembers : List (Text × Json) → Nat
  | [] => 0
  | m :: r => max m.2.depth (depthMembers r)

end

mutual

def repaired : Json → Json
  | .null => .null
  | .bool b => .bool b
  | .number n => .number n
  | .string t => .string t.repaired
  | .array items => .array (repairedItems items)
  | .object members => .object (repairedMembers members)

def repairedItems : List Json → List Json
  | [] => []
  | j :: r => j.repaired :: repairedItems r

/-- The members of an object with their names and all their strings repaired. -/
def repairedMembers : List (Text × Json) → List (Text × Json)
  | [] => []
  | m :: r => (m.1.repaired, m.2.repaired) :: repairedMembers r

end

/-! ### Where values begin -/

/-- A text that begins as a value does: not with a blank and not with a bracket that closes. -/
def Opens (t : Text) : Prop := ∃ b r, t = b :: r ∧ isBlank b = false ∧ b ≠ 93 ∧ b ≠ 125

private theorem opens_cons {b : UInt8} {r : Text} (h : isBlank b = false ∧ b ≠ 93 ∧ b ≠ 125) :
    Opens (b :: r) :=
  ⟨b, r, rfl, h⟩

private theorem Opens.append {t : Text} (h : Opens t) (r : Text) : Opens (t ++ r) := by
  obtain ⟨b, s, rfl, hb⟩ := h
  exact ⟨b, s ++ r, rfl, hb⟩

private theorem Opens.skipBlanks {t : Text} (h : Opens t) : skipBlanks t = t := by
  obtain ⟨b, r, rfl, hb, -⟩ := h
  unfold Json.skipBlanks
  rw [List.dropWhile_cons, hb]
  rfl

private theorem skipBlanks_cons {b : UInt8} (h : isBlank b = false) (r : Text) :
    skipBlanks (b :: r) = b :: r := by
  unfold skipBlanks
  rw [List.dropWhile_cons, h]
  rfl

private theorem ne_of_isDigit {b c : UInt8} (h : Byte.isDigit b = true)
    (hc : Byte.isDigit c = false) : b ≠ c := by
  rintro rfl
  rw [h] at hc
  cases hc

private theorem isBlank_of_isDigit {b : UInt8} (h : Byte.isDigit b = true) : isBlank b = false := by
  have hspace : b ≠ Byte.space := ne_of_isDigit h (by decide)
  have htab : b ≠ Byte.tab := ne_of_isDigit h (by decide)
  have hfeed : b ≠ Byte.lineFeed := ne_of_isDigit h (by decide)
  have hreturn : b ≠ Byte.carriageReturn := ne_of_isDigit h (by decide)
  simp [isBlank, hspace, htab, hfeed, hreturn]

private theorem exists_cons_ofInt (n : Int) :
    ∃ b r, Text.ofInt n = b :: r ∧ (b = 45 ∨ Byte.isDigit b = true) := by
  cases n with
  | ofNat n =>
    obtain ⟨d, ds, hcons⟩ := List.exists_cons_of_ne_nil (Text.ofNat_ne_nil n)
    exact ⟨d, ds, hcons, .inr (Text.isDigit_of_mem_ofNat (hcons ▸ List.mem_cons_self))⟩
  | negSucc n =>
    have hminus : lit "-" = [45] := by decide
    exact ⟨45, Text.ofNat (n + 1), by rw [Text.ofInt, hminus]; rfl, .inl rfl⟩

private theorem opens_ofInt (n : Int) : Opens (Text.ofInt n) := by
  obtain ⟨b, r, hcons, hb⟩ := exists_cons_ofInt n
  rw [hcons]
  rcases hb with rfl | hb
  · exact opens_cons (by decide)
  · exact opens_cons
      ⟨isBlank_of_isDigit hb, ne_of_isDigit hb (by decide), ne_of_isDigit hb (by decide)⟩

private theorem ofInt_visible (n : Int) {b : UInt8} (hb : b ∈ Text.ofInt n) : 32 ≤ b.toNat := by
  have hdigits : ∀ k, b ∈ Text.ofNat k → 32 ≤ b.toNat := by
    intro k hk
    have hdigit := Text.isDigit_of_mem_ofNat hk
    simp only [Byte.isDigit, Bool.and_eq_true, decide_eq_true_eq, UInt8.le_iff_toNat_le] at hdigit
    exact Nat.le_trans (by decide) hdigit.1
  cases n with
  | ofNat n => exact hdigits n hb
  | negSucc n =>
    have hminus : lit "-" = [45] := by decide
    rw [Text.ofInt, hminus, List.singleton_append, List.mem_cons] at hb
    rcases hb with rfl | hb
    · decide
    · exact hdigits _ hb

private theorem opens_quoted (t : Text) : Opens (quoted t) := by
  rw [quoted_eq]
  exact opens_cons (by decide)

private theorem opens_write {j : Json} (hj : j.Integral) : Opens j.write := by
  cases j with
  | null =>
    rw [write]
    exact opens_cons (by decide)
  | bool b =>
    cases b <;> exact opens_cons (by decide)
  | number n =>
    rw [Integral] at hj
    obtain ⟨i, rfl⟩ := hj
    rw [write]
    exact opens_ofInt i
  | string t =>
    rw [write]
    exact opens_quoted t
  | array items =>
    rw [write]
    exact opens_cons (by decide)
  | object members =>
    rw [write]
    exact opens_cons (by decide)

/-! ### Values inside a text -/

section

variable {room fuel : Nat} {rest : Text}

private theorem value?_number (n : Int) (h : Closes rest) :
    value? room (fuel + 1) (Text.ofInt n ++ rest) = some (.number (Text.ofInt n), rest) := by
  have hnumeral := numeral?_ofInt n h
  obtain ⟨b, r, hcons, hb⟩ := exists_cons_ofInt n
  have hne : ∀ c ∈ ([34, 91, 123, 110, 116, 102] : List UInt8), b ≠ c := by
    intro c hc
    simp only [List.mem_cons, List.not_mem_nil, or_false] at hc
    rcases hb with rfl | hb
    · rcases hc with rfl | rfl | rfl | rfl | rfl | rfl <;> decide
    · refine ne_of_isDigit hb ?_
      rcases hc with rfl | rfl | rfl | rfl | rfl | rfl <;> decide
  rw [hcons, List.cons_append] at hnumeral ⊢
  rw [value?, hnumeral]
  · rfl
  · exact List.cons_ne_nil _ _
  all_goals
    intro t ht
    exact absurd (List.cons.inj ht).1 (hne _ (by decide))

private theorem value?_string (t : Text) :
    value? room (fuel + 1) (quoted t ++ rest) = some (.string t.repaired, rest) := by
  rw [quoted_eq, List.cons_append, List.append_assoc]
  show (string? (t.runes.flatMap pieceOf ++ ([Byte.quote] ++ rest))).map _ = _
  rw [List.singleton_append, string?_quoted]
  rfl

private theorem value?_noItems :
    value? (room + 1) (fuel + 1) (91 :: 93 :: rest) = some (.array [], rest) := by
  have hbracket : skipBlanks (93 :: rest) = 93 :: rest := skipBlanks_cons rfl rest
  simp [value?, hbracket]

private theorem value?_items {body : Text} {js : List Json} (hbody : Opens body)
    (hitems : items? room fuel (body ++ 93 :: rest) = some (js, rest)) :
    value? (room + 1) (fuel + 1) (91 :: (body ++ 93 :: rest)) = some (.array js, rest) := by
  obtain ⟨b, r, rfl, hb, hbracket, -⟩ := hbody
  have hskip : skipBlanks (b :: (r ++ 93 :: rest)) = b :: (r ++ 93 :: rest) := skipBlanks_cons hb _
  rw [List.cons_append] at hitems ⊢
  simp [value?, hskip, hitems, hbracket]

private theorem value?_noMembers :
    value? (room + 1) (fuel + 1) (123 :: 125 :: rest) = some (.object [], rest) := by
  have hbrace : skipBlanks (125 :: rest) = 125 :: rest := skipBlanks_cons rfl rest
  simp [value?, hbrace]

private theorem value?_members {body : Text} {ms : List (Text × Json)} (hbody : Opens body)
    (hmembers : members? room fuel (body ++ 125 :: rest) = some (ms, rest)) :
    value? (room + 1) (fuel + 1) (123 :: (body ++ 125 :: rest)) = some (.object ms, rest) := by
  obtain ⟨b, r, rfl, hb, -, hbrace⟩ := hbody
  have hskip : skipBlanks (b :: (r ++ 125 :: rest)) = b :: (r ++ 125 :: rest) :=
    skipBlanks_cons hb _
  rw [List.cons_append] at hmembers ⊢
  simp [value?, hskip, hmembers, hbrace]

private theorem items?_last {t : Text} {j : Json} (hj : value? room fuel t = some (j, 93 :: rest)) :
    items? room (fuel + 1) t = some ([j], rest) := by
  have hskip : skipBlanks (93 :: rest) = 93 :: rest := skipBlanks_cons rfl rest
  simp [items?, hj, hskip]

private theorem items?_more {t more : Text} {j : Json} {js : List Json}
    (hj : value? room fuel t = some (j, 44 :: more)) (hmore : Opens more)
    (hjs : items? room fuel more = some (js, rest)) :
    items? room (fuel + 1) t = some (j :: js, rest) := by
  have hskip : skipBlanks (44 :: more) = 44 :: more := skipBlanks_cons rfl more
  simp [items?, hj, hskip, hmore.skipBlanks, hjs]

private theorem after?_colon (t : Text) : after? (lit ":") (58 :: t) = some t := by
  have hcolon : lit ":" = [58] := by decide
  simp [after?, hcolon]

private theorem members?_last {k t : Text} {j : Json} (ht : Opens t)
    (hj : value? room fuel t = some (j, 125 :: rest)) :
    members? room (fuel + 1) (quoted k ++ 58 :: t) = some ([(k.repaired, j)], rest) := by
  have hcolon : skipBlanks (58 :: t) = 58 :: t := skipBlanks_cons rfl t
  have hskip : skipBlanks (125 :: rest) = 125 :: rest := skipBlanks_cons rfl rest
  have hname : string? (k.runes.flatMap pieceOf ++ Byte.quote :: 58 :: t) =
      some (k.repaired, 58 :: t) :=
    string?_quoted k (58 :: t)
  rw [quoted_eq, List.cons_append, List.append_assoc, List.singleton_append]
  simp [members?, hname, hcolon, after?_colon, ht.skipBlanks, hj, hskip]

private theorem members?_more {k t more : Text} {j : Json} {ms : List (Text × Json)} (ht : Opens t)
    (hj : value? room fuel t = some (j, 44 :: more)) (hmore : Opens more)
    (hms : members? room fuel more = some (ms, rest)) :
    members? room (fuel + 1) (quoted k ++ 58 :: t) = some ((k.repaired, j) :: ms, rest) := by
  have hcolon : skipBlanks (58 :: t) = 58 :: t := skipBlanks_cons rfl t
  have hskip : skipBlanks (44 :: more) = 44 :: more := skipBlanks_cons rfl more
  have hname : string? (k.runes.flatMap pieceOf ++ Byte.quote :: 58 :: t) =
      some (k.repaired, 58 :: t) :=
    string?_quoted k (58 :: t)
  rw [quoted_eq, List.cons_append, List.append_assoc, List.singleton_append]
  simp [members?, hname, hcolon, after?_colon, ht.skipBlanks, hj, hskip, hmore.skipBlanks, hms]

private theorem join_one (t : Text) : Text.join (lit ",") [t] = t := List.intercalate_singleton

private theorem join_more (t t' : Text) (ts : List Text) :
    Text.join (lit ",") (t :: t' :: ts) = t ++ 44 :: Text.join (lit ",") (t' :: ts) := by
  have hcomma : lit "," = [44] := by decide
  rw [Text.join, List.intercalate_cons_cons, hcomma, List.append_assoc]
  rfl

end

private theorem length_write_pos {j : Json} (hj : j.Integral) : 0 < j.write.length := by
  obtain ⟨b, r, hcons, -⟩ := opens_write hj
  rw [hcons]
  exact Nat.succ_pos _

def itemsText (items : List Json) : Text := Text.join (lit ",") (writeItems items)

def membersText (members : List (Text × Json)) : Text := Text.join (lit ",") (writeMembers members)

private theorem write_array (items : List Json) :
    write (.array items) = 91 :: (itemsText items ++ [93]) := by
  have hopening : lit "[" = [91] := by decide
  have hclosing : lit "]" = [93] := by decide
  rw [write, hopening, hclosing]
  rfl

theorem write_object (members : List (Text × Json)) :
    write (.object members) = 123 :: (membersText members ++ [125]) := by
  have hopening : lit "\x7b" = [123] := by decide
  have hclosing : lit "\x7d" = [125] := by decide
  rw [write, hopening, hclosing]
  rfl

private theorem itemsText_one (j : Json) : itemsText [j] = j.write := by
  rw [itemsText, writeItems, writeItems, join_one]

private theorem itemsText_more (j j' : Json) (js : List Json) :
    itemsText (j :: j' :: js) = j.write ++ 44 :: itemsText (j' :: js) := by
  rw [itemsText, writeItems, writeItems, join_more, ← writeItems]
  rfl

private theorem membersText_one (k : Text) (j : Json) :
    membersText [(k, j)] = quoted k ++ 58 :: j.write := by
  have hcolon : lit ":" = [58] := by decide
  rw [membersText, writeMembers, writeMembers, join_one, hcolon, List.append_assoc]
  rfl

private theorem membersText_more (k : Text) (j : Json) (m : Text × Json) (ms : List (Text × Json)) :
    membersText ((k, j) :: m :: ms) = quoted k ++ 58 ::
      (j.write ++ 44 :: membersText (m :: ms)) := by
  have hcolon : lit ":" = [58] := by decide
  rw [membersText, writeMembers, writeMembers, join_more, ← writeMembers, hcolon, List.append_assoc,
    List.append_assoc]
  rfl

private theorem opens_itemsText {j : Json} (hj : j.Integral) (js : List Json) :
    Opens (itemsText (j :: js)) := by
  cases js with
  | nil =>
    rw [itemsText_one]
    exact opens_write hj
  | cons j' js =>
    rw [itemsText_more]
    exact (opens_write hj).append _

private theorem opens_membersText (m : Text × Json) (ms : List (Text × Json)) :
    Opens (membersText (m :: ms)) := by
  cases ms with
  | nil =>
    rw [membersText_one]
    exact (opens_quoted m.1).append _
  | cons m' ms =>
    rw [membersText_more]
    exact (opens_quoted m.1).append _

mutual

/-- A value that is written inside a text is read back. Two steps for each of its bytes are enough.
-/
theorem value?_write : ∀ (j : Json) {room fuel : Nat} {rest : Text}, j.Integral → j.depth ≤ room →
    2 * j.write.length ≤ fuel → Closes rest →
      value? room fuel (j.write ++ rest) = some (j.repaired, rest)
  | j, room, 0, rest, hj, hroom, hfuel, hrest => by
    have hpos := length_write_pos hj
    omega
  | .null, room, fuel + 1, rest, hj, hroom, hfuel, hrest => by
    rw [write, repaired]
    exact value?_null room _ rest
  | .bool b, room, fuel + 1, rest, hj, hroom, hfuel, hrest => by
    rw [write, repaired]
    exact value?_bool room _ b rest
  | .number n, room, fuel + 1, rest, hj, hroom, hfuel, hrest => by
    rw [Integral] at hj
    obtain ⟨i, rfl⟩ := hj
    rw [write, repaired]
    exact value?_number i hrest
  | .string t, room, fuel + 1, rest, hj, hroom, hfuel, hrest => by
    rw [write, repaired]
    exact value?_string t
  | .array [], room + 1, fuel + 1, rest, hj, hroom, hfuel, hrest => by
    have hbrackets : write (.array []) = [91, 93] := by decide
    rw [hbrackets, repaired, repairedItems]
    exact value?_noItems
  | .array (j :: js), room + 1, fuel + 1, rest, hj, hroom, hfuel, hrest => by
    rw [Integral] at hj
    rw [depth] at hroom
    have hopens : Opens (itemsText (j :: js)) :=
      opens_itemsText (by rw [IntegralItems] at hj; exact hj.1) js
    rw [write_array] at hfuel ⊢
    rw [List.length_cons, List.length_append, List.length_singleton] at hfuel
    have hitems : items? room fuel (itemsText (j :: js) ++ 93 :: rest) =
        some (repairedItems (j :: js), rest) :=
      items?_write (j :: js) (List.cons_ne_nil _ _) hj (Nat.le_of_succ_le_succ hroom) (by omega)
    rw [repaired, List.cons_append, List.append_assoc]
    exact value?_items hopens hitems
  | .array items, 0, fuel + 1, rest, hj, hroom, hfuel, hrest => by
    rw [depth] at hroom
    omega
  | .object [], room + 1, fuel + 1, rest, hj, hroom, hfuel, hrest => by
    have hbraces : write (.object []) = [123, 125] := by decide
    rw [hbraces, repaired, repairedMembers]
    exact value?_noMembers
  | .object (m :: ms), room + 1, fuel + 1, rest, hj, hroom, hfuel, hrest => by
    rw [Integral] at hj
    rw [depth] at hroom
    have hopens : Opens (membersText (m :: ms)) := opens_membersText m ms
    rw [write_object] at hfuel ⊢
    rw [List.length_cons, List.length_append, List.length_singleton] at hfuel
    have hmembers : members? room fuel (membersText (m :: ms) ++ 125 :: rest) =
        some (repairedMembers (m :: ms), rest) :=
      members?_write (m :: ms) (List.cons_ne_nil _ _) hj (Nat.le_of_succ_le_succ hroom) (by omega)
    rw [repaired, List.cons_append, List.append_assoc]
    exact value?_members hopens hmembers
  | .object members, 0, fuel + 1, rest, hj, hroom, hfuel, hrest => by
    rw [depth] at hroom
    omega

theorem items?_write : ∀ (items : List Json) {room fuel : Nat} {rest : Text}, items ≠ [] →
    IntegralItems items → depthItems items ≤ room → 2 * (itemsText items).length + 1 ≤ fuel →
    items? room fuel (itemsText items ++ 93 :: rest) = some (repairedItems items, rest)
  | items, room, 0, rest, hne, hitems, hroom, hfuel => by
    omega
  | [], room, fuel + 1, rest, hne, hitems, hroom, hfuel => absurd rfl hne
  | [j], room, fuel + 1, rest, hne, hitems, hroom, hfuel => by
    rw [IntegralItems] at hitems
    rw [depthItems] at hroom
    rw [itemsText_one] at hfuel ⊢
    rw [repairedItems, repairedItems]
    exact items?_last (value?_write j hitems.1 (by omega) (by omega) (closes_cons (by decide) rest))
  | j :: j' :: js, room, fuel + 1, rest, hne, hitems, hroom, hfuel => by
    rw [IntegralItems] at hitems
    rw [depthItems] at hroom
    rw [itemsText_more] at hfuel ⊢
    rw [List.length_append, List.length_cons] at hfuel
    have hopens : Opens (itemsText (j' :: js)) :=
      opens_itemsText (by have hrest := hitems.2; rw [IntegralItems] at hrest; exact hrest.1) js
    have hmore : items? room fuel (itemsText (j' :: js) ++ 93 :: rest) =
        some (repairedItems (j' :: js), rest) :=
      items?_write (j' :: js) (List.cons_ne_nil _ _) hitems.2 (by omega) (by omega)
    rw [repairedItems, List.append_assoc, List.cons_append]
    exact items?_more (value?_write j hitems.1 (by omega) (by omega) (closes_cons (by decide) _))
      (hopens.append _) hmore

theorem members?_write :
    ∀ (members : List (Text × Json)) {room fuel : Nat} {rest : Text}, members ≠ [] →
    IntegralMembers members → depthMembers members ≤ room →
      2 * (membersText members).length + 1 ≤ fuel →
    members? room fuel (membersText members ++ 125 :: rest) = some (repairedMembers members, rest)
  | members, room, 0, rest, hne, hmembers, hroom, hfuel => by
    omega
  | [], room, fuel + 1, rest, hne, hmembers, hroom, hfuel => absurd rfl hne
  | [(k, j)], room, fuel + 1, rest, hne, hmembers, hroom, hfuel => by
    rw [IntegralMembers] at hmembers
    rw [depthMembers] at hroom
    have hdepth : j.depth ≤ room := Nat.le_trans (Nat.le_max_left _ _) hroom
    rw [membersText_one] at hfuel ⊢
    rw [List.length_append, List.length_cons] at hfuel
    rw [repairedMembers, repairedMembers, List.append_assoc, List.cons_append]
    exact members?_last ((opens_write hmembers.1).append _)
      (value?_write j hmembers.1 hdepth (by omega) (closes_cons (by decide) rest))
  | (k, j) :: m :: ms, room, fuel + 1, rest, hne, hmembers, hroom, hfuel => by
    rw [IntegralMembers] at hmembers
    rw [depthMembers] at hroom
    rw [membersText_more] at hfuel ⊢
    rw [List.length_append, List.length_cons, List.length_append, List.length_cons] at hfuel
    have hdepth : j.depth ≤ room := Nat.le_trans (Nat.le_max_left _ _) hroom
    have hmore : members? room fuel (membersText (m :: ms) ++ 125 :: rest) =
        some (repairedMembers (m :: ms), rest) :=
      members?_write (m :: ms) (List.cons_ne_nil _ _) hmembers.2
        (Nat.le_trans (Nat.le_max_right _ _) hroom) (by omega)
    rw [repairedMembers, List.append_assoc, List.cons_append, List.append_assoc, List.cons_append]
    exact members?_more ((opens_write hmembers.1).append _)
      (value?_write j hmembers.1 hdepth (by omega) (closes_cons (by decide) _))
      ((opens_membersText m ms).append _) hmore

end

theorem read?_write {j : Json} (hj : j.Integral) (hdepth : j.depth ≤ maxDepth) :
    read? j.write = some j.repaired := by
  have hvalue : value? maxDepth (2 * j.write.length + 2) (j.write ++ []) = some (j.repaired, []) :=
    value?_write j hj hdepth (by omega) closes_nil
  rw [List.append_nil] at hvalue
  unfold read?
  rw [(opens_write hj).skipBlanks, hvalue]
  rfl

/-! ### No control characters -/

private theorem visible_of_all {t : Text} (h : (t.all fun b => 32 ≤ b.toNat) = true) :
    ∀ b ∈ t, 32 ≤ b.toNat := by
  intro b hb
  exact of_decide_eq_true (List.all_eq_true.1 h b hb)

mutual

theorem write_visible : ∀ j : Json, j.Integral → ∀ b ∈ j.write, 32 ≤ b.toNat
  | .null, _ => visible_of_all (by decide)
  | .bool b, _ => by
    cases b <;> exact visible_of_all (by decide)
  | .number n, hj => by
    intro b hb
    rw [Integral] at hj
    obtain ⟨i, rfl⟩ := hj
    rw [write] at hb
    exact ofInt_visible i hb
  | .string t, _ => by
    intro b hb
    rw [write] at hb
    exact quoted_visible t hb
  | .array items, hj => by
    intro b hb
    rw [Integral] at hj
    rw [write_array, List.mem_cons, List.mem_append, List.mem_singleton] at hb
    rcases hb with rfl | hb | rfl
    · decide
    · exact itemsText_visible items hj b hb
    · decide
  | .object members, hj => by
    intro b hb
    rw [Integral] at hj
    rw [write_object, List.mem_cons, List.mem_append, List.mem_singleton] at hb
    rcases hb with rfl | hb | rfl
    · decide
    · exact membersText_visible members hj b hb
    · decide

theorem itemsText_visible :
    ∀ items : List Json, IntegralItems items → ∀ b ∈ itemsText items, 32 ≤ b.toNat
  | [], _ => visible_of_all (by decide)
  | [j], hitems => by
    rw [IntegralItems] at hitems
    rw [itemsText_one]
    exact write_visible j hitems.1
  | j :: j' :: js, hitems => by
    intro b hb
    rw [IntegralItems] at hitems
    rw [itemsText_more, List.mem_append, List.mem_cons] at hb
    rcases hb with hb | rfl | hb
    · exact write_visible j hitems.1 b hb
    · decide
    · exact itemsText_visible (j' :: js) hitems.2 b hb

theorem membersText_visible : ∀ members : List (Text × Json), IntegralMembers members →
    ∀ b ∈ membersText members, 32 ≤ b.toNat
  | [], _ => visible_of_all (by decide)
  | [(k, j)], hmembers => by
    intro b hb
    rw [IntegralMembers] at hmembers
    rw [membersText_one, List.mem_append, List.mem_cons] at hb
    rcases hb with hb | rfl | hb
    · exact quoted_visible k hb
    · decide
    · exact write_visible j hmembers.1 b hb
  | (k, j) :: m :: ms, hmembers => by
    intro b hb
    rw [IntegralMembers] at hmembers
    rw [membersText_more, List.mem_append, List.mem_cons, List.mem_append, List.mem_cons] at hb
    rcases hb with hb | rfl | hb | rfl | hb
    · exact quoted_visible k hb
    · decide
    · exact write_visible j hmembers.1 b hb
    · decide
    · exact membersText_visible (m :: ms) hmembers.2 b hb

end

/-! ### Lengths -/

private theorem length_ofScalar_le (n : Nat) : (Text.ofScalar n).length ≤ 4 := by
  unfold Text.ofScalar
  split_ifs <;> simp only [List.length_cons, List.length_nil] <;> omega

private theorem length_le_pieceOf (r : Text.Rune) : r.bytes.length ≤ (pieceOf r).length := by
  have hunicode (n : Nat) : (unicodeEscape n).length = 6 := by
    rw [unicodeEscape_eq]
    rfl
  cases r with
  | stray b =>
    rw [pieceOf, hunicode]
    exact (by decide : 1 ≤ 6)
  | scalar n =>
    have hfour := length_ofScalar_le n
    rw [pieceOf, Text.Rune.bytes]
    obtain ⟨b, c, hshort, -, -, -, hc⟩ | ⟨hescape, -⟩ | ⟨hplain, -⟩ := escaped_cases n
    · rw [hshort, hc]
      exact (by decide : 1 ≤ 2)
    · rw [hescape, hunicode]
      omega
    · rw [hplain]

theorem length_add_two_le_quoted (t : Text) : t.length + 2 ≤ (quoted t).length := by
  have hruns : ∀ rs : List Text.Rune, (rs.flatMap Text.Rune.bytes).length ≤
      (rs.flatMap pieceOf).length := by
    intro rs
    induction rs with
    | nil => exact Nat.le_refl 0
    | cons r rs ih =>
      have hfirst := length_le_pieceOf r
      rw [List.flatMap_cons, List.flatMap_cons, List.length_append, List.length_append]
      omega
  have hbody := hruns t.runes
  rw [Text.flatMap_bytes] at hbody
  rw [quoted_eq, List.length_cons, List.length_append, List.length_singleton]
  omega

def memberLength (m : Text × Json) : Nat := (quoted m.1).length + m.2.write.length + 2

private theorem length_membersText (m : Text × Json) (ms : List (Text × Json)) :
    (membersText (m :: ms)).length + 1 = ((m :: ms).map memberLength).sum := by
  induction ms generalizing m with
  | nil =>
    obtain ⟨k, j⟩ := m
    rw [membersText_one, List.map_singleton, List.sum_singleton, memberLength, List.length_append,
      List.length_cons]
    dsimp only
    omega
  | cons m' ms ih =>
    obtain ⟨k, j⟩ := m
    have hrest := ih m'
    rw [List.map_cons, List.sum_cons, ← hrest, memberLength, membersText_more, List.length_append,
      List.length_cons, List.length_append, List.length_cons]
    dsimp only
    omega

theorem length_object (m : Text × Json) (ms : List (Text × Json)) :
    (write (.object (m :: ms))).length = ((m :: ms).map memberLength).sum + 1 := by
  have hmembers := length_membersText m ms
  rw [write_object, List.length_cons, List.length_append, List.length_singleton]
  omega

end Lox.Json

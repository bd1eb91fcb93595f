import Lox.Config.Basic
import Lox.Text.Case
import Lox.Text.Quoted
import Lox.Yaml.Meaning
import Lox.Yaml.Problem

set_option autoImplicit false
set_option relaxedAutoImplicit false

namespace Lox.Config

open Text (lit)
open Yaml (Malformed Meaning Node)

inductive Kind
  | whole
  | natives
  | limits
  | log
  | output
  | names
  | text
  | count
  | flag
  deriving DecidableEq

def Kind.name : Kind → Text
  | whole => lit "config.Config"
  | natives => lit "config.NativesConfig"
  | limits => lit "config.LimitsConfig"
  | log => lit "config.LogConfig"
  | output => lit "config.OutputConfig"
  | names => lit "[]string"
  | text => lit "string"
  | count => lit "int"
  | flag => lit "bool"

inductive Fault
  | unknownKey (line : Nat) (key : Text) (holder : Kind)
  | repeatedKey (line : Nat) (key : Text) (first : Nat)
  | mistyped (line : Nat) (tag : Text) (shown : Option Text) (wanted : Kind)
  deriving DecidableEq

namespace Fault

def shownScalar (t : Text) : Text := if 10 < t.length then t.take 7 ++ lit "..." else t

def ofNode (wanted : Kind) : Node → Fault
  | .scalar l quoted t => mistyped l (Meaning.of quoted t).tag (some (shownScalar t)) wanted
  | .sequence l _ => mistyped l (lit "!!seq") none wanted
  | .mapping l _ => mistyped l (lit "!!map") none wanted

def message (f : Fault) : Text :=
  let at_ (line : Nat) (t : Text) : Text := lit "line " ++ .ofNat line ++ lit ": " ++ t
  match f with
  | unknownKey l k holder => at_ l (lit "field " ++ k ++ lit " not found in type " ++ holder.name)
  | repeatedKey l k first =>
    at_ l (lit "mapping key " ++ k.quoted ++ lit " already defined at line " ++ .ofNat first)
  | mistyped l tag shown wanted =>
    at_ l (lit "cannot unmarshal " ++ tag ++
      (match shown with
        | some t => lit " `" ++ t ++ lit "`"
        | none => []) ++ lit " into " ++ wanted.name)

end Fault

/-- What a node gives a setting: a new value or none, and what is wrong with the node. -/
abbrev Decoded (α : Type) := Option α × List Fault

/-- The keys that stand in a mapping before, each with every later occurrence. -/
private def repetitions : List (Node × Node) → List Fault
  | [] => []
  | (k, _) :: r =>
    r.filterMap (fun (k', _) =>
      if k.sameKind k' && k.text = k'.text then some (.repeatedKey k'.line k.text k.line)
      else none) ++ repetitions r

/-- What is wrong with a node in a place that holds something else; null is right everywhere. -/
private def faultsOf (wanted : Kind) (n : Node) : List Fault :=
  match n with
  | .scalar _ quoted t =>
    match Meaning.of quoted t with
    | .null => []
    | _ => [Fault.ofNode wanted n]
  | .sequence .. => [Fault.ofNode wanted n]
  | .mapping _ members =>
    match repetitions members with
    | [] => [Fault.ofNode wanted n]
    | faults => faults

private def refuse {α : Type} (wanted : Kind) (n : Node) : Decoded α := (none, faultsOf wanted n)

def text (n : Node) : Decoded Text :=
  match n with
  | .scalar _ quoted t =>
    match Meaning.of quoted t with
    | .null => (none, [])
    | _ => (some t, [])
  | _ => refuse .text n

def names (n : Node) : Decoded (List Text) :=
  match n with
  | .sequence _ items =>
    let read := items.map text
    (some (read.filterMap Prod.fst), read.flatMap Prod.snd)
  | _ => refuse .names n

/-- The number without its fraction, kept within 64 bits; a number above them has none. -/
private def wholePart? (x : Float) : Option Int :=
  match Decimal.shape x with
  | .nan => none
  | .infinite negative => if negative then some Int64.minValue.toInt else none
  | .finite negative m q =>
    let n := m * Decimal.scaleUp 2 q / Decimal.scaleUp 2 (-q)
    if negative then some (max Int64.minValue.toInt (-n))
    else if n ≤ Int64.maxValue.toInt then some n
    else if x ≤ 9223372036854775808.0 then some Int64.minValue.toInt
    else none

def count (n : Node) : Decoded Int :=
  match n with
  | .scalar _ quoted t =>
    match Meaning.of quoted t with
    | .int v => if v ≤ Int64.maxValue.toInt then (some v, []) else refuse .count n
    | .float x =>
      match wholePart? x with
      | some v => (some v, [])
      | none => refuse .count n
    | _ => refuse .count n
  | _ => refuse .count n

def flag (n : Node) : Decoded Bool :=
  let among (t : Text) (ws : List String) : Bool := ws.any fun w => lit w == t
  match n with
  | .scalar _ quoted t =>
    match Meaning.of quoted t with
    | .bool b => (some b, [])
    | .string =>
      if among t ["y", "Y", "yes", "Yes", "YES", "on", "On", "ON"] then (some true, [])
      else if among t ["n", "N", "no", "No", "NO", "off", "Off", "OFF"] then (some false, [])
      else refuse .flag n
    | _ => refuse .flag n
  | _ => refuse .flag n

private def isMerge : Node → Bool
  | .scalar _ quoted t =>
    match Meaning.of quoted t with
    | .merge => true
    | _ => false
  | _ => false

private def stringKey? : Node → Option Text
  | .scalar _ quoted t =>
    match Meaning.of quoted t with
    | .string | .merge => some t
    | _ => none
  | _ => none

private abbrev Entry := Fault ⊕ (Node × Node)

/-- The members of a mapping whose keys are not `seen`, and all keys seen then. -/
private def unseen (seen : List Text) : List (Node × Node) → List Entry × List Text
  | [] => ([], seen)
  | (k, v) :: r =>
    match isMerge k, (text k).1 with
    | true, _ => unseen seen r
    | false, some name =>
      if seen.contains name then unseen seen r
      else
        let (entries, seen) := unseen (name :: seen) r
        (.inr (k, v) :: entries, seen)
    | false, none =>
      let (entries, seen) := unseen seen r
      (.inr (k, v) :: entries, seen)

private def merged? (members : List (Node × Node)) : Option Node :=
  (members.find? fun m => isMerge m.1).map Prod.snd

private theorem sizeOf_merged {members : List (Node × Node)} {n : Node}
    (h : merged? members = some n) : sizeOf n < sizeOf members := by
  obtain ⟨⟨k, v⟩, found, rfl⟩ := Option.map_eq_some_iff.1 h
  have := List.sizeOf_lt_of_mem (List.mem_of_find?_eq_some found)
  simp only [Prod.mk.sizeOf_spec] at this
  show sizeOf v < sizeOf members
  omega

mutual

/-- What a mapping adds to one whose keys are `seen`, and all keys seen then. -/
private def added (seen : List Text) (members : List (Node × Node)) :
    Except Malformed (List Entry × List Text) :=
  match repetitions members with
  | [] =>
    let (own, seen) := unseen seen members
    match h : merged? members with
    | some n => do
      have := sizeOf_merged h
      let (more, seen) ← addedBy seen n
      return (own ++ more, seen)
    | none => .ok (own, seen)
  | faults => .ok (faults.map .inl, seen)
termination_by (sizeOf members, 0)

/-- What the value of a merge key adds: a mapping its members, and a sequence of mappings those of
each. -/
private def addedBy (seen : List Text) (n : Node) : Except Malformed (List Entry × List Text) :=
  match n with
  | .mapping _ members => added seen members
  | .sequence _ items => addedByAll seen items
  | .scalar .. => .error ⟨none, .unmergeable⟩
termination_by (sizeOf n, 0)

private def addedByAll (seen : List Text) (items : List Node) :
    Except Malformed (List Entry × List Text) :=
  match items with
  | [] => .ok ([], seen)
  | .mapping _ members :: r => do
    let (entries, seen) ← added seen members
    let (more, seen) ← addedByAll seen r
    return (entries ++ more, seen)
  | _ :: _ => .error ⟨none, .unmergeable⟩
termination_by (sizeOf items, 0)

end

private def entries (members : List (Node × Node)) : Except Malformed (List Entry) :=
  let own : List Entry := (members.filter fun m => !isMerge m.1).map .inr
  match merged? members with
  | some n => do
    let (more, _) ← addedBy (members.filterMap fun m => stringKey? m.1) n
    return own ++ more
  | none => .ok own

abbrev Setter := Config → Node → Except Malformed (Config × List Fault)

private def setting {α : Type} (decode : Node → Decoded α) (set : Config → α → Config) : Setter :=
  fun c n =>
    let (v, faults) := decode n
    .ok ((v.map (set c)).getD c, faults)

/-- Changes a configuration by a member of a mapping from known keys to settings. -/
private def member (holder : Kind) (setters : List (String × Setter)) (c : Config)
    (key value : Node) : Except Malformed (Config × List Fault) :=
  match text key with
  | (some k, _) =>
    match setters.find? fun s => lit s.1 == k with
    | some (_, set) => set c value
    | none => .ok (c, [.unknownKey key.line k holder])
  | (none, faults) => .ok (c, faults)

private def keyed (holder : Kind) (setters : List (String × Setter)) : Setter := fun c n =>
  match n with
  | .mapping _ members =>
    match repetitions members with
    | [] => do
      (← entries members).foldlM (fun (c, faults) e => do
        let (c, more) ←
          match e with
          | .inl f => pure (c, [f])
          | .inr (key, value) => member holder setters c key value
        return (c, faults ++ more)) (c, [])
    | faults => .ok (c, faults)
  | _ => .ok (c, faultsOf holder n)

def decode : Setter := keyed .whole [
  ("natives", keyed .natives [
    ("allow", setting names fun c v => { c with allow := v }),
    ("deny", setting names fun c v => { c with deny := v })]),
  ("limits", keyed .limits [
    ("maxCallDepth", setting count fun c v => { c with maxCallDepth := v })]),
  ("log", keyed .log [
    ("level", setting text fun c v => { c with level := v })]),
  ("output", keyed .output [
    ("pretty", setting flag fun c v => { c with pretty := v })])]

end Lox.Config

import Lox.Yaml.Basic
import Lox.Yaml.Token

set_option autoImplicit false
set_option relaxedAutoImplicit false

namespace Lox.Yaml

abbrev Reader := StateT Stream (Except Malformed)

namespace Reader

def peek : Reader Token := do
  let s ← get
  let s ← s.filled s.bound
  set s
  return s.queue.head?.getD ⟨.streamEnd, s.here.line⟩

def take : Reader Unit :=
  modify fun s => { s with queue := s.queue.drop 1, taken := s.taken + 1 }

def wrong {α : Type} (began : Nat) (t : Token) (p : Problem) : Reader α :=
  throw (.amongTokens began t.line p)

def nothing (t : Token) : Node := .empty (t.line + 1)

mutual

/-- A node. Blocks may stand only where `block` holds, and items without a block of their own only
where `bare` holds. -/
def node (block bare : Bool) : Nat → Reader Node
  | 0 => do wrong 0 (← peek) .contentMissing
  | fuel + 1 => do
    let t ← peek
    let line := t.line + 1
    match t.sign with
    | .scalar quoted text =>
      take
      return .scalar line quoted text
    | .openBracket =>
      take
      return .sequence line (← bracketItems t.line true fuel)
    | .openBrace =>
      take
      return .mapping line (← braceMembers t.line true fuel)
    | .dash =>
      if bare then return .sequence line (← bareItems fuel)
      else wrong t.line t .contentMissing
    | .blockSequence =>
      if block then
        take
        return .sequence line (← blockItems t.line fuel)
      else wrong t.line t .contentMissing
    | .blockMapping =>
      if block then
        take
        return .mapping line (← blockMembers t.line fuel)
      else wrong t.line t .contentMissing
    | _ => wrong t.line t .contentMissing
termination_by structural fuel => fuel

def nodeUnless (ends : List Sign) (bare : Bool) (before : Token) : Nat → Reader Node
  | 0 => return nothing before
  | fuel + 1 => do
    let t ← peek
    if ends.contains t.sign then return nothing before else node true bare fuel
termination_by structural fuel => fuel

def blockItems (began : Nat) : Nat → Reader (List Node)
  | 0 => return []
  | fuel + 1 => do
    let t ← peek
    match t.sign with
    | .dash =>
      take
      let item ← nodeUnless [.dash, .blockEnd] false t fuel
      return item :: (← blockItems began fuel)
    | .blockEnd =>
      take
      return []
    | _ => wrong began t .dashMissing
termination_by structural fuel => fuel

def bareItems : Nat → Reader (List Node)
  | 0 => return []
  | fuel + 1 => do
    let t ← peek
    match t.sign with
    | .dash =>
      take
      let item ← nodeUnless [.dash, .key, .value, .blockEnd] false t fuel
      return item :: (← bareItems fuel)
    | _ => return []
termination_by structural fuel => fuel

def blockMembers (began : Nat) : Nat → Reader (List (Node × Node))
  | 0 => return []
  | fuel + 1 => do
    let t ← peek
    match t.sign with
    | .key =>
      take
      let ends := [.key, .value, .blockEnd]
      let key ← nodeUnless ends true t fuel
      let u ← peek
      let value ←
        if u.sign = .value then do
          take
          nodeUnless ends true u fuel
        else pure (nothing u)
      return (key, value) :: (← blockMembers began fuel)
    | .blockEnd =>
      take
      return []
    | _ => wrong began t .keyMissing
termination_by structural fuel => fuel

/-- The value after the key of a member between brackets, which the given token ends. -/
def bracketValue (closing : Sign) : Nat → Reader Node
  | 0 => do return nothing (← peek)
  | fuel + 1 => do
    let t ← peek
    if t.sign = .value then
      take
      let u ← peek
      if u.sign = .comma || u.sign = closing then return nothing u else node false false fuel
    else return nothing t
termination_by structural fuel => fuel

/-- The items up to a closing bracket. An item with a colon is a mapping of one member. -/
def bracketItems (began : Nat) (first : Bool) : Nat → Reader (List Node)
  | 0 => return []
  | fuel + 1 => do
    let t ← peek
    if t.sign = .closeBracket then
      take
      return []
    else if !first && t.sign ≠ .comma then wrong began t .bracketMissing
    else
      if !first then take
      let t ← peek
      match t.sign with
      | .closeBracket =>
        take
        return []
      | .key =>
        take
        let u ← peek
        let key ←
          if u.sign = .value || u.sign = .comma || u.sign = .closeBracket then do
            take
            pure (nothing u)
          else node false false fuel
        let value ← bracketValue .closeBracket fuel
        return .mapping (t.line + 1) [(key, value)] :: (← bracketItems began false fuel)
      | _ =>
        let item ← node false false fuel
        return item :: (← bracketItems began false fuel)
termination_by structural fuel => fuel

def braceMembers (began : Nat) (first : Bool) : Nat → Reader (List (Node × Node))
  | 0 => return []
  | fuel + 1 => do
    let t ← peek
    if t.sign = .closeBrace then
      take
      return []
    else if !first && t.sign ≠ .comma then wrong began t .braceMissing
    else
      if !first then take
      let t ← peek
      match t.sign with
      | .closeBrace =>
        take
        return []
      | .key =>
        take
        let u ← peek
        let key ←
          if u.sign = .value || u.sign = .comma || u.sign = .closeBrace then pure (nothing u)
          else node false false fuel
        let value ← bracketValue .closeBrace fuel
        return (key, value) :: (← braceMembers began false fuel)
      | _ =>
        let key ← node false false fuel
        let value := nothing (← peek)
        return (key, value) :: (← braceMembers began false fuel)
termination_by structural fuel => fuel

end

def document (fuel : Nat) : Reader (Option Node) := do
  let t ← peek
  if t.sign = .streamEnd then return none
  else
    let explicit := t.sign = .documentStart
    if explicit then take
    let u ← peek
    let ends := [.documentStart, .documentEnd, .streamEnd]
    let root ← if explicit && ends.contains u.sign then pure (nothing u) else node true false fuel
    let _ ← peek
    return some root

end Reader

def read (t : Text) : Except Malformed (Option Node) := do
  let s ← Stream.ofText t
  (Reader.document (4 * s.bound)).run' s

end Lox.Yaml

import Lox.Span

set_option autoImplicit false
set_option relaxedAutoImplicit false

namespace Lox

open Text (lit)

/-- The reserved words. -/
inductive Keyword
  | and_ | break_ | class_ | else_ | false_ | for_ | fun_ | if_ | nil_ | or_ | print_ | return_
  | super_ | this_ | true_ | var_ | while_
  deriving DecidableEq

namespace Keyword

def spelling : Keyword → Text
  | and_ => lit "and"
  | break_ => lit "break"
  | class_ => lit "class"
  | else_ => lit "else"
  | false_ => lit "false"
  | for_ => lit "for"
  | fun_ => lit "fun"
  | if_ => lit "if"
  | nil_ => lit "nil"
  | or_ => lit "or"
  | print_ => lit "print"
  | return_ => lit "return"
  | super_ => lit "super"
  | this_ => lit "this"
  | true_ => lit "true"
  | var_ => lit "var"
  | while_ => lit "while"

def all : List Keyword :=
  [and_, break_, class_, else_, false_, for_, fun_, if_, nil_, or_, print_, return_, super_, this_,
    true_, var_, while_]

def ofSpelling? (t : Text) : Option Keyword := all.find? fun k => k.spelling == t

end Keyword

/-- The marks of punctuation and the operators. -/
inductive Mark
  | leftParen | rightParen | leftBrace | rightBrace | comma | dot | semicolon | question | colon
  | minus | plus | slash | star | bang | bangEqual | equal | equalEqual | greater | greaterEqual
  | less | lessEqual
  deriving DecidableEq

namespace Mark

def spelling : Mark → Text
  | leftParen => lit "("
  | rightParen => lit ")"
  | leftBrace => lit "\x7b"
  | rightBrace => lit "\x7d"
  | comma => lit ","
  | dot => lit "."
  | semicolon => lit ";"
  | question => lit "?"
  | colon => lit ":"
  | minus => lit "-"
  | plus => lit "+"
  | slash => lit "/"
  | star => lit "*"
  | bang => lit "!"
  | bangEqual => lit "!="
  | equal => lit "="
  | equalEqual => lit "=="
  | greater => lit ">"
  | greaterEqual => lit ">="
  | less => lit "<"
  | lessEqual => lit "<="

def ofByte? (b : UInt8) : Option Mark :=
  if b = 40 then some leftParen
  else if b = 41 then some rightParen
  else if b = 123 then some leftBrace
  else if b = 125 then some rightBrace
  else if b = 44 then some comma
  else if b = 46 then some dot
  else if b = 59 then some semicolon
  else if b = 63 then some question
  else if b = 58 then some colon
  else if b = 45 then some minus
  else if b = 43 then some plus
  else if b = 47 then some slash
  else if b = 42 then some star
  else if b = 33 then some bang
  else if b = 61 then some equal
  else if b = 62 then some greater
  else if b = 60 then some less
  else none

def withEqual? : Mark → Option Mark
  | bang => some bangEqual
  | equal => some equalEqual
  | greater => some greaterEqual
  | less => some lessEqual
  | _ => none

end Mark

namespace Token

/-- The kinds of tokens. -/
inductive Kind
  | keyword (word : Keyword)
  | mark (mark : Mark)
  | name
  | number
  | string
  | eof
  deriving DecidableEq

end Token

/-- A token with its text, which for a string is what stands between the quotes. -/
structure Token where
  kind : Token.Kind
  text : Text
  span : Span
  deriving DecidableEq

namespace Token

/-- The end of a source whose place is not known. -/
def endOf (file : Text) : Token := { kind := .eof, text := [], span := .nowhere file }

end Token
end Lox

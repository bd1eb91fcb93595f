import Lox.Run.Native
import Lox.Text.Case
import Lox.Text.Quoted

set_option autoImplicit false
set_option relaxedAutoImplicit false

namespace Lox.Help

open Text (lit)

private def page (lines : List String) : Text :=
  lines.flatMap fun l => lit l ++ [Byte.lineFeed]

def overview : Text := page [
    "golox v0.1 - a tree-walking Lox interpreter",
    "",
    "USAGE",
    "  lox                      start the REPL",
    "  lox run <file|->         run a program (--pretty, --trace <file.jsonl>)",
    "  lox check <file>         parse and resolve without running",
    "  lox fmt <file>           print canonical source (--write to rewrite)",
    "  lox ast <file>           print the program as s-expressions",
    "  lox repl                 interactive session",
    "  lox trace <file.jsonl>   summarize a trace (--json|--text)",
    "  lox config               show the effective configuration",
    "  lox help [topic]         this text, or a topic below",
    "",
    "TOPICS",
    "  syntax       statements, expressions and precedence",
    "  types        values, truthiness, equality",
    "  classes      classes, this, super, static methods",
    "  natives      built-in native functions",
    "  flow         if, while, for, break, return",
    "  diagnostics  error codes and exit codes",
    "  config       .loxrc.yaml settings",
    "  examples     short programs"]

inductive Topic
  | language
  | types
  | classes
  | natives
  | flow
  | diagnostics
  | config
  | examples
  deriving DecidableEq

namespace Topic

def all : List Topic :=
  [language, types, classes, natives, flow, diagnostics, config, examples]

def name : Topic → Text
  | language => lit "syntax"
  | types => lit "types"
  | classes => lit "classes"
  | natives => lit "natives"
  | flow => lit "flow"
  | diagnostics => lit "diagnostics"
  | config => lit "config"
  | examples => lit "examples"

def content : Topic → Text
  | language => page [
      "SYNTAX",
      "",
      "Declarations",
      "  var name = expr;         var name;   (binds nil)",
      "  fun name(a, b) \x7b ... \x7d",
      "  class Name < Super \x7b ... \x7d",
      "",
      "Statements",
      "  print expr;   expr;   \x7b ... \x7d   if / while / for / break / return",
      "",
      "Expressions, loosest to tightest",
      "  =  (assignment, right-assoc)",
      "  ?: (conditional, right-assoc)",
      "  or",
      "  and",
      "  ==  !=",
      "  <  <=  >  >=",
      "  +  -",
      "  *  /",
      "  !  -  (unary)",
      "  call()  .property",
      "  literals, names, this, super.method, (group), fun (a) \x7b ... \x7d",
      "",
      "Comments",
      "  // to end of line",
      "  /* block, may span lines */"]
  | types => page [
      "TYPES",
      "",
      "  nil       the absent value",
      "  boolean   true, false",
      "  number    64-bit float; integral values print without a fraction",
      "  string    \"double quoted\", may span lines, no escapes",
      "  function  user functions, methods, natives",
      "  class     callable; calling constructs an instance",
      "  instance  object with fields",
      "",
      "Truthiness",
      "  nil, false, 0 and \"\" are falsey; everything else is truthy.",
      "",
      "Equality",
      "  == never errors. Values of different types are unequal.",
      "  nil equals only nil. Instances and classes compare by identity.",
      "",
      "Arithmetic",
      "  + adds two numbers or concatenates strings. A string and a number",
      "    concatenate (\"a\" + 1 is \"a1\"); anything else is E_TYPE.",
      "  - * / < <= > >= require numbers. Division by zero is E_DIV_ZERO."]
  | classes => page [
      "CLASSES",
      "",
      "  class Point \x7b",
      "    init(x, y) \x7b this.x = x; this.y = y; \x7d",
      "    sum() \x7b return this.x + this.y; \x7d",
      "    class origin() \x7b return Point(0, 0); \x7d",
      "  \x7d",
      "",
      "  var p = Point(1, 2);",
      "  print p.sum();          // 3",
      "  print Point.origin();   // Point instance",
      "",
      "init runs on construction and always returns the instance.",
      "Fields shadow methods. Reading a missing property is E_UNDEFINED_PROP.",
      "Methods declared with a leading 'class' are static: call them on the class.",
      "",
      "Inheritance",
      "  class Square < Point \x7b init(s) \x7b super.init(s, s); \x7d \x7d",
      "  super.method looks the method up starting at the superclass.",
      "  A class cannot inherit from itself (E_INHERIT_SELF)."]
  | natives => page [
      "NATIVES",
      "",
      "Native functions are globals installed before the program runs.",
      "natives.allow and natives.deny in the config file choose which are",
      "installed; 'lox help natives --index' lists the installed set.",
      "",
      "  clock()    seconds since the Unix epoch",
      "  out(v)     print v followed by a newline",
      "  str(v)     v as a string",
      "  typeof(v)  \"nil\", \"boolean\", \"number\", \"string\", \"function\", \"class\" or \"instance\"",
      "  len(s)     length of a string in characters",
      "  num(s)     parse a number, nil on failure"]
  | flow => page [
      "FLOW",
      "",
      "  if (cond) stmt else stmt",
      "  while (cond) stmt",
      "  for (init; cond; incr) stmt      every clause is optional",
      "  break;                           leaves the innermost loop",
      "  return expr;                     leaves the current function",
      "",
      "The loop variable lives in one scope around the whole loop, so closures",
      "created in the body all see its latest value.",
      "",
      "and / or short-circuit and yield one of their operands, not a boolean.",
      "",
      "Static errors (reported before anything runs)",
      "  break outside a loop, return at top level, return with a value in init,",
      "  this/super outside a class, super without a superclass,",
      "  duplicate parameters, reading a local in its own initializer."]
  | diagnostics => page [
      "DIAGNOSTICS",
      "",
      "Front end (exit 2)",
      "  E_LEX E_PARSE",
      "Resolution (exit 2, all reported together)",
      "  E_RETURN_TOP_LEVEL E_BREAK_OUTSIDE_LOOP E_SELF_INIT E_DUP_PARAM",
      "  E_RETURN_INIT E_THIS_OUTSIDE_CLASS E_SUPER_OUTSIDE_CLASS",
      "  E_SUPER_NO_SUPERCLASS E_INHERIT_SELF",
      "Runtime (exit 3, the first one aborts the program)",
      "  E_TYPE E_DIV_ZERO E_UNDEFINED_VAR E_UNDEFINED_PROP E_NOT_CALLABLE",
      "  E_ARITY E_NOT_INSTANCE E_SUPERCLASS E_STACK_OVERFLOW E_CANCELED E_NATIVE",
      "Internal (exit 4)",
      "  E_INTERNAL",
      "Host (exit 1)",
      "  E_IO E_CONFIG",
      "",
      "Output is JSON by default; --pretty prints",
      "  error[CODE]: message",
      "    --> file:line:col"]
  | config => page [
      "CONFIG",
      "",
      "Looked up in order: ./.loxrc.yaml, ~/.lox/config.yaml, then defaults.",
      "Unknown keys are rejected.",
      "",
      "  natives:",
      "    allow: [clock, out]   # empty means all",
      "    deny: [clock]         # wins over allow",
      "  limits:",
      "    maxCallDepth: 1024",
      "  log:",
      "    level: warn           # debug, info, warn, error",
      "  output:",
      "    pretty: false"]
  | examples => page [
      "EXAMPLES",
      "",
      "Closures",
      "  fun makeCounter() \x7b",
      "    var i = 0;",
      "    fun count() \x7b i = i + 1; return i; \x7d",
      "    return count;",
      "  \x7d",
      "  var c = makeCounter();",
      "  print c(); print c();   // 1 2",
      "",
      "Loops",
      "  for (var i = 0; i < 10; i = i + 1) \x7b",
      "    if (i == 3) break;",
      "    print i;",
      "  \x7d",
      "",
      "Recursion",
      "  fun fib(n) \x7b return n < 2 ? n : fib(n - 1) + fib(n - 2); \x7d",
      "  print fib(10);          // 55"]

def listed (ts : List Topic) : Text := Text.join (lit ", ") (ts.map name)

end Topic

inductive QueryError
  | unknown (query : Text)
  | ambiguous (query : Text) (candidates : List Topic)
  deriving DecidableEq

def QueryError.message : QueryError → Text
  | unknown q => lit "unknown help topic: " ++ q
  | ambiguous q ts => lit "ambiguous help topic " ++ q.quoted ++ lit ": " ++ Topic.listed ts

def find (query : Text) : Except QueryError Topic :=
  let q := query.trim.toLower
  match Topic.all.find? fun t => t.name == q with
  | some t => .ok t
  | none =>
    match Topic.all.filter fun t => !q.isEmpty && t.name.startsWith q with
    | [] => .error (.unknown q)
    | [t] => .ok t
    | ts => .error (.ambiguous q ts)

/-- The names and arities of native functions in the order of names, and how many there are. -/
def index (r : Registry) : Text :=
  let row (n : Native) : Text := lit "  " ++ n.name ++ lit "/" ++ .ofNat n.arity ++ lit "\n"
  r.sorted.flatMap row ++ lit "Total: " ++ .ofNat r.sorted.length ++ lit " functions\n"

end Lox.Help

import UriTemplate.CommandLine.Arguments

/-!
# Invocations

* `Invocation` — what a command line asks for;
* `Invocation.ofArguments` — the invocation that the arguments describe.
-/

namespace UriTemplate.CommandLine

/-- Where the values of an expansion come from: texts, lists and mappings that are written on the command line, and a
JSON file.  An option may be left without what it should give. -/
structure ValueOptions where
  defines : List (Option Text) := []
  lists : List (Option Text) := []
  maps : List (Option Text) := []
  json : Option Text := none

/-- A template is given as its text, or as `@` and its name in the catalog. -/
inductive Command
  | expand (template : Text) (values : ValueOptions)
  | parse (template : Text)
  | names (template : Text)
  | list

structure Invocation where
  verbose : Bool := false
  config : Option Text := none
  command : Command

namespace Invocation

/-- The options in front of the command. -/
def generalGrammar : Grammar where
  options := [("-h", .help), ("--help", .help), ("-v", .version), ("--version", .version), ("--verbose", .verbose),
    ("--config", .config)]
  positional := .command

def expandGrammar : Grammar where
  options := [("-h", .help), ("--help", .help), ("-D", .define), ("--define", .define), ("-L", .list),
    ("--list", .list), ("-M", .map), ("--map", .map), ("--json", .json)]
  positional := .one

def templateGrammar : Grammar where
  options := [("-h", .help), ("--help", .help)]
  positional := .one

def bareGrammar : Grammar where
  options := [("-h", .help), ("--help", .help)]
  positional := .none

/-- The values of an option, in order. -/
def valuesOf (flag : Flag) (options : List (Flag × Option Text)) : List (Option Text) :=
  (options.filter (·.1 = flag)).map (·.2)

/-- The last value of an option. -/
def lastOf (flag : Flag) (options : List (Flag × Option Text)) : Option Text :=
  (valuesOf flag options).getLast?.join

/-- The template, if the arguments are as the grammar wants them. -/
def theTemplate (p : Parsed) : Except Stop Text :=
  match p.positional, p.extra with
  | some [t], false => .ok t
  | _, _ => .error .usage

def commandOf (name : Text) (args : List Text) : Except Stop Command := do
  if name = Text.ofString "expand" then
    let p ← expandGrammar.read args
    return .expand (← theTemplate p)
      { defines := valuesOf .define p.options, lists := valuesOf .list p.options, maps := valuesOf .map p.options,
        json := lastOf .json p.options }
  else if name = Text.ofString "parse" then return .parse (← theTemplate (← templateGrammar.read args))
  else if name = Text.ofString "variables" then return .names (← theTemplate (← templateGrammar.read args))
  else if name = Text.ofString "list" then
    let p ← bareGrammar.read args
    if p.extra then .error .usage else return .list
  else .error .usage

def ofArguments (args : List Text) : Except Stop Invocation := do
  let p ← generalGrammar.read args
  match p.positional with
  | some (name :: rest) =>
    let command ← commandOf name rest
    if p.extra then .error .usage
    return {
      verbose := p.options.any (·.1 = .verbose), config := lastOf .config p.options, command }
  | _ => .error .usage

end Invocation

end UriTemplate.CommandLine

import UriTemplate.Text.Digit

/-!
# Command-line arguments

Options and positional arguments of a command, told apart by the rules of Unix programs.

* `Flag`, `Grammar` — the options that a command knows, and what stands besides them;
* `Item`, `Grammar.item` — an argument as an option or not;
* `Grammar.read` — the options in order and the positional arguments.

A long option may be shortened as long as it is the only one that begins so; the value of an option stands behind it,
behind an equals sign, or right behind the letter of a short one.  Two hyphens are no value: an option that gets them
has none.
-/

namespace UriTemplate.CommandLine

/-- The options of all commands. -/
inductive Flag
  | help
  | version
  | verbose
  | config
  | define
  | list
  | map
  | json
deriving DecidableEq

/-- Whether the option has a value. -/
def Flag.hasValue : Flag → Bool
  | config | define | list | map | json => true
  | help | version | verbose => false

/-- Why there is nothing to run: the arguments are wrong, or ask for a text that says how to use them, or for the
version. -/
inductive Stop
  | usage
  | help
  | version
deriving DecidableEq

/-- The positional arguments of a command: none, a single one, or all that follows the first one. -/
inductive Positional
  | none
  | one
  | command
deriving DecidableEq

/-- What the arguments of a command may be. -/
structure Grammar where
  options : List (Text × Flag)
  positional : Positional

/-- An argument that is an option; `flag` is missing if no option is meant. -/
structure OptionItem where
  flag : Option Flag
  /-- Whether the option is one letter behind a single hyphen, so that more letters may follow it. -/
  isLetter : Bool := false
  /-- What stands behind the option in the same argument. -/
  attached : Option Text := none

inductive Item
  | argument (t : Text)
  /-- Two hyphens, behind which there are no options. -/
  | dashes
  | option (o : OptionItem) (t : Text)

def Item.text : Item → Text
  | argument t => t
  | dashes => "--"
  | option _ t => t

def Item.isOption : Item → Bool
  | option .. => true
  | _ => false

def Item.isArgument : Item → Bool
  | argument _ => true
  | _ => false

/-- Digits of any script, or digits around a point, behind a hyphen.  A line feed may stand at the end. -/
def isNegativeNumber (t : Text) : Bool :=
  let isNumber (t : Text) : Bool :=
    match Text.split '.' t with
    | [whole] => whole ≠ [] && whole.all CodePoint.isDecimal
    | [whole, fraction] => fraction ≠ [] && (whole ++ fraction).all CodePoint.isDecimal
    | _ => false
  match t with
  | c :: rest => c = '-' && (isNumber rest || (rest.getLast? = some '\n' && isNumber rest.dropLast))
  | [] => false

namespace Grammar

variable (g : Grammar)

/-- The options that a shortened or joined argument may mean. -/
def meanings (t : Text) : List OptionItem :=
  if (Text.ofString "--").isPrefixOf t then
    let (name, attached) : Text × Option Text := match Text.splitFirst '=' t with
      | some (name, value) => (name, some value)
      | none => (t, none)
    g.options.filterMap fun o => if name.isPrefixOf o.1 then some { flag := o.2, attached } else none
  else
    g.options.filterMap fun o =>
      if o.1 = t.take 2 then some { flag := o.2, isLetter := true, attached := t.drop 2 }
      else if t.isPrefixOf o.1 then some { flag := o.2 }
      else none

/-- Whether the name of an option is a single letter. -/
def isLetter (name : Text) : Bool := !(Text.ofString "--").isPrefixOf name

/-- The option of an argument with an equals sign behind the full name. -/
def assignedOption? (t : Text) : Option OptionItem := do
  let (name, value) ← Text.splitFirst '=' t
  return { flag := ← g.options.lookup name, isLetter := isLetter name, attached := value }

/-- An argument before any `--`. -/
def item (t : Text) : Except Stop Item :=
  if t.head? ≠ some '-' then .ok (.argument t)
  else match g.options.lookup t with
    | some flag => .ok (.option { flag, isLetter := isLetter t } t)
    | none =>
      if t.length = 1 then .ok (.argument t)
      else match g.assignedOption? t with
        | some o => .ok (.option o t)
        | none =>
          match g.meanings t with
          | [o] => .ok (.option o t)
          | _ :: _ :: _ => .error .usage
          | [] =>
            if isNegativeNumber t || t.any (· = (' ' : CodePoint)) then .ok (.argument t)
            else .ok (.option { flag := none } t)

def items : List Text → Except Stop (List Item)
  | [] => .ok []
  | t :: ts =>
    if t = Text.ofString "--" then .ok (.dashes :: ts.map .argument)
    else do return (← g.item t) :: (← items ts)

end Grammar

/-- What the arguments say: the options with their values in order, the positional arguments if they were met, and
whether there was anything that does not belong there. -/
structure Parsed where
  options : List (Flag × Option Text) := []
  positional : Option (List Text) := none
  extra : Bool := false

namespace Parsed

/-- Notes an option with its value, unless it ends the run. -/
def note (p : Parsed) (o : Flag × Option Text) : Except Stop Parsed :=
  match o.1 with
  | .help => .error .help
  | .version => .error .version
  | _ => .ok { p with options := p.options ++ [o] }

end Parsed

namespace Grammar

variable (g : Grammar)

/-- The value that an option gets from a text: none from two hyphens. -/
def valueOf (t : Text) : Option Text := if t = Text.ofString "--" then none else some t

/-- The options of one argument: those without a value in front, and the last one, which may have a value in the next
argument. -/
structure Joined where
  flags : List Flag := []
  last : Flag
  value : Option Text := none

/-- The options of one argument: `flag`, and what the text right behind it means.  Behind a letter without a value
another letter may stand; behind a word without a value nothing may. -/
def joined (flag : Flag) (isLetter : Bool) : Option Text → Except Stop Joined
  | none => .ok { last := flag }
  | some t => letters flag isLetter t
where
  letters (flag : Flag) (isLetter : Bool) (t : Text) : Except Stop Joined :=
    if flag.hasValue then .ok { last := flag, value := some t }
    else
      match t, isLetter with
      | c :: rest, true =>
        match g.options.lookup [('-' : CodePoint), c] with
        | none => .error .usage
        | some next => do
          let joined ← (if rest = [] then .ok { last := next } else letters next true rest)
          return { joined with flags := flag :: joined.flags }
      | _, _ => .error .usage

/-- Takes the option `o`, and its value from the items behind it if it stands there. -/
def takeOption (p : Parsed) (o : OptionItem) (rest : List Item) : Except Stop (Parsed × List Item) := do
  match o.flag with
  | none => return ({ p with extra := true }, rest)
  | some flag =>
    let joined ← g.joined flag o.isLetter o.attached
    let (value, rest) ←
      if !joined.last.hasValue then pure (none, rest)
      else match joined.value, rest with
        | some t, rest => pure (valueOf t, rest)
        | none, .argument t :: rest => pure (valueOf t, rest)
        | none, _ => .error .usage
    let p ← (joined.flags.map fun flag => (flag, none)).foldlM Parsed.note p
    return (← p.note (joined.last, value), rest)

/-- The positional arguments at the beginning of the items, and the items behind them. -/
def takePositional (p : Parsed) (items : List Item) : Option (List Text × List Item) :=
  if p.positional.isSome then none
  else
    match g.positional, items with
    | .none, _ => none
    | .command, .dashes :: .argument t :: rest => some (Text.ofString "--" :: t :: rest.map Item.text, [])
    | .command, .argument t :: rest => some (t :: rest.map Item.text, [])
    | .command, _ => none
    | .one, .dashes :: .argument t :: rest => some ([t], rest)
    | .one, .argument t :: .dashes :: rest => some ([t], rest)
    | .one, .argument t :: rest => some ([t], rest)
    | .one, _ => none

/-- Takes positional arguments and options in turn.  Nothing is left unread: what does not belong is noted. -/
def takeAll : (fuel : Nat) → Parsed → List Item → Except Stop Parsed
  | 0, p, _ => .ok p
  | fuel + 1, p, items =>
    match items with
    | [] => .ok p
    | .option o _ :: rest => do
      let (p, rest) ← g.takeOption p o rest
      takeAll fuel p rest
    | _ :: rest =>
      match g.takePositional p items with
      | some (texts, rest) => takeAll fuel { p with positional := some texts } rest
      | none => takeAll fuel { p with extra := true } rest

/-- Reads the arguments of a command. -/
def read (args : List Text) : Except Stop Parsed := do
  let items ← g.items args
  g.takeAll (items.length + 1) {} items

end Grammar

end UriTemplate.CommandLine

import ClassWeaver.CommandLine.Basic

/-!
Telling options, their values and operands apart. A value is looked at only when the next option or
operand begins, or the end is reached, so a word that is not known at all counts before it.
-/

namespace ClassWeaver

inductive OptionKind where
  | help
  | switch
  | value
  | values
  deriving DecidableEq, Repr

structure OptionRule where
  name : String
  kind : OptionKind
  short : Option Char := none
  deriving DecidableEq, Repr

structure Usage where
  options : List OptionRule
  operand : Option OptionRule := none
  deriving DecidableEq, Repr

inductive WordForm where
  | escape
  | long (name : String) (attached : Option String)
  | short (letters : List Char)
  | plain
  deriving DecidableEq, Repr

namespace WordForm

def ofLong (cs : List Char) : WordForm :=
  let (name, rest) := cs.span (· != '=')
  match rest with
  | _ :: text => long (String.ofList name) (some (String.ofList text))
  | [] => long (String.ofList name) none

def of (word : String) : WordForm :=
  match word.toList with
  | ['-', '-'] => escape
  | '-' :: '-' :: cs => ofLong cs
  | ['-'] => plain
  | '-' :: cs => short cs
  | _ => plain

end WordForm

structure Given where
  found : List (String × String)
  begun : Option (OptionRule × Option String)
  trailing : Bool
  deriving DecidableEq, Repr

namespace Given

def nothing : Given := ⟨[], none, false⟩

def has (g : Given) (name : String) : Bool := g.found.any (·.1 == name)

def value? (g : Given) (name : String) : Option String := g.found.lookup name

def values (g : Given) (name : String) : List String :=
  (g.found.filter (·.1 == name)).map (·.2)

def keep (g : Given) (rule : OptionRule) (text : String) : Except UsageFault Given :=
  if rule.kind != .values && g.has rule.name then .error .repeatedArgument
  else if rule.kind != .switch && text.isEmpty then .error .noValue
  else .ok { g with found := g.found ++ [(rule.name, text)] }

def settle (g : Given) : Except UsageFault Given :=
  match g.begun with
  | none => .ok g
  | some (_, none) => .error .noValue
  | some (rule, some text) => { g with begun := none }.keep rule text

def takeOption (g : Given) (rule : OptionRule) (attached : Option String) :
    Except UsageFault Given :=
  match rule.kind, attached with
  | .help, some _ | .switch, some _ => .error .unwantedValue
  | .help, none => g.settle.bind fun _ => .error .help
  | .switch, none => g.settle.bind (·.keep rule "")
  | _, some text => g.settle.bind (·.keep rule text)
  | _, none => g.settle.map fun g => { g with begun := some (rule, none) }

end Given

namespace Usage

def takeShort (usage : Usage) : List Char → Given → Except UsageFault Given
  | [], g => .ok g
  | c :: rest, g =>
    match usage.options.find? (·.short == some c) with
    | none => .error .unknownArgument
    | some rule =>
      match g.takeOption rule none with
      | .error fault => .error fault
      | .ok g => usage.takeShort rest g

def takeOperand (usage : Usage) (g : Given) (word : String) : Except UsageFault Given :=
  match usage.operand with
  | none => .error .unknownArgument
  | some rule =>
    if g.has rule.name || g.begun.any (·.1 == rule) then .error .unknownArgument
    else g.settle.map fun g => { g with begun := some (rule, some word) }

def take (usage : Usage) (g : Given) (word : String) : Except UsageFault Given :=
  if g.trailing then usage.takeOperand g word
  else
    match WordForm.of word with
    | .escape => .ok { g with trailing := true }
    | .long name attached =>
      match usage.options.find? (·.name == name) with
      | none => .error .unknownArgument
      | some rule => g.takeOption rule attached
    | .short letters => usage.takeShort letters g
    | .plain =>
      match g.begun with
      | some (rule, none) => .ok { g with begun := some (rule, some word) }
      | _ => usage.takeOperand g word

def scan (usage : Usage) (words : List String) : Except UsageFault Given := do
  (← words.foldlM usage.take .nothing).settle

end Usage

end ClassWeaver

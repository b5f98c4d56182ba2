import ClassWeaver.CommandLine.Options

namespace ClassWeaver

namespace CommandLine

def common : List OptionRule :=
  [⟨"help", .help, some 'h'⟩, ⟨"log-json", .switch, none⟩, ⟨"verbose", .switch, some 'v'⟩]

def front : Usage := ⟨common, none⟩

def usageOf? (command : String) : Option Usage :=
  match command with
  | "run" => some
      ⟨common ++ [⟨"config", .value, none⟩, ⟨"output", .value, none⟩, ⟨"project", .values, none⟩,
        ⟨"sub-project", .values, none⟩, ⟨"external", .values, none⟩, ⟨"state", .value, none⟩,
        ⟨"full", .switch, none⟩], none⟩
  | "describe" => some ⟨common ++ [⟨"config", .value, none⟩], none⟩
  | "inspect" => some ⟨common, some ⟨"class-file", .value, none⟩⟩
  | "clean" => some ⟨common ++ [⟨"output", .value, none⟩, ⟨"state", .value, none⟩], none⟩
  | _ => none

def isCommand (word : String) : Bool := word == "help" || (usageOf? word).isSome

def splitCommand : List String → Given → Except UsageFault (Given × String × List String)
  | [], g => .error (if g.found.isEmpty then .nothingGiven else .noCommand)
  | word :: rest, g =>
    if g.trailing then .error (if isCommand word then .unknownArgument else .unknownCommand)
    else if isCommand word then .ok (g, word, rest)
    else if WordForm.of word = .plain then .error .unknownCommand
    else
      match front.take g word with
      | .error fault => .error fault
      | .ok g => splitCommand rest g

def helpOn : List String → UsageFault
  | [] => .help
  | [word] => if isCommand word then .help else .unknownCommand
  | _ => .unknownCommand

def required (g : Given) (name : String) : Except UsageFault String :=
  match g.value? name with
  | some text => .ok text
  | none => .error .missingArgument

def commandOf (name : String) (g : Given) : Except UsageFault Command :=
  match name with
  | "run" => do
    return .run
      { config := ← required g "config"
        output := ← required g "output"
        project := g.values "project"
        subProjects := g.values "sub-project"
        external := g.values "external"
        state := g.value? "state"
        full := g.has "full" }
  | "describe" => do return .describe (← required g "config")
  | "inspect" => do return .inspect (← required g "class-file")
  | "clean" => do return .clean (← required g "output") (g.value? "state")
  | _ => .error .unknownCommand

def parse (words : List String) : Except UsageFault CommandLine := do
  let (before, name, rest) ← splitCommand words .nothing
  match usageOf? name with
  | none => .error (helpOn rest)
  | some usage =>
    let after ← usage.scan rest
    let command ← commandOf name after
    return {
      command
      logJson := before.has "log-json" || after.has "log-json"
      verbose := before.has "verbose" || after.has "verbose" }

end CommandLine

end ClassWeaver

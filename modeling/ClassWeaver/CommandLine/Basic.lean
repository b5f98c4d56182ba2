namespace ClassWeaver

structure RunArguments where
  config : String
  output : String
  project : List String
  subProjects : List String
  external : List String
  state : Option String
  full : Bool
  deriving DecidableEq, Repr

inductive Command where
  | run (arguments : RunArguments)
  | describe (config : String)
  | inspect (classFile : String)
  | clean (output : String) (state : Option String)
  deriving DecidableEq, Repr

structure CommandLine where
  command : Command
  logJson : Bool
  verbose : Bool
  deriving DecidableEq, Repr

inductive UsageFault where
  | help
  | nothingGiven
  | noCommand
  | unknownCommand
  | unknownArgument
  | missingArgument
  | repeatedArgument
  | noValue
  | unwantedValue
  deriving DecidableEq, Repr

namespace UsageFault

def message : UsageFault → String
  | help => "help"
  | nothingGiven => "nothing to do"
  | noCommand => "a command is missing"
  | unknownCommand => "unknown command"
  | unknownArgument => "unexpected argument"
  | missingArgument => "a required argument is missing"
  | repeatedArgument => "an argument is given more than once"
  | noValue => "an option needs a value"
  | unwantedValue => "an option takes no value"

/-- Help that was asked for is no failure. -/
def exitCode : UsageFault → Nat
  | help => 0
  | _ => 2

end UsageFault

end ClassWeaver

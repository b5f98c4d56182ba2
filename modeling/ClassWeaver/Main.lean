import ClassWeaver.Files.Disk
import ClassWeaver.Program

open ClassWeaver

def usageText : String :=
  "Weave hooks into compiled classes in directories and jars\n\n" ++
  "  run --config FILE --output DIR [--project PATH]... [--sub-project PATH]...\n" ++
  "      [--external PATH]... [--state FILE] [--full]\n" ++
  "  describe --config FILE\n" ++
  "  inspect CLASS_FILE\n" ++
  "  clean --output DIR [--state FILE]\n"

def main (words : List String) : IO UInt32 := do
  match CommandLine.parse words with
  | .error .help =>
    IO.print usageText
    return 0
  | .error fault =>
    IO.eprint ("error: " ++ fault.message ++ "\n\n" ++ usageText)
    return UInt32.ofNat fault.exitCode
  | .ok line =>
    let ending ← Program.run Disk.system line.command
    match ending with
    | .done output => IO.print output
    | _ => IO.eprintln ending.errorText
    return UInt32.ofNat ending.exitCode

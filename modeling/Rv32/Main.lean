/-
# `Rv32.Main` — the command

Reads the program, runs it on a board, and shows what the guest prints as it is
printed.  Reports and errors go to the error stream.  The exit code is two for a
command line that is not understood, and one for a run that cannot begin, unless
this is for want of room.
-/
import Rv32.Board.Run
import Rv32.Command.Options
import Rv32.Command.Summary

namespace Rv32.Command

def usage : String :=
  "Usage: rv32 [OPTIONS] [FIRMWARE]\n\n" ++
  "Arguments:\n" ++
  "  [FIRMWARE]  Flat firmware image, mapped read-only at the ROM base\n\n" ++
  "Options:\n" ++
  "      --elf <FILE>           ELF file to run instead of a flat image\n" ++
  "      --rom-base <ADDRESS>   Start of read-only memory [default: 0x11000000]\n" ++
  "      --ram-base <ADDRESS>   Start of main memory [default: 0x80000000]\n" ++
  "      --ram-size <BYTES>     Size of main memory [default: 8388608]\n" ++
  "      --cycles <CYCLES>      Cycles to run each hart for [default: 64000000]\n" ++
  "      --slice <CYCLES>       Cycles between interrupt checks [default: 16]\n" ++
  "      --harts <HARTS>        Number of harts [default: 1]\n" ++
  "  -v                         Increase log verbosity\n" ++
  "  -h, --help                 Print help\n" ++
  "  -V, --version              Print version"

def reportAll (events : List Event) : IO Unit := events.forM fun e => IO.eprintln e.render

/-- Shows what a board printed and reported, and moves its clock on. -/
def attend (lastLook : IO.Ref Nat) (b : Board) : IO Board := do
  let output ← IO.getStdout
  output.write b.printed
  output.flush
  reportAll b.events
  let now ← IO.monoNanosNow
  let before ← lastLook.swap now
  return b.drained.later (now / 1000 - before / 1000)

/-- Runs a board, and sums up. -/
def perform (o : Options) (b : Board) : IO Unit := do
  let start ← IO.monoNanosNow
  let lastLook ← IO.mkRef start
  let b ← attend lastLook b
  let b ← b.runWith (attend lastLook) o.cycles
  let time := (← IO.monoNanosNow) - start
  if Summary.reportDetail ≤ o.detail then IO.eprintln (Summary.report b.executed time)
  IO.println (Summary.render b.executed time)

/-- Reads the program and runs it. -/
def execute (o : Options) : IO UInt32 := do
  let file ← match o.path? with
    | none => pure ByteArray.empty
    | some path => IO.FS.readBinFile path
  match o.boot file with
  | (.ok b, _) =>
    perform o b
    return 0
  | (.error e, journal) =>
    reportAll journal.events.toList
    IO.eprintln ("Error: " ++ e.message)
    return e.code

/-- Does what a command line asks for. -/
def run (arguments : List String) : IO UInt32 := do
  match Options.parse arguments with
  | .error e =>
    IO.eprintln ("error: " ++ e.message ++ "\n\n" ++ usage)
    return 2
  | .ok .help =>
    IO.println usage
    return 0
  | .ok .version =>
    IO.println "rv32 0.1.0"
    return 0
  | .ok (.run o) =>
    try execute o
    catch e =>
      IO.eprintln ("Error: " ++ toString e)
      return 1

end Rv32.Command

def main (arguments : List String) : IO UInt32 := Rv32.Command.run arguments

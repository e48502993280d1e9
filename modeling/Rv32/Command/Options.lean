/-
# `Rv32.Command.Options` — what a command line asks for

A command line is read from left to right, and the first thing that is wrong with
it, or a request for help, ends the reading.  Only when all of it has been read
are its parts compared with each other.

Options begin with two dashes and take a value, which is the next argument or
stands behind an equals sign; an argument that looks like an option is never a
value of another.  Letters for switches may share one dash.  After a lone `--`
there are no options any more, and a lone `-` is none.
-/
import Rv32.Board.Basic
import Rv32.Command.Numeral

namespace Rv32

inductive Program where
  /-- Nothing; memory is empty. -/
  | none
  | flat (path : String)
  | elf (path : String)
deriving DecidableEq, Repr

structure Options where
  program : Program
  board : BoardConfig
  cycles : Nat
  /-- How often more reports were asked for. -/
  verbosity : Nat
deriving DecidableEq, Repr

inductive Request where
  | help
  | version
  | run (options : Options)
deriving DecidableEq, Repr

namespace Options

inductive Setting where
  | elf
  | romBase
  | ramBase
  | ramSize
  | cycles
  | slice
  | harts
deriving DecidableEq, Repr

namespace Setting

/-- All options that take a value. -/
def all : List Setting := [.elf, .romBase, .ramBase, .ramSize, .cycles, .slice, .harts]

def name : Setting → String
  | .elf => "elf"
  | .romBase => "rom-base"
  | .ramBase => "ram-base"
  | .ramSize => "ram-size"
  | .cycles => "cycles"
  | .slice => "slice"
  | .harts => "harts"

def ofName? (name : List Char) : Option Setting := all.find? fun s => s.name.toList == name

end Setting

inductive Error where
  | unknownOption (argument : String)
  | missingValue (setting : Setting)
  | repeated (setting : Setting)
  | invalidValue (setting : Setting) (error : Numeral.Error)
  | unexpected (argument : String)
  /-- Both a flat image and an executable file. -/
  | twoPrograms
deriving DecidableEq, Repr

def Error.message : Error → String
  | .unknownOption argument => "unknown option " ++ argument
  | .missingValue setting => "no value for --" ++ setting.name
  | .repeated setting => "--" ++ setting.name ++ " is given twice"
  | .invalidValue setting e => "invalid value for --" ++ setting.name ++ ": " ++ e.message
  | .unexpected argument => "unexpected argument " ++ argument
  | .twoPrograms => "--elf cannot be used with a flat image"

/-! ## What has been read -/

/-- The parts of a command line that have been read. -/
structure Given where
  flat : Option String
  elf : Option String
  romBase : Option Word
  ramBase : Option Word
  ramSize : Option Word
  cycles : Option Nat
  slice : Option Nat
  harts : Option Nat
  verbosity : Nat

def Given.nothing : Given := ⟨none, none, none, none, none, none, none, none, 0⟩

/-- A value that has to be new and in order. -/
def accept {α : Type} (setting : Setting) (old : Option α) (value : Except Numeral.Error α) :
    Except Error (Option α) :=
  match old, value with
  | some _, _ => .error (.repeated setting)
  | none, .error e => .error (.invalidValue setting e)
  | none, .ok value => .ok (some value)

/-- What has been given with one more value. -/
def Given.set (g : Given) (setting : Setting) (text : String) : Except Error Given :=
  let cs := text.toList
  match setting with
  | .elf => return { g with elf := ← accept setting g.elf (.ok text) }
  | .romBase => return { g with romBase := ← accept setting g.romBase (Numeral.address cs) }
  | .ramBase => return { g with ramBase := ← accept setting g.ramBase (Numeral.address cs) }
  | .ramSize => return { g with ramSize := ← accept setting g.ramSize (Numeral.word cs) }
  | .cycles => return { g with cycles := ← accept setting g.cycles (Numeral.count cs) }
  | .slice => return { g with slice := ← accept setting g.slice (Numeral.count cs) }
  | .harts => return { g with harts := ← accept setting g.harts (Numeral.count cs) }

/-- What has been given with a flat image. -/
def Given.setFlat (g : Given) (argument : String) : Except Error Given :=
  match g.flat with
  | some _ => .error (.unexpected argument)
  | none => .ok { g with flat := some argument }

/-- The options, where what was not given has its usual value. -/
def Given.options (g : Given) : Except Error Options := do
  let program ← match g.flat, g.elf with
    | some _, some _ => .error .twoPrograms
    | some path, none => .ok (Program.flat path)
    | none, some path => .ok (.elf path)
    | none, none => .ok .none
  return {
    program
    board := {
      harts := g.harts.getD 1
      slice := g.slice.getD 16
      romBase := g.romBase.getD 0x11000000
      ramBase := g.ramBase.getD 0x80000000
      ramSize := g.ramSize.getD 0x800000 }
    cycles := g.cycles.getD 64000000
    verbosity := g.verbosity }

/-! ## Reading -/

inductive Argument where
  | endOfOptions
  /-- An option that takes a value, with the value if that stands in the argument. -/
  | setting (setting : Setting) (value : Option String)
  | switches (letters : List Char)
  | help
  | version
  /-- Something that looks like an option and is none. -/
  | unknown
  | plain
deriving DecidableEq, Repr

/-- What an argument that begins with two dashes is. -/
def long (cs : List Char) : Argument :=
  let name := cs.takeWhile (· ≠ '=')
  let value := (cs.drop name.length).tail? |>.map String.ofList
  match Setting.ofName? name, value with
  | some setting, value => .setting setting value
  | none, some _ => .unknown
  | none, none =>
    if name = "help".toList then .help
    else if name = "version".toList then .version
    else .unknown

/-- What an argument is, when options are still possible. -/
def classify (argument : String) : Argument :=
  match argument.toList with
  | ['-', '-'] => .endOfOptions
  | '-' :: '-' :: cs => long cs
  | ['-'] => .plain
  | '-' :: cs => .switches cs
  | _ => .plain

inductive Switched where
  | more (given : Given)
  | request (request : Request)
  | unknown

def switch (g : Given) : List Char → Switched
  | [] => .more g
  | 'v' :: rest => switch { g with verbosity := g.verbosity + 1 } rest
  | 'h' :: _ => .request .help
  | 'V' :: _ => .request .version
  | _ :: _ => .unknown

/-- Reads a command line behind the end of options. -/
def readPlain (g : Given) : List String → Except Error Request
  | [] => g.options.map .run
  | argument :: rest => do readPlain (← g.setFlat argument) rest

def read (g : Given) : List String → Except Error Request
  | [] => g.options.map .run
  | argument :: rest =>
    match classify argument with
    | .endOfOptions => readPlain g rest
    | .help => .ok .help
    | .version => .ok .version
    | .unknown => .error (.unknownOption argument)
    | .plain => do read (← g.setFlat argument) rest
    | .switches letters =>
      match switch g letters with
      | .more g => read g rest
      | .request r => .ok r
      | .unknown => .error (.unknownOption argument)
    | .setting setting (some value) => do read (← g.set setting value) rest
    | .setting setting none =>
      match rest with
      | [] => .error (.missingValue setting)
      | value :: rest =>
        if classify value = .plain then do read (← g.set setting value) rest
        else .error (.missingValue setting)

def parse (arguments : List String) : Except Error Request := read .nothing arguments

/-- The file a run needs. -/
def path? (o : Options) : Option String :=
  match o.program with
  | .none => none
  | .flat path | .elf path => some path

/-- The detail reports are kept at.  Warnings are always kept. -/
def detail (o : Options) : Nat := 1 + o.verbosity

/-- The board a run starts with, given the contents of the file it needs. -/
def boot (o : Options) (file : ByteArray) : Except BoardError Board × Journal :=
  let journal := Journal.empty o.detail
  match o.program with
  | .elf _ => Board.buildElf o.board file journal
  | .flat _ | .none => Board.build o.board (Image.flat o.board.romBase (Bytes.unpack file)) journal

end Options
end Rv32

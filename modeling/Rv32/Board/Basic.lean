/-
# `Rv32.Board.Basic` — a machine with the devices programs expect

A board has a printer, two channels, read-only memory if there is anything in it,
main memory and the register that tells its size.  One of the channels carries
messages to the guest's component, the other the guest's last words.

Building a board may fail halfway.  What was reported until then is kept.
-/
import Rv32.Machine.Basic
import Rv32.Program.Image

namespace Rv32

/-- What may be chosen about a board. -/
structure BoardConfig where
  harts : Nat
  /-- The number of instructions of a turn. -/
  slice : Nat
  /-- Where read-only memory begins. -/
  romBase : Word
  /-- Where main memory begins. -/
  ramBase : Word
  /-- The number of bytes of main memory. -/
  ramSize : Word
deriving DecidableEq, Repr

/-- A board. -/
structure Board where
  machine : Machine
  printer : Nat
  component : Nat
  /-- The index of the channel for last words. -/
  lastWords : Nat

/-- Why a board cannot be built. -/
inductive BoardError where
  | program (error : Elf.Error)
  /-- The program asks for more bytes than can be kept in one piece. -/
  | overflow
  | ramDoesNotFit
  | romDoesNotFit
  | unplaced (error : MapError)
  /-- Part of the program has no memory to go to. -/
  | unmapped (error : Unmapped)

namespace BoardError

def placement : MapError → String
  | .overlap ⟨range⟩ =>
    "Overlap(OverlappingAddressRanges(AddressRange \x7b " ++
      s!"start: {range.first.toNat}, end: {range.last.toNat}" ++ " \x7d))"
  | e => e.message

def message : BoardError → String
  | .program e => "Malformed(\"" ++ e.reason ++ "\")"
  | .overflow => "capacity overflow"
  | .ramDoesNotFit => "\"RAM does not fit the address space\""
  | .romDoesNotFit => "\"ROM does not fit the address space\""
  | .unplaced e => placement e
  | .unmapped e => "Unmapped \x7b " ++ s!"address: {e.address.toNat}" ++ " \x7d"

/-- What the command answers with.  An overflow is not taken care of. -/
def code : BoardError → UInt32
  | .overflow => 101
  | .program _ | .ramDoesNotFit | .romDoesNotFit | .unplaced _ | .unmapped _ => 1

end BoardError

namespace Board

def printerBase : Word := 0x10000000

def componentBase : Word := 0x10001000

/-- The address of the channel for last words. -/
def lastWordsBase : Word := 0x10002000

/-! ## Building boards -/

def attach (d : Device) : Attempt BoardError Machine Nat := do
  let (result, machine) := (← get).add d
  set machine
  match result with
  | .ok index => return index
  | .error e => throw (.unplaced e)

def makeRam (start length : Word) : Attempt BoardError Machine Ram := do
  let (made, memory) := (← get).memory.makeRam start length
  modify (·.setMemory memory)
  let some ram := made | throw .ramDoesNotFit
  return ram

/-- Writes a part of the program to memory. -/
def load (p : Part) : Attempt BoardError Machine Unit := do
  let m := (← get).record (.loading p.address p.data.length)
  let (result, memory) := m.memory.load p.address p.data
  set (m.setMemory memory)
  match result with
  | .ok () => return
  | .error e => throw (.unmapped e)

/-- Adds read-only memory, if there is anything in it. -/
def attachRom (start : Word) (data : List Byte) : Attempt BoardError Machine Unit := do
  if data.isEmpty then return
  let some rom := Rom.ofImage? start (Bytes.pack data) | throw .romDoesNotFit
  discard <| attach (.rom rom)

/-- Adds all devices, and gives the indices of the printer and of the two channels. -/
def equip (c : BoardConfig) (image : Image) : Attempt BoardError Machine (Nat × Nat × Nat) := do
  let ram ← makeRam c.ramBase c.ramSize
  let printer ← attach (.printer (.init printerBase))
  let component ← attach (.fifo (.init componentBase))
  let lastWords ← attach (.fifo (.init lastWordsBase))
  attachRom c.romBase image.rom
  let size := RamSize.below ram
  discard <| attach (.ram ram)
  discard <| attach (.ramSize size)
  image.parts.forM load
  return (printer, component, lastWords)

def machineConfig (c : BoardConfig) (entry : Word) : MachineConfig :=
  { harts := c.harts, slice := c.slice, resetVector := entry, haltOnBreak := true }

/-- Builds a board with a program in its memory. -/
def build (c : BoardConfig) (image : Image) (journal : Journal) :
    Except BoardError Board × Journal :=
  match Machine.create (machineConfig c image.entry) journal with
  | .error e => (.error (.unplaced e), journal)
  | .ok machine =>
    match equip c image machine with
    | (.ok (printer, component, lastWords), machine) =>
      (.ok ⟨machine, printer, component, lastWords⟩, machine.memory.journal)
    | (.error e, machine) => (.error e, machine.memory.journal)

def buildElf (c : BoardConfig) (file : ByteArray) (journal : Journal) :
    Except BoardError Board × Journal :=
  match Elf.parse file with
  | .error e => (.error (.program e), journal)
  | .ok elf =>
    match Image.ofElf file elf c.romBase c.ramBase journal with
    | (.error (.malformed e), journal) => (.error (.program e), journal)
    | (.error .overflow, journal) => (.error .overflow, journal)
    | (.ok image, journal) => build c image journal

end Board
end Rv32

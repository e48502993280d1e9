/-
# `Rv32.Board.Run` — running a board, and listening to its guest

A run is cut into chunks of cycles.  After each the host looks whether the guest
has sent a message.  A message to the component is only noticed; last words end
the run, and so does a hart that stops the machine.
-/
import Rv32.Board.Basic

namespace Rv32.Board

/-- The greatest number of cycles between two looks at the channels. -/
def chunkLength : Nat := 0x100000

/-! ## Channels -/

/-- The message in a channel, if it is ready. -/
def message? (m : Machine) (channel : Nat) : Option (List Byte) :=
  match m.memory.device? channel with
  | some (.fifo f) => f.message?.map (·.toList)
  | _ => none

/-- The machine after the message in a channel was taken. -/
def afterTake (m : Machine) (channel : Nat) : Machine :=
  match m.memory.device? channel with
  | some (.fifo f) => m.setMemory (m.memory.setDevice channel (.fifo f.afterTake))
  | _ => m

def hearComponent (b : Board) : Board :=
  match message? b.machine b.component with
  | none => b
  | some message =>
    { b with
      machine := (afterTake b.machine b.component).record (.componentCall message.length) }

/-- Takes the guest's last words, and tells whether there were any. -/
def hearLastWords (b : Board) : Bool × Board :=
  match message? b.machine b.lastWords with
  | none => (false, b)
  | some message =>
    (true, { b with
      machine := (afterTake b.machine b.lastWords).record (.guestPanicked (Bytes.pack message)) })

/-! ## Runs -/

/-- Whether a run ends after a chunk of it, and the board that listened. -/
def listen (b : Board) (result : RunResult) : Bool × Board :=
  match b.hearComponent.hearLastWords, result with
  | (true, b), _ => (true, b)
  | (false, b), .stopped hart =>
    (true, { b with machine := b.machine.record (.breakpoint hart) })
  | (false, b), .completed => (false, b)

def chunk (b : Board) (cycles : Nat) : Bool × Board :=
  let (result, machine) := b.machine.run cycles
  { b with machine }.listen result

/-- Runs a number of cycles, and acts on the board after each chunk. -/
def runWith {m : Type → Type} [Monad m] (act : Board → m Board) (b : Board) (cycles : Nat) :
    m Board :=
  if _h : cycles = 0 then pure b
  else do
    let (ended, b) := b.chunk (min cycles chunkLength)
    let b ← act b
    if ended then pure b else runWith act b (cycles - min cycles chunkLength)
termination_by cycles
decreasing_by simp only [chunkLength]; omega

def run (b : Board) (cycles : Nat) : Board := Id.run (b.runWith pure cycles)

/-- The number of instructions a run is summed up with: the cycles of the machine, once
for each hart.  Both factors and the product are words of 64 bits, as long as one can
hold the cycles of all harts. -/
def executed (b : Board) : Nat := b.machine.executed * b.machine.harts.length

/-! ## Output -/

def printed (b : Board) : ByteArray :=
  match b.machine.memory.device? b.printer with
  | some (.printer p) => p.printed
  | _ => .empty

def events (b : Board) : List Event := b.machine.memory.journal.events.toList

/-- The board with what was printed and reported so far forgotten. -/
def drained (b : Board) : Board :=
  let memory := b.machine.memory
  let memory := { memory with journal := { memory.journal with events := #[] } }
  { b with machine := b.machine.setMemory (match memory.device? b.printer with
      | some (.printer p) => memory.setDevice b.printer (.printer (.init p.start))
      | _ => memory) }

/-- The board some time later. -/
def later (b : Board) (microseconds : Nat) : Board :=
  { b with machine := b.machine.setClint (b.machine.clint.later microseconds) }

end Rv32.Board

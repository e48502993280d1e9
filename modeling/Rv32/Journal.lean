/-
# `Rv32.Journal` — what a machine reports about itself

Parts of the machine report what they do: devices that refuse an access, the
translation of addresses, the delivery of traps.  Reports are kept as values, in
order, and turned into text only when somebody reads them.  A journal keeps the
reports up to a level of detail and forgets the others, so that a run which
nobody watches costs nothing.
-/
import Rv32.Access
import Rv32.Address.Range
import Rv32.Privilege
import Rv32.Text.Utf8
import Rv32.Trap.Cause

namespace Rv32

/-! ## Levels -/

/-- How much attention a report asks for. -/
inductive Level where
  | warn
  | info
  | debug
  | trace
deriving DecidableEq, Repr

namespace Level

/-- The least detail at which reports of a level are kept. -/
def detail : Level → Nat
  | .warn => 1
  | .info => 2
  | .debug => 3
  | .trace => 4

def label : Level → String
  | .warn => "WARN"
  | .info => "INFO"
  | .debug => "DEBUG"
  | .trace => "TRACE"

end Level

/-! ## Events -/

inductive Event where
  /-- A device found its place in the address space. -/
  | mapped (name description : String) (range : Address.Range)
  /-- The core-local interruptor was accessed by less than a word. -/
  | narrowAccess (access : Access) (width : Width) (address : Word)
  /-- A byte was written to read-only memory. -/
  | readOnlyWrite (value : Byte) (address : Word)
  /-- The page tables were walked, and mapped an address. -/
  | translated (address physical : Word) (access : Access) (privilege : Privilege)
  /-- A hart goes to its trap handler. -/
  | delivered (hart : Nat) (trap : Trap) (source target : Privilege)
  /-- A machine came into being. -/
  | created (harts : Nat) (resetVector : Word)
  /-- A loadable segment of a program file. -/
  | segment (address : Word) (size : Nat)
  /-- Part of a program is put into memory. -/
  | loading (address : Word) (size : Nat)
  /-- The guest sent a message to its component. -/
  | componentCall (size : Nat)
  | guestPanicked (message : ByteArray)
  | breakpoint (hart : Nat)

namespace Event

/-- The name shown for a kind of access. -/
def accessName : Access → String
  | .read => "Read"
  | .write => "Write"
  | .execute => "Execute"

def narrowText (access : Access) (width : Width) (address : Word) : String :=
  let size := if width = .byte then "byte" else "halfword"
  let direction := if access = .write then "write to" else "read from"
  "Ignoring " ++ size ++ " " ++ direction ++ " CLINT at " ++ address.hex

def level : Event → Level
  | .narrowAccess .. | .guestPanicked .. => .warn
  | .breakpoint .. => .info
  | .mapped .. | .created .. | .segment .. | .loading .. | .componentCall .. => .debug
  | .readOnlyWrite .. | .translated .. | .delivered .. => .trace

def text : Event → String
  | .mapped name description range =>
    "Mapped device " ++ name ++ " (" ++ description ++ ") at " ++ range.render
  | .narrowAccess access width address => narrowText access width address
  | .readOnlyWrite value address =>
    "Ignoring write of " ++ value.hex ++ " to ROM at " ++ address.hex
  | .translated address physical access privilege =>
    "Translated " ++ address.hex ++ " to " ++ physical.hex ++ " for " ++ accessName access ++
      " in " ++ privilege.letter ++ " mode"
  | .delivered hart trap source target =>
    s!"Hart {hart} delivering " ++ trap.render ++ " from " ++ source.letter ++ " mode to " ++
      target.letter ++ " mode"
  | .created harts resetVector =>
    s!"Created VM with {harts} harts, reset vector " ++ resetVector.hex
  | .segment address size => "ELF segment at " ++ address.hex ++ s!" with {size} bytes"
  | .loading address size => s!"Loading {size} bytes at " ++ address.hex
  | .componentCall size => s!"Component call of {size} bytes"
  | .guestPanicked message => "Guest panicked: " ++ Utf8.decodeLossy message
  | .breakpoint hart => s!"Hart {hart} hit a breakpoint"

def render (e : Event) : String := e.level.label ++ " " ++ e.text

end Event

/-! ## Journals -/

/-- The reports of a run, the earliest first. -/
structure Journal where
  /-- Reports that need more detail than this are not kept. -/
  detail : Nat
  events : Array Event

namespace Journal

def empty (detail : Nat) : Journal := ⟨detail, #[]⟩

/-- Adds a report, if the journal keeps reports of its level. -/
def record (j : Journal) (e : Event) : Journal :=
  if e.level.detail ≤ j.detail then { j with events := j.events.push e } else j

/-- Adds reports in order. -/
def recordAll (j : Journal) (es : List Event) : Journal := es.foldl record j

end Journal
end Rv32

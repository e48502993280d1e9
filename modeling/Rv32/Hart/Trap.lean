/-
# `Rv32.Hart.Trap` — into a handler and back

Every cause has a mode that handles it: machine mode, unless it is delegated to
the supervisor, and from there perhaps to the user.  An exception is never handled
below the mode it was raised in.  An interrupt waits until it is for a higher mode
than the current one, or for this one with interrupts enabled.

Going to a handler and coming back work like a stack: each mode remembers where it
was entered from, in which mode, and whether interrupts were enabled.
-/
import Rv32.Hart.Csr

namespace Rv32.Hart

/-! ## Who handles what -/

/-- The register by which a mode delegates causes of a kind. -/
def delegation (level : Privilege) : Cause → Csr
  | .exception _ => Csr.medeleg.atLevel level
  | .interrupt _ => Csr.mideleg.atLevel level

/-- Whether a mode leaves a cause to the mode below. -/
def delegates (h : Hart) (level : Privilege) (cause : Cause) : Bool :=
  (h.csrs.get (delegation level cause)).getLsbD cause.code

def delegatedTo (h : Hart) (cause : Cause) : Privilege :=
  if !h.delegates .machine cause then .machine
  else if !h.delegates .supervisor cause then .supervisor
  else .user

/-- The mode that handles a cause now. -/
def handler (h : Hart) (cause : Cause) : Privilege :=
  match cause with
  | .exception _ => max (h.delegatedTo cause) h.privilege
  | .interrupt _ => h.delegatedTo cause

/-! ## Delivery -/

/-- The status register when a mode is entered. -/
def entered (status : Status) (target source : Privilege) : Status :=
  ((status.setPie target (status.ie target)).setIe target false).setPp target source

/-- The control registers of a hart that goes to the handler of a mode. -/
def saveTrap (h : Hart) (t : Trap) (target : Privilege) : CsrFile :=
  let saved := ((h.csrs.set (Csr.mepc.atLevel target) t.epc).set
    (Csr.mcause.atLevel target) t.cause.word).set (Csr.mtval.atLevel target) t.tval
  saved.setStatus (entered saved.status target h.privilege)

def deliver (h : Hart) (t : Trap) : Hart :=
  let target := h.handler t.cause
  let csrs := h.saveTrap t target
  let vector : TrapVector := ⟨csrs.get (Csr.mtvec.atLevel target)⟩
  { h with
    csrs
    privilege := target
    registers := { h.registers with pc := vector.target t.cause } }

def delivery (h : Hart) (t : Trap) : Event :=
  .delivered h.config.id t h.privilege (h.handler t.cause)

/-! ## Return -/

/-- Whether the hart may return from a trap handled in a mode. -/
def mayReturn (h : Hart) (level : Privilege) : Bool :=
  !(decide (h.privilege < level)) &&
    !(level == .supervisor && h.privilege == .supervisor && h.csrs.status.tsr)

/-- The status register when a mode's handler is left. -/
def left (status : Status) (level : Privilege) : Status :=
  let popped := ((status.setIe level (status.pie level)).setPie level true).setPp level .user
  if status.pp level = .machine then popped else popped.setMprv false

/-- The hart back from a trap handled in a mode. -/
def trapReturn (h : Hart) (level : Privilege) : Hart :=
  { h with
    csrs := h.csrs.setStatus (left h.csrs.status level)
    privilege := h.csrs.status.pp level
    registers := { h.registers with pc := h.csrs.get (Csr.mepc.atLevel level) } }

/-! ## Interrupts -/

/-- Whether an interrupt is pending, enabled, and not kept waiting by the mode. -/
def deliverable (h : Hart) (clint : Clint) (i : Interrupt) : Bool :=
  let target := h.delegatedTo (.interrupt i)
  (h.pending clint &&& h.csrs.get Csr.mie &&& i.mask) != 0 &&
    (decide (h.privilege < target) || (h.privilege == target && h.csrs.status.ie target))

/-- The interrupt to deliver: the most urgent of those that can be. -/
def nextInterrupt (h : Hart) (clint : Clint) : Option Interrupt :=
  Interrupt.byPriority.find? (h.deliverable clint)

end Rv32.Hart

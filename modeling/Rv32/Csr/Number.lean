/-
# `Rv32.Csr.Number` — the control and status registers

A control register is named by twelve bits, which also say who may use it: bits
9 and 8 give the least privileged mode with access, and bits 11 and 10 are both
set where nobody may write.

The registers that set up and handle traps exist once for each mode.  They share
their low eight bits, so `atLevel` finds the one of a given mode.
-/
import Rv32.Instruction.Basic

namespace Rv32.Csr

/-! ## Access -/

/-- Whether the register can only be read. -/
def isReadOnly (c : Csr) : Bool := c.extractLsb' 10 2 == 0b11#2

/-- The least privileged mode with access. -/
def requiredPrivilege (c : Csr) : PrivilegeField := .ofBits (c.extractLsb' 8 2)

/-- The counterpart of a trap register in a mode. -/
def atLevel (level : Privilege) (c : Csr) : Csr := 0b00#2 ++ level.bits ++ c.extractLsb' 0 8

/-! ## Numbers -/

def ustatus : Csr := 0x000
def fflags : Csr := 0x001
def frm : Csr := 0x002
def fcsr : Csr := 0x003
def uie : Csr := 0x004
def utvec : Csr := 0x005
def uepc : Csr := 0x041
def uip : Csr := 0x044

def sstatus : Csr := 0x100
def sedeleg : Csr := 0x102
def sideleg : Csr := 0x103
def sie : Csr := 0x104
def stvec : Csr := 0x105
def sepc : Csr := 0x141
def sip : Csr := 0x144

/-- The root of the page table, and whether there is one. -/
def satp : Csr := 0x180

def mstatus : Csr := 0x300
def misa : Csr := 0x301
def medeleg : Csr := 0x302
def mideleg : Csr := 0x303
def mie : Csr := 0x304
def mtvec : Csr := 0x305
def mepc : Csr := 0x341
def mcause : Csr := 0x342
def mtval : Csr := 0x343
def mip : Csr := 0x344

def mcycle : Csr := 0xB00
def minstret : Csr := 0xB02
def mcycleh : Csr := 0xB80
def minstreth : Csr := 0xB82

def cycle : Csr := 0xC00
def time : Csr := 0xC01
def instret : Csr := 0xC02
def cycleh : Csr := 0xC80
def timeh : Csr := 0xC81
def instreth : Csr := 0xC82

def mvendorid : Csr := 0xF11
def marchid : Csr := 0xF12
def mimpid : Csr := 0xF13
def mhartid : Csr := 0xF14

/-! ## Wide numbers

A host may name a register by sixteen bits.  Only the first 4096 numbers are
registers in their own right; the others are further names for the same storage,
without any of the registers' special behaviour. -/

def isNumber (wide : Half) : Bool := decide (wide.toNat < 4096)

/-- The register whose storage a wide number names. -/
def ofWide (wide : Half) : Csr := wide.setWidth 12

end Rv32.Csr

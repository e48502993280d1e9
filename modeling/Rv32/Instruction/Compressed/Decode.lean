/-
# `Rv32.Instruction.Compressed.Decode` — from halfwords to instructions

A 16-bit instruction abbreviates a 32-bit one, so it decodes into the same type.
The fourth quadrant belongs to the 32-bit instructions and is not decoded here.

Encodings the architecture reserves are illegal: zero immediates where a nonzero
one is required, shift amounts of 32 and above, and the forms of the 64-bit
architecture.  Encodings it calls hints are ordinary instructions whose result
goes to register 0.
-/
import Rv32.Instruction.Compressed.Fields

namespace Rv32.Compressed

/-- The operation of a CA-layout instruction. -/
def arithmetic (code : BitVec 2) : RegOp :=
  match code with
  | 0b00#2 => .sub
  | 0b01#2 => .xor
  | 0b10#2 => .or
  | _ => .and

/-- Quadrant 0: stack addresses, and loads and stores relative to a register. -/
def quadrant0? (h : Half) : Option Instruction :=
  match funct3 h with
  | 0b000#3 =>
    if frameOffset h = 0 then none
    else some (.opImm .add (rs2Short h) Reg.stack (frameOffset h))
  | 0b001#3 => some (.loadFloat .double (rs2Short h) (rs1Short h) (doubleOffset h))
  | 0b010#3 => some (.load .word (rs2Short h) (rs1Short h) (wordOffset h))
  | 0b011#3 => some (.loadFloat .single (rs2Short h) (rs1Short h) (wordOffset h))
  | 0b101#3 => some (.storeFloat .double (rs2Short h) (rs1Short h) (doubleOffset h))
  | 0b110#3 => some (.store .word (rs2Short h) (rs1Short h) (wordOffset h))
  | 0b111#3 => some (.storeFloat .single (rs2Short h) (rs1Short h) (wordOffset h))
  | _ => none

/-- Shifts right, `andi`, and register-register arithmetic on short registers. -/
def shortArithmetic? (h : Half) : Option Instruction :=
  let r := rs1Short h
  match h.extractLsb' 10 2 with
  | 0b00#2 => if bit h 12 = 1 then none else some (.shiftImm .right r r (shiftAmount h))
  | 0b01#2 => if bit h 12 = 1 then none else some (.shiftImm .rightArith r r (shiftAmount h))
  | 0b10#2 => some (.opImm .and r r (immediate h))
  | _ => if bit h 12 = 1 then none else some (.opReg (arithmetic (funct2 h)) r r (rs2Short h))

/-- Quadrant 1: immediates, jumps, branches and short arithmetic. -/
def quadrant1? (h : Half) : Option Instruction :=
  let r := rs1 h
  match funct3 h with
  | 0b000#3 => some (.opImm .add r r (immediate h))
  | 0b001#3 => some (.jal Reg.link (jumpOffset h))
  | 0b010#3 => some (.opImm .add r Reg.zero (immediate h))
  | 0b011#3 =>
    if r = Reg.stack then
      if frame h = 0 then none else some (.opImm .add Reg.stack Reg.stack (frame h))
    else if upperImmediate h = 0 then none
    else some (.lui r (upperImmediate h))
  | 0b100#3 => shortArithmetic? h
  | 0b101#3 => some (.jal Reg.zero (jumpOffset h))
  | 0b110#3 => some (.branch .eq (rs1Short h) Reg.zero (branchOffset h))
  | _ => some (.branch .ne (rs1Short h) Reg.zero (branchOffset h))

/-- Jumps to a register, moves and additions: bit 12 tells the two rows apart,
and which register fields are zero tells the columns apart. -/
def jumpOrMove? (h : Half) : Option Instruction :=
  let r := rs1 h
  let s := rs2 h
  if bit h 12 = 1 then
    if s ≠ Reg.zero then some (.opReg .add r r s)
    else if r ≠ Reg.zero then some (.jalr Reg.link r 0)
    else some .ebreak
  else
    if s ≠ Reg.zero then some (.opReg .add r Reg.zero s)
    else if r ≠ Reg.zero then some (.jalr Reg.zero r 0)
    else none

/-- Quadrant 2: shifts left, and loads and stores relative to the stack. -/
def quadrant2? (h : Half) : Option Instruction :=
  let r := rs1 h
  match funct3 h with
  | 0b000#3 => if bit h 12 = 1 then none else some (.shiftImm .left r r (shiftAmount h))
  | 0b001#3 => some (.loadFloat .double r Reg.stack (doubleStackLoad h))
  | 0b010#3 =>
    if r = Reg.zero then none else some (.load .word r Reg.stack (wordStackLoad h))
  | 0b011#3 => some (.loadFloat .single r Reg.stack (wordStackLoad h))
  | 0b100#3 => jumpOrMove? h
  | 0b101#3 => some (.storeFloat .double (rs2 h) Reg.stack (doubleStackStore h))
  | 0b110#3 => some (.store .word (rs2 h) Reg.stack (wordStackStore h))
  | _ => some (.storeFloat .single (rs2 h) Reg.stack (wordStackStore h))

end Rv32.Compressed

namespace Rv32.Instruction
open Compressed

/-- The instruction a 16-bit word abbreviates. -/
def decodeCompressed (h : Half) : Except DecodeError Instruction :=
  match Compressed.opcode h with
  | 0b00#2 => (quadrant0? h).elim (.error .illegalInstruction) .ok
  | 0b01#2 => (quadrant1? h).elim (.error .illegalInstruction) .ok
  | 0b10#2 => (quadrant2? h).elim (.error .illegalInstruction) .ok
  | _ => .error .unsupportedOpcode

end Rv32.Instruction

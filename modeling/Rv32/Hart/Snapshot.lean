/-
# `Rv32.Hart.Snapshot` — saving and restoring a hart

The state of a hart as a value, and as bytes: numbers of fixed width, lowest byte
first, one field after the other, and before the control registers how many of
them there are.  What is fixed about a hart is not part of it; its timer is, since
no other hart shares it.

Bytes that follow a state are ignored.
-/
import Rv32.Hart.Basic

namespace Rv32

structure HartState where
  pc : Word
  ints : Vector Word 32
  floats : Vector Dword 32
  privilege : Privilege
  cycles : Dword
  /-- The comparator of the hart's timer. -/
  compare : Dword
  csrs : Array Word
deriving DecidableEq

/-- Why a hart cannot be restored. -/
inductive SnapshotError where
  | encoding
  /-- The state has too many or too few control registers. -/
  | csrCount (count : Nat)
deriving DecidableEq, Repr

def SnapshotError.message : SnapshotError → String
  | .encoding => "failed to encode or decode hart state"
  | .csrCount count => s!"hart state holds {count} CSRs, expected 4096"

/-! ## Harts and states -/

namespace Hart

def state (h : Hart) (clint : Clint) : HartState :=
  ⟨h.registers.pc, h.registers.ints, h.registers.floats, h.privilege, h.cycles,
    clint.compare h.config.id, h.csrs.words.toArray⟩

/-- Puts a hart and its timer into a state.  The control registers are looked at before
anything is changed. -/
def restoreInPlace (s : HartState) : Attempt SnapshotError (Hart × Clint) Unit := do
  let some csrs := CsrFile.ofWords? s.csrs | throw (.csrCount s.csrs.size)
  modify fun (h, clint) =>
    ({ h with
        registers := RegisterFile.ofContents s.pc s.ints s.floats
        csrs
        privilege := s.privilege
        cycles := s.cycles },
      clint.setCompare h.config.id s.compare)

/-- The hart and its timer in a given state, if there can be such a hart. -/
def restore (h : Hart) (clint : Clint) (s : HartState) : Except SnapshotError (Hart × Clint) :=
  match restoreInPlace s (h, clint) with
  | (.ok (), restored) => .ok restored
  | (.error e, _) => .error e

end Hart

/-! ## States and bytes -/

namespace HartState

/-- The number that stands for a mode. -/
def privilegeIndex : Privilege → Nat
  | .user => 0
  | .supervisor => 1
  | .machine => 2

/-- The mode a number stands for. -/
def privilegeOf? : Nat → Option Privilege
  | 0 => some .user
  | 1 => some .supervisor
  | 2 => some .machine
  | _ => none

def encode (s : HartState) : List Byte :=
  Width.word.split s.pc ++ s.ints.toList.flatMap Width.word.split ++
    s.floats.toList.flatMap Width.dword.split ++
    Width.word.split (BitVec.ofNat 32 (privilegeIndex s.privilege)) ++
    Width.dword.split s.cycles ++ Width.dword.split s.compare ++
    Width.dword.split (BitVec.ofNat 64 s.csrs.size) ++ s.csrs.toList.flatMap Width.word.split

/-- Splits off that many bytes, if there are so many. -/
def splitAt? : Nat → List Byte → Option (List Byte × List Byte)
  | 0, bytes => some ([], bytes)
  | _ + 1, [] => none
  | n + 1, b :: rest => (splitAt? n rest).map fun (front, rest) => (b :: front, rest)

/-- Reads a value from the front of a list of bytes. -/
def take? (w : Width) (bytes : List Byte) : Option (BitVec w.bits × List Byte) :=
  (splitAt? w.bytes bytes).map fun (front, rest) => (w.combine fun i => front.getD i 0, rest)

/-- Reads that many values. -/
def takeAll? (w : Width) : Nat → List Byte → Option (List (BitVec w.bits) × List Byte)
  | 0, bytes => some ([], bytes)
  | n + 1, bytes => do
    let (value, bytes) ← take? w bytes
    let (values, bytes) ← takeAll? w n bytes
    return (value :: values, bytes)

/-- Reads thirty-two values. -/
def takeFile? (w : Width) (bytes : List Byte) :
    Option (Vector (BitVec w.bits) 32 × List Byte) := do
  let (values, bytes) ← takeAll? w 32 bytes
  if h : values.toArray.size = 32 then some (⟨values.toArray, h⟩, bytes) else none

/-- The state whose bytes a list begins with. -/
def decode? (bytes : List Byte) : Option HartState := do
  let (pc, bytes) ← take? .word bytes
  let (ints, bytes) ← takeFile? .word bytes
  let (floats, bytes) ← takeFile? .dword bytes
  let (index, bytes) ← take? .word bytes
  let privilege ← privilegeOf? index.toNat
  let (cycles, bytes) ← take? .dword bytes
  let (compare, bytes) ← take? .dword bytes
  let (count, bytes) ← take? .dword bytes
  if 4 * count.toNat ≤ bytes.length then
    let (csrs, _) ← takeAll? .word count.toNat bytes
    return ⟨pc, ints, floats, privilege, cycles, compare, csrs.toArray⟩
  else none

end HartState
end Rv32

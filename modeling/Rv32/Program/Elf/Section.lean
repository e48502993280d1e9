/-
# `Rv32.Program.Elf.Section` — the sections of executable files

Sections are the parts of a file as those who make it see them.  Nothing of them is
put into memory, but a file whose sections contradict it is refused: the names of
sections and symbols have to be text, and the tables of symbols, relocations and
versions have to lie in the file.
-/
import Rv32.Program.Elf.Source

namespace Rv32.Elf

structure Section where
  kind : Nat
  /-- Its address, or zero. -/
  address : Nat
  /-- Where its contents begin in the file. -/
  offset : Nat
  size : Nat
  /-- Another section it belongs together with. -/
  link : Nat
  /-- The size of an entry, if it is a table. -/
  entrySize : Nat
deriving DecidableEq, Repr

namespace Section

def holdsSymbols (t : Section) : Bool := t.kind == 2

/-- Whether a section holds relocations, with an addend each or without. -/
def holdsRelocations (t : Section) : Bool := t.kind == 4 || t.kind == 9

def hasContents (t : Section) : Bool := t.kind != 8 && t.size != 0

/-- What the three sections about versions hold: the versions of symbols, those a file
defines, and those it needs. -/
def versionKinds : List Nat := [0x6FFFFFFF, 0x6FFFFFFD, 0x6FFFFFFE]

end Section

namespace Source

/-- The section described at a place of the file. -/
def sectionAt (s : Source) (place : Nat) : Except Error Section := do
  return {
    kind := ← s.word (place + 4)
    address := ← s.address (place + s.either 12 16)
    offset := ← s.address (place + s.either 16 24)
    size := ← s.address (place + s.either 20 32)
    link := ← s.word (place + s.either 24 40)
    entrySize := ← s.address (place + s.either 36 56) }

/-- The sections of a file.  There are none if the table has no place.  A number too large
for the header, where it is then zero, is the size of the first section. -/
def sections (s : Source) : Except Error (List Section) := do
  let offset ← s.address (s.either 32 40)
  let count ← s.half (s.either 48 60)
  if offset = 0 then return []
  let size := s.either 40 64
  s.demand offset size
  let first ← s.sectionAt offset
  s.table s.sectionAt offset (max 1 (if count = 0 then first.size else count)) size

/-- Demands that the contents of a section lie in the file, and at addresses that exist. -/
def demandSection (s : Source) (t : Section) : Except Error Unit := do
  if t.hasContents then
    s.demand t.offset t.size
    if 0x10000000000000000 ≤ t.address + t.size then throw .sectionWraps

/-- The section with an index.  An index too large for its field is the link of the first
section. -/
def linked? (sections : List Section) (index : Nat) : Option Section :=
  if index = 0xFFFF then sections.head?.bind fun first => sections[first.link]?
  else sections[index]?

/-- Demands that a section is a string table, if there is one with this index. -/
def demandStrings (s : Source) (sections : List Section) (index : Nat) : Except Error Unit := do
  if let some t := linked? sections index then
    s.demandSection t
    s.demandText t.offset t.size

/-- Demands that some symbols lie in the file. -/
def demandSymbols (s : Source) (offset count : Nat) : Except Error Unit :=
  s.demandBegun offset (count * s.either 16 24)

/-- Demands that the last section of symbols, and the names of these, lie in the file. -/
def demandSymbolSection (s : Source) (sections : List Section) : Except Error Unit := do
  if let some t := sections.reverse.find? (·.holdsSymbols) then
    s.demandSymbols t.offset (t.size / t.entrySize)
    s.demandStrings sections t.link

/-- Demands that the first section of each kind about versions lies in the file. -/
def demandVersions (s : Source) (sections : List Section) : Except Error Unit :=
  Section.versionKinds.forM fun kind => do
    if let some t := sections.find? (·.kind == kind) then s.demandBegun t.offset t.size

def checkSections (s : Source) : Except Error Unit := do
  let sections ← s.sections
  s.demandStrings sections (← s.half (s.either 50 62))
  s.demandSymbolSection sections
  (sections.filter (·.holdsRelocations)).forM s.demandSection
  s.demandVersions sections

end Source
end Rv32.Elf

/-
# `Rv32.Program.Elf.Dynamic` — what a program needs when it is linked at its start

One segment may hold the dynamic table, pairs of a tag and a value.  Some values are
addresses of further tables: of names, relocations and symbols.  The machine links
nothing, but a file is refused if one of these tables is not in it.

How many symbols there are is nowhere written.  It follows from the tables to look
them up, and from the relocations, which refer to symbols.
-/
import Rv32.Program.Elf.Section
import Rv32.Program.Elf.Segment

namespace Rv32.Elf

/-- What a value of the dynamic table says.  Other tags are passed over. -/
inductive Tag where
  /-- The number of bytes of the relocations of procedures. -/
  | proceduresSize
  /-- Where the hash table is that looks up symbols. -/
  | lookup
  | names
  | symbols
  | addends
  /-- The number of bytes of the relocations with addends. -/
  | addendsSize
  | namesSize
  /-- Where the relocations without addends are. -/
  | plain
  /-- The number of bytes of the relocations without addends. -/
  | plainSize
  /-- The tag of those relocations that the ones of procedures are like. -/
  | proceduresForm
  | procedures
  /-- Where the hash table with a filter is that looks up symbols. -/
  | filteredLookup
deriving DecidableEq, Repr

def Tag.code : Tag → Nat
  | .proceduresSize => 2
  | .lookup => 4
  | .names => 5
  | .symbols => 6
  | .addends => 7
  | .addendsSize => 8
  | .namesSize => 10
  | .plain => 17
  | .plainSize => 18
  | .proceduresForm => 20
  | .procedures => 23
  | .filteredLookup => 0x6FFFFEF5

structure Tagged where
  /-- The number that stands for the tag; zero marks the end of the table. -/
  code : Nat
  value : Nat
deriving DecidableEq, Repr

/-- What has to be known to understand the dynamic table. -/
structure Dynamic where
  /-- The pairs before the end mark. -/
  pairs : List Tagged
  segments : List Segment
deriving DecidableEq, Repr

namespace Dynamic

/-- The value with a tag.  The last one counts. -/
def value? (d : Dynamic) (tag : Tag) : Option Nat :=
  (d.pairs.reverse.find? (·.code == tag.code)).map (·.value)

/-- The number with a tag; zero if there is none. -/
def value (d : Dynamic) (tag : Tag) : Nat := (d.value? tag).getD 0

/-- Where in the file that is whose address has a tag. -/
def place? (d : Dynamic) (tag : Tag) : Option Nat :=
  (d.value? tag).bind (Segment.offsetOf? d.segments)

/-- Where in the file that is whose address has a tag; the beginning if there is none. -/
def place (d : Dynamic) (tag : Tag) : Nat := (d.place? tag).getD 0

end Dynamic

structure Relocations where
  offset : Nat
  size : Nat
  addends : Bool
deriving DecidableEq, Repr

/-- The three tables of relocations: with addends, without, and those of procedures. -/
def Dynamic.relocations (d : Dynamic) : List Relocations :=
  [⟨d.place .addends, d.value .addendsSize, true⟩, ⟨d.place .plain, d.value .plainSize, false⟩,
    ⟨d.place .procedures, d.value .proceduresSize, d.value .proceduresForm == Tag.addends.code⟩]

namespace Source

/-! ## Reading the table -/

def tagged (s : Source) (place : Nat) : Except Error Tagged := do
  return ⟨← s.address place, ← s.address (place + s.addressSize)⟩

/-- The dynamic table in a segment, up to the end mark. -/
def dynamic (s : Source) (segments : List Segment) (d : Segment) : Except Error Dynamic := do
  s.demandAny d.offset d.fileSize
  let size := 2 * s.addressSize
  if d.fileSize < size then return ⟨[], segments⟩
  let pairs ← s.table s.tagged d.offset (d.fileSize / size) size
  return ⟨pairs.takeWhile (·.code != 0), segments⟩

/-! ## Counting symbols -/

/-- The number of symbols behind some that end a chain: one of an odd hash does, and
belongs to it. -/
def chainLength (s : Source) (offset : Nat) : Except Error Nat := do
  let words := (s.file.size - offset) / 4
  let hashes ← (List.range words).mapM fun i => s.word (offset + 4 * i)
  match hashes.findIdx? (· % 2 == 1) with
  | some i => return i + 1
  | none => throw .truncated

/-- The number of symbols, from a hash table with a filter.  Every bucket names the first
symbol of its chain, and the last chain ends with the last symbol. -/
def filteredCount (s : Source) (offset : Nat) : Except Error Nat := do
  let buckets ← s.word offset
  let first ← s.word (offset + 4)
  let filter ← s.word (offset + 8)
  if buckets = 0 ∨ first = 0 ∨ filter = 0 then throw .emptyHash
  let start := offset + 16 + filter * s.addressSize
  let last := (← s.table s.word start buckets 4).foldl max 0
  if last < first then return 0
  return last + (← s.chainLength (start + 4 * buckets + 4 * (last - first)))

/-- The number of symbols, from a hash table without a filter.  On two machines such tables
have entries of 64 bits. -/
def hashedCount (s : Source) (offset : Nat) : Except Error Nat := do
  let machine ← s.half 18
  let long := s.wide && (machine == 41 || machine == 22)
  s.number (offset + 4) (if long then 8 else 4)

/-- The number of symbols, from the tables to look them up. -/
def lookupCount (s : Source) (d : Dynamic) : Except Error Nat :=
  match d.place? .filteredLookup, d.place? .lookup with
  | some offset, _ => s.filteredCount offset
  | none, some offset => s.hashedCount offset
  | none, none => .ok 0

/-- The index of the symbol of the relocation at a place of the file. -/
def relocatedSymbol (s : Source) (place : Nat) : Except Error Nat := do
  return (← s.address (place + s.addressSize)) >>> s.either 8 32

/-- The largest index of a symbol in a table of relocations. -/
def largestSymbol (s : Source) (r : Relocations) : Except Error Nat := do
  s.demandAny r.offset r.size
  let size := (if r.addends then 3 else 2) * s.addressSize
  if r.size < size then return 0
  return (← s.table s.relocatedSymbol r.offset (r.size / size) size).foldl max 0

/-! ## Checking -/

/-- Demands that what the dynamic table refers to lies in the file. -/
def demandDynamic (s : Source) (d : Dynamic) : Except Error Unit := do
  s.demandText (d.place .names) (d.value .namesSize)
  let largest := (← d.relocations.mapM s.largestSymbol).foldl max 0
  let count ← s.lookupCount d
  s.demandSymbols (d.place .symbols) (if largest = 0 then count else max count (largest + 1))

/-- Checks the dynamic table of a file, which the first segment for it holds. -/
def checkDynamic (s : Source) (segments : List Segment) : Except Error Unit := do
  if let some d := segments.find? (·.isDynamic) then
    s.demandDynamic (← s.dynamic segments d)

end Source
end Rv32.Elf

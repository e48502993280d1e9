/-
# `Rv32.Address.Map` — a finite map on disjoint ranges

The entries are kept in ascending order, so both looking up an address and
finding the place of a new range are searches by halving.  A new range can only
meet the entry before its place or the entry after it; if it meets either, it is
refused and the map stays as it is.
-/
import Rv32.Address.Range

namespace Rv32.Address

/-- The least index from `lo` on, among `size` candidates, at which `below` ends.
`below` has to hold of an initial stretch of the candidates and of nothing after
it.  Each round halves the candidates, so `fuel = size` is enough. -/
def partitionPoint (below : Nat → Bool) : (fuel lo size : Nat) → Nat
  | 0, lo, _ => lo
  | fuel + 1, lo, size =>
    if size = 0 then lo
    else if below (lo + size / 2) then
      partitionPoint below fuel (lo + size / 2 + 1) (size - size / 2 - 1)
    else partitionPoint below fuel lo (size / 2)

/-- A candidate that is equal to what is sought, among `size` candidates from `lo` on.
First there have to be those that are less, and last those that are greater. -/
def search (compare : Nat → Ordering) : (fuel lo size : Nat) → Option Nat
  | 0, _, _ => none
  | fuel + 1, lo, size =>
    if size = 0 then none
    else
      match compare (lo + size / 2) with
      | .lt => search compare fuel (lo + size / 2 + 1) (size - size / 2 - 1)
      | .eq => some (lo + size / 2)
      | .gt => search compare fuel lo (size / 2)

/-- A map from disjoint address ranges to values. -/
structure Map (α : Type) where
  /-- The entries, in ascending order. -/
  entries : Array (Range × α)

/-- A range that meets one already mapped. -/
structure Overlap where
  range : Range
deriving DecidableEq

def Overlap.message (e : Overlap) : String :=
  "address range " ++ e.range.render ++ " overlaps with previously added address range"

namespace Map
variable {α : Type}

def empty : Map α := ⟨#[]⟩

def size (m : Map α) : Nat := m.entries.size

/-- Whether entry `i` exists and satisfies a condition on its range. -/
def rangeAt (m : Map α) (i : Nat) (p : Range → Bool) : Bool :=
  match m.entries[i]? with
  | some (range, _) => p range
  | none => false

/-- The number of entries that start below an address. -/
def place (m : Map α) (start : Word) : Nat :=
  partitionPoint (fun i => m.rangeAt i fun r => decide (r.first.toNat < start.toNat))
    m.size 0 m.size

/-- Maps a range to a value, unless it meets a range that is mapped already. -/
def insert (m : Map α) (range : Range) (value : α) : Except Overlap Unit × Map α :=
  let i := m.place range.first
  if (0 < i ∧ m.rangeAt (i - 1) (·.overlaps range)) ∨ m.rangeAt i (·.overlaps range) then
    (.error ⟨range⟩, m)
  else (.ok (), ⟨m.entries.insertIdxIfInBounds i (range, value)⟩)

/-- Where entry `i` is, as seen from an address. -/
def compareAt (m : Map α) (address : Word) (i : Nat) : Ordering :=
  match m.entries[i]? with
  | some (range, _) => range.compare address
  | none => .gt

/-- The index of the entry that covers an address. -/
def find? (m : Map α) (address : Word) : Option Nat :=
  search (m.compareAt address) m.size 0 m.size

def get? (m : Map α) (address : Word) : Option (Range × α) :=
  (m.find? address).bind fun i => m.entries[i]?

/-- The map with the value of the entry that covers an address replaced. -/
def update (m : Map α) (address : Word) (value : α) : Map α :=
  match m.find? address with
  | some i => ⟨m.entries.modify i fun (range, _) => (range, value)⟩
  | none => m

def toList (m : Map α) : List (Range × α) := m.entries.toList

end Map
end Rv32.Address

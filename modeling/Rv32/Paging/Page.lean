/-
# `Rv32.Paging.Page` — pages and page table entries

An address is a page number of twenty bits and an offset of twelve.  The page
number in turn holds two indices of ten bits, one into each level of a page
table.  A table is one page of words, the entries; an entry either points to a
table or, if it grants any kind of access, maps a page.

An entry has room for physical addresses of 34 bits.  The machine has only 32 of
them, and the two highest are dropped.
-/
import Rv32.Access

namespace Rv32

abbrev Page := BitVec 20

namespace Paging

def pageSize : Nat := 4096

def pageOf (address : Word) : Page := address.extractLsb' 12 20

def offsetOf (address : Word) : BitVec 12 := address.extractLsb' 0 12

def join (page : Page) (offset : BitVec 12) : Word := page ++ offset

def firstIndex (address : Word) : BitVec 10 := address.extractLsb' 22 10

def secondIndex (address : Word) : BitVec 10 := address.extractLsb' 12 10

def entryAddress (table : BitVec 22) (index : BitVec 10) : Word :=
  table.setWidth 20 ++ index ++ 0#2

end Paging

structure PageEntry where
  bits : Word
deriving DecidableEq, Repr

namespace PageEntry

/-- Whether the entry means anything. -/
def valid (e : PageEntry) : Bool := e.bits.getLsbD 0

def readable (e : PageEntry) : Bool := e.bits.getLsbD 1

def writable (e : PageEntry) : Bool := e.bits.getLsbD 2

/-- Whether instructions can be fetched from the page. -/
def executable (e : PageEntry) : Bool := e.bits.getLsbD 3

/-- Whether the page belongs to user mode. -/
def user (e : PageEntry) : Bool := e.bits.getLsbD 4

/-- Whether the entry maps a page; otherwise it points to a table. -/
def isLeaf (e : PageEntry) : Bool := e.readable || e.writable || e.executable

def target (e : PageEntry) : BitVec 22 := e.bits.extractLsb' 10 22

def targetLow (e : PageEntry) : BitVec 10 := e.bits.extractLsb' 10 10

/-- The upper part of that page, as far as there are addresses. -/
def targetHigh (e : PageEntry) : BitVec 10 := e.bits.extractLsb' 20 10

/-- Whether the entry grants an access.  Where executable pages are made readable,
they grant reads too. -/
def grants (e : PageEntry) (access : Access) (executableReadable : Bool) : Bool :=
  match access with
  | .read => e.readable || (executableReadable && e.executable)
  | .write => e.writable
  | .execute => e.executable

end PageEntry
end Rv32

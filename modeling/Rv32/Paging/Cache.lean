/-
# `Rv32.Paging.Cache` — the last page of each kind

For each hart, mode and kind of access the last translated page is remembered.
What is remembered may be out of date: it stays until another page of the kind is
translated or the hart's translations are dropped.
-/
import Rv32.Paging.Walk

namespace Rv32

/-- A remembered page. -/
structure CacheEntry where
  hart : Nat
  privilege : Privilege
  access : Access
  page : Page
  frame : Page
deriving DecidableEq, Repr

/-- Whether an entry is of the kind of an access. -/
def CacheEntry.isFor (e : CacheEntry) (c : AccessContext) (access : Access) : Bool :=
  e.hart == c.hart && e.privilege == c.privilege && e.access == access

/-- The remembered pages, at most one of each kind. -/
structure TranslationCache where
  entries : List CacheEntry
deriving DecidableEq, Repr

namespace TranslationCache

def empty : TranslationCache := ⟨[]⟩

/-- The physical address remembered for an address. -/
def find? (t : TranslationCache) (c : AccessContext) (address : Word) (access : Access) :
    Option Word :=
  match t.entries.find? (·.isFor c access) with
  | some e =>
    if e.page = Paging.pageOf address then some (Paging.join e.frame (Paging.offsetOf address))
    else none
  | none => none

/-- Remembers the page of an address, in place of the last one of its kind. -/
def insert (t : TranslationCache) (c : AccessContext) (address physical : Word)
    (access : Access) : TranslationCache :=
  ⟨⟨c.hart, c.privilege, access, Paging.pageOf address, Paging.pageOf physical⟩ ::
    t.entries.filter fun e => !e.isFor c access⟩

def invalidate (t : TranslationCache) (hart : Nat) : TranslationCache :=
  ⟨t.entries.filter fun e => e.hart != hart⟩

end TranslationCache
end Rv32

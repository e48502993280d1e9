/-
# `Rv32.Attempt` — work on a state that may fail

Accesses can fail halfway: a page table may be read, with all that reading a
device brings about, before it turns out that the page is not there.  What was
done stays done.  So a failure comes with the state it leaves behind.
-/
namespace Rv32

/-- Work that changes a state and either gives a result or fails. -/
abbrev Attempt (ε σ α : Type) : Type := ExceptT ε (StateM σ) α

end Rv32

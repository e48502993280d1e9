/-
# `Rv32.Command.Summary` — the last line of a run

How many instructions were executed, how long that took, and how many that makes
in a second.  A run that took no measurable time is counted as one nanosecond.
-/
import Rv32.Text.Fixed

namespace Rv32.Summary

def render (executed nanoseconds : Nat) : String :=
  let time := max nanoseconds 1
  toString executed ++ " instructions in " ++ Fixed.render 3 time 1000000000 ++ " s: " ++
    Fixed.render 0 (executed * 1000000000) time ++ " IPS (" ++
    Fixed.render 2 (executed * 1000) time ++ " MIPS)"

def report (executed nanoseconds : Nat) : String :=
  "INFO Executed " ++ toString executed ++ " instructions in " ++ Fixed.duration nanoseconds

/-- The least detail at which a run is reported. -/
def reportDetail : Nat := 2

end Rv32.Summary

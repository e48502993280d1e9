/-
# `Rv32.Proofs.Device.Basic` — what an access leaves of a device

Two relations between devices are preserved by accesses.

* `Device.SameOn P` relates two devices that differ at most in bytes of main memory
  outside the pages `P`.  The same access leaves them as alike as before.
* `Device.Keeps P` relates a device to what it has become: it is still of its kind and
  in its place, and main memory holds the same bytes on the pages `P`.  Accesses to
  other pages keep them.

Devices whose registers change by being read, or from outside their place, are not
`steady`.
-/
import Rv32.Device.Basic
import Rv32.Proofs.Device.Ram

namespace Rv32.Device

/-! ## Two relations -/

/-- Devices in the same state, but for bytes of main memory outside some pages. -/
inductive SameOn (P : Page → Prop) : Device → Device → Prop
  | refl (d : Device) : SameOn P d d
  | ram {r r' : Ram} : r'.start = r.start → r'.length = r.length →
      (∀ a, P (Paging.pageOf a) → r'.byteAt? a = r.byteAt? a) → SameOn P (.ram r) (.ram r')

/-- A device and what it may become: main memory keeps its bytes on some pages. -/
inductive Keeps (P : Page → Prop) : Device → Device → Prop
  | ram {r r' : Ram} : r'.start = r.start → r'.length = r.length →
      (∀ a, P (Paging.pageOf a) → r'.byteAt? a = r.byteAt? a) → Keeps P (.ram r) (.ram r')
  | rom (r : Rom) : Keeps P (.rom r) (.rom r)
  | printer {p p' : Printer} : p'.start = p.start → Keeps P (.printer p) (.printer p')
  | fifo {f f' : Fifo} : f'.start = f.start → Keeps P (.fifo f) (.fifo f')
  | ramSize (s : RamSize) : Keeps P (.ramSize s) (.ramSize s)
  | clint (start : Word) : Keeps P (.clint start) (.clint start)

/-- Whether a device changes only where it is written, and not by being read. -/
def steady : Device → Bool
  | .ram _ | .rom _ | .printer _ | .ramSize _ => true
  | .fifo _ | .clint _ => false

variable {P : Page → Prop} {d d' : Device}

theorem SameOn.steady_eq (h : SameOn P d d') : d'.steady = d.steady := by cases h <;> rfl

theorem Keeps.steady_eq (h : Keeps P d d') : d'.steady = d.steady := by cases h <;> rfl

theorem Keeps.refl (P : Page → Prop) (d : Device) : Keeps P d d := by
  cases d with
  | ram r => exact .ram rfl rfl fun _ _ => rfl
  | rom r => exact .rom r
  | printer p => exact .printer rfl
  | fifo f => exact .fifo rfl
  | ramSize s => exact .ramSize s
  | clint start => exact .clint start

theorem Keeps.trans {d'' : Device} (h : Keeps P d d') (h' : Keeps P d' d'') :
    Keeps P d d'' := by
  cases h with
  | ram start length bytes =>
      cases h' with
      | ram start' length' bytes' =>
          exact .ram (start'.trans start) (length'.trans length) fun a ha =>
            (bytes' a ha).trans (bytes a ha)
  | rom r => exact h'
  | printer start =>
      cases h' with
      | printer start' => exact .printer (start'.trans start)
  | fifo start =>
      cases h' with
      | fifo start' => exact .fifo (start'.trans start)
  | ramSize s => exact h'
  | clint start => exact h'

theorem Keeps.mono {Q : Page → Prop} (h : Keeps P d d') (sub : ∀ p, Q p → P p) :
    Keeps Q d d' := by
  cases h with
  | ram start length bytes => exact .ram start length fun a ha => bytes a (sub _ ha)
  | rom r => exact .rom r
  | printer start => exact .printer start
  | fifo start => exact .fifo start
  | ramSize s => exact .ramSize s
  | clint start => exact .clint start

/-- Main memory of one page differs nowhere else. -/
theorem SameOn.ofPage {start : Word} (place : Paging.offsetOf start = 0) (cells cells' : Cells)
    (handle : Nat) :
    SameOn (fun page => ¬page = Paging.pageOf start) (.ram ⟨start, 0x1000, cells, handle⟩)
      (.ram ⟨start, 0x1000, cells', handle⟩) := by
  have hnone (cells : Cells) {address : Word} (h : Paging.pageOf address ≠ Paging.pageOf start) :
      (Ram.mk start 0x1000 cells handle).byteAt? address = none :=
    Ram.byteAt?_of_page_ne (r := ⟨start, 0x1000, cells, handle⟩) place rfl h
  exact .ram rfl rfl fun address hpage => (hnone cells' hpage).trans (hnone cells hpage).symm

/-! ## Reading and writing a device -/

theorem SameOn.afterRead (h : SameOn P d d') (address : Word) :
    SameOn P (d.afterRead address) (d'.afterRead address) := by
  cases h with
  | refl => exact .refl _
  | ram start length bytes => exact .ram start length bytes

theorem SameOn.afterWrite (h : SameOn P d d') (w : Width) (address : Word)
    (value : BitVec w.bits) :
    SameOn P (d.afterWrite w address value) (d'.afterWrite w address value) := by
  cases h with
  | refl => exact .refl _
  | @ram r r' start length bytes =>
      refine .ram ?_ ?_ fun a ha => ?_
      · rw [Ram.write_start, Ram.write_start, start]
      · rw [Ram.write_length, Ram.write_length, length]
      · exact Ram.byteAt?_write_congr start length w address value (bytes a ha)

theorem keeps_afterRead (P : Page → Prop) (d : Device) (address : Word) :
    Keeps P d (d.afterRead address) := by
  cases d with
  | fifo f =>
      refine .fifo ?_
      unfold Fifo.afterRead
      split <;> rfl
  | ram r => exact .refl P _
  | rom r => exact .refl P _
  | printer p => exact .refl P _
  | ramSize s => exact .refl P _
  | clint start => exact .refl P _

/-- A write inside a page keeps all other pages. -/
theorem keeps_afterWrite {w : Width} {address : Word} (fits : InPage w address)
    (out : ¬P (Paging.pageOf address)) (d : Device) (value : BitVec w.bits) :
    Keeps P d (d.afterWrite w address value) := by
  cases d with
  | ram r =>
      refine .ram (r.write_start w address value) (r.write_length w address value) fun a ha => ?_
      exact Ram.byteAt?_write_out fits value fun heq => out (heq ▸ ha)
  | printer p =>
      refine .printer ?_
      unfold Printer.write
      split <;> rfl
  | fifo f =>
      refine .fifo ?_
      unfold Fifo.write Fifo.writeByte
      split
      · rfl
      · split <;> rfl
  | rom r => exact .refl P _
  | ramSize s => exact .refl P _
  | clint start => exact .refl P _

/-! ## Steady devices -/

theorem afterRead_of_steady (d : Device) (h : d.steady = true) (address : Word) :
    d.afterRead address = d := by
  cases d with
  | fifo f => cases h
  | clint start => cases h
  | ram | rom | printer | ramSize => rfl

theorem readEvents_of_steady (d : Device) (h : d.steady = true) (w : Width) (address : Word) :
    d.readEvents w address = [] := by
  cases d with
  | clint start => cases h
  | fifo f => cases h
  | ram | rom | printer | ramSize => rfl

end Rv32.Device

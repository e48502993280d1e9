/-
# `Rv32.Proofs.Device.Fifo` — what goes into a channel comes out of it

A channel carries bytes in both directions, and whoever keeps a log of what was done with it
can tell from the log alone what it holds.  To the guest it hands out the bytes that the host
has sent last, each once and in order, and zeros after them.  To the host it hands out all
that the guest has written since the last message, when the guest's last mark since then says
that the message is ready.  Looking at a channel changes nothing.

What matters in a log is what stands after the last sending, for one direction, and after the
last message taken, for the other.  `HoldsSent` and `HoldsWritten` tie that to what the channel
holds: each use keeps them as it adds to the log, and so a run does.
-/
import Mathlib.Data.List.DropRight
import Rv32.Device.Fifo

namespace Rv32.Fifo

/-! ## Logs -/

/-- Something that the guest or the host does with a channel.  The guest says where, counted
from the first register. -/
inductive Use where
  | read (w : Width) (offset : Word)
  | write (w : Width) (offset : Word) (value : BitVec w.bits)
  | send (bytes : List Byte)
  | take

/-- What was done, with what came of it. -/
inductive Entry where
  | read (w : Width) (offset : Word) (value : BitVec w.bits)
  | wrote (w : Width) (offset : Word) (value : BitVec w.bits)
  | sent (bytes : List Byte)
  | took (message : Option (List Byte))

def use (f : Fifo) : Use → Entry × Fifo
  | .read w offset =>
    (.read w offset (f.read w (f.start + offset)), f.afterRead (f.start + offset))
  | .write w offset value => (.wrote w offset value, f.write w (f.start + offset) value)
  | .send bytes => (.sent bytes, f.send bytes)
  | .take => (.took (f.message?.map (·.toList)), f.afterTake)

/-- Uses a channel, and keeps a log with the earliest entry first. -/
def run (f : Fifo) : List Use → List Entry × Fifo
  | [] => ([], f)
  | u :: rest =>
    let (entry, f) := f.use u
    let (log, f) := f.run rest
    (entry :: log, f)

namespace Entry

/-- What the guest got from the first register. -/
def input? : Entry → Option Nat
  | .read _ offset value => if offset = 0 then some value.toNat else none
  | .wrote .. | .sent _ | .took _ => none

/-- The byte the guest wrote to the first register. -/
def output? : Entry → Option Byte
  | .wrote _ offset value => if offset = 0 then some (value.setWidth 8) else none
  | .read .. | .sent _ | .took _ => none

/-- Whether the guest said that its message is ready, or that it is not. -/
def mark? : Entry → Option Bool
  | .wrote _ offset value => if offset = 2 then some (value.setWidth 8 != 0#8) else none
  | .read .. | .sent _ | .took _ => none

/-- The bytes the host sent. -/
def sent? : Entry → Option (List Byte)
  | .sent bytes => some bytes
  | .read .. | .wrote .. | .took _ => none

/-- The message the host was given. -/
def message? : Entry → Option (List Byte)
  | .took message => message
  | .read .. | .wrote .. | .sent _ => none

end Entry

def inputs (log : List Entry) : List Nat := log.filterMap Entry.input?

def outputs (log : List Entry) : List Byte := log.filterMap Entry.output?

def messages (log : List Entry) : List (List Byte) := log.filterMap Entry.message?

/-- What the guest said last about its message. -/
def marked (log : List Entry) : Bool := (log.filterMap Entry.mark?).getLastD false

/-- The bytes the host sent last. -/
def lastSent (log : List Entry) : List Byte := (log.filterMap Entry.sent?).getLastD []

/-- What has been done since the host last sent something, or since the start. -/
def sinceSent (log : List Entry) : List Entry := log.rtakeWhile fun entry => entry.sent?.isNone

/-- What has been done since the host was last given a message, or since the start. -/
def sinceTaken (log : List Entry) : List Entry :=
  log.rtakeWhile fun entry => entry.message?.isNone

/-- Bytes handed out one by one, and zeros after them. -/
def handOut (bytes : List Byte) (n : Nat) : List Nat :=
  (List.range n).map fun i => (bytes.getD i 0).toNat

/-- A channel is faithful to what was done with it if it hands out, in both directions, what the
log tells. -/
structure Faithful (log : List Entry) (f : Fifo) : Prop where
  /-- Each read has given the guest the next of the bytes sent last, and those after the last
  byte a zero. -/
  received :
    inputs (sinceSent log) = handOut (lastSent log) (inputs (sinceSent log)).length
  /-- The guest can see whether a byte is left, and seeing it takes nothing. -/
  available (w : Width) : f.use (.read w 1) =
    (.read w 1 (if (inputs (sinceSent log)).length < (lastSent log).length then 1 else 0), f)
  /-- The guest can see its own mark, and seeing it takes nothing. -/
  mark (w : Width) : f.use (.read w 2) =
    (.read w 2 (if marked (sinceTaken log) then 1 else 0), f)
  /-- The host is given what the guest has written since the last message, if that is marked as
  ready.  If it is not, nothing changes. -/
  message : f.use .take =
    if marked (sinceTaken log) then
      (.took (some (outputs (sinceTaken log))), { f with outgoing := #[], ready := false })
    else (.took none, f)
  /-- What the host was given and what it is yet to be given is all that the guest has
  written. -/
  conserved : (messages log).flatten ++ f.outgoing.toList = outputs log

/-! ## One entry more -/

theorem filterMap_concat {α β : Type} (g : α → Option β) (l : List α) (a : α) :
    (l ++ [a]).filterMap g = l.filterMap g ++ (g a).toList := by
  rw [List.filterMap_append]
  cases h : g a with
  | none => rw [List.filterMap_cons_none h]; rfl
  | some b => rw [List.filterMap_cons_some h]; rfl

theorem getLastD_filterMap_concat {α β : Type} (g : α → Option β) (l : List α) (a : α)
    (b : β) : ((l ++ [a]).filterMap g).getLastD b = (g a).getD ((l.filterMap g).getLastD b) := by
  rw [filterMap_concat]
  cases g a with
  | none => rw [Option.toList_none, List.append_nil, Option.getD_none]
  | some c => rw [Option.toList_some, List.getLastD_concat, Option.getD_some]

theorem sinceSent_concat (log : List Entry) (entry : Entry) :
    sinceSent (log ++ [entry]) =
      if entry.sent?.isNone then sinceSent log ++ [entry] else [] :=
  List.rtakeWhile_concat _ _ _

theorem sinceTaken_concat (log : List Entry) (entry : Entry) :
    sinceTaken (log ++ [entry]) =
      if entry.message?.isNone then sinceTaken log ++ [entry] else [] :=
  List.rtakeWhile_concat _ _ _

/-! ## One use -/

variable (f : Fifo)

theorem offset_eq (offset : Word) : f.start + offset - f.start = offset := by
  rw [BitVec.add_comm, BitVec.add_sub_cancel]

/-- What the guest reads is a byte, whatever the width. -/
theorem toNat_read (w : Width) (address : Word) :
    (f.read w address).toNat = (f.byte address).toNat := by
  have hwide : 8 ≤ w.bits := by cases w <;> decide
  rw [read, BitVec.toNat_setWidth_of_le hwide]

theorem byte_eq (offset : Word) :
    f.byte (f.start + offset) =
      if offset = 0 then f.incoming.headD 0
      else if offset = 1 then (BitVec.ofBool (!f.incoming.isEmpty)).setWidth 8
      else if offset = 2 then (BitVec.ofBool f.ready).setWidth 8
      else 0 := by
  rw [byte, offset_eq]

theorem afterRead_eq (offset : Word) :
    f.afterRead (f.start + offset) =
      if offset = 0 then { f with incoming := f.incoming.tail } else f := by
  rw [afterRead, offset_eq]

theorem write_eq (w : Width) (offset : Word) (value : BitVec w.bits) :
    f.write w (f.start + offset) value =
      if offset = 0 then { f with outgoing := f.outgoing.push (value.setWidth 8) }
      else if offset = 2 then { f with ready := value.setWidth 8 != 0 }
      else f := by
  rw [write, writeByte, offset_eq]

/-- Looking at a register other than the first changes nothing. -/
theorem use_read_of_ne (w : Width) {offset : Word} (ne : offset ≠ 0) :
    (f.use (.read w offset)).2 = f := by
  show f.afterRead (f.start + offset) = f
  rw [afterRead_eq, if_neg ne]

/-- The host is given a message if the guest has marked it as ready, and then the channel holds
neither the message nor the mark any more; otherwise nothing happens. -/
theorem use_take :
    f.use .take =
      if f.ready then (.took (some f.outgoing.toList), { f with outgoing := #[], ready := false })
      else (.took none, f) := by
  rw [use, message?, afterTake]
  split <;> rfl

/-- Unless the host sends something, a use hands out nothing and leaves the bytes where they
are, or hands out the first of them, which is then gone. -/
theorem use_unsent {u : Use} (unsent : (f.use u).1.sent? = none) :
    (f.use u).1.input? = none ∧ (f.use u).2.incoming = f.incoming ∨
      (f.use u).1.input? = some (f.incoming.headD 0).toNat ∧
        (f.use u).2.incoming = f.incoming.tail := by
  cases u with
  | read w offset =>
      by_cases first : offset = 0
      · right
        constructor
        · show (if offset = 0 then some (f.read w (f.start + offset)).toNat else none) = _
          rw [if_pos first, toNat_read, byte_eq, if_pos first]
        · show (f.afterRead (f.start + offset)).incoming = _
          rw [afterRead_eq, if_pos first]
      · left
        exact ⟨if_neg first, by rw [f.use_read_of_ne w first]⟩
  | write w offset value =>
      left
      refine ⟨rfl, ?_⟩
      show (f.write w (f.start + offset) value).incoming = f.incoming
      rw [write_eq]
      split
      · rfl
      · split <;> rfl
  | send bytes => exact absurd unsent (Option.some_ne_none bytes)
  | take =>
      left
      rw [use_take]
      split <;> exact ⟨rfl, rfl⟩

/-- What the host is given and what the channel then holds is what it held before and what the
guest has written. -/
theorem use_conserved (u : Use) :
    (f.use u).1.message?.getD [] ++ (f.use u).2.outgoing.toList =
      f.outgoing.toList ++ (f.use u).1.output?.toList := by
  cases u with
  | read w offset =>
      show (f.afterRead (f.start + offset)).outgoing.toList = f.outgoing.toList ++ []
      rw [afterRead_eq, List.append_nil]
      split <;> rfl
  | write w offset value =>
      show (f.write w (f.start + offset) value).outgoing.toList =
        f.outgoing.toList ++ (if offset = 0 then some (value.setWidth 8) else none).toList
      rw [write_eq]
      split
      · exact Array.toList_push
      · rw [Option.toList_none, List.append_nil]
        split <;> rfl
  | send bytes => exact (List.append_nil _).symm
  | take =>
      rw [use_take]
      split
      · rfl
      · exact (List.append_nil _).symm

/-- When the host is given a message, the next one is empty and not ready. -/
theorem use_taken {u : Use} {message : List Byte}
    (taken : (f.use u).1.message? = some message) :
    (f.use u).2.outgoing = #[] ∧ (f.use u).2.ready = false := by
  cases u with
  | take =>
      rw [use_take] at taken ⊢
      split
      · exact ⟨rfl, rfl⟩
      · next notReady =>
          rw [if_neg notReady] at taken
          exact absurd taken.symm (Option.some_ne_none message)
  | read _ _ | write _ _ _ | send _ => exact absurd taken.symm (Option.some_ne_none message)

/-- Otherwise it is ready if the guest has just said so, or was ready before. -/
theorem use_untaken {u : Use} (untaken : (f.use u).1.message? = none) :
    (f.use u).2.ready = (f.use u).1.mark?.getD f.ready := by
  cases u with
  | read w offset =>
      show (f.afterRead (f.start + offset)).ready = f.ready
      rw [afterRead_eq]
      split <;> rfl
  | write w offset value =>
      show (f.write w (f.start + offset) value).ready =
        (if offset = 2 then some (value.setWidth 8 != 0#8) else none).getD f.ready
      rw [write_eq]
      by_cases first : offset = 0
      · subst first
        rfl
      · rw [if_neg first]
        split <;> rfl
  | send bytes => rfl
  | take =>
      rw [use_take] at untaken ⊢
      split
      · next ready =>
          rw [if_pos ready] at untaken
          exact absurd untaken (Option.some_ne_none _)
      · rfl

/-! ## To the guest -/

/-- Of the bytes sent last, the guest has read some and the channel holds the others. -/
structure HoldsSent (log : List Entry) (f : Fifo) : Prop where
  received : inputs (sinceSent log) = handOut (lastSent log) (inputs (sinceSent log)).length
  incoming : f.incoming = (lastSent log).drop (inputs (sinceSent log)).length

theorem handOut_succ (bytes : List Byte) (n : Nat) :
    handOut bytes (n + 1) = handOut bytes n ++ [((bytes.drop n).headD 0).toNat] := by
  rw [handOut, handOut, List.range_succ, List.map_append, List.map_singleton,
    List.headD_eq_head?_getD, List.head?_drop, List.getD_eq_getElem?_getD]

theorem HoldsSent.use {log : List Entry} {f : Fifo} (holds : HoldsSent log f) (u : Use) :
    HoldsSent (log ++ [(f.use u).1]) (f.use u).2 := by
  have hlast : lastSent (log ++ [(f.use u).1]) = (f.use u).1.sent?.getD (lastSent log) :=
    getLastD_filterMap_concat _ _ _ _
  cases hsent : (f.use u).1.sent? with
  | some bytes =>
      have hsince : sinceSent (log ++ [(f.use u).1]) = [] := by
        rw [sinceSent_concat, hsent]
        rfl
      rw [hsent] at hlast
      refine ⟨by rw [hsince]; rfl, ?_⟩
      rw [hsince, hlast]
      cases u with
      | send => exact Option.some.inj hsent
      | read _ _ | write _ _ _ | take => exact absurd hsent.symm (Option.some_ne_none bytes)
  | none =>
      have hinputs : inputs (sinceSent (log ++ [(f.use u).1])) =
          inputs (sinceSent log) ++ (f.use u).1.input?.toList := by
        rw [sinceSent_concat, hsent]
        exact filterMap_concat _ _ _
      rw [hsent] at hlast
      rcases f.use_unsent hsent with ⟨hinput, hincoming⟩ | ⟨hinput, hincoming⟩
      · rw [hinput, Option.toList_none, List.append_nil] at hinputs
        constructor
        · rw [hinputs, hlast]
          exact holds.received
        · rw [hinputs, hlast, hincoming]
          exact holds.incoming
      · rw [hinput, Option.toList_some] at hinputs
        rw [Option.getD_none] at hlast
        constructor
        · rw [hinputs, hlast, List.length_append, List.length_singleton, handOut_succ,
            ← holds.received, ← holds.incoming]
        · rw [hinputs, hlast, List.length_append, List.length_singleton, hincoming,
            holds.incoming, List.tail_drop]

/-- The guest sees that a byte is left as long as there is one that it has not read. -/
theorem HoldsSent.available {log : List Entry} {f : Fifo} (holds : HoldsSent log f)
    (w : Width) :
    f.use (.read w 1) =
      (.read w 1 (if (inputs (sinceSent log)).length < (lastSent log).length then 1 else 0),
        f) := by
  have hleft : (!f.incoming.isEmpty) =
      decide ((inputs (sinceSent log)).length < (lastSent log).length) := by
    rw [holds.incoming, Bool.eq_iff_iff, Bool.not_eq_true', List.isEmpty_eq_false_iff,
      decide_eq_true_iff, ne_eq, List.drop_eq_nil_iff, not_le]
  have hvalue : f.read w (f.start + 1) =
      if (inputs (sinceSent log)).length < (lastSent log).length then 1 else 0 := by
    rw [read, byte_eq, if_neg (by decide), if_pos rfl, hleft]
    split
    · next left => rw [decide_eq_true left]; cases w <;> rfl
    · next left => rw [decide_eq_false left]; cases w <;> rfl
  show (Entry.read w 1 (f.read w (f.start + 1)), (f.use (.read w 1)).2) = _
  rw [hvalue, f.use_read_of_ne w (by decide)]

/-! ## To the host -/

/-- The channel holds what the guest has written since the last message, and whether that is
ready.  No byte is lost, and none is there twice. -/
structure HoldsWritten (log : List Entry) (f : Fifo) : Prop where
  outgoing : f.outgoing.toList = outputs (sinceTaken log)
  ready : f.ready = marked (sinceTaken log)
  conserved : (messages log).flatten ++ f.outgoing.toList = outputs log

theorem HoldsWritten.use {log : List Entry} {f : Fifo} (holds : HoldsWritten log f) (u : Use) :
    HoldsWritten (log ++ [(f.use u).1]) (f.use u).2 := by
  have hconserved : (messages (log ++ [(f.use u).1])).flatten ++ (f.use u).2.outgoing.toList =
      outputs (log ++ [(f.use u).1]) := by
    have hgiven : (f.use u).1.message?.toList.flatten = (f.use u).1.message?.getD [] := by
      cases (f.use u).1.message? with
      | none => rfl
      | some message => exact List.append_nil message
    rw [messages, filterMap_concat, List.flatten_append, hgiven, List.append_assoc,
      use_conserved, ← List.append_assoc, ← messages, holds.conserved, outputs, outputs,
      filterMap_concat]
  cases hmessage : (f.use u).1.message? with
  | some message =>
      obtain ⟨houtgoing, hready⟩ := f.use_taken hmessage
      have hsince : sinceTaken (log ++ [(f.use u).1]) = [] := by
        rw [sinceTaken_concat, hmessage]
        rfl
      exact ⟨by rw [hsince, houtgoing]; rfl, by rw [hsince, hready]; rfl, hconserved⟩
  | none =>
      have hsince : sinceTaken (log ++ [(f.use u).1]) = sinceTaken log ++ [(f.use u).1] := by
        rw [sinceTaken_concat, hmessage]
        rfl
      have hheld := f.use_conserved u
      rw [hmessage, Option.getD_none, List.nil_append] at hheld
      refine ⟨?_, ?_, hconserved⟩
      · rw [hsince, hheld, holds.outgoing]
        exact (filterMap_concat _ _ _).symm
      · rw [hsince, f.use_untaken hmessage, holds.ready]
        exact (getLastD_filterMap_concat _ _ _ _).symm

theorem HoldsWritten.mark {log : List Entry} {f : Fifo} (holds : HoldsWritten log f)
    (w : Width) :
    f.use (.read w 2) = (.read w 2 (if marked (sinceTaken log) then 1 else 0), f) := by
  have hvalue : f.read w (f.start + 2) = if marked (sinceTaken log) then 1 else 0 := by
    rw [read, byte_eq, if_neg (by decide), if_neg (by decide), if_pos rfl, holds.ready]
    cases marked (sinceTaken log) <;> cases w <;> rfl
  show (Entry.read w 2 (f.read w (f.start + 2)), (f.use (.read w 2)).2) = _
  rw [hvalue, f.use_read_of_ne w (by decide)]

/-! ## Runs -/

/-- What each use keeps as it adds to the log, a run keeps. -/
theorem run_keeps {P : List Entry → Fifo → Prop}
    (use_keeps : ∀ log f, P log f → ∀ u, P (log ++ [(f.use u).1]) (f.use u).2)
    {log : List Entry} {f : Fifo} (holds : P log f) (us : List Use) :
    P (log ++ (f.run us).1) (f.run us).2 := by
  induction us generalizing log f with
  | nil => rwa [run, List.append_nil]
  | cons u us ih =>
      have hrest := ih (use_keeps log f holds u)
      rwa [List.append_assoc] at hrest

/-- Whatever the guest and the host do with a channel, and in whatever order, it is faithful to
all of it. -/
theorem run_faithful (start : Word) (us : List Use) :
    Faithful ((init start).run us).1 ((init start).run us).2 := by
  have hsentFirst : HoldsSent [] (init start) := ⟨rfl, rfl⟩
  have hwrittenFirst : HoldsWritten [] (init start) := ⟨rfl, rfl, rfl⟩
  have hsent := run_keeps (fun _ _ => HoldsSent.use) hsentFirst us
  have hwritten := run_keeps (fun _ _ => HoldsWritten.use) hwrittenFirst us
  rw [List.nil_append] at hsent hwritten
  exact {
    received := hsent.received
    available := hsent.available
    mark := hwritten.mark
    message := by rw [use_take, hwritten.ready, hwritten.outgoing]
    conserved := hwritten.conserved }

end Rv32.Fifo

/-
# `Rv32.Proofs.Hart.Snapshot` — the state of a hart is all there is to it

A hart that is given the state of another one of the same configuration is that hart, so from
then on the two cannot be told apart.  This needs register 0 to hold zero, for what a state
says of register 0 is dropped; it does in every state that a hart gets into, whatever it
executes and whatever the host does to it (`Attained.zero`).

Restoring either does all of that, and changes nothing that other harts see, or it fails and
changes nothing at all.  And a state survives being written as bytes.
-/
import Rv32.Hart.Snapshot
import Rv32.Proofs.Device.Clint
import Rv32.Proofs.Hart.Translation
import Rv32.Proofs.Hart.ZeroRegister
import Rv32.Proofs.Memory.Bytes

namespace Rv32

/-! ## Restoring -/

namespace CsrFile

theorem ofWords?_words (f : CsrFile) : ofWords? f.words.toArray = some f :=
  dif_pos f.words.size_toArray

theorem exists_ofWords? {words : Array Word} (size : words.size = 4096) :
    ∃ f, ofWords? words = some f ∧ f.words.toArray = words :=
  ⟨_, dif_pos size, rfl⟩

theorem ofWords?_eq_none {words : Array Word} (size : words.size ≠ 4096) :
    ofWords? words = none :=
  dif_neg size

end CsrFile

/-- A register file with nothing in register 0 is what it contains. -/
theorem RegisterFile.ofContents_self {f : RegisterFile} (zero : f.x Reg.zero = 0) :
    ofContents f.pc f.ints f.floats = f := by
  have hints : f.ints.set 0 0 = f.ints := by
    have hget : f.ints[0] = 0 := zero
    rw [← hget, Vector.set_getElem_self]
  rw [ofContents, hints]

namespace Hart

variable {h h' : Hart} {clint clint' : Clint} {s : HartState}

/-- A state with all its control registers is taken over. -/
theorem restoreInPlace_ok {csrs : CsrFile} (words : CsrFile.ofWords? s.csrs = some csrs) :
    restoreInPlace s (h, clint) =
      (.ok (), (⟨h.config, RegisterFile.ofContents s.pc s.ints s.floats, csrs, s.privilege,
        s.cycles⟩, clint.setCompare h.config.id s.compare)) := by
  simp only [restoreInPlace, words]
  rfl

theorem restoreInPlace_error (words : CsrFile.ofWords? s.csrs = none) :
    restoreInPlace s (h, clint) = (.error (.csrCount s.csrs.size), (h, clint)) := by
  simp only [restoreInPlace, words]
  rfl

theorem zero_restored (restored : h.restore clint s = .ok (h', clint')) :
    h'.registers.x Reg.zero = 0 := by
  rw [restore] at restored
  rcases words : CsrFile.ofWords? s.csrs with _ | csrs
  · rw [restoreInPlace_error words] at restored
    cases restored
  · rw [restoreInPlace_ok words] at restored
    cases restored
    exact Vector.getElem_set_self (by decide)

/-- The states that a hart gets into by what it does itself and by what its host does to it:
resetting it, restoring a state, and writing registers of all kinds. -/
inductive Attained : Hart → Prop
  | start (config : HartConfig) : Attained (Hart.init config)
  | step {h : Hart} (mmu : Mmu) : Attained h → Attained (h.step mmu).2.1
  | interrupt {h : Hart} (mmu : Mmu) : Attained h → Attained (h.checkInterrupts mmu).2.1
  | reset {h : Hart} : Attained h → Attained h.reset
  | restored {h h' : Hart} {clint clint' : Clint} {s : HartState} : Attained h →
      h.restore clint s = .ok (h', clint') → Attained h'
  | wroteCsr {h : Hart} (c : Csr) (value : Word) : Attained h → Attained (h.writeCsr c value)
  | wroteX {h : Hart} (r : Reg) (value : Word) : Attained h →
      Attained { h with registers := h.registers.setX r value }
  | wroteF {h : Hart} (r : Reg) (value : Dword) : Attained h →
      Attained { h with registers := h.registers.setF r value }
  | wrotePc {h : Hart} (pc : Word) : Attained h →
      Attained { h with registers := { h.registers with pc } }

theorem Attained.zero (attained : Attained h) : h.registers.x Reg.zero = 0 := by
  induction attained with
  | start config => rfl
  | @step h mmu _ ih => exact (h.zero_step mmu).trans ih
  | @interrupt h mmu _ ih => exact (h.zero_checkInterrupts mmu).trans ih
  | reset _ _ => rfl
  | restored _ restored _ => exact zero_restored restored
  | @wroteCsr h c value _ ih =>
      rw [(writeCsr_frame h c value).2.1]
      exact ih
  | @wroteX h r value _ ih => exact (h.registers.zero_setX r value).trans ih
  | wroteF r value _ ih => exact ih
  | wrotePc pc _ ih => exact ih

/-- What is the same after a state was restored: all that is not in it. -/
structure GivenState (h h' : Hart) (clint clint' : Clint) (s : HartState) : Prop where
  state : h'.state clint' = { s with ints := s.ints.set 0 0 (by decide) }
  config : h'.config = h.config
  time : clint'.time = clint.time
  software : ∀ i, clint'.software i = clint.software i
  compare : ∀ i ≠ h.config.id, clint'.compare i = clint.compare i

theorem givenState_of_restoreInPlace (size : s.csrs.size = 4096)
    (timer : h.config.id < clint.harts.size) :
    ∃ h' clint', restoreInPlace s (h, clint) = (.ok (), (h', clint')) ∧
      GivenState h h' clint clint' s := by
  obtain ⟨csrs, words, hcsrs⟩ := CsrFile.exists_ofWords? size
  refine ⟨_, _, restoreInPlace_ok words, ?_⟩
  refine
    { state := ?_
      config := rfl
      time := rfl
      software := clint.software_setCompare _ _
      compare := fun i other => clint.compare_setCompare_ne _ _ other }
  rw [state, clint.compare_setCompare _ _ timer, hcsrs]
  rfl

/-- The state of a hart has all control registers. -/
theorem size_state (h : Hart) (clint : Clint) : (h.state clint).csrs.size = 4096 :=
  h.csrs.words.size_toArray

/-- A hart that takes over the state of another one is that hart, and has its timer. -/
theorem restoreInPlace_state {h₂ : Hart} (zero : h.registers.x Reg.zero = 0)
    (config : h₂.config = h.config) (compare : Dword) :
    restoreInPlace (h.state clint) (h₂, clint.setCompare h.config.id compare) =
      (.ok (), (h, clint)) := by
  have words : CsrFile.ofWords? (h.state clint).csrs = some h.csrs := h.csrs.ofWords?_words
  have hregisters : RegisterFile.ofContents (h.state clint).pc (h.state clint).ints
      (h.state clint).floats = h.registers := RegisterFile.ofContents_self zero
  have htimer : (clint.setCompare h.config.id compare).setCompare h.config.id
      (h.state clint).compare = clint := clint.setCompare_back h.config.id compare
  rw [restoreInPlace_ok words, hregisters, config, htimer]
  rfl

/-! ## What follows -/

/-- What happens to a hart in front of a memory. -/
inductive Happening where
  | step
  | interrupt
  /-- Others use the memory, or the host does, or time passes. -/
  | others (f : Mmu → Mmu)

/-- What is learned of it. -/
inductive Report where
  | stepped (result : StepResult)
  | interrupted (trap : Option Trap)
  | nothing
deriving DecidableEq

def undergo (h : Hart) (mmu : Mmu) : Happening → Report × Hart × Mmu
  | .step => let (result, h, mmu) := h.step mmu; (.stepped result, h, mmu)
  | .interrupt => let (trap, h, mmu) := h.checkInterrupts mmu; (.interrupted trap, h, mmu)
  | .others f => (.nothing, h, f mmu)

/-- One thing after the other, with what is learned of each. -/
def undergoAll (h : Hart) (mmu : Mmu) : List Happening → List Report × Hart × Mmu
  | [] => ([], h, mmu)
  | happening :: rest =>
    let (report, h, mmu) := h.undergo mmu happening
    let (reports, h, mmu) := h.undergoAll mmu rest
    (report :: reports, h, mmu)

end Hart

/-! ## Bytes -/

namespace HartState

theorem splitAt?_append (front rest : List Byte) :
    splitAt? front.length (front ++ rest) = some (front, rest) := by
  induction front with
  | nil => cases rest <;> rfl
  | cons b front ih =>
      show (splitAt? front.length (front ++ rest)).map _ = _
      rw [ih]
      rfl

variable {w : Width} (rest : List Byte)

/-- A value is read back from its bytes, and what follows them is left. -/
theorem take?_split (value : BitVec w.bits) :
    take? w (w.split value ++ rest) = some (value, rest) := by
  have hsplit := splitAt?_append (w.split value) rest
  rw [w.length_split value] at hsplit
  rw [take?, hsplit]
  have hvalue : (w.combine fun i => (w.split value).getD i 0) = value :=
    (w.combine_congr fun i hi => w.getD_split value hi).trans (w.combine_byteOf value)
  exact congrArg (fun v => some (v, rest)) hvalue

theorem takeAll?_split (values : List (BitVec w.bits)) :
    takeAll? w values.length (values.flatMap w.split ++ rest) = some (values, rest) := by
  induction values with
  | nil => rfl
  | cons value values ih =>
      rw [List.flatMap_cons, List.append_assoc, List.length_cons, takeAll?, take?_split]
      show ((takeAll? w values.length _).bind _) = _
      rw [ih]
      rfl

theorem takeFile?_split (file : Vector (BitVec w.bits) 32) :
    takeFile? w (file.toList.flatMap w.split ++ rest) = some (file, rest) := by
  have hall := takeAll?_split rest file.toList
  rw [Vector.length_toList] at hall
  rw [takeFile?, hall]
  show (if h : file.toList.toArray.size = 32 then _ else _) = _
  rw [dif_pos (by simp)]
  rfl

theorem privilegeOf?_index (p : Privilege) :
    privilegeOf? (BitVec.ofNat 32 (privilegeIndex p)).toNat = some p := by cases p <;> rfl

theorem length_flatMap_split (values : List (BitVec w.bits)) :
    (values.flatMap w.split).length = w.bytes * values.length := by
  induction values with
  | nil => rfl
  | cons value values ih =>
      rw [List.flatMap_cons, List.length_append, w.length_split, ih, List.length_cons,
        Nat.mul_succ, Nat.add_comm]

/-- A state is read back from its bytes, whatever follows them.  A list of control registers
that fits into a memory has a number of entries that fits into the bytes for it. -/
theorem decode?_encode (s : HartState) (count : s.csrs.size < 2 ^ 64) :
    decode? (s.encode ++ rest) = some s := by
  have hcount : (BitVec.ofNat 64 s.csrs.size).toNat = s.csrs.size := by
    rw [BitVec.toNat_ofNat, Nat.mod_eq_of_lt count]
  have hints (rest) : takeFile? .word (s.ints.toList.flatMap Width.word.split ++ rest) =
      some (s.ints, rest) := takeFile?_split (w := .word) rest s.ints
  have hfloats (rest) : takeFile? .dword (s.floats.toList.flatMap Width.dword.split ++ rest) =
      some (s.floats, rest) := takeFile?_split (w := .dword) rest s.floats
  have hcsrs : takeAll? .word s.csrs.size (s.csrs.toList.flatMap Width.word.split ++ rest) =
      some (s.csrs.toList, rest) := takeAll?_split (w := .word) rest s.csrs.toList
  have henough : 4 * s.csrs.size ≤
      (s.csrs.toList.flatMap Width.word.split ++ rest).length := by
    rw [List.length_append, length_flatMap_split, Array.length_toList]
    exact Nat.le_add_right _ _
  simp only [decode?, encode, List.append_assoc, take?_split, hints, hfloats,
    privilegeOf?_index, hcount, hcsrs, Option.bind_eq_bind, Option.bind_some, if_pos henough]
  rfl

end HartState

/-! ## Snapshots -/

/-- The memory with other registers of the core-local interruptor. -/
def Mmu.withClint (mmu : Mmu) (clint : Clint) : Mmu :=
  { mmu with memory := { mmu.memory with clint } }

/-- A state with all control registers can be taken over by any hart with a timer, and then it
is the hart's state; other states leave the hart and all timers as they are.  A hart that takes
over the state of another one of the same configuration goes on as that one would.  And a state
is read back from its bytes. -/
theorem snapshot_complete :
    (∀ (s : HartState) (h : Hart) (clint : Clint), s.csrs.size = 4096 →
      h.config.id < clint.harts.size →
      ∃ h' clint', Hart.restoreInPlace s (h, clint) = (.ok (), (h', clint')) ∧
        Hart.GivenState h h' clint clint' s) ∧
    (∀ (s : HartState) (h : Hart) (clint : Clint), s.csrs.size ≠ 4096 →
      Hart.restoreInPlace s (h, clint) = (.error (.csrCount s.csrs.size), (h, clint))) ∧
    (∀ (h h₂ : Hart) (mmu : Mmu) (compare : Dword), h.Attained → h₂.config = h.config →
      let clint := mmu.memory.clint
      ∃ h' clint', Hart.restoreInPlace (h.state clint)
          (h₂, clint.setCompare h.config.id compare) = (.ok (), (h', clint')) ∧
        ∀ future, h'.undergoAll (mmu.withClint clint') future = h.undergoAll mmu future) ∧
    ∀ (s : HartState) (rest : List Byte), s.csrs.size < 2 ^ 64 →
      HartState.decode? (s.encode ++ rest) = some s := by
  refine ⟨fun s h clint => Hart.givenState_of_restoreInPlace, fun s h clint size => ?_,
    fun h h₂ mmu compare attained config => ?_, fun s rest => s.decode?_encode rest⟩
  · exact Hart.restoreInPlace_error (CsrFile.ofWords?_eq_none size)
  · exact ⟨h, mmu.memory.clint, Hart.restoreInPlace_state attained.zero config compare,
      fun future => rfl⟩

/-- A hart that has written 5 to register 1, and a new one that takes over its state.  Three
control registers are too few. -/
theorem snapshot_complete_of_two_harts :
    let mmu := Mmu.ofProgram [0x93, 0x00, 0x50, 0x00]
    let clint := mmu.memory.clint
    let fresh := Hart.init ⟨0, 0, false, true⟩
    let h := (fresh.step mmu).2.1
    let s := h.state clint
    h.registers.x 1 = 5 ∧
      (∃ h' clint', Hart.restoreInPlace s (fresh, clint) = (.ok (), (h', clint')) ∧
        Hart.GivenState fresh h' clint clint' s) ∧
      Hart.restoreInPlace { s with csrs := #[1, 2, 3] } (fresh, clint) =
        (.error (.csrCount 3), (fresh, clint)) ∧
      (∃ h' clint', Hart.restoreInPlace s (fresh, clint.setCompare h.config.id 9) =
          (.ok (), (h', clint')) ∧
        ∀ future, h'.undergoAll (mmu.withClint clint') future = h.undergoAll mmu future) ∧
      HartState.decode? (s.encode ++ [0xFF]) = some s := by
  intro mmu clint fresh h s
  obtain ⟨restored, refused, continued, decoded⟩ := snapshot_complete
  have size : s.csrs.size = 4096 := h.size_state clint
  have attained : h.Attained := .step mmu (.start ⟨0, 0, false, true⟩)
  have config : h.config = fresh.config := fresh.step_config mmu
  refine ⟨by decide +kernel, ?_, ?_, ?_, ?_⟩
  · exact restored s fresh clint size (by decide)
  · exact refused { s with csrs := #[1, 2, 3] } fresh clint (by decide)
  · exact continued h fresh mmu 9 attained config.symm
  · exact decoded s [0xFF] (Nat.lt_of_le_of_lt (Nat.le_of_eq size) (by decide))

end Rv32

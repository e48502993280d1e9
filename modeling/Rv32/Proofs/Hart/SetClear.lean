/-
# `Rv32.Proofs.Hart.SetClear` — setting and clearing bits of control registers

An instruction that sets or clears bits of a control register reads the register, makes the
new value from the old one and an operand, and writes it.  What is read is not what is
stored: some bits come from elsewhere, and some are hidden.  Nor is what is stored what is
written.  Yet of what any register reads as, no bit goes the other way, and none changes that
the operand does not select.  The one exception is SD, which follows FS.

A bit that may change in this way `Moves`.  Storing moves the bits of one word or of the
counter (`Steered`), and reading, which hides bits and adds others, keeps this true.
-/
import Rv32.Proofs.Hart.WellFormed
import Rv32.Proofs.Word

namespace Rv32

/-! ## Bits that move -/

/-- A bit stays as it was, or it is selected and goes where the selected bits go. -/
def Moves (goal : Bool) (selected : Prop) (before after : Bool) : Prop :=
  after = before ∨ after = goal ∧ selected

namespace Moves

variable {goal before after : Bool} {selected selected' : Prop}

theorem stays (bit : Bool) : Moves goal selected bit bit := .inl rfl

theorem mono (m : Moves goal selected before after) (weaker : selected → selected') :
    Moves goal selected' before after :=
  m.imp_right fun moved => ⟨moved.1, weaker moved.2⟩

theorem and {before' after' : Bool} (m : Moves goal selected before after)
    (m' : Moves goal selected' before' after') :
    Moves goal (selected ∨ selected') (before && before') (after && after') := by
  obtain rfl | ⟨rfl, chosen⟩ := m <;> obtain rfl | ⟨rfl, chosen'⟩ := m'
  · exact .stays _
  · cases after'
    · exact .inr ⟨Bool.and_false _, .inr chosen'⟩
    · cases after
      · exact .stays _
      · exact .inr ⟨rfl, .inr chosen'⟩
  · cases after
    · exact .inr ⟨rfl, .inl chosen⟩
    · cases after'
      · exact .inl (Bool.and_false _).symm
      · exact .inr ⟨rfl, .inl chosen⟩
  · exact .inr ⟨Bool.and_self _, .inl chosen⟩

theorem or (m : Moves goal selected before after) (other : Bool) :
    Moves goal selected (before || other) (after || other) := by
  obtain rfl | ⟨rfl, chosen⟩ := m
  · exact .stays _
  · cases other
    · exact .inr ⟨Bool.or_false _, chosen⟩
    · exact .inl (by rw [Bool.or_true, Bool.or_true])

/-- A bit that a mask may hide. -/
theorem masked (m : Moves goal selected before after) (shown : Bool) :
    Moves goal selected (before && shown) (after && shown) :=
  (m.and (.stays shown : Moves goal False shown shown)).mono fun chosen => chosen.resolve_right id

end Moves

/-- Where an operation on bits sends those that it selects. -/
def CsrOp.goal (op : CsrOp) : Bool := op == .set

namespace Hart

theorem getLsbD_csrResult {op : CsrOp} (bits : op ≠ .write) (old v : Word) (i : Nat) :
    (csrResult op old v).getLsbD i = if v.getLsbD i then op.goal else old.getLsbD i := by
  cases op with
  | write => exact absurd rfl bits
  | set =>
    rw [csrResult, BitVec.getLsbD_or]
    cases v.getLsbD i <;> simp [CsrOp.goal]
  | clear =>
    rw [csrResult, BitVec.getLsbD_and, BitVec.getLsbD_not]
    rcases Nat.lt_or_ge i 32 with hi | hi
    · rw [decide_eq_true hi]
      cases v.getLsbD i <;> simp [CsrOp.goal]
    · simp [BitVec.getLsbD_of_ge _ _ hi]

/-- The new value of a bit, if it is made from the old one. -/
theorem csrResult_moves {op : CsrOp} (bits : op ≠ .write) {old : Word} {before : Bool} (v : Word)
    {i : Nat} (read : old.getLsbD i = before) :
    Moves op.goal (v.getLsbD i = true) before ((csrResult op old v).getLsbD i) := by
  rw [getLsbD_csrResult bits, read]
  split
  case isTrue chosen => exact .inr ⟨rfl, chosen⟩
  case isFalse => exact .stays _

end Hart

/-! ## The status register -/

namespace Status

/-- SD moves with the bits of FS. -/
theorem sd_moves {goal : Bool} {selected : Prop} {s s' : Status} (settled : s.Settled)
    (settled' : s'.Settled)
    (moves : ∀ i ∈ [fsPosition, fsPosition + 1], Moves goal selected (s.bit i) (s'.bit i)) :
    Moves goal selected (s.bit sdPosition) (s'.bit sdPosition) := by
  have full (t : Status) : (t.fs == 0b11#2) = (t.bit fsPosition && t.bit (fsPosition + 1)) := by
    have two : ∀ b : BitVec 2, (b == 0b11#2) = (b.getLsbD 0 && b.getLsbD 1) := by decide
    rw [two, fs, BitVec.getLsbD_extractLsb', BitVec.getLsbD_extractLsb']
    rfl
  rw [settled, settled', full, full]
  exact ((moves _ (by decide)).and (moves _ (by decide))).mono (or_self_iff.mp ·)

end Status

/-! ## Registers and views -/

namespace Csr

/-- Each mode's view of the status register is a register of that mode. -/
theorem eq_of_role_status {c : Csr} {view : Privilege} (h : c.role = .status view) :
    c = mstatus.atLevel view := by
  unfold role at h
  -- one round for each condition of `role`
  repeat
    rcases ite_eq_iff.mp h with ⟨here, eq⟩ | ⟨-, h⟩
    · cases eq <;> cases here <;> rfl
  cases h

/-- A bit of a register that setting or clearing the bits of `v` may change: one of these, or
SD, which is derived. -/
def Selected (v : Word) (d : Csr) (i : Nat) : Prop :=
  v.getLsbD i = true ∨ (d = mstatus ∨ d = sstatus) ∧ i = Status.sdPosition

end Csr

/-- Whether the word stored for a register can be seen, there or in views of it. -/
def CsrRole.isShown : CsrRole → Bool
  | .timeLow | .timeHigh | .hartId | .identity => false
  | _ => true

/-- What can be stored of the pending interrupts comes from nowhere else. -/
theorem Hart.getLsbD_pending (h : Hart) (clint : Clint) {view : Privilege} {i : Nat}
    (stored : (Csr.pendingWritable view).getLsbD i = true) :
    (h.pending clint).getLsbD i = (h.csrs.get Csr.mip).getLsbD i := by
  have absent (own : Interrupt) (apart : own.mask &&& Csr.pendingWritable view = 0) :
      own.mask.getLsbD i = false := by
    have both : (own.mask &&& Csr.pendingWritable view).getLsbD i = false := by
      rw [apart]
      exact BitVec.getLsbD_zero
    rwa [BitVec.getLsbD_and, stored, Bool.and_true] at both
  rw [getLsbD_pending_or, absent .machineSoftware (by cases view <;> decide),
    absent .machineTimer (by cases view <;> decide), Bool.and_false, Bool.and_false,
    Bool.or_false, Bool.or_false]

/-! ## What a write stores -/

/-- From one hart to another, what is stored moves with the bits of `v`. -/
structure Steered (op : CsrOp) (v : Word) (h h' : Hart) : Prop where
  config : h'.config = h.config
  low : ∀ i, Moves op.goal (v.getLsbD i = true) ((Dword.low h.cycles).getLsbD i)
    ((Dword.low h'.cycles).getLsbD i)
  high : ∀ i, Moves op.goal (v.getLsbD i = true) ((Dword.high h.cycles).getLsbD i)
    ((Dword.high h'.cycles).getLsbD i)
  words : ∀ d : Csr, d.role.isShown = true → ∀ i,
    Moves op.goal (Csr.Selected v d i) ((h.csrs.get d).getLsbD i) ((h'.csrs.get d).getLsbD i)

namespace Steered

variable {op : CsrOp} {v : Word} {h : Hart} {c : Csr}

theorem refl : Steered op v h h :=
  ⟨rfl, fun _ => .stays _, fun _ => .stays _, fun _ _ _ => .stays _⟩

theorem store {w : Word} (moves : c.role.isShown = true → ∀ i,
    Moves op.goal (Csr.Selected v c i) ((h.csrs.get c).getLsbD i) (w.getLsbD i)) :
    Steered op v h (h.store c w) := by
  refine ⟨rfl, fun _ => .stays _, fun _ => .stays _, fun d shown i => ?_⟩
  by_cases same : d = c
  case pos =>
    subst same
    rw [show (h.store d w).csrs.get d = w from CsrFile.get_set_self _ _ _]
    exact moves shown i
  case neg =>
    rw [show (h.store c w).csrs.get d = _ from CsrFile.get_set_ne same _ _]
    exact .stays _

end Steered

namespace Hart

variable {op : CsrOp} {h : Hart} {c : Csr}

/-- The new value of a register that reads as it is stored, up to bits that it cannot
have. -/
theorem moves_filtered (bits : op ≠ .write) {old mask : Word} (within : Word.Within old mask)
    (v : Word) (i : Nat) :
    Moves op.goal (v.getLsbD i = true) (old.getLsbD i)
      ((csrResult op old v &&& mask).getLsbD i) := by
  have moves := (csrResult_moves bits v (rfl : old.getLsbD i = _)).masked (mask.getLsbD i)
  have kept : (old.getLsbD i && mask.getLsbD i) = old.getLsbD i := by
    cases reached : mask.getLsbD i with
    | false => rw [within i reached]; rfl
    | true => exact Bool.and_true _
  rw [BitVec.getLsbD_and]
  rwa [kept] at moves

/-- The new value of bits that are written through a view, if they are seen there as they are
stored. -/
theorem moves_through (bits : op ≠ .write) {old read mask : Word} (v : Word)
    (seen : ∀ i, mask.getLsbD i = true → read.getLsbD i = old.getLsbD i) (i : Nat) :
    Moves op.goal (v.getLsbD i = true) (old.getLsbD i)
      (((old &&& ~~~mask) ||| (csrResult op read v &&& mask)).getLsbD i) := by
  rw [getLsbD_masked]
  split
  case isTrue reached => exact csrResult_moves bits v (seen i reached)
  case isFalse => exact .stays _

theorem moves_vector (bits : op ≠ .write) (old : TrapVector) (v : Word) (i : Nat) :
    Moves op.goal (v.getLsbD i = true) (old.bits.getLsbD i)
      ((old.written (csrResult op old.bits v)).bits.getLsbD i) := by
  unfold TrapVector.written
  split
  · exact .stays _
  · exact csrResult_moves bits v rfl

/-- What a view shows of the bits that can be written through it. -/
theorem getLsbD_view {view mask : Word} (sub : mask &&& ~~~view = 0) (old : Word) {i : Nat}
    (reached : mask.getLsbD i = true) : (old &&& view).getLsbD i = old.getLsbD i := by
  have shown : view.getLsbD i = true := by
    by_contra hidden
    rw [getLsbD_of_submask sub (Bool.not_eq_true _ ▸ hidden)] at reached
    cases reached
  rw [BitVec.getLsbD_and, shown, Bool.and_true]

theorem steered_setStatus (bits : op ≠ .write) (l : h.csrs.Legal) (view : Privilege) (v : Word) :
    Steered op v h (h.store Csr.mstatus (h.csrs.status.written
      (csrResult op (h.csrs.get Csr.mstatus &&& Csr.statusView view) v)
      (Csr.statusView view)).bits) := by
  let s := h.csrs.status
  let s' := s.written (csrResult op (s.bits &&& Csr.statusView view) v) (Csr.statusView view)
  have moves {i : Nat} (not_sd : i ≠ Status.sdPosition) :
      Moves op.goal (v.getLsbD i = true) (s.bit i) (s'.bit i) := by
    obtain same | ⟨reached, copied⟩ := Status.bit_written_or not_sd s _ (Csr.statusView view)
    · exact .inl same
    · have seen : (s.bits &&& Csr.statusView view).getLsbD i = s.bit i := by
        rw [BitVec.getLsbD_and, reached, Bool.and_true]
        rfl
      exact copied.symm ▸ csrResult_moves bits v seen
  refine .store fun _ i => ?_
  by_cases sd : i = Status.sdPosition
  case neg => exact (moves sd).mono .inl
  case pos =>
    subst sd
    have fs : ∀ i ∈ [Status.fsPosition, Status.fsPosition + 1],
        Moves op.goal (v.getLsbD i = true) (s.bit i) (s'.bit i) := by
      intro i field
      refine moves ?_
      rintro rfl
      revert field
      decide
    have derived : Moves op.goal True (s.bit Status.sdPosition) (s'.bit Status.sdPosition) :=
      Status.sd_moves l.status.settled (Status.settled_written _ _ _) fun i field =>
        (fs i field).mono fun _ => trivial
    exact derived.mono fun _ => .inr ⟨.inl rfl, rfl⟩

/-- Whatever a register shows and whatever of a write reaches it, setting and clearing bits
moves what is stored with these bits. -/
theorem steered_writeCsr (bits : op ≠ .write) (l : h.csrs.Legal) (clint : Clint) (c : Csr)
    (v : Word) : Steered op v h (h.writeCsr c (csrResult op (h.readCsr clint c) v)) := by
  by_cases readOnly : c.isReadOnly = true
  case pos =>
    rw [writeCsr, if_pos readOnly]
    exact .refl
  case neg =>
    have within : Word.Within (h.csrs.get c) c.role.storable := by
      have words := l.words c
      rwa [Csr.storable, if_neg readOnly] at words
    rw [writeCsr, if_neg readOnly, readCsr]
    cases role : c.role with
    | cyclesLow =>
      refine ⟨rfl, fun i => ?_, fun i => ?_, fun _ _ _ => .stays _⟩
      · simp only [Dword.setLow, Dword.low_ofHalves]
        exact csrResult_moves bits v rfl
      · simp only [Dword.setLow, Dword.high_ofHalves]
        exact .stays _
    | cyclesHigh =>
      refine ⟨rfl, fun i => ?_, fun i => ?_, fun _ _ _ => .stays _⟩
      · simp only [Dword.setHigh, Dword.low_ofHalves]
        exact .stays _
      · simp only [Dword.setHigh, Dword.high_ofHalves]
        exact csrResult_moves bits v rfl
    | timeLow | timeHigh | hartId | identity =>
      refine .store fun shown => ?_
      rw [role] at shown
      cases shown
    | float => exact .refl
    | status view => exact steered_setStatus bits l view v
    | enabled view =>
      refine .store fun _ i => (moves_through bits v (fun i reached => ?_) i).mono .inl
      exact getLsbD_view (by cases view <;> decide) _ reached
    | pending view =>
      refine .store fun _ i => (moves_through bits v (fun i reached => ?_) i).mono .inl
      rw [getLsbD_view (by cases view <;> decide) _ reached]
      exact getLsbD_pending h clint reached
    | exceptionDelegation =>
      rw [role] at within
      exact .store fun _ i => (moves_filtered bits within v i).mono .inl
    | interruptDelegation level =>
      rw [role] at within
      exact .store fun _ i => (moves_filtered bits within v i).mono .inl
    | returnAddress =>
      rw [role] at within
      exact .store fun _ i => (moves_filtered bits within v i).mono .inl
    | vector =>
      exact .store fun _ i => (moves_vector bits ⟨h.csrs.get c⟩ v i).mono .inl
    | translation | storage => exact .store fun _ i => (csrResult_moves bits v rfl).mono .inl

/-! ## What is read -/

/-- Reading hides some bits and adds others; what is read moves as what is stored does. -/
theorem readCsr_moves {v : Word} {h' : Hart} (s : Steered op v h h') (clint : Clint) (d : Csr)
    (i : Nat) : Moves op.goal (Csr.Selected v d i) ((h.readCsr clint d).getLsbD i)
      ((h'.readCsr clint d).getLsbD i) := by
  have own (shown : d.role.isShown = true) := s.words d shown i
  simp only [readCsr]
  cases role : d.role with
  | cyclesLow => exact (s.low i).mono .inl
  | cyclesHigh => exact (s.high i).mono .inl
  | timeLow | timeHigh | identity | float => exact .stays _
  | hartId =>
    simp only [s.config]
    exact .stays _
  | status view =>
    simp only [BitVec.getLsbD_and]
    have moves := (s.words Csr.mstatus rfl i).masked ((Csr.statusView view).getLsbD i)
    by_cases hidden : (Csr.statusView view).getLsbD i = false
    case pos =>
      simp only [hidden, Bool.and_false]
      exact .stays _
    case neg =>
      refine moves.mono (Or.imp_right fun sd => ⟨?_, sd.2⟩)
      rw [Csr.eq_of_role_status role]
      cases view with
      | machine => exact .inl rfl
      | supervisor => exact .inr rfl
      | user =>
        rw [sd.2] at hidden
        exact absurd rfl hidden
  | enabled view =>
    simp only [BitVec.getLsbD_and]
    refine ((s.words Csr.mie rfl i).masked _).mono (Or.imp_right fun sd => ?_)
    exact absurd sd.1 (by decide)
  | pending view =>
    simp only [BitVec.getLsbD_and, pending, BitVec.getLsbD_or, s.config, Bool.or_assoc]
    refine (((s.words Csr.mip rfl i).or _).masked _).mono (Or.imp_right fun sd => ?_)
    exact absurd sd.1 (by decide)
  | exceptionDelegation | interruptDelegation level | vector | returnAddress | translation
  | storage => exact own (by rw [role]; rfl)

/-! ## Setting and clearing bits -/

/-- The hart after the bits of `v` are set or cleared in a register. -/
def modifyCsr (h : Hart) (clint : Clint) (op : CsrOp) (c : Csr) (v : Word) : Hart :=
  h.writeCsr c (csrResult op (h.readCsr clint c) v)

/-- A hart that may write a register, and does, has the old value in a register of its own and has
written the new one. -/
theorem useCsr_modifies {mmu : Mmu} (may : h.mayUse c true = true) {operand : CsrOperand}
    (writes : csrWrites op operand = true) (bits : Word) (length : Instruction.Length) (rd : Reg) :
    ∃ mmu', mmu'.memory = mmu.memory ∧
      h.useCsr bits length op rd operand c mmu =
        (.ok ((h.modifyCsr mmu.memory.clint op c (h.csrOperand operand)).finish length rd
          (h.readCsr mmu.memory.clint c)), mmu') := by
  let value := csrResult op (h.readCsr mmu.memory.clint c) (h.csrOperand operand)
  have run : h.useCsr bits length op rd operand c mmu =
      (if h.writeFlushes c value then do
          modify (·.invalidate h.config.id)
          return (h.writeCsr c value).finish length rd (h.readCsr mmu.memory.clint c)
        else return (h.writeCsr c value).finish length rd (h.readCsr mmu.memory.clint c) :
        Attempt Trap Mmu Hart) mmu := by
    simp only [useCsr, writes, may, Bool.not_true, Bool.false_eq_true, if_false, if_true]
    rw [Attempt.bind_run]
    rfl
  rw [run]
  cases h.writeFlushes c value with
  | true => exact ⟨mmu.invalidate h.config.id, rfl, rfl⟩
  | false => exact ⟨mmu, rfl, rfl⟩

/-- So it is after the instruction. -/
theorem execute_modifies {mmu : Mmu} (may : h.mayUse c true = true) {operand : CsrOperand}
    (writes : csrWrites op operand = true) (bits : Word) (length : Instruction.Length) (rd : Reg) :
    ∃ mmu', mmu'.memory = mmu.memory ∧
      h.execute (.csr op rd operand c) bits length mmu =
        (.ok .proceed,
          (h.modifyCsr mmu.memory.clint op c (h.csrOperand operand)).finish length rd
            (h.readCsr mmu.memory.clint c), mmu') := by
  obtain ⟨mmu', kept, run⟩ := useCsr_modifies may writes bits length rd
  refine ⟨mmu', kept, ?_⟩
  rw [execute_eq, effect, Attempt.bind_run, run]
  rfl

/-- What setting or clearing the bits of `v` in a register does to all registers. -/
structure SetOrCleared (h : Hart) (clint : Clint) (op : CsrOp) (c : Csr) (v : Word)
    (after : Hart) : Prop where
  set : op = .set → ∀ d i, (h.readCsr clint d).getLsbD i = true →
    (after.readCsr clint d).getLsbD i = true
  clear : op = .clear → ∀ d i, (h.readCsr clint d).getLsbD i = false →
    (after.readCsr clint d).getLsbD i = false
  selected : ∀ d i, (after.readCsr clint d).getLsbD i ≠ (h.readCsr clint d).getLsbD i →
    Csr.Selected v d i
  /-- A pending interrupt that is stored was stored before, or the operand asks for it. -/
  pending : ∀ i, (after.csrs.get Csr.mip).getLsbD i = true →
    (h.csrs.get Csr.mip).getLsbD i = true ∨ op = .set ∧ v.getLsbD i = true
  /-- What the core-local interruptor asks for is not stored. -/
  coreLocal : ∀ i ∈ [Interrupt.machineSoftware, .machineTimer],
    (after.csrs.get Csr.mip).getLsbD i.code = false
  /-- MPP stays if it would become reserved. -/
  mpp : c = Csr.mstatus →
    (csrResult op (h.readCsr clint c) v).extractLsb' Status.mppPosition 2 = 0b10#2 →
    after.csrs.status.mppField = h.csrs.status.mppField
  /-- The mode of a trap vector stays if it would become reserved. -/
  vectorMode : c ∈ [Csr.mtvec, Csr.stvec, Csr.utvec] →
    2 ≤ ((csrResult op (h.readCsr clint c) v).extractLsb' 0 2).toNat →
    (after.csrs.get c).extractLsb' 0 2 = (h.csrs.get c).extractLsb' 0 2

theorem setOrCleared_modifyCsr (bits : op ≠ .write) (l : h.csrs.Legal) (clint : Clint) (c : Csr)
    (v : Word) : SetOrCleared h clint op c v (h.modifyCsr clint op c v) := by
  have steered : Steered op v h (h.modifyCsr clint op c v) := steered_writeCsr bits l clint c v
  have moves := readCsr_moves steered clint
  constructor
  case set =>
    rintro rfl d i before
    obtain same | ⟨moved, -⟩ := moves d i
    · exact same.trans before
    · exact moved
  case clear =>
    rintro rfl d i before
    obtain same | ⟨moved, -⟩ := moves d i
    · exact same.trans before
    · exact moved
  case selected => exact fun d i changed => ((moves d i).resolve_left changed).2
  case pending =>
    intro i stored
    obtain same | ⟨moved, chosen⟩ := steered.words Csr.mip rfl i
    · exact .inl (same.symm.trans stored)
    · refine .inr ⟨eq_of_beq (moved.symm.trans stored), chosen.resolve_right fun sd => ?_⟩
      exact absurd sd.1 (by decide)
  case coreLocal =>
    intro i own
    refine (legal_writeCsr l c _).words Csr.mip _ ?_
    revert i
    decide
  case mpp =>
    rintro rfl reserved
    have status : (h.modifyCsr clint op Csr.mstatus v).csrs.status = h.csrs.status.written
        (csrResult op (h.readCsr clint Csr.mstatus) v) (BitVec.allOnes 32) :=
      CsrFile.status_setStatus _ _
    rw [status]
    exact Status.mppField_written_reserved _ reserved
  case vectorMode =>
    intro vector reserved
    have bit : (csrResult op (h.readCsr clint c) v).getLsbD 1 = true := by
      have two : ∀ m : BitVec 2, 2 ≤ m.toNat → m.getLsbD 1 = true := by decide
      have high := two _ reserved
      rwa [BitVec.getLsbD_extractLsb'] at high
    have role : c.role = .vector ∧ c.isReadOnly = false := by
      simp only [List.mem_cons, List.not_mem_nil, or_false] at vector
      rcases vector with rfl | rfl | rfl <;> exact ⟨rfl, rfl⟩
    have kept : h.modifyCsr clint op c v = h.store c (h.csrs.get c) := by
      simp only [modifyCsr, writeCsr, role, TrapVector.written, bit, Bool.false_eq_true, if_false,
        if_true]
    rw [kept, show (h.store c (h.csrs.get c)).csrs.get c = _ from CsrFile.get_set_self _ _ _]

/-- In every state that can be reached, setting and clearing bits of a control register touches
only the bits selected, in whatever register they are read; and the instruction that does it
answers with the old value. -/
theorem setClear_selective (reachable : h.Reachable) (even : Word.Even h.config.resetVector)
    (bits : op ≠ .write) (clint : Clint) (c : Csr) (v : Word) :
    SetOrCleared h clint op c v (h.modifyCsr clint op c v) ∧
    ∀ (mmu : Mmu) (operand : CsrOperand) (encoded : Word) (length : Instruction.Length) (rd : Reg),
      mmu.memory.clint = clint → h.csrOperand operand = v → csrWrites op operand = true →
      h.mayUse c true = true → ∃ mmu', mmu'.memory = mmu.memory ∧
        h.execute (.csr op rd operand c) encoded length mmu =
          (.ok .proceed, (h.modifyCsr clint op c v).finish length rd (h.readCsr clint c),
            mmu') := by
  refine ⟨setOrCleared_modifyCsr bits (reachable.legal even).csrs clint c v, ?_⟩
  rintro mmu operand encoded length rd rfl rfl writes may
  exact execute_modifies may writes encoded length rd

/-- A hart that has set FS, and by that SD, from a register clears it again with the same register,
through the view of supervisor mode. -/
theorem setClear_selective_of_written :
    let mmu := Mmu.ofProgram [0xB7, 0x62, 0x00, 0x00, 0x73, 0x90, 0x02, 0x30]
    let first := (Hart.init ⟨0, 0, false, true⟩).step mmu
    let h := (first.2.1.step first.2.2).2.1
    let after := h.modifyCsr (Clint.init 1) .clear Csr.sstatus 0x6000
    (h.registers.x 5, h.readCsr (Clint.init 1) Csr.mstatus) = (0x6000, 0x80006000) ∧
      SetOrCleared h (Clint.init 1) .clear Csr.sstatus 0x6000 after ∧
      after.readCsr (Clint.init 1) Csr.mstatus = 0 ∧
      ∃ mmu', mmu'.memory = mmu.memory ∧
        h.execute (.csr .clear 7 (.register 5) Csr.sstatus) 0x1002B3F3 .full mmu =
          (.ok .proceed, after.finish .full 7 0x80006000, mmu') := by
  intro mmu first h after
  have old : h.readCsr (Clint.init 1) Csr.sstatus = 0x80006000 := by decide +kernel
  have reached : h.Reachable := .step first.2.2 (.step mmu (.start _))
  have even : h.config.resetVector.toNat % 2 = 0 := by decide +kernel
  have bits : CsrOp.clear ≠ .write := by decide
  obtain ⟨cleared, executed⟩ :=
    setClear_selective reached even bits (Clint.init 1) Csr.sstatus 0x6000
  rw [old] at executed
  refine ⟨by decide +kernel, cleared, by decide +kernel, ?_⟩
  exact executed mmu (.register 5) 0x1002B3F3 .full 7 rfl (by decide +kernel) rfl
    (by decide +kernel)

end Hart
end Rv32

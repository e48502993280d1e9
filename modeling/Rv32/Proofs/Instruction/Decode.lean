/-
# `Rv32.Proofs.Instruction.Decode` — decoding inverts assembling

`decode_eq_ok_iff`: a word decodes to an instruction if and only if it is one of that
instruction's words.

From right to left the instruction says which fields the word has, and each table of codes,
given the code of an operation, finds the operation.  From left to right the proof goes
through the groups; a table that finds an operation was given its code.  So of a table only
one thing needs to be known, its lemma `ofBits?_eq_some`, and what an illegal word is follows
from the equivalence alone: one that is no word of any instruction.
-/
import Rv32.Proofs.Instruction.Assembler

namespace Rv32

open BitVec Instruction Rv32.Field

/-! ## Tables -/

theorem Opcode.ofBits?_eq_some {b : BitVec 7} {group : Opcode} :
    ofBits? b = some group ↔ b = group.bits := by
  constructor
  · intro found
    unfold ofBits? at found
    split at found <;> cases found <;> rfl
  · rintro rfl
    rcases group with _ | _ | _ | _ | _ | _ | _ | _ | _ | _ | _ | _ | _ | _ | _ | _
    case fused op => cases op <;> rfl
    all_goals rfl

theorem ImmOp.ofBits?_eq_some {b : BitVec 3} {op : ImmOp} :
    ofBits? b = some op ↔ b = op.funct3 := by
  constructor
  · intro found
    unfold ofBits? at found
    split at found <;> cases found <;> rfl
  · rintro rfl
    cases op <;> rfl

theorem ShiftOp.ofBits?_eq_some {a : BitVec 7} {b : BitVec 3} {op : ShiftOp} :
    ofBits? a b = some op ↔ a = op.funct7 ∧ b = op.funct3 := by
  constructor
  · intro found
    unfold ofBits? at found
    split at found <;> cases found <;> exact ⟨rfl, rfl⟩
  · rintro ⟨rfl, rfl⟩
    cases op <;> rfl

theorem RegOp.ofBits?_eq_some {a : BitVec 7} {b : BitVec 3} {op : RegOp} :
    ofBits? a b = some op ↔ a = op.funct7 ∧ b = op.funct3 := by
  constructor
  · intro found
    unfold ofBits? at found
    split at found <;> cases found <;> exact ⟨rfl, rfl⟩
  · rintro ⟨rfl, rfl⟩
    cases op <;> rfl

theorem Condition.ofBits?_eq_some {b : BitVec 3} {c : Condition} :
    ofBits? b = some c ↔ b = c.funct3 := by
  constructor
  · intro found
    unfold ofBits? at found
    split at found <;> cases found <;> rfl
  · rintro rfl
    cases c <;> rfl

theorem LoadOp.ofBits?_eq_some {b : BitVec 3} {op : LoadOp} :
    ofBits? b = some op ↔ b = op.funct3 := by
  constructor
  · intro found
    unfold ofBits? at found
    split at found <;> cases found <;> rfl
  · rintro rfl
    cases op <;> rfl

theorem StoreOp.ofBits?_eq_some {b : BitVec 3} {op : StoreOp} :
    ofBits? b = some op ↔ b = op.funct3 := by
  constructor
  · intro found
    unfold ofBits? at found
    split at found <;> cases found <;> rfl
  · rintro rfl
    cases op <;> rfl

theorem FloatWidth.ofBits?_eq_some {b : BitVec 3} {width : FloatWidth} :
    ofBits? b = some width ↔ b = width.funct3 := by
  constructor
  · intro found
    unfold ofBits? at found
    split at found <;> cases found <;> rfl
  · rintro rfl
    cases width <;> rfl

theorem Rounding.ofBits?_eq_some {b : BitVec 3} {rounding : Rounding} :
    ofBits? b = some rounding ↔ b = rounding.bits := by
  constructor
  · intro found
    unfold ofBits? at found
    split at found <;> cases found <;> rfl
  · rintro rfl
    cases rounding <;> rfl

theorem FloatPick.ofBits?_eq_some {a : BitVec 7} {b : BitVec 3} {op : FloatPick} :
    ofBits? a b = some op ↔ a = op.funct7 ∧ b = op.funct3 := by
  constructor
  · intro found
    unfold ofBits? at found
    split at found <;> cases found <;> exact ⟨rfl, rfl⟩
  · rintro ⟨rfl, rfl⟩
    cases op <;> rfl

theorem FloatCompare.ofBits?_eq_some {b : BitVec 3} {op : FloatCompare} :
    ofBits? b = some op ↔ b = op.funct3 := by
  constructor
  · intro found
    unfold ofBits? at found
    split at found <;> cases found <;> rfl
  · rintro rfl
    cases op <;> rfl

theorem Signedness.ofBits?_eq_some {b : BitVec 5} {sign : Signedness} :
    ofBits? b = some sign ↔ b = sign.rs2 := by
  constructor
  · intro found
    unfold ofBits? at found
    split at found <;> cases found <;> rfl
  · rintro rfl
    cases sign <;> rfl

theorem AmoOp.ofBits?_eq_some {b : BitVec 5} {op : AmoOp} :
    ofBits? b = some op ↔ b = op.funct5 := by
  constructor
  · intro found
    unfold ofBits? at found
    split at found <;> cases found <;> rfl
  · rintro rfl
    cases op <;> rfl

theorem CsrOp.ofBits?_eq_some {b : BitVec 3} {source : BitVec 5} {op : CsrOp}
    {operand : CsrOperand} :
    ofBits? b source = some (op, operand) ↔ b = op.funct3 operand ∧ source = operand.source := by
  constructor
  · intro found
    unfold ofBits? at found
    split at found <;> cases found <;> exact ⟨rfl, rfl⟩
  · rintro ⟨rfl, rfl⟩
    cases op <;> cases operand <;> rfl

/-! ## Masked fields -/

theorem extractLsb'_and_not {n start len : Nat} (x mask : BitVec n) :
    (x &&& ~~~mask).extractLsb' start len =
      x.extractLsb' start len &&& ~~~mask.extractLsb' start len := by
  apply BitVec.eq_of_getLsbD_eq
  intro k hk
  simp only [getLsbD_extractLsb', getLsbD_and, getLsbD_not, hk, decide_true, Bool.true_and]
  by_cases inside : start + k < n
  · simp only [inside, decide_true, Bool.true_and]
  · simp only [getLsbD_of_ge x _ (Nat.not_lt.mp inside), Bool.false_and]

section
variable {w mask : Word} {code7 mask7 opMask op : BitVec 7} {code5 mask5 : BitVec 5}
  {code2 mask2 : BitVec 2} {a₂ a₁ d mask₂ mask₁ dMask : Reg} {code3 mask3 : BitVec 3}

theorem masked_eq_r_iff (masked : mask = Layout.r mask7 mask₂ mask₁ mask3 dMask opMask) :
    w &&& ~~~mask = Layout.r code7 a₂ a₁ code3 d op ↔
      funct7 w &&& ~~~mask7 = code7 ∧ rs2 w &&& ~~~mask₂ = a₂ ∧ rs1 w &&& ~~~mask₁ = a₁ ∧
        funct3 w &&& ~~~mask3 = code3 ∧ rd w &&& ~~~dMask = d ∧ opcode w &&& ~~~opMask = op := by
  obtain ⟨rfl, rfl, rfl, rfl, rfl, rfl⟩ := eq_r_iff.mp masked
  rw [eq_r_iff]
  simp only [funct7, rs2, rs1, funct3, rd, opcode, extractLsb'_and_not]

theorem masked_eq_amo_iff
    (masked : mask = Layout.amo mask5 mask2 mask₂ mask₁ mask3 dMask opMask) :
    w &&& ~~~mask = Layout.amo code5 code2 a₂ a₁ code3 d op ↔
      funct5 w &&& ~~~mask5 = code5 ∧ format w &&& ~~~mask2 = code2 ∧
        rs2 w &&& ~~~mask₂ = a₂ ∧ rs1 w &&& ~~~mask₁ = a₁ ∧ funct3 w &&& ~~~mask3 = code3 ∧
        rd w &&& ~~~dMask = d ∧ opcode w &&& ~~~opMask = op := by
  obtain ⟨rfl, rfl, rfl, rfl, rfl, rfl, rfl⟩ := eq_amo_iff.mp masked
  rw [eq_amo_iff]
  simp only [funct5, format, rs2, rs1, funct3, rd, opcode, extractLsb'_and_not]

theorem fence_iff :
    w &&& ~~~fence.ignored = Layout.r 0 0 0 code3 0 op ↔ funct3 w = code3 ∧ opcode w = op := by
  rw [masked_eq_r_iff (rfl : fence.ignored = _)]
  simp only [BitVec.not_allOnes, BitVec.ofNat_eq_ofNat, BitVec.and_zero, BitVec.not_zero,
    BitVec.and_allOnes, true_and]

theorem breakHint_iff :
    w &&& ~~~breakHint.ignored = Layout.r code7 0 a₁ code3 d op ↔
      funct7 w = code7 ∧ rs1 w = a₁ ∧ funct3 w = code3 ∧ rd w = d ∧ opcode w = op := by
  rw [masked_eq_r_iff (rfl : breakHint.ignored = _)]
  simp only [BitVec.not_allOnes, BitVec.ofNat_eq_ofNat, BitVec.and_zero, BitVec.not_zero,
    BitVec.and_allOnes, true_and]

theorem atomic_iff :
    w &&& ~~~(loadReserved d a₁).ignored = Layout.amo code5 0b00 a₂ a₁ code3 d op ↔
      funct5 w = code5 ∧ rs2 w = a₂ ∧ rs1 w = a₁ ∧ funct3 w = code3 ∧ rd w = d ∧
        opcode w = op := by
  rw [masked_eq_amo_iff (rfl : (loadReserved d a₁).ignored = _)]
  have ordering : ~~~(0b11#2) = 0#2 := rfl
  simp only [ordering, BitVec.ofNat_eq_ofNat, BitVec.and_zero, BitVec.not_zero,
    BitVec.and_allOnes, true_and]

end

/-- What may be the code of an operation are the upper bits of what may be a control register. -/
theorem funct7_eq_csr (w : Word) : funct7 w = (Field.csr w).extractLsb' 5 7 := by
  have parts : Field.csr w = funct7 w ++ rs2 w := by
    simp only [Field.csr, funct7, rs2, extractLsb'_append_extractLsb'_eq_extractLsb']
  rw [parts]
  exact extractLsb'_append_eq_left.symm

/-! ## From the word of an instruction to the instruction -/

/-- Where every bit of a word counts, an instruction has one word only. -/
theorem masked_eq_encode_iff {w : Word} {i : Instruction} (whole : i.ignored = 0) :
    w &&& ~~~i.ignored = i.encode ↔ w = i.encode := by
  have all : w &&& ~~~(0 : Word) = w := BitVec.and_allOnes
  rw [whole, all]

theorem decode_of_group {w : Word} {group : Opcode} {i : Instruction}
    (selected : opcode w = group.bits) (decoded : decodeGroup? group w = some i) :
    decode w = .ok i := by
  simp only [decode, Opcode.ofBits?_eq_some.mpr selected, decoded, Option.elim_some]

theorem decode_of_encodes {w : Word} {i : Instruction} (encoded : Encodes w i) :
    decode w = .ok i := by
  obtain ⟨encodable, word⟩ := encoded
  cases i with
  | opImm op d a imm =>
    obtain ⟨rfl, rfl, h3, rfl, selected⟩ := eq_i_iff.mp ((masked_eq_encode_iff rfl).mp word)
    apply decode_of_group selected
    simp only [decodeGroup?, decodeOpImm?, ImmOp.ofBits?_eq_some.mpr h3]
  | shiftImm op d a amount =>
    obtain ⟨h7, rfl, rfl, h3, rfl, selected⟩ := eq_r_iff.mp ((masked_eq_encode_iff rfl).mp word)
    apply decode_of_group selected
    have notImm : ImmOp.ofBits? op.funct3 = none := by cases op <;> rfl
    simp only [decodeGroup?, decodeOpImm?, h3, notImm, ShiftOp.ofBits?_eq_some.mpr ⟨h7, rfl⟩,
      Option.map_some]
    rfl
  | auipc d imm | lui d imm =>
    obtain ⟨rfl, rfl, selected⟩ := eq_u_iff.mp ((masked_eq_encode_iff rfl).mp word)
    exact decode_of_group selected rfl
  | opReg op d a₁ a₂ =>
    obtain ⟨h7, rfl, rfl, h3, rfl, selected⟩ := eq_r_iff.mp ((masked_eq_encode_iff rfl).mp word)
    apply decode_of_group selected
    have notHint : ¬(op = .slt ∧ rd w = Reg.zero ∧ rs1 w = Reg.link) := by
      rintro ⟨rfl, hd, h₁⟩
      exact encodable (rs2 w) (by rw [hd, h₁])
    simp only [decodeGroup?, decodeOp?, RegOp.ofBits?_eq_some.mpr ⟨h7, h3⟩, Option.map_some,
      if_neg notHint]
  | jal d offset =>
    obtain ⟨rfl, rfl, selected⟩ := eq_j_iff.mp ((masked_eq_encode_iff rfl).mp word)
    exact decode_of_group selected rfl
  | jalr d a offset =>
    obtain ⟨rfl, rfl, h3, rfl, selected⟩ := eq_i_iff.mp ((masked_eq_encode_iff rfl).mp word)
    apply decode_of_group selected
    simp only [decodeGroup?, h3, if_true]
  | branch c a₁ a₂ offset =>
    obtain ⟨rfl, rfl, rfl, h3, selected⟩ := eq_b_iff.mp ((masked_eq_encode_iff rfl).mp word)
    apply decode_of_group selected
    simp only [decodeGroup?, Condition.ofBits?_eq_some.mpr h3, Option.map_some]
  | load op d a offset =>
    obtain ⟨rfl, rfl, h3, rfl, selected⟩ := eq_i_iff.mp ((masked_eq_encode_iff rfl).mp word)
    apply decode_of_group selected
    simp only [decodeGroup?, LoadOp.ofBits?_eq_some.mpr h3, Option.map_some]
  | store op a₂ a₁ offset =>
    obtain ⟨rfl, rfl, rfl, h3, selected⟩ := eq_s_iff.mp ((masked_eq_encode_iff rfl).mp word)
    apply decode_of_group selected
    simp only [decodeGroup?, StoreOp.ofBits?_eq_some.mpr h3, Option.map_some]
  | fence | fenceI =>
    obtain ⟨h3, selected⟩ := fence_iff.mp word
    apply decode_of_group selected
    simp only [decodeGroup?, decodeMiscMem?, h3]
  | ecall | ebreak | waitForInterrupt =>
    obtain ⟨hc, h₁, h3, hd, selected⟩ := eq_csr_iff.mp ((masked_eq_encode_iff rfl).mp word)
    apply decode_of_group selected
    simp only [decodeGroup?, decodeSystem?, decodePrivileged?, h3, hd, h₁, funct7_eq_csr, hc]
    rfl
  | breakHint =>
    obtain ⟨h7, h₁, h3, hd, selected⟩ := breakHint_iff.mp word
    apply decode_of_group selected
    simp only [decodeGroup?, decodeOp?, RegOp.ofBits?_eq_some.mpr ⟨h7, h3⟩, Option.map_some, h₁, hd,
      true_and, if_true]
  | trapReturn level =>
    obtain ⟨hc, h₁, h3, hd, selected⟩ := eq_csr_iff.mp ((masked_eq_encode_iff rfl).mp word)
    apply decode_of_group selected
    simp only [decodeGroup?, decodeSystem?, decodePrivileged?, h3, hd, h₁, funct7_eq_csr, hc]
    cases level <;> rfl
  | fenceTranslations address space =>
    obtain ⟨h7, rfl, rfl, h3, hd, selected⟩ := eq_r_iff.mp ((masked_eq_encode_iff rfl).mp word)
    apply decode_of_group selected
    simp only [decodeGroup?, decodeSystem?, decodePrivileged?, h3, hd, h7, if_true, ne_eq,
      not_true_eq_false, if_false]
  | csr op d operand c =>
    obtain ⟨rfl, h₁, h3, rfl, selected⟩ := eq_csr_iff.mp ((masked_eq_encode_iff rfl).mp word)
    apply decode_of_group selected
    have found := CsrOp.ofBits?_eq_some.mpr ⟨h3, h₁⟩
    have notPrivileged : funct3 w ≠ 0b000#3 := by
      intro h
      rw [h] at found
      cases found
    simp only [decodeGroup?, decodeSystem?, if_neg notPrivileged, found, Option.map_some]
  | loadFloat width d a offset =>
    obtain ⟨rfl, rfl, h3, rfl, selected⟩ := eq_i_iff.mp ((masked_eq_encode_iff rfl).mp word)
    apply decode_of_group selected
    simp only [decodeGroup?, FloatWidth.ofBits?_eq_some.mpr h3, Option.map_some]
  | storeFloat width a₂ a₁ offset =>
    obtain ⟨rfl, rfl, rfl, h3, selected⟩ := eq_s_iff.mp ((masked_eq_encode_iff rfl).mp word)
    apply decode_of_group selected
    simp only [decodeGroup?, FloatWidth.ofBits?_eq_some.mpr h3, Option.map_some]
  | floatArith op d a₁ a₂ rounding =>
    obtain ⟨h7, rfl, rfl, h3, rfl, selected⟩ := eq_r_iff.mp ((masked_eq_encode_iff rfl).mp word)
    apply decode_of_group selected
    cases op <;> simp only [decodeGroup?, decodeOpFloat?, h7, FloatArith.funct7,
      Rounding.ofBits?_eq_some.mpr h3, Option.map_some]
  | floatSqrt d a rounding =>
    obtain ⟨h7, h₂, rfl, h3, rfl, selected⟩ := eq_r_iff.mp ((masked_eq_encode_iff rfl).mp word)
    apply decode_of_group selected
    simp only [decodeGroup?, decodeOpFloat?, h7, h₂, if_true, Rounding.ofBits?_eq_some.mpr h3,
      Option.map_some]
  | floatPick op d a₁ a₂ =>
    obtain ⟨h7, rfl, rfl, h3, rfl, selected⟩ := eq_r_iff.mp ((masked_eq_encode_iff rfl).mp word)
    apply decode_of_group selected
    cases op <;> simp only [decodeGroup?, decodeOpFloat?, h7, h3] <;> rfl
  | floatCompare op d a₁ a₂ =>
    obtain ⟨h7, rfl, rfl, h3, rfl, selected⟩ := eq_r_iff.mp ((masked_eq_encode_iff rfl).mp word)
    apply decode_of_group selected
    simp only [decodeGroup?, decodeOpFloat?, h7, FloatCompare.ofBits?_eq_some.mpr h3,
      Option.map_some]
  | floatToInt sign d a rounding | floatOfInt sign d a rounding =>
    obtain ⟨h7, h₂, rfl, h3, rfl, selected⟩ := eq_r_iff.mp ((masked_eq_encode_iff rfl).mp word)
    apply decode_of_group selected
    simp only [decodeGroup?, decodeOpFloat?, h7, Signedness.ofBits?_eq_some.mpr h₂,
      Rounding.ofBits?_eq_some.mpr h3, Option.map_some, Option.bind_some]
  | floatMoveOut d a | floatClass d a | floatMoveIn d a =>
    obtain ⟨h7, h₂, rfl, h3, rfl, selected⟩ := eq_r_iff.mp ((masked_eq_encode_iff rfl).mp word)
    apply decode_of_group selected
    simp only [decodeGroup?, decodeOpFloat?, h7, h₂, h3]
    rfl
  | fused op d a₁ a₂ a₃ rounding =>
    obtain ⟨rfl, single, rfl, rfl, h3, rfl, selected⟩ :=
      eq_r4_iff.mp ((masked_eq_encode_iff rfl).mp word)
    apply decode_of_group selected
    simp only [decodeGroup?, single, ne_eq, not_true_eq_false, if_false,
      Rounding.ofBits?_eq_some.mpr h3, Option.map_some]
  | amo op d a₁ a₂ =>
    obtain ⟨h5, rfl, rfl, h3, rfl, selected⟩ := atomic_iff.mp word
    apply decode_of_group selected
    have notReserve : op.funct5 ≠ 0b00010#5 := by cases op <;> decide
    have notConditional : op.funct5 ≠ 0b00011#5 := by cases op <;> decide
    simp only [decodeGroup?, decodeAmo?, h3, h5, ne_eq, not_true_eq_false, if_false,
      if_neg notReserve, if_neg notConditional, AmoOp.ofBits?_eq_some.mpr rfl, Option.map_some]
  | loadReserved d a =>
    obtain ⟨h5, h₂, rfl, h3, rfl, selected⟩ := atomic_iff.mp word
    apply decode_of_group selected
    simp only [decodeGroup?, decodeAmo?, h3, h5, h₂, ne_eq, not_true_eq_false, if_false, if_true]
  | storeConditional d a₁ a₂ =>
    obtain ⟨h5, rfl, rfl, h3, rfl, selected⟩ := atomic_iff.mp word
    apply decode_of_group selected
    simp only [decodeGroup?, decodeAmo?, h3, h5]
    rfl

/-! ## From the instruction that a word decodes to, to the word -/

section
variable {w : Word} {i : Instruction}

theorem encodes_of_eq (encodable : i.Encodable) (whole : i.ignored = 0) (word : w = i.encode) :
    Encodes w i :=
  ⟨encodable, (masked_eq_encode_iff whole).mpr word⟩

theorem encodes_of_decodeOpImm (selected : opcode w = Opcode.opImm.bits)
    (decoded : decodeOpImm? w = some i) : Encodes w i := by
  unfold decodeOpImm? at decoded
  split at decoded
  case h_1 op found =>
    cases decoded
    have h3 := ImmOp.ofBits?_eq_some.mp found
    exact encodes_of_eq (fun _ => nofun) rfl (eq_i_iff.mpr ⟨rfl, rfl, h3, rfl, selected⟩)
  case h_2 =>
    obtain ⟨op, found, rfl⟩ := Option.map_eq_some_iff.mp decoded
    obtain ⟨h7, h3⟩ := ShiftOp.ofBits?_eq_some.mp found
    exact encodes_of_eq (fun _ => nofun) rfl (eq_r_iff.mpr ⟨h7, rfl, rfl, h3, rfl, selected⟩)

theorem encodes_of_decodeOp (selected : opcode w = Opcode.op.bits)
    (decoded : decodeOp? w = some i) : Encodes w i := by
  obtain ⟨op, found, rfl⟩ := Option.map_eq_some_iff.mp decoded
  obtain ⟨h7, h3⟩ := RegOp.ofBits?_eq_some.mp found
  split
  case isTrue hint =>
    obtain ⟨rfl, hd, h₁⟩ := hint
    exact ⟨fun _ => nofun, breakHint_iff.mpr ⟨h7, h₁, h3, hd, selected⟩⟩
  case isFalse notHint =>
    refine encodes_of_eq ?_ rfl (eq_r_iff.mpr ⟨h7, rfl, rfl, h3, rfl, selected⟩)
    intro rs2 comparison
    obtain ⟨rfl, hd, h₁, -⟩ := (opReg.injEq ..).mp comparison
    exact notHint ⟨rfl, hd, h₁⟩

theorem encodes_of_decodeMiscMem (selected : opcode w = Opcode.miscMem.bits)
    (decoded : decodeMiscMem? w = some i) : Encodes w i := by
  unfold decodeMiscMem? at decoded
  split at decoded <;> cases decoded
  case h_1 h3 => exact ⟨fun _ => nofun, fence_iff.mpr ⟨h3, selected⟩⟩
  case h_2 h3 => exact ⟨fun _ => nofun, fence_iff.mpr ⟨h3, selected⟩⟩

theorem encodes_of_decodePrivileged (selected : opcode w = Opcode.system.bits)
    (h3 : funct3 w = 0b000#3) (decoded : decodePrivileged? w = some i) : Encodes w i := by
  unfold decodePrivileged? at decoded
  split at decoded
  · cases decoded
  next hd =>
  replace hd := Decidable.not_not.mp hd
  split at decoded
  next h7 =>
    cases decoded
    exact encodes_of_eq (fun _ => nofun) rfl (eq_r_iff.mpr ⟨h7, rfl, rfl, h3, hd, selected⟩)
  split at decoded
  · cases decoded
  next h₁ =>
  replace h₁ := Decidable.not_not.mp h₁
  -- One word each, told apart by what would be the control register.
  split at decoded <;> cases decoded
  all_goals
    next hc => exact encodes_of_eq (fun _ => nofun) rfl (eq_csr_iff.mpr ⟨hc, h₁, h3, hd, selected⟩)

theorem encodes_of_decodeSystem (selected : opcode w = Opcode.system.bits)
    (decoded : decodeSystem? w = some i) : Encodes w i := by
  unfold decodeSystem? at decoded
  split at decoded
  case isTrue h3 => exact encodes_of_decodePrivileged selected h3 decoded
  case isFalse =>
    obtain ⟨⟨op, operand⟩, found, rfl⟩ := Option.map_eq_some_iff.mp decoded
    obtain ⟨h3, h₁⟩ := CsrOp.ofBits?_eq_some.mp found
    exact encodes_of_eq (fun _ => nofun) rfl (eq_csr_iff.mpr ⟨rfl, h₁, h3, rfl, selected⟩)

theorem encodes_of_decodeAmo (selected : opcode w = Opcode.amo.bits)
    (decoded : decodeAmo? w = some i) : Encodes w i := by
  unfold decodeAmo? at decoded
  split at decoded
  · cases decoded
  next h3 =>
  replace h3 := Decidable.not_not.mp h3
  split at decoded
  case isTrue h5 =>
    split at decoded <;> cases decoded
    next h₂ => exact ⟨fun _ => nofun, atomic_iff.mpr ⟨h5, h₂, rfl, h3, rfl, selected⟩⟩
  split at decoded
  case isTrue h5 =>
    cases decoded
    exact ⟨fun _ => nofun, atomic_iff.mpr ⟨h5, rfl, rfl, h3, rfl, selected⟩⟩
  case isFalse =>
    obtain ⟨op, found, rfl⟩ := Option.map_eq_some_iff.mp decoded
    have h5 := AmoOp.ofBits?_eq_some.mp found
    exact ⟨fun _ => nofun, atomic_iff.mpr ⟨h5, rfl, rfl, h3, rfl, selected⟩⟩

theorem encodes_of_decodeOpFloat (selected : opcode w = Opcode.opFloat.bits)
    (decoded : decodeOpFloat? w = some i) : Encodes w i := by
  unfold decodeOpFloat? at decoded
  split at decoded
  -- Three operands and a rounding mode; the operation is in the code.
  case h_1 h7 | h_2 h7 | h_3 h7 | h_4 h7 =>
    obtain ⟨rounding, found, rfl⟩ := Option.map_eq_some_iff.mp decoded
    have h3 := Rounding.ofBits?_eq_some.mp found
    exact encodes_of_eq (fun _ => nofun) rfl (eq_r_iff.mpr ⟨h7, rfl, rfl, h3, rfl, selected⟩)
  case h_5 h7 =>
    split at decoded
    case isTrue h₂ =>
      obtain ⟨rounding, found, rfl⟩ := Option.map_eq_some_iff.mp decoded
      have h3 := Rounding.ofBits?_eq_some.mp found
      exact encodes_of_eq (fun _ => nofun) rfl (eq_r_iff.mpr ⟨h7, h₂, rfl, h3, rfl, selected⟩)
    case isFalse => cases decoded
  case h_6 h7 =>
    obtain ⟨op, found, rfl⟩ := Option.map_eq_some_iff.mp decoded
    have h3 := FloatCompare.ofBits?_eq_some.mp found
    exact encodes_of_eq (fun _ => nofun) rfl (eq_r_iff.mpr ⟨h7, rfl, rfl, h3, rfl, selected⟩)
  case h_7 h7 | h_8 h7 =>
    obtain ⟨sign, foundSign, decoded⟩ := Option.bind_eq_some_iff.mp decoded
    obtain ⟨rounding, found, rfl⟩ := Option.map_eq_some_iff.mp decoded
    have h₂ := Signedness.ofBits?_eq_some.mp foundSign
    have h3 := Rounding.ofBits?_eq_some.mp found
    exact encodes_of_eq (fun _ => nofun) rfl (eq_r_iff.mpr ⟨h7, h₂, rfl, h3, rfl, selected⟩)
  case h_9 h7 =>
    split at decoded
    · cases decoded
    next h₂ =>
    replace h₂ := Decidable.not_not.mp h₂
    split at decoded
    case isTrue h3 =>
      cases decoded
      exact encodes_of_eq (fun _ => nofun) rfl (eq_r_iff.mpr ⟨h7, h₂, rfl, h3, rfl, selected⟩)
    split at decoded <;> cases decoded
    next h3 =>
      exact encodes_of_eq (fun _ => nofun) rfl (eq_r_iff.mpr ⟨h7, h₂, rfl, h3, rfl, selected⟩)
  case h_10 h7 =>
    split at decoded <;> cases decoded
    next operands =>
      obtain ⟨h₂, h3⟩ := operands
      exact encodes_of_eq (fun _ => nofun) rfl (eq_r_iff.mpr ⟨h7, h₂, rfl, h3, rfl, selected⟩)
  case h_11 =>
    obtain ⟨op, found, rfl⟩ := Option.map_eq_some_iff.mp decoded
    obtain ⟨h7, h3⟩ := FloatPick.ofBits?_eq_some.mp found
    exact encodes_of_eq (fun _ => nofun) rfl (eq_r_iff.mpr ⟨h7, rfl, rfl, h3, rfl, selected⟩)

theorem encodes_of_decodeGroup {group : Opcode} (selected : opcode w = group.bits)
    (decoded : decodeGroup? group w = some i) : Encodes w i := by
  cases group with
  | opImm => exact encodes_of_decodeOpImm selected decoded
  | auipc =>
    cases decoded
    exact encodes_of_eq (fun _ => nofun) rfl (eq_u_iff.mpr ⟨rfl, rfl, selected⟩)
  | lui =>
    cases decoded
    exact encodes_of_eq (fun _ => nofun) rfl (eq_u_iff.mpr ⟨rfl, rfl, selected⟩)
  | op => exact encodes_of_decodeOp selected decoded
  | jal =>
    cases decoded
    exact encodes_of_eq (fun _ => nofun) rfl (eq_j_iff.mpr ⟨rfl, rfl, selected⟩)
  | jalr =>
    obtain ⟨h3, decoded⟩ := Option.ite_none_right_eq_some.mp decoded
    cases decoded
    exact encodes_of_eq (fun _ => nofun) rfl (eq_i_iff.mpr ⟨rfl, rfl, h3, rfl, selected⟩)
  | branch =>
    obtain ⟨c, found, rfl⟩ := Option.map_eq_some_iff.mp decoded
    have h3 := Condition.ofBits?_eq_some.mp found
    exact encodes_of_eq (fun _ => nofun) rfl (eq_b_iff.mpr ⟨rfl, rfl, rfl, h3, selected⟩)
  | load =>
    obtain ⟨op, found, rfl⟩ := Option.map_eq_some_iff.mp decoded
    have h3 := LoadOp.ofBits?_eq_some.mp found
    exact encodes_of_eq (fun _ => nofun) rfl (eq_i_iff.mpr ⟨rfl, rfl, h3, rfl, selected⟩)
  | store =>
    obtain ⟨op, found, rfl⟩ := Option.map_eq_some_iff.mp decoded
    have h3 := StoreOp.ofBits?_eq_some.mp found
    exact encodes_of_eq (fun _ => nofun) rfl (eq_s_iff.mpr ⟨rfl, rfl, rfl, h3, selected⟩)
  | miscMem => exact encodes_of_decodeMiscMem selected decoded
  | system => exact encodes_of_decodeSystem selected decoded
  | loadFloat =>
    obtain ⟨width, found, rfl⟩ := Option.map_eq_some_iff.mp decoded
    have h3 := FloatWidth.ofBits?_eq_some.mp found
    exact encodes_of_eq (fun _ => nofun) rfl (eq_i_iff.mpr ⟨rfl, rfl, h3, rfl, selected⟩)
  | storeFloat =>
    obtain ⟨width, found, rfl⟩ := Option.map_eq_some_iff.mp decoded
    have h3 := FloatWidth.ofBits?_eq_some.mp found
    exact encodes_of_eq (fun _ => nofun) rfl (eq_s_iff.mpr ⟨rfl, rfl, rfl, h3, selected⟩)
  | opFloat => exact encodes_of_decodeOpFloat selected decoded
  | fused op =>
    obtain ⟨single, decoded⟩ := Option.ite_none_left_eq_some.mp decoded
    obtain ⟨rounding, found, rfl⟩ := Option.map_eq_some_iff.mp decoded
    have h3 := Rounding.ofBits?_eq_some.mp found
    exact encodes_of_eq (fun _ => nofun) rfl
      (eq_r4_iff.mpr ⟨rfl, Decidable.not_not.mp single, rfl, rfl, h3, rfl, selected⟩)
  | amo => exact encodes_of_decodeAmo selected decoded

theorem encodes_of_decode (decoded : decode w = .ok i) : Encodes w i := by
  unfold decode at decoded
  split at decoded
  case h_1 => cases decoded
  case h_2 group selected =>
    cases found : decodeGroup? group w with
    | none => simp only [found, Option.elim_none, reduceCtorEq] at decoded
    | some j =>
      rw [found] at decoded
      cases decoded
      exact encodes_of_decodeGroup (Opcode.ofBits?_eq_some.mp selected) found

/-- A word decodes to an instruction if and only if it is a word of the instruction. -/
theorem decode_eq_ok_iff : decode w = .ok i ↔ Encodes w i :=
  ⟨encodes_of_decode, decode_of_encodes⟩

/-! ## Words of one instruction -/

/-- The word of an instruction has none of the bits that are ignored. -/
theorem masked_encode (i : Instruction) : i.encode &&& ~~~i.ignored = i.encode := by
  cases i
  case fence =>
    obtain ⟨-, -, -, h3, -, ho⟩ := eq_r_iff.mp (rfl : fence.encode = _)
    exact fence_iff.mpr ⟨h3, ho⟩
  case fenceI =>
    obtain ⟨-, -, -, h3, -, ho⟩ := eq_r_iff.mp (rfl : fenceI.encode = _)
    exact fence_iff.mpr ⟨h3, ho⟩
  case breakHint =>
    obtain ⟨h7, -, h₁, h3, hd, ho⟩ := eq_r_iff.mp (rfl : breakHint.encode = _)
    exact breakHint_iff.mpr ⟨h7, h₁, h3, hd, ho⟩
  case amo op d a₁ a₂ =>
    obtain ⟨h5, -, h₂, h₁, h3, hd, ho⟩ := eq_amo_iff.mp (rfl : (amo op d a₁ a₂).encode = _)
    exact atomic_iff.mpr ⟨h5, h₂, h₁, h3, hd, ho⟩
  case loadReserved d a₁ =>
    obtain ⟨h5, -, h₂, h₁, h3, hd, ho⟩ := eq_amo_iff.mp (rfl : (loadReserved d a₁).encode = _)
    exact atomic_iff.mpr ⟨h5, h₂, h₁, h3, hd, ho⟩
  case storeConditional d a₁ a₂ =>
    obtain ⟨h5, -, h₂, h₁, h3, hd, ho⟩ :=
      eq_amo_iff.mp (rfl : (storeConditional d a₁ a₂).encode = _)
    exact atomic_iff.mpr ⟨h5, h₂, h₁, h3, hd, ho⟩
  all_goals exact (masked_eq_encode_iff rfl).mpr rfl

/-- Two words agree in all that counts for an instruction.  Mostly that is every bit; of a
fence it is the opcode and `funct3`, of the breakpoint idiom every field but the second
register, and of an atomic operation every field but the ordering. -/
def Instruction.Agree (i : Instruction) (v w : Word) : Prop :=
  match i with
  | .fence | .fenceI => funct3 w = funct3 v ∧ opcode w = opcode v
  | .breakHint =>
    funct7 w = funct7 v ∧ rs1 w = rs1 v ∧ funct3 w = funct3 v ∧ rd w = rd v ∧ opcode w = opcode v
  | .amo .. | .loadReserved .. | .storeConditional .. =>
    funct5 w = funct5 v ∧ rs2 w = rs2 v ∧ rs1 w = rs1 v ∧ funct3 w = funct3 v ∧ rd w = rd v ∧
      opcode w = opcode v
  | _ => w = v

theorem encodes_iff_agree {v : Word} (encoded : Encodes v i) : Encodes w i ↔ i.Agree v w := by
  obtain ⟨encodable, hv⟩ := encoded
  have word : Encodes w i ↔ w &&& ~~~i.ignored = i.encode := and_iff_right encodable
  rw [word]
  cases i
  case fence | fenceI =>
    obtain ⟨h3, ho⟩ := fence_iff.mp hv
    unfold Instruction.Agree
    rw [h3, ho]
    exact fence_iff
  case breakHint =>
    obtain ⟨h7, h₁, h3, hd, ho⟩ := breakHint_iff.mp hv
    unfold Instruction.Agree
    rw [h7, h₁, h3, hd, ho]
    exact breakHint_iff
  case amo | loadReserved | storeConditional =>
    obtain ⟨h5, h₂, h₁, h3, hd, ho⟩ := atomic_iff.mp hv
    unfold Instruction.Agree
    rw [h5, h₂, h₁, h3, hd, ho]
    exact atomic_iff
  all_goals
    unfold Instruction.Agree
    rw [(masked_eq_encode_iff rfl).mp hv]
    exact masked_eq_encode_iff rfl

/-- Decoding inverts assembling.  The word of an instruction decodes to the instruction;
another word decodes to the same one if and only if the two agree in all that counts for it;
and a word is rejected if and only if it is no word of any instruction.  Immediates and offsets
are all the numbers that a layout has room for. -/
theorem decode_inverts_encode :
    (∀ i : Instruction, i.Encodable → decode i.encode = .ok i) ∧
      (∀ (i : Instruction) (v w : Word), decode v = .ok i → (decode w = .ok i ↔ i.Agree v w)) ∧
      (∀ w : Word, (∃ e, decode w = .error e) ↔
        ∀ i : Instruction, i.Encodable → w &&& ~~~i.ignored ≠ i.encode) ∧
      ∀ x : Word,
        ((∃ imm, immediate imm = x) ↔ -2048 ≤ x.toInt ∧ x.toInt < 2048) ∧
        ((∃ offset, branchOffset offset = x) ↔
          -4096 ≤ x.toInt ∧ x.toInt < 4096 ∧ 2 ∣ x.toInt) ∧
        ((∃ offset, jumpOffset offset = x) ↔
          -1048576 ≤ x.toInt ∧ x.toInt < 1048576 ∧ 2 ∣ x.toInt) ∧
        ((∃ imm, upper imm = x) ↔ x.extractLsb' 0 12 = 0) := by
  refine ⟨?own, ?same, ?rejected, fun x => ⟨exists_immediate_iff, exists_branchOffset_iff,
    exists_jumpOffset_iff, exists_upper_iff⟩⟩
  case own =>
    intro i encodable
    exact decode_of_encodes ⟨encodable, masked_encode i⟩
  case same =>
    intro i v w decoded
    rw [decode_eq_ok_iff]
    exact encodes_iff_agree (encodes_of_decode decoded)
  case rejected =>
    intro w
    constructor
    · rintro ⟨e, failed⟩ i encodable word
      have decoded := decode_of_encodes ⟨encodable, word⟩
      rw [failed] at decoded
      cases decoded
    · intro none
      cases decoded : decode w with
      | error e => exact ⟨e, rfl⟩
      | ok i =>
        obtain ⟨encodable, word⟩ := encodes_of_decode decoded
        exact absurd word (none i encodable)

/-- A store: its offset is in two pieces, and all of its bits count. -/
theorem decode_inverts_encode_store :
    (store .word 5 2 (-4)).Encodable ∧ (store .word 5 2 (-4)).encode = 0xFE512E23#32 ∧
      decode 0xFE512E23#32 = .ok (store .word 5 2 (-4)) ∧
      decode 0xFC512E23#32 ≠ .ok (store .word 5 2 (-4)) := by
  obtain ⟨own, same, -⟩ := decode_inverts_encode
  have encodable : (store .word 5 2 (-4)).Encodable := fun _ => nofun
  have decoded : decode 0xFE512E23#32 = .ok (store .word 5 2 (-4)) := own _ encodable
  refine ⟨encodable, rfl, decoded, ?_⟩
  intro again
  have agree : 0xFC512E23#32 = 0xFE512E23#32 := (same _ _ _ decoded).mp again
  exact absurd agree (by decide)

end
end Rv32

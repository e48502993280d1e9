/-
# `Rv32.Proofs.Mmu.Recorded` — what harts and the host did to memory

Harts reserve, load and store in any order, each in a context of its own, and the host
writes in between.  What happened is kept beside the memory management unit (`Recorded`),
without influence on it: after each access, as its outcome tells (`Mmu.Operation.deeds`).

That nothing is left out follows from what accesses are made of.  Which deeds work consists of
is read off its parts, as the moments of a translation are: a write that found its device, a
reservation made, a reservation asked for (`Parts.deeds`).  So no access can reach memory
without leaving its trace, and for every access that trace is what is recorded
(`Parts.deeds_operation`).  Therefore the past tells the reservations (`Told.run`).
-/
import Rv32.Proofs.Csr.Status
import Rv32.Proofs.Memory.History
import Rv32.Proofs.Mmu.Isolation
import Rv32.Proofs.Mmu.Parts

namespace Rv32

open Attempt Memory

/-! ## What is recorded -/

namespace Mmu.Operation

/-- What an access has done to memory, the latest deed first, on top of the past.

A store is a write if it succeeded; byte by byte it is one for each byte that was written, and if
it fails at one of them, those before it were written all the same.  A load that reserves is a
reservation, of memory as it is then.  A conditional store is a claim once its address is
translated, and a write too if it succeeded. -/
def deeds (c : AccessContext) (mmu : Mmu) (past : List Deed) : Operation → List Deed
  | .read .. | .fetchParcel _ => past
  | .write w address value =>
    match inOnePiece c w address with
    | .error _ => past
    | .ok true =>
      match (translate c address .write mmu).1, (Mmu.write c w address value mmu).1 with
      | .ok physical, .ok () => .wrote w physical :: past
      | _, _ => past
    | .ok false =>
      match translateBytes c address w.bytes mmu with
      | (.ok physical, translated) =>
        (((physical.zip (w.split value)).takeWhile fun b => translated.memory.mapped b.1).map
          (.wrote .byte ·.1)).reverse ++ past
      | (.error _, _) => past
  | .loadReserved address =>
    match (atomicAddress c address .read mmu).1, Mmu.loadReserved c address mmu with
    | .ok physical, (.ok _, after) => .reserved c.hart physical after.memory :: past
    | _, _ => past
  | .storeConditional address value =>
    match (atomicAddress c address .write mmu).1, (Mmu.storeConditional c address value mmu).1 with
    | .ok physical, .ok true => .wrote .word physical :: .claimed c.hart :: past
    | .ok _, _ => .claimed c.hart :: past
    | .error _, _ => past
  | .update address f =>
    match (atomicAddress c address .write mmu).1, (Mmu.update c address f mmu).1 with
    | .ok physical, .ok _ => .wrote .word physical :: past
    | _, _ => past

end Mmu.Operation

/-! ## Harts and the host at work -/

/-- What happens to memory: a hart asks for something, or the host writes. -/
inductive MemoryAction where
  | hart (c : AccessContext) (operation : Mmu.Operation)
  | host (w : Width) (address : Word) (value : BitVec w.bits)

namespace MemoryAction

def perform (mmu : Mmu) : MemoryAction → Mmu
  | .hart c operation => (Mmu.perform c operation mmu).2
  | .host w address value => { mmu with memory := (mmu.memory.write w address value).2 }

/-- What an action has done, on top of the past. -/
def deeds (mmu : Mmu) (past : List Deed) : MemoryAction → List Deed
  | .hart c operation => operation.deeds c mmu past
  | .host w address _ => if mmu.memory.mapped address then .wrote w address :: past else past

end MemoryAction

/-- A memory management unit, and what happened to its memory. -/
structure Recorded where
  mmu : Mmu
  /-- The latest deed first. -/
  past : List Deed

namespace Recorded

/-- Nothing happened so far. -/
def start (mmu : Mmu) : Recorded := ⟨mmu, []⟩

def act (r : Recorded) (a : MemoryAction) : Recorded := ⟨a.perform r.mmu, a.deeds r.mmu r.past⟩

def run (r : Recorded) (actions : List MemoryAction) : Recorded := actions.foldl act r

/-- Keeping a record does not change what happens. -/
theorem run_mmu (r : Recorded) (actions : List MemoryAction) :
    (r.run actions).mmu = actions.foldl MemoryAction.perform r.mmu := by
  induction actions generalizing r with
  | nil => rfl
  | cons a rest ih => exact ih (r.act a)

end Recorded

/-! ## The deeds of work -/

namespace Parts

variable {h : Hart}

/-- What work has done to memory. -/
def deeds {ε α : Type} {work : Attempt ε Mmu α} :
    Parts h work → Mmu → List Deed → List Deed
  | .write w address _, mmu, past =>
    if mmu.memory.mapped address then .wrote w address :: past else past
  | .reserve address, mmu, past =>
    .reserved h.config.id address (mmu.memory.reserve h.config.id address) :: past
  | .release _, _, past => .claimed h.config.id :: past
  | .choice b yes no, mmu, past => if b = true then yes.deeds mmu past else no.deeds mmu past
  | @bind _ _ _ _ first _ parts rest, mmu, past =>
    match first mmu with
    | (.ok a, mmu') => (rest a).deeds mmu' (parts.deeds mmu past)
    | (.error _, _) => parts.deeds mmu past
  | .adapt _ parts, mmu, past => parts.deeds mmu past
  | .done .., _, past | .look, _, past | .translate .., _, past | .read .., _, past
  | .forget, _, past => past

/-- Work of any hart is told by its deeds. -/
theorem chronicle {ε α : Type} {work : Attempt ε Mmu α} (parts : Parts h work) :
    ∀ mmu past, Chronicle past mmu.memory →
      Chronicle (parts.deeds mmu past) (work mmu).2.memory := by
  induction parts with
  | done result => exact fun _ _ hc => hc
  | look => exact fun _ _ hc => hc
  | translate privilege address access =>
      intro mmu past hc
      exact hc.undisturbed
        (Yields.state.mp (Mmu.translate_undisturbed (.refl mmu.memory) _ address access))
  | read w address => exact fun mmu _ hc => hc.undisturbed (.read mmu.memory w address)
  | write w address value =>
      intro mmu past hc
      rw [deeds, Mmu.physically_run]
      cases hm : mmu.memory.mapped address with
      | true => exact hc.wrote value hm
      | false =>
          rw [write_unmapped hm]
          exact hc
  | reserve address => exact fun _ _ hc => hc.reserved h.config.id address
  | release address => exact fun _ _ hc => hc.claimed h.config.id address
  | forget => exact fun _ _ hc => hc
  | choice b yes no ihYes ihNo =>
      intro mmu past hc
      cases b with
      | true => exact ihYes mmu past hc
      | false => exact ihNo mmu past hc
  | @bind _ _ _ first rest parts _ ihFirst ihRest =>
      intro mmu past hc
      have hmid := ihFirst mmu past hc
      rw [Attempt.bind_run, deeds]
      rcases hf : first mmu with ⟨e | a, mmu'⟩
      · rw [hf] at hmid
        exact hmid
      · rw [hf] at hmid
        exact ihRest a mmu' _ hmid
  | adapt f _ ih => exact ih

/-- What a hart asks of memory, in one of its contexts. -/
def operation (privilege : Privilege) :
    (o : Mmu.Operation) → Parts h (Mmu.perform (h.context privilege) o)
  | .read w address => .bind (load privilege address w) fun _ => .done (.ok _)
  | .write w address value => .bind (store privilege address w value) fun _ => .done (.ok _)
  | .fetchParcel address => .bind (fetchParcel privilege address) fun _ => .done (.ok _)
  | .loadReserved address => .bind (loadReserved privilege address) fun _ => .done (.ok _)
  | .storeConditional address value =>
    .bind (storeConditional privilege address value) fun _ => .done (.ok _)
  | .update address f => .bind (update privilege address f) fun _ => .done (.ok _)

/-! ### The deeds of accesses -/

section
variable {ε α β : Type} {first : Attempt ε Mmu α} {rest : α → Attempt ε Mmu β} {mmu mmu' : Mmu}
  {past : List Deed}

/-- What goes on without a deed adds none. -/
theorem deeds_bind_quiet (parts : Parts h first) {next : ∀ a, Parts h (rest a)}
    (quiet : ∀ a mmu past, (next a).deeds mmu past = past) :
    (bind parts next).deeds mmu past = parts.deeds mmu past := by
  rw [deeds]
  split
  · exact quiet _ _ _
  · rfl

theorem deeds_bind_ok (parts : Parts h first) (next : ∀ a, Parts h (rest a)) {a : α}
    (run : first mmu = (.ok a, mmu')) :
    (bind parts next).deeds mmu past = (next a).deeds mmu' (parts.deeds mmu past) := by
  rw [deeds, run]

theorem deeds_bind_error (parts : Parts h first) (next : ∀ a, Parts h (rest a)) {e : ε}
    (run : first mmu = (.error e, mmu')) :
    (bind parts next).deeds mmu past = parts.deeds mmu past := by
  rw [deeds, run]

/-- What is done after something that is no deed. -/
theorem deeds_after_quiet (parts : Parts h first) (next : ∀ a, Parts h (rest a))
    (quiet : parts.deeds mmu past = past) :
    (bind parts next).deeds mmu past =
      match first mmu with
      | (.ok a, mmu') => (next a).deeds mmu' past
      | (.error _, _) => past := by
  rw [deeds, quiet]

theorem deeds_atomicAddress (privilege : Privilege) (address : Word) (access : Access) :
    (atomicAddress (h := h) privilege address access).deeds mmu past = past := by
  simp only [atomicAddress, deeds]
  split <;> rfl

theorem deeds_translateBytes (privilege : Privilege) (n : Nat) (address : Word) (mmu : Mmu)
    (past : List Deed) :
    (translateBytes (h := h) privilege n address).deeds mmu past = past := by
  induction n generalizing address mmu past with
  | zero => rfl
  | succ n ih =>
      refine deeds_bind_quiet (.translate privilege address .write) fun physical mmu past => ?_
      exact (deeds_bind_quiet _ fun _ _ _ => rfl).trans (ih (address + 1) mmu past)

theorem deeds_readBytes (privilege : Privilege) (n : Nat) (address : Word) (mmu : Mmu)
    (past : List Deed) :
    (readBytes (h := h) privilege n address).deeds mmu past = past := by
  induction n generalizing address mmu past with
  | zero => rfl
  | succ n ih =>
      refine deeds_bind_quiet (.translate privilege address .read) fun physical mmu past => ?_
      refine deeds_bind_quiet (.read .byte physical) fun byte mmu past => ?_
      exact (deeds_bind_quiet _ fun _ _ _ => rfl).trans (ih (address + 1) mmu past)

/-- Bytes are recorded as far as they were written, the last one first. -/
theorem deeds_writeBytes (bytes : List (Word × Byte)) (mmu : Mmu) (past : List Deed) :
    (writeBytes (h := h) bytes).deeds mmu past =
      ((bytes.takeWhile fun b => mmu.memory.mapped b.1).map (.wrote .byte ·.1)).reverse ++
        past := by
  induction bytes generalizing mmu past with
  | nil => rfl
  | cons b rest ih =>
      have hrun := Mmu.physicalWrite_run .byte b.1 b.2 mmu
      by_cases hb : mmu.memory.mapped b.1 = true
      · rw [if_pos hb] at hrun
        refine (deeds_bind_ok (.write .byte b.1 b.2) _ hrun).trans ?_
        rw [ih, List.takeWhile_cons, if_pos hb, deeds, if_pos hb]
        simp only [mapped_congr (map_write _ _ _ _), List.map_cons, List.reverse_cons,
          List.append_assoc, List.singleton_append]
      · rw [if_neg hb] at hrun
        refine (deeds_bind_error (.write .byte b.1 b.2) _ hrun).trans ?_
        rw [List.takeWhile_cons, if_neg hb, deeds, if_neg hb]
        rfl

end
end Parts

/-- A conditional store whose address has been translated: the reservation is given up in any
case, and the word is written if it was held. -/
theorem Mmu.storeConditional_run {c : AccessContext} {address value physical : Word}
    {mmu translated : Mmu}
    (translation : atomicAddress c address .write mmu = (.ok physical, translated)) :
    storeConditional c address value mmu =
      let m := (translated.memory.takeReservation c.hart physical).2
      if (translated.memory.takeReservation c.hart physical).1 = true then
        (if m.mapped physical then .ok true else .error .access,
          ⟨(m.write .word physical value).2, translated.cache⟩)
      else (.ok false, ⟨m, translated.cache⟩) := by
  unfold storeConditional
  rw [Attempt.bind_run, translation]
  simp only
  rw [Attempt.bind_run, physically_run]
  simp only [Except.mapError]
  cases (translated.memory.takeReservation c.hart physical).1 with
  | false => rfl
  | true =>
      simp only [if_true]
      rw [Attempt.bind_run, physicalWrite_run]
      by_cases hm : (translated.memory.takeReservation c.hart physical).2.mapped physical = true
      · simp only [hm, if_true]
        rfl
      · simp only [hm]
        rfl

namespace Parts

variable {h : Hart}

section
variable (privilege : Privilege) (address : Word) (mmu : Mmu) (past : List Deed)

theorem deeds_load (w : Width) :
    (load (h := h) privilege address w).deeds mmu past = past := by
  refine deeds_bind_quiet (.done (Mmu.inOnePiece _ w address)) fun one mmu past => ?_
  cases one with
  | true => exact deeds_bind_quiet (.translate privilege address .read) fun _ _ _ => rfl
  | false =>
      exact (deeds_bind_quiet _ fun _ _ _ => rfl).trans (deeds_readBytes privilege _ address _ _)

theorem deeds_fetchParcel : (fetchParcel (h := h) privilege address).deeds mmu past = past := by
  simp only [fetchParcel, deeds]
  split
  · rfl
  · split <;> rfl

/-- A store in one piece is a write if it succeeds. -/
theorem deeds_store_whole {w : Width} (value : BitVec w.bits)
    (one : Mmu.inOnePiece (h.context privilege) w address = .ok true) :
    (store (h := h) privilege address w value).deeds mmu past =
      (Mmu.Operation.write w address value).deeds (h.context privilege) mmu past := by
  have hdeeds : (store (h := h) privilege address w value).deeds mmu past =
      (bind (.translate privilege address .write) fun physical =>
        .write w physical value : Parts h _).deeds mmu past :=
    deeds_bind_ok (.done (Mmu.inOnePiece _ w address)) _ (congrArg (·, mmu) one)
  have hrun : Mmu.write (h.context privilege) w address value mmu =
      (Mmu.translate (h.context privilege) address .write >>= fun physical =>
        Mmu.physically (·.write w physical value)) mmu := by
    unfold Mmu.write
    rw [Attempt.bind_run, one]
    rfl
  rw [hdeeds, deeds_after_quiet _ _ rfl]
  simp only [Mmu.Operation.deeds, one]
  rw [hrun, Attempt.bind_run]
  rcases Mmu.translate (h.context privilege) address .write mmu with ⟨fault | physical, mmu₁⟩
  · rfl
  · simp only [Mmu.physicalWrite_run, deeds]
    by_cases hm : mmu₁.memory.mapped physical = true
    · simp only [hm, if_true]
    · simp only [hm, Bool.false_eq_true, if_false]

/-- A store byte by byte is a write of each byte, as far as they are written. -/
theorem deeds_store_bytes {w : Width} (value : BitVec w.bits)
    (pieces : Mmu.inOnePiece (h.context privilege) w address = .ok false) :
    (store (h := h) privilege address w value).deeds mmu past =
      (Mmu.Operation.write w address value).deeds (h.context privilege) mmu past := by
  have hdeeds : (store (h := h) privilege address w value).deeds mmu past =
      (bind (translateBytes privilege w.bytes address) fun physical =>
        writeBytes (physical.zip (w.split value)) : Parts h _).deeds mmu past :=
    deeds_bind_ok (.done (Mmu.inOnePiece _ w address)) _ (congrArg (·, mmu) pieces)
  rw [hdeeds, deeds_after_quiet _ _ (deeds_translateBytes ..)]
  simp only [Mmu.Operation.deeds, pieces]
  rcases Mmu.translateBytes (h.context privilege) address w.bytes mmu with
    ⟨fault | physical, mmu₁⟩
  · rfl
  · exact deeds_writeBytes _ mmu₁ past

theorem deeds_store {w : Width} (value : BitVec w.bits) :
    (store (h := h) privilege address w value).deeds mmu past =
      (Mmu.Operation.write w address value).deeds (h.context privilege) mmu past := by
  cases one : Mmu.inOnePiece (h.context privilege) w address with
  | error fault =>
      simp only [Mmu.Operation.deeds, one]
      exact deeds_bind_error (.done (Mmu.inOnePiece _ w address)) _ (congrArg (·, mmu) one)
  | ok whole =>
      cases whole with
      | true => exact deeds_store_whole privilege address mmu past value one
      | false => exact deeds_store_bytes privilege address mmu past value one

/-- A load that reserves is a reservation if it succeeds. -/
theorem deeds_loadReserved :
    (loadReserved (h := h) privilege address).deeds mmu past =
      (Mmu.Operation.loadReserved address).deeds (h.context privilege) mmu past := by
  simp only [Mmu.Operation.deeds]
  unfold Mmu.loadReserved loadReserved
  rw [Attempt.bind_run]
  rcases htranslate : Mmu.atomicAddress (h.context privilege) address .read mmu with
    ⟨fault | physical, mmu₁⟩
  · exact (deeds_bind_error _ _ htranslate).trans (deeds_atomicAddress ..)
  · simp only [deeds_bind_ok _ _ htranslate, deeds_atomicAddress]
    rw [Attempt.bind_run]
    rcases hread : Mmu.physically (·.read .word physical) mmu₁ with ⟨fault | old, mmu₂⟩
    · exact deeds_bind_error _ _ hread
    · exact deeds_bind_ok _ _ hread

/-- A conditional store is a claim once its address is translated, and a write too if it
succeeds. -/
theorem deeds_storeConditional (value : Word) :
    (storeConditional (h := h) privilege address value).deeds mmu past =
      (Mmu.Operation.storeConditional address value).deeds (h.context privilege) mmu past := by
  simp only [Mmu.Operation.deeds]
  rcases htranslate : Mmu.atomicAddress (h.context privilege) address .write mmu with
    ⟨fault | physical, mmu₁⟩
  · exact (deeds_bind_error _ _ htranslate).trans (deeds_atomicAddress ..)
  · refine (deeds_bind_ok _ _ htranslate).trans ?_
    rw [deeds_atomicAddress, Mmu.storeConditional_run htranslate]
    have hrelease : (Mmu.physically fun m =>
        (.ok (m.takeReservation h.config.id physical).1,
          (m.takeReservation h.config.id physical).2) : Attempt Fault Mmu Bool) mmu₁ =
        (.ok (mmu₁.memory.takeReservation h.config.id physical).1,
          ⟨(mmu₁.memory.takeReservation h.config.id physical).2, mmu₁.cache⟩) := rfl
    refine (deeds_bind_ok _ _ hrelease).trans ?_
    have hid : (h.context privilege).hart = h.config.id := rfl
    rw [hid]
    cases (mmu₁.memory.takeReservation h.config.id physical).1 with
    | false => rfl
    | true =>
        refine Eq.trans (deeds_bind_quiet _ fun _ _ _ => rfl) ?_
        by_cases hm : (mmu₁.memory.takeReservation h.config.id physical).2.mapped physical = true
        · simp only [hm, if_true]
          exact if_pos hm
        · simp only [hm, if_true]
          exact if_neg hm

/-- A read-modify-write is a write if it succeeds. -/
theorem deeds_update (f : Word → Word) :
    (update (h := h) privilege address f).deeds mmu past =
      (Mmu.Operation.update address f).deeds (h.context privilege) mmu past := by
  simp only [Mmu.Operation.deeds]
  unfold Mmu.update update
  rw [Attempt.bind_run]
  rcases htranslate : Mmu.atomicAddress (h.context privilege) address .write mmu with
    ⟨fault | physical, mmu₁⟩
  · exact (deeds_bind_error _ _ htranslate).trans (deeds_atomicAddress ..)
  · simp only [deeds_bind_ok _ _ htranslate, deeds_atomicAddress]
    rw [Attempt.bind_run]
    rcases hread : Mmu.physically (·.read .word physical) mmu₁ with ⟨fault | old, mmu₂⟩
    · exact deeds_bind_error _ _ hread
    · simp only [deeds_bind_ok _ _ hread]
      rw [Attempt.bind_run, Mmu.physicalWrite_run]
      refine (deeds_bind_quiet _ fun _ _ _ => rfl).trans ?_
      by_cases hm : mmu₂.memory.mapped physical = true
      · simp only [hm, if_true]
        exact if_pos hm
      · simp only [hm]
        exact if_neg hm

/-- What is recorded of an access is what its parts do. -/
theorem deeds_operation (o : Mmu.Operation) :
    (operation (h := h) privilege o).deeds mmu past =
      o.deeds (h.context privilege) mmu past := by
  cases o
  -- what is answered in the end is no deed
  all_goals refine (deeds_bind_quiet _ fun _ _ _ => rfl).trans ?_
  case read w address => exact deeds_load privilege address mmu past w
  case write w address value => exact deeds_store privilege address mmu past value
  case fetchParcel address => exact deeds_fetchParcel privilege address mmu past
  case loadReserved address => exact deeds_loadReserved privilege address mmu past
  case storeConditional address value =>
    exact deeds_storeConditional privilege address mmu past value
  case update address f => exact deeds_update privilege address mmu past f

end

end Parts

/-! ## Every context is a hart's -/

/-- A hart that makes its accesses in a given context. -/
def Hart.ofContext (c : AccessContext) : Hart :=
  let status := ((Status.mk 0).setBit Status.sumPosition c.sum).setBit Status.mxrPosition c.mxr
  { Hart.init ⟨c.hart, 0, false, c.misaligned⟩ with
    csrs := (CsrFile.init.set Csr.satp c.satp).setStatus status }

theorem Hart.ofContext_context (c : AccessContext) :
    (Hart.ofContext c).context c.privilege = c := by
  have hsatp : (Hart.ofContext c).csrs.get Csr.satp = c.satp := by
    simp only [Hart.ofContext]
    rw [CsrFile.get_setStatus_ne (by decide), CsrFile.get_set_self]
  have hsum : (Hart.ofContext c).csrs.status.sum = c.sum := by
    simp only [Hart.ofContext, CsrFile.status_setStatus, Status.sum]
    rw [Status.bit_setBit_ne (by decide) (by decide), Status.bit_setBit_self (by decide)]
  have hmxr : (Hart.ofContext c).csrs.status.mxr = c.mxr := by
    simp only [Hart.ofContext, CsrFile.status_setStatus, Status.mxr]
    rw [Status.bit_setBit_self (by decide)]
  simp only [Hart.context, hsatp, hsum, hmxr]
  rfl

/-! ## The past -/

namespace Recorded

/-- The past tells the reservations. -/
def Told (r : Recorded) : Prop := Chronicle r.past r.mmu.memory

variable {r : Recorded}

theorem Told.act (t : r.Told) (a : MemoryAction) : (r.act a).Told := by
  cases a with
  | hart c operation =>
      have done := (Parts.operation (h := Hart.ofContext c) c.privilege operation).chronicle
        r.mmu r.past t
      rwa [Parts.deeds_operation, Hart.ofContext_context] at done
  | host w address value =>
      simp only [Recorded.act, MemoryAction.perform, MemoryAction.deeds, Told]
      cases hm : r.mmu.memory.mapped address with
      | true => exact t.wrote value hm
      | false =>
          rw [write_unmapped hm]
          exact t

theorem Told.run (t : r.Told) (actions : List MemoryAction) : (r.run actions).Told := by
  induction actions generalizing r with
  | nil => exact t
  | cons a rest ih => exact ih (t.act a)

end Recorded
end Rv32

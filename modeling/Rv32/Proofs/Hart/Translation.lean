/-
# `Rv32.Proofs.Hart.Translation` — a step keeps the remembered pages right

Which page a walk finds depends on the root of the page table and on two bits of the
status register.  An instruction that changes one of them drops what is remembered for
its hart; going to a handler and coming back change neither; and nothing else does.
So what is remembered for a hart is right for the hart as it is after the step, and not
only for the hart that took it.
-/
import Rv32.Proofs.Hart.Outcome
import Rv32.Proofs.Hart.Parts
import Rv32.Proofs.Hart.Trap
import Rv32.Proofs.Mmu.Cache

namespace Rv32.Hart

/-- The memories in which a hart began to translate since it last dropped what is
remembered for it, after a step. -/
def momentsOfStep (h : Hart) (mmu : Mmu) (past : List Memory) : List Memory :=
  (Parts.attempt (h := h.count)).moments mmu past

/-! ## Nothing else about the hart matters -/

theorem Outcome.config {h h' : Hart} {mmu : Mmu} (o : Outcome h mmu h') :
    h'.config = h.config := by
  cases o with
  | computed registers => rfl
  | wrote c value registers _ _ => exact (writeCsr_frame h c value).1
  | returned level _ => rfl

theorem step_config (h : Hart) (mmu : Mmu) : (h.step mmu).2.1.config = h.config := by
  cases hr : (h.step mmu).1 with
  | trapped t => rw [(step_trapped hr).2]; rfl
  | completed => exact (step_outcome fun t ht => nomatch hr.symm.trans ht).config
  | stopped => exact (step_outcome fun t ht => nomatch hr.symm.trans ht).config

/-- Reporting a trap is no access to memory, so the cache is as fetching and executing
have left it. -/
theorem step_cache (h : Hart) (mmu : Mmu) :
    (h.step mmu).2.2.cache = (h.count.attempt mmu).2.cache := by
  rw [step_eq]
  split
  · rename_i run
    rw [run]
  · rename_i run
    rw [run]
  · rename_i run
    rw [run]
    rfl

/-! ## Steps -/

/-- An instruction that did not trap translates as before, or nothing is remembered. -/
theorem Outcome.remembers {h h' : Hart} {mmu : Mmu} (o : Outcome h mmu h')
    {past : List Memory} (r : mmu.cache.Remembers h past) : mmu.cache.Remembers h' past := by
  have hid := congrArg HartConfig.id o.config
  cases o with
  | computed registers => exact r.congr hid rfl
  | wrote c value registers _ flushed =>
      cases hf : h.writeFlushes c value with
      | false => exact r.congr hid (context_writeCsr hf)
      | true =>
          have forgets := flushed hf
          rw [← hid] at forgets
          exact TranslationCache.remembers_of_forgets forgets
  | returned level _ => exact r.congr hid (context_trapReturn h level)

/-- After a step, every page remembered for the hart was found, by a walk of the hart
as it is now, in one of the memories in which it began to translate. -/
theorem step_remembers (h : Hart) (mmu : Mmu) {past : List Memory}
    (r : mmu.cache.Remembers h past) :
    (h.step mmu).2.2.cache.Remembers (h.step mmu).2.1 (h.momentsOfStep mmu past) := by
  have hcount : mmu.cache.Remembers h.count past := r.congr rfl rfl
  have hattempt := (Parts.attempt (h := h.count)).remembers mmu past hcount
  rw [← step_cache] at hattempt
  cases hr : (h.step mmu).1 with
  | trapped t =>
      rw [(step_trapped hr).2]
      exact hattempt.congr rfl (context_deliver h.count t)
  | completed => exact (step_outcome fun t ht => nomatch hr.symm.trans ht).remembers hattempt
  | stopped => exact (step_outcome fun t ht => nomatch hr.symm.trans ht).remembers hattempt

/-! ## Interrupts -/

theorem checkInterrupts_config (h : Hart) (mmu : Mmu) :
    (h.checkInterrupts mmu).2.1.config = h.config := by
  unfold checkInterrupts
  split <;> rfl

theorem checkInterrupts_cache (h : Hart) (mmu : Mmu) :
    (h.checkInterrupts mmu).2.2.cache = mmu.cache := by
  unfold checkInterrupts
  split <;> rfl

theorem checkInterrupts_context (h : Hart) (mmu : Mmu) :
    (h.checkInterrupts mmu).2.1.context = h.context := by
  unfold checkInterrupts
  split
  · rfl
  · exact context_deliver h _

end Rv32.Hart

/-
# `Rv32.Proofs.Attempt` — how work on a state can end

Work on a state either gives a result or fails, and leaves a state behind in both
cases.  `Yields` says of one run, from one state, what holds at either end.  There
is a rule for each way of putting work together, so a fact about a whole
instruction is put together from facts about its pieces, in the order in which
the instruction is.
-/
import Rv32.Mmu.Basic

namespace Rv32.Attempt

variable {ε ε' σ α β : Type}

/-! ## What a sequence does -/

/-- A sequence runs its second part from where the first has ended, unless that
failed. -/
theorem bind_run (first : Attempt ε σ α) (rest : α → Attempt ε σ β) (s : σ) :
    (first >>= rest) s =
      match first s with
      | (.ok a, s') => rest a s'
      | (.error e, s') => (.error e, s') := by
  simp only [Bind.bind, ExceptT.bind, ExceptT.mk, StateT.bind]
  rcases first s with ⟨_ | _, _⟩ <;> rfl

/-- Looking at the state leaves it as it is. -/
theorem bind_get (rest : σ → Attempt ε σ β) (s : σ) : (get >>= rest) s = rest s s := rfl

/-- Renaming errors leaves the run as it is. -/
theorem adapt_run (f : ε → ε') (work : Attempt ε σ α) (s : σ) :
    (ExceptT.adapt f work : Attempt ε' σ α) s = ((work s).1.mapError f, (work s).2) := rfl

/-- A decision is made without touching the state. -/
theorem lift_run (x : Except ε α) (s : σ) : (liftM x : Attempt ε σ α) s = (x, s) := by
  cases x <;> rfl

/-! ## How it can end -/

/-- From `s`, the work ends with a result and a state of which `good` holds, or fails
with an error and a state of which `bad` holds. -/
def Yields (work : Attempt ε σ α) (s : σ) (good : α → σ → Prop) (bad : ε → σ → Prop) : Prop :=
  match work s with
  | (.ok a, s') => good a s'
  | (.error e, s') => bad e s'

namespace Yields

variable {work : Attempt ε σ α} {s s' : σ} {good : α → σ → Prop} {bad : ε → σ → Prop}

/-- What holds of a run that gave a result. -/
theorem ok {a : α} (h : Yields work s good bad) (run : work s = (.ok a, s')) : good a s' := by
  simpa only [Yields, run] using h

/-- What holds of a run that failed. -/
theorem error {e : ε} (h : Yields work s good bad) (run : work s = (.error e, s')) :
    bad e s' := by
  simpa only [Yields, run] using h

/-- What is said of the state alone. -/
theorem state {P : σ → Prop} :
    Yields work s (fun _ s' => P s') (fun _ s' => P s') ↔ P (work s).2 := by
  unfold Yields
  rcases work s with ⟨_ | _, _⟩ <;> exact Iff.rfl

/-- All there is to say of a run. -/
theorem run (work : Attempt ε σ α) (s : σ) :
    Yields work s (fun a s' => work s = (.ok a, s')) fun e s' => work s = (.error e, s') := by
  unfold Yields
  rcases work s with ⟨_ | _, _⟩ <;> rfl

/-- Less can be said of the same run. -/
theorem mono {good' : α → σ → Prop} {bad' : ε → σ → Prop} (h : Yields work s good bad)
    (hg : ∀ a s', good a s' → good' a s') (hb : ∀ e s', bad e s' → bad' e s') :
    Yields work s good' bad' := by
  unfold Yields at h ⊢
  split at h
  · exact hg _ _ h
  · exact hb _ _ h

theorem pure {a : α} (h : good a s) : Yields (pure a : Attempt ε σ α) s good bad := h

theorem throw {e : ε} (h : bad e s) : Yields (throw e : Attempt ε σ α) s good bad := h

/-- Work that cannot fail and changes nothing but the state. -/
theorem modify {f : σ → σ} {good : PUnit → σ → Prop} (h : good ⟨⟩ (f s)) :
    Yields (modify f : Attempt ε σ PUnit) s good bad := h

theorem get {good : σ → σ → Prop} (h : good s s) : Yields (get : Attempt ε σ σ) s good bad := h

/-- A decision that does not touch the state. -/
theorem lift {x : Except ε α} (hg : ∀ a, x = .ok a → good a s)
    (hb : ∀ e, x = .error e → bad e s) : Yields (liftM x : Attempt ε σ α) s good bad := by
  cases x with
  | ok a => exact hg a rfl
  | error e => exact hb e rfl

theorem bind {first : Attempt ε σ α} {rest : α → Attempt ε σ β} {p : α → σ → Prop}
    {good : β → σ → Prop} (hf : Yields first s p bad)
    (hr : ∀ a s', p a s' → Yields (rest a) s' good bad) :
    Yields (first >>= rest) s good bad := by
  unfold Yields at hf ⊢
  rw [bind_run]
  rcases h : first s with ⟨_ | _, _⟩
  · simpa only [h] using hf
  · simp only [h] at hf ⊢
    exact hr _ _ hf

/-- Renaming errors changes what is said of them, and nothing else. -/
theorem adapt {f : ε → ε'} {bad' : ε' → σ → Prop}
    (h : Yields work s good fun e s' => bad' (f e) s') :
    Yields (ExceptT.adapt f work : Attempt ε' σ α) s good bad' := by
  unfold Yields at h ⊢
  rw [adapt_run]
  rcases hw : work s with ⟨e | a, s'⟩
  · rw [hw] at h
    exact h
  · rw [hw] at h
    exact h

end Yields
end Rv32.Attempt

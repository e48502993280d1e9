/-
# `Rv32.Proofs.Machine.Schedule` — a run follows a schedule, and can be cut between rounds

What is done in a run of a number of cycles is settled before it begins.  In every round each
hart in its turn may be interrupted, once, and then takes as many steps as the turn has; the
last round has what is left over of the cycles.  A run follows this schedule to its end, or up
to the first step that stops the machine, and that step is the last thing that happens.

A run whose cycles make whole rounds ends where a round ends, and there nothing is left over
to go on with.  So a longer run can be cut at this point, and what follows is a run like any
other.

`Played` is what the proof carries from a turn to a round and from a round to a run: where
playing some beats ends, with the number of steps that a stopped turn had.
-/
import Mathlib.Algebra.GroupWithZero.Nat
import Rv32.Proofs.Machine.Run

namespace Rv32

/-- Something a hart does in a run.  Harts are named by their places in the machine. -/
inductive Beat where
  /-- The hart is interrupted, if there is a reason to. -/
  | check (place : Nat)
  | step (place : Nat)
deriving DecidableEq, Repr

def Beat.place : Beat → Nat
  | .check place | .step place => place

namespace Machine

/-! ## Schedules -/

/-- The turns of some harts, the first of which has a given place. -/
def turnBeats (start harts length : Nat) : List Beat :=
  (List.range' start harts).flatMap fun i => .check i :: List.replicate length (.step i)

/-- How long the turns are, round by round. -/
def turnLengths (slice cycles : Nat) : List Nat :=
  List.replicate (cycles / slice) slice ++ if cycles % slice = 0 then [] else [cycles % slice]

/-- What there is to do in a run. -/
def schedule (m : Machine) (cycles : Nat) : List Beat :=
  (turnLengths m.turnLength cycles).flatMap (turnBeats 0 m.harts.length)

/-! ## Playing -/

/-- The machine with a hart as it has become, and with the memory that the hart left. -/
def put (m : Machine) (place : Nat) (h : Hart) (mmu : Mmu) : Machine :=
  { m with harts := m.harts.set place h, mmu }

/-- Does one thing, whether or not the machine is to stop after it. -/
def play (m : Machine) : Beat → Machine
  | .check i =>
    match m.harts[i]? with
    | some h => let (_, h, mmu) := h.checkInterrupts m.mmu; m.put i h mmu
    | none => m
  | .step i =>
    match m.harts[i]? with
    | some h => let (_, h, mmu) := h.step m.mmu; m.put i h mmu
    | none => m

def playAll (m : Machine) (beats : List Beat) : Machine := beats.foldl play m

/-- The hart that asks the machine to stop, if the next thing to do is a step that does. -/
def stopper? (m : Machine) : Beat → Option Nat
  | .check _ => none
  | .step i =>
    match m.harts[i]? with
    | some h => if (h.step m.mmu).1 = .stopped then some h.config.id else none
    | none => none

/-- Nothing of what is to do asks the machine to stop. -/
def Quiet : Machine → List Beat → Prop
  | _, [] => True
  | m, b :: rest => m.stopper? b = none ∧ (m.play b).Quiet rest

variable {m m' m'' : Machine} {xs ys : List Beat}

theorem playAll_append (m : Machine) (xs ys : List Beat) :
    m.playAll (xs ++ ys) = (m.playAll xs).playAll ys :=
  List.foldl_append

theorem quiet_append : m.Quiet (xs ++ ys) ↔ m.Quiet xs ∧ (m.playAll xs).Quiet ys := by
  induction xs generalizing m with
  | nil => exact ⟨fun quiet => ⟨trivial, quiet⟩, And.right⟩
  | cons b rest ih =>
      show _ ∧ (m.play b).Quiet (rest ++ ys) ↔
        (_ ∧ (m.play b).Quiet rest) ∧ ((m.play b).playAll rest).Quiet ys
      rw [ih, and_assoc]

/-- Where playing some beats ends: after all of them, or after the first step that stops the
machine.  Then there is the number of the hart, with how many of its steps were played. -/
inductive Played (m : Machine) (beats : List Beat) : Option (Nat × Nat) → Machine → Prop
  | toEnd (quiet : m.Quiet beats) : Played m beats none (m.playAll beats)
  | stopped {past future : List Beat} {i hart : Nat} (split : beats = past ++ .step i :: future)
      (quiet : m.Quiet past) (stops : (m.playAll past).stopper? (.step i) = some hart) :
      Played m beats (some (hart, past.count (Beat.step i) + 1))
        ((m.playAll past).play (.step i))

namespace Played

theorem nil (m : Machine) : Played m [] none m := .toEnd trivial

/-- One thing to do that does not stop the machine. -/
theorem one {b : Beat} (quiet : m.stopper? b = none) : Played m [b] none (m.play b) :=
  .toEnd ⟨quiet, trivial⟩

/-- Beats that are played to their end are followed by others.  If these stop the machine, the
hart that does it had a known number of steps before. -/
theorem append {s : Option (Nat × Nat)} (before : Nat) (first : Played m xs none m')
    (rest : Played m' ys s m'')
    (steps : ∀ i, Beat.step i ∈ ys → xs.count (Beat.step i) = before) :
    Played m (xs ++ ys) (s.map fun stop => (stop.1, before + stop.2)) m'' := by
  cases first with
  | toEnd quiet =>
      cases rest with
      | toEnd quiet' =>
          rw [← playAll_append]
          exact .toEnd (quiet_append.mpr ⟨quiet, quiet'⟩)
      | @stopped past future i hart split quiet' stops =>
          have hmem : Beat.step i ∈ ys := by
            rw [split]
            exact List.mem_append_right _ List.mem_cons_self
          have split' : xs ++ ys = (xs ++ past) ++ .step i :: future := by
            rw [split, List.append_assoc]
          have hcount : (xs ++ past).count (Beat.step i) = before + past.count (Beat.step i) := by
            rw [List.count_append, steps i hmem]
          show Played m (xs ++ ys) (some (hart, before + past.count (Beat.step i) + 1)) _
          rw [← hcount, ← playAll_append]
          rw [← playAll_append] at stops
          exact .stopped split' (quiet_append.mpr ⟨quiet, quiet'⟩) stops

/-- Once the machine is stopped it does not matter what there was still to do. -/
theorem append_stopped {stop : Nat × Nat} (first : Played m xs (some stop) m')
    (ys : List Beat) : Played m (xs ++ ys) (some stop) m' := by
  cases first with
  | @stopped past future i hart split quiet stops =>
      have split' : xs ++ ys = past ++ .step i :: (future ++ ys) := by
        rw [split, List.append_assoc, List.cons_append]
      exact .stopped split' quiet stops

end Played

/-! ## Turns -/

theorem put_self {place : Nat} {h : Hart} (hart : m.harts[place]? = some h) :
    m.put place h m.mmu = m := by
  obtain ⟨inside, rfl⟩ := List.getElem?_eq_some_iff.mp hart
  rw [put, List.set_getElem_self]

theorem put_put (place : Nat) (h h' : Hart) (mmu mmu' : Mmu) :
    (m.put place h mmu).put place h' mmu' = m.put place h' mmu' := by
  rw [put, put, put, List.set_set]

theorem hart_put {place : Nat} {h : Hart} (hart : m.harts[place]? = some h) (h' : Hart)
    (mmu : Mmu) : (m.put place h' mmu).harts[place]? = some h' := by
  obtain ⟨inside, -⟩ := List.getElem?_eq_some_iff.mp hart
  exact List.getElem?_set_self inside

/-- The steps a hart takes are steps of its place, and it counts them. -/
theorem played_run {place : Nat} {h : Hart} (hart : m.harts[place]? = some h) (n taken : Nat) :
    ∃ s : Option Nat, (h.run n taken m.mmu).1 = s.map (taken + ·) ∧
      Played m (List.replicate n (.step place)) (s.map (h.config.id, ·))
        (m.put place (h.run n taken m.mmu).2.1 (h.run n taken m.mmu).2.2) := by
  induction n generalizing m h taken with
  | zero =>
      refine ⟨none, rfl, ?_⟩
      rw [Hart.run, put_self hart]
      exact .nil m
  | succ n ih =>
      have hid := congrArg HartConfig.id (h.step_config m.mmu)
      have hplay : m.play (.step place) =
          m.put place (h.step m.mmu).2.1 (h.step m.mmu).2.2 := by
        simp only [play, hart]
      have hstops : m.stopper? (.step place) =
          if (h.step m.mmu).1 = .stopped then some h.config.id else none := by
        simp only [stopper?, hart]
      rw [Hart.run]
      rcases hstep : h.step m.mmu with ⟨result, h', mmu'⟩
      rw [hstep] at hid hplay hstops
      -- Unless the step stops the machine, the others are those of the hart as it is after it.
      have hrest : result ≠ .stopped → ∃ s : Option Nat,
          (h'.run n (taken + 1) mmu').1 = s.map (taken + ·) ∧
          Played m (List.replicate (n + 1) (.step place)) (s.map (h.config.id, ·))
            (m.put place (h'.run n (taken + 1) mmu').2.1 (h'.run n (taken + 1) mmu').2.2) := by
        intro going
        rw [if_neg going] at hstops
        obtain ⟨s, hresult, hplayed⟩ := ih (hart_put hart h' mmu') (taken + 1)
        have hone : Played m [.step place] none (m.put place h' mmu') := hplay ▸ .one hstops
        have hall := Played.append 1 hone hplayed fun i hi => by
          cases (List.mem_replicate.mp hi).2
          rw [List.count_singleton_self]
        refine ⟨s.map (1 + ·), ?_, ?_⟩
        · rw [Option.map_map]
          refine hresult.trans (congrArg (s.map ·) (funext fun k => ?_))
          exact Nat.add_assoc taken 1 k
        · have hname : h'.config.id = h.config.id := hid
          rw [put_put, Option.map_map, hname] at hall
          rw [Option.map_map]
          exact hall
      cases result with
      | completed => exact hrest StepResult.noConfusion
      | trapped t => exact hrest StepResult.noConfusion
      | stopped =>
          rw [if_pos rfl] at hstops
          refine ⟨some 1, rfl, ?_⟩
          show Played m _ (some (h.config.id, 1)) (m.put place h' mmu')
          have split : List.replicate (n + 1) (Beat.step place) =
              [] ++ .step place :: List.replicate n (.step place) := List.replicate_succ
          rw [← hplay]
          exact .stopped split trivial hstops

/-- The turn of a hart is the check for interrupts at its place, and then its steps. -/
theorem played_turn {place : Nat} {h : Hart} (hart : m.harts[place]? = some h) (slice : Nat) :
    Played m (.check place :: List.replicate slice (.step place))
      ((h.turn slice m.mmu).1.map (h.config.id, ·))
      (m.put place (h.turn slice m.mmu).2.1 (h.turn slice m.mmu).2.2) := by
  have hid := congrArg HartConfig.id (h.checkInterrupts_config m.mmu)
  have hplay : m.play (.check place) =
      m.put place (h.checkInterrupts m.mmu).2.1 (h.checkInterrupts m.mmu).2.2 := by
    simp only [play, hart]
  rw [Hart.turn]
  rcases hcheck : h.checkInterrupts m.mmu with ⟨interrupt, h', mmu'⟩
  rw [hcheck] at hid hplay
  have hname : h'.config.id = h.config.id := hid
  obtain ⟨s, hresult, hplayed⟩ := played_run (hart_put hart h' mmu') slice 0
  have hone : Played m [.check place] none (m.put place h' mmu') := hplay ▸ .one rfl
  have hall := Played.append 0 hone hplayed fun i _ => rfl
  have hcounted : (h'.run slice 0 mmu').1 = s.map (0 + ·) := hresult
  rw [put_put, Option.map_map, hname] at hall
  show Played m _ ((h'.run slice 0 mmu').1.map (h.config.id, ·)) _
  rw [hcounted, Option.map_map]
  exact hall

/-! ## Rounds -/

/-- The turn of the first hart, and those of the others. -/
theorem turnBeats_succ (start harts length : Nat) :
    turnBeats start (harts + 1) length =
      (.check start :: List.replicate length (.step start)) ++ turnBeats (start + 1) harts length := by
  rw [turnBeats, turnBeats, List.range'_succ, List.flatMap_cons]

theorem place_le_of_mem {start harts length : Nat} {b : Beat}
    (h : b ∈ turnBeats start harts length) : start ≤ b.place ∧ b.place < start + harts := by
  obtain ⟨i, hi, hbeat⟩ := List.mem_flatMap.mp h
  rcases List.mem_cons.mp hbeat with rfl | hstep
  · exact List.mem_range'_1.mp hi
  · cases (List.mem_replicate.mp hstep).2
    exact List.mem_range'_1.mp hi

/-- In a round every hart is checked once and takes all the steps of its turn. -/
theorem count_turnBeats {start harts i : Nat} (length : Nat) (low : start ≤ i)
    (high : i < start + harts) :
    (turnBeats start harts length).count (.step i) = length ∧
      (turnBeats start harts length).count (.check i) = 1 := by
  induction harts generalizing start with
  | zero => exact absurd high (Nat.not_lt.mpr low)
  | succ harts ih =>
      rw [turnBeats_succ, List.count_append, List.count_append]
      rcases Nat.eq_or_lt_of_le low with rfl | later
      · have hout : ∀ b, b.place = start → (turnBeats (start + 1) harts length).count b = 0 := by
          intro b hb
          refine List.count_eq_zero.mpr fun h => ?_
          have hplace := (place_le_of_mem h).1
          omega
        rw [hout (.step start) rfl, hout (.check start) rfl]
        simp [List.count_replicate]
      · obtain ⟨hsteps, hchecks⟩ := ih later (by omega)
        have hne : start ≠ i := Nat.ne_of_lt later
        rw [hsteps, hchecks]
        simp [List.count_replicate, hne]

/-- The turns of harts that come after others in a machine are played in their places. -/
theorem played_turns (slice : Nat) (past : List Hart) {hs : List Hart}
    (harts : m.harts = past ++ hs) :
    Played m (turnBeats past.length hs.length slice) (turns slice hs m.mmu).1
      { m with
        harts := past ++ (turns slice hs m.mmu).2.1
        mmu := (turns slice hs m.mmu).2.2 } := by
  induction hs generalizing m past with
  | nil =>
      have hsame : { m with harts := past ++ [], mmu := m.mmu } = m := by rw [← harts]
      rw [turns, hsame]
      exact .nil m
  | cons h rest ih =>
      have hart : m.harts[past.length]? = some h := by
        rw [harts, List.getElem?_append_right (Nat.le_refl _), Nat.sub_self]
        rfl
      have hput (h' : Hart) (mmu : Mmu) : m.put past.length h' mmu =
          { m with harts := past ++ h' :: rest, mmu } := by
        rw [put, harts, List.set_append_right _ _ (Nat.le_refl _), Nat.sub_self]
        rfl
      have hid : (h.turn slice m.mmu).2.1.config.id = h.config.id :=
        congrArg HartConfig.id (h.turn_config slice m.mmu)
      have hfirst := played_turn hart slice
      rw [hput, ← hid] at hfirst
      rw [turns, List.length_cons, turnBeats_succ]
      rcases hturn : h.turn slice m.mmu with ⟨_ | taken, h', mmu'⟩
      all_goals rw [hturn] at hfirst
      · have hrest := ih (m := { m with harts := past ++ h' :: rest, mmu := mmu' })
          (past ++ [h']) (List.append_cons ..)
        rw [List.length_append, List.append_assoc] at hrest
        have hall := Played.append 0 hfirst hrest fun i hi => by
          have hne : past.length ≠ i := Nat.ne_of_lt (place_le_of_mem hi).1
          simp [List.count_replicate, hne]
        simp only [Nat.zero_add, Option.map_id'] at hall
        exact hall
      · exact hfirst.append_stopped _

/-- The machine with another number of cycles counted. -/
def counting (m : Machine) (executed : Nat) : Machine := { m with executed }

/-- How a run ends that had some cycles to go and played some beats. -/
def ending (m : Machine) (cycles : Nat) : Option (Nat × Nat) → Machine → RunResult × Machine
  | none, m' => (.completed, m'.counting (m.executed + cycles))
  | some (hart, taken), m' => (.stopped hart, m'.counting (m.executed + taken))

theorem played_round (m : Machine) (slice : Nat) :
    ∃ s m', Played m (turnBeats 0 m.harts.length slice) s m' ∧
      m.round slice = m.ending slice s m' := by
  have hplayed := played_turns (m := m) slice [] rfl
  refine ⟨_, _, hplayed, ?_⟩
  rw [round]
  rcases turns slice m.harts m.mmu with ⟨_ | ⟨hart, taken⟩, harts, mmu⟩ <;> rfl

/-! ## Runs -/

theorem turnLengths_zero (slice : Nat) : turnLengths slice 0 = [] := by
  rw [turnLengths, Nat.zero_div, Nat.zero_mod, if_pos rfl]
  rfl

/-- The first turns of a run have as many steps as there are cycles, but no more than a whole
turn; what is left are the turns of a shorter run. -/
theorem turnLengths_pos {slice cycles : Nat} (whole : 0 < slice) (pos : 0 < cycles) :
    turnLengths slice cycles =
      min cycles slice :: turnLengths slice (cycles - min cycles slice) := by
  rcases Nat.lt_or_ge cycles slice with short | long
  · rw [Nat.min_eq_left (Nat.le_of_lt short), Nat.sub_self, turnLengths_zero, turnLengths,
      Nat.div_eq_of_lt short, Nat.mod_eq_of_lt short, if_neg (Nat.ne_of_gt pos)]
    rfl
  · rw [Nat.min_eq_right long, turnLengths, turnLengths, Nat.div_eq_sub_div whole long,
      Nat.mod_eq_sub_mod long, List.replicate_succ, List.cons_append]

theorem sum_turnLengths (slice cycles : Nat) : (turnLengths slice cycles).sum = cycles := by
  have hsplit := Nat.div_add_mod' cycles slice
  rw [turnLengths, List.sum_append, List.sum_replicate_nat]
  split
  case isTrue h => rw [List.sum_nil]; omega
  case isFalse h => rw [List.sum_singleton]; omega

theorem schedule_pos {cycles : Nat} (pos : 0 < cycles) :
    m.schedule cycles = turnBeats 0 m.harts.length (min cycles m.turnLength) ++
      m.schedule (cycles - min cycles m.turnLength) := by
  rw [schedule, turnLengths_pos m.turnLength_pos pos, List.flatMap_cons, ← schedule]

theorem turnLength_round (m : Machine) (slice : Nat) :
    (m.round slice).2.turnLength = m.turnLength :=
  congrArg (max ·.slice 1) (m.round_config slice)

/-- The schedule does not depend on what was played before. -/
theorem schedule_round (m : Machine) (slice : Nat) :
    (m.round slice).2.schedule = m.schedule := by
  have hlength := congrArg List.length (m.round_configs slice)
  rw [List.length_map, List.length_map] at hlength
  funext cycles
  rw [schedule, schedule, turnLength_round, hlength]

theorem place_lt_of_mem {cycles : Nat} {b : Beat} (h : b ∈ m.schedule cycles) :
    b.place < m.harts.length := by
  obtain ⟨length, -, hbeat⟩ := List.mem_flatMap.mp h
  exact Nat.lt_of_lt_of_eq (place_le_of_mem hbeat).2 (Nat.zero_add _)

/-- Every hart takes one step for each cycle, and is checked once a round. -/
theorem count_schedule {i : Nat} (cycles : Nat) (inside : i < m.harts.length) :
    (m.schedule cycles).count (.step i) = cycles ∧
      (m.schedule cycles).count (.check i) = (turnLengths m.turnLength cycles).length := by
  have hround : ∀ length, (turnBeats 0 m.harts.length length).count (.step i) = length ∧
      (turnBeats 0 m.harts.length length).count (.check i) = 1 :=
    fun length => count_turnBeats length (Nat.zero_le i) (by rwa [Nat.zero_add])
  have hsteps : List.count (Beat.step i) ∘ turnBeats 0 m.harts.length = id :=
    funext fun length => (hround length).1
  have hchecks : List.count (Beat.check i) ∘ turnBeats 0 m.harts.length = fun _ => 1 :=
    funext fun length => (hround length).2
  rw [schedule, List.count_flatMap, List.count_flatMap, hsteps, hchecks, List.map_id,
    sum_turnLengths, List.map_const', List.sum_replicate_nat, Nat.mul_one]
  exact ⟨rfl, rfl⟩

theorem play_counting (m : Machine) (executed : Nat) (b : Beat) :
    (m.counting executed).play b = (m.play b).counting executed := by
  cases b with
  | check i =>
      simp only [play, counting]
      cases m.harts[i]? <;> rfl
  | step i =>
      simp only [play, counting]
      cases m.harts[i]? <;> rfl

theorem playAll_counting (m : Machine) (executed : Nat) (beats : List Beat) :
    (m.counting executed).playAll beats = (m.playAll beats).counting executed := by
  induction beats generalizing m with
  | nil => rfl
  | cons b rest ih =>
      show ((m.counting executed).play b).playAll rest = ((m.play b).playAll rest).counting executed
      rw [play_counting, ih]

theorem quiet_counting (m : Machine) (executed : Nat) (beats : List Beat) :
    (m.counting executed).Quiet beats ↔ m.Quiet beats := by
  induction beats generalizing m with
  | nil => exact Iff.rfl
  | cons b rest ih =>
      have hstopper : (m.counting executed).stopper? b = m.stopper? b := by cases b <;> rfl
      show _ ∧ ((m.counting executed).play b).Quiet rest ↔ _ ∧ (m.play b).Quiet rest
      rw [hstopper, play_counting, ih]

theorem Played.counting {beats : List Beat} {s : Option (Nat × Nat)}
    (played : Played m beats s m') (executed : Nat) :
    Played (m.counting executed) beats s (m'.counting executed) := by
  cases played with
  | toEnd quiet =>
      rw [← playAll_counting]
      exact .toEnd ((quiet_counting m executed beats).mpr quiet)
  | @stopped past future i hart split quiet stops =>
      rw [← play_counting, ← playAll_counting]
      refine .stopped split ((quiet_counting m executed past).mpr quiet) ?_
      rw [playAll_counting]
      exact stops

/-- A run plays its schedule, and counts all of its cycles or the steps of the hart that
stopped it. -/
theorem played_schedule (m : Machine) (cycles : Nat) :
    ∃ s m', Played m (m.schedule cycles) s m' ∧ m.run cycles = m.ending cycles s m' := by
  induction m, cycles using rounds_induction with
  | zero m =>
      refine ⟨none, m, ?_, m.run_zero⟩
      rw [schedule, turnLengths_zero]
      exact .nil m
  | round m cycles pos ih =>
      have hschedule := m.schedule_round (min cycles m.turnLength)
      obtain ⟨s, m₁, hfirst, hround⟩ := m.played_round (min cycles m.turnLength)
      rw [m.run_loop pos, schedule_pos pos, hround]
      rw [hround] at hschedule
      cases s with
      | some stop => exact ⟨some stop, m₁, hfirst.append_stopped _, rfl⟩
      | none =>
          obtain ⟨s, m₂, hrest, hrun⟩ := ih _ hround
          -- The rest is played by the machine that has counted the first round.
          have hcounted := hrest.counting m₁.executed
          have hsteps : ∀ i, Beat.step i ∈ m.schedule (cycles - min cycles m.turnLength) →
              (turnBeats 0 m.harts.length (min cycles m.turnLength)).count (Beat.step i) =
                min cycles m.turnLength := fun i hi =>
            (count_turnBeats _ (Nat.zero_le i) (by
              rw [Nat.zero_add]
              exact place_lt_of_mem hi)).1
          rw [show (m₁.counting _).schedule = m.schedule from hschedule] at hcounted
          refine ⟨_, _, hfirst.append _ hcounted hsteps, ?_⟩
          show (m₁.counting _).run _ = _
          rw [hrun]
          cases s with
          | none =>
              have hall : m.executed + min cycles m.turnLength +
                  (cycles - min cycles m.turnLength) = m.executed + cycles := by omega
              exact congrArg (fun executed => (RunResult.completed, m₂.counting executed)) hall
          | some stop =>
              exact congrArg (fun executed => (RunResult.stopped stop.1, m₂.counting executed))
                (Nat.add_assoc ..)

/-- What is played before the first stop does not stop the machine. -/
theorem Quiet.stopper?_eq_none {past future : List Beat} {b : Beat}
    (quiet : m.Quiet (past ++ b :: future)) : (m.playAll past).stopper? b = none :=
  (quiet_append.mp quiet).2.1

/-- There is only one first step that stops the machine. -/
theorem first_stop_unique {past past' future future' : List Beat} {b b' : Beat}
    (same : past ++ b :: future = past' ++ b' :: future') (quiet : m.Quiet past)
    (stops : (m.playAll past).stopper? b ≠ none) (quiet' : m.Quiet past')
    (stops' : (m.playAll past').stopper? b' ≠ none) : past = past' ∧ b = b' := by
  rcases List.append_eq_append_iff.mp same with
    ⟨_ | ⟨c, gap⟩, hpast, hbeats⟩ | ⟨_ | ⟨c, gap⟩, hpast, hbeats⟩
  · rw [List.append_nil] at hpast
    cases hbeats
    exact ⟨hpast.symm, rfl⟩
  · cases hbeats
    rw [hpast] at quiet'
    exact absurd quiet'.stopper?_eq_none stops
  · rw [List.append_nil] at hpast
    cases hbeats
    exact ⟨hpast, rfl⟩
  · cases hbeats
    rw [hpast] at quiet
    exact absurd quiet.stopper?_eq_none stops'

/-- What a run does, and what it counts. -/
structure FollowsSchedule (m : Machine) (cycles : Nat) : Prop where
  /-- Every hart is to take a step for each cycle. -/
  steps : ∀ i < m.harts.length, (m.schedule cycles).count (.step i) = cycles
  /-- Every hart is to be checked once before each of its turns. -/
  checks : ∀ i < m.harts.length,
    (m.schedule cycles).count (.check i) = (turnLengths m.turnLength cycles).length
  /-- A run is completed if nothing on its schedule stops the machine.  Then all of it is
  played, and all cycles are counted. -/
  completed : ∀ m', m.run cycles = (.completed, m') ↔
    m.Quiet (m.schedule cycles) ∧
      m' = (m.playAll (m.schedule cycles)).counting (m.executed + cycles)
  /-- A run is stopped by the first step that stops the machine.  Then nothing is played that
  comes after it, and the steps that its hart had are counted. -/
  stopped : ∀ hart m', m.run cycles = (.stopped hart, m') ↔
    ∃ past i future, m.schedule cycles = past ++ .step i :: future ∧ m.Quiet past ∧
      (m.playAll past).stopper? (.step i) = some hart ∧
      m' = ((m.playAll past).play (.step i)).counting
        (m.executed + (past.count (.step i) + 1))

theorem followsSchedule (m : Machine) (cycles : Nat) : FollowsSchedule m cycles := by
  obtain ⟨s, m', played, hrun⟩ := m.played_schedule cycles
  refine
    { steps := fun i inside => (count_schedule cycles inside).1
      checks := fun i inside => (count_schedule cycles inside).2
      completed := fun m'' => ?completed
      stopped := fun hart m'' => ?stopped }
  case completed =>
    rw [hrun]
    cases played with
    | toEnd quiet =>
        constructor
        · intro h
          cases h
          exact ⟨quiet, rfl⟩
        · rintro ⟨-, rfl⟩
          rfl
    | @stopped past future i hart split quiet stops =>
        refine ⟨fun h => (nomatch h), ?_⟩
        rintro ⟨silent, -⟩
        rw [split] at silent
        cases silent.stopper?_eq_none.symm.trans stops
  case stopped =>
    rw [hrun]
    cases played with
    | toEnd quiet =>
        refine ⟨fun h => (nomatch h), ?_⟩
        rintro ⟨past, i, future, split, -, stops, -⟩
        rw [split] at quiet
        cases quiet.stopper?_eq_none.symm.trans stops
    | @stopped past future i hart' split quiet stops =>
        constructor
        · intro h
          cases h
          exact ⟨past, i, future, split, quiet, stops, rfl⟩
        · rintro ⟨past', i', future', split', quiet', stops', rfl⟩
          obtain ⟨rfl, hbeat⟩ := first_stop_unique (split.symm.trans split') quiet
            (fun e => nomatch stops.symm.trans e) quiet' (fun e => nomatch stops'.symm.trans e)
          cases hbeat
          cases stops.symm.trans stops'
          rfl

/-! ## Cuts -/

theorem andThen_assoc (f g : Machine → RunResult × Machine) (x : RunResult × Machine) :
    andThen f (andThen g x) = andThen (fun m => andThen f (g m)) x := by
  rcases x with ⟨_ | hart, m⟩ <;> rfl

/-- After whole rounds a run goes on like a run that begins there. -/
theorem run_add {a : Nat} (whole : m.turnLength ∣ a) (b : Nat) :
    m.run (a + b) = andThen (·.run b) (m.run a) := by
  obtain ⟨rounds, rfl⟩ := whole
  induction rounds generalizing m with
  | zero => rw [Nat.mul_zero, Nat.zero_add, run_zero, andThen]
  | succ rounds ih =>
      have hsum : m.turnLength * (rounds + 1) = m.turnLength + m.turnLength * rounds := by
        rw [Nat.mul_succ, Nat.add_comm]
      have hturn := m.turnLength_round m.turnLength
      rw [hsum, Nat.add_assoc, m.run_long (Nat.le_add_right _ _),
        m.run_long (Nat.le_add_right _ _), Nat.add_sub_cancel_left, Nat.add_sub_cancel_left,
        andThen_assoc]
      rcases hround : m.round m.turnLength with ⟨_ | hart, m'⟩
      all_goals rw [hround] at hturn
      · show m'.run _ = andThen (·.run b) (m'.run _)
        rw [← show m'.turnLength = m.turnLength from hturn]
        exact ih
      · rfl

/-- A run can be cut after whole rounds: what follows is a run of the machine as it is there,
unless it was stopped before.  And every run does what its schedule says. -/
theorem run_in_rounds {a : Nat} (whole : m.turnLength ∣ a) :
    (∀ b m', m.run a = (.completed, m') → m.run (a + b) = m'.run b) ∧
      (∀ b hart m', m.run a = (.stopped hart, m') → m.run (a + b) = (.stopped hart, m')) ∧
      ∀ cycles, FollowsSchedule m cycles := by
  refine ⟨fun b m' completed => ?_, fun b hart m' stopped => ?_, m.followsSchedule⟩
  · rw [run_add whole, completed, andThen]
  · rw [run_add whole, stopped, andThen]

/-- Two harts that count and then stop the machine, in turns of two instructions.  After one
round both go on; the first hart stops in the second round, and the other has not begun it. -/
theorem run_in_rounds_of_counters :
    let config := fun id => Hart.init ⟨id, 0, true, true⟩
    let m : Machine := ⟨⟨2, 2, 0, true⟩, [config 7, config 8],
      Mmu.ofProgram [0x85, 0x00, 0x85, 0x00, 0x85, 0x00, 0x02, 0x90], 0⟩
    m.turnLength ∣ 2 ∧ (∀ b, m.run (2 + b) = (m.run 2).2.run b) ∧
      (m.run 4).2.harts.map (·.registers.x 1) = [3, 2] ∧
      (∀ b, m.run (4 + b) = (.stopped 7, (m.run 4).2)) := by
  intro config m
  have whole : m.turnLength ∣ 2 := by decide
  have twice : m.turnLength ∣ 4 := by decide
  have completed : (m.run 2).1 = .completed := by decide +kernel
  have stopped : (m.run 4).1 = .stopped 7 := by decide +kernel
  refine ⟨whole, fun b => ?_, by decide +kernel, fun b => ?_⟩
  · exact (run_in_rounds whole).1 b _ (Prod.ext completed rfl)
  · exact (run_in_rounds twice).2.1 b _ _ (Prod.ext stopped rfl)

end Machine
end Rv32

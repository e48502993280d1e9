/-
# `Rv32.Proofs.Board.Run` — how many instructions a run is summed up with

A run is summed up with the cycles of the machine, once for each hart.  This is the number of
steps that were made if all harts made the same number of steps, and they do in every run that
is not stopped by a hart: one that is over, or that ended with last words of the guest.

A hart that stops the machine has made more steps than the harts after it, and less than those
before it, unless its turn was over.  What is counted are its own steps.  With one hart this is
the number of steps again; with more it is not.  Either way it is at most the cycles of the run,
once for each hart, and does not outgrow a word of 64 bits unless that does.

The beats of a run are those that its chunks played, and `Tally` is what is known of them: it is
put together from one chunk after the other.
-/
import Mathlib.Algebra.BigOperators.Group.Finset.Basic
import Mathlib.Algebra.BigOperators.Group.Finset.Piecewise
import Rv32.Board.Run
import Rv32.Command.Summary
import Rv32.Proofs.Machine.Schedule

namespace Rv32

/-! ## Counting steps -/

/-- Whether a hart takes a step. -/
def Beat.isStep : Beat → Bool
  | .check _ => false
  | .step _ => true

/-- All steps are steps of a hart. -/
theorem countP_isStep {harts : Nat} {beats : List Beat} (places : ∀ b ∈ beats, b.place < harts) :
    beats.countP Beat.isStep = ∑ i ∈ Finset.range harts, beats.count (.step i) := by
  induction beats with
  | nil => exact Finset.sum_const_zero.symm
  | cons b rest ih =>
    rw [List.countP_cons, ih fun b mem => places b (List.mem_cons_of_mem _ mem)]
    cases b with
    | check i =>
      simp only [List.count_cons, Beat.isStep, reduceCtorEq, beq_iff_eq, if_false, Nat.add_zero,
        Bool.false_eq_true]
    | step place =>
      have inside : place < harts := places (.step place) List.mem_cons_self
      simp only [List.count_cons, Beat.isStep, beq_iff_eq, Beat.step.injEq, if_true]
      rw [Finset.sum_add_distrib, Finset.sum_ite_eq, if_pos (Finset.mem_range.mpr inside)]

/-- What is known of the steps among some beats, by the way a run ended: each hart made the same
number of steps, or the one that stopped the run did, with the last beat. -/
inductive Tally (harts n : Nat) (beats : List Beat) : RunResult → Prop
  | completed (all : ∀ i < harts, beats.count (.step i) = n) : Tally harts n beats .completed
  | stopped {hart place : Nat} {past : List Beat} (last : beats = past ++ [.step place])
      (own : beats.count (.step place) = n) : Tally harts n beats (.stopped hart)

namespace Tally

variable {harts n n' : Nat} {beats beats' : List Beat} {result : RunResult}

theorem append (first : Tally harts n beats .completed) (rest : Tally harts n' beats' result)
    (places : ∀ b ∈ beats', b.place < harts) :
    Tally harts (n + n') (beats ++ beats') result := by
  cases first with
  | completed all =>
    cases rest with
    | completed all' =>
      refine .completed fun i inside => ?_
      rw [List.count_append, all i inside, all' i inside]
    | @stopped hart place past last own =>
      have member : Beat.step place ∈ beats' := by
        rw [last]
        exact List.mem_append_right _ List.mem_cons_self
      have last' : beats ++ beats' = (beats ++ past) ++ [.step place] := by
        rw [last, List.append_assoc]
      refine .stopped last' ?_
      rw [List.count_append, all place (places _ member), own]

/-- If all harts made the same number of steps, that is how many there are. -/
theorem steps (tally : Tally harts n beats .completed) (places : ∀ b ∈ beats, b.place < harts) :
    beats.countP Beat.isStep = n * harts := by
  cases tally with
  | completed all =>
    rw [countP_isStep places,
      Finset.sum_const_nat fun i mem => all i (Finset.mem_range.mp mem), Finset.card_range,
      Nat.mul_comm]

/-- So it is with one hart, which makes all of them. -/
theorem steps_single (tally : Tally harts n beats result)
    (places : ∀ b ∈ beats, b.place < harts) (single : harts ≤ 1) :
    beats.countP Beat.isStep = n * harts := by
  cases tally with
  | completed all => exact steps (.completed all) places
  | @stopped hart place past last own =>
    have member : Beat.step place ∈ beats := by
      rw [last]
      exact List.mem_append_right _ List.mem_cons_self
    have inside : place < harts := places _ member
    obtain rfl : harts = 1 := by omega
    obtain rfl : place = 0 := by omega
    rw [countP_isStep places, Finset.sum_range_one, own, Nat.mul_one]

end Tally

/-- The last line of a run begins with the number. -/
theorem Summary.render_begins (executed nanoseconds : Nat) :
    ∃ rest, render executed nanoseconds = toString executed ++ " instructions in " ++ rest := by
  let time := max nanoseconds 1
  refine ⟨Fixed.render 3 time 1000000000 ++ (" s: " ++
    (Fixed.render 0 (executed * 1000000000) time ++ (" IPS (" ++
      (Fixed.render 2 (executed * 1000) time ++ " MIPS)")))), ?_⟩
  simp only [render, String.append_assoc, time]

/-! ## Machines -/

namespace Machine

/-- Beats up to the first that stops the machine, and with it. -/
def upToStop : Machine → List Beat → List Beat
  | _, [] => []
  | m, b :: rest => b :: if (m.stopper? b).isSome then [] else (m.play b).upToStop rest

/-- The beats that a run plays. -/
def beats (m : Machine) (cycles : Nat) : List Beat := m.upToStop (m.schedule cycles)

variable {m m' : Machine} {cycles : Nat}

theorem Quiet.upToStop_append {past : List Beat} (quiet : m.Quiet past) (rest : List Beat) :
    m.upToStop (past ++ rest) = past ++ (m.playAll past).upToStop rest := by
  induction past generalizing m with
  | nil => rfl
  | cons b past ih =>
    rw [List.cons_append, upToStop, quiet.1]
    exact congrArg (b :: ·) (ih quiet.2)

/-- A run that is completed has played its schedule, and counts its cycles. -/
theorem run_completed (run : m.run cycles = (.completed, m')) :
    m.beats cycles = m.schedule cycles ∧
      m' = (m.playAll (m.beats cycles)).counting (m.executed + cycles) := by
  obtain ⟨quiet, rfl⟩ := ((m.followsSchedule cycles).completed m').mp run
  have all : m.beats cycles = m.schedule cycles := by
    have whole := quiet.upToStop_append []
    rwa [List.append_nil, upToStop, List.append_nil] at whole
  exact ⟨all, by rw [all]⟩

/-- A run that is stopped has played a step of the hart that stopped it last, and counts the
steps of this hart. -/
theorem run_stopped {hart : Nat} (run : m.run cycles = (.stopped hart, m')) :
    ∃ past place, m.beats cycles = past ++ [.step place] ∧
      (m.playAll past).stopper? (.step place) = some hart ∧
      m' = (m.playAll (m.beats cycles)).counting
        (m.executed + (m.beats cycles).count (.step place)) := by
  obtain ⟨past, place, future, split, quiet, stops, rfl⟩ :=
    ((m.followsSchedule cycles).stopped hart m').mp run
  have played : m.beats cycles = past ++ [.step place] := by
    rw [beats, split, quiet.upToStop_append, upToStop, stops]
    rfl
  refine ⟨past, place, played, stops, ?_⟩
  rw [played, playAll_append, List.count_append, List.count_singleton_self]
  rfl

theorem upToStop_sublist (m : Machine) (bs : List Beat) : (m.upToStop bs).Sublist bs := by
  induction bs generalizing m with
  | nil => exact .slnil
  | cons b rest ih =>
    rw [upToStop]
    split
    · exact (List.nil_sublist rest).cons_cons b
    · exact (ih _).cons_cons b

theorem place_lt_of_mem_beats {b : Beat} (mem : b ∈ m.beats cycles) : b.place < m.harts.length :=
  place_lt_of_mem ((upToStop_sublist _ _).subset mem)

/-- The steps that a run counts are those of a hart, which has no more than its cycles. -/
theorem tally_run (m : Machine) (cycles : Nat) :
    ∃ n ≤ cycles, (m.run cycles).2.executed = m.executed + n ∧
      Tally m.harts.length n (m.beats cycles) (m.run cycles).1 := by
  rcases run : m.run cycles with ⟨_ | hart, m'⟩
  case completed =>
    obtain ⟨all, rfl⟩ := run_completed run
    refine ⟨cycles, le_rfl, rfl, .completed fun i inside => ?_⟩
    rw [all]
    exact (count_schedule cycles inside).1
  case stopped =>
    obtain ⟨past, place, last, -, rfl⟩ := run_stopped run
    have member : Beat.step place ∈ m.beats cycles := by
      rw [last]
      exact List.mem_append_right _ List.mem_cons_self
    have own : (m.schedule cycles).count (.step place) = cycles :=
      (count_schedule cycles (place_lt_of_mem_beats member)).1
    have few : (m.beats cycles).count (.step place) ≤ cycles :=
      ((upToStop_sublist m (m.schedule cycles)).count_le _).trans own.le
    exact ⟨_, few, rfl, .stopped last rfl⟩

theorem harts_length_run (m : Machine) (cycles : Nat) :
    (m.run cycles).2.harts.length = m.harts.length :=
  run_induct (P := fun m' => m'.harts.length = m.harts.length)
    (fun m' slice same => by
      have configs := congrArg List.length (m'.round_configs slice)
      rw [List.length_map, List.length_map] at configs
      exact configs.trans same)
    cycles rfl

end Machine

/-! ## Boards -/

namespace Board

/-- What a host does with a board between two chunks: it may let time pass, and take what was
printed, but it neither runs harts nor counts. -/
structure Host (act : Board → Board) : Prop where
  harts : ∀ b, (act b).machine.harts = b.machine.harts
  executed : ∀ b, (act b).machine.executed = b.machine.executed

theorem host_id : Host id := ⟨fun _ => rfl, fun _ => rfl⟩

/-- The host that runs the program shows what was printed, and lets time pass. -/
theorem host_attending (microseconds : Nat) : Host fun b => b.drained.later microseconds :=
  ⟨fun _ => rfl, fun _ => rfl⟩

/-- A run with a host. -/
def runActing (act : Board → Board) (b : Board) (cycles : Nat) : Board :=
  Id.run (b.runWith (fun b => pure (act b)) cycles)

/-- A host that does nothing between chunks. -/
theorem run_eq_runActing (b : Board) (cycles : Nat) : b.run cycles = runActing id b cycles := rfl

/-- The course of a run: the beats of its chunks, and how the last chunk ended. -/
def course (act : Board → Board) (b : Board) (cycles : Nat) : List Beat × RunResult :=
  if _h : cycles = 0 then ([], .completed)
  else
    let length := min cycles chunkLength
    let (ended, b') := b.chunk length
    if ended then (b.machine.beats length, (b.machine.run length).1)
    else
      let (beats, result) := course act (act b') (cycles - length)
      (b.machine.beats length ++ beats, result)
termination_by cycles
decreasing_by simp only [chunkLength]; omega

section
variable {act : Board → Board} {b : Board} {cycles : Nat}

theorem runActing_zero : runActing act b 0 = b := by
  rw [runActing, runWith, dif_pos rfl]
  rfl

theorem runActing_pos (pos : 0 < cycles) :
    runActing act b cycles =
      if (b.chunk (min cycles chunkLength)).1 then act (b.chunk (min cycles chunkLength)).2
      else runActing act (act (b.chunk (min cycles chunkLength)).2)
        (cycles - min cycles chunkLength) := by
  rw [runActing, runWith, dif_neg (Nat.ne_of_gt pos)]
  rcases b.chunk (min cycles chunkLength) with ⟨_ | _, b'⟩ <;> rfl

theorem course_zero : course act b 0 = ([], .completed) := by rw [course, dif_pos rfl]

theorem course_ended (pos : 0 < cycles) (ended : (b.chunk (min cycles chunkLength)).1 = true) :
    course act b cycles = (b.machine.beats (min cycles chunkLength),
      (b.machine.run (min cycles chunkLength)).1) := by
  rw [course, dif_neg (Nat.ne_of_gt pos)]
  dsimp only
  rw [if_pos ended]

theorem course_onward (pos : 0 < cycles) (onward : (b.chunk (min cycles chunkLength)).1 = false) :
    course act b cycles =
      (b.machine.beats (min cycles chunkLength) ++
          (course act (act (b.chunk (min cycles chunkLength)).2)
            (cycles - min cycles chunkLength)).1,
        (course act (act (b.chunk (min cycles chunkLength)).2)
          (cycles - min cycles chunkLength)).2) := by
  rw [course, dif_neg (Nat.ne_of_gt pos)]
  dsimp only
  rw [if_neg (by rw [onward]; exact Bool.false_ne_true)]

end

/-! ### Listening -/

theorem afterTake_counts (m : Machine) (channel : Nat) :
    (afterTake m channel).harts = m.harts ∧ (afterTake m channel).executed = m.executed := by
  unfold afterTake
  split <;> exact ⟨rfl, rfl⟩

theorem hearComponent_counts (b : Board) :
    b.hearComponent.machine.harts = b.machine.harts ∧
      b.hearComponent.machine.executed = b.machine.executed := by
  unfold hearComponent
  split
  · exact ⟨rfl, rfl⟩
  · exact afterTake_counts b.machine b.component

theorem hearLastWords_counts (b : Board) :
    b.hearLastWords.2.machine.harts = b.machine.harts ∧
      b.hearLastWords.2.machine.executed = b.machine.executed := by
  unfold hearLastWords
  split
  · exact ⟨rfl, rfl⟩
  · exact afterTake_counts b.machine b.lastWords

/-- The host listens to the guest, and counts nothing. -/
theorem listen_counts (b : Board) (result : RunResult) :
    (b.listen result).2.machine.harts = b.machine.harts ∧
      (b.listen result).2.machine.executed = b.machine.executed := by
  obtain ⟨harts, executed⟩ := b.hearComponent.hearLastWords_counts
  obtain ⟨harts', executed'⟩ := b.hearComponent_counts
  have heard := And.intro (harts.trans harts') (executed.trans executed')
  revert heard
  unfold listen
  rcases b.hearComponent.hearLastWords with ⟨_ | _, b'⟩ <;> cases result <;> exact id

/-- A run does not go on after a chunk that a hart stopped. -/
theorem completed_of_listen {b : Board} {result : RunResult}
    (onward : (b.listen result).1 = false) : result = .completed := by
  revert onward
  unfold listen
  rcases b.hearComponent.hearLastWords with ⟨_ | _, b'⟩ <;> cases result
  all_goals first | exact fun _ => rfl | exact nofun

/-! ### Runs -/

/-- A run has the harts that it began with, and what it counts are the steps of one of them, which
has no more than the cycles of the run. -/
theorem tally_course {act : Board → Board} (host : Host act) (b : Board) (cycles : Nat) :
    (runActing act b cycles).machine.harts.length = b.machine.harts.length ∧
      (∀ x ∈ (course act b cycles).1, x.place < b.machine.harts.length) ∧
      ∃ n ≤ cycles, (runActing act b cycles).machine.executed = b.machine.executed + n ∧
        Tally b.machine.harts.length n (course act b cycles).1 (course act b cycles).2 := by
  induction cycles using Nat.strongRecOn generalizing b with
  | ind cycles ih =>
    rcases Nat.eq_zero_or_pos cycles with rfl | pos
    · rw [runActing_zero, course_zero]
      exact ⟨rfl, nofun, 0, le_rfl, rfl, .completed fun _ _ => rfl⟩
    · obtain ⟨n, few, counted, tally⟩ := b.machine.tally_run (min cycles chunkLength)
      have harts := b.machine.harts_length_run (min cycles chunkLength)
      obtain ⟨harts', counted'⟩ := listen_counts
        { b with machine := (b.machine.run (min cycles chunkLength)).2 }
        (b.machine.run (min cycles chunkLength)).1
      have chunkHarts : (act (b.chunk (min cycles chunkLength)).2).machine.harts.length =
          b.machine.harts.length :=
        (congrArg List.length ((host.harts _).trans harts')).trans harts
      have chunkCounts : (act (b.chunk (min cycles chunkLength)).2).machine.executed =
          b.machine.executed + n := ((host.executed _).trans counted').trans counted
      rw [runActing_pos pos]
      cases ended : (b.chunk (min cycles chunkLength)).1 with
      | true =>
        rw [if_pos rfl, course_ended pos ended]
        exact ⟨chunkHarts, fun x mem => Machine.place_lt_of_mem_beats mem, n,
          few.trans (min_le_left _ _), chunkCounts, tally⟩
      | false =>
        have chunkPos : 0 < chunkLength := by decide
        have rest := ih (cycles - min cycles chunkLength) (by omega)
          (act (b.chunk (min cycles chunkLength)).2)
        rw [chunkHarts] at rest
        obtain ⟨harts'', places, n', few', counted'', tally'⟩ := rest
        rw [if_neg Bool.false_ne_true, course_onward pos ended]
        have going : (b.machine.run (min cycles chunkLength)).1 = .completed :=
          completed_of_listen ended
        rw [going] at tally
        refine ⟨harts'', fun x mem => ?_, n + n', by omega, ?_, tally.append tally' places⟩
        · rcases List.mem_append.mp mem with early | late
          · exact Machine.place_lt_of_mem_beats early
          · exact places x late
        · rw [counted'', chunkCounts, Nat.add_assoc]

/-- How the number that a run is summed up with compares with the steps that were made. -/
structure SummedUp (act : Board → Board) (b : Board) (cycles : Nat) : Prop where
  /-- Unless a hart stops the run, it is the number of steps. -/
  onward : (course act b cycles).2 = .completed →
    (runActing act b cycles).executed = (course act b cycles).1.countP Beat.isStep
  /-- With one hart it always is. -/
  single : b.machine.harts.length ≤ 1 →
    (runActing act b cycles).executed = (course act b cycles).1.countP Beat.isStep
  /-- If a hart stops the run, with a step that is the last, its own steps are taken for those of
  every hart. -/
  stopped : ∀ hart, (course act b cycles).2 = .stopped hart →
    ∃ past place, (course act b cycles).1 = past ++ [.step place] ∧
      (runActing act b cycles).executed =
        (course act b cycles).1.count (.step place) * b.machine.harts.length
  /-- The run counts at most its cycles, and tells at most as many for each hart. -/
  bounded : (runActing act b cycles).machine.executed ≤ cycles ∧
    (runActing act b cycles).executed ≤ cycles * b.machine.harts.length
  /-- A product of words of 64 bits is the number, if such a word holds the cycles of all harts. -/
  word : cycles * b.machine.harts.length < 2 ^ 64 →
    (BitVec.ofNat 64 (runActing act b cycles).machine.executed *
        BitVec.ofNat 64 (runActing act b cycles).machine.harts.length).toNat =
      (runActing act b cycles).executed
  /-- The beats of a chunk are what its machine plays. -/
  played : ∀ (m : Machine) (cycles : Nat),
    ∃ executed, (m.run cycles).2 = (m.playAll (m.beats cycles)).counting executed
  /-- The last line begins with the number. -/
  told : ∀ nanoseconds, ∃ rest, Summary.render (runActing act b cycles).executed nanoseconds =
    toString (runActing act b cycles).executed ++ " instructions in " ++ rest

/-- The number that a run is summed up with is that of the steps, unless it is stopped by one of
several harts. -/
theorem run_summedUp {act : Board → Board} (host : Host act) {b : Board}
    (fresh : b.machine.executed = 0) (cycles : Nat) : SummedUp act b cycles := by
  obtain ⟨harts, places, n, few, counted, tally⟩ := tally_course host b cycles
  rw [fresh, Nat.zero_add] at counted
  have number : (runActing act b cycles).executed = n * b.machine.harts.length := by
    rw [executed, harts, counted]
  have bound : n * b.machine.harts.length ≤ cycles * b.machine.harts.length :=
    Nat.mul_le_mul_right _ few
  refine
    { onward := fun completed => ?onward
      single := fun single => number.trans (tally.steps_single places single).symm
      stopped := fun hart stopped => ?stopped
      bounded := ⟨counted.le.trans few, number.le.trans bound⟩
      word := fun short => ?word
      played := fun m cycles => ?played
      told := fun nanoseconds => ?told }
  case onward =>
    rw [completed] at tally
    exact number.trans (tally.steps places).symm
  case stopped =>
    rw [stopped] at tally
    cases tally with
    | @stopped _ place past last own => exact ⟨past, place, last, by rw [number, own]⟩
  case word =>
    rw [number, harts, counted, BitVec.toNat_mul, BitVec.toNat_ofNat, BitVec.toNat_ofNat,
      ← Nat.mul_mod, Nat.mod_eq_of_lt (bound.trans_lt short)]
  case played =>
    rcases run : m.run cycles with ⟨_ | hart, m'⟩
    · exact ⟨_, (Machine.run_completed run).2⟩
    · obtain ⟨past, place, -, -, counts⟩ := Machine.run_stopped run
      exact ⟨_, counts⟩
  case told => exact Summary.render_begins _ nanoseconds

/-- Two harts in turns of two instructions, the third of which stops the machine: both counted to
two before, and the first one is stopped. -/
theorem run_summedUp_of_counters :
    let hart := fun id => Hart.init ⟨id, 0, true, true⟩
    let m : Machine := ⟨⟨2, 2, 0, true⟩, [hart 0, hart 1],
      Mmu.ofProgram [0x85, 0x00, 0x85, 0x00, 0x02, 0x90], 0⟩
    let b : Board := ⟨m, 1, 2, 3⟩
    let act := fun b : Board => b.drained.later 500
    SummedUp act b 2 ∧ (runActing act b 2).executed = 4 ∧ SummedUp id b 4 := by
  intro hart m b act
  have two : min 2 chunkLength = 2 := by decide
  refine ⟨run_summedUp (host_attending 500) rfl 2, ?_, run_summedUp host_id rfl 4⟩
  rw [runActing_pos (by decide), two, if_neg (by decide +kernel), Nat.sub_self, runActing_zero]
  decide +kernel

/-- Two harts, and an instruction that stops the machine: one step is made, and two are told. -/
theorem run_summedUp_not_exact :
    let hart := fun id => Hart.init ⟨id, 0, true, true⟩
    let m : Machine := ⟨⟨2, 16, 0, true⟩, [hart 0, hart 1],
      Mmu.ofProgram [0x73, 0x00, 0x10, 0x00], 0⟩
    let b : Board := ⟨m, 1, 2, 3⟩
    b.machine.executed = 0 ∧ (course id b 1).1 = [.check 0, .step 0] ∧ (b.run 1).executed = 2 ∧
      (b.run 1).executed ≠ (course id b 1).1.countP Beat.isStep := by
  intro hart m b
  have one : min 1 chunkLength = 1 := by decide
  have ended : (b.chunk (min 1 chunkLength)).1 = true := by
    rw [one]
    decide +kernel
  have made : (course id b 1).1 = [.check 0, .step 0] := by
    rw [course_ended (by decide) ended, one]
    decide +kernel
  have told : (b.run 1).executed = 2 := by
    rw [run_eq_runActing, runActing_pos (by decide), if_pos ended, one]
    decide +kernel
  refine ⟨rfl, made, told, ?_⟩
  rw [made, told]
  decide

end Board
end Rv32

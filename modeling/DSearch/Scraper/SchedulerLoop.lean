import DSearch.Foundations.Runs
import DSearch.Scraper.Scheduler

/-! # `run_scheduler_loop` of `scraper/scheduler.rs`

A tick reloads the configuration, reads the clock and visits every job. `Tracked` adds to the state of
a job what the code does not keep: the refresh policies under which it completed. A job is a state
from its being added to its being removed. What a job does is `Tick.results`, any results of
`run_job`; a panic in it ends the loop. -/

namespace DSearch.Scheduler
set_option autoImplicit false
open Scraper Runs

def shouldRun (now : ℕ) (job : JobState) : Bool :=
  if job.completed then false
  else match job.refresh with
    | "once" => job.runCount = 0
    | "interval" | "on-change" => now ≥ addSecs job.lastRun job.intervalSecs
    | _ => false

/-- What the loop notes when `run_job` has returned. -/
def finished (now : ℕ) (result : Except String String) (job : JobState) : JobState :=
  match result with
  | .ok _ => { job with
      runCount := job.runCount + 1
      lastRun := now
      completed := if job.refresh = "once" then true else job.completed }
  | .error _ => { job with lastRun := now }  -- don't retry immediately on failure

def visit (now : ℕ) (result : Except String String) (job : JobState) : JobState :=
  if shouldRun now job then finished now result job else job

/-- What comes from outside in one round: the configuration, if it can be loaded, the clock, and the
result of each job that runs. -/
structure Tick where
  reload : Option (List ScrapeJob)
  now : ℕ
  now_lt : now < 2 ^ 64
  results : ℕ → Except String String

def reloaded (states : List JobState) : Option (List ScrapeJob) → List JobState
  | some jobs => syncJobStates states jobs
  | none => states

/-- One round of the loop: the states after it, and which of the jobs it ran. -/
def tick (t : Tick) (states : List JobState) : List JobState × List Bool :=
  let jobs := reloaded states t.reload
  (jobs.mapIdx fun i job => visit t.now (t.results i) job, jobs.map (shouldRun t.now))

def startStates (jobs : List ScrapeJob) : List JobState := jobs.map JobState.new

theorem shouldRun_due {now : ℕ} {job : JobState}
    (hrefresh : job.refresh = "interval" ∨ job.refresh = "on-change") :
    shouldRun now job = true ↔
      job.completed = false ∧ addSecs job.lastRun job.intervalSecs ≤ now := by
  unfold shouldRun
  cases job.completed with
  | true => simp
  | false =>
    obtain hrefresh | hrefresh := hrefresh
    · simp [hrefresh]
    · simp [hrefresh]

theorem shouldRun_once {now : ℕ} {job : JobState} (hrefresh : job.refresh = "once") :
    shouldRun now job = true ↔ job.completed = false ∧ job.runCount = 0 := by
  unfold shouldRun
  cases job.completed with
  | true => simp
  | false => simp [hrefresh]

/-! ## Jobs with their history -/

/-- A job's state, and the refresh policies under which it completed, the last one first. -/
structure Tracked where
  state : JobState
  completions : List String
  deriving DecidableEq

namespace Tracked

def new (state : JobState) : Tracked := ⟨state, []⟩

def visited (now : ℕ) (result : Except String String) (t : Tracked) : Tracked where
  state := visit now result t.state
  completions := match shouldRun now t.state, result with
    | true, .ok _ => t.state.refresh :: t.completions
    | _, _ => t.completions

/-- The jobs that stay come first and in their order (`syncJobStates_eq`); the others are new. -/
def reloaded (tracked : List Tracked) : Option (List ScrapeJob) → List Tracked
  | some jobs =>
    let kept := tracked.filter fun t => t.state.name ∈ jobs.map ScrapeJob.name
    let synced := syncJobStates (tracked.map state) jobs
    (kept.map fun t => ⟨updateFrom jobs t.state, t.completions⟩) ++
      (synced.drop kept.length).map new
  | none => tracked

def tick (t : Tick) (tracked : List Tracked) : List Tracked × List Bool :=
  let jobs := reloaded tracked t.reload
  (jobs.mapIdx fun i job => job.visited t.now (t.results i),
    jobs.map fun job => shouldRun t.now job.state)

def start (jobs : List ScrapeJob) : List Tracked := (startStates jobs).map new

theorem kept_eq (tracked : List Tracked) (jobs : List ScrapeJob) :
    (tracked.map state).filter (fun s => s.name ∈ jobs.map ScrapeJob.name) =
      (tracked.filter fun t => t.state.name ∈ jobs.map ScrapeJob.name).map state := by
  rw [List.filter_map]
  rfl

theorem reloaded_state (tracked : List Tracked) (reload : Option (List ScrapeJob)) :
    (reloaded tracked reload).map state = Scheduler.reloaded (tracked.map state) reload := by
  cases reload with
  | none => rfl
  | some jobs =>
    obtain ⟨fresh, heq, -⟩ := syncJobStates_eq (tracked.map state) jobs
    rw [kept_eq, List.map_map] at heq
    rw [Scheduler.reloaded, reloaded, heq, List.drop_append_of_le_length (by rw [List.length_map]),
      List.drop_eq_nil_of_le (by rw [List.length_map]), List.nil_append, List.map_append, List.map_map,
      List.map_map]
    congr 1
    exact List.map_id fresh

/-- Tracking changes nothing: the states and the jobs that run are those of the loop. -/
theorem tick_state (t : Tick) (tracked : List Tracked) :
    (tick t tracked).1.map state = (Scheduler.tick t (tracked.map state)).1 ∧
      (tick t tracked).2 = (Scheduler.tick t (tracked.map state)).2 := by
  rw [tick, Scheduler.tick, ← reloaded_state]
  dsimp only
  constructor
  · apply List.ext_getElem?
    intro i
    rw [List.getElem?_map, List.getElem?_mapIdx, List.getElem?_mapIdx, List.getElem?_map,
      Option.map_map, Option.map_map]
    rfl
  · rw [List.map_map]
    rfl

theorem runAll_state (jobs : List ScrapeJob) (ticks : List Tick) :
    (runAll tick ticks (start jobs)).1.map state =
        (runAll Scheduler.tick ticks (startStates jobs)).1 ∧
      (runAll tick ticks (start jobs)).2 = (runAll Scheduler.tick ticks (startStates jobs)).2 := by
  refine runAll_simulates (R := fun (tracked : List Tracked) states => tracked.map state = states) ?_ ?_
  · rintro t - tracked states rfl
    exact tick_state t tracked
  · rw [start, List.map_map]
    exact List.map_id _

/-- What the two fields of the state know of the history. -/
structure Counted (t : Tracked) : Prop where
  runCount : t.state.runCount = t.completions.length
  completed : t.state.completed = true ↔ "once" ∈ t.completions

theorem Counted.new {s : JobState} (hcount : s.runCount = 0) (hcompleted : s.completed = false) :
    Counted (new s) :=
  ⟨hcount, by simp [Tracked.new, hcompleted]⟩

theorem Counted.visited {t : Tracked} (h : Counted t) (now : ℕ) (result : Except String String) :
    Counted (t.visited now result) := by
  unfold Tracked.visited visit
  cases hrun : shouldRun now t.state with
  | false => exact ⟨h.runCount, h.completed⟩
  | true =>
    cases result with
    | error e => exact ⟨h.runCount, h.completed⟩
    | ok id =>
      refine ⟨?_, ?_⟩
      · show t.state.runCount + 1 = (t.state.refresh :: t.completions).length
        rw [h.runCount, List.length_cons]
      · show (if t.state.refresh = "once" then true else t.state.completed) = true ↔
          "once" ∈ t.state.refresh :: t.completions
        by_cases honce : t.state.refresh = "once"
        · simp [honce]
        · rw [if_neg honce, h.completed, List.mem_cons, or_iff_right (Ne.symm honce)]

theorem counted_reloaded {tracked : List Tracked} (h : ∀ t ∈ tracked, Counted t)
    (reload : Option (List ScrapeJob)) : ∀ t ∈ reloaded tracked reload, Counted t := by
  cases reload with
  | none => exact h
  | some jobs =>
    obtain ⟨fresh, heq, hfresh⟩ := syncJobStates_eq (tracked.map state) jobs
    rw [kept_eq, List.map_map] at heq
    intro t ht
    rw [reloaded, heq, List.drop_append_of_le_length (by rw [List.length_map]),
      List.drop_eq_nil_of_le (by rw [List.length_map]), List.nil_append] at ht
    rcases List.mem_append.mp ht with ht | ht
    · obtain ⟨old, hold, rfl⟩ := List.mem_map.mp ht
      obtain ⟨hcount, hcompleted⟩ := h old (List.mem_filter.mp hold).1
      refine ⟨?_, ?_⟩
      · rw [updateFrom_runCount]
        exact hcount
      · rw [updateFrom_completed]
        exact hcompleted
    · obtain ⟨s, hs, rfl⟩ := List.mem_map.mp ht
      obtain ⟨-, -, hcount, hcompleted⟩ := hfresh s hs
      exact Counted.new hcount hcompleted

theorem counted_tick (t : Tick) {tracked : List Tracked} (h : ∀ t ∈ tracked, Counted t) :
    ∀ job ∈ (tick t tracked).1, Counted job := by
  intro job hjob
  obtain ⟨i, hi, rfl⟩ := List.mem_mapIdx.mp hjob
  exact (counted_reloaded h t.reload _ (List.getElem_mem hi)).visited _ _

theorem counted_start (jobs : List ScrapeJob) : ∀ t ∈ start jobs, Counted t := by
  intro t ht
  obtain ⟨s, hs, rfl⟩ := List.mem_map.mp ht
  obtain ⟨job, -, rfl⟩ := List.mem_map.mp hs
  exact Counted.new rfl rfl

/-! ## Which jobs run when they are due -/

/-- A job of an interval runs when the interval is over, a job that runs once until it completed. -/
def RunsWhenDue (now : ℕ) (t : Tracked) : Prop :=
  (t.state.refresh = "interval" ∨ t.state.refresh = "on-change" →
    (shouldRun now t.state = true ↔ t.state.lastRun + t.state.intervalSecs ≤ now)) ∧
  (t.state.refresh = "once" → (shouldRun now t.state = true ↔ t.completions = []))

/-- A job of an interval that completed as a job that runs once is not due again; and the end of any
other's interval is a number of 64 bits, or is not reached even after it wrapped around. -/
def NotForgotten (now : ℕ) (t : Tracked) : Prop :=
  t.state.refresh = "interval" ∨ t.state.refresh = "on-change" →
    ("once" ∈ t.completions → now < t.state.lastRun + t.state.intervalSecs) ∧
    ("once" ∉ t.completions → t.state.lastRun + t.state.intervalSecs < 2 ^ 64 ∨
      now < addSecs t.state.lastRun t.state.intervalSecs)

theorem runsWhenDue_iff {now : ℕ} (hnow : now < 2 ^ 64) {t : Tracked} (h : Counted t) :
    RunsWhenDue now t ↔ NotForgotten now t := by
  have honce : t.state.refresh = "once" → (shouldRun now t.state = true ↔ t.completions = []) := by
    intro hrefresh
    rw [shouldRun_once hrefresh, h.runCount, List.length_eq_zero_iff]
    constructor
    · exact fun hruns => hruns.2
    · intro hnil
      refine ⟨?_, hnil⟩
      have hcompleted := h.completed
      rw [hnil] at hcompleted
      simpa using hcompleted
  rw [RunsWhenDue, and_iff_left honce, NotForgotten]
  refine imp_congr_right fun hrefresh => ?_
  rw [shouldRun_due hrefresh]
  by_cases hcompleted : "once" ∈ t.completions
  · have hstate := h.completed.mpr hcompleted
    simp [hstate, hcompleted]
  · have hstate : t.state.completed = false := by
      rw [← Bool.not_eq_true]
      exact fun heq => hcompleted (h.completed.mp heq)
    simp only [hstate, hcompleted, false_implies, not_false_eq_true, true_and, forall_const]
    unfold addSecs
    generalize t.state.lastRun + t.state.intervalSecs = due
    by_cases hwraps : due < 2 ^ 64
    · rw [Nat.mod_eq_of_lt hwraps]
      exact ⟨fun _ => .inl hwraps, fun _ => Iff.rfl⟩
    · simp only [hwraps, false_or]
      omega

end Tracked

/-- The job completes, and its policy is changed to an interval: it never runs again. -/
def onceThenInterval : List Tick :=
  [⟨none, 1000, by decide, fun _ => .ok "r1"⟩,
    ⟨some [oldJob .url .interval], 10000, by decide, fun _ => .ok "r2"⟩]

end DSearch.Scheduler

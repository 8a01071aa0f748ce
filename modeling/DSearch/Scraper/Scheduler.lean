import DSearch.Foundations.Matching
import DSearch.Scraper.Job

/-! # `sync_job_states` of `scraper/scheduler.rs`

A reload adds the states of new jobs, removes those of jobs that are gone, and carries the settings of
the others over. `JobSpec` is what a state and a job have in common: after a reload the states should
be the jobs, matched one to one. -/

namespace DSearch.Scheduler
set_option autoImplicit false
open Scraper Matching

def addNew (states : List JobState) (job : ScrapeJob) : List JobState :=
  if states.any fun s => s.name = job.name then states else states ++ [JobState.new job]

def updateFrom (jobs : List ScrapeJob) (state : JobState) : JobState :=
  match jobs.find? fun j => j.name = state.name with
  | some job => { state with
      target := job.target
      intervalSecs := job.intervalSecs
      ttlSecs := job.ttlSecs
      refresh := job.refresh.asStr
      lifecycle := job.lifecycle.asStr }
  | none => state

def syncJobStates (states : List JobState) (jobs : List ScrapeJob) : List JobState :=
  let added := jobs.foldl addNew states
  let jobNames := jobs.map ScrapeJob.name
  (added.filter fun s => jobNames.contains s.name).map (updateFrom jobs)

structure JobSpec where
  name : String
  source : String
  target : String
  refresh : String
  intervalSecs : ℕ
  lifecycle : String
  ttlSecs : ℕ
  deriving DecidableEq

def stateSpec (s : JobState) : JobSpec :=
  ⟨s.name, s.source, s.target, s.refresh, s.intervalSecs, s.lifecycle, s.ttlSecs⟩

def jobSpec (j : ScrapeJob) : JobSpec :=
  ⟨j.name, j.source.asStr, j.target, j.refresh.asStr, j.intervalSecs, j.lifecycle.asStr, j.ttlSecs⟩

/-- What a reload carries over to a state that is there already. -/
def JobSpec.settings (spec : JobSpec) : String × String × ℕ × String × ℕ :=
  (spec.target, spec.refresh, spec.intervalSecs, spec.lifecycle, spec.ttlSecs)

/-- The states of configured names, in their order, with their run count and last run; then states of
names that had none. -/
def HistoryKept (states : List JobState) (jobs : List ScrapeJob) (synced : List JobState) : Prop :=
  ∃ kept fresh, synced = kept ++ fresh ∧
    List.Forall₂ (fun old new => new.name = old.name ∧ new.runCount = old.runCount ∧
      new.lastRun = old.lastRun) (states.filter fun s => s.name ∈ jobs.map ScrapeJob.name) kept ∧
    ∀ s ∈ fresh, ∀ old ∈ states, old.name ≠ s.name

/-- The states are the jobs, one to one, and what was known before keeps its history. -/
def Reconciled (states : List JobState) (jobs : List ScrapeJob) (synced : List JobState) : Prop :=
  Matched stateSpec jobSpec synced jobs ∧ HistoryKept states jobs synced

/-! ## What each of the three passes does -/

@[simp] theorem updateFrom_name (jobs : List ScrapeJob) (s : JobState) :
    (updateFrom jobs s).name = s.name := by
  unfold updateFrom
  split <;> rfl

@[simp] theorem updateFrom_source (jobs : List ScrapeJob) (s : JobState) :
    (updateFrom jobs s).source = s.source := by
  unfold updateFrom
  split <;> rfl

@[simp] theorem updateFrom_runCount (jobs : List ScrapeJob) (s : JobState) :
    (updateFrom jobs s).runCount = s.runCount := by
  unfold updateFrom
  split <;> rfl

@[simp] theorem updateFrom_lastRun (jobs : List ScrapeJob) (s : JobState) :
    (updateFrom jobs s).lastRun = s.lastRun := by
  unfold updateFrom
  split <;> rfl

@[simp] theorem updateFrom_completed (jobs : List ScrapeJob) (s : JobState) :
    (updateFrom jobs s).completed = s.completed := by
  unfold updateFrom
  split <;> rfl

/-- The first job of the name gives the settings. -/
theorem updateFrom_settings {jobs : List ScrapeJob} {s : JobState} {first : ScrapeJob}
    (hfirst : (withKey ScrapeJob.name s.name jobs).head? = some first) :
    (stateSpec (updateFrom jobs s)).settings = (jobSpec first).settings := by
  rw [withKey, List.head?_filter] at hfirst
  unfold updateFrom
  rw [hfirst]
  rfl

/-- The first pass appends states of jobs whose names have none. -/
theorem foldl_addNew_eq (states : List JobState) (jobs : List ScrapeJob) :
    ∃ fresh, jobs.foldl addNew states = states ++ fresh ∧
      ∀ s ∈ fresh, (∀ old ∈ states, old.name ≠ s.name) ∧ ∃ job ∈ jobs, s = JobState.new job := by
  induction jobs generalizing states with
  | nil => exact ⟨[], (List.append_nil states).symm, by simp⟩
  | cons job jobs ih =>
    rw [List.foldl_cons, addNew]
    split
    · obtain ⟨fresh, heq, hfresh⟩ := ih states
      refine ⟨fresh, heq, fun s hs => ?_⟩
      obtain ⟨hnew, j, hj, hs⟩ := hfresh s hs
      exact ⟨hnew, j, List.mem_cons_of_mem job hj, hs⟩
    · next hnone =>
      obtain ⟨fresh, heq, hfresh⟩ := ih (states ++ [JobState.new job])
      refine ⟨JobState.new job :: fresh, by rw [heq, List.append_assoc, List.singleton_append], ?_⟩
      intro s hs
      rcases List.mem_cons.mp hs with rfl | hs
      · refine ⟨fun old hold hname => hnone ?_, job, List.mem_cons_self, rfl⟩
        rw [List.any_eq_true]
        exact ⟨old, hold, decide_eq_true (show old.name = job.name from hname)⟩
      · obtain ⟨hnew, j, hj, hs⟩ := hfresh s hs
        exact ⟨fun old hold => hnew old (List.mem_append_left _ hold), j,
          List.mem_cons_of_mem job hj, hs⟩

/-- Of one name: the states there are, or else the state of the first job. -/
theorem withKey_foldl_addNew (states : List JobState) (jobs : List ScrapeJob) (name : String) :
    withKey JobState.name name (jobs.foldl addNew states) =
      if withKey JobState.name name states = [] then
        ((withKey ScrapeJob.name name jobs).head?.map JobState.new).toList
      else withKey JobState.name name states := by
  induction jobs generalizing states with
  | nil =>
    show withKey JobState.name name states = if _ then [] else _
    split
    · next hnil => exact hnil
    · rfl
  | cons job jobs ih =>
    rw [List.foldl_cons, ih, addNew]
    by_cases hany : states.any fun s => s.name = job.name
    · rw [if_pos hany]
      by_cases hname : job.name = name
      · have hstates : withKey JobState.name name states ≠ [] := by
          intro hnil
          obtain ⟨s, hs, heq⟩ := List.any_eq_true.mp hany
          exact withKey_eq_nil.mp hnil s hs ((of_decide_eq_true heq).trans hname)
        rw [if_neg hstates, if_neg hstates]
      · rw [withKey, withKey, withKey, List.filter_cons_of_neg (by simpa using hname)]
    · rw [if_neg hany, withKey_append]
      by_cases hname : job.name = name
      · have hstates : withKey JobState.name name states = [] := by
          rw [withKey_eq_nil]
          intro s hs heq
          exact hany (List.any_eq_true.mpr ⟨s, hs, by simpa using heq.trans hname.symm⟩)
        have hnew : withKey JobState.name name [JobState.new job] = [JobState.new job] := by
          simp [withKey, JobState.new, hname]
        have hhead : (withKey ScrapeJob.name name (job :: jobs)).head? = some job := by
          simp [withKey, hname]
        rw [hstates, hnew, hhead]
        rfl
      · have hnew : withKey JobState.name name [JobState.new job] = [] := by
          simp [withKey, JobState.new, hname]
        have hjobs : withKey ScrapeJob.name name (job :: jobs) = withKey ScrapeJob.name name jobs := by
          simp [withKey, hname]
        rw [hnew, List.append_nil, hjobs]

theorem syncJobStates_eq (states : List JobState) (jobs : List ScrapeJob) :
    ∃ fresh, syncJobStates states jobs =
      ((states.filter fun s => s.name ∈ jobs.map ScrapeJob.name).map (updateFrom jobs)) ++ fresh ∧
      ∀ s ∈ fresh, (∀ old ∈ states, old.name ≠ s.name) ∧ s.lastRun = 0 ∧ s.runCount = 0 ∧
        s.completed = false := by
  obtain ⟨fresh, heq, hfresh⟩ := foldl_addNew_eq states jobs
  refine ⟨(fresh.filter fun s => (jobs.map ScrapeJob.name).contains s.name).map (updateFrom jobs),
    ?_, ?_⟩
  · rw [syncJobStates, heq, List.filter_append, List.map_append]
    congr 2
    apply List.filter_congr
    intro s _
    rw [List.contains_eq_mem]
  · intro s hs
    obtain ⟨added, hadded, rfl⟩ := List.mem_map.mp hs
    obtain ⟨hnew, job, -, rfl⟩ := hfresh added (List.mem_filter.mp hadded).1
    refine ⟨fun old hold => ?_, ?_, ?_, ?_⟩
    · rw [updateFrom_name]
      exact hnew old hold
    · rw [updateFrom_lastRun]
      rfl
    · rw [updateFrom_runCount]
      rfl
    · rw [updateFrom_completed]
      rfl

theorem historyKept_syncJobStates (states : List JobState) (jobs : List ScrapeJob) :
    HistoryKept states jobs (syncJobStates states jobs) := by
  obtain ⟨fresh, heq, hfresh⟩ := syncJobStates_eq states jobs
  refine ⟨_, fresh, heq, ?_, fun s hs => (hfresh s hs).1⟩
  rw [List.forall₂_map_right_iff]
  exact List.forall₂_same.mpr fun s _ =>
    ⟨updateFrom_name jobs s, updateFrom_runCount jobs s, updateFrom_lastRun jobs s⟩

theorem withKey_syncJobStates (states : List JobState) (jobs : List ScrapeJob) (name : String) :
    withKey JobState.name name (syncJobStates states jobs) =
      if withKey ScrapeJob.name name jobs = [] then []
      else (withKey JobState.name name (jobs.foldl addNew states)).map (updateFrom jobs) := by
  rw [syncJobStates, withKey_map (updateFrom_name jobs)]
  by_cases hjobs : withKey ScrapeJob.name name jobs = []
  · rw [if_pos hjobs, List.map_eq_nil_iff, withKey_eq_nil]
    intro s hs heq
    obtain ⟨job, hjob, hname⟩ := List.mem_map.mp (by simpa using (List.mem_filter.mp hs).2)
    exact withKey_eq_nil.mp hjobs job hjob (hname.trans heq)
  · rw [if_neg hjobs, withKey, List.filter_filter, withKey]
    congr 1
    apply List.filter_congr
    intro s _
    have hconfigured : s.name = name → (jobs.map ScrapeJob.name).contains s.name = true := by
      intro heq
      obtain ⟨job, hjob⟩ := List.exists_mem_of_ne_nil _ hjobs
      obtain ⟨hjob, hname⟩ := mem_withKey.mp hjob
      rw [List.contains_eq_mem, decide_eq_true_eq, heq, ← hname]
      exact List.mem_map_of_mem hjob
    by_cases heq : s.name = name
    · rw [hconfigured heq, Bool.and_true]
    · simp [heq]

/-! ## When a reload reconciles -/

/-- A new name is the name of one job; the jobs of a name that has states have one setting, and the
sources of these states. -/
def SourcesKept (states : List JobState) (jobs : List ScrapeJob) : Prop :=
  ∀ name : String,
    (withKey JobState.name name states = [] → (withKey ScrapeJob.name name jobs).length ≤ 1) ∧
    (withKey JobState.name name states ≠ [] → withKey ScrapeJob.name name jobs ≠ [] →
      (∀ j ∈ withKey ScrapeJob.name name jobs, ∀ j' ∈ withKey ScrapeJob.name name jobs,
        (jobSpec j).settings = (jobSpec j').settings) ∧
      ((withKey JobState.name name states).map JobState.source).Perm
        ((withKey ScrapeJob.name name jobs).map fun j => j.source.asStr))

theorem withKey_jobSpec (jobs : List ScrapeJob) (name : String) :
    withKey JobSpec.name name (jobs.map jobSpec) = (withKey ScrapeJob.name name jobs).map jobSpec :=
  withKey_map (fun _ => rfl) name jobs

theorem withKey_stateSpec (states : List JobState) (name : String) :
    withKey JobSpec.name name (states.map stateSpec) =
      (withKey JobState.name name states).map stateSpec :=
  withKey_map (fun _ => rfl) name states

/-- A name without a state gets the state of its first job, which must be its only one. -/
theorem reconciled_new_iff {states : List JobState} {jobs : List ScrapeJob} {name : String}
    (hstates : withKey JobState.name name states = []) :
    ((withKey JobState.name name (syncJobStates states jobs)).map stateSpec).Perm
        ((withKey ScrapeJob.name name jobs).map jobSpec) ↔
      (withKey ScrapeJob.name name jobs).length ≤ 1 := by
  rw [withKey_syncJobStates, withKey_foldl_addNew, if_pos hstates]
  cases hjobs : withKey ScrapeJob.name name jobs with
  | nil => simp
  | cons first rest =>
    have hname : first.name = name := (mem_withKey.mp (hjobs ▸ List.mem_cons_self)).2
    have hfirst : stateSpec (updateFrom jobs (JobState.new first)) = jobSpec first := by
      have hhead : (withKey ScrapeJob.name (JobState.new first).name jobs).head? = some first := by
        rw [show (JobState.new first).name = name from hname, hjobs]
        rfl
      unfold updateFrom
      rw [withKey, List.head?_filter] at hhead
      rw [hhead]
      rfl
    rw [if_neg (by simp), List.head?_cons, Option.map_some, Option.toList_some, List.map_singleton,
      List.map_singleton, hfirst, List.map_cons]
    constructor
    · intro hperm
      have hlength := hperm.length_eq
      rw [List.length_singleton, List.length_cons, List.length_map] at hlength
      rw [List.length_cons]
      omega
    · intro hlength
      obtain rfl : rest = [] := List.eq_nil_of_length_eq_zero (by
        rw [List.length_cons] at hlength
        omega)
      exact List.Perm.refl _

/-- The states of a name keep their sources and take the settings of its first job. -/
theorem reconciled_known_iff {states : List JobState} {jobs : List ScrapeJob} {name : String}
    (hstates : withKey JobState.name name states ≠ [])
    (hjobs : withKey ScrapeJob.name name jobs ≠ []) :
    ((withKey JobState.name name (syncJobStates states jobs)).map stateSpec).Perm
        ((withKey ScrapeJob.name name jobs).map jobSpec) ↔
      (∀ j ∈ withKey ScrapeJob.name name jobs, ∀ j' ∈ withKey ScrapeJob.name name jobs,
        (jobSpec j).settings = (jobSpec j').settings) ∧
      ((withKey JobState.name name states).map JobState.source).Perm
        ((withKey ScrapeJob.name name jobs).map fun j => j.source.asStr) := by
  obtain ⟨first, hfirst⟩ : ∃ first, (withKey ScrapeJob.name name jobs).head? = some first := by
    cases hlist : withKey ScrapeJob.name name jobs with
    | nil => exact absurd hlist hjobs
    | cons first rest => exact ⟨first, rfl⟩
  have hmem : first ∈ withKey ScrapeJob.name name jobs := List.mem_of_mem_head? hfirst
  let specOf (source : String) : JobSpec := { jobSpec first with source := source }
  have hsynced : (withKey JobState.name name (syncJobStates states jobs)).map stateSpec =
      ((withKey JobState.name name states).map JobState.source).map specOf := by
    rw [withKey_syncJobStates, if_neg hjobs, withKey_foldl_addNew, if_neg hstates, List.map_map,
      List.map_map]
    apply List.map_congr_left
    intro s hs
    have hname : s.name = name := (mem_withKey.mp hs).2
    have hfirstName : first.name = name := (mem_withKey.mp hmem).2
    rw [← hname] at hfirst
    have hsettings := updateFrom_settings hfirst
    simp only [JobSpec.settings, Prod.mk.injEq] at hsettings
    simp only [Function.comp_apply, specOf, stateSpec, jobSpec, JobSpec.mk.injEq, updateFrom_name,
      updateFrom_source] at hsettings ⊢
    exact ⟨hname.trans hfirstName.symm, trivial, hsettings⟩
  rw [hsynced]
  constructor
  · intro hperm
    have hsettings : ∀ j ∈ withKey ScrapeJob.name name jobs,
        (jobSpec j).settings = (jobSpec first).settings := by
      intro j hj
      obtain ⟨source, -, hspec⟩ := List.mem_map.mp (hperm.mem_iff.mpr (List.mem_map_of_mem hj))
      rw [← hspec]
      rfl
    refine ⟨fun j hj j' hj' => (hsettings j hj).trans (hsettings j' hj').symm, ?_⟩
    have hsources := hperm.map JobSpec.source
    simp only [List.map_map] at hsources
    exact hsources
  · rintro ⟨hsettings, hsources⟩
    have hspecs : (withKey ScrapeJob.name name jobs).map jobSpec =
        ((withKey ScrapeJob.name name jobs).map fun j => j.source.asStr).map specOf := by
      rw [List.map_map]
      apply List.map_congr_left
      intro j hj
      have hnames : j.name = first.name := (mem_withKey.mp hj).2.trans (mem_withKey.mp hmem).2.symm
      have hall := hsettings j hj first hmem
      simp only [JobSpec.settings, Prod.mk.injEq] at hall
      simp only [Function.comp_apply, specOf, jobSpec, JobSpec.mk.injEq] at hall ⊢
      exact ⟨hnames, trivial, hall⟩
    rw [hspecs]
    exact hsources.map specOf

/-- A reload matches the states with the jobs exactly if no name is new for two jobs, and the jobs of
a known name agree in their settings and have the sources that the states of the name had. -/
theorem syncJobStates_reconciles_iff (states : List JobState) (jobs : List ScrapeJob) :
    Reconciled states jobs (syncJobStates states jobs) ↔ SourcesKept states jobs := by
  rw [Reconciled, and_iff_left (historyKept_syncJobStates states jobs), matched_iff_perm,
    perm_iff_withKey JobSpec.name]
  apply forall_congr'
  intro name
  rw [withKey_stateSpec, withKey_jobSpec]
  by_cases hstates : withKey JobState.name name states = []
  · rw [reconciled_new_iff hstates]
    exact ⟨fun hlength => ⟨fun _ => hlength, fun hne => absurd hstates hne⟩, fun h => h.1 hstates⟩
  · by_cases hjobs : withKey ScrapeJob.name name jobs = []
    · rw [withKey_syncJobStates, if_pos hjobs, hjobs]
      exact ⟨fun _ => ⟨fun h => absurd h hstates, fun _ h => absurd rfl h⟩, fun _ => List.Perm.refl _⟩
    · rw [reconciled_known_iff hstates hjobs]
      exact ⟨fun h => ⟨fun hnil => absurd hnil hstates, fun _ _ => h⟩, fun h => h.2 hstates hjobs⟩

/-- The job of the source's tests, of any source and refresh policy. -/
def oldJob (source : ScrapeSource) (refresh : RefreshPolicy) : ScrapeJob where
  name := "old"
  source := source
  target := "https://old.example.com"
  transform := none
  refresh := refresh
  intervalSecs := 3600
  lifecycle := .ephemeral
  ttlSecs := 3600
  maxResults := none

/-- A job that was a page and is a feed now: its state still says it is a page. -/
theorem reload_keeps_source :
    ¬ ∀ (states : List JobState) (jobs : List ScrapeJob),
      Reconciled states jobs (syncJobStates states jobs) := by
  intro hclaim
  obtain ⟨hmatched, -⟩ := hclaim [JobState.new (oldJob .url .interval)] [oldJob .feed .interval]
  have hperm := matched_iff_perm.mp hmatched
  revert hperm
  decide

end DSearch.Scheduler

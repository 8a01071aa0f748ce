import DSearch.Foundations.Errands
import DSearch.Node.Limits
import DSearch.Storage.Records

/-! # Calls from the UI: `ui/async_api.rs`

The UI thread asks for paths and collects answers, and a worker thread makes the calls. Their steps come
in any order, and a call takes as long as it takes. -/

namespace DSearch
set_option autoImplicit false
open Errands Runs

structure ApiRequest where
  path : String
  dataDir : String
  deriving DecidableEq, Repr

/-- `line` is the two channels and the worker between them. -/
structure AsyncApi where
  line : Line ApiRequest (Option String)
  pending : Finset String
  lastRequest : Table ℕ

namespace AsyncApi

def new : AsyncApi := ⟨.empty, ∅, ∅⟩

def minInterval : ℕ := 2 * NANOS_PER_SEC

/-- The last request for a path is less than the interval ago. -/
def recent (s : AsyncApi) (path : String) (now : ℕ) : Bool :=
  match s.lastRequest[path]? with
  | some last => now - last < minInterval
  | none => false

def ensureRequested (path dataDir : String) (now : ℕ) (s : AsyncApi) : AsyncApi :=
  if path ∈ s.pending then s
  else if s.recent path now then s
  else
    { line := (Line.step (.ask ⟨path, dataDir⟩) s.line).1
      pending := insert path s.pending
      lastRequest := s.lastRequest.insert path now }

/-- One turn of the loop of `poll`. -/
def tryRecv (s : AsyncApi) : AsyncApi :=
  match s.line.ready with
  | [] => s
  | (req, _) :: _ =>
    { s with
      line := (Line.step .collect s.line).1
      pending := s.pending.erase req.path }

/-- A step of the UI thread, or one of the worker: it receives a request, has an answer, or sends it. -/
inductive Event where
  | ensureRequested (path dataDir : String) (now : ℕ)
  | tryRecv
  | recv
  | fetched (body : Option String)
  | send
  deriving DecidableEq, Repr

def step (s : AsyncApi) : Event → AsyncApi
  | .ensureRequested path dataDir now => s.ensureRequested path dataDir now
  | .tryRecv => s.tryRecv
  | .recv => { s with line := (Line.step .take s.line).1 }
  | .fetched body => { s with line := (Line.step (.answer body) s.line).1 }
  | .send => { s with line := (Line.step .give s.line).1 }

def run (events : List Event) (s : AsyncApi) : AsyncApi := events.foldl step s

/-- The request that is sent, with its time. -/
def sent (s : AsyncApi) : Event → Option (ApiRequest × ℕ)
  | .ensureRequested path dataDir now =>
    if path ∈ s.pending ∨ s.recent path now then none else some (⟨path, dataDir⟩, now)
  | _ => none

/-- What an event is to the line. -/
def act (s : AsyncApi) : Event → Option (Act ApiRequest (Option String))
  | .ensureRequested path dataDir now =>
    (s.sent (.ensureRequested path dataDir now)).map fun request => .ask request.1
  | .tryRecv => some .collect
  | .recv => some .take
  | .fetched body => some (.answer body)
  | .send => some .give

def acts : List Event → AsyncApi → List (Act ApiRequest (Option String))
  | [], _ => []
  | event :: events, s => (s.act event).toList ++ acts events (s.step event)

/-- The requests that are sent in a run. -/
def requested : List Event → AsyncApi → List (ApiRequest × ℕ)
  | [], _ => []
  | event :: events, s => (s.sent event).toList ++ requested events (s.step event)

theorem ensureRequested_cases (s : AsyncApi) (path dataDir : String) (now : ℕ) :
    (s.sent (.ensureRequested path dataDir now) = none ∧
      s.step (.ensureRequested path dataDir now) = s) ∨
    (s.sent (.ensureRequested path dataDir now) = some (⟨path, dataDir⟩, now) ∧
      path ∉ s.pending ∧ s.recent path now = false ∧
      s.step (.ensureRequested path dataDir now) =
        { line := { s.line with waiting := s.line.waiting ++ [⟨path, dataDir⟩] }
          pending := insert path s.pending
          lastRequest := s.lastRequest.insert path now }) := by
  unfold sent step ensureRequested
  dsimp only
  by_cases hpending : path ∈ s.pending
  · exact .inl ⟨if_pos (.inl hpending), if_pos hpending⟩
  · by_cases hrecent : s.recent path now = true
    · exact .inl ⟨if_pos (.inr hrecent), (if_neg hpending).trans (if_pos hrecent)⟩
    · exact .inr ⟨if_neg (not_or.mpr ⟨hpending, hrecent⟩), hpending, eq_false_of_ne_true hrecent,
        (if_neg hpending).trans (if_neg hrecent)⟩

theorem tryRecv_cases (s : AsyncApi) :
    (s.line.ready = [] ∧ s.step .tryRecv = s) ∨
    ∃ req body ready, s.line.ready = (req, body) :: ready ∧ s.step .tryRecv =
      { s with line := { s.line with ready := ready }, pending := s.pending.erase req.path } := by
  obtain ⟨⟨waiting, hand, ready⟩, pending, lastRequest⟩ := s
  cases ready with
  | nil => exact .inl ⟨rfl, rfl⟩
  | cons answer ready =>
    obtain ⟨req, body⟩ := answer
    exact .inr ⟨req, body, ready, rfl, rfl⟩

theorem line_step (s : AsyncApi) (event : Event) :
    (s.step event).line = (runAll Line.step (s.act event).toList s.line).1 := by
  cases event with
  | ensureRequested path dataDir now =>
    rw [act]
    rcases s.ensureRequested_cases path dataDir now with ⟨hsent, hstep⟩ | ⟨hsent, -, -, hstep⟩
    · rw [hstep, hsent]
      rfl
    · rw [hstep, hsent]
      rfl
  | tryRecv =>
    obtain ⟨⟨waiting, hand, ready⟩, pending, lastRequest⟩ := s
    cases ready with
    | nil => rfl
    | cons answer ready => rfl
  | recv => rfl
  | fetched body => rfl
  | send => rfl

theorem line_run (events : List Event) (s : AsyncApi) :
    (run events s).line = (runAll Line.step (acts events s) s.line).1 := by
  induction events generalizing s with
  | nil => rfl
  | cons event events ih =>
    rw [acts, runAll_append, ← line_step]
    exact ih (s.step event)

/-! ## What is pending -/

def paths (l : Line ApiRequest (Option String)) : List String := l.underWay.map ApiRequest.path

/-- What is pending is what is under way, once each; a path was last requested when it says so, and its
requests keep their distance. -/
structure Sound (s : AsyncApi) (past : List (ApiRequest × ℕ)) : Prop where
  pending : ∀ path, path ∈ s.pending ↔ path ∈ paths s.line
  once : (paths s.line).Nodup
  first : ∀ path, s.lastRequest[path]? = none → ∀ request ∈ past, request.1.path ≠ path
  last : ∀ path time, s.lastRequest[path]? = some time →
    ∀ request ∈ past, request.1.path = path → request.2 ≤ time
  apart : past.Pairwise fun a b => a.1.path = b.1.path → a.2 + minInterval ≤ b.2

theorem sound_new : Sound new [] where
  pending path := iff_of_false (Finset.notMem_empty path) List.not_mem_nil
  once := List.nodup_nil
  first _ _ _ hrequest := absurd hrequest List.not_mem_nil
  last _ _ _ _ hrequest := absurd hrequest List.not_mem_nil
  apart := List.Pairwise.nil

/-- A step of the worker. -/
theorem Sound.work {s : AsyncApi} {past : List (ApiRequest × ℕ)} (h : Sound s past)
    {line : Line ApiRequest (Option String)} (hsame : line.underWay = s.line.underWay) :
    Sound { s with line := line } past := by
  have hpaths : paths line = paths s.line := congrArg (List.map ApiRequest.path) hsame
  exact ⟨fun path => hpaths ▸ h.pending path, hpaths ▸ h.once, h.first, h.last, h.apart⟩

/-- A request that is sent. -/
theorem Sound.ask {s : AsyncApi} {past : List (ApiRequest × ℕ)} (h : Sound s past)
    {path : String} (dataDir : String) {now : ℕ} (hpending : path ∉ s.pending)
    (hrecent : s.recent path now = false) :
    Sound
      { line := { s.line with waiting := s.line.waiting ++ [⟨path, dataDir⟩] }
        pending := insert path s.pending
        lastRequest := s.lastRequest.insert path now }
      (past ++ [(⟨path, dataDir⟩, now)]) := by
  have hpaths : paths { s.line with waiting := s.line.waiting ++ [⟨path, dataDir⟩] } =
      paths s.line ++ [path] := by simp [paths, Line.underWay]
  -- all earlier requests for the path are an interval ago
  have hearlier : ∀ request ∈ past, request.1.path = path → request.2 + minInterval ≤ now := by
    intro request hrequest hsame
    unfold recent at hrecent
    split at hrecent
    · next time htime =>
      have hlast := h.last path time htime request hrequest hsame
      have hnow := of_decide_eq_false hrecent
      have hpositive : 0 < minInterval := by decide
      omega
    · next hnone => exact absurd hsame (h.first path hnone request hrequest)
  refine ⟨fun other => ?_, ?_, fun other hnone request hrequest => ?_,
    fun other time htime request hrequest hsame => ?_, ?_⟩
  · rw [hpaths, Finset.mem_insert, h.pending, List.mem_append, List.mem_singleton, or_comm]
  · rw [hpaths, List.nodup_append]
    refine ⟨h.once, List.nodup_singleton path, fun a ha b hb => ?_⟩
    rw [List.mem_singleton.mp hb]
    rintro rfl
    exact hpending ((h.pending a).mpr ha)
  · rw [OrderedTable.get_insert] at hnone
    split at hnone
    · cases hnone
    · next hother =>
      rcases List.mem_append.mp hrequest with hold | hnew
      · exact h.first other hnone request hold
      · rw [List.mem_singleton.mp hnew]
        exact hother
  · rw [OrderedTable.get_insert] at htime
    split at htime
    · next heq =>
      subst heq
      obtain rfl := Option.some.inj htime
      rcases List.mem_append.mp hrequest with hold | hnew
      · exact (Nat.le_add_right _ _).trans (hearlier request hold hsame)
      · rw [List.mem_singleton.mp hnew]
    · next hother =>
      rcases List.mem_append.mp hrequest with hold | hnew
      · exact h.last other time htime request hold hsame
      · rw [List.mem_singleton.mp hnew] at hsame
        exact absurd hsame hother
  · rw [List.pairwise_append]
    refine ⟨h.apart, List.pairwise_singleton _ _, fun request hrequest new hnew hsame => ?_⟩
    rw [List.mem_singleton.mp hnew] at hsame ⊢
    exact hearlier request hrequest hsame

/-- An answer that is collected. -/
theorem Sound.collect {s : AsyncApi} {past : List (ApiRequest × ℕ)} (h : Sound s past)
    {req : ApiRequest} {body : Option String} {ready : List (ApiRequest × Option String)}
    (hready : s.line.ready = (req, body) :: ready) :
    Sound { s with line := { s.line with ready := ready }, pending := s.pending.erase req.path }
      past := by
  have hpaths : paths s.line = req.path :: paths { s.line with ready := ready } := by
    simp [paths, Line.underWay, hready]
  have honce := h.once
  rw [hpaths, List.nodup_cons] at honce
  refine ⟨fun path => ?_, honce.2, h.first, h.last, h.apart⟩
  rw [Finset.mem_erase, h.pending, hpaths, List.mem_cons]
  constructor
  · rintro ⟨hne, heq | hmem⟩
    · exact absurd heq hne
    · exact hmem
  · intro hmem
    refine ⟨?_, .inr hmem⟩
    rintro rfl
    exact honce.1 hmem

theorem Sound.step {s : AsyncApi} {past : List (ApiRequest × ℕ)} (h : Sound s past) (event : Event) :
    Sound (s.step event) (past ++ (s.sent event).toList) := by
  cases event with
  | ensureRequested path dataDir now =>
    rcases s.ensureRequested_cases path dataDir now with
      ⟨hsent, hstep⟩ | ⟨hsent, hpending, hrecent, hstep⟩
    · rw [hsent, hstep, Option.toList_none, List.append_nil]
      exact h
    · rw [hsent, hstep]
      exact h.ask dataDir hpending hrecent
  | tryRecv =>
    rw [show s.sent .tryRecv = none from rfl, Option.toList_none, List.append_nil]
    rcases s.tryRecv_cases with ⟨-, hstep⟩ | ⟨req, body, ready, hready, hstep⟩
    · rw [hstep]
      exact h
    · rw [hstep]
      exact h.collect hready
  | recv =>
    rw [show s.sent .recv = none from rfl, Option.toList_none, List.append_nil]
    exact h.work (Line.underWay_take s.line)
  | fetched body =>
    rw [show s.sent (.fetched body) = none from rfl, Option.toList_none, List.append_nil]
    exact h.work (Line.underWay_answer body s.line)
  | send =>
    rw [show s.sent .send = none from rfl, Option.toList_none, List.append_nil]
    exact h.work (Line.underWay_give s.line)

theorem sound_run (events : List Event) {s : AsyncApi} {past : List (ApiRequest × ℕ)}
    (h : Sound s past) : Sound (run events s) (past ++ requested events s) := by
  induction events generalizing s past with
  | nil =>
    rw [requested, List.append_nil]
    exact h
  | cons event events ih =>
    rw [requested, ← List.append_assoc]
    exact ih (h.step event)

/-! ## Every run -/

theorem requested_log (events : List Event) (s : AsyncApi) :
    (requested events s).map Prod.fst = Line.log Note.asks (acts events s) s.line := by
  have hone : ∀ (s : AsyncApi) (event : Event),
      (s.sent event).toList.map Prod.fst = Line.log Note.asks (s.act event).toList s.line := by
    intro s event
    cases event with
    | ensureRequested path dataDir now =>
      rw [act]
      cases s.sent (.ensureRequested path dataDir now) <;> rfl
    | tryRecv =>
      obtain ⟨⟨waiting, hand, ready⟩, pending, lastRequest⟩ := s
      cases ready <;> rfl
    | recv =>
      obtain ⟨⟨waiting, hand, ready⟩, pending, lastRequest⟩ := s
      cases waiting <;> cases hand <;> rfl
    | fetched body =>
      obtain ⟨⟨waiting, hand, ready⟩, pending, lastRequest⟩ := s
      rcases hand with _ | ⟨req, _ | answer⟩ <;> rfl
    | send =>
      obtain ⟨⟨waiting, hand, ready⟩, pending, lastRequest⟩ := s
      rcases hand with _ | ⟨req, _ | answer⟩ <;> rfl
  induction events generalizing s with
  | nil => rfl
  | cons event events ih =>
    rw [requested, acts, List.map_append, Line.log_append, hone, ih, line_step]

/-- An event that is a step of the worker, or collects an answer. -/
def Effective (s : AsyncApi) (event : Event) : Prop := ∃ a, s.act event = some a ∧ s.line.Works a

theorem load_effective {s : AsyncApi} {event : Event} (h : Effective s event) :
    (s.step event).line.load + 1 = s.line.load := by
  obtain ⟨a, hact, hworks⟩ := h
  rw [line_step, hact]
  exact Line.load_step hworks

theorem load_run {more : List Event} {s : AsyncApi}
    (h : Along (fun event s => (step s event, ())) Effective more s) :
    more.length + (run more s).line.load = s.line.load := by
  induction more generalizing s with
  | nil => exact Nat.zero_add _
  | cons event more ih =>
    have hfirst := load_effective h.1
    have hrest : more.length + (run more (s.step event)).line.load = (s.step event).line.load := ih h.2
    change (more.length + 1) + (run more (s.step event)).line.load = s.line.load
    omega

theorem pending_of_still {s : AsyncApi} {past : List (ApiRequest × ℕ)} (h : Sound s past)
    (hstill : ∀ event, ¬ Effective s event) : s.pending = ∅ := by
  have hnone : s.line.underWay = [] := by
    refine Line.underWay_eq_nil_of_still none fun a ha => ?_
    cases a with
    | ask req => exact ha
    | take => exact hstill .recv ⟨.take, rfl, ha⟩
    | answer body => exact hstill (.fetched body) ⟨.answer body, rfl, ha⟩
    | give => exact hstill .send ⟨.give, rfl, ha⟩
    | collect => exact hstill .tryRecv ⟨.collect, rfl, ha⟩
  refine Finset.eq_empty_of_forall_notMem fun path hpath => ?_
  rw [h.pending, paths, hnone] at hpath
  exact absurd hpath List.not_mem_nil

/-- However the steps of the two threads fall: a path is pending exactly while one request for it is
under way; the requests are answered once each, in order, and what is collected is what the worker
fetched first; two requests for a path are two seconds apart; and if nothing more is asked, the steps
that are left are known, and after them nothing is pending. -/
theorem requests_answered_once (events : List Event) :
    let s := run events new
    let line := acts events new
    (∀ path, path ∈ s.pending ↔ path ∈ paths s.line) ∧ (paths s.line).Nodup ∧
    (Line.log Note.collects line .empty).map Prod.fst ++ s.line.underWay =
      (requested events new).map Prod.fst ∧
    Line.log Note.collects line .empty <+: Line.log Note.answers line .empty ∧
    ((requested events new).Pairwise fun a b => a.1.path = b.1.path → a.2 + minInterval ≤ b.2) ∧
    ∀ more, Along (fun event s => (step s event, ())) Effective more s →
      more.length + (run more s).line.load = s.line.load ∧
      ((∀ event, ¬ Effective (run more s) event) → (run more s).pending = ∅) := by
  intro s line
  have hsound : Sound s (requested events new) := sound_run events sound_new
  have hline : s.line = (runAll Line.step line .empty).1 := line_run events new
  refine ⟨hsound.pending, hsound.once, ?_, ?_, hsound.apart, fun more hmore => ⟨load_run hmore, ?_⟩⟩
  · rw [requested_log, hline]
    exact Line.underWay_run line .empty
  · have hanswered := Line.answered_run line .empty
    exact ⟨_, hanswered⟩
  · exact pending_of_still (sound_run more hsound)

end AsyncApi

end DSearch

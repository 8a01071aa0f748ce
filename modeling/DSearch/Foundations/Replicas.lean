import Mathlib

/-! # Replicas that send each other messages

Nodes with a state each, and packets in flight between them. A call at a node changes its state and
may send packets; a packet is received by the node it is addressed to, which may send others; a packet
may be lost. Packets are received in any order.

* `Inductive I M`: no step leaves `I` at the nodes and `M` of the packets; `Inductive.run` is the
  invariant rule for every run.
* `Spreading Has Tells`: a node that has something keeps it, and gets it with a packet that tells it.
  `Spreading.rounds` carries it along a path of nodes, when what is sent in a round is received in it.
-/

namespace DSearch.Replicas
set_option autoImplicit false

variable {ι σ μ ο : Type*}

structure Protocol (ι σ μ ο : Type*) where
  call : ι → ο → σ → σ × List μ
  dst : μ → ι
  receive : μ → σ → σ × List μ

structure Net (ι σ μ : Type*) where
  node : ι → σ
  flight : List μ

/-- A call at a node, or the reception or the loss of the packet at a position of the flight. -/
inductive Step (ι ο : Type*) where
  | call (i : ι) (op : ο)
  | deliver (n : ℕ)
  | lose (n : ℕ)

/-! ## Conditions on the steps of a run -/

def Calls (allowed : ι → ο → Prop) (steps : List (Step ι ο)) : Prop :=
  ∀ i op, .call i op ∈ steps → allowed i op

def Lossless (steps : List (Step ι ο)) : Prop := ∀ n, .lose n ∉ steps

theorem Calls.of_append {allowed : ι → ο → Prop} {first second : List (Step ι ο)}
    (h : Calls allowed (first ++ second)) : Calls allowed first ∧ Calls allowed second :=
  ⟨fun i op hop => h i op (List.mem_append_left second hop),
    fun i op hop => h i op (List.mem_append_right first hop)⟩

theorem Calls.of_cons {allowed : ι → ο → Prop} {s : Step ι ο} {steps : List (Step ι ο)}
    (h : Calls allowed (s :: steps)) : Calls allowed [s] ∧ Calls allowed steps :=
  Calls.of_append (show Calls allowed ([s] ++ steps) from h)

theorem Lossless.of_append {first second : List (Step ι ο)} (h : Lossless (first ++ second)) :
    Lossless first ∧ Lossless second :=
  ⟨fun n hn => h n (List.mem_append_left second hn),
    fun n hn => h n (List.mem_append_right first hn)⟩

theorem Lossless.of_cons {s : Step ι ο} {steps : List (Step ι ο)} (h : Lossless (s :: steps)) :
    Lossless [s] ∧ Lossless steps :=
  Lossless.of_append (show Lossless ([s] ++ steps) from h)

theorem mem_eraseIdx_or_eq {l : List μ} {n : ℕ} {m m' : μ} (hm : l[n]? = some m) (h : m' ∈ l) :
    m' ∈ l.eraseIdx n ∨ m' = m := by
  obtain ⟨hlt, rfl⟩ := List.getElem?_eq_some_iff.mp hm
  rw [← (List.getElem_cons_eraseIdx_perm hlt).mem_iff, List.mem_cons] at h
  exact h.symm

/-! ## Invariants -/

section
variable (p : Protocol ι σ μ ο) (allowed : ι → ο → Prop) (I : ι → σ → Prop) (M : μ → Prop)

/-- Every node is in `I`, every packet in flight in `M`. -/
structure Net.Within (net : Net ι σ μ) : Prop where
  node : ∀ i, I i (net.node i)
  flight : ∀ m ∈ net.flight, M m

/-- A node in `I` stays in `I` and sends packets in `M`, with the calls allowed and what it receives. -/
structure Inductive : Prop where
  call : ∀ i op s, allowed i op → I i s →
    I i (p.call i op s).1 ∧ ∀ m ∈ (p.call i op s).2, M m
  receive : ∀ m s, M m → I (p.dst m) s →
    I (p.dst m) (p.receive m s).1 ∧ ∀ m' ∈ (p.receive m s).2, M m'

variable {p allowed I M}

theorem Inductive.mono {allowed' : ι → ο → Prop} (h : Inductive p allowed I M)
    (hsub : ∀ i op, allowed' i op → allowed i op) : Inductive p allowed' I M :=
  ⟨fun i op s hop => h.call i op s (hsub i op hop), h.receive⟩

end

/-! ## Runs -/

variable [DecidableEq ι]

/-- Node `i` has come to a state and has sent packets. -/
def Net.moved (net : Net ι σ μ) (i : ι) (flight : List μ) (out : σ × List μ) : Net ι σ μ where
  node := Function.update net.node i out.1
  flight := flight ++ out.2

@[simp] theorem Net.moved_self (net : Net ι σ μ) (i : ι) (flight : List μ) (out : σ × List μ) :
    (net.moved i flight out).node i = out.1 := Function.update_self _ _ _

theorem Net.moved_ne (net : Net ι σ μ) {i j : ι} (h : j ≠ i) (flight : List μ) (out : σ × List μ) :
    (net.moved i flight out).node j = net.node j := Function.update_of_ne h _ _

variable (p : Protocol ι σ μ ο)

def step (net : Net ι σ μ) : Step ι ο → Net ι σ μ
  | .call i op => net.moved i net.flight (p.call i op (net.node i))
  | .deliver n =>
    match net.flight[n]? with
    | none => net
    | some m => net.moved (p.dst m) (net.flight.eraseIdx n) (p.receive m (net.node (p.dst m)))
  | .lose n => { net with flight := net.flight.eraseIdx n }

def run (net : Net ι σ μ) (steps : List (Step ι ο)) : Net ι σ μ := steps.foldl (step p) net

@[simp] theorem run_nil (net : Net ι σ μ) : run p net [] = net := rfl

@[simp] theorem run_cons (net : Net ι σ μ) (s : Step ι ο) (steps : List (Step ι ο)) :
    run p net (s :: steps) = run p (step p net s) steps := rfl

theorem run_append (net : Net ι σ μ) (first second : List (Step ι ο)) :
    run p net (first ++ second) = run p (run p net first) second := List.foldl_append

/-- What a step does: a call, a reception, or only a packet less, if that. -/
theorem step_cases (net : Net ι σ μ) (s : Step ι ο) :
    (∃ i op, s = .call i op ∧
      step p net s = net.moved i net.flight (p.call i op (net.node i))) ∨
    (∃ n m, s = .deliver n ∧ net.flight[n]? = some m ∧ step p net s =
      net.moved (p.dst m) (net.flight.eraseIdx n) (p.receive m (net.node (p.dst m)))) ∨
    ((step p net s).node = net.node ∧ ∀ m ∈ (step p net s).flight, m ∈ net.flight) := by
  cases s with
  | call i op => exact .inl ⟨i, op, rfl, rfl⟩
  | deliver n =>
    cases hm : net.flight[n]? with
    | none =>
      have hsame : step p net (.deliver n) = net := by simp only [step, hm]
      rw [hsame]
      exact .inr (.inr ⟨rfl, fun _ h => h⟩)
    | some m => exact .inr (.inl ⟨n, m, rfl, hm, by simp only [step, hm]⟩)
  | lose n => exact .inr (.inr ⟨rfl, fun _ => List.mem_of_mem_eraseIdx⟩)

variable {p} {allowed : ι → ο → Prop} {I : ι → σ → Prop} {M : μ → Prop}

theorem Net.Within.moved {net : Net ι σ μ} (h : net.Within I M) {i : ι} {flight : List μ}
    {out : σ × List μ} (hflight : ∀ m ∈ flight, m ∈ net.flight)
    (hout : I i out.1 ∧ ∀ m ∈ out.2, M m) : (net.moved i flight out).Within I M where
  node j := by
    by_cases hj : j = i
    · subst hj
      rw [Net.moved_self]
      exact hout.1
    · rw [net.moved_ne hj]
      exact h.node j
  flight m hm := by
    rcases List.mem_append.mp hm with hold | hnew
    · exact h.flight m (hflight m hold)
    · exact hout.2 m hnew

theorem Inductive.step (h : Inductive p allowed I M) {net : Net ι σ μ} (hnet : net.Within I M)
    {s : Step ι ο} (hs : Calls allowed [s]) : (step p net s).Within I M := by
  rcases step_cases p net s with ⟨i, op, rfl, hstep⟩ | ⟨n, m, -, hm, hstep⟩ | ⟨hnode, hflight⟩
  · rw [hstep]
    have hop := hs i op (List.mem_singleton.mpr rfl)
    exact hnet.moved (fun _ hmem => hmem) (h.call i op _ hop (hnet.node i))
  · rw [hstep]
    have hM := hnet.flight m (List.mem_of_getElem? hm)
    exact hnet.moved (fun _ => List.mem_of_mem_eraseIdx) (h.receive m _ hM (hnet.node _))
  · exact ⟨fun i => hnode ▸ hnet.node i, fun m hm => hnet.flight m (hflight m hm)⟩

/-- The invariant rule: it holds after every run of the calls allowed. -/
theorem Inductive.run (h : Inductive p allowed I M) {net : Net ι σ μ} (hnet : net.Within I M)
    {steps : List (Step ι ο)} (hsteps : Calls allowed steps) : (run p net steps).Within I M := by
  induction steps generalizing net with
  | nil => exact hnet
  | cons s steps ih =>
    obtain ⟨hs, hrest⟩ := hsteps.of_cons
    exact ih (h.step hnet hs) hrest

/-! ## What spreads -/

variable (p allowed I M) (Has : ι → σ → Prop) (Tells : μ → Prop)

/-- Under the invariant, a node that has it keeps it, and one that is told has it. -/
structure Spreading : Prop where
  call : ∀ i op s, allowed i op → I i s → Has i s → Has i (p.call i op s).1
  receive : ∀ m s, M m → I (p.dst m) s → Has (p.dst m) s → Has (p.dst m) (p.receive m s).1
  told : ∀ m s, M m → I (p.dst m) s → Tells m → Has (p.dst m) (p.receive m s).1

/-- Node `j` has it, or a packet that tells it is on its way. -/
def Coming (net : Net ι σ μ) (j : ι) : Prop :=
  Has j (net.node j) ∨ ∃ m ∈ net.flight, p.dst m = j ∧ Tells m

/-- At the end of each round no packet of a kind is in flight. -/
def QuietRounds (carries : μ → Prop) : Net ι σ μ → List (List (Step ι ο)) → Prop
  | _, [] => True
  | net, round :: rounds =>
    (∀ m ∈ (run p net round).flight, ¬ carries m) ∧ QuietRounds carries (run p net round) rounds

instance instDecidableQuietRounds (carries : μ → Prop) [DecidablePred carries] :
    ∀ (net : Net ι σ μ) (rounds : List (List (Step ι ο))), Decidable (QuietRounds p carries net rounds)
  | _, [] => inferInstanceAs (Decidable True)
  | net, round :: rounds =>
    have := instDecidableQuietRounds carries (run p net round) rounds
    inferInstanceAs (Decidable ((∀ m ∈ (run p net round).flight, ¬ carries m) ∧
      QuietRounds p carries (run p net round) rounds))

/-- A path of nodes, each of which informs the next in a round of its own. -/
inductive Reached (informs : ι → ο → ι → Prop) : List (List (Step ι ο)) → ι → ι → Prop
  | here (i : ι) : Reached informs [] i i
  | stays {round : List (Step ι ο)} {rounds : List (List (Step ι ο))} {i j : ι}
      (rest : Reached informs rounds i j) : Reached informs (round :: rounds) i j
  | passes {round : List (Step ι ο)} {rounds : List (List (Step ι ο))} {i k j : ι} {op : ο}
      (called : .call i op ∈ round) (informed : informs i op k)
      (rest : Reached informs rounds k j) : Reached informs (round :: rounds) i j

variable {p allowed I M Has Tells}

/-- What a node has it keeps: calls, receptions and losses do not take it away. -/
theorem Spreading.keeps (h : Spreading p allowed I M Has Tells) {net : Net ι σ μ}
    (hnet : net.Within I M) {s : Step ι ο} (hs : Calls allowed [s]) {j : ι}
    (hj : Has j (net.node j)) : Has j ((step p net s).node j) := by
  rcases step_cases p net s with ⟨i, op, rfl, hstep⟩ | ⟨n, m, -, hm, hstep⟩ | ⟨hnode, -⟩
  · rw [hstep]
    by_cases hji : j = i
    · subst hji
      rw [Net.moved_self]
      exact h.call j op _ (hs j op (List.mem_singleton.mpr rfl)) (hnet.node j) hj
    · rwa [net.moved_ne hji]
  · rw [hstep]
    by_cases hdst : j = p.dst m
    · subst hdst
      rw [Net.moved_self]
      exact h.receive m _ (hnet.flight m (List.mem_of_getElem? hm)) (hnet.node _) hj
    · rwa [net.moved_ne hdst]
  · rwa [hnode]

theorem Spreading.run_keeps (h : Spreading p allowed I M Has Tells)
    (hI : Inductive p allowed I M) {net : Net ι σ μ} (hnet : net.Within I M)
    {steps : List (Step ι ο)} (hsteps : Calls allowed steps) {j : ι} (hj : Has j (net.node j)) :
    Has j ((run p net steps).node j) := by
  induction steps generalizing net with
  | nil => exact hj
  | cons s steps ih =>
    obtain ⟨hs, hrest⟩ := hsteps.of_cons
    exact ih (hI.step hnet hs) hrest (h.keeps hnet hs hj)

/-- A packet on its way arrives, or stays on its way. -/
theorem Spreading.coming_step (h : Spreading p allowed I M Has Tells) {net : Net ι σ μ}
    (hnet : net.Within I M) {s : Step ι ο} (hs : Calls allowed [s]) (hlossless : Lossless [s]) {j : ι}
    (hj : Coming p Has Tells net j) : Coming p Has Tells (step p net s) j := by
  rcases hj with hj | ⟨m, hm, hdst, htells⟩
  · exact .inl (h.keeps hnet hs hj)
  · cases s with
    | call i op => exact .inr ⟨m, List.mem_append_left _ hm, hdst, htells⟩
    | lose n => exact absurd (List.mem_singleton.mpr rfl) (hlossless n)
    | deliver n =>
      cases hpacket : net.flight[n]? with
      | none => exact .inr ⟨m, by simpa only [step, hpacket] using hm, hdst, htells⟩
      | some m' =>
        have hstep : step p net (.deliver n) = net.moved (p.dst m') (net.flight.eraseIdx n)
            (p.receive m' (net.node (p.dst m'))) := by simp only [step, hpacket]
        rw [hstep]
        rcases mem_eraseIdx_or_eq hpacket hm with hleft | rfl
        · exact .inr ⟨m, List.mem_append_left _ hleft, hdst, htells⟩
        · refine .inl ?_
          subst hdst
          rw [Net.moved_self]
          exact h.told m _ (hnet.flight m hm) (hnet.node _) htells

theorem Spreading.coming_run (h : Spreading p allowed I M Has Tells)
    (hI : Inductive p allowed I M) {net : Net ι σ μ} (hnet : net.Within I M)
    {steps : List (Step ι ο)} (hsteps : Calls allowed steps) (hlossless : Lossless steps) {j : ι}
    (hj : Coming p Has Tells net j) : Coming p Has Tells (run p net steps) j := by
  induction steps generalizing net with
  | nil => exact hj
  | cons s steps ih =>
    obtain ⟨hs, hrest⟩ := hsteps.of_cons
    obtain ⟨hkept, hlossless⟩ := hlossless.of_cons
    exact ih (hI.step hnet hs) hrest hlossless (h.coming_step hnet hs hkept hj)

/-- In a round that loses nothing and ends quiet, the nodes informed by one that has it get it. -/
theorem Spreading.round (h : Spreading p allowed I M Has Tells) (hI : Inductive p allowed I M)
    {carries : μ → Prop} (hcarries : ∀ m, Tells m → carries m) {net : Net ι σ μ}
    (hnet : net.Within I M) {round : List (Step ι ο)} (hcalls : Calls allowed round)
    (hlossless : Lossless round) (hquiet : ∀ m ∈ (run p net round).flight, ¬ carries m) {i j : ι}
    {op : ο} (hop : .call i op ∈ round)
    (hinforms : ∀ s, I i s → Has i s → ∃ m ∈ (p.call i op s).2, p.dst m = j ∧ Tells m)
    (hi : Has i (net.node i)) : Has j ((run p net round).node j) := by
  obtain ⟨before, later, rfl⟩ := List.append_of_mem hop
  obtain ⟨hbefore, hlater⟩ := hcalls.of_append
  obtain ⟨hcall, hlater⟩ := hlater.of_cons
  have hthere := hI.run hnet hbefore
  have hhas := h.run_keeps hI hnet hbefore hi
  obtain ⟨m, hm, hdst, htells⟩ := hinforms _ (hthere.node i) hhas
  have hsent : Coming p Has Tells (step p (run p net before) (.call i op)) j :=
    .inr ⟨m, List.mem_append_right _ hm, hdst, htells⟩
  have hend := h.coming_run hI (hI.step hthere hcall) hlater
    hlossless.of_append.2.of_cons.2 hsent
  rw [run_append, run_cons] at hquiet ⊢
  rcases hend with hhas | ⟨m', hm', -, htells'⟩
  · exact hhas
  · exact absurd (hcarries m' htells') (hquiet m' hm')

/-- What a node has, every node has that is reached from it in quiet rounds. -/
theorem Spreading.rounds (h : Spreading p allowed I M Has Tells) (hI : Inductive p allowed I M)
    {carries : μ → Prop} (hcarries : ∀ m, Tells m → carries m) {informs : ι → ο → ι → Prop}
    (hinforms : ∀ i op j, informs i op j → ∀ s, I i s → Has i s →
      ∃ m ∈ (p.call i op s).2, p.dst m = j ∧ Tells m)
    {rounds : List (List (Step ι ο))} {i j : ι} (hreached : Reached informs rounds i j)
    {net : Net ι σ μ} (hnet : net.Within I M) (hcalls : Calls allowed rounds.flatten)
    (hlossless : Lossless rounds.flatten) (hquiet : QuietRounds p carries net rounds)
    (hi : Has i (net.node i)) : Has j ((run p net rounds.flatten).node j) := by
  induction hreached generalizing net with
  | here i => exact hi
  | stays _ ih =>
    rw [List.flatten_cons] at hcalls hlossless ⊢
    rw [run_append]
    exact ih (hI.run hnet hcalls.of_append.1) hcalls.of_append.2 hlossless.of_append.2 hquiet.2
      (h.run_keeps hI hnet hcalls.of_append.1 hi)
  | passes hop hinformed _ ih =>
    rw [List.flatten_cons] at hcalls hlossless ⊢
    rw [run_append]
    refine ih (hI.run hnet hcalls.of_append.1) hcalls.of_append.2 hlossless.of_append.2 hquiet.2 ?_
    exact h.round hI hcarries hnet hcalls.of_append.1 hlossless.of_append.1 hquiet.1 hop
      (hinforms _ _ _ hinformed) hi

end DSearch.Replicas

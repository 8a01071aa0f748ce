import Mathlib

/-! # Items on a byte stream

Items are written one after the other onto a stream and read back one at a time. A `Codec` says what
one read makes of the bytes it has been given, `readAll` reads a finished stream to its end. A
`Session` is a loop that hands each item it reads to a handler until the handler ends it; `feed`
gives it the bytes of a chunk, and `cancel` drops the read that is under way, with every byte that
this read has taken so far. `run_uncut` says what a session does as long as nothing is dropped, and
`dispatched_ne_of_cut` that what is dropped never comes back. -/

namespace DSearch.Framing
set_option autoImplicit false

/-- One read, given the bytes so far: it waits for more, returns an item, or fails. -/
inductive Read (β α ε : Type) where
  | more
  | item (a : α) (rest : List β)
  | fail (e : ε)
  deriving DecidableEq, Repr

/-- A reader that inverts an encoder on the valid items. -/
structure Codec (β α ε : Type) where
  Valid : α → Prop
  encode : α → List β
  read : List β → Read β α ε
  read_encode : ∀ a rest, Valid a → read (encode a ++ rest) = .item a rest
  read_short : ∀ a s t, Valid a → encode a = s ++ t → t ≠ [] → read s = .more
  read_fail : ∀ s t e, read s = .fail e → read (s ++ t) = .fail e
  eq_of_read : ∀ s a rest, read s = .item a rest → Valid a ∧ s = encode a ++ rest
  encode_ne_nil : ∀ a, encode a ≠ []

namespace Codec
variable {β α ε : Type} (codec : Codec β α ε)

def encodeAll (items : List α) : List β := items.flatMap codec.encode

@[simp] theorem encodeAll_nil : codec.encodeAll [] = [] := rfl

@[simp] theorem encodeAll_cons (a : α) (items : List α) :
    codec.encodeAll (a :: items) = codec.encode a ++ codec.encodeAll items := rfl

@[simp] theorem encodeAll_append (items items' : List α) :
    codec.encodeAll (items ++ items') = codec.encodeAll items ++ codec.encodeAll items' :=
  List.flatMap_append

theorem length_encode_pos (a : α) : 0 < (codec.encode a).length :=
  List.length_pos_of_ne_nil (codec.encode_ne_nil a)

theorem length_rest_lt {s rest : List β} {a : α} (h : codec.read s = .item a rest) :
    rest.length < s.length := by
  have hpos := codec.length_encode_pos a
  rw [(codec.eq_of_read s a rest h).2, List.length_append]
  omega

theorem read_append {s rest : List β} {a : α} (h : codec.read s = .item a rest) (t : List β) :
    codec.read (s ++ t) = .item a (rest ++ t) := by
  obtain ⟨hvalid, hs⟩ := codec.eq_of_read s a rest h
  rw [hs, List.append_assoc]
  exact codec.read_encode a (rest ++ t) hvalid

/-- Bytes that a read waits on are no complete items. -/
theorem eq_nil_of_read_more {items : List α} (hvalid : ∀ a ∈ items, codec.Valid a)
    (h : codec.read (codec.encodeAll items) = .more) : items = [] := by
  cases items with
  | nil => rfl
  | cons a items =>
    rw [encodeAll_cons, codec.read_encode a _ (hvalid a List.mem_cons_self)] at h
    cases h

/-- The first bytes of a stream of items: complete items, and the start of the next one. -/
theorem split_encodeAll (hempty : codec.read [] = .more) {items : List α}
    (hvalid : ∀ a ∈ items, codec.Valid a) {s t : List β} (h : s ++ t = codec.encodeAll items) :
    ∃ done left start, items = done ++ left ∧ s = codec.encodeAll done ++ start ∧
      codec.read start = .more ∧ start ++ t = codec.encodeAll left := by
  induction items generalizing s with
  | nil =>
    obtain ⟨rfl, rfl⟩ := List.append_eq_nil_iff.mp h
    exact ⟨[], [], [], rfl, rfl, hempty, rfl⟩
  | cons a items ih =>
    have ha := hvalid a List.mem_cons_self
    have hitems : ∀ b ∈ items, codec.Valid b := fun b hb => hvalid b (List.mem_cons_of_mem a hb)
    rw [encodeAll_cons] at h
    obtain ⟨u, hs, ht⟩ | ⟨u, ha', hu⟩ := List.append_eq_append_iff.mp h
    · -- the chunk ends inside the first item, or right after it
      by_cases hend : u = []
      · subst hend
        rw [List.append_nil] at hs
        refine ⟨[a], items, [], rfl, ?_, hempty, ?_⟩
        · simp [hs]
        · simpa using ht
      · exact ⟨[], a :: items, s, rfl, rfl, codec.read_short a s u ha hs hend, h⟩
    · obtain ⟨done, left, start, hsplit, hs, hstart, hleft⟩ := ih hitems hu.symm
      refine ⟨a :: done, left, start, by rw [hsplit]; rfl, ?_, hstart, hleft⟩
      rw [ha', hs, encodeAll_cons, List.append_assoc]

/-! ## Reading a finished stream -/

/-- Repeated reads: the items, and the error of the last read, or `none` where it met the end of the
stream before an item was complete. Every read that returns an item takes a byte. -/
def readAll (codec : Codec β α ε) : ℕ → List β → List α × Option ε
  | 0, _ => ([], none)
  | n + 1, s =>
    match codec.read s with
    | .more => ([], none)
    | .fail e => ([], some e)
    | .item a rest =>
      let next := codec.readAll n rest
      (a :: next.1, next.2)

theorem readAll_encodeAll {items : List α} (hvalid : ∀ a ∈ items, codec.Valid a) {start : List β}
    (hstart : codec.read start = .more) {n : ℕ}
    (hn : (codec.encodeAll items ++ start).length < n) :
    codec.readAll n (codec.encodeAll items ++ start) = (items, none) := by
  induction items generalizing n with
  | nil =>
    cases n with
    | zero => exact absurd hn (Nat.not_lt_zero _)
    | succ n => simp [readAll, hstart]
  | cons a items ih =>
    have ha := hvalid a List.mem_cons_self
    have hpos := codec.length_encode_pos a
    cases n with
    | zero => exact absurd hn (Nat.not_lt_zero _)
    | succ n =>
      have hrest : codec.readAll n (codec.encodeAll items ++ start) = (items, none) := by
        apply ih (fun b hb => hvalid b (List.mem_cons_of_mem a hb))
        simp only [encodeAll_cons, List.length_append] at hn ⊢
        omega
      rw [encodeAll_cons, List.append_assoc, readAll, codec.read_encode a _ ha]
      dsimp only
      rw [hrest]

end Codec

/-! ## A loop over a stream -/

inductive Event (β : Type) where
  | chunk (bytes : List β)
  | timer
  deriving DecidableEq, Repr

def Event.bytes {β : Type} : Event β → List β
  | .chunk bytes => bytes
  | .timer => []

@[simp] theorem Event.bytes_chunk {β : Type} (bytes : List β) : (Event.chunk bytes).bytes = bytes :=
  rfl

@[simp] theorem Event.bytes_timer {β : Type} : (Event.timer : Event β).bytes = [] := rfl

def arrived {β : Type} (events : List (Event β)) : List β := events.flatMap Event.bytes

@[simp] theorem arrived_nil {β : Type} : arrived ([] : List (Event β)) = [] := rfl

@[simp] theorem arrived_cons {β : Type} (e : Event β) (events : List (Event β)) :
    arrived (e :: events) = e.bytes ++ arrived events := rfl

@[simp] theorem arrived_append {β : Type} (events events' : List (Event β)) :
    arrived (events ++ events') = arrived events ++ arrived events' := List.flatMap_append

/-- Why a loop ended: its handler ended it, or a read failed. -/
inductive Ending (ε η : Type) where
  | handler (e : η)
  | unreadable (e : ε)
  deriving DecidableEq, Repr

/-- A loop between two events. `pending` is what the read under way has taken. -/
structure Session (σ α β ε η : Type) where
  state : σ
  pending : List β
  dispatched : List α
  ending : Option (Ending ε η)
  deriving DecidableEq, Repr

namespace Session
variable {σ α β ε η : Type} (codec : Codec β α ε) (handle : σ → α → σ × Option η)

def start (s : σ) : Session σ α β ε η := ⟨s, [], [], none⟩

/-- Reads and handles items until the bytes at hand are used up. -/
def drain : ℕ → Session σ α β ε η → Session σ α β ε η
  | 0, m => m
  | n + 1, m =>
    match codec.read m.pending with
    | .more => m
    | .fail e => { m with pending := [], ending := some (.unreadable e) }
    | .item a rest =>
      match handle m.state a with
      | (s, some e) => ⟨s, [], m.dispatched ++ [a], some (.handler e)⟩
      | (s, none) => drain n ⟨s, rest, m.dispatched ++ [a], none⟩

def feed (chunk : List β) (m : Session σ α β ε η) : Session σ α β ε η :=
  match m.ending with
  | some _ => m
  | none =>
    drain codec handle ((m.pending ++ chunk).length + 1) { m with pending := m.pending ++ chunk }

/-- The read under way is dropped, and with it the bytes that it has taken. -/
def cancel (m : Session σ α β ε η) : Session σ α β ε η :=
  match m.ending with
  | some _ => m
  | none => { m with pending := [] }

def step (m : Session σ α β ε η) : Event β → Session σ α β ε η
  | .chunk bytes => feed codec handle bytes m
  | .timer => m.cancel

def run (events : List (Event β)) (m : Session σ α β ε η) : Session σ α β ε η :=
  events.foldl (step codec handle) m

@[simp] theorem run_nil (m : Session σ α β ε η) : run codec handle [] m = m := rfl

@[simp] theorem run_cons (e : Event β) (events : List (Event β)) (m : Session σ α β ε η) :
    run codec handle (e :: events) m = run codec handle events (step codec handle m e) := rfl

theorem run_append (events events' : List (Event β)) (m : Session σ α β ε η) :
    run codec handle (events ++ events') m =
      run codec handle events' (run codec handle events m) := List.foldl_append

end Session

/-! ## Items without a stream -/

/-- The handler on a list of items: the state it leaves, the items it was given, and how it ended. -/
def serve {σ α η : Type} (handle : σ → α → σ × Option η) : σ → List α → σ × List α × Option η
  | s, [] => (s, [], none)
  | s, a :: items =>
    match handle s a with
    | (s', some e) => (s', [a], some e)
    | (s', none) =>
      let next := serve handle s' items
      (next.1, a :: next.2.1, next.2.2)

section Serve
variable {σ α η : Type} {handle : σ → α → σ × Option η}
attribute [local simp] serve

theorem serve_append_of_open {s : σ} {items : List α} (h : (serve handle s items).2.2 = none)
    (items' : List α) :
    serve handle s (items ++ items') =
      ((serve handle (serve handle s items).1 items').1,
        (serve handle s items).2.1 ++ (serve handle (serve handle s items).1 items').2.1,
        (serve handle (serve handle s items).1 items').2.2) := by
  induction items generalizing s with
  | nil => simp
  | cons a items ih =>
    simp only [List.cons_append, serve] at h ⊢
    rcases hstep : handle s a with ⟨s', _ | e⟩
    · simp only [hstep] at h ⊢
      rw [ih h]
      rfl
    · simp [hstep] at h

theorem serve_append_of_ended {s : σ} {items : List α} (h : (serve handle s items).2.2 ≠ none)
    (items' : List α) : serve handle s (items ++ items') = serve handle s items := by
  induction items generalizing s with
  | nil => exact absurd rfl h
  | cons a items ih =>
    simp only [List.cons_append, serve] at h ⊢
    rcases hstep : handle s a with ⟨s', _ | e⟩
    · simp only [hstep] at h ⊢
      rw [ih h]
    · rfl

theorem serve_dispatched_of_open {s : σ} {items : List α} (h : (serve handle s items).2.2 = none) :
    (serve handle s items).2.1 = items := by
  induction items generalizing s with
  | nil => rfl
  | cons a items ih =>
    simp only [serve] at h ⊢
    rcases hstep : handle s a with ⟨s', _ | e⟩
    · simp only [hstep] at h ⊢
      rw [ih h]
    · simp [hstep] at h

variable (handle) in
theorem length_serve_le (s : σ) (items : List α) :
    (serve handle s items).2.1.length ≤ items.length := by
  induction items generalizing s with
  | nil => exact le_refl _
  | cons a items ih =>
    simp only [serve]
    rcases hstep : handle s a with ⟨s', _ | e⟩
    · have htail := ih s'
      simp only [List.length_cons]
      omega
    · simp

theorem serve_singleton_dispatched (s : σ) (a : α) : (serve handle s [a]).2.1 = [a] := by
  rcases hstep : handle s a with ⟨s', _ | e⟩ <;> simp [hstep]

variable (handle) in
/-- Every item that the handler is given finds a state that meets `C`. -/
def Served (C : σ → α → Prop) : σ → List α → Prop
  | _, [] => True
  | s, a :: items => C s a ∧ ((handle s a).2 = none → Served C (handle s a).1 items)

instance instDecidableServed (C : σ → α → Prop) [∀ s a, Decidable (C s a)] [DecidableEq η] :
    ∀ (s : σ) (items : List α), Decidable (Served handle C s items)
  | _, [] => inferInstanceAs (Decidable True)
  | s, a :: items =>
    have := instDecidableServed C (handle s a).1 items
    inferInstanceAs (Decidable (C s a ∧ ((handle s a).2 = none → _)))

/-- An ending that the handler gives where `C` fails and nowhere else. -/
theorem served_iff {C : σ → α → Prop} {e : η} (hC : ∀ s a, (handle s a).2 = some e ↔ ¬ C s a)
    (s : σ) (items : List α) :
    Served handle C s items ↔ (serve handle s items).2.2 ≠ some e := by
  induction items generalizing s with
  | nil => exact iff_of_true trivial (Option.some_ne_none e).symm
  | cons a items ih =>
    have hhead := hC s a
    simp only [Served, serve]
    rcases hstep : handle s a with ⟨s', _ | e'⟩
    · simp only [hstep] at hhead ⊢
      rw [← ih s']
      have hmeets : C s a := by
        by_contra hfails
        cases hhead.mpr hfails
      exact ⟨fun h => h.2 trivial, fun h => ⟨hmeets, fun _ => h⟩⟩
    · simp only [hstep] at hhead ⊢
      constructor
      · intro h hend
        exact hhead.mp hend h.1
      · intro hend
        refine ⟨?_, fun h => by cases h⟩
        by_contra hfails
        exact hend (hhead.mpr hfails)

/-- The handler is given all items if and only if it has not ended while one of them is left. -/
theorem serve_dispatched_eq_iff {s : σ} {items : List α} :
    (serve handle s items).2.1 = items ↔
      ∀ done left, items = done ++ left → left ≠ [] → (serve handle s done).2.2 = none := by
  constructor
  · intro hall done left hsplit hleft
    by_contra hended
    have hsame := serve_append_of_ended hended left
    have hlength := length_serve_le handle s done
    have hpositive := List.length_pos_of_ne_nil hleft
    rw [hsplit, hsame] at hall
    rw [hall, List.length_append] at hlength
    omega
  · intro hopen
    rcases List.eq_nil_or_concat items with rfl | ⟨done, a, rfl⟩
    · rfl
    · have hdone := hopen done [a] List.concat_eq_append (List.cons_ne_nil a [])
      rw [List.concat_eq_append, serve_append_of_open hdone, serve_dispatched_of_open hdone,
        serve_singleton_dispatched]

end Serve

/-! ## What a session does -/

namespace Session
variable {σ α β ε η : Type} {codec : Codec β α ε} {handle : σ → α → σ × Option η}

/-- An open session after its handler was given some items, with `start` of the next one read. -/
def after (dispatched : List α) (served : σ × List α × Option η) (start : List β) :
    Session σ α β ε η :=
  match served with
  | (s', items, none) => ⟨s', start, dispatched ++ items, none⟩
  | (s', items, some e) => ⟨s', [], dispatched ++ items, some (.handler e)⟩

variable (handle) in
/-- A drain over complete items and some more bytes. -/
theorem drain_encodeAll {items : List α} (hvalid : ∀ a ∈ items, codec.Valid a) (tail : List β)
    (n : ℕ) (s : σ) (dispatched : List α) (hn : (codec.encodeAll items ++ tail).length < n) :
    ∃ n', tail.length < n' ∧
      drain codec handle n ⟨s, codec.encodeAll items ++ tail, dispatched, none⟩ =
        match serve handle s items with
        | (s', items', none) => drain codec handle n' ⟨s', tail, dispatched ++ items', none⟩
        | (s', items', some e) => ⟨s', [], dispatched ++ items', some (.handler e)⟩ := by
  induction items generalizing n s dispatched with
  | nil =>
    refine ⟨n, hn, ?_⟩
    simp [serve]
  | cons a items ih =>
    have ha := hvalid a List.mem_cons_self
    have hpos := codec.length_encode_pos a
    have hread : codec.read (codec.encodeAll (a :: items) ++ tail) =
        .item a (codec.encodeAll items ++ tail) := by
      rw [Codec.encodeAll_cons, List.append_assoc]
      exact codec.read_encode a _ ha
    cases n with
    | zero => exact absurd hn (Nat.not_lt_zero _)
    | succ n =>
      rcases hstep : handle s a with ⟨s', _ | e⟩
      · have hlt : (codec.encodeAll items ++ tail).length < n := by
          simp only [Codec.encodeAll_cons, List.length_append] at hn ⊢
          omega
        obtain ⟨n', htail, hdrain⟩ :=
          ih (fun b hb => hvalid b (List.mem_cons_of_mem a hb)) n s' (dispatched ++ [a]) hlt
        refine ⟨n', htail, ?_⟩
        simp only [drain, hread, hstep, hdrain, serve, List.append_assoc, List.singleton_append]
        rcases serve handle s' items with ⟨s'', items', _ | e⟩ <;> rfl
      · refine ⟨tail.length + 1, Nat.lt_succ_self _, ?_⟩
        simp only [drain, hread, hstep, serve]

theorem drain_more {n : ℕ} {m : Session σ α β ε η} (h : codec.read m.pending = .more) :
    drain codec handle n m = m := by
  cases n with
  | zero => rfl
  | succ n => simp only [drain, h]

variable (handle) in
/-- A chunk that completes some items and starts the next one. -/
theorem feed_complete {items : List α} (hvalid : ∀ a ∈ items, codec.Valid a) {p chunk tail : List β}
    (hbytes : p ++ chunk = codec.encodeAll items ++ tail) (htail : codec.read tail = .more) (s : σ)
    (dispatched : List α) :
    feed codec handle chunk ⟨s, p, dispatched, none⟩ =
      after dispatched (serve handle s items) tail := by
  obtain ⟨n', -, hdrain⟩ := drain_encodeAll handle hvalid tail
    ((codec.encodeAll items ++ tail).length + 1) s dispatched (Nat.lt_succ_self _)
  simp only [feed, hbytes, hdrain, after]
  rcases serve handle s items with ⟨s', items', _ | e⟩
  · exact drain_more htail
  · rfl

/-! ### A session and its handler -/

/-- How the handler ended a session, if it did. -/
def handlerEnd (m : Session σ α β ε η) : Option η :=
  match m.ending with
  | some (.handler e) => some e
  | _ => none

/-- A session has done what its handler does with the items dispatched. -/
def ServedFrom (handle : σ → α → σ × Option η) (s : σ) (m : Session σ α β ε η) : Prop :=
  serve handle s m.dispatched = (m.state, m.dispatched, m.handlerEnd)

theorem ServedFrom.dispatch {s : σ} {m : Session σ α β ε η} (h : ServedFrom handle s m)
    (hopen : m.ending = none) (a : α) :
    serve handle s (m.dispatched ++ [a]) =
      ((handle m.state a).1, m.dispatched ++ [a], (handle m.state a).2) := by
  unfold ServedFrom at h
  have hend : m.handlerEnd = none := by
    unfold handlerEnd
    rw [hopen]
  rw [serve_append_of_open (by rw [h, hend]), h]
  rcases hstep : handle m.state a with ⟨s', _ | e⟩ <;> simp [serve, hstep]

theorem ServedFrom.drain {s : σ} {m : Session σ α β ε η} (n : ℕ) (h : ServedFrom handle s m)
    (hopen : m.ending = none) : ServedFrom handle s (drain codec handle n m) := by
  induction n generalizing m with
  | zero => exact h
  | succ n ih =>
    have hdispatch := h.dispatch hopen
    unfold ServedFrom at h
    simp only [Session.drain]
    split
    · exact h
    · unfold ServedFrom
      rw [h]
      simp only [handlerEnd, hopen]
    · next a rest hread =>
      rcases hstep : handle m.state a with ⟨s', _ | e⟩
      · refine ih ?_ rfl
        unfold ServedFrom
        rw [hdispatch a, hstep]
        rfl
      · unfold ServedFrom
        rw [hdispatch a, hstep]
        rfl

theorem ServedFrom.step {s : σ} {m : Session σ α β ε η} (h : ServedFrom handle s m)
    (event : Event β) : ServedFrom handle s (step codec handle m event) := by
  cases event with
  | chunk bytes =>
    simp only [Session.step, feed]
    split
    · exact h
    · next hopen => exact ServedFrom.drain _ (m := { m with pending := m.pending ++ bytes }) h hopen
  | timer =>
    simp only [Session.step, cancel]
    split <;> exact h

variable (codec handle) in
theorem servedFrom_run (events : List (Event β)) (s : σ) :
    ServedFrom handle s (run codec handle events (start s)) := by
  have hrun : ∀ m : Session σ α β ε η, ServedFrom handle s m →
      ServedFrom handle s (run codec handle events m) := by
    induction events with
    | nil => exact fun _ h => h
    | cons event events ih => exact fun m h => ih _ (h.step event)
  exact hrun _ rfl

/-- A timer that cuts a read: the bytes that have arrived are no whole number of items. -/
def Cut (codec : Codec β α ε) (items : List α) (events : List (Event β)) : Prop :=
  ∃ pre post, events = pre ++ .timer :: post ∧
    ∀ k, arrived pre ≠ codec.encodeAll (items.take k)

theorem cut_append_singleton {items : List α} {events : List (Event β)} {e : Event β} :
    Cut codec items (events ++ [e]) ↔ Cut codec items events ∨
      e = .timer ∧ ∀ k, arrived events ≠ codec.encodeAll (items.take k) := by
  constructor
  · intro ⟨pre, post, hsplit, hcut⟩
    rcases List.eq_nil_or_concat post with rfl | ⟨post', e', rfl⟩
    · obtain ⟨rfl, he⟩ := List.append_inj' hsplit rfl
      exact .inr ⟨List.head_eq_of_cons_eq he, hcut⟩
    · have hsplit' : events ++ [e] = (pre ++ .timer :: post') ++ [e'] := by
        rw [hsplit]
        simp
      exact .inl ⟨pre, post', (List.append_inj' hsplit' rfl).1, hcut⟩
  · intro h
    rcases h with ⟨pre, post, rfl, hcut⟩ | ⟨rfl, hcut⟩
    · exact ⟨pre, post ++ [e], by simp, hcut⟩
    · exact ⟨events, [], rfl, hcut⟩

/-- The first cut of a run. -/
theorem exists_first_cut {items : List α} {events : List (Event β)} (h : Cut codec items events) :
    ∃ pre post, events = pre ++ .timer :: post ∧ ¬ Cut codec items pre ∧
      ∀ k, arrived pre ≠ codec.encodeAll (items.take k) := by
  induction events using List.reverseRecOn with
  | nil =>
    obtain ⟨pre, post, hsplit, -⟩ := h
    exact absurd hsplit (by simp)
  | append_singleton events e ih =>
    by_cases hearlier : Cut codec items events
    · obtain ⟨pre, post, rfl, hfirst, hcut⟩ := ih hearlier
      exact ⟨pre, post ++ [e], by simp, hfirst, hcut⟩
    · rcases cut_append_singleton.mp h with hcut | ⟨rfl, hcut⟩
      · exact absurd hcut hearlier
      · exact ⟨events, [], rfl, hearlier, hcut⟩

/-- At the end of an item, no byte of the next one has been read. -/
theorem start_eq_nil {done left : List α} (hvalid : ∀ a ∈ left, codec.Valid a) {first : List β}
    (hfirst : codec.read first = .more) {k : ℕ}
    (hk : codec.encodeAll done ++ first = codec.encodeAll ((done ++ left).take k)) :
    first = [] := by
  by_cases hle : k ≤ done.length
  · have hdone : codec.encodeAll done =
        codec.encodeAll (done.take k) ++ codec.encodeAll (done.drop k) := by
      rw [← Codec.encodeAll_append, List.take_append_drop]
    rw [List.take_append_of_le_length hle, hdone, List.append_assoc] at hk
    have hnil := List.append_right_eq_self.mp hk
    exact (List.append_eq_nil_iff.mp hnil).2
  · rw [List.take_append, List.take_of_length_le (by omega), Codec.encodeAll_append] at hk
    have hwhole := List.append_cancel_left hk
    rw [hwhole] at hfirst ⊢
    have hnone := codec.eq_nil_of_read_more
      (fun a ha => hvalid a (List.mem_of_mem_take ha)) hfirst
    rw [hnone]
    rfl

/-- Without a cut, a session has been given the items that have arrived whole. -/
theorem run_uncut (hempty : codec.read [] = .more) {items : List α}
    (hvalid : ∀ a ∈ items, codec.Valid a) (s : σ) {events : List (Event β)} {t : List β}
    (hbytes : arrived events ++ t = codec.encodeAll items) (huncut : ¬ Cut codec items events) :
    ∃ done left first, items = done ++ left ∧ arrived events = codec.encodeAll done ++ first ∧
      codec.read first = .more ∧ first ++ t = codec.encodeAll left ∧
      run codec handle events (start s) = after [] (serve handle s done) first := by
  induction events using List.reverseRecOn generalizing t with
  | nil => exact ⟨[], items, [], rfl, rfl, hempty, hbytes, rfl⟩
  | append_singleton events e ih =>
    have hearlier : ¬ Cut codec items events := fun hcut =>
      huncut (cut_append_singleton.mpr (.inl hcut))
    rw [arrived_append, List.append_assoc] at hbytes
    obtain ⟨done, left, first, rfl, harrived, hfirst, hleft, hrun⟩ := ih hbytes hearlier
    have hvalid' : ∀ a ∈ left, codec.Valid a := fun a ha => hvalid a (List.mem_append_right _ ha)
    rw [run_append, hrun]
    cases e with
    | timer =>
      have hk : ∃ k, arrived events = codec.encodeAll ((done ++ left).take k) := by
        by_contra hnone
        exact huncut (cut_append_singleton.mpr (.inr ⟨rfl, fun k hk => hnone ⟨k, hk⟩⟩))
      obtain ⟨k, hk⟩ := hk
      rw [harrived] at hk
      obtain rfl := start_eq_nil hvalid' hfirst hk
      refine ⟨done, left, [], rfl, by simpa using harrived, hempty, hleft, ?_⟩
      rcases serve handle s done with ⟨s', items', _ | e⟩ <;> rfl
    | chunk bytes =>
      have hsplit : (first ++ bytes) ++ t = codec.encodeAll left := by
        rw [List.append_assoc]
        simpa using hleft
      obtain ⟨done', left', first', rfl, hmore, hfirst', hleft'⟩ :=
        codec.split_encodeAll hempty hvalid' hsplit
      refine ⟨done ++ done', left', first', by simp, ?_, hfirst', hleft', ?_⟩
      · rw [arrived_append, harrived, Codec.encodeAll_append, List.append_assoc, List.append_assoc,
          ← hmore]
        simp
      · rcases hserve : serve handle s done with ⟨s', items', _ | e⟩
        · have hopen : (serve handle s done).2.2 = none := by rw [hserve]
          have hdone : items' = done := by
            have h := serve_dispatched_of_open hopen
            rw [hserve] at h
            exact h
          have hvalid'' : ∀ a ∈ done', codec.Valid a := fun a ha =>
            hvalid' a (List.mem_append_left _ ha)
          have hfeed := feed_complete handle hvalid'' hmore hfirst' s' items'
          rw [serve_append_of_open hopen, hserve]
          simp only [run_cons, run_nil, step, after, List.nil_append]
          rw [hfeed]
          rcases serve handle s' done' with ⟨s'', items'', _ | e⟩ <;> rfl
        · have hended : (serve handle s done).2.2 ≠ none := by
            rw [hserve]
            exact Option.some_ne_none e
          rw [serve_append_of_ended hended, hserve]
          rfl

theorem run_of_ended {m : Session σ α β ε η} {e : Ending ε η} (h : m.ending = some e)
    (events : List (Event β)) : run codec handle events m = m := by
  induction events with
  | nil => rfl
  | cons event events ih =>
    have hstep : step codec handle m event = m := by
      cases event <;> simp only [step, feed, cancel, h]
    rw [run_cons, hstep, ih]

variable (codec handle) in
theorem length_drain_le (n : ℕ) (m : Session σ α β ε η) :
    (codec.encodeAll (drain codec handle n m).dispatched).length +
        (drain codec handle n m).pending.length ≤
      (codec.encodeAll m.dispatched).length + m.pending.length := by
  induction n generalizing m with
  | zero => exact le_refl _
  | succ n ih =>
    unfold drain
    cases hread : codec.read m.pending with
    | more => exact le_refl _
    | fail e => exact Nat.add_le_add_left (Nat.zero_le _) _
    | item a rest =>
      obtain ⟨-, hpending⟩ := codec.eq_of_read _ _ _ hread
      have hlength : m.pending.length = (codec.encode a).length + rest.length := by
        rw [hpending, List.length_append]
      have hitem : (codec.encodeAll (m.dispatched ++ [a])).length =
          (codec.encodeAll m.dispatched).length + (codec.encode a).length := by
        simp
      rcases hstep : handle m.state a with ⟨s', _ | e⟩
      · have hrest := ih ⟨s', rest, m.dispatched ++ [a], none⟩
        simp only [hstep, hitem] at hrest ⊢
        omega
      · simp only [hstep, hitem, List.length_nil]
        omega

variable (codec handle) in
/-- What has been dispatched and what is pending never exceed what has arrived. -/
theorem length_run_le (events : List (Event β)) (m : Session σ α β ε η) :
    (codec.encodeAll (run codec handle events m).dispatched).length +
        (run codec handle events m).pending.length ≤
      (codec.encodeAll m.dispatched).length + m.pending.length + (arrived events).length := by
  induction events generalizing m with
  | nil => exact le_refl _
  | cons e events ih =>
    have hstep : (codec.encodeAll (step codec handle m e).dispatched).length +
          (step codec handle m e).pending.length ≤
        (codec.encodeAll m.dispatched).length + m.pending.length + e.bytes.length := by
      cases e with
      | timer =>
        unfold step cancel
        cases m.ending with
        | none => simp
        | some _ => simp
      | chunk bytes =>
        unfold step feed
        cases m.ending with
        | some _ => simp
        | none =>
          have hdrain := length_drain_le codec handle ((m.pending ++ bytes).length + 1)
            ⟨m.state, m.pending ++ bytes, m.dispatched, none⟩
          simp only [List.length_append] at hdrain ⊢
          simp only [Event.bytes_chunk]
          omega
    have hrest := ih (step codec handle m e)
    rw [run_cons, arrived_cons, List.length_append]
    omega

variable (handle) in
/-- Without a cut, a session that gets whole items is given what its handler takes of them. -/
theorem dispatched_of_uncut (hempty : codec.read [] = .more) {items : List α}
    (hvalid : ∀ a ∈ items, codec.Valid a) (s : σ) {events : List (Event β)}
    (hbytes : arrived events = codec.encodeAll items) (huncut : ¬ Cut codec items events) :
    (run codec handle events (start s)).dispatched = (serve handle s items).2.1 := by
  obtain ⟨done, left, first, rfl, -, hfirst, hleft, hrun⟩ := run_uncut (t := []) hempty hvalid s
    (by rw [List.append_nil, hbytes]) huncut
  have hnone : left = [] := by
    apply codec.eq_nil_of_read_more fun a ha => hvalid a (List.mem_append_right _ ha)
    rw [← hleft, List.append_nil]
    exact hfirst
  rw [hrun, hnone, List.append_nil]
  rcases serve handle s done with ⟨s', items', _ | e⟩ <;> rfl

/-- The bytes that a cut drops are missing in the end. -/
theorem dispatched_ne_of_cut (hempty : codec.read [] = .more) {items : List α}
    (hvalid : ∀ a ∈ items, codec.Valid a) (s : σ) {events : List (Event β)}
    (hbytes : arrived events = codec.encodeAll items) (hcut : Cut codec items events) :
    (run codec handle events (start s)).dispatched ≠ items := by
  obtain ⟨pre, post, rfl, hfirstCut, hinside⟩ := exists_first_cut hcut
  rw [arrived_append, arrived_cons, Event.bytes_timer, List.nil_append] at hbytes
  obtain ⟨done, left, first, rfl, harrived, hfirst, hleft, hrun⟩ :=
    run_uncut hempty hvalid s hbytes hfirstCut
  have hlost : first ≠ [] := by
    intro hnone
    apply hinside done.length
    rw [harrived, hnone, List.take_left, List.append_nil]
  rw [run_append, run_cons, hrun]
  intro hdispatched
  rcases hserve : serve handle s done with ⟨s', items', _ | e⟩
  · -- the timer drops the first bytes of the next item
    have hopen : (serve handle s done).2.2 = none := by rw [hserve]
    have hitems : items' = done := by
      have hserved := serve_dispatched_of_open hopen
      rw [hserve] at hserved
      exact hserved
    have hpositive : 0 < first.length := List.length_pos_of_ne_nil hlost
    have hcount := length_run_le codec handle post ⟨s', [], items', none⟩
    have htotal := congrArg List.length hbytes
    rw [hserve] at hdispatched
    simp only [after, step, cancel, List.nil_append] at hdispatched
    rw [hdispatched, hitems, Codec.encodeAll_append] at hcount
    rw [harrived, Codec.encodeAll_append] at htotal
    simp only [List.length_append, List.length_nil] at hcount htotal
    omega
  · -- the session had ended before the timer
    have hdone : (serve handle s done).2.1.length ≤ done.length :=
      length_serve_le handle s done
    rw [hserve] at hdone hdispatched
    simp only [after, step, cancel, List.nil_append] at hdispatched
    rw [run_of_ended rfl] at hdispatched
    have hlength := congrArg List.length hdispatched
    simp only [List.length_append] at hlength hdone
    have hnone : left = [] := List.length_eq_zero_iff.mp (by omega)
    rw [hnone] at hleft
    exact hlost (List.append_eq_nil_iff.mp hleft).1

variable (codec handle) in
theorem valid_of_drain (n : ℕ) (m : Session σ α β ε η) (hm : ∀ a ∈ m.dispatched, codec.Valid a) :
    ∀ a ∈ (drain codec handle n m).dispatched, codec.Valid a := by
  induction n generalizing m with
  | zero => exact hm
  | succ n ih =>
    unfold drain
    cases hread : codec.read m.pending with
    | more => exact hm
    | fail e => exact hm
    | item a rest =>
      have hall : ∀ b ∈ m.dispatched ++ [a], codec.Valid b := by
        intro b hb
        rcases List.mem_append.mp hb with hold | hnew
        · exact hm b hold
        · rw [List.mem_singleton.mp hnew]
          exact (codec.eq_of_read _ _ _ hread).1
      rcases hstep : handle m.state a with ⟨s', _ | e⟩
      · simp only [hstep]
        exact ih ⟨s', rest, m.dispatched ++ [a], none⟩ hall
      · simp only [hstep]
        exact hall

variable (codec handle) in
/-- Whatever arrives, a handler is given valid items only. -/
theorem valid_of_run (events : List (Event β)) (m : Session σ α β ε η)
    (hm : ∀ a ∈ m.dispatched, codec.Valid a) :
    ∀ a ∈ (run codec handle events m).dispatched, codec.Valid a := by
  induction events generalizing m with
  | nil => exact hm
  | cons e events ih =>
    apply ih
    rcases m with ⟨s, p, dispatched, _ | ending⟩
    · cases e with
      | timer => exact hm
      | chunk bytes => exact valid_of_drain codec handle _ _ hm
    · cases e <;> exact hm

/-- A session is given exactly the items that are sent if and only if they are valid, no timer cuts a
read, and the handler has not ended while one of them is left. -/
theorem dispatched_eq_iff (hempty : codec.read [] = .more) {items : List α} (s : σ)
    {events : List (Event β)} (hbytes : arrived events = codec.encodeAll items) :
    (run codec handle events (start s)).dispatched = items ↔
      (∀ a ∈ items, codec.Valid a) ∧ ¬ Cut codec items events ∧
        ∀ done left, items = done ++ left → left ≠ [] → (serve handle s done).2.2 = none := by
  rw [← serve_dispatched_eq_iff]
  constructor
  · intro hdispatched
    have hvalid : ∀ a ∈ items, codec.Valid a := by
      rw [← hdispatched]
      exact valid_of_run codec handle events (start s) fun a ha => absurd ha List.not_mem_nil
    have huncut : ¬ Cut codec items events := fun hcut =>
      dispatched_ne_of_cut hempty hvalid s hbytes hcut hdispatched
    have hserved := dispatched_of_uncut handle hempty hvalid s hbytes huncut
    exact ⟨hvalid, huncut, hserved.symm.trans hdispatched⟩
  · intro ⟨hvalid, huncut, hserved⟩
    rw [dispatched_of_uncut handle hempty hvalid s hbytes huncut, hserved]

/-! ## Chunks without a timer -/

theorem drain_fuel {n n' : ℕ} (m : Session σ α β ε η) (hn : m.pending.length < n)
    (hn' : m.pending.length < n') : drain codec handle n m = drain codec handle n' m := by
  induction n generalizing n' m with
  | zero => exact absurd hn (Nat.not_lt_zero _)
  | succ n ih =>
    cases n' with
    | zero => exact absurd hn' (Nat.not_lt_zero _)
    | succ n' =>
      unfold drain
      cases hread : codec.read m.pending with
      | more => rfl
      | fail e => rfl
      | item a rest =>
        have hlt := codec.length_rest_lt hread
        rcases hstep : handle m.state a with ⟨s', _ | e⟩
        · simp only [hstep]
          apply ih
          · exact Nat.lt_of_lt_of_le hlt (Nat.le_of_lt_succ hn)
          · exact Nat.lt_of_lt_of_le hlt (Nat.le_of_lt_succ hn')
        · simp only [hstep]

variable (codec handle) in
/-- Two chunks do what one chunk of all their bytes does. -/
theorem feed_drain (n : ℕ) (s : σ) (p : List β) (dispatched : List α) (hn : p.length < n)
    (chunk : List β) :
    feed codec handle chunk (drain codec handle n ⟨s, p, dispatched, none⟩) =
      drain codec handle ((p ++ chunk).length + 1) ⟨s, p ++ chunk, dispatched, none⟩ := by
  induction n generalizing s p dispatched with
  | zero => exact absurd hn (Nat.not_lt_zero _)
  | succ n ih =>
    cases hread : codec.read p with
    | more => simp only [drain, hread, feed]
    | fail e => simp only [drain, hread, feed, codec.read_fail _ chunk _ hread]
    | item a rest =>
      have hlt := codec.length_rest_lt hread
      have hlonger : (rest ++ chunk).length < (p ++ chunk).length := by
        simp only [List.length_append]
        omega
      rcases hstep : handle s a with ⟨s', _ | e⟩
      · have hrest := ih s' rest (dispatched ++ [a]) (by omega)
        have hread' := codec.read_append hread chunk
        simp only [drain, hread, hstep, hread', hrest]
        exact drain_fuel ⟨s', rest ++ chunk, dispatched ++ [a], none⟩ (Nat.lt_succ_self _) hlonger
      · simp only [drain, hread, hstep, feed, codec.read_append hread chunk]

theorem feed_feed (m : Session σ α β ε η) (chunk chunk' : List β) :
    feed codec handle chunk' (feed codec handle chunk m) =
      feed codec handle (chunk ++ chunk') m := by
  obtain ⟨s, p, dispatched, ending⟩ := m
  cases ending with
  | some e => rfl
  | none =>
    have hdrain := feed_drain codec handle ((p ++ chunk).length + 1) s (p ++ chunk) dispatched
      (Nat.lt_succ_self _) chunk'
    unfold feed at hdrain ⊢
    rw [← List.append_assoc]
    exact hdrain

theorem run_chunks (m : Session σ α β ε η) (chunk : List β) (chunks : List (List β)) :
    run codec handle ((chunk :: chunks).map .chunk) m =
      feed codec handle (chunk :: chunks).flatten m := by
  induction chunks generalizing m chunk with
  | nil => simp [step]
  | cons chunk' chunks ih =>
    have hrest := ih (feed codec handle chunk m) chunk'
    rw [List.map_cons, run_cons, step, hrest, feed_feed]
    rfl

variable (handle) in
/-- Complete items, and then bytes that no read accepts. -/
theorem feed_unreadable {items : List α} (hvalid : ∀ a ∈ items, codec.Valid a) {bad : List β} {e : ε}
    (hbad : codec.read bad = .fail e) (s : σ) (dispatched : List α) :
    feed codec handle (codec.encodeAll items ++ bad) ⟨s, [], dispatched, none⟩ =
      match serve handle s items with
      | (s', items', none) => ⟨s', [], dispatched ++ items', some (.unreadable e)⟩
      | (s', items', some e') => ⟨s', [], dispatched ++ items', some (.handler e')⟩ := by
  obtain ⟨n, hn, hdrain⟩ := drain_encodeAll handle hvalid bad
    ((codec.encodeAll items ++ bad).length + 1) s dispatched (Nat.lt_succ_self _)
  simp only [feed, List.nil_append, hdrain]
  rcases serve handle s items with ⟨s', items', _ | e'⟩
  · cases n with
    | zero => exact absurd hn (Nat.not_lt_zero _)
    | succ n => simp only [drain, hbad]
  · rfl

variable (codec handle) in
/-- What a session makes of bytes that no read accepts is what it makes of some more items instead,
if and only if it had ended before them. -/
theorem feed_unreadable_eq_iff (hempty : codec.read [] = .more) {items items' : List α}
    (hvalid : ∀ a ∈ items ++ items', codec.Valid a) {bad : List β} {e : ε}
    (hbad : codec.read bad = .fail e) (s : σ) :
    feed codec handle (codec.encodeAll items ++ bad) (start s) =
        feed codec handle (codec.encodeAll (items ++ items')) (start s) ↔
      (serve handle s items).2.2 ≠ none := by
  have hitems : ∀ a ∈ items, codec.Valid a := fun a ha => hvalid a (List.mem_append_left _ ha)
  have hleft := feed_unreadable handle hitems hbad s []
  have hbytes : [] ++ codec.encodeAll (items ++ items') =
      codec.encodeAll (items ++ items') ++ [] := by
    simp
  have hright := feed_complete handle hvalid hbytes hempty s []
  rw [start, hleft, hright]
  rcases hserve : serve handle s items with ⟨s', served, _ | e'⟩
  · -- the read fails, where the items would have been served
    simp only [ne_eq, not_true_eq_false, iff_false]
    intro heq
    have hending := congrArg Session.ending heq
    rcases hserve' : serve handle s (items ++ items') with ⟨s'', served', _ | e''⟩ <;>
      simp [hserve', after] at hending
  · have hended : (serve handle s items).2.2 ≠ none := by
      rw [hserve]
      exact Option.some_ne_none e'
    rw [serve_append_of_ended hended, hserve]
    simp [after]

end Session

end DSearch.Framing

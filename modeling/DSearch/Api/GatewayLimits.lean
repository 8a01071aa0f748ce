import DSearch.Api.Gateway
import DSearch.Foundations.LossyText
import DSearch.Foundations.Runs
import DSearch.Foundations.Windows

/-! # Runs of the gateway, and its limit per key

Connections are served one after the other. The limiter counts under the text that a request presents,
while a key is validated by the bytes that it decodes to, so the spellings of one key have a count each.

The invariant is `Counted`: the requests of a key that were let through in the window of an entry are at
most the count of that entry. -/

namespace DSearch
set_option autoImplicit false

namespace GatewayKeys

/-- The entry that a check counts in. -/
def current (limits : Table RateLimitEntry) (identifier : String) (now : ℕ) : RateLimitEntry :=
  match limits[identifier]? with
  | some entry => if entry.windowStart + 60 ≤ now then ⟨0, now⟩ else entry
  | none => ⟨0, now⟩

def counted (entry : RateLimitEntry) : RateLimitEntry :=
  { entry with count := (entry.count + 1) % 2 ^ 32 }

theorem checkRateLimit_eq {limits : Table RateLimitEntry} {identifier : String} {now : ℕ}
    (hstart : ∀ entry, limits[identifier]? = some entry → entry.windowStart ≤ now)
    (limitPerMin : ℕ) :
    checkRateLimit limits identifier limitPerMin now =
      (limits.insert identifier (counted (current limits identifier now)),
        decide ((counted (current limits identifier now)).count ≤ limitPerMin)) := by
  unfold checkRateLimit current counted
  dsimp only
  cases hentry : limits[identifier]? with
  | none => simp
  | some entry =>
    have hle : entry.windowStart ≤ now := hstart entry hentry
    have helapsed : now - entry.windowStart ≥ 60 ↔ entry.windowStart + 60 ≤ now := by omega
    simp only [Option.getD_some, hle, if_true, helapsed]

/-- A check depends on, and changes, the entry of its identifier only. -/
theorem checkRateLimit_congr {limits limits' : Table RateLimitEntry} {identifier : String}
    (h : limits[identifier]? = limits'[identifier]?) (limitPerMin now : ℕ) :
    (checkRateLimit limits identifier limitPerMin now).2 =
        (checkRateLimit limits' identifier limitPerMin now).2 ∧
      (checkRateLimit limits identifier limitPerMin now).1[identifier]? =
        (checkRateLimit limits' identifier limitPerMin now).1[identifier]? := by
  unfold checkRateLimit
  dsimp only
  rw [h, Std.ExtTreeMap.getElem?_insert_self, Std.ExtTreeMap.getElem?_insert_self]
  exact ⟨rfl, rfl⟩

theorem checkRateLimit_ne (limits : Table RateLimitEntry) {identifier other : String}
    (h : identifier ≠ other) (limitPerMin now : ℕ) :
    (checkRateLimit limits identifier limitPerMin now).1[other]? = limits[other]? := by
  unfold checkRateLimit
  dsimp only
  rw [Std.ExtTreeMap.getElem?_insert]
  simp [h]

section
open Windows

def spells (codec : KeyCodec) (secret : Bytes) (key : String) : Bool :=
  (codec.hexDecode key).toOption = some secret

/-- No other spelling of the key has a window that is open, and the count has room for one more. -/
def OneSpelling (codec : KeyCodec) (secret : Bytes) (limits : Table RateLimitEntry) (key : String)
    (now : ℕ) : Prop :=
  (∀ (other : String) (entry : RateLimitEntry), other ≠ key → spells codec secret other = true →
    limits[other]? = some entry → entry.windowStart + 60 ≤ now) ∧
    ∀ entry, limits[key]? = some entry → now < entry.windowStart + 60 → entry.count + 1 < 2 ^ 32

/-- `times` are the requests of the secret that were let through up to `now`. -/
structure Counted (codec : KeyCodec) (secret : Bytes) (limit : ℕ) (limits : Table RateLimitEntry)
    (times : List ℕ) (now : ℕ) : Prop where
  bounded : ∀ (key : String) (entry : RateLimitEntry), spells codec secret key = true →
    limits[key]? = some entry → times.countP (within entry.windowStart 60) ≤ min entry.count limit
  started : ∀ (key : String) (entry : RateLimitEntry), limits[key]? = some entry →
    entry.windowStart ≤ now
  covered : ∀ t ∈ times, ∃ (key : String) (entry : RateLimitEntry),
    spells codec secret key = true ∧ limits[key]? = some entry ∧ t < entry.windowStart + 60

namespace Counted
variable {codec : KeyCodec} {secret : Bytes} {limit : ℕ} {limits : Table RateLimitEntry}
  {times : List ℕ} {before now : ℕ} {key : String}

theorem empty (now : ℕ) : Counted codec secret limit ∅ [] now where
  bounded _ _ _ h := by simp at h
  started _ _ h := by simp at h
  covered _ h := by simp at h

theorem later (h : Counted codec secret limit limits times before) (hle : before ≤ now) :
    Counted codec secret limit limits times now where
  bounded := h.bounded
  started key entry hentry := (h.started key entry hentry).trans hle
  covered := h.covered

theorem of_sublist (h : Counted codec secret limit limits times now) {times' : List ℕ}
    (hsub : List.Sublist times' times) : Counted codec secret limit limits times' now where
  bounded key entry hkey hentry := hsub.countP_le.trans (h.bounded key entry hkey hentry)
  started := h.started
  covered t ht := h.covered t (hsub.subset ht)

theorem check_eq (h : Counted codec secret limit limits times now) (key : String) :
    checkRateLimit limits key limit now =
      (limits.insert key (counted (current limits key now)),
        decide ((counted (current limits key now)).count ≤ limit)) :=
  checkRateLimit_eq (h.started key) limit

/-- The window of the checked entry goes on, or a new one begins after its end. -/
theorem current_cases (limits : Table RateLimitEntry) (key : String) (now : ℕ) :
    (∃ entry, limits[key]? = some entry ∧ now < entry.windowStart + 60 ∧
        current limits key now = entry) ∨
      ((∀ entry, limits[key]? = some entry → entry.windowStart + 60 ≤ now) ∧
        current limits key now = ⟨0, now⟩) := by
  unfold current
  cases hentry : limits[key]? with
  | none => exact .inr ⟨fun _ h => by simp at h, rfl⟩
  | some entry =>
    dsimp only
    by_cases hover : entry.windowStart + 60 ≤ now
    · rw [if_pos hover]
      exact .inr ⟨fun entry' h => Option.some.inj h ▸ hover, rfl⟩
    · rw [if_neg hover]
      exact .inl ⟨entry, rfl, by omega, rfl⟩

/-- A request under another text leaves the entries of the spellings alone. -/
theorem check_other (h : Counted codec secret limit limits times now)
    (hother : spells codec secret key = false) :
    Counted codec secret limit (checkRateLimit limits key limit now).1 times now := by
  have hne : ∀ k, spells codec secret k = true → key ≠ k := by
    rintro k hk rfl
    exact absurd (hk.symm.trans hother) (by decide)
  refine ⟨fun k entry hk hentry => ?_, fun k entry hentry => ?_, fun t ht => ?_⟩
  · rw [checkRateLimit_ne limits (hne k hk)] at hentry
    exact h.bounded k entry hk hentry
  · by_cases hkey : key = k
    · subst hkey
      rw [h.check_eq, Std.ExtTreeMap.getElem?_insert_self] at hentry
      obtain rfl := Option.some.inj hentry
      rcases current_cases limits key now with ⟨found, hfound, -, hcurrent⟩ | ⟨-, hcurrent⟩
      · rw [hcurrent]
        exact h.started key found hfound
      · rw [hcurrent]
        exact le_refl now
    · rw [checkRateLimit_ne limits hkey] at hentry
      exact h.started k entry hentry
  · obtain ⟨k, entry, hk, hentry, hlt⟩ := h.covered t ht
    exact ⟨k, entry, hk, by rw [checkRateLimit_ne limits (hne k hk)]; exact hentry, hlt⟩

theorem start_le_current (h : Counted codec secret limit limits times now) {entry : RateLimitEntry}
    (hentry : limits[key]? = some entry) :
    entry.windowStart ≤ (counted (current limits key now)).windowStart := by
  rcases current_cases limits key now with ⟨found, hfound, -, hcurrent⟩ | ⟨-, hcurrent⟩
  · obtain rfl := Option.some.inj (hentry.symm.trans hfound)
    rw [hcurrent]
    exact le_refl _
  · rw [hcurrent]
    exact h.started key entry hentry

theorem current_open (h : Counted codec secret limit limits times now) (key : String) :
    (counted (current limits key now)).windowStart ≤ now ∧
      now < (counted (current limits key now)).windowStart + 60 := by
  rcases current_cases limits key now with ⟨found, hfound, hopen, hcurrent⟩ | ⟨-, hcurrent⟩
  · rw [hcurrent]
    exact ⟨h.started key found hfound, hopen⟩
  · rw [hcurrent]
    exact ⟨le_refl now, Nat.lt_add_of_pos_right (by decide)⟩

/-- What was let through in the window of the checked entry, this request not yet among it. -/
theorem current_bounded (h : Counted codec secret limit limits times now)
    (hkey : spells codec secret key = true) (hone : OneSpelling codec secret limits key now) :
    times.countP (within (counted (current limits key now)).windowStart 60) ≤ limit ∧
      times.countP (within (counted (current limits key now)).windowStart 60) + 1 ≤
        (counted (current limits key now)).count := by
  rcases current_cases limits key now with ⟨found, hfound, hopen, hcurrent⟩ | ⟨hclosed, hcurrent⟩
  · have hbounded := h.bounded key found hkey hfound
    have hroom := hone.2 found hfound hopen
    rw [hcurrent]
    unfold counted
    dsimp only
    rw [Nat.mod_eq_of_lt hroom]
    omega
  · -- All windows of the secret are over, so nothing was let through at this time.
    have hpast : times.countP (within now 60) = 0 := by
      rw [List.countP_eq_zero]
      intro t ht
      obtain ⟨k, entry, hk, hentry, hlt⟩ := h.covered t ht
      have hover : entry.windowStart + 60 ≤ now := by
        by_cases hsame : k = key
        · subst hsame
          exact hclosed entry hentry
        · exact hone.1 k entry hsame hk hentry
      rw [within_iff]
      omega
    rw [hcurrent]
    unfold counted
    dsimp only
    rw [hpast]
    omega

/-- The step: a request under a spelling of the secret. -/
theorem check_self (h : Counted codec secret limit limits times now)
    (hkey : spells codec secret key = true) (hone : OneSpelling codec secret limits key now) :
    Counted codec secret limit (checkRateLimit limits key limit now).1
      (times ++ if (checkRateLimit limits key limit now).2 then [now] else []) now := by
  obtain ⟨hstart, hopen⟩ := h.current_open key
  obtain ⟨hlimit, hcount⟩ := h.current_bounded hkey hone
  have hgrow : ∀ entry, limits[key]? = some entry → entry.windowStart ≤
      (counted (current limits key now)).windowStart := fun _ => h.start_le_current
  have hextra : ∀ (b : Bool), ∀ t ∈ (if b = true then [now] else []), t = now := by
    intro b t ht
    cases b with
    | true => exact List.mem_singleton.mp ht
    | false => simp at ht
  rw [h.check_eq]
  generalize counted (current limits key now) = entry at hstart hopen hlimit hcount hgrow
  dsimp only
  refine ⟨fun k e hk he => ?_, fun k e he => ?_, fun t ht => ?_⟩
  · rcases OrderedTable.get_insert_eq_some.mp he with ⟨-, rfl⟩ | ⟨hne, he⟩
    · rw [List.countP_append]
      by_cases hpass : entry.count ≤ limit
      · have hnow : within entry.windowStart 60 now = true := (within_iff _ _ _).mpr ⟨hstart, hopen⟩
        simp only [hpass, decide_true, if_true, List.countP_cons_of_pos hnow, List.countP_nil]
        omega
      · simp only [hpass, decide_false, Bool.false_eq_true, if_false, List.countP_nil]
        omega
    · have hover := hone.1 k e (Ne.symm hne) hk he
      have hnone : (if decide (entry.count ≤ limit) = true then [now] else []).countP
          (within e.windowStart 60) = 0 := by
        rw [List.countP_eq_zero]
        intro t ht
        rw [hextra _ t ht, within_iff]
        omega
      rw [List.countP_append, hnone, Nat.add_zero]
      exact h.bounded k e hk he
  · rcases OrderedTable.get_insert_eq_some.mp he with ⟨-, rfl⟩ | ⟨-, he⟩
    · exact hstart
    · exact h.started k e he
  · rcases List.mem_append.mp ht with ht | ht
    · obtain ⟨k, e, hk, he, hlt⟩ := h.covered t ht
      by_cases hsame : key = k
      · subst hsame
        exact ⟨key, entry, hkey, Std.ExtTreeMap.getElem?_insert_self, by have := hgrow e he; omega⟩
      · exact ⟨k, e, hk, OrderedTable.get_insert_eq_some.mpr (.inr ⟨hsame, he⟩), hlt⟩
    · have htnow : t = now := hextra _ t ht
      exact ⟨key, entry, hkey, Std.ExtTreeMap.getElem?_insert_self, by omega⟩

end Counted

end

end GatewayKeys

namespace Gateway

/-- A text that fits into the buffer is read as it is. -/
theorem request_asBytes (env : GatewayEnv) {text : String} (h : text.utf8ByteSize ≤ 65536) :
    request env (asBytes text) = Request.parseHttpRequest env.nodeEnv.toLowercase text.toList := by
  rw [request, List.take_of_length_le (by rwa [length_asBytes]), ← Utf8Text.encode_toList,
    RustText.fromUtf8Lossy_encode]

structure Connection where
  env : GatewayEnv
  received : Bytes

namespace Connection

def parsed (c : Connection) : Option HttpRequest :=
  if c.received = [] then none else (request c.env c.received).toOption

def presented (c : Connection) : Option String := c.parsed.bind extractApiKey

/-- What the limiter counts the connection under, if there is a request to count. -/
def identifier (c : Connection) : Option String :=
  c.parsed.map fun req => (extractApiKey req).getD c.env.peerIp

theorem parsed_asBytes {c : Connection} {text : String} (hreceived : c.received = asBytes text)
    (h : text.utf8ByteSize ≤ 65536) :
    c.parsed = (Request.parseHttpRequest c.env.nodeEnv.toLowercase text.toList).toOption := by
  rw [parsed, hreceived, request_asBytes _ h]
  split
  next hnil =>
    have hempty : text.toList = [] := by
      rw [← RustText.fromUtf8Lossy_encode text.toList, Utf8Text.encode_toList, hnil]
      rfl
    rw [hempty]
    rfl
  next => rfl

theorem identifier_of_presented {c : Connection} {key : String} (h : c.presented = some key) :
    c.identifier = some key := by
  unfold presented at h
  unfold identifier
  cases hparsed : c.parsed with
  | none => simp [hparsed] at h
  | some req =>
    rw [hparsed, Option.bind_some] at h
    rw [Option.map_some, h, Option.getD_some]

end Connection

section
variable (codec : KeyCodec) (ctx : GatewayContext)

def serve (c : Connection) (s : GatewayState) : GatewayState × Option HttpResponse :=
  (handleGatewayConnection codec ctx c.env c.received).run s

/-- The check of the limiter comes first, for every request that can be read. -/
theorem serve_limits (c : Connection) (s : GatewayState) :
    (serve codec ctx c s).1.limits =
      match c.identifier with
      | some identifier =>
        (GatewayKeys.checkRateLimit s.limits identifier ctx.rateLimit c.env.now).1
      | none => s.limits := by
  unfold serve handleGatewayConnection Connection.identifier Connection.parsed
  by_cases hempty : c.received = []
  · simp [hempty]
  simp only [hempty, if_false]
  cases request c.env c.received with
  | error e => rfl
  | ok req =>
    simp only [Transaction.Client.run_atomically, Except.toOption, Option.map_some]
    split
    · rfl
    split
    · rfl
    split
    · rfl
    split
    · rfl
    · rw [Transaction.Client.run_bind, Transaction.Client.run_onPart]
      rfl

theorem serve_over_limit {c : Connection} {s : GatewayState} {identifier : String}
    (hidentifier : c.identifier = some identifier)
    (hover : (GatewayKeys.checkRateLimit s.limits identifier ctx.rateLimit c.env.now).2 = false) :
    (serve codec ctx c s).2 = some tooManyRequests := by
  unfold Connection.identifier Connection.parsed at hidentifier
  unfold serve handleGatewayConnection
  by_cases hempty : c.received = []
  · simp [hempty] at hidentifier
  simp only [hempty, if_false] at hidentifier ⊢
  cases hrequest : request c.env c.received with
  | error e =>
    rw [hrequest] at hidentifier
    cases hidentifier
  | ok req =>
    rw [hrequest] at hidentifier
    obtain rfl : (extractApiKey req).getD c.env.peerIp = identifier := Option.some.inj hidentifier
    simp only [Transaction.Client.run_atomically, hover]
    rfl

/-- A key in a request for `/health`. -/
def asksHealth (key : String) (req : HttpRequest) : Bool :=
  extractApiKey req = some key ∧ req.method = "GET" ∧ req.path = "/health"

theorem serve_health {c : Connection} {s : GatewayState} {req : HttpRequest} {key : String}
    (hparsed : c.parsed = some req) (hasks : asksHealth key req = true)
    (hallowed : (GatewayKeys.checkRateLimit s.limits key ctx.rateLimit c.env.now).2 = true)
    (hvalid : GatewayKeys.validateKey codec c.env.keyFile key = true) :
    (serve codec ctx c s).2 = some (Content.health ctx.nodeId) := by
  obtain ⟨hkey, hget, hpath⟩ := of_decide_eq_true hasks
  unfold Connection.parsed at hparsed
  unfold serve handleGatewayConnection
  by_cases hempty : c.received = []
  · rw [if_pos hempty] at hparsed
    cases hparsed
  rw [if_neg hempty] at hparsed ⊢
  cases hrequest : request c.env c.received with
  | error e =>
    rw [hrequest] at hparsed
    cases hparsed
  | ok found =>
    rw [hrequest] at hparsed
    obtain rfl : found = req := Option.some.inj hparsed
    have hroute : gatewayRoute ctx c.env found = .done (Content.health ctx.nodeId) :=
      if_pos hpath
    simp only [Transaction.Client.run_atomically, hkey, Option.getD_some, hallowed, hroute, hget,
      Option.any_some, hvalid, not_true_eq_false, reduceCtorEq, and_false, Bool.not_true,
      Bool.false_eq_true, ne_eq, if_false]
    rfl

/-! ## The limit of one key -/

section
open Windows GatewayKeys
variable (secret : Bytes)

/-- The request presents a spelling of the secret, and its key is valid. -/
def authenticates (c : Connection) : Bool :=
  c.presented.any fun key => spells codec secret key && validateKey codec c.env.keyFile key

/-- The time of the request, if the secret authenticates it and the answer is not 429. -/
def answeredAt (c : Connection) (s : GatewayState) : List ℕ :=
  if authenticates codec secret c = true ∧
      ((serve codec ctx c s).2.any fun resp => resp.status ≠ 429) = true then [c.env.now] else []

def answeredTimes : List Connection → GatewayState → List ℕ
  | [], _ => []
  | c :: conns, s =>
    answeredAt codec ctx secret c s ++ answeredTimes conns (serve codec ctx c s).1

/-- A request under a spelling of the secret finds no open window of another spelling. -/
def SpeltOnce (s : GatewayState) (c : Connection) : Prop :=
  ∀ key, c.identifier = some key → spells codec secret key = true →
    OneSpelling codec secret s.limits key c.env.now

variable {codec ctx secret}

theorem identifier_of_answeredAt {c : Connection} {s : GatewayState}
    (h : answeredAt codec ctx secret c s ≠ []) :
    ∃ key, c.identifier = some key ∧ spells codec secret key = true ∧
      (checkRateLimit s.limits key ctx.rateLimit c.env.now).2 = true := by
  unfold answeredAt at h
  split at h
  next hanswered =>
    obtain ⟨hauthentic, hanswer⟩ := hanswered
    obtain ⟨key, hkey, hvalid⟩ := (Option.any_eq_true _ _).mp hauthentic
    have hidentifier := Connection.identifier_of_presented hkey
    refine ⟨key, hidentifier, (Bool.and_eq_true_iff.mp hvalid).1, ?_⟩
    by_contra hover
    rw [serve_over_limit codec ctx hidentifier (Bool.eq_false_iff.mpr hover)] at hanswer
    exact absurd hanswer (by decide)
  next => exact absurd rfl h

theorem answeredAt_health {c : Connection} {s : GatewayState} {req : HttpRequest} {key : String}
    (hparsed : c.parsed = some req) (hasks : asksHealth key req = true)
    (hallowed : (checkRateLimit s.limits key ctx.rateLimit c.env.now).2 = true)
    (hspells : spells codec secret key = true)
    (hvalid : validateKey codec c.env.keyFile key = true) :
    answeredAt codec ctx secret c s = [c.env.now] := by
  have hpresented : c.presented = some key := by
    rw [Connection.presented, hparsed]
    exact (of_decide_eq_true hasks).1
  have hauthentic : authenticates codec secret c = true := by
    rw [authenticates, hpresented, Option.any_some, hspells, hvalid]
    rfl
  have hanswer := serve_health codec ctx hparsed hasks hallowed hvalid
  rw [answeredAt, hanswer, if_pos]
  exact ⟨hauthentic, rfl⟩

theorem serve_counted {c : Connection} {s : GatewayState} {times : List ℕ} {before : ℕ}
    (h : Counted codec secret ctx.rateLimit s.limits times before) (hle : before ≤ c.env.now)
    (hspelt : SpeltOnce codec secret s c) :
    Counted codec secret ctx.rateLimit (serve codec ctx c s).1.limits
      (times ++ answeredAt codec ctx secret c s) c.env.now := by
  have h := h.later hle
  rw [serve_limits]
  by_cases hanswered : answeredAt codec ctx secret c s = []
  · rw [hanswered, List.append_nil]
    cases hidentifier : c.identifier with
    | none => exact h
    | some key =>
      cases hkey : spells codec secret key with
      | false => exact h.check_other hkey
      | true =>
        exact (h.check_self hkey (hspelt key hidentifier hkey)).of_sublist
          (List.sublist_append_left _ _)
  · obtain ⟨key, hidentifier, hkey, hpass⟩ := identifier_of_answeredAt hanswered
    have hself := h.check_self hkey (hspelt key hidentifier hkey)
    rw [if_pos hpass] at hself
    have hnow : answeredAt codec ctx secret c s = [c.env.now] := by
      unfold answeredAt at hanswered ⊢
      split at hanswered
      next hcond => exact if_pos hcond
      next => exact absurd rfl hanswered
    rw [hidentifier, hnow]
    exact hself

/-- An entry stays; its window ends only after its length. -/
theorem serve_entry (codec : KeyCodec) (ctx : GatewayContext) {c : Connection} {s : GatewayState}
    {key : String} {entry : RateLimitEntry}
    (hstart : ∀ (k : String) (e : RateLimitEntry), s.limits[k]? = some e → e.windowStart ≤ c.env.now)
    (hentry : s.limits[key]? = some entry) :
    (∃ later, (serve codec ctx c s).1.limits[key]? = some later ∧
        later.windowStart = entry.windowStart) ∨
      entry.windowStart + 60 ≤ c.env.now := by
  rw [serve_limits]
  cases hidentifier : c.identifier with
  | none => exact .inl ⟨entry, hentry, rfl⟩
  | some identifier =>
    dsimp only
    by_cases hsame : identifier = key
    · subst hsame
      rw [checkRateLimit_eq (hstart identifier)]
      rcases Counted.current_cases s.limits identifier c.env.now with
        ⟨found, hfound, -, hcurrent⟩ | ⟨hclosed, -⟩
      · obtain rfl := Option.some.inj (hentry.symm.trans hfound)
        rw [hcurrent]
        exact .inl ⟨counted entry, Std.ExtTreeMap.getElem?_insert_self, rfl⟩
      · exact .inr (hclosed entry hentry)
    · exact .inl ⟨entry, by rw [checkRateLimit_ne _ hsame]; exact hentry, rfl⟩

theorem answeredTimes_mem {conns : List Connection} {s : GatewayState} {t : ℕ}
    (h : t ∈ answeredTimes codec ctx secret conns s) : ∃ c ∈ conns, c.env.now = t := by
  induction conns generalizing s with
  | nil => simp [answeredTimes] at h
  | cons c conns ih =>
    rcases List.mem_append.mp h with h | h
    · unfold answeredAt at h
      split at h
      · exact ⟨c, List.mem_cons_self, (List.mem_singleton.mp h).symm⟩
      · simp at h
    · obtain ⟨c', hc', rfl⟩ := ih h
      exact ⟨c', List.mem_cons_of_mem c hc', rfl⟩

/-- The window of an entry, over the rest of a run. -/
theorem Counted.run_window {conns : List Connection} {s : GatewayState} {times : List ℕ} {now : ℕ}
    (h : Counted codec secret ctx.rateLimit s.limits times now)
    (hsorted : (now :: conns.map fun c => c.env.now).Pairwise (· ≤ ·))
    (hspelt : Runs.Along (serve codec ctx) (SpeltOnce codec secret) conns s)
    {key : String} {entry : RateLimitEntry} (hkey : spells codec secret key = true)
    (hentry : s.limits[key]? = some entry) :
    (times ++ answeredTimes codec ctx secret conns s).countP (within entry.windowStart 60) ≤
      ctx.rateLimit := by
  induction conns generalizing s times now entry with
  | nil =>
    rw [answeredTimes, List.append_nil]
    exact (h.bounded key entry hkey hentry).trans (min_le_right _ _)
  | cons c conns ih =>
    have hle : now ≤ c.env.now := List.rel_of_pairwise_cons hsorted List.mem_cons_self
    have hlater : (c.env.now :: conns.map fun c => c.env.now).Pairwise (· ≤ ·) := hsorted.of_cons
    rcases serve_entry codec ctx (h.later hle).started hentry with
      ⟨later, hlaterEntry, hstart⟩ | hover
    · rw [answeredTimes, ← List.append_assoc, ← hstart]
      exact ih (serve_counted h hle hspelt.1) hlater hspelt.2 hlaterEntry
    · -- The window is over, and with it all that it can count.
      have hrest : (answeredTimes codec ctx secret (c :: conns) s).countP
          (within entry.windowStart 60) = 0 := by
        rw [List.countP_eq_zero]
        intro t ht
        obtain ⟨c', hc', rfl⟩ := answeredTimes_mem ht
        have hfrom : c.env.now ≤ c'.env.now := by
          rcases List.mem_cons.mp hc' with rfl | hc'
          · exact le_refl _
          · exact List.rel_of_pairwise_cons hlater (List.mem_map_of_mem hc')
        rw [within_iff]
        omega
      rw [List.countP_append, hrest, Nat.add_zero]
      exact (h.bounded key entry hkey hentry).trans (min_le_right _ _)

theorem Counted.run_windows {before after : List Connection} {s : GatewayState} {times : List ℕ}
    {now : ℕ} (h : Counted codec secret ctx.rateLimit s.limits times now)
    (hsorted : (now :: (before ++ after).map fun c => c.env.now).Pairwise (· ≤ ·))
    (hspelt : Runs.Along (serve codec ctx) (SpeltOnce codec secret) (before ++ after) s)
    {key : String} {entry : RateLimitEntry} (hkey : spells codec secret key = true)
    (hentry : (Runs.runAll (serve codec ctx) before s).1.limits[key]? = some entry) :
    (times ++ answeredTimes codec ctx secret (before ++ after) s).countP
        (within entry.windowStart 60) ≤ ctx.rateLimit := by
  induction before generalizing s times now with
  | nil => exact Counted.run_window h hsorted hspelt hkey hentry
  | cons c before ih =>
    have hle : now ≤ c.env.now := List.rel_of_pairwise_cons hsorted List.mem_cons_self
    rw [List.cons_append, answeredTimes, ← List.append_assoc]
    exact ih (serve_counted h hle hspelt.1) hsorted.of_cons hspelt.2 hentry

end

end

open Windows in
/-- Within every window of the limiter, at most `rateLimit` requests with the secret are answered with
something other than 429, if no request comes while another spelling has an open window. -/
theorem secret_limited (codec : KeyCodec) (ctx : GatewayContext) (secret : Bytes) (node : NodeState)
    (before after : List Connection)
    (hsorted : ((before ++ after).map fun c => c.env.now).Pairwise (· ≤ ·))
    (hspelt : Runs.Along (serve codec ctx) (SpeltOnce codec secret) (before ++ after) ⟨∅, node⟩)
    (key : String) (entry : RateLimitEntry) (hkey : GatewayKeys.spells codec secret key = true)
    (hentry : (Runs.runAll (serve codec ctx) before ⟨∅, node⟩).1.limits[key]? = some entry) :
    (answeredTimes codec ctx secret (before ++ after) ⟨∅, node⟩).countP
        (within entry.windowStart 60) ≤ ctx.rateLimit := by
  have hzero : (0 :: (before ++ after).map fun c => c.env.now).Pairwise (· ≤ ·) :=
    List.pairwise_cons.mpr ⟨fun t _ => Nat.zero_le t, hsorted⟩
  exact Counted.run_windows (GatewayKeys.Counted.empty 0) hzero hspelt hkey hentry

/-! ## One key in two spellings -/

/-- For a key file that is the digest of its one key. -/
def oneKeyCodec : KeyCodec where
  hexDecode text := GatewayKeys.hexPairs (asBytes text)
  blake3 bytes := toString (bytes.map UInt8.toNat).sum
  keysFromStr contents := .ok [⟨"n", contents, 0, 0, 0⟩]

def abSecret : Bytes := List.replicate 32 0xab

/-- A request with a key of 32 equal bytes. -/
def healthWithKey (byte : String) (now : ℕ) : Connection where
  env := ⟨⟨now, now, .sorted, id⟩, now, .text (oneKeyCodec.blake3 abSecret), "127.0.0.1"⟩
  received := asBytes ("GET /health?api_key=" ++ String.join (List.replicate 32 byte) ++
    " HTTP/1.1\r\n\r\n")

def abKey : String := String.join (List.replicate 32 "ab")

def upperKey : String := String.join (List.replicate 32 "AB")

theorem toList_keyed {start byte finish : List Char} (n : ℕ) :
    (String.ofList start ++ String.join (List.replicate n (String.ofList byte)) ++
      String.ofList finish).toList = start ++ (List.replicate n byte).flatten ++ finish := by
  rw [String.toList_append, String.toList_append, String.toList_join, String.toList_ofList,
    String.toList_ofList, List.flatMap_replicate, String.toList_ofList]

/-- The characters of the request, as they are written down, are what is parsed. -/
theorem parsed_keyed {c : Connection} {start byte finish : List Char} {n : ℕ} {key : String}
    (hreceived : c.received = asBytes (String.ofList start ++
      String.join (List.replicate n (String.ofList byte)) ++ String.ofList finish))
    (hlower : c.env.nodeEnv.toLowercase = id)
    (hsize : c.received.length ≤ 65536)
    (hasks : (Request.parseHttpRequest id
      (start ++ (List.replicate n byte).flatten ++ finish)).toOption.any (asksHealth key) = true) :
    ∃ req, c.parsed = some req ∧ asksHealth key req = true := by
  rw [hreceived, length_asBytes] at hsize
  rw [Connection.parsed_asBytes hreceived hsize, toList_keyed, hlower]
  exact (Option.any_eq_true _ _).mp hasks

theorem parsed_ab (now : ℕ) :
    ∃ req, (healthWithKey "ab" now).parsed = some req ∧ asksHealth abKey req = true := by
  have hsize : (healthWithKey "ab" 0).received.length ≤ 65536 := by decide +kernel
  exact parsed_keyed rfl rfl hsize (by decide +kernel)

theorem healthWithKey_identifier (now : ℕ) :
    (healthWithKey "ab" now).identifier = some abKey := by
  obtain ⟨req, hparsed, hasks⟩ := parsed_ab now
  refine Connection.identifier_of_presented ?_
  rw [Connection.presented, hparsed]
  exact (of_decide_eq_true hasks).1

theorem healthWithKey_limits (now : ℕ) (s : GatewayState) :
    (serve oneKeyCodec ⟨"n", 1, true⟩ (healthWithKey "ab" now) s).1.limits =
      (GatewayKeys.checkRateLimit s.limits abKey 1 now).1 := by
  rw [serve_limits, healthWithKey_identifier]
  rfl

theorem limits_afterFirst (node : NodeState) :
    (Runs.runAll (serve oneKeyCodec ⟨"n", 1, true⟩) [healthWithKey "ab" 0] ⟨∅, node⟩).1.limits[abKey]? =
      some ⟨1, 0⟩ := by
  have hfirst : (∅ : Table RateLimitEntry)[abKey]? = none := Std.ExtTreeMap.getElem?_empty
  rw [Runs.runAll_cons, Runs.runAll_nil, healthWithKey_limits, GatewayKeys.checkRateLimit, hfirst]
  exact (OrderedTable.get_insert _ _ _ _).trans (if_pos rfl)

theorem spells_abKey : GatewayKeys.spells oneKeyCodec abSecret abKey = true := by decide +kernel

open Windows in
theorem secret_limited_twice :
    (answeredTimes oneKeyCodec ⟨"n", 1, true⟩ abSecret
        ([healthWithKey "ab" 0] ++ [healthWithKey "ab" 1]) ⟨∅, .new .empty⟩).countP
      (within 0 60) ≤ 1 := by
  refine secret_limited oneKeyCodec ⟨"n", 1, true⟩ abSecret (.new .empty) [healthWithKey "ab" 0]
    [healthWithKey "ab" 1] (by decide) ⟨?_, ?_, trivial⟩ abKey ⟨1, 0⟩ spells_abKey
    (limits_afterFirst _)
  · intro key _ _
    exact ⟨fun other entry _ _ h => by simp at h, fun entry h => by simp at h⟩
  · intro key hidentifier _
    obtain rfl : abKey = key := Option.some.inj ((healthWithKey_identifier 1).symm.trans hidentifier)
    refine ⟨fun other entry hother _ h => ?_, fun entry h _ => ?_⟩
    · rw [healthWithKey_limits, GatewayKeys.checkRateLimit_ne _ (Ne.symm hother)] at h
      simp at h
    · rw [healthWithKey_limits] at h
      obtain rfl : ⟨1, 0⟩ = entry := Option.some.inj h
      decide

open Windows in
/-- In upper and in lower case, one key is answered twice where the limit is one. -/
theorem two_spellings_over_limit :
    ¬ ∀ (codec : KeyCodec) (ctx : GatewayContext) (secret : Bytes) (node : NodeState)
      (before after : List Connection),
      ((before ++ after).map fun c => c.env.now).Pairwise (· ≤ ·) →
      ∀ (key : String) (entry : RateLimitEntry), GatewayKeys.spells codec secret key = true →
        (Runs.runAll (serve codec ctx) before ⟨∅, node⟩).1.limits[key]? = some entry →
        (answeredTimes codec ctx secret (before ++ after) ⟨∅, node⟩).countP
          (within entry.windowStart 60) ≤ ctx.rateLimit := by
  intro h
  have hcount := h oneKeyCodec ⟨"n", 1, true⟩ abSecret (.new .empty) [healthWithKey "ab" 0]
    [healthWithKey "AB" 1] (by decide) abKey ⟨1, 0⟩ spells_abKey (limits_afterFirst _)
  have hfirst : answeredAt oneKeyCodec ⟨"n", 1, true⟩ abSecret (healthWithKey "ab" 0)
      ⟨∅, .new .empty⟩ = [0] := by
    obtain ⟨req, hparsed, hasks⟩ := parsed_ab 0
    exact answeredAt_health hparsed hasks (by decide +kernel) spells_abKey (by decide +kernel)
  have hsecond : answeredAt oneKeyCodec ⟨"n", 1, true⟩ abSecret (healthWithKey "AB" 1)
      (serve oneKeyCodec ⟨"n", 1, true⟩ (healthWithKey "ab" 0) ⟨∅, .new .empty⟩).1 = [1] := by
    have hparsed : ∃ req, (healthWithKey "AB" 1).parsed = some req ∧ asksHealth upperKey req = true :=
      parsed_keyed rfl rfl (by decide +kernel) (by decide +kernel)
    obtain ⟨req, hparsed, hasks⟩ := hparsed
    refine answeredAt_health hparsed hasks ?_ (by decide +kernel) (by decide +kernel)
    -- the other spelling is no entry of the table
    have hne : abKey ≠ upperKey := by decide +kernel
    have hfresh := GatewayKeys.checkRateLimit_ne ∅ hne 1 0
    have hallowed : (GatewayKeys.checkRateLimit ∅ upperKey 1 1).2 = true := by decide +kernel
    rw [healthWithKey_limits]
    exact (GatewayKeys.checkRateLimit_congr hfresh 1 1).1.trans hallowed
  rw [List.singleton_append, answeredTimes, answeredTimes, hfirst, hsecond] at hcount
  exact absurd hcount (by decide)

end Gateway

end DSearch

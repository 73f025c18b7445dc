import MailserverUi.L2Store.Limiter
import MailserverUi.L4App.ClientIp

/-!
# The rate-limit middleware (`RateLimitMiddleware.dispatch`)

`dispatch` calls the shared limiter at most twice for a request: once for the
`ip:` budget, and for a login attempt that the first call allowed once more for
the `login:` budget. The two scopes live in one store under distinct keys, so
every key has one limit for good.

Results:
* `dispatch_serves`: what `dispatch` does to the limiter is to serve the calls
  `issued`.
* `issued_fixed`: every call it issues carries the limit of its key.
* `served_decides`: so along any sequence of requests in the order of time every
  decision is that of the log of allowed calls.
-/
namespace MailserverUi.L4.RateLimit

open Py L2.Limiter ClientIp

/-- mirrors backend/app/security.py:130-147 -/
structure RateLimitMiddleware where
  maxRequests : Int
  windowSeconds : Int
  loginMaxAttempts : Int
  loginWindowSeconds : Int
  loginPath : Str
  deriving DecidableEq, Repr

/-- What becomes of a request: passed on to the route, or answered with 429
and `Retry-After`. -/
inductive Answer where
  | callNext
  | tooManyRequests (retryAfter : Int)
  deriving DecidableEq, Repr

/-- A request with the times at which the clock is read for it. -/
structure Arrival where
  request : Request
  now : ℚ
  loginNow : ℚ
  deriving DecidableEq, Repr

variable (m : RateLimitMiddleware) (trustedProxies : Str)

def exempt (r : Request) : Bool :=
  !("/api/".toList.isPrefixOf r.path) || r.path = "/api/health".toList

/-- `get_client_ip(request) or "unknown"`. -/
def clientKey (r : Request) : Str :=
  match getClientIp trustedProxies r with
  | none | some [] => "unknown".toList
  | some ip => ip

def isLogin (r : Request) : Bool := r.method = "POST".toList && r.path = m.loginPath

def globalCall (a : Arrival) : Call :=
  ⟨"ip:".toList ++ clientKey trustedProxies a.request, m.maxRequests, m.windowSeconds, a.now⟩

def loginCall (a : Arrival) : Call :=
  ⟨"login:".toList ++ clientKey trustedProxies a.request, m.loginMaxAttempts,
    m.loginWindowSeconds, a.loginNow⟩

def answer : Bool × Int → Answer
  | (true, _) => .callNext
  | (false, retryAfter) => .tooManyRequests retryAfter

/-- mirrors backend/app/security.py:155-182 -/
def dispatch (s : SlidingWindowLimiter) (a : Arrival) :
    Except IndexError Answer × SlidingWindowLimiter :=
  if exempt a.request then (.ok .callNext, s)
  else
    match s.serve (globalCall m trustedProxies a) with
    | (.error e, s) => (.error e, s)
    | (.ok (allowed, retryAfter), s) =>
      if allowed && isLogin m a.request then
        match s.serve (loginCall m trustedProxies a) with
        | (.error e, s) => (.error e, s)
        | (.ok r, s) => (.ok (answer r), s)
      else (.ok (answer (allowed, retryAfter)), s)

/-- The calls `dispatch` makes of the limiter. -/
def issued (s : SlidingWindowLimiter) (a : Arrival) : List Call :=
  if exempt a.request then []
  else
    globalCall m trustedProxies a ::
      if allowed (s.serve (globalCall m trustedProxies a)).1 && isLogin m a.request then
        [loginCall m trustedProxies a]
      else []

/-- The limiter after a list of calls. -/
def served (s : SlidingWindowLimiter) : List Call → SlidingWindowLimiter
  | [] => s
  | c :: cs => served (s.serve c).2 cs

variable {m trustedProxies}

theorem dispatch_serves (s : SlidingWindowLimiter) (a : Arrival) :
    (dispatch m trustedProxies s a).2 = served s (issued m trustedProxies s a) := by
  unfold dispatch issued
  by_cases he : exempt a.request = true
  · rw [if_pos he, if_pos he]; rfl
  · rw [if_neg he, if_neg he]
    generalize globalCall m trustedProxies a = g
    rcases hg : s.serve g with ⟨_ | ⟨ok, after⟩, s'⟩
    · simp [allowed, served, hg]
    · by_cases hl : (ok && isLogin m a.request) = true
      · simp only [hl, if_true, allowed, served, hg]
        cases s'.serve (loginCall m trustedProxies a) with
        | mk r _ => cases r <;> rfl
      · simp [hl, allowed, served, hg]

/-- The limit of a key. -/
def limit (m : RateLimitMiddleware) (key : Str) : Int × Int :=
  if "ip:".toList.isPrefixOf key then (m.maxRequests, m.windowSeconds)
  else (m.loginMaxAttempts, m.loginWindowSeconds)

theorem issued_fixed (s : SlidingWindowLimiter) (a : Arrival) :
    ∀ c ∈ issued m trustedProxies s a,
      c.maxRequests = (limit m c.key).1 ∧ c.windowSeconds = (limit m c.key).2 := by
  intro c hc
  have hip (k : Str) : limit m ("ip:".toList ++ k) = (m.maxRequests, m.windowSeconds) := rfl
  have hlogin (k : Str) :
      limit m ("login:".toList ++ k) = (m.loginMaxAttempts, m.loginWindowSeconds) := rfl
  unfold issued at hc
  split at hc
  · cases hc
  · rcases List.mem_cons.mp hc with rfl | hc
    · exact ⟨congrArg Prod.fst (hip _).symm, congrArg Prod.snd (hip _).symm⟩
    · split at hc
      · rw [List.mem_singleton] at hc
        subst hc
        exact ⟨congrArg Prod.fst (hlogin _).symm, congrArg Prod.snd (hlogin _).symm⟩
      · cases hc

variable (m trustedProxies) in
theorem issued_times (s : SlidingWindowLimiter) {a : Arrival} (h : a.now ≤ a.loginNow) :
    ((issued m trustedProxies s a).map Call.now).Pairwise (· ≤ ·) ∧
      ∀ c ∈ issued m trustedProxies s a, a.now ≤ c.now ∧ c.now ≤ a.loginNow := by
  have hg : (globalCall m trustedProxies a).now = a.now := rfl
  have hl : (loginCall m trustedProxies a).now = a.loginNow := rfl
  unfold issued
  split
  · simp only [List.map_nil, List.Pairwise.nil, List.not_mem_nil, false_implies, implies_true,
      and_self]
  · split
    · simp only [List.map_cons, List.map_nil, hg, hl, List.pairwise_pair, List.forall_mem_cons, h,
        le_refl, List.not_mem_nil, false_implies, implies_true, and_self]
    · simp only [List.map_cons, List.map_nil, hg, List.pairwise_singleton, List.forall_mem_cons, h,
        le_refl, List.not_mem_nil, false_implies, implies_true, and_self]

/-! ## A sequence of requests -/

/-- The calls made for the requests in order. -/
def calls (m : RateLimitMiddleware) (trustedProxies : Str) (s : SlidingWindowLimiter) :
    List Arrival → List Call
  | [] => []
  | a :: as => issued m trustedProxies s a ++
      calls m trustedProxies (dispatch m trustedProxies s a).2 as

/-- The clock is read in order, within a request and from one to the next. -/
def Timed (t : ℚ) : List Arrival → Prop
  | [] => True
  | a :: as => t ≤ a.now ∧ a.now ≤ a.loginNow ∧ Timed a.loginNow as

variable (m trustedProxies) in
theorem calls_fixed (s : SlidingWindowLimiter) (as : List Arrival) :
    ∀ c ∈ calls m trustedProxies s as,
      c.maxRequests = (limit m c.key).1 ∧ c.windowSeconds = (limit m c.key).2 := by
  induction as generalizing s with
  | nil => intro c hc; cases hc
  | cons a as ih =>
    intro c hc
    rcases List.mem_append.mp hc with hc | hc
    · exact issued_fixed s a c hc
    · exact ih _ c hc

variable (m trustedProxies) in
theorem calls_times {t : ℚ} (s : SlidingWindowLimiter) {as : List Arrival} (h : Timed t as) :
    ((calls m trustedProxies s as).map Call.now).Pairwise (· ≤ ·) ∧
      ∀ c ∈ calls m trustedProxies s as, t ≤ c.now := by
  induction as generalizing s t with
  | nil => exact ⟨List.Pairwise.nil, fun c hc => by cases hc⟩
  | cons a as ih =>
    obtain ⟨h₁, h₂, h₃⟩ := h
    obtain ⟨hs, hle⟩ := issued_times m trustedProxies s h₂
    obtain ⟨is, ile⟩ := ih (dispatch m trustedProxies s a).2 h₃
    refine ⟨?_, fun c hc => ?_⟩
    · rw [calls, List.map_append, List.pairwise_append]
      refine ⟨hs, is, fun x hx y hy => ?_⟩
      obtain ⟨c, hc, rfl⟩ := List.mem_map.mp hx
      obtain ⟨d, hd, rfl⟩ := List.mem_map.mp hy
      exact le_trans (hle c hc).2 (ile d hd)
    · rcases List.mem_append.mp hc with hc | hc
      · exact le_trans h₁ (hle c hc).1
      · exact le_trans h₁ (le_trans h₂ (ile c hc))

/-- Along any requests the middleware handles in order, each call of the
limiter is allowed exactly when the earlier allowed calls of its key leave
room in its window. -/
theorem served_decides (hm : 1 ≤ m.maxRequests) (hl : 1 ≤ m.loginMaxAttempts) {t : ℚ}
    {as : List Arrival} (ht : Timed t as) {earlier later : List (Call × Decision)} {c : Call} {r : Decision}
    (he : trace .init (calls m trustedProxies .init as) = earlier ++ (c, r) :: later) :
    allowed r = true ↔
      (((admitted c.key earlier).filter (c.now - c.windowSeconds < ·)).length : Int)
        < c.maxRequests := by
  obtain ⟨hs, hle⟩ := calls_times m trustedProxies .init ht
  have hfix := calls_fixed m trustedProxies .init as
  have hpos : ∀ c ∈ calls m trustedProxies .init as, 1 ≤ c.maxRequests := by
    intro c hc
    rw [(hfix c hc).1, limit]
    split
    · exact hm
    · exact hl
  exact trace_decides_from (fun k => (limit m k).1) (tracks_init (fun k => (limit m k).2) t)
    hs hle hfix hpos he

end MailserverUi.L4.RateLimit

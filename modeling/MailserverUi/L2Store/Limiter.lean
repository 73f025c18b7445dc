import Mathlib
import MailserverUi.Core.Dict
import MailserverUi.Core.Text
import MailserverUi.Core.Window

/-!
# The sliding-window limiter against the full history of its calls

`SlidingWindowLimiter.check` is the limiter as the code keeps it: one store for every key,
deques emptied from the front on each call, whole buckets dropped by a
throttled sweep whose horizon is the largest window seen so far. The
specification has no store: a call is allowed when fewer than `maxRequests`
earlier allowed calls of its key are younger than its window.

* `check_tracks`: one call keeps `Tracks`, which ties every bucket to the log
  of the allowed calls of its key (`Window.Keeps`).
* `trace_decides`: along any sequence of calls with non-decreasing times and
  limits that are fixed per key, every decision is the specification's.

Times are exact rationals.
-/
namespace MailserverUi.L2.Limiter

open Py Window

/-- `_SlidingWindowLimiter`'s state: `_hits`, `_last_cleanup`, `_max_window`.
mirrors backend/app/security.py:70-76 -/
structure SlidingWindowLimiter where
  hits : Dict Str (List ℚ)
  lastCleanup : ℚ
  maxWindow : ℚ

def SlidingWindowLimiter.init : SlidingWindowLimiter := ⟨Dict.empty, 0, 0⟩

/-- mirrors backend/app/security.py:68 -/
def cleanupIntervalS : ℚ := 300

/-- `hits[0]` on an empty deque. -/
inductive IndexError where
  | emptyDeque
  deriving DecidableEq, Repr

/-- `(allowed, retry_after)`. -/
abbrev Decision := Except IndexError (Bool × Int)

/-- `int(q)` of a number truncates towards zero. -/
def toInt (q : ℚ) : Int := q.num.tdiv q.den

/-- `self._hits[key]` of a `defaultdict(deque)`. -/
def SlidingWindowLimiter.bucket (s : SlidingWindowLimiter) (key : Str) : List ℚ := (s.hits.get? key).getD []

/-- `not hits or hits[-1] <= boundary`. -/
def stale (boundary : ℚ) (hits : List ℚ) : Bool :=
  match hits.getLast? with
  | none => true
  | some t => decide (t ≤ boundary)

/-- mirrors backend/app/security.py:102-112 -/
def SlidingWindowLimiter.sweep (s : SlidingWindowLimiter) (now : ℚ) : SlidingWindowLimiter :=
  if now - s.lastCleanup < cleanupIntervalS then s
  else
    { s with
      lastCleanup := now
      hits := s.hits.filterVal fun hits => !stale (now - s.maxWindow) hits }

/-- `check` up to the comparison: the window is noted, the bucket of the key
is made if need be and its old hits are evicted.
mirrors backend/app/security.py:88-94 -/
def SlidingWindowLimiter.enter (s : SlidingWindowLimiter) (key : Str) (windowSeconds : Int) (now : ℚ) : SlidingWindowLimiter :=
  { s with
    maxWindow := max s.maxWindow windowSeconds
    hits := s.hits.set key (evict (now - windowSeconds) (s.bucket key)) }

/-- `hits.append(now)`. -/
def SlidingWindowLimiter.push (s : SlidingWindowLimiter) (key : Str) (now : ℚ) : SlidingWindowLimiter :=
  { s with hits := s.hits.set key (s.bucket key ++ [now]) }

/-- mirrors backend/app/security.py:79-100 -/
def SlidingWindowLimiter.check (s : SlidingWindowLimiter) (key : Str) (maxRequests windowSeconds : Int) (now : ℚ) :
    Decision × SlidingWindowLimiter :=
  let s := s.enter key windowSeconds now
  let hits := s.bucket key
  if maxRequests ≤ hits.length then
    match hits with
    | [] => (.error .emptyDeque, s)
    | oldest :: _ => (.ok (false, max (toInt (oldest + windowSeconds - now) + 1) 1), s)
  else (.ok (true, 0), (s.push key now).sweep now)

/-! ## Buckets after each operation -/

theorem bucket_enter (s : SlidingWindowLimiter) (key k : Str) (w : Int) (now : ℚ) :
    (s.enter key w now).bucket k =
      if k = key then evict (now - w) (s.bucket key) else s.bucket k := by
  unfold SlidingWindowLimiter.enter SlidingWindowLimiter.bucket
  rw [Dict.get?_set]
  split <;> rfl

theorem bucket_push (s : SlidingWindowLimiter) (key k : Str) (now : ℚ) :
    (s.push key now).bucket k = if k = key then s.bucket key ++ [now] else s.bucket k := by
  unfold SlidingWindowLimiter.push SlidingWindowLimiter.bucket
  rw [Dict.get?_set]
  split <;> rfl

/-- The sweep keeps a bucket or forgets one that is idle. -/
theorem bucket_sweep (s : SlidingWindowLimiter) (now : ℚ) (k : Str) :
    (s.sweep now).bucket k = s.bucket k ∨
      (s.sweep now).bucket k = [] ∧
        ∀ t, (s.bucket k).getLast? = some t → t ≤ now - s.maxWindow := by
  unfold SlidingWindowLimiter.sweep
  split
  · exact .inl rfl
  · unfold SlidingWindowLimiter.bucket
    rw [Dict.get?_filterVal]
    cases hk : s.hits.get? k with
    | none => exact .inl rfl
    | some hits =>
      by_cases hs : stale (now - s.maxWindow) hits = true
      · refine .inr ⟨by simp [Option.filter, hs], fun t ht => ?_⟩
        rw [Option.getD_some] at ht
        simpa [stale, ht] using hs
      · exact .inl (by simp [Option.filter, hs])

theorem sweep_maxWindow (s : SlidingWindowLimiter) (now : ℚ) : (s.sweep now).maxWindow = s.maxWindow := by
  unfold SlidingWindowLimiter.sweep; split <;> rfl

/-! ## The calls and their history -/

structure Call where
  key : Str
  maxRequests : Int
  windowSeconds : Int
  now : ℚ
  deriving DecidableEq, Repr

def SlidingWindowLimiter.serve (s : SlidingWindowLimiter) (c : Call) : Decision × SlidingWindowLimiter :=
  s.check c.key c.maxRequests c.windowSeconds c.now

/-- The calls in order, each with what `check` returned for it. -/
def trace (s : SlidingWindowLimiter) : List Call → List (Call × Decision)
  | [] => []
  | c :: cs => (c, (s.serve c).1) :: trace (s.serve c).2 cs

def allowed : Decision → Bool
  | .ok (b, _) => b
  | .error _ => false

/-- The times of the allowed calls of `k`. -/
def admitted (k : Str) (h : List (Call × Decision)) : List ℚ :=
  (h.filter fun e => decide (e.1.key = k) && allowed e.2).map fun e => e.1.now

/-- At time `t`, with `log k` the times of the allowed calls of `k`: every
bucket is its log less some front part that no window still reaches, and the
sweep's horizon is no later than that of any key with a hit. -/
structure Tracks (window : Str → Int) (log : Str → List ℚ) (t : ℚ) (s : SlidingWindowLimiter) : Prop where
  sorted : ∀ k, (log k).Pairwise (· ≤ ·)
  past : ∀ k, ∀ x ∈ log k, x ≤ t
  keeps : ∀ k, Keeps (t - window k) (log k) (s.bucket k)
  horizon : ∀ k, log k ≠ [] → (window k : ℚ) ≤ s.maxWindow

section
variable {window : Str → Int} {log : Str → List ℚ} {t : ℚ} {s : SlidingWindowLimiter}

theorem tracks_init (window : Str → Int) (t : ℚ) : Tracks window (fun _ => []) t .init where
  sorted _ := List.Pairwise.nil
  past _ _ hx := absurd hx List.not_mem_nil
  keeps _ := keeps_nil _
  horizon _ h := absurd rfl h

theorem Tracks.mono (h : Tracks window log t s) {u : ℚ} (hu : t ≤ u) :
    Tracks window log u s where
  sorted := h.sorted
  past k x hx := le_trans (h.past k x hx) hu
  keeps k := (h.keeps k).mono (by linarith)
  horizon := h.horizon

theorem Tracks.enter (h : Tracks window log t s) (key : Str) :
    Tracks window log t (s.enter key (window key) t) where
  sorted := h.sorted
  past := h.past
  keeps k := by
    rw [bucket_enter]
    split
    · rename_i hk
      subst hk
      exact (h.keeps k).evict le_rfl
    · exact h.keeps k
  horizon k hk := le_trans (h.horizon k hk) (le_max_left _ _)

/-- What is left in the bucket that was just entered are the log's live hits. -/
theorem Tracks.bucket_entered (h : Tracks window log t s) (key : Str) :
    (s.enter key (window key) t).bucket key = (log key).filter (t - window key < ·) := by
  rw [bucket_enter, if_pos rfl, evict_eq_filter ((h.keeps key).sorted (h.sorted key)),
    (h.keeps key).filter le_rfl]

def record (log : Str → List ℚ) (key : Str) (t : ℚ) : Str → List ℚ :=
  fun k => if k = key then log k ++ [t] else log k

theorem Tracks.push (h : Tracks window log t s) (key : Str) (hw : window key ≤ s.maxWindow) :
    Tracks window (record log key t) t (s.push key t) where
  sorted k := by
    unfold record
    split
    · rw [List.pairwise_append]
      refine ⟨h.sorted k, List.pairwise_singleton _ _, fun x hx y hy => ?_⟩
      rw [List.mem_singleton.mp hy]
      exact h.past k x hx
    · exact h.sorted k
  past k x hx := by
    unfold record at hx
    split at hx
    · rcases List.mem_append.mp hx with hx | hx
      · exact h.past k x hx
      · exact le_of_eq (List.mem_singleton.mp hx)
    · exact h.past k x hx
  keeps k := by
    rw [bucket_push]
    unfold record
    split
    · rename_i hk
      subst hk
      exact (h.keeps k).snoc t
    · exact h.keeps k
  horizon k hk := by
    unfold record at hk
    split at hk
    · rename_i e
      subst e
      exact hw
    · exact h.horizon k hk

/-- The sweep only drops a bucket whose last hit is past the largest window,
hence past the window of its key. -/
theorem Tracks.sweep (h : Tracks window log t s) : Tracks window log t (s.sweep t) where
  sorted := h.sorted
  past := h.past
  keeps k := by
    rcases bucket_sweep s t k with e | ⟨e, hlast⟩
    · rw [e]
      exact h.keeps k
    · rw [e]
      by_cases hk : log k = []
      · rw [hk]
        exact keeps_nil _
      · refine (h.keeps k).drop le_rfl (h.sorted k) fun x hx => le_trans (hlast x hx) ?_
        have := h.horizon k hk
        linarith
  horizon k hk := by rw [sweep_maxWindow]; exact h.horizon k hk

/-! ## One call, then a whole sequence -/

/-- The log after a call that returned `r`. -/
def advance (log : Str → List ℚ) (c : Call) (r : Decision) :
    Str → List ℚ :=
  if allowed r then record log c.key c.now else log

/-- One call decides as the log says and keeps the buckets tied to it. -/
theorem check_tracks (h : Tracks window log t s) {c : Call} (ht : t ≤ c.now)
    (hw : c.windowSeconds = window c.key) (hm : 1 ≤ c.maxRequests) :
    (allowed (s.serve c).1 = true ↔
        (((log c.key).filter (c.now - c.windowSeconds < ·)).length : Int) < c.maxRequests) ∧
      Tracks window (advance log c (s.serve c).1) c.now (s.serve c).2 := by
  have h := h.mono ht
  have he := h.enter c.key
  have hb := h.bucket_entered c.key
  rw [← hw] at he hb
  unfold SlidingWindowLimiter.serve SlidingWindowLimiter.check
  simp only [hb]
  by_cases hfull : c.maxRequests ≤ ((log c.key).filter (c.now - c.windowSeconds < ·)).length
  · rw [if_pos hfull]
    -- a full bucket is not empty, so the oldest hit exists
    cases hl : (log c.key).filter (c.now - c.windowSeconds < ·) with
    | nil => rw [hl] at hfull; simp only [List.length_nil, Nat.cast_zero] at hfull; omega
    | cons oldest rest =>
      rw [hl] at hfull
      refine ⟨?_, he⟩
      simp only [allowed, Bool.false_eq_true, false_iff]
      exact not_lt.mpr hfull
  · rw [if_neg hfull]
    refine ⟨by simpa [allowed] using hfull, ?_⟩
    refine (he.push c.key ?_).sweep
    rw [← hw]
    exact le_max_right _ _

theorem admitted_cons (k : Str) (c : Call) (r : Decision)
    (h : List (Call × Decision)) (log : Str → List ℚ) :
    log k ++ admitted k ((c, r) :: h) = advance log c r k ++ admitted k h := by
  unfold admitted advance record
  by_cases hr : allowed r = true
  · by_cases hk : c.key = k
    · simp [hr, hk]
    · simp [hr, hk, Ne.symm hk]
  · simp [hr]

/-- Every call of a sequence meets a state that tracks `log` and the calls
allowed before it. -/
theorem trace_tracks {calls : List Call}
    (h : Tracks window log t s) (hmono : (calls.map Call.now).Pairwise (· ≤ ·))
    (ht : ∀ c ∈ calls, t ≤ c.now) (hw : ∀ c ∈ calls, c.windowSeconds = window c.key)
    (hm : ∀ c ∈ calls, 1 ≤ c.maxRequests) {earlier later : List (Call × Decision)} {c : Call}
    {r : Decision} (he : trace s calls = earlier ++ (c, r) :: later) :
    c ∈ calls ∧ ∃ u s', u ≤ c.now ∧ r = (s'.serve c).1 ∧
      Tracks window (fun k => log k ++ admitted k earlier) u s' := by
  induction calls generalizing s t log earlier with
  | nil => simp [trace] at he
  | cons d ds ih =>
    rw [List.map_cons, List.pairwise_cons] at hmono
    have hd := List.mem_cons_self (a := d) (l := ds)
    have htr := (check_tracks h (ht d hd) (hw d hd) (hm d hd)).2
    cases earlier with
    | nil =>
      rw [trace, List.nil_append, List.cons.injEq, Prod.mk.injEq] at he
      obtain ⟨⟨rfl, rfl⟩, -⟩ := he
      exact ⟨hd, t, s, ht d hd, rfl, by simpa [admitted] using h⟩
    | cons e es =>
      rw [trace, List.cons_append, List.cons.injEq] at he
      obtain ⟨rfl, he⟩ := he
      simp only [admitted_cons]
      obtain ⟨hc, hex⟩ := ih htr hmono.2 (fun c hc => hmono.1 _ (List.mem_map_of_mem hc))
        (fun c hc => hw c (List.mem_cons_of_mem _ hc))
        (fun c hc => hm c (List.mem_cons_of_mem _ hc)) he
      exact ⟨List.mem_cons_of_mem _ hc, hex⟩

/-- Every decision of a sequence of calls, from a state that tracks `log`. -/
theorem trace_decides_from (maxRequests : Str → Int) {calls : List Call}
    (h : Tracks window log t s) (hmono : (calls.map Call.now).Pairwise (· ≤ ·))
    (ht : ∀ c ∈ calls, t ≤ c.now)
    (hfix : ∀ c ∈ calls, c.maxRequests = maxRequests c.key ∧ c.windowSeconds = window c.key)
    (hm : ∀ c ∈ calls, 1 ≤ c.maxRequests) {earlier later : List (Call × Decision)} {c : Call}
    {r : Decision}
    (he : trace s calls = earlier ++ (c, r) :: later) :
    allowed r = true ↔
      (((log c.key ++ admitted c.key earlier).filter (c.now - c.windowSeconds < ·)).length : Int)
        < c.maxRequests := by
  obtain ⟨hc, u, s', hu, rfl, htr⟩ := trace_tracks h hmono ht (fun c hc => (hfix c hc).2) hm he
  exact (check_tracks htr hu (hfix c hc).2 (hm c hc)).1

end

/-- Every decision is the specification's: a call is allowed exactly when
fewer than `maxRequests` earlier allowed calls of its key lie strictly after
`now - windowSeconds`, whatever was called for other keys, evicted or swept. -/
theorem trace_decides (maxRequests window : Str → Int) (calls : List Call)
    (hmono : (calls.map Call.now).Pairwise (· ≤ ·))
    (hfix : ∀ c ∈ calls, c.maxRequests = maxRequests c.key ∧ c.windowSeconds = window c.key)
    (hm : ∀ c ∈ calls, 1 ≤ c.maxRequests) (earlier later : List (Call × Decision)) (c : Call)
    (r : Decision) (he : trace .init calls = earlier ++ (c, r) :: later) :
    allowed r = true ↔
      (((admitted c.key earlier).filter (c.now - c.windowSeconds < ·)).length : Int)
        < c.maxRequests := by
  cases calls with
  | nil => simp [trace] at he
  | cons d ds =>
    have hfirst : ∀ x ∈ d :: ds, d.now ≤ x.now := by
      intro x hx
      rcases List.mem_cons.mp hx with rfl | hx
      · exact le_rfl
      · exact (List.pairwise_cons.mp hmono).1 _ (List.mem_map_of_mem hx)
    exact trace_decides_from maxRequests (tracks_init window d.now) hmono hfirst hfix hm he

/-- Three calls of one key around another key's, the last one window after the
first. -/
def boundaryCalls : List Call :=
  [⟨"ip:a".toList, 1, 60, 0⟩, ⟨"login:a".toList, 1, 300, 10⟩, ⟨"ip:a".toList, 1, 60, 59⟩,
    ⟨"ip:a".toList, 1, 60, 60⟩]

def boundaryTrace : List (Call × Decision) :=
  [(⟨"ip:a".toList, 1, 60, 0⟩, .ok (true, 0)), (⟨"login:a".toList, 1, 300, 10⟩, .ok (true, 0)),
    (⟨"ip:a".toList, 1, 60, 59⟩, .ok (false, 2))]

theorem trace_decides_boundary :
    allowed (.ok (true, 0)) = true ↔
      (((admitted "ip:a".toList boundaryTrace).filter ((60 : ℚ) - (60 : Int) < ·)).length : Int)
        < 1 :=
  trace_decides (fun _ => 1) (fun k => if k = "ip:a".toList then 60 else 300) boundaryCalls
    (by decide +kernel) (by decide +kernel) (by decide +kernel) boundaryTrace []
    ⟨"ip:a".toList, 1, 60, 60⟩ (.ok (true, 0)) (by decide +kernel)

end MailserverUi.L2.Limiter

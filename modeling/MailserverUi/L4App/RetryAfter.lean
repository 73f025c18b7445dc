import MailserverUi.L4App.RateLimit

/-!
# What a denial of the limiter promises

A denied call is told after how many whole seconds to come back. The oldest hit
of its window has left the window by then, and a window never holds more hits
than its budget: there is room again unless another call of the key was allowed
in between.

Results:
* `trace_answer`: the answer of every call, from the hits allowed before it.
* `live_le`: a window never holds more allowed hits than its budget.
* `retry_honoured`: a client that waits as told is not refused again on its own
  account.
* `answers_fine_iff`: for which calls `check` does not raise. A budget of 0 or
  less is read against a deque that has no oldest hit.
-/
namespace MailserverUi.L4.RetryAfter

open Py Window L2.Limiter RateLimit

/-- The answer of a call in whose window the hits `live` lie. -/
def answerOf (live : List ℚ) (c : Call) : Decision :=
  if c.maxRequests ≤ live.length then
    match live with
    | [] => .error .emptyDeque
    | oldest :: _ => .ok (false, max (toInt (oldest + c.windowSeconds - c.now) + 1) 1)
  else .ok (true, 0)

theorem serve_answer (s : SlidingWindowLimiter) (c : Call) :
    (s.serve c).1 = answerOf (evict (c.now - c.windowSeconds) (s.bucket c.key)) c := by
  have hb := bucket_enter s c.key c.key c.windowSeconds c.now
  rw [if_pos rfl] at hb
  unfold SlidingWindowLimiter.serve SlidingWindowLimiter.check answerOf
  simp only [hb]
  split
  · cases evict (c.now - c.windowSeconds) (s.bucket c.key) with
    | nil => rfl
    | cons oldest rest => rfl
  · rfl

theorem allowed_answerOf (live : List ℚ) (c : Call) :
    allowed (answerOf live c) = true ↔ (live.length : Int) < c.maxRequests := by
  unfold answerOf
  split
  · rename_i h
    cases live with
    | nil => simpa [allowed] using h
    | cons oldest rest => simpa [allowed] using h
  · rename_i h
    simpa [allowed] using h

/-! ## Room in a window -/

/-- The hits of `k` allowed in `h` that are still in a window of `w` seconds
at `now`. -/
def live (h : List (Call × Decision)) (k : Str) (w : Int) (now : ℚ) : List ℚ :=
  (admitted k h).filter (now - w < ·)

theorem mem_admitted {k : Str} {h : List (Call × Decision)} {x : ℚ} :
    x ∈ admitted k h ↔ ∃ e ∈ h, (e.1.key = k ∧ allowed e.2 = true) ∧ e.1.now = x := by
  simp only [admitted, List.mem_map, List.mem_filter, Bool.and_eq_true, decide_eq_true_eq,
    and_assoc]

theorem admitted_append (k : Str) (g h : List (Call × Decision)) :
    admitted k (g ++ h) = admitted k g ++ admitted k h := by
  unfold admitted
  rw [List.filter_append, List.map_append]

theorem live_append (g h : List (Call × Decision)) (k : Str) (w : Int) (now : ℚ) :
    live (g ++ h) k w now = live g k w now ++ live h k w now := by
  unfold live
  rw [admitted_append, List.filter_append]

/-- As time goes by hits only leave the window. -/
theorem live_later {h : List (Call × Decision)} {k : Str} {w : Int} {t u : ℚ} (htu : t ≤ u) :
    live h k w u = (live h k w t).filter (u - w < ·) := by
  unfold live
  rw [List.filter_filter]
  refine List.filter_congr fun x _ => ?_
  rw [eq_comm, Bool.and_eq_decide, decide_eq_decide, decide_eq_true_eq, decide_eq_true_eq]
  exact ⟨fun hx => hx.1, fun hx => ⟨hx, by linarith⟩⟩

/-- Calls in the order of time, with a positive budget that is fixed for each
key. -/
structure Regular (maxRequests window : Str → Int) (calls : List Call) : Prop where
  sorted : (calls.map Call.now).Pairwise (· ≤ ·)
  fixed : ∀ c ∈ calls, c.maxRequests = maxRequests c.key ∧ c.windowSeconds = window c.key
  positive : ∀ c ∈ calls, 1 ≤ c.maxRequests

theorem calls_of_trace (s : SlidingWindowLimiter) (calls : List Call) :
    (trace s calls).map Prod.fst = calls := by
  induction calls generalizing s with
  | nil => rfl
  | cons c cs ih => rw [trace, List.map_cons, ih]

section
variable {maxRequests window : Str → Int} {calls : List Call}
  {earlier later : List (Call × Decision)} {c : Call} {r : Decision}

/-- Every answer is that of the hits of its key allowed before and still live. -/
theorem trace_answer (hr : Regular maxRequests window calls)
    (he : trace .init calls = earlier ++ (c, r) :: later) :
    c ∈ calls ∧ r = answerOf (live earlier c.key c.windowSeconds c.now) c := by
  cases calls with
  | nil => simp [trace] at he
  | cons d ds =>
    have hfirst : ∀ x ∈ d :: ds, d.now ≤ x.now := by
      intro x hx
      rcases List.mem_cons.mp hx with rfl | hx
      · exact le_rfl
      · exact (List.pairwise_cons.mp hr.sorted).1 _ (List.mem_map_of_mem hx)
    obtain ⟨hc, u, s, hu, rfl, htr⟩ := trace_tracks (tracks_init window d.now) hr.sorted hfirst
      (fun c hc => (hr.fixed c hc).2) hr.positive he
    have hb := (htr.mono hu).bucket_entered c.key
    rw [bucket_enter, if_pos rfl, ← (hr.fixed c hc).2] at hb
    rw [serve_answer, hb]
    exact ⟨hc, rfl⟩

theorem trace_times (hr : Regular maxRequests window calls)
    (he : trace .init calls = earlier ++ (c, r) :: later) :
    (∀ e ∈ earlier, e.1.now ≤ c.now) ∧ ∀ e ∈ later, c.now ≤ e.1.now := by
  have hs := hr.sorted
  rw [← calls_of_trace .init calls, he, List.map_map, List.map_append, List.map_cons,
    List.pairwise_append, List.pairwise_cons] at hs
  obtain ⟨-, ⟨hlater, -⟩, hearlier⟩ := hs
  exact ⟨fun e hm => hearlier _ (List.mem_map_of_mem hm) _ List.mem_cons_self,
    fun e hm => hlater _ (List.mem_map_of_mem hm)⟩

/-- A window never holds more allowed hits than its budget. -/
theorem live_le (hr : Regular maxRequests window calls) {k : Str} (hk : 0 ≤ maxRequests k)
    (he : trace .init calls = earlier ++ later) {now : ℚ} (hn : ∀ e ∈ earlier, e.1.now ≤ now) :
    ((live earlier k (window k) now).length : Int) ≤ maxRequests k := by
  induction earlier using List.reverseRecOn generalizing later now with
  | nil => exact hk
  | append_singleton l e ih =>
    obtain ⟨d, a⟩ := e
    rw [List.append_assoc, List.singleton_append] at he
    rw [live_append, List.length_append]
    by_cases hd : d.key = k ∧ allowed a = true
    · obtain ⟨rfl, ha⟩ := hd
      -- before this hit the window had room
      obtain ⟨hc, rfl⟩ := trace_answer hr he
      rw [allowed_answerOf, (hr.fixed d hc).1, (hr.fixed d hc).2] at ha
      have hdn : d.now ≤ now := hn _ (List.mem_append_right _ List.mem_cons_self)
      have hle : (live l d.key (window d.key) now).length ≤
          (live l d.key (window d.key) d.now).length := by
        rw [live_later hdn]
        exact List.length_filter_le _ _
      have hone (b : Decision) : (live [(d, b)] d.key (window d.key) now).length ≤ 1 := by
        refine le_trans (List.length_filter_le _ _) ?_
        rw [admitted, List.length_map]
        exact List.length_filter_le _ _
      have := hone (answerOf (live l d.key d.windowSeconds d.now) d)
      omega
    · have hnone : live [(d, a)] k (window k) now = [] := by
        rw [live, admitted, List.filter_cons_of_neg (by simpa using hd)]
        rfl
      rw [hnone, List.length_nil, Nat.add_zero]
      exact ih he fun e hm => hn e (List.mem_append_left _ hm)

end

/-! ## Waiting as told -/

theorem lt_toInt {q : ℚ} (hq : 0 ≤ q) : q < toInt q + 1 := by
  have h : toInt q = ⌊q⌋ := by
    unfold toInt
    rw [Rat.floor_def', Int.tdiv_eq_ediv_of_nonneg (Rat.num_nonneg.mpr hq)]
  rw [h]
  exact Int.lt_floor_add_one q

/-- Whoever waits the seconds it was told finds the oldest hit out of the
window: the truncation rounds down, and the 1 added outweighs it. -/
theorem oldest_gone {oldest now t : ℚ} {w : Int} (hin : now - w < oldest)
    (hwait : now + (max (toInt (oldest + w - now) + 1) 1 : Int) ≤ t) : oldest ≤ t - w := by
  have h₁ := lt_toInt (q := oldest + w - now) (by linarith)
  have h₂ : ((toInt (oldest + w - now) + 1 : Int) : ℚ) ≤
      (max (toInt (oldest + w - now) + 1) 1 : Int) := Int.cast_le.mpr (le_max_left _ _)
  push_cast at h₂ hwait
  linarith

/-- A denial names the oldest hit of a full window. -/
theorem answerOf_denied {hits : List ℚ} {c : Call} {r : Int}
    (h : answerOf hits c = .ok (false, r)) :
    c.maxRequests ≤ hits.length ∧ ∃ oldest rest, hits = oldest :: rest ∧
      r = max (toInt (oldest + c.windowSeconds - c.now) + 1) 1 := by
  unfold answerOf at h
  split at h
  · rename_i hfull
    refine ⟨hfull, ?_⟩
    cases hits with
    | nil => cases h
    | cons oldest rest =>
      injection h with h
      exact ⟨oldest, rest, rfl, (congrArg Prod.snd h).symm⟩
  · injection h with h
    cases h

section
variable {maxRequests window : Str → Int} {calls : List Call}
  {earlier rest between later : List (Call × Decision)} {c d : Call} {a b : Decision}

/-- While the window is full, calls at the same time are denied: what was
allowed before a later call is what had been allowed before the denial. -/
theorem admitted_between (hr : Regular maxRequests window calls)
    (he : trace .init calls = earlier ++ (c, a) :: (between ++ (d, b) :: later))
    (hfull : c.maxRequests ≤ (live earlier c.key c.windowSeconds c.now).length)
    (hown : ∀ e ∈ between, e.1.key = c.key → allowed e.2 = true → e.1.now ≤ c.now) :
    admitted c.key ((c, a) :: between) = [] := by
  have hc := trace_answer hr he
  rw [List.eq_nil_iff_forall_not_mem]
  intro x hx
  obtain ⟨e, hm, ⟨hk, hal⟩, -⟩ := mem_admitted.mp hx
  rcases List.mem_cons.mp hm with rfl | hm
  · rw [hc.2, allowed_answerOf] at hal
    omega
  · obtain ⟨b₁, b₂, rfl⟩ := List.append_of_mem hm
    obtain ⟨e, ea⟩ := e
    have hle := hown _ hm hk hal
    have hge := (trace_times hr he).2 (e, ea) (by simp)
    have hnow : e.now = c.now := le_antisymm hle hge
    rw [show earlier ++ (c, a) :: ((b₁ ++ (e, ea) :: b₂) ++ (d, b) :: later) =
      (earlier ++ (c, a) :: b₁) ++ (e, ea) :: (b₂ ++ (d, b) :: later) by simp] at he
    obtain ⟨hme, rfl⟩ := trace_answer hr he
    have hlim : e.maxRequests = c.maxRequests ∧ e.windowSeconds = c.windowSeconds := by
      have h₁ := hr.fixed e hme
      have h₂ := hr.fixed c hc.1
      rw [h₁.1, h₁.2, h₂.1, h₂.2, show e.key = c.key from hk]
      exact ⟨rfl, rfl⟩
    rw [allowed_answerOf, hlim.1, hlim.2, hnow, show e.key = c.key from hk, live_append,
      List.length_append] at hal
    omega

/-- A call that waited as told, with no other call of its key allowed in the
meantime, is allowed. -/
theorem retry_honoured (maxRequests window : Str → Int) (calls : List Call)
    (hr : Regular maxRequests window calls) (earlier rest : List (Call × Decision)) (c : Call)
    (r : Int) (he : trace .init calls = earlier ++ (c, .ok (false, r)) :: rest) :
    1 ≤ r ∧ ∀ (between : List (Call × Decision)) (d : Call) (answer : Decision)
      (later : List (Call × Decision)), rest = between ++ (d, answer) :: later →
      d.key = c.key → c.now + r ≤ d.now →
      (∀ e ∈ between, e.1.key = c.key → allowed e.2 = true → e.1.now ≤ c.now) →
      answer = .ok (true, 0) := by
  obtain ⟨hc, ha⟩ := trace_answer hr he
  obtain ⟨hfull, oldest, others, hlive, rfl⟩ := answerOf_denied ha.symm
  refine ⟨le_max_right _ _, ?_⟩
  generalize hrv : max (toInt (oldest + c.windowSeconds - c.now) + 1) 1 = r at *
  rintro between d answer later rfl hk hwait hown
  have hcap : ((live earlier c.key c.windowSeconds c.now).length : Int) ≤ c.maxRequests := by
    rw [(hr.fixed c hc).1, (hr.fixed c hc).2]
    refine live_le hr ?_ he (trace_times hr he).1
    have := hr.positive c hc
    rw [(hr.fixed c hc).1] at this
    omega
  have hgone := admitted_between hr he hfull hown
  rw [show earlier ++ (c, .ok (false, r)) :: (between ++ (d, answer) :: later) =
    (earlier ++ (c, .ok (false, r)) :: between) ++ (d, answer) :: later by simp] at he
  obtain ⟨hd, rfl⟩ := trace_answer hr he
  have hlim : d.maxRequests = c.maxRequests ∧ d.windowSeconds = c.windowSeconds := by
    rw [(hr.fixed d hd).1, (hr.fixed d hd).2, (hr.fixed c hc).1, (hr.fixed c hc).2, hk]
    exact ⟨rfl, rfl⟩
  -- the oldest hit has left the window, and none has come in its place
  have hin : c.now - c.windowSeconds < oldest := by
    have h : oldest ∈ live earlier c.key c.windowSeconds c.now := hlive ▸ List.mem_cons_self
    exact of_decide_eq_true (List.mem_filter.mp h).2
  have hout : oldest ≤ d.now - c.windowSeconds := oldest_gone hin (hrv ▸ hwait)
  have hcd : c.now ≤ d.now := by
    have : (1 : ℚ) ≤ r := by exact_mod_cast hrv ▸ le_max_right _ _
    linarith
  have hroom : (live (earlier ++ (c, .ok (false, r)) :: between) d.key d.windowSeconds
      d.now).length ≤ others.length := by
    have hl : live ((c, .ok (false, r)) :: between) c.key c.windowSeconds d.now = [] := by
      rw [live, hgone]
      rfl
    rw [hk, hlim.2, live_append, hl, List.append_nil, live_later hcd, hlive,
      List.filter_cons_of_neg (by simpa using hout)]
    exact List.length_filter_le _ _
  rw [hlive, List.length_cons] at hcap
  unfold answerOf
  rw [if_neg (by omega)]

/-- Two calls in a window of one, half a second past a whole one, and the third
as late as the second was told. -/
def patientCalls : List Call :=
  [⟨"ip:a".toList, 1, 60, 1 / 2⟩, ⟨"ip:a".toList, 1, 60, 10⟩, ⟨"login:a".toList, 1, 300, 20⟩,
    ⟨"ip:a".toList, 1, 60, 61⟩]

/-- The second call is told when to come again, and comes no earlier. -/
theorem retry_honoured_patient : ∃ (retry : Int) (answer : Decision),
    trace .init patientCalls = [(⟨"ip:a".toList, 1, 60, 1 / 2⟩, .ok (true, 0)),
      (⟨"ip:a".toList, 1, 60, 10⟩, .ok (false, retry)),
      (⟨"login:a".toList, 1, 300, 20⟩, .ok (true, 0)), (⟨"ip:a".toList, 1, 60, 61⟩, answer)] ∧
    1 ≤ retry ∧ (10 : ℚ) + retry ≤ 61 ∧ answer = .ok (true, 0) := by
  have he : trace .init patientCalls = [(⟨"ip:a".toList, 1, 60, 1 / 2⟩, .ok (true, 0)),
      (⟨"ip:a".toList, 1, 60, 10⟩, .ok (false, 51)),
      (⟨"login:a".toList, 1, 300, 20⟩, .ok (true, 0)),
      (⟨"ip:a".toList, 1, 60, 61⟩, .ok (true, 0))] := by decide +kernel
  have hwait : (10 : ℚ) + (51 : Int) ≤ 61 := by norm_num
  have h := retry_honoured (fun _ => 1) (fun k => if k = "ip:a".toList then 60 else 300)
    patientCalls ⟨by decide +kernel, by decide +kernel, by decide +kernel⟩
    [(⟨"ip:a".toList, 1, 60, 1 / 2⟩, .ok (true, 0))]
    [(⟨"login:a".toList, 1, 300, 20⟩, .ok (true, 0)), (⟨"ip:a".toList, 1, 60, 61⟩, .ok (true, 0))]
    ⟨"ip:a".toList, 1, 60, 10⟩ 51 he
  exact ⟨51, _, he, h.1, hwait, h.2 [(⟨"login:a".toList, 1, 300, 20⟩, .ok (true, 0))] _ _ [] rfl rfl
    hwait (by decide +kernel)⟩

end

/-! ## Calls that raise -/

/-- What `check` can raise: `hits[0]` of an empty deque, and the conversion of
`window_seconds` in `now - window_seconds`. -/
inductive Raised where
  | indexError
  | overflowError
  deriving DecidableEq, Repr

/-- An integer is converted to the nearest double, ties to even; from half a
unit past the largest one on there is none. -/
@[irreducible] def floatOverflow (n : Int) : Bool := decide (2 ^ 1024 - 2 ^ 970 ≤ n.natAbs)

/-- One call with all it can raise. The arithmetic of the times is exact: of
the floats only the range of the conversion is kept.
mirrors backend/app/security.py:79-100 -/
def checkCall (s : SlidingWindowLimiter) (c : Call) :
    Except Raised (Bool × Int) × SlidingWindowLimiter :=
  if floatOverflow c.windowSeconds then (.error .overflowError, s)
  else ((s.serve c).1.mapError fun | .emptyDeque => .indexError, (s.serve c).2)

def answers (s : SlidingWindowLimiter) : List Call → List (Except Raised (Bool × Int))
  | [] => []
  | c :: cs => (checkCall s c).1 :: answers (checkCall s c).2 cs

/-- The limiter after the calls. -/
def after (s : SlidingWindowLimiter) : List Call → SlidingWindowLimiter
  | [] => s
  | c :: cs => after (checkCall s c).2 cs

/-- An answer that is no exception, and no denial with a delay below 1. -/
def Fine : Except Raised (Bool × Int) → Prop
  | .ok (allowed, retryAfter) => allowed = false → 1 ≤ retryAfter
  | .error _ => False

instance : DecidablePred Fine := fun a => by
  cases a with
  | ok v => exact inferInstanceAs (Decidable (v.1 = false → 1 ≤ v.2))
  | error e => exact inferInstanceAs (Decidable False)

/-- The call has a window that converts, and a positive budget or else a hit
left in its window. -/
def Ready (s : SlidingWindowLimiter) (c : Call) : Prop :=
  floatOverflow c.windowSeconds = false ∧
    (1 ≤ c.maxRequests ∨ ∃ x ∈ s.bucket c.key, c.now - c.windowSeconds < x)

theorem evict_eq_nil {b : ℚ} {hits : List ℚ} : evict b hits = [] ↔ ∀ x ∈ hits, x ≤ b := by
  unfold evict
  rw [List.dropWhile_eq_nil_iff]
  simp only [decide_eq_true_eq]

theorem fine_checkCall (s : SlidingWindowLimiter) (c : Call) :
    Fine (checkCall s c).1 ↔ Ready s c := by
  unfold checkCall Ready
  by_cases ho : floatOverflow c.windowSeconds = true
  · rw [if_pos ho]
    simp [Fine, ho]
  · rw [if_neg ho, serve_answer]
    have hnil : evict (c.now - c.windowSeconds) (s.bucket c.key) = [] ↔ _ := evict_eq_nil
    simp only [Bool.not_eq_true] at ho
    simp only [ho, true_and]
    unfold answerOf
    split
    · rename_i hfull
      cases hl : evict (c.now - c.windowSeconds) (s.bucket c.key) with
      | nil =>
        rw [hl, List.length_nil] at hfull
        have hall := hnil.mp hl
        simp only [Except.mapError, Fine, false_iff, not_or, not_exists, not_and, not_lt]
        exact ⟨by omega, hall⟩
      | cons oldest rest =>
        have hex : ∃ x ∈ s.bucket c.key, c.now - c.windowSeconds < x := by
          by_contra hno
          push Not at hno
          rw [hnil.mpr hno] at hl
          cases hl
        simp only [Except.mapError, Fine, hex, or_true, iff_true]
        exact fun _ => le_max_right _ _
    · rename_i hroom
      simp only [Except.mapError, Fine, Bool.true_eq_false, false_implies, true_iff]
      left
      omega

theorem answers_iff (s : SlidingWindowLimiter) (calls : List Call) :
    (∀ a ∈ answers s calls, Fine a) ↔
      ∀ earlier c later, calls = earlier ++ c :: later → Ready (after s earlier) c := by
  induction calls generalizing s with
  | nil =>
    refine ⟨fun _ earlier c later h => ?_, fun _ a ha => absurd ha List.not_mem_nil⟩
    cases earlier <;> cases h
  | cons d ds ih =>
    rw [answers, List.forall_mem_cons, fine_checkCall, ih]
    constructor
    · rintro ⟨hd, hds⟩ earlier c later h
      cases earlier with
      | nil =>
        rw [List.nil_append, List.cons.injEq] at h
        obtain ⟨rfl, -⟩ := h
        exact hd
      | cons e es =>
        rw [List.cons_append, List.cons.injEq] at h
        obtain ⟨rfl, h⟩ := h
        rw [after]
        exact hds es c later h
    · intro h
      refine ⟨h [] d ds rfl, fun es c later he => ?_⟩
      have hc := h (d :: es) c later (by rw [he, List.cons_append])
      rwa [after] at hc

/-- A budget of 0 or less never admits a hit: its bucket stays empty. -/
theorem after_starved (maxRequests : Str → Int) {s : SlidingWindowLimiter} {calls : List Call}
    (hfix : ∀ c ∈ calls, c.maxRequests = maxRequests c.key)
    (h : ∀ k, maxRequests k < 1 → s.bucket k = []) :
    ∀ k, maxRequests k < 1 → (after s calls).bucket k = [] := by
  induction calls generalizing s with
  | nil => exact h
  | cons c cs ih =>
    rw [after]
    refine ih (fun d hd => hfix d (List.mem_cons_of_mem _ hd)) fun k hk => ?_
    unfold checkCall
    split
    · exact h k hk
    · have hent : (s.enter c.key c.windowSeconds c.now).bucket k = [] := by
        rw [bucket_enter]
        split
        · rename_i e
          rw [← e, h k hk]
          rfl
        · exact h k hk
      unfold SlidingWindowLimiter.serve SlidingWindowLimiter.check
      dsimp only
      split
      · split <;> exact hent
      · rename_i hroom
        have hne : k ≠ c.key := by
          rintro rfl
          rw [hent, hfix c List.mem_cons_self, List.length_nil, Nat.cast_zero] at hroom
          omega
        rcases bucket_sweep ((s.enter c.key c.windowSeconds c.now).push c.key c.now) c.now k with
          e | ⟨e, -⟩
        · rw [e, bucket_push, if_neg hne, hent]
        · exact e

/-- `check` does not raise, and denies with a delay of at least 1, along any
calls exactly when each finds a convertible window and a positive budget or a
hit in its window. With one budget and one window for each key there never is
such a hit, so that is: when every budget is at least 1. -/
theorem answers_fine_iff (calls : List Call) :
    ((∀ a ∈ answers .init calls, Fine a) ↔
      ∀ earlier c later, calls = earlier ++ c :: later → Ready (after .init earlier) c) ∧
    ∀ maxRequests : Str → Int, (∀ c ∈ calls, c.maxRequests = maxRequests c.key) →
      ((∀ a ∈ answers .init calls, Fine a) ↔
        ∀ c ∈ calls, 1 ≤ c.maxRequests ∧ floatOverflow c.windowSeconds = false) := by
  refine ⟨answers_iff .init calls, fun maxRequests hfix => ?_⟩
  rw [answers_iff]
  constructor
  · intro h c hc
    obtain ⟨earlier, later, rfl⟩ := List.append_of_mem hc
    obtain ⟨hw, hready⟩ := h earlier c later rfl
    refine ⟨?_, hw⟩
    by_contra hlow
    have hempty := after_starved maxRequests (s := .init)
      (fun d hd => hfix d (List.mem_append_left _ hd)) (fun _ _ => rfl) c.key
      (by rw [← hfix c hc]; omega)
    rcases hready with hpos | ⟨x, hx, -⟩
    · exact hlow hpos
    · rw [hempty] at hx
      exact absurd hx List.not_mem_nil
  · rintro h earlier c later rfl
    obtain ⟨hpos, hw⟩ := h c (List.mem_append_right _ List.mem_cons_self)
    exact ⟨hw, .inl hpos⟩

/-- A budget set to 0: the first request of the route finds an empty deque. -/
theorem answers_closed_route :
    answers .init [⟨"ip:203.0.113.7".toList, 0, 60, 0⟩] = [.error .indexError] ∧
      ¬ ∀ a ∈ answers .init [⟨"ip:203.0.113.7".toList, 0, 60, 0⟩], Fine a := by
  decide +kernel

end MailserverUi.L4.RetryAfter

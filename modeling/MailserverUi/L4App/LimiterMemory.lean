import MailserverUi.L4App.RateLimit

/-!
# What the rate limiter keeps in memory (`_SlidingWindowLimiter._sweep`)

The store of the limiter grows by a bucket for every new client address. What
bounds it is the sweep, which runs at most every `cleanupIntervalS` seconds and
only behind an allowed call. `Live` is what holds between two calls: no bucket
is empty, none is longer than the limit of its key, and the last hit of each is
younger than the largest window was at the last sweep.

Results:
* `check_live`, `check_since`: one call keeps `Live`, and an allowed call leaves
  the last sweep less than `cleanupIntervalS` behind it.
* `stored_recent`: so every stored hit is an allowed call of a bounded age.
* `memory_bounded`: after any requests there are no more buckets than clients
  with a recent allowed call, and no more hits than recent allowed calls.
-/
namespace MailserverUi.L4.LimiterMemory

open Py Window L2.Limiter ClientIp RateLimit

/-- The state of the limiter at time `t`, each key with its limit. -/
structure Live (lim : Str → Int × Int) (t : ℚ) (s : SlidingWindowLimiter) : Prop where
  past : s.lastCleanup ≤ t
  bucket : ∀ k hits, s.hits.get? k = some hits → ∃ x, hits.getLast? = some x ∧
    s.lastCleanup < x + s.maxWindow ∧ (∀ y ∈ hits, x < y + (lim k).2) ∧
    (hits.length : Int) ≤ (lim k).1

theorem live_init {lim : Str → Int × Int} {t : ℚ} (h : 0 ≤ t) : Live lim t .init where
  past := h
  bucket _ _ h := nomatch h

section
variable {lim : Str → Int × Int} {t : ℚ} {s : SlidingWindowLimiter} {c : Call}

theorem Live.mono (h : Live lim t s) {u : ℚ} (hu : t ≤ u) : Live lim u s :=
  ⟨h.past.trans hu, h.bucket⟩

theorem getLast?_evict {b : ℚ} {hits : List ℚ} (h : evict b hits ≠ []) :
    (evict b hits).getLast? = hits.getLast? := by
  obtain ⟨l, e⟩ := List.dropWhile_suffix (l := hits) (fun x => decide (x ≤ b))
  conv_rhs => rw [← e]
  exact (List.getLast?_append_of_ne_nil l h).symm

/-- A refused call finds its bucket full, so it leaves a bucket that is not
empty. -/
theorem live_enter (h : Live lim t s) {key : Str} {w : Int}
    (hne : evict (t - w) (s.bucket key) ≠ []) : Live lim t (s.enter key w t) where
  past := h.past
  bucket k hits hk := by
    have hmax : s.maxWindow ≤ (s.enter key w t).maxWindow := le_max_left _ _
    have hk : (s.hits.set key (evict (t - w) (s.bucket key))).get? k = some hits := hk
    rw [Dict.get?_set] at hk
    split at hk
    · rename_i e
      subst e
      cases hk
      have hb : s.hits.get? k = some (s.bucket k) := by
        cases hg : s.hits.get? k with
        | none => exact absurd (by rw [SlidingWindowLimiter.bucket, hg]; rfl) hne
        | some b => rw [SlidingWindowLimiter.bucket, hg]; rfl
      obtain ⟨x, hx, hlast, hwin, hlen⟩ := h.bucket k _ hb
      have hsub := List.dropWhile_sublist (l := s.bucket k) fun y => decide (y ≤ t - w)
      refine ⟨x, (getLast?_evict hne).trans hx, hlast.trans_le (by gcongr),
        fun y hy => hwin y (hsub.subset hy), le_trans ?_ hlen⟩
      exact_mod_cast hsub.length_le
    · obtain ⟨x, hx, hlast, hwin, hlen⟩ := h.bucket k hits hk
      exact ⟨x, hx, hlast.trans_le (by gcongr), hwin, hlen⟩

/-- An allowed call finds room in its bucket and becomes its last hit. -/
theorem live_push (h : Live lim t s) {key : Str} (hw : 0 < (lim key).2)
    (hs : (s.bucket key).Pairwise (· ≤ ·)) (ht : ∀ x ∈ s.bucket key, x ≤ t)
    (hroom : ((evict (t - (lim key).2) (s.bucket key)).length : Int) < (lim key).1) :
    Live lim t ((s.enter key (lim key).2 t).push key t) where
  past := h.past
  bucket k hits hk := by
    have hmax : s.maxWindow ≤ ((s.enter key (lim key).2 t).push key t).maxWindow :=
      le_max_left _ _
    have hwin : ((lim key).2 : ℚ) ≤ ((s.enter key (lim key).2 t).push key t).maxWindow :=
      le_max_right _ _
    have hk : ((s.enter key (lim key).2 t).hits.set key
      ((s.enter key (lim key).2 t).bucket key ++ [t])).get? k = some hits := hk
    rw [Dict.get?_set, bucket_enter, if_pos rfl] at hk
    have hwq : (0 : ℚ) < (lim key).2 := by exact_mod_cast hw
    split at hk
    · rename_i e
      subst e
      cases hk
      refine ⟨t, List.getLast?_concat, ?_, fun y hy => ?_, ?_⟩
      · calc s.lastCleanup ≤ t := h.past
          _ < t + (lim k).2 := by linarith
          _ ≤ t + _ := by gcongr
      · rcases List.mem_append.mp hy with hy | hy
        · rw [evict_eq_filter hs, List.mem_filter, decide_eq_true_eq] at hy
          linarith [hy.2]
        · rw [List.mem_singleton.mp hy]
          linarith
      · rw [List.length_append, List.length_singleton]
        push_cast
        omega
    · rename_i hne
      have hk : (s.hits.set key _).get? k = some hits := hk
      rw [Dict.get?_set, if_neg hne] at hk
      obtain ⟨x, hx, hlast, hwin, hlen⟩ := h.bucket k hits hk
      exact ⟨x, hx, hlast.trans_le (by gcongr), hwin, hlen⟩

/-- A sweep keeps the buckets whose last hit its horizon leaves. -/
theorem live_sweep (h : Live lim t s) : Live lim t (s.sweep t) := by
  unfold SlidingWindowLimiter.sweep
  split
  · exact h
  · refine ⟨le_rfl, fun k hits hk => ?_⟩
    have hk : (s.hits.filterVal _).get? k = some hits := hk
    rw [Dict.get?_filterVal, Option.filter_eq_some_iff] at hk
    obtain ⟨x, hx, -, hwin, hlen⟩ := h.bucket k hits hk.1
    refine ⟨x, hx, ?_, hwin, hlen⟩
    have hst := hk.2
    rw [stale, hx] at hst
    simp only [Bool.not_eq_true', decide_eq_false_iff_not, not_le] at hst
    show t < x + s.maxWindow
    linarith

theorem lastCleanup_sweep (s : SlidingWindowLimiter) (now : ℚ) :
    now < (s.sweep now).lastCleanup + cleanupIntervalS := by
  unfold SlidingWindowLimiter.sweep
  split
  · rename_i h
    linarith
  · show now < now + 300
    linarith

theorem lastCleanup_le_sweep {now : ℚ} (h : s.lastCleanup ≤ now) :
    s.lastCleanup ≤ (s.sweep now).lastCleanup := by
  unfold SlidingWindowLimiter.sweep
  split
  · exact le_rfl
  · exact h

/-- What one call does: it is refused and its bucket is not empty, or it is
recorded and the store is swept. -/
theorem serve_cases (s : SlidingWindowLimiter) (hm : 1 ≤ c.maxRequests) :
    (allowed (s.serve c).1 = false ∧ evict (c.now - c.windowSeconds) (s.bucket c.key) ≠ [] ∧
        (s.serve c).2 = s.enter c.key c.windowSeconds c.now) ∨
      (allowed (s.serve c).1 = true ∧
        ((evict (c.now - c.windowSeconds) (s.bucket c.key)).length : Int) < c.maxRequests ∧
        (s.serve c).2 = ((s.enter c.key c.windowSeconds c.now).push c.key c.now).sweep c.now) := by
  have hb : (s.enter c.key c.windowSeconds c.now).bucket c.key =
      evict (c.now - c.windowSeconds) (s.bucket c.key) := by
    rw [bucket_enter, if_pos rfl]
  unfold SlidingWindowLimiter.serve SlidingWindowLimiter.check
  simp only [hb]
  by_cases hfull : c.maxRequests ≤ (evict (c.now - c.windowSeconds) (s.bucket c.key)).length
  · left
    rw [if_pos hfull]
    cases he : evict (c.now - c.windowSeconds) (s.bucket c.key) with
    | nil => rw [he, List.length_nil] at hfull; omega
    | cons oldest rest => exact ⟨rfl, nofun, rfl⟩
  · right
    rw [if_neg hfull]
    exact ⟨rfl, not_le.mp hfull, rfl⟩

/-- The call carries the limit of its key, and lets something through. -/
structure Meant (lim : Str → Int × Int) (c : Call) : Prop where
  maxRequests : c.maxRequests = (lim c.key).1
  windowSeconds : c.windowSeconds = (lim c.key).2
  room : 1 ≤ (lim c.key).1
  window : 0 < (lim c.key).2

theorem check_live {log : Str → List ℚ} (hlog : Tracks (fun k => (lim k).2) log t s)
    (ht : t ≤ c.now) (hc : Meant lim c) (h : Live lim t s) :
    Live lim c.now (s.serve c).2 := by
  have h := h.mono ht
  rcases serve_cases (c := c) s (hc.maxRequests ▸ hc.room) with ⟨-, hne, e⟩ | ⟨-, hroom, e⟩
  · rw [e]
    exact live_enter h hne
  · rw [hc.maxRequests, hc.windowSeconds] at hroom
    rw [e, hc.windowSeconds]
    have hs := (hlog.keeps c.key).sorted (hlog.sorted c.key)
    refine live_sweep (live_push h hc.window hs (fun x hx => ?_) hroom)
    obtain ⟨old, el, -⟩ := hlog.keeps c.key
    exact (hlog.past c.key x (el ▸ List.mem_append_right old hx)).trans ht

theorem check_since (hm : 1 ≤ c.maxRequests) (h : Live lim t s) (ht : t ≤ c.now) :
    s.lastCleanup ≤ (s.serve c).2.lastCleanup ∧
      (allowed (s.serve c).1 = true → c.now < (s.serve c).2.lastCleanup + cleanupIntervalS) := by
  rcases serve_cases (c := c) s hm with ⟨hr, -, e⟩ | ⟨-, -, e⟩
  · rw [e, hr]
    exact ⟨le_rfl, nofun⟩
  · rw [e]
    exact ⟨lastCleanup_le_sweep (s := (s.enter c.key c.windowSeconds c.now).push c.key c.now)
      (h.past.trans ht), fun _ => lastCleanup_sweep _ _⟩

theorem maxWindow_serve {W : ℚ} (hm : 1 ≤ c.maxRequests) (hs : s.maxWindow ≤ W)
    (hw : (c.windowSeconds : ℚ) ≤ W) : (s.serve c).2.maxWindow ≤ W := by
  rcases serve_cases (c := c) s hm with ⟨-, -, e⟩ | ⟨-, -, e⟩
  · rw [e]
    exact max_le hs hw
  · rw [e, sweep_maxWindow]
    exact max_le hs hw

end

/-! ## A run -/

section
variable {lim : Str → Int × Int} {t : ℚ} {s : SlidingWindowLimiter} {log : Str → List ℚ}
  {cs : List Call}

theorem served_live (hlog : Tracks (fun k => (lim k).2) log t s) (h : Live lim t s)
    (hmono : (cs.map Call.now).Pairwise (· ≤ ·)) (ht : ∀ c ∈ cs, t ≤ c.now)
    (hc : ∀ c ∈ cs, Meant lim c) :
    ∃ u, Tracks (fun k => (lim k).2) (fun k => log k ++ admitted k (trace s cs)) u (served s cs) ∧
      Live lim u (served s cs) ∧ s.lastCleanup ≤ (served s cs).lastCleanup ∧
      ∀ e ∈ trace s cs, allowed e.2 = true →
        e.1.now < (served s cs).lastCleanup + cleanupIntervalS := by
  induction cs generalizing s log t with
  | nil => exact ⟨t, by simpa [trace, admitted, served] using hlog, h, le_rfl, nofun⟩
  | cons c cs ih =>
    rw [List.map_cons, List.pairwise_cons] at hmono
    have htc := ht c List.mem_cons_self
    have hcc := hc c List.mem_cons_self
    have hm : 1 ≤ c.maxRequests := hcc.maxRequests ▸ hcc.room
    obtain ⟨hle, hlast⟩ := check_since hm h htc
    obtain ⟨u, hlog', h', hle', hlast'⟩ := ih (check_tracks hlog htc hcc.windowSeconds hm).2
      (check_live hlog htc hcc h) hmono.2 (fun d hd => hmono.1 _ (List.mem_map_of_mem hd))
      fun d hd => hc d (List.mem_cons_of_mem _ hd)
    refine ⟨u, ?_, h', hle.trans hle', ?_⟩
    · simpa only [trace, admitted_cons, served] using hlog'
    · intro e he ha
      rcases List.mem_cons.mp he with rfl | he
      · calc c.now < (s.serve c).2.lastCleanup + cleanupIntervalS := hlast ha
          _ ≤ (served (s.serve c).2 cs).lastCleanup + cleanupIntervalS := by gcongr
      · exact hlast' e he ha

theorem maxWindow_served {W : ℚ} (hm : ∀ c ∈ cs, 1 ≤ c.maxRequests) (hs : s.maxWindow ≤ W)
    (hw : ∀ c ∈ cs, (c.windowSeconds : ℚ) ≤ W) : (served s cs).maxWindow ≤ W := by
  induction cs generalizing s with
  | nil => exact hs
  | cons c cs ih =>
    exact ih (fun d hd => hm d (List.mem_cons_of_mem _ hd))
      (maxWindow_serve (hm c List.mem_cons_self) hs (hw c List.mem_cons_self))
      fun d hd => hw d (List.mem_cons_of_mem _ hd)

end

/-- Allowed, and by less than `span` older than any allowed call. -/
def isRecent (span : ℚ) (h : List (Call × Decision)) (e : Call × Decision) : Bool :=
  allowed e.2 && h.all fun e' => !allowed e'.2 || decide (e'.1.now < e.1.now + span)

def recent (span : ℚ) (h : List (Call × Decision)) : List Call :=
  (h.filter (isRecent span h)).map Prod.fst

theorem isRecent_of {span : ℚ} {h : List (Call × Decision)} {e : Call × Decision}
    (ha : allowed e.2 = true) (hr : ∀ e' ∈ h, allowed e'.2 = true → e'.1.now < e.1.now + span) :
    isRecent span h e = true := by
  rw [isRecent, ha, Bool.true_and, List.all_eq_true]
  intro e' he'
  cases ha' : allowed e'.2 with
  | false => rfl
  | true => exact decide_eq_true (hr e' he' ha')

/-- Each bucket holds recent calls of its key, the last of them a younger one. -/
theorem stored_recent {lim : Str → Int × Int} {cs : List Call} {W : ℚ}
    (hmono : (cs.map Call.now).Pairwise (· ≤ ·)) (h0 : ∀ c ∈ cs, 0 ≤ c.now)
    (hc : ∀ c ∈ cs, Meant lim c) (hW : ∀ k, ((lim k).2 : ℚ) ≤ W) (hW0 : 0 ≤ W) {k : Str} {hits : List ℚ}
    (hk : (served .init cs).hits.get? k = some hits) :
    k ∈ (recent (W + cleanupIntervalS) (trace .init cs)).map Call.key ∧
      hits.length ≤
        ((recent (2 * W + cleanupIntervalS) (trace .init cs)).map Call.key).count k ∧
      hits ≠ [] ∧ (hits.length : Int) ≤ (lim k).1 := by
  obtain ⟨u, hlog, hlive, -, hlast⟩ :=
    served_live (tracks_init (fun k => (lim k).2) 0) (live_init le_rfl) hmono h0 hc
  obtain ⟨x, hx, hsw, hwin, hlen⟩ := hlive.bucket k hits hk
  have hmax : (served .init cs).maxWindow ≤ W :=
    maxWindow_served (fun c hd => (hc c hd).maxRequests ▸ (hc c hd).room) hW0
      fun c hd => (hc c hd).windowSeconds ▸ hW c.key
  -- the bucket is the end of the log of its key
  obtain ⟨old, e, -⟩ := hlog.keeps k
  rw [SlidingWindowLimiter.bucket, hk, Option.getD_some, List.nil_append, admitted] at e
  obtain ⟨_, l, el, -, rfl⟩ := List.map_eq_append_iff.mp e
  have hl : ∀ d ∈ l, d ∈ trace .init cs ∧ d.1.key = k ∧ allowed d.2 = true := by
    intro d hd
    have := List.mem_filter.mp (el ▸ List.mem_append_right _ hd)
    simpa using this
  have hne : l.map (fun e => e.1.now) ≠ [] := by
    intro e
    rw [e] at hx
    cases hx
  refine ⟨?_, ?_, hne, hlen⟩
  · obtain ⟨d, hd, rfl⟩ := List.mem_map.mp (List.mem_of_getLast? hx)
    obtain ⟨hmem, hkey, ha⟩ := hl d hd
    refine List.mem_map.mpr ⟨d.1, List.mem_map.mpr ⟨d, List.mem_filter.mpr ⟨hmem, ?_⟩, rfl⟩, hkey⟩
    refine isRecent_of ha fun e' he' ha' => ?_
    have := hlast e' he' ha'
    linarith
  · have hq : l.Sublist ((trace .init cs).filter fun d =>
        isRecent (2 * W + cleanupIntervalS) (trace .init cs) d && (d.1.key == k)) := by
      have hself : l.filter (fun d =>
          isRecent (2 * W + cleanupIntervalS) (trace .init cs) d && (d.1.key == k)) = l := by
        rw [List.filter_eq_self]
        intro d hd
        obtain ⟨hmem, hkey, ha⟩ := hl d hd
        rw [beq_iff_eq.mpr hkey, Bool.and_true]
        refine isRecent_of ha fun e' he' ha' => ?_
        have h₁ := hlast e' he' ha'
        have h₂ := hwin d.1.now (List.mem_map_of_mem hd)
        have h₃ := hW k
        linarith
      rw [← hself]
      exact ((el ▸ List.sublist_append_right _ l).trans List.filter_sublist).filter _
    rw [List.length_map, recent, List.map_map, List.count_eq_countP, List.countP_map,
      List.countP_filter, List.countP_eq_length_filter]
    refine hq.length_le.trans_eq (congrArg List.length (List.filter_congr fun d _ => ?_))
    exact Bool.and_comm _ _

/-- What lies under different keys is counted once. -/
theorem sum_le_length {items : List (Str × List ℚ)} (hn : (items.map Prod.fst).Nodup)
    {l : List Str} (h : ∀ p ∈ items, p.2.length ≤ l.count p.1) :
    (items.map fun p => p.2.length).sum ≤ l.length := by
  induction items generalizing l with
  | nil => exact Nat.zero_le _
  | cons p items ih =>
    rw [List.map_cons, List.nodup_cons] at hn
    have hrest := ih hn.2 (l := l.filter fun k => !(k == p.1)) fun q hq => by
      have hne : q.1 ≠ p.1 := fun e => hn.1 (e ▸ List.mem_map_of_mem hq)
      rw [List.count_filter (by simpa using hne)]
      exact h q (List.mem_cons_of_mem _ hq)
    have hsplit := List.length_eq_length_filter_add (l := l) fun k => k == p.1
    have hp := h p List.mem_cons_self
    rw [List.count_eq_length_filter] at hp
    rw [List.map_cons, List.sum_cons]
    omega

/-! ## The middleware -/

/-- The limiter after the requests in order. -/
def handled (m : RateLimitMiddleware) (trustedProxies : Str) (s : SlidingWindowLimiter)
    (as : List Arrival) : SlidingWindowLimiter :=
  as.foldl (fun s a => (dispatch m trustedProxies s a).2) s

theorem served_append (s : SlidingWindowLimiter) (cs ds : List Call) :
    served s (cs ++ ds) = served (served s cs) ds := by
  induction cs generalizing s with
  | nil => rfl
  | cons c cs ih => exact ih (s.serve c).2

theorem handled_serves (m : RateLimitMiddleware) (trustedProxies : Str) (s : SlidingWindowLimiter)
    (as : List Arrival) :
    handled m trustedProxies s as = served s (calls m trustedProxies s as) := by
  induction as generalizing s with
  | nil => rfl
  | cons a as ih =>
    rw [calls, served_append, ← dispatch_serves]
    exact ih (dispatch m trustedProxies s a).2

/-- The middleware's budgets let something through, in a window that is not
empty. -/
structure Sensible (m : RateLimitMiddleware) : Prop where
  maxRequests : 1 ≤ m.maxRequests
  windowSeconds : 0 < m.windowSeconds
  loginMaxAttempts : 1 ≤ m.loginMaxAttempts
  loginWindowSeconds : 0 < m.loginWindowSeconds

theorem Sensible.meant {m : RateLimitMiddleware} (h : Sensible m) (trustedProxies : Str)
    (s : SlidingWindowLimiter) (as : List Arrival) :
    ∀ c ∈ calls m trustedProxies s as, Meant (limit m) c := by
  intro c hc
  obtain ⟨hm, hw⟩ := calls_fixed m trustedProxies s as c hc
  refine ⟨hm, hw, ?_, ?_⟩ <;> unfold limit <;> split
  · exact h.maxRequests
  · exact h.loginMaxAttempts
  · exact h.windowSeconds
  · exact h.loginWindowSeconds

/-- The larger of the two windows. -/
def span (m : RateLimitMiddleware) : ℚ := max (m.windowSeconds : ℚ) m.loginWindowSeconds

/-- After any requests, in the order of time: every bucket holds something and
is no longer than its limit, there are no more buckets than keys with an allowed
call of the last window and sweep interval, and no more hits altogether than
allowed calls of the last two windows and sweep interval. -/
theorem memory_bounded (m : RateLimitMiddleware) (hm : Sensible m) (trustedProxies : Str)
    (as : List Arrival) (ht : Timed 0 as) :
    (∀ k hits, (handled m trustedProxies .init as).hits.get? k = some hits →
        hits ≠ [] ∧ (hits.length : Int) ≤ (limit m k).1) ∧
      (handled m trustedProxies .init as).hits.keys.length ≤
        ((recent (span m + cleanupIntervalS) (trace .init (calls m trustedProxies .init as))).map
          Call.key).dedup.length ∧
      ((handled m trustedProxies .init as).hits.items.map fun b => b.2.length).sum ≤
        (recent (2 * span m + cleanupIntervalS)
          (trace .init (calls m trustedProxies .init as))).length := by
  obtain ⟨hmono, h0⟩ := calls_times m trustedProxies .init ht
  have hW (k : Str) : ((limit m k).2 : ℚ) ≤ span m := by
    unfold limit
    split
    · exact le_max_left _ _
    · exact le_max_right _ _
  have hW0 : 0 ≤ span m :=
    le_trans (by exact_mod_cast hm.windowSeconds.le) (le_max_left (m.windowSeconds : ℚ) _)
  have hstored (k : Str) (hits : List ℚ) :=
    @stored_recent _ _ _ hmono h0 (hm.meant trustedProxies .init as) hW hW0 k hits
  rw [handled_serves]
  refine ⟨fun k hits hk => (hstored k hits hk).2.2, ?_, ?_⟩
  · refine (List.subperm_of_subset (Dict.nodup _) fun k hk => ?_).length_le
    obtain ⟨hits, hk⟩ := Dict.mem_keys.mp hk
    exact List.mem_dedup.mpr (hstored k hits hk).1
  · refine (sum_le_length (Dict.nodup _) fun b hb => ?_).trans_eq (List.length_map Call.key)
    exact (hstored b.1 b.2 (Dict.mem_items.mp hb)).2.1

def budgets : RateLimitMiddleware := ⟨2, 60, 1, 300, "/api/auth/login".toList⟩

def visit (client : String) (now : ℚ) : Arrival :=
  ⟨⟨some client.toList, [], "http".toList, "GET".toList, "/api/mailboxes".toList⟩, now, now⟩

/-- Two clients, and a third one after they went away. -/
def churn : List Arrival := [visit "10.0.0.1" 1, visit "10.0.0.2" 2, visit "10.0.0.3" 400]

theorem memory_bounded_churn :
    ((handled budgets [] .init churn).hits.items.map fun b => b.2.length).sum ≤
      (recent (2 * span budgets + cleanupIntervalS)
        (trace .init (calls budgets [] .init churn))).length :=
  (memory_bounded budgets ⟨by decide, by decide, by decide, by decide⟩ [] churn
    (by simp only [churn, visit, Timed]; norm_num)).2.2

end MailserverUi.L4.LimiterMemory

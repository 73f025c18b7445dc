import MailserverUi.L1Encoding.MailLog

/-!
# Mail statistics (`get_mail_stats`)

One loop over the tail of the mail log fills ten counters. The dating of a line
is given (`parseLogTimestamp`), and so is the arithmetic of the window
(`minusHours`), over any linear order of instants.

Results:
* `scan_count`: what a scan with a set of the ids seen counts.
* `getMailStats_eq`: every field as a function of the lines in the window.
* `getMailStats_counts`: the counters are those of disjoint sets of lines, and
  the order of the lines does not matter.
-/
namespace MailserverUi.L3.MailStatistics

open Py L1.MailLog

/-- mirrors backend/app/models/mailserver_models.py:544-583 -/
structure MailStats where
  periodHours : Int := 24
  received : Nat := 0
  sent : Nat := 0
  rejected : Nat := 0
  greylisted : Nat := 0
  bounced : Nat := 0
  deferred : Nat := 0
  spam : Nat := 0
  virus : Nat := 0
  parsed : Bool := false
  scannedLines : Nat := 0
  deriving DecidableEq, Repr

/-- The counter of an outcome goes up by one. -/
def MailStats.attempted (stats : MailStats) : Outcome → MailStats
  | .sent => { stats with sent := stats.sent + 1 }
  | .deferred => { stats with deferred := stats.deferred + 1 }
  | .bounced => { stats with bounced := stats.bounced + 1 }
  | .greylisted => { stats with greylisted := stats.greylisted + 1 }
  | .rejected => { stats with rejected := stats.rejected + 1 }

/-- The literal empty id, which is counted every time. -/
def emptyId : Str := "<>".toList

/-- The counters and `seen_message_ids`. -/
structure Scan where
  stats : MailStats
  seen : Finset Str

/-- What became of the attempt, or the message received.
mirrors backend/app/services/mailserver_service.py:983-1001 -/
def Scan.outcome (scan : Scan) (line : Str) : Scan :=
  match outcomeOf line with
  | some o => { scan with stats := scan.stats.attempted o }
  | none =>
    match receivedId line with
    | some id =>
      if id = emptyId ∨ id ∉ scan.seen then
        { stats := { scan.stats with received := scan.stats.received + 1 }
          seen := insert id scan.seen }
      else scan
    | none => scan

/-- Why it was refused. mirrors backend/app/services/mailserver_service.py:1003-1008 -/
def MailStats.refused (stats : MailStats) (line : Str) : MailStats :=
  if isVirus line then { stats with virus := stats.virus + 1 }
  else if isSpam line then { stats with spam := stats.spam + 1 }
  else stats

section
variable {T : Type} [LinearOrder T]

/-- A line that has a timestamp, not before the cutoff. -/
def inWindow (stamp : Str → Option T) (cutoff : T) (line : Str) : Bool :=
  (stamp line).any (cutoff ≤ ·)

/-- One pass of the loop.
mirrors backend/app/services/mailserver_service.py:975-1008 -/
def Scan.line (stamp : Str → Option T) (cutoff : T) (scan : Scan) (line : Str) : Scan :=
  let scan := { scan with stats.scannedLines := scan.stats.scannedLines + 1 }
  if inWindow stamp cutoff line then
    let scan := { scan with stats.parsed := true }.outcome line
    { scan with stats := scan.stats.refused line }
  else scan

/-- mirrors backend/app/services/mailserver_service.py:952-1009 -/
def getMailStats (parseLogTimestamp : Str → T → Option T) (minusHours : T → Int → T)
    (mailserverStatsHours : Int) (output : Str) (now : T) : MailStats :=
  let cutoff := minusHours now mailserverStatsHours
  ((splitlines output).foldl (Scan.line (parseLogTimestamp · now) cutoff)
    ⟨{ periodHours := mailserverStatsHours }, ∅⟩).stats

end

/-! ## A scan with a set of the ids seen -/

/-- The counter and the set, for one id. -/
def seeId (e : Str) (acc : Nat × Finset Str) (id : Str) : Nat × Finset Str :=
  if id = e ∨ id ∉ acc.2 then (acc.1 + 1, insert id acc.2) else acc

/-- What is counted: each id but `e` once, and `e` every time. -/
theorem scan_count (e : Str) (ids : List Str) (n : Nat) (seen : Finset Str) :
    (ids.foldl (seeId e) (n, seen)).1 =
      n + ((ids.toFinset \ seen).erase e).card + ids.count e := by
  induction ids generalizing n seen with
  | nil => simp
  | cons id ids ih =>
    rw [List.foldl_cons, seeId]
    by_cases he : id = e
    · -- `e` itself: whether it is in the set makes no difference
      rw [if_pos (.inl he), ih, he, List.count_cons_self]
      have hset : ((e :: ids).toFinset \ seen).erase e =
          (ids.toFinset \ insert e seen).erase e := by
        ext x
        simp only [List.toFinset_cons, Finset.mem_erase, Finset.mem_sdiff, Finset.mem_insert]
        tauto
      rw [hset]
      dsimp only
      omega
    · rw [List.count_cons_of_ne he]
      by_cases hs : id ∈ seen
      · rw [if_neg (by simp [he, hs]), ih]
        have hset : (id :: ids).toFinset \ seen = ids.toFinset \ seen := by
          rw [List.toFinset_cons, Finset.insert_sdiff_of_mem _ hs]
        rw [hset]
      · rw [if_pos (.inr hs), ih]
        have hset : ((id :: ids).toFinset \ seen).erase e =
            insert id ((ids.toFinset \ insert id seen).erase e) := by
          ext x
          simp only [List.toFinset_cons, Finset.mem_erase, Finset.mem_sdiff, Finset.mem_insert]
          by_cases hx : x = id
          · subst hx
            simp [he, hs]
          · simp [hx]
        rw [hset, Finset.card_insert_of_notMem (by simp)]
        dsimp only
        omega

/-! ## One line, then all of them -/

/-- The counter of an outcome. -/
def MailStats.tally (stats : MailStats) : Outcome → Nat
  | .sent => stats.sent
  | .deferred => stats.deferred
  | .bounced => stats.bounced
  | .greylisted => stats.greylisted
  | .rejected => stats.rejected

theorem tally_attempted (stats : MailStats) (o p : Outcome) :
    (stats.attempted o).tally p = stats.tally p + if o = p then 1 else 0 := by
  cases o <;> cases p <;> rfl

def isSpamOnly (line : Str) : Bool := isSpam line && !isVirus line

/-- The message-ids of the lines that may count as received. -/
def receivedIds (lines : List Str) : List Str := lines.filterMap receivedId

/-- What `scan` becomes when the lines `window` are counted, of `scanned` lines
read. -/
structure Counts (window : List Str) (scanned : Nat) (scan scan' : Scan) : Prop where
  period : scan'.stats.periodHours = scan.stats.periodHours
  tally : ∀ o, scan'.stats.tally o =
    scan.stats.tally o + window.countP fun l => decide (outcomeOf l = some o)
  received : (scan'.stats.received, scan'.seen) =
    (receivedIds window).foldl (seeId emptyId) (scan.stats.received, scan.seen)
  spam : scan'.stats.spam = scan.stats.spam + window.countP isSpamOnly
  virus : scan'.stats.virus = scan.stats.virus + window.countP isVirus
  parsed : scan'.stats.parsed = (scan.stats.parsed || !window.isEmpty)
  scanned : scan'.stats.scannedLines = scan.stats.scannedLines + scanned

theorem Counts.refl (scan : Scan) : Counts [] 0 scan scan where
  period := rfl
  tally _ := rfl
  received := rfl
  spam := rfl
  virus := rfl
  parsed := by simp
  scanned := rfl

theorem Counts.trans {w₁ w₂ : List Str} {n₁ n₂ : Nat} {s₁ s₂ s₃ : Scan}
    (h : Counts w₁ n₁ s₁ s₂) (g : Counts w₂ n₂ s₂ s₃) : Counts (w₁ ++ w₂) (n₁ + n₂) s₁ s₃ where
  period := g.period.trans h.period
  tally o := by rw [g.tally, h.tally, List.countP_append, Nat.add_assoc]
  received := by
    rw [g.received, h.received, ← List.foldl_append]
    exact congrArg _ List.filterMap_append.symm
  spam := by rw [g.spam, h.spam, List.countP_append, Nat.add_assoc]
  virus := by rw [g.virus, h.virus, List.countP_append, Nat.add_assoc]
  parsed := by rw [g.parsed, h.parsed, Bool.or_assoc]; cases w₁ <;> rfl
  scanned := by rw [g.scanned, h.scanned, Nat.add_assoc]

/-- The outcome of a line, with what it leaves alone. -/
theorem outcome_spec (scan : Scan) (line : Str) :
    (∀ o, (scan.outcome line).stats.tally o =
        scan.stats.tally o + if outcomeOf line = some o then 1 else 0) ∧
      ((scan.outcome line).stats.received, (scan.outcome line).seen) =
        (receivedIds [line]).foldl (seeId emptyId) (scan.stats.received, scan.seen) ∧
      (scan.outcome line).stats.spam = scan.stats.spam ∧
      (scan.outcome line).stats.virus = scan.stats.virus ∧
      (scan.outcome line).stats.parsed = scan.stats.parsed ∧
      (scan.outcome line).stats.scannedLines = scan.stats.scannedLines ∧
      (scan.outcome line).stats.periodHours = scan.stats.periodHours := by
  unfold Scan.outcome receivedIds
  cases ho : outcomeOf line with
  | some o =>
    have hr : receivedId line = none := by
      unfold receivedId isCleanup
      rw [ho]
      rfl
    refine ⟨fun p => ?_, by rw [List.filterMap_cons_none hr]; cases o <;> rfl, ?_⟩
    · rw [tally_attempted]
      simp only [Option.some.injEq]
    · cases o <;> exact ⟨rfl, rfl, rfl, rfl, rfl⟩
  | none =>
    cases hr : receivedId line with
    | none =>
      rw [List.filterMap_cons_none hr]
      exact ⟨fun p => by simp, rfl, rfl, rfl, rfl, rfl, rfl⟩
    | some id =>
      rw [List.filterMap_cons_some hr]
      simp only [List.filterMap_nil, List.foldl_cons, List.foldl_nil, seeId]
      split
      · exact ⟨fun p => by cases p <;> rfl, rfl, rfl, rfl, rfl, rfl, rfl⟩
      · exact ⟨fun p => by simp, rfl, rfl, rfl, rfl, rfl, rfl⟩

/-- The reason of a refusal, with what it leaves alone. -/
theorem refused_spec (stats : MailStats) (line : Str) :
    (stats.refused line).spam = stats.spam + [line].countP isSpamOnly ∧
      (stats.refused line).virus = stats.virus + [line].countP isVirus ∧
      (∀ o, (stats.refused line).tally o = stats.tally o) ∧
      (stats.refused line).received = stats.received ∧
      (stats.refused line).parsed = stats.parsed ∧
      (stats.refused line).scannedLines = stats.scannedLines ∧
      (stats.refused line).periodHours = stats.periodHours := by
  unfold MailStats.refused isSpamOnly
  rw [List.countP_singleton, List.countP_singleton]
  cases hv : isVirus line with
  | true => exact ⟨by simp, by simp, fun o => by cases o <;> rfl, rfl, rfl, rfl, rfl⟩
  | false =>
    cases hs : isSpam line with
    | true => exact ⟨by simp, by simp, fun o => by cases o <;> rfl, rfl, rfl, rfl, rfl⟩
    | false => exact ⟨by simp, by simp, fun _ => rfl, rfl, rfl, rfl, rfl⟩

section
variable {T : Type} [LinearOrder T] (stamp : Str → Option T) (cutoff : T)

theorem counts_line (scan : Scan) (line : Str) :
    Counts ([line].filter (inWindow stamp cutoff)) 1 scan (scan.line stamp cutoff line) := by
  unfold Scan.line
  by_cases hw : inWindow stamp cutoff line = true
  · rw [List.filter_cons_of_pos hw, List.filter_nil, if_pos hw]
    dsimp only
    generalize hs : ({ scan with stats := { scan.stats with
      scannedLines := scan.stats.scannedLines + 1, parsed := true } } : Scan) = s
    obtain ⟨o₁, o₂, o₃, o₄, o₅, o₆, o₇⟩ := outcome_spec s line
    obtain ⟨r₁, r₂, r₃, r₄, r₅, r₆, r₇⟩ := refused_spec (s.outcome line).stats line
    subst hs
    exact
      { period := r₇.trans o₇
        tally := fun o => by
          rw [r₃, o₁, List.countP_singleton]
          simp only [decide_eq_true_eq]
          cases o <;> rfl
        received := by rw [r₄]; exact o₂
        spam := by rw [r₁, o₃]
        virus := by rw [r₂, o₄]
        parsed := by rw [r₅, o₅]; simp
        scanned := by rw [r₆, o₆] }
  · rw [List.filter_cons_of_neg hw, List.filter_nil, if_neg hw]
    exact
      { period := rfl
        tally := fun o => by cases o <;> rfl
        received := rfl
        spam := rfl
        virus := rfl
        parsed := by simp
        scanned := rfl }

theorem counts_run (scan : Scan) (lines : List Str) :
    Counts (lines.filter (inWindow stamp cutoff)) lines.length scan
      (lines.foldl (Scan.line stamp cutoff) scan) := by
  induction lines generalizing scan with
  | nil => exact Counts.refl scan
  | cons line lines ih =>
    have h := (counts_line stamp cutoff scan line).trans (ih (scan.line stamp cutoff line))
    rw [← List.filter_append, List.singleton_append, Nat.add_comm] at h
    exact h

end

/-! ## Every field -/

/-- The distinct ids but the empty one, and the empty one each time. -/
def receivedCount (window : List Str) : Nat :=
  ((receivedIds window).toFinset.erase emptyId).card + (receivedIds window).count emptyId

/-- The fields, from the lines in the window and the number of lines read. -/
def statsOf (hours : Int) (window : List Str) (scanned : Nat) : MailStats where
  periodHours := hours
  received := receivedCount window
  sent := window.countP fun l => outcomeOf l = some .sent
  rejected := window.countP fun l => outcomeOf l = some .rejected
  greylisted := window.countP fun l => outcomeOf l = some .greylisted
  bounced := window.countP fun l => outcomeOf l = some .bounced
  deferred := window.countP fun l => outcomeOf l = some .deferred
  spam := window.countP isSpamOnly
  virus := window.countP isVirus
  parsed := !window.isEmpty
  scannedLines := scanned

section
variable {T : Type} [LinearOrder T] (parseLogTimestamp : Str → T → Option T)
  (minusHours : T → Int → T) (hours : Int)

/-- The lines of the output that are counted. -/
def windowOf (output : Str) (now : T) : List Str :=
  (splitlines output).filter (inWindow (parseLogTimestamp · now) (minusHours now hours))

theorem getMailStats_eq (output : Str) (now : T) :
    getMailStats parseLogTimestamp minusHours hours output now =
      statsOf hours (windowOf parseLogTimestamp minusHours hours output now)
        (splitlines output).length := by
  have h := counts_run (parseLogTimestamp · now) (minusHours now hours)
    ⟨{ periodHours := hours }, ∅⟩ (splitlines output)
  have hr := congrArg Prod.fst h.received
  rw [scan_count, Finset.sdiff_empty, Nat.zero_add] at hr
  unfold getMailStats
  dsimp only
  generalize (splitlines output).foldl _ _ = scan at h hr
  obtain ⟨stats, seen⟩ := scan
  have ht := h.tally
  cases stats
  simp only [statsOf, MailStats.mk.injEq]
  refine ⟨h.period, hr, ?_, ?_, ?_, ?_, ?_, ?_, ?_, ?_, ?_⟩
  · exact (ht .sent).trans (Nat.zero_add _)
  · exact (ht .rejected).trans (Nat.zero_add _)
  · exact (ht .greylisted).trans (Nat.zero_add _)
  · exact (ht .bounced).trans (Nat.zero_add _)
  · exact (ht .deferred).trans (Nat.zero_add _)
  · exact h.spam.trans (Nat.zero_add _)
  · exact h.virus.trans (Nat.zero_add _)
  · exact h.parsed
  · exact h.scanned.trans (Nat.zero_add _)

theorem receivedCount_perm {w w' : List Str} (h : w.Perm w') : receivedCount w = receivedCount w' := by
  have hi := h.filterMap receivedId
  unfold receivedCount receivedIds
  rw [List.toFinset_eq_of_perm _ _ hi, hi.count_eq]

theorem statsOf_perm {w w' : List Str} (h : w.Perm w') (n : Nat) :
    statsOf hours w n = statsOf hours w' n := by
  simp only [statsOf, receivedCount_perm h, h.countP_eq, h.isEmpty_eq]

/-- The counters are the numbers of lines of the window that are of each kind;
each id but the empty one counts once. -/
structure Tallies (lines window : List Str) (stats : MailStats) : Prop where
  outcome : ∀ o, stats.tally o = window.countP fun l => decide (outcomeOf l = some o)
  received : stats.received =
    (((window.filter isCleanup).filterMap messageIdOf).toFinset.erase emptyId).card +
      ((window.filter isCleanup).filterMap messageIdOf).count emptyId
  virus : stats.virus = window.countP isVirus
  spam : stats.spam = window.countP isSpamOnly
  scanned : stats.scannedLines = lines.length
  parsed : stats.parsed = true ↔ ∃ l, l ∈ window

theorem tallies_statsOf (lines window : List Str) :
    Tallies lines window (statsOf hours window lines.length) where
  outcome o := by cases o <;> rfl
  received := by
    have hids : (window.filter isCleanup).filterMap messageIdOf = receivedIds window := by
      rw [List.filterMap_filter]
      rfl
    rw [hids]
    rfl
  virus := rfl
  spam := rfl
  scanned := rfl
  parsed := by
    rw [statsOf, Bool.not_eq_true', List.isEmpty_eq_false_iff_exists_mem]

/-- Each counter counts lines of the window: one outcome for a line, or a
candidate for a message received; viruses apart from spam. The order of the
lines makes no difference. -/
theorem getMailStats_counts (output : Str) (now : T) :
    Tallies (splitlines output) (windowOf parseLogTimestamp minusHours hours output now)
        (getMailStats parseLogTimestamp minusHours hours output now) ∧
      (∀ l o, outcomeOf l = some o → isCleanup l = false) ∧
      (∀ l, ¬ (isVirus l = true ∧ isSpamOnly l = true)) ∧
      ∀ output', (splitlines output').Perm (splitlines output) →
        getMailStats parseLogTimestamp minusHours hours output' now =
          getMailStats parseLogTimestamp minusHours hours output now := by
  rw [getMailStats_eq]
  refine ⟨tallies_statsOf hours _ _, ?_, ?_, ?_⟩
  · intro l o ho
    unfold isCleanup
    rw [ho]
    rfl
  · rintro l ⟨hv, hs⟩
    simp [isSpamOnly, hv] at hs
  · intro output' hp
    rw [getMailStats_eq, hp.length_eq]
    exact statsOf_perm hours (hp.filter _) _

end

end MailserverUi.L3.MailStatistics

import MailserverUi.Core.LTS
import MailserverUi.L4App.RestartAreas

/-!
# A restart among settings writes

`restart_mailserver` blocks until the container runs again, which may take
minutes, and then dismisses every pending action. An endpoint that changes a
setting writes its file first and marks its area then. Each is two steps here,
and the steps of any number of requests come in any order: the container loads
the files as they are in the first step of the restart, and the second step is
not tied to what it has loaded.

Results:
* `consistent_of_announced`: at rest, every file that differs from what the
  container has loaded has a pending action, as long as nothing is dismissed
  while a file differs whose endpoint has already marked it.
* `lost_of_clear`: dismissing in any other state leads to a state at rest in
  which a file differs and has none.
* `dismissed`: a change that is made and marked during the restart.
-/
namespace MailserverUi.L5.RestartRace

open Py L2.Container L2.ConfigTree L3.Dkim L3.Fail2ban L3.PendingActions L4.RestartAreas

/-! ## The system -/

/-- `marking` holds the area and the title of each request between its two
steps, and `restarting` counts the restarts between theirs. -/
structure State where
  tree : Tree
  loaded : Tree
  rows : Rows
  marking : List (Area × Str)
  restarting : Nat

inductive Step where
  | restart
  | clear
  | write (w : Setting)
  | mark (m : Area × Str)

/-- `clear_all`, which ends a restart. -/
def State.cleared (s : State) : State :=
  { s with rows := clearAll s.rows, restarting := s.restarting - 1 }

/-- `mark_restart_required`, which ends a write. -/
def State.marked (s : State) (m : Area × Str) : State :=
  { s with
    rows := markRestartRequired s.rows m.1.key m.2 []
    marking := s.marking.erase m }

section
variable (load : Str → PemKey) (readString : Str → Parsed)

/-- A call whose service function raises has no second step, and is no write
here.
mirrors backend/app/routers/mailserver.py:90-101,163-176 -/
def next (s : State) : Step → Option State
  | .restart => some { s with loaded := s.tree, restarting := s.restarting + 1 }
  | .clear => if 0 < s.restarting then some s.cleared else none
  | .write w =>
    match (w.prog load readString).run treeBox s.tree with
    | (.ok _, t) => some { s with tree := t, marking := (w.area, w.title) :: s.marking }
    | (.error _, _) => none
  | .mark m => if m ∈ s.marking then some (s.marked m) else none

end

/-- No request is in flight. -/
def Quiet (s : State) : Prop := s.marking = [] ∧ s.restarting = 0

/-- The file is not as the container has loaded it. -/
def Differs (s : State) (f : Str) : Prop :=
  filesOf s.tree (configPath f) ≠ filesOf s.loaded (configPath f)

instance (s : State) (f : Str) : Decidable (Differs s f) := inferInstanceAs (Decidable (_ ≠ _))

/-- Every file that differs has a pending action. -/
def Consistent (s : State) : Prop := ∀ f, Differs s f → Listed s.rows f

/-- A request in flight has yet to mark the file. -/
def Coming (s : State) (f : Str) : Prop := ∃ m ∈ s.marking, Touched m.1.Holds f

/-- Pending actions are dismissed only when every file that differs is yet to be
marked. -/
def Announced (s : State) : Step → Prop
  | .clear => ∀ f, Differs s f → Coming s f
  | _ => True

section
variable (load : Str → PemKey) (readString : Str → Parsed)

def system : LTS State Step :=
  LTS.ofFn (fun s => Quiet s ∧ Consistent s) (next load readString)

/-! ## What a run keeps -/

/-- Every file that differs has a pending action, or is yet to be marked. -/
def Tracked (s : State) : Prop := ∀ f, Differs s f → Coming s f ∨ Listed s.rows f

variable {load readString}

theorem next_clear {s s' : State} : next load readString s .clear = some s' ↔
    0 < s.restarting ∧ s' = s.cleared := by
  rw [next, Option.ite_none_right_eq_some, Option.some.injEq, eq_comm (b := s')]

theorem next_mark {s s' : State} {m : Area × Str} : next load readString s (.mark m) = some s' ↔
    m ∈ s.marking ∧ s' = s.marked m := by
  rw [next, Option.ite_none_right_eq_some, Option.some.injEq, eq_comm (b := s')]

/-- What a write changes is in its area. -/
theorem next_write {s s' : State} {w : Setting} (h : next load readString s (.write w) = some s') :
    ∃ t, s' = { s with tree := t, marking := (w.area, w.title) :: s.marking } ∧
      ∀ f, ¬ Touched w.area.Holds f →
        filesOf t (configPath f) = filesOf s.tree (configPath f) := by
  rw [next] at h
  cases hr : (w.prog load readString).run treeBox s.tree with
  | mk r t =>
    rw [hr] at h
    cases r with
    | error e => cases h
    | ok u =>
      cases h
      refine ⟨t, rfl, fun f hf => ?_⟩
      have hs := filesOf_stop_setting load readString w none s.tree hf
      have e : (w.prog load readString).stop treeBox none s.tree = t := congrArg Prod.snd hr
      rwa [e] at hs

theorem tracked_step {s s' : State} {l : Step} (ht : Tracked s) (hg : Announced s l)
    (h : next load readString s l = some s') : Tracked s' := by
  intro f hd
  cases l with
  | restart =>
    cases h
    exact absurd rfl hd
  | clear =>
    obtain ⟨-, rfl⟩ := next_clear.mp h
    exact .inl (hg f hd)
  | write w =>
    obtain ⟨t, rfl, hf⟩ := next_write h
    by_cases ha : Touched w.area.Holds f
    · exact .inl ⟨_, List.mem_cons_self, ha⟩
    · have hd : Differs s f := fun e => hd ((hf f ha).trans e)
      rcases ht f hd with ⟨m, hm, hh⟩ | hl
      · exact .inl ⟨m, List.mem_cons_of_mem _ hm, hh⟩
      · exact .inr hl
  | mark m =>
    obtain ⟨-, rfl⟩ := next_mark.mp h
    rcases ht f hd with ⟨m', hm', hh⟩ | hl
    · by_cases e : m' = m
      · subst e
        exact .inr (listed_mark hh _ _ _)
      · exact .inl ⟨m', (List.mem_erase_of_ne e).mpr hm', hh⟩
    · exact .inr (hl.mark _ _ _)

theorem tracked_inductive : ((system load readString).guard Announced).Inductive Tracked where
  init _ h f hd := .inr (h.2 f hd)
  step _ _ _ ht h := tracked_step ht h.1 h.2

/-- **At rest, every file that differs from what the container has loaded has a
pending action**, in any interleaving in which actions are dismissed only while
every such file is yet to be marked. -/
theorem consistent_of_announced (s : State)
    (h : ((system load readString).guard Announced).Reachable s) (hq : Quiet s) :
    Consistent s := by
  intro f hd
  rcases tracked_inductive.reachable s h f hd with ⟨m, hm, -⟩ | hl
  · rw [hq.1] at hm
    exact absurd hm List.not_mem_nil
  · exact hl

/-! ## Any other dismissal -/

/-- The requests in flight can all be finished. -/
theorem run_marks (s : State) :
    ∃ ls s', (system load readString).Run s ls s' ∧ s'.tree = s.tree ∧ s'.loaded = s.loaded ∧
      s'.restarting = s.restarting ∧ s'.marking = [] ∧
      ∀ k ∈ s'.rows.keys, k ∈ s.rows.keys ∨ ∃ m ∈ s.marking, m.1.key = k := by
  generalize hms : s.marking = ms
  induction ms generalizing s with
  | nil => exact ⟨[], s, .nil s, rfl, rfl, rfl, hms, fun k hk => .inl hk⟩
  | cons m ms ih =>
    have hm : m ∈ s.marking := by
      rw [hms]
      exact List.mem_cons_self
    have hstep := (@next_mark load readString _ _ _).mpr ⟨hm, rfl⟩
    have herase : s.marking.erase m = ms := by
      rw [hms, List.erase_cons_head]
    obtain ⟨ls, s', hrun, ht, hl, hr, hm', hk⟩ := ih (s.marked m) herase
    refine ⟨_, s', .cons hstep hrun, ht, hl, hr, hm', fun k hks => ?_⟩
    rcases hk k hks with h | ⟨m', h, e⟩
    · rcases mem_keys_mark.mp h with rfl | h
      · exact .inr ⟨m, List.mem_cons_self, rfl⟩
      · exact .inl h
    · exact .inr ⟨m', List.mem_cons_of_mem _ h, e⟩

/-- Where a file differs that no request in flight will mark, the dismissal that
ends the restart loses its pending action for good. -/
theorem lost_of_clear (s : State) {f : Str} (hr : s.restarting = 1) (hd : Differs s f)
    (hc : ¬ Coming s f) :
    ∃ ls s', (system load readString).Run s (.clear :: ls) s' ∧ Quiet s' ∧ Differs s' f ∧
      ¬ Listed s'.rows f := by
  have hpos : 0 < s.restarting := hr.symm ▸ Nat.one_pos
  have hstep := (@next_clear load readString _ _).mpr ⟨hpos, rfl⟩
  obtain ⟨ls, s', hrun, ht, hl, hr', hm, hk⟩ := @run_marks load readString
    s.cleared
  refine ⟨ls, s', .cons hstep hrun, ⟨hm, hr'.trans (congrArg (· - 1) hr)⟩, ?_, ?_⟩
  · unfold Differs
    rw [ht, hl]
    exact hd
  · rintro ⟨a, ha, hh⟩
    rcases hk _ ha with h | ⟨m, h, e⟩
    · exact absurd h List.not_mem_nil
    · exact hc ⟨m, h, key_injective e ▸ hh⟩

end

/-! ## One restart and one change -/

/-- No private key and no INI file is read here. -/
def noPem : Str → PemKey := fun _ => .raises

def noIni : Str → Parsed := fun _ => .raises

/-- At rest, without a file. -/
def atRest : State := ⟨Dict.empty, Dict.empty, Dict.empty, [], 0⟩

def override : Setting := .postfixOverrides [⟨"mail_name".toList, ['x'], by decide, by decide⟩]

def overrideMark : Area × Str := (override.area, override.title)

/-- What is under way, and that the override is there and not loaded. -/
def standing (marking : List (Area × Str)) (restarting : Nat) (s : State) : Bool :=
  s.marking = marking ∧ s.restarting = restarting ∧ s.rows.keys = [] ∧
    Differs s L3.Overrides.postfixMainFilename

theorem init_atRest : (system noPem noIni).init atRest := ⟨⟨rfl, rfl⟩, fun _ h => absurd rfl h⟩

/-- The override is written during the restart, and marked after it. -/
theorem consistent_of_announced_restart :
    ∃ s, ((system noPem noIni).guard Announced).Reachable s ∧ Quiet s ∧
      Differs s L3.Overrides.postfixMainFilename ∧
      Listed s.rows L3.Overrides.postfixMainFilename := by
  obtain ⟨s, hrun, hp⟩ := LTS.exists_run_of_exec (f := next noPem noIni) (s := atRest)
    (I := fun s => Quiet s ∧ Consistent s) [.restart, .write override]
    (standing [overrideMark] 1) (by decide +kernel)
  obtain ⟨hm, hr, hk, hd⟩ := of_decide_eq_true hp
  have hrun : ((system noPem noIni).guard Announced).Run atRest [.restart, .write override] s := by
    refine LTS.Run.guard hrun fun l hl t => ?_
    simp only [List.mem_cons, List.not_mem_nil, or_false] at hl
    rcases hl with rfl | rfl <;> trivial
  have ht : Tracked s := tracked_inductive.reachable s ⟨atRest, _, init_atRest, hrun⟩
  have hann : Announced s .clear := fun f hf => (ht f hf).elim id fun ⟨a, ha, _⟩ => by
    rw [hk] at ha
    exact absurd ha List.not_mem_nil
  have hclear : next noPem noIni s .clear = some s.cleared :=
    next_clear.mpr ⟨hr.symm ▸ Nat.one_pos, rfl⟩
  have hmark : next noPem noIni s.cleared (.mark overrideMark) =
      some (s.cleared.marked overrideMark) :=
    next_mark.mpr ⟨hm.symm ▸ List.mem_cons_self, rfl⟩
  have hannm : Announced s.cleared (.mark overrideMark) := trivial
  have hreach := hrun.append (.cons ⟨hann, hclear⟩ (.cons ⟨hannm, hmark⟩ (.nil _)))
  have hquiet : Quiet (s.cleared.marked overrideMark) := by
    refine ⟨?_, congrArg (· - 1) hr⟩
    have e : s.marking.erase overrideMark = [] := by rw [hm, List.erase_cons_head]
    exact e
  exact ⟨_, ⟨atRest, _, init_atRest, hreach⟩, hquiet, hd,
    consistent_of_announced _ ⟨atRest, _, init_atRest, hreach⟩ hquiet _ hd⟩

/-- The override is written and marked while the container restarts. It is not
loaded, and its pending action is dismissed. -/
theorem dismissed :
    (system noPem noIni).init atRest ∧
      ∃ s, (system noPem noIni).Run atRest
          [.restart, .write override, .mark overrideMark, .clear] s ∧
        Quiet s ∧ ¬ Consistent s := by
  obtain ⟨s, hrun, hp⟩ := LTS.exists_run_of_exec (f := next noPem noIni) (s := atRest)
    (I := fun s => Quiet s ∧ Consistent s)
    [.restart, .write override, .mark overrideMark, .clear] (standing [] 0) (by decide +kernel)
  obtain ⟨hm, hr, hk, hd⟩ := of_decide_eq_true hp
  refine ⟨init_atRest, s, hrun, ⟨hm, hr⟩, fun hc => ?_⟩
  obtain ⟨a, ha, -⟩ := hc _ hd
  rw [hk] at ha
  exact absurd ha List.not_mem_nil

end MailserverUi.L5.RestartRace

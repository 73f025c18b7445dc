import MailserverUi.Core.Serial
import MailserverUi.L4App.Edits

/-!
# Two edits of the mailserver's flat files at a time

The routers run every service function on a thread pool, so the container calls
of two requests may come in any order. `Edit` is a create or delete operation
of a store that is read, changed and written again, and `lts` (`Core.Serial`)
interleaves two of them one container call at a time.

Two container calls conflict when they are on one file and one of them writes
it; `sound_conflict` says that calls which do not conflict may be swapped.

Results:
* `serialised_of_oneWay`: two edits that both succeed, and whose conflicting
  calls all come in the order of the two edits, leave the files as running one
  after the other does.
* `alias_lost`: otherwise the update of one of them may be lost, though both
  succeed.
-/
namespace MailserverUi.L5.LostUpdate

open Py L1.ServerFiles L2.Errors L2.Container L3.MailserverService L4.Edits Serial

/-- The two requests. -/
def sides (compile : Str → Compiled) (a b : Edit) (w : Bool) : Io Unit :=
  (if w then b else a).prog compile

/-! ## Conflicts -/

/-- The files a container call changes: a write takes up its scratch name too. -/
def written : Cmd → List Str
  | .readFile _ => []
  | .writeConfig relPath _ => [configPath relPath, configPath (scratch relPath)]
  | .deleteConfig relPath => [configPath relPath]

/-- The files a container call is on. -/
def paths : Cmd → List Str
  | .readFile p => [p]
  | c => written c

/-- Two calls on one file, one of which at least writes it. -/
def conflict (c d : Cmd) : Bool :=
  (written c).any (· ∈ paths d) || (written d).any (· ∈ paths c)

/-- A call leaves the other files alone. -/
theorem exec_apply {c : Cmd} {p : Str} (h : p ∉ written c) (s : Files) :
    (box.exec c s).2 p = s p := by
  cases c with
  | readFile q => rfl
  | writeConfig r x =>
    simp only [written, List.mem_cons, List.not_mem_nil, or_false, not_or] at h
    show s.write r x p = s p
    rw [write_apply, if_neg h.1, if_neg h.2]
  | deleteConfig r =>
    simp only [written, List.mem_cons, List.not_mem_nil, or_false] at h
    exact if_neg h

/-- What a call leaves in a file it changes does not depend on any file. -/
theorem exec_written {c : Cmd} {p : Str} (h : p ∈ written c) (s t : Files) :
    (box.exec c s).2 p = (box.exec c t).2 p := by
  cases c with
  | readFile q => cases h
  | writeConfig r x =>
    simp only [written, List.mem_cons, List.not_mem_nil, or_false] at h
    show s.write r x p = t.write r x p
    rw [write_apply, write_apply]
    rcases h with rfl | rfl
    · rw [if_pos rfl, if_pos rfl]
    · rw [if_pos (rfl : configPath (scratch r) = _), if_pos (rfl : configPath (scratch r) = _)]
  | deleteConfig r =>
    obtain rfl := List.mem_singleton.mp h
    exact (if_pos rfl).trans (if_pos rfl).symm

/-- A call looks at no file but its own. -/
theorem exec_congr (c : Cmd) {s t : Files} (h : ∀ p ∈ paths c, s p = t p) :
    (box.exec c s).1 = (box.exec c t).1 := by
  cases c with
  | readFile q =>
    have hq := h q List.mem_cons_self
    simp only [box, Files.read, hq]
  | writeConfig r x => rfl
  | deleteConfig r => rfl

theorem conflict_comm (c d : Cmd) : conflict c d = conflict d c := Bool.or_comm _ _

theorem not_mem_paths {c d : Cmd} (h : conflict c d = false) {p : Str} (hp : p ∈ written c) :
    p ∉ paths d := by
  intro hd
  rw [conflict, Bool.or_eq_false_iff, List.any_eq_false] at h
  exact h.1 p hp (decide_eq_true hd)

theorem written_subset_paths (c : Cmd) {p : Str} (h : p ∈ written c) : p ∈ paths c := by
  cases c with
  | readFile q => cases h
  | writeConfig r x => exact h
  | deleteConfig r => exact h

/-- Container calls that do not conflict commute. -/
theorem sound_conflict : Sound box conflict := by
  intro c d s h
  have h' : conflict d c = false := by rw [conflict_comm]; exact h
  refine ⟨exec_congr c fun p hp => exec_apply (fun hd => not_mem_paths h' hd hp) s,
    exec_congr d fun p hp => exec_apply (fun hc => not_mem_paths h hc hp) s, funext fun p => ?_⟩
  by_cases hp : p ∈ written c
  · have hd : p ∉ written d := fun hd => not_mem_paths h hp (written_subset_paths d hd)
    rw [exec_apply hd]
    exact exec_written hp _ _
  · rw [exec_apply hp]
    by_cases hq : p ∈ written d
    · exact exec_written hq _ _
    · rw [exec_apply hq, exec_apply hq, exec_apply hp]

/-! ## Two edits -/

section
variable (compile : Str → Compiled) (a b : Edit) (st : Files)

/-- Both edits are over, and both succeeded. -/
def BothOk (s : Pair Cmd Reply ApiError Unit Files) : Prop :=
  ∀ w, result (s.prog w) = some (.ok ())

/-- The files are those that the two edits leave one after the other, both
successful there as well. -/
def Serialised (s : Pair Cmd Reply ApiError Unit Files) : Prop :=
  ∃ w, serialRun box st (sides compile a b) w = (.ok (), .ok (), s.st)

/-- **No update is lost** where the conflicts of the two edits, in the order
they ran in, all point from one to the other. -/
theorem serialised_of_oneWay (s : Pair Cmd Reply ApiError Unit Files)
    (hs : (lts box st (sides compile a b)).Reachable s) (hok : BothOk s)
    (ho : OneWay conflict s.trace) : Serialised compile a b st s := by
  rcases ho with h | h
  · exact ⟨true, outcome sound_conflict hs h (hok true) (hok _)⟩
  · exact ⟨false, outcome sound_conflict hs h (hok false) (hok _)⟩

end

/-! ## Two system aliases -/

def noFiles : Files := fun _ => none

/-- No pattern is compiled here. -/
def compileNone : Str → Compiled := fun _ => .ok

def root : Edit := .createSystemAlias "root".toList ["a@x.org".toList]

def abuse : Edit := .createSystemAlias "abuse".toList ["b@x.org".toList]

/-- The alias file after both, and with one of them lost. -/
def bothAliases : Str := managed ["abuse: b@x.org".toList, "root: a@x.org".toList]

def onlyAbuse : Str := managed ["abuse: b@x.org".toList]

/-- Both succeeded, and the alias file holds `content`. -/
def bothOkWith (content : Str) (s : Pair Cmd Reply ApiError Unit Files) : Bool :=
  (result (s.prog false)).any Except.isOk && (result (s.prog true)).any Except.isOk &&
    s.st (configPath systemAliasesFilename) = some content

theorem bothOk_of {content : Str} {s : Pair Cmd Reply ApiError Unit Files}
    (h : bothOkWith content s = true) :
    BothOk s ∧ s.st (configPath systemAliasesFilename) = some content := by
  simp only [bothOkWith, Bool.and_eq_true, decide_eq_true_eq] at h
  obtain ⟨⟨hf, ht⟩, hc⟩ := h
  refine ⟨fun w => ?_, hc⟩
  have hw : (result (s.prog w)).any Except.isOk = true := by cases w <;> assumption
  cases hr : result (s.prog w) with
  | none => rw [hr] at hw; cases hw
  | some r =>
    cases r with
    | ok _ => rfl
    | error e => rw [hr] at hw; cases hw

/-- One edit after the other. -/
theorem serialised_of_oneWay_turns :
    ∃ s, s.st (configPath systemAliasesFilename) = some bothAliases ∧
      Serialised compileNone root abuse noFiles s := by
  obtain ⟨s, hs, hp⟩ := reachable_of_schedule box noFiles (sides compileNone root abuse)
    [false, false, true, true]
    (fun s => bothOkWith bothAliases s && OneWay conflict s.trace) (by decide +kernel)
  rw [Bool.and_eq_true, decide_eq_true_eq] at hp
  obtain ⟨hok, hc⟩ := bothOk_of hp.1
  exact ⟨s, hc, serialised_of_oneWay compileNone root abuse noFiles s hs hok hp.2⟩

/-- Both read the file before either writes it: both succeed, and the first to
write loses its alias, which it does in neither order. -/
theorem alias_lost :
    ∃ s, (lts box noFiles (sides compileNone root abuse)).Reachable s ∧ BothOk s ∧
      s.st (configPath systemAliasesFilename) = some onlyAbuse ∧
      ∀ w, (serialRun box noFiles (sides compileNone root abuse) w).2.2
        (configPath systemAliasesFilename) ≠ s.st (configPath systemAliasesFilename) := by
  obtain ⟨s, hs, hp⟩ := reachable_of_schedule box noFiles (sides compileNone root abuse)
    [false, true, false, true] (bothOkWith onlyAbuse) (by decide +kernel)
  obtain ⟨hok, hc⟩ := bothOk_of hp
  refine ⟨s, hs, hok, hc, fun w => ?_⟩
  have hserial : (serialRun box noFiles (sides compileNone root abuse) w).2.2
      (configPath systemAliasesFilename) = some bothAliases := by
    cases w <;> decide +kernel
  rw [hserial, hc]
  decide +kernel

end MailserverUi.L5.LostUpdate

import MailserverUi.Core.LTS
import MailserverUi.L3Service.DkimGenerate
import MailserverUi.L4App.RestartAreas
import MailserverUi.L4App.WatchedFiles

/-!
# Runs of requests, and what waits for a restart

Any sequence of requests of the mailserver, fail2ban and mailboxes routers, each
with the container command that fails, if one does. `changed` collects the config
files that a request has changed since the last restart or dismissal.

Twelve endpoints mark their area. The others do not: those that add and delete
restrictions and Sieve filters of mailboxes, and the one that generates DKIM
keys, write files that are not watched live.

Results:
* `listed_of_accounted`: every changed file that is not watched has a pending
  action, in any run in which the requests that do not mark change no such file,
  and the ones that do are not interrupted between the write and the mark.
* `unlisted`: a restriction and a Sieve filter, both in place and neither listed.
-/
namespace MailserverUi.L4.PendingRuns

open Py L2.Errors L2.Container L2.ConfigTree L3.MailserverService L3.Dkim L3.DkimGenerate
open L3.Fail2ban L3.PendingActions Edits RestartAreas WatchedFiles
open MailboxRuns (Op)

/-- The libraries the service functions call, and what the commands of the
container make of the config files. -/
structure Env where
  emailStr : Str → Option Str
  compile : Str → Compiled
  load : Str → PemKey
  readString : Str → Parsed
  setup : List Str → Tree → Tree

/-! ## Requests -/

/-- `view` stands for the endpoints that write no config file. -/
inductive Request where
  | setting (w : Setting)
  | edit (e : Edit)
  | mailbox (op : Op)
  | generateDkim (payload : DkimGenerateRequest)
  | view (p : TreeIo Unit) (h : p.Issues (TreeCmd.WritesIn fun _ => False))

/-- The config files, the pending actions, and the config files that were
changed since the last restart or dismissal. -/
structure State where
  tree : Tree
  rows : Rows
  changed : Str → Prop

section
variable (env : Env)

def Request.prog : Request → ShellIo Unit
  | .setting w => onShell (w.prog env.load env.readString)
  | .edit e => onShell (onTree (e.prog env.compile))
  | .mailbox op => onShell (onTree (op.prog env.emailStr))
  | .generateDkim payload => (L3.DkimGenerate.generateDkim payload).void
  | .view p _ => onShell p

/-- What a request that returns has recorded. -/
def Request.mark (rows : Rows) : Request → Rows
  | .setting w => w.mark rows
  | _ => rows

/-- The file is not as it was. -/
def Changes (t t' : Tree) (f : Str) : Prop :=
  filesOf t' (configPath f) ≠ filesOf t (configPath f)

instance (t t' : Tree) (f : Str) : Decidable (Changes t t' f) :=
  inferInstanceAs (Decidable (_ ≠ _))

/-- The state after a request whose command after the first `n` fails, for
`some n`. -/
def serve (s : State) (r : Request) (fails : Option Nat) : State :=
  let p := r.prog env
  let t := p.stop (shell env.setup) fails s.tree
  { tree := t
    rows := if p.returns (shell env.setup) fails s.tree then r.mark s.rows else s.rows
    changed := fun f => s.changed f ∨ Changes s.tree t f }

inductive Step where
  | request (r : Request) (fails : Option Nat)
  | restart
  | clearAll
  | clear (key : Str)

/-- Only a command that is issued can fail.
mirrors backend/app/routers/mailserver.py:90-101 and
backend/app/routers/pending_actions.py:36-45 -/
def next (s : State) : Step → Option State
  | .request r fails =>
    if fails.all fun n => n < (r.prog env).steps (shell env.setup) s.tree then
      some (serve env s r fails)
    else none
  | .restart | .clearAll => some ⟨s.tree, L3.PendingActions.clearAll s.rows, fun _ => False⟩
  | .clear key => some ⟨s.tree, L3.PendingActions.clear s.rows key, fun _ => False⟩

def system : LTS State Step := LTS.ofFn (fun s => ∀ f, ¬ s.changed f) (next env)

/-! ## Requests that keep the books -/

/-- A request that marks is safe from its write on, or its area has a row. One
that does not mark changes no file but those that are watched, or have a row. -/
def Accounted (s : State) : Step → Prop
  | .request (.setting w) fails => w.area.key ∈ s.rows.keys ∨ w.Safe env.load s.tree fails
  | .request (.edit e) fails => EditKept (filesOf s.tree) fails e
  | .request (.mailbox op) fails => SieveKept (filesOf s.tree) fails op
  | .request (.generateDkim payload) fails => fails = some 0 ∨
      ∀ args, generateArgs payload = .ok args →
        ∀ f, Changes s.tree (env.setup args s.tree) f → Touched Watched f ∨ Listed s.rows f
  | _ => True

/-- Every changed file that is not watched, and not the scratch name of one that is,
has a pending action. -/
def Booked (s : State) : Prop := ∀ f, s.changed f → ¬ Touched Watched f → Listed s.rows f

variable {env}

/-- A request without a failing command is always a step. -/
theorem next_request (s : State) (r : Request) :
    next env s (.request r none) = some (serve env s r none) := rfl

theorem listed_serve {s : State} {f : Str} (h : Listed s.rows f) (r : Request)
    (fails : Option Nat) : Listed (serve env s r fails).rows f := by
  unfold serve
  dsimp only
  split
  · cases r with
    | setting w => exact h.mark _ _ _
    | _ => exact h
  · exact h

/-- What a request changes is watched, or listed after it. -/
theorem tree_generateDkim (s : State) (payload : DkimGenerateRequest) (fails : Option Nat) :
    (serve env s (.generateDkim payload) fails).tree =
      match generateArgs payload with
      | .error _ => s.tree
      | .ok args => if fails = some 0 then s.tree else env.setup args s.tree :=
  (Prog.stop_void _ _).trans (stop_generateDkim _ _ _ _)

theorem listed_of_changes {s : State} {r : Request} {fails : Option Nat} {f : Str}
    (ha : Accounted env s (.request r fails))
    (hn : ∀ n, fails = some n → n < (r.prog env).steps (shell env.setup) s.tree)
    (hc : Changes s.tree (serve env s r fails).tree f) (hf : ¬ Touched Watched f) :
    Listed (serve env s r fails).rows f := by
  cases r with
  | setting w =>
    have ht : (serve env s (.setting w) fails).tree =
        (w.prog env.load env.readString).stop treeBox fails s.tree := stop_onShell _ _ _ _
    have hr : (serve env s (.setting w) fails).rows =
        if (w.prog env.load env.readString).returns treeBox fails s.tree then w.mark s.rows
        else s.rows := by
      rw [← returns_onShell env.setup]
      rfl
    have hn (n : Nat) (h : fails = some n) := (hn n h).trans_eq (steps_onShell _ _ _)
    rw [Changes, ht] at hc
    rw [hr]
    exact listed_setting ha hn hc
  | edit e =>
    have ht : (serve env s (.edit e) fails).tree =
        (onTree (e.prog env.compile)).stop treeBox fails s.tree := stop_onShell _ _ _ _
    have hn (n : Nat) (h : fails = some n) :=
      ((hn n h).trans_eq (steps_onShell _ _ _)).trans_eq (steps_onTree _ _)
    rw [Changes, ht, stop_onTree] at hc
    exact absurd (stop_edit ha hn hf) hc
  | mailbox op =>
    have ht : (serve env s (.mailbox op) fails).tree =
        (onTree (op.prog env.emailStr)).stop treeBox fails s.tree := stop_onShell _ _ _ _
    have hn (n : Nat) (h : fails = some n) :=
      ((hn n h).trans_eq (steps_onShell _ _ _)).trans_eq (steps_onTree _ _)
    rw [Changes, ht, stop_onTree] at hc
    exact absurd (stop_mailbox ha hn hf) hc
  | generateDkim payload =>
    refine listed_serve ?_ _ fails
    rw [Changes, tree_generateDkim] at hc
    cases hg : generateArgs payload with
    | error e =>
      rw [hg] at hc
      exact absurd rfl hc
    | ok args =>
      rw [hg] at hc
      simp only at hc
      split at hc
      · exact absurd rfl hc
      · rename_i hz
        exact (ha.resolve_left hz args hg f hc).resolve_left hf
  | view p h =>
    have ht : (serve env s (.view p h) fails).tree = p.stop treeBox fails s.tree :=
      stop_onShell _ _ _ _
    rw [Changes, ht] at hc
    exact absurd (filesOf_stop h not_touched_false fails s.tree) hc

theorem booked_inductive : ((system env).guard (Accounted env)).Inductive Booked where
  init _ h f hf := absurd hf (h f)
  step s l s' hb h := by
    obtain ⟨ha, h⟩ := h
    intro f hf hw
    cases l with
    | request r fails =>
      obtain ⟨hn, hs⟩ := Option.ite_none_right_eq_some.mp h
      cases hs
      rcases hf with hf | hc
      · exact listed_serve (hb f hf hw) r fails
      · refine listed_of_changes ha (fun n e => ?_) hc hw
        rw [e] at hn
        exact of_decide_eq_true hn
    | restart =>
      cases h
      exact absurd hf id
    | clearAll =>
      cases h
      exact absurd hf id
    | clear key =>
      cases h
      exact absurd hf id

/-- **Every config file that was changed and is not watched has a pending
action**, in any run of requests that keep the books. -/
theorem listed_of_accounted (env : Env) (s : State)
    (h : ((system env).guard (Accounted env)).Reachable s) : Booked s :=
  booked_inductive.reachable s h

end

/-! ## Two requests -/

def plain : Env where
  emailStr := some
  compile _ := .ok
  load _ := .raises
  readString _ := .ok
  setup _ t := t

/-- One account, and nothing waits. -/
def oneAccount : State :=
  ⟨Dict.ofPairs [(configPath L3.MailboxService.accountsFilename, "a@x.org|h\n".toList)],
    Dict.empty, fun _ => False⟩

/-- The state after two requests without a failing command. -/
def afterTwo (a b : Request) : State := serve plain (serve plain oneAccount a none) b none

theorem run_afterTwo (a b : Request) :
    (system plain).Run oneAccount [.request a none, .request b none] (afterTwo a b) :=
  .cons (next_request _ a) (.cons (next_request _ b) (.nil _))

/-- A restriction that is refused, and a Dovecot override. -/
def refusedRestriction : Request := .edit (.addRestriction "send".toList "nobody".toList)

def dovecotOverride : Request := .setting (.dovecotConfig ['x'])

theorem listed_of_accounted_override :
    (afterTwo refusedRestriction dovecotOverride).changed L3.ConfigBodies.dovecotConfigFilename ∧
      Listed (afterTwo refusedRestriction dovecotOverride).rows
        L3.ConfigBodies.dovecotConfigFilename := by
  have hc : (afterTwo refusedRestriction dovecotOverride).changed
      L3.ConfigBodies.dovecotConfigFilename := .inr (by decide +kernel)
  have hrefused : Accounted plain oneAccount (.request refusedRestriction none) :=
    .inr fun h => absurd h.1 (by decide +kernel)
  have hsafe : Accounted plain (serve plain oneAccount refusedRestriction none)
      (.request dovecotOverride none) := .inr fun n h => absurd h.symm (Option.some_ne_none n)
  have hrun : ((system plain).guard (Accounted plain)).Run oneAccount
      [.request refusedRestriction none, .request dovecotOverride none]
      (afterTwo refusedRestriction dovecotOverride) :=
    .cons ⟨hrefused, next_request _ _⟩ (.cons ⟨hsafe, next_request _ _⟩ (.nil _))
  exact ⟨hc, listed_of_accounted plain _ ⟨oneAccount, _, fun _ h => h, hrun⟩ _ hc
    (not_touched (by decide) (by decide))⟩

/-- A restriction, and the Sieve filter of the mailbox. -/
def restriction : Request := .edit (.addRestriction "send".toList "a@x.org".toList)

def sieveFilter : Request := .mailbox (.setSieveScript "a@x.org".toList "keep;".toList)

/-- Both requests succeed. Both have changed a file that is not watched, and
nothing waits for a restart. -/
theorem unlisted :
    ∃ s, (system plain).Reachable s ∧ s.rows.keys = [] ∧
      ∀ f ∈ ["postfix-send-access.cf".toList, "a@x.org.dovecot.sieve".toList],
        s.changed f ∧ ¬ Touched Watched f ∧ ¬ Listed s.rows f := by
  have hrows : (afterTwo restriction sieveFilter).rows.keys = [] := by decide +kernel
  refine ⟨_, ⟨oneAccount, _, fun _ h => h, run_afterTwo restriction sieveFilter⟩, hrows, ?_⟩
  have hnone (f : Str) : ¬ Listed (afterTwo restriction sieveFilter).rows f := fun ⟨a, ha, _⟩ => by
    rw [hrows] at ha
    exact absurd ha List.not_mem_nil
  intro f hf
  simp only [List.mem_cons, List.not_mem_nil, or_false] at hf
  rcases hf with rfl | rfl
  · exact ⟨.inl (.inr (by decide +kernel)), not_touched (by decide) (by decide), hnone _⟩
  · exact ⟨.inr (by decide +kernel), not_touched (by decide) (by decide), hnone _⟩

end MailserverUi.L4.PendingRuns

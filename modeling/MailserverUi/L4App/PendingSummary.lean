import MailserverUi.L4App.PendingRuns

/-!
# The list of pending actions

`summary` checks the lengths of a row again, which nothing has checked when the
row was marked. The key of the row for an Rspamd override file has the name of
the file in it, and the pattern of such names has no bound.

Results:
* `readable_mark_iff`: the row that an endpoint marks can be read, unless it has
  the name of an override file of more than 112 characters.
* `summarised_of_short`: in every state of every run without such a name, all
  pending actions are returned.
* `unreadable_summary`: one long name, and none is.
-/
namespace MailserverUi.L4.PendingSummary

open Py L2.Errors L2.Container L2.ConfigTree L3.DkimGenerate L3.PendingActions Edits RestartAreas
open PendingRuns

/-! ## One row -/

theorem key_fixed {a : Area} (h : a ∈ fixedAreas) : a.key.length ≤ 128 := by
  have hall : ∀ a ∈ fixedAreas, a.key.length ≤ 128 := by decide
  exact hall a h

theorem length_key (name : Str) : (Area.key (.rspamdOverride name)).length = 16 + name.length := by
  have hprefix : "rspamd-override-".toList.length = 16 := by decide
  exact List.length_append.trans (congrArg (· + name.length) hprefix)

/-- The title of an endpoint for the override file `name`. -/
theorem length_overrideTitle (suffix : Str) (h : suffix.length = 9) (name : Str) :
    ("Rspamd override file '".toList ++ name ++ suffix).length = 31 + name.length := by
  have hprefix : "Rspamd override file '".toList.length = 22 := by decide
  rw [List.length_append, List.length_append, hprefix, h]
  omega

theorem length_spamScopeTitle (scope : L3.ConfigBodies.SpamConfigScope) :
    (spamScopeTitle scope).length ≤ 41 := by
  cases scope <;> decide

/-- The other titles are short. -/
theorem length_title (w : Setting) :
    w.title.length ≤ 41 ∨
      ∃ name, w.area = .rspamdOverride name ∧ w.title.length = 31 + name.length := by
  cases w with
  | rspamdOverrideFile name content =>
    exact .inr ⟨name, rfl, length_overrideTitle "' changed".toList (by decide) name⟩
  | deleteRspamdOverrideFile name =>
    exact .inr ⟨name, rfl, length_overrideTitle "' deleted".toList (by decide) name⟩
  | sieveScript scope content =>
    refine .inl ?_
    change ("Global Sieve script (".toList ++ scope.text ++ ") changed".toList).length ≤ 41
    cases scope <;> decide
  | ldapConfig scope content =>
    refine .inl ?_
    change ("LDAP ".toList ++ scope.text ++ " map changed".toList).length ≤ 41
    cases scope <;> decide
  | spamConfig scope content => exact .inl (length_spamScopeTitle scope)
  | postfixOverrides _ => exact .inl (show "Postfix overrides changed".toList.length ≤ 41 by decide)
  | postfixMasterOverrides _ =>
    exact .inl (show "Postfix master overrides changed".toList.length ≤ 41 by decide)
  | dovecotConfig _ => exact .inl (show "Dovecot configuration changed".toList.length ≤ 41 by decide)
  | migrateDkim => exact .inl (show "DKIM keys migrated to Rspamd".toList.length ≤ 41 by decide)
  | rspamdOverrides _ =>
    exact .inl (show "Rspamd custom commands changed".toList.length ≤ 41 by decide)
  | fail2banPolicy _ => exact .inl (show "Fail2ban ban policy changed".toList.length ≤ 41 by decide)
  | fail2banConfig _ =>
    exact .inl (show "Fail2ban configuration changed".toList.length ≤ 41 by decide)

/-- The row that an endpoint marks can be read, unless a long name is in it. -/
theorem readable_mark_iff (w : Setting) :
    Readable (w.area.key, ⟨w.title, []⟩) ↔
      ∀ name, w.area = .rspamdOverride name → name.length ≤ 112 := by
  constructor
  · rintro ⟨hkey, -, -⟩ name hname
    rw [hname, length_key] at hkey
    omega
  · intro h
    have hkey : w.area.key.length ≤ 128 := by
      rcases fixed_or_override w.area with hf | ⟨name, hname⟩
      · exact key_fixed hf
      · have := h name hname
        rw [hname, length_key]
        omega
    have htitle : w.title.length ≤ 255 := by
      rcases length_title w with ht | ⟨name, hname, ht⟩
      · omega
      · have := h name hname
        omega
    exact ⟨hkey, htitle, Nat.zero_le _⟩

/-! ## Runs -/

def AllReadable (rows : Rows) : Prop := ∀ p ∈ rows.items, Readable p

section
variable (env : Env)

/-- The rows that are there at the start can be read. -/
def system : LTS State Step := LTS.ofFn (fun s => AllReadable s.rows) (PendingRuns.next env)

/-- A request for an override file that returns has a name of up to 112
characters. -/
def Short (s : State) : Step → Prop
  | .request (.setting w) fails =>
    (Request.setting w).prog env |>.returns (shell env.setup) fails s.tree →
      ∀ name, w.area = .rspamdOverride name → name.length ≤ 112
  | _ => True

theorem allReadable_mark {rows : Rows} (h : AllReadable rows) (w : Setting) :
    AllReadable (w.mark rows) ↔ ∀ name, w.area = .rspamdOverride name → name.length ≤ 112 := by
  rw [← readable_mark_iff]
  constructor
  · exact fun hall => hall _ (mem_items_mark.mpr (.inl rfl))
  · intro hrow p hp
    rcases mem_items_mark.mp hp with rfl | ⟨hold, -⟩
    · exact hrow
    · exact h p hold

/-- One request, whether it returns or not. -/
theorem allReadable_serve {s : State} (h : AllReadable s.rows) (r : Request)
    (fails : Option Nat) :
    AllReadable (serve env s r fails).rows ↔ Short env s (.request r fails) := by
  unfold serve Short
  cases r with
  | setting w =>
    dsimp only
    split
    · rename_i hr
      exact (allReadable_mark h w).trans ⟨fun hn _ => hn, fun hn => hn hr⟩
    · rename_i hr
      exact iff_of_true h fun hret => absurd hret hr
  | _ =>
    dsimp only
    split <;> exact iff_of_true h trivial

theorem allReadable_inductive :
    ((system env).guard (Short env)).Inductive fun s => AllReadable s.rows where
  init := fun _ h => h
  step := fun s l s' h hst => by
    obtain ⟨hshort, hnext⟩ := hst
    cases l with
    | request r fails =>
      obtain ⟨-, hs⟩ := Option.ite_none_right_eq_some.mp hnext
      cases hs
      exact (allReadable_serve env h r fails).mpr hshort
    | restart =>
      cases hnext
      exact fun p hp => absurd hp List.not_mem_nil
    | clearAll =>
      cases hnext
      exact fun p hp => absurd hp List.not_mem_nil
    | clear key =>
      cases hnext
      exact fun p hp => h p (List.mem_filter.mp hp).1

/-- All the pending actions are returned, in whatever order their times put
them. -/
def Summarised (rows : Rows) : Prop :=
  ∀ items : List (Str × PendingAction), items.Perm rows.items →
    summary items = some ⟨items.map PendingActionPublic.ofRow, rows.items.length⟩

theorem summarised_iff {rows : Rows} : Summarised rows ↔ AllReadable rows := by
  constructor
  · intro h
    have hsum := h rows.items (.refl _)
    rw [summary_eq] at hsum
    exact (Option.ite_none_right_eq_some.mp hsum).1
  · intro h items hperm
    rw [summary_eq, if_pos fun p hp => h p (hperm.mem_iff.mp hp), hperm.length_eq]

/-- **All pending actions are returned** in every state of every run in which the
override files that are written and deleted have names of up to 112
characters. -/
theorem summarised_of_short (s : State) (h : ((system env).guard (Short env)).Reachable s) :
    Summarised s.rows :=
  summarised_iff.mpr ((allReadable_inductive env).reachable s h)

end

/-! ## Two names -/

/-- The state after one override file is written. -/
def afterOverride (name : Str) : State :=
  serve plain oneAccount (.setting (.rspamdOverrideFile name [])) none

theorem summarised_of_short_name :
    Summarised (afterOverride "actions.conf".toList).rows := by
  have hshort : Short plain oneAccount
      (.request (.setting (.rspamdOverrideFile "actions.conf".toList [])) none) := by
    intro _ name hname
    cases hname
    decide +kernel
  have hrun : ((system plain).guard (Short plain)).Run oneAccount
      [.request (.setting (.rspamdOverrideFile "actions.conf".toList [])) none]
      (afterOverride "actions.conf".toList) :=
    .cons ⟨hshort, next_request _ _⟩ (.nil _)
  exact summarised_of_short plain _
    ⟨oneAccount, _, fun p hp => absurd hp List.not_mem_nil, hrun⟩

/-- A name of 113 characters. -/
def longName : Str := List.replicate 108 'a' ++ ".conf".toList

/-- The file is written, and no pending action is returned. -/
theorem unreadable_summary : (system plain).Reachable (afterOverride longName) ∧
    ((Request.setting (.rspamdOverrideFile longName [])).prog plain).returns
      (shell plain.setup) none oneAccount.tree = true ∧
    (afterOverride longName).rows.keys = [Area.key (.rspamdOverride longName)] ∧
    summary (afterOverride longName).rows.items = none ∧
    ¬ Summarised (afterOverride longName).rows := by
  have hnone : summary (afterOverride longName).rows.items = none := by decide +kernel
  refine ⟨⟨oneAccount, _, fun p hp => absurd hp List.not_mem_nil,
    .cons (next_request _ _) (.nil _)⟩, by decide +kernel, by decide +kernel, hnone, fun h => ?_⟩
  have hsum := h _ (.refl _)
  rw [hnone] at hsum
  cases hsum

end MailserverUi.L4.PendingSummary

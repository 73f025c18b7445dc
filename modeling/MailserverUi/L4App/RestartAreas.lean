import MailserverUi.L3Service.ConfigBodies
import MailserverUi.L3Service.Fail2ban
import MailserverUi.L3Service.Overrides
import MailserverUi.L3Service.PendingActions
import MailserverUi.L4App.DkimFailure

/-!
# Areas of the configuration that wait for a restart

Twelve endpoints of the mailserver and fail2ban routers call a service function
and then `mark_restart_required` with the key of the area they have written to.

Results:
* `key_injective`: an area has a key of its own, so that a row stands for one
  area.
* `filesOf_stop_setting`: an endpoint leaves every file outside its area alone.
* `stop_setting`: one that raises has changed no file, unless a command fails
  after its write, or a migration meets a key that is no RSA key.
-/
namespace MailserverUi.L4.RestartAreas

open Py L1.ServerFiles L2.Errors L2.Container L2.ConfigTree L3.MailserverService L3.Settings
open L3.Rspamd L3.Overrides L3.ConfigBodies L3.Fail2ban L3.Dkim L3.PendingActions DkimFailure

/-! ## Areas -/

inductive Area where
  | postfixMain
  | postfixMaster
  | dovecotConfig
  | dkimMigration
  | sieve (scope : SieveScope)
  | spam (scope : SpamConfigScope)
  | rspamdCommands
  | rspamdOverride (name : Str)
  | ldap (scope : LdapScope)
  | fail2banPolicy
  | fail2banConfig
  deriving DecidableEq, Repr

/-- mirrors backend/app/routers/mailserver.py:174,196,219,310,363,391,415,430,444,467 and
backend/app/routers/fail2ban.py:82,100 -/
def Area.key : Area → Str
  | .postfixMain => "postfix-main".toList
  | .postfixMaster => "postfix-master".toList
  | .dovecotConfig => "dovecot-config".toList
  | .dkimMigration => "dkim-migration".toList
  | .sieve scope => "sieve-".toList ++ scope.text
  | .spam scope => "spam-".toList ++ scope.text
  | .rspamdCommands => "rspamd-commands".toList
  | .rspamdOverride name => "rspamd-override-".toList ++ name
  | .ldap scope => "ldap-".toList ++ scope.text
  | .fail2banPolicy => "fail2ban-policy".toList
  | .fail2banConfig => "fail2ban-config".toList

/-- The files of an area. -/
def Area.Holds : Area → Str → Prop
  | .postfixMain, f => f = postfixMainFilename
  | .postfixMaster, f => f = postfixMasterFilename
  | .dovecotConfig, f => f = dovecotConfigFilename
  | .dkimMigration, f => f = rspamdDkimSigningConf ∨ rspamdDkimDir ++ ['/'] <+: f
  | .sieve scope, f => f = L3.ConfigBodies.sieveFilename scope
  | .spam scope, f => f = spamConfigFilename scope
  | .rspamdCommands, f => f = rspamdCommandsFilename
  | .rspamdOverride name, f => f = rspamdOverrideFilename name
  | .ldap scope, f => f = ldapFilename scope
  | .fail2banPolicy, f => f = jailFilename
  | .fail2banConfig, f => f = configFilename

/-- A file of an area that has a row, or what a write of one has used up. -/
def Listed (rows : Rows) (f : Str) : Prop := ∃ a : Area, a.key ∈ rows.keys ∧ Touched a.Holds f

theorem Listed.mark {rows : Rows} {f : Str} (h : Listed rows f) (key title detail : Str) :
    Listed (markRestartRequired rows key title detail) f := by
  obtain ⟨a, ha, hf⟩ := h
  exact ⟨a, mem_keys_mark.mpr (.inr ha), hf⟩

theorem listed_mark {a : Area} {f : Str} (h : Touched a.Holds f) (rows : Rows) (title detail : Str) :
    Listed (markRestartRequired rows a.key title detail) f :=
  ⟨a, mem_keys_mark.mpr (.inl rfl), h⟩

/-- The areas but those of the override files. -/
def fixedAreas : List Area :=
  [.postfixMain, .postfixMaster, .dovecotConfig, .dkimMigration, .sieve .before, .sieve .after,
    .spam .rules, .spam .whitelistClients, .spam .whitelistRecipients, .spam .amavis,
    .rspamdCommands, .ldap .users, .ldap .groups, .ldap .aliases, .ldap .domains, .fail2banPolicy,
    .fail2banConfig]

theorem fixed_or_override (a : Area) : a ∈ fixedAreas ∨ ∃ name, a = .rspamdOverride name := by
  cases a with
  | rspamdOverride name => exact .inr ⟨name, rfl⟩
  | sieve scope => cases scope <;> exact .inl (by decide)
  | spam scope => cases scope <;> exact .inl (by decide)
  | ldap scope => cases scope <;> exact .inl (by decide)
  | _ => exact .inl (by decide)

/-- No other key begins like those of the override files. -/
theorem key_ne_override {a : Area} (h : a ∈ fixedAreas) (name : Str) :
    a.key ≠ Area.key (.rspamdOverride name) := by
  intro e
  have hp : "rspamd-override-".toList <+: a.key := e ▸ List.prefix_append _ _
  have hall : ∀ a ∈ fixedAreas, ¬ "rspamd-override-".toList <+: a.key := by decide
  exact hall a h hp

theorem key_injective : Function.Injective Area.key := by
  intro a b h
  rcases fixed_or_override a with ha | ⟨n, rfl⟩
  · rcases fixed_or_override b with hb | ⟨m, rfl⟩
    · have hall : ∀ a ∈ fixedAreas, ∀ b ∈ fixedAreas, a.key = b.key → a = b := by decide
      exact hall a ha b hb h
    · exact absurd h (key_ne_override ha m)
  · rcases fixed_or_override b with hb | ⟨m, rfl⟩
    · exact absurd h.symm (key_ne_override hb n)
    · rw [List.append_cancel_left h]

/-! ## Endpoints -/

inductive Setting where
  | postfixOverrides (overrides : List PostfixOverride)
  | postfixMasterOverrides (overrides : List PostfixMasterOverride)
  | dovecotConfig (content : Str)
  | migrateDkim
  | sieveScript (scope : SieveScope) (content : Str)
  | spamConfig (scope : SpamConfigScope) (content : Str)
  | rspamdOverrides (commands : List RspamdCommand)
  | rspamdOverrideFile (name content : Str)
  | deleteRspamdOverrideFile (name : Str)
  | ldapConfig (scope : LdapScope) (content : Str)
  | fail2banPolicy (payload : Fail2banPolicyUpdate)
  | fail2banConfig (content : Str)

def Setting.area : Setting → Area
  | .postfixOverrides _ => .postfixMain
  | .postfixMasterOverrides _ => .postfixMaster
  | .dovecotConfig _ => .dovecotConfig
  | .migrateDkim => .dkimMigration
  | .sieveScript scope _ => .sieve scope
  | .spamConfig scope _ => .spam scope
  | .rspamdOverrides _ => .rspamdCommands
  | .rspamdOverrideFile name _ | .deleteRspamdOverrideFile name => .rspamdOverride name
  | .ldapConfig scope _ => .ldap scope
  | .fail2banPolicy _ => .fail2banPolicy
  | .fail2banConfig _ => .fail2banConfig

/-- mirrors backend/app/routers/mailserver.py:78-83 -/
def spamScopeTitle : SpamConfigScope → Str
  | .rules => "SpamAssassin rules changed".toList
  | .whitelistClients => "Postgrey client whitelist changed".toList
  | .whitelistRecipients => "Postgrey recipient whitelist changed".toList
  | .amavis => "Amavis overrides changed".toList

def Setting.title : Setting → Str
  | .postfixOverrides _ => "Postfix overrides changed".toList
  | .postfixMasterOverrides _ => "Postfix master overrides changed".toList
  | .dovecotConfig _ => "Dovecot configuration changed".toList
  | .migrateDkim => "DKIM keys migrated to Rspamd".toList
  | .sieveScript scope _ => "Global Sieve script (".toList ++ scope.text ++ ") changed".toList
  | .spamConfig scope _ => spamScopeTitle scope
  | .rspamdOverrides _ => "Rspamd custom commands changed".toList
  | .rspamdOverrideFile name _ => "Rspamd override file '".toList ++ name ++ "' changed".toList
  | .deleteRspamdOverrideFile name =>
    "Rspamd override file '".toList ++ name ++ "' deleted".toList
  | .ldapConfig scope _ => "LDAP ".toList ++ scope.text ++ " map changed".toList
  | .fail2banPolicy _ => "Fail2ban ban policy changed".toList
  | .fail2banConfig _ => "Fail2ban configuration changed".toList

/-- The second step of an endpoint. -/
def Setting.mark (w : Setting) (rows : Rows) : Rows :=
  markRestartRequired rows w.area.key w.title []

section
variable (load : Str → PemKey) (readString : Str → Parsed)

/-- The first step of an endpoint: the service function. -/
def Setting.prog : Setting → TreeIo Unit
  | .postfixOverrides overrides => (onTree (setPostfixOverrides overrides)).void
  | .postfixMasterOverrides overrides => (onTree (setPostfixMasterOverrides overrides)).void
  | .dovecotConfig content => (onTree (setDovecotConfig content)).void
  | .migrateDkim => (migrateDkimToRspamd load).void
  | .sieveScript scope content => (onTree (L3.ConfigBodies.setSieveScript scope content)).void
  | .spamConfig scope content => (onTree (setSpamConfig scope content)).void
  | .rspamdOverrides commands => (setRspamdOverrides commands).void
  | .rspamdOverrideFile name content => (setRspamdOverrideFile name content).void
  | .deleteRspamdOverrideFile name => L3.ConfigBodies.deleteRspamdOverrideFile name
  | .ldapConfig scope content => (onTree (setLdapConfig scope content)).void
  | .fail2banPolicy payload => (onTree (setPolicy payload)).void
  | .fail2banConfig content => (onTree (setConfig readString content)).void

end

/-! ## What an endpoint writes -/

section
variable {P : Cmd → Prop} {S : Str → Prop} {f : OverrideFile} {load : Str → PemKey}
  {readString : Str → Parsed}

theorem issues_cleanOverrides (overrides : List Override) (d : Dict Str Str) :
    (cleanOverrides f overrides d).Issues P := by
  induction overrides generalizing d with
  | nil => trivial
  | cons o overrides ih =>
    unfold cleanOverrides
    dsimp only
    split
    · exact ih d
    · split
      · trivial
      · exact ih _

theorem issues_setOverrides (h : S f.filename) (overrides : List Override) :
    (setOverrides f overrides).Issues (Cmd.WritesIn S) :=
  Prog.issues_bind (issues_cleanOverrides overrides _) fun _ =>
    Prog.issues_bind (Prog.issues_request h) fun _ => Prog.issues_ofOption

theorem issues_writeManagedBody {g : Str} (h : S g) (content : Str) :
    (writeManagedBody g content).Issues (Cmd.WritesIn S) := Prog.issues_request h

theorem issues_requireFields (d : L1.RspamdCommands.Directive)
    (fields : List L1.RspamdCommands.Field) :
    (requireFields d fields).Issues P := by
  induction fields with
  | nil => trivial
  | cons g fields ih => exact Prog.issues_bind Prog.issues_raiseIf fun _ => ih

theorem issues_validateAll (cs : List RspamdCommand) :
    (validateAll cs).Issues P := by
  induction cs with
  | nil => trivial
  | cons c cs ih =>
    refine Prog.issues_bind ?_ fun _ => Prog.issues_bind ih fun _ => trivial
    refine Prog.issues_bind (issues_requireFields _ _) fun _ => ?_
    refine Prog.issues_bind Prog.issues_raiseIf fun _ => ?_
    refine Prog.issues_bind Prog.issues_raiseIf fun _ => ?_
    exact Prog.issues_bind Prog.issues_raiseIf fun _ => trivial

theorem issues_readConfig (g : Str) : (onTree (readConfig g)).Issues (TreeCmd.WritesIn S) :=
  ⟨trivial, fun _ => trivial⟩

theorem issues_listFiles (relDir suffix : Str) :
    (listFiles relDir suffix).Issues (TreeCmd.WritesIn S) := ⟨trivial, fun _ => trivial⟩

theorem issues_rspamdOverrides (cs : List RspamdCommand) :
    (L3.Rspamd.rspamdOverrides cs).Issues (TreeCmd.WritesIn S) := by
  have hread (rels : List Str) :
      (rspamdOverrideFiles.readAll rels).Issues (TreeCmd.WritesIn S) := by
    induction rels with
    | nil => trivial
    | cons rel rels ih =>
      exact Prog.issues_bind ⟨trivial, fun _ => trivial⟩ fun _ => Prog.issues_bind ih fun _ => trivial
  refine Prog.issues_bind ⟨trivial, fun _ => trivial⟩ fun _ => ?_
  exact Prog.issues_bind (Prog.issues_bind (issues_listFiles _ _) hread) fun _ => trivial

theorem issues_setRspamdOverrides (h : S rspamdCommandsFilename) (cs : List RspamdCommand) :
    (setRspamdOverrides cs).Issues (TreeCmd.WritesIn S) :=
  Prog.issues_bind (issues_onTree (issues_validateAll cs)) fun _ =>
    Prog.issues_bind (Prog.issues_request h) fun _ => issues_rspamdOverrides _

theorem issues_checkLdapLines (lines : List Str) :
    (checkLdapLines lines).Issues P := by
  induction lines with
  | nil => trivial
  | cons line lines ih => exact Prog.issues_bind Prog.issues_raiseIf fun _ => ih

theorem issues_setLdapConfig {scope : LdapScope} (h : S (ldapFilename scope)) (content : Str) :
    (setLdapConfig scope content).Issues (Cmd.WritesIn S) := by
  have hview (c : Str) : (ldapView scope c).Issues (Cmd.WritesIn S) :=
    ⟨trivial, fun _ => ⟨trivial, fun _ => trivial⟩⟩
  unfold setLdapConfig
  dsimp only
  split
  · exact Prog.issues_bind (Prog.issues_request h) fun _ => hview _
  · exact Prog.issues_bind (issues_checkLdapLines _) fun _ =>
      Prog.issues_bind (issues_writeManagedBody h _) fun _ => hview _

theorem issues_ensureEnabled : ensureEnabled.Issues (Cmd.WritesIn S) :=
  Prog.issues_bind ⟨trivial, fun _ => trivial⟩ fun _ => Prog.issues_raiseIf

theorem issues_checkConfig (body : Str) : (checkConfig readString body).Issues P := by
  unfold checkConfig
  split
  · trivial
  · cases readString body <;> trivial

theorem issues_setConfig (h : S configFilename) (content : Str) :
    (setConfig readString content).Issues (Cmd.WritesIn S) := by
  refine Prog.issues_bind issues_ensureEnabled fun _ => ?_
  refine Prog.issues_bind (issues_checkConfig _) fun _ => ?_
  exact Prog.issues_bind (Prog.issues_request h) fun _ => trivial

/-! ### The migration -/

theorem issues_opendkimKeys : opendkimKeys.Issues (TreeCmd.WritesIn S) := by
  have hread (rels : List Str) : (readOpendkim rels).Issues (TreeCmd.WritesIn S) := by
    induction rels with
    | nil => trivial
    | cons rel rels ih =>
      unfold readOpendkim
      split
      · exact ih
      · exact Prog.issues_bind (issues_readConfig _) fun _ => Prog.issues_bind ih fun _ => trivial
  exact Prog.issues_bind (issues_listFiles _ _) hread

theorem issues_rspamdKeys : rspamdKeys.Issues (TreeCmd.WritesIn S) := by
  have hread (rels : List Str) : (readRspamd rels).Issues (TreeCmd.WritesIn S) := by
    induction rels with
    | nil => trivial
    | cons rel rels ih =>
      refine Prog.issues_bind (issues_readConfig _) fun raw => Prog.issues_bind ih fun _ => ?_
      split <;> trivial
  exact Prog.issues_bind (issues_listFiles _ _) hread

theorem issues_dkimBackend : (onTree dkimBackend).Issues (TreeCmd.WritesIn S) :=
  ⟨trivial, fun _ => trivial⟩

theorem issues_listDkimKeys : listDkimKeys.Issues (TreeCmd.WritesIn S) := by
  refine Prog.issues_bind issues_dkimBackend fun b => ?_
  split
  · exact Prog.issues_bind issues_rspamdKeys fun _ => trivial
  · exact Prog.issues_bind issues_opendkimKeys fun _ => trivial

theorem issues_copyKeys (h : ∀ g, rspamdDkimDir ++ ['/'] <+: g → S g) (domains : List Str)
    (keys : List L1.DkimFiles.DkimKey) (b : Str) :
    (copyKeys load domains keys b).Issues (TreeCmd.WritesIn S) := by
  have hcopy (tail : Str) : S (rspamdDkimDir ++ '/' :: tail) := h _ ⟨tail, by simp⟩
  induction keys generalizing b with
  | nil => trivial
  | cons k keys ih =>
    unfold copyKeys
    split
    · exact ih b
    · refine Prog.issues_bind (issues_readConfig _) fun pem => ?_
      refine Prog.issues_bind (issues_readConfig _) fun txt => ?_
      refine Prog.issues_bind ?_ fun size => ?_
      · unfold rsaKeySize
        split <;> trivial
      · refine Prog.issues_bind (Prog.issues_request ?_) fun _ => ?_
        · exact hcopy _
        · refine Prog.issues_bind (Prog.issues_request ?_) fun _ => ih _
          exact hcopy _

theorem issues_migration (h : ∀ g, Area.Holds .dkimMigration g → S g) :
    (migrateDkimToRspamd load).Issues (TreeCmd.WritesIn S) := by
  refine Prog.issues_bind issues_dkimBackend fun backend => ?_
  refine Prog.issues_bind Prog.issues_raiseIf fun _ => ?_
  refine Prog.issues_bind ?_ fun domains => ?_
  · refine Prog.issues_bind issues_dkimBackend fun b => ?_
    split
    · trivial
    · exact Prog.issues_bind issues_rspamdKeys fun _ =>
        Prog.issues_bind issues_opendkimKeys fun _ => trivial
  · refine Prog.issues_bind Prog.issues_raiseIf fun _ => ?_
    refine Prog.issues_bind (issues_readConfig _) fun conf => ?_
    refine Prog.issues_bind Prog.issues_raiseIf fun _ => ?_
    refine Prog.issues_bind issues_opendkimKeys fun keys => ?_
    refine Prog.issues_bind (issues_copyKeys (fun g hg => h g (.inr hg)) _ _ _) fun b => ?_
    refine Prog.issues_bind (Prog.issues_request (h _ (.inl rfl))) fun _ => ?_
    exact Prog.issues_bind issues_listDkimKeys fun _ => trivial

end

section
variable (load : Str → PemKey) (readString : Str → Parsed)

theorem issues_setting (w : Setting) :
    (w.prog load readString).Issues (TreeCmd.WritesIn w.area.Holds) := by
  have hbody {α : Type} {a : Area} {g : Str} (h : a.Holds g) (content : Str) (r : α) :
      (writeManagedBody g content >>= fun _ => (pure r : Io α)).Issues (Cmd.WritesIn a.Holds) :=
    Prog.issues_bind (issues_writeManagedBody h _) fun _ => trivial
  cases w with
  | postfixOverrides overrides =>
    have h : Area.Holds .postfixMain postfixMain.filename := rfl
    exact (issues_onTree (issues_setOverrides h overrides)).void
  | postfixMasterOverrides overrides =>
    have h : Area.Holds .postfixMaster postfixMaster.filename := rfl
    exact (issues_onTree (issues_setOverrides h overrides)).void
  | dovecotConfig content =>
    have h : Area.Holds .dovecotConfig dovecotConfigFilename := rfl
    exact (issues_onTree (hbody h _ _)).void
  | migrateDkim => exact (issues_migration fun _ h => h).void
  | sieveScript scope content =>
    have h : Area.Holds (.sieve scope) (L3.ConfigBodies.sieveFilename scope) := rfl
    exact (issues_onTree (hbody h _ _)).void
  | spamConfig scope content =>
    have h : Area.Holds (.spam scope) (spamConfigFilename scope) := rfl
    refine (issues_onTree (Prog.issues_bind (issues_writeManagedBody h _) fun _ => ?_)).void
    exact ⟨trivial, fun _ => trivial⟩
  | rspamdOverrides commands =>
    have h : Area.Holds .rspamdCommands rspamdCommandsFilename := rfl
    exact (issues_setRspamdOverrides h commands).void
  | rspamdOverrideFile name content =>
    have h : Area.Holds (.rspamdOverride name) (rspamdOverrideFilename name) := rfl
    refine Prog.Issues.void (p := setRspamdOverrideFile name content) ?_
    rw [setRspamdOverrideFile, validate_bind]
    exact Prog.issues_bind Prog.issues_raiseIf fun _ =>
      Prog.issues_bind (Prog.issues_request h) fun _ => trivial
  | deleteRspamdOverrideFile name =>
    have h : Area.Holds (.rspamdOverride name) (rspamdOverrideFilename name) := rfl
    show (L3.ConfigBodies.deleteRspamdOverrideFile name).Issues _
    rw [L3.ConfigBodies.deleteRspamdOverrideFile, validate_bind]
    refine Prog.issues_bind Prog.issues_raiseIf fun _ => ?_
    refine Prog.issues_bind (issues_listFiles _ _) fun files => ?_
    exact Prog.issues_bind Prog.issues_raiseIf fun _ => Prog.issues_request h
  | ldapConfig scope content =>
    have h : Area.Holds (.ldap scope) (ldapFilename scope) := rfl
    exact (issues_onTree (issues_setLdapConfig h content)).void
  | fail2banPolicy payload =>
    have h : Area.Holds .fail2banPolicy jailFilename := rfl
    refine (issues_onTree (Prog.issues_bind issues_ensureEnabled fun _ => ?_)).void
    exact Prog.issues_bind (Prog.issues_request h) fun _ => trivial
  | fail2banConfig content =>
    have h : Area.Holds .fail2banConfig configFilename := rfl
    exact (issues_onTree (issues_setConfig h content)).void

/-! ## What an endpoint that raises leaves behind -/

/-- How many commands come before the write; a migration has more than one. -/
def Setting.firstWrite : Setting → Nat
  | .deleteRspamdOverrideFile _ | .fail2banPolicy _ | .fail2banConfig _ => 1
  | _ => 0

/-- Nothing fails from the write on. -/
def Setting.Safe (t : Tree) (fails : Option Nat) : Setting → Prop
  | .migrateDkim => fails = none ∧ (∀ k ∈ todo t, IsRsa load t k) ∨ Harmless load t fails
  | w => ∀ n, fails = some n → n ≤ w.firstWrite

/-- An endpoint leaves the files of the other areas alone. -/
theorem filesOf_stop_setting (w : Setting) (fails : Option Nat) (t : Tree) {g : Str}
    (h : ¬ Touched w.area.Holds g) :
    filesOf ((w.prog load readString).stop treeBox fails t) (configPath g) =
      filesOf t (configPath g) :=
  filesOf_stop (issues_setting load readString w) h fails t

variable (t : Tree)

theorem settles_setOverrides (f : OverrideFile) (overrides : List Override) :
    (onTree (setOverrides f overrides)).Settles treeBox 0 t := by
  rcases (issues_cleanOverrides (f := f) overrides Dict.empty).pure_or_raise with
    ⟨d, hd⟩ | ⟨e, he⟩
  · have hrun : (cleanOverrides f overrides Dict.empty).run box (filesOf t) =
        (.ok d, filesOf t) := by
      rw [hd]
      rfl
    obtain ⟨-, rfl, -⟩ := run_cleanOverrides hrun
    obtain ⟨result, hr⟩ := exists_result overrides
    rw [setOverrides, hd]
    refine .write ?_
    rintro ⟨e, he⟩
    change ((onTree (Prog.ofOption .internal ((Dict.ofPairs (given overrides)).items.mapM
      fun p => Override.of? p.1 p.2))).run treeBox _).1 = .error e at he
    rw [hr] at he
    cases he
  · rw [setOverrides, he]
    exact .raise e

theorem settles_setRspamdOverrides (cs : List RspamdCommand) :
    (setRspamdOverrides cs).Settles treeBox 0 t := by
  rcases (issues_validateAll cs).pure_or_raise with ⟨ds, hd⟩ | ⟨e, he⟩
  · rw [setRspamdOverrides, hd]
    refine .write ?_
    rintro ⟨e, he⟩
    change ((L3.Rspamd.rspamdOverrides ds).run treeBox _).1 = .error e at he
    rw [run_rspamdOverrides] at he
    cases he
  · rw [setRspamdOverrides, he]
    exact .raise e

theorem settles_setLdapConfig (scope : LdapScope) (content : Str) :
    (onTree (setLdapConfig scope content)).Settles treeBox 0 t := by
  have hview (u : Tree) (c : Str) : ¬ (onTree (ldapView scope c)).Errs treeBox u := by
    rintro ⟨e, he⟩
    cases he
  unfold setLdapConfig
  dsimp only
  split
  · exact .write (hview _ _)
  · rcases (issues_checkLdapLines (ldapLines (strip content))).pure_or_raise with
      ⟨_, hc⟩ | ⟨e, he⟩
    · rw [hc]
      exact .write (hview _ _)
    · rw [he]
      exact .raise e

/-- Behind the toggle of fail2ban, whose reading is a command. -/
theorem settles_ensureEnabled_bind {α : Type} {k : Io α} (h : (onTree k).Settles treeBox 0 t) :
    (onTree (ensureEnabled >>= fun _ => k)).Settles treeBox 1 t := by
  have hread : Prog.Reads treeBox t 1 (onTree (ensureEnabled >>= fun _ => k))
      (onTree (Prog.raiseIf (flag (settingsOf ((filesOf t).read dmsSettingsPath))
        "ENABLE_FAIL2BAN".toList = false) disabled >>= fun _ => k)) :=
    .call (c := TreeCmd.file (.readFile dmsSettingsPath)) rfl (.here _)
  refine .of_reads (m := 1) (n := 0) hread ?_
  cases flag (settingsOf ((filesOf t).read dmsSettingsPath)) "ENABLE_FAIL2BAN".toList with
  | true => exact h
  | false => exact .raise _

theorem settles_setting (w : Setting) (h : w ≠ .migrateDkim) :
    (w.prog load readString).Settles treeBox w.firstWrite t := by
  have hok {α : Type} {p : TreeIo α} {u : Tree} (h : (p.run treeBox u).1.toOption.isSome = true) :
      ¬ p.Errs treeBox u := by
    rintro ⟨e, he⟩
    rw [he] at h
    cases h
  cases w with
  | postfixOverrides overrides => exact (settles_setOverrides t postfixMain overrides).void
  | postfixMasterOverrides overrides => exact (settles_setOverrides t postfixMaster overrides).void
  | dovecotConfig content => exact .write (hok rfl)
  | migrateDkim => exact absurd rfl h
  | sieveScript scope content => exact .write (hok rfl)
  | spamConfig scope content => exact .write (hok rfl)
  | rspamdOverrides commands => exact (settles_setRspamdOverrides t commands).void
  | rspamdOverrideFile name content =>
    refine Prog.Settles.void (p := setRspamdOverrideFile name content) ?_
    rw [setRspamdOverrideFile, validate_bind]
    exact .raiseIf_bind fun _ => .write (hok rfl)
  | deleteRspamdOverrideFile name =>
    show (L3.ConfigBodies.deleteRspamdOverrideFile name).Settles treeBox 1 t
    rw [L3.ConfigBodies.deleteRspamdOverrideFile, validate_bind]
    refine .raiseIf_bind fun _ => ?_
    refine .of_reads (m := 1) (n := 0) (reads_listFiles_bind (.here _)) ?_
    exact .raiseIf_bind fun _ => .write (hok rfl)
  | ldapConfig scope content => exact (settles_setLdapConfig t scope content).void
  | fail2banPolicy payload =>
    refine (settles_ensureEnabled_bind t ?_).void
    exact .write (hok rfl)
  | fail2banConfig content =>
    refine (settles_ensureEnabled_bind t ?_).void
    dsimp only
    have hreads : (checkConfig readString (strip content)).Issues fun _ => False :=
      issues_checkConfig _
    rcases hreads.pure_or_raise with ⟨_, hc⟩ | ⟨e, he⟩
    · rw [hc]
      exact .write (hok rfl)
    · rw [he]
      exact .raise e

variable {load readString} {t} {fails : Option Nat}

theorem stop_migrateDkim (hs : Setting.Safe load t fails .migrateDkim)
    (hr : (migrateDkimToRspamd load).returns treeBox fails t = false) :
    (migrateDkimToRspamd load).stop treeBox fails t = t := by
  by_cases ha : Accepted t
  · rcases hs with ⟨rfl, hrsa⟩ | hs
    · obtain ⟨keys, hrun⟩ := run_migration ha hrsa
      rw [Prog.returns, hrun] at hr
      cases hr
    · rcases hs with hs | ⟨hres, himp⟩
      · exact absurd ha hs
      · rcases @afterMigration_eq load t fails ha with ⟨-, hrsa, hn⟩ | ⟨e, -⟩
        · exact absurd (himp hrsa) hn
        · exact e.trans (writeAll_eq_self ne_scratch_copiedBefore hres)
  · exact (always_rejection load ha).stop fails

/-- An endpoint that raises, and is safe from the write on, has changed
nothing. -/
theorem stop_setting {w : Setting} (hs : w.Safe load t fails)
    (hr : (w.prog load readString).returns treeBox fails t = false)
    (hn : ∀ n, fails = some n → n < (w.prog load readString).steps treeBox t) :
    (w.prog load readString).stop treeBox fails t = t := by
  by_cases hw : w = .migrateDkim
  · subst hw
    have hprog : Setting.prog load readString .migrateDkim = (migrateDkimToRspamd load).void := rfl
    rw [hprog, Prog.returns_void] at hr
    rw [hprog, Prog.stop_void]
    exact stop_migrateDkim hs hr
  · refine (settles_setting load readString t w hw).stop_eq (Prog.raises_of_returns hr hn) ?_
    cases w with
    | migrateDkim => exact absurd rfl hw
    | _ => exact hs

/-- **A file that an endpoint has changed is in an area that has a row**, when
the endpoint is safe, or its area had a row before. -/
theorem listed_setting {w : Setting} {rows : Rows} {g : Str}
    (hs : w.area.key ∈ rows.keys ∨ w.Safe load t fails)
    (hn : ∀ n, fails = some n → n < (w.prog load readString).steps treeBox t)
    (hg : filesOf ((w.prog load readString).stop treeBox fails t) (configPath g) ≠
      filesOf t (configPath g)) :
    Listed (if (w.prog load readString).returns treeBox fails t then w.mark rows else rows) g := by
  have harea : Touched w.area.Holds g := by
    by_contra h
    exact hg (filesOf_stop_setting load readString w fails t h)
  split
  · exact listed_mark harea _ _ _
  · rename_i hr
    rcases hs with hs | hs
    · exact ⟨w.area, hs, harea⟩
    · rw [stop_setting hs (by simpa using hr) hn] at hg
      exact absurd rfl hg

end

end MailserverUi.L4.RestartAreas

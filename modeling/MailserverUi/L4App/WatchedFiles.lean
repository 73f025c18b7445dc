import MailserverUi.L4App.Edits
import MailserverUi.L4App.MailboxFailure

/-!
# Files that are watched live

docker-mailserver picks up changes of eight files while it runs. Most edits and
mailbox operations write no others: the exceptions are the restrictions, and the
Sieve file of a mailbox.

Results:
* `stop_edit`: an edit leaves every file alone that is not watched, and not the
  scratch name of one that is, unless it adds or deletes a restriction.
* `stop_mailbox`: so does a mailbox operation, unless it changes a Sieve file.
-/
namespace MailserverUi.L4.WatchedFiles

open Py L1.ServerFiles L1.MailFiles L1.SieveAddress L2.Errors L2.Container L3.Passwords
open L3.MailserverService L3.MailboxService L3.MailboxSpec Edits MailboxFailure
open MailboxRuns (Op)
open Prog (Reads)

/-- mirrors backend/app/services/mailserver_service.py:34-36 -/
def watched : List Str :=
  [accountsFilename, virtualFilename, regexAliasesFilename, systemAliasesFilename,
    relaymapFilename, saslFilename, quotasFilename, dovecotMastersFilename]

/-- The files that the container's watcher reads again by itself. -/
def Watched (f : Str) : Prop := f ∈ watched

instance (f : Str) : Decidable (Watched f) := inferInstanceAs (Decidable (_ ∈ _))

/-! ## Edits -/

/-- The entries of an access file, which `restriction_addresses` reads. -/
def restricted (s : Files) (kind : Str) : Option (List Str) :=
  if kind = "send".toList then
    restrictedOf (configLines (s.read (configPath "postfix-send-access.cf".toList)))
  else if kind = "receive".toList then
    restrictedOf (configLines (s.read (configPath "postfix-receive-access.cf".toList)))
  else none

/-- `add_restriction` passes its checks. -/
def Restricts (s : Files) (kind address : Str) : Prop :=
  '@' ∈ normalise address ∧ ∃ l, restricted s kind = some l ∧ normalise address ∉ l

/-- `delete_restriction` finds its entry. -/
def Lifts (s : Files) (kind address : Str) : Prop :=
  ∃ l, restricted s kind = some l ∧ normalise address ∈ l

/-- Where a restriction is added or deleted, the call is refused or fails. -/
def EditKept (s : Files) (fails : Option Nat) : Edit → Prop
  | .addRestriction kind address => fails ≠ none ∨ ¬ Restricts s kind address
  | .deleteRestriction kind address => fails ≠ none ∨ ¬ Lifts s kind address
  | _ => True

section
variable {α : Type} {s : Files} {kind address : Str}

/-- A kind has a file, or is refused. -/
theorem restrictionFilename_cases (kind : Str) :
    (∃ f, restrictionFilename kind = .pure f ∧
        ∀ s : Files, restricted s kind = restrictedOf (configLines (s.read (configPath f)))) ∨
      ∃ e, restrictionFilename kind = .raise e ∧ ∀ s, restricted s kind = none := by
  by_cases h₁ : kind = "send".toList
  · exact .inl ⟨_, if_pos h₁, fun s => if_pos h₁⟩
  · by_cases h₂ : kind = "receive".toList
    · exact .inl ⟨_, (if_neg h₁).trans (if_pos h₂), fun s => (if_neg h₁).trans (if_pos h₂)⟩
    · exact .inr ⟨_, (if_neg h₁).trans (if_neg h₂), fun s => (if_neg h₁).trans (if_neg h₂)⟩

/-- The entries are read by one command. -/
theorem reads_restrictionAddresses {f : Str} (hf : restrictionFilename kind = .pure f)
    (k : List Str → Io α) :
    Reads box s 1 (restrictionAddresses kind >>= k)
      (Prog.ofOption .internal (restrictedOf (configLines (s.read (configPath f)))) >>= k) := by
  rw [restrictionAddresses, hf]
  exact .call rfl (.here _)

/-- A call that is turned away changes nothing on its way. -/
theorem always_addRestriction_rejected (h : ¬ Restricts s kind address) :
    (addRestriction kind address).Always box (· = s) s := by
  unfold addRestriction
  rcases restrictionFilename_cases kind with ⟨f, hf, hl⟩ | ⟨e, he, -⟩
  · rw [hf, Prog.pure_bind]
    refine Prog.always_raiseIf_bind.mpr ⟨fun _ => rfl, fun hat => ?_⟩
    refine (reads_restrictionAddresses hf _).always ?_
    rw [← hl]
    cases hr : restricted s kind with
    | none => rfl
    | some l =>
      refine Prog.always_raiseIf_bind.mpr ⟨fun _ => rfl, fun hn => ?_⟩
      exact absurd ⟨not_not.mp hat, l, hr, hn⟩ h
  · rw [he]
    rfl

theorem always_deleteRestriction_rejected (h : ¬ Lifts s kind address) :
    (deleteRestriction kind address).Always box (· = s) s := by
  unfold deleteRestriction
  rcases restrictionFilename_cases kind with ⟨f, hf, hl⟩ | ⟨e, he, -⟩
  · rw [hf, Prog.pure_bind]
    refine (reads_restrictionAddresses hf _).always ?_
    rw [← hl]
    cases hr : restricted s kind with
    | none => rfl
    | some l =>
      refine Prog.always_raiseIf_bind.mpr ⟨fun _ => rfl, fun hn => ?_⟩
      exact absurd ⟨l, hr, not_not.mp hn⟩ h
  · rw [he]
    rfl

/-- The one write comes after one read. -/
theorem reads_addRestriction (h : Restricts s kind address) :
    ∃ f l, Reads box s 1 (addRestriction kind address)
      (writeManaged f l >>= fun _ => .pure ⟨kind, normalise address⟩) := by
  obtain ⟨hat, l, hl, hn⟩ := h
  rcases restrictionFilename_cases kind with ⟨f, hf, hr⟩ | ⟨e, -, hr⟩
  · refine ⟨f, restrictionLines (l ++ [normalise address]), ?_⟩
    unfold addRestriction
    rw [hf, Prog.pure_bind]
    simp only [Prog.raiseIf_bind_neg (not_not.mpr hat)]
    refine (reads_restrictionAddresses hf _).trans (m := 0) ?_
    rw [← hr, hl]
    refine (Prog.raiseIf_bind_neg hn _ _).symm ▸ .here _
  · rw [hr] at hl
    cases hl

theorem reads_deleteRestriction (h : Lifts s kind address) :
    ∃ f l, Reads box s 1 (deleteRestriction kind address) (writeManaged f l) := by
  obtain ⟨l, hl, hm⟩ := h
  rcases restrictionFilename_cases kind with ⟨f, hf, hr⟩ | ⟨e, -, hr⟩
  · refine ⟨f, restrictionLines (l.filter (· ≠ normalise address)), ?_⟩
    unfold deleteRestriction
    rw [hf, Prog.pure_bind]
    refine (reads_restrictionAddresses hf _).trans (m := 0) ?_
    rw [← hr, hl]
    refine (Prog.raiseIf_bind_neg (not_not.mpr hm) _ _).symm ▸ .here _
  · rw [hr] at hl
    cases hl

end

section
variable {compile : Str → Compiled}

abbrev InWatched {α : Type} (p : Io α) : Prop := p.Issues (Cmd.WritesIn Watched)

theorem issues_readConfigLines (g : Str) : InWatched (readConfigLines g) :=
  ⟨trivial, fun _ => trivial⟩

/-- A write to a watched file. -/
theorem issues_writeManaged {g : Str} (h : Watched g) (ls : List Str) :
    InWatched (writeManaged g ls) := Prog.issues_request h

theorem issues_parseRelaymap : InWatched parseRelaymap :=
  Prog.issues_bind (issues_readConfigLines _) fun _ => Prog.issues_ofOption

theorem issues_parseSasl : InWatched parseSasl :=
  Prog.issues_bind (issues_readConfigLines _) fun _ => trivial

theorem issues_writeRelaymap (relays : Dict Str Target) : InWatched (writeRelaymap relays) :=
  issues_writeManaged (by decide) _

theorem issues_writeSasl (creds : Dict Str (Str × Str)) : InWatched (writeSasl creds) :=
  issues_writeManaged (by decide) _

theorem issues_requireRelaySender (sender : Str) : InWatched (requireRelaySender sender) :=
  Prog.issues_bind Prog.issues_raiseIf fun _ => trivial

/-- A relay is two watched files. -/
theorem issues_createRelay (payload : RelayHostCreate) : InWatched (createRelay payload) := by
  refine Prog.issues_bind (issues_requireRelaySender _) fun sender => ?_
  refine Prog.issues_bind issues_parseRelaymap fun relays => ?_
  refine Prog.issues_bind Prog.issues_raiseIf fun _ => ?_
  refine Prog.issues_bind (issues_writeRelaymap _) fun _ => ?_
  refine Prog.issues_bind ?_ fun _ => trivial
  unfold addCredentials
  split
  · exact Prog.issues_bind issues_parseSasl fun _ => issues_writeSasl _
  · trivial

theorem issues_deleteRelay (sender : Str) : InWatched (deleteRelay sender) := by
  refine Prog.issues_bind issues_parseRelaymap fun relays => ?_
  refine Prog.issues_bind Prog.issues_raiseIf fun _ => ?_
  refine Prog.issues_bind (issues_writeRelaymap _) fun _ => ?_
  refine Prog.issues_bind issues_parseSasl fun creds => ?_
  split
  · exact issues_writeSasl _
  · trivial

theorem issues_createRelayExclusion (sender : Str) : InWatched (createRelayExclusion sender) := by
  refine Prog.issues_bind (issues_requireRelaySender _) fun key => ?_
  refine Prog.issues_bind issues_parseRelaymap fun relays => ?_
  refine Prog.issues_bind Prog.issues_raiseIf fun _ => ?_
  exact Prog.issues_bind (issues_writeRelaymap _) fun _ => trivial

theorem issues_deleteRelayExclusion (sender : Str) : InWatched (deleteRelayExclusion sender) := by
  refine Prog.issues_bind issues_parseRelaymap fun relays => ?_
  exact Prog.issues_bind Prog.issues_raiseIf fun _ => issues_writeRelaymap _

/-- A master is a line of a watched file. -/
theorem issues_createDovecotMaster (crypt : Option Str) (name : Str) :
    InWatched (createDovecotMaster crypt name) := by
  refine Prog.issues_bind Prog.issues_raiseIf fun _ => ?_
  refine Prog.issues_bind (issues_readConfigLines _) fun lines => ?_
  refine Prog.issues_bind Prog.issues_raiseIf fun _ => ?_
  refine Prog.issues_bind ?_ fun _ => ?_
  · cases crypt <;> trivial
  · exact Prog.issues_bind (issues_writeManaged (by decide) _) fun _ => trivial

theorem issues_deleteDovecotMaster (name : Str) : InWatched (deleteDovecotMaster name) := by
  refine Prog.issues_bind (issues_readConfigLines _) fun lines => ?_
  exact Prog.issues_bind Prog.issues_raiseIf fun _ => issues_writeManaged (by decide) _

theorem issues_listSystemAliases : InWatched listSystemAliases :=
  Prog.issues_bind (issues_readConfigLines _) fun _ => trivial

/-- A system alias is an entry of a watched file. -/
theorem issues_createSystemAlias (name : Str) (targets : List Str) :
    InWatched (createSystemAlias name targets) := by
  refine Prog.issues_bind Prog.issues_raiseIf fun _ => ?_
  refine Prog.issues_bind Prog.issues_raiseIf fun _ => ?_
  refine Prog.issues_bind issues_listSystemAliases fun aliases => ?_
  refine Prog.issues_bind Prog.issues_raiseIf fun _ => ?_
  exact Prog.issues_bind (issues_writeManaged (by decide) _) fun _ => trivial

theorem issues_deleteSystemAlias (name : Str) : InWatched (deleteSystemAlias name) := by
  refine Prog.issues_bind issues_listSystemAliases fun aliases => ?_
  exact Prog.issues_bind Prog.issues_raiseIf fun _ => issues_writeManaged (by decide) _

theorem issues_listRegexAliases : InWatched listRegexAliases :=
  Prog.issues_bind (issues_readConfigLines _) fun _ => Prog.issues_ofOption

/-- So is a regex alias; its pattern is checked before anything is read. -/
theorem issues_createRegexAlias (pattern : Str) (targets : List Str) :
    InWatched (createRegexAlias compile pattern targets) := by
  refine Prog.issues_bind ?_ fun cleaned => ?_
  · unfold validateRegexPattern
    dsimp only
    split
    · trivial
    · split <;> trivial
  · refine Prog.issues_bind Prog.issues_raiseIf fun _ => ?_
    refine Prog.issues_bind issues_listRegexAliases fun aliases => ?_
    refine Prog.issues_bind Prog.issues_raiseIf fun _ => ?_
    exact Prog.issues_bind (issues_writeManaged (by decide) _) fun _ => trivial

theorem issues_deleteRegexAlias (pattern : Str) : InWatched (deleteRegexAlias pattern) := by
  refine Prog.issues_bind issues_listRegexAliases fun aliases => ?_
  exact Prog.issues_bind Prog.issues_raiseIf fun _ => issues_writeManaged (by decide) _

variable {s : Files} {fails : Option Nat} {f : Str}

/-- An edit that adds and deletes no restriction leaves alone what is not
watched. -/
theorem stop_edit {e : Edit} (he : EditKept s fails e)
    (hn : ∀ n, fails = some n → n < (e.prog compile).steps box s) (hf : ¬ Touched Watched f) :
    (e.prog compile).stop box fails s (configPath f) = s (configPath f) := by
  have frame {α : Type} {p : Io α} (h : InWatched p) :
      p.void.stop box fails s (configPath f) = s (configPath f) :=
    stop_of_writesIn h.void hf fails s
  have frame' {p : Io Unit} (h : InWatched p) :
      p.stop box fails s (configPath f) = s (configPath f) := stop_of_writesIn h hf fails s
  cases e with
  | createRelay payload => exact frame (issues_createRelay payload)
  | deleteRelay sender => exact frame' (issues_deleteRelay sender)
  | createRelayExclusion sender => exact frame (issues_createRelayExclusion sender)
  | deleteRelayExclusion sender => exact frame' (issues_deleteRelayExclusion sender)
  | addRestriction kind address =>
    by_cases h : Restricts s kind address
    · obtain ⟨g, l, hr⟩ := reads_addRestriction h
      have hstop := Prog.stop_of_last (hr.bind fun _ => .pure ()) rfl hn
      rw [if_neg (he.resolve_right (not_not.mpr h))] at hstop
      exact congrFun hstop _
    · have hstop := (always_addRestriction_rejected h).stop fails
      exact congrFun ((Prog.stop_void fails s).trans hstop) _
  | deleteRestriction kind address =>
    by_cases h : Lifts s kind address
    · obtain ⟨g, l, hr⟩ := reads_deleteRestriction h
      have hstop := Prog.stop_of_last hr rfl hn
      rw [if_neg (he.resolve_right (not_not.mpr h))] at hstop
      exact congrFun hstop _
    · exact congrFun ((always_deleteRestriction_rejected h).stop fails) _
  | createDovecotMaster crypt name => exact frame (issues_createDovecotMaster crypt name)
  | deleteDovecotMaster name => exact frame' (issues_deleteDovecotMaster name)
  | createSystemAlias name targets => exact frame (issues_createSystemAlias name targets)
  | deleteSystemAlias name => exact frame' (issues_deleteSystemAlias name)
  | createRegexAlias pattern targets => exact frame (issues_createRegexAlias pattern targets)
  | deleteRegexAlias pattern => exact frame' (issues_deleteRegexAlias pattern)

end

/-! ## Mailbox operations -/

/-- The Sieve file is as it will be, and no file has its scratch name. -/
def Scripted (s : Files) (a content : Str) : Prop :=
  if strip content = [] then sieve s a = none
  else sieve s a = some (strip content ++ ['\n']) ∧
    s (configPath (scratch (sieveFilename a))) = none

/-- Where a Sieve file is written or deleted, the call is refused or fails, or
nothing changes by it. -/
def SieveKept (s : Files) (fails : Option Nat) : Op → Prop
  | .setSieveScript email content =>
    fails ≠ none ∨ ¬ Writes s (.setSieveScript email content) ∨
      Scripted s (normaliseEmail email) content
  | .deleteSieveScript email =>
    fails ≠ none ∨ ¬ Writes s (.deleteSieveScript email) ∨ sieve s (normaliseEmail email) = none
  | .deleteMailbox email =>
    fails ≠ none ∨ ¬ Writes s (.deleteMailbox email) ∨
      sieveAddress (normaliseEmail email) = false ∨ sieve s (normaliseEmail email) = none
  | _ => True

section
variable {emailStr : Str → Option Str}

theorem issues_readLines (g : Str) : InWatched (readLines g) := ⟨trivial, fun _ => trivial⟩

theorem issues_writeLines {g : Str} (h : Watched g) (ls : List Str) :
    InWatched (writeLines g ls) := Prog.issues_request h

theorem issues_requireMailbox (a : Str) : InWatched (requireMailbox a) :=
  Prog.issues_bind ⟨trivial, fun _ => trivial⟩ fun _ => Prog.issues_raiseIf

theorem issues_readQuotas : InWatched readQuotas := ⟨trivial, fun _ => trivial⟩

theorem issues_mailbox (a : Str) (q : Option Str) : InWatched (mailbox emailStr a q) := by
  unfold mailbox
  split <;> trivial

theorem issues_mailboxView (a : Str) : InWatched (mailboxView emailStr a) :=
  Prog.issues_bind issues_readQuotas fun _ => issues_mailbox _ _

theorem issues_setQuotaLine (a q : Str) : InWatched (setQuotaLine a q) :=
  Prog.issues_bind issues_readQuotas fun _ => issues_writeLines (by decide) _

theorem issues_removeQuotaLine (a : Str) : InWatched (removeQuotaLine a) := by
  refine Prog.issues_bind issues_readQuotas fun q => ?_
  split
  · trivial
  · exact issues_writeLines (by decide) _

/-- A mailbox is made of accounts and quotas, both watched. -/
theorem issues_createMailbox (crypt : Nat → Option Str) (email : Str) (q : Option Str) :
    InWatched (createMailbox emailStr crypt email q) := by
  refine Prog.issues_bind Prog.issues_raiseIf fun _ => ?_
  refine Prog.issues_bind (issues_readLines _) fun ls => ?_
  refine Prog.issues_bind Prog.issues_raiseIf fun _ => ?_
  refine Prog.issues_bind ?_ fun h => ?_
  · cases crypt 0 <;> trivial
  · refine Prog.issues_bind (issues_writeLines (by decide) _) fun _ => ?_
    refine Prog.issues_bind ?_ fun _ => issues_mailbox _ _
    rcases q with _ | _ | ⟨d, v⟩
    · trivial
    · trivial
    · exact issues_setQuotaLine _ _

/-- A password is a line of the accounts. -/
theorem issues_setPassword (email : Str) (crypt : Nat → Option Str) :
    InWatched (setPassword emailStr crypt email) := by
  refine Prog.issues_bind (issues_readLines _) fun ls => ?_
  cases resetLines crypt (normaliseEmail email) 0 ls with
  | none => trivial
  | some updated =>
    refine Prog.issues_bind Prog.issues_raiseIf fun _ => ?_
    exact Prog.issues_bind (issues_writeLines (by decide) _) fun _ => issues_mailboxView _

/-- A quota is a line of the quotas. -/
theorem issues_setQuota (email : Str) (q : Option Str) :
    InWatched (setQuota emailStr email q) := by
  refine Prog.issues_bind (issues_requireMailbox _) fun _ => ?_
  rcases q with _ | _ | ⟨d, v⟩
  · exact Prog.issues_bind (issues_removeQuotaLine _) fun _ => issues_mailboxView _
  · exact Prog.issues_bind (issues_removeQuotaLine _) fun _ => issues_mailboxView _
  · exact Prog.issues_bind (issues_setQuotaLine _ _) fun _ => issues_mailboxView _

/-- An alias is a line of `postfix-virtual.cf`. -/
theorem issues_addAlias (email aliasEmail : Str) :
    InWatched (addAlias emailStr email aliasEmail) := by
  refine Prog.issues_bind (issues_requireMailbox _) fun _ => ?_
  refine Prog.issues_bind Prog.issues_raiseIf fun _ => ?_
  refine Prog.issues_bind Prog.issues_raiseIf fun _ => ?_
  refine Prog.issues_bind ⟨trivial, fun _ => trivial⟩ fun addresses => ?_
  refine Prog.issues_bind Prog.issues_raiseIf fun _ => ?_
  refine Prog.issues_bind (issues_readLines _) fun ls => ?_
  refine Prog.issues_bind Prog.issues_raiseIf fun _ => ?_
  refine Prog.issues_bind (issues_writeLines (by decide) _) fun _ => ?_
  cases emailStr (normaliseEmail aliasEmail) <;> trivial

theorem issues_deleteAlias (email aliasEmail : Str) : InWatched (deleteAlias email aliasEmail) := by
  refine Prog.issues_bind (issues_requireMailbox _) fun _ => ?_
  refine Prog.issues_bind (issues_readLines _) fun ls => ?_
  exact Prog.issues_bind Prog.issues_raiseIf fun _ => issues_writeLines (by decide) _

/-- Taking a target away rewrites the aliases. -/
theorem issues_removeTargetFromAliases (a : Str) : InWatched (removeTargetFromAliases a) := by
  refine Prog.issues_bind (issues_readLines _) fun ls => ?_
  dsimp only
  split
  · exact issues_writeLines (by decide) _
  · trivial

/-- `delete_mailbox` but for the Sieve file. -/
def dropMailbox (email : Str) : Io Unit := do
  let address := normaliseEmail email
  let lines ← readLines accountsFilename
  let remaining := lines.filter fun line => (splitAccount line).1 ≠ address
  Prog.raiseIf (remaining.length = lines.length) (notFound "Mailbox" address)
  writeLines accountsFilename remaining
  removeQuotaLine address
  removeTargetFromAliases address

/-- The end of `delete_mailbox`. -/
def dropSieve (address : Str) : Io Unit :=
  if sieveAddress address then deleteConfig (sieveFilename address) else .pure ()

/-- A deletion writes watched files, and then deletes the Sieve file. -/
theorem deleteMailbox_eq (email : Str) :
    deleteMailbox email = dropMailbox email >>= fun _ => dropSieve (normaliseEmail email) := by
  unfold deleteMailbox dropMailbox
  simp only [Prog.bind_assoc]
  rfl

theorem issues_dropMailbox (email : Str) : InWatched (dropMailbox email) := by
  refine Prog.issues_bind (issues_readLines _) fun ls => ?_
  refine Prog.issues_bind Prog.issues_raiseIf fun _ => ?_
  refine Prog.issues_bind (issues_writeLines (by decide) _) fun _ => ?_
  exact Prog.issues_bind (issues_removeQuotaLine _) fun _ => issues_removeTargetFromAliases _

/-- The end is one command, or none, so a call that failed did not get to it. -/
theorem steps_dropSieve (a : Str) (s : Files) : (dropSieve a).steps box s ≤ 1 := by
  unfold dropSieve
  split
  · exact Nat.le_refl 1
  · exact Nat.zero_le 1

variable {s : Files} {fails : Option Nat} {f : Str} {email : Str}

/-- A deletion that keeps the Sieve file leaves the unwatched files alone. -/
theorem stop_deleteMailbox (hk : SieveKept s fails (.deleteMailbox email))
    (hn : ∀ n, fails = some n → n < (deleteMailbox email).steps box s)
    (hf : ¬ Touched Watched f) :
    (deleteMailbox email).stop box fails s (configPath f) = s (configPath f) := by
  have hdrop (fails : Option Nat) := stop_of_writesIn (issues_dropMailbox email) hf fails s
  cases fails with
  | some n =>
    have hn := hn n rfl
    rw [deleteMailbox_eq] at hn ⊢
    exact (congrFun (Prog.cut_bind_of_lt_steps (fun _ t => steps_dropSieve _ t) hn) _).trans
      (hdrop (some n))
  | none =>
    rcases hk.resolve_left (not_not.mpr rfl) with hw | hk
    · exact congrFun ((always_deleteMailbox_rejected (not_not.mp hw)).stop none) _
    · have hdrop := hdrop none
      rw [deleteMailbox_eq]
      unfold Prog.stop at hdrop ⊢
      simp only at hdrop ⊢
      rw [Prog.run_bind]
      rcases hr : (dropMailbox email).run box s with ⟨_ | _, s'⟩
      · rw [hr] at hdrop
        exact hdrop
      · rw [hr] at hdrop
        unfold dropSieve
        simp only
        split
        · rename_i ha
          show (s'.delete (sieveFilename (normaliseEmail email))) (configPath f) = _
          unfold Files.delete
          split
          · rename_i e
            rw [e]
            exact (hk.resolve_left (by simp [ha])).symm
          · exact hdrop
        · exact hdrop

/-- What `set_sieve_script` has written, failing or not. -/
theorem stop_setSieveScript_of_writes {content : Str} (hw : Writes s (.setSieveScript email content))
    (hn : ∀ n, fails = some n → n < (setSieveScript email content).void.steps box s) :
    (setSieveScript email content).void.stop box fails s =
      if fails = none then scripted s (normaliseEmail email) content else s := by
  have hr := reads_setSieveScript hw
  unfold scripted
  by_cases hb : strip content = []
  · rw [if_pos hb] at hr ⊢
    exact Prog.stop_of_last (c := .deleteConfig (sieveFilename (normaliseEmail email)))
      (k := fun _ => .pure ()) (hr.bind _) rfl hn
  · rw [if_neg hb] at hr ⊢
    exact Prog.stop_of_last (c := .writeConfig (sieveFilename (normaliseEmail email)) _)
      (k := fun _ => .pure ()) (hr.bind _) rfl hn

/-- A script that is there already, with nothing in the way of the write. -/
theorem scripted_eq_self {a content : Str} (h : Scripted s a content) :
    scripted s a content = s := by
  funext p
  unfold scripted
  unfold Scripted at h
  split
  · rename_i hb
    rw [if_pos hb] at h
    unfold Files.delete
    split
    · rename_i e
      rw [e]
      exact h.symm
    · rfl
  · rename_i hb
    rw [if_neg hb] at h
    rw [write_apply]
    split
    · rename_i e
      rw [e]
      exact h.1.symm
    · split
      · rename_i e
        rw [e]
        exact h.2.symm
      · rfl

/-- A script that is kept is not touched. -/
theorem stop_setSieveScript {content : Str} (hk : SieveKept s fails (.setSieveScript email content))
    (hn : ∀ n, fails = some n → n < (setSieveScript email content).void.steps box s) :
    (setSieveScript email content).void.stop box fails s = s := by
  by_cases hw : Writes s (.setSieveScript email content)
  · rw [stop_setSieveScript_of_writes hw hn]
    split
    · rename_i hf
      exact scripted_eq_self ((hk.resolve_left (not_not.mpr hf)).resolve_left (not_not.mpr hw))
    · rfl
  · exact (Prog.stop_void fails s).trans ((always_sieve_rejected hw).stop fails)

/-- Nor is one that was not there. -/
theorem stop_deleteSieveScript (hk : SieveKept s fails (.deleteSieveScript email))
    (hn : ∀ n, fails = some n → n < (deleteSieveScript email).steps box s) :
    (deleteSieveScript email).stop box fails s = s := by
  by_cases hw : Writes s (.deleteSieveScript email)
  · have hr : Reads box s 1 (deleteSieveScript email)
        (deleteConfig (sieveFilename (normaliseEmail email))) := reads_sieve hw (.here _)
    rw [Prog.stop_of_last hr rfl hn]
    split
    · rename_i hf
      have h := (hk.resolve_left (not_not.mpr hf)).resolve_left (not_not.mpr hw)
      have hsame : scripted s (normaliseEmail email) [] = s := by
        refine scripted_eq_self ?_
        unfold Scripted
        rwa [if_pos strip_nil]
      exact (if_pos strip_nil).symm.trans hsame
    · rfl
  · exact (always_sieve_rejected hw).stop fails

/-- A mailbox operation that changes no Sieve file leaves alone what is not
watched. -/
theorem stop_mailbox {op : Op} (hk : SieveKept s fails op)
    (hn : ∀ n, fails = some n → n < (op.prog emailStr).steps box s)
    (hf : ¬ Touched Watched f) :
    (op.prog emailStr).stop box fails s (configPath f) = s (configPath f) := by
  have frame {α : Type} {p : Io α} (h : InWatched p) :
      p.void.stop box fails s (configPath f) = s (configPath f) :=
    stop_of_writesIn h.void hf fails s
  cases op with
  | createMailbox email crypt quota => exact frame (issues_createMailbox crypt email quota)
  | deleteMailbox email => exact stop_deleteMailbox hk hn hf
  | setPassword email crypt => exact frame (issues_setPassword email crypt)
  | setQuota email quota => exact frame (issues_setQuota email quota)
  | addAlias email aliasEmail => exact frame (issues_addAlias email aliasEmail)
  | deleteAlias email aliasEmail =>
    exact stop_of_writesIn (issues_deleteAlias email aliasEmail) hf fails s
  | setSieveScript email content => exact congrFun (stop_setSieveScript hk hn) _
  | deleteSieveScript email => exact congrFun (stop_deleteSieveScript hk hn) _

end

end MailserverUi.L4.WatchedFiles

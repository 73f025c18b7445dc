import MailserverUi.L3Service.ConfigBodies
import MailserverUi.L3Service.Fail2ban
import MailserverUi.L3Service.MailboxSpec
import MailserverUi.L4App.Edits

/-!
# Texts that are replaced whole

Six services keep a text of free form in a file of its own. Some write it under
a header, one under a header without a line break, one without any, and two
delete the file when the text is empty.

Results:
* `stored_alone_iff`: an accepted text is read back stripped, with its line breaks as
  `subprocess` reads them, a rejected one changes no file, and neither changes
  what is read from any other store, when no override file has the scratch name of
  the one that is written.
* `sibling_destroyed`: it is deleted when one has.
* `stored_alone_header`: a text that begins with the header of its file.
-/
namespace MailserverUi.L4.FreeForm

open Py L1.ServerFiles L1.MailFiles L1.SieveAddress L2.Errors L2.Container L2.ConfigTree
open L3.MailboxService L3.Settings L3.Rspamd L3.ConfigBodies L3.Fail2ban Edits

/-! ## The stores -/

/-- The stores with a file name of their own. -/
inductive Fixed where
  | dovecot
  | sieve (scope : SieveScope)
  | spam (scope : SpamConfigScope)
  | ldap (scope : LdapScope)
  | fail2ban
  deriving DecidableEq, Repr

/-- All of them: an override file has a name, and a personal script an address. -/
inductive Store where
  | fixed (f : Fixed)
  | override (name : Str) (oneLine : OneLine name)
  | personal (email : Str)

def Fixed.file : Fixed → Str
  | .dovecot => dovecotConfigFilename
  | .sieve scope => L3.ConfigBodies.sieveFilename scope
  | .spam scope => spamConfigFilename scope
  | .ldap scope => ldapFilename scope
  | .fail2ban => configFilename

def Store.file : Store → Str
  | .fixed f => f.file
  | .override name _ => rspamdOverrideFilename name
  | .personal email => L1.SieveAddress.sieveFilename (normaliseEmail email)

/-- One store under two names: an address can be written in several ways. -/
inductive Same : Store → Store → Prop
  | refl (x : Store) : Same x x
  | personal {a b : Str} (h : normaliseEmail a = normaliseEmail b) :
      Same (.personal a) (.personal b)

/-- What a get operation returns. -/
inductive Answer where
  | dovecot (r : DovecotConfig)
  | sieve (r : SieveScript)
  | spam (r : SpamConfig)
  | ldap (r : LdapConfig)
  | fail2ban (r : Fail2banConfig)
  | overrides (files : List RspamdOverrideFile)
  | personal (r : MailboxSieveScript)

/-- The texts in it. The override files are listed, and the others are one. -/
def Answer.contents : Answer → List Str
  | .dovecot r => [r.content]
  | .sieve r => [r.content]
  | .spam r => [r.content]
  | .ldap r => [r.content]
  | .fail2ban r => [r.content]
  | .overrides files => files.map RspamdOverrideFile.content
  | .personal r => [r.content]

/-! ## The two operations -/

section
variable (readString : Str → Parsed)

/-- The set operation of each store, without what it returns. -/
def Fixed.set : Fixed → Str → Io Unit
  | .dovecot, content => void (setDovecotConfig content)
  | .sieve scope, content => void (L3.ConfigBodies.setSieveScript scope content)
  | .spam scope, content => void (setSpamConfig scope content)
  | .ldap scope, content => void (setLdapConfig scope content)
  | .fail2ban, content => void (setConfig readString content)

def Store.set : Store → Str → TreeIo Unit
  | .fixed f, content => onTree (f.set readString content)
  | .override name _, content => do
    let _ ← setRspamdOverrideFile name content
    return ()
  | .personal email, content => onTree (void (L3.MailboxService.setSieveScript email content))

end

def Fixed.get : Fixed → Io Answer
  | .dovecot => do return .dovecot (← getDovecotConfig)
  | .sieve scope => do return .sieve (← L3.ConfigBodies.getSieveScript scope)
  | .spam scope => do return .spam (← getSpamConfig scope)
  | .ldap scope => do return .ldap (← getLdapConfig scope)
  | .fail2ban => do return .fail2ban (← getConfig)

/-- The override files are read with `_rspamd_override_files`, all at once. -/
def Store.get : Store → TreeIo Answer
  | .fixed f => onTree f.get
  | .override name _ => do
    let files ← rspamdOverrideFiles
    return .overrides (files.filter fun f => f.name = name)
  | .personal email => onTree do return .personal (← L3.MailboxService.getSieveScript email)

/-! ## What is written -/

/-- How a text stands in its file: a header, what follows it, and what is left
of the file when the text is empty. -/
structure Convention where
  header : Str
  gap : Str
  whenEmpty : Option Str
  header_noCr : '\r' ∉ header
  gap_eq : gap = [] ∨ gap = ['\n']
  whenEmpty_eq : ∀ text ∈ whenEmpty, text = [] ∨ text = header

def Convention.written (c : Convention) (body : Str) : Option Str :=
  if body = [] then c.whenEmpty else some (c.header ++ (c.gap ++ (body ++ ['\n'])))

/-- `_write_managed_body`. -/
def managedText : Convention where
  header := L1.ServerFiles.managedHeader
  gap := []
  whenEmpty := some L1.ServerFiles.managedHeader
  header_noCr := by decide
  gap_eq := .inl rfl
  whenEmpty_eq := by
    rintro _ ⟨⟩
    exact .inr rfl

/-- `_write_managed_body`, but an empty LDAP map is deleted. -/
def ldapText : Convention where
  header := L1.ServerFiles.managedHeader
  gap := []
  whenEmpty := none
  header_noCr := by decide
  gap_eq := .inl rfl
  whenEmpty_eq := nofun

def fail2banText : Convention where
  header := L3.Fail2ban.managedHeader
  gap := ['\n']
  whenEmpty := some []
  header_noCr := by decide
  gap_eq := .inr rfl
  whenEmpty_eq := by
    rintro _ ⟨⟩
    exact .inl rfl

def personalText : Convention where
  header := []
  gap := []
  whenEmpty := none
  header_noCr := List.not_mem_nil
  gap_eq := .inl rfl
  whenEmpty_eq := nofun

/-- A stripped text is read back with its line breaks translated, also when it
begins with the header. -/
theorem Convention.unheaded_written (c : Convention) {body : Str} (h : Trim body) :
    unheaded c.header (universalNewlines ((c.written body).getD [])) = universalNewlines body := by
  have empty : universalNewlines [] = [] := rfl
  unfold written
  by_cases hb : body = []
  · rw [if_pos hb, hb, empty]
    cases he : c.whenEmpty with
    | none => exact unheaded_nil c.header
    | some text =>
      rcases c.whenEmpty_eq text he with rfl | rfl
      · exact unheaded_nil c.header
      · simpa [empty] using unheaded_headed c.header_noCr []
  · rw [if_neg hb, Option.getD_some, unheaded_headed c.header_noCr]
    rcases c.gap_eq with hg | hg
    · rw [hg, List.nil_append, strip_universalNewlines_line h]
    · rw [hg, universalNewlines_append _ (by decide), List.singleton_append,
        strip_cons_space _ (by decide), strip_universalNewlines_line h]

def Fixed.convention : Fixed → Convention
  | .dovecot | .sieve _ | .spam _ => managedText
  | .ldap _ => ldapText
  | .fail2ban => fail2banText

def Store.convention : Store → Convention
  | .fixed f => f.convention
  | .override _ _ => managedText
  | .personal _ => personalText

/-- The text that a get operation makes of the file. -/
def Store.shown (x : Store) (s : Files) : Str :=
  unheaded x.convention.header (s.read (configPath x.file))

/-- A file is written, or deleted. -/
def replaced (s : Files) (f : Str) : Option Str → Files
  | some text => s.write f text
  | none => s.delete f

/-- The files after a text has been accepted. -/
def stored (s : Files) (x : Store) (content : Str) : Files :=
  replaced s x.file (x.convention.written (strip content))

/-- What a set operation asks of the files before it looks at the text. -/
def Store.Open : Store → Files → Prop
  | .fixed .fail2ban, s =>
    flag (settingsOf (s.read dmsSettingsPath)) "ENABLE_FAIL2BAN".toList = true
  | .fixed _, _ => True
  | .override name _, _ => matchesRspamdFilename name = true
  | .personal email, s =>
    sieveAddress (normaliseEmail email) = true ∧ normaliseEmail email ∈ L3.MailboxSpec.addresses s

section
variable {s : Files} {x : Store} {content : Str}

theorem replaced_self (s : Files) (f : Str) (o : Option Str) :
    replaced s f o (configPath f) = o := by
  cases o with
  | none => exact if_pos rfl
  | some text => exact write_self s f text

theorem replaced_outside {f p : Str} (h : p ≠ configPath f) (hs : p ≠ configPath (scratch f))
    (s : Files) (o : Option Str) : replaced s f o p = s p := by
  cases o with
  | none => exact if_neg h
  | some text => exact (write_apply s f text p).trans ((if_neg h).trans (if_neg hs))

theorem stored_outside {p : Str} (h : p ≠ configPath x.file)
    (hs : p ≠ configPath (scratch x.file)) : stored s x content p = s p :=
  replaced_outside h hs _ _

theorem stored_self : stored s x content (configPath x.file) =
    x.convention.written (strip content) := replaced_self _ _ _

/-- What is read of a store is the text that was stored. -/
theorem shown_stored : x.shown (stored s x content) = universalNewlines (strip content) := by
  rw [Store.shown, Files.read, stored_self]
  exact x.convention.unheaded_written (trim_strip content)

end

/-! ## What the set operations do -/

/-- The operation raises and leaves the files, or stores the text. -/
def Settles (x : Store) (content : Str) (s : Files) (out : Except ApiError Unit × Files) : Prop :=
  (∃ e, out = (.error e, s)) ∨ x.Open s ∧ out = (.ok (), stored s x content)

section
variable {s : Files} {content : Str}

/-- `_write_managed_body`, of a text that has been stripped. -/
theorem run_writeManagedBody (f body : Str) (s : Files) (h : Trim body) :
    (writeManagedBody f body).run box s =
      (.ok (), replaced s f (managedText.written body)) := by
  have e : (writeManagedBody f body).run box s = (.ok (), s.write f
      (if strip body ≠ [] then L1.ServerFiles.managedHeader ++ strip body ++ ['\n']
        else L1.ServerFiles.managedHeader)) := rfl
  rw [e, strip_eq_self h]
  unfold Convention.written
  by_cases hb : body = []
  · rw [if_neg (not_not.mpr hb), if_pos hb]
    rfl
  · rw [if_pos hb, if_neg hb, List.append_assoc]
    rfl

theorem run_checkLdapLines (ls : List Str) (s : Files) :
    ∃ r, (checkLdapLines ls).run box s = (r, s) := by
  induction ls with
  | nil => exact ⟨_, rfl⟩
  | cons l ls ih =>
    rw [checkLdapLines, Prog.run_raiseIf_bind]
    split
    · exact ⟨_, rfl⟩
    · exact ih

/-- Checking a text changes no file. -/
theorem run_checkConfig (readString : Str → Parsed) (body : Str) (s : Files) :
    ∃ r, (checkConfig readString body).run box s = (r, s) := by
  unfold checkConfig
  split
  · exact ⟨_, rfl⟩
  · cases readString body <;> exact ⟨_, rfl⟩

theorem settles_ldap (scope : LdapScope) : Settles (.fixed (.ldap scope)) content s
    ((void (setLdapConfig scope content)).run box s) := by
  unfold setLdapConfig
  by_cases hb : strip content = []
  · refine .inr ⟨trivial, ?_⟩
    simp only [hb, if_true]
    have e : ldapText.written (strip content) = none := if_pos hb
    exact Prod.ext rfl (congrArg (replaced s (ldapFilename scope)) e).symm
  · simp only [hb, if_false]
    obtain ⟨r, hr⟩ := run_checkLdapLines (ldapLines (strip content)) s
    cases r with
    | error e =>
      refine .inl ⟨e, ?_⟩
      rw [void, Prog.bind_assoc, Prog.run_bind, hr]
    | ok u =>
      refine .inr ⟨trivial, ?_⟩
      rw [void, Prog.bind_assoc, Prog.run_bind, hr]
      dsimp only
      rw [Prog.bind_assoc, Prog.run_bind, run_writeManagedBody _ _ _ (trim_strip content)]
      have e : ldapText.written (strip content) = managedText.written (strip content) := by
        rw [Convention.written, Convention.written, if_neg hb, if_neg hb]
        rfl
      exact Prod.ext rfl (congrArg (replaced s (ldapFilename scope)) e).symm

theorem settles_fail2ban (readString : Str → Parsed) : Settles (.fixed .fail2ban) content s
    ((void (setConfig readString content)).run box s) := by
  rw [void, setConfig, Prog.bind_assoc, run_ensureEnabled_bind]
  by_cases hopen : flag (settingsOf (s.read dmsSettingsPath)) "ENABLE_FAIL2BAN".toList = false
  · exact .inl ⟨_, if_pos hopen⟩
  · rw [if_neg hopen]
    dsimp only
    obtain ⟨r, hr⟩ := run_checkConfig readString (strip content) s
    rw [Prog.bind_assoc, Prog.run_bind, hr]
    cases r with
    | error e => exact .inl ⟨e, rfl⟩
    | ok u =>
      refine .inr ⟨(Bool.not_eq_false _).mp hopen, Prod.ext rfl ?_⟩
      have e : fail2banText.written (strip content) = some (if strip content ≠ [] then
          L3.Fail2ban.managedHeader ++ '\n' :: strip content ++ ['\n'] else []) := by
        unfold Convention.written
        by_cases hb : strip content = []
        · rw [if_pos hb, if_neg (not_not.mpr hb)]
          rfl
        · rw [if_neg hb, if_pos hb]
          rfl
      exact (congrArg (replaced s configFilename) e).symm

theorem settles_fixed (readString : Str → Parsed) (f : Fixed) :
    Settles (.fixed f) content s ((f.set readString content).run box s) := by
  cases f with
  | dovecot =>
    refine .inr ⟨trivial, ?_⟩
    rw [Fixed.set, void, setDovecotConfig, Prog.bind_assoc, Prog.run_bind,
      run_writeManagedBody _ _ _ (trim_strip content)]
    rfl
  | sieve scope =>
    refine .inr ⟨trivial, ?_⟩
    rw [Fixed.set, void, L3.ConfigBodies.setSieveScript, Prog.bind_assoc, Prog.run_bind,
      run_writeManagedBody _ _ _ (trim_strip content)]
    rfl
  | spam scope =>
    refine .inr ⟨trivial, ?_⟩
    rw [Fixed.set, void, setSpamConfig, Prog.bind_assoc, Prog.run_bind,
      run_writeManagedBody _ _ _ (trim_strip content)]
    rfl
  | ldap scope => exact settles_ldap scope
  | fail2ban => exact settles_fail2ban readString

/-- The address is checked first, and then the account. -/
theorem settles_personal (email : Str) : Settles (.personal email) content s
    ((void (L3.MailboxService.setSieveScript email content)).run box s) := by
  rw [void, L3.MailboxService.setSieveScript, Prog.bind_assoc,
    L3.MailboxSpec.run_requireSieveAddress_bind]
  by_cases h : sieveAddress (normaliseEmail email) = false
  · exact .inl ⟨_, if_pos h⟩
  · rw [if_neg h, Prog.bind_assoc, L3.MailboxSpec.run_requireMailbox_bind]
    by_cases hm : normaliseEmail email ∈ L3.MailboxSpec.addresses s
    · refine .inr ⟨⟨by simpa using h, hm⟩, ?_⟩
      rw [if_pos hm]
      by_cases hb : strip content = []
      · simp only [hb, if_true]
        have e : personalText.written (strip content) = none := if_pos hb
        exact Prod.ext rfl (congrArg (replaced s (L1.SieveAddress.sieveFilename
          (normaliseEmail email))) e).symm
      · simp only [hb, if_false]
        have e : personalText.written (strip content) = some (strip content ++ ['\n']) := if_neg hb
        exact Prod.ext rfl (congrArg (replaced s (L1.SieveAddress.sieveFilename
          (normaliseEmail email))) e).symm
    · exact .inl ⟨_, if_neg hm⟩

end

section
variable {x : Store} {content : Str} {t : Tree}

/-- What a run on a tree returns, and the files it leaves. -/
def outcome {α : Type} (p : TreeIo α) (t : Tree) : Except ApiError α × Files :=
  ((p.run treeBox t).1, filesOf (p.run treeBox t).2)

theorem outcome_onTree {α : Type} (p : Io α) (t : Tree) :
    outcome (onTree p) t = p.run box (filesOf t) :=
  Prod.ext (run_onTree p t).1 (run_onTree p t).2

/-- An override file is set like the others, after a check of its name. -/
theorem outcome_override (readString : Str → Parsed) (name : Str) (h : OneLine name) (content : Str)
    (t : Tree) : outcome ((Store.override name h).set readString content) t =
      if matchesRspamdFilename name = false then
        (.error (badRequest [lit "Invalid Rspamd override file name: ", .repr name]), filesOf t)
      else (.ok (), stored (filesOf t) (.override name h) content) := by
  have hbind : (Store.override name h).set readString content =
      (Prog.raiseIf (matchesRspamdFilename name = false)
        (badRequest [lit "Invalid Rspamd override file name: ", .repr name]) >>= fun _ =>
          onTree (writeManagedBody (rspamdOverrideFilename name) (strip content))) := by
    rw [Store.set, setRspamdOverrideFile, Prog.bind_assoc, validate_bind]
    rfl
  have hwrite := outcome_onTree (writeManagedBody (rspamdOverrideFilename name) (strip content)) t
  rw [run_writeManagedBody _ _ _ (trim_strip content)] at hwrite
  rw [outcome, hbind, Prog.run_raiseIf_bind]
  by_cases hok : matchesRspamdFilename name = false
  · rw [if_pos hok, if_pos hok]
  · rw [if_neg hok, if_neg hok]
    exact hwrite

theorem settles_override (readString : Str → Parsed) (name : Str) (h : OneLine name) :
    Settles (.override name h) content (filesOf t)
      (outcome ((Store.override name h).set readString content) t) := by
  rw [outcome_override]
  by_cases hok : matchesRspamdFilename name = false
  · rw [if_pos hok]
    exact .inl ⟨_, rfl⟩
  · rw [if_neg hok]
    exact .inr ⟨(Bool.not_eq_false _).mp hok, rfl⟩

/-- Every set operation does one of the two. -/
theorem settles (readString : Str → Parsed) (x : Store) (content : Str) (t : Tree) :
    Settles x content (filesOf t) (outcome (x.set readString content) t) := by
  cases x with
  | fixed f => exact outcome_onTree (f.set readString content) t ▸ settles_fixed readString f
  | override name h => exact settles_override readString name h
  | personal email =>
    exact outcome_onTree (void (L3.MailboxService.setSieveScript email content)) t ▸
      settles_personal email

end

/-! ## What the get operations return -/

/-- How often the text of a store stands in an answer. -/
def Store.times : Store → Tree → Nat
  | .override name _, t => (listConfigFiles t rspamdOverrideDir []).count name
  | _, _ => 1

section
variable {x : Store} {s : Files} {t : Tree}

/-- Where the store may be looked at, its text is all that is returned. -/
theorem get_fixed {f : Fixed} (h : (Store.fixed f).Open s) :
    ∃ a, (f.get.run box s).1 = .ok a ∧ a.contents = [(Store.fixed f).shown s] := by
  cases f with
  | dovecot => exact ⟨_, rfl, rfl⟩
  | sieve scope => exact ⟨_, rfl, rfl⟩
  | spam scope => exact ⟨_, rfl, rfl⟩
  | ldap scope => exact ⟨_, rfl, rfl⟩
  | fail2ban =>
    have h : flag (settingsOf (s.read dmsSettingsPath)) "ENABLE_FAIL2BAN".toList = true := h
    rw [Fixed.get, getConfig, Prog.bind_assoc, run_ensureEnabled_bind, if_neg (by rw [h]; decide)]
    exact ⟨_, rfl, rfl⟩

theorem get_personal {email : Str} (h : (Store.personal email).Open s) :
    ∃ r, ((L3.MailboxService.getSieveScript email).run box s).1 = .ok r ∧
      r.content = (Store.personal email).shown s := by
  obtain ⟨hs, hm⟩ := h
  rw [L3.MailboxService.getSieveScript, L3.MailboxSpec.run_requireSieveAddress_bind,
    if_neg (by rw [hs]; decide), L3.MailboxSpec.run_requireMailbox_bind, if_pos hm]
  exact ⟨_, rfl, rfl⟩

/-- The entries for a name are the same text, as often as it is listed. -/
theorem get_override (name : Str) (h : OneLine name) (t : Tree) :
    ((Store.override name h).get.run treeBox t).1 = .ok (.overrides
      (List.replicate ((Store.override name h).times t)
        ⟨name, (Store.override name h).shown (filesOf t)⟩)) := by
  have hfilter (l : List Str) (read : Str → Str) :
      (l.map fun rel => (⟨rel, read rel⟩ : RspamdOverrideFile)).filter (fun f => f.name = name) =
        List.replicate (l.count name) ⟨name, read name⟩ := by
    rw [List.filter_map]
    have e : l.filter ((fun f : RspamdOverrideFile => decide (f.name = name)) ∘
        fun rel => ⟨rel, read rel⟩) = List.replicate (l.count name) name := List.filter_eq name
    rw [e, List.map_replicate]
  rw [Store.get, Prog.run_bind, run_rspamdOverrideFiles]
  exact congrArg (fun l => Except.ok (Answer.overrides l)) (hfilter _ _)

/-- A get operation that may look at the store returns its text. -/
theorem get_of_open (x : Store) (t : Tree) (h : x.Open (filesOf t)) :
    ∃ a, (x.get.run treeBox t).1 = .ok a ∧
      a.contents = List.replicate (x.times t) (x.shown (filesOf t)) := by
  cases x with
  | fixed f =>
    obtain ⟨a, ha, hc⟩ := get_fixed h
    exact ⟨a, (run_onTree f.get t).1.trans ha, hc⟩
  | override name ho => exact ⟨_, get_override name ho t, List.map_replicate⟩
  | personal email =>
    obtain ⟨r, hr, hc⟩ := get_personal h
    refine ⟨.personal r, (run_onTree _ t).1.trans ?_, congrArg (fun c => [c]) hc⟩
    have e : (L3.MailboxService.getSieveScript email).run box (filesOf t) = (.ok r, _) :=
      Prod.ext hr rfl
    rw [Prog.run_bind, e]
    rfl

end

/-! ## Which file is whose -/

def fixedStores : List Fixed :=
  [.dovecot, .sieve .before, .sieve .after, .spam .rules, .spam .whitelistClients,
    .spam .whitelistRecipients, .spam .amavis, .ldap .users, .ldap .groups, .ldap .aliases,
    .ldap .domains, .fail2ban]

theorem mem_fixedStores (f : Fixed) : f ∈ fixedStores := by
  rcases f with _ | (_ | _) | (_ | _ | _ | _) | (_ | _ | _ | _) | _ <;> decide

theorem file_injective {f g : Fixed} (h : f.file = g.file) : f = g := by
  have hnd : (fixedStores.map Fixed.file).Nodup := by decide
  exact List.inj_on_of_nodup_map hnd (mem_fixedStores f) (mem_fixedStores g) h

/-- None of the fixed names is in a directory, holds an `@` or is that of the
accounts. -/
theorem file_fixed (f : Fixed) : '/' ∉ f.file ∧ '@' ∉ f.file ∧ f.file ≠ accountsFilename := by
  have hall : ∀ f ∈ fixedStores, '/' ∉ f.file ∧ '@' ∉ f.file ∧ f.file ≠ accountsFilename := by
    decide
  exact hall f (mem_fixedStores f)

theorem slash_override (name : Str) : '/' ∈ rspamdOverrideFilename name :=
  List.mem_append_right _ List.mem_cons_self

section
variable {email a b : Str} {x y : Store}

theorem file_personal (h : sieveAddress (normaliseEmail email) = true) :
    '/' ∉ L1.SieveAddress.sieveFilename (normaliseEmail email) ∧
      '@' ∈ L1.SieveAddress.sieveFilename (normaliseEmail email) := by
  have ht : Trim (normaliseEmail email) := trim_lower (trim_strip email)
  refine ⟨fun hm => ?_, List.mem_append_left _ (Plain.of_sieveAddress h ht).atSign⟩
  rcases List.mem_append.mp hm with hm | hm
  · rcases plain_of_sieveAddress h ht '/' hm with hc | hc
    · exact absurd hc (by decide)
    · exact absurd hc (by decide)
  · exact absurd hm (by decide)

/-- An address that is no file name is turned away before anything is read. -/
def Store.Named : Store → Prop
  | .personal email => sieveAddress (normaliseEmail email) = true
  | _ => True

theorem Store.Open.named {s : Files} (h : x.Open s) : x.Named := by
  cases x with
  | personal email => exact h.1
  | _ => trivial

/-- Stores that are not the same have different files: the fixed ones by the list, the
override files by the directory, the personal ones by the `@`. -/
theorem file_ne (hx : x.Named) (hy : y.Named) (h : ¬ Same x y) : x.file ≠ y.file := by
  have mem {c : Char} {f g : Str} (e : f = g) (hc : c ∈ f) : c ∈ g := e ▸ hc
  intro e
  cases x with
  | fixed f =>
    cases y with
    | fixed g => exact h (file_injective e ▸ .refl _)
    | override name ho => exact (file_fixed f).1 (mem e.symm (slash_override name))
    | personal email => exact (file_fixed f).2.1 (mem e.symm (file_personal hy).2)
  | override name ho =>
    cases y with
    | fixed g => exact (file_fixed g).1 (mem e (slash_override name))
    | override name' ho' =>
      obtain rfl : name = name' := (List.cons.inj (List.append_cancel_left e)).2
      exact h (.refl _)
    | personal email => exact (file_personal hy).1 (mem e (slash_override name))
  | personal email =>
    cases y with
    | fixed g => exact (file_fixed g).2.1 (mem e (file_personal hx).2)
    | override name ho => exact (file_personal hx).1 (mem e.symm (slash_override name))
    | personal email' => exact h (.personal (sieveFilename_inj.mp e))

/-- Only the override files are in a directory. -/
theorem slash_not_mem_scratch (hx : ∀ name ho, x ≠ .override name ho) (hn : x.Named) :
    '/' ∉ scratch x.file := by
  have plain {f : Str} (hf : '/' ∉ f) : '/' ∉ scratch f := fun hm =>
    (List.mem_append.mp hm).elim hf (by decide)
  cases x with
  | fixed f => exact plain (file_fixed f).1
  | override name ho => exact absurd rfl (hx name ho)
  | personal email => exact plain (file_personal hn).1

/-- No file name ends like a scratch name, but that of an override file may. -/
theorem file_ne_scratch (hx : ∀ name ho, x ≠ .override name ho) (hn : x.Named) :
    y.file ≠ scratch x.file := by
  intro e
  cases y with
  | fixed g =>
    have hall : ∀ g ∈ fixedStores, ¬ ".tmp".toList <:+ g.file := by decide
    exact ne_scratch (hall g (mem_fixedStores g)) _ e
  | override name ho =>
    have e : rspamdOverrideFilename name = scratch x.file := e
    exact slash_not_mem_scratch hx hn (e ▸ slash_override name)
  | personal email => exact L3.MailboxSpec.sieveFilename_ne_scratch _ _ e

theorem file_ne_accounts (hx : x.Named) : x.file ≠ accountsFilename := by
  intro e
  cases x with
  | fixed f => exact (file_fixed f).2.2 e
  | override name ho => exact absurd (e ▸ slash_override name : '/' ∈ accountsFilename) (by decide)
  | personal email => exact absurd (e ▸ (file_personal hx).2 : '@' ∈ accountsFilename) (by decide)

/-- The directives, which are shown with the override files, are in none of
these files. -/
theorem file_ne_commands (hx : x.Named) : x.file ≠ rspamdCommandsFilename := by
  have hslash : '/' ∈ rspamdCommandsFilename := by decide
  intro e
  cases x with
  | fixed f => exact (file_fixed f).1 (e.symm ▸ hslash : '/' ∈ (Store.fixed f).file)
  | personal email =>
    exact (file_personal hx).1 (e.symm ▸ hslash : '/' ∈ (Store.personal email).file)
  | override name ho => exact rspamdOverrideFilename_ne_commands name e

/-- The paths that a set operation changes; that of the scratch name of an override
file is another store's, if there is such a file. -/
def Store.Own (x : Store) (p : Str) : Prop :=
  p = configPath x.file ∨ p = configPath (scratch x.file) ∧ ∀ name ho, x ≠ .override name ho

theorem not_own_settings (x : Store) : ¬ x.Own dmsSettingsPath := by
  rintro (h | ⟨h, -⟩)
  · exact configPath_ne_dmsSettings _ h.symm
  · exact configPath_ne_dmsSettings _ h.symm

/-- A file that does not end in `.tmp` is not the scratch file of a store. -/
theorem not_own_of_ne {f : Str} (h : x.file ≠ f) (hf : ¬ ".tmp".toList <:+ f) :
    ¬ x.Own (configPath f) := by
  rintro (e | ⟨e, -⟩)
  · exact h (configPath_inj.mp e).symm
  · exact ne_scratch hf _ (configPath_inj.mp e)

theorem not_own_accounts (hx : x.Named) : ¬ x.Own (configPath accountsFilename) :=
  not_own_of_ne (file_ne_accounts hx) (by decide)

theorem not_own_commands (hx : x.Named) : ¬ x.Own (configPath rspamdCommandsFilename) :=
  not_own_of_ne (file_ne_commands hx) (by decide)

theorem not_own_file (hx : x.Named) (hy : y.Named) (h : ¬ Same x y) :
    ¬ x.Own (configPath y.file) := by
  rintro (e | ⟨e, hne⟩)
  · exact file_ne hx hy h (configPath_inj.mp e).symm
  · exact file_ne_scratch hne hx (configPath_inj.mp e)

/-- Only an override file is listed under its name. -/
theorem not_mem_namesIn {name q : Str} (ho : OneLine name) (hx : x.Named)
    (h : ¬ Same x (.override name ho)) (hq : x.Own q) : name ∉ namesIn rspamdOverrideDir q := by
  have outside {f : Str} (hf : '/' ∉ f) : name ∉ namesIn rspamdOverrideDir (configPath f) := by
    rw [namesIn_eq_nil fun hp => hf (hp.subset (List.mem_append_right _ List.mem_cons_self))]
    exact List.not_mem_nil
  rcases hq with rfl | ⟨rfl, hne⟩
  · cases x with
    | fixed f => exact outside (file_fixed f).1
    | personal email => exact outside (file_personal hx).1
    | override name' ho' =>
      have e : namesIn rspamdOverrideDir (configPath (rspamdOverrideFilename name')) = [name'] :=
        namesIn_file (by decide) ho'
      intro hm
      obtain rfl : name = name' := List.mem_singleton.mp (e ▸ hm)
      exact h (.refl _)
  · exact outside (slash_not_mem_scratch hne hx)

end

/-! ## What the others return -/

section
variable {x y : Store} {t u : Tree}

theorem issues_fixed (f : Fixed) :
    f.get.Issues (Cmd.ReadsIn fun p => p = dmsSettingsPath ∨ p = configPath f.file) := by
  cases f with
  | dovecot => exact ⟨.inr rfl, fun _ => trivial⟩
  | sieve scope => exact ⟨.inr rfl, fun _ => trivial⟩
  | spam scope => exact ⟨.inr rfl, fun _ => ⟨.inl rfl, fun _ => trivial⟩⟩
  | ldap scope =>
    exact ⟨.inr rfl, fun _ => ⟨.inl rfl, fun _ => ⟨.inl rfl, fun _ => trivial⟩⟩⟩
  | fail2ban =>
    refine Prog.issues_bind (Prog.issues_bind ⟨.inl rfl, fun _ => Prog.issues_raiseIf⟩ fun _ => ?_)
      fun _ => trivial
    exact ⟨.inr rfl, fun _ => trivial⟩

theorem issues_personal (email : Str) : (L3.MailboxService.getSieveScript email).Issues
    (Cmd.ReadsIn fun p => p = configPath accountsFilename ∨
      p = configPath (L1.SieveAddress.sieveFilename (normaliseEmail email))) := by
  rw [L3.MailboxService.getSieveScript, requireSieveAddress, Prog.bind_assoc]
  refine Prog.issues_bind Prog.issues_raiseIf fun _ => ?_
  exact Prog.issues_bind (p := requireMailbox (normaliseEmail email))
    ⟨.inl rfl, fun _ => Prog.issues_raiseIf⟩ fun _ => ⟨.inr rfl, fun _ => trivial⟩

/-- A program that reads one file besides the settings and the accounts does not
see the others. -/
theorem onTree_congr {α : Type} {R : Str → Prop} {p : Io α} (h : p.Issues (Cmd.ReadsIn R))
    (hR : ∀ q, R q → ¬ x.Own q) (hout : ∀ q, ¬ x.Own q → filesOf u q = filesOf t q) :
    ((onTree p).run treeBox u).1 = ((onTree p).run treeBox t).1 := by
  rw [(run_onTree p u).1, (run_onTree p t).1]
  exact run_congr h fun q hq => hout q (hR q hq)

/-- A get operation reads the file of its own store, the settings, the accounts and a
list of names. A change of the paths of another store does not show. -/
theorem get_congr (hx : x.Named) (h : ¬ Same x y)
    (hout : ∀ q, ¬ x.Own q → filesOf u q = filesOf t q) :
    (y.get.run treeBox u).1 = (y.get.run treeBox t).1 := by
  have hown (hy : y.Named) : ¬ x.Own (configPath y.file) := not_own_file hx hy h
  cases y with
  | fixed f =>
    refine onTree_congr (x := x) (issues_fixed f) ?_ hout
    rintro _ (rfl | rfl)
    · exact not_own_settings x
    · exact hown trivial
  | override name ho =>
    have hread : (Store.override name ho).shown (filesOf u) =
        (Store.override name ho).shown (filesOf t) := by
      rw [Store.shown, Files.read, hout _ (hown trivial)]
      rfl
    have htimes : (Store.override name ho).times u = (Store.override name ho).times t :=
      count_listConfigFiles hout fun _ hq => not_mem_namesIn ho hx h hq
    rw [get_override, get_override, hread, htimes]
  | personal email =>
    by_cases hn : sieveAddress (normaliseEmail email) = true
    · have hissues := Prog.issues_bind (issues_personal email)
        (f := fun r => .pure (Answer.personal r)) fun _ => trivial
      refine onTree_congr (x := x) hissues ?_ hout
      rintro _ (rfl | rfl)
      · exact not_own_accounts hx
      · exact hown hn
    · have refused (t : Tree) : ((Store.personal email).get.run treeBox t).1 =
          .error (badRequest [lit "Invalid mailbox address: ", .repr email]) := by
        refine (run_onTree _ t).1.trans ?_
        rw [Prog.run_bind, L3.MailboxService.getSieveScript,
          L3.MailboxSpec.run_requireSieveAddress_bind, if_pos ((Bool.not_eq_true _).mp hn)]
      rw [refused u, refused t]

/-- The order in which the paths are known does not matter. -/
theorem get_of_files (h : filesOf u = filesOf t) (y : Store) :
    (y.get.run treeBox u).1 = (y.get.run treeBox t).1 := by
  have hout (x : Store) : ∀ q, ¬ x.Own q → filesOf u q = filesOf t q :=
    fun q _ => congrFun h q
  by_cases hy : Same (.fixed .dovecot) y
  · cases hy
    exact get_congr (x := .fixed .fail2ban) trivial nofun (hout _)
  · exact get_congr (x := .fixed .dovecot) trivial hy (hout _)

/-- The override files can be got when the directives can be read. -/
theorem getRspamdOverrides_congr (hx : x.Named)
    (hout : ∀ q, ¬ x.Own q → filesOf u q = filesOf t q) :
    (∃ o v, getRspamdOverrides.run treeBox u = (.ok o, v)) ↔
      ∃ o v, getRspamdOverrides.run treeBox t = (.ok o, v) := by
  have hread : (filesOf u).read (configPath rspamdCommandsFilename) =
      (filesOf t).read (configPath rspamdCommandsFilename) := by
    rw [Files.read, hout _ (not_own_commands hx)]
    rfl
  have hsome : commandsOf u = commandsOf t := by rw [commandsOf, commandsOf, hread]
  rw [getRspamdOverrides_eq, getRspamdOverrides_eq, hsome]
  cases commandsOf t <;> simp

end

/-! ## Stores on their own -/

/-- The tree that a set operation leaves. -/
def after (readString : Str → Parsed) (x : Store) (content : Str) (t : Tree) : Tree :=
  ((x.set readString content).run treeBox t).2

def Accepts (readString : Str → Parsed) (x : Store) (content : Str) (t : Tree) : Prop :=
  ((x.set readString content).run treeBox t).1 = .ok ()

/-- The get operation returns the text, and no other for this store. -/
def Shows (x : Store) (t : Tree) (text : Str) : Prop :=
  ∃ a, (x.get.run treeBox t).1 = .ok a ∧ a.contents ≠ [] ∧ ∀ c ∈ a.contents, c = text

/-- What can be seen of a set operation. -/
structure Alone (readString : Str → Parsed) (x : Store) (content : Str) (t : Tree) : Prop where
  accepted : Accepts readString x content t →
    Shows x (after readString x content t) (universalNewlines (strip content))
  rejected : ¬ Accepts readString x content t → filesOf (after readString x content t) = filesOf t
  others : ∀ y, ¬ Same x y →
    (y.get.run treeBox (after readString x content t)).1 = (y.get.run treeBox t).1

/-- `get_rspamd_overrides`, which shows the override files next to the
directives, returns when it did before, and shows what there is. -/
structure Listed (readString : Str → Parsed) (x : Store) (content : Str) (t : Tree) : Prop where
  returns : (∃ o v, getRspamdOverrides.run treeBox (after readString x content t) = (.ok o, v)) ↔
    ∃ o v, getRspamdOverrides.run treeBox t = (.ok o, v)
  shows : ∀ o v, getRspamdOverrides.run treeBox (after readString x content t) = (.ok o, v) →
    rspamdOverrideFiles.run treeBox (after readString x content t) =
      (.ok o.overrideFiles, after readString x content t)

section
variable {readString : Str → Parsed} {x : Store} {content : Str} {t u : Tree}

/-- An override file is written, also when the text is empty. -/
theorem stored_override {name : Str} (ho : OneLine name) (content : Str) (s : Files) :
    ∃ text, stored s (.override name ho) content = s.write (rspamdOverrideFilename name) text := by
  obtain ⟨text, ht⟩ : ∃ text, managedText.written (strip content) = some text := by
    unfold Convention.written
    split <;> exact ⟨_, rfl⟩
  exact ⟨text, congrArg (replaced s _) ht⟩

theorem times_stored (h : filesOf u = stored (filesOf t) x content) : x.times u ≠ 0 := by
  cases x with
  | fixed f => exact one_ne_zero
  | personal email => exact one_ne_zero
  | override name ho =>
    obtain ⟨text, e⟩ := stored_override ho content (filesOf t)
    have hself : filesOf u (configPath (rspamdOverrideFilename name)) ≠ none := by
      rw [h, e, write_self]
      exact Option.some_ne_none _
    exact (List.count_pos_iff.mpr (mem_listConfigFiles (by decide) ho hself)).ne'

/-- The conditions of the get operation are in files that are left alone. -/
theorem Store.Open.stored (h : x.Open (filesOf t)) (hu : filesOf u = stored (filesOf t) x content) :
    x.Open (filesOf u) := by
  have same {q : Str} (hq : q ≠ configPath x.file) (hs : q ≠ configPath (scratch x.file)) :
      (filesOf u).read q = (filesOf t).read q := by
    rw [hu, Files.read, stored_outside hq hs]
    rfl
  cases x with
  | override name ho => exact h
  | personal email =>
    refine ⟨h.1, ?_⟩
    have hacc := same (fun e => file_ne_accounts h.named (configPath_inj.mp e.symm))
      fun e => ne_scratch (by decide) _ (configPath_inj.mp e)
    rw [L3.MailboxSpec.addresses, L3.MailboxSpec.lines, hacc]
    exact h.2
  | fixed f =>
    cases f with
    | fail2ban =>
      have hset := same (configPath_ne_dmsSettings _).symm (configPath_ne_dmsSettings _).symm
      rw [Store.Open, hset]
      exact h
    | _ => trivial

end

/-- No file is in the way of a write: where an override file is written, none has the
name with `.tmp` behind it. -/
def Clear (t : Tree) : Store → Prop
  | .override name _ => matchesRspamdFilename name = true →
    filesOf t (configPath (scratch (rspamdOverrideFilename name))) = none
  | _ => True

section
variable {readString : Str → Parsed} {x : Store} {content : Str} {t : Tree}

/-- Where an override file is written, the scratch name is gone. -/
theorem stored_scratch {name : Str} {ho : OneLine name} (s : Files) :
    stored s (.override name ho) content (configPath (scratch (rspamdOverrideFilename name))) =
      none := by
  have hne : configPath (scratch (rspamdOverrideFilename name)) ≠
      configPath (rspamdOverrideFilename name) := fun e => scratch_ne _ (configPath_inj.mp e)
  obtain ⟨text, e⟩ := stored_override ho content s
  rw [e, write_apply]
  exact (if_neg hne).trans (if_pos rfl)

/-- Where no file is in the way, a set operation changes the paths of its store only.
-/
theorem outside_of_clear (hc : Clear t x) (hopen : x.Open (filesOf t))
    (hs : filesOf (after readString x content t) = stored (filesOf t) x content) (q : Str)
    (hq : ¬ x.Own q) : filesOf (after readString x content t) q = filesOf t q := by
  have hself : q ≠ configPath x.file := fun e => hq (.inl e)
  rw [hs]
  by_cases hscratch : q = configPath (scratch x.file)
  · cases x with
    | override name ho =>
      have hnone : filesOf t q = none := hscratch ▸ hc hopen
      rw [hnone, hscratch]
      exact stored_scratch _
    | fixed f => exact absurd (.inr ⟨hscratch, nofun⟩) hq
    | personal email => exact absurd (.inr ⟨hscratch, nofun⟩) hq
  · exact stored_outside hself hscratch

/-- The scratch name is a store of its own. -/
theorem not_same_scratch {n : Str} (ho : OneLine n) (ho' : OneLine (scratch n)) :
    ¬ Same (.override n ho) (.override (scratch n) ho') := by
  intro h
  have hfile : ∀ {a b : Str} (ha : OneLine a) (hb : OneLine b),
      Same (.override a ha) (.override b hb) → a = b := by
    rintro a b ha hb ⟨⟩
    rfl
  exact scratch_ne n (hfile ho ho' h).symm

/-- A file in the way is another override file. It is listed once less after the write. -/
theorem times_scratch {name : Str} {ho : OneLine name} (ho' : OneLine (scratch name))
    (hm : matchesRspamdFilename name = true)
    (hs : filesOf t (configPath (scratch (rspamdOverrideFilename name))) ≠ none) :
    (Store.override (scratch name) ho').times t =
      (Store.override (scratch name) ho').times
        (after readString (.override name ho) content t) + 1 := by
  have h := outcome_override readString name ho content t
  rw [if_neg (by rw [hm]; decide)] at h
  obtain ⟨text, e⟩ := stored_override ho content (filesOf t)
  exact count_scratch (by decide) ho hs ((congrArg Prod.snd h).trans e)

/-- So the other one is not got as before. -/
theorem not_alone {name : Str} {ho : OneLine name} (hm : matchesRspamdFilename name = true)
    (hs : filesOf t (configPath (scratch (rspamdOverrideFilename name))) ≠ none) :
    ¬ Alone readString (.override name ho) content t := by
  intro h
  have ho' : OneLine (scratch name) := ho.append (by decide)
  have hother := h.others (.override _ ho') (not_same_scratch ho ho')
  rw [get_override, get_override] at hother
  have hlen := congrArg List.length (Answer.overrides.inj (Except.ok.inj hother))
  have htimes : (Store.override _ ho').times t =
      (Store.override _ ho').times (after readString (.override name ho) content t) + 1 :=
    times_scratch ho' hm hs
  rw [List.length_replicate, List.length_replicate] at hlen
  omega

end

/-- For every store, content and tree: a text that is accepted is read back, one that
is rejected changes no file, and neither can be seen in another store, if and only if
no file is in the way. -/
theorem stored_alone_iff (readString : Str → Parsed) (x : Store) (content : Str) (t : Tree) :
    Alone readString x content t ∧ Listed readString x content t ↔ Clear t x := by
  have shows (o : RspamdOverrides) (v : Tree)
      (h : getRspamdOverrides.run treeBox (after readString x content t) = (.ok o, v)) :
      rspamdOverrideFiles.run treeBox (after readString x content t) =
        (.ok o.overrideFiles, after readString x content t) := overrideFiles_of_getRspamdOverrides h
  constructor
  · rintro ⟨halone, -⟩
    cases x with
    | override name ho =>
      intro hm
      by_contra hs
      exact not_alone hm hs halone
    | fixed f => trivial
    | personal email => trivial
  intro hc
  rcases settles readString x content t with ⟨e, h⟩ | ⟨hopen, h⟩
  · have hr : ((x.set readString content).run treeBox t).1 = .error e := congrArg Prod.fst h
    have hs : filesOf (after readString x content t) = filesOf t := congrArg Prod.snd h
    refine ⟨⟨fun hok => ?_, fun _ => hs, fun y _ => get_of_files hs y⟩,
      getRspamdOverrides_congr (x := .fixed .dovecot) trivial fun q _ => congrFun hs q, shows⟩
    rw [Accepts, hr] at hok
    cases hok
  · have hs : filesOf (after readString x content t) = stored (filesOf t) x content :=
      congrArg Prod.snd h
    have hout := outside_of_clear hc hopen hs
    refine ⟨⟨fun _ => ?_, fun hn => absurd (congrArg Prod.fst h) hn,
      fun y hy => get_congr hopen.named hy hout⟩, getRspamdOverrides_congr hopen.named hout, shows⟩
    obtain ⟨a, ha, hc⟩ := get_of_open x _ (hopen.stored hs)
    refine ⟨a, ha, ?_, fun c hm => ?_⟩
    · rw [hc]
      exact fun e => times_stored hs (List.replicate_eq_nil_iff _ |>.mp e)
    · rw [hc, hs, shown_stored] at hm
      exact List.eq_of_mem_replicate hm

/-- A file of the directory whose name is that of another one and `.tmp`. -/
def sibling : Str := "actions.conf.tmp".toList

theorem oneLine_sibling : OneLine sibling := by decide

theorem oneLine_actions : OneLine "actions.conf".toList := by decide

def beside : Tree :=
  Dict.empty.set (configPath (rspamdOverrideFilename sibling)) "reject = 15;\n".toList

/-- Setting `actions.conf` deletes it. -/
theorem sibling_destroyed :
    Accepts (fun _ => .ok) (.override "actions.conf".toList oneLine_actions) [] beside ∧
      ((Store.override sibling oneLine_sibling).get.run treeBox beside).1 =
        .ok (.overrides [⟨sibling, "reject = 15;".toList⟩]) ∧
      ((Store.override sibling oneLine_sibling).get.run treeBox
        (after (fun _ => .ok) (.override "actions.conf".toList oneLine_actions) [] beside)).1 =
          .ok (.overrides []) ∧
      ¬ Alone (fun _ => .ok) (.override "actions.conf".toList oneLine_actions) [] beside := by
  have hbefore : ((Store.override sibling oneLine_sibling).get.run treeBox beside).1 =
      .ok (.overrides [⟨sibling, "reject = 15;".toList⟩]) := by
    have hshown : (Store.override sibling oneLine_sibling).shown (filesOf beside) =
        "reject = 15;".toList := by decide +kernel
    have htimes : (Store.override sibling oneLine_sibling).times beside = 1 := by decide +kernel
    rw [get_override, hshown, htimes]
    rfl
  have hafter : ((Store.override sibling oneLine_sibling).get.run treeBox
      (after (fun _ => .ok) (.override "actions.conf".toList oneLine_actions) [] beside)).1 =
        .ok (.overrides []) := by
    have htimes : (Store.override sibling oneLine_sibling).times
        (after (fun _ => .ok) (.override "actions.conf".toList oneLine_actions) [] beside) = 0 := by
      decide +kernel
    rw [get_override, htimes]
    rfl
  refine ⟨by unfold Accepts; decide +kernel, hbefore, hafter, fun h => ?_⟩
  have hother := h.others (.override sibling oneLine_sibling)
    (not_same_scratch (n := "actions.conf".toList) oneLine_actions oneLine_sibling)
  rw [hbefore, hafter] at hother
  cases hother

/-- A text that begins with the header of its file, with line breaks of three
kinds and blanks around it. -/
def headed : Str :=
  "# Managed by Mailserver UI — manual edits may be overwritten.\n\r\nauth_debug = yes\rx\r\n".toList

/-- The same, stripped and with `\n` alone. -/
def headedRead : Str :=
  "# Managed by Mailserver UI — manual edits may be overwritten.\n\nauth_debug = yes\nx".toList

/-- It comes back with its first line. -/
theorem stored_alone_header :
    Accepts (fun _ => .ok) (.fixed .dovecot) headed Dict.empty ∧
      Shows (.fixed .dovecot) (after (fun _ => .ok) (.fixed .dovecot) headed Dict.empty)
        headedRead := by
  have hok : Accepts (fun _ => .ok) (.fixed .dovecot) headed Dict.empty := by
    unfold Accepts
    decide +kernel
  have htext : universalNewlines (strip headed) = headedRead := by decide +kernel
  have h := (stored_alone_iff (fun _ => .ok) (.fixed .dovecot) headed Dict.empty).mpr trivial
  exact ⟨hok, htext ▸ h.1.accepted hok⟩

end MailserverUi.L4.FreeForm

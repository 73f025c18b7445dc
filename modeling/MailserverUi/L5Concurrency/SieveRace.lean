import MailserverUi.Core.LTS
import MailserverUi.L4App.MailboxRuns

/-!
# A personal Sieve script among deletions

`set_sieve_script` runs on a thread pool. It asks whether the account is there
and writes its file in two container calls, and `delete_mailbox` and
`create_mailbox`, which run on the event loop one after the other, may do
anything in between.

Results:
* `owned_of_timely`: at rest, every personal Sieve file is that of an account,
  and no account that came up has a script that was not set since, as long as a
  script is written only where no deletion has passed its file since the check.
* `inherited`: otherwise the script outlives its account, and the next one under
  this address has it.
-/
namespace MailserverUi.L5.SieveRace

open Py L1.MailFiles L1.SieveAddress L2.Errors L2.Container L3.MailboxService L3.MailboxSpec
open L3.Passwords
open L4.MailboxRuns (void salted)

/-! ## The system -/

/-- A call on the event loop. -/
inductive Call where
  | createMailbox (email : Str) (crypt : Nat → Option Str) (quota : Option Str)
  | deleteMailbox (email : Str)

def Call.prog (emailStr : Str → Option Str) : Call → Io Unit
  | .createMailbox email crypt quota =>
    void (L3.MailboxService.createMailbox emailStr crypt email quota)
  | .deleteMailbox email => L3.MailboxService.deleteMailbox email

structure State where
  files : Files
  /-- What is left of `set_sieve_script`, and the address it is called with. -/
  thread : Io MailboxSieveScript
  target : Str
  /-- What is left of the call on the event loop. -/
  loop : Io Unit
  /-- ghost: the accounts that came up, and had no script set since -/
  born : List Str
  /-- ghost: since `set_sieve_script` has checked the account, its Sieve file was
  deleted, and the account came up -/
  passed : Bool
  reborn : Bool

inductive Step where
  | set (email content : Str)
  | thread
  | call (c : Call)
  | loop

/-- The accounts that there are after a step and not before it. -/
def comers (s s' : Files) : List Str := (addresses s').filter (· ∉ addresses s)

def isCheck : Cmd → Bool
  | .readFile _ => true
  | _ => false

def isWrite : Cmd → Bool
  | .writeConfig _ _ => true
  | _ => false

/-- One container call of the thread. -/
def State.threadStep (s : State) (c : Cmd) (k : Reply c → Io MailboxSieveScript) : State :=
  { s with
    files := (box.exec c s.files).2
    thread := k (box.exec c s.files).1
    born := if isWrite c && !s.reborn then s.born.filter (· ≠ s.target) else s.born
    passed := if isCheck c then false else s.passed
    reborn := if isCheck c then false else s.reborn }

/-- One container call of the event loop. -/
def State.loopStep (s : State) (c : Cmd) (k : Reply c → Io Unit) : State :=
  let files := (box.exec c s.files).2
  { s with
    files := files
    loop := k (box.exec c s.files).1
    born := comers s.files files ++ s.born.filter (· ∈ addresses files)
    passed := s.passed || c = .deleteConfig (sieveFilename s.target)
    reborn := s.reborn || s.target ∈ comers s.files files }

/-- mirrors backend/app/routers/mailboxes.py:67-72,94-100,135-147 -/
def next (emailStr : Str → Option Str) (s : State) : Step → Option State
  | .set email content =>
    if s.thread.isOver then
      some { s with thread := setSieveScript email content, target := normaliseEmail email }
    else none
  | .thread =>
    match s.thread with
    | .call c k => some (s.threadStep c k)
    | _ => none
  | .call c => if s.loop.isOver then some { s with loop := c.prog emailStr } else none
  | .loop =>
    match s.loop with
    | .call c k => some (s.loopStep c k)
    | _ => none

/-- No call is in flight. -/
def Quiet (s : State) : Prop := s.thread.isOver = true ∧ s.loop.isOver = true

/-- Every personal Sieve file is that of an account. -/
def Owned (s : Files) : Prop := ∀ a, '@' ∈ a → sieve s a ≠ none → a ∈ addresses s

/-- No account that came up has a script, but for one that was set since. -/
def Blank (s : State) : Prop := ∀ a ∈ s.born, '@' ∈ a → sieve s.files a = none

def system (emailStr : Str → Option Str) : LTS State Step :=
  LTS.ofFn (fun s => Owned s.files ∧ Quiet s ∧ s.born = []) (next emailStr)

/-- The pattern does not match an address that is deleted only where it has no
Sieve file. -/
def Call.Matched (s : Files) : Call → Prop
  | .createMailbox _ _ _ => True
  | .deleteMailbox email =>
    '@' ∈ normaliseEmail email → sieveAddress (normaliseEmail email) = false →
      sieve s (normaliseEmail email) = none

/-- A script is written only where no deletion has passed its file since the
check. -/
def Timely (s : State) : Step → Prop
  | .thread =>
    match s.thread with
    | .call c _ => isWrite c = true → s.passed = false
    | _ => True
  | .call c => c.Matched s.files
  | _ => True

/-! ## What is left of a call -/

/-- The files a call writes besides the accounts and the Sieve file. -/
def Spare (f : Str) : Prop := f = quotasFilename ∨ f = virtualFilename

/-- Neither an account nor a Sieve file is written any more. -/
def Idle (p : Io Unit) : Prop := p.Issues (Cmd.WritesIn Spare)

/-- The Sieve file of `a` is deleted, whatever the replies, and no other, nor is
an account written. -/
def Sweeps (a : Str) : Io Unit → Prop
  | .call c k =>
    (c = .deleteConfig (sieveFilename a) ∧ ∀ r, Idle (k r)) ∨
      (c.WritesIn Spare ∧ ∀ r, Sweeps a (k r))
  | _ => False

section
variable {α : Type} {s s' : Files} {a b : Str}

theorem idle_of_isOver {p : Io Unit} (h : p.isOver = true) : Idle p := by
  cases p with
  | call c k => cases h
  | _ => trivial

theorem not_sweeps_of_isOver {p : Io Unit} (h : p.isOver = true) : ¬ Sweeps a p := by
  cases p with
  | call c k => cases h
  | _ => exact id

/-- A call before it changes the accounts, while it does, and after it has. What
is about to be written was read from the accounts as they are. -/
inductive Phase (emailStr : Str → Option Str) (s : Files) : Io Unit → Prop
  | taken (c : Call) (h : c.Matched s) : Phase emailStr s (c.prog emailStr)
  | adding {k : Unit → Io Unit} (line : Str) (h : ∀ r, Idle (k r)) :
      Phase emailStr s (.call (.writeConfig accountsFilename
        (unlines (lines s accountsFilename ++ [line]))) k)
  | removing {k : Unit → Io Unit} (a : Str) (hs : sieveAddress a = true → ∀ r, Sweeps a (k r))
      (hi : sieveAddress a = false → (∀ r, Idle (k r)) ∧ ('@' ∈ a → sieve s a = none)) :
      Phase emailStr s (.call (.writeConfig accountsFilename
        (unlines ((lines s accountsFilename).filter fun l => (splitAccount l).1 ≠ a))) k)
  | sweeping {p : Io Unit} (a : Str) (h : Sweeps a p) : Phase emailStr s p
  | idle {p : Io Unit} (h : Idle p) : Phase emailStr s p

/-- What the thread writes is not what a call on the loop reads. -/
theorem Phase.congr {emailStr : Str → Option Str} {p : Io Unit} (h : Phase emailStr s p)
    (hl : lines s' accountsFilename = lines s accountsFilename)
    (hs : ∀ a, sieveAddress a = false → sieve s' a = sieve s a) : Phase emailStr s' p := by
  cases h with
  | taken c h =>
    refine .taken c ?_
    cases c with
    | createMailbox email crypt quota => trivial
    | deleteMailbox email =>
      intro hat hm
      rw [hs _ hm]
      exact h hat hm
  | adding line h => exact hl ▸ .adding line h
  | removing a h hi =>
    refine hl ▸ .removing a h fun hm => ⟨(hi hm).1, fun hat => ?_⟩
    rw [hs a hm]
    exact (hi hm).2 hat
  | sweeping a h => exact .sweeping a h
  | idle h => exact .idle h

theorem issues_setGivenQuota (a : Str) (quota : Option Str) :
    (setGivenQuota a quota).Issues (Cmd.WritesIn Spare) := by
  match quota with
  | none | some [] => trivial
  | some (c :: q) => exact ⟨trivial, fun _ => ⟨.inl rfl, fun _ => trivial⟩⟩

theorem issues_mailbox (emailStr : Str → Option Str) (a : Str) (quota : Option Str) :
    (mailbox emailStr a quota).Issues (Cmd.WritesIn Spare) := by
  unfold mailbox
  split <;> trivial

theorem issues_removeQuotaLine (a : Str) : (removeQuotaLine a).Issues (Cmd.WritesIn Spare) := by
  refine Prog.issues_bind ⟨trivial, fun _ => trivial⟩ fun quotas => ?_
  split
  · trivial
  · exact ⟨.inl rfl, fun _ => trivial⟩

theorem issues_removeTargetFromAliases (a : Str) :
    (removeTargetFromAliases a).Issues (Cmd.WritesIn Spare) := by
  refine Prog.issues_bind ⟨trivial, fun _ => trivial⟩ fun ls => ?_
  dsimp only
  split
  · exact ⟨.inr rfl, fun _ => trivial⟩
  · trivial

/-- Neither of the two steps before the Sieve file raises. -/
theorem sweeps_removeQuotaLine {f : Unit → Io Unit} (h : Sweeps a (f ())) (b : Str) :
    Sweeps a (removeQuotaLine b >>= f) := by
  have rest (quotas : Dict Str Str) : Sweeps a ((if quotas.get? b = none then pure ()
      else writeLines quotasFilename (quotaLines (quotas.erase b))) >>= f) := by
    split
    · exact h
    · exact .inr ⟨.inl rfl, fun _ => h⟩
  exact .inr ⟨trivial, fun _ => rest _⟩

theorem sweeps_removeTargetFromAliases {f : Unit → Io Unit} (h : Sweeps a (f ())) (b : Str) :
    Sweeps a (removeTargetFromAliases b >>= f) := by
  have rest (ls : List Str) (hit : Str → Bool) : Sweeps a ((if ∃ line ∈ ls, hit line = true then
      writeLines virtualFilename (withoutTarget b hit ls) else pure ()) >>= f) := by
    split
    · exact .inr ⟨.inr rfl, fun _ => h⟩
    · exact h
  exact .inr ⟨trivial, fun _ => rest _ _⟩

/-- `delete_mailbox` once it has read the accounts. -/
theorem phase_deleteMailbox (emailStr : Str → Option Str) (a : Str)
    (h : '@' ∈ a → sieveAddress a = false → sieve s a = none) :
    Phase emailStr s (Prog.raiseIf (((lines s accountsFilename).filter fun l =>
        (splitAccount l).1 ≠ a).length = (lines s accountsFilename).length)
          (notFound "Mailbox" a) >>= fun _ => writeLines accountsFilename
        ((lines s accountsFilename).filter fun l => (splitAccount l).1 ≠ a) >>= fun _ =>
          removeQuotaLine a >>= fun _ => removeTargetFromAliases a >>= fun _ =>
            if sieveAddress a = true then deleteConfig (sieveFilename a) else pure ()) := by
  unfold Prog.raiseIf
  split
  · exact .idle trivial
  · refine .removing a (fun hm _ => ?_) fun hm => ⟨fun _ => ?_, fun hat => h hat hm⟩
    · refine sweeps_removeQuotaLine (sweeps_removeTargetFromAliases ?_ a) a
      rw [if_pos hm]
      exact .inl ⟨rfl, fun _ => trivial⟩
    · have hidle : Idle (removeQuotaLine a >>= fun _ => removeTargetFromAliases a >>= fun _ =>
          if sieveAddress a = true then deleteConfig (sieveFilename a) else pure ()) := by
        refine Prog.issues_bind (issues_removeQuotaLine a) fun _ => ?_
        refine Prog.issues_bind (issues_removeTargetFromAliases a) fun _ => ?_
        rw [if_neg (by rw [hm]; decide)]
        trivial
      exact hidle

/-- `create_mailbox` once it has read the accounts. -/
theorem phase_createMailbox (emailStr : Str → Option Str) (crypt : Nat → Option Str) (a : Str)
    (quota : Option Str) (b : Prop) [Decidable b] (e : ApiError) :
    Phase emailStr s (void (Prog.raiseIf b e >>= fun _ => hashPassword (crypt 0) >>= fun h =>
      writeLines accountsFilename (lines s accountsFilename ++ [formatPair '|' a h]) >>= fun _ =>
        setGivenQuota a quota >>= fun _ => mailbox emailStr a quota)) := by
  unfold Prog.raiseIf
  split
  · exact .idle trivial
  · cases hc : crypt 0 with
    | none => exact .idle trivial
    | some c =>
      have hidle : Idle (void (setGivenQuota a quota >>= fun _ => mailbox emailStr a quota)) := by
        refine Prog.issues_bind (Prog.issues_bind (issues_setGivenQuota a quota) fun _ => ?_)
          fun _ => trivial
        exact issues_mailbox emailStr a quota
      exact .adding (formatPair '|' a (dovecotHash c)) fun _ => hidle

/-- A call reads the accounts first. -/
theorem phase_taken (emailStr : Str → Option Str) (c : Call) (h : c.Matched s) :
    (c.prog emailStr).isOver = true ∨
      ∃ k, c.prog emailStr = .call (.readFile (configPath accountsFilename)) k ∧
        Phase emailStr s (k (s.read (configPath accountsFilename))) := by
  cases c with
  | createMailbox email crypt quota =>
    by_cases hat : '@' ∉ normaliseEmail email
    · have e : (Call.createMailbox email crypt quota).prog emailStr =
          .raise (badRequest [lit "A mailbox address must contain a domain"]) := by
        rw [Call.prog, createMailbox, Prog.raiseIf_bind_pos hat]
        rfl
      rw [e]
      exact .inl rfl
    · refine .inr ?_
      rw [Call.prog, createMailbox, Prog.raiseIf_bind_neg hat]
      exact ⟨_, rfl, phase_createMailbox emailStr crypt (normaliseEmail email) quota _ _⟩
  | deleteMailbox email => exact .inr ⟨_, rfl, phase_deleteMailbox emailStr _ h⟩

end

/-! ## One container call of the event loop -/

/-- What a container call on the loop does to the accounts and the Sieve files. -/
inductive Effect (s : Files) (c : Cmd) (k : Reply c → Io Unit) : Prop
  | spare (ha : addresses (box.exec c s).2 = addresses s)
      (hs : ∀ a, sieve (box.exec c s).2 a = sieve s a)
      (hp : ∀ a, Sweeps a (.call c k) → Sweeps a (k (box.exec c s).1))
  | swept (a : Str) (hc : c = .deleteConfig (sieveFilename a))
      (ha : addresses (box.exec c s).2 = addresses s)
      (hs : ∀ b, sieve (box.exec c s).2 b = if b = a then none else sieve s b)
      (hp : ∀ b, Sweeps b (.call c k) → b = a)
  | added (ha : ∀ a ∈ addresses s, a ∈ addresses (box.exec c s).2)
      (hs : ∀ a, sieve (box.exec c s).2 a = sieve s a) (hp : ∀ a, ¬ Sweeps a (.call c k))
  | removed (a : Str) (ha : ∀ b, b ∈ addresses (box.exec c s).2 ↔ b ∈ addresses s ∧ b ≠ a)
      (hs : ∀ b, sieve (box.exec c s).2 b = sieve s b) (hp : ∀ b, ¬ Sweeps b (.call c k))
      (hm : sieveAddress a = true → Sweeps a (k (box.exec c s).1))
      (hn : sieveAddress a = false → '@' ∈ a → sieve s a = none)

section
variable {emailStr : Str → Option Str} {s : Files} {c : Cmd} {k : Reply c → Io Unit} {a : Str}

theorem not_spare_accounts : ¬ Spare accountsFilename := by
  rintro (h | h) <;> exact absurd h (by decide)

theorem not_spare_sieve (a : Str) : ¬ Spare (sieveFilename a) := by
  rintro (h | h)
  · exact (quotas_ne_sieve a).ne h.symm
  · exact (virtual_ne_sieve a).ne h.symm

/-- A call that writes a spare file at most. -/
theorem effect_spare (h : c.WritesIn Spare) : Effect s c k := by
  have hacc := exec_of_writesIn h (not_touched not_spare_accounts (by decide)) s
  have hsieve (a : Str) :=
    exec_of_writesIn h (not_touched (not_spare_sieve a) (sieveFilename_plain a)) s
  refine .spare ?_ hsieve fun a hp => ?_
  · rw [addresses, lines, Files.read, hacc]
    rfl
  · rcases hp with ⟨rfl, -⟩ | ⟨-, hp⟩
    · exact absurd h (not_spare_sieve a)
    · exact hp _

theorem not_sweeps_accounts {text : Str} {k : Unit → Io Unit} :
    ¬ Sweeps a (.call (.writeConfig accountsFilename text) k) := by
  rintro (⟨h, -⟩ | ⟨h, -⟩)
  · cases h
  · exact not_spare_accounts h

theorem effect_loop (h : Phase emailStr s (.call c k)) :
    Phase emailStr (box.exec c s).2 (k (box.exec c s).1) ∧ Effect s c k := by
  have hsieve (ls : List Str) (b : Str) : sieve (putLines s accountsFilename ls) b = sieve s b :=
    sieve_putLines (accounts_ne_sieve b).symm s ls
  generalize hp : Prog.call c k = p at h
  cases h with
  | taken c' hm =>
    rcases phase_taken emailStr c' hm with hover | ⟨k', he, hphase⟩
    · rw [← hp] at hover
      cases hover
    · rw [← hp] at he
      cases he
      exact ⟨hphase, effect_spare trivial⟩
  | adding line hk =>
    cases hp
    exact ⟨.idle (hk _), .added (fun a ha => mem_addresses_append ha line) (hsieve _)
      fun a => not_sweeps_accounts⟩
  | removing a hs hi =>
    cases hp
    have hlines : ∀ l ∈ (lines s accountsFilename).filter fun l => (splitAccount l).1 ≠ a,
        IsLine l := fun l hl => isLine_of_mem_lines (List.mem_of_mem_filter hl)
    have haddr (b : Str) : b ∈ addresses (putLines s accountsFilename
        ((lines s accountsFilename).filter fun l => (splitAccount l).1 ≠ a)) ↔
          b ∈ addresses s ∧ b ≠ a := by
      rw [addresses, lines_putLines hlines, addressesOf_filter, List.mem_filter, decide_eq_true_eq,
        addresses]
    refine ⟨?_, .removed a haddr (hsieve _) (fun b => not_sweeps_accounts) (fun hm => hs hm _)
      fun hm => (hi hm).2⟩
    cases hm : sieveAddress a with
    | true => exact .sweeping a (hs hm _)
    | false => exact .idle ((hi hm).1 _)
  | sweeping a h =>
    cases hp
    rcases h with ⟨rfl, hk⟩ | ⟨hc, hk⟩
    · refine ⟨.idle (hk _), .swept a rfl ?_ (fun b => ?_) fun b hb => ?_⟩
      · exact congrArg addressesOf (lines_delete_ne (accounts_ne_sieve a) s)
      · exact sieve_delete s a b
      · rcases hb with ⟨e, -⟩ | ⟨e, -⟩
        · exact (sieveFilename_inj.mp (Cmd.deleteConfig.inj e)).symm
        · exact absurd e (not_spare_sieve a)
    · exact ⟨.sweeping a (hk _), effect_spare hc⟩
  | idle h =>
    cases hp
    exact ⟨.idle (h.2 _), effect_spare h.1⟩

end

/-! ## What a run keeps -/

/-- The account is there, or its deletion has yet to come to the Sieve file. -/
def Kept (s : State) (a : Str) : Prop := a ∈ addresses s.files ∨ Sweeps a s.loop

/-- The file of the script is written or deleted. -/
def store (a content : Str) : Io MailboxSieveScript :=
  if strip content = [] then
    deleteConfig (sieveFilename a) >>= fun _ => .pure ⟨a, [], false, true⟩
  else
    writeConfig (sieveFilename a) (strip content ++ ['\n']) >>= fun _ =>
      .pure ⟨a, strip content, true, true⟩

/-- `set_sieve_script` before its check, between its two container calls, and
after them. -/
inductive Thread (s : State) : Prop
  | ended (h : s.thread.isOver = true)
  | checking (content : Str) (hm : sieveAddress s.target = true)
      (h : s.thread = requireMailbox s.target >>= fun _ => store s.target content)
  | storing (content : Str) (hm : sieveAddress s.target = true)
      (h : s.thread = store s.target content) (hp : s.passed = false → Kept s s.target)
      (hr : s.reborn = true → s.passed = true)

structure Inv (emailStr : Str → Option Str) (s : State) : Prop where
  phase : Phase emailStr s.files s.loop
  thread : Thread s
  owned : ∀ a, '@' ∈ a → sieve s.files a ≠ none → Kept s a
  blank : Blank s

section
variable {emailStr : Str → Option Str} {s : State} {a : Str}

theorem Kept.of_isOver (h : Kept s a) (hover : s.loop.isOver = true) : a ∈ addresses s.files :=
  h.resolve_right (not_sweeps_of_isOver hover)

/-- The deletion of an account comes to its Sieve file. -/
theorem Kept.loopStep {c : Cmd} {k : Reply c → Io Unit} (h : Kept s a) (hl : s.loop = .call c k)
    (he : Effect s.files c k) (hne : c ≠ .deleteConfig (sieveFilename a))
    (hm : sieveAddress a = false → '@' ∈ a ∧ sieve s.files a ≠ none) :
    Kept (s.loopStep c k) a := by
  rw [Kept, hl] at h
  cases he with
  | spare ha hs hp => exact h.imp (fun h => ha ▸ h) (hp a)
  | swept b hc ha hs hp =>
    refine .inl (ha ▸ h.resolve_right fun hw => hne ?_)
    rw [hp a hw, hc]
  | added ha hs hp => exact .inl (ha a (h.resolve_right (hp a)))
  | removed b ha hs hp hmatch hn =>
    have hacc := h.resolve_right (hp a)
    by_cases hab : a = b
    · subst hab
      cases hma : sieveAddress a with
      | true => exact .inr (hmatch hma)
      | false => exact absurd (hn hma (hm hma).1) (hm hma).2
    · exact .inl ((ha a).mpr ⟨hacc, hab⟩)

/-- A Sieve file that is not deleted is as it was. -/
theorem Effect.sieve_eq {c : Cmd} {k : Reply c → Io Unit} {s : Files} (he : Effect s c k) {a : Str}
    (hne : c ≠ .deleteConfig (sieveFilename a)) : sieve (box.exec c s).2 a = sieve s a := by
  cases he with
  | spare ha hs hp => exact hs a
  | swept b hc ha hs hp => rw [hs a, if_neg fun e => hne (by rw [e, hc])]
  | added ha hs hp => exact hs a
  | removed b ha hs hp hmatch hn => exact hs a

/-- An account only comes up where there is no Sieve file. -/
theorem not_kept_of_comes {c : Cmd} {k : Reply c → Io Unit} (hl : s.loop = .call c k)
    (he : Effect s.files c k) (h : a ∈ comers s.files (box.exec c s.files).2) :
    ¬ Kept s a ∧ c ≠ .deleteConfig (sieveFilename a) := by
  obtain ⟨hnew, hold⟩ := List.mem_filter.mp h
  have hold : a ∉ addresses s.files := by simpa using hold
  rw [Kept, hl]
  cases he with
  | spare ha hs hp => exact absurd (ha ▸ hnew) hold
  | swept b hc ha hs hp => exact absurd (ha ▸ hnew) hold
  | added ha hs hp =>
    refine ⟨fun hk => hk.elim hold (hp a), ?_⟩
    rintro rfl
    exact hold (by rwa [addresses, box, lines_delete_ne (accounts_ne_sieve a)] at hnew)
  | removed b ha hs hp hmatch hn => exact absurd ((ha a).mp hnew).1 hold

theorem inv_loop {c : Cmd} {k : Reply c → Io Unit} (h : Inv emailStr s) (hl : s.loop = .call c k) :
    Inv emailStr (s.loopStep c k) := by
  obtain ⟨hphase, he⟩ := effect_loop (hl ▸ h.phase)
  have hdel {a : Str} (e : c = .deleteConfig (sieveFilename a)) :
      sieve (box.exec c s.files).2 a = none := by
    rw [e]
    exact (sieve_delete s.files a a).trans (if_pos rfl)
  refine ⟨hphase, ?_, fun a hat hs => ?_, fun a ha hat => ?_⟩
  · -- the thread has not moved
    cases h.thread with
    | ended h => exact .ended h
    | checking content hm h => exact .checking content hm h
    | storing content hm ht hp hr =>
      refine .storing content hm ht (fun hpass => ?_) fun hborn => ?_
      · have hpass : s.passed = false ∧ c ≠ .deleteConfig (sieveFilename s.target) := by
          simpa [State.loopStep] using hpass
        refine (hp hpass.1).loopStep hl he hpass.2 fun hm' => ?_
        exact absurd (hm.symm.trans hm') (by decide)
      · have hborn : s.reborn = true ∨ s.target ∈ comers s.files (box.exec c s.files).2 := by
          simpa [State.loopStep] using hborn
        have hpass : s.passed = true := by
          rcases hborn with hb | hb
          · exact hr hb
          · by_contra hf
            exact (not_kept_of_comes hl he hb).1 (hp ((Bool.not_eq_true _).mp hf))
        simp [State.loopStep, hpass]
  · have hne : c ≠ .deleteConfig (sieveFilename a) := fun e => hs (hdel e)
    have hs : sieve s.files a ≠ none := he.sieve_eq hne ▸ hs
    exact (h.owned a hat hs).loopStep hl he hne fun _ => ⟨hat, hs⟩
  · by_cases hc : c = .deleteConfig (sieveFilename a)
    · exact hdel hc
    · refine (he.sieve_eq hc).trans ?_
      rcases List.mem_append.mp ha with ha | ha
      · by_contra hs
        exact (not_kept_of_comes hl he ha).1 (h.owned a hat hs)
      · exact h.blank a (List.mem_filter.mp ha).1 hat

/-- `set_sieve_script`, whose check is its first container call. -/
theorem setSieveScript_eq (email content : Str) : setSieveScript email content =
    if sieveAddress (normaliseEmail email) = false then
      .raise (badRequest [lit "Invalid mailbox address: ", .repr email])
    else requireMailbox (normaliseEmail email) >>= fun _ =>
      store (normaliseEmail email) content := by
  rw [setSieveScript, requireSieveAddress, Prog.bind_assoc]
  split
  · rename_i h
    rw [Prog.raiseIf_bind_pos h]
  · rename_i h
    rw [Prog.raiseIf_bind_neg h]
    rfl

theorem inv_set (h : Inv emailStr s) (email content : Str) :
    Inv emailStr { s with
      thread := setSieveScript email content
      target := normaliseEmail email } := by
  refine ⟨h.phase, ?_, h.owned, h.blank⟩
  cases hm : sieveAddress (normaliseEmail email) with
  | false =>
    refine .ended ?_
    rw [setSieveScript_eq, if_pos hm]
    rfl
  | true =>
    refine .checking content hm ?_
    rw [setSieveScript_eq, if_neg (by rw [hm]; decide)]

theorem inv_call (h : Inv emailStr s) (hover : s.loop.isOver = true) {c : Call}
    (hc : c.Matched s.files) : Inv emailStr { s with loop := c.prog emailStr } := by
  refine ⟨.taken c hc, ?_, fun a hat hs => .inl ((h.owned a hat hs).of_isOver hover), h.blank⟩
  cases h.thread with
  | ended h => exact .ended h
  | checking content hm h => exact .checking content hm h
  | storing content hm ht hp hr =>
    exact .storing content hm ht (fun hpass => .inl ((hp hpass).of_isOver hover)) hr

/-- What follows the check, given what it has read. -/
def checked (a content accounts : Str) : Io MailboxSieveScript :=
  Prog.raiseIf (a ∉ addressesOf (linesOf accounts)) (notFound "Mailbox" a) >>= fun _ =>
    store a content

/-- The account is looked up. -/
theorem inv_check (h : Inv emailStr s) {content : Str} (hm : sieveAddress s.target = true)
    (ht : s.thread = requireMailbox s.target >>= fun _ => store s.target content) {c : Cmd}
    {k : Reply c → Io MailboxSieveScript} (hk : s.thread = .call c k) :
    Inv emailStr (s.threadStep c k) := by
  have ht : s.thread =
    .call (.readFile (configPath accountsFilename)) (checked s.target content) := ht
  cases hk.symm.trans ht
  refine ⟨h.phase, ?_, h.owned, h.blank⟩
  have hreply : (s.threadStep (.readFile (configPath accountsFilename))
      (checked s.target content)).thread =
    (Prog.raiseIf (s.target ∉ addresses s.files) (notFound "Mailbox" s.target) >>= fun _ =>
      store s.target content) := rfl
  by_cases hacc : s.target ∈ addresses s.files
  · rw [Prog.raiseIf_bind_neg (not_not.mpr hacc)] at hreply
    exact .storing content hm hreply (fun _ => .inl hacc) nofun
  · rw [Prog.raiseIf_bind_pos hacc] at hreply
    refine .ended ?_
    rw [hreply]
    rfl

/-- What the second container call does to the files. -/
theorem store_cases {a content : Str} {c : Cmd} {k : Reply c → Io MailboxSieveScript}
    (h : store a content = .call c k) (s : Files) :
    isCheck c = false ∧ (∀ r, (k r).isOver = true) ∧
      lines (box.exec c s).2 accountsFilename = lines s accountsFilename ∧
      ∃ text : Option Str, (isWrite c = false → text = none) ∧
        ∀ b, sieve (box.exec c s).2 b = if b = a then text else sieve s b := by
  unfold store at h
  split at h
  · cases h
    exact ⟨rfl, fun _ => rfl, lines_delete_ne (accounts_ne_sieve a) s, none, fun _ => rfl,
      sieve_delete s a⟩
  · cases h
    exact ⟨rfl, fun _ => rfl, lines_write_ne (accounts_ne_sieve a) s _, some _, nofun,
      sieve_write s a _⟩

/-- The script is written or deleted. -/
theorem inv_store (h : Inv emailStr s) {content : Str} (hm : sieveAddress s.target = true)
    (ht : s.thread = store s.target content) (hp : s.passed = false → Kept s s.target)
    (hr : s.reborn = true → s.passed = true) {c : Cmd} {k : Reply c → Io MailboxSieveScript}
    (hk : s.thread = .call c k) (hg : isWrite c = true → s.passed = false) :
    Inv emailStr (s.threadStep c k) := by
  obtain ⟨-, hover, hlines, text, htext, hsieve⟩ := store_cases (ht.symm.trans hk) s.files
  have hkept {a : Str} (hka : Kept s a) : Kept (s.threadStep c k) a := by
    rcases hka with hka | hka
    · refine .inl ?_
      rw [addresses, State.threadStep, hlines]
      exact hka
    · exact .inr hka
  refine ⟨h.phase.congr hlines fun a hn => (hsieve a).trans (if_neg ?_), .ended (hover _),
    fun a hat hs => hkept ?_, fun a ha hat => (hsieve a).trans ?_⟩
  · rintro rfl
    exact absurd (hm.symm.trans hn) (by decide)
  · have hs : (if a = s.target then text else sieve s.files a) ≠ none := hsieve a ▸ hs
    by_cases hat' : a = s.target
    · rw [if_pos hat'] at hs
      have hw : isWrite c = true := by
        by_contra hw
        exact hs (htext ((Bool.not_eq_true _).mp hw))
      exact hat' ▸ hp (hg hw)
    · rw [if_neg hat'] at hs
      exact h.owned a hat hs
  · cases hw : isWrite c with
    | false =>
      have ha : a ∈ s.born := by simpa [State.threadStep, hw] using ha
      rw [htext hw, h.blank a ha hat, ite_self]
    | true =>
      -- the account has not come up since the check
      have hborn : s.reborn = false := by
        by_contra hb
        exact absurd ((hg hw).symm.trans (hr ((Bool.not_eq_false _).mp hb))) (by decide)
      have ha : a ∈ s.born ∧ a ≠ s.target := by simpa [State.threadStep, hw, hborn] using ha
      rw [if_neg ha.2]
      exact h.blank a ha.1 hat

theorem inv_init (h : (system emailStr).init s) : Inv emailStr s where
  phase := .idle (idle_of_isOver h.2.1.2)
  thread := .ended h.2.1.1
  owned a hat hs := .inl (h.1 a hat hs)
  blank a ha := by
    rw [h.2.2] at ha
    exact absurd ha List.not_mem_nil

theorem inv_step {s' : State} {l : Step} (h : Inv emailStr s) (hg : Timely s l)
    (hs : next emailStr s l = some s') : Inv emailStr s' := by
  cases l with
  | set email content =>
    obtain ⟨-, hs⟩ := Option.ite_none_right_eq_some.mp hs
    cases hs
    exact inv_set h email content
  | call c =>
    obtain ⟨hover, hs⟩ := Option.ite_none_right_eq_some.mp hs
    cases hs
    exact inv_call h hover hg
  | loop =>
    cases hl : s.loop with
    | call c k =>
      rw [next, hl] at hs
      cases hs
      exact inv_loop h hl
    | _ => simp [next, hl] at hs
  | thread =>
    cases ht : s.thread with
    | call c k =>
      rw [next, ht] at hs
      cases hs
      have hg : isWrite c = true → s.passed = false := by
        rw [Timely, ht] at hg
        exact hg
      cases h.thread with
      | ended h =>
        rw [ht] at h
        cases h
      | checking content hm h' => exact inv_check h hm h' ht
      | storing content hm h' hp hr => exact inv_store h hm h' hp hr ht hg
    | _ => simp [next, ht] at hs

theorem inv_inductive (emailStr : Str → Option Str) :
    ((system emailStr).guard Timely).Inductive (Inv emailStr) where
  init _ := inv_init
  step _ _ _ h hs := inv_step h hs.1 hs.2

end

/-- **At rest, every personal Sieve file is that of an account, and an account
that came up has no script that was not set since**, in every interleaving in
which scripts are written before a deletion passes their file. -/
theorem owned_of_timely (emailStr : Str → Option Str) (s : State)
    (h : ((system emailStr).guard Timely).Reachable s) (hq : Quiet s) :
    Owned s.files ∧ Blank s := by
  have hinv := (inv_inductive emailStr).reachable s h
  exact ⟨fun a hat hs => (hinv.owned a hat hs).of_isOver hq.2, hinv.blank⟩

/-! ## One account -/

instance (s : Files) (c : Call) : Decidable (c.Matched s) := by
  unfold Call.Matched
  split <;> infer_instance

instance (s : State) (l : Step) : Decidable (Timely s l) := by
  unfold Timely
  split
  · split <;> infer_instance
  · infer_instance
  · infer_instance

def account : Str := "a@x.org".toList

def oneAccount : Files := fun p =>
  if p = configPath accountsFilename then some "a@x.org|{SHA512-CRYPT}h\n".toList else none

def atRest : State := ⟨oneAccount, .raise .internal, [], .pure (), [], false, false⟩

theorem init_atRest : (system some).init atRest := by
  refine ⟨fun a _ hs => ?_, ⟨rfl, rfl⟩, rfl⟩
  have hne : configPath (sieveFilename a) ≠ configPath accountsFilename :=
    fun e => (accounts_ne_sieve a).ne (configPath_inj.mp e).symm
  exact absurd (if_neg hne) hs

def setScript : Step := .set account "redirect \"b@y.org\";".toList

def delete : Step := .call (.deleteMailbox account)

def create : Step := .call (.createMailbox account salted none)

/-- At rest, with these accounts, of which the last ones came up. -/
def settled (accounts born : List Str) (s : State) : Bool :=
  s.thread.isOver && s.loop.isOver && addresses s.files = accounts && s.born = born

/-- The script is written after the account has gone and before the deletion
comes to its file. The next account has none. -/
theorem owned_of_timely_next :
    ∃ s, ((system some).guard Timely).Reachable s ∧ addresses s.files = [account] ∧
      s.born = [account] ∧ Owned s.files ∧ Blank s := by
  obtain ⟨s, hs, hp⟩ := LTS.guard_reachable_of_exec (f := next some) (G := Timely) init_atRest
    [setScript, .thread, delete, .loop, .loop, .thread, .loop, .loop, .loop, create, .loop, .loop]
    (settled [account] [account]) (by decide +kernel)
  simp only [settled, Bool.and_eq_true, decide_eq_true_eq] at hp
  obtain ⟨⟨⟨ht, hl⟩, hacc⟩, hborn⟩ := hp
  obtain ⟨howned, hblank⟩ := owned_of_timely some s hs ⟨ht, hl⟩
  exact ⟨s, hs, hacc, hborn, howned, hblank⟩

/-- The script is written after the deletion. It belongs to no account, and then
to the next one. -/
theorem inherited :
    (∃ s, (system some).Reachable s ∧ Quiet s ∧ ¬ Owned s.files) ∧
      ∃ s, (system some).Reachable s ∧ Quiet s ∧ ¬ Blank s := by
  constructor
  · obtain ⟨s, hs, hp⟩ := LTS.reachable_of_exec (f := next some) init_atRest
      [setScript, .thread, delete, .loop, .loop, .loop, .loop, .loop, .thread]
      (fun s => settled [] [] s && (sieve s.files account).isSome) (by decide +kernel)
    simp only [settled, Bool.and_eq_true, decide_eq_true_eq] at hp
    obtain ⟨⟨⟨⟨ht, hl⟩, hacc⟩, -⟩, hscript⟩ := hp
    refine ⟨s, hs, ⟨ht, hl⟩, fun h => ?_⟩
    have hmem := h account (by decide) (Option.isSome_iff_ne_none.mp hscript)
    rw [hacc] at hmem
    exact absurd hmem List.not_mem_nil
  · obtain ⟨s, hs, hp⟩ := LTS.reachable_of_exec (f := next some) init_atRest
      [setScript, .thread, delete, .loop, .loop, .loop, .loop, .loop, .thread, create, .loop, .loop]
      (fun s => settled [account] [account] s && (sieve s.files account).isSome) (by decide +kernel)
    simp only [settled, Bool.and_eq_true, decide_eq_true_eq] at hp
    obtain ⟨⟨⟨⟨ht, hl⟩, -⟩, hborn⟩, hscript⟩ := hp
    refine ⟨s, hs, ⟨ht, hl⟩, fun h => ?_⟩
    have hnone := h account (hborn ▸ List.mem_singleton.mpr rfl) (by decide)
    rw [hnone] at hscript
    cases hscript

end MailserverUi.L5.SieveRace

import MailserverUi.Core.LTS
import MailserverUi.L4App.MailboxCreate

/-!
# Runs of mailbox operations

The accounts, quotas, aliases and Sieve files of an installation that started
out empty, after any sequence of the operations of `mailbox_service`.

* `separate_of_guarded`: no address is both an account and the source of an
  alias, at any point a container command may fail, as long as no account is
  created under an address that is an alias source. `add_alias` checks for
  accounts; `create_mailbox` does not check for aliases, and
  `account_and_alias` is a run that has both.
* `consistent_of_reachable`: when every container command succeeds, accounts
  are distinct, and quotas, alias targets and Sieve files belong to accounts,
  for addresses that `_SIEVE_ADDRESS_RE` matches.
-/
namespace MailserverUi.L4.MailboxRuns

open Py L1.MailFiles L1.SieveAddress L2.Errors L2.Container L3.Passwords L3.MailboxService
open L3.MailboxSpec MailboxCreate

/-! ## Operations -/

inductive Op where
  | createMailbox (email : Str) (crypt : Nat → Option Str) (quota : Option Str)
  | deleteMailbox (email : Str)
  | setPassword (email : Str) (crypt : Nat → Option Str)
  | setQuota (email : Str) (quota : Option Str)
  | addAlias (email aliasEmail : Str)
  | deleteAlias (email aliasEmail : Str)
  | setSieveScript (email content : Str)
  | deleteSieveScript (email : Str)

/-- The call without its result. -/
def void {α : Type} (p : Io α) : Io Unit := p >>= fun _ => .pure ()

def Op.prog (emailStr : Str → Option Str) : Op → Io Unit
  | .createMailbox email crypt quota =>
    void (L3.MailboxService.createMailbox emailStr crypt email quota)
  | .deleteMailbox email => L3.MailboxService.deleteMailbox email
  | .setPassword email crypt => void (L3.MailboxService.setPassword emailStr crypt email)
  | .setQuota email quota => void (L3.MailboxService.setQuota emailStr email quota)
  | .addAlias email aliasEmail => void (L3.MailboxService.addAlias emailStr email aliasEmail)
  | .deleteAlias email aliasEmail => L3.MailboxService.deleteAlias email aliasEmail
  | .setSieveScript email content => void (L3.MailboxService.setSieveScript email content)
  | .deleteSieveScript email => L3.MailboxService.deleteSieveScript email

/-- `sha512_crypt.hash` returns no blank. -/
def Crypt (crypt : Nat → Option Str) : Prop := ∀ n c, crypt n = some c → NoSpace c

/-- Quotas as the request schemas have them, and hashes as passlib makes
them. -/
def Op.WellFormed : Op → Prop
  | .createMailbox _ crypt quota => Crypt crypt ∧ ∀ q, quota = some q → IsQuotaStr q
  | .setPassword _ crypt => Crypt crypt
  | .setQuota _ quota => ∀ q, quota = some q → IsQuotaStr q
  | _ => True

/-- The two addresses that a payload and not the path carries are checked. -/
def Op.Payload : Op → Prop
  | .createMailbox email _ _ => IsEmail email
  | .addAlias _ aliasEmail => IsEmail aliasEmail
  | _ => True

/-- The addresses an operation is called with. -/
def Op.args : Op → List Str
  | .createMailbox email _ _ | .deleteMailbox email | .setPassword email _ | .setQuota email _
  | .setSieveScript email _ | .deleteSieveScript email => [email]
  | .addAlias email aliasEmail | .deleteAlias email aliasEmail => [email, aliasEmail]

theorem run_void {α : Type} (p : Io α) (s : Files) : ((void p).run box s).2 = (p.run box s).2 := by
  rw [void, Prog.run_bind]
  rcases p.run box s with ⟨_ | _, _⟩ <;> rfl

theorem always_void {α : Type} {I : Files → Prop} {p : Io α} {s : Files}
    (h : p.Always box I s) : (void p).Always box I s :=
  Prog.always_bind h fun _ s' e => by
    have := h.run
    rw [e] at this
    exact this

/-! ## Accounts and alias sources -/

/-- No account is the source of an alias. -/
def Separate (s : Files) : Prop :=
  ∀ a ∈ addresses s, ∀ l ∈ lines s virtualFilename, (parseAlias l).1 ≠ a

/-- Only the account and the alias lines count. -/
theorem Separate.congr {s s' : Files} (h : Separate s)
    (ha : lines s' accountsFilename = lines s accountsFilename)
    (hv : lines s' virtualFilename = lines s virtualFilename) : Separate s' := by
  unfold Separate addresses
  rw [ha, hv]
  exact h

/-- Fewer accounts and fewer alias sources. -/
theorem Separate.mono {s s' : Files} (h : Separate s)
    (ha : ∀ a ∈ addresses s', a ∈ addresses s)
    (hv : ∀ l ∈ lines s' virtualFilename, ∃ l₀ ∈ lines s virtualFilename,
      (parseAlias l).1 = (parseAlias l₀).1) : Separate s' := by
  intro a hm l hl
  obtain ⟨l₀, hl₀, e⟩ := hv l hl
  rw [e]
  exact h a (ha a hm) l₀ hl₀

section
variable {s : Files} {a : Str}

theorem Separate.dropQuota (h : Separate s) (a : Str) : Separate (dropQuota s a) :=
  h.congr (lines_dropQuota_ne s a accounts_ne_quotas) (lines_dropQuota_ne s a virtual_ne_quotas)

theorem Separate.putQuotas (h : Separate s) (d : Dict Str Str) : Separate (putQuotas s d) :=
  h.congr (lines_putQuotas_ne accounts_ne_quotas s d) (lines_putQuotas_ne virtual_ne_quotas s d)

theorem Separate.giveQuota (h : Separate s) (a : Str) (q : Option Str) :
    Separate (giveQuota s a q) :=
  h.congr (lines_giveQuota_ne s a accounts_ne_quotas q)
    (lines_giveQuota_ne s a virtual_ne_quotas q)

theorem Separate.dropTarget (h : Separate s) (a : Str) : Separate (dropTarget s a) := by
  refine h.mono (fun b hb => ?_) fun l hl => ?_
  · rwa [addresses, lines_dropTarget_ne accounts_ne_virtual] at hb
  · obtain ⟨l₀, hl₀, e, -⟩ := mem_dropTarget hl
    exact ⟨l₀, hl₀, e⟩

theorem Separate.deleteSieve (h : Separate s) (a : Str) : Separate (s.delete (sieveFilename a)) :=
  h.congr (lines_delete_ne (accounts_ne_sieve a) s) (lines_delete_ne (virtual_ne_sieve a) s)

theorem Separate.writeSieve (h : Separate s) (a c : Str) :
    Separate (s.write (sieveFilename a) c) :=
  h.congr (lines_write_ne (accounts_ne_sieve a) s c) (lines_write_ne (virtual_ne_sieve a) s c)

theorem Separate.putAccounts {ls : List Str} (h : Separate s) (hl : ∀ l ∈ ls, IsLine l)
    (ha : ∀ a ∈ addressesOf ls, a ∈ addresses s ∨
      ∀ l ∈ lines s virtualFilename, (parseAlias l).1 ≠ a) :
    Separate (putLines s accountsFilename ls) := by
  intro b hb l hm
  rw [addresses, lines_putLines hl] at hb
  rw [lines_putLines_ne accounts_ne_virtual.symm] at hm
  rcases ha b hb with hb | hb
  · exact h b hb l hm
  · exact hb l hm

theorem Separate.putAliases {ls : List Str} (h : Separate s) (hl : ∀ l ∈ ls, IsLine l)
    (hv : ∀ l ∈ ls, (∃ l₀ ∈ lines s virtualFilename, (parseAlias l).1 = (parseAlias l₀).1) ∨
      (parseAlias l).1 ∉ addresses s) : Separate (putAliases s ls) := by
  intro b hb l hm
  have hacc : lines (L3.MailboxSpec.putAliases s ls) accountsFilename = lines s accountsFilename :=
    lines_putLines_ne accounts_ne_virtual s ls
  rw [addresses, hacc] at hb
  rw [L3.MailboxSpec.putAliases, lines_putLines hl] at hm
  rcases hv l hm with ⟨l₀, hl₀, e⟩ | hn
  · rw [e]
    exact h b hb l₀ hl₀
  · rintro rfl
    exact hn hb

end

/-! ## Each operation, at any point it may fail -/

/-- An address that is created is not the source of an alias, as it will be
read. -/
def NotAliased (s : Files) : Op → Prop
  | .createMailbox email _ _ =>
    ∀ l ∈ lines s virtualFilename, (parseAlias l).1 ≠ (splitAccount (normaliseEmail email)).1
  | _ => True

section
variable {emailStr : Str → Option Str} {s : Files} {crypt : Nat → Option Str} {q : Option Str}
  {email aliasEmail content : Str}

theorem always_createMailbox (h : Separate s) (hc : Crypt crypt) (he : IsEmail email)
    (hg : NotAliased s (.createMailbox email crypt q)) :
    (createMailbox emailStr crypt email q).Always box Separate s := by
  refine Prog.always_raiseIf_bind.mpr ⟨fun _ => h, fun _ => always_readLines_bind h ?_⟩
  refine Prog.always_raiseIf_bind.mpr ⟨fun _ => h, fun _ => ?_⟩
  cases hc0 : crypt 0 with
  | none => exact h
  | some c =>
    have hs : Separate (putLines s accountsFilename
        (lines s accountsFilename ++ [formatPair '|' (normaliseEmail email) (dovecotHash c)])) := by
      have hline := isLine_account (isNormal_normaliseEmail email).trim
        (noSpace_normaliseEmail he.noSpace).oneLine (hc 0 c hc0)
      refine h.putAccounts (fun l hl => ?_) fun a ha => ?_
      · rcases List.mem_append.mp hl with hl | hl
        · exact isLine_of_mem_lines hl
        · rw [List.mem_singleton.mp hl]
          exact hline
      · rw [addressesOf_append] at ha
        rcases List.mem_append.mp ha with ha | ha
        · exact .inl ha
        · obtain ⟨-, l, hl, rfl⟩ := mem_addressesOf.mp ha
          rw [List.mem_singleton.mp hl]
          refine .inr fun m hm => ?_
          rw [splitAccount, splitPair_fst_format]
          exact hg m hm
    refine always_writeLines_bind h (Prog.always_bind ?_ fun _ s' e => ?_)
    · match q with
      | none | some [] => exact hs
      | some (d :: q) => exact always_setQuotaLine hs (hs.putQuotas _)
    · rw [run_setGivenQuota] at e
      cases e
      exact always_mailbox emailStr q (hs.giveQuota _ q)

theorem always_deleteMailbox (h : Separate s) :
    (deleteMailbox email).Always box Separate s := by
  refine always_readLines_bind h (Prog.always_raiseIf_bind.mpr ⟨fun _ => h, fun _ => ?_⟩)
  have h₁ : Separate (putLines s accountsFilename
      ((lines s accountsFilename).filter fun l => (splitAccount l).1 ≠ normaliseEmail email)) := by
    refine h.putAccounts (fun l hl => isLine_of_mem_lines (List.mem_of_mem_filter hl))
      fun a ha => .inl ?_
    obtain ⟨hne, l, hl, e⟩ := mem_addressesOf.mp ha
    exact mem_addressesOf.mpr ⟨hne, l, List.mem_of_mem_filter hl, e⟩
  refine always_writeLines_bind h (Prog.always_bind ?_ fun _ s₂ e => ?_)
  · exact always_removeQuotaLine h₁ (h₁.dropQuota _)
  · rw [run_removeQuotaLine] at e
    cases e
    have h₂ := h₁.dropQuota (normaliseEmail email)
    refine Prog.always_bind (always_removeTarget h₂ (h₂.dropTarget _)) fun _ s₃ e => ?_
    rw [run_removeTargetFromAliases] at e
    cases e
    have h₃ := h₂.dropTarget (normaliseEmail email)
    split
    · exact ⟨h₃, h₃.deleteSieve _⟩
    · exact h₃

theorem always_setPassword (h : Separate s) (hc : Crypt crypt) :
    (setPassword emailStr crypt email).Always box Separate s := by
  refine always_readLines_bind h ?_
  cases hr : resetLines crypt (normaliseEmail email) 0 (lines s accountsFilename) with
  | none => exact h
  | some updated =>
    obtain ⟨hl, he⟩ := resetLines_spec hc (fun _ => isLine_of_mem_lines) hr
    refine Prog.always_raiseIf_bind.mpr ⟨fun _ => h, fun _ => always_writeLines_bind h ?_⟩
    refine always_mailboxView emailStr (h.putAccounts hl fun a ha => .inl ?_)
    rwa [addressesOf_congr he] at ha

theorem always_setQuota (h : Separate s) :
    (setQuota emailStr email q).Always box Separate s := by
  refine always_requireMailbox_bind h fun _ => ?_
  match q with
  | none | some [] =>
    refine Prog.always_bind (always_removeQuotaLine h (h.dropQuota _)) fun _ s' e => ?_
    rw [run_removeQuotaLine] at e
    cases e
    exact always_mailboxView emailStr (h.dropQuota _)
  | some (d :: q) =>
    refine Prog.always_bind (always_setQuotaLine h (h.putQuotas _)) fun _ s' e => ?_
    rw [run_setQuotaLine] at e
    cases e
    exact always_mailboxView emailStr (h.putQuotas _)

theorem always_addAlias (h : Separate s) (ha : NoSpace aliasEmail) :
    (addAlias emailStr email aliasEmail).Always box Separate s := by
  refine always_requireMailbox_bind h fun ht => ?_
  refine Prog.always_raiseIf_bind.mpr ⟨fun _ => h, fun hat => ?_⟩
  refine Prog.always_raiseIf_bind.mpr ⟨fun _ => h, fun _ => ⟨h, ?_⟩⟩
  refine Prog.always_raiseIf_bind.mpr ⟨fun _ => h, fun hacc => always_readLines_bind h ?_⟩
  refine Prog.always_raiseIf_bind.mpr ⟨fun _ => h, fun _ => always_writeLines_bind h ?_⟩
  have hs : Separate (putAliases s (lines s virtualFilename ++
      [formatAlias (normaliseEmail aliasEmail) [normaliseEmail email]])) := by
    have hns := noSpace_normaliseEmail ha
    have hne : normaliseEmail aliasEmail ≠ [] := List.ne_nil_of_mem (not_not.mp hat)
    obtain ⟨htne, l, hl, e⟩ := mem_addressesOf.mp ht
    have hto : OneLine (normaliseEmail email) :=
      e ▸ (splitPair_oneLine (isLine_of_mem_lines hl).oneLine).1
    have hjoin : join [','] [normaliseEmail email] = normaliseEmail email := by simp [join]
    refine h.putAliases (fun m hm => ?_) fun m hm => ?_
    · rcases List.mem_append.mp hm with hm | hm
      · exact isLine_of_mem_lines hm
      · rw [List.mem_singleton.mp hm, formatAlias, hjoin]
        exact isLine_word hns hne (isNormal_normaliseEmail email).trim hto htne
    · rcases List.mem_append.mp hm with hm | hm
      · exact .inl ⟨m, hm, rfl⟩
      · rw [List.mem_singleton.mp hm, formatAlias,
          parseAlias_source hns hne (isNormal_normaliseEmail aliasEmail).low]
        exact .inr hacc
  split <;> exact hs

theorem always_deleteAlias (h : Separate s) :
    (deleteAlias email aliasEmail).Always box Separate s := by
  refine always_requireMailbox_bind h fun _ => always_readLines_bind h ?_
  refine Prog.always_raiseIf_bind.mpr ⟨fun _ => h, fun _ => ⟨h, ?_⟩⟩
  refine h.putAliases (fun l hl => ?_) fun l hl => .inl ?_
  · exact (mem_withoutTarget (fun _ => isLine_of_mem_lines) hl).1
  · obtain ⟨-, l₀, hl₀, e, -⟩ := mem_withoutTarget (fun _ => isLine_of_mem_lines) hl
    exact ⟨l₀, hl₀, e⟩

theorem always_setSieveScript (h : Separate s) :
    (setSieveScript email content).Always box Separate s := by
  refine always_requireSieveAddress_bind h (always_requireMailbox_bind h fun _ => ?_)
  simp only
  split
  · exact ⟨h, h.deleteSieve _⟩
  · exact ⟨h, h.writeSieve _ _⟩

theorem always_deleteSieveScript (h : Separate s) :
    (deleteSieveScript email).Always box Separate s :=
  always_requireSieveAddress_bind h (always_requireMailbox_bind h fun _ => ⟨h, h.deleteSieve _⟩)

/-- Every state an operation passes through has accounts and alias sources
apart. -/
theorem always_separate (op : Op) (h : Separate s) (hw : op.WellFormed) (hp : op.Payload)
    (hg : NotAliased s op) : (op.prog emailStr).Always box Separate s := by
  cases op with
  | createMailbox email crypt q => exact always_void (always_createMailbox h hw.1 hp hg)
  | deleteMailbox email => exact always_deleteMailbox h
  | setPassword email crypt => exact always_void (always_setPassword h hw)
  | setQuota email q => exact always_void (always_setQuota h)
  | addAlias email aliasEmail => exact always_void (always_addAlias h hp.noSpace)
  | deleteAlias email aliasEmail => exact always_deleteAlias h
  | setSieveScript email content => exact always_void (always_setSieveScript h)
  | deleteSieveScript email => exact always_deleteSieveScript h

end

/-! ## Runs in which container commands may fail -/

/-- A call; `fails = some n` when the command after the first `n` fails. -/
structure Call where
  op : Op
  fails : Option Nat

def Call.after (emailStr : Str → Option Str) (c : Call) (s : Files) : Files :=
  match c.fails with
  | none => ((c.op.prog emailStr).run box s).2
  | some n => (c.op.prog emailStr).cut box n s

/-- No account and no alias yet. -/
def NoAccounts (s : Files) : Prop :=
  lines s accountsFilename = [] ∧ lines s virtualFilename = []

/-- Any calls whose payloads the schemas accept, failing anywhere. -/
def calls (emailStr : Str → Option Str) : LTS Files Call where
  init := NoAccounts
  step s c s' := c.op.WellFormed ∧ c.op.Payload ∧ s' = c.after emailStr s

theorem separate_inductive (emailStr : Str → Option Str) :
    ((calls emailStr).guard fun s c => NotAliased s c.op).Inductive Separate where
  init s h a ha := by
    rw [addresses, h.1] at ha
    cases ha
  step s c s' h hs := by
    obtain ⟨hg, hw, hp, rfl⟩ := hs
    have : (c.op.prog emailStr).Always box Separate s := always_separate c.op h hw hp hg
    unfold Call.after
    split
    · exact this.run
    · exact this.cut _

/-- In every run in which no account is created under an address that is an
alias source, no address is both. -/
theorem separate_of_guarded (emailStr : Str → Option Str) (s : Files)
    (h : ((calls emailStr).guard fun s c => NotAliased s c.op).Reachable s) : Separate s :=
  (separate_inductive emailStr).reachable s h

def salted : Nat → Option Str := fun _ => some "$6$salt$digest".toList

theorem crypt_salted : Crypt salted := by
  intro n c h
  cases h
  decide

def newBox (email : String) : Call := ⟨.createMailbox email.toList salted none, none⟩

def newAlias (email aliasEmail : String) : Call := ⟨.addAlias email.toList aliasEmail.toList, none⟩

/-- The files after some calls on none. -/
def afterCalls (cs : List Call) : Files := cs.foldl (fun s c => c.after some s) noFiles

theorem wellFormed_newBox (email : String) : (newBox email).op.WellFormed :=
  ⟨crypt_salted, fun _ h => by cases h⟩

theorem isEmail_a : IsEmail "a@x.org".toList :=
  ⟨by decide, by decide, by decide, by decide⟩

theorem isEmail_b : IsEmail "b@x.org".toList :=
  ⟨by decide, by decide, by decide, by decide⟩

theorem noAccounts_noFiles : NoAccounts noFiles := ⟨by decide, by decide⟩

theorem separate_of_guarded_alias :
    addresses (afterCalls [newBox "a@x.org", newAlias "a@x.org" "b@x.org"]) =
        ["a@x.org".toList] ∧
      Separate (afterCalls [newBox "a@x.org", newAlias "a@x.org" "b@x.org"]) :=
  ⟨by decide +kernel, separate_of_guarded some _
    ⟨noFiles, [newBox "a@x.org", newAlias "a@x.org" "b@x.org"], noAccounts_noFiles,
      .cons ⟨fun l hl => absurd (noAccounts_noFiles.2 ▸ hl) List.not_mem_nil,
          wellFormed_newBox _, isEmail_a, rfl⟩
        (.cons ⟨trivial, trivial, isEmail_b, rfl⟩ (.nil _))⟩⟩

/-- An account may be created under an alias of another account. -/
theorem account_and_alias :
    ∃ s, (calls some).Reachable s ∧ ¬ Separate s := by
  refine ⟨afterCalls [newBox "a@x.org", newAlias "a@x.org" "b@x.org", newBox "b@x.org"],
    ⟨noFiles, [newBox "a@x.org", newAlias "a@x.org" "b@x.org", newBox "b@x.org"],
      noAccounts_noFiles, .cons ⟨wellFormed_newBox _, isEmail_a, rfl⟩
        (.cons ⟨trivial, isEmail_b, rfl⟩ (.cons ⟨wellFormed_newBox _, isEmail_b, rfl⟩ (.nil _)))⟩,
    fun h => ?_⟩
  have hline : "b@x.org a@x.org".toList ∈
      lines (afterCalls [newBox "a@x.org", newAlias "a@x.org" "b@x.org", newBox "b@x.org"])
        virtualFilename := by decide +kernel
  exact h "b@x.org".toList (by decide +kernel) _ hline (by decide +kernel)

end MailserverUi.L4.MailboxRuns

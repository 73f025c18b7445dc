import MailserverUi.Core.Interrupt
import MailserverUi.L4App.AliasGraph

/-!
# What a failed call leaves behind

Every check of an argument comes before the first write, so that a rejected call
changes nothing. What can go wrong after that is a container command of a later
file, and the response: `Mailbox(...)` and `Alias(...)` are built, and checked,
last.

Results:
* `unchanged_iff`: a call that raises leaves every file as it was exactly when
  it fails before its first write, or would write what is there already, or does
  not raise after that write.
* `half_done`: a password that is set by a call that fails, and a deletion that
  cannot be repeated.
-/
namespace MailserverUi.L4.MailboxFailure

open Py L1.MailFiles L1.SieveAddress L2.Errors L2.Container L3.Passwords L3.MailboxService
open L3.MailboxSpec MailboxRuns
open Prog (Reads)

/-! ## When a call is safe -/

section
variable (emailStr : Str → Option Str) (s : Files)

/-- The call passes every check and has something to write. -/
def Writes : Op → Prop
  | .createMailbox email crypt _ =>
    '@' ∈ normaliseEmail email ∧ Fresh s (normaliseEmail email) ∧ crypt 0 ≠ none
  | .deleteMailbox email => ¬ Fresh s (normaliseEmail email)
  | .setPassword email crypt =>
    resetLines crypt (normaliseEmail email) 0 (lines s accountsFilename) ≠ none ∧
      ¬ Fresh s (normaliseEmail email)
  | .setQuota email quota => normaliseEmail email ∈ addresses s ∧
      (quota.getD [] ≠ [] ∨ (quotas s).get? (normaliseEmail email) ≠ none)
  | .addAlias email aliasEmail => Addable s (normaliseEmail email) (normaliseEmail aliasEmail)
  | .deleteAlias email aliasEmail => normaliseEmail email ∈ addresses s ∧
      ∃ l ∈ lines s virtualFilename,
        hits (normaliseEmail aliasEmail) (normaliseEmail email) l = true
  | .setSieveScript email _ | .deleteSieveScript email =>
    sieveAddress (normaliseEmail email) = true ∧ normaliseEmail email ∈ addresses s

/-- What it writes is there already. -/
def Unchanged : Op → Prop
  | .setPassword email crypt =>
    (resetLines crypt (normaliseEmail email) 0 (lines s accountsFilename)).map unlines =
      s (configPath accountsFilename)
  | .setQuota email quota => quota.getD [] ≠ [] ∧ s (configPath quotasFilename) =
      some (unlines (quotaLines ((quotas s).set (normaliseEmail email) (quota.getD []))))
  | _ => False

/-- How many commands come before the first write. -/
def firstWrite : Op → Nat
  | .createMailbox .. | .deleteMailbox _ | .setPassword .. => 1
  | .setQuota .. | .deleteAlias .. => 2
  | .addAlias .. => 3
  | .setSieveScript .. | .deleteSieveScript _ => 1

/-- How many commands the call issues. -/
def commands : Op → Nat
  | .createMailbox _ _ quota => if quota.getD [] = [] then 2 else 4
  | .deleteMailbox email =>
    2 + (if (quotas s).get? (normaliseEmail email) = none then 1 else 2) +
      (if ∃ l ∈ lines s virtualFilename, normaliseEmail email ∈ (parseAlias l).2 then 2 else 1) +
      (if sieveAddress (normaliseEmail email) then 1 else 0)
  | .setPassword .. | .deleteAlias .. => 3
  | .setQuota .. | .addAlias .. => 4
  | .setSieveScript .. | .deleteSieveScript _ => 2

/-- `EmailStr` refuses the address of the response. -/
def Refused : Op → Prop
  | .createMailbox email _ _ | .setPassword email _ | .setQuota email _ =>
    emailStr (normaliseEmail email) = none
  | .addAlias _ aliasEmail => emailStr (normaliseEmail aliasEmail) = none
  | _ => False

/-- Nothing is written, or nothing changes by it, or nothing goes wrong from
the first write on. -/
def Intact (c : Call) : Prop :=
  ¬ Writes s c.op ∨ Unchanged s c.op ∨
    match c.fails with
    | some n => n ≤ firstWrite c.op ∨ commands s c.op ≤ n ∧ ¬ Refused emailStr c.op
    | none => ¬ Refused emailStr c.op

/-- The files that the calls write. -/
def MailFile (f : Str) : Prop :=
  f = accountsFilename ∨ f = quotasFilename ∨ f = virtualFilename ∨ ∃ a, f = sieveFilename a

/-- Every config file is as it was. The name that a write goes through is none. -/
def Same (t : Files) : Prop :=
  ∀ p, (∀ r, MailFile r → p ≠ configPath (scratch r)) → t p = s p

/-- A command of the call fails, or the call itself raises. -/
def CallRaises (c : Call) : Prop := (c.op.prog emailStr).Raises box c.fails s

end

/-! ## Files that differ -/

section
variable {s : Files} {f line : Str} {ls : List Str}

theorem same_self (s : Files) : Same s s := fun _ _ => rfl

theorem MailFile.ne_scratch (h : MailFile f) (r : Str) : f ≠ scratch r := by
  rcases h with rfl | rfl | rfl | ⟨a, rfl⟩
  · exact L2.Container.ne_scratch (by decide) r
  · exact L2.Container.ne_scratch (by decide) r
  · exact L2.Container.ne_scratch (by decide) r
  · exact sieveFilename_ne_scratch a r

theorem same_putLines (hf : MailFile f) (h : s (configPath f) = some (unlines ls)) :
    Same s (putLines s f ls) := by
  intro p hp
  unfold putLines
  rw [write_apply]
  split
  · rename_i e
    rw [e, h]
  · rw [if_neg (hp f hf)]

theorem not_same_of_apply {t : Files} {x : Option Str} (hf : MailFile f)
    (ht : t (configPath f) = x) (hs : s (configPath f) ≠ x) : ¬ Same s t := fun h =>
  hs ((h _ fun r _ e => hf.ne_scratch r (configPath_inj.mp e)).symm.trans ht)

theorem lines_eq_of_apply (h : s (configPath f) = some (unlines ls)) :
    lines s f = linesOf (universalNewlines (unlines ls)) := by
  rw [lines, Files.read, h]
  rfl

theorem ne_concat (h : ∃ c ∈ line, isSpace c = false) :
    s (configPath f) ≠ some (unlines (lines s f ++ [line])) := by
  intro e
  have hl := lines_eq_of_apply e
  refine (unlines_concat_ne h : unlines (lines s f ++ [line]) ≠ _) ?_
  rw [← hl]

end

/-! ## Programs -/

section
variable {α : Type} {s : Files} {f a : Str} {n : Nat} {p : Io α}

theorem reads_readLines_bind {k : List Str → Io α} (h : Reads box s n (k (lines s f)) p) :
    Reads box s (n + 1) (readLines f >>= k) p := .call rfl h

theorem reads_readQuotas_bind {k : Dict Str Str → Io α} (h : Reads box s n (k (quotas s)) p) :
    Reads box s (n + 1) (readQuotas >>= k) p := .call rfl h

theorem reads_accountAddresses_bind {k : List Str → Io α}
    (h : Reads box s n (k (addresses s)) p) :
    Reads box s (n + 1) (accountAddresses >>= k) p := .call rfl h

theorem reads_requireMailbox_bind {k : Unit → Io α} (ha : a ∈ addresses s)
    (h : Reads box s n (k ()) p) : Reads box s (n + 1) (requireMailbox a >>= k) p := by
  rw [requireMailbox, Prog.bind_assoc]
  refine reads_accountAddresses_bind ?_
  rw [Prog.raiseIf_bind_neg (not_not.mpr ha)]
  exact h

/-- A program that gets to a write of `f`, and leaves `f` alone after it. -/
theorem unchanged_iff_of_write {ls : List Str} {k : Unit → Io α} (fails : Option Nat)
    (hf : MailFile f) (h : Reads box s n p (writeLines f ls >>= k)) (hs : s (configPath f) ≠ some (unlines ls))
    (hk : (k ()).Always box (fun t => t (configPath f) = some (unlines ls)) (putLines s f ls)) :
    (p.Raises box fails s → Same s (p.stop box fails s)) ↔
      match fails with
      | some m => m ≤ n ∨ p.steps box s ≤ m ∧ ¬ p.Errs box s
      | none => ¬ p.Errs box s := by
  have h : Reads box s n p (.call (.writeConfig f (unlines ls)) k) := h
  exact Prog.unchanged_iff_stops h (same_self s) (hk.mono fun t ht => not_same_of_apply hf ht hs)

/-- A program that gets to a write of what is there already, and changes nothing
after it. -/
theorem always_of_same {ls : List Str} {k : Unit → Io α}
    (h : Reads box s n p (writeLines f ls >>= k))
    (hk : (k ()).Always box (Same s) (putLines s f ls)) : p.Always box (Same s) s :=
  h.always ⟨same_self s, hk⟩

theorem steps_void (p : Io α) (s : Files) : (void p).steps box s = p.steps box s := by
  induction p generalizing s with
  | pure a => rfl
  | raise e => rfl
  | call c k ih => exact congrArg (· + 1) (ih _ _)

theorem errs_void (p : Io α) (s : Files) : (void p).Errs box s ↔ p.Errs box s := by
  unfold Prog.Errs
  rw [void, Prog.run_bind]
  rcases p.run box s with ⟨_ | _, _⟩ <;> simp [Prog.run]

end

/-! ## Up to the first write -/

section
variable {emailStr : Str → Option Str} {s : Files} {crypt : Nat → Option Str} {q : Option Str}
  {email aliasEmail c : Str} {updated : List Str}

theorem reads_createMailbox (h₁ : '@' ∈ normaliseEmail email) (h₂ : Fresh s (normaliseEmail email))
    (hc : crypt 0 = some c) :
    Reads box s 1 (createMailbox emailStr crypt email q)
      (writeLines accountsFilename (lines s accountsFilename ++
        [formatPair '|' (normaliseEmail email) (dovecotHash c)]) >>= fun _ =>
          setGivenQuota (normaliseEmail email) q >>= fun _ =>
            mailbox emailStr (normaliseEmail email) q) := by
  have hf : ¬ ∃ l ∈ lines s accountsFilename, (splitAccount l).1 = normaliseEmail email :=
    fun ⟨l, hl, e⟩ => h₂ l hl e
  unfold createMailbox
  simp only [Prog.raiseIf_bind_neg (not_not.mpr h₁)]
  refine reads_readLines_bind ?_
  rw [Prog.raiseIf_bind_neg hf, hc]
  exact .here _

theorem always_createMailbox_rejected (h : ¬ Writes s (.createMailbox email crypt q)) :
    (createMailbox emailStr crypt email q).Always box (· = s) s := by
  refine Prog.always_raiseIf_bind.mpr ⟨fun _ => rfl, fun h₁ => always_readLines_bind rfl ?_⟩
  refine Prog.always_raiseIf_bind.mpr ⟨fun _ => rfl, fun h₂ => ?_⟩
  cases hc : crypt 0 with
  | none => rfl
  | some c =>
    refine absurd ⟨not_not.mp h₁, fun l hl e => h₂ ⟨l, hl, e⟩, ?_⟩ h
    rw [hc]
    exact Option.some_ne_none c

theorem reads_deleteMailbox (h : ¬ Fresh s (normaliseEmail email)) :
    Reads box s 1 (deleteMailbox email)
      (writeLines accountsFilename ((lines s accountsFilename).filter
        fun l => (splitAccount l).1 ≠ normaliseEmail email) >>= fun _ =>
          AliasGraph.cleanup (normaliseEmail email)) := by
  refine reads_readLines_bind ?_
  rw [Prog.raiseIf_bind_neg (mt (AliasGraph.length_remaining s _).mp h)]
  exact .here _

theorem always_deleteMailbox_rejected (h : Fresh s (normaliseEmail email)) :
    (deleteMailbox email).Always box (· = s) s := by
  refine always_readLines_bind rfl (Prog.always_raiseIf_bind.mpr ⟨fun _ => rfl, fun hn => ?_⟩)
  exact absurd ((AliasGraph.length_remaining s _).mpr h) hn

theorem reads_setPassword
    (hu : resetLines crypt (normaliseEmail email) 0 (lines s accountsFilename) = some updated)
    (h : ¬ Fresh s (normaliseEmail email)) :
    Reads box s 1 (setPassword emailStr crypt email)
      (writeLines accountsFilename updated >>= fun _ =>
        mailboxView emailStr (normaliseEmail email)) := by
  have hf : ¬ ¬ ∃ l ∈ lines s accountsFilename, (splitAccount l).1 = normaliseEmail email :=
    fun hn => h fun l hl e => hn ⟨l, hl, e⟩
  refine reads_readLines_bind ?_
  rw [hu]
  simp only [Prog.raiseIf_bind_neg hf]
  exact .here _

theorem always_setPassword_rejected (h : ¬ Writes s (.setPassword email crypt)) :
    (setPassword emailStr crypt email).Always box (· = s) s := by
  refine always_readLines_bind rfl ?_
  cases hu : resetLines crypt (normaliseEmail email) 0 (lines s accountsFilename) with
  | none => rfl
  | some updated =>
    refine Prog.always_raiseIf_bind.mpr ⟨fun _ => rfl, fun hn => absurd ⟨?_, fun hf => ?_⟩ h⟩
    · rw [hu]
      exact Option.some_ne_none updated
    · exact hn fun ⟨l, hl, e⟩ => hf l hl e

/-- The dictionary that `set_quota` writes. -/
def newQuotas (s : Files) (a : Str) (q : Option Str) : Dict Str Str :=
  if q.getD [] = [] then (quotas s).erase a else (quotas s).set a (q.getD [])

theorem reads_setQuota (h : Writes s (.setQuota email q)) :
    Reads box s 2 (setQuota emailStr email q)
      (writeLines quotasFilename (quotaLines (newQuotas s (normaliseEmail email) q)) >>= fun _ =>
        mailboxView emailStr (normaliseEmail email)) := by
  obtain ⟨hm, hq⟩ := h
  unfold setQuota
  refine reads_requireMailbox_bind hm ?_
  have remove (hq : (quotas s).get? (normaliseEmail email) ≠ none) :
      Reads box s 1 (removeQuotaLine (normaliseEmail email) >>= fun _ =>
        mailboxView emailStr (normaliseEmail email))
      (writeLines quotasFilename (quotaLines ((quotas s).erase (normaliseEmail email))) >>= fun _ =>
        mailboxView emailStr (normaliseEmail email)) := by
    rw [removeQuotaLine, Prog.bind_assoc]
    refine reads_readQuotas_bind ?_
    rw [if_neg hq]
    exact .here _
  rcases q with _ | _ | ⟨d, v⟩
  · exact remove (hq.resolve_left fun h => h rfl)
  · exact remove (hq.resolve_left fun h => h rfl)
  · change Reads box s 1 (setQuotaLine (normaliseEmail email) (d :: v) >>= fun _ =>
      mailboxView emailStr (normaliseEmail email)) _
    rw [setQuotaLine, Prog.bind_assoc]
    exact reads_readQuotas_bind (.here _)

theorem always_setQuota_rejected (h : ¬ Writes s (.setQuota email q)) :
    (setQuota emailStr email q).Always box (· = s) s := by
  refine always_requireMailbox_bind rfl fun hm => ?_
  have hq : q.getD [] = [] ∧ (quotas s).get? (normaliseEmail email) = none := by
    rw [← not_not (a := q.getD [] = []), ← not_not (a := (quotas s).get? _ = none), ← not_or]
    exact fun hw => h ⟨hm, hw⟩
  have remove : (removeQuotaLine (normaliseEmail email) >>= fun _ =>
      mailboxView emailStr (normaliseEmail email)).Always box (· = s) s := by
    have e : dropQuota s (normaliseEmail email) = s := if_pos hq.2
    refine Prog.always_bind (always_removeQuotaLine rfl e) fun _ s' h => ?_
    rw [run_removeQuotaLine, e] at h
    cases h
    exact always_mailboxView emailStr rfl
  rcases q with _ | _ | ⟨d, v⟩
  · exact remove
  · exact remove
  · cases hq.1

theorem reads_addAlias (h : Writes s (.addAlias email aliasEmail)) :
    Reads box s 3 (addAlias emailStr email aliasEmail)
      (writeLines virtualFilename (lines s virtualFilename ++
        [formatAlias (normaliseEmail aliasEmail) [normaliseEmail email]]) >>= fun _ =>
          match emailStr (normaliseEmail aliasEmail) with
          | some email => .pure ⟨email⟩
          | none => .raise .internal) := by
  obtain ⟨hm, hat, hne, hacc, hnew⟩ := h
  have hn : ¬ ∃ l ∈ lines s virtualFilename, (parseAlias l).1 = normaliseEmail aliasEmail ∧
      normaliseEmail email ∈ (parseAlias l).2 := fun ⟨l, hl, e⟩ => hnew l hl e
  unfold addAlias
  refine reads_requireMailbox_bind hm ?_
  simp only [Prog.raiseIf_bind_neg (not_not.mpr hat), Prog.raiseIf_bind_neg hne]
  refine reads_accountAddresses_bind ?_
  rw [Prog.raiseIf_bind_neg hacc]
  refine reads_readLines_bind ?_
  rw [Prog.raiseIf_bind_neg hn]
  exact .here _

theorem always_addAlias_rejected (h : ¬ Writes s (.addAlias email aliasEmail)) :
    (addAlias emailStr email aliasEmail).Always box (· = s) s := by
  refine always_requireMailbox_bind rfl fun hm => ?_
  refine Prog.always_raiseIf_bind.mpr ⟨fun _ => rfl, fun hat => ?_⟩
  refine Prog.always_raiseIf_bind.mpr ⟨fun _ => rfl, fun hne => ⟨rfl, ?_⟩⟩
  refine Prog.always_raiseIf_bind.mpr ⟨fun _ => rfl, fun hacc => always_readLines_bind rfl ?_⟩
  refine Prog.always_raiseIf_bind.mpr ⟨fun _ => rfl, fun hnew => ?_⟩
  exact absurd ⟨hm, not_not.mp hat, hne, hacc, fun l hl e => hnew ⟨l, hl, e⟩⟩ h

theorem reads_deleteAlias (h : Writes s (.deleteAlias email aliasEmail)) :
    Reads box s 2 (deleteAlias email aliasEmail) (writeLines virtualFilename
      (withoutTarget (normaliseEmail email)
        (hits (normaliseEmail aliasEmail) (normaliseEmail email)) (lines s virtualFilename))) := by
  obtain ⟨hm, hhit⟩ := h
  refine reads_requireMailbox_bind hm (reads_readLines_bind ?_)
  refine (Prog.raiseIf_bind_neg (not_not.mpr hhit) _ _).symm ▸ .here _

theorem always_deleteAlias_rejected (h : ¬ Writes s (.deleteAlias email aliasEmail)) :
    (deleteAlias email aliasEmail).Always box (· = s) s := by
  refine always_requireMailbox_bind rfl fun hm => always_readLines_bind rfl ?_
  exact Prog.always_raiseIf_bind.mpr ⟨fun _ => rfl, fun hhit => absurd ⟨hm, not_not.mp hhit⟩ h⟩

/-- The two Sieve operations check the address, and then that it is an
account. -/
theorem reads_sieve {α : Type} {n : Nat} {p : Io α} {k : Str → Io α}
    (h : sieveAddress (normaliseEmail email) = true ∧ normaliseEmail email ∈ addresses s)
    (hk : Reads box s n (k (normaliseEmail email)) p) :
    Reads box s (n + 1)
      (requireSieveAddress email >>= fun a => requireMailbox a >>= fun _ => k a) p := by
  have hs : ¬ sieveAddress (normaliseEmail email) = false := by simp [h.1]
  have e : (requireSieveAddress email >>= fun a => requireMailbox a >>= fun _ => k a) =
      (requireMailbox (normaliseEmail email) >>= fun _ => k (normaliseEmail email)) := by
    rw [requireSieveAddress, Prog.bind_assoc, Prog.raiseIf_bind_neg hs]
    rfl
  rw [e]
  exact reads_requireMailbox_bind h.2 hk

theorem always_sieve_rejected {α : Type} {k : Str → Io α}
    (h : ¬ (sieveAddress (normaliseEmail email) = true ∧ normaliseEmail email ∈ addresses s)) :
    (requireSieveAddress email >>= fun a => requireMailbox a >>= fun _ => k a).Always box
      (· = s) s := by
  by_cases hs : sieveAddress (normaliseEmail email) = true
  · exact always_requireSieveAddress_bind rfl
      (always_requireMailbox_bind rfl fun hm => absurd ⟨hs, hm⟩ h)
  · rw [Bool.not_eq_true] at hs
    rw [requireSieveAddress, Prog.bind_assoc, Prog.raiseIf_bind_pos hs]
    rfl

end

/-! ## From the first write on -/

section
variable {emailStr : Str → Option Str} {s t : Files} {a c : Str} {q : Option Str}

theorem steps_of_reads {α : Type} {n : Nat} {p : Io α} {f : Str} {ls : List Str}
    {k : Unit → Io α} (h : Reads box s n p (writeLines f ls >>= k)) :
    p.steps box s = n + ((k ()).steps box (putLines s f ls) + 1) := h.steps_eq

theorem errs_of_reads {α : Type} {n : Nat} {p : Io α} {f : Str} {ls : List Str}
    {k : Unit → Io α} (h : Reads box s n p (writeLines f ls >>= k)) :
    p.Errs box s ↔ (k ()).Errs box (putLines s f ls) := by
  unfold Prog.Errs
  rw [h.run_eq]
  rfl

theorem steps_mailbox : (mailbox emailStr a q).steps box t = 0 := by
  unfold mailbox
  split <;> rfl

theorem errs_mailbox : (mailbox emailStr a q).Errs box t ↔ emailStr a = none := by
  unfold mailbox Prog.Errs
  cases emailStr a <;> simp [Prog.run]

theorem errs_mailboxView : (mailboxView emailStr a).Errs box t ↔ emailStr a = none := errs_mailbox

theorem steps_mailboxView : (mailboxView emailStr a).steps box t = 1 :=
  congrArg (· + 1) steps_mailbox

theorem steps_created :
    (setGivenQuota a q >>= fun _ => mailbox emailStr a q).steps box t =
      if q.getD [] = [] then 0 else 2 := by
  rw [Prog.steps_bind (run_setGivenQuota t a q), steps_mailbox, Nat.add_zero]
  rcases q with _ | _ | ⟨d, v⟩ <;> rfl

theorem errs_created :
    (setGivenQuota a q >>= fun _ => mailbox emailStr a q).Errs box t ↔ emailStr a = none := by
  unfold Prog.Errs
  rw [Prog.run_bind, run_setGivenQuota]
  exact errs_mailbox

theorem always_created :
    (setGivenQuota a q >>= fun _ => mailbox emailStr a q).Always box
      (fun u => u (configPath accountsFilename) = t (configPath accountsFilename)) t := by
  have hput (d : Dict Str Str) : putQuotas t d (configPath accountsFilename) =
      t (configPath accountsFilename) := putLines_other accounts_ne_quotas t _
  refine Prog.always_bind ?_ fun _ s' e => ?_
  · rcases q with _ | _ | ⟨d, v⟩
    · exact rfl
    · exact rfl
    · exact always_setQuotaLine rfl (hput _)
  · rw [run_setGivenQuota] at e
    cases e
    refine always_mailbox emailStr q ?_
    rcases q with _ | _ | ⟨d, v⟩
    · rfl
    · rfl
    · exact hput _

theorem steps_cleanup (hq : quotas t = quotas s)
    (hv : lines t virtualFilename = lines s virtualFilename) :
    (AliasGraph.cleanup a).steps box t =
      (if (quotas s).get? a = none then 1 else 2) +
        (if ∃ l ∈ lines s virtualFilename, a ∈ (parseAlias l).2 then 2 else 1) +
        (if sieveAddress a then 1 else 0) := by
  have hv' : lines (dropQuota t a) virtualFilename = lines s virtualFilename := by
    rw [lines_dropQuota_ne t a virtual_ne_quotas, hv]
  have htarget : (removeTargetFromAliases a).steps box (dropQuota t a) =
      if ∃ l ∈ lines s virtualFilename, a ∈ (parseAlias l).2 then 2 else 1 := by
    change (if ∃ l ∈ lines (dropQuota t a) virtualFilename, decide (a ∈ (parseAlias l).2) = true
      then writeLines virtualFilename (withoutTarget a _ _) else (Pure.pure () : Io Unit)).steps
        box (dropQuota t a) + 1 = _
    simp only [hv', decide_eq_true_eq]
    split <;> rfl
  have hsieve (u : Files) : (if sieveAddress a then deleteConfig (sieveFilename a)
      else Pure.pure () : Io Unit).steps box u = if sieveAddress a then 1 else 0 := by
    split <;> rfl
  rw [AliasGraph.cleanup, Prog.steps_bind (run_removeQuotaLine t a),
    Prog.steps_bind (run_removeTargetFromAliases _ a), htarget, hsieve,
    AliasGraph.steps_removeQuotaLine, hq, Nat.add_assoc]

theorem errs_cleanup : ¬ (AliasGraph.cleanup a).Errs box t := by
  rintro ⟨e, he⟩
  rw [AliasGraph.cleanup, Prog.run_bind, run_removeQuotaLine] at he
  simp only at he
  rw [Prog.run_bind, run_removeTargetFromAliases] at he
  simp only at he
  split at he <;> cases he

theorem always_cleanup :
    (AliasGraph.cleanup a).Always box
      (fun u => u (configPath accountsFilename) = t (configPath accountsFilename)) t := by
  have hdrop := dropQuota_other accounts_ne_quotas t a
  have htarget : dropTarget (dropQuota t a) a (configPath accountsFilename) =
      t (configPath accountsFilename) := by
    rw [dropTarget_other accounts_ne_virtual, hdrop]
  refine Prog.always_bind (always_removeQuotaLine rfl hdrop) fun _ s' e => ?_
  rw [run_removeQuotaLine] at e
  have hs' : s' = dropQuota t a := (Prod.mk.inj e).2.symm
  rw [hs']
  refine Prog.always_bind (always_removeTarget hdrop htarget) fun _ s'' e => ?_
  rw [run_removeTargetFromAliases] at e
  have hs'' : s'' = dropTarget (dropQuota t a) a := (Prod.mk.inj e).2.symm
  rw [hs'']
  split
  · refine ⟨htarget, ?_⟩
    have hne : configPath accountsFilename ≠ configPath (sieveFilename a) :=
      fun e => (accounts_ne_sieve a).ne (configPath_inj.mp e)
    exact (if_neg hne).trans htarget
  · exact htarget

end

/-! ## Each operation -/

section
variable {emailStr : Str → Option Str} {s : Files} {fails : Option Nat} {op : Op}

/-- A call that stays in the state it is made in. -/
theorem intact_of_always (h : (op.prog emailStr).Always box (· = s) s)
    (hi : Intact emailStr s ⟨op, fails⟩) :
    (CallRaises emailStr s ⟨op, fails⟩ → Same s (Call.after emailStr ⟨op, fails⟩ s)) ↔
      Intact emailStr s ⟨op, fails⟩ :=
  ⟨fun _ => hi, fun _ _ p _ => congrFun (h.stop fails) p⟩

/-- A call that is written as it is run: its writes, its commands and its error
are those of the operation. -/
theorem intact_of_write {α : Type} {p : Io α} {f : Str} {ls : List Str} {k : Unit → Io α}
    (hf : MailFile f) (hp : op.prog emailStr = void p) (hw : Writes s op) (hu : ¬ Unchanged s op)
    (h : Reads box s (firstWrite op) p (writeLines f ls >>= k))
    (hne : s (configPath f) ≠ some (unlines ls))
    (hk : (k ()).Always box (fun t => t (configPath f) = some (unlines ls)) (putLines s f ls))
    (hsteps : firstWrite op + ((k ()).steps box (putLines s f ls) + 1) = commands s op)
    (herrs : (k ()).Errs box (putLines s f ls) ↔ Refused emailStr op) :
    (CallRaises emailStr s ⟨op, fails⟩ → Same s (Call.after emailStr ⟨op, fails⟩ s)) ↔
      Intact emailStr s ⟨op, fails⟩ := by
  have hv : Reads box s (firstWrite op) (void p) (writeLines f ls >>= fun u => void (k u)) := h.bind _
  have hiff := unchanged_iff_of_write fails hf hv hne (always_void hk)
  rw [steps_void, errs_void, steps_of_reads h, errs_of_reads h, hsteps, herrs, ← hp] at hiff
  simp only [Intact, hw, hu, not_true, false_or]
  exact hiff

/-- A call whose one write is its last command. -/
theorem intact_of_last {f : Cmd} {k : Reply f → Io Unit} {n : Nat}
    (h : Reads box s n (op.prog emailStr) (.call f k)) (hk : k (box.exec f s).1 = .pure ())
    (hi : Intact emailStr s ⟨op, fails⟩) :
    (CallRaises emailStr s ⟨op, fails⟩ → Same s (Call.after emailStr ⟨op, fails⟩ s)) ↔
      Intact emailStr s ⟨op, fails⟩ :=
  ⟨fun _ => hi, fun _ hr p _ => congrFun (Prog.unchanged_of_last h hk hr) p⟩

/-- One write, and nothing that can go wrong after it. -/
theorem intact_of_alone (hc : commands s op = firstWrite op + 1) (hr : ¬ Refused emailStr op) :
    Intact emailStr s ⟨op, fails⟩ := by
  refine .inr (.inr ?_)
  cases fails with
  | none => exact hr
  | some n =>
    show n ≤ firstWrite op ∨ commands s op ≤ n ∧ ¬ Refused emailStr op
    rw [hc]
    exact (Nat.lt_or_ge n (firstWrite op + 1)).imp Nat.le_of_lt_succ fun h => ⟨h, hr⟩

end

theorem void_unit (p : Io Unit) : void p = p := by
  induction p with
  | pure a => rfl
  | raise e => rfl
  | call c k ih => exact congrArg (Prog.call c) (funext ih)

/-- A deletion removes a line. -/
theorem ne_remaining {s : Files} {a : Str} (h : ¬ Fresh s a) :
    s (configPath accountsFilename) ≠
      some (unlines ((lines s accountsFilename).filter fun l => (splitAccount l).1 ≠ a)) := by
  intro e
  have hl := lines_eq_of_apply e
  rw [linesOf_unlines fun l hl => isLine_of_mem_lines (List.mem_of_mem_filter hl)] at hl
  exact h ((AliasGraph.length_remaining s a).mp (congrArg List.length hl).symm)

/-- A quota that is dropped was there. -/
theorem ne_erased {s : Files} {a : Str} (h : (quotas s).get? a ≠ none) :
    s (configPath quotasFilename) ≠ some (unlines (quotaLines ((quotas s).erase a))) := by
  intro e
  have hd : ∀ p ∈ ((quotas s).erase a).items, IsQuota p := isQuota_erase (isQuota_quotas s)
  have hl := lines_eq_of_apply e
  rw [linesOf_unlines fun l hl => isLine_of_mem_quotaLines hd hl] at hl
  have hget := get?_quotasOf_format hd a
  rw [← hl, Dict.get?_erase, if_pos rfl] at hget
  exact h hget

section
variable {emailStr : Str → Option Str} {s : Files} {fails : Option Nat} {crypt : Nat → Option Str}
  {q : Option Str} {email aliasEmail content : Str}

theorem intact_createMailbox :
    (CallRaises emailStr s ⟨.createMailbox email crypt q, fails⟩ →
      Same s (Call.after emailStr ⟨.createMailbox email crypt q, fails⟩ s)) ↔
        Intact emailStr s ⟨.createMailbox email crypt q, fails⟩ := by
  by_cases hw : Writes s (.createMailbox email crypt q)
  · obtain ⟨h₁, h₂, h₃⟩ := id hw
    obtain ⟨c, hc⟩ := Option.ne_none_iff_exists'.mp h₃
    have hbar : '|' ∈ formatPair '|' (normaliseEmail email) (dovecotHash c) :=
      List.mem_append_right _ List.mem_cons_self
    refine intact_of_write (.inl rfl) rfl hw id (reads_createMailbox h₁ h₂ hc)
      (ne_concat ⟨'|', hbar, by decide⟩)
      (always_created.mono fun u hu => hu.trans (putLines_same s _ _)) ?_ errs_created
    rw [steps_created]
    show 1 + (_ + 1) = if q.getD [] = [] then 2 else 4
    split <;> rfl
  · exact intact_of_always (always_void (always_createMailbox_rejected hw)) (.inl hw)

theorem intact_deleteMailbox :
    (CallRaises emailStr s ⟨.deleteMailbox email, fails⟩ →
      Same s (Call.after emailStr ⟨.deleteMailbox email, fails⟩ s)) ↔
        Intact emailStr s ⟨.deleteMailbox email, fails⟩ := by
  by_cases hw : Writes s (.deleteMailbox email)
  · refine intact_of_write (.inl rfl) (void_unit _).symm hw id (reads_deleteMailbox hw) (ne_remaining hw)
      (always_cleanup.mono fun u hu => hu.trans (putLines_same s _ _)) ?_
      ⟨fun h => absurd h errs_cleanup, False.elim⟩
    rw [steps_cleanup (quotas_congr (lines_putLines_ne accounts_ne_quotas.symm s _))
      (lines_putLines_ne accounts_ne_virtual.symm s _)]
    show 1 + (_ + 1) = 2 + _ + _ + _
    omega
  · exact intact_of_always (always_deleteMailbox_rejected (not_not.mp hw)) (.inl hw)

theorem intact_setPassword :
    (CallRaises emailStr s ⟨.setPassword email crypt, fails⟩ →
      Same s (Call.after emailStr ⟨.setPassword email crypt, fails⟩ s)) ↔
        Intact emailStr s ⟨.setPassword email crypt, fails⟩ := by
  by_cases hw : Writes s (.setPassword email crypt)
  · obtain ⟨h₁, h₂⟩ := id hw
    obtain ⟨updated, hupd⟩ := Option.ne_none_iff_exists'.mp h₁
    have hread : Reads box s 1 (setPassword emailStr crypt email) _ := reads_setPassword hupd h₂
    by_cases hs : s (configPath accountsFilename) = some (unlines updated)
    · have hu : Unchanged s (.setPassword email crypt) := by
        rw [Unchanged, hupd, hs]
        rfl
      have hkept := always_of_same hread (always_mailboxView emailStr (same_putLines (.inl rfl) hs))
      exact ⟨fun _ => .inr (.inl hu), fun _ _ => (always_void hkept).stop fails⟩
    · have hu : ¬ Unchanged s (.setPassword email crypt) := by
        rw [Unchanged, hupd]
        exact fun e => hs e.symm
      exact intact_of_write (.inl rfl) rfl hw hu hread hs
        (always_mailboxView emailStr (putLines_same s _ _)) (by rw [steps_mailboxView]; rfl)
        errs_mailboxView
  · exact intact_of_always (always_void (always_setPassword_rejected hw)) (.inl hw)

theorem intact_setQuota :
    (CallRaises emailStr s ⟨.setQuota email q, fails⟩ →
      Same s (Call.after emailStr ⟨.setQuota email q, fails⟩ s)) ↔
        Intact emailStr s ⟨.setQuota email q, fails⟩ := by
  by_cases hw : Writes s (.setQuota email q)
  · have hread : Reads box s 2 (setQuota emailStr email q) _ := reads_setQuota hw
    by_cases hs : s (configPath quotasFilename) =
        some (unlines (quotaLines (newQuotas s (normaliseEmail email) q)))
    · -- a quota that is dropped changes the file
      have hq : q.getD [] ≠ [] := by
        intro hq
        rw [newQuotas, if_pos hq] at hs
        exact ne_erased (hw.2.resolve_left fun h => h hq) hs
      have hu : Unchanged s (.setQuota email q) := by
        rw [newQuotas, if_neg hq] at hs
        exact ⟨hq, hs⟩
      have hkept := always_of_same hread (always_mailboxView emailStr (same_putLines (.inr (.inl rfl)) hs))
      exact ⟨fun _ => .inr (.inl hu), fun _ _ => (always_void hkept).stop fails⟩
    · have hu : ¬ Unchanged s (.setQuota email q) := by
        rintro ⟨hq, e⟩
        rw [newQuotas, if_neg hq] at hs
        exact hs e
      exact intact_of_write (.inr (.inl rfl)) rfl hw hu hread hs
        (always_mailboxView emailStr (putLines_same s _ _)) (by rw [steps_mailboxView]; rfl)
        errs_mailboxView
  · exact intact_of_always (always_void (always_setQuota_rejected hw)) (.inl hw)

theorem intact_addAlias :
    (CallRaises emailStr s ⟨.addAlias email aliasEmail, fails⟩ →
      Same s (Call.after emailStr ⟨.addAlias email aliasEmail, fails⟩ s)) ↔
        Intact emailStr s ⟨.addAlias email aliasEmail, fails⟩ := by
  by_cases hw : Writes s (.addAlias email aliasEmail)
  · have hat : '@' ∈ formatAlias (normaliseEmail aliasEmail) [normaliseEmail email] :=
      List.mem_append_left _ hw.2.1
    refine intact_of_write (.inr (.inr (.inl rfl))) rfl hw id (reads_addAlias hw) (ne_concat ⟨'@', hat, by decide⟩) ?_ ?_ ?_
    · split <;> exact putLines_same s _ _
    · split <;> rfl
    · show _ ↔ emailStr (normaliseEmail aliasEmail) = none
      unfold Prog.Errs
      cases emailStr (normaliseEmail aliasEmail) <;> simp [Prog.run]
  · exact intact_of_always (always_void (always_addAlias_rejected hw)) (.inl hw)

theorem intact_deleteAlias :
    (CallRaises emailStr s ⟨.deleteAlias email aliasEmail, fails⟩ →
      Same s (Call.after emailStr ⟨.deleteAlias email aliasEmail, fails⟩ s)) ↔
        Intact emailStr s ⟨.deleteAlias email aliasEmail, fails⟩ := by
  by_cases hw : Writes s (.deleteAlias email aliasEmail)
  · exact intact_of_last (reads_deleteAlias hw) rfl (intact_of_alone rfl id)
  · exact intact_of_always (always_deleteAlias_rejected hw) (.inl hw)

theorem intact_deleteSieveScript :
    (CallRaises emailStr s ⟨.deleteSieveScript email, fails⟩ →
      Same s (Call.after emailStr ⟨.deleteSieveScript email, fails⟩ s)) ↔
        Intact emailStr s ⟨.deleteSieveScript email, fails⟩ := by
  by_cases hw : Writes s (.deleteSieveScript email)
  · exact intact_of_last (reads_sieve hw (.here _)) rfl (intact_of_alone rfl id)
  · exact intact_of_always (always_sieve_rejected hw) (.inl hw)

theorem reads_setSieveScript (hw : Writes s (.setSieveScript email content)) :
    Reads box s 1 (setSieveScript email content)
      (if strip content = [] then
        deleteConfig (sieveFilename (normaliseEmail email)) >>= fun _ =>
          .pure ⟨normaliseEmail email, [], false, true⟩
      else
        writeConfig (sieveFilename (normaliseEmail email)) (strip content ++ ['\n']) >>= fun _ =>
          .pure ⟨normaliseEmail email, strip content, true, true⟩) := reads_sieve hw (.here _)

theorem intact_setSieveScript :
    (CallRaises emailStr s ⟨.setSieveScript email content, fails⟩ →
      Same s (Call.after emailStr ⟨.setSieveScript email content, fails⟩ s)) ↔
        Intact emailStr s ⟨.setSieveScript email content, fails⟩ := by
  by_cases hw : Writes s (.setSieveScript email content)
  · have hi : Intact emailStr s ⟨.setSieveScript email content, fails⟩ := intact_of_alone rfl id
    have hr := reads_setSieveScript hw
    by_cases hb : strip content = []
    · rw [if_pos hb] at hr
      exact intact_of_last (f := .deleteConfig (sieveFilename (normaliseEmail email)))
        (k := fun _ => .pure ()) (hr.bind _) rfl hi
    · rw [if_neg hb] at hr
      exact intact_of_last (f := .writeConfig (sieveFilename (normaliseEmail email)) _)
        (k := fun _ => .pure ()) (hr.bind _) rfl hi
  · exact intact_of_always (always_void (always_sieve_rejected hw)) (.inl hw)

/-- A call that raises leaves the files as they were exactly when it is
`Intact`. -/
theorem unchanged_iff (emailStr : Str → Option Str) (s : Files) (c : Call) :
    (CallRaises emailStr s c → Same s (c.after emailStr s)) ↔ Intact emailStr s c := by
  obtain ⟨op, fails⟩ := c
  cases op with
  | createMailbox email crypt q => exact intact_createMailbox
  | deleteMailbox email => exact intact_deleteMailbox
  | setPassword email crypt => exact intact_setPassword
  | setQuota email q => exact intact_setQuota
  | addAlias email aliasEmail => exact intact_addAlias
  | deleteAlias email aliasEmail => exact intact_deleteAlias
  | setSieveScript email content => exact intact_setSieveScript
  | deleteSieveScript email => exact intact_deleteSieveScript

end

/-- One account, under a domain that `EmailStr` does not take. -/
def oneAccount : Files := fun p =>
  if p = configPath accountsFilename then some "a@mail.local|{SHA512-CRYPT}$6$old\n".toList else none

/-- Special-use domains are refused. -/
def refusing : Str → Option Str := fun a => if afterLast '.' a = "local".toList then none else some a

def reset : Call := ⟨.setPassword "a@mail.local".toList salted, none⟩

def stranded : Call := ⟨.deleteMailbox "a@mail.local".toList, some 2⟩

/-- A password is set, and the call answers with an error. A deletion fails at
its third command, and the account is gone: the same call is answered 404. -/
theorem half_done :
    (CallRaises refusing oneAccount reset ∧ ¬ Same oneAccount (reset.after refusing oneAccount) ∧
      (reset.after refusing oneAccount) (configPath accountsFilename) =
        some "a@mail.local|{SHA512-CRYPT}$6$salt$digest\n".toList) ∧
    CallRaises some oneAccount stranded ∧ ¬ Same oneAccount (stranded.after some oneAccount) ∧
      (stranded.after some oneAccount) (configPath accountsFilename) = some [] ∧
      ((deleteMailbox "a@mail.local".toList).run box (stranded.after some oneAccount)).1 =
        .error (notFound "Mailbox" "a@mail.local".toList) := by
  have hreset : (reset.after refusing oneAccount) (configPath accountsFilename) =
      some "a@mail.local|{SHA512-CRYPT}$6$salt$digest\n".toList := by decide +kernel
  have hstranded : (stranded.after some oneAccount) (configPath accountsFilename) = some [] := by
    decide +kernel
  have hold : oneAccount (configPath accountsFilename) =
      some "a@mail.local|{SHA512-CRYPT}$6$old\n".toList := by decide +kernel
  refine ⟨⟨.inr ⟨.internal, by decide +kernel⟩, not_same_of_apply (.inl rfl) hreset ?_, hreset⟩,
    .inl ⟨2, rfl, by decide +kernel⟩, not_same_of_apply (.inl rfl) hstranded ?_, hstranded,
    by decide +kernel⟩
  · rw [hold]
    decide
  · rw [hold]
    decide

end MailserverUi.L4.MailboxFailure

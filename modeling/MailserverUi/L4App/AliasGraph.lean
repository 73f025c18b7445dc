import MailserverUi.Core.Graph
import MailserverUi.L4App.MailboxConsistency

/-!
# Aliases do not forward in circles

`add_alias` rejects an address that forwards to itself. Longer circles are kept
out by what it checks of the two ends: the target is an account and the source
is not. Every target is an account, since `delete_mailbox` takes the address
out of the aliases too, so nothing forwards to the source of a new alias.

`delete_mailbox` writes the accounts first. When it fails before it gets to the
aliases, they go on forwarding to an address that is no account, and which an
alias may be made of.

Results:
* `acyclic_of_whole`: no alias leads back to itself, and every expansion ends,
  in any run with failing commands in which no deletion stops between its two
  writes.
* `circle_after_failure`: a run in which one does.
-/
namespace MailserverUi.L4.AliasGraph

open Py L1.MailFiles L1.SieveAddress L2.Errors L2.Container L3.Passwords L3.MailboxService
open L3.MailboxSpec MailboxCreate MailboxRuns MailboxConsistency

/-- An edge of the alias graph: some line has the source `a` and the target
`b`. -/
def Forwards (s : Files) (a b : Str) : Prop :=
  ∃ l ∈ lines s virtualFilename, (parseAlias l).1 = a ∧ b ∈ (parseAlias l).2

/-- What keeps circles out. -/
structure Settled (s : Files) : Prop where
  targets : ∀ a b, Forwards s a b → b ∈ addresses s
  acyclic : Acyclic (Forwards s)

section
variable {s s' : Files} {a c target source : Str} {q : Option Str}

/-- Fewer edges, and what they lead to is still an account. -/
theorem Settled.mono (h : Settled s) (hf : ∀ x y, Forwards s' x y → Forwards s x y)
    (ha : ∀ x y, Forwards s' x y → y ∈ addresses s → y ∈ addresses s') : Settled s' where
  targets x y hxy := ha x y hxy (h.targets x y (hf x y hxy))
  acyclic := h.acyclic.mono hf

theorem Settled.congr (h : Settled s)
    (hl : lines s' virtualFilename = lines s virtualFilename)
    (ha : ∀ b ∈ addresses s, b ∈ addresses s') : Settled s' := by
  refine h.mono (fun x y hxy => ?_) fun x y _ hy => ha y hy
  unfold Forwards at hxy ⊢
  rwa [hl] at hxy

theorem Settled.putAccounts {ls : List Str} (h : Settled s) (hl : ∀ l ∈ ls, IsLine l)
    (ha : ∀ b ∈ addresses s, b ∈ addressesOf ls) :
    Settled (putLines s accountsFilename ls) := by
  refine h.congr (lines_putLines_ne accounts_ne_virtual.symm s ls) fun b hb => ?_
  rw [addresses, lines_putLines hl]
  exact ha b hb

theorem Settled.putQuotas (h : Settled s) (d : Dict Str Str) : Settled (putQuotas s d) := by
  refine h.congr (lines_putQuotas_ne virtual_ne_quotas s d) fun b hb => ?_
  rwa [addresses, lines_putQuotas_ne accounts_ne_quotas]

theorem Settled.dropQuota (h : Settled s) : Settled (dropQuota s a) := by
  refine h.congr (lines_dropQuota_ne s a virtual_ne_quotas) fun b hb => ?_
  rwa [addresses, lines_dropQuota_ne s a accounts_ne_quotas]

theorem Settled.giveQuota (h : Settled s) : Settled (giveQuota s a q) := by
  refine h.congr (lines_giveQuota_ne s a virtual_ne_quotas q) fun b hb => ?_
  rwa [addresses, lines_giveQuota_ne s a accounts_ne_quotas]

theorem Settled.deleteSieve (h : Settled s) : Settled (s.delete (sieveFilename a)) := by
  refine h.congr (lines_delete_ne (virtual_ne_sieve a) s) fun b hb => ?_
  rwa [addresses, lines_delete_ne (accounts_ne_sieve a)]

theorem forwards_withoutTarget {t : Str} {hit : Str → Bool} {x y : Str}
    (h : Forwards (putAliases s (withoutTarget t hit (lines s virtualFilename))) x y) :
    Forwards s x y := by
  obtain ⟨l, hl, rfl, hy⟩ := h
  rw [lines_withoutTarget] at hl
  obtain ⟨-, l₀, hl₀, e, ht⟩ := mem_withoutTarget (fun _ => isLine_of_mem_lines) hl
  exact ⟨l₀, hl₀, e.symm, (ht y hy).1⟩

theorem Settled.unaliased (h : Settled s) (hit : Str → Bool) :
    Settled (putAliases s (withoutTarget target hit (lines s virtualFilename))) := by
  refine h.mono (fun x y => forwards_withoutTarget) fun x y _ hy => ?_
  rwa [addresses, putAliases, lines_putLines_ne accounts_ne_virtual]

/-- An alias of one target, which is no blank and has no comma in it. -/
theorem isAlias_single (ht : NoSpace target) (htc : ',' ∉ target) (htn : IsNormal target)
    (hte : target ≠ []) (hs : NoSpace source) (hsn : IsNormal source) (hse : source ≠ []) :
    IsAlias source [target] := by
  refine ⟨hse, hs, hsn.low, fun t hmem => ?_⟩
  rw [List.mem_singleton.mp hmem]
  exact ⟨hte, htc, htn, ht.oneLine⟩

theorem lines_aliased (hok : IsAlias source [target]) :
    lines (aliased s target source) virtualFilename =
      lines s virtualFilename ++ [formatAlias source [target]] := by
  refine lines_putLines fun l hl => ?_
  rcases List.mem_append.mp hl with hl | hl
  · exact isLine_of_mem_lines hl
  · rw [List.mem_singleton.mp hl]
    exact isLine_formatAlias hok (by simp)

/-- One more edge. -/
theorem forwards_aliased (hok : IsAlias source [target]) (x y : Str) :
    Forwards (aliased s target source) x y ↔ Forwards s x y ∨ x = source ∧ y = target := by
  have hparse := parseAlias_format hok (List.cons_ne_nil target [])
  unfold Forwards
  rw [lines_aliased hok]
  constructor
  · rintro ⟨l, hl, rfl, hy⟩
    rcases List.mem_append.mp hl with hl | hl
    · exact .inl ⟨l, hl, rfl, hy⟩
    · rw [List.mem_singleton.mp hl, hparse] at hy ⊢
      exact .inr ⟨rfl, List.mem_singleton.mp hy⟩
  · rintro (⟨l, hl, e, hy⟩ | ⟨rfl, rfl⟩)
    · exact ⟨l, List.mem_append_left _ hl, e, hy⟩
    · refine ⟨_, List.mem_append_right _ (List.mem_singleton_self _), ?_⟩
      rw [hparse]
      exact ⟨rfl, List.mem_singleton_self _⟩

/-- A new edge leaves from an address that no edge leads to. -/
theorem Settled.aliased (h : Settled s) (ht : Plain target) (htn : IsNormal target)
    (hs : Plain source) (hsn : IsNormal source) (hadd : Addable s target source) :
    Settled (aliased s target source) := by
  obtain ⟨hm, -, hne, hsa, -⟩ := hadd
  have hok : IsAlias source [target] := isAlias_single ht.noSpace ht.sep.2.2 htn
    (List.ne_nil_of_mem ht.atSign) hs.noSpace hsn (List.ne_nil_of_mem hs.atSign)
  have hacc : addresses (L3.MailboxSpec.aliased s target source) = addresses s := by
    rw [addresses, L3.MailboxSpec.aliased, putAliases, lines_putLines_ne accounts_ne_virtual,
      addresses]
  refine ⟨fun x y hxy => ?_, h.acyclic.addSource (v := source) (fun x y hxy => ?_) fun x hx => ?_⟩
  · rw [hacc]
    rcases (forwards_aliased hok x y).mp hxy with hxy | ⟨-, rfl⟩
    · exact h.targets x y hxy
    · exact hm
  · exact ((forwards_aliased hok x y).mp hxy).imp id And.left
  · rcases (forwards_aliased hok x source).mp hx with hx | ⟨-, e⟩
    · exact hsa (h.targets x source hx)
    · exact hne e

end

/-! ## Each operation, at any point it may fail -/

section
variable {emailStr : Str → Option Str} {s : Files} {crypt : Nat → Option Str} {q : Option Str}
  {email aliasEmail : Str}

theorem always_createMailbox (h : Settled s) (hc : Crypt crypt) (hp : Plain (normaliseEmail email)) :
    (createMailbox emailStr crypt email q).Always box Settled s := by
  refine Prog.always_raiseIf_bind.mpr ⟨fun _ => h, fun _ => always_readLines_bind h ?_⟩
  refine Prog.always_raiseIf_bind.mpr ⟨fun _ => h, fun _ => ?_⟩
  cases hc0 : crypt 0 with
  | none => exact h
  | some c =>
    have hs : Settled (putLines s accountsFilename
        (lines s accountsFilename ++ [formatPair '|' (normaliseEmail email) (dovecotHash c)])) := by
      refine h.putAccounts (fun l hl => ?_) fun b hb => ?_
      · rcases List.mem_append.mp hl with hl | hl
        · exact isLine_of_mem_lines hl
        · rw [List.mem_singleton.mp hl]
          exact isLine_account (isNormal_normaliseEmail email).trim hp.noSpace.oneLine (hc 0 c hc0)
      · rw [addressesOf_append]
        exact List.mem_append_left _ hb
    refine always_writeLines_bind h (Prog.always_bind ?_ fun _ s' e => ?_)
    · match q with
      | none | some [] => exact hs
      | some (d :: q) => exact always_setQuotaLine hs (hs.putQuotas _)
    · rw [run_setGivenQuota] at e
      cases e
      exact always_mailbox emailStr q hs.giveQuota

theorem always_addAlias (h : Settled s) (ht : Plain (normaliseEmail email))
    (hs : Plain (normaliseEmail aliasEmail)) :
    (addAlias emailStr email aliasEmail).Always box Settled s := by
  refine always_requireMailbox_bind h fun hm => ?_
  refine Prog.always_raiseIf_bind.mpr ⟨fun _ => h, fun hat => ?_⟩
  refine Prog.always_raiseIf_bind.mpr ⟨fun _ => h, fun hne => ⟨h, ?_⟩⟩
  refine Prog.always_raiseIf_bind.mpr ⟨fun _ => h, fun hacc => always_readLines_bind h ?_⟩
  refine Prog.always_raiseIf_bind.mpr ⟨fun _ => h, fun hnew => always_writeLines_bind h ?_⟩
  have hadd : Addable s (normaliseEmail email) (normaliseEmail aliasEmail) :=
    ⟨hm, not_not.mp hat, hne, hacc, fun l hl e => hnew ⟨l, hl, e⟩⟩
  have hsettled := h.aliased ht (isNormal_normaliseEmail email) hs
    (isNormal_normaliseEmail aliasEmail) hadd
  split <;> exact hsettled

theorem always_deleteAlias (h : Settled s) :
    (deleteAlias email aliasEmail).Always box Settled s := by
  refine always_requireMailbox_bind h fun _ => always_readLines_bind h ?_
  exact Prog.always_raiseIf_bind.mpr ⟨fun _ => h, fun _ => ⟨h, h.unaliased _⟩⟩

end

/-! ## A deletion, and where it may stop -/

section
variable (s : Files) (a email : Str)

/-- The files after the first write of `delete_mailbox`. -/
def unlisted : Files :=
  putLines s accountsFilename ((lines s accountsFilename).filter fun l => (splitAccount l).1 ≠ a)

/-- `delete_mailbox` after its first write. -/
def cleanup : Io Unit := do
  removeQuotaLine a
  removeTargetFromAliases a
  if sieveAddress a then
    deleteConfig (sieveFilename a)

/-- The commands of `delete_mailbox` up to the write of the aliases, where it
writes them. -/
def commandsToAliases : Nat := if (quotas s).get? a = none then 5 else 6

/-- `delete_mailbox` compares the numbers of lines. -/
theorem length_remaining :
    ((lines s accountsFilename).filter fun l => (splitAccount l).1 ≠ a).length =
      (lines s accountsFilename).length ↔ Fresh s a := by
  rw [List.length_filter_eq_length_iff]
  simp only [Fresh, decide_eq_true_eq]

theorem cut_deleteMailbox_fresh (h : Fresh s (normaliseEmail email)) (n : Nat) :
    (deleteMailbox email).cut box n s = s := by
  cases n with
  | zero => rfl
  | succ n =>
    simp only [deleteMailbox, cut_readLines_bind, Prog.cut_raiseIf_bind, length_remaining, h,
      if_true]

/-- Nothing changes before the accounts are written. -/
theorem cut_deleteMailbox_early {n : Nat} (h : n ≤ 1) : (deleteMailbox email).cut box n s = s := by
  rcases Nat.le_one_iff_eq_zero_or_eq_one.mp h with rfl | rfl
  · rfl
  · simp only [deleteMailbox, cut_readLines_bind, Prog.cut_zero]

theorem cut_deleteMailbox (h : ¬ Fresh s (normaliseEmail email)) (n : Nat) :
    (deleteMailbox email).cut box (n + 2) s =
      (cleanup (normaliseEmail email)).cut box n (unlisted s (normaliseEmail email)) := by
  simp only [deleteMailbox, cut_readLines_bind, Prog.cut_raiseIf_bind, length_remaining, h,
    if_false, cut_writeLines_bind]
  rfl

theorem steps_removeQuotaLine :
    (removeQuotaLine a).steps box s = if (quotas s).get? a = none then 1 else 2 := by
  change (if (quotas s).get? a = none then (Pure.pure () : Io Unit)
    else writeLines quotasFilename (quotaLines ((quotas s).erase a))).steps box s + 1 = _
  split <;> rfl

theorem steps_removeTarget_le : (removeTargetFromAliases a).steps box s ≤ 2 := by
  change (if ∃ l ∈ lines s virtualFilename, decide (a ∈ (parseAlias l).2) = true then
    writeLines virtualFilename (withoutTarget a _ _) else (Pure.pure () : Io Unit)).steps box s + 1 ≤ 2
  split
  · exact le_refl 2
  · exact Nat.le_succ 1

/-- The files once the aliases are written too. -/
def swept : Files := dropTarget (dropQuota (unlisted s a) a) a

theorem cut_deleteSieve (t : Files) (n : Nat) :
    (if sieveAddress a then deleteConfig (sieveFilename a) else Pure.pure () : Io Unit).cut box n t = t ∨
      (if sieveAddress a then deleteConfig (sieveFilename a) else Pure.pure () : Io Unit).cut box n t =
        t.delete (sieveFilename a) := by
  by_cases h : sieveAddress a = true
  · rw [if_pos h]
    cases n with
    | zero => exact .inl rfl
    | succ n => exact .inr (Prog.cut_of_steps_le (Nat.le_add_left 1 n))
  · rw [if_neg h]
    exact .inl (by cases n <;> rfl)

theorem cut_cleanup_late {n : Nat}
    (hn : (if (quotas (unlisted s a)).get? a = none then 1 else 2) + 2 ≤ n) :
    (cleanup a).cut box n (unlisted s a) = swept s a ∨
      (cleanup a).cut box n (unlisted s a) = (swept s a).delete (sieveFilename a) := by
  rw [← steps_removeQuotaLine] at hn
  have hle := steps_removeTarget_le (dropQuota (unlisted s a) a) a
  rw [cleanup, Prog.cut_bind_of_ge (run_removeQuotaLine _ _) (by omega),
    Prog.cut_bind_of_ge (run_removeTargetFromAliases _ _) (by omega)]
  exact cut_deleteSieve a _ _

/-- Once the aliases are written, only the Sieve file is left. -/
theorem cut_deleteMailbox_late (h : ¬ Fresh s (normaliseEmail email)) {n : Nat}
    (hn : commandsToAliases s (normaliseEmail email) ≤ n) :
    (deleteMailbox email).cut box n s = swept s (normaliseEmail email) ∨
      (deleteMailbox email).cut box n s =
        (swept s (normaliseEmail email)).delete (sieveFilename (normaliseEmail email)) := by
  have hq : quotas (unlisted s (normaliseEmail email)) = quotas s :=
    quotas_congr (lines_putLines_ne accounts_ne_quotas.symm s _)
  have h5 : 5 ≤ n := by
    unfold commandsToAliases at hn
    split at hn <;> omega
  obtain ⟨m, rfl⟩ : ∃ m, n = m + 2 := ⟨n - 2, by omega⟩
  rw [cut_deleteMailbox s email h]
  refine cut_cleanup_late s (normaliseEmail email) ?_
  rw [hq]
  unfold commandsToAliases at hn
  by_cases hn0 : (quotas s).get? (normaliseEmail email) = none
  · rw [if_pos hn0] at hn ⊢
    omega
  · rw [if_neg hn0] at hn ⊢
    omega

end

section
variable {s : Files} {a email : Str}

theorem addresses_unlisted (s : Files) (a : Str) :
    addresses (unlisted s a) = (addresses s).filter (· ≠ a) := by
  rw [addresses, unlisted,
    lines_putLines fun l hl => isLine_of_mem_lines (List.mem_of_mem_filter hl),
    addressesOf_filter, addresses]

theorem mem_addresses_swept {b : Str} (hb : b ∈ addresses s) (hne : b ≠ a) :
    b ∈ addresses (swept s a) := by
  have hb : b ∈ addresses (unlisted s a) := by
    rw [addresses_unlisted, List.mem_filter]
    exact ⟨hb, by simpa using hne⟩
  rwa [addresses, swept, lines_dropTarget_ne accounts_ne_virtual,
    lines_dropQuota_ne _ _ accounts_ne_quotas]

/-- The account is gone, and so are the edges that led to it. -/
theorem Settled.swept (h : Settled s) : Settled (swept s a) := by
  have hold : ∀ x y, Forwards (AliasGraph.swept s a) x y → Forwards s x y ∧ y ≠ a := by
    rintro x y ⟨l, hl, rfl, hy⟩
    obtain ⟨l₀, hl₀, e, ht⟩ := mem_dropTarget hl
    rw [lines_dropQuota_ne _ _ virtual_ne_quotas, unlisted,
      lines_putLines_ne accounts_ne_virtual.symm] at hl₀
    exact ⟨⟨l₀, hl₀, e.symm, (ht y hy).1⟩, (ht y hy).2⟩
  exact h.mono (fun x y hxy => (hold x y hxy).1)
    fun x y hxy hy => mem_addresses_swept hy (hold x y hxy).2

/-- No edge leads to the account. -/
theorem Settled.unlisted (h : Settled s)
    (ha : ∀ l ∈ lines s virtualFilename, a ∉ (parseAlias l).2) : Settled (unlisted s a) := by
  have hlines : lines (AliasGraph.unlisted s a) virtualFilename = lines s virtualFilename :=
    lines_putLines_ne accounts_ne_virtual.symm s _
  refine h.mono (fun x y hxy => ?_) fun x y hxy hy => ?_
  · unfold Forwards at hxy ⊢
    rwa [hlines] at hxy
  · obtain ⟨l, hl, -, hm⟩ := hxy
    rw [hlines] at hl
    rw [addresses_unlisted, List.mem_filter]
    have hne : y ≠ a := fun e => ha l hl (e ▸ hm)
    exact ⟨hy, by simpa using hne⟩

theorem always_cleanup (h : Settled (AliasGraph.unlisted s a)) :
    (cleanup a).Always box Settled (AliasGraph.unlisted s a) := by
  refine Prog.always_bind (always_removeQuotaLine h h.dropQuota) fun _ s' e => ?_
  have hs' : s' = dropQuota (AliasGraph.unlisted s a) a := by
    rw [run_removeQuotaLine] at e
    exact (Prod.mk.inj e).2.symm
  rw [hs']
  have hdrop : Settled (dropTarget (dropQuota (AliasGraph.unlisted s a) a) a) := by
    unfold dropTarget
    split
    · exact h.dropQuota.unaliased _
    · exact h.dropQuota
  refine Prog.always_bind (always_removeTarget h.dropQuota hdrop) fun _ s' e => ?_
  have hs' : s' = dropTarget (dropQuota (AliasGraph.unlisted s a) a) a := by
    rw [run_removeTargetFromAliases] at e
    exact (Prod.mk.inj e).2.symm
  rw [hs']
  split
  · exact ⟨hdrop, hdrop.deleteSieve⟩
  · exact hdrop

/-- A deletion that does not stop between the accounts and the aliases, or
whose account no alias forwards to. -/
theorem cut_deleteMailbox_settled (h : Settled s) {n : Nat}
    (hn : n ≤ 1 ∨ commandsToAliases s (normaliseEmail email) ≤ n ∨
      ∀ l ∈ lines s virtualFilename, normaliseEmail email ∉ (parseAlias l).2) :
    Settled ((deleteMailbox email).cut box n s) := by
  by_cases hf : Fresh s (normaliseEmail email)
  · rw [cut_deleteMailbox_fresh s email hf]
    exact h
  · rcases hn with hn | hn | hn
    · rw [cut_deleteMailbox_early s email hn]
      exact h
    · rcases cut_deleteMailbox_late s email hf hn with e | e
      · rw [e]
        exact h.swept
      · rw [e]
        exact h.swept.deleteSieve
    · match n with
      | 0 => exact h
      | 1 =>
        rw [cut_deleteMailbox_early s email (le_refl 1)]
        exact h
      | n + 2 =>
        rw [cut_deleteMailbox s email hf]
        exact (always_cleanup (h.unlisted hn)).cut n

theorem run_deleteMailbox_settled (h : Settled s) :
    Settled ((deleteMailbox email).run box s).2 := by
  rw [run_deleteMailbox]
  simp only
  split
  · exact h
  · change Settled (deleted s (normaliseEmail email))
    have e : deleted s (normaliseEmail email) =
        if sieveAddress (normaliseEmail email)
        then (AliasGraph.swept s (normaliseEmail email)).delete (sieveFilename (normaliseEmail email))
        else AliasGraph.swept s (normaliseEmail email) := rfl
    rw [e]
    split
    · exact h.swept.deleteSieve
    · exact h.swept

end

/-! ## Runs in which container commands may fail -/

/-- The four operations that add or remove accounts and aliases. -/
def Edits : Op → Prop
  | .createMailbox .. | .deleteMailbox _ | .addAlias .. | .deleteAlias .. => True
  | _ => False

/-- Calls of the four on matching addresses, failing anywhere, from no alias
on. -/
def edits (emailStr : Str → Option Str) : LTS Files Call where
  init s := lines s virtualFilename = []
  step s c s' := Edits c.op ∧ c.op.WellFormed ∧ Matching c.op ∧ s' = c.after emailStr s

/-- A deletion does not fail after it has written the accounts and before it
has taken the address out of the aliases, unless none has it. -/
def Whole (s : Files) (c : Call) : Prop :=
  match c.op, c.fails with
  | .deleteMailbox email, some n =>
    n ≤ 1 ∨ commandsToAliases s (normaliseEmail email) ≤ n ∨
      ∀ l ∈ lines s virtualFilename, normaliseEmail email ∉ (parseAlias l).2
  | _, _ => True

/-- One call, successful, rejected or cut short. -/
theorem settled_after {emailStr : Str → Option Str} {s : Files} {c : Call} (h : Settled s)
    (he : Edits c.op) (hw : c.op.WellFormed) (hm : Matching c.op) (hg : Whole s c) :
    Settled (c.after emailStr s) := by
  obtain ⟨op, fails⟩ := c
  have hp {e : Str} := plain_of_matching hm (e := e)
  have always (ha : (op.prog emailStr).Always box Settled s) :
      Settled (Call.after emailStr ⟨op, fails⟩ s) := by
    cases fails with
    | none => exact ha.run
    | some n => exact ha.cut n
  cases op with
  | createMailbox email crypt q =>
    exact always (always_void (always_createMailbox h hw.1 (hp (by simp [Op.args]))))
  | deleteMailbox email =>
    cases fails with
    | none => exact run_deleteMailbox_settled h
    | some n => exact cut_deleteMailbox_settled h hg
  | addAlias email aliasEmail =>
    exact always (always_void (always_addAlias h (hp (by simp [Op.args])) (hp (by simp [Op.args]))))
  | deleteAlias email aliasEmail => exact always (always_deleteAlias h)
  | _ => exact absurd he id

theorem settled_inductive (emailStr : Str → Option Str) :
    ((edits emailStr).guard Whole).Inductive Settled where
  init s h := by
    have hno : ∀ x y, ¬ Forwards s x y := by
      rintro x y ⟨l, hl, -⟩
      rw [h] at hl
      cases hl
    refine ⟨fun x y hxy => absurd hxy (hno x y), fun x hc => ?_⟩
    obtain ⟨y, -, hy⟩ := Relation.TransGen.tail'_iff.mp hc
    exact hno y x hy
  step s c s' h hs := by
    obtain ⟨hg, he, hw, hm, rfl⟩ := hs
    exact settled_after h he hw hm hg

/-- In every run in which deletions are whole, no alias leads back to itself,
and following aliases ends after as many steps as there are lines. -/
theorem acyclic_of_whole (emailStr : Str → Option Str) (s : Files)
    (h : ((edits emailStr).guard Whole).Reachable s) :
    Acyclic (Forwards s) ∧ ∀ a l, List.IsChain (Forwards s) (a :: l) →
      l.length ≤ (lines s virtualFilename).length := by
  have hs := (settled_inductive emailStr).reachable s h
  refine ⟨hs.acyclic, fun a l hl => ?_⟩
  have hsources : ∀ x y, Forwards s x y →
      x ∈ (lines s virtualFilename).map fun l => (parseAlias l).1 :=
    fun x y ⟨l, hl, e, _⟩ => List.mem_map.mpr ⟨l, hl, e⟩
  have hle := hs.acyclic.length_le hsources hl
  rwa [List.length_map] at hle

def deletion (email : String) (fails : Option Nat) : Call := ⟨.deleteMailbox email.toList, fails⟩

theorem edits_step {s : Files} {c : Call} (he : Edits c.op) (hw : c.op.WellFormed)
    (hm : Matching c.op) : (edits some).step s c (c.after some s) := ⟨he, hw, hm, rfl⟩

theorem matching_newBox_a : Matching (newBox "a@x.org").op := by unfold Matching; decide
theorem matching_newBox_b : Matching (newBox "b@x.org").op := by unfold Matching; decide

theorem matching_b_to_a : Matching (newAlias "a@x.org" "b@x.org").op := by
  unfold Matching; decide

theorem matching_a_to_b : Matching (newAlias "b@x.org" "a@x.org").op := by
  unfold Matching; decide

theorem matching_deletion (fails : Option Nat) : Matching (deletion "a@x.org" fails).op := by
  intro e he
  rw [List.mem_singleton.mp he]
  decide

/-- A deletion that fails at once, and one that succeeds. -/
def wholeRun : List Call :=
  [newBox "a@x.org", newAlias "a@x.org" "b@x.org", deletion "a@x.org" (some 1), newBox "b@x.org",
    deletion "a@x.org" none]

theorem acyclic_of_whole_run :
    lines (afterCalls (wholeRun.take 4)) virtualFilename = ["b@x.org a@x.org".toList] ∧
      lines (afterCalls wholeRun) virtualFilename = [] ∧
      Acyclic (Forwards (afterCalls wholeRun)) ∧
      ∀ a l, List.IsChain (Forwards (afterCalls wholeRun)) (a :: l) →
        l.length ≤ (lines (afterCalls wholeRun) virtualFilename).length :=
  ⟨by decide +kernel, by decide +kernel, acyclic_of_whole some _
    ⟨noFiles, wholeRun, noAccounts_noFiles.2,
      .cons ⟨trivial, edits_step trivial (wellFormed_newBox _) matching_newBox_a⟩
        (.cons ⟨trivial, edits_step trivial trivial matching_b_to_a⟩
          (.cons ⟨.inl (le_refl 1), edits_step trivial trivial (matching_deletion _)⟩
            (.cons ⟨trivial, edits_step trivial (wellFormed_newBox _) matching_newBox_b⟩
              (.cons ⟨trivial, edits_step trivial trivial (matching_deletion _)⟩ (.nil _)))))⟩⟩

/-- The deletion stops after its first write, and what forwarded to the account
goes on doing so. -/
def brokenRun : List Call :=
  [newBox "a@x.org", newAlias "a@x.org" "b@x.org", deletion "a@x.org" (some 2), newBox "b@x.org",
    newAlias "b@x.org" "a@x.org"]

/-- `a` forwards to `b`, and `b` forwards to `a`. -/
theorem circle_after_failure :
    ∃ s, (edits some).Reachable s ∧ ¬ Acyclic (Forwards s) := by
  refine ⟨afterCalls brokenRun, ⟨noFiles, brokenRun, noAccounts_noFiles.2,
    .cons (edits_step trivial (wellFormed_newBox _) matching_newBox_a)
      (.cons (edits_step trivial trivial matching_b_to_a)
        (.cons (edits_step trivial trivial (matching_deletion _))
          (.cons (edits_step trivial (wellFormed_newBox _) matching_newBox_b)
            (.cons (edits_step trivial trivial matching_a_to_b) (.nil _)))))⟩, fun h => ?_⟩
  have hlines : lines (afterCalls brokenRun) virtualFilename =
      ["b@x.org a@x.org".toList, "a@x.org b@x.org".toList] := by decide +kernel
  have hba : Forwards (afterCalls brokenRun) "b@x.org".toList "a@x.org".toList :=
    ⟨"b@x.org a@x.org".toList, by rw [hlines]; decide, by decide +kernel, by decide +kernel⟩
  have hab : Forwards (afterCalls brokenRun) "a@x.org".toList "b@x.org".toList :=
    ⟨"a@x.org b@x.org".toList, by rw [hlines]; decide, by decide +kernel, by decide +kernel⟩
  exact h _ (.head hab (.single hba))

end MailserverUi.L4.AliasGraph

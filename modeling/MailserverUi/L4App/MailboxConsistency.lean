import MailserverUi.L4App.MailboxRuns

/-!
# Quotas, aliases and Sieve files belong to accounts

With every container command succeeding, and with addresses that
`_SIEVE_ADDRESS_RE` matches, the four kinds of file stay consistent: what a
deleted account leaves behind is gone before it can be created again.

Results:
* `consistent_step`: one operation, successful or rejected, keeps `Consistent`.
* `consistent_of_reachable`: every state reachable from empty files has it.
-/
namespace MailserverUi.L4.MailboxConsistency

open Py L1.MailFiles L1.SieveAddress L2.Errors L2.Container L3.Passwords L3.MailboxService
open L3.MailboxSpec MailboxCreate MailboxRuns

structure Consistent (s : Files) : Prop where
  nodup : (addresses s).Nodup
  quotas : ∀ a, (quotas s).get? a ≠ none → a ∈ addresses s
  targets : ∀ l ∈ lines s virtualFilename, ∀ t ∈ (parseAlias l).2, t ∈ addresses s
  sieve : ∀ a, sieve s a ≠ none → a ∈ addresses s

/-- Only what is parsed counts. -/
theorem Consistent.of_subset {s s' : Files} (h : Consistent s)
    (ha : addresses s' = addresses s)
    (hq : ∀ b, (L3.MailboxSpec.quotas s').get? b ≠ none →
      b ∈ addresses s ∨ (L3.MailboxSpec.quotas s).get? b ≠ none)
    (ht : ∀ l ∈ lines s' virtualFilename, ∀ t ∈ (parseAlias l).2, t ∈ addresses s ∨
      ∃ l₀ ∈ lines s virtualFilename, t ∈ (parseAlias l₀).2)
    (hs : ∀ b, L3.MailboxSpec.sieve s' b ≠ none →
      b ∈ addresses s ∨ L3.MailboxSpec.sieve s b ≠ none) : Consistent s' where
  nodup := ha ▸ h.nodup
  quotas b hb := ha ▸ (hq b hb).elim id (h.quotas b)
  targets l hl t htm := ha ▸ (ht l hl t htm).elim id fun ⟨l₀, hl₀, hm⟩ => h.targets l₀ hl₀ t hm
  sieve b hb := ha ▸ (hs b hb).elim id (h.sieve b)

section
variable {s : Files} {a c content target source : Str} {q : Option Str}

theorem Consistent.created (h : Consistent s) (hp : Plain a) (hn : IsNormal a) (hf : Fresh s a)
    (hc : NoSpace c) (hq : ∀ v, q = some v → IsQuotaStr v) :
    Consistent (created s a (dovecotHash c) q) := by
  have hne : a ≠ [] := List.ne_nil_of_mem hp.atSign
  have hadd := addresses_created s (q := q) hne hp.sep.1 hn hp.noSpace.oneLine hc
  have hget := get?_created s (q := q) (h := dovecotHash c) (fun v hv =>
    ⟨hn, hp.noSpace.oneLine, hne, hp.sep.2.1, (hq v hv).noSpace.trim, (hq v hv).noSpace.oneLine,
      (hq v hv).ne⟩)
  refine ⟨?_, fun b hb => ?_, fun l hl t ht => ?_, fun b hb => ?_⟩
  · rw [hadd, List.nodup_append]
    refine ⟨h.nodup, List.nodup_singleton a, fun b hb d hd => ?_⟩
    rw [List.mem_singleton.mp hd]
    rintro rfl
    obtain ⟨-, l, hl, e⟩ := mem_addressesOf.mp hb
    exact hf l hl e
  · rw [hadd]
    rw [hget] at hb
    by_cases e : b = a
    · simp [e]
    · rw [if_neg e] at hb
      exact List.mem_append_left _ (h.quotas b hb)
  · rw [L3.MailboxSpec.created, lines_giveQuota_ne _ _ virtual_ne_quotas,
      lines_putLines_ne accounts_ne_virtual.symm] at hl
    exact hadd ▸ List.mem_append_left _ (h.targets l hl t ht)
  · rw [L3.MailboxSpec.created, sieve_giveQuota, sieve_putLines (accounts_ne_sieve b).symm] at hb
    exact hadd ▸ List.mem_append_left _ (h.sieve b hb)

theorem Consistent.deleted (h : Consistent s) (ha : sieveAddress a = true) :
    Consistent (deleted s a) := by
  have keep {b : Str} (hb : b ∈ addresses s) (hne : b ≠ a) :
      b ∈ addresses (L3.MailboxSpec.deleted s a) := by
    rw [addresses_deleted, List.mem_filter]
    exact ⟨hb, by simpa using hne⟩
  refine ⟨?_, fun b hb => ?_, fun l hl t ht => ?_, fun b hb => ?_⟩
  · rw [addresses_deleted]
    exact h.nodup.filter _
  · rw [get?_deleted] at hb
    split at hb
    · exact absurd rfl hb
    · exact keep (h.quotas b hb) ‹_›
  · obtain ⟨l₀, hl₀, -, hx⟩ := mem_deleted s a hl
    exact keep (h.targets l₀ hl₀ t (hx t ht).1) (hx t ht).2
  · rw [sieve_deleted s a ha] at hb
    split at hb
    · exact absurd rfl hb
    · exact keep (h.sieve b hb) ‹_›

theorem Consistent.reset (h : Consistent s) {crypt : Nat → Option Str} (hc : Crypt crypt)
    {updated : List Str} (hr : resetLines crypt a 0 (lines s accountsFilename) = some updated) :
    Consistent (putLines s accountsFilename updated) := by
  obtain ⟨hl, he⟩ := resetLines_spec hc (fun _ => isLine_of_mem_lines) hr
  refine h.of_subset ?_ (fun b hb => .inr ?_) (fun l hl t ht => .inr ?_) fun b hb => .inr ?_
  · rw [addresses, lines_putLines hl, addressesOf_congr he, addresses]
  · rwa [quotas_congr (lines_putLines_ne accounts_ne_quotas.symm s updated)] at hb
  · rw [lines_putLines_ne accounts_ne_virtual.symm] at hl
    exact ⟨l, hl, ht⟩
  · rwa [sieve_putLines (accounts_ne_sieve b).symm] at hb

theorem Consistent.dropQuota (h : Consistent s) : Consistent (dropQuota s a) := by
  refine h.of_subset ?_ (fun b hb => .inr ?_) (fun l hl t ht => .inr ?_) fun b hb => .inr ?_
  · rw [addresses, lines_dropQuota_ne s a accounts_ne_quotas, addresses]
  · rw [get?_dropQuota] at hb
    split at hb
    · exact absurd rfl hb
    · exact hb
  · rw [lines_dropQuota_ne s a virtual_ne_quotas] at hl
    exact ⟨l, hl, ht⟩
  · rwa [sieve_dropQuota] at hb

theorem Consistent.requota (h : Consistent s) (hp : Plain a) (hn : IsNormal a)
    (hm : a ∈ addresses s) (hq : ∀ v, q = some v → IsQuotaStr v) : Consistent (requota s a q) := by
  match q with
  | none | some [] => exact h.dropQuota
  | some (d :: v) =>
    have hv := hq (d :: v) rfl
    have hquota : IsQuota (a, d :: v) := ⟨hn, hp.noSpace.oneLine, List.ne_nil_of_mem hp.atSign,
      hp.sep.2.1, hv.noSpace.trim, hv.noSpace.oneLine, hv.ne⟩
    refine h.of_subset ?_ (fun b hb => ?_) (fun l hl t ht => .inr ?_) fun b hb => .inr ?_
    · exact congrArg addressesOf (lines_putQuotas_ne accounts_ne_quotas s _)
    · have hb : (L3.MailboxSpec.quotas (putQuotas s ((L3.MailboxSpec.quotas s).set a (d :: v)))).get? b
          ≠ none := hb
      rw [get?_putQuotas (isQuota_set (isQuota_quotas s) hquota), Dict.get?_set] at hb
      split at hb
      · exact .inl (by rwa [‹b = a›])
      · exact .inr hb
    · have hl : l ∈ lines (putQuotas s ((L3.MailboxSpec.quotas s).set a (d :: v))) virtualFilename :=
        hl
      rw [lines_putQuotas_ne virtual_ne_quotas] at hl
      exact ⟨l, hl, ht⟩
    · have hb : L3.MailboxSpec.sieve
          (putQuotas s ((L3.MailboxSpec.quotas s).set a (d :: v))) b ≠ none := hb
      rwa [sieve_putQuotas] at hb

/-- Alias lines whose targets are accounts. -/
theorem Consistent.putAliases (h : Consistent s) {ls : List Str} (hl : ∀ l ∈ ls, IsLine l)
    (ht : ∀ l ∈ ls, ∀ t ∈ (parseAlias l).2, t ∈ addresses s) : Consistent (putAliases s ls) := by
  refine h.of_subset ?_ (fun b hb => .inr ?_) (fun l hm t htm => .inl ?_) fun b hb => .inr ?_
  · rw [addresses, L3.MailboxSpec.putAliases, lines_putLines_ne accounts_ne_virtual, addresses]
  · rwa [L3.MailboxSpec.putAliases,
      quotas_congr (lines_putLines_ne virtual_ne_quotas.symm s ls)] at hb
  · rw [L3.MailboxSpec.putAliases, lines_putLines hl] at hm
    exact ht l hm t htm
  · rwa [L3.MailboxSpec.putAliases, sieve_putLines (virtual_ne_sieve b).symm] at hb

theorem Consistent.aliased (h : Consistent s) (ht : Plain target) (htn : IsNormal target)
    (hs : Plain source) (hsn : IsNormal source) (hm : target ∈ addresses s) :
    Consistent (aliased s target source) := by
  have hok : IsAlias source [target] := by
    refine ⟨List.ne_nil_of_mem hs.atSign, hs.noSpace, hsn.low, fun t hmem => ?_⟩
    rw [List.mem_singleton.mp hmem]
    exact ⟨List.ne_nil_of_mem ht.atSign, ht.sep.2.2, htn, ht.noSpace.oneLine⟩
  refine h.putAliases (fun l hl => ?_) fun l hl t htm => ?_
  · rcases List.mem_append.mp hl with hl | hl
    · exact isLine_of_mem_lines hl
    · rw [List.mem_singleton.mp hl]
      exact isLine_formatAlias hok (by simp)
  · rcases List.mem_append.mp hl with hl | hl
    · exact h.targets l hl t htm
    · rw [List.mem_singleton.mp hl, parseAlias_format hok (by simp), List.mem_singleton] at htm
      rwa [htm]

theorem Consistent.unaliased (h : Consistent s) (hit : Str → Bool) :
    Consistent (L3.MailboxSpec.putAliases s
      (withoutTarget target hit (lines s virtualFilename))) := by
  refine h.putAliases (fun l hl => ?_) fun l hl t ht => ?_
  · exact (mem_withoutTarget (fun _ => isLine_of_mem_lines) hl).1
  · obtain ⟨-, l₀, hl₀, -, hx⟩ := mem_withoutTarget (fun _ => isLine_of_mem_lines) hl
    exact h.targets l₀ hl₀ t (hx t ht).1

theorem Consistent.deleteSieve (h : Consistent s) : Consistent (s.delete (sieveFilename a)) := by
  refine h.of_subset ?_ (fun b hb => .inr ?_) (fun l hl t ht => .inr ?_) fun b hb => .inr ?_
  · rw [addresses, lines_delete_ne (accounts_ne_sieve a), addresses]
  · rwa [quotas_congr (lines_delete_ne (quotas_ne_sieve a) s)] at hb
  · rw [lines_delete_ne (virtual_ne_sieve a)] at hl
    exact ⟨l, hl, ht⟩
  · rw [sieve_delete] at hb
    split at hb
    · exact absurd rfl hb
    · exact hb

theorem Consistent.scripted (h : Consistent s) (hm : a ∈ addresses s) :
    Consistent (scripted s a content) := by
  unfold L3.MailboxSpec.scripted
  split
  · exact h.deleteSieve
  · refine h.of_subset ?_ (fun b hb => .inr ?_) (fun l hl t ht => .inr ?_) fun b hb => ?_
    · rw [addresses, lines_write_ne (accounts_ne_sieve a), addresses]
    · rwa [quotas_congr (lines_write_ne (quotas_ne_sieve a) s _)] at hb
    · rw [lines_write_ne (virtual_ne_sieve a)] at hl
      exact ⟨l, hl, ht⟩
    · rw [sieve_write] at hb
      split at hb
      · exact .inl (by rwa [‹b = a›])
      · exact .inr hb

end

/-! ## One operation, then a run -/

section
variable {emailStr : Str → Option Str} {s : Files} {crypt : Nat → Option Str} {q : Option Str}
  {email : Str}

theorem createMailbox_consistent (h : Consistent s) (hc : Crypt crypt)
    (hq : ∀ v, q = some v → IsQuotaStr v) (hp : Plain (normaliseEmail email)) :
    Consistent ((createMailbox emailStr crypt email q).run box s).2 := by
  rw [run_createMailbox]
  simp only
  split
  · exact h
  · split
    · exact h
    · rename_i hf
      split
      · exact h
      · rename_i c hc0
        exact h.created hp (isNormal_normaliseEmail email) (not_not.mp hf) (hc 0 c hc0) hq

theorem setPassword_consistent (h : Consistent s) (hc : Crypt crypt) :
    Consistent ((setPassword emailStr crypt email).run box s).2 := by
  rw [run_setPassword]
  simp only
  split
  · exact h
  · rename_i updated hr
    split
    · exact h
    · exact h.reset hc hr

theorem setQuota_consistent (h : Consistent s) (hq : ∀ v, q = some v → IsQuotaStr v)
    (hp : Plain (normaliseEmail email)) :
    Consistent ((setQuota emailStr email q).run box s).2 := by
  rw [run_setQuota]
  simp only
  split
  · exact h.requota hp (isNormal_normaliseEmail email) ‹_› hq
  · exact h

/-- The addresses of an operation match `_SIEVE_ADDRESS_RE` once normalised. -/
def Matching (op : Op) : Prop := ∀ e ∈ op.args, sieveAddress (normaliseEmail e) = true

theorem plain_of_matching {op : Op} (h : Matching op) {e : Str} (he : e ∈ op.args) :
    Plain (normaliseEmail e) :=
  .of_sieveAddress (h e he) (isNormal_normaliseEmail e).trim

/-- Whether it succeeds or is rejected, an operation keeps the files
consistent. -/
theorem consistent_step (op : Op) (h : Consistent s) (hw : op.WellFormed) (hm : Matching op) :
    Consistent ((op.prog emailStr).run box s).2 := by
  have hp {e : Str} := plain_of_matching hm (e := e)
  cases op with
  | createMailbox email crypt q =>
    rw [Op.prog, run_void]
    exact createMailbox_consistent h hw.1 hw.2 (hp (by simp [Op.args]))
  | deleteMailbox email =>
    rw [Op.prog, run_deleteMailbox]
    simp only
    split
    · exact h
    · exact h.deleted (hm email (by simp [Op.args]))
  | setPassword email crypt =>
    rw [Op.prog, run_void]
    exact setPassword_consistent h hw
  | setQuota email q =>
    rw [Op.prog, run_void]
    exact setQuota_consistent h hw (hp (by simp [Op.args]))
  | addAlias email aliasEmail =>
    rw [Op.prog, run_void]
    rcases run_addAlias emailStr s email aliasEmail with ⟨e, he⟩ | ⟨hadd, he⟩
    · rw [he]
      exact h
    · rw [he]
      exact h.aliased (hp (by simp [Op.args])) (isNormal_normaliseEmail email)
        (hp (by simp [Op.args])) (isNormal_normaliseEmail aliasEmail) hadd.1
  | deleteAlias email aliasEmail =>
    rcases run_deleteAlias s email aliasEmail with ⟨e, he⟩ | ⟨-, he⟩
    · rw [Op.prog, he]
      exact h
    · rw [Op.prog, he]
      exact h.unaliased _
  | setSieveScript email content =>
    rw [Op.prog, run_void]
    rcases run_setSieveScript s email content with ⟨e, he⟩ | ⟨ha, he⟩
    · rw [he]
      exact h
    · rw [he]
      exact h.scripted ha
  | deleteSieveScript email =>
    rcases run_deleteSieveScript s email with ⟨e, he⟩ | he
    · rw [Op.prog, he]
      exact h
    · rw [Op.prog, he]
      exact h.deleteSieve

end

/-- No account, no quota, no alias and no personal Sieve file. -/
structure Empty (s : Files) : Prop where
  accounts : lines s accountsFilename = []
  quotas : lines s quotasFilename = []
  aliases : lines s virtualFilename = []
  sieve : ∀ a, sieve s a = none

/-- Operations on matching addresses, with every container command
succeeding. -/
def operations (emailStr : Str → Option Str) : LTS Files Op where
  init := Empty
  step s op s' := op.WellFormed ∧ Matching op ∧ s' = ((op.prog emailStr).run box s).2

theorem Empty.consistent {s : Files} (h : Empty s) : Consistent s where
  nodup := by rw [addresses, h.accounts]; exact List.nodup_nil
  quotas a ha := by
    rw [L3.MailboxSpec.quotas, h.quotas] at ha
    exact absurd rfl ha
  targets l hl := by
    rw [h.aliases] at hl
    cases hl
  sieve a ha := absurd (h.sieve a) ha

theorem consistent_inductive (emailStr : Str → Option Str) :
    (operations emailStr).Inductive Consistent where
  init _ h := h.consistent
  step s op s' h hs := by
    obtain ⟨hw, hm, rfl⟩ := hs
    exact consistent_step op h hw hm

/-- Every reachable state has distinct accounts, and quotas, alias targets and
Sieve files of accounts only. -/
theorem consistent_of_reachable (emailStr : Str → Option Str) (s : Files)
    (h : (operations emailStr).Reachable s) : Consistent s :=
  (consistent_inductive emailStr).reachable s h

theorem empty_noFiles : Empty noFiles :=
  ⟨by decide, by decide, by decide, fun _ => rfl⟩

/-- An account with an alias, a quota and a Sieve file is deleted. -/
def shortLife : List Op :=
  [.createMailbox "a@x.org".toList salted (some "5G".toList),
    .addAlias "a@x.org".toList "b@x.org".toList,
    .setSieveScript "a@x.org".toList "keep;".toList, .deleteMailbox "a@x.org".toList]

def afterOps (ops : List Op) : Files :=
  ops.foldl (fun s op => ((op.prog some).run box s).2) noFiles

theorem consistent_of_reachable_shortLife :
    lines (afterOps shortLife) virtualFilename = [] ∧ Consistent (afterOps shortLife) := by
  have hquota : ∀ v, some "5G".toList = some v → IsQuotaStr v := by
    rintro v ⟨⟩
    exact ⟨by decide, by decide⟩
  exact ⟨by decide +kernel, consistent_of_reachable some _ ⟨noFiles, shortLife, empty_noFiles,
    .cons ⟨⟨crypt_salted, hquota⟩, by unfold Matching; decide +kernel, rfl⟩
      (.cons ⟨trivial, by unfold Matching; decide +kernel, rfl⟩
        (.cons ⟨trivial, by unfold Matching; decide +kernel, rfl⟩
          (.cons ⟨trivial, by unfold Matching; decide +kernel, rfl⟩ (.nil _))))⟩⟩

end MailserverUi.L4.MailboxConsistency

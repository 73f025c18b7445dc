import MailserverUi.L3Service.MailboxService

/-!
# What the mailbox operations do to the files

The files are looked at through what is parsed from them: `accounts`,
`addresses`, `quotas`, `aliases`, and the personal Sieve files. One lemma for
each operation says what it leaves behind (`run_createMailbox`, ...), and the
`lines_*` lemmas say what is read back from there, so that no later proof looks
into a program or into the text of a file.
-/
namespace MailserverUi.L3.MailboxSpec

open Py L1.MailFiles L1.SieveAddress L2.Errors L2.Container L3.Passwords MailboxService

/-! ## Views of the files -/

section
variable (s : Files)

/-- The lines of a file, as `_read_lines` reads them. -/
def lines (f : Str) : List Str := linesOf (s.read (configPath f))

def accounts : List (Str × Str) := (lines s accountsFilename).map splitAccount

/-- The accounts that `_account_addresses` knows. -/
def addresses : List Str := addressesOf (lines s accountsFilename)

def quotas : Dict Str Str := quotasOf (lines s quotasFilename)

def aliases : List (Str × List Str) := (lines s virtualFilename).map parseAlias

/-- The personal Sieve file of an address. -/
def sieve (a : Str) : Option Str := s (configPath (sieveFilename a))

/-- The files after `_write_lines`. -/
def putLines (f : Str) (ls : List Str) : Files := s.write f (unlines ls)

end

theorem isLine_of_mem_lines {s : Files} {f l : Str} (h : l ∈ lines s f) : IsLine l :=
  isLine_of_mem h

/-- What is written is read back, when every line is one. -/
@[simp] theorem lines_putLines {s : Files} {f : Str} {ls : List Str} (h : ∀ l ∈ ls, IsLine l) :
    lines (putLines s f ls) f = ls := by
  rw [lines, putLines, read_write, linesOf_unlines h]

/-- And the other files are read as before. -/
theorem lines_putLines_ne {f g : Str} (h : Unrelated g f) (s : Files) (ls : List Str) :
    lines (putLines s f ls) g = lines s g := by
  rw [lines, putLines, read_write_ne s h.ne h.left, lines]

theorem lines_write_ne {f g : Str} (h : Unrelated g f) (s : Files) (c : Str) :
    lines (s.write f c) g = lines s g := by rw [lines, read_write_ne s h.ne h.left, lines]

theorem lines_delete_ne {f g : Str} (h : Unrelated g f) (s : Files) :
    lines (s.delete f) g = lines s g := by rw [lines, read_delete_ne s h.ne, lines]

theorem sieve_write_ne {f a : Str} (h : Unrelated (sieveFilename a) f) (s : Files) (c : Str) :
    sieve (s.write f c) a = sieve s a := write_ne s h.ne h.left c

theorem sieve_putLines {f a : Str} (h : Unrelated (sieveFilename a) f) (s : Files) (ls : List Str) :
    sieve (putLines s f ls) a = sieve s a := sieve_write_ne h s _

theorem putLines_same (s : Files) (f : Str) (ls : List Str) :
    putLines s f ls (configPath f) = some (unlines ls) := write_self s f _

theorem putLines_other {f g : Str} (h : Unrelated f g) (s : Files) (ls : List Str) :
    putLines s g ls (configPath f) = s (configPath f) := write_ne s h.ne h.left _

/-- The name of a Sieve file is no scratch name. -/
theorem sieveFilename_plain (a : Str) : ¬ ".tmp".toList <:+ sieveFilename a := by
  intro h
  have hs : ".dovecot.sieve".toList <:+ sieveFilename a := List.suffix_append _ _
  exact absurd (List.suffix_of_suffix_length_le h hs (by decide)) (by decide)

/-- A Sieve file is no scratch name. -/
theorem sieveFilename_ne_scratch (a r : Str) : sieveFilename a ≠ scratch r :=
  ne_scratch (sieveFilename_plain a) r

/-- Nor is a Sieve file in the way of a write to another file. -/
theorem unrelated_sieve {f : Str} (h : f.getLast? ≠ some 'e') (hf : ¬ ".tmp".toList <:+ f)
    (a : Str) : Unrelated f (sieveFilename a) :=
  ⟨sieveFilename_ne h, ne_scratch hf _, sieveFilename_ne_scratch a f⟩

theorem accounts_ne_sieve (a : Str) : Unrelated accountsFilename (sieveFilename a) :=
  unrelated_sieve (by decide) (by decide) a

theorem virtual_ne_sieve (a : Str) : Unrelated virtualFilename (sieveFilename a) :=
  unrelated_sieve (by decide) (by decide) a

theorem quotas_ne_sieve (a : Str) : Unrelated quotasFilename (sieveFilename a) :=
  unrelated_sieve (by decide) (by decide) a

theorem accounts_ne_virtual : Unrelated accountsFilename virtualFilename := by decide
theorem accounts_ne_quotas : Unrelated accountsFilename quotasFilename := by decide
theorem virtual_ne_quotas : Unrelated virtualFilename quotasFilename := by decide

theorem mem_addressesOf {ls : List Str} {a : Str} :
    a ∈ addressesOf ls ↔ a ≠ [] ∧ ∃ l ∈ ls, (splitAccount l).1 = a := by
  simp only [addressesOf, List.mem_filter, List.mem_map, decide_eq_true_eq]
  exact and_comm

theorem addressesOf_append (ls ms : List Str) :
    addressesOf (ls ++ ms) = addressesOf ls ++ addressesOf ms := by
  simp [addressesOf]

/-- Without the lines of an account, its address is gone, and the others stand as before. -/
theorem addressesOf_filter (ls : List Str) (a : Str) :
    addressesOf (ls.filter fun l => (splitAccount l).1 ≠ a) = (addressesOf ls).filter (· ≠ a) := by
  rw [addressesOf, addressesOf, List.filter_map, List.filter_filter, List.filter_filter,
    List.filter_map]
  congr 1
  refine List.filter_congr fun l _ => ?_
  simp only [Function.comp, Bool.and_comm]

/-- No account goes away when a line is added. -/
theorem mem_addresses_append {s : Files} {b : Str} (hb : b ∈ addresses s) (line : Str) :
    b ∈ addresses (putLines s accountsFilename (lines s accountsFilename ++ [line])) := by
  obtain ⟨hne, l, hl, e⟩ := mem_addressesOf.mp hb
  refine mem_addressesOf.mpr ⟨hne, l, ?_, e⟩
  have htext : unlines (lines s accountsFilename ++ [line]) =
      unlines (lines s accountsFilename) ++ unlines [line] := List.flatMap_append
  rw [lines, putLines, read_write, htext]
  exact mem_linesOf_append (fun l hl => isLine_of_mem_lines hl) _ hl

/-! ## Parts of the operations -/

section
variable {α : Type} (s : Files)

theorem run_readLines_bind (f : Str) (k : List Str → Io α) :
    (readLines f >>= k).run box s = (k (lines s f)).run box s := rfl

theorem run_readQuotas_bind (k : Dict Str Str → Io α) :
    (readQuotas >>= k).run box s = (k (quotas s)).run box s := rfl

theorem run_accountAddresses_bind (k : List Str → Io α) :
    (accountAddresses >>= k).run box s = (k (addresses s)).run box s := rfl

theorem run_writeLines (f : Str) (ls : List Str) :
    (writeLines f ls).run box s = (.ok (), putLines s f ls) := rfl

theorem run_writeLines_bind (f : Str) (ls : List Str) (k : Unit → Io α) :
    (writeLines f ls >>= k).run box s = (k ()).run box (putLines s f ls) := rfl

/-- The check for an account, and what comes after it. -/
theorem run_requireMailbox_bind (a : Str) (k : Unit → Io α) :
    (requireMailbox a >>= k).run box s =
      if a ∈ addresses s then (k ()).run box s else (.error (notFound "Mailbox" a), s) := by
  rw [Prog.run_bind, requireMailbox, run_accountAddresses_bind]
  unfold Prog.raiseIf
  by_cases h : a ∈ addresses s
  · simp only [h, not_true, if_false, if_true, Prog.run]
  · simp only [h, not_false_eq_true, if_true, if_false, Prog.run]

/-- The result of `Mailbox(...)`. -/
def view (emailStr : Str → Option Str) (a : Str) (q : Option Str) : Except ApiError Mailbox :=
  match emailStr a with
  | some e => .ok ⟨e, afterLast '@' a, q⟩
  | none => .error .internal

theorem run_mailbox (emailStr : Str → Option Str) (a : Str) (q : Option Str) :
    (mailbox emailStr a q).run box s = (view emailStr a q, s) := by
  unfold mailbox view
  cases emailStr a <;> rfl

theorem run_mailboxView (emailStr : Str → Option Str) (a : Str) :
    (mailboxView emailStr a).run box s = (view emailStr a ((quotas s).get? a), s) := by
  rw [mailboxView, run_readQuotas_bind, run_mailbox]

/-! ## Quotas -/

def putQuotas (d : Dict Str Str) : Files := putLines s quotasFilename (quotaLines d)

/-- The files after `_remove_quota_line`. -/
def dropQuota (a : Str) : Files :=
  if (quotas s).get? a = none then s else putQuotas s ((quotas s).erase a)

/-- The files after `if quota: _set_quota_line(address, quota)`. -/
def giveQuota (a : Str) : Option Str → Files
  | none | some [] => s
  | some q => putQuotas s ((quotas s).set a q)

theorem run_setQuotaLine (a q : Str) :
    (setQuotaLine a q).run box s = (.ok (), putQuotas s ((quotas s).set a q)) := rfl

/-- Without a quota nothing is written. -/
theorem run_removeQuotaLine (a : Str) :
    (removeQuotaLine a).run box s = (.ok (), dropQuota s a) := by
  rw [removeQuotaLine, run_readQuotas_bind, dropQuota]
  split <;> rfl

/-- An empty quota is none. -/
theorem run_setGivenQuota (a : Str) (q : Option Str) :
    (setGivenQuota a q).run box s = (.ok (), giveQuota s a q) := by
  match q with
  | none | some [] => rfl
  | some (c :: q) => rfl

/-! ## Aliases -/

def putAliases (ls : List Str) : Files := putLines s virtualFilename ls

/-- The files after `_remove_target_from_aliases`. -/
def dropTarget (a : Str) : Files :=
  if ∃ l ∈ lines s virtualFilename, a ∈ (parseAlias l).2 then
    putAliases s (withoutTarget a (fun l => a ∈ (parseAlias l).2) (lines s virtualFilename))
  else s

theorem run_removeTargetFromAliases (a : Str) :
    (removeTargetFromAliases a).run box s = (.ok (), dropTarget s a) := by
  rw [removeTargetFromAliases, run_readLines_bind, dropTarget]
  simp only [decide_eq_true_eq]
  split <;> rfl

end

/-! ## The operations -/

section
variable (emailStr : Str → Option Str) (crypt : Nat → Option Str) (s : Files) (email : Str)

/-- No account line is read as `a`. -/
def Fresh (a : Str) : Prop := ∀ l ∈ lines s accountsFilename, (splitAccount l).1 ≠ a

instance (a : Str) : Decidable (Fresh s a) :=
  inferInstanceAs (Decidable (∀ l ∈ lines s accountsFilename, (splitAccount l).1 ≠ a))

/-- The files after `create_mailbox` has not raised before its first write. -/
def created (a h : Str) (q : Option Str) : Files :=
  giveQuota (putLines s accountsFilename (lines s accountsFilename ++ [formatPair '|' a h])) a q

/-- A rejected account leaves the files alone. One that is made stands in the file,
whatever `EmailStr` makes of the answer. -/
theorem run_createMailbox (q : Option Str) :
    (createMailbox emailStr crypt email q).run box s =
      let a := normaliseEmail email
      if '@' ∉ a then
        (.error (badRequest [lit "A mailbox address must contain a domain"]), s)
      else if ¬ Fresh s a then
        (.error (conflict [lit "Mailbox ", .text a, lit " already exists"]), s)
      else
        match crypt 0 with
        | none => (.error .internal, s)
        | some c => (view emailStr a q, created s a (dovecotHash c) q) := by
  have hf : (∃ l ∈ lines s accountsFilename, (splitAccount l).1 = normaliseEmail email) ↔
      ¬ Fresh s (normaliseEmail email) := by
    simp only [Fresh, not_forall, ne_eq, not_not, exists_prop]
  simp only [createMailbox, Prog.run_raiseIf_bind, run_readLines_bind, hf]
  cases crypt 0 with
  | none => rfl
  | some c =>
    simp only [hashPassword, hashDovecotPassword, Prog.pure_bind, run_writeLines_bind]
    rw [Prog.run_bind, run_setGivenQuota]
    simp only [run_mailbox, created]

/-- The files after a `delete_mailbox` that found the account. -/
def deleted (a : Str) : Files :=
  let s := dropTarget (dropQuota (putLines s accountsFilename
    ((lines s accountsFilename).filter fun l => (splitAccount l).1 ≠ a)) a) a
  if sieveAddress a then s.delete (sieveFilename a) else s

/-- Only an account that is there is deleted. -/
theorem run_deleteMailbox :
    (deleteMailbox email).run box s =
      let a := normaliseEmail email
      if Fresh s a then (.error (notFound "Mailbox" a), s) else (.ok (), deleted s a) := by
  have hf : ((lines s accountsFilename).filter
      fun l => (splitAccount l).1 ≠ normaliseEmail email).length =
        (lines s accountsFilename).length ↔ Fresh s (normaliseEmail email) := by
    rw [List.length_filter_eq_length_iff]
    simp only [Fresh, decide_eq_true_eq]
  simp only [deleteMailbox, Prog.run_raiseIf_bind, run_readLines_bind, hf, run_writeLines_bind]
  congr 1
  rw [Prog.run_bind, run_removeQuotaLine]
  simp only
  rw [Prog.run_bind, run_removeTargetFromAliases]
  simp only [deleted]
  split <;> rfl

/-- The hashes are made first, one for each line of the account. -/
theorem run_setPassword :
    (setPassword emailStr crypt email).run box s =
      let a := normaliseEmail email
      match resetLines crypt a 0 (lines s accountsFilename) with
      | none => (.error .internal, s)
      | some updated =>
        if Fresh s a then (.error (notFound "Mailbox" a), s)
        else (view emailStr a ((quotas (putLines s accountsFilename updated)).get? a),
          putLines s accountsFilename updated) := by
  have hf : (¬ ∃ l ∈ lines s accountsFilename, (splitAccount l).1 = normaliseEmail email) ↔
      Fresh s (normaliseEmail email) := by
    simp only [Fresh, not_exists, not_and, ne_eq]
  rw [setPassword, run_readLines_bind]
  simp only
  cases resetLines crypt (normaliseEmail email) 0 (lines s accountsFilename) with
  | none => rfl
  | some updated => simp only [Prog.run_raiseIf_bind, hf, run_writeLines_bind, run_mailboxView]

/-- The files after a `set_quota` that found the account. -/
def requota (a : Str) : Option Str → Files
  | none | some [] => dropQuota s a
  | some q => putQuotas s ((quotas s).set a q)

/-- The answer shows the quota that is read back. -/
theorem run_setQuota (q : Option Str) :
    (setQuota emailStr email q).run box s =
      let a := normaliseEmail email
      if a ∈ addresses s then
        (view emailStr a ((quotas (requota s a q)).get? a), requota s a q)
      else (.error (notFound "Mailbox" a), s) := by
  rw [setQuota, run_requireMailbox_bind]
  simp only
  congr 1
  rcases q with _ | _ | ⟨c, q⟩
  · rw [Prog.run_bind, run_removeQuotaLine]
    exact run_mailboxView _ emailStr _
  · rw [Prog.run_bind, run_removeQuotaLine]
    exact run_mailboxView _ emailStr _
  · rw [Prog.run_bind, run_setQuotaLine]
    exact run_mailboxView _ emailStr _

/-- The conditions under which `add_alias` writes. -/
def Addable (target source : Str) : Prop :=
  target ∈ addresses s ∧ '@' ∈ source ∧ source ≠ target ∧ source ∉ addresses s ∧
    ∀ l ∈ lines s virtualFilename, ¬ ((parseAlias l).1 = source ∧ target ∈ (parseAlias l).2)

/-- The files after an `add_alias` that was not rejected. -/
def aliased (target source : Str) : Files :=
  putAliases s (lines s virtualFilename ++ [formatAlias source [target]])

/-- The alias goes behind the lines of the file, once. -/
theorem run_addAlias (aliasEmail : Str) :
    let target := normaliseEmail email
    let source := normaliseEmail aliasEmail
    (∃ e, (addAlias emailStr email aliasEmail).run box s = (.error e, s)) ∨
      Addable s target source ∧
        (addAlias emailStr email aliasEmail).run box s =
          ((match emailStr source with
            | some e => .ok ⟨e⟩
            | none => .error .internal), aliased s target source) := by
  simp only [addAlias, run_requireMailbox_bind, Prog.run_raiseIf_bind, run_accountAddresses_bind,
    run_readLines_bind, run_writeLines_bind]
  by_cases h₁ : normaliseEmail email ∈ addresses s
  · rw [if_pos h₁]
    by_cases h₂ : '@' ∉ normaliseEmail aliasEmail
    · exact .inl ⟨_, if_pos h₂⟩
    · rw [if_neg h₂]
      by_cases h₃ : normaliseEmail aliasEmail = normaliseEmail email
      · exact .inl ⟨_, if_pos h₃⟩
      · rw [if_neg h₃]
        by_cases h₄ : normaliseEmail aliasEmail ∈ addresses s
        · exact .inl ⟨_, if_pos h₄⟩
        · rw [if_neg h₄]
          split
          · exact .inl ⟨_, rfl⟩
          · rename_i h₅
            refine .inr ⟨⟨h₁, by simpa using h₂, h₃, h₄, fun l hl h => h₅ ⟨l, hl, h⟩⟩, ?_⟩
            cases emailStr (normaliseEmail aliasEmail) <;> rfl
  · exact .inl ⟨_, if_neg h₁⟩

/-- The lines `delete_alias` takes the target out of. -/
def hits (source target l : Str) : Bool := (parseAlias l).1 = source ∧ target ∈ (parseAlias l).2

/-- The target is taken off every line of the alias, and a line without targets goes. -/
theorem run_deleteAlias (aliasEmail : Str) :
    let target := normaliseEmail email
    let source := normaliseEmail aliasEmail
    (∃ e, (deleteAlias email aliasEmail).run box s = (.error e, s)) ∨
      target ∈ addresses s ∧
        (deleteAlias email aliasEmail).run box s =
          (.ok (), putAliases s
            (withoutTarget target (hits source target) (lines s virtualFilename))) := by
  simp only [deleteAlias, run_requireMailbox_bind, Prog.run_raiseIf_bind, run_readLines_bind,
    run_writeLines]
  by_cases h₁ : normaliseEmail email ∈ addresses s
  · rw [if_pos h₁]
    split
    · exact .inl ⟨_, rfl⟩
    · exact .inr ⟨h₁, rfl⟩
  · exact .inl ⟨_, if_neg h₁⟩

/-- The files after a `set_sieve_script` that was not rejected. -/
def scripted (a content : Str) : Files :=
  if strip content = [] then s.delete (sieveFilename a)
  else s.write (sieveFilename a) (strip content ++ ['\n'])

/-- An address that is no file name is rejected before anything is read. -/
theorem run_requireSieveAddress_bind {α : Type} (k : Str → Io α) :
    (requireSieveAddress email >>= k).run box s =
      if sieveAddress (normaliseEmail email) = false then
        (.error (badRequest [lit "Invalid mailbox address: ", .repr email]), s)
      else (k (normaliseEmail email)).run box s := by
  rw [Prog.run_bind, requireSieveAddress, Prog.run_raiseIf_bind]
  by_cases h : sieveAddress (normaliseEmail email) = false
  · simp only [if_pos h]
  · simp only [if_neg h]
    rfl

/-- A blank script deletes the file. -/
theorem run_setSieveScript (content : Str) :
    let a := normaliseEmail email
    (∃ e, (setSieveScript email content).run box s = (.error e, s)) ∨
      a ∈ addresses s ∧ ((setSieveScript email content).run box s).2 = scripted s a content := by
  intro a
  rw [setSieveScript, run_requireSieveAddress_bind]
  by_cases h : sieveAddress (normaliseEmail email) = false
  · exact .inl ⟨_, if_pos h⟩
  · rw [if_neg h, run_requireMailbox_bind]
    by_cases hm : normaliseEmail email ∈ addresses s
    · refine .inr ⟨hm, ?_⟩
      rw [if_pos hm, scripted]
      simp only
      split <;> rfl
    · exact .inl ⟨_, if_neg hm⟩

theorem run_deleteSieveScript :
    let a := normaliseEmail email
    (∃ e, (deleteSieveScript email).run box s = (.error e, s)) ∨
      (deleteSieveScript email).run box s = (.ok (), s.delete (sieveFilename a)) := by
  intro a
  rw [deleteSieveScript, run_requireSieveAddress_bind]
  by_cases h : sieveAddress (normaliseEmail email) = false
  · exact .inl ⟨_, if_pos h⟩
  · rw [if_neg h, run_requireMailbox_bind]
    by_cases hm : normaliseEmail email ∈ addresses s
    · exact .inr (if_pos hm)
    · exact .inl ⟨_, if_neg hm⟩

end

/-! ## Reading the files back -/

/-- A new account line is read back as it was written. -/
theorem isLine_account {a c : Str} (ha : Trim a) (ha' : OneLine a) (hc : NoSpace c) :
    IsLine (formatPair '|' a (dovecotHash c)) :=
  isLine_formatPair (by decide) ha ha' (noSpace_dovecotHash hc).trim
    (noSpace_dovecotHash hc).oneLine

/-- Quotas that were read can be written again. -/
theorem isQuota_quotas (s : Files) : ∀ p ∈ (quotas s).items, IsQuota p := fun _ hp =>
  isQuota_of_mem (fun _ => isLine_of_mem_lines) hp

theorem lines_putQuotas_ne {f : Str} (h : Unrelated f quotasFilename) (s : Files) (d : Dict Str Str) :
    lines (putQuotas s d) f = lines s f := lines_putLines_ne h s _

/-- And are the same after it. -/
theorem get?_putQuotas {d : Dict Str Str} (hd : ∀ p ∈ d.items, IsQuota p) (s : Files) (b : Str) :
    (quotas (putQuotas s d)).get? b = d.get? b := by
  rw [quotas, putQuotas, lines_putLines fun l hl => isLine_of_mem_quotaLines hd hl,
    get?_quotasOf_format hd]

theorem quotas_congr {s s' : Files} (h : lines s' quotasFilename = lines s quotasFilename) :
    quotas s' = quotas s := by rw [quotas, h, quotas]

section
variable (s : Files) (a : Str)

theorem lines_giveQuota_ne {f : Str} (h : Unrelated f quotasFilename) (q : Option Str) :
    lines (giveQuota s a q) f = lines s f := by
  match q with
  | none | some [] => rfl
  | some (c :: q) => exact lines_putQuotas_ne h s _

theorem lines_dropQuota_ne {f : Str} (h : Unrelated f quotasFilename) :
    lines (dropQuota s a) f = lines s f := by
  unfold dropQuota
  split
  · rfl
  · exact lines_putQuotas_ne h s _

/-- A given quota is that of the account, and no other one changes. -/
theorem get?_giveQuota {q : Str} (h : IsQuota (a, q)) (b : Str) :
    (quotas (giveQuota s a (some q))).get? b = if b = a then some q else (quotas s).get? b := by
  obtain ⟨c, q, rfl⟩ := List.exists_cons_of_ne_nil h.value_ne
  have := get?_putQuotas (isQuota_set (isQuota_quotas s) h) s b
  rw [Dict.get?_set] at this
  exact this

/-- A dropped quota is gone, and no other one. -/
theorem get?_dropQuota (b : Str) :
    (quotas (dropQuota s a)).get? b = if b = a then none else (quotas s).get? b := by
  unfold dropQuota
  split
  · split
    · subst_vars
      assumption
    · rfl
  · rw [get?_putQuotas (isQuota_erase (isQuota_quotas s)), Dict.get?_erase]

end

theorem sieve_putQuotas (s : Files) (d : Dict Str Str) (b : Str) :
    sieve (putQuotas s d) b = sieve s b := sieve_putLines (quotas_ne_sieve b).symm s _

theorem sieve_giveQuota (s : Files) (a : Str) (q : Option Str) (b : Str) :
    sieve (giveQuota s a q) b = sieve s b := by
  match q with
  | none | some [] => rfl
  | some (c :: q) => exact sieve_putQuotas s _ b

theorem sieve_dropQuota (s : Files) (a b : Str) : sieve (dropQuota s a) b = sieve s b := by
  unfold dropQuota
  split
  · rfl
  · exact sieve_putQuotas s _ b

theorem sieve_dropTarget (s : Files) (a b : Str) : sieve (dropTarget s a) b = sieve s b := by
  unfold dropTarget
  split
  · exact sieve_putLines (virtual_ne_sieve b).symm s _
  · rfl

/-- One Sieve file goes. -/
theorem sieve_delete (s : Files) (a b : Str) :
    sieve (s.delete (sieveFilename a)) b = if b = a then none else sieve s b := by
  unfold sieve Files.delete
  simp only [configPath_inj, sieveFilename_inj]

/-- One Sieve file is written. -/
theorem sieve_write (s : Files) (a c b : Str) :
    sieve (s.write (sieveFilename a) c) b = if b = a then some c else sieve s b := by
  simp only [sieve, write_apply, configPath_inj, sieveFilename_inj, sieveFilename_ne_scratch,
    if_false]

/-! ## Accounts and aliases read back -/

/-- Taking a target away is a matter of the aliases only. -/
theorem lines_dropTarget_ne {f : Str} (h : Unrelated f virtualFilename) (s : Files) (a : Str) :
    lines (dropTarget s a) f = lines s f := by
  unfold dropTarget
  split
  · exact lines_putLines_ne h s _
  · rfl

/-- Dropping a quota writes the quotas only. -/
theorem dropQuota_other {f : Str} (h : Unrelated f quotasFilename) (s : Files) (a : Str) :
    dropQuota s a (configPath f) = s (configPath f) := by
  unfold dropQuota
  split
  · rfl
  · exact putLines_other h s _

/-- Dropping a target writes the aliases only. -/
theorem dropTarget_other {f : Str} (h : Unrelated f virtualFilename) (s : Files) (a : Str) :
    dropTarget s a (configPath f) = s (configPath f) := by
  unfold dropTarget
  split
  · exact putLines_other h s _
  · rfl

/-- A line that is left is a line of before, less the target if it was hit. -/
theorem mem_withoutTarget {t : Str} {hit : Str → Bool} {ls : List Str} {l : Str}
    (h : ∀ l ∈ ls, IsLine l) (hm : l ∈ withoutTarget t hit ls) :
    IsLine l ∧ ∃ l₀ ∈ ls, (parseAlias l).1 = (parseAlias l₀).1 ∧
      (∀ x ∈ (parseAlias l).2, x ∈ (parseAlias l₀).2 ∧ (hit l₀ = true → x ≠ t)) := by
  simp only [withoutTarget, List.mem_filterMap] at hm
  obtain ⟨l₀, hl₀, e⟩ := hm
  by_cases hh : hit l₀ = true
  · rw [if_pos hh, Option.ite_none_right_eq_some, Option.some.injEq] at e
    obtain ⟨hne, rfl⟩ := e
    have hok := parseAlias_ok (h l₀ hl₀)
    have hok : IsAlias (parseAlias l₀).1 ((parseAlias l₀).2.filter (· ≠ t)) :=
      ⟨hok.ne, hok.noSpace, hok.low, fun x hx => hok.target x (List.mem_of_mem_filter hx)⟩
    rw [parseAlias_format hok hne]
    refine ⟨isLine_formatAlias hok hne, l₀, hl₀, rfl, fun x hx => ?_⟩
    rw [List.mem_filter, decide_eq_true_eq] at hx
    exact ⟨hx.1, fun _ => hx.2⟩
  · rw [if_neg hh, Option.some.injEq] at e
    subst e
    exact ⟨h l₀ hl₀, l₀, hl₀, rfl, fun x hx => ⟨hx, fun e => absurd e hh⟩⟩

/-- The alias lines after one of the two loops over them. -/
theorem lines_withoutTarget (s : Files) (t : Str) (hit : Str → Bool) :
    lines (putAliases s (withoutTarget t hit (lines s virtualFilename))) virtualFilename =
      withoutTarget t hit (lines s virtualFilename) :=
  lines_putLines fun _ hl => (mem_withoutTarget (fun _ => isLine_of_mem_lines) hl).1

/-- After `_remove_target_from_aliases` no line has the target. -/
theorem mem_dropTarget {s : Files} {a l : Str} (h : l ∈ lines (dropTarget s a) virtualFilename) :
    ∃ l₀ ∈ lines s virtualFilename, (parseAlias l).1 = (parseAlias l₀).1 ∧
      ∀ x ∈ (parseAlias l).2, x ∈ (parseAlias l₀).2 ∧ x ≠ a := by
  unfold dropTarget at h
  split at h
  · rw [lines_withoutTarget] at h
    obtain ⟨-, l₀, hl₀, hs, ht⟩ := mem_withoutTarget (fun _ => isLine_of_mem_lines) h
    refine ⟨l₀, hl₀, hs, fun x hx => ⟨(ht x hx).1, fun e => ?_⟩⟩
    subst e
    exact (ht x hx).2 (by simpa using (ht x hx).1) rfl
  · rename_i hn
    exact ⟨l, h, rfl, fun x hx => ⟨hx, fun e => hn ⟨l, h, e ▸ hx⟩⟩⟩

/-- The rewritten lines are lines, and are read as the same addresses. -/
theorem resetLines_spec {crypt : Nat → Option Str} (hc : ∀ n c, crypt n = some c → NoSpace c)
    {a : Str} {n : Nat} {ls updated : List Str} (h : ∀ l ∈ ls, IsLine l)
    (hr : resetLines crypt a n ls = some updated) :
    (∀ l ∈ updated, IsLine l) ∧
      updated.map (fun l => (splitAccount l).1) = ls.map (fun l => (splitAccount l).1) := by
  induction ls generalizing n updated with
  | nil =>
    simp only [resetLines, Option.some.injEq] at hr
    subst hr
    exact ⟨fun l hl => (by cases hl), rfl⟩
  | cons l ls ih =>
    have hl := h l List.mem_cons_self
    have hls : ∀ l ∈ ls, IsLine l := fun l hl => h l (List.mem_cons_of_mem _ hl)
    unfold resetLines at hr
    by_cases ha : (splitAccount l).1 = a
    · rw [if_pos ha] at hr
      cases hcn : crypt n with
      | none => simp [hcn] at hr
      | some c =>
        simp only [hcn, Option.map_eq_some_iff] at hr
        obtain ⟨ms, hms, rfl⟩ := hr
        obtain ⟨i₁, i₂⟩ := ih hls hms
        subst ha
        have hn := splitPair_isNormal '|' l
        have hline := isLine_account hn.trim (splitPair_oneLine hl.oneLine).1 (hc n c hcn)
        have hsplit : splitAccount (formatPair '|' (splitAccount l).1 (dovecotHash c)) =
            ((splitAccount l).1, dovecotHash c) :=
          splitPair_format (sep_not_mem_splitPair (by decide) l) hn
            (noSpace_dovecotHash (hc n c hcn)).trim
        refine ⟨List.forall_mem_cons.mpr ⟨hline, i₁⟩, ?_⟩
        rw [List.map_cons, List.map_cons, i₂, hsplit]
    · rw [if_neg ha, Option.map_eq_some_iff] at hr
      obtain ⟨ms, hms, rfl⟩ := hr
      obtain ⟨i₁, i₂⟩ := ih hls hms
      exact ⟨List.forall_mem_cons.mpr ⟨hl, i₁⟩, by rw [List.map_cons, List.map_cons, i₂]⟩

/-- A new hash changes no address. -/
theorem addressesOf_congr {ls ms : List Str}
    (h : ls.map (fun l => (splitAccount l).1) = ms.map (fun l => (splitAccount l).1)) :
    addressesOf ls = addressesOf ms := by rw [addressesOf, h, addressesOf]

/-! ## After a deletion -/

section
variable (s : Files) (a : Str)

/-- A deletion takes the lines of the account, and keeps the others in order. -/
theorem lines_deleted :
    lines (deleted s a) accountsFilename =
      (lines s accountsFilename).filter fun l => (splitAccount l).1 ≠ a := by
  have h : lines (dropTarget (dropQuota (putLines s accountsFilename
      ((lines s accountsFilename).filter fun l => (splitAccount l).1 ≠ a)) a) a)
        accountsFilename = (lines s accountsFilename).filter fun l => (splitAccount l).1 ≠ a := by
    rw [lines_dropTarget_ne accounts_ne_virtual, lines_dropQuota_ne _ _ accounts_ne_quotas,
      lines_putLines fun l hl => isLine_of_mem_lines (List.mem_of_mem_filter hl)]
  unfold deleted
  split
  · rw [lines_delete_ne (accounts_ne_sieve a), h]
  · exact h

/-- So the address is gone, and no other one is. -/
theorem addresses_deleted : addresses (deleted s a) = (addresses s).filter (· ≠ a) := by
  rw [addresses, lines_deleted, addressesOf_filter, addresses]

/-- Its quota goes, and no other one. -/
theorem get?_deleted (b : Str) :
    (quotas (deleted s a)).get? b = if b = a then none else (quotas s).get? b := by
  have h : (quotas (dropTarget (dropQuota (putLines s accountsFilename
      ((lines s accountsFilename).filter fun l => (splitAccount l).1 ≠ a)) a) a)).get? b =
        if b = a then none else (quotas s).get? b := by
    rw [quotas_congr (lines_dropTarget_ne virtual_ne_quotas.symm _ _), get?_dropQuota,
      quotas_congr (lines_putLines_ne accounts_ne_quotas.symm _ _)]
  unfold deleted
  split
  · rw [quotas_congr (lines_delete_ne (quotas_ne_sieve a) _), h]
  · exact h

/-- No alias line has the account as a target any more, and the others are the
targets of before. -/
theorem mem_deleted {l : Str} (h : l ∈ lines (deleted s a) virtualFilename) :
    ∃ l₀ ∈ lines s virtualFilename, (parseAlias l).1 = (parseAlias l₀).1 ∧
      ∀ x ∈ (parseAlias l).2, x ∈ (parseAlias l₀).2 ∧ x ≠ a := by
  have h : l ∈ lines (dropTarget (dropQuota (putLines s accountsFilename
      ((lines s accountsFilename).filter fun l => (splitAccount l).1 ≠ a)) a) a)
        virtualFilename := by
    unfold deleted at h
    split at h
    · rwa [lines_delete_ne (virtual_ne_sieve a)] at h
    · exact h
  obtain ⟨l₀, hl₀, hx⟩ := mem_dropTarget h
  rw [lines_dropQuota_ne _ _ virtual_ne_quotas,
    lines_putLines_ne accounts_ne_virtual.symm] at hl₀
  exact ⟨l₀, hl₀, hx⟩

/-- And its Sieve file. -/
theorem sieve_deleted (h : sieveAddress a = true) (b : Str) :
    sieve (deleted s a) b = if b = a then none else sieve s b := by
  unfold deleted
  simp only [h, if_true]
  rw [sieve_delete, sieve_dropTarget, sieve_dropQuota,
    sieve_putLines (accounts_ne_sieve b).symm]

end

/-! ## The states on the way -/

section
variable {α : Type} {I : Files → Prop} {s : Files} {f a : Str}

theorem cut_readLines_bind (n : Nat) (k : List Str → Io α) :
    (readLines f >>= k).cut box (n + 1) s = (k (lines s f)).cut box n s := rfl

theorem cut_writeLines_bind (n : Nat) (ls : List Str) (k : Unit → Io α) :
    (writeLines f ls >>= k).cut box (n + 1) s = (k ()).cut box n (putLines s f ls) := rfl

/-- Reading leaves the files in the invariant. -/
theorem always_readLines_bind {k : List Str → Io α} (hs : I s)
    (hk : (k (lines s f)).Always box I s) : (readLines f >>= k).Always box I s := ⟨hs, hk⟩

/-- A write has the invariant before and after it. -/
theorem always_writeLines_bind {ls : List Str} {k : Unit → Io α} (hs : I s)
    (hk : (k ()).Always box I (putLines s f ls)) : (writeLines f ls >>= k).Always box I s :=
  ⟨hs, hk⟩

theorem always_requireMailbox (hs : I s) : (requireMailbox a).Always box I s := by
  refine ⟨hs, ?_⟩
  change (Prog.raiseIf (a ∉ addresses s) _).Always box I s
  unfold Prog.raiseIf
  split <;> exact hs

/-- Past the check, the account is there. -/
theorem always_requireMailbox_bind {k : Unit → Io α} (hs : I s)
    (hk : a ∈ addresses s → (k ()).Always box I s) : (requireMailbox a >>= k).Always box I s := by
  refine Prog.always_bind (always_requireMailbox hs) fun u s' h => ?_
  have h₂ := run_requireMailbox_bind s a Prog.pure
  rw [Prog.run_bind, h] at h₂
  by_cases hm : a ∈ addresses s
  · rw [if_pos hm] at h₂
    cases h₂
    exact hk hm
  · rw [if_neg hm] at h₂
    cases h₂

/-- The check of an address reads nothing. -/
theorem always_requireSieveAddress_bind {email : Str} {k : Str → Io α} (hs : I s)
    (hk : (k (normaliseEmail email)).Always box I s) :
    (requireSieveAddress email >>= k).Always box I s := by
  unfold requireSieveAddress Prog.raiseIf
  by_cases h : sieveAddress (normaliseEmail email) = false
  · simp only [if_pos h]
    exact hs
  · simp only [if_neg h]
    exact hk

theorem always_mailbox (emailStr : Str → Option Str) (q : Option Str) (hs : I s) :
    (mailbox emailStr a q).Always box I s := by
  unfold mailbox
  split <;> exact hs

theorem always_mailboxView (emailStr : Str → Option Str) (hs : I s) :
    (mailboxView emailStr a).Always box I s := ⟨hs, always_mailbox emailStr _ hs⟩

theorem always_setQuotaLine {q : Str} (hs : I s) (h : I (putQuotas s ((quotas s).set a q))) :
    (setQuotaLine a q).Always box I s := ⟨hs, hs, h⟩

/-- A quota is dropped in one write at most. -/
theorem always_removeQuotaLine (hs : I s) (h : I (dropQuota s a)) :
    (removeQuotaLine a).Always box I s := by
  refine ⟨hs, ?_⟩
  change (if (quotas s).get? a = none then (Pure.pure () : Io Unit)
    else writeLines quotasFilename (quotaLines ((quotas s).erase a))).Always box I s
  unfold dropQuota at h
  split
  · exact hs
  · rename_i hq
    rw [if_neg hq] at h
    exact ⟨hs, h⟩

/-- So is a target. -/
theorem always_removeTarget (hs : I s) (h : I (dropTarget s a)) :
    (removeTargetFromAliases a).Always box I s := by
  refine always_readLines_bind hs ?_
  simp only [decide_eq_true_eq]
  unfold dropTarget at h
  split
  · rename_i ht
    rw [if_pos ht] at h
    exact ⟨hs, h⟩
  · exact hs

end

end MailserverUi.L3.MailboxSpec

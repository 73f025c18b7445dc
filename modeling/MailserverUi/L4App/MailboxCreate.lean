import MailserverUi.L3Service.MailboxSpec

/-!
# Creating an account, for every address `EmailStr` accepts

`create_mailbox` writes `address|hash` and reads accounts back up to the first
`|`. An RFC 5321 local part may hold a `|`, and `EmailStr` lets it pass.

Results:
* `lines_created`, `get?_created`: what is read back after a successful call.
* `creates_iff`: the account is there as it was created exactly when the
  address holds no `|` and no quota line of an earlier account of that address
  shows through.
* `pipe_lost`: an account with a `|` is never found again.
-/
namespace MailserverUi.L4.MailboxCreate

open Py L1.MailFiles L2.Errors L2.Container L3.Passwords L3.MailboxService L3.MailboxSpec

/-- What is known of an address that `EmailStr` accepts. -/
structure IsEmail (e : Str) : Prop where
  atSign : e.count '@' = 1
  noSpace : NoSpace e
  colon : ':' ∉ e
  comma : ',' ∉ e

/-- What is known of a quota that `^\d+[KMGT]$` accepts. -/
structure IsQuotaStr (q : Str) : Prop where
  ne : q ≠ []
  noSpace : NoSpace q

/-- After the call on `s`, in `s'`, the account `a` with hash `h` and quota `q`
is the one account that was added, nothing else reads otherwise, and the
address is taken. -/
structure Creates (emailStr : Str → Option Str) (s s' : Files) (a h : Str) (q : Option Str) :
    Prop where
  addresses : addresses s' = addresses s ++ [a]
  hash : (accounts s').filter (·.1 = a) = [(a, h)]
  quota : (quotas s').get? a = q
  otherAccounts : (accounts s').filter (·.1 ≠ a) = (accounts s).filter (·.1 ≠ a)
  otherQuotas : ∀ b, b ≠ a → (quotas s').get? b = (quotas s).get? b
  again : ∀ crypt email q', normaliseEmail email = a →
    (createMailbox emailStr crypt email q').run box s' =
      (.error (conflict [lit "Mailbox ", .text a, lit " already exists"]), s')

section
variable {emailStr : Str → Option Str} {crypt : Nat → Option Str} {s s' : Files} {email c : Str}
  {q : Option Str} {m : Mailbox}

/-- A call that succeeds passed the checks and wrote. -/
theorem createMailbox_ok (hc : crypt 0 = some c)
    (h : (createMailbox emailStr crypt email q).run box s = (.ok m, s')) :
    '@' ∈ normaliseEmail email ∧ Fresh s (normaliseEmail email) ∧
      s' = created s (normaliseEmail email) (dovecotHash c) q := by
  rw [run_createMailbox] at h
  simp only [hc] at h
  by_cases h₁ : '@' ∉ normaliseEmail email
  · rw [if_pos h₁] at h
    cases h
  · rw [if_neg h₁] at h
    by_cases h₂ : ¬ Fresh s (normaliseEmail email)
    · rw [if_pos h₂] at h
      cases h
    · rw [if_neg h₂, Prod.mk.injEq] at h
      exact ⟨not_not.mp h₁, not_not.mp h₂, h.2.symm⟩

variable (s) in
theorem lines_created {a h : Str} (hl : IsLine (formatPair '|' a h)) :
    lines (created s a h q) accountsFilename =
      lines s accountsFilename ++ [formatPair '|' a h] := by
  rw [created, lines_giveQuota_ne _ _ accounts_ne_quotas, lines_putLines]
  intro l hm
  rcases List.mem_append.mp hm with hm | hm
  · exact isLine_of_mem_lines hm
  · rw [List.mem_singleton.mp hm]
    exact hl

/-- An account line without a `|` in its address is read back. -/
theorem splitAccount_account {a : Str} (hp : '|' ∉ a) (ha : IsNormal a) (hn : NoSpace c) :
    splitAccount (formatPair '|' a (dovecotHash c)) = (a, dovecotHash c) :=
  splitPair_format hp ha (noSpace_dovecotHash hn).trim

variable (s) in
theorem addresses_created {a : Str} (hne : a ≠ []) (hp : '|' ∉ a) (ha : IsNormal a)
    (ho : OneLine a) (hn : NoSpace c) :
    addresses (created s a (dovecotHash c) q) = addresses s ++ [a] := by
  rw [addresses, lines_created s (isLine_account ha.trim ho hn), addressesOf_append, addresses]
  simp [addressesOf, splitAccount_account hp ha hn, hne]

variable (s) in
/-- With a quota the dictionary has it, without one it is left alone. -/
theorem get?_created {a h : Str} (hq : ∀ v, q = some v → IsQuota (a, v)) (b : Str) :
    (quotas (created s a h q)).get? b = if b = a then q.or ((quotas s).get? a)
      else (quotas s).get? b := by
  have hs : quotas (putLines s accountsFilename (lines s accountsFilename ++ [formatPair '|' a h])) =
      quotas s := quotas_congr (lines_putLines_ne accounts_ne_quotas.symm _ _)
  unfold created
  cases q with
  | none =>
    rw [giveQuota, hs]
    split
    · subst_vars
      rfl
    · rfl
  | some v => rw [get?_giveQuota _ _ (hq v rfl), hs, Option.some_or]

end

theorem filter_eq_nil_of_fresh {s : Files} {a : Str} (h : Fresh s a) :
    (accounts s).filter (·.1 = a) = [] := by
  rw [List.filter_eq_nil_iff]
  intro p hp
  obtain ⟨l, hl, rfl⟩ := List.mem_map.mp hp
  simpa using h l hl

/-- An address with a `|` is never found: it can be created again and cannot
be deleted. -/
theorem pipe_lost {email : Str} (h : '|' ∈ normaliseEmail email) (s : Files) :
    Fresh s (normaliseEmail email) ∧
      (deleteMailbox email).run box s =
        (.error (notFound "Mailbox" (normaliseEmail email)), s) := by
  have hf : Fresh s (normaliseEmail email) := fun l _ => splitPair_ne (by decide) h l
  exact ⟨hf, by rw [run_deleteMailbox]; exact if_pos hf⟩

/-- The account is there as it was created, exactly when its address holds no
`|` and, without a quota of its own, no stale quota line. -/
theorem creates_iff (emailStr : Str → Option Str) (crypt : Nat → Option Str) (s s' : Files)
    (email c : Str) (q : Option Str) (m : Mailbox) (he : IsEmail email) (hc : crypt 0 = some c)
    (hn : NoSpace c) (hq : ∀ v, q = some v → IsQuotaStr v)
    (hrun : (createMailbox emailStr crypt email q).run box s = (.ok m, s')) :
    Creates emailStr s s' (normaliseEmail email) (dovecotHash c) q ↔
      '|' ∉ email ∧ (q ≠ none ∨ (quotas s).get? (normaliseEmail email) = none) := by
  obtain ⟨hat, hfresh, rfl⟩ := createMailbox_ok hc hrun
  have hsp : NoSpace (normaliseEmail email) := noSpace_normaliseEmail he.noSpace
  have hne : normaliseEmail email ≠ [] := List.ne_nil_of_mem hat
  have hnorm := isNormal_normaliseEmail email
  have hpipe : '|' ∈ normaliseEmail email ↔ '|' ∈ email := by
    rw [normaliseEmail, he.noSpace.strip_eq]
    exact mem_lower_iff (by decide)
  have hline := isLine_account hnorm.trim hsp.oneLine hn
  have hlines := lines_created s (q := q) hline
  have hquota : ∀ v, q = some v → IsQuota (normaliseEmail email, v) := fun v hv =>
    ⟨hnorm, hsp.oneLine, hne, fun h => he.colon (mark_of_mem_normaliseEmail (by decide) h),
      (hq v hv).noSpace.trim, (hq v hv).noSpace.oneLine, (hq v hv).ne⟩
  have hget := get?_created s (h := dovecotHash c) hquota
  have hadd (hp : '|' ∉ normaliseEmail email) :=
    addresses_created s (q := q) hne hp hnorm hsp.oneLine hn
  generalize hs' : created s (normaliseEmail email) (dovecotHash c) q = s' at *
  generalize normaliseEmail email = a at *
  have haddr : addresses s' = addresses s ++ addressesOf [formatPair '|' a (dovecotHash c)] := by
    rw [addresses, hlines, addressesOf_append, addresses]
  constructor
  · intro h
    refine ⟨fun hp => ?_, ?_⟩
    · -- the appended line is read as a shorter address
      have := List.append_cancel_left (haddr.symm.trans h.addresses)
      have hm : a ∈ addressesOf [formatPair '|' a (dovecotHash c)] := by rw [this]; simp
      obtain ⟨-, l, -, hl⟩ := mem_addressesOf.mp hm
      exact splitPair_ne (by decide) (hpipe.mpr hp) l hl
    · have := h.quota
      rw [hget, if_pos rfl] at this
      cases q with
      | some v => exact .inl (by simp)
      | none => exact .inr this
  · rintro ⟨hp, hstale⟩
    have hpa : '|' ∉ a := fun h => hp (hpipe.mp h)
    have hsplit := splitAccount_account hpa hnorm hn
    have hacc : accounts s' = accounts s ++ [(a, dovecotHash c)] := by
      rw [accounts, hlines, List.map_append, accounts, List.map_singleton, hsplit]
    refine ⟨hadd hpa, ?_, ?_, ?_, fun b hb => by rw [hget, if_neg hb], ?_⟩
    · rw [hacc, List.filter_append, filter_eq_nil_of_fresh hfresh]
      simp
    · rw [hget, if_pos rfl]
      cases q with
      | some v => rfl
      | none => exact hstale.resolve_left (by simp)
    · rw [hacc, List.filter_append]
      simp
    · intro crypt' email' q' he'
      have hnf : ¬ Fresh s' a := by
        intro hf
        refine hf (formatPair '|' a (dovecotHash c)) ?_ (congrArg Prod.fst hsplit)
        rw [hlines]
        simp
      rw [run_createMailbox]
      simp only [he', hat, not_true, if_false, if_pos hnf]

/-! ## Two calls on empty files -/

def noFiles : Files := fun _ => none

/-- `create_mailbox` without a quota, where `EmailStr` changes nothing. -/
def createOn (email : Str) : Except ApiError Mailbox × Files :=
  (createMailbox some (fun _ => some "$6$salt$digest".toList) email none).run box noFiles

theorem creates_iff_plain :
    Creates some noFiles (createOn "a@x.org".toList).2 (normaliseEmail "a@x.org".toList)
        (dovecotHash "$6$salt$digest".toList) none ↔
      '|' ∉ "a@x.org".toList ∧ ((none : Option Str) ≠ none ∨
        (quotas noFiles).get? (normaliseEmail "a@x.org".toList) = none) :=
  creates_iff some (fun _ => some "$6$salt$digest".toList) noFiles _ "a@x.org".toList
    "$6$salt$digest".toList none ⟨"a@x.org".toList, "x.org".toList, none⟩
    ⟨by decide, by decide, by decide, by decide⟩ rfl (by decide)
    (fun _ h => by cases h)
    (Prod.ext (by decide +kernel : (createOn "a@x.org".toList).1 = _) rfl)

/-- The call succeeds and adds the account `a` in place of `a|b@x.org`. -/
theorem pipe_creates_other :
    IsEmail "a|b@x.org".toList ∧
      (createOn "a|b@x.org".toList).1 = .ok ⟨"a|b@x.org".toList, "x.org".toList, none⟩ ∧
      addresses (createOn "a|b@x.org".toList).2 = ["a".toList] ∧
      ¬ Creates some noFiles (createOn "a|b@x.org".toList).2 (normaliseEmail "a|b@x.org".toList)
        (dovecotHash "$6$salt$digest".toList) none := by
  have hadd : addresses (createOn "a|b@x.org".toList).2 = ["a".toList] := by decide +kernel
  refine ⟨⟨by decide, by decide, by decide, by decide⟩, by decide +kernel, hadd,
    fun h => ?_⟩
  have := h.addresses
  rw [hadd] at this
  exact absurd this (by decide +kernel)

end MailserverUi.L4.MailboxCreate

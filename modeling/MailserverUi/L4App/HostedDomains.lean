import MailserverUi.L1Encoding.ConfigText
import MailserverUi.L3Service.MailserverService
import MailserverUi.L4App.UsageReport

/-!
# The hosted domains and the domains of the mailboxes

The DNS page reads `postfix-accounts.cf` without its comments, the mailbox list
with them; the mailbox list wants an `@` in an account, the DNS page does not.
Which domains are hosted is thus answered twice.

Results:
* `configLines_eq`: the one reader is the other without the comments.
* `domains_eq_iff`: the two answers are the same domains exactly when every
  account in a comment has the domain of a line that is none, and every word
  without an `@` is the domain of an account.
-/
namespace MailserverUi.L4.HostedDomains

open Py L1.MailFiles L1.ServerFiles L1.ConfigText L2.Errors L2.Container L3.MailboxService
open L3.MailboxSpec L3.MailserverService UsageReport

/-- What stands before the bar of an account line. -/
def account (line : Str) : Str := (splitAccount line).1

/-- `line.partition("|")[0].strip().lower().rpartition("@")[2]`. -/
def domainOf (line : Str) : Str := afterLast '@' (account line)

/-- The domains of the lines and of the keys, once each, in order. -/
def domainsOf (lines keyDomains : List Str) : List Str :=
  ((lines.map domainOf ++ keyDomains).dedup.filter (· ≠ [])).insertionSort (· ≤ ·)

/-- `keyDomains` are the domains of `list_dkim_keys()`.
mirrors backend/app/services/mailserver_service.py:1699-1706 -/
def hostedDomains (keyDomains : List Str) : Io (List Str) := do
  return domainsOf (← readConfigLines accountsFilename) keyDomains

theorem mem_domainsOf {lines keyDomains : List Str} {d : Str} :
    d ∈ domainsOf lines keyDomains ↔
      ((∃ l ∈ lines, domainOf l = d) ∨ d ∈ keyDomains) ∧ d ≠ [] := by
  simp only [domainsOf, List.mem_insertionSort, List.mem_filter, List.mem_dedup, List.mem_append,
    List.mem_map, decide_eq_true_eq]

/-! ## The two readers -/

/-- A line as it was read, stripped. -/
def Commented (l : Str) : Prop := l.head? = some '#'

instance (l : Str) : Decidable (Commented l) := inferInstanceAs (Decidable (_ = _))

theorem configLines_eq (content : Str) :
    configLines content = (linesOf content).filter fun l => ¬ Commented l := by
  unfold configLines linesOf
  rw [List.filter_map, List.filter_filter]
  congr 1
  refine List.filter_congr fun l _ => ?_
  by_cases hl : strip l = []
  · simp [hl]
  · simp [hl, Commented, head?_strip hl]

theorem run_hostedDomains (s : Files) (keyDomains : List Str) :
    (hostedDomains keyDomains).run box s =
      (.ok (domainsOf ((lines s accountsFilename).filter fun l => ¬ Commented l) keyDomains),
        s) := by
  rw [lines, ← configLines_eq]
  rfl

/-! ## The domains of the mailboxes -/

section
variable {emailStr : Str → Option Str} {s : Files} {ms : List Mailbox}

theorem mem_stored {a : Str} :
    a ∈ stored s ↔ ∃ l ∈ lines s accountsFilename, '@' ∈ account l ∧ account l = a := by
  simp only [stored, listedOf, List.mem_filter, List.mem_map, decide_eq_true_eq]
  constructor
  · rintro ⟨⟨l, hl, rfl⟩, -, hat⟩
    exact ⟨l, hl, hat, rfl⟩
  · rintro ⟨l, hl, hat, rfl⟩
    exact ⟨⟨l, hl, rfl⟩, List.ne_nil_of_mem hat, hat⟩

theorem found_of_returned (h : (listMailboxes emailStr).run box s = (.ok ms, s)) :
    ∃ found, L4.UsageReport.found emailStr s = some found ∧
      ms = found.insertionSort fun m n => m.email ≤ n.email := by
  rw [run_listMailboxes] at h
  cases hf : found emailStr s with
  | none =>
    rw [hf] at h
    cases h
  | some found =>
    rw [hf, Option.elim_some, Prod.mk.injEq, Except.ok.injEq] at h
    exact ⟨found, rfl, h.1.symm⟩

/-- The domains of the mailboxes are those of the lines with an `@`. -/
theorem mem_domains (h : (listMailboxes emailStr).run box s = (.ok ms, s)) {d : Str} :
    d ∈ ms.map Mailbox.domain ↔
      ∃ l ∈ lines s accountsFilename, '@' ∈ account l ∧ domainOf l = d := by
  obtain ⟨found, hf, rfl⟩ := found_of_returned h
  simp only [List.mem_map, List.mem_insertionSort]
  constructor
  · rintro ⟨m, hm, rfl⟩
    obtain ⟨a, ha, hm⟩ := exists_of_mem_mapM hf hm
    obtain ⟨e, -, rfl⟩ := Option.map_eq_some_iff.mp hm
    obtain ⟨l, hl, hat, rfl⟩ := mem_stored.mp ha
    exact ⟨l, hl, hat, rfl⟩
  · rintro ⟨l, hl, hat, rfl⟩
    obtain ⟨m, hm, ha⟩ := exists_of_mapM hf (mem_stored.mpr ⟨l, hl, hat, rfl⟩)
    obtain ⟨e, -, rfl⟩ := Option.map_eq_some_iff.mp ha
    exact ⟨_, hm, rfl⟩

/-- Every account with an `@` is one that `EmailStr` accepts. -/
theorem accepted (h : (listMailboxes emailStr).run box s = (.ok ms, s)) {l : Str}
    (hl : l ∈ lines s accountsFilename) (hat : '@' ∈ account l) :
    ∃ e, emailStr (account l) = some e := by
  obtain ⟨found, hf, -⟩ := found_of_returned h
  obtain ⟨m, -, hm⟩ := accepted_of_found hf (mem_stored.mpr ⟨l, hl, hat, rfl⟩)
  exact ⟨_, hm⟩

end

theorem domainOf_bare {l : Str} (h : '@' ∉ account l) : domainOf l = account l := by
  unfold domainOf afterLast
  rw [List.rtakeWhile_eq_self_iff]
  intro c hc
  simpa using fun e : c = '@' => h (e ▸ hc)

/-- A comment with an account has the domain of a line that is none, and a word
without an `@` is the domain of an account. -/
structure Matched (ls : List Str) : Prop where
  comments : ∀ l ∈ ls, Commented l → '@' ∈ account l →
    ∃ l' ∈ ls, ¬ Commented l' ∧ domainOf l' = domainOf l
  words : ∀ l ∈ ls, ¬ Commented l → '@' ∉ account l → account l ≠ [] →
    ∃ l' ∈ ls, '@' ∈ account l' ∧ domainOf l' = account l

/-- For every content of the account file for which the mailboxes are listed:
their domains are the hosted domains, without any keys, exactly when the lines
match. `EmailStr` refuses an address without a domain. -/
theorem domains_eq_iff (emailStr : Str → Option Str)
    (hemail : ∀ a e, emailStr a = some e → afterLast '@' a ≠ []) (s : Files) (ms : List Mailbox)
    (h : (listMailboxes emailStr).run box s = (.ok ms, s)) :
    ∃ ds, (hostedDomains []).run box s = (.ok ds, s) ∧
      ((∀ d, d ∈ ms.map Mailbox.domain ↔ d ∈ ds) ↔ Matched (lines s accountsFilename)) := by
  refine ⟨_, run_hostedDomains s [], ?_⟩
  have hhosted {d : Str} : d ∈ domainsOf ((lines s accountsFilename).filter
      fun l => ¬ Commented l) [] ↔
      (∃ l ∈ lines s accountsFilename, ¬ Commented l ∧ domainOf l = d) ∧ d ≠ [] := by
    simp only [mem_domainsOf, List.mem_filter, decide_eq_true_eq, List.not_mem_nil, or_false,
      and_assoc]
  simp only [mem_domains h, hhosted]
  constructor
  · intro heq
    refine ⟨fun l hl _ hat => ?_, fun l hl hc hat hne => ?_⟩
    · exact ((heq (domainOf l)).mp ⟨l, hl, hat, rfl⟩).1
    · exact (heq (account l)).mpr ⟨⟨l, hl, hc, domainOf_bare hat⟩, hne⟩
  · rintro ⟨hcomments, hwords⟩ d
    constructor
    · rintro ⟨l, hl, hat, rfl⟩
      obtain ⟨e, he⟩ := accepted h hl hat
      refine ⟨?_, hemail _ e he⟩
      by_cases hc : Commented l
      · exact hcomments l hl hc hat
      · exact ⟨l, hl, hc, rfl⟩
    · rintro ⟨⟨l, hl, hc, rfl⟩, hne⟩
      by_cases hat : '@' ∈ account l
      · exact ⟨l, hl, hat, rfl⟩
      · rw [domainOf_bare hat] at hne ⊢
        exact hwords l hl hc hat hne

/-- `EmailStr`, of addresses of one `@` and none of the texts it would change. -/
def plainEmail (a : Str) : Option Str := if afterLast '@' a = [] then none else some a

def accountsFile (content : Str) : Files := fun p =>
  if p = configPath accountsFilename then some content else none

def tidy : Str := "# accounts\nAnn@X.org|h\n#bob@x.org|h\n\nx.org|h\n".toList

def annBob : List Mailbox :=
  [⟨"#bob@x.org".toList, "x.org".toList, none⟩, ⟨"ann@x.org".toList, "x.org".toList, none⟩]

theorem domains_eq_iff_tidy :
    ∃ ds, (hostedDomains []).run box (accountsFile tidy) = (.ok ds, accountsFile tidy) ∧
      ((∀ d, d ∈ annBob.map Mailbox.domain ↔ d ∈ ds) ↔
        Matched (lines (accountsFile tidy) accountsFilename)) :=
  domains_eq_iff plainEmail (fun a e h => by
    unfold plainEmail at h
    split at h
    · cases h
    · assumption) _ _ (Prod.ext (by decide +kernel) rfl)

/-- An account in a comment, and a line without an `@`. -/
def untidy : Str := "ann@x.org|h\n#old@gone.org|h\npostmaster|h\n".toList

theorem domains_differ :
    ((listMailboxes plainEmail).run box (accountsFile untidy)).1.map (·.map Mailbox.domain) =
        .ok ["gone.org".toList, "x.org".toList] ∧
      ((hostedDomains []).run box (accountsFile untidy)).1 =
        .ok ["postmaster".toList, "x.org".toList] := by
  constructor <;> decide +kernel

end MailserverUi.L4.HostedDomains

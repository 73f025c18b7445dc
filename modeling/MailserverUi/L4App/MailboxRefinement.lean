import MailserverUi.Core.Service
import MailserverUi.L4App.MailboxConsistency

/-!
# The mailbox service is a directory of accounts

What `mailbox_service` keeps in three text files and a Sieve file for each
address is meant as one thing: accounts with a hash each, a quota for some of
them, who forwards to whom, and one filter for each. `Directory` is that, with
no files and no text, and `directory` answers every operation on it.

The files may be any files, written by hand or not, with lines that are read as
nothing, duplicate accounts or several targets in a line. The addresses are
those that `_SIEVE_ADDRESS_RE` matches, and the container's commands succeed.

Results:
* `refines`: each operation of the service answers as the directory does that
  the files stand for, and leaves files that stand for the directory after it.
* `answers_directory`: so do all operations in any order.
-/
namespace MailserverUi.L4.MailboxRefinement

open Py L1.MailFiles L1.SieveAddress L2.Errors L2.Container L3.Passwords L3.MailboxService
open L3.MailboxSpec MailboxCreate MailboxRuns MailboxConsistency

/-! ## The directory -/

structure Directory where
  /-- each address with its hash, in the order of creation -/
  accounts : List (Str × Str)
  quota : Str → Option Str
  /-- the aliases, each with an account it forwards to -/
  forwards : Finset (Str × Str)
  script : Str → Str

inductive Call where
  | listMailboxes
  | createMailbox (email : Str) (crypt : Nat → Option Str) (quota : Option Str)
  | deleteMailbox (email : Str)
  | setPassword (email : Str) (crypt : Nat → Option Str)
  | setQuota (email : Str) (quota : Option Str)
  | listAliasesFor (email : Str)
  | addAlias (email aliasEmail : Str)
  | deleteAlias (email aliasEmail : Str)
  | getSieveScript (email : Str)
  | setSieveScript (email content : Str)
  | deleteSieveScript (email : Str)

inductive Result where
  | done
  | mailbox (m : Mailbox)
  | mailboxes (ms : List Mailbox)
  | alias (a : Alias)
  | aliases (as : List Alias)
  | script (s : MailboxSieveScript)
  deriving DecidableEq, Repr

abbrev Answer := Except ApiError Result

namespace Directory

variable (d : Directory)

def addresses : List Str := d.accounts.map Prod.fst

def setQuota (a : Str) (q : Option Str) : Directory :=
  { d with quota := fun b => if b = a then q else d.quota b }

def giveQuota (a : Str) : Option Str → Directory
  | none => d
  | some q => d.setQuota a (some q)

/-- An empty script is none. -/
def setScript (a s : Str) : Directory :=
  { d with script := fun b => if b = a then s else d.script b }

/-- Everything of `a` goes. -/
def remove (a : Str) : Directory where
  accounts := d.accounts.filter (·.1 ≠ a)
  quota b := if b = a then none else d.quota b
  forwards := d.forwards.filter (·.2 ≠ a)
  script b := if b = a then [] else d.script b

/-- The aliases of an account, in order. -/
def aliasesOf (a : Str) : List Str := ((d.forwards.filter (·.2 = a)).image Prod.fst).sort

end Directory

/-- A fresh hash for every entry of the account; `none` where hashing raises. -/
def rehash (crypt : Nat → Option Str) (a : Str) : Nat → List (Str × Str) → Option (List (Str × Str))
  | _, [] => some []
  | n, p :: ps =>
    if p.1 = a then
      match crypt n with
      | none => none
      | some c => (rehash crypt a (n + 1) ps).map ((a, dovecotHash c) :: ·)
    else (rehash crypt a n ps).map (p :: ·)

/-- An empty text is no quota. -/
def given : Option Str → Option Str
  | none | some [] => none
  | some q => some q

/-- `none` where `EmailStr` refuses an address of the answer. -/
def answered {α : Type} (g : α → Result) : Option α → Answer
  | some x => .ok (g x)
  | none => .error .internal

/-- Text as it is read back from a file: its line ends become `\n`. -/
def stored (content : Str) : Str := strip (universalNewlines (strip content ++ ['\n']))

section
variable (emailStr : Str → Option Str)

def viewed (a : Str) (q : Option Str) : Answer :=
  answered .mailbox ((emailStr a).map fun e => ⟨e, afterLast '@' a, q⟩)

/-- What each operation means. -/
def directory : Service Directory Call Answer where
  serve d
    | .listMailboxes =>
      (answered (fun ms => .mailboxes (ms.insertionSort fun m n => m.email ≤ n.email))
        ((d.addresses.filter ('@' ∈ ·)).mapM fun a =>
          (emailStr a).map fun e => ⟨e, afterLast '@' a, d.quota a⟩), d)
    | .createMailbox email crypt quota =>
      let a := normaliseEmail email
      if '@' ∉ a then (.error (badRequest [lit "A mailbox address must contain a domain"]), d)
      else if a ∈ d.addresses then
        (.error (conflict [lit "Mailbox ", .text a, lit " already exists"]), d)
      else
        match crypt 0 with
        | none => (.error .internal, d)
        | some c =>
          let d := { d with accounts := d.accounts ++ [(a, dovecotHash c)] }
          (viewed emailStr a quota, d.giveQuota a (given quota))
    | .deleteMailbox email =>
      let a := normaliseEmail email
      if a ∉ d.addresses then (.error (notFound "Mailbox" a), d) else (.ok .done, d.remove a)
    | .setPassword email crypt =>
      let a := normaliseEmail email
      match rehash crypt a 0 d.accounts with
      | none => (.error .internal, d)
      | some accounts =>
        if a ∉ d.addresses then (.error (notFound "Mailbox" a), d)
        else (viewed emailStr a (d.quota a), { d with accounts })
    | .setQuota email quota =>
      let a := normaliseEmail email
      if a ∉ d.addresses then (.error (notFound "Mailbox" a), d)
      else
        let d := d.setQuota a (given quota)
        (viewed emailStr a (d.quota a), d)
    | .listAliasesFor email =>
      let a := normaliseEmail email
      if a ∉ d.addresses then (.error (notFound "Mailbox" a), d)
      else
        (answered .aliases ((d.aliasesOf a).mapM fun s => (emailStr s).map Alias.mk), d)
    | .addAlias email aliasEmail =>
      let a := normaliseEmail email
      let s := normaliseEmail aliasEmail
      if a ∉ d.addresses then (.error (notFound "Mailbox" a), d)
      else if '@' ∉ s then
        (.error (badRequest [lit "An alias address must contain a domain"]), d)
      else if s = a then (.error (badRequest [lit "An alias cannot point to itself"]), d)
      else if s ∈ d.addresses then
        (.error (conflict [.text s, lit " is already a mailbox and cannot be an alias"]), d)
      else if (s, a) ∈ d.forwards then
        (.error (conflict [lit "Alias ", .text s, lit " already forwards to ", .text a]), d)
      else
        (answered .alias ((emailStr s).map Alias.mk),
          { d with forwards := insert (s, a) d.forwards })
    | .deleteAlias email aliasEmail =>
      let a := normaliseEmail email
      let s := normaliseEmail aliasEmail
      if a ∉ d.addresses then (.error (notFound "Mailbox" a), d)
      else if (s, a) ∉ d.forwards then (.error (notFound "Alias" s), d)
      else (.ok .done, { d with forwards := d.forwards.erase (s, a) })
    | .getSieveScript email =>
      let a := normaliseEmail email
      if a ∉ d.addresses then (.error (notFound "Mailbox" a), d)
      else (.ok (.script ⟨a, d.script a, d.script a ≠ [], true⟩), d)
    | .setSieveScript email content =>
      let a := normaliseEmail email
      if a ∉ d.addresses then (.error (notFound "Mailbox" a), d)
      else if strip content = [] then (.ok (.script ⟨a, [], false, true⟩), d.setScript a [])
      else (.ok (.script ⟨a, strip content, true, true⟩), d.setScript a (stored content))
    | .deleteSieveScript email =>
      let a := normaliseEmail email
      if a ∉ d.addresses then (.error (notFound "Mailbox" a), d)
      else (.ok .done, d.setScript a [])

/-! ## The service on the files -/

def Call.prog : Call → Io Result
  | .listMailboxes => do return .mailboxes (← L3.MailboxService.listMailboxes emailStr)
  | .createMailbox email crypt quota => do
    return .mailbox (← L3.MailboxService.createMailbox emailStr crypt email quota)
  | .deleteMailbox email => do
    L3.MailboxService.deleteMailbox email
    return .done
  | .setPassword email crypt => do
    return .mailbox (← L3.MailboxService.setPassword emailStr crypt email)
  | .setQuota email quota => do return .mailbox (← L3.MailboxService.setQuota emailStr email quota)
  | .listAliasesFor email => do
    return .aliases (← L3.MailboxService.listAliasesFor emailStr email)
  | .addAlias email aliasEmail => do
    return .alias (← L3.MailboxService.addAlias emailStr email aliasEmail)
  | .deleteAlias email aliasEmail => do
    L3.MailboxService.deleteAlias email aliasEmail
    return .done
  | .getSieveScript email => do return .script (← L3.MailboxService.getSieveScript email)
  | .setSieveScript email content => do
    return .script (← L3.MailboxService.setSieveScript email content)
  | .deleteSieveScript email => do
    L3.MailboxService.deleteSieveScript email
    return .done

def service : Service Files Call Answer where
  serve s c := (c.prog emailStr).run box s

end

/-- The addresses of a call. -/
def Call.args : Call → List Str
  | .listMailboxes => []
  | .createMailbox email _ _ | .deleteMailbox email | .setPassword email _ | .setQuota email _
  | .listAliasesFor email | .getSieveScript email | .setSieveScript email _
  | .deleteSieveScript email => [email]
  | .addAlias email aliasEmail | .deleteAlias email aliasEmail => [email, aliasEmail]

/-- Hashes as passlib makes them, quotas as the schemas have them. -/
def Call.WellFormed : Call → Prop
  | .createMailbox _ crypt quota => Crypt crypt ∧ ∀ q, quota = some q → IsQuotaStr q
  | .setPassword _ crypt => Crypt crypt
  | .setQuota _ quota => ∀ q, quota = some q → IsQuotaStr q
  | _ => True

/-- A call whose texts are well formed and whose addresses name a Sieve file. -/
structure Call.Good (c : Call) : Prop where
  wellFormed : c.WellFormed
  matching : ∀ e ∈ c.args, sieveAddress (normaliseEmail e) = true

/-! ## What the files stand for -/

/-- Each alias of the lines with each of its targets. -/
def forwardsOf (ls : List Str) : Finset (Str × Str) :=
  (ls.flatMap fun l => (parseAlias l).2.map fun t => ((parseAlias l).1, t)).toFinset

/-- A missing script is an empty one. -/
def scriptOf (s : Files) (a : Str) : Str := strip (s.read (configPath (sieveFilename a)))

/-- The directory that the files stand for. -/
def directoryOf (s : Files) : Directory where
  accounts := (accounts s).filter (·.1 ≠ [])
  quota := (quotas s).get?
  forwards := forwardsOf (lines s virtualFilename)
  script := scriptOf s

section
variable {s s' : Files} {a b : Str}

/-- A line of the aliases is a forward for each of its targets. -/
theorem mem_forwardsOf {ls : List Str} {x t : Str} :
    (x, t) ∈ forwardsOf ls ↔ ∃ l ∈ ls, (parseAlias l).1 = x ∧ t ∈ (parseAlias l).2 := by
  simp only [forwardsOf, List.mem_toFinset, List.mem_flatMap, List.mem_map, Prod.mk.injEq]
  constructor
  · rintro ⟨l, hl, u, hu, rfl, rfl⟩
    exact ⟨l, hl, rfl, hu⟩
  · rintro ⟨l, hl, rfl, ht⟩
    exact ⟨l, hl, t, ht, rfl, rfl⟩

/-- The addresses of the directory are those of the files. -/
theorem addresses_directoryOf (s : Files) : (directoryOf s).addresses = addresses s := by
  have h : ((accounts s).filter (·.1 ≠ [])).map Prod.fst =
      ((accounts s).map Prod.fst).filter (· ≠ []) := by
    rw [List.filter_map]
    rfl
  rw [Directory.addresses, directoryOf, h, accounts, List.map_map]
  rfl

/-- An address is free in the files when the directory does not have it. -/
theorem fresh_iff (ha : a ≠ []) : Fresh s a ↔ a ∉ (directoryOf s).addresses := by
  rw [addresses_directoryOf, addresses, mem_addressesOf]
  simp only [Fresh, ha, ne_eq, not_false_eq_true, true_and, not_exists, not_and]

/-- Files that are read as the parts of `d` stand for it. -/
theorem directoryOf_eq {d : Directory}
    (ha : (accounts s).filter (·.1 ≠ []) = d.accounts)
    (hq : ∀ b, (quotas s).get? b = d.quota b)
    (hf : forwardsOf (lines s virtualFilename) = d.forwards)
    (hs : ∀ b, scriptOf s b = d.script b) : directoryOf s = d := by
  cases d
  unfold directoryOf
  congr
  · exact funext hq
  · exact funext hs

theorem accounts_congr (h : lines s' accountsFilename = lines s accountsFilename) :
    accounts s' = accounts s := congrArg (List.map splitAccount) h

/-- A script depends on its file only. -/
theorem scriptOf_congr (h : sieve s' a = sieve s a) : scriptOf s' a = scriptOf s a :=
  congrArg (fun c : Option Str => strip (universalNewlines (c.getD []))) h

theorem scriptOf_eq_nil (h : sieve s a = none) : scriptOf s a = [] :=
  congrArg (fun c : Option Str => strip (universalNewlines (c.getD []))) h

/-! ## Alias lines -/

/-- What is left of the lines, pair by pair. -/
theorem mem_forwardsOf_withoutTarget {ls : List Str} (hl : ∀ l ∈ ls, IsLine l) {t : Str}
    {hit : Str → Bool} {x u : Str} : (x, u) ∈ forwardsOf (withoutTarget t hit ls) ↔
      ∃ l ∈ ls, (parseAlias l).1 = x ∧ u ∈ (parseAlias l).2 ∧ (hit l = true → u ≠ t) := by
  rw [mem_forwardsOf]
  constructor
  · rintro ⟨l, hm, rfl, hu⟩
    obtain ⟨-, l₀, hl₀, e, hx⟩ := mem_withoutTarget hl hm
    exact ⟨l₀, hl₀, e.symm, (hx u hu).1, (hx u hu).2⟩
  · rintro ⟨l, hm, rfl, hu, hne⟩
    by_cases hh : hit l = true
    · have hmem : u ∈ (parseAlias l).2.filter (· ≠ t) := by
        rw [List.mem_filter, decide_eq_true_eq]
        exact ⟨hu, hne hh⟩
      have hok := parseAlias_ok (hl l hm)
      have hok : IsAlias (parseAlias l).1 ((parseAlias l).2.filter (· ≠ t)) :=
        ⟨hok.ne, hok.noSpace, hok.low, fun x hx => hok.target x (List.mem_of_mem_filter hx)⟩
      have hnil := List.ne_nil_of_mem hmem
      refine ⟨formatAlias (parseAlias l).1 ((parseAlias l).2.filter (· ≠ t)), ?_, ?_, ?_⟩
      · refine List.mem_filterMap.mpr ⟨l, hm, ?_⟩
        rw [if_pos hh, if_pos hnil]
      · rw [parseAlias_format hok hnil]
      · rw [parseAlias_format hok hnil]
        exact hmem
    · exact ⟨l, List.mem_filterMap.mpr ⟨l, hm, if_neg hh⟩, rfl, hu⟩

/-- Deleting an alias takes one forward away. -/
theorem forwardsOf_deleteAlias (s : Files) (t x : Str) :
    forwardsOf (withoutTarget t (hits x t) (lines s virtualFilename)) =
      (forwardsOf (lines s virtualFilename)).erase (x, t) := by
  ext ⟨y, u⟩
  rw [mem_forwardsOf_withoutTarget (fun _ => isLine_of_mem_lines), Finset.mem_erase,
    mem_forwardsOf]
  simp only [hits, decide_eq_true_eq, ne_eq, Prod.mk.injEq]
  constructor
  · rintro ⟨l, hl, rfl, hu, hne⟩
    refine ⟨?_, l, hl, rfl, hu⟩
    rintro ⟨rfl, rfl⟩
    exact hne ⟨rfl, hu⟩ rfl
  · rintro ⟨hne, l, hl, rfl, hu⟩
    refine ⟨l, hl, rfl, hu, ?_⟩
    rintro ⟨rfl, -⟩ rfl
    exact hne ⟨rfl, rfl⟩

/-- Dropping a target takes all forwards to it away. -/
theorem forwardsOf_dropTarget (s : Files) (t : Str) :
    forwardsOf (lines (dropTarget s t) virtualFilename) =
      (forwardsOf (lines s virtualFilename)).filter (·.2 ≠ t) := by
  unfold dropTarget
  split
  · rw [lines_withoutTarget]
    ext ⟨y, u⟩
    rw [mem_forwardsOf_withoutTarget (fun _ => isLine_of_mem_lines), Finset.mem_filter,
      mem_forwardsOf]
    simp only [decide_eq_true_eq, ne_eq]
    constructor
    · rintro ⟨l, hl, rfl, hu, hne⟩
      refine ⟨⟨l, hl, rfl, hu⟩, ?_⟩
      rintro rfl
      exact hne hu rfl
    · rintro ⟨⟨l, hl, rfl, hu⟩, hne⟩
      exact ⟨l, hl, rfl, hu, fun _ => hne⟩
  · rename_i hn
    rw [Finset.filter_true_of_mem]
    rintro ⟨y, u⟩ hm rfl
    obtain ⟨l, hl, -, hu⟩ := mem_forwardsOf.mp hm
    exact hn ⟨l, hl, hu⟩

/-- The sorted sources are those of the pairs. -/
theorem aliasesOf_directoryOf (s : Files) (a : Str) :
    (((((lines s virtualFilename).map parseAlias).filter fun p => a ∈ p.2).map
        Prod.fst).dedup.insertionSort (· ≤ ·)) = (directoryOf s).aliasesOf a := by
  refine List.Perm.eq_of_pairwise' (List.pairwise_insertionSort _ _) (Finset.pairwise_sort _ _) ?_
  refine (List.perm_insertionSort _ _).trans ?_
  refine (List.perm_ext_iff_of_nodup (List.nodup_dedup _) (Finset.sort_nodup _ _)).mpr fun x => ?_
  rw [List.mem_dedup, Finset.mem_sort, Finset.mem_image]
  simp only [List.mem_map, List.mem_filter, Finset.mem_filter, decide_eq_true_eq]
  constructor
  · rintro ⟨_, ⟨⟨l, hl, rfl⟩, hm⟩, rfl⟩
    exact ⟨((parseAlias l).1, a), ⟨mem_forwardsOf.mpr ⟨l, hl, rfl, hm⟩, rfl⟩, rfl⟩
  · rintro ⟨⟨y, u⟩, ⟨hm, rfl⟩, rfl⟩
    obtain ⟨l, hl, e, hu⟩ := mem_forwardsOf.mp hm
    exact ⟨parseAlias l, ⟨⟨l, hl, rfl⟩, hu⟩, e⟩

end

/-! ## The files after each operation -/

section
variable {s : Files} {a c : Str} {q : Option Str}

/-- What `create_mailbox` leaves in the files is an account more, with its quota. -/
theorem directoryOf_created (hp : Plain a) (hn : IsNormal a) (hc : NoSpace c)
    (hq : ∀ v, q = some v → IsQuotaStr v) :
    directoryOf (created s a (dovecotHash c) q) =
      { directoryOf s with
        accounts := (directoryOf s).accounts ++ [(a, dovecotHash c)] }.giveQuota a (given q) := by
  have hne : a ≠ [] := List.ne_nil_of_mem hp.atSign
  have hline := isLine_account hn.trim hp.noSpace.oneLine hc
  have hacc : (accounts (created s a (dovecotHash c) q)).filter (·.1 ≠ []) =
      (directoryOf s).accounts ++ [(a, dovecotHash c)] := by
    rw [accounts, lines_created s hline, List.map_append, List.map_singleton,
      splitAccount_account hp.sep.1 hn hc, List.filter_append]
    congr 1
    simp [hne]
  have hquota := get?_created s (q := q) (h := dovecotHash c) fun v hv =>
    ⟨hn, hp.noSpace.oneLine, hne, hp.sep.2.1, (hq v hv).noSpace.trim, (hq v hv).noSpace.oneLine,
      (hq v hv).ne⟩
  have hfwd : forwardsOf (lines (created s a (dovecotHash c) q) virtualFilename) =
      (directoryOf s).forwards := by
    rw [created, lines_giveQuota_ne _ _ virtual_ne_quotas,
      lines_putLines_ne accounts_ne_virtual.symm]
    rfl
  have hscript (b : Str) : scriptOf (created s a (dovecotHash c) q) b = scriptOf s b := by
    refine scriptOf_congr ?_
    rw [created, sieve_giveQuota, sieve_putLines (accounts_ne_sieve b).symm]
  cases q with
  | none =>
    refine directoryOf_eq hacc (fun b => ?_) hfwd hscript
    rw [hquota]
    split
    · rename_i e
      exact e ▸ rfl
    · rfl
  | some v =>
    cases v with
    | nil => exact absurd rfl (hq [] rfl).ne
    | cons d v => exact directoryOf_eq hacc (fun b => by rw [hquota]; rfl) hfwd hscript

/-- What `delete_mailbox` leaves has nothing of the account. -/
theorem directoryOf_deleted (ha : sieveAddress a = true) :
    directoryOf (deleted s a) = (directoryOf s).remove a := by
  refine directoryOf_eq ?_ (get?_deleted s a) ?_ fun b => ?_
  · rw [accounts, lines_deleted, Directory.remove, directoryOf, accounts, List.filter_map,
      List.filter_map, List.filter_map, List.filter_filter, List.filter_filter]
    congr 1
    refine List.filter_congr fun l _ => ?_
    exact Bool.and_comm _ _
  · have h : lines (deleted s a) virtualFilename = lines (dropTarget (dropQuota
        (putLines s accountsFilename
          ((lines s accountsFilename).filter fun l => (splitAccount l).1 ≠ a)) a) a)
            virtualFilename := by
      unfold deleted
      rw [if_pos ha, lines_delete_ne (virtual_ne_sieve a)]
    rw [h, forwardsOf_dropTarget, lines_dropQuota_ne _ _ virtual_ne_quotas,
      lines_putLines_ne accounts_ne_virtual.symm]
    rfl
  · have h := sieve_deleted s a ha b
    unfold Directory.remove
    dsimp only
    split
    · rename_i e
      rw [if_pos e] at h
      exact scriptOf_eq_nil h
    · rename_i e
      rw [if_neg e] at h
      exact scriptOf_congr h

/-- A quota that is set or dropped. -/
theorem directoryOf_requota (hp : Plain a) (hn : IsNormal a)
    (hq : ∀ v, q = some v → IsQuotaStr v) :
    directoryOf (requota s a q) = (directoryOf s).setQuota a (given q) := by
  match q with
  | none | some [] =>
    refine directoryOf_eq ?_ (get?_dropQuota s a) ?_ fun b => ?_
    · exact congrArg (List.filter _) (accounts_congr (lines_dropQuota_ne s a accounts_ne_quotas))
    · exact congrArg forwardsOf (lines_dropQuota_ne s a virtual_ne_quotas)
    · exact scriptOf_congr (sieve_dropQuota s a b)
  | some (d :: v) =>
    have hv := hq (d :: v) rfl
    have hquota : IsQuota (a, d :: v) := ⟨hn, hp.noSpace.oneLine, List.ne_nil_of_mem hp.atSign,
      hp.sep.2.1, hv.noSpace.trim, hv.noSpace.oneLine, hv.ne⟩
    refine directoryOf_eq ?_ (fun b => ?_) ?_ fun b => ?_
    · exact congrArg (List.filter _) (accounts_congr (lines_putQuotas_ne accounts_ne_quotas s _))
    · refine (get?_putQuotas (isQuota_set (isQuota_quotas s) hquota) s b).trans ?_
      rw [Dict.get?_set]
      rfl
    · exact congrArg forwardsOf (lines_putQuotas_ne virtual_ne_quotas s _)
    · exact scriptOf_congr (sieve_putQuotas s _ b)

/-- The forwards are in one file. -/
theorem directoryOf_putAliases {ls : List Str} (hl : ∀ l ∈ ls, IsLine l) :
    directoryOf (putAliases s ls) = { directoryOf s with forwards := forwardsOf ls } := by
  refine directoryOf_eq ?_ (fun b => ?_) ?_ fun b => ?_
  · exact congrArg (List.filter _) (accounts_congr (lines_putLines_ne accounts_ne_virtual s ls))
  · rw [putAliases, quotas_congr (lines_putLines_ne virtual_ne_quotas.symm s ls)]
    rfl
  · exact congrArg forwardsOf (lines_putLines hl)
  · exact scriptOf_congr (sieve_putLines (virtual_ne_sieve b).symm s ls)

/-- An alias that was there already is no forward more. -/
theorem directoryOf_aliased {target source : Str} (h : IsAlias source [target]) :
    directoryOf (aliased s target source) =
      { directoryOf s with forwards := insert (source, target) (directoryOf s).forwards } := by
  have hl (l : Str) (hl : l ∈ lines s virtualFilename ++ [formatAlias source [target]]) :
      IsLine l := by
    rcases List.mem_append.mp hl with hl | hl
    · exact isLine_of_mem_lines hl
    · rw [List.mem_singleton.mp hl]
      exact isLine_formatAlias h (by simp)
  have hf : forwardsOf (lines s virtualFilename ++ [formatAlias source [target]]) =
      insert (source, target) (forwardsOf (lines s virtualFilename)) := by
    ext ⟨x, u⟩
    have hp := parseAlias_format h (List.cons_ne_nil target [])
    simp only [mem_forwardsOf, Finset.mem_insert, List.mem_append, List.mem_singleton, or_and_right,
      exists_or, exists_eq_left, hp, Prod.mk.injEq]
    rw [or_comm, eq_comm]
  rw [aliased, directoryOf_putAliases hl, hf]
  rfl

/-- A script is kept stripped. -/
theorem directoryOf_scripted (a content : Str) :
    directoryOf (scripted s a content) =
      (directoryOf s).setScript a (if strip content = [] then [] else stored content) := by
  unfold scripted
  split
  · refine directoryOf_eq ?_ (fun b => ?_) ?_ fun b => ?_
    · exact congrArg (List.filter _) (accounts_congr (lines_delete_ne (accounts_ne_sieve a) s))
    · rw [quotas_congr (lines_delete_ne (quotas_ne_sieve a) s)]
      rfl
    · exact congrArg forwardsOf (lines_delete_ne (virtual_ne_sieve a) s)
    · have h := sieve_delete s a b
      unfold Directory.setScript
      dsimp only
      split
      · rename_i e
        rw [if_pos e] at h
        exact scriptOf_eq_nil h
      · rename_i e
        rw [if_neg e] at h
        exact scriptOf_congr h
  · refine directoryOf_eq ?_ (fun b => ?_) ?_ fun b => ?_
    · exact congrArg (List.filter _) (accounts_congr (lines_write_ne (accounts_ne_sieve a) s _))
    · rw [quotas_congr (lines_write_ne (quotas_ne_sieve a) s _)]
      rfl
    · exact congrArg forwardsOf (lines_write_ne (virtual_ne_sieve a) s _)
    · have h := sieve_write s a (strip content ++ ['\n']) b
      unfold Directory.setScript
      dsimp only
      split
      · rename_i e
        rw [if_pos e] at h
        rw [scriptOf, Files.read, show s.write _ _ (configPath (sieveFilename b)) = _ from h]
        rfl
      · rename_i e
        rw [if_neg e] at h
        exact scriptOf_congr h

end

/-- The hashes of the lines are set as those of the accounts are. -/
theorem rehash_eq {crypt : Nat → Option Str} (hc : Crypt crypt) {a : Str} (hp : Plain a)
    (hn : IsNormal a) (n : Nat) (ls : List Str) :
    rehash crypt a n ((ls.map splitAccount).filter (·.1 ≠ [])) =
      (resetLines crypt a n ls).map fun updated => (updated.map splitAccount).filter (·.1 ≠ []) := by
  have hne : a ≠ [] := List.ne_nil_of_mem hp.atSign
  induction ls generalizing n with
  | nil => rfl
  | cons l ls ih =>
    rw [List.map_cons, resetLines]
    by_cases ha : (splitAccount l).1 = a
    · rw [List.filter_cons_of_pos (by simpa [ha] using hne), rehash, if_pos ha, if_pos ha]
      cases hcn : crypt n with
      | none => rfl
      | some c =>
        dsimp only
        rw [ih, Option.map_map, Option.map_map]
        refine congrArg (Option.map · _) (funext fun updated => ?_)
        simp [splitAccount_account hp.sep.1 hn (hc n c hcn), hne]
    · rw [if_neg ha]
      by_cases he : (splitAccount l).1 = []
      · rw [List.filter_cons_of_neg (by simp [he]), ih, Option.map_map]
        refine congrArg (Option.map · _) (funext fun updated => ?_)
        simp [he]
      · rw [List.filter_cons_of_pos (by simpa using he), rehash, if_neg ha, ih, Option.map_map,
          Option.map_map]
        refine congrArg (Option.map · _) (funext fun updated => ?_)
        simp [he]

/-- New hashes are a matter of the accounts. -/
theorem directoryOf_reset {s : Files} {ls : List Str} (hl : ∀ l ∈ ls, IsLine l) :
    directoryOf (putLines s accountsFilename ls) =
      { directoryOf s with accounts := (ls.map splitAccount).filter (·.1 ≠ []) } := by
  refine directoryOf_eq ?_ (fun b => ?_) ?_ fun b => ?_
  · rw [accounts, lines_putLines hl]
  · rw [quotas_congr (lines_putLines_ne accounts_ne_quotas.symm s ls)]
    rfl
  · exact congrArg forwardsOf (lines_putLines_ne accounts_ne_virtual.symm s ls)
  · exact scriptOf_congr (sieve_putLines (accounts_ne_sieve b).symm s ls)

/-! ## One operation -/

/-- On the files `s`, `p` ends as the directory does. -/
abbrev Agrees {α : Type} (g : α → Result) (p : Io α) (s : Files) (d : Answer × Directory) : Prop :=
  p.Agrees box directoryOf g s d

section
variable {α : Type} {g : α → Result} {p : Io α} {s : Files} {d : Answer × Directory}

/-- The check for an account is one of the directory. -/
theorem agrees_requireMailbox_bind {a : Str} {k : Unit → Io α}
    (hk : a ∈ (directoryOf s).addresses → Agrees g (k ()) s d) :
    Agrees g (requireMailbox a >>= k) s
      (if a ∉ (directoryOf s).addresses then (.error (notFound "Mailbox" a), directoryOf s)
        else d) := by
  rw [addresses_directoryOf] at hk ⊢
  rw [Agrees, Prog.Agrees, run_requireMailbox_bind]
  by_cases hm : a ∈ addresses s
  · rw [if_pos hm, if_neg (not_not.mpr hm)]
    exact hk hm
  · rw [if_neg hm, if_pos hm]
    exact ⟨rfl, rfl⟩

/-- A file is read, and the rest runs with its lines. -/
theorem agrees_readLines_bind {f : Str} {k : List Str → Io α} (h : Agrees g (k (lines s f)) s d) :
    Agrees g (readLines f >>= k) s d := h

theorem agrees_ofOption {o : Option α} :
    Agrees g (Prog.ofOption .internal o) s (answered g o, directoryOf s) := by
  cases o <;> exact ⟨rfl, rfl⟩

/-- An address that matches is one that `_require_sieve_address` lets pass. -/
theorem agrees_requireSieveAddress_bind {email : Str} {k : Str → Io α}
    (ha : sieveAddress (normaliseEmail email) = true)
    (hk : Agrees g (k (normaliseEmail email)) s d) :
    Agrees g (requireSieveAddress email >>= k) s d := by
  rw [Agrees, Prog.Agrees, run_requireSieveAddress_bind, if_neg (by rw [ha]; decide)]
  exact hk

end

section
variable (emailStr : Str → Option Str) (s : Files) {email aliasEmail : Str}
  {crypt : Nat → Option Str} {q : Option Str}

/-- The answers are made of the address and its quota. -/
theorem viewed_eq (a : Str) (q : Option Str) :
    (view emailStr a q).map .mailbox = viewed emailStr a q := by
  unfold view viewed
  cases emailStr a <;> rfl

/-- The accounts are listed in the order of the file. -/
theorem agrees_listMailboxes :
    Agrees .mailboxes (listMailboxes emailStr) s
      ((directory emailStr).serve (directoryOf s) .listMailboxes) := by
  have hl : listedOf (lines s accountsFilename) =
      (directoryOf s).addresses.filter ('@' ∈ ·) := by
    rw [addresses_directoryOf, addresses, addressesOf, List.filter_filter, listedOf]
    refine List.filter_congr fun b _ => ?_
    simp only [Bool.decide_and, Bool.and_comm]
  unfold directory
  dsimp only
  rw [← hl]
  unfold Agrees Prog.Agrees
  rw [listMailboxes, run_readQuotas_bind, run_readLines_bind, Prog.run_bind]
  have hq : (directoryOf s).quota = (quotas s).get? := rfl
  rw [hq]
  cases (listedOf (lines s accountsFilename)).mapM fun a =>
    (emailStr a).map fun e => Mailbox.mk e (afterLast '@' a) ((quotas s).get? a) <;>
    exact ⟨rfl, rfl⟩

/-- An account is made also when `EmailStr` refuses to show it. -/
theorem agrees_createMailbox (ha : sieveAddress (normaliseEmail email) = true) (hc : Crypt crypt)
    (hq : ∀ v, q = some v → IsQuotaStr v) :
    Agrees .mailbox (createMailbox emailStr crypt email q) s
      ((directory emailStr).serve (directoryOf s) (.createMailbox email crypt q)) := by
  have hn := isNormal_normaliseEmail email
  have hp : Plain (normaliseEmail email) := .of_sieveAddress ha hn.trim
  have hf := fresh_iff (s := s) (List.ne_nil_of_mem hp.atSign)
  unfold Agrees Prog.Agrees directory
  rw [run_createMailbox]
  dsimp only
  by_cases h₁ : '@' ∉ normaliseEmail email
  · rw [if_pos h₁, if_pos h₁]
    exact ⟨rfl, rfl⟩
  rw [if_neg h₁, if_neg h₁]
  by_cases h₂ : normaliseEmail email ∈ (directoryOf s).addresses
  · rw [if_pos h₂, if_pos fun hfr => hf.mp hfr h₂]
    exact ⟨rfl, rfl⟩
  rw [if_neg h₂, if_neg (not_not.mpr (hf.mpr h₂))]
  cases hc0 : crypt 0 with
  | none => exact ⟨rfl, rfl⟩
  | some c => exact ⟨viewed_eq emailStr _ _, directoryOf_created hp hn (hc 0 c hc0) hq⟩

/-- A deletion takes the account, its quota, its forwards and its script. -/
theorem agrees_deleteMailbox (ha : sieveAddress (normaliseEmail email) = true) :
    Agrees (fun _ => .done) (deleteMailbox email) s
      ((directory emailStr).serve (directoryOf s) (.deleteMailbox email)) := by
  have hp : Plain (normaliseEmail email) := .of_sieveAddress ha (isNormal_normaliseEmail email).trim
  have hf := fresh_iff (s := s) (List.ne_nil_of_mem hp.atSign)
  unfold Agrees Prog.Agrees directory
  rw [run_deleteMailbox]
  dsimp only
  by_cases h : normaliseEmail email ∈ (directoryOf s).addresses
  · rw [if_neg (not_not.mpr h), if_neg fun hfr => hf.mp hfr h]
    exact ⟨rfl, directoryOf_deleted ha⟩
  · rw [if_pos h, if_pos (hf.mpr h)]
    exact ⟨rfl, rfl⟩

/-- Every line of the account gets a hash of its own. -/
theorem agrees_setPassword (ha : sieveAddress (normaliseEmail email) = true)
    (hc : Crypt crypt) :
    Agrees .mailbox (setPassword emailStr crypt email) s
      ((directory emailStr).serve (directoryOf s) (.setPassword email crypt)) := by
  have hn := isNormal_normaliseEmail email
  have hp : Plain (normaliseEmail email) := .of_sieveAddress ha hn.trim
  have hf := fresh_iff (s := s) (List.ne_nil_of_mem hp.atSign)
  have hr : rehash crypt (normaliseEmail email) 0 (directoryOf s).accounts = _ :=
    rehash_eq hc hp hn 0 (lines s accountsFilename)
  unfold Agrees Prog.Agrees directory
  rw [run_setPassword]
  dsimp only
  rw [hr]
  cases hu : resetLines crypt (normaliseEmail email) 0 (lines s accountsFilename) with
  | none => exact ⟨rfl, rfl⟩
  | some updated =>
    dsimp only [Option.map_some]
    by_cases h : normaliseEmail email ∈ (directoryOf s).addresses
    · rw [if_neg (not_not.mpr h), if_neg fun hfr => hf.mp hfr h,
        quotas_congr (lines_putLines_ne accounts_ne_quotas.symm s updated)]
      exact ⟨viewed_eq emailStr _ _, directoryOf_reset (resetLines_spec hc (fun _ => isLine_of_mem_lines) hu).1⟩
    · rw [if_pos h, if_pos (hf.mpr h)]
      exact ⟨rfl, rfl⟩

/-- The quota is set, or dropped when none is given. -/
theorem agrees_setQuota (ha : sieveAddress (normaliseEmail email) = true)
    (hq : ∀ v, q = some v → IsQuotaStr v) :
    Agrees .mailbox (setQuota emailStr email q) s
      ((directory emailStr).serve (directoryOf s) (.setQuota email q)) := by
  have hn := isNormal_normaliseEmail email
  have hp : Plain (normaliseEmail email) := .of_sieveAddress ha hn.trim
  have hd := directoryOf_requota (s := s) hp hn hq
  unfold Agrees Prog.Agrees directory
  rw [run_setQuota, ← addresses_directoryOf]
  dsimp only
  by_cases h : normaliseEmail email ∈ (directoryOf s).addresses
  · rw [if_pos h, if_neg (not_not.mpr h)]
    refine ⟨?_, hd⟩
    have hquota := congrFun (congrArg Directory.quota hd) (normaliseEmail email)
    exact (viewed_eq emailStr _ _).trans (congrArg (viewed emailStr _) hquota)
  · rw [if_neg h, if_pos h]
    exact ⟨rfl, rfl⟩

/-- The forwards to an account are its aliases. -/
theorem agrees_listAliasesFor :
    Agrees .aliases (listAliasesFor emailStr email) s
      ((directory emailStr).serve (directoryOf s) (.listAliasesFor email)) := by
  refine agrees_requireMailbox_bind fun _ => ?_
  rw [← aliasesOf_directoryOf]
  exact agrees_readLines_bind agrees_ofOption

/-- A forward is added once. -/
theorem agrees_addAlias (ha : sieveAddress (normaliseEmail email) = true)
    (hs : sieveAddress (normaliseEmail aliasEmail) = true) :
    Agrees .alias (addAlias emailStr email aliasEmail) s
      ((directory emailStr).serve (directoryOf s) (.addAlias email aliasEmail)) := by
  have hok : IsAlias (normaliseEmail aliasEmail) [normaliseEmail email] := by
    have hta : Plain (normaliseEmail email) := .of_sieveAddress ha (isNormal_normaliseEmail _).trim
    have hso : Plain (normaliseEmail aliasEmail) :=
      .of_sieveAddress hs (isNormal_normaliseEmail _).trim
    refine ⟨List.ne_nil_of_mem hso.atSign, hso.noSpace, (isNormal_normaliseEmail _).low,
      fun t hmem => ?_⟩
    rw [List.mem_singleton.mp hmem]
    exact ⟨List.ne_nil_of_mem hta.atSign, hta.sep.2.2, isNormal_normaliseEmail _,
      hta.noSpace.oneLine⟩
  refine agrees_requireMailbox_bind fun _ => Prog.agrees_raiseIf_bind Iff.rfl fun _ =>
    Prog.agrees_raiseIf_bind Iff.rfl fun _ => ?_
  rw [addresses_directoryOf]
  refine Prog.agrees_raiseIf_bind Iff.rfl fun _ => Prog.agrees_raiseIf_bind mem_forwardsOf.symm fun _ => ?_
  rw [Prog.Agrees, run_writeLines_bind]
  cases emailStr (normaliseEmail aliasEmail) <;> exact ⟨rfl, directoryOf_aliased hok⟩

/-- A forward that is not there is not found. -/
theorem agrees_deleteAlias :
    Agrees (fun _ => .done) (deleteAlias email aliasEmail) s
      ((directory emailStr).serve (directoryOf s) (.deleteAlias email aliasEmail)) := by
  have hl (l : Str) (hl : l ∈ withoutTarget (normaliseEmail email)
      (hits (normaliseEmail aliasEmail) (normaliseEmail email)) (lines s virtualFilename)) :
      IsLine l := (mem_withoutTarget (fun _ => isLine_of_mem_lines) hl).1
  refine agrees_requireMailbox_bind fun _ => agrees_readLines_bind
    (Prog.agrees_raiseIf_bind (not_congr ?_) fun _ => ⟨rfl, (directoryOf_putAliases hl).trans ?_⟩)
  · simp only [decide_eq_true_eq]
    exact mem_forwardsOf.symm
  · rw [forwardsOf_deleteAlias]
    rfl

/-- A script is read as it was stored. -/
theorem agrees_getSieveScript (ha : sieveAddress (normaliseEmail email) = true) :
    Agrees .script (getSieveScript email) s
      ((directory emailStr).serve (directoryOf s) (.getSieveScript email)) :=
  agrees_requireSieveAddress_bind ha (agrees_requireMailbox_bind fun _ => ⟨rfl, rfl⟩)

/-- A blank script deletes the one that was there. -/
theorem agrees_setSieveScript (content : Str) (ha : sieveAddress (normaliseEmail email) = true) :
    Agrees .script (setSieveScript email content) s
      ((directory emailStr).serve (directoryOf s) (.setSieveScript email content)) := by
  refine agrees_requireSieveAddress_bind ha (agrees_requireMailbox_bind fun _ => ?_)
  have hd := directoryOf_scripted (s := s) (normaliseEmail email) content
  unfold scripted at hd
  dsimp only
  split <;> rename_i h
  · rw [if_pos h, if_pos h] at hd
    exact ⟨rfl, hd⟩
  · rw [if_neg h, if_neg h] at hd
    exact ⟨rfl, hd⟩

theorem agrees_deleteSieveScript (ha : sieveAddress (normaliseEmail email) = true) :
    Agrees (fun _ => .done) (deleteSieveScript email) s
      ((directory emailStr).serve (directoryOf s) (.deleteSieveScript email)) :=
  agrees_requireSieveAddress_bind ha (agrees_requireMailbox_bind fun _ =>
    ⟨rfl, directoryOf_scripted (s := s) (normaliseEmail email) []⟩)

/-- Each operation answers as the directory does, and leaves files that stand
for the directory after it. -/
theorem agrees_prog (c : Call) (h : c.Good) :
    ((c.prog emailStr).run box s).1 = ((directory emailStr).serve (directoryOf s) c).1 ∧
      directoryOf ((c.prog emailStr).run box s).2 =
        ((directory emailStr).serve (directoryOf s) c).2 := by
  obtain ⟨hw, hm⟩ := h
  cases c with
  | listMailboxes => exact (agrees_listMailboxes emailStr s).returned
  | createMailbox email crypt q =>
    exact (agrees_createMailbox emailStr s (hm email (by simp [Call.args])) hw.1 hw.2).returned
  | deleteMailbox email =>
    exact (agrees_deleteMailbox emailStr s (hm email (by simp [Call.args]))).returned
  | setPassword email crypt =>
    exact (agrees_setPassword emailStr s (hm email (by simp [Call.args])) hw).returned
  | setQuota email q =>
    exact (agrees_setQuota emailStr s (hm email (by simp [Call.args])) hw).returned
  | listAliasesFor email => exact (agrees_listAliasesFor emailStr s).returned
  | addAlias email aliasEmail =>
    exact (agrees_addAlias emailStr s (hm email (by simp [Call.args]))
      (hm aliasEmail (by simp [Call.args]))).returned
  | deleteAlias email aliasEmail => exact (agrees_deleteAlias emailStr s).returned
  | getSieveScript email =>
    exact (agrees_getSieveScript emailStr s (hm email (by simp [Call.args]))).returned
  | setSieveScript email content =>
    exact (agrees_setSieveScript emailStr s content (hm email (by simp [Call.args]))).returned
  | deleteSieveScript email =>
    exact (agrees_deleteSieveScript emailStr s (hm email (by simp [Call.args]))).returned

end

/-! ## All operations -/

/-- **The files are the directory**: each operation answers and goes on as the one of
the abstract service does. -/
theorem refines (emailStr : Str → Option Str) :
    (service emailStr).Refines (directory emailStr) (fun _ => True) Call.Good directoryOf id where
  keeps _ _ _ _ := trivial
  answer s c _ h := (agrees_prog emailStr s c h).1
  next s c _ h := (agrees_prog emailStr s c h).2

/-- Whatever is in the files, any operations are answered as the directory
answers them that the files stand for, and end in files that stand for the
directory after them. -/
theorem answers_directory (emailStr : Str → Option Str) (s : Files) (cs : List Call)
    (h : ∀ c ∈ cs, c.Good) :
    (service emailStr).answers s cs = (directory emailStr).answers (directoryOf s) cs ∧
      directoryOf ((service emailStr).after s cs) =
        (directory emailStr).after (directoryOf s) cs := by
  have ha := (refines emailStr).answers_eq h (s := s) trivial
  have hd := (refines emailStr).after_eq h (s := s) trivial
  rw [List.map_id] at ha hd
  exact ⟨ha, hd⟩

/-- An account gets an alias and a filter, and goes. -/
def lifetime : List Call :=
  [.createMailbox "a@x.org".toList salted (some "5G".toList),
    .addAlias "A@x.org ".toList "b@x.org".toList, .setSieveScript "a@x.org".toList "keep;".toList,
    .listAliasesFor "a@x.org".toList, .deleteMailbox "a@x.org".toList, .listMailboxes]

theorem good_lifetime : ∀ c ∈ lifetime, c.Good := by
  have hargs : ∀ c ∈ lifetime, ∀ e ∈ c.args, sieveAddress (normaliseEmail e) = true := by
    decide +kernel
  intro c hc
  refine ⟨?_, hargs c hc⟩
  have hquota : ∀ v, some "5G".toList = some v → IsQuotaStr v := by
    intro v hv
    cases hv
    exact ⟨by decide, by decide⟩
  simp only [lifetime, List.mem_cons, List.not_mem_nil, or_false] at hc
  rcases hc with rfl | rfl | rfl | rfl | rfl | rfl
  · exact ⟨crypt_salted, hquota⟩
  all_goals trivial

theorem answers_directory_lifetime :
    (service some).answers noFiles lifetime =
        (directory some).answers (directoryOf noFiles) lifetime ∧
      directoryOf ((service some).after noFiles lifetime) =
        (directory some).after (directoryOf noFiles) lifetime :=
  answers_directory some noFiles lifetime good_lifetime

end MailserverUi.L4.MailboxRefinement

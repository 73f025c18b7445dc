import MailserverUi.L4App.MailboxCreate

/-!
# What deleting an account leaves alone

`delete_mailbox` reads three files, filters them and writes them back in their
own line formats. Every content is covered: what a person wrote by hand,
repeated lines, lines that parse into nothing. A line is what `_read_lines`
makes of it, without the blanks around it.

Results:
* `aliases_withoutTarget`: taking a target out of the lines of
  `postfix-virtual.cf` is taking it out of what they parse into.
* `deletes_only`: a deletion that succeeds removes the account, its quota, its
  address as a target and its Sieve file, and nothing else.
-/
namespace MailserverUi.L4.MailboxDelete

open Py L1.MailFiles L1.SieveAddress L2.Errors L2.Container L3.MailboxService L3.MailboxSpec
open MailboxCreate

/-! ## Alias lines less one target -/

/-- A parsed alias line less one target. -/
def without (a : Str) (p : Str × List Str) : Str × List Str := (p.1, p.2.filter (· ≠ a))

/-- The line had targets, and none but this one. -/
def Emptied (a : Str) (p : Str × List Str) : Prop := p.2 ≠ [] ∧ (without a p).2 = []

instance (a : Str) (p : Str × List Str) : Decidable (Emptied a p) :=
  inferInstanceAs (Decidable (_ ∧ _))

theorem without_eq_self {a : Str} {p : Str × List Str} (h : a ∉ p.2) : without a p = p := by
  unfold without
  rw [List.filter_eq_self.mpr fun x hx => ?_]
  have hne : x ≠ a := fun e => h (e ▸ hx)
  simpa using hne

theorem not_emptied {a : Str} {p : Str × List Str} (h : a ∉ p.2) : ¬ Emptied a p := by
  intro ⟨hne, he⟩
  rw [without_eq_self h] at he
  exact hne he

/-- A line that was rewritten parses into what it was made of. -/
theorem parseAlias_rewritten {a l : Str} (hl : IsLine l)
    (h : (parseAlias l).2.filter (· ≠ a) ≠ []) :
    parseAlias (formatAlias (parseAlias l).1 ((parseAlias l).2.filter (· ≠ a))) =
      without a (parseAlias l) := by
  have hok := parseAlias_ok hl
  have hok : IsAlias (parseAlias l).1 ((parseAlias l).2.filter (· ≠ a)) :=
    ⟨hok.ne, hok.noSpace, hok.low, fun x hx => hok.target x (List.mem_of_mem_filter hx)⟩
  exact parseAlias_format hok h

/-- The loop of `_remove_target_from_aliases` on what the lines parse into. -/
theorem aliases_withoutTarget (a : Str) {ls : List Str} (h : ∀ l ∈ ls, IsLine l) :
    (withoutTarget a (fun l => a ∈ (parseAlias l).2) ls).map parseAlias =
      ((ls.map parseAlias).filter fun p => ¬ Emptied a p).map (without a) := by
  induction ls with
  | nil => rfl
  | cons l ls ih =>
    obtain ⟨hl, hls⟩ := List.forall_mem_cons.mp h
    have ih := ih hls
    unfold withoutTarget at ih ⊢
    rw [List.map_cons, List.filterMap_cons]
    by_cases hit : a ∈ (parseAlias l).2
    · simp only [hit, decide_true, if_true]
      by_cases hr : (parseAlias l).2.filter (· ≠ a) = []
      · have hemp : Emptied a (parseAlias l) := ⟨List.ne_nil_of_mem hit, hr⟩
        rw [List.filter_cons_of_neg (by simpa using hemp)]
        rw [if_neg (not_not.mpr hr)]
        exact ih
      · have hemp : ¬ Emptied a (parseAlias l) := fun he => hr he.2
        rw [List.filter_cons_of_pos (by simpa using hemp), List.map_cons, ← ih]
        rw [if_pos hr, List.map_cons, parseAlias_rewritten hl hr]
    · have hemp := not_emptied hit
      rw [List.filter_cons_of_pos (by simpa using hemp), List.map_cons, ← ih, without_eq_self hit]
      simp [hit]

theorem aliases_dropTarget (s : Files) (a : Str) :
    aliases (dropTarget s a) = ((aliases s).filter fun p => ¬ Emptied a p).map (without a) := by
  rw [aliases, aliases, ← aliases_withoutTarget a fun _ => isLine_of_mem_lines, dropTarget]
  split
  · rw [lines_withoutTarget]
  · rename_i hn
    congr 1
    unfold withoutTarget
    symm
    rw [List.filterMap_congr (g := some) fun l hl => ?_, List.filterMap_some]
    have hit : a ∉ (parseAlias l).2 := fun hm => hn ⟨l, hl, hm⟩
    simp [hit]

/-! ## The four files -/

theorem aliases_congr {s s' : Files}
    (h : lines s' virtualFilename = lines s virtualFilename) : aliases s' = aliases s := by
  rw [aliases, h, aliases]

section
variable (s : Files) (a : Str)

theorem aliases_deleted :
    aliases (deleted s a) = ((aliases s).filter fun p => ¬ Emptied a p).map (without a) := by
  have h : aliases (dropTarget (dropQuota (putLines s accountsFilename
      ((lines s accountsFilename).filter fun l => (splitAccount l).1 ≠ a)) a) a) =
        ((aliases s).filter fun p => ¬ Emptied a p).map (without a) := by
    rw [aliases_dropTarget, aliases_congr (lines_dropQuota_ne _ a virtual_ne_quotas),
      aliases_congr (lines_putLines_ne accounts_ne_virtual.symm s _)]
  unfold deleted
  split
  · rw [aliases_congr (lines_delete_ne (virtual_ne_sieve a) _), h]
  · exact h

/-- The accounts are written first, and nothing after that touches them. -/
theorem deleted_accounts : deleted s a (configPath accountsFilename) =
    some (unlines ((lines s accountsFilename).filter fun l => (splitAccount l).1 ≠ a)) := by
  have h : dropTarget (dropQuota (putLines s accountsFilename
      ((lines s accountsFilename).filter fun l => (splitAccount l).1 ≠ a)) a) a
        (configPath accountsFilename) =
      some (unlines ((lines s accountsFilename).filter fun l => (splitAccount l).1 ≠ a)) := by
    rw [dropTarget_other accounts_ne_virtual, dropQuota_other accounts_ne_quotas, putLines_same]
  unfold deleted
  split
  · simpa [Files.delete, configPath_inj, (accounts_ne_sieve a).ne] using h
  · exact h

theorem deleted_other {g : Str} (ha : Unrelated g accountsFilename)
    (hq : Unrelated g quotasFilename) (hv : Unrelated g virtualFilename)
    (hs : g ≠ sieveFilename a) :
    deleted s a (configPath g) = s (configPath g) := by
  have h : dropTarget (dropQuota (putLines s accountsFilename
      ((lines s accountsFilename).filter fun l => (splitAccount l).1 ≠ a)) a) a (configPath g) =
        s (configPath g) := by
    rw [dropTarget_other hv, dropQuota_other hq, putLines_other ha]
  unfold deleted
  split
  · simpa [Files.delete, configPath_inj, hs] using h
  · exact h

end

/-! ## A deletion that succeeds -/

/-- What `s'` has is what `s` had, less the account `a`. -/
structure Removed (s s' : Files) (a : Str) : Prop where
  noAccount : ∀ p ∈ accounts s', p.1 ≠ a
  noQuota : (quotas s').get? a = none
  noTarget : ∀ p ∈ aliases s', a ∉ p.2
  accountLines : lines s' accountsFilename =
    (lines s accountsFilename).filter fun l => (splitAccount l).1 ≠ a
  accountText : s' (configPath accountsFilename) =
    some (unlines ((lines s accountsFilename).filter fun l => (splitAccount l).1 ≠ a))
  otherQuotas : ∀ b, b ≠ a → (quotas s').get? b = (quotas s).get? b
  aliasLines : aliases s' = ((aliases s).filter fun p => ¬ Emptied a p).map (without a)
  otherSieve : ∀ b, b ≠ a → sieve s' b = sieve s b
  otherFiles : ∀ g,
    ¬ Touched (· ∈ [accountsFilename, quotasFilename, virtualFilename, sieveFilename a]) g →
      s' (configPath g) = s (configPath g)

theorem removed_deleted (s : Files) (a : Str) : Removed s (deleted s a) a where
  noAccount p hp := by
    rw [accounts, lines_deleted] at hp
    obtain ⟨l, hl, rfl⟩ := List.mem_map.mp hp
    simpa using (List.mem_filter.mp hl).2
  noQuota := by rw [get?_deleted, if_pos rfl]
  noTarget p hp := by
    rw [aliases_deleted] at hp
    obtain ⟨p₀, -, rfl⟩ := List.mem_map.mp hp
    simp [without]
  accountLines := lines_deleted s a
  accountText := deleted_accounts s a
  otherQuotas b hb := by rw [get?_deleted, if_neg hb]
  aliasLines := aliases_deleted s a
  otherSieve b hb := deleted_other s a (accounts_ne_sieve b).symm (quotas_ne_sieve b).symm
    (virtual_ne_sieve b).symm fun e => hb (sieveFilename_inj.mp e)
  otherFiles g hg := by
    have hne {f : Str} (hm : f ∈ [accountsFilename, quotasFilename, virtualFilename, sieveFilename a]) :
        g ≠ f ∧ g ≠ scratch f :=
      ⟨fun e => hg (.inl (e ▸ hm)), fun e => hg (.inr ⟨f, hm, e⟩)⟩
    have hother {f : Str} (hm : f ∈ [accountsFilename, quotasFilename, virtualFilename, sieveFilename a])
        (hf : ¬ ".tmp".toList <:+ f) : Unrelated g f :=
      ⟨(hne hm).1, (hne hm).2, ne_scratch hf g⟩
    exact deleted_other s a (hother (by simp) (by decide)) (hother (by simp) (by decide))
      (hother (by simp) (by decide)) (hne (by simp)).1

/-- Whatever the three files hold, `delete_mailbox` takes the account out of
them and leaves every other entry as it was. -/
theorem deletes_only (s s' : Files) (email : Str)
    (h : (deleteMailbox email).run box s = (.ok (), s')) :
    Removed s s' (normaliseEmail email) := by
  rw [run_deleteMailbox] at h
  simp only at h
  split at h
  · cases h
  · cases h
    exact removed_deleted s _

/-- Accounts, quotas and aliases as a person may have written them. -/
def handWritten : Files :=
  ((noFiles.write accountsFilename "# team\n a@x.org|h1 \nb@x.org|h2\nb@x.org|h2\n".toList).write
    quotasFilename "b@x.org:1G\na@x.org : 2G\nodd\n".toList).write
      virtualFilename "l@x.org a@x.org, b@x.org\nm@x.org A@x.org\nodd\nl@x.org b@x.org\n".toList

theorem deletes_only_handWritten :
    aliases (deleted handWritten "a@x.org".toList) =
        [("l@x.org".toList, ["b@x.org".toList]), ("odd".toList, []),
          ("l@x.org".toList, ["b@x.org".toList])] ∧
      Removed handWritten (deleted handWritten (normaliseEmail "A@x.org ".toList))
        (normaliseEmail "A@x.org ".toList) := by
  refine ⟨by decide +kernel, deletes_only handWritten _ "A@x.org ".toList ?_⟩
  rw [run_deleteMailbox]
  exact if_neg (by decide +kernel)

end MailserverUi.L4.MailboxDelete

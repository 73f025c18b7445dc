import MailserverUi.L4App.DkimBlocks

/-!
# A migration that fails

The keys are copied one by one, each as soon as it is read, and the signing
configuration comes last. A domain whose key is copied counts as migrated, so
that it is left out when the call is made again.

Results:
* `untouched_iff`: a call that raises leaves the config files as they were
  exactly when it does not get to its loop, or fails before the configuration is
  written and what it has copied was there already.
* `left_out`: a domain that is signed by no later call.
-/
namespace MailserverUi.L4.DkimFailure

open Py L1.DkimFiles L2.Container L2.ConfigTree L3.Dkim L3.Settings DkimBlocks

/-- No file has changed, every domain is still to be migrated, and a later call
that succeeds signs for it. -/
structure Untouched (t t' : Tree) : Prop where
  files : filesOf t' = filesOf t
  candidates : ∀ d ∈ candidatesOf t, d ∈ candidatesOf t'
  included : ∀ d ∈ candidatesOf t, ∀ load result t'',
    (migrateDkimToRspamd load).run treeBox t' = (.ok result, t'') →
      ∃ b ∈ signed t'', b.domain = d

section
variable (load : Str → PemKey) (t : Tree) (fails : Option Nat)

/-- A container command fails, after the first `n`, or the call itself
raises. -/
def MigrationRaises : Prop := (migrateDkimToRspamd load).Raises treeBox fails t

/-- The files a call leaves behind. -/
def afterMigration : Tree := (migrateDkimToRspamd load).stop treeBox fails t

/-- The files that are copied up to the failure. -/
def copiedBefore : List (Str × Str) :=
  match fails with
  | none => copiesOf load t (todo t)
  | some n => (copiesOf load t (todo t)).take (copiesDone (n - preamble t))

/-- The call is rejected, or it fails before it writes the configuration, and
each file it has copied was there with the same content, and none of its scratch
name. -/
def Harmless : Prop :=
  ¬ Accepted t ∨ Restores t (copiedBefore load t fails) ∧
    ((∀ k ∈ todo t, IsRsa load t k) → ∃ n, fails = some n ∧ n ≤ preamble t + 4 * (todo t).length)

end

section
variable {load : Str → PemKey} {t t' : Tree} {fails : Option Nat}

/-- What is unmigrated has a key. -/
theorem exists_key {d : Str} (h : d ∈ candidatesOf t) : ∃ k ∈ todo t, k.domain = d := by
  have hd := h
  unfold candidatesOf at hd
  split at hd
  · cases hd
  · have hm := (List.mem_insertionSort _).mp hd
    obtain ⟨k, hk, rfl⟩ := List.mem_map.mp (List.mem_dedup.mp (List.mem_filter.mp hm).1)
    exact ⟨k, List.mem_filter.mpr ⟨hk, by simpa using h⟩, rfl⟩

/-- A migration that succeeds signs for each candidate. -/
theorem signs_candidate {result : DkimMigrationResult}
    (h : (migrateDkimToRspamd load).run treeBox t = (.ok result, t')) {d : Str}
    (hd : d ∈ candidatesOf t) : ∃ b ∈ signed t', b.domain = d := by
  have ha := accepted_of_run h
  by_cases hrsa : ∀ k ∈ todo t, IsRsa load t k
  · obtain ⟨keys, hrun⟩ := run_migration ha hrsa
    rw [hrun] at h
    obtain ⟨k, hk, rfl⟩ := exists_key hd
    rw [← (Prod.mk.inj h).2, signed_signedTree]
    exact ⟨_, List.mem_map.mpr ⟨k, hk, rfl⟩, rfl⟩
  · obtain ⟨e, he⟩ := (stop_migration ha hrsa).1
    rw [h] at he
    cases he

theorem untouched_self (t : Tree) : Untouched t t :=
  ⟨rfl, fun _ hd => hd, fun _ hd _ _ _ h => signs_candidate h hd⟩

/-- Nothing but what is written counts. -/
theorem untouched_writeAll_iff {ws : List (Str × Str)}
    (hws : ∀ w ∈ ws, ∀ v ∈ ws, w.1 ≠ scratch v.1) :
    Untouched t (writeAll t ws) ↔ Restores t ws := by
  refine ⟨fun h => (filesOf_writeAll_iff hws).mp h.files, fun h => ?_⟩
  rw [writeAll_eq_self hws h]
  exact untouched_self t

/-- No key is copied to a scratch name. -/
theorem ne_scratch_copiedBefore : ∀ w ∈ copiedBefore load t fails,
    ∀ v ∈ copiedBefore load t fails, w.1 ≠ scratch v.1 := by
  intro w hw v _
  have hm : w ∈ copiesOf load t (todo t) := by
    unfold copiedBefore at hw
    split at hw
    · exact hw
    · exact List.mem_of_mem_take hw
  obtain ⟨k, -, rfl | rfl⟩ := mem_copiesOf hm
  · exact ne_scratch (privateCopy_plain _ k) v.1
  · exact ne_scratch (publicCopy_plain _ k) v.1

/-- The configuration was not there before. -/
theorem not_untouched_signedTree (ha : Accepted t) : ¬ Untouched t (signedTree load t) := by
  intro h
  have e : filesOf (signedTree load t) (configPath rspamdDkimSigningConf) =
      some (signingConf (blocksText load t (todo t))) := by
    rw [signedTree, filesOf_write, write_self]
  have hconf := ha.conf
  rw [h.files] at e
  rw [readRel, Files.read, e, Option.getD_some] at hconf
  have hne : ink (signingConf (blocksText load t (todo t))) ≠ [] := by
    rw [signingConf, ink_append, ink_append]
    exact List.append_ne_nil_of_left_ne_nil
      (List.append_ne_nil_of_left_ne_nil (by decide) _) _
  rw [← ink_universalNewlines, hconf] at hne
  exact hne rfl

/-- What a call leaves behind, failing or not. -/
theorem afterMigration_eq (ha : Accepted t) :
    afterMigration load t fails = signedTree load t ∧
        (∀ k ∈ todo t, IsRsa load t k) ∧
        (¬ ∃ n, fails = some n ∧ n ≤ preamble t + 4 * (todo t).length) ∨
      afterMigration load t fails = writeAll t (copiedBefore load t fails) ∧
        ((∀ k ∈ todo t, IsRsa load t k) →
          ∃ n, fails = some n ∧ n ≤ preamble t + 4 * (todo t).length) := by
  by_cases hrsa : ∀ k ∈ todo t, IsRsa load t k
  · cases fails with
    | none =>
      obtain ⟨keys, hrun⟩ := run_migration ha hrsa
      refine .inl ⟨?_, hrsa, fun ⟨n, hn, _⟩ => absurd hn (Option.some_ne_none n).symm⟩
      show ((migrateDkimToRspamd load).run treeBox t).2 = _
      rw [hrun]
    | some n =>
      have hcut := cut_migration ha hrsa n
      by_cases hn : n ≤ preamble t + 4 * (todo t).length
      · rw [if_pos hn] at hcut
        exact .inr ⟨hcut, fun _ => ⟨n, rfl, hn⟩⟩
      · rw [if_neg hn] at hcut
        exact .inl ⟨hcut, hrsa, fun ⟨m, hm, hle⟩ => hn (Option.some.inj hm ▸ hle)⟩
  · obtain ⟨-, hrun, hcut⟩ := stop_migration ha hrsa
    refine .inr ⟨?_, fun h => absurd h hrsa⟩
    cases fails with
    | none => exact hrun
    | some n => exact hcut n

/-- A call leaves everything as it was exactly when it is `Harmless`, wherever it
raises. One that succeeds is neither. -/
theorem untouched_iff (load : Str → PemKey) (t : Tree) (fails : Option Nat) :
    Untouched t (afterMigration load t fails) ↔ Harmless load t fails := by
  by_cases ha : Accepted t
  · rcases @afterMigration_eq load t fails ha with ⟨e, hrsa, hn⟩ | ⟨e, himp⟩
    · rw [e]
      refine ⟨fun h => absurd h (not_untouched_signedTree ha), ?_⟩
      rintro (h | ⟨-, h⟩)
      · exact absurd ha h
      · exact absurd (h hrsa) hn
    · rw [e, untouched_writeAll_iff ne_scratch_copiedBefore]
      refine ⟨fun h => .inr ⟨h, himp⟩, ?_⟩
      rintro (h | ⟨h, -⟩)
      · exact absurd ha h
      · exact h
  · have e : afterMigration load t fails = t := (always_rejection load ha).stop fails
    rw [e]
    exact ⟨fun _ => .inl ha, fun _ => untouched_self t⟩

end

/-! ## A key that is missing -/

/-- The second of two domains has a public record only. -/
def missingKey : Tree :=
  (treeWith [("a.org", "mail"), ("b.org", "mail")]).erase
    (configPath "opendkim/keys/b.org/mail.private".toList)

/-- An empty text is no key. -/
def nonEmpty : Str → PemKey := fun pem => if pem = [] then .raises else .rsa 2048

/-- The tree after the call has raised, with the missing key put back. -/
def repaired : Tree :=
  writeTree (afterMigration nonEmpty missingKey none) "opendkim/keys/b.org/mail.private".toList
    "b.orgmail".toList

/-- The call raises at the second domain. The first is no longer to be migrated,
and the next call, which succeeds, signs for the second only. -/
theorem left_out :
    MigrationRaises nonEmpty missingKey none ∧
      candidatesOf missingKey = ["a.org".toList, "b.org".toList] ∧
      candidatesOf (afterMigration nonEmpty missingKey none) = ["b.org".toList] ∧
      ¬ Untouched missingKey (afterMigration nonEmpty missingKey none) ∧
      ((migrateDkimToRspamd nonEmpty).run treeBox repaired).1.toOption.isSome = true ∧
      (signed ((migrateDkimToRspamd nonEmpty).run treeBox repaired).2).map (·.domain) =
        ["b.org".toList] := by
  have hbefore : candidatesOf missingKey = ["a.org".toList, "b.org".toList] := by decide +kernel
  have hafter : candidatesOf (afterMigration nonEmpty missingKey none) = ["b.org".toList] := by
    decide +kernel
  refine ⟨.inr ⟨.internal, by decide +kernel⟩, hbefore, hafter, fun h => ?_, by decide +kernel,
    by decide +kernel⟩
  have hm := h.candidates "a.org".toList (by rw [hbefore]; decide)
  rw [hafter] at hm
  exact absurd hm (by decide)

end MailserverUi.L4.DkimFailure

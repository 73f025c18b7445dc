import MailserverUi.L3Service.Dkim

/-!
# What a migration signs with

The blocks of `dkim_signing.conf` are made key by key, while the domains are
chosen as a set. A domain with two selectors gets two blocks. The name of a
copied file joins a selector and a domain with a hyphen, which either may hold,
so that two keys may have one file.

Results:
* `signs_iff`: after a successful migration each domain has one block, which
  names its key, exactly when each has one key and keys that share a file are
  the same.
* `two_selectors`: a domain with two blocks.
-/
namespace MailserverUi.L4.DkimBlocks

open Py L1.DkimFiles L2.Container L2.ConfigTree L3.Dkim L3.Settings

/-- The blocks of the signing configuration. -/
def signed (t : Tree) : List Block :=
  blocksOf ((filesOf t (configPath rspamdDkimSigningConf)).getD [])

/-- The private key of OpenDKIM for a domain and a selector. -/
def privateText (t : Tree) (domain selector : Str) : Str :=
  readRel t (opendkimKeysDir ++ '/' :: domain ++ '/' :: selector ++ ".private".toList)

/-- From `t` to `t'`, each domain that is reported gets one block, nothing else
does, and each block has the path of a file for its domain and selector, with
their private key in it. -/
structure Signs (t t' : Tree) (result : DkimMigrationResult) : Prop where
  one : ∀ d, ((signed t').filter (·.domain = d)).length =
    if d ∈ result.migratedDomains then 1 else 0
  named : ∀ b ∈ signed t',
    (∃ size, b.path = configPath (rspamdDkimDir ++ '/' :: baseName size b.selector b.domain ++
      privateSuffix)) ∧
      filesOf t' b.path = some (privateText t b.domain b.selector)

/-- Each domain to migrate has one key. -/
def OneKeyEach (t : Tree) : Prop :=
  ∀ d ∈ candidatesOf t, ((opendkimKeysOf t).filter (·.domain = d)).length = 1

/-- Keys to migrate that are copied to one file have the same private key. -/
def Apart (load : Str → PemKey) (t : Tree) : Prop :=
  ∀ k ∈ todo t, ∀ k' ∈ todo t,
    privateCopy (keySizeOf load t k) k = privateCopy (keySizeOf load t k') k' → pemOf t k = pemOf t k'

section
variable {load : Str → PemKey} {t t' : Tree} {result : DkimMigrationResult}

/-! ## The blocks -/

/-- Names come from the output of `find`, line by line. -/
theorem oneLine_of_mem_opendkimKeysOf {k : DkimKey} (h : k ∈ opendkimKeysOf t) :
    OneLine k.domain ∧ OneLine k.selector := by
  obtain ⟨rel, hrel, hk⟩ := List.mem_filterMap.mp h
  have ho := oneLine_of_mem_listConfigFiles hrel
  obtain ⟨⟨domain, selector⟩, hn, rfl⟩ := Option.map_eq_some_iff.mp hk
  unfold openDkimName at hn
  split at hn
  · obtain ⟨rfl, rfl⟩ := Prod.mk.inj (Option.some.inj hn)
    exact ⟨ho.mono fun c hc => before_subset hc,
      ho.mono fun c hc => after_subset (List.mem_of_mem_take hc)⟩
  · cases hn

theorem isBlock_keyBlock {k : DkimKey} (size : Nat) (h : k ∈ opendkimKeysOf t) :
    IsBlock (keyBlock size k) := by
  obtain ⟨hd, hs⟩ := oneLine_of_mem_opendkimKeysOf h
  refine ⟨hd, ?_, hs⟩
  have hdir : OneLine (configPath rspamdDkimDir) := by decide
  have hpath {p q r s : Str} (hp : OneLine (p ++ q)) (hr : OneLine r) (hs : OneLine s) :
      OneLine (p ++ (q ++ '/' :: r ++ s)) := by
    have e : p ++ (q ++ '/' :: r ++ s) = (p ++ q) ++ ['/'] ++ r ++ s := by simp
    rw [e]
    exact ((hp.append (by decide)).append hr).append hs
  exact hpath hdir (oneLine_baseName size hs hd) (by decide)

theorem signed_signedTree (load : Str → PemKey) (t : Tree) :
    signed (signedTree load t) = (todo t).map fun k => keyBlock (keySizeOf load t k) k := by
  have e : filesOf (signedTree load t) (configPath rspamdDkimSigningConf) =
      some (signingConf (blocksText load t (todo t))) := by
    rw [signedTree, filesOf_write, write_self]
  rw [signed, e, Option.getD_some, blocksText]
  refine blocksOf_signingConf fun b hb => ?_
  obtain ⟨k, hk, rfl⟩ := List.mem_map.mp hb
  exact isBlock_keyBlock _ (List.mem_of_mem_filter hk)

theorem length_signed (d : Str) :
    ((signed (signedTree load t)).filter (·.domain = d)).length =
      if d ∈ candidatesOf t then ((opendkimKeysOf t).filter (·.domain = d)).length else 0 := by
  rw [signed_signedTree, List.filter_map, List.length_map, todo, List.filter_filter]
  by_cases hd : d ∈ candidatesOf t
  · rw [if_pos hd]
    congr 1
    refine List.filter_congr fun k _ => ?_
    by_cases hk : k.domain = d
    · simp [keyBlock, hk, hd]
    · simp [keyBlock, hk]
  · rw [if_neg hd, List.length_eq_zero_iff, List.filter_eq_nil_iff]
    intro k _ h
    have h : k.domain = d ∧ k.domain ∈ candidatesOf t := by simpa [keyBlock] using h
    exact hd (h.1 ▸ h.2)

/-! ## The files -/

theorem mem_copiesOf {ks : List DkimKey} {w : Str × Str} (h : w ∈ copiesOf load t ks) :
    ∃ k ∈ ks, w = (privateCopy (keySizeOf load t k) k, pemOf t k) ∨
      w = (publicCopy (keySizeOf load t k) k, txtOf t k) := by
  induction ks with
  | nil => cases h
  | cons k ks ih =>
    unfold copiesOf at h
    split at h
    · rename_i size hl
      have hs : keySizeOf load t k = size := by rw [keySizeOf, hl]
      rw [← hs] at h
      rcases List.mem_cons.mp h with rfl | h
      · exact ⟨k, List.mem_cons_self, .inl rfl⟩
      · rcases List.mem_cons.mp h with rfl | h
        · exact ⟨k, List.mem_cons_self, .inr rfl⟩
        · obtain ⟨k', hk', hw⟩ := ih h
          exact ⟨k', List.mem_cons_of_mem _ hk', hw⟩
    · cases h

theorem mem_copiesOf_private {ks : List DkimKey} (h : ∀ k ∈ ks, IsRsa load t k) {k : DkimKey}
    (hk : k ∈ ks) : (privateCopy (keySizeOf load t k) k, pemOf t k) ∈ copiesOf load t ks := by
  induction ks with
  | nil => cases hk
  | cons k' ks ih =>
    obtain ⟨hrsa, hall⟩ := List.forall_mem_cons.mp h
    rw [copiesOf, hrsa]
    rcases List.mem_cons.mp hk with rfl | hk
    · exact List.mem_cons_self
    · exact List.mem_cons_of_mem _ (List.mem_cons_of_mem _ (ih hall hk))

/-- A private and a public file end differently. -/
theorem privateCopy_ne_publicCopy (n m : Nat) (k k' : DkimKey) : privateCopy n k ≠ publicCopy m k' := by
  intro e
  have h₁ : publicSuffix <:+ privateCopy n k := e ▸ List.suffix_append _ _
  have h₂ : privateSuffix <:+ privateCopy n k := List.suffix_append _ _
  have h := List.suffix_of_suffix_length_le h₁ h₂ (by decide)
  exact absurd h (by decide)

/-- A private key that is copied ends up in a file with the private key of a
key that has the same file. -/
theorem lastWrite_private (h : ∀ k ∈ todo t, IsRsa load t k) {k : DkimKey} (hk : k ∈ todo t) :
    ∃ k' ∈ todo t, privateCopy (keySizeOf load t k) k = privateCopy (keySizeOf load t k') k' ∧
      lastWrite (copiesOf load t (todo t)) (configPath (privateCopy (keySizeOf load t k) k)) =
        some (pemOf t k') := by
  obtain ⟨c, hc⟩ := Option.ne_none_iff_exists'.mp (lastWrite_isSome (mem_copiesOf_private h hk))
  obtain ⟨f, hf, he⟩ := mem_of_lastWrite hc
  have he := configPath_inj.mp he
  obtain ⟨k', hk', e | e⟩ := mem_copiesOf hf
  · obtain ⟨h₁, h₂⟩ := Prod.mk.inj e
    exact ⟨k', hk', he.symm.trans h₁, by rw [hc, h₂]⟩
  · exact absurd (he.symm.trans (Prod.mk.inj e).1) (privateCopy_ne_publicCopy _ _ _ _)

/-- A file that a key is copied to is not the signing configuration. -/
theorem unrelated_copy {f tail : Str} (hf : f = rspamdDkimDir ++ '/' :: tail)
    (hplain : ¬ ".tmp".toList <:+ f) : Unrelated f rspamdDkimSigningConf := by
  refine unrelated_of_ne (fun e => ?_) hplain (by decide)
  have hpre : List.IsPrefix rspamdDkimDir f := ⟨'/' :: tail, hf.symm⟩
  rw [e] at hpre
  exact absurd hpre (by decide)

/-- What the whole call leaves in such a file. -/
theorem filesOf_signedTree {f tail : Str} (hf : f = rspamdDkimDir ++ '/' :: tail)
    (hplain : ¬ ".tmp".toList <:+ f) :
    filesOf (signedTree load t) (configPath f) =
      (lastWrite (copiesOf load t (todo t)) (configPath f)).or (filesOf t (configPath f)) := by
  have hu := unrelated_copy hf hplain
  rw [signedTree, filesOf_write, write_ne _ hu.ne hu.left]
  exact filesOf_writeAll fun w _ e => ne_scratch hplain w.1 (configPath_inj.mp e)

theorem named_iff (h : ∀ k ∈ todo t, IsRsa load t k) :
    (∀ k ∈ todo t, filesOf (signedTree load t) (configPath (privateCopy (keySizeOf load t k) k)) =
      some (pemOf t k)) ↔ Apart load t := by
  constructor
  · intro hall k hk k' hk' e
    have h₁ := hall k hk
    rw [e, hall k' hk'] at h₁
    exact (Option.some.inj h₁).symm
  · intro hap k hk
    obtain ⟨k', hk', e, hlast⟩ := lastWrite_private h hk
    rw [filesOf_signedTree (List.append_assoc _ _ _) (privateCopy_plain _ k), hlast,
      Option.some_or, hap k hk k' hk' e]

/-! ## A successful migration -/

/-- The blocks are those of the domains, each once and with its key, exactly
when each domain has one key and no two keys are copied over each other. -/
theorem signs_iff (load : Str → PemKey) (t t' : Tree) (result : DkimMigrationResult)
    (h : (migrateDkimToRspamd load).run treeBox t = (.ok result, t')) :
    Signs t t' result ↔ OneKeyEach t ∧ Apart load t := by
  have ha := accepted_of_run h
  have hrsa : ∀ k ∈ todo t, IsRsa load t k := by
    by_contra hn
    obtain ⟨e, he⟩ := (stop_migration ha hn).1
    rw [h] at he
    cases he
  obtain ⟨keys, hrun⟩ := run_migration ha hrsa
  rw [hrun] at h
  obtain ⟨hres, ht⟩ := Prod.mk.inj h
  have hres := (Except.ok.inj hres).symm
  subst hres
  rw [← ht, ← named_iff hrsa]
  constructor
  · intro hs
    refine ⟨fun d hd => ?_, fun k hk => ?_⟩
    · have := hs.one d
      rwa [length_signed, if_pos hd, if_pos hd] at this
    · have hb : keyBlock (keySizeOf load t k) k ∈ signed (signedTree load t) := by
        rw [signed_signedTree]
        exact List.mem_map.mpr ⟨k, hk, rfl⟩
      exact (hs.named _ hb).2
  · rintro ⟨hone, hnamed⟩
    refine ⟨fun d => ?_, fun b hb => ?_⟩
    · rw [length_signed]
      by_cases hd : d ∈ candidatesOf t
      · rw [if_pos hd, if_pos hd, hone d hd]
      · rw [if_neg hd, if_neg hd]
    · rw [signed_signedTree] at hb
      obtain ⟨k, hk, rfl⟩ := List.mem_map.mp hb
      exact ⟨⟨_, rfl⟩, hnamed k hk⟩

end

/-! ## Two keys -/

/-- A tree with Rspamd enabled, and the private and public files of these
OpenDKIM keys, named by domain and selector. -/
def treeWith (names : List (String × String)) : Tree :=
  Dict.ofPairs ((dmsSettingsPath, "ENABLE_RSPAMD=1\n".toList) :: names.flatMap fun n =>
    let file := opendkimKeysDir ++ '/' :: n.1.toList ++ '/' :: n.2.toList
    [(configPath (file ++ ".private".toList), n.1.toList ++ n.2.toList),
      (configPath (file ++ txtSuffix), n.2.toList ++ "._domainkey IN TXT p=AB".toList)])

/-- Every text is an RSA key of 2048 bits. -/
def rsaKeys : Str → PemKey := fun _ => .rsa 2048

/-- The tree after the migration. -/
def migrated (t : Tree) : Tree := ((migrateDkimToRspamd rsaKeys).run treeBox t).2

def twoDomains : Tree := treeWith [("a.org", "mail"), ("b.org", "mail")]

theorem signs_iff_two_domains :
    ∃ result, (migrateDkimToRspamd rsaKeys).run treeBox twoDomains = (.ok result, migrated twoDomains) ∧
      result.migratedDomains = ["a.org".toList, "b.org".toList] ∧
      Signs twoDomains (migrated twoDomains) result := by
  have hdomains : ((migrateDkimToRspamd rsaKeys).run treeBox twoDomains).1.toOption.map
      (·.migratedDomains) = some ["a.org".toList, "b.org".toList] := by decide +kernel
  have hplan : OneKeyEach twoDomains ∧ Apart rsaKeys twoDomains := by
    unfold OneKeyEach Apart
    decide +kernel
  obtain ⟨result, hr, hd⟩ := Option.map_eq_some_iff.mp hdomains
  have hrun : (migrateDkimToRspamd rsaKeys).run treeBox twoDomains =
      (.ok result, migrated twoDomains) := Prod.ext (eq_ok_of_toOption hr) rfl
  exact ⟨result, hrun, hd, (signs_iff rsaKeys _ _ result hrun).mpr hplan⟩

/-- The keys of one domain, as a rotation leaves them. -/
def oneDomain : Tree := treeWith [("a.org", "mail"), ("a.org", "new")]

/-- The migration succeeds, and there are two blocks for the domain. -/
theorem two_selectors :
    (((migrateDkimToRspamd rsaKeys).run treeBox oneDomain).1.toOption.map (·.migratedDomains)) =
        some ["a.org".toList] ∧
      signed (migrated oneDomain) =
        [⟨"a.org".toList, configPath "rspamd/dkim/rsa-2048-mail-a.org.private.txt".toList,
          "mail".toList⟩,
        ⟨"a.org".toList, configPath "rspamd/dkim/rsa-2048-new-a.org.private.txt".toList,
          "new".toList⟩] ∧
      ∀ result, ¬ Signs oneDomain (migrated oneDomain) result := by
  have hsigned : signed (migrated oneDomain) =
      [⟨"a.org".toList, configPath "rspamd/dkim/rsa-2048-mail-a.org.private.txt".toList,
        "mail".toList⟩,
      ⟨"a.org".toList, configPath "rspamd/dkim/rsa-2048-new-a.org.private.txt".toList,
        "new".toList⟩] := by decide +kernel
  refine ⟨by decide +kernel, hsigned, fun result h => ?_⟩
  have hone := h.one "a.org".toList
  rw [hsigned, List.filter_cons_of_pos (by simp), List.filter_cons_of_pos (by simp)] at hone
  split at hone <;> cases hone

end MailserverUi.L4.DkimBlocks

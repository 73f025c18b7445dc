import MailserverUi.L1Encoding.DkimNames
import MailserverUi.L3Service.DkimGenerate
import MailserverUi.L4App.DkimBlocks

/-!
# DKIM records read back from their file names

A record under `rspamd/dkim` is listed under the selector it begins with and
the domain that its file name has behind that selector; a migration writes such
files.

Results:
* `listedAs_iff`: when a record is listed under the selector and the domain of
  its name.
* `readBack_iff`: when a key that was migrated is.
* `names_iff`: both.
-/
namespace MailserverUi.L4.DkimReadBack

open Py L1.DkimFiles L1.DkimNames L2.Container L2.ConfigTree L3.Dkim L3.DkimGenerate L3.Settings
open DkimBlocks

/-- The listing has an entry for the file, under this domain and selector. -/
def ListedAs (t : Tree) (rel domain selector : Str) : Prop :=
  rel ∈ rspamdRels t ∧
    rspamdName rel (readRel t (rspamdDkimDir ++ '/' :: rel)) = some (domain, selector)

/-- The key of the entry is among those that are listed. -/
theorem ListedAs.mem {t : Tree} {rel domain selector : Str} (h : ListedAs t rel domain selector) :
    dkimKey domain selector (readRel t (rspamdDkimDir ++ '/' :: rel)) ∈ rspamdKeysOf t := by
  refine List.mem_filterMap.mpr ⟨rel, h.1, ?_⟩
  dsimp only
  rw [h.2]
  rfl

/-- Its domain is none to migrate. -/
theorem ListedAs.not_candidate {t : Tree} {rel domain selector : Str}
    (h : ListedAs t rel domain selector) : domain ∉ candidatesOf t := by
  unfold candidatesOf
  split
  · exact List.not_mem_nil
  · intro hm
    rw [unmigrated, List.mem_insertionSort, List.mem_filter, decide_eq_true_eq] at hm
    exact hm.2 (List.mem_map.mpr ⟨_, h.mem, rfl⟩)

/-! ## Tokens -/

/-- `_DKIM_TOKEN_RE.match(s)`; `$` also matches before a final newline. -/
def matchesDkimToken (s : Str) : Prop :=
  isDkimToken s = true ∨ ∃ token, isDkimToken token = true ∧ s = token ++ ['\n']

theorem token_ne_nil {s : Str} (h : isDkimToken s = true) : s ≠ [] := by
  rw [isDkimToken, Bool.and_eq_true, decide_eq_true_eq] at h
  exact h.1

theorem noSpace_token {s : Str} (h : isDkimToken s = true) : NoSpace s := by
  intro c hc
  rw [isDkimToken, Bool.and_eq_true, List.all_eq_true] at h
  rcases Bool.or_eq_true_iff.mp (h.2 c hc) with ha | hm
  · have hr := isAlphanum_range ha
    exact isSpace_of_range (by omega) (by omega)
  · have hm := of_decide_eq_true hm
    simp only [List.mem_cons, List.not_mem_nil, or_false] at hm
    rcases hm with rfl | rfl <;> decide

/-- Without a line break it is a token. -/
theorem matchesDkimToken.token {s : Str} (h : matchesDkimToken s) (ho : OneLine s) :
    isDkimToken s = true := by
  rcases h with h | ⟨token, -, rfl⟩
  · exact h
  · have hbreak : isBreak '\n' = false := ho '\n' (List.mem_append_right _ List.mem_cons_self)
    exact absurd hbreak (by decide)

/-! ## A record and its name -/

section
variable {keytype selector domain : Str} {keysize : Option Str}

/-- The parts of a name are in the name. -/
theorem oneLine_stem : OneLine (stem keytype keysize selector domain) ↔
    OneLine keytype ∧ (∀ k ∈ keysize, OneLine k) ∧ OneLine selector ∧ OneLine domain := by
  have happ {a b : Str} : OneLine (a ++ b) ↔ OneLine a ∧ OneLine b :=
    ⟨fun h => ⟨h.mono fun _ hc => List.mem_append_left _ hc,
      h.mono fun _ hc => List.mem_append_right _ hc⟩, fun h => h.1.append h.2⟩
  have hcons {a : Str} : OneLine ('-' :: a) ↔ OneLine a := by
    rw [show '-' :: a = ['-'] ++ a from rfl, happ]
    exact and_iff_right (by decide)
  unfold stem
  rw [happ, happ, happ, hcons, hcons, and_assoc, and_assoc]
  refine and_congr_right fun _ => and_congr_left fun _ => ?_
  cases keysize with
  | none => simp [OneLine]
  | some k => simp [hcons]

/-- The file of a record: its name is made of the parts, and its content begins
with the selector's record name and a blank. A key type and a key size hold no
hyphen. -/
structure IsRecord (t : Tree) (keytype : Str) (keysize : Option Str) (selector domain : Str) :
    Prop where
  keytype_plain : '-' ∉ keytype ∧ OneLine keytype
  keysize_plain : ∀ k ∈ keysize, '-' ∉ k ∧ OneLine k
  selector_token : matchesDkimToken selector
  domain_token : matchesDkimToken domain
  content : ∃ c rest, isSpace c = true ∧
    filesOf t (configPath (rspamdDkimDir ++ '/' :: (stem keytype keysize selector domain ++
      publicSuffix))) = some (selector ++ recordSuffix ++ c :: rest)

/-- The blank behind a record name stays one when the text is read. -/
theorem universalNewlines_record (hs : NoSpace selector) {c : Char} (hc : isSpace c = true)
    (rest : Str) : ∃ d more, isSpace d = true ∧
      universalNewlines (selector ++ recordSuffix ++ c :: rest) =
        selector ++ recordSuffix ++ d :: more := by
  have hcr : '\r' ∉ selector ++ recordSuffix := by
    intro hm
    rcases List.mem_append.mp hm with hm | hm
    · exact absurd (hs _ hm) (by decide)
    · exact absurd hm (by decide)
  rw [universalNewlines_append _ hcr]
  by_cases hb : isBreak c = true
  · obtain ⟨d, more, e, hd, -⟩ := universalNewlines_break rest hb
    exact ⟨d, more, isSpace_of_isBreak hd, by rw [e]⟩
  · have hne : c ≠ '\r' := by
      rintro rfl
      exact hb (by decide)
    have hhead := head?_universalNewlines (s := c :: rest) rfl hne
    obtain ⟨more, e⟩ := List.head?_eq_some_iff.mp hhead
    exact ⟨c, more, hc, by rw [e]⟩

theorem listedAs_iff {t : Tree} (h : IsRecord t keytype keysize selector domain) :
    ListedAs t (stem keytype keysize selector domain ++ publicSuffix) domain selector ↔
      isDkimToken selector = true ∧ isDkimToken domain = true ∧
        ∀ k ∈ keysize, ¬ Repeats k selector := by
  obtain ⟨hkt, hks, hsel, hdom, c, rest, hc, hfile⟩ := h
  have hraw : readRel t (rspamdDkimDir ++ '/' :: (stem keytype keysize selector domain ++
      publicSuffix)) = universalNewlines (selector ++ recordSuffix ++ c :: rest) := by
    rw [readRel, Files.read, hfile]
    rfl
  have hstem := afterText_stem keysize hkt.1 (fun k hk => (hks k hk).1) selector domain
  unfold ListedAs
  constructor
  · rintro ⟨hrel, hname⟩
    have ho := oneLine_of_mem_listConfigFiles hrel
    have ho := oneLine_stem.mp (ho.mono fun _ hm => List.mem_append_left _ hm)
    have hd := hdom.token ho.2.2.2
    exact ⟨hsel.token ho.2.2.1, hd, hstem.mp ((rspamdName_iff (token_ne_nil hd)).mp hname).2⟩
  · rintro ⟨hs, hd, hrep⟩
    have ho : OneLine (stem keytype keysize selector domain ++ publicSuffix) :=
      (oneLine_stem.mpr ⟨hkt.2, fun k hk => (hks k hk).2, (noSpace_token hs).oneLine,
        (noSpace_token hd).oneLine⟩).append (by decide)
    obtain ⟨d, more, hsp, hun⟩ := universalNewlines_record (noSpace_token hs) hc rest
    refine ⟨mem_listConfigFiles_suffix (by decide) ho (by decide) ?_, ?_⟩
    · rw [hfile]
      exact Option.some_ne_none _
    · rw [rspamdName_iff (token_ne_nil hd), hraw, hun]
      exact ⟨recordSelector_eq (token_ne_nil hs) (noSpace_token hs) hsp more, hstem.mpr hrep⟩

end

/-! ## Keys that were migrated -/

section
variable {load : Str → PemKey} {t t' : Tree} {k : DkimKey}

theorem baseName_eq (size : Nat) (selector domain : Str) :
    baseName size selector domain = stem "rsa".toList (some (str size)) selector domain := by
  simp [baseName, stem]

/-- The file a key is copied to, as it is listed. -/
def copyRel (load : Str → PemKey) (t : Tree) (k : DkimKey) : Str :=
  baseName (keySizeOf load t k) k.selector k.domain ++ publicSuffix

def copyFile (load : Str → PemKey) (t : Tree) (k : DkimKey) : Str :=
  publicCopy (keySizeOf load t k) k

/-- The key that is copied last to the file of a key. -/
def lastTo (load : Str → PemKey) (t : Tree) (k : DkimKey) : Option DkimKey :=
  (todo t).reverse.find? fun k' => copyFile load t k' = copyFile load t k

theorem copiesOf_append {ks : List DkimKey} (h : ∀ k ∈ ks, IsRsa load t k) (ls : List DkimKey) :
    copiesOf load t (ks ++ ls) = copiesOf load t ks ++ copiesOf load t ls := by
  induction ks with
  | nil => rfl
  | cons k ks ih =>
    obtain ⟨hk, hks⟩ := List.forall_mem_cons.mp h
    rw [List.cons_append, copiesOf, copiesOf, hk]
    simp only [ih hks, List.cons_append]

/-- What is written last to the public copy of a key. -/
theorem lastWrite_public {ks : List DkimKey} (h : ∀ k ∈ ks, IsRsa load t k) (k : DkimKey) :
    lastWrite (copiesOf load t ks) (configPath (copyFile load t k)) =
      (ks.reverse.find? fun k' => copyFile load t k' = copyFile load t k).map (txtOf t) := by
  induction ks using List.reverseRecOn with
  | nil => rfl
  | append_singleton ks k' ih =>
    have hks : ∀ k ∈ ks, IsRsa load t k := fun x hx => h x (List.mem_append_left _ hx)
    have hk' : load (pemOf t k') = .rsa (keySizeOf load t k') :=
      h k' (List.mem_append_right _ List.mem_cons_self)
    have hone : copiesOf load t [k'] = [(privateCopy (keySizeOf load t k') k', pemOf t k'),
        (copyFile load t k', txtOf t k')] := by
      rw [copiesOf, hk']
      rfl
    have hprivate : configPath (privateCopy (keySizeOf load t k') k') ≠
        configPath (copyFile load t k) := fun e =>
      privateCopy_ne_publicCopy _ _ _ _ (configPath_inj.mp e)
    rw [copiesOf_append hks, hone, lastWrite, List.reverse_append, List.reverse_concat,
      List.find?_cons]
    have hrev : [(privateCopy (keySizeOf load t k') k', pemOf t k'),
        (copyFile load t k', txtOf t k')].reverse = [(copyFile load t k', txtOf t k'),
          (privateCopy (keySizeOf load t k') k', pemOf t k')] := rfl
    rw [hrev, List.cons_append, List.find?_cons]
    by_cases he : copyFile load t k' = copyFile load t k
    · simp [he]
    · have hp : ¬ configPath (copyFile load t k') = configPath (copyFile load t k) :=
        fun e => he (configPath_inj.mp e)
      simp only [hp, he, decide_false, List.singleton_append, List.find?_cons, hprivate]
      exact ih hks

theorem copyFile_eq (load : Str → PemKey) (t : Tree) (k : DkimKey) :
    copyFile load t k = rspamdDkimDir ++ '/' :: copyRel load t k := by
  rw [copyFile, publicCopy, copyRel, List.append_assoc, List.cons_append]

/-- The copy of a key holds the record of the key that was copied there last. -/
theorem file_copy (h : ∀ k ∈ todo t, IsRsa load t k) (hk : k ∈ todo t) :
    ∃ k', lastTo load t k = some k' ∧
      filesOf (signedTree load t) (configPath (copyFile load t k)) = some (txtOf t k') := by
  obtain ⟨k', hk'⟩ : ∃ k', lastTo load t k = some k' := by
    rw [← Option.isSome_iff_exists, lastTo, List.find?_isSome]
    exact ⟨k, List.mem_reverse.mpr hk, decide_eq_true rfl⟩
  refine ⟨k', hk', ?_⟩
  rw [filesOf_signedTree (copyFile_eq load t k) (publicCopy_plain _ k), lastWrite_public h]
  change ((lastTo load t k).map (txtOf t)).or _ = _
  rw [hk']
  rfl

/-- A key that a successful migration copies, from a record that begins with
its selector's record name and a blank. -/
structure IsMigrated (load : Str → PemKey) (t t' : Tree) (k : DkimKey) : Prop where
  run : ∃ result, (migrateDkimToRspamd load).run treeBox t = (.ok result, t')
  copied : k ∈ todo t
  selector_token : matchesDkimToken k.selector
  domain_token : matchesDkimToken k.domain
  record : ∃ c rest, isSpace c = true ∧ txtOf t k = k.selector ++ recordSuffix ++ c :: rest

/-- No key with another selector is copied over this one. -/
def Kept (load : Str → PemKey) (t : Tree) (k : DkimKey) : Prop :=
  ∀ k', lastTo load t k = some k' → k' = k ∨ recordSelector (txtOf t k') = some k.selector

theorem readBack_iff (h : IsMigrated load t t' k) :
    (ListedAs t' (copyRel load t k) k.domain k.selector ∧ k.domain ∉ candidatesOf t') ↔
      ¬ Repeats (str (keySizeOf load t k)) k.selector ∧ Kept load t k := by
  obtain ⟨⟨result, hrun⟩, hk, hsel, hdom, c, rest, hc, hrecord⟩ := h
  have ha := accepted_of_run hrun
  have hrsa : ∀ k ∈ todo t, IsRsa load t k := by
    by_contra hn
    obtain ⟨e, he⟩ := (stop_migration ha hn).1
    rw [hrun] at he
    cases he
  obtain ⟨keys, hmig⟩ := run_migration ha hrsa
  obtain rfl : signedTree load t = t' := congrArg Prod.snd (hmig.symm.trans hrun)
  obtain ⟨hod, hos⟩ := oneLine_of_mem_opendkimKeysOf (List.mem_of_mem_filter hk)
  have hs := hsel.token hos
  have hd := hdom.token hod
  obtain ⟨k', hlast, hfile⟩ := file_copy hrsa hk
  have hread : readRel (signedTree load t) (copyFile load t k) = txtOf t k' := by
    rw [readRel, Files.read, hfile]
    exact universalNewlines_eq_self (not_mem_universalNewlines _)
  rw [copyFile_eq] at hfile hread
  have hstem := afterText_stem (some (str (keySizeOf load t k))) (by decide : '-' ∉ "rsa".toList)
    (fun n hn => Option.some.inj hn ▸ not_mem_str (by decide) _) k.selector k.domain
  have hrel : copyRel load t k ∈ rspamdRels (signedTree load t) := by
    have ho := (oneLine_baseName (keySizeOf load t k) hos hod).append
      (by decide : OneLine publicSuffix)
    refine mem_listConfigFiles_suffix (by decide) ho (by decide) ?_
    change filesOf _ (configPath (rspamdDkimDir ++ '/' :: copyRel load t k)) ≠ none
    rw [hfile]
    exact Option.some_ne_none _
  have hlisted : ListedAs (signedTree load t) (copyRel load t k) k.domain k.selector ↔
      recordSelector (txtOf t k') = some k.selector ∧
        ¬ Repeats (str (keySizeOf load t k)) k.selector := by
    rw [ListedAs, and_iff_right hrel, hread, copyRel, baseName_eq,
      rspamdName_iff (token_ne_nil hd), hstem]
    simp
  have hown : recordSelector (txtOf t k) = some k.selector := by
    rw [hrecord]
    exact recordSelector_eq (token_ne_nil hs) (noSpace_token hs) hc rest
  constructor
  · rintro ⟨hl, -⟩
    obtain ⟨hrec, hrep⟩ := hlisted.mp hl
    refine ⟨hrep, fun k'' hk'' => .inr ?_⟩
    rw [hlast] at hk''
    exact Option.some.inj hk'' ▸ hrec
  · rintro ⟨hrep, hkept⟩
    have hrec : recordSelector (txtOf t k') = some k.selector := by
      rcases hkept k' hlast with rfl | hrec
      · exact hown
      · exact hrec
    have hl := hlisted.mpr ⟨hrec, hrep⟩
    exact ⟨hl, hl.not_candidate⟩

end

/-- A record is listed under the selector and the domain of its name exactly
when neither ends in a line break and the selector does not repeat the key
size; and a migrated key is read back, and its domain migrated, exactly when
its selector does not repeat the key size and no key with another selector was
copied over it. -/
theorem names_iff (t : Tree) :
    (∀ keytype keysize selector domain, IsRecord t keytype keysize selector domain →
      (ListedAs t (stem keytype keysize selector domain ++ publicSuffix) domain selector ↔
        isDkimToken selector = true ∧ isDkimToken domain = true ∧
          ∀ k ∈ keysize, ¬ Repeats k selector)) ∧
    ∀ load t' k, IsMigrated load t t' k →
      ((ListedAs t' (copyRel load t k) k.domain k.selector ∧ k.domain ∉ candidatesOf t') ↔
        ¬ Repeats (str (keySizeOf load t k)) k.selector ∧ Kept load t k) :=
  ⟨fun _ _ _ _ h => listedAs_iff h, fun _ _ _ h => readBack_iff h⟩

/-! ## Keys -/

/-- A tree with one record under `rspamd/dkim`. -/
def recordTree (keysize selector domain : Str) : Tree :=
  Dict.ofPairs [(dmsSettingsPath, "ENABLE_RSPAMD=1\n".toList),
    (configPath (rspamdDkimDir ++ '/' :: (stem "rsa".toList (some keysize) selector domain ++
      publicSuffix)), selector ++ recordSuffix ++ " IN TXT p=AB".toList)]

def mailRecord : Tree := recordTree "2048".toList "mail".toList "x.org".toList

/-- The key of the first of two domains. -/
def firstKey : DkimKey :=
  dkimKey "a.org".toList "mail".toList "mail._domainkey IN TXT p=AB".toList

theorem names_iff_mail :
    (ListedAs mailRecord (stem "rsa".toList (some "2048".toList) "mail".toList "x.org".toList ++
        publicSuffix) "x.org".toList "mail".toList ↔
      isDkimToken "mail".toList = true ∧ isDkimToken "x.org".toList = true ∧
        ∀ k ∈ some "2048".toList, ¬ Repeats k "mail".toList) ∧
    ((ListedAs (migrated twoDomains) (copyRel rsaKeys twoDomains firstKey) firstKey.domain
          firstKey.selector ∧ firstKey.domain ∉ candidatesOf (migrated twoDomains)) ↔
      ¬ Repeats (str (keySizeOf rsaKeys twoDomains firstKey)) firstKey.selector ∧
        Kept rsaKeys twoDomains firstKey) := by
  have hok : ((migrateDkimToRspamd rsaKeys).run treeBox twoDomains).1.toOption.isSome = true := by
    decide +kernel
  obtain ⟨result, hr⟩ := Option.isSome_iff_exists.mp hok
  refine ⟨(names_iff _).1 _ _ _ _ ⟨by decide, fun k hk => ?_, .inl (by decide), .inl (by decide),
      ' ', "IN TXT p=AB".toList, by decide, by decide +kernel⟩,
    (names_iff _).2 _ _ _ ⟨⟨result, Prod.ext (eq_ok_of_toOption hr) rfl⟩, by decide +kernel,
      .inl (by decide), .inl (by decide), ' ', "IN TXT p=AB".toList, by decide,
      by decide +kernel⟩⟩
  cases hk
  exact ⟨by decide, by decide⟩

/-- A selector that repeats the key size is read with a domain that is none. -/
theorem repeated_selector :
    ((rspamdKeysOf (recordTree "2048".toList "2048".toList "x.org".toList)).map
        fun k => (k.domain, k.selector)) = [("2048-x.org".toList, "2048".toList)] ∧
      ¬ ListedAs (recordTree "2048".toList "2048".toList "x.org".toList)
        (stem "rsa".toList (some "2048".toList) "2048".toList "x.org".toList ++ publicSuffix)
        "x.org".toList "2048".toList := by
  refine ⟨by decide +kernel, ?_⟩
  unfold ListedAs
  decide +kernel

end MailserverUi.L4.DkimReadBack

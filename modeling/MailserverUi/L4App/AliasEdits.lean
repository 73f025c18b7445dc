import MailserverUi.L4App.AliasGraph

/-!
# Editing and listing aliases

A line of `postfix-virtual.cf` stands for one pair of addresses for each of its
targets. `add_alias` appends a line, `delete_alias` writes the lines of one pair
again from what was parsed of them, and `list_aliases_for` answers with the
sources, each through `EmailStr`.

Results:
* `forwards_removed`: a deletion takes out one pair.
* `edits_exactly`: an alias that was added or deleted is the only pair that
  changed, other lines are kept, and deleting what was added restores the lines.
* `lists_iff`: the aliases of a mailbox are listed exactly when `EmailStr` returns
  each of their addresses as it is.
-/
namespace MailserverUi.L4.AliasEdits

open Py L1.MailFiles L2.Errors L2.Container L3.MailboxService L3.MailboxSpec AliasGraph

/-! ## Deleting a pair -/

/-- The lines that are not of the pair. -/
def others (s : Files) (source target : Str) : List Str :=
  (lines s virtualFilename).filter fun l => !hits source target l

/-- The files after a `delete_alias` that was not rejected. -/
def removed (s : Files) (source target : Str) : Files :=
  putAliases s (withoutTarget target (hits source target) (lines s virtualFilename))

section
variable {s : Files} {source target : Str}

theorem hits_iff {l : Str} :
    hits source target l = true ↔ (parseAlias l).1 = source ∧ target ∈ (parseAlias l).2 :=
  decide_eq_true_iff

/-- A target of a line is left, unless it is the one that is taken out. -/
theorem exists_withoutTarget {hit : Str → Bool} {ls : List Str} {l x : Str} (hl : l ∈ ls)
    (hline : IsLine l) (hx : x ∈ (parseAlias l).2) (hne : hit l = true → x ≠ target) :
    ∃ l' ∈ withoutTarget target hit ls, (parseAlias l').1 = (parseAlias l).1 ∧
      x ∈ (parseAlias l').2 := by
  by_cases hh : hit l = true
  · have hmem : x ∈ (parseAlias l).2.filter (· ≠ target) :=
      List.mem_filter.mpr ⟨hx, by simpa using hne hh⟩
    have hrest := List.ne_nil_of_mem hmem
    have hok := parseAlias_ok hline
    have hok : IsAlias (parseAlias l).1 ((parseAlias l).2.filter (· ≠ target)) :=
      ⟨hok.ne, hok.noSpace, hok.low, fun t ht => hok.target t (List.mem_of_mem_filter ht)⟩
    have hparse := parseAlias_format hok hrest
    refine ⟨formatAlias (parseAlias l).1 ((parseAlias l).2.filter (· ≠ target)), ?_, ?_, ?_⟩
    · refine List.mem_filterMap.mpr ⟨l, hl, ?_⟩
      rw [if_pos hh]
      exact if_pos hrest
    · rw [hparse]
    · rw [hparse]
      exact hmem
  · exact ⟨l, List.mem_filterMap.mpr ⟨l, hl, if_neg hh⟩, rfl, hx⟩

/-- One edge less. -/
theorem forwards_removed (x y : Str) :
    Forwards (removed s source target) x y ↔
      Forwards s x y ∧ ¬ (x = source ∧ y = target) := by
  constructor
  · rintro ⟨l, hl, rfl, hy⟩
    rw [removed, lines_withoutTarget] at hl
    obtain ⟨-, l₀, hl₀, hsrc, ht⟩ := mem_withoutTarget (fun _ => isLine_of_mem_lines) hl
    obtain ⟨hy₀, hne⟩ := ht y hy
    refine ⟨⟨l₀, hl₀, hsrc.symm, hy₀⟩, ?_⟩
    rintro ⟨hsource, rfl⟩
    exact hne (hits_iff.mpr ⟨hsrc.symm.trans hsource, hy₀⟩) rfl
  · rintro ⟨⟨l, hl, rfl, hy⟩, hne⟩
    obtain ⟨l', hl', hsrc, hy'⟩ := exists_withoutTarget hl (isLine_of_mem_lines hl) hy
      (fun hh e => hne ⟨(hits_iff.mp hh).1, e⟩)
    refine ⟨l', ?_, hsrc, hy'⟩
    rwa [removed, lines_withoutTarget]

/-- A line that is not hit stays. -/
theorem withoutTarget_cons {hit : Str → Bool} {l : Str} (h : ¬ hit l = true) (ls : List Str) :
    withoutTarget target hit (l :: ls) = l :: withoutTarget target hit ls :=
  List.filterMap_cons_some (f := fun line => if hit line = true then
      if (parseAlias line).2.filter (· ≠ target) ≠ [] then
        some (formatAlias (parseAlias line).1 ((parseAlias line).2.filter (· ≠ target))) else none
    else some line) (if_neg h)

theorem filter_sublist_withoutTarget (hit : Str → Bool) (ls : List Str) :
    (ls.filter fun l => !hit l).Sublist (withoutTarget target hit ls) := by
  induction ls with
  | nil => exact .slnil
  | cons l ls ih =>
    by_cases hh : hit l = true
    · have hsub : (withoutTarget target hit ls).Sublist (withoutTarget target hit (l :: ls)) :=
        (List.sublist_cons_self l ls).filterMap _
      rw [List.filter_cons_of_neg (by simp [hh])]
      exact ih.trans hsub
    · rw [List.filter_cons_of_pos (by simp [hh]), withoutTarget_cons hh]
      exact ih.cons_cons l

/-- A pair that no line has is taken out of no line. -/
theorem withoutTarget_eq_self {hit : Str → Bool} {ls : List Str} (h : ∀ l ∈ ls, hit l = false) :
    withoutTarget target hit ls = ls := by
  induction ls with
  | nil => rfl
  | cons l ls ih =>
    have hl : ¬ hit l = true := by simp [h l List.mem_cons_self]
    rw [withoutTarget_cons hl, ih fun m hm => h m (List.mem_cons_of_mem l hm)]

/-- The line that was added goes as a whole. -/
theorem withoutTarget_added (hok : IsAlias source [target]) {ls : List Str}
    (h : ∀ l ∈ ls, hits source target l = false) :
    withoutTarget target (hits source target) (ls ++ [formatAlias source [target]]) = ls := by
  have hparse := parseAlias_format hok (List.cons_ne_nil target [])
  have hhit : hits source target (formatAlias source [target]) = true := by
    rw [hits_iff, hparse]
    exact ⟨rfl, List.mem_singleton_self target⟩
  have hlast : withoutTarget target (hits source target) [formatAlias source [target]] = [] := by
    simp [withoutTarget, hhit, hparse]
  have happend : withoutTarget target (hits source target) (ls ++ [formatAlias source [target]]) =
      withoutTarget target (hits source target) ls ++
        withoutTarget target (hits source target) [formatAlias source [target]] :=
    List.filterMap_append
  rw [happend, hlast, List.append_nil, withoutTarget_eq_self h]

end

/-! ## What an edit does -/

/-- The pair `source`, `target` is new, and every line is kept. -/
structure Adds (s s' : Files) (source target : Str) : Prop where
  pairs : ∀ x y, Forwards s' x y ↔ Forwards s x y ∨ x = source ∧ y = target
  kept : (others s source target).Sublist (lines s' virtualFilename)

/-- It is gone, and every line of other pairs is kept. -/
structure Removes (s s' : Files) (source target : Str) : Prop where
  pairs : ∀ x y, Forwards s' x y ↔ Forwards s x y ∧ ¬ (x = source ∧ y = target)
  kept : (others s source target).Sublist (lines s' virtualFilename)

section
variable (emailStr : Str → Option Str) (s : Files) (email aliasEmail : Str)

/-- Deleting the pair returns, and leaves the lines of `s`. -/
def Restores (s' : Files) : Prop :=
  ∃ s'', (deleteAlias email aliasEmail).run box s' = (.ok (), s'') ∧
    lines s'' virtualFilename = lines s virtualFilename

theorem removes_removed (source target : Str) :
    Removes s (removed s source target) source target := by
  refine ⟨forwards_removed, ?_⟩
  rw [removed, lines_withoutTarget]
  exact filter_sublist_withoutTarget _ _

theorem adds_aliased {source target : Str} (hok : IsAlias source [target]) :
    Adds s (aliased s target source) source target := by
  refine ⟨forwards_aliased hok, ?_⟩
  rw [lines_aliased hok]
  exact List.filter_sublist.trans (List.sublist_append_left _ _)

/-- A deletion whose pair is there. -/
theorem run_deleteAlias_hit (ht : normaliseEmail email ∈ addresses s)
    (hl : ∃ l ∈ lines s virtualFilename,
      hits (normaliseEmail aliasEmail) (normaliseEmail email) l = true) :
    (deleteAlias email aliasEmail).run box s =
      (.ok (), removed s (normaliseEmail aliasEmail) (normaliseEmail email)) := by
  simp only [deleteAlias, run_requireMailbox_bind, Prog.run_raiseIf_bind, run_readLines_bind,
    run_writeLines]
  rw [if_pos ht]
  exact if_neg (not_not.mpr hl)

theorem restores_aliased (hadd : Addable s (normaliseEmail email) (normaliseEmail aliasEmail))
    (hok : IsAlias (normaliseEmail aliasEmail) [normaliseEmail email]) :
    Restores s email aliasEmail
      (aliased s (normaliseEmail email) (normaliseEmail aliasEmail)) := by
  obtain ⟨hm, -, -, -, hnew⟩ := hadd
  have hlines := lines_aliased (s := s) hok
  have hparse := parseAlias_format hok (List.cons_ne_nil _ [])
  have hmem : normaliseEmail email ∈
      addresses (aliased s (normaliseEmail email) (normaliseEmail aliasEmail)) := by
    rwa [addresses, aliased, putAliases, lines_putLines_ne accounts_ne_virtual]
  have hhit : ∃ l ∈ lines (aliased s (normaliseEmail email) (normaliseEmail aliasEmail))
      virtualFilename, hits (normaliseEmail aliasEmail) (normaliseEmail email) l = true := by
    refine ⟨formatAlias (normaliseEmail aliasEmail) [normaliseEmail email], ?_, ?_⟩
    · rw [hlines]
      exact List.mem_append_right _ (List.mem_singleton_self _)
    · rw [hits_iff, hparse]
      exact ⟨rfl, List.mem_singleton_self _⟩
  refine ⟨_, run_deleteAlias_hit _ email aliasEmail hmem hhit, ?_⟩
  · rw [removed, lines_withoutTarget, hlines]
    exact withoutTarget_added hok fun l hl => decide_eq_false (hnew l hl)

/-- For an account and an alias without blanks, and an account without commas: an
alias that was added, or deleted, is the only pair that changed. -/
theorem edits_exactly (ht : NoSpace (normaliseEmail email)) (htc : ',' ∉ normaliseEmail email)
    (hs : NoSpace (normaliseEmail aliasEmail)) :
    (∀ a s', (addAlias emailStr email aliasEmail).run box s = (.ok a, s') →
      Adds s s' (normaliseEmail aliasEmail) (normaliseEmail email) ∧
        Restores s email aliasEmail s') ∧
    ∀ s', (deleteAlias email aliasEmail).run box s = (.ok (), s') →
      Removes s s' (normaliseEmail aliasEmail) (normaliseEmail email) := by
  constructor
  · intro a s' h
    rcases run_addAlias emailStr s email aliasEmail with ⟨e, hr⟩ | ⟨hadd, hr⟩
    · rw [hr] at h
      cases h
    · rw [hr, Prod.mk.injEq] at h
      obtain ⟨-, rfl⟩ := h
      have hne : normaliseEmail email ≠ [] := by
        simpa using (List.mem_filter.mp hadd.1).2
      have hok := isAlias_single ht htc (isNormal_normaliseEmail email)
        hne hs (isNormal_normaliseEmail aliasEmail)
        (List.ne_nil_of_mem hadd.2.1)
      exact ⟨adds_aliased s hok, restores_aliased s email aliasEmail hadd hok⟩
  · intro s' h
    rcases run_deleteAlias s email aliasEmail with ⟨e, hr⟩ | ⟨-, hr⟩
    · rw [hr] at h
      cases h
    · rw [hr, Prod.mk.injEq] at h
      obtain ⟨-, rfl⟩ := h
      exact removes_removed s _ _

end

/-- Two accounts, and a line with both for its targets. -/
def shared : Files := fun p =>
  if p = configPath accountsFilename then some "a@x.org|h\nb@x.org|h\n".toList
  else if p = configPath virtualFilename then some "Team@x.org  b@x.org , a@x.org\n".toList
  else none

theorem edits_exactly_shared :
    ((addAlias some "a@x.org".toList "list@x.org".toList).run box shared).1 =
        .ok ⟨"list@x.org".toList⟩ ∧
      (∀ a s', (addAlias some "a@x.org".toList "list@x.org".toList).run box shared = (.ok a, s') →
        Adds shared s' (normaliseEmail "list@x.org".toList) (normaliseEmail "a@x.org".toList) ∧
          Restores shared "a@x.org".toList "list@x.org".toList s') ∧
      ∀ s', (deleteAlias "a@x.org".toList "list@x.org".toList).run box shared = (.ok (), s') →
        Removes shared s' (normaliseEmail "list@x.org".toList) (normaliseEmail "a@x.org".toList) :=
  ⟨by decide +kernel, edits_exactly some shared "a@x.org".toList "list@x.org".toList
    (by decide +kernel) (by decide +kernel) (by decide +kernel)⟩

/-! ## Listing the aliases of a mailbox -/

/-- In ascending order and each once: the sources that forward to `target`. -/
structure ListsSources (s : Files) (target : Str) (sources : List Str) : Prop where
  ascending : sources.Pairwise (· < ·)
  mem : ∀ a, a ∈ sources ↔ Forwards s a target

/-- `sorted(set(aliases))`. -/
def sourcesOf (s : Files) (target : Str) : List Str :=
  ((((lines s virtualFilename).map parseAlias).filter fun p => target ∈ p.2).map
    Prod.fst).dedup.insertionSort (· ≤ ·)

section
variable (emailStr : Str → Option Str) (s : Files) (email : Str)

theorem listsSources_sourcesOf (target : Str) : ListsSources s target (sourcesOf s target) := by
  constructor
  · have hsorted : (sourcesOf s target).Pairwise (· ≤ ·) := List.pairwise_insertionSort _ _
    have hnodup : (sourcesOf s target).Nodup :=
      (List.perm_insertionSort _ _).nodup_iff.mpr (List.nodup_dedup _)
    exact (hsorted.and hnodup).imp fun h => lt_of_le_of_ne h.1 h.2
  · intro a
    rw [sourcesOf, List.mem_insertionSort, List.mem_dedup, List.mem_map]
    constructor
    · rintro ⟨p, hp, rfl⟩
      obtain ⟨hp, ht⟩ := List.mem_filter.mp hp
      obtain ⟨l, hl, rfl⟩ := List.mem_map.mp hp
      exact ⟨l, hl, rfl, by simpa using ht⟩
    · rintro ⟨l, hl, rfl, ht⟩
      exact ⟨parseAlias l, List.mem_filter.mpr ⟨List.mem_map_of_mem hl, by simpa using ht⟩, rfl⟩

/-- There is one such list. -/
theorem ListsSources.eq {target : Str} {l : List Str} (h : ListsSources s target l) :
    l = sourcesOf s target := by
  have h' := listsSources_sourcesOf s target
  have hperm : l.Perm (sourcesOf s target) := by
    refine (List.perm_ext_iff_of_nodup ?_ ?_).mpr fun a => (h.mem a).trans (h'.mem a).symm
    · exact h.ascending.imp fun hlt => hlt.ne
    · exact h'.ascending.imp fun hlt => hlt.ne
  exact hperm.eq_of_pairwise' (h.ascending.imp fun hlt => hlt.le)
    (h'.ascending.imp fun hlt => hlt.le)

/-- `list_aliases_for` of an account. -/
theorem run_listAliasesFor (h : normaliseEmail email ∈ addresses s) :
    (listAliasesFor emailStr email).run box s =
      (((sourcesOf s (normaliseEmail email)).mapM fun a => (emailStr a).map Alias.mk).elim
        (.error .internal) .ok, s) := by
  rw [listAliasesFor, run_requireMailbox_bind, if_pos h, run_readLines_bind]
  change (Prog.ofOption ApiError.internal ((sourcesOf s (normaliseEmail email)).mapM
    fun a => (emailStr a).map Alias.mk)).run box s = _
  cases (sourcesOf s (normaliseEmail email)).mapM fun a => (emailStr a).map Alias.mk <;> rfl

/-- Each address is returned as it is. -/
theorem mapM_alias_iff (l : List Str) :
    (∃ r : List Alias, l.mapM (fun a => (emailStr a).map Alias.mk) = some r ∧
      r.map Alias.alias = l) ↔ ∀ a ∈ l, emailStr a = some a := by
  induction l with
  | nil => exact iff_of_true ⟨[], rfl, rfl⟩ fun a ha => absurd ha List.not_mem_nil
  | cons a l ih =>
    rw [List.forall_mem_cons, ← ih, List.mapM_cons]
    constructor
    · rintro ⟨r, hr, hl⟩
      obtain ⟨x, hx, hr⟩ := Option.bind_eq_some_iff.mp hr
      obtain ⟨r', hr', he⟩ := Option.bind_eq_some_iff.mp hr
      obtain ⟨e, he', rfl⟩ := Option.map_eq_some_iff.mp hx
      cases he
      rw [List.map_cons, List.cons.injEq] at hl
      obtain ⟨rfl, hl⟩ := hl
      exact ⟨he', r', hr', hl⟩
    · rintro ⟨ha, r, hr, hl⟩
      rw [ha, hr]
      exact ⟨⟨a⟩ :: r, rfl, congrArg (a :: ·) hl⟩

/-- The aliases of an account are listed, all of them and nothing else, exactly
when `EmailStr` returns the source of each line that forwards to it as it is. -/
theorem lists_iff (h : normaliseEmail email ∈ addresses s) :
    (∃ r, (listAliasesFor emailStr email).run box s = (.ok r, s) ∧
      ListsSources s (normaliseEmail email) (r.map Alias.alias)) ↔
      ∀ a, Forwards s a (normaliseEmail email) → emailStr a = some a := by
  have hsources := listsSources_sourcesOf s (normaliseEmail email)
  have hall : (∀ a, Forwards s a (normaliseEmail email) → emailStr a = some a) ↔
      ∀ a ∈ sourcesOf s (normaliseEmail email), emailStr a = some a :=
    forall_congr' fun a => imp_congr_left (hsources.mem a).symm
  rw [hall, ← mapM_alias_iff, run_listAliasesFor emailStr s email h]
  constructor
  · rintro ⟨r, hr, hl⟩
    refine ⟨r, ?_, hl.eq⟩
    cases hm : (sourcesOf s (normaliseEmail email)).mapM fun a => (emailStr a).map Alias.mk with
    | none =>
      rw [hm] at hr
      cases hr
    | some r' =>
      rw [hm] at hr
      cases hr
      rfl
  · rintro ⟨r, hr, hl⟩
    refine ⟨r, by rw [hr]; rfl, ?_⟩
    rw [hl]
    exact hsources

end

/-- `EmailStr`, of a source without a local part. -/
def withLocalPart (a : Str) : Option Str := if before '@' a = [] then none else some a

theorem lists_iff_shared :
    (∃ r, (listAliasesFor withLocalPart "a@x.org".toList).run box shared = (.ok r, shared) ∧
        ListsSources shared (normaliseEmail "a@x.org".toList) (r.map Alias.alias)) ↔
      ∀ a, Forwards shared a (normaliseEmail "a@x.org".toList) → withLocalPart a = some a :=
  lists_iff withLocalPart shared "a@x.org".toList (by decide +kernel)

/-- Everything else of the domain goes to the account. -/
def catchAll : Files := fun p =>
  if p = configPath accountsFilename then some "a@example.com|h\n".toList
  else if p = configPath virtualFilename then some "@example.com a@example.com\n".toList
  else none

/-- The source is refused, and no alias of the mailbox is listed. -/
theorem catchAll_unlisted :
    normaliseEmail "a@example.com".toList ∈ addresses catchAll ∧
      ((listAliasesFor withLocalPart "a@example.com".toList).run box catchAll).1 =
        .error .internal ∧
      ¬ ∃ r, (listAliasesFor withLocalPart "a@example.com".toList).run box catchAll =
          (.ok r, catchAll) ∧
        ListsSources catchAll (normaliseEmail "a@example.com".toList) (r.map Alias.alias) := by
  have herr : ((listAliasesFor withLocalPart "a@example.com".toList).run box catchAll).1 =
      .error .internal := by decide +kernel
  refine ⟨by decide +kernel, herr, ?_⟩
  rintro ⟨r, hr, -⟩
  rw [hr] at herr
  cases herr

end MailserverUi.L4.AliasEdits

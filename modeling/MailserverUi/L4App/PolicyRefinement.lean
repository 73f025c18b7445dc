import MailserverUi.Core.Service
import MailserverUi.L4App.AliasReadBack
import MailserverUi.L4App.MasterReadBack
import MailserverUi.L4App.RestrictionFrame

/-!
# The flat files are a mail policy

Dovecot masters, system aliases, regex aliases and the two access maps have a file
each. `Policy` is what they mean together, with no files and no text, and `policy`
answers every operation on it.

The files may be any files. A name, a target, a pattern and an address that is
written must be one that is read as it was written (`Call.Good`), and the
container's commands succeed.

Results:
* `refines`: each operation answers as the policy does that the files stand for, and
  leaves files that stand for the policy after it.
* `answers_policy`: so do all operations in any order.
-/
namespace MailserverUi.L4.PolicyRefinement

open Py L1.ServerFiles L1.ConfigText L1.SystemAliases L1.RegexAliases L1.Restrictions L2.Errors
open L2.Container L3.Passwords L3.MailserverService L3.FlatFiles
open MasterReadBack AliasReadBack RegexAliasOrder RestrictionFrame

/-! ## The policy -/

inductive Kind where
  | send
  | receive
  deriving DecidableEq, Repr

structure Policy where
  /-- each master with its hash, in the order of creation -/
  masters : List (Str × Str)
  systemAliases : List SystemAlias
  regexAliases : List RegexAlias
  restricted : Kind → Finset Str

inductive Call where
  | listDovecotMasters
  | createDovecotMaster (name : Str) (crypt : Option Str)
  | deleteDovecotMaster (name : Str)
  | listSystemAliases
  | createSystemAlias (name : Str) (targets : List Str)
  | deleteSystemAlias (name : Str)
  | listRegexAliases
  | createRegexAlias (compile : Str → Compiled) (pattern : Str) (targets : List Str)
  | deleteRegexAlias (pattern : Str)
  | listRestrictions (kind : Str)
  | addRestriction (kind address : Str)
  | deleteRestriction (kind address : Str)

inductive Result where
  | done
  | master (m : DovecotMaster)
  | masters (ms : List DovecotMaster)
  | systemAlias (a : SystemAlias)
  | systemAliases (as : List SystemAlias)
  | regexAlias (a : RegexAlias)
  | regexAliases (as : List RegexAlias)
  | restriction (r : Restriction)
  | restrictions (rs : List Restriction)
  deriving DecidableEq, Repr

abbrev Answer := Except ApiError Result

/-- The kind that a text names. -/
def kindOf (kind : Str) : Option Kind :=
  if kind = "send".toList then some .send
  else if kind = "receive".toList then some .receive
  else none

/-- The members, from the least to the greatest. -/
def ordered {α : Type} [LinearOrder α] (s : Finset α) : List α := s.sort

def badKind : ApiError := badRequest [lit "Restriction kind must be 'send' or 'receive'"]

/-- Why a pattern is not taken. -/
def refused (compile : Str → Compiled) (pattern : Str) : Option ApiError :=
  match patternBody (strip pattern) with
  | none => some (badRequest [lit "Invalid pattern: ", .repr (strip pattern),
      lit ". A regex alias is delimited by slashes, e.g. /^info@example\\.com$/"])
  | some body =>
    match compile body with
    | .ok => none
    | .error message => some (badRequest [lit "Invalid regular expression: ", .text message])
    | .raises => some .internal

namespace Policy

variable (p : Policy)

def names : List Str := p.masters.map Prod.fst

def setRestricted (k : Kind) (addresses : Finset Str) : Policy :=
  { p with restricted := fun j => if j = k then addresses else p.restricted j }

end Policy

/-- What each operation means. -/
def policy : Service Policy Call Answer where
  serve p
    | .listDovecotMasters =>
      (.ok (.masters ((ordered (p.names.filter (· ≠ [])).toFinset).map DovecotMaster.mk)), p)
    | .createDovecotMaster name crypt =>
      let name := normalise name
      if name = [] ∨ '@' ∈ name then
        (.error (badRequest [lit "A Dovecot master name must not contain '@'"]), p)
      else if name ∈ p.names then (.error (masterExists name), p)
      else
        match crypt with
        | none => (.error .internal, p)
        | some c =>
          (.ok (.master ⟨name⟩), { p with masters := p.masters ++ [(name, dovecotHash c)] })
    | .deleteDovecotMaster name =>
      let name := normalise name
      if name ∉ p.names then (.error (notFound "Dovecot master" name), p)
      else (.ok .done, { p with masters := p.masters.filter (·.1 ≠ name) })
    | .listSystemAliases => (.ok (.systemAliases p.systemAliases), p)
    | .createSystemAlias name targets =>
      let name := normalise name
      let targets := stripped targets
      if isAliasName name = false then
        (.error (badRequest [lit "Invalid alias name: ", .repr name,
          lit ". A system alias is a local name without a domain, e.g. 'root'"]), p)
      else if targets = [] then
        (.error (badRequest [lit "A system alias needs at least one destination"]), p)
      else if ∃ a ∈ p.systemAliases, a.name = name then (.error (aliasExists name), p)
      else (.ok (.systemAlias ⟨name, targets⟩),
        { p with systemAliases := sortByName (p.systemAliases ++ [⟨name, targets⟩]) })
    | .deleteSystemAlias name =>
      let name := normalise name
      if ∀ a ∈ p.systemAliases, a.name ≠ name then (.error (notFound "System alias" name), p)
      else (.ok .done, { p with systemAliases := p.systemAliases.filter (·.name ≠ name) })
    | .listRegexAliases => (.ok (.regexAliases p.regexAliases), p)
    | .createRegexAlias compile pattern targets =>
      match refused compile pattern with
      | some e => (.error e, p)
      | none =>
        let a : RegexAlias := ⟨strip pattern, normalised targets⟩
        if a.targets = [] then
          (.error (badRequest [lit "A regex alias needs at least one destination"]), p)
        else if ∃ b ∈ p.regexAliases, b.pattern = a.pattern then
          (.error (conflict [lit "A regex alias already exists for ", .text a.pattern]), p)
        else (.ok (.regexAlias a),
          { p with regexAliases := (p.regexAliases ++ [a]).insertionSort byPattern })
    | .deleteRegexAlias pattern =>
      if ∀ a ∈ p.regexAliases, a.pattern ≠ strip pattern then
        (.error (notFound "Regex alias" (strip pattern)), p)
      else (.ok .done, { p with regexAliases := others (strip pattern) p.regexAliases })
    | .listRestrictions kind =>
      match kindOf kind with
      | none => (.error badKind, p)
      | some k => (.ok (.restrictions ((ordered (p.restricted k)).map fun a => ⟨kind, a⟩)), p)
    | .addRestriction kind address =>
      match kindOf kind with
      | none => (.error badKind, p)
      | some k =>
        let a := normalise address
        if '@' ∉ a then (.error (badRequest
          [lit "A restriction must target an address or a domain (@example.com)"]), p)
        else if a ∈ p.restricted k then (.error (alreadyRestricted a), p)
        else (.ok (.restriction ⟨kind, a⟩), p.setRestricted k (insert a (p.restricted k)))
    | .deleteRestriction kind address =>
      match kindOf kind with
      | none => (.error badKind, p)
      | some k =>
        let a := normalise address
        if a ∉ p.restricted k then (.error (notFound "Restriction" a), p)
        else (.ok .done, p.setRestricted k ((p.restricted k).erase a))

/-! ## The service on the files -/

def Call.prog : Call → Io Result
  | .listDovecotMasters => do return .masters (← L3.MailserverService.listDovecotMasters)
  | .createDovecotMaster name crypt => do
    return .master (← L3.MailserverService.createDovecotMaster crypt name)
  | .deleteDovecotMaster name => do
    L3.MailserverService.deleteDovecotMaster name
    return .done
  | .listSystemAliases => do return .systemAliases (← L3.MailserverService.listSystemAliases)
  | .createSystemAlias name targets => do
    return .systemAlias (← L3.MailserverService.createSystemAlias name targets)
  | .deleteSystemAlias name => do
    L3.MailserverService.deleteSystemAlias name
    return .done
  | .listRegexAliases => do return .regexAliases (← L3.MailserverService.listRegexAliases)
  | .createRegexAlias compile pattern targets => do
    return .regexAlias (← L3.MailserverService.createRegexAlias compile pattern targets)
  | .deleteRegexAlias pattern => do
    L3.MailserverService.deleteRegexAlias pattern
    return .done
  | .listRestrictions kind => do
    return .restrictions (← L3.MailserverService.listRestrictions kind)
  | .addRestriction kind address => do
    return .restriction (← L3.MailserverService.addRestriction kind address)
  | .deleteRestriction kind address => do
    L3.MailserverService.deleteRestriction kind address
    return .done

def service : Service Files Call Answer where
  serve s c := c.prog.run box s

/-- What is written is read as it was written. -/
def Call.Good : Call → Prop
  | .createDovecotMaster name crypt => Storable name ∧ ∀ c, crypt = some c → NoSpace c
  | .createSystemAlias _ targets => PlainTargets targets
  | .createRegexAlias _ pattern targets => PlainRegex pattern targets
  | .addRestriction _ address => PlainEntry (normalise address)
  | _ => True

/-! ## What the files stand for -/

/-- The file of an access map. -/
def Kind.filename : Kind → Str
  | .send => "postfix-send-access.cf".toList
  | .receive => "postfix-receive-access.cf".toList

/-- The policy that the files stand for. -/
def policyOf (s : Files) : Policy where
  masters := (masterLines s).map masterField
  systemAliases := L3.FlatFiles.systemAliases s
  regexAliases := listed s
  restricted k := (L3.FlatFiles.restricted s k.filename).toFinset

section
variable {s s' : Files} {f g a : Str} {ls : List Str} {k : Kind}

/-- A kind is one of the two, or has no file. -/
theorem accessFile_kindOf (kind : Str) : accessFile kind = (kindOf kind).map Kind.filename := by
  unfold accessFile restrictionFilename kindOf
  by_cases h₁ : kind = "send".toList
  · rw [if_pos h₁, if_pos h₁]
    rfl
  · rw [if_neg h₁, if_neg h₁]
    by_cases h₂ : kind = "receive".toList
    · rw [if_pos h₂, if_pos h₂]
      rfl
    · rw [if_neg h₂, if_neg h₂]
      rfl

/-- One file is written, and the others are read as they were. -/
theorem lines_put_ne (h : Unrelated g f) : lines (put s f ls) g = lines s g := by
  rw [lines, put, write_ne s h.ne h.left]
  rfl

/-! ### The files apart -/

theorem masters_ne_system : Unrelated dovecotMastersFilename systemAliasesFilename := by decide

theorem masters_ne_regex : Unrelated dovecotMastersFilename regexAliasesFilename := by decide

theorem system_ne_regex : Unrelated systemAliasesFilename regexAliasesFilename := by decide

theorem kind_ne_masters (k : Kind) : Unrelated k.filename dovecotMastersFilename := by
  cases k <;> decide

theorem kind_ne_system (k : Kind) : Unrelated k.filename systemAliasesFilename := by
  cases k <;> decide

theorem kind_ne_regex (k : Kind) : Unrelated k.filename regexAliasesFilename := by
  cases k <;> decide

/-- The two kinds have files of their own. -/
theorem filename_ne {j : Kind} (h : j ≠ k) : Unrelated j.filename k.filename := by
  revert h
  cases j <;> cases k <;> decide

/-- Files that are read as the parts of `p` stand for it. -/
theorem policyOf_eq {p : Policy} (hm : (masterLines s).map masterField = p.masters)
    (ha : L3.FlatFiles.systemAliases s = p.systemAliases) (hr : listed s = p.regexAliases)
    (hk : ∀ k, (L3.FlatFiles.restricted s (Kind.filename k)).toFinset = p.restricted k) :
    policyOf s = p := by
  cases p
  unfold policyOf
  congr
  exact funext hk

/-- What is listed depends on the lines of the one file. -/
theorem listed_congr (h : lines s' regexAliasesFilename = lines s regexAliasesFilename) :
    listed s' = listed s :=
  congrArg (fun ls : List Str => ((ls.filterMap parseRegexAlias).filter fun a =>
    decide (L1.RegexAliases.Listed a)).insertionSort byPattern) h

/-- So does what is restricted. -/
theorem restricted_congr (h : lines s' f = lines s f) :
    L3.FlatFiles.restricted s' f = L3.FlatFiles.restricted s f :=
  congrArg (List.map fun l => (restrictedEntry l).1) h

/-- A write to a file changes its part of the policy, and no other one. -/
theorem policyOf_putMasters (ls : List Str) :
    policyOf (put s dovecotMastersFilename ls) =
      { policyOf s with
        masters := (masterLines (put s dovecotMastersFilename ls)).map masterField } :=
  policyOf_eq rfl (congrArg systemAliasesOf (lines_put_ne masters_ne_system.symm))
    (listed_congr (lines_put_ne masters_ne_regex.symm)) fun k =>
      congrArg List.toFinset (restricted_congr (lines_put_ne (kind_ne_masters k)))

theorem policyOf_putSystem (ls : List Str) :
    policyOf (put s systemAliasesFilename ls) =
      { policyOf s with
        systemAliases := L3.FlatFiles.systemAliases (put s systemAliasesFilename ls) } :=
  policyOf_eq (congrArg (List.map masterField) (lines_put_ne masters_ne_system)) rfl
    (listed_congr (lines_put_ne system_ne_regex.symm)) fun k =>
      congrArg List.toFinset (restricted_congr (lines_put_ne (kind_ne_system k)))

theorem policyOf_putRegex (ls : List Str) :
    policyOf (put s regexAliasesFilename ls) =
      { policyOf s with regexAliases := listed (put s regexAliasesFilename ls) } :=
  policyOf_eq (congrArg (List.map masterField) (lines_put_ne masters_ne_regex))
    (congrArg systemAliasesOf (lines_put_ne system_ne_regex)) rfl fun k =>
      congrArg List.toFinset (restricted_congr (lines_put_ne (kind_ne_regex k)))

/-- Restrictions are kept by kind, each in a file of its own. -/
theorem policyOf_putRestricted (k : Kind) (ls : List Str) :
    policyOf (put s k.filename ls) = (policyOf s).setRestricted k
      (L3.FlatFiles.restricted (put s k.filename ls) k.filename).toFinset := by
  refine policyOf_eq
    (congrArg (List.map masterField) (lines_put_ne (kind_ne_masters k).symm))
    (congrArg systemAliasesOf (lines_put_ne (kind_ne_system k).symm))
    (listed_congr (lines_put_ne (kind_ne_regex k).symm)) fun j => ?_
  unfold Policy.setRestricted
  dsimp only
  split
  · rename_i hj
    rw [hj]
  · rename_i hj
    exact congrArg List.toFinset (restricted_congr (lines_put_ne (filename_ne hj)))

/-- The names are those of the lines that hold one. -/
theorem names_policyOf (s : Files) : (policyOf s).names = (masterLines s).map splitMaster := by
  show ((masterLines s).map masterField).map Prod.fst = _
  rw [List.map_map]
  rfl

/-- A name of the policy is the name on a line of its file. -/
theorem mem_names {n : Str} :
    n ∈ (policyOf s).names ↔ ∃ line ∈ masterLines s, splitMaster line = n := by
  rw [names_policyOf, List.mem_map]

/-- In order, each once. -/
theorem ordered_toFinset (l : List Str) : ordered l.toFinset = written l := by
  unfold ordered
  refine List.Perm.eq_of_pairwise' (Finset.pairwise_sort _ _) (sorted_written l) ?_
  refine (List.perm_ext_iff_of_nodup (Finset.sort_nodup _ _) (nodup_written l)).mpr fun x => ?_
  rw [Finset.mem_sort, List.mem_toFinset, mem_written]

end

/-! ## One operation -/

/-- On the files `s`, `p` ends as the policy does. -/
abbrev Agrees {α : Type} (g : α → Result) (p : Io α) (s : Files) (d : Answer × Policy) : Prop :=
  p.Agrees box policyOf g s d

section
variable (s : Files) {name kind address pattern : Str} {targets : List Str} {crypt : Option Str}

/-- Each master is listed once, sorted by name. -/
theorem agrees_listDovecotMasters :
    Agrees .masters listDovecotMasters s (policy.serve (policyOf s) .listDovecotMasters) := by
  refine ⟨?_, rfl⟩
  show Except.ok (Result.masters ((written (((masterLines s).map splitMaster).filter
    (· ≠ []))).map DovecotMaster.mk)) = _
  rw [← names_policyOf, ← ordered_toFinset]
  rfl

/-- A new master goes behind the others; a name that a line has already is taken. -/
theorem agrees_createDovecotMaster (hn : Storable name) (hc : ∀ c, crypt = some c → NoSpace c) :
    Agrees .master (createDovecotMaster crypt name) s
      (policy.serve (policyOf s) (.createDovecotMaster name crypt)) := by
  unfold Agrees Prog.Agrees policy
  rw [run_createDovecotMaster]
  dsimp only
  by_cases h₁ : normalise name = [] ∨ '@' ∈ normalise name
  · rw [if_pos h₁, if_pos h₁]
    exact ⟨rfl, rfl⟩
  rw [if_neg h₁, if_neg h₁]
  by_cases h₂ : normalise name ∈ (policyOf s).names
  · rw [if_pos h₂, if_pos (mem_names.mp h₂)]
    exact ⟨rfl, rfl⟩
  rw [if_neg h₂, if_neg fun h => h₂ (mem_names.mpr h)]
  cases hcrypt : crypt with
  | none => exact ⟨rfl, rfl⟩
  | some c =>
    refine ⟨rfl, (policyOf_putMasters _).trans ?_⟩
    have hread : textLines (masterLine name c) = [masterLine name c] :=
      textLines_masterLine (hc c hcrypt) (fun e => h₁ (.inl e)) hn
    have hline : masterLines (put s dovecotMastersFilename (masterLines s ++ [masterLine name c])) =
        masterLines s ++ textLines (masterLine name c) := lines_put_append _
    show { policyOf s with masters := (masterLines (put s dovecotMastersFilename
      (masterLines s ++ [masterLine name c]))).map masterField } = _
    rw [hline, hread, List.map_append, List.map_singleton, masterField_masterLine hn.noBar]
    rfl

/-- Every line of the name goes. -/
theorem agrees_deleteDovecotMaster :
    Agrees (fun _ => .done) (deleteDovecotMaster name) s
      (policy.serve (policyOf s) (.deleteDovecotMaster name)) := by
  have hnone : (∀ line ∈ masterLines s, splitMaster line ≠ normalise name) ↔
      normalise name ∉ (policyOf s).names := by
    rw [mem_names, not_exists]
    simp only [not_and, ne_eq]
  unfold Agrees Prog.Agrees policy
  rw [run_deleteDovecotMaster]
  dsimp only
  by_cases h : normalise name ∉ (policyOf s).names
  · rw [if_pos h, if_pos (hnone.mpr h)]
    exact ⟨rfl, rfl⟩
  · rw [if_neg h, if_neg (mt hnone.mp h)]
    refine ⟨rfl, (policyOf_putMasters _).trans ?_⟩
    have hline : masterLines (put s dovecotMastersFilename
        ((masterLines s).filter fun line => splitMaster line ≠ normalise name)) =
        (masterLines s).filter fun line => splitMaster line ≠ normalise name := lines_put_filter _
    rw [hline]
    have hmap : ((masterLines s).filter fun line => splitMaster line ≠ normalise name).map
        masterField = ((masterLines s).map masterField).filter (·.1 ≠ normalise name) := by
      rw [List.filter_map]
      rfl
    rw [hmap]
    rfl

/-- An alias is made with its targets stripped, and sorted in by name. -/
theorem agrees_createSystemAlias (ht : PlainTargets targets) :
    Agrees .systemAlias (createSystemAlias name targets) s
      (policy.serve (policyOf s) (.createSystemAlias name targets)) := by
  unfold Agrees Prog.Agrees policy
  rw [run_createSystemAlias]
  dsimp only
  by_cases h₁ : isAliasName (normalise name) = false
  · rw [if_pos h₁, if_pos h₁]
    exact ⟨rfl, rfl⟩
  rw [if_neg h₁, if_neg h₁]
  by_cases h₂ : stripped targets = []
  · rw [if_pos h₂, if_pos h₂]
    exact ⟨rfl, rfl⟩
  rw [if_neg h₂, if_neg h₂]
  by_cases h₃ : ∃ a ∈ L3.FlatFiles.systemAliases s, a.name = normalise name
  · have h₃' : ∃ a ∈ (policyOf s).systemAliases, a.name = normalise name := h₃
    rw [if_pos h₃, if_pos h₃']
    exact ⟨rfl, rfl⟩
  have h₃' : ¬ ∃ a ∈ (policyOf s).systemAliases, a.name = normalise name := h₃
  rw [if_neg h₃, if_neg h₃']
  have hnew : IsAlias ⟨normalise name, stripped targets⟩ := by
    refine isAlias_of_plain (by simpa using h₁) (isNormal_normalise name) h₂ fun t hmem => ?_
    obtain ⟨hne, htrim, -⟩ := mem_stripped hmem
    exact ⟨hne, (ht t hmem).1, htrim, (ht t hmem).2⟩
  have hall : ∀ a ∈ L3.FlatFiles.systemAliases s ++ [⟨normalise name, stripped targets⟩],
      IsAlias a := by
    intro a ha
    rcases List.mem_append.mp ha with ha | ha
    · exact isAlias_of_systemAliases a ha
    · rw [List.mem_singleton.mp ha]
      exact hnew
  refine ⟨rfl, (policyOf_putSystem _).trans ?_⟩
  rw [systemAliases_put hall]
  rfl

/-- Every alias of the name goes. -/
theorem agrees_deleteSystemAlias :
    Agrees (fun _ => .done) (deleteSystemAlias name) s
      (policy.serve (policyOf s) (.deleteSystemAlias name)) := by
  unfold Agrees Prog.Agrees policy
  rw [run_deleteSystemAlias]
  dsimp only
  by_cases h : ∀ a ∈ L3.FlatFiles.systemAliases s, a.name ≠ normalise name
  · have h' : ∀ a ∈ (policyOf s).systemAliases, a.name ≠ normalise name := h
    rw [if_pos h, if_pos h']
    exact ⟨rfl, rfl⟩
  have h' : ¬ ∀ a ∈ (policyOf s).systemAliases, a.name ≠ normalise name := h
  rw [if_neg h, if_neg h']
  refine ⟨rfl, (policyOf_putSystem _).trans ?_⟩
  rw [systemAliases_put fun a ha => isAlias_of_systemAliases a (List.mem_filter.mp ha).1,
    sortByName_of_sorted ((sorted_systemAliases s).filter _)]
  rfl

/-! ### Regex aliases -/

variable {compile : Str → Compiled}

/-- Entries that were written are read back. -/
theorem entries_put {t : Files} {es : List RegexAlias} (h : ∀ a ∈ es, IsEntry a) :
    RegexAliasOrder.entries (put t regexAliasesFilename (regexAliasLines es)) = es := by
  rw [RegexAliasOrder.entries, put, read_write, regexAliasLines_eq, entriesOf_managed h]

/-- A pattern is checked before the file is read. -/
theorem run_validate_bind {α : Type} (k : Str → Io α) :
    (validateRegexPattern compile pattern >>= k).run box s =
      match refused compile pattern with
      | some e => (.error e, s)
      | none => (k (strip pattern)).run box s := by
  unfold validateRegexPattern refused
  dsimp only
  cases patternBody (strip pattern) with
  | none => rfl
  | some body =>
    dsimp only
    cases compile body <;> rfl

/-- The checks come in the order of the source: the pattern, the targets, then the file. -/
theorem run_createRegexAlias_eq (compile : Str → Compiled) (pattern : Str) (targets : List Str) :
    (createRegexAlias compile pattern targets).run box s =
      match refused compile pattern with
      | some e => (.error e, s)
      | none =>
        if normalised targets = [] then
          (.error (badRequest [lit "A regex alias needs at least one destination"]), s)
        else if ∃ a ∈ listed s, a.pattern = strip pattern then
          (.error (conflict [lit "A regex alias already exists for ", .text (strip pattern)]), s)
        else (.ok ⟨strip pattern, normalised targets⟩, put s regexAliasesFilename
          (regexAliasLines (listed s ++ [⟨strip pattern, normalised targets⟩]))) := by
  unfold createRegexAlias
  simp only [run_validate_bind, Prog.run_raiseIf_bind, run_listRegexAliases_bind]
  rfl

/-- A new pattern is added, and the list is sorted. -/
theorem agrees_createRegexAlias (hp : PlainRegex pattern targets) :
    Agrees .regexAlias (createRegexAlias compile pattern targets) s
      (policy.serve (policyOf s) (.createRegexAlias compile pattern targets)) := by
  have hrun := run_createRegexAlias_eq s compile pattern targets
  unfold Agrees Prog.Agrees policy
  rw [hrun]
  dsimp only
  cases href : refused compile pattern with
  | some e => exact ⟨rfl, rfl⟩
  | none =>
    rw [href] at hrun
    dsimp only at hrun ⊢
    by_cases h₁ : normalised targets = []
    · rw [if_pos h₁, if_pos h₁]
      exact ⟨rfl, rfl⟩
    rw [if_neg h₁] at hrun ⊢
    rw [if_neg h₁]
    by_cases h₂ : ∃ b ∈ listed s, b.pattern = strip pattern
    · have h₂' : ∃ b ∈ (policyOf s).regexAliases, b.pattern = strip pattern := h₂
      rw [if_pos h₂, if_pos h₂']
      exact ⟨rfl, rfl⟩
    have h₂' : ¬ ∃ b ∈ (policyOf s).regexAliases, b.pattern = strip pattern := h₂
    rw [if_neg h₂] at hrun ⊢
    rw [if_neg h₂']
    have hall : ∀ a ∈ listed s ++ [⟨strip pattern, normalised targets⟩], IsEntry a := by
      intro a ha
      rcases List.mem_append.mp ha with ha | ha
      · exact isEntry_of_mem_listed ha
      · rw [List.mem_singleton.mp ha]
        exact isEntry_of_plain hrun hp
    refine ⟨rfl, (policyOf_putRegex _).trans ?_⟩
    rw [listed_of_sorted (entries_put hall) hall]
    rfl

/-- A pattern is looked for without the blanks around it. -/
theorem agrees_deleteRegexAlias :
    Agrees (fun _ => .done) (deleteRegexAlias pattern) s
      (policy.serve (policyOf s) (.deleteRegexAlias pattern)) := by
  unfold Agrees Prog.Agrees policy
  rw [run_deleteRegexAlias_eq]
  dsimp only
  by_cases h : ∀ a ∈ listed s, a.pattern ≠ strip pattern
  · have h' : ∀ a ∈ (policyOf s).regexAliases, a.pattern ≠ strip pattern := h
    rw [if_pos h, if_pos h']
    exact ⟨rfl, rfl⟩
  have h' : ¬ ∀ a ∈ (policyOf s).regexAliases, a.pattern ≠ strip pattern := h
  rw [if_neg h, if_neg h']
  have hall : ∀ a ∈ others (strip pattern) (listed s), IsEntry a := fun a ha =>
    isEntry_of_mem_listed (List.mem_filter.mp ha).1
  have hsorted : (others (strip pattern) (listed s)).Pairwise byPattern :=
    (sorted_listed s).filter _
  refine ⟨rfl, (policyOf_putRegex _).trans ?_⟩
  rw [listed_of_sorted (entries_put hall) hall, hsorted.insertionSort_eq]
  rfl

/-! ### Restrictions -/

/-- A kind that is none of the two is rejected first. -/
theorem restrictionFilename_bad (h : kindOf kind = none) :
    restrictionFilename kind = .raise badKind := by
  unfold kindOf at h
  unfold restrictionFilename
  by_cases h₁ : kind = "send".toList
  · rw [if_pos h₁] at h
    cases h
  · rw [if_neg h₁] at h ⊢
    by_cases h₂ : kind = "receive".toList
    · rw [if_pos h₂] at h
      cases h
    · rw [if_neg h₂]
      rfl

theorem accessFile_of_kind {k : Kind} (h : kindOf kind = some k) :
    accessFile kind = some k.filename := by
  rw [accessFile_kindOf, h]
  rfl

/-- Each restriction is listed once, in order. -/
theorem agrees_listRestrictions :
    Agrees .restrictions (listRestrictions kind) s
      (policy.serve (policyOf s) (.listRestrictions kind)) := by
  unfold Agrees Prog.Agrees policy
  dsimp only
  cases hk : kindOf kind with
  | none =>
    unfold listRestrictions restrictionAddresses
    rw [restrictionFilename_bad hk]
    exact ⟨rfl, rfl⟩
  | some k =>
    rw [run_listRestrictions (accessFile_of_kind hk), ← ordered_toFinset]
    exact ⟨rfl, rfl⟩

/-- An address that is restricted already is rejected. -/
theorem agrees_addRestriction (hp : PlainEntry (normalise address)) :
    Agrees .restriction (addRestriction kind address) s
      (policy.serve (policyOf s) (.addRestriction kind address)) := by
  unfold Agrees Prog.Agrees policy
  dsimp only
  cases hk : kindOf kind with
  | none =>
    unfold addRestriction
    rw [restrictionFilename_bad hk]
    exact ⟨rfl, rfl⟩
  | some k =>
    rw [run_addRestriction (accessFile_of_kind hk)]
    dsimp only
    by_cases h₁ : '@' ∉ normalise address
    · rw [if_pos h₁, if_pos h₁]
      exact ⟨rfl, rfl⟩
    rw [if_neg h₁, if_neg h₁]
    have hmem : normalise address ∈ (policyOf s).restricted k ↔
        normalise address ∈ L3.FlatFiles.restricted s k.filename := List.mem_toFinset
    by_cases h₂ : normalise address ∈ L3.FlatFiles.restricted s k.filename
    · rw [if_pos h₂, if_pos (hmem.mpr h₂)]
      exact ⟨rfl, rfl⟩
    rw [if_neg h₂, if_neg (mt hmem.mp h₂)]
    have ha : IsAddress (normalise address) :=
      ⟨List.ne_nil_of_mem (not_not.mp h₁), hp.noSpace, fun c hc => (mem_lower hc).1, hp.head⟩
    refine ⟨rfl, (policyOf_putRestricted k _).trans ?_⟩
    rw [restricted_put (isAddress_append ha)]
    have hset : (written (L3.FlatFiles.restricted s k.filename ++ [normalise address])).toFinset =
        insert (normalise address) ((policyOf s).restricted k) := by
      ext x
      simp only [List.mem_toFinset, mem_written, List.mem_append, List.mem_singleton,
        Finset.mem_insert, policyOf]
      exact or_comm
    rw [hset]

/-- An address that is not restricted is not found. -/
theorem agrees_deleteRestriction :
    Agrees (fun _ => .done) (deleteRestriction kind address) s
      (policy.serve (policyOf s) (.deleteRestriction kind address)) := by
  unfold Agrees Prog.Agrees policy
  dsimp only
  cases hk : kindOf kind with
  | none =>
    unfold deleteRestriction
    rw [restrictionFilename_bad hk]
    exact ⟨rfl, rfl⟩
  | some k =>
    rw [run_deleteRestriction (accessFile_of_kind hk)]
    dsimp only
    have hmem : normalise address ∈ (policyOf s).restricted k ↔
        normalise address ∈ L3.FlatFiles.restricted s k.filename := List.mem_toFinset
    by_cases h : normalise address ∉ L3.FlatFiles.restricted s k.filename
    · rw [if_pos h, if_pos (mt hmem.mp h)]
      exact ⟨rfl, rfl⟩
    rw [if_neg h, if_neg fun hn => h (mt hmem.mpr hn)]
    refine ⟨rfl, (policyOf_putRestricted k _).trans ?_⟩
    rw [restricted_put fun x hx => isAddress_of_restricted (List.mem_filter.mp hx).1]
    have hset : (written ((L3.FlatFiles.restricted s k.filename).filter
        (· ≠ normalise address))).toFinset =
        ((policyOf s).restricted k).erase (normalise address) := by
      ext x
      simp only [List.mem_toFinset, mem_written, List.mem_filter, decide_eq_true_eq,
        Finset.mem_erase, policyOf]
      exact and_comm
    rw [hset]

end

/-- Each operation answers as the policy does, and leaves files that stand for the
policy after it. -/
theorem agrees_prog (s : Files) (c : Call) (h : c.Good) :
    (c.prog.run box s).1 = (policy.serve (policyOf s) c).1 ∧
      policyOf (c.prog.run box s).2 = (policy.serve (policyOf s) c).2 := by
  cases c with
  | listDovecotMasters => exact (agrees_listDovecotMasters s).returned
  | createDovecotMaster name crypt => exact (agrees_createDovecotMaster s h.1 h.2).returned
  | deleteDovecotMaster name => exact (agrees_deleteDovecotMaster s).returned
  | listSystemAliases => exact ⟨rfl, rfl⟩
  | createSystemAlias name targets => exact (agrees_createSystemAlias s h).returned
  | deleteSystemAlias name => exact (agrees_deleteSystemAlias s).returned
  | listRegexAliases =>
    have hl : Agrees .regexAliases listRegexAliases s
        (policy.serve (policyOf s) .listRegexAliases) := by
      unfold Agrees Prog.Agrees
      rw [run_listRegexAliases]
      exact ⟨rfl, rfl⟩
    exact hl.returned
  | createRegexAlias compile pattern targets => exact (agrees_createRegexAlias s h).returned
  | deleteRegexAlias pattern => exact (agrees_deleteRegexAlias s).returned
  | listRestrictions kind => exact (agrees_listRestrictions s).returned
  | addRestriction kind address => exact (agrees_addRestriction s h).returned
  | deleteRestriction kind address => exact (agrees_deleteRestriction s).returned

/-! ## All operations -/

/-- **The flat files are the policy**: each operation answers and goes on as the one
of the abstract service does. -/
theorem refines : service.Refines policy (fun _ => True) Call.Good policyOf id where
  keeps _ _ _ _ := trivial
  answer s c _ h := (agrees_prog s c h).1
  next s c _ h := (agrees_prog s c h).2

/-- Whatever is in the files, any operations are answered as the policy answers them
that the files stand for, and end in files that stand for the policy after them. -/
theorem answers_policy (s : Files) (cs : List Call) (h : ∀ c ∈ cs, c.Good) :
    service.answers s cs = policy.answers (policyOf s) cs ∧
      policyOf (service.after s cs) = policy.after (policyOf s) cs := by
  have ha := refines.answers_eq h (s := s) trivial
  have hd := refines.after_eq h (s := s) trivial
  rw [List.map_id] at ha hd
  exact ⟨ha, hd⟩

/-- A master, two aliases and a restriction are made, and some of it is taken back. -/
def office : List Call :=
  [.createDovecotMaster " Ops Team ".toList (some "$6$salt$digest".toList),
    .createSystemAlias "Root".toList ["a@x.org".toList, "|/bin/f -x".toList],
    .createRegexAlias (fun _ => .ok) "/^info$/i".toList ["A@x.org".toList],
    .addRestriction "send".toList "@Spam.org".toList, .listRestrictions "send".toList,
    .deleteRestriction "send".toList "@spam.org ".toList, .deleteDovecotMaster "root".toList,
    .listDovecotMasters, .listRestrictions "both".toList]

theorem good_office : ∀ c ∈ office, c.Good := by
  have h : (('|' ∉ normalise " Ops Team ".toList ∧ OneLine (normalise " Ops Team ".toList) ∧
        (normalise " Ops Team ".toList).head? ≠ some '#') ∧ NoSpace "$6$salt$digest".toList) ∧
      PlainTargets ["a@x.org".toList, "|/bin/f -x".toList] ∧
      (NoSpace (strip "/^info$/i".toList) ∧
        ∀ t ∈ normalised ["A@x.org".toList], ',' ∉ t ∧ OneLine t) ∧
      NoSpace (normalise "@Spam.org".toList) ∧
        (normalise "@Spam.org".toList).head? ≠ some '#' := by decide +kernel
  obtain ⟨⟨⟨hbar, hone, hhead⟩, hhash⟩, htargets, ⟨hpattern, hregex⟩, haddress, hfirst⟩ := h
  intro c hc
  simp only [office, List.mem_cons, List.not_mem_nil, or_false] at hc
  rcases hc with rfl | rfl | rfl | rfl | rfl | rfl | rfl | rfl | rfl
  · refine ⟨⟨hbar, hone, hhead⟩, fun c hc => ?_⟩
    cases hc
    exact hhash
  · exact htargets
  · exact ⟨hpattern, hregex⟩
  · exact ⟨haddress, hfirst⟩
  all_goals trivial

theorem answers_policy_office :
    service.answers mastersFile office = policy.answers (policyOf mastersFile) office ∧
      policyOf (service.after mastersFile office) =
        policy.after (policyOf mastersFile) office :=
  answers_policy mastersFile office good_office

end MailserverUi.L4.PolicyRefinement

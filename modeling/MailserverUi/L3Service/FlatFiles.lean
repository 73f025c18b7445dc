import MailserverUi.L1Encoding.Restrictions
import MailserverUi.L3Service.MailserverService

/-!
# What the operations on single files do

Masters, system aliases and restrictions have a file of their own: an operation
reads its lines, and a successful one writes it once. `lines` is what is read of
a file.

Results: `run_` and the name of an operation says what it returns and writes,
`lines_put` what is read of that.
-/
namespace MailserverUi.L3.FlatFiles

open Py L1.MailFiles L1.ServerFiles L1.ConfigText L1.Restrictions L2.Errors L2.Container
open L3.MailserverService
open L3.Passwords

/-- What `_read_config_lines` returns. -/
def lines (s : Files) (f : Str) : List Str := textLines ((s (configPath f)).getD [])

/-- What `_write_managed` leaves. -/
def put (s : Files) (f : Str) (ls : List Str) : Files := s.write f (managed ls)

section
variable {α : Type} {s : Files} {f : Str}

theorem run_readConfigLines_bind (k : List Str → Io α) :
    (readConfigLines f >>= k).run box s = (k (lines s f)).run box s := rfl

theorem lines_put (ls : List Str) : lines (put s f ls) f = ls.flatMap textLines := by
  rw [lines, put, write_self, Option.getD_some, textLines_managed]

theorem isLine_of_mem_lines {l : Str} (h : l ∈ lines s f) : IsLine l ∧ l.head? ≠ some '#' :=
  isLine_of_mem_textLines h

theorem lines_put_append (l : Str) :
    lines (put s f (lines s f ++ [l])) f = lines s f ++ textLines l := by
  rw [lines_put, List.flatMap_append, flatMap_textLines fun _ => isLine_of_mem_lines,
    List.flatMap_singleton]

theorem lines_put_filter {t : Files} (p : Str → Bool) :
    lines (put t f ((lines s f).filter p)) f = (lines s f).filter p := by
  rw [lines_put, flatMap_textLines fun _ hl => isLine_of_mem_lines (List.mem_filter.mp hl).1]

end

/-! ## Dovecot masters -/

section
variable {s : Files}

def masterLines (s : Files) : List Str := lines s dovecotMastersFilename

def masterExists (username : Str) : ApiError :=
  conflict [lit "Dovecot master ", .text username, lit " already exists"]

theorem run_masterNames :
    masterNames.run box s = (.ok (((masterLines s).map splitMaster).filter (· ≠ [])), s) := rfl

theorem run_createDovecotMaster (crypt : Option Str) (name : Str) :
    (createDovecotMaster crypt name).run box s =
      if normalise name = [] ∨ '@' ∈ normalise name then
        (.error (badRequest [lit "A Dovecot master name must not contain '@'"]), s)
      else if ∃ line ∈ masterLines s, splitMaster line = normalise name then
        (.error (masterExists (normalise name)), s)
      else match crypt with
        | none => (.error .internal, s)
        | some c => (.ok ⟨normalise name⟩, put s dovecotMastersFilename
            (masterLines s ++ [normalise name ++ '|' :: dovecotHash c])) := by
  unfold createDovecotMaster
  simp only [Prog.run_raiseIf_bind, run_readConfigLines_bind]
  cases crypt <;> rfl

theorem run_deleteDovecotMaster (name : Str) : (deleteDovecotMaster name).run box s =
    if ∀ line ∈ masterLines s, splitMaster line ≠ normalise name then
      (.error (notFound "Dovecot master" (normalise name)), s)
    else (.ok (), put s dovecotMastersFilename
      ((masterLines s).filter fun line => splitMaster line ≠ normalise name)) := by
  unfold deleteDovecotMaster
  simp only [Prog.run_raiseIf_bind, run_readConfigLines_bind, List.length_filter_eq_length_iff,
    decide_eq_true_eq]
  rfl

end

/-! ## System aliases -/

section
variable {s : Files}

/-- What `list_system_aliases` returns. -/
def systemAliases (s : Files) : List SystemAlias := systemAliasesOf (lines s systemAliasesFilename)

def aliasExists (name : Str) : ApiError :=
  conflict [lit "The system alias ", .text name, lit " already exists"]

theorem run_listSystemAliases : listSystemAliases.run box s = (.ok (systemAliases s), s) := rfl

theorem run_createSystemAlias (name : Str) (targets : List Str) :
    (createSystemAlias name targets).run box s =
      if isAliasName (normalise name) = false then
        (.error (badRequest [lit "Invalid alias name: ", .repr (normalise name),
          lit ". A system alias is a local name without a domain, e.g. 'root'"]), s)
      else if stripped targets = [] then
        (.error (badRequest [lit "A system alias needs at least one destination"]), s)
      else if ∃ a ∈ systemAliases s, a.name = normalise name then
        (.error (aliasExists (normalise name)), s)
      else (.ok ⟨normalise name, stripped targets⟩, put s systemAliasesFilename
        (systemAliasLines (systemAliases s ++ [⟨normalise name, stripped targets⟩]))) := by
  unfold createSystemAlias
  have h {α : Type} (k : List SystemAlias → Io α) :
      (listSystemAliases >>= k).run box s = (k (systemAliases s)).run box s := rfl
  simp only [Prog.run_raiseIf_bind, h]
  rfl

theorem run_deleteSystemAlias (name : Str) : (deleteSystemAlias name).run box s =
    if ∀ a ∈ systemAliases s, a.name ≠ normalise name then
      (.error (notFound "System alias" (normalise name)), s)
    else (.ok (), put s systemAliasesFilename
      (systemAliasLines ((systemAliases s).filter fun a => a.name ≠ normalise name))) := by
  unfold deleteSystemAlias
  have h {α : Type} (k : List SystemAlias → Io α) :
      (listSystemAliases >>= k).run box s = (k (systemAliases s)).run box s := rfl
  simp only [Prog.run_raiseIf_bind, h, List.length_filter_eq_length_iff, decide_eq_true_eq]
  rfl

end

/-! ## Restrictions -/

section
variable {α : Type} {s : Files} {kind f : Str}

/-- The file of a kind; `none` where there is none. -/
def accessFile (kind : Str) : Option Str :=
  match restrictionFilename kind with
  | .pure f => some f
  | _ => none

theorem restrictionFilename_eq (h : accessFile kind = some f) :
    restrictionFilename kind = .pure f := by
  unfold accessFile at h
  split at h
  · rename_i g e
    cases h
    exact e
  · cases h

/-- Another kind is refused. -/
theorem accessFile_of_ok {k : Str → Io α} {r : α} {s' : Files}
    (h : (restrictionFilename kind >>= k).run box s = (.ok r, s')) :
    ∃ f, accessFile kind = some f := by
  unfold accessFile
  unfold restrictionFilename at h ⊢
  by_cases h₁ : kind = "send".toList
  · rw [if_pos h₁]
    exact ⟨_, rfl⟩
  · rw [if_neg h₁] at h ⊢
    by_cases h₂ : kind = "receive".toList
    · rw [if_pos h₂]
      exact ⟨_, rfl⟩
    · rw [if_neg h₂] at h
      cases h

/-- The addresses of a file. -/
def restricted (s : Files) (f : Str) : List Str := (lines s f).map fun l => (restrictedEntry l).1

theorem run_restrictionAddresses_bind (h : accessFile kind = some f) (k : List Str → Io α) :
    (restrictionAddresses kind >>= k).run box s = (k (restricted s f)).run box s := by
  unfold restrictionAddresses
  rw [restrictionFilename_eq h]
  have e : restrictedOf (lines s f) = some (restricted s f) :=
    restrictedOf_eq fun _ => isLine_of_mem_lines
  show ((Prog.ofOption .internal (restrictedOf (lines s f)) : Io (List Str)) >>= k).run box s = _
  rw [e]
  rfl

theorem run_listRestrictions (h : accessFile kind = some f) :
    (listRestrictions kind).run box s =
      (.ok ((written (restricted s f)).map fun a => ⟨kind, a⟩), s) := by
  unfold listRestrictions
  rw [run_restrictionAddresses_bind h]
  rfl

def alreadyRestricted (a : Str) : ApiError := conflict [.text a, lit " is already restricted"]

theorem run_addRestriction (h : accessFile kind = some f) (address : Str) :
    (addRestriction kind address).run box s =
      if '@' ∉ normalise address then (.error (badRequest
        [lit "A restriction must target an address or a domain (@example.com)"]), s)
      else if normalise address ∈ restricted s f then
        (.error (alreadyRestricted (normalise address)), s)
      else (.ok ⟨kind, normalise address⟩,
        put s f (restrictionLines (restricted s f ++ [normalise address]))) := by
  unfold addRestriction
  rw [restrictionFilename_eq h]
  simp only [Prog.pure_bind, Prog.run_raiseIf_bind, run_restrictionAddresses_bind h]
  rfl

theorem run_deleteRestriction (h : accessFile kind = some f) (address : Str) :
    (deleteRestriction kind address).run box s =
      if normalise address ∉ restricted s f then
        (.error (notFound "Restriction" (normalise address)), s)
      else (.ok (), put s f (restrictionLines ((restricted s f).filter (· ≠ normalise address)))) := by
  unfold deleteRestriction
  rw [restrictionFilename_eq h]
  simp only [Prog.pure_bind, Prog.run_raiseIf_bind, run_restrictionAddresses_bind h]
  rfl

end

end MailserverUi.L3.FlatFiles

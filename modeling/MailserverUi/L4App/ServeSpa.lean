import MailserverUi.Core.RealPath
import MailserverUi.L2Store.Errors

/-!
# Serving the front end (`utils.py`, `main.py`)

Any path that no other route takes comes here, decoded: with `..` in it, with
more slashes than one, from the root, or past symbolic links. The tree is that of
the container; the answer is the place of the file that `FileResponse` is given.

Results:
* `resolveSafePath_eq_some`: what is taken for safe.
* `serveSpa_inside`: whatever links there are, no file is served but `index.html`
  and files that stand in the front end's directory themselves.
* `serveSpa_goes`: a path that leads to such a file, by links or without, is
  answered with it.
-/
namespace MailserverUi.L4.ServeSpa

open Py RealPath L2.Errors

/-! ## Paths as text -/

def partOf (s : Str) : Component Str :=
  if s = [] ∨ s = ['.'] then .here
  else if s = ['.', '.'] then .up
  else .name s

/-- `Path(s)`. -/
def written (s : Str) : Written Str := ⟨s.head? = some '/', (split '/' s).map partOf⟩

/-- `base / relative`: an absolute path on the right is taken alone. -/
def joined (base : Place Str) (relative : Str) : List (Component Str) :=
  if (written relative).absolute then (written relative).parts
  else names base ++ (written relative).parts

section
variable (t : FileTree Str)

/-- `lstat` raises a `ValueError`, which is no `OSError`, for a path with a NUL;
such a part is never skipped.
mirrors backend/app/utils.py:6-26 -/
def resolveSafePath (relative : Str) (baseDir : Place Str) : Except ApiError (Option (Place Str)) :=
  if relative = [] then .ok none
  else if '\x00' ∈ relative then .error .internal
  else
    let base := realpath t (names baseDir)
    let candidate := realpath t (joined base relative)
    -- `base in candidate.parents`
    if base ≠ candidate ∧ ¬ base <:+ candidate.tail then .ok none
    else if isFile t candidate then .ok (some candidate)
    else .ok none

def indexHtml : Str := "index.html".toList

/-- `frontend_dist`. -/
def frontendDist (projectRoot : Place Str) : Place Str :=
  realpath t (names ("frontend".toList :: projectRoot))

/-- mirrors backend/app/main.py:124-149 -/
def serveSpa (projectRoot : Place Str) (fullPath : Str) : Except ApiError (Place Str) := do
  let frontendIndex := indexHtml :: frontendDist t projectRoot
  if isFile t frontendIndex = false then throw (.api 503 [lit "Frontend not available."])
  match ← resolveSafePath t fullPath (frontendDist t projectRoot) with
  | some safe => return safe
  | none => return frontendIndex

end

section
variable {t : FileTree Str} {relative fullPath : Str} {base projectRoot p q : Place Str} {m : Nat}

/-- A directory that was resolved is resolved to itself. -/
theorem realpath_base (h : t.node base = some .dir) : realpath t (names base) = base :=
  realpath_names (solid_dir h)

/-- What is taken for safe is a file that stands in the directory. -/
theorem resolveSafePath_eq_some (hb : t.node base = some .dir) :
    resolveSafePath t relative base = .ok (some p) ↔
      relative ≠ [] ∧ '\x00' ∉ relative ∧ p = realpath t (joined base relative) ∧
        base <:+ p ∧ t.node p = some .file := by
  unfold resolveSafePath
  rw [realpath_base hb]
  by_cases hr : relative = []
  · simp [hr]
  by_cases hz : '\x00' ∈ relative
  · simp [hr, hz]
  rw [if_neg hr, if_neg hz]
  dsimp only
  generalize hc : realpath t (joined base relative) = c
  have hfile : isFile t c = true ↔ t.node c = some .file := hc ▸ isFile_realpath
  have hin : ¬ (base ≠ c ∧ ¬ base <:+ c.tail) ↔ base <:+ c := by
    rw [not_and_or, not_not, not_not]
    constructor
    · rintro (rfl | h)
      · exact List.suffix_rfl
      · exact h.trans c.tail_suffix
    · intro h
      cases c with
      | nil => exact .inl (List.suffix_nil.mp h)
      | cons n d =>
        rcases List.suffix_cons_iff.mp h with e | h
        · exact .inl e
        · exact .inr h
  by_cases hi : base <:+ c
  · rw [if_neg (hin.mpr hi)]
    split
    · rename_i hf
      constructor
      · intro e
        cases e
        exact ⟨hr, hz, rfl, hi, hfile.mp hf⟩
      · rintro ⟨-, -, rfl, -, -⟩
        rfl
    · rename_i hf
      exact ⟨nofun, fun h => absurd (hfile.mpr (h.2.2.1 ▸ h.2.2.2.2)) hf⟩
  · rw [if_pos (not_not.mp (mt hin.mp hi))]
    exact ⟨nofun, fun h => absurd (h.2.2.1 ▸ h.2.2.2.1) hi⟩

/-- Where `index.html` is a file, the directory stands there itself. -/
theorem node_frontendDist (h : isFile t (indexHtml :: frontendDist t projectRoot) = true) :
    t.node (frontendDist t projectRoot) = some .dir := by
  obtain ⟨q, hq, -⟩ := (Option.any_eq_true _ _).mp h
  obtain ⟨m, hm⟩ := goes_of_walk hq
  have hsplit : names (indexHtml :: frontendDist t projectRoot) =
      names (frontendDist t projectRoot) ++ [.name indexHtml] := by
    simp [names]
  rw [hsplit] at hm
  obtain ⟨m₁, m₂, d, h₁, h₂⟩ := hm.split
  have hd : d = frontendDist t projectRoot := h₁.names_eq (dead_realpath t _).1
  subst hd
  cases h₂ with
  | entry hd => exact hd
  | link hd => exact hd

theorem serveSpa_eq_ok : serveSpa t projectRoot fullPath = .ok p ↔
    isFile t (indexHtml :: frontendDist t projectRoot) = true ∧
      (resolveSafePath t fullPath (frontendDist t projectRoot) = .ok (some p) ∨
        resolveSafePath t fullPath (frontendDist t projectRoot) = .ok none ∧
          p = indexHtml :: frontendDist t projectRoot) := by
  unfold serveSpa
  dsimp only
  cases isFile t (indexHtml :: frontendDist t projectRoot) with
  | false => exact ⟨nofun, nofun⟩
  | true =>
    rw [if_neg nofun]
    rcases resolveSafePath t fullPath (frontendDist t projectRoot) with e | _ | q
    · exact ⟨nofun, nofun⟩
    · exact ⟨fun h => by cases h; exact ⟨rfl, .inr ⟨rfl, rfl⟩⟩, fun h => by
        rcases h.2 with h | ⟨-, rfl⟩
        · cases h
        · rfl⟩
    · exact ⟨fun h => by cases h; exact ⟨rfl, .inl rfl⟩, fun h => by
        rcases h.2 with h | ⟨h, -⟩
        · cases h
          rfl
        · cases h⟩

/-- Whatever the path is and whatever links the tree has, what is served is
`index.html`, or a file that stands in the front end's directory. -/
theorem serveSpa_inside (h : serveSpa t projectRoot fullPath = .ok p) :
    p = indexHtml :: frontendDist t projectRoot ∨
      frontendDist t projectRoot <:+ p ∧ t.node p = some .file := by
  obtain ⟨hi, h | ⟨-, h⟩⟩ := serveSpa_eq_ok.mp h
  · obtain ⟨-, -, -, hin, hf⟩ := (resolveSafePath_eq_some (node_frontendDist hi)).mp h
    exact .inr ⟨hin, hf⟩
  · exact .inl h

/-- A path that leads to a file in the directory is answered with that file. -/
theorem serveSpa_goes (hi : isFile t (indexHtml :: frontendDist t projectRoot) = true)
    (hn : fullPath ≠ []) (hz : '\x00' ∉ fullPath)
    (hg : Goes t m [] (joined (frontendDist t projectRoot) fullPath) q)
    (hin : frontendDist t projectRoot <:+ q) (hf : t.node q = some .file) :
    serveSpa t projectRoot fullPath = .ok q :=
  serveSpa_eq_ok.mpr ⟨hi, .inl ((resolveSafePath_eq_some (node_frontendDist hi)).mpr
    ⟨hn, hz, (realpath_goes hg).symm, hin, hf⟩)⟩

end

/-! ### A container -/

/-- The place of an absolute path. -/
def place (path : String) : Place Str := ((split '/' path.toList).filter (· ≠ [])).reverse

/-- Two links in the front end's directory, one of them out of it. -/
def entries : Dict (Place Str) (Node Str) := .ofPairs
  [(place "", .dir), (place "/etc", .dir), (place "/etc/passwd", .file), (place "/app", .dir),
    (place "/app/frontend", .dir), (place "/app/frontend/index.html", .file),
    (place "/app/frontend/static", .dir), (place "/app/frontend/static/app.js", .file),
    (place "/app/frontend/assets", .link (written "static".toList)),
    (place "/app/frontend/users", .link (written "/etc/passwd".toList))]

theorem entries_parents : ∀ e ∈ entries.items, e.1 ≠ [] → entries.get? e.1.tail = some .dir := by
  decide

def container : FileTree Str := ⟨entries, rfl, parents_of_items entries_parents⟩

/-- The link out of the directory is followed, and what it leads to is not served. -/
theorem serveSpa_inside_users :
    place "/app/frontend/index.html" = indexHtml :: frontendDist container (place "/app") ∨
      frontendDist container (place "/app") <:+ place "/app/frontend/index.html" ∧
        container.node (place "/app/frontend/index.html") = some .file :=
  serveSpa_inside (show serveSpa container (place "/app") "users".toList = .ok _ by
    decide +kernel)

theorem serveSpa_goes_assets :
    serveSpa container (place "/app") "assets/app.js".toList =
      .ok (place "/app/frontend/static/app.js") := by
  have hw : walk container maxLinks []
      (joined (frontendDist container (place "/app")) "assets/app.js".toList) =
        some (place "/app/frontend/static/app.js") := by decide +kernel
  obtain ⟨m, hm⟩ := goes_of_walk hw
  exact serveSpa_goes (by decide +kernel) nofun (by decide) hm (by decide +kernel) rfl

end MailserverUi.L4.ServeSpa

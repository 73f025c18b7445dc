import Mathlib
import MailserverUi.Core.Dict

/-!
# Paths, symbolic links and their resolution

A tree of directories, files and symbolic links, and two readers of it. `walk`
is the kernel's: it stops at the first component that is missing or is no
directory, and gives up after `maxLinks` links. `realpath` is the non-strict
`os.path.realpath`: it goes on past what is missing, follows each link once, and
leaves a link alone that it meets while it is still resolving it.

`Goes` is what both are compared with: a path that leads somewhere, with no
bound on the links, and the size of its derivation.

Results:
* `realpath_goes`: where a path leads somewhere, `realpath` finds the place.
* `dead_realpath`: a link that `realpath` leaves in its answer leads nowhere, and
  one more turn of its loop changes nothing.
* `isFile_realpath`: so a file that the kernel finds at the answer stands there
  itself, and no link is followed on the way.
-/
namespace MailserverUi.RealPath

variable {ν : Type} [DecidableEq ν]

/-- The names from a place up to the root. -/
abbrev Place (ν : Type) := List ν

/-- A component of a path: `.` or nothing, `..`, or a name. -/
inductive Component (ν : Type) where
  | here
  | up
  | name (n : ν)
  deriving DecidableEq, Repr

/-- A path as it is written. -/
structure Written (ν : Type) where
  absolute : Bool
  parts : List (Component ν)
  deriving DecidableEq, Repr

/-- Where the path starts, read at `d`. -/
def Written.start (w : Written ν) (d : Place ν) : Place ν := if w.absolute then [] else d

inductive Node (ν : Type) where
  | dir
  | file
  | link (target : Written ν)
  deriving DecidableEq, Repr

/-- Whatever is there stands in a directory. -/
structure FileTree (ν : Type) [DecidableEq ν] where
  nodes : Dict (Place ν) (Node ν)
  root : nodes.get? [] = some .dir
  parents : ∀ n d, nodes.get? (n :: d) ≠ none → nodes.get? d = some .dir

/-- The entries of a finite tree are looked through one by one. -/
theorem parents_of_items {nodes : Dict (Place ν) (Node ν)}
    (h : ∀ e ∈ nodes.items, e.1 ≠ [] → nodes.get? e.1.tail = some .dir) (n : ν) (d : Place ν)
    (hn : nodes.get? (n :: d) ≠ none) : nodes.get? d = some .dir := by
  obtain ⟨x, hx⟩ := Option.ne_none_iff_exists'.mp hn
  exact h _ (Dict.mem_items.mpr hx) nofun

/-- What stands at a place, no link followed. -/
def FileTree.node (t : FileTree ν) (p : Place ν) : Option (Node ν) := t.nodes.get? p

/-- The path of names down to a place. -/
def names (p : Place ν) : List (Component ν) := p.reverse.map .name

section
variable (t : FileTree ν)

/-! ## The kernel -/

/-- The components of a path up to the next link. -/
def walkWith (onLink : Place ν → List (Component ν) → Option (Place ν)) :
    Place ν → List (Component ν) → Option (Place ν)
  | d, [] => some d
  | d, part :: rest =>
    if t.node d = some .dir then
      match part with
      | .here => walkWith onLink d rest
      | .up => walkWith onLink d.tail rest
      | .name n =>
        match t.node (n :: d) with
        | none => none
        | some (.link target) => onLink (target.start d) (target.parts ++ rest)
        | some _ => walkWith onLink (n :: d) rest
    else none

/-- The place a path leads to from `d`, with at most that many links. -/
def walk : Nat → Place ν → List (Component ν) → Option (Place ν)
  | 0 => walkWith t fun _ _ => none
  | links + 1 => walkWith t (walk links)

/-- `MAXSYMLINKS` of Linux. -/
def maxLinks : Nat := 40

/-- `os.lstat` of an absolute path: its directory is walked to, and a link in
the last place is not followed. -/
def lstat : Place ν → Option (Node ν)
  | [] => some .dir
  | n :: d => (walk t maxLinks [] (names d)).bind fun q => t.node (n :: q)

/-- `os.path.isfile` of an absolute path. -/
def isFile (p : Place ν) : Bool :=
  (walk t maxLinks [] (names p)).any fun q => t.node q = some .file

/-! ## `realpath` -/

/-- What is still to be read: a component, or the end of a link's target. -/
inductive Item (ν : Type) where
  | part (p : Component ν)
  | mark (link : Place ν)
  deriving DecidableEq, Repr

/-- The path resolved so far, and the links met: the place each leads to, or
`none` while it is being resolved. -/
structure St (ν : Type) [DecidableEq ν] where
  path : Place ν
  seen : Dict (Place ν) (Option (Place ν))

/-- The loop up to the next link that was not met before. -/
def resolveWith (onLink : St ν → List (Item ν) → Place ν) : St ν → List (Item ν) → Place ν
  | s, [] => s.path
  | s, .mark link :: rest => resolveWith onLink { s with seen := s.seen.set link (some s.path) } rest
  | s, .part .here :: rest => resolveWith onLink s rest
  | s, .part .up :: rest => resolveWith onLink { s with path := s.path.tail } rest
  | s, .part (.name n) :: rest =>
    match lstat t (n :: s.path) with
    | some (.link target) =>
      match s.seen.get? (n :: s.path) with
      | some (some p) => resolveWith onLink { s with path := p } rest
      | some none => resolveWith onLink { s with path := n :: s.path } rest
      | none =>
        onLink ⟨target.start s.path, s.seen.set (n :: s.path) none⟩
          (target.parts.map .part ++ .mark (n :: s.path) :: rest)
    -- an error of `lstat` is ignored
    | _ => resolveWith onLink { s with path := n :: s.path } rest

/-- Each link is met for the first time once, so the links of the tree are
enough turns (`dead_realpath`). -/
def resolve : Nat → St ν → List (Item ν) → Place ν
  | 0 => resolveWith t fun s _ => s.path
  | turns + 1 => resolveWith t (resolve turns)

/-- `os.path.realpath` of an absolute path. -/
def realpath (parts : List (Component ν)) : Place ν :=
  resolve t t.nodes.items.length ⟨[], .empty⟩ (parts.map .part)

end

/-! ## Where a path leads -/

/-- The path leads from `d` to the place, in a derivation of that size. -/
inductive Goes (t : FileTree ν) : Nat → Place ν → List (Component ν) → Place ν → Prop
  | nil (d : Place ν) : Goes t 0 d [] d
  | here {m : Nat} {d q : Place ν} {ps : List (Component ν)} (hd : t.node d = some .dir)
      (h : Goes t m d ps q) : Goes t (m + 1) d (.here :: ps) q
  | up {m : Nat} {d q : Place ν} {ps : List (Component ν)} (hd : t.node d = some .dir)
      (h : Goes t m d.tail ps q) : Goes t (m + 1) d (.up :: ps) q
  | entry {m : Nat} {d q : Place ν} {n : ν} {x : Node ν} {ps : List (Component ν)}
      (hd : t.node d = some .dir) (hx : t.node (n :: d) = some x) (hl : ∀ w, x ≠ .link w)
      (h : Goes t m (n :: d) ps q) : Goes t (m + 1) d (.name n :: ps) q
  | link {m m' : Nat} {d q q' : Place ν} {n : ν} {w : Written ν} {ps : List (Component ν)}
      (hd : t.node d = some .dir) (hx : t.node (n :: d) = some (.link w))
      (h : Goes t m (w.start d) w.parts q') (h' : Goes t m' q' ps q) :
      Goes t (m + m' + 1) d (.name n :: ps) q

section
variable {t : FileTree ν} {d p q : Place ν} {n : ν} {ps : List (Component ν)} {m k : Nat}

theorem Goes.det (h : Goes t m d ps q) {m' : Nat} {q' : Place ν} (h' : Goes t m' d ps q') :
    m = m' ∧ q = q' := by
  induction h generalizing m' q' with
  | nil => cases h'; exact ⟨rfl, rfl⟩
  | here _ _ ih =>
    cases h' with
    | here _ h' => exact ⟨congrArg (· + 1) (ih h').1, (ih h').2⟩
  | up _ _ ih =>
    cases h' with
    | up _ h' => exact ⟨congrArg (· + 1) (ih h').1, (ih h').2⟩
  | entry _ hx hl _ ih =>
    cases h' with
    | entry _ _ _ h' => exact ⟨congrArg (· + 1) (ih h').1, (ih h').2⟩
    | link _ hx' => exact absurd (Option.some.inj (hx.symm.trans hx')) (hl _)
  | link _ hx _ _ ih ih' =>
    cases h' with
    | entry _ hx' hl => exact absurd (Option.some.inj (hx'.symm.trans hx)) (hl _)
    | link _ hx' h₁ h₂ =>
      cases Option.some.inj (hx.symm.trans hx')
      obtain ⟨rfl, rfl⟩ := ih h₁
      obtain ⟨rfl, rfl⟩ := ih' h₂
      exact ⟨rfl, rfl⟩

/-- Something stands there, and it is no link. -/
def Solid (t : FileTree ν) (p : Place ν) : Prop := ∃ x, t.node p = some x ∧ ∀ w, x ≠ .link w

theorem solid_dir (h : t.node d = some .dir) : Solid t d := ⟨_, h, fun _ => nofun⟩

/-- A target is read from a directory. -/
theorem solid_start (h : t.node d = some .dir) (w : Written ν) : Solid t (w.start d) := by
  unfold Written.start
  split
  · exact solid_dir t.root
  · exact solid_dir h

theorem Goes.solid (h : Goes t m d ps q) (hd : Solid t d) : Solid t q := by
  induction h with
  | nil => exact hd
  | here _ _ ih => exact ih hd
  | @up _ d _ _ hd' _ ih =>
    refine ih (solid_dir ?_)
    cases d with
    | nil => exact t.root
    | cons a d => exact t.parents a d (by rw [show t.nodes.get? (a :: d) = _ from hd']; nofun)
  | entry _ hx hl _ ih => exact ih ⟨_, hx, hl⟩
  | @link _ _ _ _ _ _ w _ hd' _ _ _ ih ih' => exact ih' (ih (solid_start hd' w))

theorem Goes.split {ps' : List (Component ν)} (h : Goes t m d (ps ++ ps') q) :
    ∃ m₁ m₂ q', Goes t m₁ d ps q' ∧ Goes t m₂ q' ps' q := by
  induction ps generalizing m d with
  | nil => exact ⟨0, m, d, .nil d, h⟩
  | cons part ps ih =>
    cases h with
    | here hd h =>
      obtain ⟨m₁, m₂, q', h₁, h₂⟩ := ih h
      exact ⟨_, _, _, .here hd h₁, h₂⟩
    | up hd h =>
      obtain ⟨m₁, m₂, q', h₁, h₂⟩ := ih h
      exact ⟨_, _, _, .up hd h₁, h₂⟩
    | entry hd hx hl h =>
      obtain ⟨m₁, m₂, q', h₁, h₂⟩ := ih h
      exact ⟨_, _, _, .entry hd hx hl h₁, h₂⟩
    | link hd hx h h' =>
      obtain ⟨m₁, m₂, q', h₁, h₂⟩ := ih h'
      exact ⟨_, _, _, .link hd hx h h₁, h₂⟩

theorem goes_of_walkWith {onLink : Place ν → List (Component ν) → Option (Place ν)}
    (hl : ∀ d ps q, onLink d ps = some q → ∃ m, Goes t m d ps q)
    (h : walkWith t onLink d ps = some q) : ∃ m, Goes t m d ps q := by
  induction ps generalizing d with
  | nil =>
    cases h
    exact ⟨0, .nil _⟩
  | cons part ps ih =>
    unfold walkWith at h
    split at h
    · rename_i hd
      cases part with
      | here =>
        obtain ⟨m, hm⟩ := ih h
        exact ⟨_, .here hd hm⟩
      | up =>
        obtain ⟨m, hm⟩ := ih h
        exact ⟨_, .up hd hm⟩
      | name n =>
        dsimp only at h
        have hnode {x : Node ν} (hx : t.node (n :: d) = some x) (hl : ∀ w, x ≠ .link w)
            (h : walkWith t onLink (n :: d) ps = some q) :
            ∃ m, Goes t m d (.name n :: ps) q := by
          obtain ⟨m, hm⟩ := ih h
          exact ⟨_, .entry hd hx hl hm⟩
        cases hx : t.node (n :: d) with
        | none =>
          rw [hx] at h
          cases h
        | some x =>
          rw [hx] at h
          cases x with
          | dir => exact hnode hx (fun _ => nofun) h
          | file => exact hnode hx (fun _ => nofun) h
          | link w =>
            obtain ⟨m, hm⟩ := hl _ _ _ h
            obtain ⟨m₁, m₂, q', h₁, h₂⟩ := hm.split
            exact ⟨_, .link hd hx h₁ h₂⟩
    · cases h

/-- The kernel only gets where the path leads. -/
theorem goes_of_walk {links : Nat} (h : walk t links d ps = some q) : ∃ m, Goes t m d ps q := by
  induction links generalizing d ps q with
  | zero => exact goes_of_walkWith (fun _ _ _ h => by cases h) h
  | succ links ih => exact goes_of_walkWith (fun _ _ _ h => ih h) h

/-! ## Places and the links on the way to them -/

/-- A link whose target leads nowhere, or no link at all. -/
def Dead (t : FileTree ν) (l : Place ν) : Prop :=
  ∀ w, t.node l = some (.link w) → ¬ ∃ m q, Goes t m (w.start l.tail) w.parts q

/-- No link on the way to the place leads anywhere. -/
def Sound (t : FileTree ν) (p : Place ν) : Prop := ∀ l, l <:+ p → Dead t l

theorem dead_of_ne (h : ∀ w, t.node p ≠ some (.link w)) : Dead t p := fun w e => absurd e (h w)

theorem Sound.cons (h : Sound t d) (hn : Dead t (n :: d)) : Sound t (n :: d) := by
  intro l hl
  rcases List.suffix_cons_iff.mp hl with rfl | hl
  · exact hn
  · exact h l hl

theorem Sound.tail (h : Sound t d) : Sound t d.tail := fun l hl => h l (hl.trans d.tail_suffix)

theorem sound_root : Sound t [] := by
  intro l hl
  rw [List.suffix_nil.mp hl]
  exact dead_of_ne fun w e => nomatch (t.root.symm.trans e)

theorem node_above {l : Place ν} (h : t.node p ≠ none) (hl : l <:+ p) :
    l = p ∨ t.node l = some .dir := by
  induction p with
  | nil => exact .inl (List.suffix_nil.mp hl)
  | cons n d ih =>
    rcases List.suffix_cons_iff.mp hl with rfl | hl
    · exact .inl rfl
    · have hd : t.node d = some .dir := t.parents n d h
      rcases ih (by rw [hd]; nofun) hl with rfl | hl
      · exact .inr hd
      · exact .inr hl

theorem Solid.sound (h : Solid t p) : Sound t p := by
  obtain ⟨x, hx, hw⟩ := h
  intro l hl
  rcases node_above (by rw [hx]; nofun) hl with rfl | hd
  · exact dead_of_ne fun w e => hw w (Option.some.inj (hx.symm.trans e))
  · exact dead_of_ne fun w e => nomatch (hd.symm.trans e)

/-- The names on the way to a place that stands there lead to it. -/
theorem walk_names (links : Nat) (h : Solid t p) : walk t links [] (names p) = some p := by
  have hwith (onLink : Place ν → List (Component ν) → Option (Place ν)) :
      ∀ (l : List ν) (d : Place ν), Solid t (l.reverse ++ d) →
        walkWith t onLink d (l.map .name) = some (l.reverse ++ d) := by
    intro l
    induction l with
    | nil => exact fun d _ => rfl
    | cons n l ih =>
      intro d hs
      rw [List.reverse_cons, List.append_assoc, List.singleton_append] at hs ⊢
      obtain ⟨x, hx, hw⟩ := id hs
      have hup (s : Place ν) (hs : s <:+ n :: d) : s = l.reverse ++ n :: d ∨ t.node s = some .dir :=
        node_above (by rw [hx]; nofun) (hs.trans (List.suffix_append _ _))
      have hd : t.node d = some .dir := by
        refine (hup d (List.suffix_cons n d)).resolve_left fun e => ?_
        have := congrArg List.length e
        simp only [List.length_append, List.length_cons] at this
        omega
      rw [List.map_cons, walkWith, if_pos hd]
      rcases hup (n :: d) List.suffix_rfl with e | hn
      · rw [← e] at hx
        simp only [hx]
        cases x with
        | link w => exact absurd rfl (hw w)
        | dir => exact ih _ hs
        | file => exact ih _ hs
      · simp only [hn]
        exact ih _ hs
  have := (hwith · p.reverse [] (by simpa using h))
  simp only [List.reverse_reverse, List.append_nil] at this
  cases links with
  | zero => exact this _
  | succ links => exact this _

/-- Where they lead anywhere, past no link that does, it is to the place. -/
theorem Goes.names_eq (hp : Sound t p) (h : Goes t m [] (names p) q) : q = p := by
  have hlist : ∀ (l : List ν) (d : Place ν) (m : Nat), Sound t (l.reverse ++ d) →
      Goes t m d (l.map .name) q → q = l.reverse ++ d := by
    intro l
    induction l with
    | nil =>
      intro d m _ h
      cases h
      rfl
    | cons n l ih =>
      intro d m hs h
      rw [List.reverse_cons, List.append_assoc, List.singleton_append] at hs ⊢
      cases h with
      | entry _ _ _ h => exact ih _ _ hs h
      | link _ hx h _ =>
        exact absurd ⟨_, _, h⟩ (hs (n :: d) (List.suffix_append _ _) _ hx)
  simpa using hlist p.reverse [] m (by simpa using hp) h

theorem walk_sound {links : Nat} (hp : Sound t p) (h : walk t links [] (names p) = some q) :
    q = p :=
  let ⟨_, hm⟩ := goes_of_walk h
  hm.names_eq hp

theorem lstat_sound (hd : Sound t d) : lstat t (n :: d) = t.node (n :: d) := by
  rw [lstat]
  cases hw : walk t maxLinks [] (names d) with
  | some q => rw [walk_sound hd hw]; rfl
  | none =>
    cases hx : t.node (n :: d) with
    | none => rfl
    | some x =>
      have hdir : t.node d = some .dir := t.parents n d (by rw [show t.nodes.get? _ = _ from hx]; nofun)
      rw [walk_names maxLinks (solid_dir hdir)] at hw
      cases hw

theorem isFile_sound (hp : Sound t p) : isFile t p = true ↔ t.node p = some .file := by
  constructor
  · intro h
    obtain ⟨q, hq, hf⟩ := (Option.any_eq_true _ _).mp h
    rw [walk_sound hp hq] at hf
    exact of_decide_eq_true hf
  · intro h
    rw [isFile, walk_names maxLinks ⟨_, h, fun _ => nofun⟩]
    simp [h]

end

/-! ## The links met so far -/

section
variable {t : FileTree ν} {d p q l : Place ν} {n : ν} {ps : List (Component ν)} {m k : Nat}
  {seen : Dict (Place ν) (Option (Place ν))}

/-- What is noted of a link that was resolved: the place it leads to, if it
leads anywhere, and past no link that does. -/
structure Ok (t : FileTree ν) (seen : Dict (Place ν) (Option (Place ν))) : Prop where
  link : ∀ l ∈ seen.keys, ∃ w, t.node l = some (.link w)
  leads : ∀ l p w, seen.get? l = some (some p) → t.node l = some (.link w) →
    ∀ m q, Goes t m (w.start l.tail) w.parts q → p = q
  sound : ∀ l p, seen.get? l = some (some p) → Sound t p

/-- No link that is being resolved has a derivation smaller than `m`. -/
def Fits (t : FileTree ν) (m : Nat) (seen : Dict (Place ν) (Option (Place ν))) : Prop :=
  ∀ l, seen.get? l = some none → ∀ w m' q, t.node l = some (.link w) →
    Goes t m' (w.start l.tail) w.parts q → m ≤ m'

/-- The links that were not met yet are no more than the turns left. -/
def Enough (t : FileTree ν) (k : Nat) (seen : Dict (Place ν) (Option (Place ν))) : Prop :=
  t.nodes.keys.length ≤ k + seen.keys.length

theorem Fits.mono (h : Fits t m seen) (hk : k ≤ m) : Fits t k seen :=
  fun l hl w m' q hx hg => hk.trans (h l hl w m' q hx hg)

theorem Fits.congr (h : Fits t m seen) {seen' : Dict (Place ν) (Option (Place ν))}
    (hs : ∀ l, seen'.get? l = some none ↔ seen.get? l = some none) : Fits t m seen' :=
  fun l hl => h l ((hs l).mp hl)

/-- A derivation of the target is as large as itself. -/
theorem Fits.open (h : Fits t m seen) {w : Written ν} (hx : t.node l = some (.link w))
    (hg : Goes t m (w.start l.tail) w.parts q) : Fits t m (seen.set l none) := by
  intro l' hl' w' m' q' hx' hg'
  rw [Dict.get?_set] at hl'
  split at hl'
  · rename_i e
    subst e
    cases Option.some.inj (hx.symm.trans hx')
    exact (hg.det hg').1.le
  · exact h l' hl' w' m' q' hx' hg'

theorem fits_of_dead (h : ∀ l, seen.get? l = some none → Dead t l) (m : Nat) : Fits t m seen :=
  fun l hl w m' q hx hg => absurd ⟨m', q, hg⟩ (h l hl w hx)

theorem ok_empty : Ok t .empty where
  link _ hl := absurd hl List.not_mem_nil
  leads _ _ _ h := nomatch h
  sound _ _ h := nomatch h

theorem Ok.open (h : Ok t seen) {w : Written ν} (hx : t.node l = some (.link w)) :
    Ok t (seen.set l none) where
  link l' hl' := by
    rcases Dict.mem_keys_set.mp hl' with rfl | hl'
    · exact ⟨w, hx⟩
    · exact h.link l' hl'
  leads l' p w' hp := by
    rw [Dict.get?_set] at hp
    split at hp
    · cases hp
    · exact h.leads l' p w' hp
  sound l' p hp := by
    rw [Dict.get?_set] at hp
    split at hp
    · cases hp
    · exact h.sound l' p hp

theorem Ok.close (h : Ok t seen) {w : Written ν} (hx : t.node l = some (.link w))
    (hl : ∀ m q, Goes t m (w.start l.tail) w.parts q → p = q) (hp : Sound t p) :
    Ok t (seen.set l (some p)) where
  link l' hl' := by
    rcases Dict.mem_keys_set.mp hl' with rfl | hl'
    · exact ⟨w, hx⟩
    · exact h.link l' hl'
  leads l' p' w' hp' hx' := by
    rw [Dict.get?_set] at hp'
    split at hp'
    · rename_i e
      cases hp'
      subst e
      cases Option.some.inj (hx.symm.trans hx')
      exact hl
    · exact h.leads l' p' w' hp' hx'
  sound l' p' hp' := by
    rw [Dict.get?_set] at hp'
    split at hp'
    · cases hp'
      exact hp
    · exact h.sound l' p' hp'

theorem Enough.set (h : Enough t k seen) (l : Place ν) (v : Option (Place ν)) :
    Enough t k (seen.set l v) := by
  unfold Enough at h ⊢
  rw [Dict.keys_set]
  split
  · exact h
  · rw [List.length_append]
    omega

/-- A link met for the first time takes one of the turns. -/
theorem Enough.open (h : Enough t k seen) (hs : Ok t seen) {w : Written ν}
    (hx : t.node l = some (.link w)) (hl : seen.get? l = none) :
    ∃ k', k = k' + 1 ∧ Enough t k' (seen.set l none) := by
  have hnew : l ∉ seen.keys := Dict.get?_eq_none.mp hl
  have hsub : ∀ l' ∈ l :: seen.keys, l' ∈ t.nodes.keys := by
    intro l' hl'
    rcases List.mem_cons.mp hl' with rfl | hl'
    · exact Dict.mem_keys_of_get? hx
    · obtain ⟨w', hw'⟩ := hs.link l' hl'
      exact Dict.mem_keys_of_get? hw'
  have hlen := ((List.nodup_cons.mpr ⟨hnew, seen.nodup⟩).subperm hsub).length_le
  unfold Enough at h ⊢
  rw [List.length_cons] at hlen
  refine ⟨k - 1, by omega, ?_⟩
  rw [Dict.keys_set, if_neg hnew, List.length_append, List.length_singleton]
  omega

theorem get?_set_open (hl : ∀ l', seen.get? l' = some none → l' ≠ l) {seen' : Dict (Place ν) (Option (Place ν))}
    (h : ∀ l', seen'.get? l' = some none ↔ (seen.set l none).get? l' = some none) (v : Place ν) (l' : Place ν) :
    (seen'.set l (some v)).get? l' = some none ↔ seen.get? l' = some none := by
  rw [Dict.get?_set]
  split
  · rename_i e
    subst e
    exact ⟨fun h' => absurd (Option.some.inj h') (Option.some_ne_none _),
      fun h' => absurd rfl (hl l' h')⟩
  · rename_i e
    rw [h, Dict.get?_set, if_neg e]

/-! ## Where a path leads, `realpath` gets -/

theorem resolve_here (path : Place ν) (rest : List (Item ν)) :
    resolve t k ⟨path, seen⟩ (.part .here :: rest) = resolve t k ⟨path, seen⟩ rest := by
  cases k <;> rfl

theorem resolve_up (path : Place ν) (rest : List (Item ν)) :
    resolve t k ⟨path, seen⟩ (.part .up :: rest) = resolve t k ⟨path.tail, seen⟩ rest := by
  cases k <;> rfl

theorem resolve_mark (path l : Place ν) (rest : List (Item ν)) :
    resolve t k ⟨path, seen⟩ (.mark l :: rest) =
      resolve t k ⟨path, seen.set l (some path)⟩ rest := by
  cases k <;> rfl

section
variable {path : Place ν} (rest : List (Item ν))

theorem resolve_entry (h : ∀ w, lstat t (n :: path) ≠ some (.link w)) :
    resolve t k ⟨path, seen⟩ (.part (.name n) :: rest) = resolve t k ⟨n :: path, seen⟩ rest := by
  cases k <;>
  · rw [resolve, resolveWith]
    split
    · rename_i w e
      exact absurd e (h w)
    · rfl

variable {w : Written ν}

theorem resolve_known (h : lstat t (n :: path) = some (.link w))
    (hs : seen.get? (n :: path) = some (some p)) :
    resolve t k ⟨path, seen⟩ (.part (.name n) :: rest) = resolve t k ⟨p, seen⟩ rest := by
  cases k <;> simp only [resolve, resolveWith, h, hs]

theorem resolve_loop (h : lstat t (n :: path) = some (.link w))
    (hs : seen.get? (n :: path) = some none) :
    resolve t k ⟨path, seen⟩ (.part (.name n) :: rest) = resolve t k ⟨n :: path, seen⟩ rest := by
  cases k <;> simp only [resolve, resolveWith, h, hs]

theorem resolve_link (h : lstat t (n :: path) = some (.link w))
    (hs : seen.get? (n :: path) = none) :
    resolve t (k + 1) ⟨path, seen⟩ (.part (.name n) :: rest) =
      resolve t k ⟨w.start path, seen.set (n :: path) none⟩
        (w.parts.map .part ++ .mark (n :: path) :: rest) := by
  simp only [resolve, resolveWith, h, hs]

end

/-- The loop gets from `d` along the path to `q`, in some of its turns. The links that
are being resolved are then those that were. -/
def Arrives (t : FileTree ν) (seen : Dict (Place ν) (Option (Place ν))) (d : Place ν)
    (ps : List (Component ν)) (q : Place ν) (rest : List (Item ν)) : Prop :=
  ∃ c seen', Ok t seen' ∧ (∀ l, seen'.get? l = some none ↔ seen.get? l = some none) ∧
    ∀ k, Enough t k seen → Enough t (k - c) seen' ∧ c ≤ k ∧
      resolve t k ⟨d, seen⟩ (ps.map .part ++ rest) = resolve t (k - c) ⟨q, seen'⟩ rest

section
variable {rest : List (Item ν)} {part : Component ν} {w : Written ν}

theorem arrives_nil (h : Ok t seen) (d : Place ν) : Arrives t seen d [] d rest :=
  ⟨0, seen, h, fun _ => Iff.rfl, fun k hk => ⟨hk, Nat.zero_le k, rfl⟩⟩

/-- A component that takes no turn. -/
theorem Arrives.step (e : ∀ k rest,
      resolve t k ⟨d, seen⟩ (.part part :: rest) = resolve t k ⟨p, seen⟩ rest)
    (h : Arrives t seen p ps q rest) : Arrives t seen d (part :: ps) q rest := by
  obtain ⟨c, seen', hok, hopen, hk⟩ := h
  refine ⟨c, seen', hok, hopen, fun k hen => ?_⟩
  obtain ⟨hen', hc, hr⟩ := hk k hen
  exact ⟨hen', hc, (e k _).trans hr⟩

/-- A link that was not met before takes a turn more than its target. -/
theorem Arrives.link (hok : Ok t seen) (hx : t.node (n :: d) = some (.link w))
    (hst : lstat t (n :: d) = some (.link w)) (hs : seen.get? (n :: d) = none)
    (hg : Goes t m (w.start d) w.parts p) (hp : Sound t p)
    (h : Arrives t (seen.set (n :: d) none) (w.start d) w.parts p
      (.mark (n :: d) :: (ps.map .part ++ rest)))
    (h' : ∀ seen', Ok t seen' → (∀ l, seen'.get? l = some none ↔ seen.get? l = some none) →
      Arrives t seen' p ps q rest) : Arrives t seen d (.name n :: ps) q rest := by
  have hne : ∀ l, seen.get? l = some none → l ≠ n :: d := by
    rintro l hl rfl
    rw [hs] at hl
    cases hl
  obtain ⟨c₁, seen₁, hok₁, hopen₁, hk₁⟩ := h
  have hopen₁' := get?_set_open hne hopen₁ p
  obtain ⟨c₂, seen₂, hok₂, hopen₂, hk₂⟩ :=
    h' (seen₁.set (n :: d) (some p)) (hok₁.close hx (fun m' q' hg' => (hg.det hg').2) hp) hopen₁'
  refine ⟨c₁ + c₂ + 1, seen₂, hok₂, fun l => (hopen₂ l).trans (hopen₁' l), fun k hk => ?_⟩
  obtain ⟨k, rfl, hk'⟩ := hk.open hok hx hs
  obtain ⟨he₁, hc₁, hr₁⟩ := hk₁ k hk'
  obtain ⟨he₂, hc₂, hr₂⟩ := hk₂ (k - c₁) (he₁.set _ _)
  have hsub : k + 1 - (c₁ + c₂ + 1) = k - c₁ - c₂ := by omega
  rw [hsub]
  refine ⟨he₂, by omega, ?_⟩
  calc resolve t (k + 1) ⟨d, seen⟩ (.part (.name n) :: (ps.map .part ++ rest))
      = resolve t k ⟨w.start d, seen.set (n :: d) none⟩
          (w.parts.map .part ++ .mark (n :: d) :: (ps.map .part ++ rest)) :=
        resolve_link _ hst hs
    _ = resolve t (k - c₁) ⟨p, seen₁⟩ (.mark (n :: d) :: (ps.map .part ++ rest)) := hr₁
    _ = resolve t (k - c₁) ⟨p, seen₁.set (n :: d) (some p)⟩ (ps.map .part ++ rest) :=
        resolve_mark _ _ _
    _ = resolve t (k - c₁ - c₂) ⟨q, seen₂⟩ rest := hr₂

end

/-- Along a derivation, the loop arrives where the path leads. -/
theorem resolve_goes (h : Goes t m d ps q) {seen : Dict (Place ν) (Option (Place ν))}
    (rest : List (Item ν)) (hok : Ok t seen) (hfit : Fits t m seen) :
    Arrives t seen d ps q rest := by
  induction h generalizing seen rest with
  | nil d => exact arrives_nil hok d
  | here _ _ ih => exact (ih rest hok (hfit.mono (Nat.le_succ _))).step fun _ _ => resolve_here _ _
  | up _ _ ih => exact (ih rest hok (hfit.mono (Nat.le_succ _))).step fun _ _ => resolve_up _ _
  | entry hd hx hl _ ih =>
    refine (ih rest hok (hfit.mono (Nat.le_succ _))).step fun _ _ => resolve_entry _ fun w e => ?_
    rw [lstat_sound (solid_dir hd).sound, hx] at e
    exact hl w (Option.some.inj e)
  | @link m₁ m₂ d q q₁ n w ps hd hx h₁ h₂ ih₁ ih₂ =>
    have hst : lstat t (n :: d) = some (.link w) :=
      (lstat_sound (solid_dir hd).sound).trans hx
    have hfit₂ : Fits t m₂ seen := hfit.mono (by omega)
    cases hs : seen.get? (n :: d) with
    | none =>
      have hfit₁ : Fits t m₁ (seen.set (n :: d) none) := (hfit.mono (by omega)).open hx h₁
      refine .link hok hx hst hs h₁ (h₁.solid (solid_start hd w)).sound
        (ih₁ _ (hok.open hx) hfit₁) fun seen' hok' hopen => ?_
      exact ih₂ rest hok' (hfit₂.congr hopen)
    | some v =>
      cases v with
      | none =>
        -- a link that is being resolved is not part of its own target
        have := hfit _ hs w m₁ q₁ hx h₁
        omega
      | some p =>
        obtain rfl := hok.leads _ p w hs hx m₁ q₁ h₁
        exact (ih₂ rest hok hfit₂).step fun _ _ => resolve_known _ hst hs

/-! ## What `realpath` leaves -/

/-- The loop as it stands: what is being resolved leads nowhere. -/
structure Lost (t : FileTree ν) (k : Nat) (s : St ν) (rest : List (Item ν)) : Prop where
  ok : Ok t s.seen
  dead : ∀ l, s.seen.get? l = some none → Dead t l
  enough : Enough t k s.seen
  path : Sound t s.path
  marks : ∀ l, .mark l ∈ rest → Dead t l ∧ ∃ w, t.node l = some (.link w)

theorem Lost.next {s s' : St ν} {rest rest' : List (Item ν)} (h : Lost t k s rest)
    (hseen : s'.seen = s.seen) (hp : Sound t s'.path) (hr : ∀ i ∈ rest', i ∈ rest) :
    Lost t k s' rest' where
  ok := hseen ▸ h.ok
  dead := hseen ▸ h.dead
  enough := hseen ▸ h.enough
  path := hp
  marks l hl := h.marks l (hr _ hl)

theorem Lost.mark {path l : Place ν} {rest : List (Item ν)}
    (h : Lost t k ⟨path, seen⟩ (.mark l :: rest)) :
    Lost t k ⟨path, seen.set l (some path)⟩ rest := by
  obtain ⟨hdead, w, hx⟩ := h.marks l List.mem_cons_self
  refine ⟨h.ok.close hx (fun m q hg => absurd ⟨m, q, hg⟩ (hdead w hx)) h.path, fun l' hl' => ?_,
    h.enough.set _ _, h.path, fun l' hl' => h.marks l' (List.mem_cons_of_mem _ hl')⟩
  rw [Dict.get?_set] at hl'
  split at hl'
  · cases hl'
  · exact h.dead l' hl'

/-- A link that leads nowhere is opened. -/
theorem Lost.open {path : Place ν} {rest : List (Item ν)} {w : Written ν}
    (h : Lost t (k + 1) ⟨path, seen⟩ (.part (.name n) :: rest))
    (hx : t.node (n :: path) = some (.link w)) (hdead : Dead t (n :: path))
    (hk : Enough t k (seen.set (n :: path) none)) :
    Lost t k ⟨w.start path, seen.set (n :: path) none⟩
      (w.parts.map .part ++ .mark (n :: path) :: rest) where
  ok := h.ok.open hx
  dead l hl := by
    rw [Dict.get?_set] at hl
    split at hl
    · rename_i e
      exact e ▸ hdead
    · exact h.dead l hl
  enough := hk
  path := by
    show Sound t (w.start path)
    unfold Written.start
    split
    · exact sound_root
    · exact h.path
  marks l hl := by
    rcases List.mem_append.mp hl with hl | hl
    · obtain ⟨_, -, e⟩ := List.mem_map.mp hl
      cases e
    · rcases List.mem_cons.mp hl with e | hl
      · cases e
        exact ⟨hdead, w, hx⟩
      · exact h.marks l (List.mem_cons_of_mem _ hl)

/-- A link that leads somewhere is passed, in as many turns whatever is left. -/
theorem Lost.pass {path : Place ν} {rest : List (Item ν)} {w : Written ν}
    (h : Lost t k ⟨path, seen⟩ (.part (.name n) :: rest))
    (hx : t.node (n :: path) = some (.link w)) (hg : Goes t m (w.start path) w.parts q) :
    ∃ c seen', c ≤ k ∧ Lost t (k - c) ⟨q, seen'⟩ rest ∧
      ∀ j, k ≤ j → resolve t j ⟨path, seen⟩ (.part (.name n) :: rest) =
        resolve t (j - c) ⟨q, seen'⟩ rest := by
  have hdir : t.node path = some .dir := t.parents n path (by
    rw [show t.nodes.get? (n :: path) = _ from hx]
    exact Option.some_ne_none _)
  obtain ⟨c, seen', hok, hopen, hr⟩ :=
    resolve_goes (.link hdir hx hg (.nil q)) rest h.ok (fits_of_dead h.dead _)
  refine ⟨c, seen', (hr k h.enough).2.1, ⟨hok, fun l hl => h.dead l ((hopen l).mp hl),
    (hr k h.enough).1, (hg.solid (solid_start hdir w)).sound,
    fun l hl => h.marks l (List.mem_cons_of_mem _ hl)⟩, fun j hj => (hr j ?_).2.2⟩
  exact h.enough.trans (Nat.add_le_add_right hj _)

/-- No link in the answer leads anywhere, and more turns change nothing. A link
that leads somewhere is passed in one go (`Lost.pass`), so that the links being
resolved are always dead. -/
theorem resolve_lost {s : St ν} {rest : List (Item ν)} (h : Lost t k s rest) :
    Sound t (resolve t k s rest) ∧ resolve t (k + 1) s rest = resolve t k s rest := by
  induction k using Nat.strong_induction_on generalizing s rest with
  | _ k ih =>
  induction rest generalizing s with
  | nil => exact ⟨by cases k <;> exact h.path, by cases k <;> rfl⟩
  | cons i rest ihr =>
    obtain ⟨path, seen⟩ := s
    have hsub : ∀ j ∈ rest, j ∈ i :: rest := fun j hj => List.mem_cons_of_mem _ hj
    cases i with
    | mark l =>
      rw [resolve_mark, resolve_mark]
      exact ihr h.mark
    | part p =>
      cases p with
      | here =>
        rw [resolve_here, resolve_here]
        exact ihr (h.next rfl h.path hsub)
      | up =>
        rw [resolve_up, resolve_up]
        exact ihr (h.next rfl h.path.tail hsub)
      | name n =>
        have hst : lstat t (n :: path) = t.node (n :: path) := lstat_sound h.path
        by_cases hw : ∃ w, t.node (n :: path) = some (.link w)
        · obtain ⟨w, hx⟩ := hw
          rw [hx] at hst
          by_cases hg : ∃ m q, Goes t m (w.start path) w.parts q
          · obtain ⟨m, q, hg⟩ := hg
            obtain ⟨c, seen', hc, hlost, hr⟩ := h.pass hx hg
            rw [hr k le_rfl, hr (k + 1) (Nat.le_succ k), Nat.succ_sub hc]
            rcases Nat.eq_zero_or_pos c with rfl | hpos
            · exact ihr hlost
            · exact ih _ (by omega) hlost
          · have hdead : Dead t (n :: path) := fun w' hx' hg' => by
              cases Option.some.inj (hx.symm.trans hx')
              exact hg hg'
            cases hs : seen.get? (n :: path) with
            | some v =>
              cases v with
              | none =>
                rw [resolve_loop _ hst hs, resolve_loop _ hst hs]
                exact ihr (h.next rfl (h.path.cons hdead) hsub)
              | some p =>
                rw [resolve_known _ hst hs, resolve_known _ hst hs]
                exact ihr (h.next rfl (h.ok.sound _ _ hs) hsub)
            | none =>
              obtain ⟨k, rfl, hk⟩ := h.enough.open h.ok hx hs
              rw [resolve_link _ hst hs, resolve_link _ hst hs]
              exact ih k (Nat.lt_succ_self k) (h.open hx hdead hk)
        · have hne : ∀ w, lstat t (n :: path) ≠ some (.link w) :=
            fun w e => hw ⟨w, hst ▸ e⟩
          rw [resolve_entry _ hne, resolve_entry _ hne]
          exact ihr (h.next rfl (h.path.cons (dead_of_ne fun w e => hw ⟨w, e⟩)) hsub)

end

section
variable {t : FileTree ν} {p q : Place ν} {ps : List (Component ν)} {m : Nat}

theorem enough_start (t : FileTree ν) : Enough t t.nodes.items.length .empty := by
  unfold Enough Dict.keys
  rw [List.length_map]
  exact Nat.le_add_right _ _

theorem lost_start (t : FileTree ν) (ps : List (Component ν)) :
    Lost t t.nodes.items.length ⟨[], .empty⟩ (ps.map .part) where
  ok := ok_empty
  dead l h := nomatch h
  enough := enough_start t
  path := sound_root
  marks l hl := by
    obtain ⟨_, -, e⟩ := List.mem_map.mp hl
    cases e

/-- Where a path leads somewhere, `realpath` finds the place. -/
theorem realpath_goes (h : Goes t m [] ps q) : realpath t ps = q := by
  obtain ⟨c, seen, -, -, hk⟩ := resolve_goes h [] ok_empty fun l hl => nomatch hl
  obtain ⟨-, -, e⟩ := hk _ (enough_start t)
  rw [List.append_nil] at e
  rw [realpath, e]
  cases t.nodes.items.length - c <;> rfl

/-- A link that `realpath` leaves in its answer leads nowhere, and the links of the
tree were turns enough. -/
theorem dead_realpath (t : FileTree ν) (ps : List (Component ν)) : Sound t (realpath t ps) ∧
    resolve t (t.nodes.items.length + 1) ⟨[], .empty⟩ (ps.map .part) = realpath t ps :=
  resolve_lost (lost_start t ps)

/-- A file that the kernel finds at the answer stands there. -/
theorem isFile_realpath : isFile t (realpath t ps) = true ↔ t.node (realpath t ps) = some .file :=
  isFile_sound (dead_realpath t ps).1

/-- The names of a place that stands there are resolved to it. -/
theorem realpath_names (h : Solid t p) : realpath t (names p) = p := by
  obtain ⟨m, hm⟩ := goes_of_walk (walk_names maxLinks h)
  exact realpath_goes hm

end

end MailserverUi.RealPath

import MailserverUi.Core.LTS
import MailserverUi.Core.Text

/-!
# The generated secret key (`config.py`)

Without `SECRET_KEY`, a process that boots reads its key from a file, and makes
the file where there is none or it is empty. Here any number of processes boot,
at once or one after the other, one file system call at a time:

* `read`: the first read; a failing one counts as an empty file;
* `create`: the exclusive `open`, which fails on a file that is there;
* `write`: the descriptor is flushed and closed; an error may leave a part;
* `reread`: the key of whoever created the file.

A process may be killed anywhere. The session tokens of every process are signed
with its key, so that all should have the same one, for good.

Results:
* `inv_inductive`: nobody writes to a file but the one that created it.
* `key_kept`: the key in the file stays.
* `keys_agree`: as long as no read finds an empty file, all processes that meet
  no error have the key in the file, and it is not empty.
* `hollow_kept`: an empty file with nobody left to write it is never repaired:
  every process that meets no error has the empty key from then on.
* `empty_key`: a read between the creation and the write ends with no key at all.
-/
namespace MailserverUi.L5.SecretKey

open Py

variable {ι : Type} [DecidableEq ι]

/-- `secrets.token_hex(32)`. -/
structure Key where
  text : Str
  length : text.length = 64
  noSpace : NoSpace text

theorem Key.ne_nil (k : Key) : k.text ≠ [] := fun e => by
  have := k.length
  rw [e] at this
  cases this

/-- Where a process is; `done` has its `secret_key`, and whether a call failed
on the way. -/
inductive Pc where
  | start
  | missed
  | writing
  | late
  | done (secretKey : Str) (failed : Bool)
  | dead
  deriving DecidableEq, Repr

structure St (ι : Type) where
  /-- the contents of the key file -/
  file : Option Str
  pc : ι → Pc

inductive Lbl (ι : Type) where
  | read (i : ι)
  | readFails (i : ι)
  | create (i : ι)
  | createFails (i : ι)
  | write (i : ι)
  | writeFails (i : ι) (written : Nat)
  | reread (i : ι)
  | rereadFails (i : ι)
  | kill (i : ι) (written : Nat)
  deriving DecidableEq, Repr

def St.goto (s : St ι) (i : ι) (pc : Pc) : St ι :=
  { s with pc := fun j => if j = i then pc else s.pc j }

/-- `key_file.read_text(...).strip()`, where the file can be read. -/
def St.existing (s : St ι) : Str := strip ((s.file.map universalNewlines).getD [])

section
variable (given : ι → Str) (key : ι → Key)

/-- A process with `SECRET_KEY` has that one; else the file is looked at. -/
def found (s : St ι) (i : ι) (existing : Str) : St ι :=
  if given i ≠ [] then s.goto i (.done (given i) false)
  else if existing ≠ [] then s.goto i (.done existing false)
  else s.goto i .missed

/-- One call of one process; `key i` is what `token_hex` gives it.
mirrors backend/app/config.py:139-183 -/
def step (s : St ι) : Lbl ι → Option (St ι)
  | .read i =>
    match s.pc i with
    | .start => some (found given s i s.existing)
    | _ => none
  | .readFails i =>
    match s.pc i with
    | .start => some (found given s i [])
    | _ => none
  | .create i =>
    match s.pc i with
    | .missed =>
      match s.file with
      | none => some ({ s with file := some [] }.goto i .writing)
      | some _ => some (s.goto i .late)
    | _ => none
  -- the directory or the file cannot be made
  | .createFails i =>
    match s.pc i with
    | .missed => some (s.goto i (.done (key i).text true))
    | _ => none
  | .write i =>
    match s.pc i with
    | .writing => some ({ s with file := some (key i).text }.goto i (.done (key i).text false))
    | _ => none
  | .writeFails i written =>
    match s.pc i with
    | .writing =>
      some ({ s with file := some ((key i).text.take written) }.goto i (.done (key i).text true))
    | _ => none
  | .reread i =>
    match s.pc i with
    | .late => some (s.goto i (.done s.existing false))
    | _ => none
  -- raised in the handler of another exception, so that nothing catches it
  | .rereadFails i =>
    match s.pc i with
    | .late => some (s.goto i .dead)
    | _ => none
  | .kill i written =>
    match s.pc i with
    | .done _ _ => none
    | .writing => some ({ s with file := some ((key i).text.take written) }.goto i .dead)
    | _ => some (s.goto i .dead)

/-- Nobody has booted; the file is whatever was left there. -/
def Start (s : St ι) : Prop := ∀ i, s.pc i = .start

def boots : LTS (St ι) (Lbl ι) := .ofFn Start (step given key)

/-- The file is there, and there is nothing in it. -/
def St.Hollow (s : St ι) : Prop := s.file.isSome = true ∧ s.existing = []

instance (s : St ι) : Decidable s.Hollow := inferInstanceAs (Decidable (_ ∧ _))

/-- The file is not read while it is empty. -/
def Timely (s : St ι) : Lbl ι → Prop
  | .read _ | .reread _ => ¬ s.Hollow
  | _ => True

instance (s : St ι) : (l : Lbl ι) → Decidable (Timely s l)
  | .read _ | .reread _ => inferInstanceAs (Decidable (¬ s.Hollow))
  | .readFails _ | .create _ | .createFails _ | .write _ | .writeFails _ _ | .rereadFails _
  | .kill _ _ => inferInstanceAs (Decidable True)

end

/-! ## The file -/

section
variable {given : ι → Str} {key : ι → Key} {s s' : St ι} {l : Lbl ι}

theorem existing_key (k : Key) : strip (universalNewlines k.text) = k.text := by
  have hcr : '\r' ∉ k.text := fun h => absurd (k.noSpace _ h) (by decide)
  rw [universalNewlines_eq_self hcr, k.noSpace.strip_eq]

/-- Only the one that made the file writes to it, and then it is still empty;
whoever has a key that nothing failed for has the one in the file, or none. -/
structure Inv (given : ι → Str) (s : St ι) : Prop where
  writing : ∀ i, s.pc i = .writing → s.file = some [] ∧ ∀ j, s.pc j = .writing → j = i
  late : ∀ i, s.pc i = .late → s.file.isSome = true
  done : ∀ i a, s.pc i = .done a false → given i = [] → a = [] ∨ s.existing = a

omit [DecidableEq ι] in
theorem existing_none (h : s.file = none) : s.existing = [] := by
  rw [St.existing, h]
  rfl

omit [DecidableEq ι] in
theorem existing_empty (h : s.file = some []) : s.existing = [] := by
  rw [St.existing, h]
  rfl

/-- A process moves on, and the file stays. -/
theorem Inv.goto (h : Inv given s) {i : ι} {pc : Pc} (hw : pc ≠ .writing)
    (hl : pc = .late → s.file.isSome = true)
    (hd : ∀ a, pc = .done a false → given i = [] → a = [] ∨ s.existing = a) :
    Inv given (s.goto i pc) where
  writing j hj := by
    unfold St.goto at hj
    simp only at hj
    split at hj
    · exact absurd hj hw
    · obtain ⟨hf, hone⟩ := h.writing j hj
      refine ⟨hf, fun k hk => ?_⟩
      unfold St.goto at hk
      simp only at hk
      split at hk
      · exact absurd hk hw
      · exact hone k hk
  late j hj := by
    unfold St.goto at hj
    simp only at hj
    split at hj
    · exact hl hj
    · exact h.late j hj
  done j a hj hg := by
    unfold St.goto at hj
    simp only at hj
    split at hj
    · rename_i e
      exact hd a hj (e ▸ hg)
    · exact h.done j a hj hg

/-- The process that made the file is done with it: whatever it leaves there,
nobody else has a key from it yet. -/
theorem Inv.closed (h : Inv given s) {i : ι} (hi : s.pc i = .writing) {pc : Pc} (x : Str)
    (hw : pc ≠ .writing)
    (hd : ∀ a, pc = .done a false → ({ s with file := some x } : St ι).existing = a) :
    Inv given ({ s with file := some x }.goto i pc) := by
  obtain ⟨hf, hone⟩ := h.writing i hi
  have hempty := existing_empty hf
  refine ⟨fun j hj => ?_, fun _ _ => rfl, fun j a hj hg => ?_⟩
  · unfold St.goto at hj
    simp only at hj
    split at hj
    · exact absurd hj hw
    · rename_i e
      exact absurd (hone j hj) e
  · unfold St.goto at hj
    simp only at hj
    split at hj
    · exact .inr (hd a hj)
    · rcases h.done j a hj hg with e | e
      · exact .inl e
      · exact .inl (e.symm.trans hempty)

theorem Inv.found (h : Inv given s) {i : ι} {e : Str} (he : e = [] ∨ e = s.existing) :
    Inv given (found given s i e) := by
  unfold SecretKey.found
  split
  · rename_i hg
    exact h.goto nofun nofun fun _ _ hg' => absurd hg' hg
  · split
    · exact h.goto nofun nofun fun a ha _ => by
        cases ha
        exact .inr (he.resolve_left ‹_›).symm
    · exact h.goto nofun nofun nofun

theorem inv_step (h : Inv given s) (hs : step given key s l = some s') : Inv given s' := by
  cases l with
  | read i =>
    rw [step] at hs
    split at hs
    · cases hs
      exact h.found (.inr rfl)
    · cases hs
  | readFails i =>
    rw [step] at hs
    split at hs
    · cases hs
      exact h.found (.inl rfl)
    · cases hs
  | create i =>
    rw [step] at hs
    split at hs
    · split at hs
      · rename_i hf
        cases hs
        -- nobody has a key from a file that is not there
        have hnone := existing_none hf
        have hw : ∀ j, s.pc j ≠ .writing := fun j hj => by
          rw [(h.writing j hj).1] at hf
          cases hf
        refine ⟨fun j hj => ?_, fun j hj => rfl, fun j a hj hg => ?_⟩
        · refine ⟨rfl, fun k hk => ?_⟩
          unfold St.goto at hj hk
          simp only at hj hk
          split at hj
          · split at hk
            · rename_i e e'
              exact e'.trans e.symm
            · exact absurd hk (hw k)
          · exact absurd hj (hw j)
        · unfold St.goto at hj
          simp only at hj
          split at hj
          · cases hj
          · rcases h.done j a hj hg with e | e
            · exact .inl e
            · exact .inl (e.symm.trans hnone)
      · rename_i hf
        cases hs
        exact h.goto nofun (fun _ => by rw [hf]; rfl) nofun
    · cases hs
  | createFails i =>
    rw [step] at hs
    split at hs
    · cases hs
      exact h.goto nofun nofun nofun
    · cases hs
  | write i =>
    rw [step] at hs
    split at hs
    · rename_i hi
      cases hs
      refine h.closed hi _ nofun fun a ha => ?_
      cases ha
      exact existing_key (key i)
    · cases hs
  | writeFails i written =>
    rw [step] at hs
    split at hs
    · rename_i hi
      cases hs
      exact h.closed hi _ nofun nofun
    · cases hs
  | reread i =>
    rw [step] at hs
    split at hs
    · cases hs
      exact h.goto nofun nofun fun a ha _ => by
        cases ha
        exact .inr rfl
    · cases hs
  | rereadFails i =>
    rw [step] at hs
    split at hs
    · cases hs
      exact h.goto nofun nofun nofun
    · cases hs
  | kill i written =>
    rw [step] at hs
    split at hs
    · cases hs
    · rename_i hi
      cases hs
      exact h.closed hi _ nofun nofun
    · cases hs
      exact h.goto nofun nofun nofun

theorem inv_inductive (given : ι → Str) (key : ι → Key) :
    (boots given key).Inductive (Inv given) where
  init s hs := by
    refine ⟨fun i hi => ?_, fun i hi => ?_, fun i a hi => ?_⟩
    all_goals
      rw [hs i] at hi
      cases hi
  step _ _ _ h hs := inv_step h hs

/-! ## The key stays -/

theorem existing_step (h : Inv given s) (hs : step given key s l = some s')
    (hne : s.existing ≠ []) : s'.existing = s.existing := by
  have hwriting (i : ι) (hi : s.pc i = .writing) : False :=
    hne (existing_empty (h.writing i hi).1)
  cases l with
  | read i | readFails i =>
    rw [step] at hs
    split at hs
    · cases hs
      unfold found
      split_ifs <;> rfl
    · cases hs
  | create i =>
    rw [step] at hs
    split at hs
    · split at hs
      · exact absurd (existing_none ‹_›) hne
      · cases hs
        rfl
    · cases hs
  | write i | writeFails i written =>
    rw [step] at hs
    split at hs
    · exact (hwriting i ‹_›).elim
    · cases hs
  | createFails i | reread i | rereadFails i =>
    rw [step] at hs
    split at hs
    · cases hs
      rfl
    · cases hs
  | kill i written =>
    rw [step] at hs
    split at hs
    · cases hs
    · exact (hwriting i ‹_›).elim
    · cases hs
      rfl

/-- Whatever runs, fails or is killed, a key that is in the file stays in it. -/
theorem key_kept (hs : (boots given key).Reachable s) (hne : s.existing ≠ []) {ls : List (Lbl ι)}
    (hr : (boots given key).Run s ls s') : s'.existing = s.existing := by
  have hinv := (inv_inductive given key).reachable s hs
  induction hr with
  | nil => rfl
  | @cons s s₁ s' l ls hst _ ih =>
    have he := existing_step hinv hst hne
    exact (ih (hs.next hst) (by rw [he]; exact hne) (inv_step hinv hst)).trans he

/-! ## The processes agree -/

/-- Nobody that nothing failed for has an empty key. -/
def NonEmpty (given : ι → Str) (s : St ι) : Prop :=
  ∀ i a, s.pc i = .done a false → given i = [] → a ≠ []

theorem NonEmpty.goto (h : NonEmpty given s) {i : ι} {pc : Pc}
    (hd : ∀ a, pc = .done a false → given i = [] → a ≠ []) : NonEmpty given (s.goto i pc) := by
  intro j a hj hg
  unfold St.goto at hj
  simp only at hj
  split at hj
  · rename_i e
    exact hd a hj (e ▸ hg)
  · exact h j a hj hg

theorem nonEmpty_step (hi : Inv given s) (h : NonEmpty given s) (ht : Timely s l)
    (hs : step given key s l = some s') : NonEmpty given s' := by
  have hfound (i : ι) (e : Str) : NonEmpty given (found given s i e) := by
    unfold found
    split
    · exact h.goto fun _ _ hg => absurd hg ‹_›
    · split
      · refine h.goto fun a ha _ => ?_
        cases ha
        assumption
      · exact h.goto nofun
  cases l with
  | read i | readFails i =>
    rw [step] at hs
    split at hs
    · cases hs
      exact hfound i _
    · cases hs
  | create i =>
    rw [step] at hs
    split at hs
    · split at hs
      · cases hs
        exact NonEmpty.goto (s := { s with file := some [] }) h nofun
      · cases hs
        exact h.goto nofun
    · cases hs
  | write i =>
    rw [step] at hs
    split at hs
    · cases hs
      refine NonEmpty.goto (s := { s with file := some (key i).text }) h fun a ha _ => ?_
      cases ha
      exact (key i).ne_nil
    · cases hs
  | writeFails i written =>
    rw [step] at hs
    split at hs
    · cases hs
      exact NonEmpty.goto (s := { s with file := some _ }) h nofun
    · cases hs
  | reread i =>
    rw [step] at hs
    split at hs
    · rename_i hl
      cases hs
      refine h.goto fun a ha _ e => ht ⟨hi.late i hl, ?_⟩
      cases ha
      exact e
    · cases hs
  | createFails i | rereadFails i =>
    rw [step] at hs
    split at hs
    · cases hs
      exact h.goto nofun
    · cases hs
  | kill i written =>
    rw [step] at hs
    split at hs
    · cases hs
    · cases hs
      exact NonEmpty.goto (s := { s with file := some _ }) h nofun
    · cases hs
      exact h.goto nofun

/-- In every run in which no read finds an empty file, all processes without a
`SECRET_KEY` of their own that met no error have one key, which is not empty, and
is the one in the file. -/
theorem keys_agree (hs : ((boots given key).guard Timely).Reachable s) {i j : ι} {a b : Str}
    (hi : s.pc i = .done a false) (hj : s.pc j = .done b false) (hgi : given i = [])
    (hgj : given j = []) : a = b ∧ a ≠ [] ∧ s.existing = a := by
  have hind : ((boots given key).guard Timely).Inductive
      fun s => Inv given s ∧ NonEmpty given s := by
    refine ⟨fun s h => ⟨(inv_inductive given key).init s h, fun i a hi => ?_⟩,
      fun s l s' h hst => ⟨inv_step h.1 hst.2, nonEmpty_step h.1 h.2 hst.1 hst.2⟩⟩
    rw [h i] at hi
    cases hi
  obtain ⟨hinv, hne⟩ := hind.reachable s hs
  have ha := (hinv.done i a hi hgi).resolve_left (hne i a hi hgi)
  have hb := (hinv.done j b hj hgj).resolve_left (hne j b hj hgj)
  exact ⟨ha.symm.trans hb, hne i a hi hgi, ha⟩

/-! ## An empty file stays empty -/

/-- The file is empty, and whoever made it is gone. -/
structure Deserted (s : St ι) : Prop where
  hollow : s.Hollow
  nobody : ∀ i, s.pc i ≠ .writing

theorem Deserted.goto (h : Deserted s) {i : ι} {pc : Pc} (hw : pc ≠ .writing) :
    Deserted (s.goto i pc) := by
  refine ⟨h.hollow, fun j hj => ?_⟩
  unfold St.goto at hj
  simp only at hj
  split at hj
  · exact hw hj
  · exact h.nobody j hj

/-- What a process without a `SECRET_KEY` has at the end of this step, it had
before, or it is empty. -/
def OnlyEmpty (given : ι → Str) (s s' : St ι) : Prop :=
  ∀ i a, s'.pc i = .done a false → given i = [] → s.pc i = .done a false ∨ a = []

theorem onlyEmpty_goto {i : ι} {pc : Pc} (hd : ∀ a, pc = .done a false → given i = [] → a = []) :
    OnlyEmpty given s (s.goto i pc) := by
  intro j a hj hg
  unfold St.goto at hj
  simp only at hj
  split at hj
  · rename_i e
    exact .inr (hd a hj (e ▸ hg))
  · exact .inl hj

theorem deserted_step (h : Deserted s) (hs : step given key s l = some s') :
    Deserted s' ∧ OnlyEmpty given s s' := by
  have hfound (i : ι) {e : Str} (he : e = []) :
      Deserted (found given s i e) ∧ OnlyEmpty given s (found given s i e) := by
    unfold found
    split
    · exact ⟨h.goto nofun, onlyEmpty_goto fun _ _ hg => absurd hg ‹_›⟩
    · rw [if_neg (not_not.mpr he)]
      exact ⟨h.goto nofun, onlyEmpty_goto nofun⟩
  cases l with
  | read i | readFails i =>
    rw [step] at hs
    split at hs
    · cases hs
      first
        | exact hfound i h.hollow.2
        | exact hfound i rfl
    · cases hs
  | create i =>
    rw [step] at hs
    split at hs
    · split at hs
      · rename_i hf
        have := h.hollow.1
        rw [hf] at this
        cases this
      · cases hs
        exact ⟨h.goto nofun, onlyEmpty_goto nofun⟩
    · cases hs
  | write i | writeFails i written =>
    rw [step] at hs
    split at hs
    · exact absurd ‹_› (h.nobody i)
    · cases hs
  | createFails i | rereadFails i =>
    rw [step] at hs
    split at hs
    · cases hs
      exact ⟨h.goto nofun, onlyEmpty_goto nofun⟩
    · cases hs
  | reread i =>
    rw [step] at hs
    split at hs
    · cases hs
      refine ⟨h.goto nofun, onlyEmpty_goto fun a ha _ => ?_⟩
      cases ha
      exact h.hollow.2
    · cases hs
  | kill i written =>
    rw [step] at hs
    split at hs
    · cases hs
    · exact absurd ‹_› (h.nobody i)
    · cases hs
      exact ⟨h.goto nofun, onlyEmpty_goto nofun⟩

/-- Whatever runs from then on, an empty file with nobody left to write it stays
empty, and a process without a `SECRET_KEY` that boots and meets no error has the
empty key. -/
theorem hollow_kept (h : Deserted s) {ls : List (Lbl ι)}
    (hr : (boots given key).Run s ls s') : s'.Hollow ∧ OnlyEmpty given s s' := by
  have hrun : Deserted s' ∧ OnlyEmpty given s s' := by
    induction hr with
    | nil s => exact ⟨h, fun _ _ hi _ => .inl hi⟩
    | cons hst _ ih =>
      obtain ⟨h₁, ho⟩ := deserted_step h hst
      obtain ⟨h', ho'⟩ := ih h₁
      refine ⟨h', fun i a hi hg => ?_⟩
      rcases ho' i a hi hg with hi | e
      · exact ho i a hi hg
      · exact .inr e
  exact ⟨hrun.1.hollow, hrun.2⟩

end

/-! ### Two processes -/

def ones : Key := ⟨List.replicate 64 '1', List.length_replicate, by decide⟩

def twos : Key := ⟨List.replicate 64 '2', List.length_replicate, by decide⟩

def keys : Bool → Key
  | false => ones
  | true => twos

def unset : Bool → Str := fun _ => []

/-- Nothing in the data directory. -/
def emptyDir : St Bool := ⟨none, fun _ => .start⟩

/-- The second process finds the file of the first. -/
theorem keys_agree_fresh :
    ∃ s, ((boots unset keys).guard Timely).Reachable s ∧ s.pc false = .done s.existing false ∧
      s.pc true = .done s.existing false ∧ s.existing ≠ [] := by
  obtain ⟨s, hs, hp⟩ := LTS.guard_reachable_of_exec (f := step unset keys) (G := Timely)
    (I := Start) (s := emptyDir) (fun _ => rfl)
    [.read false, .read true, .create false, .create true, .write false, .reread true]
    (fun s => s.pc false = .done ones.text false ∧ s.pc true = .done ones.text false)
    (by decide +kernel)
  obtain ⟨h₁, h₂⟩ := of_decide_eq_true hp
  obtain ⟨-, hne, he⟩ := keys_agree hs h₁ h₂ rfl rfl
  exact ⟨s, hs, by rw [he, h₁], by rw [he, h₂], by rwa [he]⟩

/-- The first process is killed before it writes. -/
def abandoned : St Bool :=
  ⟨some [], fun i => if i = false then .dead else .start⟩

theorem hollow_kept_abandoned : ∃ s', (boots unset keys).Run abandoned
    [.read true, .create true, .reread true] s' ∧ s'.Hollow ∧ OnlyEmpty unset abandoned s' := by
  obtain ⟨s', hr, -⟩ := LTS.exists_run_of_exec (f := step unset keys) (I := Start)
    (s := abandoned) [.read true, .create true, .reread true] (fun _ => true) rfl
  refine ⟨s', hr, hollow_kept ⟨⟨rfl, rfl⟩, fun i hi => ?_⟩ hr⟩
  cases i <;> cases hi

/-- It may also read the file before anything is in it, and signs with the empty
key from then on. -/
theorem empty_key :
    ∃ s, (boots unset keys).Reachable s ∧ s.pc false = .done ones.text false ∧
      s.pc true = .done [] false := by
  obtain ⟨s, hs, hp⟩ := LTS.reachable_of_exec (f := step unset keys) (I := Start) (s := emptyDir)
    (fun _ => rfl)
    [.read false, .read true, .create false, .create true, .reread true, .write false]
    (fun s => s.pc false = .done ones.text false ∧ s.pc true = .done [] false)
    (by decide +kernel)
  exact ⟨s, hs, of_decide_eq_true hp⟩

end MailserverUi.L5.SecretKey

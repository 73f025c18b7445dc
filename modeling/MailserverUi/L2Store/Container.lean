import MailserverUi.Core.Interrupt
import MailserverUi.L2Store.Errors

/-!
# Config files inside the container (`container.py`)

A service function is a program over three commands on the container's files:
read a file, write a config file, delete a config file. Each is one
`docker exec` and atomic here (`MailserverUi.L5.TempFile` looks inside a
write). A write goes through a scratch name, `<path>.tmp`: a file of that name is
overwritten and renamed away.

A command that fails raises out of the function that issued it, and is taken to
have had no effect of its own, so a failed call leaves the files as some
`Prog.cut` of it does. A `docker exec` that is given up after its timeout may
have acted, or act later: that is outside this model.

A file is the text in it; `none` is an absent file. `text=True` makes
`subprocess` read `\r\n` and `\r` as `\n`.
-/
namespace MailserverUi.L2.Container

open Py Errors

/-! ## Commands -/

inductive Cmd where
  | readFile (path : Str)
  | writeConfig (relPath content : Str)
  | deleteConfig (relPath : Str)
  deriving DecidableEq, Repr

abbrev Reply : Cmd → Type
  | .readFile _ => Str
  | .writeConfig _ _ => Unit
  | .deleteConfig _ => Unit

abbrev Io := Prog Cmd Reply ApiError

abbrev Files := Str → Option Str

/-- mirrors backend/app/services/container.py:112-122 -/
def configPath (relPath : Str) : Str := "/tmp/docker-mailserver/".toList ++ relPath

/-- `"$1.tmp"`, for the path of `relPath`. -/
def scratch (relPath : Str) : Str := relPath ++ ".tmp".toList

/-- `cat > "$tmp"`, with `content` on stdin. -/
def Files.put (s : Files) (relPath content : Str) : Files :=
  fun p => if p = configPath relPath then some content else s p

/-- `mv -- "$tmp" "$1"`. -/
def Files.move (s : Files) (a b : Str) : Files :=
  fun p => if p = configPath b then s (configPath a) else if p = configPath a then none else s p

/-- The script of `write_config`.
mirrors backend/app/services/container.py:145-160 -/
def Files.write (s : Files) (relPath content : Str) : Files :=
  (s.put (scratch relPath) content).move (scratch relPath) relPath

def Files.delete (s : Files) (relPath : Str) : Files :=
  fun p => if p = configPath relPath then none else s p

/-- What `read_file` returns: an absent file is empty. -/
def Files.read (s : Files) (path : Str) : Str := universalNewlines ((s path).getD [])

/-- mirrors backend/app/services/container.py:125-168 -/
def box : Machine Cmd Reply Files where
  exec
    | .readFile path, s => (s.read path, s)
    | .writeConfig relPath content, s => ((), s.write relPath content)
    | .deleteConfig relPath, s => ((), s.delete relPath)

/-- The command writes and deletes no file but those of `S`, and what it writes goes
through their scratch names. -/
def Cmd.WritesIn (S : Str → Prop) : Cmd → Prop
  | .readFile _ => True
  | .writeConfig relPath _ | .deleteConfig relPath => S relPath

/-- A file of `S`, or the scratch name of one. -/
def Touched (S : Str → Prop) (f : Str) : Prop := S f ∨ ∃ r, S r ∧ f = scratch r

/-- The command reads, and no path but those of `R`. -/
def Cmd.ReadsIn (R : Str → Prop) : Cmd → Prop
  | .readFile path => R path
  | .writeConfig _ _ | .deleteConfig _ => False

def readFile (path : Str) : Io Str := Prog.request (Cmd.readFile path)

def readConfig (relPath : Str) : Io Str := readFile (configPath relPath)

def writeConfig (relPath content : Str) : Io Unit :=
  Prog.request (Cmd.writeConfig relPath content)

def deleteConfig (relPath : Str) : Io Unit := Prog.request (Cmd.deleteConfig relPath)

/-! ## Files -/

theorem configPath_inj {a b : Str} : configPath a = configPath b ↔ a = b :=
  List.append_right_inj _

theorem scratch_ne (r : Str) : scratch r ≠ r := fun e => by simp [scratch] at e

/-- What does not end in `.tmp` is no scratch name. -/
theorem ne_scratch {f : Str} (h : ¬ ".tmp".toList <:+ f) (r : Str) : f ≠ scratch r := by
  rintro rfl
  exact h (List.suffix_append _ _)

/-- Neither file is the other one, nor its scratch name: writing one leaves the other
alone. -/
structure Unrelated (f g : Str) : Prop where
  ne : f ≠ g
  left : f ≠ scratch g
  right : g ≠ scratch f

instance (f g : Str) : Decidable (Unrelated f g) :=
  decidable_of_iff (f ≠ g ∧ f ≠ scratch g ∧ g ≠ scratch f)
    ⟨fun h => ⟨h.1, h.2.1, h.2.2⟩, fun h => ⟨h.ne, h.left, h.right⟩⟩

theorem Unrelated.symm {f g : Str} (h : Unrelated f g) : Unrelated g f :=
  ⟨h.ne.symm, h.right, h.left⟩

theorem unrelated_of_ne {f g : Str} (h : f ≠ g) (hf : ¬ ".tmp".toList <:+ f)
    (hg : ¬ ".tmp".toList <:+ g) : Unrelated f g := ⟨h, ne_scratch hf g, ne_scratch hg f⟩

/-- What a write does to each path. -/
theorem write_apply (s : Files) (r c p : Str) : s.write r c p =
    if p = configPath r then some c else if p = configPath (scratch r) then none else s p := by
  unfold Files.write Files.move Files.put
  rw [if_pos (rfl : configPath (scratch r) = _)]
  split
  · rfl
  · split <;> rfl

theorem write_self (s : Files) (r c : Str) : s.write r c (configPath r) = some c := by
  rw [write_apply, if_pos rfl]

theorem write_ne (s : Files) {r f : Str} (h : f ≠ r) (ht : f ≠ scratch r) (c : Str) :
    s.write r c (configPath f) = s (configPath f) := by
  rw [write_apply, if_neg (mt configPath_inj.mp h), if_neg (mt configPath_inj.mp ht)]

section
variable {α : Type} {S : Str → Prop} {f : Str}

@[simp] theorem touched_eq {a : Str} : Touched (· = a) f ↔ f = a ∨ f = scratch a := by
  simp [Touched]

theorem not_touched (h : ¬ S f) (ht : ¬ ".tmp".toList <:+ f) : ¬ Touched S f := by
  rintro (hf | ⟨r, -, hf⟩)
  · exact h hf
  · exact ne_scratch ht r hf

@[simp] theorem not_touched_false : ¬ Touched (fun _ => False) f := by
  simp [Touched]

/-- A command leaves a path alone that is none of its files, nor the scratch name of
one. -/
theorem exec_outside {c : Cmd} (h : c.WritesIn S) {p : Str}
    (hp : ∀ r, Touched S r → p ≠ configPath r) (s : Files) : (box.exec c s).2 p = s p := by
  cases c with
  | readFile path => rfl
  | writeConfig r x =>
    show s.write r x p = s p
    rw [write_apply, if_neg (hp r (.inl h)), if_neg (hp _ (.inr ⟨r, h, rfl⟩))]
  | deleteConfig r => exact if_neg (hp r (.inl h))

theorem exec_of_writesIn {c : Cmd} (h : c.WritesIn S) (hf : ¬ Touched S f) (s : Files) :
    (box.exec c s).2 (configPath f) = s (configPath f) :=
  exec_outside h (fun r hr e => hf ((configPath_inj.mp e : f = r) ▸ hr)) s

/-- A program leaves the other files alone, wherever it stops. -/
theorem stop_of_writesIn {p : Io α} (h : p.Issues (Cmd.WritesIn S)) (hf : ¬ Touched S f)
    (fails : Option Nat) (s : Files) : p.stop box fails s (configPath f) = s (configPath f) :=
  (h.always (I := fun t => t (configPath f) = s (configPath f))
    (fun _ t hc ht => (exec_of_writesIn hc hf t).trans ht) rfl).stop fails

end

/-- A program that reads sees what it reads, and nothing else. -/
theorem run_congr {α : Type} {R : Str → Prop} {p : Io α} (h : p.Issues (Cmd.ReadsIn R))
    {s t : Files} (hst : ∀ path, R path → s path = t path) : (p.run box s).1 = (p.run box t).1 := by
  induction p with
  | pure a => rfl
  | raise e => rfl
  | call c k ih =>
    obtain ⟨hc, hk⟩ := h
    cases c with
    | readFile path =>
      have hr : (box.exec (.readFile path) s).1 = (box.exec (.readFile path) t).1 :=
        congrArg (fun c : Option Str => universalNewlines (c.getD [])) (hst path hc)
      rw [Prog.run, Prog.run, ← hr]
      exact ih _ (hk _)
    | writeConfig relPath content => exact hc.elim
    | deleteConfig relPath => exact hc.elim

section
variable (s : Files) {a b : Str}

theorem read_write (c : Str) : (s.write a c).read (configPath a) = universalNewlines c := by
  rw [Files.read, write_self, Option.getD_some]

theorem read_write_ne (h : b ≠ a) (ht : b ≠ scratch a) (c : Str) :
    (s.write a c).read (configPath b) = s.read (configPath b) := by
  rw [Files.read, write_ne s h ht, Files.read]

theorem read_delete_ne (h : b ≠ a) :
    (s.delete a).read (configPath b) = s.read (configPath b) := by
  simp [Files.read, Files.delete, configPath_inj, h]

end

end MailserverUi.L2.Container

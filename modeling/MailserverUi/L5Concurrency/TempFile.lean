import Mathlib
import MailserverUi.Core.LTS
import MailserverUi.Core.Text

/-!
# `write_config`: a temp file and a rename

The script of `write_config` is `tmp="$1.tmp"; cat > "$tmp" && mv -- "$tmp" "$1"`.
Here any number of writers of one path run it, one system call at a time:

* `open`: create or truncate the temp file, and hold a descriptor on its inode;
* `chunk n`: `cat` writes the next `n` characters at the descriptor's offset;
* `mv`: when all of stdin is written, rename the temp file onto the target;
* `fail`: `cat` reports an error, and `&&` skips the rename.

A rename moves the name only: a descriptor goes on writing to the inode it
opened. Since all writers share one temp name, a writer that opens it while
another is between its `open` and its `mv` shares that one's inode.

Results:
* `solo_inductive`: while writers open the temp file only when no other one is
  in between, a writer's descriptor is on the temp file, which holds what it
  wrote so far, and the target is some other inode.
* `whole_contents`: in such a run the target always holds its old contents or
  all of some write, and a write that succeeds was the target's contents.
* `shared_temp_torn`: otherwise the target may hold a mix of two writes.
-/
namespace MailserverUi.L5.TempFile

open Py

variable {ι : Type} [DecidableEq ι]

/-- Where a writer is; `copying` has the inode of its descriptor and the
offset it has written up to. -/
inductive Pc where
  | start
  | copying (ino off : Nat)
  | done (ok : Bool)
  deriving DecidableEq, Repr

/-- The contents of every inode, the first unused one, the inodes of the two
names, and the writers. `seen` lists what the target held after each step. -/
structure St (ι : Type) where
  data : Nat → Str
  fresh : Nat
  tmp : Option Nat
  target : Option Nat
  pc : ι → Pc
  seen : List (Option Str)

inductive Lbl (ι : Type) where
  | open (i : ι)
  | chunk (i : ι) (n : Nat)
  | mv (i : ι)
  | fail (i : ι)
  deriving DecidableEq, Repr

/-- `write` at an offset; a gap before it reads as NULs. -/
def writeAt (s : Str) (off : Nat) (chunk : Str) : Str :=
  s.take off ++ List.replicate (off - s.length) '\x00' ++ chunk ++ s.drop (off + chunk.length)

def St.contents (s : St ι) : Option Str := s.target.map s.data

def St.set (s : St ι) (ino : Nat) (x : Str) : St ι :=
  { s with data := fun j => if j = ino then x else s.data j }

def St.goto (s : St ι) (i : ι) (pc : Pc) : St ι :=
  { s with pc := fun j => if j = i then pc else s.pc j }

/-- `cat > "$tmp"` before it copies anything. -/
def St.openTmp (s : St ι) (i : ι) : St ι :=
  match s.tmp with
  | some ino => (s.set ino []).goto i (.copying ino 0)
  | none =>
    ({ s with tmp := some s.fresh, fresh := s.fresh + 1 }.set s.fresh []).goto i
      (.copying s.fresh 0)

/-- `mv -- "$tmp" "$1"`, which fails when there is no temp file any more. -/
def St.rename (s : St ι) (i : ι) : St ι :=
  match s.tmp with
  | some ino => { s with target := some ino, tmp := none }.goto i (.done true)
  | none => s.goto i (.done false)

def St.observe (s : St ι) : St ι := { s with seen := s.seen ++ [s.contents] }

/-- One system call of one writer; `content i` is the stdin of writer `i`.
mirrors backend/app/services/container.py:152-160 -/
def act (content : ι → Str) (s : St ι) : Lbl ι → Option (St ι)
  | .open i =>
    match s.pc i with
    | .start => some (s.openTmp i)
    | _ => none
  | .chunk i n =>
    match s.pc i with
    | .copying ino off =>
      if 0 < n ∧ off + n ≤ (content i).length then
        some ((s.set ino (writeAt (s.data ino) off (((content i).drop off).take n))).goto i
          (.copying ino (off + n)))
      else none
    | _ => none
  | .mv i =>
    match s.pc i with
    | .copying _ off => if off = (content i).length then some (s.rename i) else none
    | _ => none
  | .fail i =>
    match s.pc i with
    | .copying _ _ => some (s.goto i (.done false))
    | _ => none

def step (content : ι → Str) (s : St ι) (l : Lbl ι) : Option (St ι) :=
  (act content s l).map St.observe

def Pc.isCopying : Pc → Bool
  | .copying _ _ => true
  | _ => false

/-- Nobody has started; the target holds `old`, and a temp file that an
earlier write left behind is another file. -/
structure Start (old : Option Str) (s : St ι) : Prop where
  pc : ∀ i, s.pc i = .start
  contents : s.contents = old
  seen : s.seen = [old]
  tmp_lt : ∀ t, s.tmp = some t → t < s.fresh ∧ s.target ≠ some t
  target_lt : ∀ t, s.target = some t → t < s.fresh

def sys (content : ι → Str) (old : Option Str) : LTS (St ι) (Lbl ι) :=
  .ofFn (Start old) (step content)

/-- The temp file is opened only while no other writer is between its `open`
and its `mv`. -/
def Solo (s : St ι) : Lbl ι → Prop
  | .open i => ∀ j, j ≠ i → (s.pc j).isCopying = false
  | _ => True

instance [Fintype ι] (s : St ι) : (l : Lbl ι) → Decidable (Solo s l)
  | .open i => inferInstanceAs (Decidable (∀ j, j ≠ i → (s.pc j).isCopying = false))
  | .chunk _ _ | .mv _ | .fail _ => inferInstanceAs (Decidable True)

/-! ## What one writer does to the files -/

omit [DecidableEq ι] in
/-- Writing to an inode that is not the target's leaves the target alone. -/
theorem set_contents {s : St ι} {ino : Nat} (x : Str) (h : s.target ≠ some ino) :
    (s.set ino x).contents = s.contents := by
  unfold St.contents St.set
  cases ht : s.target with
  | none => rfl
  | some t =>
    have : t ≠ ino := fun e => h (by rw [ht, e])
    simp [this]

/-- Writing the next `n` characters after the first `off` ones. -/
theorem writeAt_next (c : Str) {off n : Nat} (h : off + n ≤ c.length) :
    writeAt (c.take off) off ((c.drop off).take n) = c.take (off + n) := by
  have h₁ : (c.take off).length = off := by rw [List.length_take]; omega
  have h₂ : ((c.drop off).take n).length = n := by
    rw [List.length_take, List.length_drop]; omega
  have h₃ : (c.take off).drop (off + n) = [] := List.drop_eq_nil_of_le (by omega)
  rw [writeAt, h₁, h₂, h₃, Nat.sub_self, List.replicate_zero, List.append_nil, List.append_nil,
    List.take_take, Nat.min_self, ← List.take_add]

/-- After `open`: the writer is on an empty inode that the temp name is on,
and the target is another one, as it was. -/
theorem openTmp_spec (s : St ι) (i : ι) (htmp : ∀ t, s.tmp = some t → t < s.fresh ∧ s.target ≠ some t)
    (htarget : ∀ t, s.target = some t → t < s.fresh) :
    ∃ ino, (∀ j, (s.openTmp i).pc j = if j = i then .copying ino 0 else s.pc j) ∧
      (s.openTmp i).tmp = some ino ∧ (s.openTmp i).data ino = [] ∧
      ino < (s.openTmp i).fresh ∧ s.target ≠ some ino ∧ s.fresh ≤ (s.openTmp i).fresh ∧
      (s.openTmp i).target = s.target ∧ (s.openTmp i).contents = s.contents ∧
      (s.openTmp i).seen = s.seen := by
  unfold St.openTmp
  cases ht : s.tmp with
  | some t =>
    obtain ⟨hlt, hne⟩ := htmp t ht
    exact ⟨t, fun _ => rfl, ht, if_pos rfl, hlt, hne, le_rfl, rfl, set_contents [] hne, rfl⟩
  | none =>
    have hne : s.target ≠ some s.fresh := fun e => absurd (htarget _ e) (Nat.lt_irrefl _)
    exact ⟨s.fresh, fun _ => rfl, rfl, if_pos rfl, Nat.lt_succ_self _, hne, Nat.le_succ _, rfl,
      set_contents (s := { s with tmp := some s.fresh, fresh := s.fresh + 1 }) [] hne, rfl⟩

/-! ## Writers that take turns -/

def Copying (s : St ι) (i : ι) : Prop := ∃ ino off, s.pc i = .copying ino off

/-- At most one writer is copying; its descriptor is on the temp file, which
holds what it wrote so far. The temp file is not the target. -/
structure Turns (content : ι → Str) (s : St ι) : Prop where
  one : ∀ i j, Copying s i → Copying s j → i = j
  copied : ∀ i ino off, s.pc i = .copying ino off →
    s.tmp = some ino ∧ s.data ino = (content i).take off ∧ off ≤ (content i).length
  tmp_lt : ∀ t, s.tmp = some t → t < s.fresh ∧ s.target ≠ some t
  target_lt : ∀ t, s.target = some t → t < s.fresh

/-- The target holds its old contents or all of some write, and a write that
succeeded was its contents at some moment. -/
structure Whole (content : ι → Str) (old : Option Str) (s : St ι) : Prop where
  target : s.contents = old ∨ ∃ i, s.contents = some (content i)
  success : ∀ i, s.pc i = .done true → some (content i) ∈ s.seen

structure Inv (content : ι → Str) (old : Option Str) (s : St ι) : Prop where
  turns : Turns content s
  whole : Whole content old s

section
variable {content : ι → Str} {old : Option Str} {s s' : St ι} {i : ι}

omit [DecidableEq ι] in
theorem Start.inv (h : Start old s) : Inv content old s where
  turns :=
    { one := fun i _ ⟨_, _, e⟩ _ => by rw [h.pc i] at e; cases e
      copied := fun i _ _ e => by rw [h.pc i] at e; cases e
      tmp_lt := h.tmp_lt
      target_lt := h.target_lt }
  whole := ⟨.inl h.contents, fun i e => by rw [h.pc i] at e; cases e⟩

omit [DecidableEq ι] in
/-- `Turns` does not look at what was observed. -/
theorem Turns.observe (h : Turns content s) : Turns content s.observe :=
  ⟨h.one, h.copied, h.tmp_lt, h.target_lt⟩

omit [DecidableEq ι] in
/-- A step that leaves the target alone, after which nobody new succeeded. -/
theorem Whole.keep (h : Whole content old s) (hc : s'.contents = s.contents)
    (hs : s'.seen = s.seen) (hp : ∀ j, s'.pc j = .done true → s.pc j = .done true) :
    Whole content old s'.observe where
  target := by
    have := h.target
    rw [← hc] at this
    exact this
  success j hj := List.mem_append_left _ (hs ▸ h.success j (hp j hj))

/-- Only the writer `i` moves on. -/
theorem copying_of_goto {j : ι} {pc : Pc} (hp : ∀ j, s'.pc j = if j = i then pc else s.pc j)
    (h : Copying s' j) : j = i ∨ Copying s j := by
  obtain ⟨ino, off, e⟩ := h
  rw [hp] at e
  split at e
  · exact .inl ‹_›
  · exact .inr ⟨ino, off, e⟩

theorem done_of_goto {pc : Pc} (hp : ∀ j, s'.pc j = if j = i then pc else s.pc j)
    (hpc : pc ≠ .done true) (j : ι) (h : s'.pc j = .done true) : s.pc j = .done true := by
  rw [hp] at h
  split at h
  · exact absurd h hpc
  · exact h

theorem Inv.open (h : Inv content old s)
    (hsolo : ∀ j, j ≠ i → (s.pc j).isCopying = false) :
    Inv content old (s.openTmp i).observe := by
  obtain ⟨ino, hp, ht, hd, hlt, hne, hf, htg, hc, hs⟩ :=
    openTmp_spec s i h.turns.tmp_lt h.turns.target_lt
  have hone (j : ι) (hj : Copying (s.openTmp i) j) : j = i := by
    rcases copying_of_goto hp hj with e | ⟨ino, off, e⟩
    · exact e
    · refine Classical.byContradiction fun hne => ?_
      have := hsolo j hne
      rw [e] at this
      cases this
  refine ⟨Turns.observe ⟨fun j k hj hk => (hone j hj).trans (hone k hk).symm, ?_, ?_, ?_⟩,
    h.whole.keep hc hs (done_of_goto hp (by simp))⟩
  · intro j ino' off hj
    rw [hone j ⟨ino', off, hj⟩, hp, if_pos rfl, Pc.copying.injEq] at hj
    obtain ⟨rfl, rfl⟩ := hj
    exact ⟨ht, by rw [hd, List.take_zero], Nat.zero_le _⟩
  · intro t e
    rw [ht, Option.some.injEq] at e
    subst e
    exact ⟨hlt, htg ▸ hne⟩
  · intro t e
    rw [htg] at e
    exact Nat.lt_of_lt_of_le (h.turns.target_lt t e) hf

theorem Inv.chunk (h : Inv content old s) {ino off n : Nat} (hi : s.pc i = .copying ino off)
    (hn : off + n ≤ (content i).length) :
    Inv content old ((s.set ino (writeAt (s.data ino) off (((content i).drop off).take n))).goto i
      (.copying ino (off + n))).observe := by
  obtain ⟨ht, hd, -⟩ := h.turns.copied i ino off hi
  have hp (j : ι) : ((s.set ino (writeAt (s.data ino) off (((content i).drop off).take n))).goto i
      (.copying ino (off + n))).pc j = if j = i then .copying ino (off + n) else s.pc j := rfl
  have hone (j : ι) (hj : Copying s j) : j = i := h.turns.one j i hj ⟨ino, off, hi⟩
  refine ⟨Turns.observe ⟨fun j k hj hk => ?_, ?_, h.turns.tmp_lt, h.turns.target_lt⟩,
    h.whole.keep (set_contents _ (h.turns.tmp_lt ino ht).2) rfl (done_of_goto hp (by simp))⟩
  · have hj := (copying_of_goto hp hj).elim id (hone j)
    have hk := (copying_of_goto hp hk).elim id (hone k)
    exact hj.trans hk.symm
  · intro j ino' off' hj
    have e := (copying_of_goto hp ⟨ino', off', hj⟩).elim id (hone j)
    subst e
    rw [hp, if_pos rfl, Pc.copying.injEq] at hj
    obtain ⟨rfl, rfl⟩ := hj
    refine ⟨ht, ?_, hn⟩
    rw [← writeAt_next (content j) hn, ← hd]
    exact if_pos rfl

/-- The writer leaves; nobody else is copying. -/
theorem Turns.leave (h : Turns content s) {ino off : Nat} (hi : s.pc i = .copying ino off)
    {pc : Pc} (hpc : ∀ ino off, pc ≠ .copying ino off)
    (hp : ∀ j, s'.pc j = if j = i then pc else s.pc j)
    (htmp : ∀ t, s'.tmp = some t → t < s'.fresh ∧ s'.target ≠ some t)
    (htarget : ∀ t, s'.target = some t → t < s'.fresh) : Turns content s'.observe := by
  have hnone (j : ι) (ino' off' : Nat) : s'.pc j ≠ .copying ino' off' := by
    rw [hp]
    split
    · exact hpc _ _
    · rename_i hj
      exact fun e => hj (h.one j i ⟨_, _, e⟩ ⟨_, _, hi⟩)
  exact Turns.observe ⟨fun j _ ⟨_, _, e⟩ _ => absurd e (hnone j _ _),
    fun j _ _ e => absurd e (hnone j _ _), htmp, htarget⟩

theorem Inv.mv (h : Inv content old s) {ino : Nat}
    (hi : s.pc i = .copying ino (content i).length) : Inv content old (s.rename i).observe := by
  obtain ⟨ht, hd, -⟩ := h.turns.copied i ino _ hi
  rw [List.take_length] at hd
  rw [St.rename, ht]
  have hp (j : ι) : (({ s with target := some ino, tmp := none } : St ι).goto i (.done true)).pc j =
      if j = i then .done true else s.pc j := rfl
  have hc : (({ s with target := some ino, tmp := none } : St ι).goto i (.done true)).contents =
      some (content i) := congrArg some hd
  refine ⟨h.turns.leave hi (by simp) hp (fun t e => by cases e) ?_, ⟨.inr ⟨i, hc⟩, ?_⟩⟩
  · intro t e
    cases e
    exact (h.turns.tmp_lt ino ht).1
  · intro j hj
    refine List.mem_append.mpr ?_
    by_cases e : j = i
    · subst e
      exact .inr (by rw [hc]; exact List.mem_singleton_self _)
    · have hj := (hp j).symm.trans hj
      rw [if_neg e] at hj
      exact .inl (h.whole.success j hj)

theorem Inv.fail (h : Inv content old s) {ino off : Nat} (hi : s.pc i = .copying ino off) :
    Inv content old (s.goto i (.done false)).observe :=
  ⟨h.turns.leave hi (by simp) (fun _ => rfl) h.turns.tmp_lt h.turns.target_lt,
    h.whole.keep rfl rfl (done_of_goto (fun _ => rfl) (by simp))⟩

end

/-- One system call of a writer that opens only in turn keeps the invariant. -/
theorem solo_inductive (content : ι → Str) (old : Option Str) :
    ((sys content old).guard Solo).Inductive (Inv content old) where
  init _ h := h.inv
  step s l s' hinv h := by
    obtain ⟨hg, h⟩ := h
    obtain ⟨t, ha, rfl⟩ := Option.map_eq_some_iff.mp h
    cases l with
    | «open» i =>
      cases hi : s.pc i with
      | start =>
        simp only [act, hi, Option.some.injEq] at ha
        subst ha
        exact hinv.open hg
      | copying ino off => simp [act, hi] at ha
      | done ok => simp [act, hi] at ha
    | chunk i n =>
      cases hi : s.pc i with
      | start => simp [act, hi] at ha
      | copying ino off =>
        simp only [act, hi, Option.ite_none_right_eq_some, Option.some.injEq] at ha
        obtain ⟨hn, rfl⟩ := ha
        exact hinv.chunk hi hn.2
      | done ok => simp [act, hi] at ha
    | mv i =>
      cases hi : s.pc i with
      | start => simp [act, hi] at ha
      | copying ino off =>
        simp only [act, hi, Option.ite_none_right_eq_some, Option.some.injEq] at ha
        obtain ⟨rfl, rfl⟩ := ha
        exact hinv.mv hi
      | done ok => simp [act, hi] at ha
    | fail i =>
      cases hi : s.pc i with
      | start => simp [act, hi] at ha
      | copying ino off =>
        simp only [act, hi, Option.some.injEq] at ha
        subst ha
        exact hinv.fail hi
      | done ok => simp [act, hi] at ha

/-- In every run whose writers open the temp file only in turn, every state
has the target whole. -/
theorem whole_contents (content : ι → Str) (old : Option Str) (s : St ι)
    (h : ((sys content old).guard Solo).Reachable s) : Whole content old s :=
  ((solo_inductive content old).reachable s h).whole

/-! ## Two writers -/

/-- A target with `old`, no temp file. -/
def idle : St Bool := ⟨fun _ => "old".toList, 1, none, some 0, fun _ => .start,
  [some "old".toList]⟩

def stdin (i : Bool) : Str := if i then "cd".toList else "ab".toList

theorem start_idle : Start (some "old".toList) idle where
  pc _ := rfl
  contents := rfl
  seen := rfl
  tmp_lt t h := by cases h
  target_lt t h := by cases h; exact Nat.one_pos

/-- One write after the other. -/
theorem whole_contents_turns :
    ∃ s : St Bool, s.contents = some "cd".toList ∧ Whole stdin (some "old".toList) s := by
  obtain ⟨s, hs, hc⟩ := LTS.guard_reachable_of_exec (f := step stdin) (G := Solo) start_idle
    [.open false, .chunk false 2, .mv false, .open true, .chunk true 1, .chunk true 1, .mv true]
    (fun s => s.contents = some "cd".toList) (by decide)
  exact ⟨s, by simpa using hc, whole_contents stdin _ s hs⟩

/-- Two writers that both open before one renames: the second goes on writing
to the inode that the target is on by now. -/
theorem shared_temp_torn :
    ∃ s, (sys stdin (some "old".toList)).Reachable s ∧ s.contents = some "cb".toList ∧
      ¬ Whole stdin (some "old".toList) s := by
  obtain ⟨s, hs, hc⟩ := LTS.reachable_of_exec (f := step stdin) start_idle
    [.open false, .open true, .chunk false 2, .mv false, .chunk true 1]
    (fun s => s.contents = some "cb".toList) (by decide)
  have hc : s.contents = some "cb".toList := by simpa using hc
  refine ⟨s, hs, hc, fun h => ?_⟩
  rcases h.target with e | ⟨i, e⟩
  · rw [hc] at e
    exact absurd e (by decide)
  · rw [hc] at e
    cases i <;> exact absurd e (by decide)

end MailserverUi.L5.TempFile

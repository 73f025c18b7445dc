import MailserverUi.Core.Dict
import MailserverUi.L2Store.Container

/-!
# Config files that can be listed (`container.list_config_files`)

`Container.Files` says what a path holds. `find` needs to know which paths
there are: a `Tree` is a dictionary from absolute paths to texts, in the order
`find` comes across them. A program over files is a program over trees
(`onTree`), and does the same to the files of a tree (`run_onTree`).
-/
namespace MailserverUi.L2.ConfigTree

open Py Errors Container

abbrev Tree := Dict Str Str

/-- The files of a tree. -/
def filesOf (t : Tree) : Files := t.get?

/-- The file of the scratch name is gone after a write. -/
def writeTree (t : Tree) (relPath content : Str) : Tree :=
  (t.erase (configPath (scratch relPath))).set (configPath relPath) content

theorem filesOf_write (t : Tree) (relPath content : Str) :
    filesOf (writeTree t relPath content) = (filesOf t).write relPath content := by
  funext p
  rw [write_apply, filesOf, writeTree, Dict.get?_set, Dict.get?_erase]
  rfl

/-- Writes one after the other. -/
def writeAll (t : Tree) (ws : List (Str × Str)) : Tree :=
  ws.foldl (fun t w => writeTree t w.1 w.2) t

/-- What is written last to a path. -/
def lastWrite (ws : List (Str × Str)) (p : Str) : Option Str :=
  (ws.reverse.find? fun w => configPath w.1 = p).map Prod.snd

/-- Each file that is written ends up as it was, and there was none of its scratch
name. -/
def Restores (t : Tree) (ws : List (Str × Str)) : Prop :=
  ∀ w ∈ ws, filesOf t (configPath w.1) = lastWrite ws (configPath w.1) ∧
    filesOf t (configPath (scratch w.1)) = none

theorem filesOf_erase (t : Tree) (relPath : Str) :
    filesOf (t.erase (configPath relPath)) = (filesOf t).delete relPath :=
  funext fun p => Dict.get?_erase t _ p

/-! ## Several writes -/

section
variable {t : Tree} {ws : List (Str × Str)}

theorem writeAll_append (t : Tree) (ws vs : List (Str × Str)) :
    writeAll t (ws ++ vs) = writeAll (writeAll t ws) vs := List.foldl_append

/-- A path that is no scratch name of a write. -/
theorem filesOf_writeAll {p : Str} (hp : ∀ w ∈ ws, p ≠ configPath (scratch w.1)) :
    filesOf (writeAll t ws) p = (lastWrite ws p).or (filesOf t p) := by
  induction ws using List.reverseRecOn with
  | nil => rfl
  | append_singleton ws w ih =>
    have e : writeAll t (ws ++ [w]) = writeTree (writeAll t ws) w.1 w.2 := writeAll_append t ws [w]
    have ih := ih fun v hv => hp v (List.mem_append_left _ hv)
    have hw := hp w (List.mem_append_right _ (List.mem_singleton.mpr rfl))
    rw [e, filesOf_write, write_apply, lastWrite, List.reverse_concat, List.find?_cons]
    by_cases hp : p = configPath w.1
    · simp [hp]
    · rw [if_neg hp, if_neg hw, ih]
      simp only [Ne.symm hp, decide_false]
      rfl

/-- The scratch name of a write, when it is not written itself. -/
theorem filesOf_writeAll_scratch (h : ∀ w ∈ ws, ∀ v ∈ ws, w.1 ≠ scratch v.1) {w : Str × Str}
    (hw : w ∈ ws) : filesOf (writeAll t ws) (configPath (scratch w.1)) = none := by
  induction ws using List.reverseRecOn with
  | nil => cases hw
  | append_singleton ws v ih =>
    have e : writeAll t (ws ++ [v]) = writeTree (writeAll t ws) v.1 v.2 := writeAll_append t ws [v]
    have hv : v ∈ ws ++ [v] := List.mem_append_right _ (List.mem_singleton.mpr rfl)
    rw [e, filesOf_write, write_apply, if_neg (mt configPath_inj.mp (h v hv w hw).symm)]
    split
    · rfl
    · rename_i hne
      rcases List.mem_append.mp hw with hw | hw
      · exact ih (fun x hx y hy => h x (List.mem_append_left _ hx) y (List.mem_append_left _ hy)) hw
      · rw [List.mem_singleton.mp hw] at hne
        exact absurd rfl hne

theorem lastWrite_isSome {w : Str × Str} (h : w ∈ ws) : lastWrite ws (configPath w.1) ≠ none := by
  intro e
  rw [lastWrite, Option.map_eq_none_iff, List.find?_eq_none] at e
  exact e w (List.mem_reverse.mpr h) (decide_eq_true rfl)

/-- The last write is one of the writes. -/
theorem mem_of_lastWrite {p c : Str} (h : lastWrite ws p = some c) :
    ∃ f, (f, c) ∈ ws ∧ configPath f = p := by
  obtain ⟨w, hw, rfl⟩ := Option.map_eq_some_iff.mp h
  exact ⟨w.1, List.mem_reverse.mp (List.mem_of_find?_eq_some hw), by
    simpa using List.find?_some hw⟩

theorem lastWrite_eq_none {p : Str} (h : ∀ w ∈ ws, configPath w.1 ≠ p) : lastWrite ws p = none := by
  rw [lastWrite, Option.map_eq_none_iff, List.find?_eq_none]
  exact fun w hw => by simpa using h w (List.mem_reverse.mp hw)

theorem filesOf_writeAll_iff (h : ∀ w ∈ ws, ∀ v ∈ ws, w.1 ≠ scratch v.1) :
    filesOf (writeAll t ws) = filesOf t ↔ Restores t ws := by
  have hplain {w : Str × Str} (hw : w ∈ ws) : ∀ v ∈ ws, configPath w.1 ≠ configPath (scratch v.1) :=
    fun v hv => mt configPath_inj.mp (h w hw v hv)
  constructor
  · intro he w hw
    have hp := congrFun he (configPath w.1)
    rw [filesOf_writeAll (hplain hw)] at hp
    obtain ⟨c, hc⟩ := Option.ne_none_iff_exists'.mp (lastWrite_isSome hw)
    rw [hc, Option.some_or] at hp
    exact ⟨by rw [hc, hp], by rw [← he, filesOf_writeAll_scratch h hw]⟩
  · intro hr
    funext p
    by_cases hp : ∃ w ∈ ws, p = configPath (scratch w.1)
    · obtain ⟨w, hw, rfl⟩ := hp
      rw [filesOf_writeAll_scratch h hw, (hr w hw).2]
    · rw [filesOf_writeAll fun w hw e => hp ⟨w, hw, e⟩]
      cases hl : lastWrite ws p with
      | none => rfl
      | some c =>
        obtain ⟨f, hf, rfl⟩ := mem_of_lastWrite hl
        rw [(hr _ hf).1, hl, Option.some_or]

/-- A tree is determined by its files once it has the same paths in the same
order. -/
theorem writeAll_eq_self (hap : ∀ w ∈ ws, ∀ v ∈ ws, w.1 ≠ scratch v.1) (h : Restores t ws) :
    writeAll t ws = t := by
  have hkeys : (writeAll t ws).keys = t.keys := by
    have hmem : ∀ w ∈ ws, configPath w.1 ∈ t.keys ∧ configPath (scratch w.1) ∉ t.keys := by
      intro w hw
      obtain ⟨hwritten, hscratch⟩ := h w hw
      refine ⟨?_, Dict.get?_eq_none.mp hscratch⟩
      by_contra hn
      rw [filesOf, Dict.get?_eq_none.mpr hn] at hwritten
      exact lastWrite_isSome hw hwritten.symm
    clear h hap
    induction ws using List.reverseRecOn with
    | nil => rfl
    | append_singleton ws w ih =>
      have e : writeAll t (ws ++ [w]) = writeTree (writeAll t ws) w.1 w.2 := writeAll_append t ws [w]
      have ih := ih fun v hv => hmem v (List.mem_append_left _ hv)
      obtain ⟨hw, hs⟩ := hmem w (List.mem_append_right _ (List.mem_singleton.mpr rfl))
      have hgone : configPath (scratch w.1) ∉ (writeAll t ws).keys := by rwa [ih]
      rw [e, writeTree, Dict.erase_of_not_mem hgone, Dict.keys_set, ih, if_pos hw]
  exact Dict.ext_keys hkeys fun p => congrFun ((filesOf_writeAll_iff hap).mpr h) p

end

/-! ## Listing -/

/-- `base/`, which every path under the directory begins with. -/
def dirPrefix (relDir : Str) : Str := configPath relDir ++ ['/']

/-- `find base -type f -name "*suffix"`: the suffixes are texts without a
pattern character. -/
def findOutput (t : Tree) (relDir suffix : Str) : Str :=
  unlines (t.keys.filter fun p => (dirPrefix relDir).isPrefixOf p && suffix.isSuffixOf (afterLast '/' p))

/-- mirrors backend/app/services/container.py:171-194 -/
def listConfigFiles (t : Tree) (relDir suffix : Str) : List Str :=
  ((((splitlines (universalNewlines (findOutput t relDir suffix))).filter
    fun line => (dirPrefix relDir).isPrefixOf line).map
      fun line => line.drop (dirPrefix relDir).length).insertionSort (· ≤ ·))

/-- A line of the output of `find` holds no line boundary. -/
theorem oneLine_of_mem_listConfigFiles {t : Tree} {relDir suffix rel : Str}
    (h : rel ∈ listConfigFiles t relDir suffix) : OneLine rel := by
  have h := (List.mem_insertionSort _).mp h
  obtain ⟨line, hl, rfl⟩ := List.mem_map.mp h
  have ho := splitlines_oneLine _ line (List.mem_filter.mp hl).1
  exact ho.mono fun c hc => List.mem_of_mem_drop hc

/-- The names under which a path is listed. One with a line break may have
several, or one that is not its own. -/
def namesIn (relDir p : Str) : List Str :=
  if (dirPrefix relDir).isPrefixOf p then
    ((p.splitOnP isBreak).filter (dirPrefix relDir).isPrefixOf).map
      fun line => line.drop (dirPrefix relDir).length
  else []

section
variable {t u : Tree} {d n p : Str}

theorem flatMap_namesIn (l : List Str) : l.flatMap (namesIn d) =
    ((l.filter (dirPrefix d).isPrefixOf).flatMap fun p =>
      (p.splitOnP isBreak).filter (dirPrefix d).isPrefixOf).map
        fun line => line.drop (dirPrefix d).length := by
  induction l with
  | nil => rfl
  | cons p l ih =>
    rw [List.flatMap_cons, ih, namesIn, List.filter_cons]
    split <;> simp

theorem listConfigFiles_perm_suffix (t : Tree) (d suffix : Str) :
    (listConfigFiles t d suffix).Perm
      ((t.keys.filter fun p => suffix.isSuffixOf (afterLast '/' p)).flatMap (namesIn d)) := by
  have hnil : (dirPrefix d).isPrefixOf [] = false := by
    obtain ⟨c, l, e⟩ := List.exists_cons_of_ne_nil (List.concat_ne_nil '/' (configPath d))
    rw [dirPrefix, e]
    rfl
  refine (List.perm_insertionSort _ _).trans ?_
  rw [filter_splitlines hnil, findOutput, filter_splitOnP_unlines hnil, ← List.filter_filter,
    flatMap_namesIn]

theorem listConfigFiles_perm (t : Tree) (d : Str) :
    (listConfigFiles t d []).Perm (t.keys.flatMap (namesIn d)) := by
  have hall : (t.keys.filter fun p => ([] : Str).isSuffixOf (afterLast '/' p)) = t.keys :=
    List.filter_eq_self.mpr fun p _ => by simp [List.isSuffixOf]
  have h := listConfigFiles_perm_suffix t d []
  rwa [hall] at h

/-- A file is listed under its own name, when neither holds a line break. -/
theorem namesIn_file (hd : OneLine d) (hn : OneLine n) :
    namesIn d (configPath (d ++ '/' :: n)) = [n] := by
  have assoc (root : Str) : root ++ (d ++ '/' :: n) = root ++ d ++ ['/'] ++ n := by simp
  have e : configPath (d ++ '/' :: n) = dirPrefix d ++ n := assoc _
  have hroot : OneLine "/tmp/docker-mailserver/".toList := by decide
  have hp : OneLine (dirPrefix d) := (hroot.append hd).append (by decide)
  have hpre : (dirPrefix d).isPrefixOf (dirPrefix d ++ n) = true :=
    List.isPrefixOf_iff_prefix.mpr (List.prefix_append _ _)
  rw [e, namesIn, if_pos hpre, List.splitOnP_eq_singleton (hp.append hn),
    List.filter_cons_of_pos hpre, List.filter_nil, List.map_singleton, List.drop_left]

/-- The scratch name of a file of the directory is a name in it. -/
theorem namesIn_scratch (hd : OneLine d) (hn : OneLine n) :
    namesIn d (configPath (scratch (d ++ '/' :: n))) = [scratch n] := by
  have e : scratch (d ++ '/' :: n) = d ++ '/' :: scratch n := List.append_assoc _ _ _
  rw [e]
  exact namesIn_file hd (hn.append (by decide))

theorem mem_keys_of_filesOf (h : filesOf t p ≠ none) : p ∈ t.keys := by
  by_contra hk
  exact h (Dict.get?_eq_none.mpr hk)

/-- A path outside the directory is not listed. -/
theorem namesIn_eq_nil (h : ¬ d ++ ['/'] <+: p) : namesIn d (configPath p) = [] := by
  have assoc (root : Str) : root ++ d ++ ['/'] <+: root ++ p ↔ d ++ ['/'] <+: p := by
    rw [List.append_assoc, List.prefix_append_right_inj]
  exact if_neg fun hp => h ((assoc _).mp (List.isPrefixOf_iff_prefix.mp hp))

/-- What is listed depends on the files, and not on those that have another name. -/
theorem count_listConfigFiles {P : Str → Prop} (h : ∀ q, ¬ P q → filesOf u q = filesOf t q)
    (hn : ∀ q, P q → n ∉ namesIn d q) :
    (listConfigFiles u d []).count n = (listConfigFiles t d []).count n := by
  classical
  have without (t : Tree) : (listConfigFiles t d []).count n =
      ((t.keys.filter fun q => ¬ P q).flatMap (namesIn d)).count n := by
    rw [(listConfigFiles_perm t d).count_eq]
    induction t.keys with
    | nil => rfl
    | cons q l ih =>
      rw [List.flatMap_cons, List.count_append, ih, List.filter_cons]
      by_cases hq : P q
      · rw [if_neg (by simp [hq]), List.count_eq_zero.mpr (hn q hq), Nat.zero_add]
      · rw [if_pos (by simpa using hq), List.flatMap_cons, List.count_append]
  have hperm : (u.keys.filter fun q => ¬ P q).Perm (t.keys.filter fun q => ¬ P q) := by
    refine (List.perm_ext_iff_of_nodup (u.nodup.filter _) (t.nodup.filter _)).mpr fun q => ?_
    simp only [List.mem_filter, decide_eq_true_eq]
    refine and_congr_left fun hq => not_iff_not.mp ?_
    have hf : u.get? q = t.get? q := h q hq
    exact Dict.get?_eq_none.symm.trans ((Eq.congr_left hf).trans Dict.get?_eq_none)
  rw [without u, without t, (hperm.flatMap_right _).count_eq]

/-- A file that goes away is listed once less. -/
theorem count_erase (hp : p ∈ t.keys) (hn : namesIn d p = [n]) :
    (listConfigFiles t d []).count n = (listConfigFiles (t.erase p) d []).count n + 1 := by
  have hkeys : t.keys.Perm (p :: (t.erase p).keys) := by
    have hout : p ∉ (t.erase p).keys := fun h => (Dict.mem_keys_erase.mp h).1 rfl
    refine (List.perm_ext_iff_of_nodup t.nodup
      (List.nodup_cons.mpr ⟨hout, (t.erase p).nodup⟩)).mpr fun q => ?_
    rw [List.mem_cons, Dict.mem_keys_erase]
    by_cases hq : q = p
    · exact iff_of_true (hq ▸ hp) (.inl hq)
    · exact ⟨fun h => .inr ⟨hq, h⟩, fun h => (h.resolve_left hq).2⟩
  rw [(listConfigFiles_perm t d).count_eq, (listConfigFiles_perm _ d).count_eq,
    (hkeys.flatMap_right _).count_eq, List.flatMap_cons, hn, List.count_append,
    List.count_singleton_self, Nat.add_comm]

/-- A file with the scratch name of another one is listed once less when that one has
been written. -/
theorem count_scratch {text : Str} (hd : OneLine d) (hn : OneLine n)
    (hs : filesOf t (configPath (scratch (d ++ '/' :: n))) ≠ none)
    (hu : filesOf u = (filesOf t).write (d ++ '/' :: n) text) :
    (listConfigFiles t d []).count (scratch n) =
      (listConfigFiles u d []).count (scratch n) + 1 := by
  refine (count_erase (mem_keys_of_filesOf hs) (namesIn_scratch hd hn)).trans
    (congrArg (· + 1) (count_listConfigFiles (P := (· = configPath (d ++ '/' :: n))) ?_ ?_).symm)
  · intro q hq
    rw [hu, write_apply, if_neg hq, filesOf_erase]
    rfl
  · rintro q rfl
    rw [namesIn_file hd hn, List.mem_singleton]
    exact scratch_ne n

/-- A file of the directory is listed. -/
theorem mem_listConfigFiles (hd : OneLine d) (hn : OneLine n)
    (h : filesOf t (configPath (d ++ '/' :: n)) ≠ none) : n ∈ listConfigFiles t d [] := by
  rw [(listConfigFiles_perm t d).mem_iff, List.mem_flatMap]
  exact ⟨_, mem_keys_of_filesOf h, namesIn_file hd hn ▸ List.mem_singleton.mpr rfl⟩

/-- A file of the directory is listed among those of its suffix. -/
theorem mem_listConfigFiles_suffix {suffix : Str} (hd : OneLine d) (hn : OneLine (n ++ suffix))
    (hs : '/' ∉ suffix) (h : filesOf t (configPath (d ++ '/' :: (n ++ suffix))) ≠ none) :
    n ++ suffix ∈ listConfigFiles t d suffix := by
  have hk : configPath (d ++ '/' :: (n ++ suffix)) ∈ t.keys := mem_keys_of_filesOf h
  have hsuffix (p : Str) : suffix.isSuffixOf (afterLast '/' (p ++ suffix)) = true := by
    have hpos : ∀ c ∈ suffix.reverse, (c != '/') = true := fun c hc =>
      bne_iff_ne.mpr fun e => hs (e ▸ List.mem_reverse.mp hc)
    rw [List.isSuffixOf_iff_suffix, afterLast, List.rtakeWhile, List.reverse_append,
      List.takeWhile_append_of_pos hpos, List.reverse_append, List.reverse_reverse]
    exact List.suffix_append _ _
  have assoc (root : Str) : root ++ (d ++ '/' :: (n ++ suffix)) = root ++ (d ++ '/' :: n) ++ suffix := by
    simp
  have e : configPath (d ++ '/' :: (n ++ suffix)) = configPath (d ++ '/' :: n) ++ suffix := assoc _
  rw [(listConfigFiles_perm_suffix t d suffix).mem_iff, List.mem_flatMap]
  refine ⟨_, List.mem_filter.mpr ⟨hk, ?_⟩, namesIn_file hd hn ▸ List.mem_singleton.mpr rfl⟩
  rw [e]
  exact hsuffix _

end

/-! ## Commands -/

inductive TreeCmd where
  | file (c : Cmd)
  | listFiles (relDir suffix : Str)
  deriving DecidableEq, Repr

abbrev TreeReply : TreeCmd → Type
  | .file c => Reply c
  | .listFiles _ _ => List Str

abbrev TreeIo := Prog TreeCmd TreeReply ApiError

def treeBox : Machine TreeCmd TreeReply Tree where
  exec
    | .file (.readFile path), t => ((filesOf t).read path, t)
    | .file (.writeConfig relPath content), t => ((), writeTree t relPath content)
    | .file (.deleteConfig relPath), t => ((), t.erase (configPath relPath))
    | .listFiles relDir suffix, t => (listConfigFiles t relDir suffix, t)

def listFiles (relDir suffix : Str) : TreeIo (List Str) :=
  Prog.request (TreeCmd.listFiles relDir suffix)

/-- A program over files, on a tree. -/
def onTree {α : Type} (p : Io α) : TreeIo α :=
  p.hoist fun c => (Prog.request (TreeCmd.file c) : TreeIo (Reply c))

theorem carries_onTree : Prog.Carries (ε := ApiError) box treeBox filesOf
    fun c => (Prog.request (TreeCmd.file c) : TreeIo (Reply c)) := by
  intro c t
  cases c with
  | readFile path => exact ⟨rfl, rfl⟩
  | writeConfig relPath content => exact ⟨rfl, filesOf_write t relPath content⟩
  | deleteConfig relPath => exact ⟨rfl, filesOf_erase t relPath⟩

/-- It does to the files what it does without the tree. -/
theorem run_onTree {α : Type} (p : Io α) (t : Tree) :
    ((onTree p).run treeBox t).1 = (p.run box (filesOf t)).1 ∧
      filesOf ((onTree p).run treeBox t).2 = (p.run box (filesOf t)).2 :=
  Prog.run_hoist carries_onTree p t

theorem run_onTree_ok {α : Type} {p : Io α} {t t' : Tree} {a : α}
    (h : (onTree p).run treeBox t = (.ok a, t')) :
    p.run box (filesOf t) = (.ok a, filesOf t') := by
  obtain ⟨hr, hs⟩ := run_onTree p t
  rw [h] at hr hs
  exact Prod.ext hr.symm hs.symm

theorem cut_onTree {α : Type} (p : Io α) (n : Nat) (t : Tree) :
    filesOf ((onTree p).cut treeBox n t) = p.cut box n (filesOf t) := by
  induction p generalizing n t with
  | pure a => cases n <;> rfl
  | raise e => cases n <;> rfl
  | call c k ih =>
    cases n with
    | zero => rfl
    | succ n =>
      obtain ⟨hr, hs⟩ := carries_onTree c t
      have hr : (treeBox.exec (.file c) t).1 = (box.exec c (filesOf t)).1 := Except.ok.inj hr
      have hs : filesOf (treeBox.exec (.file c) t).2 = (box.exec c (filesOf t)).2 := hs
      have e : (onTree (.call c k)).cut treeBox (n + 1) t =
          (onTree (k (treeBox.exec (.file c) t).1)).cut treeBox n
            (treeBox.exec (.file c) t).2 := rfl
      rw [e, ih, hr, hs, Prog.cut]

theorem stop_onTree {α : Type} (p : Io α) (fails : Option Nat) (t : Tree) :
    filesOf ((onTree p).stop treeBox fails t) = p.stop box fails (filesOf t) := by
  cases fails with
  | none => exact (run_onTree p t).2
  | some n => exact cut_onTree p n t

theorem steps_onTree {α : Type} (p : Io α) (t : Tree) :
    (onTree p).steps treeBox t = p.steps box (filesOf t) := by
  induction p generalizing t with
  | pure a => rfl
  | raise e => rfl
  | call c k ih =>
    obtain ⟨hr, hs⟩ := carries_onTree c t
    have hr : (treeBox.exec (.file c) t).1 = (box.exec c (filesOf t)).1 := Except.ok.inj hr
    have hs : filesOf (treeBox.exec (.file c) t).2 = (box.exec c (filesOf t)).2 := hs
    have e : (onTree (.call c k)).steps treeBox t =
        (onTree (k (treeBox.exec (.file c) t).1)).steps treeBox (treeBox.exec (.file c) t).2 + 1 :=
      rfl
    rw [e, ih, hr, hs, Prog.steps]

/-! ## What a program may write -/

def TreeCmd.WritesIn (S : Str → Prop) : TreeCmd → Prop
  | .file c => c.WritesIn S
  | .listFiles _ _ => True

section
variable {α : Type} {S : Str → Prop} {t : Tree} {f : Str}

theorem issues_onTree {p : Io α} (h : p.Issues (Cmd.WritesIn S)) :
    (onTree p).Issues (TreeCmd.WritesIn S) := by
  induction p with
  | pure a => trivial
  | raise e => trivial
  | call c k ih => exact ⟨h.1, fun r => ih r (h.2 r)⟩

theorem filesOf_exec_of_writesIn {c : TreeCmd} (h : c.WritesIn S) (hf : ¬ Touched S f) :
    filesOf (treeBox.exec c t).2 (configPath f) = filesOf t (configPath f) := by
  cases c with
  | listFiles relDir suffix => rfl
  | file c =>
    have hs : filesOf (treeBox.exec (.file c) t).2 = (box.exec c (filesOf t)).2 :=
      (carries_onTree c t).2
    rw [hs]
    exact exec_of_writesIn h hf (filesOf t)

/-- A program leaves the other files alone, wherever it stops. -/
theorem filesOf_stop {p : TreeIo α} (h : p.Issues (TreeCmd.WritesIn S)) (hf : ¬ Touched S f)
    (fails : Option Nat) (t : Tree) :
    filesOf (p.stop treeBox fails t) (configPath f) = filesOf t (configPath f) :=
  (h.always (I := fun u => filesOf u (configPath f) = filesOf t (configPath f))
    (fun _ _ hc hu => (filesOf_exec_of_writesIn hc hf).trans hu) rfl).stop fails

end

end MailserverUi.L2.ConfigTree

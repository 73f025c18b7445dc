import MailserverUi.L3Service.Fail2ban

/-!
# The ban policy (`get_policy`)

`fail2ban-jail.cf` is parsed, three keys of its `[DEFAULT]` are read with
`getint`, and the answer is checked by the response model. Only the first may
fail without taking the answer along.

Results:
* `policy_iff`: the policy is what the file says, with the defaults for what is
  no number of at least one, and what was set is read back, exactly when each of
  the three keys that the file has is such a number.
* `week_raises`: `bantime = 1w` takes the page down.
-/
namespace MailserverUi.L4.BanPolicy

open Py ConfigParser L2.Errors L2.Container L3.Settings L3.Fail2ban

/-! ## What the file says -/

/-- The file, where it is not blank and parses. -/
def parsed (content : Str) : Option Config :=
  if strip content = [] then none else readString content

/-- The number that a key should be answered with. -/
def expected (config : Option Config) (key : Str) (default : Nat) : Nat :=
  match config.bind fun c => c.value key with
  | some (some v) => ((intOfText v).bind atLeastOne).getD default
  | _ => default

/-- The policy that the file should be answered with. -/
structure Says (config : Option Config) (policy : Fail2banPolicy) : Prop where
  bantime : policy.bantime = expected config "bantime".toList defaultBantime
  findtime : policy.findtime = expected config "findtime".toList defaultFindtime
  maxretry : policy.maxretry = expected config "maxretry".toList defaultMaxretry

/-- A key that is there has a value, and it is a decimal integer of at least
one. -/
def IsNumber (config : Config) (key : Str) : Prop :=
  ∀ value ∈ config.value key, ∃ v n, value = some v ∧ intOfText v = some n ∧ 1 ≤ n

/-- So are the three keys, in a file that parses. -/
structure Numbers (config : Config) : Prop where
  bantime : IsNumber config "bantime".toList
  findtime : IsNumber config "findtime".toList
  maxretry : IsNumber config "maxretry".toList

section
variable {config : Config} {key : Str} {default : Nat}

/-- A key read with `getint` and checked. -/
theorem getint_atLeastOne (hd : 1 ≤ default) (config : Config) (key : Str) :
    (config.getint key default).bind atLeastOne =
        some (expected (some config) key default) ∧ IsNumber config key ∨
      (config.getint key default).bind atLeastOne = none ∧ ¬ IsNumber config key := by
  unfold Config.getint expected IsNumber
  rw [Option.bind_some]
  cases hv : config.value key with
  | none =>
    refine .inl ⟨?_, fun _ h => by cases h⟩
    dsimp only
    rw [Option.bind_some, atLeastOne, if_pos (by omega)]
    rfl
  | some value =>
    dsimp only
    cases value with
    | none =>
      refine .inr ⟨rfl, fun h => ?_⟩
      obtain ⟨v, n, e, -⟩ := h none rfl
      cases e
    | some v =>
      rw [Option.bind_some]
      cases hn : intOfText v with
      | none =>
        refine .inr ⟨rfl, fun h => ?_⟩
        obtain ⟨v', n, e, hn', -⟩ := h _ rfl
        cases e
        rw [hn] at hn'
        cases hn'
      | some n =>
        rw [Option.bind_some]
        by_cases hpos : 1 ≤ n
        · have hal : atLeastOne n = some n.toNat := if_pos hpos
          dsimp only
          rw [hn, Option.bind_some, hal]
          exact .inl ⟨rfl, fun value hvalue => ⟨v, n, (Option.some.inj hvalue).symm, hn, hpos⟩⟩
        · rw [atLeastOne, if_neg hpos]
          refine .inr ⟨rfl, fun h => hpos ?_⟩
          obtain ⟨v', n', e, hn', hpos'⟩ := h _ rfl
          cases e
          rw [hn] at hn'
          cases hn'
          exact hpos'

theorem policyOf_eq (config : Config) : policyOf config =
    ((config.getint "bantime".toList defaultBantime).bind atLeastOne).bind fun b =>
      ((config.getint "findtime".toList defaultFindtime).bind atLeastOne).bind fun f =>
        ((config.getint "maxretry".toList defaultMaxretry).bind atLeastOne).bind fun m =>
          some ⟨b, f, m, true, true⟩ := by
  unfold policyOf
  cases config.getint "bantime".toList defaultBantime <;>
    cases config.getint "findtime".toList defaultFindtime <;>
      cases config.getint "maxretry".toList defaultMaxretry <;> simp

/-- The policy is answered when all three are numbers, and is what the file
says. -/
theorem policyOf_cases (config : Config) :
    (∃ p, policyOf config = some p ∧ Says (some config) p ∧ p.configured = true ∧
        Numbers config) ∨ policyOf config = none ∧ ¬ Numbers config := by
  have hb := getint_atLeastOne (by decide : 1 ≤ defaultBantime) config "bantime".toList
  have hf := getint_atLeastOne (by decide : 1 ≤ defaultFindtime) config "findtime".toList
  have hm := getint_atLeastOne (by decide : 1 ≤ defaultMaxretry) config "maxretry".toList
  rw [policyOf_eq]
  rcases hb with ⟨hb, hnb⟩ | ⟨hb, hnb⟩
  · rcases hf with ⟨hf, hnf⟩ | ⟨hf, hnf⟩
    · rcases hm with ⟨hm, hnm⟩ | ⟨hm, hnm⟩
      · rw [hb, hf, hm]
        exact .inl ⟨_, rfl, ⟨rfl, rfl, rfl⟩, rfl, ⟨hnb, hnf, hnm⟩⟩
      · rw [hb, hf, hm]
        exact .inr ⟨rfl, fun h => hnm h.maxretry⟩
    · rw [hb, hf]
      exact .inr ⟨rfl, fun h => hnf h.findtime⟩
  · rw [hb]
    exact .inr ⟨rfl, fun h => hnb h.bantime⟩

end

/-! ## The answer -/

/-- The mailserver started with fail2ban. -/
def Enabled (s : Files) : Prop :=
  flag (settingsOf (s.read dmsSettingsPath)) "ENABLE_FAIL2BAN".toList = true

section
variable {s s' : Files}

theorem run_getPolicy (h : Enabled s) : getPolicy.run box s =
    match parsed (s.read (configPath jailFilename)) with
    | none => (.ok defaultPolicy, s)
    | some config =>
      match policyOf config with
      | some p => (.ok p, s)
      | none => (.error .internal, s) := by
  have hread (k : Str → Io Fail2banPolicy) : (readConfig jailFilename >>= k).run box s =
      (k (s.read (configPath jailFilename))).run box s := rfl
  have hopen : ¬ flag (settingsOf (s.read dmsSettingsPath)) "ENABLE_FAIL2BAN".toList = false := by
    rw [show flag _ _ = true from h]
    exact Bool.noConfusion
  rw [getPolicy, run_ensureEnabled_bind, if_neg hopen, hread]
  unfold parsed
  by_cases hb : strip (s.read (configPath jailFilename)) = []
  · rw [if_pos hb, if_pos hb]
    rfl
  · rw [if_neg hb, if_neg hb]
    cases readString (s.read (configPath jailFilename)) with
    | none => rfl
    | some config =>
      dsimp only
      cases policyOf config <;> rfl

/-- The options that `set_policy` writes. -/
def optionsOf (payload : Fail2banPolicyUpdate) : List (Str × Str) :=
  [("bantime".toList, str payload.bantime), ("findtime".toList, str payload.findtime),
    ("maxretry".toList, str payload.maxretry)]

def policyText (payload : Fail2banPolicyUpdate) : Str :=
  unlines (managedHeader :: "[DEFAULT]".toList :: (optionsOf payload).map written)

/-- A number, under a name of lower-case letters. -/
structure IsNamed (p : Str × Str) : Prop where
  ne : p.1 ≠ []
  letters : p.1.all Char.isLower = true
  lower : lower p.1 = p.1
  number : ∃ n, p.2 = str n

theorem isNamed_str {name : Str} (n : Nat)
    (h : name ≠ [] ∧ name.all Char.isLower = true ∧ lower name = name) : IsNamed (name, str n) :=
  ⟨h.1, h.2.1, h.2.2, n, rfl⟩

theorem isNamed_of_mem {payload : Fail2banPolicyUpdate} {p : Str × Str}
    (hp : p ∈ optionsOf payload) : IsNamed p := by
  simp only [optionsOf, List.mem_cons, List.not_mem_nil, or_false] at hp
  rcases hp with rfl | rfl | rfl <;> exact isNamed_str _ (by decide)

section
variable {p : Str × Str}

theorem IsNamed.noSpace (h : IsNamed p) : NoSpace p.1 := fun c hc => by
  have hr : 97 ≤ c.toNat ∧ c.toNat ≤ 122 := by
    simpa [Char.isLower, UInt32.le_iff_toNat_le] using List.all_eq_true.mp h.letters c hc
  exact isSpace_of_range (by omega) (by omega)

theorem IsNamed.not_mem (h : IsNamed p) {c : Char} (hc : c.isLower = false) : c ∉ p.1 := fun hm => by
  rw [List.all_eq_true.mp h.letters c hm] at hc
  cases hc

theorem IsNamed.isOption (h : IsNamed p) : IsOption p := by
  obtain ⟨n, hn⟩ := h.number
  refine ⟨h.ne, fun c hc => ?_, ⟨h.not_mem (by decide), hn ▸ not_mem_str (by decide) n⟩,
    ⟨h.noSpace.trim, hn ▸ (noSpace_str n).trim⟩, h.lower, fun c hc => ?_⟩
  · unfold isDelimiter
    rw [Bool.or_eq_false_iff, beq_eq_false_iff_ne, beq_eq_false_iff_ne]
    constructor <;> rintro rfl <;> exact absurd hc (h.not_mem (by decide))
  · have hm := List.mem_of_mem_head? hc
    refine ⟨?_, ?_, ?_⟩ <;> rintro rfl <;> exact absurd hm (h.not_mem (by decide))

theorem IsNamed.oneLine (h : IsNamed p) : OneLine (written p) := by
  obtain ⟨n, hn⟩ := h.number
  have hsep : OneLine [' ', '=', ' '] := by decide
  have hw : written p = p.1 ++ ([' ', '=', ' '] ++ p.2) := rfl
  rw [hw, hn]
  exact h.noSpace.oneLine.append (hsep.append (noSpace_str n).oneLine)

end

theorem run_setPolicy {payload : Fail2banPolicyUpdate} {r : Fail2banPolicy}
    (h : (setPolicy payload).run box s = (.ok r, s')) :
    Enabled s ∧ s' = s.write jailFilename (policyText payload) := by
  have htext : managedHeader ++ "\n[DEFAULT]\n".toList ++ policyLine "bantime" payload.bantime ++
      policyLine "findtime" payload.findtime ++ policyLine "maxretry" payload.maxretry =
      policyText payload := by
    simp [policyText, policyLine, written, unlines, optionsOf]
  rw [setPolicy, run_ensureEnabled_bind] at h
  split at h
  · cases h
  · rename_i hopen
    rw [htext] at h
    cases h
    exact ⟨(Bool.not_eq_false _).mp hopen, rfl⟩

theorem universalNewlines_policyText (payload : Fail2banPolicyUpdate) :
    universalNewlines (policyText payload) = policyText payload := by
  have hheader : OneLine managedHeader ∧ OneLine "[DEFAULT]".toList := by decide
  refine universalNewlines_eq_self (unlines_no_cr ?_)
  refine List.forall_mem_cons.mpr ⟨hheader.1, List.forall_mem_cons.mpr ⟨hheader.2, fun l hl => ?_⟩⟩
  obtain ⟨p, hp, rfl⟩ := List.mem_map.mp hl
  exact (isNamed_of_mem hp).oneLine

/-- What was set is read back. -/
theorem run_getPolicy_set {payload : Fail2banPolicyUpdate} {r : Fail2banPolicy}
    (h : (setPolicy payload).run box s = (.ok r, s')) :
    getPolicy.run box s' =
      (.ok ⟨payload.bantime, payload.findtime, payload.maxretry, true, true⟩, s') := by
  obtain ⟨hopen, rfl⟩ := run_setPolicy h
  have hopen' : Enabled (s.write jailFilename (policyText payload)) := by
    unfold Enabled Files.read
    rw [write_apply, if_neg (configPath_ne_dmsSettings jailFilename).symm,
      if_neg (configPath_ne_dmsSettings (scratch jailFilename)).symm]
    exact hopen
  have hread : (s.write jailFilename (policyText payload)).read (configPath jailFilename) =
      policyText payload := (read_write s _).trans (universalNewlines_policyText payload)
  have hcomment : isComment (strip managedHeader) = true ∧ '\n' ∉ managedHeader := by decide
  have hnodup : ((optionsOf payload).map Prod.fst).Nodup :=
    (by decide : ["bantime".toList, "findtime".toList, "maxretry".toList].Nodup)
  obtain ⟨config, hconfig, hvalues⟩ := readString_written hcomment.1 hcomment.2
    (fun p hp => (isNamed_of_mem hp).isOption) hnodup
  have hblank : strip (policyText payload) ≠ [] := by
    have hhash : policyText payload = [] ++ '#' :: (policyText payload).tail := rfl
    rw [hhash, strip_append_cons _ _ (by decide)]
    exact List.cons_ne_nil _ _
  have hparsed : parsed (policyText payload) = some config := by
    rw [parsed, if_neg hblank]
    exact hconfig
  have hkey {key : Str} {n : Nat} (default : Int) (hmem : (key, str n) ∈ optionsOf payload)
      (hn : 1 ≤ n ∧ n ≤ 31536000) : (config.getint key default).bind atLeastOne = some n := by
    have hlt : n < 10 ^ maxStrDigits := Nat.lt_of_lt_of_le (by omega : n < 10 ^ 8)
      (Nat.pow_le_pow_right (by decide) (by decide))
    have hvalue : config.value key = some (some (str n)) := by
      rw [Config.value, (isNamed_of_mem hmem).lower, (hvalues key (str n)).mpr hmem]
      exact congrArg some (interpolate_plain (not_mem_str (by decide) n) _ _)
    rw [Config.getint, hvalue]
    dsimp only
    rw [Option.bind_some, intOfText_str hlt, Option.bind_some, atLeastOne, if_pos (by omega)]
    rfl
  have hpolicy : policyOf config =
      some ⟨payload.bantime, payload.findtime, payload.maxretry, true, true⟩ := by
    obtain ⟨hb₁, hb₂⟩ := payload.bantime_range
    obtain ⟨hf₁, hf₂⟩ := payload.findtime_range
    obtain ⟨hm₁, hm₂⟩ := payload.maxretry_range
    rw [policyOf_eq, hkey _ (by simp [optionsOf]) ⟨by omega, hb₂⟩,
      hkey _ (by simp [optionsOf]) ⟨by omega, hf₂⟩, hkey _ (by simp [optionsOf]) ⟨hm₁, by omega⟩]
    rfl
  rw [run_getPolicy hopen', hread, hparsed]
  dsimp only
  rw [hpolicy]

/-- What `get_policy` should do. -/
structure Answered (s : Files) (payload : Fail2banPolicyUpdate) : Prop where
  answer : ∃ p, getPolicy.run box s = (.ok p, s) ∧ Says (parsed (s.read (configPath jailFilename))) p
  readBack : ∀ r s', (setPolicy payload).run box s = (.ok r, s') → getPolicy.run box s' =
    (.ok ⟨payload.bantime, payload.findtime, payload.maxretry, true, true⟩, s')

theorem policy_iff (h : Enabled s) (payload : Fail2banPolicyUpdate) :
    Answered s payload ↔ ∀ config, parsed (s.read (configPath jailFilename)) = some config →
      Numbers config := by
  have hrun := run_getPolicy h
  have hback (r : Fail2banPolicy) (s' : Files)
      (hset : (setPolicy payload).run box s = (.ok r, s')) := run_getPolicy_set hset
  constructor
  · rintro ⟨⟨p, hp, -⟩, -⟩ config hc
    rw [hrun, hc] at hp
    dsimp only at hp
    rcases policyOf_cases config with ⟨q, hq, -, -, hn⟩ | ⟨hq, -⟩
    · exact hn
    · rw [hq] at hp
      cases hp
  · intro hn
    refine ⟨?_, hback⟩
    cases hc : parsed (s.read (configPath jailFilename)) with
    | none =>
      rw [hc] at hrun
      exact ⟨defaultPolicy, hrun, rfl, rfl, rfl⟩
    | some config =>
      rw [hc] at hrun
      dsimp only at hrun
      rcases policyOf_cases config with ⟨q, hq, hpolicy, -, -⟩ | ⟨-, hno⟩
      · rw [hq] at hrun
        exact ⟨q, hrun, hpolicy⟩
      · exact absurd (hn config hc) hno

end

/-! ## Two files -/

/-- The mailserver with fail2ban and this jail file. -/
def withJail (jail : String) : Files := fun path =>
  if path = dmsSettingsPath then some "ENABLE_FAIL2BAN=1".toList
  else if path = configPath jailFilename then some jail.toList
  else none

/-- An hour, and three failures. -/
def anHour : Fail2banPolicyUpdate where
  bantime := 3600
  findtime := 3600
  maxretry := 3
  bantime_range := ⟨by decide, by decide⟩
  findtime_range := ⟨by decide, by decide⟩
  maxretry_range := ⟨by decide, by decide⟩

theorem policy_iff_interpolated :
    Answered (withJail "[DEFAULT]\nbantime = %(week)s\nweek = 604800\n") anHour ↔
      ∀ config, parsed ((withJail "[DEFAULT]\nbantime = %(week)s\nweek = 604800\n").read
        (configPath jailFilename)) = some config → Numbers config :=
  policy_iff (by unfold Enabled; decide +kernel) anHour

/-- A week, as fail2ban spells it. -/
theorem week_raises :
    (getPolicy.run box (withJail "[DEFAULT]\nbantime = 1w\n")).1 = .error .internal ∧
      ¬ Answered (withJail "[DEFAULT]\nbantime = 1w\n") anHour := by
  have hrun : (getPolicy.run box (withJail "[DEFAULT]\nbantime = 1w\n")).1 = .error .internal := by
    decide +kernel
  refine ⟨hrun, fun h => ?_⟩
  obtain ⟨p, hp, -⟩ := h.answer
  rw [hp] at hrun
  cases hrun

end MailserverUi.L4.BanPolicy

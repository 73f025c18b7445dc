import MailserverUi.L3Service.Overrides

/-!
# Postfix overrides, written and read back

A key is checked against a pattern. A value is free text that is pasted into a
file of lines, and `str.strip` leaves a line break inside it alone.

Results:
* `reads_back_iff`: the next list is the list that was returned exactly when no
  last value of a key holds a line boundary.
* `forged_parameter`: a value with a line break is read as two parameters.
-/
namespace MailserverUi.L4.OverridesReadBack

open Py L1.ServerFiles L2.Errors L2.Container L3.Overrides

/-! ## What is accepted -/

/-- The accepted keys, stripped, as they come. -/
def acceptedKeys (overrides : List Override) : List Str := (given overrides).map Prod.fst

/-- The stripped value of the last override with this key. -/
def lastValue (overrides : List Override) (key : Str) : Option Str :=
  ((given overrides).reverse.find? fun p => p.1 = key).map Prod.snd

/-- Each accepted key once, in the order of the first occurrences, with its
last value. -/
structure Cleaned (overrides result : List Override) : Prop where
  keys : ∀ key, key ∈ result.map (·.key) ↔ key ∈ acceptedKeys overrides
  order : (result.map (·.key)).Pairwise fun a b =>
    Dict.firstIndex (acceptedKeys overrides) a < Dict.firstIndex (acceptedKeys overrides) b
  value : ∀ o ∈ result, lastValue overrides o.key = some o.value

/-- No value that counts holds a line boundary. -/
def SingleLine (overrides : List Override) : Prop :=
  ∀ key value, lastValue overrides key = some value → OneLine value

section
variable {f : OverrideFile} {s s' : Files} {overrides result : List Override}

theorem cleaned_of_items (h : pairs result = (Dict.ofPairs (given overrides)).items) :
    Cleaned overrides result := by
  have hk : result.map (·.key) = (Dict.ofPairs (given overrides)).keys := by
    rw [Dict.keys, ← h, pairs, List.map_map]
    rfl
  refine ⟨fun key => ?_, ?_, fun o ho => ?_⟩
  · rw [hk]
    exact Dict.mem_keys_ofPairs
  · rw [hk]
    exact Dict.pairwise_keys_ofPairs (given overrides)
  · have hm : (o.key, o.value) ∈ (Dict.ofPairs (given overrides)).items :=
      h ▸ List.mem_map.mpr ⟨o, ho, rfl⟩
    rw [Dict.mem_items, Dict.get?_ofPairs] at hm
    exact hm

/-- A returned override is one that was given, stripped. -/
theorem mem_given (h : pairs result = (Dict.ofPairs (given overrides)).items) {p : Str × Str}
    (hp : p ∈ pairs result) : p ∈ given overrides := by
  rw [h] at hp
  have hget := Dict.mem_items.mp hp
  rw [Dict.get?_ofPairs, Option.map_eq_some_iff] at hget
  obtain ⟨q, hq, e⟩ := hget
  have hkey : q.1 = p.1 := by simpa using List.find?_some hq
  have hqp : q = p := Prod.ext hkey e
  exact hqp ▸ List.mem_reverse.mp (List.mem_of_find?_eq_some hq)

theorem trim_given {p : Str × Str} (hp : p ∈ given overrides) : Trim p.2 := by
  obtain ⟨o, -, rfl⟩ := List.mem_map.mp hp
  exact trim_strip o.value

theorem singleLine_iff (h : Cleaned overrides result) :
    SingleLine overrides ↔ ∀ p ∈ pairs result, OneLine p.2 := by
  constructor
  · intro hs p hp
    obtain ⟨o, ho, rfl⟩ := List.mem_map.mp hp
    exact hs o.key o.value (h.value o ho)
  · intro hall key value hv
    have hk : key ∈ acceptedKeys overrides := by
      obtain ⟨p, hp, -⟩ := Option.map_eq_some_iff.mp hv
      have hkey : p.1 = key := by simpa using List.find?_some hp
      exact List.mem_map.mpr ⟨p, List.mem_reverse.mp (List.mem_of_find?_eq_some hp), hkey⟩
    obtain ⟨o, ho, rfl⟩ := List.mem_map.mp ((h.keys key).mpr hk)
    have e := (h.value o ho).symm.trans hv
    cases e
    exact hall _ (List.mem_map.mpr ⟨o, ho, rfl⟩)

theorem singleLine_of_given (h : ∀ p ∈ given overrides, OneLine p.2) : SingleLine overrides := by
  intro key value hv
  obtain ⟨p, hp, rfl⟩ := Option.map_eq_some_iff.mp hv
  exact h p (List.mem_reverse.mp (List.mem_of_find?_eq_some hp))

/-! ## What is read -/

/-- Pairs written one a line parse into themselves exactly when no value holds
a line boundary. -/
theorem parse_written_iff {ps : List (Str × Str)} (hk : ∀ p ∈ ps, IsKey p.1)
    (ht : ∀ p ∈ ps, Trim p.2) :
    (configLines (universalNewlines (managed
      (ps.map fun p => formatOverride f.spaced p.1 p.2)))).filterMap parseOverride = ps ↔
        ∀ p ∈ ps, OneLine p.2 := by
  refine read_written_iff (fun p hp => headed_formatOverride f.spaced p.2 (hk p hp))
    (fun p hp ho => ⟨oneLine_formatOverride f.spaced p.2 (hk p hp) ho, ?_⟩) fun ⟨key, value⟩ hp hn => ?_
  · rw [parseOverride_strip, parseOverride_format f.spaced p.2 (hk p hp), strip_eq_self (ht p hp)]
  · obtain ⟨l, c, q, rfl, hl, hc⟩ := exists_break hn
    have hkey : IsKey key := hk _ hp
    refine ⟨formatOverride f.spaced key l, c, q, (key, strip l), formatOverride_append f.spaced l c q,
      oneLine_formatOverride f.spaced l hkey hl, hc, ?_, fun e => ?_⟩
    · rw [parseOverride_strip, parseOverride_format f.spaced l hkey]
    · have hv : strip l = l ++ c :: q := (Prod.mk.inj e).2
      have hcl : c ∈ l := mem_strip (hv ▸ List.mem_append_right _ List.mem_cons_self)
      rw [hl c hcl] at hc
      cases hc

/-- Either pair of functions. -/
theorem overrides_read_back (h : (setOverrides f overrides).run box s = (.ok result, s')) :
    Cleaned overrides result ∧
      (((listOverrides f).run box s').1 = .ok result ↔ SingleLine overrides) := by
  obtain ⟨hitems, rfl, hok⟩ := run_setOverrides h
  have hclean := cleaned_of_items hitems
  have hk : ∀ p ∈ pairs result, IsKey p.1 := fun p hp => f.isKey _ (hok p (mem_given hitems hp))
  have ht : ∀ p ∈ pairs result, Trim p.2 := fun p hp => trim_given (mem_given hitems hp)
  refine ⟨hclean, ?_⟩
  rw [run_listOverrides, read_write, parse_written_iff hk ht, singleLine_iff hclean]

end

/-! ## The two files -/

/-- An accepted set of overrides is returned as `Cleaned` says. The next list
is the same list exactly when no value that counts holds a line boundary. -/
theorem reads_back_iff (s s' : Files) (overrides result : List Override) :
    ((setPostfixOverrides overrides).run box s = (.ok result, s') →
      Cleaned overrides result ∧
        ((listPostfixOverrides.run box s').1 = .ok result ↔ SingleLine overrides)) ∧
    ((setPostfixMasterOverrides overrides).run box s = (.ok result, s') →
      Cleaned overrides result ∧
        ((listPostfixMasterOverrides.run box s').1 = .ok result ↔ SingleLine overrides)) :=
  ⟨overrides_read_back, overrides_read_back⟩

/-- A key that comes twice, and values with `=` and `#` in them. -/
def repeated : List Override :=
  [⟨"relayhost".toList, "first".toList, by decide, by decide⟩,
    ⟨" mynetworks ".toList, " 10.0.0.0/8 # = ".toList, by decide, by decide⟩,
    ⟨"relayhost".toList, " [mx.x.org]:25".toList, by decide, by decide⟩]

theorem reads_back_iff_repeated :
    ∃ result s', (setPostfixOverrides repeated).run box (fun _ => none) = (.ok result, s') ∧
      pairs result = [("relayhost".toList, "[mx.x.org]:25".toList),
        ("mynetworks".toList, "10.0.0.0/8 # =".toList)] ∧
      Cleaned repeated result ∧ (listPostfixOverrides.run box s').1 = .ok result := by
  obtain ⟨result, hr⟩ := exists_ok
    (r := ((setPostfixOverrides repeated).run box fun _ => none).1) (by decide +kernel)
  have hrun : (setPostfixOverrides repeated).run box (fun _ => none) =
      (.ok result, ((setPostfixOverrides repeated).run box fun _ => none).2) := Prod.ext hr rfl
  have h := (reads_back_iff (fun _ => none) _ repeated result).1 hrun
  refine ⟨result, _, hrun, ?_, h.1, h.2.mpr (singleLine_of_given (by decide +kernel))⟩
  rw [(run_setOverrides hrun).1]
  decide +kernel

/-- One value of two lines. -/
def forged : List Override :=
  [⟨"relayhost".toList, "mx\nmynetworks = 0.0.0.0/0".toList, by decide, by decide⟩]

/-- The files after `set_postfix_overrides(forged)`. -/
def afterForged : Files := ((setPostfixOverrides forged).run box fun _ => none).2

/-- One override is returned, and two parameters are read. -/
theorem forged_parameter :
    ((setPostfixOverrides forged).run box fun _ => none).1.toOption.map pairs =
        some [("relayhost".toList, "mx\nmynetworks = 0.0.0.0/0".toList)] ∧
      (listPostfixOverrides.run box afterForged).1.toOption.map pairs =
        some [("relayhost".toList, "mx".toList), ("mynetworks".toList, "0.0.0.0/0".toList)] ∧
      (listPostfixOverrides.run box afterForged).1 ≠
        ((setPostfixOverrides forged).run box fun _ => none).1 := by
  have hset : ((setPostfixOverrides forged).run box fun _ => none).1.toOption.map pairs =
      some [("relayhost".toList, "mx\nmynetworks = 0.0.0.0/0".toList)] := by decide +kernel
  have hlist : (listPostfixOverrides.run box afterForged).1.toOption.map pairs =
      some [("relayhost".toList, "mx".toList), ("mynetworks".toList, "0.0.0.0/0".toList)] := by
    decide +kernel
  refine ⟨hset, hlist, fun e => ?_⟩
  rw [e, hset] at hlist
  exact absurd hlist (by decide)

end MailserverUi.L4.OverridesReadBack

import MailserverUi.Core.Text
import MailserverUi.Core.CaseTables

/-!
# `str.lower`

Full lower-casing as Python does it: ASCII directly, the simple mappings of
the table above it, `İ` to two characters, and the capital sigma to its final
form when a cased letter stands before it and none after it.

The table is checked run against run (`runOk_all`): no image is moved again,
is blank, or is an ASCII character other than a small letter. From that:

* `lower_of_low`: a text without capitals is left alone.
* `mem_lower_iff`: an ASCII character that is no letter is in the lowered text
  exactly when it is in the text.
* `noSpace_lower`, `trim_lower`, `oneLine_lower`: lowering makes no blank.
-/
namespace MailserverUi.Py

def CaseRun.has (r : CaseRun) (n : Nat) : Bool :=
  r.first.ble n && n.ble r.last && ((n - r.first) % r.stride == 0)

/-- The simple lower-case mapping on code points. -/
def lowerCode (n : Nat) : Nat :=
  if n < 128 then (if 65 ≤ n ∧ n ≤ 90 then n + 32 else n)
  else match lowerRuns.find? (·.has n) with
    | some r => r.image + (n - r.first)
    | none => n

def inRanges (rs : List (Nat × Nat)) (c : Char) : Bool :=
  rs.any fun r => r.1 ≤ c.toNat && c.toNat ≤ r.2

def cased (c : Char) : Bool := inRanges casedRanges c

def caseIgnorable (c : Char) : Bool := inRanges caseIgnorableRanges c

/-- Whether a capital sigma between `pre` (read backwards) and `post` takes
its final form. -/
def finalSigma (pre post : Str) : Bool :=
  (pre.find? fun c => !caseIgnorable c).any cased &&
    !(post.find? fun c => !caseIgnorable c).any cased

def lowerAt (pre : Str) (c : Char) (post : Str) : Str :=
  if c = 'Σ' then [if finalSigma pre post then 'ς' else 'σ']
  else if c = 'İ' then ['i', '\u0307']
  else [Char.ofNat (lowerCode c.toNat)]

def lowerFrom (pre : Str) : Str → Str
  | [] => []
  | c :: s => lowerAt pre c s ++ lowerFrom (c :: pre) s

def lower (s : Str) : Str := lowerFrom [] s

/-! ## The table, run against run -/

/-- No image of `r` is moved by `q`: the intervals are apart, or both go by two
and are out of step. -/
def CaseRun.apart (r q : CaseRun) : Bool :=
  (r.image + (r.last - r.first)).blt q.first || q.last.blt r.image ||
    (q.stride == 2 && (r.stride == 2 || r.first == r.last) && (r.image + q.first) % 2 == 1)

/-- The images of `r` avoid the code points from `lo` to `hi`. -/
def CaseRun.avoids (r : CaseRun) (lo hi : Nat) : Bool :=
  (r.image + (r.last - r.first)).blt lo || hi.blt r.image

def runOk (r : CaseRun) : Bool :=
  (Nat.ble 128 r.image || (r.image == 107 && r.first == r.last)) &&
    (r.image + (r.last - r.first)).blt 0x110000 && r.avoids 0xD800 0xDFFF &&
    r.avoids 0x85 0x85 && r.avoids 0xA0 0xA0 && r.avoids 0x1680 0x1680 &&
    r.avoids 0x2000 0x205F && r.avoids 0x3000 0x3000 && r.avoids 0x3A3 0x3A3 &&
    r.avoids 0x130 0x130 && lowerRuns.all r.apart

set_option maxRecDepth 100000 in
theorem runOk_all : lowerRuns.all runOk = true := by decide +kernel

theorem CaseRun.has_iff {r : CaseRun} {n : Nat} :
    r.has n = true ↔ r.first ≤ n ∧ n ≤ r.last ∧ (n - r.first) % r.stride = 0 := by
  simp [CaseRun.has, and_assoc]

theorem CaseRun.has_of_apart {r q : CaseRun} (h : r.apart q = true) {d : Nat}
    (hd : d ≤ r.last - r.first) (hs : d % r.stride = 0) : q.has (r.image + d) = false := by
  rw [Bool.eq_false_iff, Ne, has_iff]
  rintro ⟨h₁, h₂, h₃⟩
  simp only [apart, Bool.or_eq_true, Bool.and_eq_true, beq_iff_eq, Nat.blt_eq] at h
  rcases h with (h | h) | ⟨⟨hq, hr⟩, hp⟩
  · omega
  · omega
  · rw [hq] at h₃
    rcases hr with hr | hr
    · rw [hr] at hs; omega
    · omega

theorem CaseRun.ne_of_avoids {r : CaseRun} {lo hi d n : Nat} (h : r.avoids lo hi = true)
    (hd : d ≤ r.last - r.first) (hn : n = r.image + d) : n < lo ∨ hi < n := by
  simp only [avoids, Bool.or_eq_true, Nat.blt_eq] at h
  omega

/-- What lower-casing makes of a code point that is neither `Σ` nor `İ`: a
fixed point, valid, and no blank unless it was there already. An ASCII image is
a small letter. -/
structure LowImage (n m : Nat) : Prop where
  fixed : lowerCode m = m
  sigma : n ≠ 0x3A3 → m ≠ 0x3A3
  dotted : n ≠ 0x130 → m ≠ 0x130
  valid : Nat.isValidChar n → Nat.isValidChar m
  image : m = n ∨ (97 ≤ m ∧ m ≤ 122) ∨ (128 ≤ m ∧ isSpace (Char.ofNat m) = false)

theorem toNat_ofNat {n : Nat} (h : Nat.isValidChar n) : (Char.ofNat n).toNat = n := by
  rw [Char.ofNat, dif_pos h]; rfl

theorem lowImage (n : Nat) : LowImage n (lowerCode n) := by
  unfold lowerCode
  split
  · split
    · refine ⟨?_, by omega, by omega, fun _ => .inl (by omega), .inr (.inl (by omega))⟩
      rw [lowerCode, if_pos (by omega), if_neg (by omega)]
    · exact ⟨by simp only [lowerCode]; split <;> omega, id, id, id, .inl rfl⟩
  · rename_i hn
    split
    · rename_i r hr
      have hmem := List.mem_of_find?_eq_some hr
      have hhas := List.find?_some hr
      obtain ⟨h₁, h₂, h₃⟩ := CaseRun.has_iff.mp hhas
      have hok := List.all_eq_true.mp runOk_all r hmem
      simp only [runOk, Bool.and_eq_true, Bool.or_eq_true, Nat.ble_eq, Nat.blt_eq, beq_iff_eq] at hok
      obtain ⟨⟨⟨⟨⟨⟨⟨⟨⟨⟨hA, hV⟩, hS⟩, h85⟩, hA0⟩, h16⟩, h20⟩, h30⟩, h3A⟩, h130⟩, hap⟩ := hok
      generalize hd : n - r.first = d at h₃ ⊢
      generalize hm : r.image + d = m
      have hdle : d ≤ r.last - r.first := by omega
      have av : ∀ {lo hi}, r.avoids lo hi = true → m < lo ∨ hi < m := fun h =>
        CaseRun.ne_of_avoids h hdle hm.symm
      have hvalid : Nat.isValidChar m := by
        rcases av hS with h | h
        · exact .inl h
        · exact .inr ⟨by omega, by omega⟩
      refine ⟨?_, fun _ => by have := av h3A; omega, fun _ => by have := av h130; omega,
        fun _ => hvalid, .inr ?_⟩
      · have hnone : lowerRuns.find? (·.has m) = none := by
          rw [List.find?_eq_none]
          intro q hq
          rw [← hm, CaseRun.has_of_apart (List.all_eq_true.mp hap q hq) hdle h₃]
          exact Bool.false_ne_true
        simp only [lowerCode, hnone]
        split
        · rw [if_neg (by omega)]
        · rfl
      · rcases hA with hA | ⟨hA, hA'⟩
        · refine .inr ⟨by omega, ?_⟩
          have := av h85; have := av hA0; have := av h16; have := av h20; have := av h30
          rw [Bool.eq_false_iff]
          simp only [isSpace, toNat_ofNat hvalid, Ne, Bool.or_eq_true, Bool.and_eq_true,
            decide_eq_true_eq, beq_iff_eq]
          omega
        · exact .inl (by omega)
    · rename_i hr
      refine ⟨?_, id, id, id, .inl rfl⟩
      simp only [lowerCode, hr, if_neg hn]

/-! ## Texts -/

/-- Lower-casing leaves the character alone. -/
def Low (c : Char) : Prop := c ≠ 'Σ' ∧ c ≠ 'İ' ∧ lowerCode c.toNat = c.toNat

/-- One character of a lowered text: fixed by lowering, and either the
character it came from, a small ASCII letter, or neither ASCII nor blank. -/
theorem mem_lowerAt {pre post : Str} {c d : Char} (h : d ∈ lowerAt pre c post) :
    Low d ∧ (d = c ∨ (97 ≤ d.toNat ∧ d.toNat ≤ 122) ∨ (128 ≤ d.toNat ∧ isSpace d = false)) := by
  unfold lowerAt at h
  split at h
  · rename_i hs
    simp only [List.mem_singleton] at h
    split at h <;> subst h <;> exact ⟨by unfold Low; decide +kernel, .inr (.inr (by decide))⟩
  · rename_i hs
    split at h
    · rename_i hd
      simp only [List.mem_cons, List.not_mem_nil, or_false] at h
      rcases h with rfl | rfl
      · exact ⟨by unfold Low; decide +kernel, .inr (.inl (by decide))⟩
      · exact ⟨by unfold Low; decide +kernel, .inr (.inr (by decide))⟩
    · rename_i hd
      simp only [List.mem_singleton] at h
      have L := lowImage c.toNat
      have hv : (Char.ofNat (lowerCode c.toNat)).toNat = lowerCode c.toNat :=
        toNat_ofNat (L.valid c.valid)
      subst h
      refine ⟨⟨?_, ?_, by rw [hv]; exact L.fixed⟩, ?_⟩
      · intro e
        exact L.sigma (fun e' => hs (Char.toNat_inj.mp e')) (by rw [← hv, e]; rfl)
      · intro e
        exact L.dotted (fun e' => hd (Char.toNat_inj.mp e')) (by rw [← hv, e]; rfl)
      · rw [hv]
        rcases L.image with h | h | h
        · left; rw [h]; exact Char.ofNat_toNat c
        · exact .inr (.inl h)
        · exact .inr (.inr h)

theorem lowerAt_low {pre post : Str} {c : Char} (h : Low c) : lowerAt pre c post = [c] := by
  rw [lowerAt, if_neg h.1, if_neg h.2.1, h.2.2, Char.ofNat_toNat]

theorem mem_lowerFrom {pre s : Str} {d : Char} (h : d ∈ lowerFrom pre s) :
    ∃ c ∈ s, ∃ pre post, d ∈ lowerAt pre c post := by
  induction s generalizing pre with
  | nil => cases h
  | cons c s ih =>
    rcases List.mem_append.mp h with h | h
    · exact ⟨c, by simp, pre, s, h⟩
    · obtain ⟨c', hc', hd⟩ := ih h
      exact ⟨c', by simp [hc'], hd⟩

theorem mem_lower {s : Str} {d : Char} (h : d ∈ lower s) :
    Low d ∧ (d ∈ s ∨ (97 ≤ d.toNat ∧ d.toNat ≤ 122) ∨ (128 ≤ d.toNat ∧ isSpace d = false)) := by
  obtain ⟨c, hc, pre, post, hd⟩ := mem_lowerFrom h
  obtain ⟨hl, rfl | hd⟩ := mem_lowerAt hd
  · exact ⟨hl, .inl hc⟩
  · exact ⟨hl, .inr hd⟩

theorem lowerFrom_of_low {pre s : Str} (h : ∀ c ∈ s, Low c) : lowerFrom pre s = s := by
  induction s generalizing pre with
  | nil => rfl
  | cons c s ih =>
    rw [lowerFrom, lowerAt_low (h c (by simp)), ih fun d hd => h d (by simp [hd])]; rfl

theorem lower_of_low {s : Str} (h : ∀ c ∈ s, Low c) : lower s = s := lowerFrom_of_low h

/-- An ASCII character that is no letter. -/
def Mark (c : Char) : Prop :=
  c.toNat < 128 ∧ ¬ (65 ≤ c.toNat ∧ c.toNat ≤ 90) ∧ ¬ (97 ≤ c.toNat ∧ c.toNat ≤ 122)

instance (c : Char) : Decidable (Mark c) := by unfold Mark; infer_instance

theorem Mark.low {c : Char} (h : Mark c) : Low c := by
  obtain ⟨h₁, h₂, -⟩ := h
  refine ⟨?_, ?_, by rw [lowerCode, if_pos h₁, if_neg h₂]⟩
  · rintro rfl; exact absurd h₁ (by decide)
  · rintro rfl; exact absurd h₁ (by decide)

theorem mem_lowerFrom_of_low {pre s : Str} {c : Char} (h : c ∈ s) (hl : Low c) :
    c ∈ lowerFrom pre s := by
  induction s generalizing pre with
  | nil => cases h
  | cons d s ih =>
    rw [lowerFrom, List.mem_append]
    rcases List.mem_cons.mp h with rfl | h
    · left; simp [lowerAt_low hl]
    · exact .inr (ih h)

theorem mem_lower_iff {s : Str} {c : Char} (h : Mark c) : c ∈ lower s ↔ c ∈ s := by
  refine ⟨fun hc => ?_, fun hc => mem_lowerFrom_of_low hc h.low⟩
  obtain ⟨-, hc | hc | hc⟩ := mem_lower hc
  · exact hc
  · exact absurd hc h.2.2
  · exact absurd hc.1 (by have := h.1; omega)

theorem isSpace_lowerAt {pre post : Str} {c d : Char} (h : d ∈ lowerAt pre c post)
    (hc : isSpace c = false) : isSpace d = false := by
  obtain ⟨-, rfl | hd | hd⟩ := mem_lowerAt h
  · exact hc
  · rw [Bool.eq_false_iff]
    simp only [isSpace, Ne, Bool.or_eq_true, Bool.and_eq_true, decide_eq_true_eq, beq_iff_eq]
    omega
  · exact hd.2

theorem noSpace_lower {s : Str} (h : NoSpace s) : NoSpace (lower s) := by
  intro d hd
  obtain ⟨c, hc, pre, post, hd⟩ := mem_lowerFrom hd
  exact isSpace_lowerAt hd (h c hc)

theorem oneLine_lower {s : Str} (h : OneLine s) : OneLine (lower s) := by
  intro d hd
  obtain ⟨-, hd | hd | hd⟩ := mem_lower hd
  · exact h d hd
  · rw [Bool.eq_false_iff]
    simp only [isBreak, Ne, Bool.or_eq_true, Bool.and_eq_true, decide_eq_true_eq, beq_iff_eq]
    omega
  · rw [Bool.eq_false_iff]
    exact fun e => absurd (isSpace_of_isBreak e) (by simp [hd.2])

theorem lowerAt_ne_nil (pre : Str) (c : Char) (post : Str) : lowerAt pre c post ≠ [] := by
  unfold lowerAt
  split
  · simp
  · split <;> simp

theorem lower_eq_nil {s : Str} : lower s = [] ↔ s = [] := by
  cases s with
  | nil => simp [lower, lowerFrom]
  | cons c s => simp [lower, lowerFrom, lowerAt_ne_nil]

/-- Lowering puts no mark in front. -/
theorem head?_of_head?_lower {s : Str} {d : Char} (hd : Mark d) (h : (lower s).head? = some d) :
    s.head? = some d := by
  cases s with
  | nil => cases h
  | cons c s =>
    rw [lower, lowerFrom, List.head?_append_of_ne_nil _ (lowerAt_ne_nil _ _ _)] at h
    obtain ⟨-, rfl | hc | hc⟩ := mem_lowerAt (List.mem_of_mem_head? h)
    · rfl
    · exact absurd hc hd.2.2
    · exact absurd hc.1 (not_le.mpr hd.1)

theorem getLast?_lowerFrom {pre s : Str} {d : Char} (h : (lowerFrom pre s).getLast? = some d) :
    ∃ c pre post, s.getLast? = some c ∧ d ∈ lowerAt pre c post := by
  induction s generalizing pre with
  | nil => simp [lowerFrom] at h
  | cons c s ih =>
    rw [lowerFrom, List.getLast?_append] at h
    rcases Option.or_eq_some_iff.mp h with h | ⟨hn, h⟩
    · obtain ⟨c', pre', post', hc', hd⟩ := ih h
      exact ⟨c', pre', post', by rw [List.getLast?_cons, hc']; rfl, hd⟩
    · cases s with
      | nil => exact ⟨c, pre, [], rfl, List.mem_of_getLast? h⟩
      | cons c' s => simp [lowerFrom, lowerAt_ne_nil] at hn

theorem trim_lower {s : Str} (h : Trim s) : Trim (lower s) := by
  rintro d (hd | hd)
  · cases s with
    | nil => simp [lower, lowerFrom] at hd
    | cons c s =>
      rw [lower, lowerFrom, List.head?_append_of_ne_nil _ (lowerAt_ne_nil _ _ _)] at hd
      exact isSpace_lowerAt (List.mem_of_mem_head? hd) (h c (.inl rfl))
  · obtain ⟨c, pre, post, hc, hd⟩ := getLast?_lowerFrom hd
    exact isSpace_lowerAt hd (h c (.inr hc))

end MailserverUi.Py

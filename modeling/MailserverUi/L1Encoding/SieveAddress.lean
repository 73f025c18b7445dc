import MailserverUi.L1Encoding.MailFiles

/-!
# Addresses a Sieve file may be named after

`_SIEVE_ADDRESS_RE` is `^[A-Za-z0-9._%+-]+@[A-Za-z0-9.-]+$`. Its `$` lets one
final newline pass, which an address that was normalised does not have.

Results:
* `sieveAddress_iff`: the two parts of a text that matches.
* `plain_of_sieveAddress`: a stripped address that matches has only characters
  of the two classes and the `@`, hence no blank and none of the separators of
  the account, quota and alias files.
-/
namespace MailserverUi.L1.SieveAddress

open Py MailFiles

def isLocalChar (c : Char) : Bool := c.isAlphanum || c ∈ "._%+-".toList

def isDomainChar (c : Char) : Bool := c.isAlphanum || c ∈ ".-".toList

/-- `_SIEVE_ADDRESS_RE.match(address)`; `$` also matches before a final
newline.
mirrors backend/app/services/mailbox_service.py:50 -/
def sieveAddress (address : Str) : Bool :=
  let domain := after '@' address
  let domain := if domain.getLast? = some '\n' then domain.dropLast else domain
  '@' ∈ address && before '@' address ≠ [] && (before '@' address).all isLocalChar &&
    domain ≠ [] && domain.all isDomainChar

/-- mirrors backend/app/services/mailbox_service.py:393-395 -/
def sieveFilename (address : Str) : Str := address ++ ".dovecot.sieve".toList

theorem sieveFilename_inj {a b : Str} : sieveFilename a = sieveFilename b ↔ a = b :=
  List.append_left_inj _

/-- A Sieve file is none of the three `.cf` files. -/
theorem sieveFilename_ne {a f : Str} (h : f.getLast? ≠ some 'e') : f ≠ sieveFilename a := by
  rintro rfl
  exact h (by simp [sieveFilename])

/-! ## The characters -/

theorem isLocalChar_of_isDomainChar {c : Char} (h : isDomainChar c = true) :
    isLocalChar c = true := by
  simp only [isDomainChar, isLocalChar, Bool.or_eq_true, decide_eq_true_eq] at h ⊢
  rcases h with h | h
  · exact .inl h
  · have hall : ".-".toList.all (fun d => d ∈ "._%+-".toList) = true := by decide
    exact .inr (of_decide_eq_true (List.all_eq_true.mp hall c h))

theorem isLocalChar_range {c : Char} (h : isLocalChar c = true) :
    c.toNat < 128 ∧ 32 < c.toNat ∧ c ≠ '@' := by
  simp only [isLocalChar, Bool.or_eq_true, decide_eq_true_eq] at h
  rcases h with h | h
  · have hr := isAlphanum_range h
    refine ⟨by omega, by omega, ?_⟩
    rintro rfl
    exact absurd h (by decide)
  · have hall : "._%+-".toList.all (fun d => d.toNat < 128 ∧ 32 < d.toNat ∧ d ≠ '@') = true := by
      decide
    exact of_decide_eq_true (List.all_eq_true.mp hall c h)

/-! ## The two parts -/

theorem sieveAddress_iff {a : Str} :
    sieveAddress a = true ↔ ∃ L D nl, a = L ++ '@' :: (D ++ nl) ∧ (nl = [] ∨ nl = ['\n']) ∧
      L ≠ [] ∧ D ≠ [] ∧ (∀ c ∈ L, isLocalChar c = true) ∧ ∀ c ∈ D, isDomainChar c = true := by
  simp only [sieveAddress, Bool.and_eq_true, decide_eq_true_eq, List.all_eq_true]
  constructor
  · rintro ⟨⟨⟨⟨hat, hL⟩, hLc⟩, hD⟩, hDc⟩
    by_cases hn : (after '@' a).getLast? = some '\n'
    · rw [if_pos hn] at hD hDc
      refine ⟨before '@' a, (after '@' a).dropLast, ['\n'], ?_, .inr rfl, hL, hD, hLc, hDc⟩
      rw [List.dropLast_append_getLast? '\n' hn, before_cons_after hat]
    · rw [if_neg hn] at hD hDc
      refine ⟨before '@' a, after '@' a, [], ?_, .inl rfl, hL, hD, hLc, hDc⟩
      rw [List.append_nil, before_cons_after hat]
  · rintro ⟨L, D, nl, rfl, hnl, hL, hD, hLc, hDc⟩
    have hat : '@' ∉ L := fun h => (isLocalChar_range (hLc _ h)).2.2 rfl
    have hdom : (if (D ++ nl).getLast? = some '\n' then (D ++ nl).dropLast else D ++ nl) = D := by
      rcases hnl with rfl | rfl
      · rw [List.append_nil, if_neg]
        intro h
        exact absurd (hDc _ (List.mem_of_getLast? h)) (by decide)
      · rw [List.getLast?_concat, if_pos rfl, List.dropLast_concat]
    rw [before_append _ hat, after_append _ hat, hdom]
    exact ⟨⟨⟨⟨by simp, hL⟩, hLc⟩, hD⟩, hDc⟩

/-- A stripped address that matches. -/
theorem parts_of_sieveAddress {a : Str} (h : sieveAddress a = true) (ht : Trim a) :
    ∃ L D, a = L ++ '@' :: D ∧ (∀ c ∈ L, isLocalChar c = true) ∧
      ∀ c ∈ D, isDomainChar c = true := by
  obtain ⟨L, D, nl, rfl, rfl | rfl, -, -, hL, hD⟩ := sieveAddress_iff.mp h
  · exact ⟨L, D, by simp, hL, hD⟩
  · have hlast : (L ++ '@' :: (D ++ ['\n'])).getLast? = some '\n' := by
      rw [← List.cons_append, ← List.append_assoc, List.getLast?_concat]
    exact absurd (ht '\n' (.inr hlast)) (by decide)

theorem plain_of_sieveAddress {a : Str} (h : sieveAddress a = true) (ht : Trim a) :
    ∀ c ∈ a, isLocalChar c = true ∨ c = '@' := by
  obtain ⟨L, D, rfl, hL, hD⟩ := parts_of_sieveAddress h ht
  intro c hc
  rcases List.mem_append.mp hc with hc | hc
  · exact .inl (hL c hc)
  · rcases List.mem_cons.mp hc with rfl | hc
    · exact .inr rfl
    · exact .inl (isLocalChar_of_isDomainChar (hD c hc))

/-- What the other files need of such an address. -/
structure Plain (a : Str) : Prop where
  atSign : '@' ∈ a
  noSpace : NoSpace a
  sep : '|' ∉ a ∧ ':' ∉ a ∧ ',' ∉ a

theorem Plain.of_sieveAddress {a : Str} (h : sieveAddress a = true) (ht : Trim a) : Plain a := by
  have hc := plain_of_sieveAddress h ht
  refine ⟨?_, fun c hm => ?_, ?_⟩
  · obtain ⟨L, D, rfl, -⟩ := parts_of_sieveAddress h ht
    simp
  · rcases hc c hm with hl | rfl
    · obtain ⟨h₁, h₂, -⟩ := isLocalChar_range hl
      exact isSpace_of_range h₂ h₁
    · decide
  · have no (d : Char) (hd : isLocalChar d = false) (hd' : d ≠ '@') : d ∉ a := by
      intro hm
      rcases hc d hm with e | e
      · rw [hd] at e
        cases e
      · exact hd' e
    exact ⟨no '|' (by decide) (by decide), no ':' (by decide) (by decide),
      no ',' (by decide) (by decide)⟩

end MailserverUi.L1.SieveAddress

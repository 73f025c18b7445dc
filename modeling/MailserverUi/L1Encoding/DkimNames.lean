import MailserverUi.L1Encoding.DkimFiles

/-!
# Splitting a DKIM file name at its selector

A name joins a key type, maybe a key size, a selector and a domain with
hyphens, and only the first two cannot hold one. It is split at the first
`-selector-`. Before the right place there is one other where that can stand:
in front of the key size.

Results:
* `afterText_stem`: the domain is found, except when `selector-` is a prefix of
  what follows the key type.
* `prefix_iff_repeats`: which selectors are: the key size, repeated.
* `recordSelector_eq`: the selector of a record that begins with one.
-/
namespace MailserverUi.L1.DkimNames

open Py L1.DkimFiles

/-- `<keytype>[-<keysize>]-<selector>-<domain>`. -/
def stem (keytype : Str) (keysize : Option Str) (selector domain : Str) : Str :=
  keytype ++ keysize.elim [] ('-' :: ·) ++ '-' :: selector ++ '-' :: domain

/-- The key size once, or several times with hyphens between. -/
def Repeats (keysize selector : Str) : Prop :=
  ∃ n, selector ++ ['-'] = (List.replicate (n + 1) (keysize ++ ['-'])).flatten

/-! ## The first place -/

section
variable {sep s dom : Str}

theorem afterText_skip (u : Str) {a : Str} (h : '-' ∉ a) (s : Str) :
    afterText ('-' :: u) (a ++ s) = afterText ('-' :: u) s := by
  induction a with
  | nil => rfl
  | cons c a ih =>
    rw [List.mem_cons, not_or] at h
    have hc : ('-' :: u).isPrefixOf (c :: (a ++ s)) = false := by
      rw [List.isPrefixOf, beq_eq_false_iff_ne.mpr h.1]
      rfl
    rw [List.cons_append, afterText, hc]
    exact ih h.2

theorem afterText_here (h : sep ≠ []) (s : Str) : afterText sep (sep ++ s) = some s := by
  obtain ⟨c, u, rfl⟩ := List.exists_cons_of_ne_nil h
  have hp : (c :: u).isPrefixOf (c :: (u ++ s)) = true :=
    List.isPrefixOf_iff_prefix.mpr (List.prefix_append (c :: u) s)
  rw [List.cons_append, afterText, if_pos hp, ← List.cons_append, List.drop_left]

/-- The separator stands at the hyphen itself, or is looked for behind it. -/
theorem afterText_hyphen (u : Str) {a : Str} (h : '-' ∉ a) (s : Str) :
    afterText ('-' :: u) ('-' :: (a ++ s)) =
      if u <+: a ++ s then some ((a ++ s).drop u.length) else afterText ('-' :: u) s := by
  have hp : ('-' :: u).isPrefixOf ('-' :: (a ++ s)) = true ↔ u <+: a ++ s := by
    rw [List.isPrefixOf_iff_prefix, List.cons_prefix_cons]
    simp
  rw [afterText]
  by_cases hu : u <+: a ++ s
  · rw [if_pos (hp.mpr hu), if_pos hu, List.length_cons, List.drop_succ_cons]
  · rw [if_neg (fun e => hu (hp.mp e)), if_neg hu, afterText_skip u h]

/-- The domain of a name with a key size is what follows the selector, unless
the selector is found in front of the key size. -/
theorem afterText_sized {keytype keysize : Str} (ht : '-' ∉ keytype) (hk : '-' ∉ keysize)
    (selector domain : Str) :
    afterText ('-' :: selector ++ ['-']) (stem keytype (some keysize) selector domain) =
        some domain ↔
      ¬ selector ++ ['-'] <+: keysize ++ '-' :: (selector ++ '-' :: domain) := by
  have hstem : stem keytype (some keysize) selector domain =
      keytype ++ ('-' :: (keysize ++ ('-' :: selector ++ ['-'] ++ domain))) := by
    simp [stem]
  have htail : keysize ++ '-' :: (selector ++ '-' :: domain) =
      keysize ++ ('-' :: selector ++ ['-'] ++ domain) := by simp
  rw [hstem, htail, List.cons_append, afterText_skip _ ht, afterText_hyphen _ hk]
  constructor
  · intro h hp
    rw [if_pos hp, Option.some.injEq] at h
    have hlen := congrArg List.length h
    simp only [List.length_drop, List.length_append, List.length_cons, List.length_nil] at hlen
    omega
  · intro hp
    rw [if_neg hp]
    exact afterText_here (List.cons_ne_nil _ _) domain

theorem afterText_unsized {keytype : Str} (ht : '-' ∉ keytype) (selector domain : Str) :
    afterText ('-' :: selector ++ ['-']) (stem keytype none selector domain) = some domain := by
  have hstem : stem keytype none selector domain =
      keytype ++ ('-' :: selector ++ ['-'] ++ domain) := by
    simp [stem]
  rw [hstem, List.cons_append, afterText_skip _ ht]
  exact afterText_here (List.cons_ne_nil _ _) domain

end

/-! ## Selectors that repeat the key size -/

/-- A text that ends with a hyphen and goes on as itself behind a key size with
its hyphen is that key size, over and over: the prefix is taken off, and what
is left has the same property. -/
theorem repeated_of_prefix {keysize : Str} (hk : '-' ∉ keysize) {w rest : Str}
    (hl : w.getLast? = some '-') (hp : w <+: (keysize ++ ['-']) ++ (w ++ rest)) :
    ∃ n, w = (List.replicate (n + 1) (keysize ++ ['-'])).flatten := by
  induction hn : w.length using Nat.strong_induction_on generalizing w rest with
  | _ n ih =>
    obtain ⟨init, rfl⟩ := List.getLast?_eq_some_iff.mp hl
    by_cases hlen : (init ++ ['-']).length ≤ (keysize ++ ['-']).length
    · -- no longer than the key size with its hyphen: all of that
      have hpre := List.prefix_of_prefix_length_le hp (List.prefix_append _ _) hlen
      refine ⟨0, ?_⟩
      obtain ⟨more, hm⟩ := hpre
      cases more with
      | nil =>
        rw [List.append_nil] at hm
        simp [hm]
      | cons c more =>
        exfalso
        have hmem : '-' ∈ keysize := by
          have hd := congrArg List.dropLast hm
          rw [List.dropLast_concat, List.dropLast_append_of_ne_nil (List.cons_ne_nil _ _)] at hd
          rw [← hd]
          simp
        exact hk hmem
    · have hpre := List.prefix_of_prefix_length_le (List.prefix_append (keysize ++ ['-']) _) hp
        (by omega)
      obtain ⟨w', hw'⟩ := hpre
      have hne : w' ≠ [] := by
        rintro rfl
        rw [List.append_nil] at hw'
        rw [hw'] at hlen
        omega
      have hlast : w'.getLast? = some '-' := by
        rw [← hw', List.getLast?_append_of_ne_nil _ hne] at hl
        exact hl
      rw [← hw'] at hp
      have hp' : w' <+: (keysize ++ ['-']) ++ (w' ++ rest) := by
        have := (List.prefix_append_right_inj _).mp hp
        rwa [List.append_assoc] at this
      obtain ⟨m, hm⟩ := ih w'.length (by
        rw [← hn, ← hw', List.length_append, List.length_append]
        simp) hlast hp' rfl
      refine ⟨m + 1, ?_⟩
      rw [← hw', hm, List.replicate_succ (n := m + 1), List.flatten_cons]

/-- The selector with its hyphen is found in front of the key size exactly when
it repeats it. -/
theorem prefix_iff_repeats {keysize : Str} (hk : '-' ∉ keysize) (selector domain : Str) :
    selector ++ ['-'] <+: keysize ++ '-' :: (selector ++ '-' :: domain) ↔
      Repeats keysize selector := by
  have e : keysize ++ '-' :: (selector ++ '-' :: domain) =
      (keysize ++ ['-']) ++ ((selector ++ ['-']) ++ domain) := by simp
  rw [e]
  constructor
  · exact repeated_of_prefix hk List.getLast?_concat
  · rintro ⟨n, hn⟩
    rw [hn]
    have hcomm : (keysize ++ ['-']) ++ (List.replicate (n + 1) (keysize ++ ['-'])).flatten =
        (List.replicate (n + 1) (keysize ++ ['-'])).flatten ++ (keysize ++ ['-']) := by
      rw [← List.flatten_cons, ← List.replicate_succ, List.replicate_succ', List.flatten_append]
      simp
    rw [← List.append_assoc, hcomm, List.append_assoc]
    exact List.prefix_append _ _

/-- Nothing is before the key type, so a name without a key size is split
rightly. -/
theorem afterText_stem {keytype : Str} (keysize : Option Str) (ht : '-' ∉ keytype)
    (hk : ∀ k ∈ keysize, '-' ∉ k) (selector domain : Str) :
    afterText ('-' :: selector ++ ['-']) (stem keytype keysize selector domain) = some domain ↔
      ∀ k ∈ keysize, ¬ Repeats k selector := by
  cases keysize with
  | none => exact iff_of_true (afterText_unsized ht selector domain) (fun k hk => by cases hk)
  | some k =>
    have hk := hk k rfl
    rw [afterText_sized ht hk, prefix_iff_repeats hk]
    simp

/-! ## The selector of a record -/

def recordSuffix : Str := "._domainkey".toList

/-- The longest prefix that passes. -/
theorem find?_inits_reverse {p : Str → Bool} {u v : Str} (hu : p u = true)
    (h : ∀ x ∈ v.inits.tail, p (u ++ x) = false) : (u ++ v).inits.reverse.find? p = some u := by
  have hlong : (v.inits.tail.map fun l => u ++ l).reverse.find? p = none := by
    rw [List.find?_eq_none]
    intro w hw
    obtain ⟨x, hx, rfl⟩ := List.mem_map.mp (List.mem_reverse.mp hw)
    rw [h x hx]
    exact Bool.false_ne_true
  have hself : ∃ l, u.inits.reverse = u :: l := by
    rcases List.eq_nil_or_concat u with rfl | ⟨init, d, rfl⟩
    · exact ⟨[], rfl⟩
    · rw [List.concat_eq_append, List.inits_append, List.reverse_append]
      exact ⟨_, rfl⟩
  obtain ⟨l, hl⟩ := hself
  rw [List.inits_append, List.reverse_append, List.find?_append, hlong, Option.none_or, hl,
    List.find?_cons_of_pos hu]

/-- What the pattern takes of a record that begins with a selector and a blank
behind it is that selector. -/
theorem recordSelector_eq {selector : Str} (hne : selector ≠ []) (hs : NoSpace selector) {c : Char}
    (hc : isSpace c = true) (rest : Str) :
    recordSelector (selector ++ recordSuffix ++ c :: rest) = some selector := by
  have hword : NoSpace (selector ++ recordSuffix) := by
    intro d hd
    rcases List.mem_append.mp hd with hd | hd
    · exact hs d hd
    · exact (by decide : NoSpace recordSuffix) d hd
  unfold recordSelector
  rw [takeWhile_noSpace hword hc]
  refine find?_inits_reverse ?_ fun x hx => ?_
  · rw [List.drop_left, decide_eq_true hne]
    decide
  · -- less than the whole suffix is left
    have hall : ∀ v ∈ recordSuffix.inits.tail,
        recordSuffix.isPrefixOf (recordSuffix.drop v.length) = false := by decide
    rw [List.length_append, List.drop_append, List.drop_eq_nil_of_le (by omega),
      List.nil_append, Nat.add_sub_cancel_left]
    exact Bool.and_eq_false_iff.mpr (.inr (hall x hx))

theorem dropEnd_append (s u : Str) : dropEnd u.length (s ++ u) = s := by
  rw [dropEnd, List.length_append, Nat.add_sub_cancel, List.take_left]

/-- A name is read as a selector and a domain when the record has the selector
and the domain is found behind it. -/
theorem rspamdName_iff {name raw selector domain : Str} (hd : domain ≠ []) :
    rspamdName (name ++ publicSuffix) raw = some (domain, selector) ↔
      recordSelector raw = some selector ∧
        afterText ('-' :: selector ++ ['-']) name = some domain := by
  unfold rspamdName
  cases recordSelector raw with
  | none => simp
  | some s =>
    dsimp only
    rw [dropEnd_append, Option.some.injEq]
    constructor
    · intro h
      split at h
      · cases h
      · cases h
      · rename_i d hdom
        obtain ⟨rfl, rfl⟩ := Prod.mk.inj (Option.some.inj h)
        exact ⟨rfl, hdom⟩
    · rintro ⟨rfl, hdom⟩
      rw [hdom]
      obtain ⟨c, u, rfl⟩ := List.exists_cons_of_ne_nil hd
      rfl

end MailserverUi.L1.DkimNames

import Mathlib
import MailserverUi.Core.Dict
import MailserverUi.Core.Lower

/-!
# Lines of the account, quota and alias files

`postfix-accounts.cf`, `dovecot-quotas.cf` and `postfix-virtual.cf` are read as
stripped non-empty lines and written back one line each. `email|hash` and
`email:quota` are cut at the first separator, `alias target,target` at the
first blanks and then at commas; addresses are lowered.

Results:
* `linesOf_unlines`: lines as they were read are read again as they are.
* `splitPair_format`: a pair is read back when its first half does not hold the
  separator; `splitPair_ne` says that it is not otherwise.
* `get?_quotasOf_format`: a dictionary of quotas is read back.
* `parseAlias_format`: an alias line is read back, and `parseAlias_ok` says
  that every parsed line may be written again.
-/
namespace MailserverUi.L1.MailFiles

open Py

/-! ## Lines -/

/-- `[line.strip() for line in content.splitlines() if line.strip()]`.
mirrors backend/app/services/mailbox_service.py:70-73 -/
def linesOf (content : Str) : List Str :=
  ((splitlines content).filter fun l => strip l ≠ []).map strip

/-- A line as `linesOf` returns it. -/
structure IsLine (l : Str) : Prop where
  ne : l ≠ []
  oneLine : OneLine l
  trim : Trim l

theorem isLine_of_mem {content l : Str} (h : l ∈ linesOf content) : IsLine l := by
  simp only [linesOf, List.mem_map, List.mem_filter, decide_eq_true_eq] at h
  obtain ⟨m, ⟨hm, hne⟩, rfl⟩ := h
  exact ⟨hne, (splitlines_oneLine content m hm).strip, trim_strip m⟩

theorem linesOf_unlines {ls : List Str} (h : ∀ l ∈ ls, IsLine l) :
    linesOf (universalNewlines (unlines ls)) = ls := by
  have hone : ∀ l ∈ ls, OneLine l := fun l hl => (h l hl).oneLine
  have hstrip : ∀ l ∈ ls, strip l = l := fun l hl => strip_eq_self (h l hl).trim
  rw [linesOf, universalNewlines_eq_self (unlines_no_cr hone), splitlines_unlines hone,
    List.filter_eq_self.mpr]
  · calc ls.map strip = ls.map id := List.map_congr_left hstrip
      _ = ls := List.map_id ls
  · intro l hl
    rw [hstrip l hl]
    simpa using (h l hl).ne

/-- Lines are read whatever text follows them. -/
theorem mem_linesOf_append {ls : List Str} (h : ∀ l ∈ ls, IsLine l) (text : Str) {l : Str}
    (hl : l ∈ ls) : l ∈ linesOf (universalNewlines (unlines ls ++ text)) := by
  have hone : ∀ l ∈ ls, OneLine l := fun l hl => (h l hl).oneLine
  have hstrip : strip l = l := strip_eq_self (h l hl).trim
  rw [universalNewlines_append _ (unlines_no_cr hone), linesOf, splitlines_append hone]
  refine List.mem_map.mpr ⟨l, List.mem_filter.mpr ⟨List.mem_append_left _ hl, ?_⟩, hstrip⟩
  rw [hstrip]
  simpa using (h l hl).ne

/-- Reading drops nothing but blanks. -/
theorem ink_linesOf (content : Str) : (linesOf content).flatMap ink = ink content := by
  have h : ∀ ls : List Str,
      ((ls.filter fun l => strip l ≠ []).map strip).flatMap ink = ls.flatMap ink := by
    intro ls
    induction ls with
    | nil => rfl
    | cons l ls ih =>
      by_cases hl : strip l = []
      · have hink : ink l = [] := by rw [← ink_strip, hl]; rfl
        rw [List.filter_cons_of_neg (by simpa using hl), ih, List.flatMap_cons, hink, List.nil_append]
      · rw [List.filter_cons_of_pos (by simpa using hl), List.map_cons, List.flatMap_cons, ih,
          ink_strip, List.flatMap_cons]
  rw [linesOf, h, splitlines, ink_splitlinesFrom]
  rfl

/-- A text with one more line than was read of it is another text. -/
theorem unlines_concat_ne {content line : Str} (h : ∃ c ∈ line, isSpace c = false) :
    content ≠ unlines (linesOf (universalNewlines content) ++ [line]) := by
  intro e
  have hink := congrArg ink e
  rw [ink_unlines, List.flatMap_append, ink_linesOf, ink_universalNewlines] at hink
  have hnil : ink line = [] := by
    simpa using hink.symm
  obtain ⟨c, hc, hs⟩ := h
  have hm : c ∈ ink line := List.mem_filter.mpr ⟨hc, by simp [hs]⟩
  rw [hnil] at hm
  cases hm

/-! ## Addresses -/

/-- mirrors backend/app/services/mailbox_service.py:61-63 -/
def normaliseEmail (email : Str) : Str := lower (strip email)

/-- A text that is stripped and lowered already. -/
structure IsNormal (a : Str) : Prop where
  trim : Trim a
  low : ∀ c ∈ a, Low c

theorem IsNormal.eq {a : Str} (h : IsNormal a) : normaliseEmail a = a := by
  rw [normaliseEmail, strip_eq_self h.trim, lower_of_low h.low]

theorem isNormal_normaliseEmail (e : Str) : IsNormal (normaliseEmail e) :=
  ⟨trim_lower (trim_strip e), fun _ hc => (mem_lower hc).1⟩

theorem oneLine_normaliseEmail {e : Str} (h : OneLine e) : OneLine (normaliseEmail e) :=
  oneLine_lower h.strip

theorem noSpace_normaliseEmail {e : Str} (h : NoSpace e) : NoSpace (normaliseEmail e) := by
  rw [normaliseEmail, h.strip_eq]
  exact noSpace_lower h

/-- Normalising neither adds nor, between the ends, removes a mark. -/
theorem mark_of_mem_normaliseEmail {e : Str} {c : Char} (hm : Mark c)
    (h : c ∈ normaliseEmail e) : c ∈ e :=
  mem_strip ((mem_lower_iff hm).mp h)

/-! ## `email|hash` and `email:quota` -/

/-- `line.partition(sep)`, the first part lowered and both stripped. -/
def splitPair (sep : Char) (line : Str) : Str × Str :=
  (lower (strip (before sep line)), strip (after sep line))

/-- mirrors backend/app/services/mailbox_service.py:84-87 -/
def splitAccount (line : Str) : Str × Str := splitPair '|' line

/-- `f"{address}{sep}{value}"`. -/
def formatPair (sep : Char) (address value : Str) : Str := address ++ sep :: value

theorem splitPair_isNormal (sep : Char) (line : Str) : IsNormal (splitPair sep line).1 :=
  isNormal_normaliseEmail _

theorem splitPair_oneLine {sep : Char} {line : Str} (h : OneLine line) :
    OneLine (splitPair sep line).1 ∧ OneLine (splitPair sep line).2 :=
  ⟨oneLine_normaliseEmail (h.mono fun _ => before_subset), (h.mono fun _ => after_subset).strip⟩

theorem splitPair_trim (sep : Char) (line : Str) : Trim (splitPair sep line).2 := trim_strip _

theorem sep_not_mem_splitPair {sep : Char} (hm : Mark sep) (line : Str) :
    sep ∉ (splitPair sep line).1 := fun h =>
  not_mem_before sep line (mark_of_mem_normaliseEmail hm h)

/-- What is read back of a line starts no later than at the separator, so an
address that holds the separator is not read back. -/
theorem splitPair_ne {sep : Char} (hm : Mark sep) {a : Str} (h : sep ∈ a) (line : Str) :
    (splitPair sep line).1 ≠ a := by
  rintro rfl
  exact sep_not_mem_splitPair hm line h

/-- The value does not matter for the address that is read. -/
theorem splitPair_fst_format (sep : Char) (a v : Str) :
    (splitPair sep (formatPair sep a v)).1 = (splitPair sep a).1 :=
  congrArg (fun t => lower (strip t)) (before_append_sep sep a v)

theorem splitPair_format {sep : Char} {a v : Str} (hs : sep ∉ a) (ha : IsNormal a)
    (hv : Trim v) : splitPair sep (formatPair sep a v) = (a, v) := by
  rw [splitPair, formatPair, before_append v hs, after_append v hs, strip_eq_self hv]
  exact congrArg (·, v) ha.eq

/-- The separator is no blank, so the halves may be empty. -/
theorem isLine_formatPair {sep : Char} (hsep : isSpace sep = false) {a v : Str} (ha : Trim a)
    (ha' : OneLine a) (hv : Trim v) (hv' : OneLine v) : IsLine (formatPair sep a v) := by
  refine ⟨by simp [formatPair], ?_, ?_⟩
  · intro c hc
    rcases List.mem_append.mp hc with hc | hc
    · exact ha' c hc
    · rcases List.mem_cons.mp hc with rfl | hc
      · exact Bool.eq_false_iff.mpr fun h => by simp [isSpace_of_isBreak h] at hsep
      · exact hv' c hc
  · rintro c (hc | hc)
    · cases a with
      | nil =>
        cases hc
        exact hsep
      | cons d a => exact ha c (.inl hc)
    · cases v with
      | nil =>
        rw [formatPair, List.getLast?_concat, Option.some.injEq] at hc
        rw [← hc]
        exact hsep
      | cons d v =>
        rw [formatPair, List.getLast?_append_of_ne_nil _ (List.cons_ne_nil _ _),
          List.getLast?_cons_cons] at hc
        exact hv c (.inr hc)

/-! ## Quotas -/

/-- mirrors backend/app/services/mailbox_service.py:185-193 -/
def quotasOf (lines : List Str) : Dict Str Str :=
  Dict.ofPairs ((lines.map (splitPair ':')).filter fun p => p.1 ≠ [] ∧ p.2 ≠ [])

/-- `[f"{email}:{q}" for email, q in sorted(quotas.items())]`. -/
def quotaLines (quotas : Dict Str Str) : List Str :=
  quotas.sortedItems.map fun p => formatPair ':' p.1 p.2

/-- An entry that is read back from its line. -/
structure IsQuota (p : Str × Str) : Prop where
  normal : IsNormal p.1
  oneLine : OneLine p.1
  ne : p.1 ≠ []
  sep : ':' ∉ p.1
  trim : Trim p.2
  value_oneLine : OneLine p.2
  value_ne : p.2 ≠ []

theorem isQuota_of_mem {lines : List Str} (hl : ∀ l ∈ lines, IsLine l) {p : Str × Str}
    (h : p ∈ (quotasOf lines).items) : IsQuota p := by
  obtain ⟨k, v⟩ := p
  rw [Dict.mem_items, quotasOf, Dict.get?_ofPairs, Option.map_eq_some_iff] at h
  obtain ⟨q, hq, rfl⟩ := h
  have hk : q.1 = k := by simpa using List.find?_some hq
  have hq := List.mem_reverse.mp (List.mem_of_find?_eq_some hq)
  simp only [List.mem_filter, List.mem_map, decide_eq_true_eq] at hq
  obtain ⟨⟨l, hm, rfl⟩, h₁, h₂⟩ := hq
  subst hk
  have ho : OneLine (splitPair ':' l).1 ∧ OneLine (splitPair ':' l).2 :=
    splitPair_oneLine (hl l hm).oneLine
  exact ⟨splitPair_isNormal ':' l, ho.1, h₁, sep_not_mem_splitPair (by decide) l,
    splitPair_trim ':' l, ho.2, h₂⟩

theorem isQuota_set {d : Dict Str Str} {a q : Str} (hd : ∀ p ∈ d.items, IsQuota p)
    (h : IsQuota (a, q)) : ∀ p ∈ (d.set a q).items, IsQuota p := by
  rintro ⟨k, v⟩ hp
  rw [Dict.mem_items, Dict.get?_set] at hp
  split at hp
  · rename_i hk
    rw [Option.some.injEq] at hp
    subst hk hp
    exact h
  · exact hd _ (Dict.mem_items.mpr hp)

theorem isQuota_erase {d : Dict Str Str} {a : Str} (hd : ∀ p ∈ d.items, IsQuota p) :
    ∀ p ∈ (d.erase a).items, IsQuota p := by
  rintro ⟨k, v⟩ hp
  rw [Dict.mem_items, Dict.get?_erase] at hp
  split at hp
  · cases hp
  · exact hd _ (Dict.mem_items.mpr hp)

theorem isLine_of_mem_quotaLines {d : Dict Str Str} (hd : ∀ p ∈ d.items, IsQuota p) {l : Str}
    (h : l ∈ quotaLines d) : IsLine l := by
  obtain ⟨p, hp, rfl⟩ := List.mem_map.mp h
  have hq := hd p (d.sortedItems_perm.mem_iff.mp hp)
  exact isLine_formatPair (by decide) hq.normal.trim hq.oneLine hq.trim hq.value_oneLine

/-- A dictionary of quotas is read back from its lines. -/
theorem get?_quotasOf_format {d : Dict Str Str} (hd : ∀ p ∈ d.items, IsQuota p) (a : Str) :
    (quotasOf (quotaLines d)).get? a = d.get? a := by
  have hs : ∀ p ∈ d.sortedItems, IsQuota p := fun p hp => hd p (d.sortedItems_perm.mem_iff.mp hp)
  have hmap : (quotaLines d).map (splitPair ':') = d.sortedItems := by
    rw [quotaLines, List.map_map]
    calc d.sortedItems.map (splitPair ':' ∘ fun p => formatPair ':' p.1 p.2)
        = d.sortedItems.map id := List.map_congr_left fun p hp =>
          splitPair_format (hs p hp).sep (hs p hp).normal (hs p hp).trim
      _ = d.sortedItems := List.map_id _
  rw [quotasOf, hmap, List.filter_eq_self.mpr, Dict.get?_ofPairs_sortedItems]
  intro p hp
  simpa using ⟨(hs p hp).ne, (hs p hp).value_ne⟩

/-! ## Aliases -/

/-- `[t.strip().lower() for t in text.split(",") if t.strip()]`. -/
def aliasTargets (text : Str) : List Str :=
  ((split ',' text).filter fun t => strip t ≠ []).map fun t => lower (strip t)

/-- The line is not blank, so it has a first word.
mirrors backend/app/services/mailbox_service.py:297-306 -/
def parseAlias (line : Str) : Str × List Str :=
  match split1 line with
  | [] => ([], [])
  | source :: rest => (lower (strip source), (rest.head?.map aliasTargets).getD [])

/-- `f"{source} {','.join(targets)}"`. -/
def formatAlias (source : Str) (targets : List Str) : Str := source ++ ' ' :: join [','] targets

/-- A parsed alias: what may be written as a line again. -/
structure IsAlias (source : Str) (targets : List Str) : Prop where
  ne : source ≠ []
  noSpace : NoSpace source
  low : ∀ c ∈ source, Low c
  target : ∀ t ∈ targets, t ≠ [] ∧ ',' ∉ t ∧ IsNormal t ∧ OneLine t

theorem mem_aliasTargets {text t : Str} (h : t ∈ aliasTargets text) (hl : OneLine text) :
    t ≠ [] ∧ ',' ∉ t ∧ IsNormal t ∧ OneLine t := by
  simp only [aliasTargets, List.mem_map, List.mem_filter, decide_eq_true_eq] at h
  obtain ⟨u, ⟨hu, hne⟩, rfl⟩ := h
  obtain ⟨hc, hsub⟩ := mem_split hu
  refine ⟨fun e => hne (lower_eq_nil.mp e), fun h => hc ?_, isNormal_normaliseEmail u,
    oneLine_normaliseEmail (hl.mono hsub)⟩
  exact mark_of_mem_normaliseEmail (by decide) h

/-- The parts of a stripped line. -/
theorem split1_line {l : Str} (h : IsLine l) :
    ∃ w rest, split1 l = w :: rest ∧ w ≠ [] ∧ NoSpace w ∧
      ∀ r ∈ rest, OneLine r := by
  have hl : lstrip l = l := lstrip_eq_self fun c hc => h.trim c (.inl hc)
  rw [split1, hl]
  simp only [h.ne, if_false]
  refine ⟨_, _, rfl, ?_, ?_, ?_⟩
  · obtain ⟨c, s, rfl⟩ := List.exists_cons_of_ne_nil h.ne
    rw [List.takeWhile_cons_of_pos (by simp [h.trim c (.inl rfl)])]
    exact List.cons_ne_nil _ _
  · intro c hc
    simpa using List.mem_takeWhile_imp hc
  · intro r hr
    split at hr
    · cases hr
    · rw [List.mem_singleton] at hr
      subst hr
      exact h.oneLine.mono fun c hc =>
        (List.dropWhile_suffix _).subset ((lstrip_isSuffix _).subset hc)

theorem parseAlias_ok {l : Str} (h : IsLine l) :
    IsAlias (parseAlias l).1 (parseAlias l).2 := by
  obtain ⟨w, rest, e, hne, hw, hrest⟩ := split1_line h
  have hs : strip w = w := hw.strip_eq
  rw [parseAlias, e]
  refine ⟨?_, ?_, fun c hc => (mem_lower hc).1, fun t ht => ?_⟩
  · simpa only [hs, ne_eq, lower_eq_nil] using hne
  · simpa only [hs] using noSpace_lower hw
  · cases rest with
    | nil => cases ht
    | cons r rest => exact mem_aliasTargets ht (hrest r List.mem_cons_self)

/-- The source of a line is its first word, whatever stands behind it. -/
theorem parseAlias_source {source rest : Str} (h : NoSpace source) (hne : source ≠ [])
    (hl : ∀ c ∈ source, Low c) : (parseAlias (source ++ ' ' :: rest)).1 = source := by
  have hsp : isSpace ' ' = true := by decide
  rw [parseAlias, split1, lstrip_word h hne]
  simp only [takeWhile_noSpace h hsp, List.append_eq_nil_iff, hne, false_and, if_false, h.strip_eq]
  exact lower_of_low hl

theorem aliasTargets_join {ts : List Str} (hne : ts ≠ [])
    (h : ∀ t ∈ ts, t ≠ [] ∧ ',' ∉ t ∧ IsNormal t) : aliasTargets (join [','] ts) = ts := by
  have hs : split ',' (join [','] ts) = ts := split_join hne fun t ht => (h t ht).2.1
  rw [aliasTargets, hs, List.filter_eq_self.mpr]
  · calc ts.map (fun t => lower (strip t)) = ts.map id :=
        List.map_congr_left fun t ht => (h t ht).2.2.eq
      _ = ts := List.map_id ts
  · intro t ht
    rw [strip_eq_self (h t ht).2.2.trim]
    simpa using (h t ht).1

theorem parseAlias_format {source : Str} {targets : List Str} (h : IsAlias source targets)
    (hne : targets ≠ []) : parseAlias (formatAlias source targets) = (source, targets) := by
  obtain ⟨ht, hj⟩ := trim_join hne fun t ht => ⟨(h.target t ht).1, (h.target t ht).2.2.1.trim⟩
  rw [parseAlias, formatAlias, split1_word (by decide) h.noSpace h.ne hj fun c hc => ht c (.inl hc)]
  simp only [h.noSpace.strip_eq, lower_of_low h.low, List.head?_cons, Option.map_some,
    Option.getD_some]
  rw [aliasTargets_join hne fun t ht => ⟨(h.target t ht).1, (h.target t ht).2.1,
    (h.target t ht).2.2.1⟩]

/-- A word, a blank and a stripped text. -/
theorem isLine_word {w r : Str} (hw : NoSpace w) (hne : w ≠ []) (hr : Trim r) (hr' : OneLine r)
    (hrne : r ≠ []) : IsLine (w ++ ' ' :: r) := by
  have e : w ++ ' ' :: r = w ++ [' '] ++ r := by simp
  rw [e]
  refine ⟨by simp, (hw.oneLine.append ?_).append hr', Trim.append _ hw.trim hr hne hrne⟩
  intro c hc
  rw [List.mem_singleton.mp hc]
  decide

theorem isLine_formatAlias {source : Str} {targets : List Str} (h : IsAlias source targets)
    (hne : targets ≠ []) : IsLine (formatAlias source targets) := by
  obtain ⟨ht, hj⟩ := trim_join hne fun t ht => ⟨(h.target t ht).1, (h.target t ht).2.2.1.trim⟩
  exact isLine_word h.noSpace h.ne ht (oneLine_join (by decide) fun t ht => (h.target t ht).2.2.2) hj

end MailserverUi.L1.MailFiles

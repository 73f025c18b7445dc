import MailserverUi.L1Encoding.MailFiles
import MailserverUi.L1Encoding.ServerFiles

/-!
# What is read of a text

A text is read as the stripped lines between its boundaries, less the blank ones
and the comments, so that what is read of two texts with a boundary between them
is what is read of each. An entry that is written into a file is therefore read
as what its own text is read as, whatever it holds.

Results:
* `textLines_break`: the two sides of a boundary.
* `textLines_managed`: a written file is read entry by entry.
* `isLine_of_mem_textLines`: what is read is a line that may be written again.
* `exists_word`: a line is a word, or a word and more behind a blank.
-/
namespace MailserverUi.L1.ConfigText

open Py MailFiles ServerFiles

/-- What `_read_config_lines` returns for a file with this text. -/
def textLines (text : Str) : List Str := configLines (universalNewlines text)

/-- Neither blank nor a comment. -/
def kept (l : Str) : Bool := strip l ≠ [] ∧ (lstrip l).head? ≠ some '#'

/-! ## Text and lines -/

section
variable {l : Str}

theorem textLines_eq (text : Str) :
    textLines text = ((text.splitOnP isBreak).filter kept).map strip :=
  congrArg (List.map strip) (filter_splitlines (P := kept) rfl text)

theorem textLines_break {c : Char} (hc : isBreak c = true) (a b : Str) :
    textLines (a ++ c :: b) = textLines a ++ textLines b := by
  rw [textLines_eq, List.splitOnP_append_cons a b hc, List.filter_append, List.map_append,
    ← textLines_eq, ← textLines_eq]

theorem textLines_oneLine (h : OneLine l) :
    textLines l = if kept l then [strip l] else [] := by
  rw [textLines_eq, List.splitOnP_eq_singleton h, List.filter_singleton]
  cases kept l <;> rfl

theorem textLines_line (ho : OneLine l) (hh : Headed l) : textLines l = [strip l] := by
  have hk : kept l = true := decide_eq_true hh.kept
  rw [textLines_oneLine ho, if_pos hk]

theorem textLines_unlines (ls : List Str) : textLines (unlines ls) = ls.flatMap textLines := by
  induction ls with
  | nil => rfl
  | cons l ls ih =>
    have e : unlines (l :: ls) = l ++ '\n' :: unlines ls := by simp [unlines]
    rw [e, textLines_break (by decide), ih, List.flatMap_cons]

/-- A written file is read entry by entry. -/
theorem textLines_managed (ls : List Str) : textLines (managed ls) = ls.flatMap textLines := by
  have h : textLines headerLine = [] := by
    rw [textLines_oneLine oneLine_headerLine]
    decide
  rw [managed_eq, textLines_unlines, List.flatMap_cons, h, List.nil_append]

theorem headed_append {w : Str} (hw : NoSpace w) (hne : w ≠ []) (hh : w.head? ≠ some '#') (s : Str) :
    Headed (w ++ s) := by
  obtain ⟨c, t, rfl⟩ := List.exists_cons_of_ne_nil hne
  refine ⟨c, t ++ s, rfl, hw c List.mem_cons_self, ?_⟩
  rintro rfl
  exact hh rfl

/-! ## Lines that are read -/

theorem head?_strip (h : strip l ≠ []) : (strip l).head? = (lstrip l).head? := by
  obtain ⟨t, ht⟩ := rstrip_isPrefix (lstrip l)
  obtain ⟨c, s, hs⟩ := List.exists_cons_of_ne_nil h
  have e : rstrip (lstrip l) = c :: s := hs
  rw [hs, ← ht, e]
  rfl

/-- What stands before a separator begins as the line does. -/
theorem head?_before {sep : Char} (hl : IsLine l) (hh : l.head? ≠ some '#') :
    (normaliseEmail (before sep l)).head? ≠ some '#' := by
  intro e
  obtain ⟨c, t, rfl⟩ := List.exists_cons_of_ne_nil hl.ne
  have hc : isSpace c = false := hl.trim c (.inl rfl)
  have hs : (strip (before sep (c :: t))).head? = some '#' := head?_of_head?_lower (by decide) e
  have hn : strip (before sep (c :: t)) ≠ [] := by
    intro hn
    rw [hn] at hs
    cases hs
  rw [head?_strip hn] at hs
  by_cases hb : c = sep
  · subst hb
    have e' : before c (c :: t) = [] := by simp [before]
    exact hn (by rw [e']; rfl)
  · have e' : before sep (c :: t) = c :: before sep t :=
      List.takeWhile_cons_of_pos (by simpa using hb)
    rw [e', lstrip_cons _ hc] at hs
    exact hh hs

theorem isLine_of_mem_configLines {content : Str} (h : l ∈ configLines content) :
    IsLine l ∧ l.head? ≠ some '#' := by
  simp only [configLines, List.mem_map, List.mem_filter, decide_eq_true_eq] at h
  obtain ⟨m, ⟨hm, hne, hh⟩, rfl⟩ := h
  refine ⟨⟨hne, (splitlines_oneLine content m hm).strip, trim_strip m⟩, ?_⟩
  rw [head?_strip hne]
  exact hh

theorem isLine_of_mem_textLines {text : Str} (h : l ∈ textLines text) :
    IsLine l ∧ l.head? ≠ some '#' := isLine_of_mem_configLines h

/-- A line that was read is read again. -/
theorem textLines_of_isLine (h : IsLine l) (hh : l.head? ≠ some '#') : textLines l = [l] := by
  obtain ⟨c, t, rfl⟩ := List.exists_cons_of_ne_nil h.ne
  have hc : isSpace c = false := h.trim c (.inl rfl)
  have hd : Headed (c :: t) := ⟨c, t, rfl, hc, by rintro rfl; exact hh rfl⟩
  rw [textLines_line h.oneLine hd, strip_eq_self h.trim]

/-- Lines that were read are read again as they are. -/
theorem flatMap_textLines {ls : List Str} (h : ∀ l ∈ ls, IsLine l ∧ l.head? ≠ some '#') :
    ls.flatMap textLines = ls := by
  induction ls with
  | nil => rfl
  | cons l ls ih =>
    obtain ⟨hl, hls⟩ := List.forall_mem_cons.mp h
    rw [List.flatMap_cons, textLines_of_isLine hl.1 hl.2, ih hls, List.singleton_append]

end

/-! ## Words -/

section
variable {w s : Str}

theorem mem_words {v : Str} (h : v ∈ words s) : v ≠ [] ∧ NoSpace v ∧ ∀ c ∈ v, c ∈ s := by
  unfold words at h
  rw [List.mem_filter, decide_eq_true_eq] at h
  refine ⟨h.2, ?_⟩
  replace h := h.1
  induction s generalizing v with
  | nil =>
    rw [List.splitOnP_nil, List.mem_singleton] at h
    subst h
    exact ⟨fun _ hc => absurd hc List.not_mem_nil, fun _ hc => hc⟩
  | cons x s ih =>
    rw [List.splitOnP_cons_eq_if_modifyHead] at h
    split at h
    · rcases List.mem_cons.mp h with rfl | h
      · exact ⟨fun _ hc => absurd hc List.not_mem_nil, fun _ hc => absurd hc List.not_mem_nil⟩
      · exact ⟨(ih h).1, fun c hc => List.mem_cons_of_mem _ ((ih h).2 c hc)⟩
    · rename_i hx
      obtain ⟨u, us, e⟩ := List.exists_cons_of_ne_nil (List.splitOnP_ne_nil isSpace s)
      rw [e] at ih h
      rw [List.modifyHead_cons, List.mem_cons] at h
      rcases h with rfl | h
      · obtain ⟨hu, hsub⟩ := ih (List.mem_cons_self (a := u) (l := us))
        refine ⟨List.forall_mem_cons.mpr ⟨by simpa using hx, hu⟩, fun c hc => ?_⟩
        rcases List.mem_cons.mp hc with rfl | hc
        · exact List.mem_cons_self
        · exact List.mem_cons_of_mem _ (hsub c hc)
      · obtain ⟨hu, hsub⟩ := ih (List.mem_cons_of_mem u h)
        exact ⟨hu, fun c hc => List.mem_cons_of_mem _ (hsub c hc)⟩

theorem words_noSpace (hw : NoSpace w) (hne : w ≠ []) : words w = [w] := by
  rw [words, List.splitOnP_eq_singleton hw, List.filter_singleton]
  simp [hne]

theorem words_word {sep : Char} (hw : NoSpace w) (hne : w ≠ []) (hsep : isSpace sep = true)
    (s : Str) : words (w ++ sep :: s) = w :: words s := by
  rw [words, List.splitOnP_append_cons_of_forall_mem hw sep hsep,
    List.filter_cons_of_pos (by simpa using hne), words]

/-- A line is a word, or a word and more behind a blank. -/
theorem exists_word (h : IsLine s) :
    ∃ w, w ≠ [] ∧ NoSpace w ∧ w.head? = s.head? ∧
      (s = w ∨ ∃ sep r, isSpace sep = true ∧ s = w ++ sep :: r) := by
  have hd : s.takeWhile (fun c => !isSpace c) ++ s.dropWhile (fun c => !isSpace c) = s :=
    List.takeWhile_append_dropWhile
  obtain ⟨c, t, rfl⟩ := List.exists_cons_of_ne_nil h.ne
  have hc : isSpace c = false := h.trim c (.inl rfl)
  have hw : (c :: t).takeWhile (fun c => !isSpace c) = c :: t.takeWhile fun c => !isSpace c :=
    List.takeWhile_cons_of_pos (by simp [hc])
  refine ⟨(c :: t).takeWhile fun c => !isSpace c, ?_, fun d hm => ?_, ?_, ?_⟩
  · rw [hw]
    exact List.cons_ne_nil _ _
  · simpa using List.mem_takeWhile_imp hm
  · rw [hw]
    rfl
  · cases hr : (c :: t).dropWhile (fun c => !isSpace c) with
    | nil =>
      rw [hr, List.append_nil] at hd
      exact .inl hd.symm
    | cons sep r =>
      have hs := List.head?_dropWhile_not (fun c => !isSpace c) (c :: t)
      rw [hr] at hs hd
      exact .inr ⟨sep, r, by simpa using hs, hd.symm⟩

/-- The first word of a line begins as the line does. -/
theorem head?_of_split1 {l : Str} {rest : List Str} (h : IsLine l) (e : split1 l = w :: rest) :
    w.head? = l.head? := by
  obtain ⟨c, s, rfl⟩ := List.exists_cons_of_ne_nil h.ne
  have hc : isSpace c = false := h.trim c (.inl rfl)
  rw [split1, lstrip_cons s hc] at e
  simp only [List.cons_ne_nil, if_false] at e
  rw [← (List.cons.inj e).1, List.takeWhile_cons_of_pos (by simp [hc])]
  rfl

end

/-! ## Addresses -/

section
variable {k : Str}

/-- An address as it is read: the first word of a line, lowered. -/
structure IsAddress (k : Str) : Prop where
  ne : k ≠ []
  noSpace : NoSpace k
  low : ∀ c ∈ k, Low c
  head : k.head? ≠ some '#'

theorem isAddress_lower {w : Str} (hne : w ≠ []) (hw : NoSpace w) (hh : w.head? ≠ some '#') :
    IsAddress (lower w) where
  ne := mt lower_eq_nil.mp hne
  noSpace := noSpace_lower hw
  low _ hc := (mem_lower hc).1
  head h := hh (head?_of_head?_lower (by decide) h)

theorem isLine_of_noSpace {w : Str} (hw : NoSpace w) (hne : w ≠ []) : IsLine w :=
  ⟨hne, hw.oneLine, hw.trim⟩

/-- A sender, a blank and a text that neither begins nor ends with a blank. -/
theorem isLine_address {r : Str} (hk : IsAddress k) (hr : Trim r) (ho : OneLine r) (hne : r ≠ []) :
    IsLine (k ++ '\t' :: r) ∧ (k ++ '\t' :: r).head? ≠ some '#' := by
  have e : k ++ '\t' :: r = k ++ ['\t'] ++ r := by simp
  refine ⟨⟨by simp, ?_, ?_⟩, ?_⟩
  · rw [e]
    exact (hk.noSpace.oneLine.append (by decide)).append ho
  · rw [e]
    exact Trim.append _ hk.noSpace.trim hr hk.ne hne
  · rw [List.head?_append_of_ne_nil _ hk.ne]
    exact hk.head

end

end MailserverUi.L1.ConfigText

import MailserverUi.Core.Lists

/-!
# Python text

The `str` operations that line-based file formats are read and written with,
on lists of characters: `strip`, `splitlines`, `split`, `partition`, and the
newline translation that `subprocess` applies to text it reads.

* `splitlines_unlines`: writing lines that hold no line boundary, one newline
  each, and splitting the text gives the lines back.
* `trim_strip`, `strip_eq_self`: `strip` leaves a text whose two ends are not
  blank, and leaves such a text alone.
* `before_append`, `after_append`: partitioning at the first separator undoes
  joining, when the left part does not hold the separator.
-/
namespace MailserverUi.Py

abbrev Str := List Char

instance : LawfulBEq Str := inferInstance

/-- `str.isspace` on one character. -/
def isSpace (c : Char) : Bool :=
  let n := c.toNat
  (9 ≤ n && n ≤ 13) || (28 ≤ n && n ≤ 32) || n == 0x85 || n == 0xA0 || n == 0x1680 ||
    (0x2000 ≤ n && n ≤ 0x200A) || n == 0x2028 || n == 0x2029 || n == 0x202F || n == 0x205F ||
    n == 0x3000

/-- The line boundaries of `str.splitlines`. -/
def isBreak (c : Char) : Bool :=
  let n := c.toNat
  (10 ≤ n && n ≤ 13) || (28 ≤ n && n ≤ 30) || n == 0x85 || n == 0x2028 || n == 0x2029

theorem isSpace_of_isBreak {c : Char} (h : isBreak c = true) : isSpace c = true := by
  simp only [isBreak, isSpace, Bool.or_eq_true, Bool.and_eq_true, decide_eq_true_eq,
    beq_iff_eq] at h ⊢
  omega

theorem isSpace_of_range {c : Char} (h : 32 < c.toNat) (h' : c.toNat < 128) :
    isSpace c = false := by
  simp only [isSpace, Bool.or_eq_false_iff, Bool.and_eq_false_iff, decide_eq_false_iff_not,
    beq_eq_false_iff_ne]
  omega

theorem isAlphanum_range {c : Char} (h : c.isAlphanum = true) :
    48 ≤ c.toNat ∧ c.toNat ≤ 122 := by
  simp only [Char.isAlphanum, Char.isAlpha, Char.isUpper, Char.isLower, Char.isDigit,
    Bool.or_eq_true, Bool.and_eq_true, decide_eq_true_eq, ge_iff_le, UInt32.le_iff_toNat_le] at h
  have e : c.toNat = c.val.toNat := rfl
  rw [e]
  simp at h
  omega

/-! ## `strip` -/

def lstrip (s : Str) : Str := s.dropWhile isSpace

def rstrip (s : Str) : Str := s.rdropWhile isSpace

def strip (s : Str) : Str := rstrip (lstrip s)

/-- No character of the text is blank. -/
def NoSpace (s : Str) : Prop := ∀ c ∈ s, isSpace c = false

instance (s : Str) : Decidable (NoSpace s) :=
  decidable_of_iff (s.all fun c => !isSpace c) (by simp [NoSpace])

/-- Neither end of the text is blank. -/
def Trim (s : Str) : Prop := ∀ c, s.head? = some c ∨ s.getLast? = some c → isSpace c = false

theorem NoSpace.trim {s : Str} (h : NoSpace s) : Trim s := by
  rintro c (hc | hc)
  · exact h c (List.mem_of_mem_head? hc)
  · exact h c (List.mem_of_getLast? hc)

/-- Only the outer ends of a concatenation count. -/
theorem Trim.append {a b : Str} (m : Str) (ha : Trim a) (hb : Trim b) (hna : a ≠ [])
    (hnb : b ≠ []) : Trim (a ++ m ++ b) := by
  rintro c (hc | hc)
  · rw [List.append_assoc, List.head?_append_of_ne_nil _ hna] at hc
    exact ha c (.inl hc)
  · rw [List.getLast?_append_of_ne_nil _ hnb] at hc
    exact hb c (.inr hc)

theorem rstrip_isPrefix (s : Str) : rstrip s <+: s := List.rdropWhile_prefix isSpace s

theorem lstrip_isSuffix (s : Str) : lstrip s <:+ s := List.dropWhile_suffix isSpace

theorem length_strip_le (s : Str) : (strip s).length ≤ s.length :=
  (rstrip_isPrefix _).length_le.trans (lstrip_isSuffix s).length_le

theorem mem_strip {s : Str} {c : Char} (h : c ∈ strip s) : c ∈ s :=
  (lstrip_isSuffix s).subset ((rstrip_isPrefix _).subset h)

theorem head?_lstrip {s : Str} {c : Char} (h : (lstrip s).head? = some c) : isSpace c = false := by
  have := List.head?_dropWhile_not isSpace s
  rw [show s.dropWhile isSpace = lstrip s from rfl, h] at this
  exact this

theorem trim_strip (s : Str) : Trim (strip s) := by
  rintro c (hc | hc)
  · obtain ⟨t, ht⟩ := rstrip_isPrefix (lstrip s)
    apply head?_lstrip (s := s)
    rw [← ht, List.head?_append]
    exact Option.or_eq_some_iff.mpr (.inl hc)
  · have hn : rstrip (lstrip s) ≠ [] := fun e => by rw [strip, e] at hc; cases hc
    have := List.rdropWhile_last_not isSpace (lstrip s) hn
    rw [strip, List.getLast?_eq_some_getLast hn, Option.some.injEq] at hc
    rw [← hc]; exact Bool.eq_false_iff.mpr this

theorem rstrip_eq_self {s : Str} (h : Trim s) : rstrip s = s := by
  rw [rstrip, List.rdropWhile_eq_self_iff]
  intro hn
  rw [h _ (.inr (List.getLast?_eq_some_getLast hn))]
  exact Bool.false_ne_true

theorem strip_eq_self {s : Str} (h : Trim s) : strip s = s := by
  have hl : lstrip s = s := by
    cases s with
    | nil => rfl
    | cons c s => simp [lstrip, h c (.inl rfl)]
  rw [strip, hl, rstrip_eq_self h]

@[simp] theorem strip_nil : strip [] = [] := rfl

@[simp] theorem strip_strip (s : Str) : strip (strip s) = strip s := strip_eq_self (trim_strip s)

theorem NoSpace.strip_eq {s : Str} (h : NoSpace s) : strip s = s := strip_eq_self h.trim

theorem lstrip_append {a : Str} (b : Str) (h : lstrip a ≠ []) :
    lstrip (a ++ b) = lstrip a ++ b := by
  unfold lstrip at h ⊢
  rw [List.dropWhile_append, if_neg (by simpa using h)]

theorem lstrip_cons {c : Char} (s : Str) (h : isSpace c = false) : lstrip (c :: s) = c :: s := by
  simp [lstrip, h]

theorem rstrip_append_cons {c : Char} (a b : Str) (h : isSpace c = false) :
    rstrip (a ++ c :: b) = a ++ c :: rstrip b := by
  simp only [rstrip, List.rdropWhile, List.reverse_append, List.reverse_cons, List.append_assoc,
    List.singleton_append]
  rw [List.dropWhile_append]
  split
  · rename_i hb
    rw [List.isEmpty_iff] at hb
    simp [h, hb]
  · simp

/-- A character that is no blank keeps the blanks on its two sides apart. -/
theorem strip_append_cons {c : Char} (a b : Str) (h : isSpace c = false) :
    strip (a ++ c :: b) = lstrip a ++ c :: rstrip b := by
  unfold strip
  by_cases ha : lstrip a = []
  · have hl : lstrip (a ++ c :: b) = c :: b := by
      have hnil : a.dropWhile isSpace = [] := ha
      unfold lstrip
      rw [List.dropWhile_append, if_pos (by simp [hnil])]
      exact lstrip_cons b h
    rw [hl, ha]
    exact rstrip_append_cons [] b h
  · rw [lstrip_append _ ha, rstrip_append_cons _ _ h]

@[simp] theorem strip_lstrip (s : Str) : strip (lstrip s) = strip s := by
  have hidem : lstrip (lstrip s) = lstrip s := List.dropWhile_idempotent _ _
  rw [strip, hidem, strip]

theorem strip_eq_nil_of_lstrip {s : Str} (h : lstrip s = []) : strip s = [] := by
  rw [strip, h]
  rfl

theorem strip_cons_space {c : Char} (s : Str) (h : isSpace c = true) : strip (c :: s) = strip s := by
  rw [strip, lstrip, List.dropWhile_cons_of_pos h, strip, lstrip]

@[simp] theorem strip_rstrip (s : Str) : strip (rstrip s) = strip s := by
  by_cases h : lstrip s = []
  · have hr : lstrip (rstrip s) = [] := by
      rw [lstrip, List.dropWhile_eq_nil_iff] at h ⊢
      exact fun c hc => h c ((rstrip_isPrefix s).subset hc)
    rw [strip_eq_nil_of_lstrip h, strip_eq_nil_of_lstrip hr]
  · obtain ⟨c, t, ht⟩ := List.exists_cons_of_ne_nil h
    have hc : isSpace c = false := head?_lstrip (s := s) (by rw [ht]; rfl)
    obtain ⟨u, hu⟩ := lstrip_isSuffix s
    rw [ht] at hu
    rw [← hu, rstrip_append_cons u t hc, strip_append_cons u _ hc, strip_append_cons u _ hc]
    have hidem : rstrip (rstrip t) = rstrip t := List.rdropWhile_idempotent _ _
    rw [hidem]

theorem strip_concat_space {c : Char} (s : Str) (h : isSpace c = true) :
    strip (s ++ [c]) = strip s := by
  have hr : rstrip (s ++ [c]) = rstrip s := List.rdropWhile_concat_pos _ _ _ h
  rw [← strip_rstrip, hr, strip_rstrip]

/-! ## `splitlines` -/

/-- `cur` is the line read so far. `\r\n` is one boundary; text that ends with
a boundary has no empty last line. -/
def splitlinesFrom (cur : Str) : Str → List Str
  | [] => if cur = [] then [] else [cur]
  | '\r' :: '\n' :: s => cur :: splitlinesFrom [] s
  | c :: s => if isBreak c then cur :: splitlinesFrom [] s else splitlinesFrom (cur ++ [c]) s

def splitlines (s : Str) : List Str := splitlinesFrom [] s

/-- `"".join(f"{line}\n" for line in lines)`. -/
def unlines (ls : List Str) : Str := ls.flatMap (· ++ ['\n'])

/-- No line boundary inside. -/
def OneLine (s : Str) : Prop := ∀ c ∈ s, isBreak c = false

instance (s : Str) : Decidable (OneLine s) :=
  decidable_of_iff (s.all fun c => !isBreak c) (by simp [OneLine])

theorem OneLine.append {a b : Str} (ha : OneLine a) (hb : OneLine b) : OneLine (a ++ b) := by
  intro c hc
  rcases List.mem_append.mp hc with h | h
  · exact ha c h
  · exact hb c h

theorem NoSpace.oneLine {s : Str} (h : NoSpace s) : OneLine s := by
  intro c hc
  cases hb : isBreak c with
  | false => rfl
  | true => exact absurd (isSpace_of_isBreak hb) (by simp [h c hc])

theorem OneLine.mono {a b : Str} (hb : OneLine b) (h : ∀ c ∈ a, c ∈ b) : OneLine a :=
  fun c hc => hb c (h c hc)

theorem OneLine.strip {s : Str} (h : OneLine s) : OneLine (strip s) := h.mono fun _ => mem_strip

theorem splitlinesFrom_oneLine (cur s : Str) (hc : OneLine cur) :
    ∀ l ∈ splitlinesFrom cur s, OneLine l := by
  have nil : OneLine [] := fun _ h => by cases h
  fun_induction splitlinesFrom cur s with
  | case1 => simp
  | case2 cur h => simpa using hc
  | case3 cur s ih =>
    intro l hl
    rcases List.mem_cons.mp hl with rfl | hl
    · exact hc
    · exact ih nil l hl
  | case4 cur c s _ hb ih =>
    intro l hl
    rcases List.mem_cons.mp hl with rfl | hl
    · exact hc
    · exact ih nil l hl
  | case5 cur c s _ hb ih =>
    exact ih (hc.append (by simpa [OneLine] using hb))

theorem splitlines_oneLine (s : Str) : ∀ l ∈ splitlines s, OneLine l :=
  splitlinesFrom_oneLine [] s (fun _ h => by cases h)

/-- A line without boundary, then `\n`: it is read up to there. -/
theorem splitlinesFrom_line (l s : Str) (h : OneLine l) (cur : Str) :
    splitlinesFrom cur (l ++ '\n' :: s) = (cur ++ l) :: splitlinesFrom [] s := by
  induction l generalizing cur with
  | nil => simp [splitlinesFrom, isBreak]
  | cons c l ih =>
    have hc : isBreak c = false := h c (by simp)
    have hr : c ≠ '\r' := by rintro rfl; exact absurd hc (by decide)
    rw [List.cons_append, splitlinesFrom]
    · rw [if_neg (by simp [hc]), ih (fun d hd => h d (by simp [hd]))]; simp
    · intro _ e; exact absurd e hr

theorem splitlines_unlines {ls : List Str} (h : ∀ l ∈ ls, OneLine l) :
    splitlines (unlines ls) = ls := by
  induction ls with
  | nil => rfl
  | cons l ls ih =>
    have := splitlinesFrom_line l (unlines ls) (h l (by simp)) []
    simp only [splitlines, unlines, List.flatMap_cons, List.append_assoc, List.singleton_append,
      List.nil_append] at this ih ⊢
    rw [this, ih fun l hl => h l (by simp [hl])]

/-- `subprocess` with `text=True` reads `\r\n` and a lone `\r` as `\n`. -/
def universalNewlines : Str → Str
  | [] => []
  | '\r' :: '\n' :: s => '\n' :: universalNewlines s
  | c :: s => (if c = '\r' then '\n' else c) :: universalNewlines s

theorem universalNewlines_eq_self {s : Str} (h : '\r' ∉ s) : universalNewlines s = s := by
  fun_induction universalNewlines s with
  | case1 => rfl
  | case2 => simp at h
  | case3 c s _ ih =>
    simp only [List.mem_cons, not_or] at h
    rw [if_neg (Ne.symm h.1), ih h.2]

theorem not_mem_universalNewlines (s : Str) : '\r' ∉ universalNewlines s := by
  fun_induction universalNewlines s with
  | case1 => exact List.not_mem_nil
  | case2 s ih => exact fun hm => ih ((List.mem_cons.mp hm).resolve_left (by decide))
  | case3 c s _ ih =>
    refine fun hm => ih ((List.mem_cons.mp hm).resolve_left ?_)
    split
    · decide
    · exact Ne.symm ‹_›

theorem unlines_no_cr {ls : List Str} (h : ∀ l ∈ ls, OneLine l) : '\r' ∉ unlines ls := by
  intro hm
  simp only [unlines, List.mem_flatMap, List.mem_append, List.mem_singleton] at hm
  obtain ⟨l, hl, hc | hc⟩ := hm
  · exact absurd (h l hl _ hc) (by decide)
  · cases hc

/-! ## Lines that hold a boundary -/

theorem universalNewlines_append {a : Str} (b : Str) (h : '\r' ∉ a) :
    universalNewlines (a ++ b) = a ++ universalNewlines b := by
  induction a with
  | nil => rfl
  | cons c a ih =>
    rw [List.mem_cons, not_or] at h
    obtain ⟨hc, ha⟩ := h
    rw [List.cons_append, universalNewlines, if_neg (Ne.symm hc), ih ha, List.cons_append]
    intro _ e
    exact absurd e.symm hc

/-- The two halves of `\r\n` are read apart only when a text is cut between
them. -/
theorem universalNewlines_append_of_apart (a b : Str)
    (h : a.getLast? = some '\r' → b.head? ≠ some '\n') :
    universalNewlines (a ++ b) = universalNewlines a ++ universalNewlines b := by
  fun_induction universalNewlines a with
  | case1 => rfl
  | case2 s ih =>
    have hs : s.getLast? = some '\r' → b.head? ≠ some '\n' := fun hl =>
      h (by simp [List.getLast?_cons, hl])
    rw [List.cons_append, List.cons_append, universalNewlines, ih hs, List.cons_append]
  | case3 c s hc ih =>
    have hs : s.getLast? = some '\r' → b.head? ≠ some '\n' := fun hl =>
      h (by simp [List.getLast?_cons, hl])
    rw [List.cons_append, universalNewlines, ih hs, List.cons_append]
    intro t hr ht
    cases s with
    | nil => exact h (by simp [hr]) (by rw [List.nil_append] at ht; simp [ht])
    | cons d s =>
      obtain ⟨rfl, -⟩ := List.cons.inj ht
      exact hc s hr rfl

theorem head?_universalNewlines {s : Str} {c : Char} (h : s.head? = some c) (hc : c ≠ '\r') :
    (universalNewlines s).head? = some c := by
  obtain ⟨t, rfl⟩ := List.head?_eq_some_iff.mp h
  rw [universalNewlines, if_neg hc]
  · rfl
  · intro _ e
    exact absurd e hc

/-- No end of the text changes that is no blank. -/
theorem trim_universalNewlines {s : Str} (h : Trim s) : Trim (universalNewlines s) := by
  have not_cr {c : Char} (hc : isSpace c = false) : c ≠ '\r' := by
    rintro rfl
    exact absurd hc (by decide)
  rcases List.eq_nil_or_concat' s with rfl | ⟨a, c, rfl⟩
  · exact h
  · have hc : isSpace c = false := h c (.inr List.getLast?_concat)
    have hn : c ≠ '\n' := by
      rintro rfl
      exact absurd hc (by decide)
    have hone : universalNewlines [c] = [c] :=
      universalNewlines_eq_self (by simpa using (not_cr hc).symm)
    rintro d (hd | hd)
    · obtain ⟨x, hx⟩ := Option.isSome_iff_exists.mp
        (List.isSome_head?.mpr (List.concat_ne_nil c a))
      have hxs : isSpace x = false := h x (.inl hx)
      rw [head?_universalNewlines hx (not_cr hxs), Option.some.injEq] at hd
      exact hd ▸ hxs
    · rw [universalNewlines_append_of_apart a [c] fun _ => by simpa using hn, hone,
        List.getLast?_concat, Option.some.injEq] at hd
      exact hd ▸ hc

/-- A stripped text, written as a line and read back. -/
theorem strip_universalNewlines_line {s : Str} (h : Trim s) :
    strip (universalNewlines (s ++ ['\n'])) = universalNewlines s := by
  have hcr : s.getLast? ≠ some '\r' := fun hl => absurd (h _ (.inr hl)) (by decide)
  rw [universalNewlines_append_of_apart s _ fun hl => absurd hl hcr]
  exact (strip_concat_space _ (by decide)).trans (strip_eq_self (trim_universalNewlines h))

/-- A boundary is read as one, and not as the first half of `\r\n`. -/
theorem universalNewlines_break {c : Char} (s : Str) (h : isBreak c = true) :
    ∃ d t, universalNewlines (c :: s) = d :: t ∧ isBreak d = true ∧ d ≠ '\r' := by
  by_cases hc : c = '\r'
  · subst hc
    match s with
    | [] => exact ⟨_, _, rfl, by decide, by decide⟩
    | d :: s =>
      by_cases hd : d = '\n'
      · subst hd
        exact ⟨_, _, rfl, by decide, by decide⟩
      · refine ⟨'\n', universalNewlines (d :: s), ?_, by decide, by decide⟩
        rw [universalNewlines, if_pos rfl]
        intro t _ e
        exact hd (List.cons.inj e).1
  · refine ⟨c, universalNewlines s, ?_, h, hc⟩
    rw [universalNewlines, if_neg hc]
    intro _ e
    exact absurd e hc

theorem splitlinesFrom_break {l : Str} {c : Char} (s : Str) (h : OneLine l)
    (hc : isBreak c = true) (hr : c ≠ '\r') (cur : Str) :
    splitlinesFrom cur (l ++ c :: s) = (cur ++ l) :: splitlinesFrom [] s := by
  induction l generalizing cur with
  | nil =>
    rw [List.nil_append, splitlinesFrom, if_pos hc, List.append_nil]
    intro _ e
    exact absurd e hr
  | cons d l ih =>
    have hd : isBreak d = false := h d List.mem_cons_self
    have hdr : d ≠ '\r' := by rintro rfl; exact absurd hd (by decide)
    rw [List.cons_append, splitlinesFrom, if_neg (by simp [hd]),
      ih (fun x hx => h x (List.mem_cons_of_mem _ hx)), List.append_assoc, List.singleton_append]
    intro _ e
    exact absurd e hdr

/-- The text up to the first boundary. -/
theorem exists_break {l : Str} (h : ¬ OneLine l) :
    ∃ p c q, l = p ++ c :: q ∧ OneLine p ∧ isBreak c = true := by
  induction l with
  | nil => exact absurd (fun _ hc => absurd hc List.not_mem_nil) h
  | cons d l ih =>
    cases hd : isBreak d with
    | true => exact ⟨[], d, l, rfl, fun _ hc => absurd hc List.not_mem_nil, hd⟩
    | false =>
      have hl : ¬ OneLine l := fun hl => h fun c hc =>
        (List.mem_cons.mp hc).elim (fun e => e ▸ hd) (hl c)
      obtain ⟨p, c, q, rfl, hp, hc⟩ := ih hl
      refine ⟨d :: p, c, q, rfl, fun x hx => ?_, hc⟩
      exact (List.mem_cons.mp hx).elim (fun e => e ▸ hd) (hp x)

theorem splitlines_append {ls : List Str} (h : ∀ l ∈ ls, OneLine l) (s : Str) :
    splitlines (unlines ls ++ s) = ls ++ splitlines s := by
  induction ls with
  | nil => rfl
  | cons l ls ih =>
    obtain ⟨hl, hls⟩ := List.forall_mem_cons.mp h
    have hline := splitlinesFrom_line l (unlines ls ++ s) hl []
    simp only [unlines, List.flatMap_cons, List.append_assoc, List.nil_append,
      List.cons_append] at hline ih ⊢
    rw [splitlines, hline]
    exact congrArg _ (ih hls)

/-- Lines in front of a boundary are read as they are, and so is what stands
between them and the boundary. -/
theorem splitlines_broken {ls : List Str} (h : ∀ l ∈ ls, OneLine l) {p : Str} (hp : OneLine p)
    {c : Char} (hc : isBreak c = true) (q : Str) :
    ∃ more, splitlines (universalNewlines (unlines ls ++ (p ++ c :: q))) = ls ++ p :: more := by
  have hpr : '\r' ∉ p := fun hm => absurd (hp _ hm) (by decide)
  obtain ⟨d, t, e, hd, hdr⟩ := universalNewlines_break q hc
  refine ⟨splitlinesFrom [] t, ?_⟩
  rw [universalNewlines_append _ (unlines_no_cr h), universalNewlines_append _ hpr, e,
    splitlines_append h]
  exact congrArg _ (splitlinesFrom_break t hp hd hdr [])

/-! ## Text between boundaries -/

section
variable {P : Str → Bool}

/-- But for empty lines, `splitlines` breaks at each boundary. -/
theorem filter_splitlinesFrom (hP : P [] = false) (cur s : Str) (h : OneLine cur) :
    (splitlinesFrom cur s).filter P = ((cur ++ s).splitOnP isBreak).filter P := by
  have hnil : OneLine [] := fun _ hc => absurd hc List.not_mem_nil
  fun_induction splitlinesFrom cur s with
  | case1 => simp [hP]
  | case2 cur hc => rw [List.append_nil, List.splitOnP_eq_singleton h]
  | case3 cur s ih =>
    have ih := ih hnil
    rw [List.splitOnP_append_cons_of_forall_mem h _ (by decide), List.splitOnP_cons_eq_if_modifyHead,
      if_pos (by decide), List.filter_cons, List.filter_cons, ih,
      List.filter_cons_of_neg (by simp [hP])]
    rfl
  | case4 cur c s _ hb ih =>
    have ih := ih hnil
    rw [List.splitOnP_append_cons_of_forall_mem h c hb, List.filter_cons, List.filter_cons, ih]
    rfl
  | case5 cur c s _ hb ih =>
    rw [ih (h.append (by simpa [OneLine] using hb)), List.append_assoc, List.singleton_append]

/-- Nor does it matter how a boundary is translated. -/
theorem filter_splitOnP_universalNewlines (hP : P [] = false) (cur s : Str) (h : OneLine cur) :
    ((cur ++ universalNewlines s).splitOnP isBreak).filter P =
      ((cur ++ s).splitOnP isBreak).filter P := by
  have hnil : OneLine [] := fun _ hc => absurd hc List.not_mem_nil
  fun_induction universalNewlines s generalizing cur with
  | case1 => rfl
  | case2 s ih =>
    have ih := ih [] hnil
    rw [List.splitOnP_append_cons_of_forall_mem h _ (by decide),
      List.splitOnP_append_cons_of_forall_mem h _ (by decide), List.splitOnP_cons_eq_if_modifyHead,
      if_pos (by decide), List.filter_cons, List.filter_cons, List.filter_cons_of_neg (by simp [hP])]
    exact congrArg (fun l => if P cur = true then cur :: l else l) ih
  | case3 c s _ ih =>
    cases hb : isBreak c with
    | true =>
      have hb' : isBreak (if c = '\r' then '\n' else c) = true := by
        split
        · decide
        · exact hb
      have ih := ih [] hnil
      rw [List.splitOnP_append_cons_of_forall_mem h _ hb',
        List.splitOnP_append_cons_of_forall_mem h _ hb, List.filter_cons, List.filter_cons]
      exact congrArg (fun l => if P cur = true then cur :: l else l) ih
    | false =>
      have hc : c ≠ '\r' := by rintro rfl; exact absurd hb (by decide)
      have ih := ih (cur ++ [c]) (h.append (by simpa [OneLine] using hb))
      rw [if_neg hc]
      rwa [List.append_assoc, List.append_assoc] at ih

theorem filter_splitlines (hP : P [] = false) (s : Str) :
    (splitlines (universalNewlines s)).filter P = (s.splitOnP isBreak).filter P := by
  have hnil : OneLine [] := fun _ hc => absurd hc List.not_mem_nil
  rw [splitlines, filter_splitlinesFrom hP [] _ hnil]
  exact filter_splitOnP_universalNewlines hP [] s hnil

theorem filter_splitOnP_unlines (hP : P [] = false) (ls : List Str) :
    ((unlines ls).splitOnP isBreak).filter P =
      ls.flatMap fun l => (l.splitOnP isBreak).filter P := by
  induction ls with
  | nil => simp [unlines, hP]
  | cons l ls ih =>
    have e : unlines (l :: ls) = l ++ '\n' :: unlines ls := by simp [unlines]
    rw [e, List.splitOnP_append_cons l _ (by decide), List.filter_append, ih, List.flatMap_cons]

end

/-! ## `partition` and `split` -/

/-- The part of `s.partition(c)` before the separator. -/
def before (c : Char) (s : Str) : Str := s.takeWhile (· != c)

/-- The part of `s.partition(c)` after the separator, empty without one. -/
def after (c : Char) (s : Str) : Str := (s.dropWhile (· != c)).tail

theorem not_mem_before (c : Char) (s : Str) : c ∉ before c s := fun h => by
  simpa using List.mem_takeWhile_imp h

theorem before_subset {c d : Char} {s : Str} (h : d ∈ before c s) : d ∈ s :=
  (List.takeWhile_prefix _).subset h

theorem after_subset {c d : Char} {s : Str} (h : d ∈ after c s) : d ∈ s :=
  (List.dropWhile_suffix _).subset (List.mem_of_mem_tail h)

theorem before_append {c : Char} {a : Str} (b : Str) (h : c ∉ a) : before c (a ++ c :: b) = a := by
  rw [before, List.takeWhile_append_of_pos (fun d hd => by simpa using ne_of_mem_of_not_mem hd h)]
  simp

theorem after_append {c : Char} {a : Str} (b : Str) (h : c ∉ a) : after c (a ++ c :: b) = b := by
  rw [after, List.dropWhile_append_of_pos (fun d hd => by simpa using ne_of_mem_of_not_mem hd h)]
  simp

/-- Text behind a separator does not move the first one. -/
theorem before_append_sep (c : Char) (a b : Str) : before c (a ++ c :: b) = before c a := by
  induction a with
  | nil => simp [before]
  | cons d a ih =>
    by_cases hd : d = c
    · simp [before, hd]
    · simp only [before, List.cons_append, List.takeWhile_cons] at ih ⊢
      rw [ih]

theorem before_eq_self {c : Char} {s : Str} (h : c ∉ s) : before c s = s :=
  List.takeWhile_eq_self_iff.mpr fun d hd => by simpa using ne_of_mem_of_not_mem hd h

theorem before_cons_after {c : Char} {s : Str} (h : c ∈ s) : before c s ++ c :: after c s = s := by
  induction s with
  | nil => cases h
  | cons d s ih =>
    by_cases hd : d = c
    · subst hd
      simp [before, after]
    · have h : c ∈ s := (List.mem_cons.mp h).resolve_left (Ne.symm hd)
      have hb : before c (d :: s) = d :: before c s := by simp [before, hd]
      have ha : after c (d :: s) = after c s := by simp [after, hd]
      rw [hb, ha, List.cons_append, ih h]

theorem exists_of_mem {c : Char} {s : Str} (h : c ∈ s) : ∃ a b, s = a ++ c :: b ∧ c ∉ a :=
  ⟨before c s, after c s, (before_cons_after h).symm, not_mem_before c s⟩

theorem after_eq_nil {c : Char} {s : Str} (h : c ∉ s) : after c s = [] := by
  have hd : s.dropWhile (· != c) = [] := by
    rw [List.dropWhile_eq_nil_iff]
    exact fun d hd => by simpa using ne_of_mem_of_not_mem hd h
  rw [after, hd]
  rfl

/-- Blanks around a text are blanks around the two sides of its partition. -/
theorem strip_before_strip {c : Char} (s : Str) (h : isSpace c = false) :
    strip (before c (strip s)) = strip (before c s) := by
  by_cases hs : c ∈ s
  · obtain ⟨a, b, rfl, ha⟩ := exists_of_mem hs
    rw [strip_append_cons a b h, before_append _ ha,
      before_append _ fun hm => ha ((lstrip_isSuffix a).subset hm), strip_lstrip]
  · rw [before_eq_self hs, before_eq_self fun hm => hs (mem_strip hm), strip_strip]

theorem strip_after_strip {c : Char} (s : Str) (h : isSpace c = false) :
    strip (after c (strip s)) = strip (after c s) := by
  by_cases hs : c ∈ s
  · obtain ⟨a, b, rfl, ha⟩ := exists_of_mem hs
    rw [strip_append_cons a b h, after_append _ ha,
      after_append _ fun hm => ha ((lstrip_isSuffix a).subset hm), strip_rstrip]
  · rw [after_eq_nil hs, after_eq_nil fun hm => hs (mem_strip hm)]

theorem mem_strip_iff {c : Char} {s : Str} (h : isSpace c = false) : c ∈ strip s ↔ c ∈ s := by
  refine ⟨mem_strip, fun hs => ?_⟩
  obtain ⟨a, b, rfl, -⟩ := exists_of_mem hs
  rw [strip_append_cons a b h]
  exact List.mem_append_right _ List.mem_cons_self

/-- `s.rpartition(c)[2]`: what follows the last separator, all of `s` without
one. -/
def afterLast (c : Char) (s : Str) : Str := s.rtakeWhile (· != c)

/-- `s.rpartition(c)[0]`: what precedes the last separator, empty without
one. -/
def beforeLast (c : Char) (s : Str) : Str := (s.rdropWhile (· != c)).dropLast

/-- `s.split(c)`. -/
def split (c : Char) (s : Str) : List Str := s.splitOn c

/-- A part holds no separator, and nothing that was not there before. -/
theorem mem_split {c : Char} {s w : Str} (h : w ∈ split c s) : c ∉ w ∧ ∀ d ∈ w, d ∈ s := by
  unfold split at h
  induction s generalizing w with
  | nil =>
    rw [List.splitOn_nil, List.mem_singleton] at h
    subst h
    exact ⟨List.not_mem_nil, fun _ hd => hd⟩
  | cons x s ih =>
    rw [List.splitOn_cons_eq_if_modifyHead] at h
    by_cases hx : x = c
    · rw [if_pos (by simp [hx]), List.mem_cons] at h
      rcases h with rfl | h
      · exact ⟨List.not_mem_nil, fun _ hd => absurd hd List.not_mem_nil⟩
      · exact ⟨(ih h).1, fun d hd => List.mem_cons_of_mem _ ((ih h).2 d hd)⟩
    · rw [if_neg (by simp [hx])] at h
      obtain ⟨v, vs, e⟩ := List.exists_cons_of_ne_nil (List.splitOn_ne_nil c s)
      rw [e] at ih h
      rw [List.modifyHead_cons, List.mem_cons] at h
      rcases h with rfl | h
      · have := ih (List.mem_cons_self (a := v) (l := vs))
        refine ⟨by rw [List.mem_cons]; rintro (e | hc); exacts [hx e.symm, this.1 hc], ?_⟩
        intro d hd
        rcases List.mem_cons.mp hd with rfl | hd
        · exact List.mem_cons_self
        · exact List.mem_cons_of_mem _ (this.2 d hd)
      · have := ih (List.mem_cons_of_mem v h)
        exact ⟨this.1, fun d hd => List.mem_cons_of_mem _ (this.2 d hd)⟩

/-- `s.split()`. -/
def words (s : Str) : List Str := (s.splitOnP isSpace).filter (· ≠ [])

/-- `s.split(None, 1)`: the first word and, when there is more text, the rest
without the blanks in front of it. -/
def split1 (s : Str) : List Str :=
  let w := lstrip s
  if w = [] then [] else
    let rest := lstrip (w.dropWhile fun c => !isSpace c)
    (w.takeWhile fun c => !isSpace c) :: if rest = [] then [] else [rest]

theorem lstrip_eq_self {s : Str} (h : ∀ c, s.head? = some c → isSpace c = false) :
    lstrip s = s := by
  cases s with
  | nil => rfl
  | cons c s => exact lstrip_cons s (h c rfl)

theorem takeWhile_noSpace {w : Str} {sep : Char} (hw : NoSpace w) (hsep : isSpace sep = true)
    (s : Str) : (w ++ sep :: s).takeWhile (fun c => !isSpace c) = w := by
  rw [List.takeWhile_append_of_pos (fun c hc => by simp [hw c hc])]
  simp [hsep]

theorem dropWhile_noSpace {w : Str} {sep : Char} (hw : NoSpace w) (hsep : isSpace sep = true)
    (s : Str) : (w ++ sep :: s).dropWhile (fun c => !isSpace c) = sep :: s := by
  rw [List.dropWhile_append_of_pos (fun c hc => by simp [hw c hc])]
  simp [hsep]

/-- A word, then a blank, is not stripped from the left. -/
theorem lstrip_word {w : Str} (hw : NoSpace w) (hne : w ≠ []) (s : Str) :
    lstrip (w ++ s) = w ++ s := by
  obtain ⟨c, t, rfl⟩ := List.exists_cons_of_ne_nil hne
  exact lstrip_cons _ (hw c List.mem_cons_self)

/-- A word and more text behind a blank. -/
theorem split1_word {w s : Str} {sep : Char} (hsep : isSpace sep = true) (hw : NoSpace w)
    (hne : w ≠ []) (hs : s ≠ []) (hh : ∀ c, s.head? = some c → isSpace c = false) :
    split1 (w ++ sep :: s) = [w, s] := by
  have h₂ : lstrip (sep :: s) = s := by
    rw [lstrip, List.dropWhile_cons_of_pos hsep]
    exact lstrip_eq_self hh
  rw [split1, lstrip_word hw hne]
  simp only [takeWhile_noSpace hw hsep, dropWhile_noSpace hw hsep, h₂, hs, List.append_eq_nil_iff,
    hne, false_and, if_false]

/-- `sep.join(parts)`. -/
def join (sep : Str) (parts : List Str) : Str := sep.intercalate parts

theorem join_cons (sep t : Str) {ts : List Str} (h : ts ≠ []) :
    join sep (t :: ts) = t ++ sep ++ join sep ts := by
  obtain ⟨u, us, rfl⟩ := List.exists_cons_of_ne_nil h
  simp [join, List.intercalate, List.intersperse]

theorem mem_join {sep : Str} {parts : List Str} {c : Char} (h : c ∈ join sep parts) :
    c ∈ sep ∨ ∃ p ∈ parts, c ∈ p := by
  induction parts with
  | nil => cases h
  | cons p ps ih =>
    by_cases hps : ps = []
    · subst hps
      rw [join, List.intercalate_singleton] at h
      exact .inr ⟨p, List.mem_cons_self, h⟩
    · rw [join_cons sep p hps] at h
      simp only [List.mem_append] at h
      rcases h with (h | h) | h
      · exact .inr ⟨p, List.mem_cons_self, h⟩
      · exact .inl h
      · exact (ih h).imp_right fun ⟨q, hq, hc⟩ => ⟨q, List.mem_cons_of_mem _ hq, hc⟩

theorem join_split (c : Char) (s : Str) : join [c] (split c s) = s := List.intercalate_splitOn c

theorem split_join {c : Char} {parts : List Str} (hne : parts ≠ []) (h : ∀ p ∈ parts, c ∉ p) :
    split c (join [c] parts) = parts :=
  List.splitOn_intercalate c h hne

theorem split_eq_pair {c : Char} {s a b : Str} :
    split c s = [a, b] ↔ c ∉ a ∧ c ∉ b ∧ s = a ++ c :: b := by
  have hjoin : join [c] [a, b] = a ++ c :: b := by simp [join, List.intercalate]
  constructor
  · intro h
    have hpart : ∀ p ∈ [a, b], c ∉ p := fun p hp => (mem_split (h ▸ hp)).1
    refine ⟨hpart a (by simp), hpart b (by simp), ?_⟩
    rw [← hjoin, ← h, join_split]
  · rintro ⟨ha, hb, rfl⟩
    rw [← hjoin]
    exact split_join (by simp) (by simp [ha, hb])

/-- The two ends of joined texts are ends of texts. -/
theorem trim_join {sep : Str} {ts : List Str} (hne : ts ≠ []) (h : ∀ t ∈ ts, t ≠ [] ∧ Trim t) :
    Trim (join sep ts) ∧ join sep ts ≠ [] := by
  induction ts with
  | nil => exact absurd rfl hne
  | cons t ts ih =>
    obtain ⟨ht, htt⟩ := h t List.mem_cons_self
    by_cases hts : ts = []
    · subst hts
      have : join sep [t] = t := by simp [join]
      rw [this]
      exact ⟨htt, ht⟩
    · obtain ⟨i₁, i₂⟩ := ih hts fun u hu => h u (List.mem_cons_of_mem _ hu)
      rw [join_cons _ _ hts]
      exact ⟨Trim.append _ htt i₁ ht i₂, by simp [ht]⟩

theorem oneLine_join {sep : Str} {ts : List Str} (hs : OneLine sep) (h : ∀ t ∈ ts, OneLine t) :
    OneLine (join sep ts) := by
  intro c hc
  rcases mem_join hc with hc | ⟨t, ht, hc⟩
  · exact hs c hc
  · exact h t ht c hc

/-! ## Blanks -/

/-- What a text holds besides blanks. -/
def ink (s : Str) : Str := s.filter fun c => !isSpace c

theorem ink_append (a b : Str) : ink (a ++ b) = ink a ++ ink b := List.filter_append _ _

theorem ink_eq_nil {s : Str} (h : ∀ c ∈ s, isSpace c = true) : ink s = [] :=
  List.filter_eq_nil_iff.mpr fun c hc => by simp [h c hc]

theorem ink_lstrip (s : Str) : ink (lstrip s) = ink s := by
  have h : ink (s.takeWhile isSpace) = [] :=
    ink_eq_nil fun c hc => List.mem_takeWhile_imp hc
  calc ink (lstrip s) = ink (s.takeWhile isSpace) ++ ink (s.dropWhile isSpace) := by rw [h]; rfl
    _ = ink s := by rw [← ink_append, List.takeWhile_append_dropWhile]

theorem ink_reverse (s : Str) : ink s.reverse = (ink s).reverse := List.filter_reverse

theorem ink_strip (s : Str) : ink (strip s) = ink s := by
  have h : ink (rstrip (lstrip s)) = ink (lstrip s) := by
    have e : rstrip (lstrip s) = (lstrip (lstrip s).reverse).reverse := rfl
    rw [e, ink_reverse, ink_lstrip, ink_reverse, List.reverse_reverse]
  rw [strip, h, ink_lstrip]

theorem ink_universalNewlines (s : Str) : ink (universalNewlines s) = ink s := by
  fun_induction universalNewlines s with
  | case1 => rfl
  | case2 s ih => simpa [ink, isSpace] using ih
  | case3 c s _ ih =>
    unfold ink at ih ⊢
    by_cases hc : c = '\r'
    · subst hc
      simpa [isSpace] using ih
    · rw [if_neg hc, List.filter_cons, List.filter_cons, ih]

theorem ink_splitlinesFrom (cur s : Str) :
    (splitlinesFrom cur s).flatMap ink = ink cur ++ ink s := by
  fun_induction splitlinesFrom cur s with
  | case1 => rfl
  | case2 cur h => simp [ink]
  | case3 cur s ih =>
    rw [List.flatMap_cons, ih]
    simp [ink, isSpace]
  | case4 cur c s _ hb ih =>
    rw [List.flatMap_cons, ih]
    simp [ink, isSpace_of_isBreak hb]
  | case5 cur c s _ hb ih =>
    rw [ih, ink_append, List.append_assoc, ← ink_append, List.singleton_append]

theorem ink_unlines (ls : List Str) : ink (unlines ls) = ls.flatMap ink := by
  induction ls with
  | nil => rfl
  | cons l ls ih =>
    have e : unlines (l :: ls) = l ++ ['\n'] ++ unlines ls := rfl
    rw [e, ink_append, ink_append, ih, List.flatMap_cons]
    simp [ink, isSpace]

end MailserverUi.Py

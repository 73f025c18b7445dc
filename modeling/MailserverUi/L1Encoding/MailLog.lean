import MailserverUi.Core.Lower
import MailserverUi.Core.WordTables

/-!
# Lines of the mail log

What a line says about a message: what became of one delivery attempt
(`outcomeOf`), which message `cleanup` accepted (`messageIdOf`), and why a
message was refused (`isVirus`, `isSpam`). The outcomes are read in a fixed
order, so a line has at most one.

Results:
* `messageIdOf_eq_some`, `idAt_eq_some`: the message-id that is found in a line.
* `isVirus_iff`, `isSpam_iff`: the words that are looked for, between boundaries.
* `outcomeOf_eq_some`, `isCleanup_iff`: which lines have which outcome, and which
  lines are those of `cleanup`.
-/
namespace MailserverUi.L1.MailLog

open Py

/-- `text in line`. -/
def has (text line : Str) : Bool := line.tails.any text.isPrefixOf

/-- `pattern.search(line)`, for what the pattern matches at a position. -/
def search {α : Type} (p : Str → Option α) : Str → Option α
  | [] => p []
  | c :: s => (p (c :: s)).or (search p s)

/-- `(<[^>]*>|\S+)`. -/
def idAt : Str → Option Str
  | '<' :: s =>
    if '>' ∈ s then some ('<' :: before '>' s ++ ['>'])
    else some (('<' :: s).takeWhile fun c => !isSpace c)
  | s => some (s.takeWhile fun c => !isSpace c) |>.filter (· ≠ [])

/-- `_LOG_MESSAGE_ID_RE.search(line)`, its group.
mirrors backend/app/services/mailserver_service.py:242-245 -/
def messageIdOf : Str → Option Str :=
  search fun s => if "message-id=".toList.isPrefixOf s then idAt (s.drop 11) else none

/-- `\w`. -/
def isWordChar (c : Char) : Bool := c = '_' || inRanges alnumRanges c

/-- `\btext\b`, for a text whose ends are word characters, in what follows the
character `prev`. -/
def hasWord (text : Str) (prev : Option Char) : Str → Bool
  | [] => false
  | c :: s =>
    (text.isPrefixOf (c :: s) && !prev.any isWordChar &&
        !((c :: s).drop text.length).head?.any isWordChar) ||
      hasWord text (some c) s

/-- mirrors backend/app/services/mailserver_service.py:255 -/
def isVirus (line : Str) : Bool := hasWord "INFECTED".toList none line

/-- mirrors backend/app/services/mailserver_service.py:256-258 -/
def spamTexts : List Str :=
  ["Blocked SPAM".toList, "Blocked SPAMMY".toList, "Passed SPAM".toList, "Passed SPAMMY".toList,
    "Spam message rejected".toList]

def isSpam (line : Str) : Bool := spamTexts.any fun text => hasWord text none line

/-- mirrors backend/app/services/mailserver_service.py:250 -/
def greylistMarkers : List Str :=
  ["greylist".toList, "postgrey".toList, "try again later".toList]

/-- mirrors backend/app/services/mailserver_service.py:939-949 -/
def isGreylisted (line : Str) : Bool := greylistMarkers.any fun marker => has marker (lower line)

inductive Outcome where
  | sent
  | deferred
  | bounced
  | greylisted
  | rejected
  deriving DecidableEq, Repr

/-- What became of the delivery attempt a line is about.
mirrors backend/app/services/mailserver_service.py:983-994 -/
def outcomeOf (line : Str) : Option Outcome :=
  if has "status=sent".toList line then some .sent
  else if has "status=deferred".toList line then some .deferred
  else if has "status=bounced".toList line then some .bounced
  else if has " reject: ".toList line || has "milter-reject:".toList line then
    some (if isGreylisted line then .greylisted else .rejected)
  else none

/-- A line without an outcome may be one of `cleanup`. -/
def isCleanup (line : Str) : Bool := outcomeOf line = none && has "postfix/cleanup".toList line

/-- The message-id of a line that may count as a message received. -/
def receivedId (line : Str) : Option Str := if isCleanup line then messageIdOf line else none

example : receivedId "Jul 10 12:00:00 mail postfix/cleanup[7]: 4F: message-id=<a@b>".toList =
    some "<a@b>".toList := by
  decide

/-! ## What they accept -/

/-- The text stands in the line. -/
def Says (text : String) (line : Str) : Prop := text.toList <:+: line

theorem has_iff {text line : Str} : has text line = true ↔ text <:+: line := by
  simp only [has, List.any_eq_true, List.mem_tails, List.isPrefixOf_iff_prefix,
    List.infix_iff_prefix_suffix, and_comm]

theorem says_iff {text : String} {line : Str} : has text.toList line = true ↔ Says text line :=
  has_iff

/-- `search` stops at the first position where the pattern matches. -/
theorem search_eq_some {α : Type} {p : Str → Option α} {s : Str} {a : α} :
    search p s = some a ↔ ∃ u v, s = u ++ v ∧ p v = some a ∧
      ∀ u' v', s = u' ++ v' → u'.length < u.length → p v' = none := by
  induction s with
  | nil =>
    constructor
    · intro h
      exact ⟨[], [], rfl, h, fun _ _ _ hlt => absurd hlt (Nat.not_lt_zero _)⟩
    · rintro ⟨u, v, e, h, -⟩
      obtain ⟨-, rfl⟩ := List.append_eq_nil_iff.mp e.symm
      exact h
  | cons c s ih =>
    rw [search, Option.or_eq_some_iff, ih]
    constructor
    · rintro (h | ⟨hn, u, v, rfl, h, hfirst⟩)
      · exact ⟨[], c :: s, rfl, h, fun _ _ _ hlt => absurd hlt (Nat.not_lt_zero _)⟩
      · refine ⟨c :: u, v, rfl, h, fun u' v' e hlt => ?_⟩
        cases u' with
        | nil => exact (show c :: (u ++ v) = v' from e) ▸ hn
        | cons c' u' => exact hfirst u' v' (List.cons.inj e).2 (Nat.lt_of_succ_lt_succ hlt)
    · rintro ⟨u, v, e, h, hfirst⟩
      cases u with
      | nil => exact .inl ((show c :: s = v from e) ▸ h)
      | cons c' u =>
        obtain ⟨-, rfl⟩ := List.cons.inj e
        refine .inr ⟨hfirst [] _ rfl (Nat.zero_lt_succ _), u, v, rfl, h, fun u' v' e hlt => ?_⟩
        exact hfirst (c :: u') v' (congrArg (c :: ·) e) (Nat.succ_lt_succ hlt)

/-- Without chevrons, an id is what comes before the next blank. -/
theorem idAt_bare {s : Str} (hs : ¬ ∃ t, s = '<' :: t ∧ '>' ∈ t) :
    idAt s = (some (s.takeWhile fun c => !isSpace c)).filter (· ≠ []) := by
  cases s with
  | nil => rfl
  | cons c t =>
    by_cases hc : c = '<'
    · subst hc
      have hword : ('<' :: t).takeWhile (fun c => !isSpace c) ≠ [] :=
        List.cons_ne_nil '<' (t.takeWhile fun c => !isSpace c)
      rw [idAt, if_neg fun ht => hs ⟨t, rfl, ht⟩, Option.filter_some, if_pos (by simpa using hword)]
    · unfold idAt
      split
      · rename_i h
        exact absurd (List.cons.inj h).1 hc
      · rfl

/-- An id in chevrons ends at the first `>`, and another one at a blank. -/
theorem idAt_eq_some {s id : Str} : idAt s = some id ↔
    (∃ u v, '>' ∉ u ∧ s = '<' :: (u ++ '>' :: v) ∧ id = '<' :: (u ++ ['>'])) ∨
      (¬ ∃ t, s = '<' :: t ∧ '>' ∈ t) ∧ s.takeWhile (fun c => !isSpace c) = id ∧ id ≠ [] := by
  by_cases hs : ∃ t, s = '<' :: t ∧ '>' ∈ t
  · have hchevron := hs
    obtain ⟨t, rfl, ht⟩ := hchevron
    rw [idAt, if_pos ht, Option.some_inj]
    constructor
    · rintro rfl
      exact .inl ⟨before '>' t, after '>' t, not_mem_before _ _, by rw [before_cons_after ht], rfl⟩
    · rintro (⟨u, v, hu, e, rfl⟩ | ⟨hn, -⟩)
      · rw [(List.cons.inj e).2, before_append v hu]
        rfl
      · exact absurd hs hn
  · rw [idAt_bare hs, Option.filter_eq_some_iff, Option.some_inj, decide_eq_true_eq]
    constructor
    · exact fun h => .inr ⟨hs, h⟩
    · rintro (⟨u, v, -, rfl, -⟩ | ⟨-, h⟩)
      · exact absurd ⟨_, rfl, by simp⟩ hs
      · exact h

/-- The id is that of the first `message-id=` which one follows. -/
theorem messageIdOf_eq_some {line id : Str} : messageIdOf line = some id ↔
    ∃ u v, line = u ++ ("message-id=".toList ++ v) ∧ idAt v = some id ∧
      ∀ u' v', line = u' ++ ("message-id=".toList ++ v') → u'.length < u.length →
        idAt v' = none := by
  have hat (v : Str) : (if "message-id=".toList.isPrefixOf ("message-id=".toList ++ v) then
      idAt (("message-id=".toList ++ v).drop 11) else none) = idAt v :=
    if_pos (List.isPrefixOf_iff_prefix.mpr (List.prefix_append _ _))
  rw [messageIdOf, search_eq_some]
  constructor
  · rintro ⟨u, v, rfl, h, hfirst⟩
    by_cases hp : "message-id=".toList.isPrefixOf v = true
    · obtain ⟨w, rfl⟩ := List.isPrefixOf_iff_prefix.mp hp
      refine ⟨u, w, rfl, (hat w).symm.trans h, fun u' v' e hlt => ?_⟩
      exact (hat v').symm.trans (hfirst u' _ e hlt)
    · rw [if_neg hp] at h
      cases h
  · rintro ⟨u, v, rfl, h, hfirst⟩
    refine ⟨u, _, rfl, (hat v).trans h, fun u' v' e hlt => ?_⟩
    by_cases hp : "message-id=".toList.isPrefixOf v' = true
    · obtain ⟨w, rfl⟩ := List.isPrefixOf_iff_prefix.mp hp
      exact (hat w).trans (hfirst u' w e hlt)
    · exact if_neg hp

/-- The text stands in the line between two word boundaries. -/
def HasWord (text line : Str) : Prop :=
  ∃ u v, line = u ++ (text ++ v) ∧ u.getLast?.any isWordChar = false ∧
    v.head?.any isWordChar = false

theorem hasWord_iff {text : Str} (ht : text ≠ []) {line : Str} :
    hasWord text none line = true ↔ HasWord text line := by
  suffices h : ∀ prev, hasWord text prev line = true ↔ ∃ u v, line = u ++ (text ++ v) ∧
      (u.getLast?.or prev).any isWordChar = false ∧ v.head?.any isWordChar = false by
    have h := h none
    simp only [Option.or_none] at h
    exact h
  induction line with
  | nil =>
    refine fun prev => iff_of_false nofun ?_
    rintro ⟨u, v, e, -⟩
    exact ht (List.append_eq_nil_iff.mp (List.append_eq_nil_iff.mp e.symm).2).1
  | cons c s ih =>
    intro prev
    have hlast (u : Str) : (c :: u).getLast?.or prev = u.getLast?.or (some c) := by
      cases u with
      | nil => rfl
      | cons d u => rw [List.getLast?_cons_cons]; rfl
    rw [hasWord, Bool.or_eq_true, ih]
    simp only [Bool.and_eq_true, Bool.not_eq_true']
    constructor
    · rintro (⟨⟨hp, hprev⟩, hnext⟩ | ⟨u, v, rfl, hu, hv⟩)
      · obtain ⟨v, e⟩ := List.isPrefixOf_iff_prefix.mp hp
        rw [← e, List.drop_left] at hnext
        exact ⟨[], v, e.symm, hprev, hnext⟩
      · exact ⟨c :: u, v, rfl, (hlast u).symm ▸ hu, hv⟩
    · rintro ⟨u, v, e, hu, hv⟩
      cases u with
      | nil =>
        have e : c :: s = text ++ v := e
        rw [e]
        exact .inl ⟨⟨List.isPrefixOf_iff_prefix.mpr (List.prefix_append _ _), hu⟩,
          by rwa [List.drop_left]⟩
      | cons d u =>
        obtain ⟨rfl, rfl⟩ := List.cons.inj e
        exact .inr ⟨u, v, rfl, hlast u ▸ hu, hv⟩

theorem isVirus_iff {line : Str} : isVirus line = true ↔ HasWord "INFECTED".toList line :=
  hasWord_iff (by decide)

theorem isSpam_iff {line : Str} : isSpam line = true ↔ ∃ text ∈ spamTexts, HasWord text line := by
  have hne : ∀ text ∈ spamTexts, text ≠ [] := by decide
  rw [isSpam, List.any_eq_true]
  exact exists_congr fun text => and_congr_right fun h => hasWord_iff (hne text h)

/-- A `status=` field that is counted. -/
def HasStatus (line : Str) : Prop :=
  Says "status=sent" line ∨ Says "status=deferred" line ∨ Says "status=bounced" line

/-- Postfix logs a rejection, its own or that of a milter. -/
def Refuses (line : Str) : Prop := Says " reject: " line ∨ Says "milter-reject:" line

/-- It only puts the sender off. -/
def Greylists (line : Str) : Prop := ∃ marker ∈ greylistMarkers, marker <:+: lower line

/-- Which outcome a line has. The first of the three statuses counts, and any of them
before a rejection. -/
def Outcome.Of (line : Str) : Outcome → Prop
  | .sent => Says "status=sent" line
  | .deferred => ¬ Says "status=sent" line ∧ Says "status=deferred" line
  | .bounced => ¬ Says "status=sent" line ∧ ¬ Says "status=deferred" line ∧
      Says "status=bounced" line
  | .greylisted => ¬ HasStatus line ∧ Refuses line ∧ Greylists line
  | .rejected => ¬ HasStatus line ∧ Refuses line ∧ ¬ Greylists line

theorem isGreylisted_iff {line : Str} : isGreylisted line = true ↔ Greylists line := by
  simp only [isGreylisted, Greylists, List.any_eq_true, has_iff]

theorem refuses_iff {line : Str} :
    (has " reject: ".toList line || has "milter-reject:".toList line) = true ↔ Refuses line := by
  rw [Bool.or_eq_true, says_iff, says_iff]
  rfl

/-- The tests of `outcomeOf` in their order, as what they look for. -/
theorem outcomeOf_cases (line : Str) :
    (Says "status=sent" line ∧ outcomeOf line = some .sent) ∨
      ¬ Says "status=sent" line ∧
        ((Says "status=deferred" line ∧ outcomeOf line = some .deferred) ∨
          ¬ Says "status=deferred" line ∧
            ((Says "status=bounced" line ∧ outcomeOf line = some .bounced) ∨
              ¬ Says "status=bounced" line ∧
                ((Refuses line ∧ outcomeOf line =
                    some (if isGreylisted line then .greylisted else .rejected)) ∨
                  ¬ Refuses line ∧ outcomeOf line = none))) := by
  rw [← says_iff, ← says_iff, ← says_iff, ← refuses_iff]
  unfold outcomeOf
  split_ifs with hsent hdeferred hbounced hrefused <;> simp only [*] <;> simp

theorem outcomeOf_eq_some {line : Str} {o : Outcome} : outcomeOf line = some o ↔ o.Of line := by
  rcases outcomeOf_cases line with ⟨h₁, e⟩ | ⟨h₁, ⟨h₂, e⟩ | ⟨h₂, ⟨h₃, e⟩ | ⟨h₃, ⟨h₄, e⟩ | ⟨h₄, e⟩⟩⟩⟩
  · cases o <;> simp [Outcome.Of, HasStatus, *]
  · cases o <;> simp [Outcome.Of, HasStatus, *]
  · cases o <;> simp [Outcome.Of, HasStatus, *]
  · by_cases hgrey : isGreylisted line = true
    · rw [e, if_pos hgrey]
      have hg := isGreylisted_iff.mp hgrey
      cases o <;> simp [Outcome.Of, HasStatus, *]
    · rw [e, if_neg hgrey]
      have hg := mt isGreylisted_iff.mpr hgrey
      cases o <;> simp [Outcome.Of, HasStatus, *]
  · cases o <;> simp [Outcome.Of, HasStatus, *]

theorem outcomeOf_eq_none {line : Str} :
    outcomeOf line = none ↔ ¬ HasStatus line ∧ ¬ Refuses line := by
  unfold HasStatus
  rcases outcomeOf_cases line with ⟨h₁, e⟩ | ⟨h₁, ⟨h₂, e⟩ | ⟨h₂, ⟨h₃, e⟩ | ⟨h₃, ⟨h₄, e⟩ | ⟨h₄, e⟩⟩⟩⟩ <;>
    simp [*]

/-- A line of `cleanup` is one that says nothing of a delivery or a rejection. -/
theorem isCleanup_iff {line : Str} : isCleanup line = true ↔
    (¬ HasStatus line ∧ ¬ Refuses line) ∧ Says "postfix/cleanup" line := by
  rw [isCleanup, Bool.and_eq_true, decide_eq_true_eq, outcomeOf_eq_none, says_iff]

end MailserverUi.L1.MailLog

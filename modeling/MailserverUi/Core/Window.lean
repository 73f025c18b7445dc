import Mathlib

/-!
# Logs kept from the front only

A log is a list of times in the order they were recorded. `Keeps c log kept`
says that `kept` is the log without some front part that lies at or before the
horizon `c`: what a queue holds that is only ever emptied from the front, and
only of entries that are too old.

* `Keeps.filter`: for any horizon from `c` on, counting in `kept` is counting in
  the whole log.
* `Keeps.evict`, `Keeps.drop`, `Keeps.snoc`: eviction up to a later horizon,
  dropping a queue that has gone idle, and recording one more time keep the
  relation.
-/
namespace MailserverUi.Window

variable {α : Type} [LinearOrder α]

/-- Drop the front entries that are not after `c`. -/
def evict (c : α) (l : List α) : List α := l.dropWhile (· ≤ c)

def Keeps (c : α) (log kept : List α) : Prop := ∃ old, log = old ++ kept ∧ ∀ x ∈ old, x ≤ c

/-- In a sorted queue eviction is a filter. -/
theorem evict_eq_filter {l : List α} (h : l.Pairwise (· ≤ ·)) (c : α) :
    evict c l = l.filter (c < ·) := by
  induction l with
  | nil => rfl
  | cons a l ih =>
    rw [List.pairwise_cons] at h
    by_cases ha : a ≤ c
    · rw [evict, List.dropWhile_cons_of_pos (by simpa using ha),
        List.filter_cons_of_neg (by simpa using ha)]
      exact ih h.2
    · rw [evict, List.dropWhile_cons_of_neg (by simpa using ha), List.filter_eq_self.mpr]
      intro x hx
      rw [decide_eq_true_eq]
      rcases List.mem_cons.mp hx with rfl | hx
      · exact not_le.mp ha
      · exact lt_of_lt_of_le (not_le.mp ha) (h.1 x hx)

theorem keeps_nil (c : α) : Keeps c [] [] := ⟨[], rfl, by simp⟩

theorem Keeps.mono {c d : α} {log kept : List α} (h : Keeps c log kept) (hcd : c ≤ d) :
    Keeps d log kept := by
  obtain ⟨old, e, ho⟩ := h
  exact ⟨old, e, fun x hx => le_trans (ho x hx) hcd⟩

theorem Keeps.sorted {c : α} {log kept : List α} (h : Keeps c log kept)
    (hs : log.Pairwise (· ≤ ·)) : kept.Pairwise (· ≤ ·) := by
  obtain ⟨old, rfl, -⟩ := h
  exact (List.pairwise_append.mp hs).2.1

theorem Keeps.filter {c d : α} {log kept : List α} (h : Keeps c log kept) (hcd : c ≤ d) :
    log.filter (d < ·) = kept.filter (d < ·) := by
  obtain ⟨old, rfl, ho⟩ := h
  have : old.filter (d < ·) = [] := by
    rw [List.filter_eq_nil_iff]
    intro x hx
    simpa using le_trans (ho x hx) hcd
  rw [List.filter_append, this, List.nil_append]

theorem Keeps.evict {c d : α} {log kept : List α} (h : Keeps c log kept) (hcd : c ≤ d) :
    Keeps d log (evict d kept) := by
  obtain ⟨old, rfl, ho⟩ := h
  refine ⟨old ++ kept.takeWhile (· ≤ d), ?_, ?_⟩
  · rw [List.append_assoc, Window.evict, List.takeWhile_append_dropWhile]
  · intro x hx
    rcases List.mem_append.mp hx with hx | hx
    · exact le_trans (ho x hx) hcd
    · simpa using List.mem_takeWhile_imp hx

/-- A sorted queue whose last entry is not after the horizon may go. -/
theorem Keeps.drop {c d : α} {log kept : List α} (h : Keeps c log kept) (hcd : c ≤ d)
    (hs : log.Pairwise (· ≤ ·)) (hlast : ∀ x, kept.getLast? = some x → x ≤ d) : Keeps d log [] := by
  have hk := h.sorted hs
  obtain ⟨old, rfl, ho⟩ := h
  refine ⟨old ++ kept, by simp, fun x hx => ?_⟩
  rcases List.mem_append.mp hx with hx | hx
  · exact le_trans (ho x hx) hcd
  · have hl := List.getLast?_eq_some_getLast (List.ne_nil_of_mem hx)
    obtain ⟨init, e⟩ := List.getLast?_eq_some_iff.mp hl
    refine le_trans ?_ (hlast _ hl)
    rw [e, List.pairwise_append] at hk
    rw [e] at hx
    rcases List.mem_append.mp hx with hx | hx
    · exact hk.2.2 x hx _ List.mem_cons_self
    · exact le_of_eq (List.mem_singleton.mp hx)

theorem Keeps.snoc {c : α} {log kept : List α} (h : Keeps c log kept) (x : α) :
    Keeps c (log ++ [x]) (kept ++ [x]) := by
  obtain ⟨old, rfl, ho⟩ := h
  exact ⟨old, by simp, ho⟩

end MailserverUi.Window

import Mathlib

/-!
# Pages of an ordered list

`page offset size l` is what a query with a limit and an offset returns of `l`,
and `rank R x l` how many elements of `l` come before `x`. Where `l` is sorted
by `R`, the rank of an element is its position, so that it can be said of a list
that grows on which page an element now is.

* `getElem?_rank`, `mem_page`: an element is on the page that its rank lies on.
* `rank_mono`: in a larger list the rank is no smaller.
* `take_append_page`: consecutive pages are a front part of the list.
-/
namespace MailserverUi.Paging

variable {α : Type}

def page (offset size : Nat) (l : List α) : List α := (l.drop offset).take size

theorem take_append_page (offset size : Nat) (l : List α) :
    l.take offset ++ page offset size l = l.take (offset + size) := List.take_add.symm

variable (R : α → α → Prop) [DecidableRel R]

def rank (x : α) (l : List α) : Nat := l.countP fun y => R y x

variable {R}

theorem rank_perm {x : α} {l l' : List α} (h : l.Perm l') : rank R x l = rank R x l' :=
  h.countP_eq _

theorem rank_mono {x : α} {l l' : List α} (h : l.Sublist l') : rank R x l ≤ rank R x l' :=
  h.countP_le

theorem rank_cons (x y : α) (l : List α) :
    rank R x (y :: l) = rank R x l + if R y x then 1 else 0 := by
  rw [rank, rank, List.countP_cons]
  simp only [decide_eq_true_eq]

/-- Nothing comes before itself. -/
theorem rank_lt_length {x : α} {l : List α} (hx : x ∈ l) (h : ¬ R x x) :
    rank R x l < l.length := by
  refine lt_of_le_of_ne List.countP_le_length fun e => h ?_
  simpa using List.countP_eq_length.mp e x hx

/-- In a sorted list an element stands at its rank. -/
theorem getElem?_rank {x : α} {l : List α} (hs : l.Pairwise R) (hR : ∀ y, R x y → ¬ R y x)
    (hx : x ∈ l) : l[rank R x l]? = some x := by
  induction l with
  | nil => cases hx
  | cons y l ih =>
    obtain ⟨hy, hs⟩ := List.pairwise_cons.mp hs
    rw [rank_cons]
    by_cases h : R y x
    · have hxl : x ∈ l := by
        rcases List.mem_cons.mp hx with rfl | hx
        · exact absurd h (hR x h)
        · exact hx
      rw [if_pos h, List.getElem?_cons_succ]
      exact ih hs hxl
    · -- everything else comes after `x`
      have hxy : x = y := by
        rcases List.mem_cons.mp hx with hx | hx
        · exact hx
        · exact absurd (hy x hx) h
      subst hxy
      have hzero : rank R x l = 0 := by
        rw [rank, List.countP_eq_zero]
        intro z hz
        simpa using hR z (hy z hz)
      rw [if_neg h, hzero]
      rfl

theorem mem_page {x : α} {l : List α} (hs : l.Pairwise R) (hR : ∀ y, R x y → ¬ R y x)
    (hx : x ∈ l) {offset size : Nat} (ho : offset ≤ rank R x l)
    (hn : rank R x l < offset + size) : x ∈ page offset size l := by
  refine List.mem_of_getElem? (i := rank R x l - offset) ?_
  rw [page, List.getElem?_take, if_pos (by omega), List.getElem?_drop,
    Nat.add_sub_cancel' ho]
  exact getElem?_rank hs hR hx

end MailserverUi.Paging

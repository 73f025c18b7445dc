import Mathlib

/-!
# Relations without cycles

* `Acyclic.mono`, `Acyclic.addSource`: edges may be removed, and edges out of a
  vertex that no edge leads to may be added.
* `Acyclic.length_le`: when the edges leave from finitely many vertices, no
  path is longer than their number, so following edges ends.
-/
namespace MailserverUi

variable {α : Type} {r r' : α → α → Prop}

/-- No path leads back to where it started. -/
def Acyclic (r : α → α → Prop) : Prop := ∀ a, ¬ Relation.TransGen r a a

theorem Acyclic.mono (h : Acyclic r) (hr : ∀ a b, r' a b → r a b) : Acyclic r' :=
  fun a hc => h a (Relation.TransGen.mono hr a a hc)

/-- A path that does not start at `v` never gets there, so that it takes none of
the edges added. -/
theorem transGen_of_addSource {v : α} (hr : ∀ a b, r' a b → r a b ∨ a = v) (hv : ∀ a, ¬ r' a v)
    {a b : α} (h : Relation.TransGen r' a b) (ha : a ≠ v) : Relation.TransGen r a b := by
  induction h using Relation.TransGen.head_induction_on with
  | single hab => exact .single ((hr _ _ hab).resolve_right ha)
  | @head a c hac _ ih =>
    have hc : c ≠ v := fun e => hv a (e ▸ hac)
    exact .head ((hr _ _ hac).resolve_right ha) (ih hc)

theorem Acyclic.addSource {v : α} (h : Acyclic r) (hr : ∀ a b, r' a b → r a b ∨ a = v)
    (hv : ∀ a, ¬ r' a v) : Acyclic r' := by
  intro a hc
  by_cases ha : a = v
  · subst ha
    obtain ⟨b, -, hb⟩ := Relation.TransGen.tail'_iff.mp hc
    exact hv b hb
  · exact h a (transGen_of_addSource hr hv hc ha)

theorem transGen_of_mem {a b : α} {l : List α} (h : List.IsChain r (a :: l)) (hb : b ∈ l) :
    Relation.TransGen r a b := by
  induction l generalizing a with
  | nil => cases hb
  | cons c l ih =>
    obtain ⟨hac, hl⟩ := List.isChain_cons_cons.mp h
    rcases List.mem_cons.mp hb with rfl | hb
    · exact .single hac
    · exact .head hac (ih hl hb)

/-- A path without a repetition. -/
theorem Acyclic.nodup (h : Acyclic r) {l : List α} (hl : List.IsChain r l) : l.Nodup := by
  induction l with
  | nil => exact List.nodup_nil
  | cons a l ih =>
    refine List.nodup_cons.mpr ⟨fun ha => h a (transGen_of_mem hl ha), ih ?_⟩
    exact hl.tail

theorem isChain_source {a : α} {l sources : List α} (hs : ∀ a b, r a b → a ∈ sources)
    (h : List.IsChain r (a :: l)) : ∀ b ∈ (a :: l).dropLast, b ∈ sources := by
  induction l generalizing a with
  | nil => simp
  | cons c l ih =>
    obtain ⟨hac, hl⟩ := List.isChain_cons_cons.mp h
    intro b hb
    rw [List.dropLast_cons_of_ne_nil (List.cons_ne_nil c l)] at hb
    rcases List.mem_cons.mp hb with rfl | hb
    · exact hs _ _ hac
    · exact ih hl b hb

/-- Every vertex of a path but its last is a source, and no two are the same. -/
theorem Acyclic.length_le (h : Acyclic r) {sources : List α} (hs : ∀ a b, r a b → a ∈ sources)
    {a : α} {l : List α} (hl : List.IsChain r (a :: l)) : l.length ≤ sources.length := by
  have hnd : (a :: l).dropLast.Nodup := (h.nodup hl).sublist (List.dropLast_sublist _)
  have hsub : (a :: l).dropLast ⊆ sources := isChain_source hs hl
  have hle := (List.subperm_of_subset hnd hsub).length_le
  rwa [List.length_dropLast, List.length_cons, Nat.add_sub_cancel] at hle

end MailserverUi

import MailserverUi.L3Service.FlatFiles

/-!
# What a restriction does to the others

An access map tells Postfix what to do with the mail of an address, and
`REJECT` is one answer of many. The reader keeps the addresses, and the writer
gives each of them a `REJECT`.

Results:
* `othersKept_iff`: adding or deleting an entry keeps the lines of the other
  addresses, and the list is what it should be, exactly when these lines say
  `REJECT`, and a new entry is one word that is no comment.
* `permitted_rejected`: an address that was let through is rejected once another
  one is added.
-/
namespace MailserverUi.L4.RestrictionFrame

open Py L1.ServerFiles L1.ConfigText L1.Restrictions L2.Errors L2.Container
open L3.MailserverService L3.FlatFiles

/-- The addresses of a map with their actions, line by line. -/
def entries (s : Files) (kind : Str) : List (Str × Str) :=
  (accessFile kind).elim [] fun f => (lines s f).map restrictedEntry

/-- Every line for another address is there with its action. -/
def OthersKept (kind a : Str) (s s' : Files) : Prop :=
  ∀ p ∈ entries s kind, p.1 ≠ a → p ∈ entries s' kind

/-- The list is the earlier one with `a` in its place, and `a` is found there. -/
structure Added (kind a : Str) (s s' : Files) : Prop where
  others : OthersKept kind a s s'
  list : ∃ before after, (listRestrictions kind).run box s = (.ok before, s) ∧
    (listRestrictions kind).run box s' = (.ok after, s') ∧
      Inserted Restriction.address ⟨kind, a⟩ before after
  again : ∀ address, normalise address = a →
    (addRestriction kind address).run box s' = (.error (alreadyRestricted a), s')

/-- The list is the earlier one without `a`. -/
structure Deleted (kind a : Str) (s s' : Files) : Prop where
  others : OthersKept kind a s s'
  list : ∃ before, (listRestrictions kind).run box s = (.ok before, s) ∧
    (listRestrictions kind).run box s' = (.ok (before.filter fun r => r.address ≠ a), s')

/-- The lines for the other addresses say `REJECT`, and nothing more. -/
def OthersReject (kind a : Str) (s : Files) : Prop :=
  ∀ p ∈ entries s kind, p.1 ≠ a → p.2 = "REJECT".toList

instance (kind a : Str) (s : Files) : Decidable (OthersReject kind a s) :=
  inferInstanceAs (Decidable (∀ p ∈ entries s kind, p.1 ≠ a → p.2 = "REJECT".toList))

/-- One word that is no comment. -/
structure PlainEntry (a : Str) : Prop where
  noSpace : NoSpace a
  head : a.head? ≠ some '#'

section
variable {s s' t : Files} {kind f a : Str} {addresses : List Str}

theorem entries_eq (hf : accessFile kind = some f) :
    entries s kind = (lines s f).map restrictedEntry := by
  rw [entries, hf]
  rfl

theorem isAddress_of_restricted (h : a ∈ restricted s f) : IsAddress a := by
  obtain ⟨l, hl, rfl⟩ := List.mem_map.mp h
  exact isAddress_restrictedEntry (isLine_of_mem_lines hl).1 (isLine_of_mem_lines hl).2

theorem fst_mem_restricted {p : Str × Str} (hf : accessFile kind = some f)
    (h : p ∈ entries s kind) : p.1 ∈ restricted s f := by
  rw [entries_eq hf] at h
  obtain ⟨l, hl, rfl⟩ := List.mem_map.mp h
  exact List.mem_map.mpr ⟨l, hl, rfl⟩

/-! ## Written maps -/

theorem entries_put (hf : accessFile kind = some f) (h : ∀ a ∈ addresses, IsAddress a) :
    entries (put t f (restrictionLines addresses)) kind = (written addresses).map rejected := by
  rw [entries_eq hf, lines_put, ← textLines_managed, entries_written h]

theorem restricted_put (h : ∀ a ∈ addresses, IsAddress a) :
    restricted (put t f (restrictionLines addresses)) f = written addresses := by
  have he := entries_written h
  rw [textLines_managed, ← lines_put (s := t) (f := f)] at he
  have hmap := congrArg (List.map Prod.fst) he
  rw [List.map_map, List.map_map] at hmap
  exact hmap.trans (List.map_id _)

/-- The lines of the others are kept exactly when they are `REJECT` already. -/
theorem othersKept_put_iff (hf : accessFile kind = some f) (h : ∀ x ∈ addresses, IsAddress x)
    (hmem : ∀ x ∈ restricted s f, x ≠ a → x ∈ addresses) :
    OthersKept kind a s (put t f (restrictionLines addresses)) ↔ OthersReject kind a s := by
  have hiff (p : Str × Str) : p ∈ (written addresses).map rejected ↔
      p.1 ∈ addresses ∧ p.2 = "REJECT".toList := by
    rw [List.mem_map]
    constructor
    · rintro ⟨x, hx, rfl⟩
      exact ⟨mem_written.mp hx, rfl⟩
    · rintro ⟨hx, e⟩
      exact ⟨p.1, mem_written.mpr hx, Prod.ext rfl e.symm⟩
  unfold OthersKept OthersReject
  rw [entries_put hf h]
  constructor
  · intro hall p hp hpa
    exact ((hiff p).mp (hall p hp hpa)).2
  · intro hall p hp hpa
    exact (hiff p).mpr ⟨hmem p.1 (fst_mem_restricted hf hp) hpa, hall p hp hpa⟩

/-! ## Adding -/

section
variable {address : Str}

theorem isAddress_append (ha : IsAddress a) : ∀ x ∈ restricted s f ++ [a], IsAddress x := by
  intro x hx
  rcases List.mem_append.mp hx with hx | hx
  · exact isAddress_of_restricted hx
  · rw [List.mem_singleton.mp hx]
    exact ha

theorem added_of_plain (hf : accessFile kind = some f) (hat : '@' ∈ normalise address)
    (hnew : normalise address ∉ restricted s f) (ha : IsAddress (normalise address))
    (hrej : OthersReject kind (normalise address) s) :
    Added kind (normalise address) s
      (put s f (restrictionLines (restricted s f ++ [normalise address]))) := by
  have hall := isAddress_append (s := s) (f := f) ha
  have hput : restricted (put s f (restrictionLines (restricted s f ++ [normalise address]))) f =
      written (restricted s f ++ [normalise address]) := restricted_put hall
  refine ⟨(othersKept_put_iff hf hall fun x hx _ => List.mem_append_left _ hx).mpr hrej,
    ⟨_, _, run_listRestrictions hf, run_listRestrictions hf, ?_⟩, fun n hn => ?_⟩
  · rw [hput, written_written, ← List.filterMap_eq_map]
    refine (inserted_written hnew).filterMap (fun b d e => ?_) rfl
    cases e
    rfl
  · have hfound : normalise n ∈ written (restricted s f ++ [normalise address]) :=
      mem_written.mpr (List.mem_append_right _ (by rw [hn]; exact List.mem_singleton.mpr rfl))
    rw [run_addRestriction hf, hput, if_neg (by rw [hn]; exact not_not.mpr hat), if_pos hfound, hn]

theorem plain_of_added (hf : accessFile kind = some f) (h : Added kind a s s') : IsAddress a := by
  obtain ⟨before, after, -, hafter, hins⟩ := h.list
  rw [run_listRestrictions hf] at hafter
  cases hafter
  obtain ⟨x, hx, e⟩ := List.mem_map.mp (hins.mem.mpr (.inl rfl))
  cases e
  exact isAddress_of_restricted (mem_written.mp hx)

theorem added_iff_plain {r : Restriction}
    (h : (addRestriction kind address).run box s = (.ok r, s')) :
    Added kind (normalise address) s s' ↔
      PlainEntry (normalise address) ∧ OthersReject kind (normalise address) s := by
  obtain ⟨f, hf⟩ := accessFile_of_ok h
  rw [run_addRestriction hf] at h
  split at h
  · cases h
  · rename_i hat
    have hat := not_not.mp hat
    split at h
    · cases h
    · rename_i hnew
      cases h
      constructor
      · intro hadd
        have ha := plain_of_added hf hadd
        exact ⟨⟨ha.noSpace, ha.head⟩, (othersKept_put_iff hf (isAddress_append ha)
          fun x hx _ => List.mem_append_left _ hx).mp hadd.others⟩
      · rintro ⟨⟨hs, hh⟩, hrej⟩
        exact added_of_plain hf hat hnew ⟨List.ne_nil_of_mem hat, hs,
          fun c hc => (mem_lower hc).1, hh⟩ hrej

end

/-! ## Deleting -/

theorem deleted_iff {address : Str}
    (h : (deleteRestriction kind address).run box s = (.ok (), s')) :
    Deleted kind (normalise address) s s' ↔ OthersReject kind (normalise address) s := by
  obtain ⟨f, hf⟩ := accessFile_of_ok h
  rw [run_deleteRestriction hf] at h
  split at h
  · cases h
  · cases h
    have hall : ∀ x ∈ (restricted s f).filter (· ≠ normalise address), IsAddress x :=
      fun x hx => isAddress_of_restricted (List.mem_filter.mp hx).1
    have hkept := othersKept_put_iff (s := s) (t := s) (a := normalise address) hf hall
      fun x hx hne => List.mem_filter.mpr ⟨hx, decide_eq_true hne⟩
    refine ⟨fun hd => hkept.mp hd.others, fun hrej => ⟨hkept.mpr hrej,
      _, run_listRestrictions hf, ?_⟩⟩
    rw [run_listRestrictions hf, restricted_put hall, written_written, written_filter,
      List.filter_map]
    rfl

end

/-- Adding an entry, or deleting one, does what it should to the list and leaves
the lines for the other addresses alone exactly when these say `REJECT`, and a
new entry is one word that is no comment. -/
theorem othersKept_iff (s s' : Files) (kind address : Str) :
    (∀ r, (addRestriction kind address).run box s = (.ok r, s') →
      (Added kind (normalise address) s s' ↔
        PlainEntry (normalise address) ∧ OthersReject kind (normalise address) s)) ∧
    ((deleteRestriction kind address).run box s = (.ok (), s') →
      (Deleted kind (normalise address) s s' ↔ OthersReject kind (normalise address) s)) :=
  ⟨fun _ => added_iff_plain, deleted_iff⟩

/-- Files with nothing but the map for sending. -/
def sendFile (content : String) : Files := fun p =>
  if p = configPath "postfix-send-access.cf".toList then some content.toList else none

/-- Two lines for one address, and a comment. -/
def rejecting : Files := sendFile "# ours\nB@x.org REJECT\n@z.org\tREJECT\nb@x.org REJECT\n"

/-- The files after `@M.org` is added. -/
def afterRejecting : Files :=
  ((addRestriction "send".toList " @M.org ".toList).run box rejecting).2

/-- `@M.org` is added, and `b@x.org` deleted. -/
theorem othersKept_iff_rejecting :
    ∃ r s₁ s₂, (addRestriction "send".toList " @M.org ".toList).run box rejecting = (.ok r, s₁) ∧
      Added "send".toList (normalise " @M.org ".toList) rejecting s₁ ∧
      (deleteRestriction "send".toList "b@x.org".toList).run box s₁ = (.ok (), s₂) ∧
      Deleted "send".toList (normalise "b@x.org".toList) s₁ s₂ ∧
      entries s₂ "send".toList = [rejected "@m.org".toList, rejected "@z.org".toList] := by
  obtain ⟨r, hr⟩ := exists_ok
    (r := ((addRestriction "send".toList " @M.org ".toList).run box rejecting).1) (by decide +kernel)
  have h₁ : (addRestriction "send".toList " @M.org ".toList).run box rejecting =
      (.ok r, afterRejecting) := Prod.ext hr rfl
  have hplain : PlainEntry (normalise " @M.org ".toList) := ⟨by decide +kernel, by decide +kernel⟩
  have hr₂ : ((deleteRestriction "send".toList "b@x.org".toList).run box afterRejecting).1 =
      .ok () := by decide +kernel
  have h₂ := Prod.ext (y := (_, _)) hr₂ rfl
  exact ⟨r, _, _, h₁, ((othersKept_iff rejecting _ _ _).1 r h₁).mpr ⟨hplain, by decide +kernel⟩,
    h₂, ((othersKept_iff _ _ _ _).2 h₂).mpr (by decide +kernel), by decide +kernel⟩

/-- One address is let through, and another has a text of its own. -/
def mixed : Files := sendFile "good@x.org OK\nbad@x.org 550 Write to us first\n"

/-- The files after a third address is added. -/
def afterMixed : Files := ((addRestriction "send".toList "@spam.org".toList).run box mixed).2

/-- Both lines are turned into `REJECT`. -/
theorem permitted_rejected :
    ((addRestriction "send".toList "@spam.org".toList).run box mixed).1 =
        .ok ⟨"send".toList, "@spam.org".toList⟩ ∧
      entries mixed "send".toList = [("good@x.org".toList, "OK".toList),
        ("bad@x.org".toList, "550 Write to us first".toList)] ∧
      entries afterMixed "send".toList = [rejected "@spam.org".toList, rejected "bad@x.org".toList,
        rejected "good@x.org".toList] ∧
      ¬ Added "send".toList "@spam.org".toList mixed afterMixed := by
  have hbefore : entries mixed "send".toList = [("good@x.org".toList, "OK".toList),
      ("bad@x.org".toList, "550 Write to us first".toList)] := by decide +kernel
  have hafter : entries afterMixed "send".toList = [rejected "@spam.org".toList,
      rejected "bad@x.org".toList, rejected "good@x.org".toList] := by decide +kernel
  refine ⟨by decide +kernel, hbefore, hafter, fun h => ?_⟩
  have hgood := h.others ("good@x.org".toList, "OK".toList)
    (by rw [hbefore]; exact List.mem_cons_self) (by decide)
  rw [hafter] at hgood
  exact absurd hgood (by decide)

end MailserverUi.L4.RestrictionFrame

import MailserverUi.L1Encoding.ConfigText

/-!
# Lines of the relay map and of the SASL file

A relay is written as `sender\t[host]:port` whatever shape it was read from, an
exclusion as the sender alone, and credentials as `sender\tusername:password`.

Results:
* `relaysOf_eq`, `credsOf_eq`: both files are dictionaries of what their lines
  say one by one.
* `isRelay_of_mem`, `isCred_of_mem`: what is read may be written again.
* `get?_relaysOf_written`: a written relay map is read back where no host holds a
  `]`; `plain_of_written` says that no host that is read of one does.
* `get?_credsOf_written`: written credentials are read back, less those without a
  username.
-/
namespace MailserverUi.L1.Relays

open Py MailFiles ServerFiles ConfigText

/-! ## Lines one by one -/

/-- What a line of the relay map says: `none` raises, `some none` is skipped. -/
def relayEntry (line : Str) : Option (Option (Str × Target)) :=
  match words line with
  | [] => none
  | [sender] => some (some (lower sender, none))
  | sender :: target :: _ =>
    (parseRelayTarget target).map fun t => if t.1 ≠ [] then some (lower sender, some t) else none

/-- What a line of the SASL file says. -/
def credEntry (line : Str) : Option (Str × (Str × Str)) :=
  match split1 line with
  | sender :: login :: _ => some (lower sender, strip (before ':' login), strip (after ':' login))
  | _ => none

def formatCred (p : Str × (Str × Str)) : Str := p.1 ++ '\t' :: p.2.1 ++ ':' :: p.2.2

theorem relayLine_eq (d : Dict Str Target) (line : Str) :
    relayLine d line = (relayEntry line).map fun e => (e.map fun p => d.set p.1 p.2).getD d := by
  unfold relayLine relayEntry
  rcases words line with _ | ⟨sender, _ | ⟨target, rest⟩⟩
  · rfl
  · rfl
  · simp only [Option.map_map]
    congr 1
    funext t
    by_cases ht : t.1 ≠ []
    · simp only [Function.comp, if_pos ht, Option.map_some, Option.getD_some]
    · simp only [Function.comp, if_neg ht, Option.map_none, Option.getD_none]

theorem credsLine_eq (d : Dict Str (Str × Str)) (line : Str) :
    credsLine d line = ((credEntry line).map fun p => d.set p.1 p.2).getD d := by
  unfold credsLine credEntry
  rcases split1 line with _ | ⟨sender, _ | ⟨login, rest⟩⟩ <;> rfl

theorem relaysOf_eq (lines : List Str) :
    relaysOf lines = (lines.mapM relayEntry).map fun es => Dict.ofPairs (es.filterMap id) := by
  suffices ∀ d, lines.foldlM relayLine d = (lines.mapM relayEntry).map fun es =>
      (es.filterMap id).foldl (fun d p => d.set p.1 p.2) d from this Dict.empty
  induction lines with
  | nil => intro d; rfl
  | cons l lines ih =>
    intro d
    rw [List.foldlM_cons, relayLine_eq, List.mapM_cons]
    cases relayEntry l with
    | none => rfl
    | some e =>
      have h : (some e : Option _).map (fun e => (e.map fun p => d.set p.1 p.2).getD d) >>=
          (fun d' => lines.foldlM relayLine d') =
          lines.foldlM relayLine ((e.map fun p => d.set p.1 p.2).getD d) := rfl
      rw [h, ih]
      cases lines.mapM relayEntry with
      | none => rfl
      | some es => cases e <;> rfl

theorem credsOf_eq (lines : List Str) : credsOf lines = Dict.ofPairs (lines.filterMap credEntry) := by
  suffices ∀ d, lines.foldl credsLine d =
      (lines.filterMap credEntry).foldl (fun d p => d.set p.1 p.2) d from this Dict.empty
  induction lines with
  | nil => intro d; rfl
  | cons l lines ih =>
    intro d
    rw [List.foldl_cons, ih, List.filterMap_cons, credsLine_eq]
    cases credEntry l <;> rfl

/-! ## What is read -/

/-- A relay target as it is read. -/
structure IsTarget (t : Str × Nat) : Prop where
  ne : t.1 ≠ []
  noSpace : NoSpace t.1
  port : t.2 < 10 ^ maxStrDigits

structure IsRelay (p : Str × Target) : Prop where
  sender : IsAddress p.1
  target : ∀ t, p.2 = some t → IsTarget t

structure IsCred (p : Str × (Str × Str)) : Prop where
  sender : IsAddress p.1
  noColon : ':' ∉ p.2.1
  user : Trim p.2.1 ∧ OneLine p.2.1
  password : Trim p.2.2 ∧ OneLine p.2.2

/-- No host holds the bracket that ends it. -/
def Plain (target : Target) : Prop := ∀ t, target = some t → ']' ∉ t.1

theorem defaultPort_lt : 587 < 10 ^ maxStrDigits :=
  Nat.lt_of_lt_of_le (by decide : 587 < 10 ^ 3) (Nat.pow_le_pow_right (by decide) (by decide))

theorem portOf_lt {s : Str} {n : Nat} (h : portOf s = some n) : n < 10 ^ maxStrDigits := by
  unfold portOf at h
  split at h
  · exact lt_of_int h
  · cases h
    exact defaultPort_lt

theorem mem_beforeLast {c d : Char} {s : Str} (h : d ∈ beforeLast c s) : d ∈ s :=
  (List.rdropWhile_prefix _ s).subset (List.mem_of_mem_dropLast h)

theorem isTarget_of_parse {w : Str} {t : Str × Nat} (hw : NoSpace w)
    (h : parseRelayTarget w = some t) (ht : t.1 ≠ []) : IsTarget t := by
  unfold parseRelayTarget at h
  rw [hw.strip_eq] at h
  split at h
  · rename_i rest
    obtain ⟨n, hn, rfl⟩ := Option.map_eq_some_iff.mp h
    exact ⟨ht, fun c hc => hw c (List.mem_cons_of_mem _ (before_subset (mem_strip hc))), portOf_lt hn⟩
  · split at h
    · obtain ⟨n, hn, rfl⟩ := Option.map_eq_some_iff.mp h
      exact ⟨ht, fun c hc => hw c (mem_beforeLast (mem_strip hc)), portOf_lt hn⟩
    · cases h
      exact ⟨ht, fun c hc => hw c (mem_strip hc), defaultPort_lt⟩

theorem isRelay_of_entry {l : Str} {p : Str × Target} (hl : IsLine l) (hh : l.head? ≠ some '#')
    (h : relayEntry l = some (some p)) : IsRelay p := by
  obtain ⟨w, hne, hw, hhead, hcase⟩ := exists_word hl
  have hs : IsAddress (lower w) := isAddress_lower hne hw (hhead ▸ hh)
  unfold relayEntry at h
  rcases hcase with rfl | ⟨sep, r, hsep, rfl⟩
  · rw [words_noSpace hw hne] at h
    cases h
    exact ⟨hs, fun t ht => by cases ht⟩
  · rw [words_word hw hne hsep] at h
    cases hr : words r with
    | nil =>
      rw [hr] at h
      cases h
      exact ⟨hs, fun t ht => by cases ht⟩
    | cons v vs =>
      rw [hr] at h
      obtain ⟨t, ht, he⟩ := Option.map_eq_some_iff.mp h
      have hv : v ∈ words r := by rw [hr]; exact List.mem_cons_self
      by_cases hne' : t.1 ≠ []
      · rw [if_pos hne'] at he
        cases he
        refine ⟨hs, fun u hu => ?_⟩
        cases hu
        exact isTarget_of_parse (mem_words hv).2.1 ht hne'
      · rw [if_neg hne'] at he
        cases he

/-- What is in the map stands in a line. -/
theorem exists_line_of_mem {lines : List Str} {d : Dict Str Target} (h : relaysOf lines = some d)
    {p : Str × Target} (hp : p ∈ d.items) : ∃ l ∈ lines, relayEntry l = some (some p) := by
  rw [relaysOf_eq, Option.map_eq_some_iff] at h
  obtain ⟨es, hes, rfl⟩ := h
  obtain ⟨e, he, hid⟩ := List.mem_filterMap.mp (Dict.mem_of_mem_ofPairs hp)
  rw [id_eq] at hid
  subst hid
  exact exists_of_mem_mapM hes he

theorem isRelay_of_mem {text : Str} {d : Dict Str Target} (h : relaysOf (textLines text) = some d)
    {p : Str × Target} (hp : p ∈ d.items) : IsRelay p := by
  obtain ⟨l, hl, hle⟩ := exists_line_of_mem h hp
  obtain ⟨h₁, h₂⟩ := isLine_of_mem_textLines hl
  exact isRelay_of_entry h₁ h₂ hle

theorem isCred_of_entry {l : Str} {p : Str × (Str × Str)} (hl : IsLine l) (hh : l.head? ≠ some '#')
    (h : credEntry l = some p) : IsCred p := by
  obtain ⟨w, rest, e, hne, hw, hrest⟩ := split1_line hl
  unfold credEntry at h
  rw [e] at h
  cases rest with
  | nil => cases h
  | cons login rest =>
    cases h
    have ho : OneLine login := hrest login List.mem_cons_self
    exact ⟨isAddress_lower hne hw (by rwa [head?_of_split1 hl e]),
      fun hc => not_mem_before ':' login (mem_strip hc),
      ⟨trim_strip _, (ho.mono fun _ => before_subset).strip⟩,
      ⟨trim_strip _, (ho.mono fun _ => after_subset).strip⟩⟩

theorem isCred_of_mem {text : Str} {p : Str × (Str × Str)}
    (hp : p ∈ (credsOf (textLines text)).items) : IsCred p := by
  rw [credsOf_eq] at hp
  obtain ⟨l, hl, hle⟩ := List.mem_filterMap.mp (Dict.mem_of_mem_ofPairs hp)
  obtain ⟨h₁, h₂⟩ := isLine_of_mem_textLines hl
  exact isCred_of_entry h₁ h₂ hle

/-! ## The shapes of a target -/

/-- Neither bracket. -/
def BracketFree (text : Str) : Prop := '[' ∉ text ∧ ']' ∉ text

instance (text : Str) : Decidable (BracketFree text) := inferInstanceAs (Decidable (_ ∧ _))

/-- `[host]:port`, `host:port` or `host`. -/
inductive Shaped : Str → Prop where
  | bracketed (host port : Str) (h : BracketFree host) : Shaped ('[' :: host ++ ']' :: ':' :: port)
  | withPort (host port : Str) (h : BracketFree host) (hp : BracketFree port) (hc : ':' ∉ port) :
    Shaped (host ++ ':' :: port)
  | bare (host : Str) (h : BracketFree host) : Shaped host

/-- The second word of each line is a target. -/
def TargetsShaped (lines : List Str) : Prop :=
  ∀ l ∈ lines, ∀ sender token rest, words l = sender :: token :: rest → Shaped token

theorem targetsShaped_of_tokens {lines tokens : List Str}
    (h : (lines.filterMap fun l => (words l)[1]?) = tokens) (ht : ∀ t ∈ tokens, Shaped t) :
    TargetsShaped lines := by
  intro l hl sender token rest e
  refine ht token (h ▸ List.mem_filterMap.mpr ⟨l, hl, ?_⟩)
  rw [e]
  rfl

theorem plain_of_bracketFree {w : Str} {t : Str × Nat} (hw : BracketFree w)
    (h : parseRelayTarget w = some t) : ']' ∉ t.1 := by
  have hin {c : Char} (hc : c ∈ strip w) : c ∈ w := mem_strip hc
  unfold parseRelayTarget at h
  split at h
  · rename_i rest e
    exact absurd (hin (e ▸ List.mem_cons_self)) hw.1
  · split at h
    · obtain ⟨n, -, rfl⟩ := Option.map_eq_some_iff.mp h
      exact fun hc => hw.2 (hin (mem_beforeLast (mem_strip hc)))
    · cases h
      exact fun hc => hw.2 (hin (mem_strip hc))

theorem plain_of_shaped {w : Str} {t : Str × Nat} (hw : Shaped w) (hs : NoSpace w)
    (h : parseRelayTarget w = some t) : ']' ∉ t.1 := by
  cases hw with
  | bracketed host port hh =>
    unfold parseRelayTarget at h
    rw [hs.strip_eq] at h
    simp only [List.cons_append] at h
    rw [before_append _ hh.2] at h
    obtain ⟨n, -, rfl⟩ := Option.map_eq_some_iff.mp h
    exact fun hc => hh.2 (mem_strip hc)
  | withPort host port hh hp hc =>
    refine plain_of_bracketFree ⟨fun hm => ?_, fun hm => ?_⟩ h
    · rcases List.mem_append.mp hm with hm | hm
      · exact hh.1 hm
      · exact hp.1 ((List.mem_cons.mp hm).resolve_left (by decide))
    · rcases List.mem_append.mp hm with hm | hm
      · exact hh.2 hm
      · exact hp.2 ((List.mem_cons.mp hm).resolve_left (by decide))
  | bare host hh => exact plain_of_bracketFree hh h

/-- A host of such a file may be written between brackets. -/
theorem plain_of_targetsShaped {lines : List Str} {d : Dict Str Target} (h : TargetsShaped lines)
    (hd : relaysOf lines = some d) {p : Str × Target} (hp : p ∈ d.items) : Plain p.2 := by
  intro t ht
  obtain ⟨l, hl, e⟩ := exists_line_of_mem hd hp
  unfold relayEntry at e
  rcases hw : words l with _ | ⟨sender, _ | ⟨token, rest⟩⟩ <;> rw [hw] at e
  · cases e
  · cases e
    cases ht
  · obtain ⟨u, hu, e⟩ := Option.map_eq_some_iff.mp e
    have hm : token ∈ words l := by
      rw [hw]
      exact List.mem_cons_of_mem _ List.mem_cons_self
    have hplain := plain_of_shaped (h l hl sender token rest hw) (mem_words hm).2.1 hu
    split at e
    · cases e
      cases ht
      exact hplain
    · cases e

/-! ## A written relay map -/

/-- `f"[{host}]:{port}"`. -/
def token (t : Str × Nat) : Str := '[' :: t.1 ++ ']' :: ':' :: str t.2

theorem formatRelay_some (k : Str) (t : Str × Nat) :
    formatRelay k (some t) = k ++ '\t' :: token t := by
  simp [formatRelay, token]

theorem noSpace_token {t : Str × Nat} (h : NoSpace t.1) : NoSpace (token t) := by
  intro c hc
  simp only [token, List.cons_append, List.mem_cons, List.mem_append] at hc
  rcases hc with rfl | hc | rfl | rfl | hc
  · decide
  · exact h c hc
  · decide
  · decide
  · exact noSpace_str t.2 c hc

theorem token_ne_nil (t : Str × Nat) : token t ≠ [] := by simp [token]

section
variable {k : Str} {t : Str × Nat} {p : Str × Target}

theorem isLine_formatRelay (h : IsRelay p) :
    IsLine (formatRelay p.1 p.2) ∧ (formatRelay p.1 p.2).head? ≠ some '#' := by
  obtain ⟨k, target⟩ := p
  cases target with
  | none => exact ⟨isLine_of_noSpace h.sender.noSpace h.sender.ne, h.sender.head⟩
  | some t =>
    have ht := noSpace_token (h.target t rfl).noSpace
    rw [formatRelay_some]
    exact isLine_address h.sender ht.trim ht.oneLine (token_ne_nil t)

theorem parse_token_of_plain (h : IsTarget t) (hb : ']' ∉ t.1) :
    parseRelayTarget (token t) = some t := by
  have hd : (':' :: str t.2).dropWhile (· == ':') = str t.2 := by
    rw [List.dropWhile_cons_of_pos (by decide)]
    obtain ⟨c, s, e⟩ := List.exists_cons_of_ne_nil (Nat.toDigits_ne_nil (n := t.2) (b := 10))
    have hc : c.isDigit = true :=
      Nat.isDigit_of_mem_toDigits (by decide) le_rfl (e ▸ List.mem_cons_self)
    have hcolon : c ≠ ':' := by rintro rfl; exact absurd hc (by decide)
    rw [str, e, List.dropWhile_cons_of_neg (by simpa using hcolon)]
  unfold parseRelayTarget
  rw [(noSpace_token h.noSpace).strip_eq, token]
  simp only [List.cons_append, before_append _ hb, after_append _ hb, hd, portOf, isdigit_str,
    if_true, int_str h.port, Option.map_some, h.noSpace.strip_eq]

/-- Whatever the host holds, what is read of it ends at its first bracket. -/
theorem exists_parse_token (h : IsTarget t) :
    ∃ u, parseRelayTarget (token t) = some u ∧ ']' ∉ u.1 := by
  by_cases hb : ']' ∈ t.1
  · obtain ⟨x, y, e, hx⟩ := exists_of_mem hb
    have hs : ']' ∈ ((y ++ ']' :: ':' :: str t.2).dropWhile (· == ':')) := by
      by_contra hn
      have hm : ']' ∈ y ++ ']' :: ':' :: str t.2 := List.mem_append_right _ List.mem_cons_self
      rw [← List.takeWhile_append_dropWhile (p := (· == ':')) (l := y ++ ']' :: ':' :: str t.2),
        List.mem_append] at hm
      exact absurd (List.mem_takeWhile_imp (hm.resolve_right hn)) (by decide)
    have hd : isdigit ((y ++ ']' :: ':' :: str t.2).dropWhile (· == ':')) = false := by
      rw [isdigit, Bool.and_eq_false_iff]
      exact .inr (List.all_eq_false.mpr ⟨']', hs, by decide⟩)
    refine ⟨(strip x, 587), ?_, fun hm => hx (mem_strip hm)⟩
    unfold parseRelayTarget
    rw [(noSpace_token h.noSpace).strip_eq, token, e]
    simp only [List.cons_append, List.append_assoc, before_append _ hx, after_append _ hx, portOf, hd,
      Bool.false_eq_true, if_false, Option.map_some]
  · exact ⟨t, parse_token_of_plain h hb, hb⟩

theorem words_formatRelay_some (hk : IsAddress k) (ht : NoSpace t.1) :
    words (formatRelay k (some t)) = [k, token t] := by
  rw [formatRelay_some, words_word hk.noSpace hk.ne (by decide),
    words_noSpace (noSpace_token ht) (token_ne_nil t)]

theorem relayEntry_format_of_plain (h : IsRelay p) (hb : Plain p.2) :
    relayEntry (formatRelay p.1 p.2) = some (some p) := by
  obtain ⟨k, target⟩ := p
  cases target with
  | none =>
    rw [relayEntry, formatRelay, words_noSpace h.sender.noSpace h.sender.ne]
    simp only [lower_of_low h.sender.low]
  | some t =>
    have ht := h.target t rfl
    rw [relayEntry, words_formatRelay_some h.sender ht.noSpace]
    simp only [parse_token_of_plain ht (hb t rfl), Option.map_some, ht.ne, ne_eq, not_false_iff,
      if_true, lower_of_low h.sender.low]

/-- A written line does not raise, and says something of its sender at most. -/
theorem exists_relayEntry_format (h : IsRelay p) :
    ∃ e, relayEntry (formatRelay p.1 p.2) = some e ∧ ∀ q ∈ e, q.1 = p.1 ∧ Plain q.2 := by
  obtain ⟨k, target⟩ := p
  cases target with
  | none =>
    refine ⟨_, relayEntry_format_of_plain h fun t ht => (by cases ht), fun q hq => ?_⟩
    cases hq
    exact ⟨rfl, fun t ht => by cases ht⟩
  | some t =>
    have ht := h.target t rfl
    obtain ⟨u, hu, hb⟩ := exists_parse_token ht
    rw [relayEntry, words_formatRelay_some h.sender ht.noSpace]
    simp only [hu, Option.map_some, lower_of_low h.sender.low]
    refine ⟨_, rfl, fun q hq => ?_⟩
    split at hq
    · cases hq
      exact ⟨rfl, fun v hv => by cases hv; exact hb⟩
    · cases hq

end

section
variable {d d' : Dict Str Target}

theorem textLines_relayLines (h : ∀ p ∈ d.items, IsRelay p) :
    textLines (managed (relayLines d)) = relayLines d := by
  rw [textLines_managed]
  refine flatMap_textLines fun l hl => ?_
  obtain ⟨p, hp, rfl⟩ := List.mem_map.mp hl
  exact isLine_formatRelay (h p (Dict.mem_sortedItems.mp hp))

/-- A written relay map is read back. -/
theorem get?_relaysOf_written (h : ∀ p ∈ d.items, IsRelay p ∧ Plain p.2) :
    ∃ d', relaysOf (textLines (managed (relayLines d))) = some d' ∧ ∀ k, d'.get? k = d.get? k := by
  have hm : (relayLines d).mapM relayEntry = some (d.sortedItems.map some) := by
    rw [relayLines, List.mapM_map, mapM_eq_filterMap fun p hp => ⟨some p, ?_⟩]
    · congr 1
      refine List.filterMap_eq_map_iff_forall_eq_some.mpr fun p hp => ?_
      have hp := h p (Dict.mem_sortedItems.mp hp)
      exact relayEntry_format_of_plain hp.1 hp.2
    · have hp := h p (Dict.mem_sortedItems.mp hp)
      exact relayEntry_format_of_plain hp.1 hp.2
  refine ⟨Dict.ofPairs d.sortedItems, ?_, d.get?_ofPairs_sortedItems⟩
  rw [textLines_relayLines fun p hp => (h p hp).1, relaysOf_eq, hm, Option.map_some,
    List.filterMap_map]
  simp

/-- No host that is read of a written map holds a `]`, and there are no more
senders than were written. -/
theorem plain_of_written (h : ∀ p ∈ d.items, IsRelay p)
    (hd : relaysOf (textLines (managed (relayLines d))) = some d') {k : Str} {target : Target}
    (hk : d'.get? k = some target) : k ∈ d.keys ∧ Plain target := by
  rw [textLines_relayLines h] at hd
  obtain ⟨l, hl, hle⟩ := exists_line_of_mem hd (Dict.mem_items.mpr hk)
  obtain ⟨p, hp, rfl⟩ := List.mem_map.mp hl
  have hp := Dict.mem_sortedItems.mp hp
  obtain ⟨e, he, hall⟩ := exists_relayEntry_format (h p hp)
  rw [hle, Option.some.injEq] at he
  subst he
  obtain ⟨hq, hplain⟩ := hall (k, target) rfl
  exact ⟨List.mem_map.mpr ⟨p, hp, hq.symm⟩, hplain⟩

end

/-! ## Written credentials -/

section
variable {p : Str × (Str × Str)}

theorem isLine_formatCred (h : IsCred p) :
    IsLine (formatCred p) ∧ (formatCred p).head? ≠ some '#' := by
  have hl : IsLine (p.2.1 ++ ':' :: p.2.2) :=
    isLine_formatPair (by decide) h.user.1 h.user.2 h.password.1 h.password.2
  have e : formatCred p = p.1 ++ '\t' :: (p.2.1 ++ ':' :: p.2.2) := by simp [formatCred]
  rw [e]
  exact isLine_address h.sender hl.trim hl.oneLine hl.ne

/-- What stands behind the username does not matter for the username. -/
theorem credEntry_append {k u : Str} (hk : IsAddress k) (hu : Trim u) (hne : u ≠ [])
    (hc : ':' ∉ u) (r : Str) :
    credEntry (k ++ '\t' :: (u ++ ':' :: r)) = some (k, u, strip r) := by
  have hh : ∀ c, (u ++ ':' :: r).head? = some c → isSpace c = false := by
    intro c hc
    rw [List.head?_append_of_ne_nil _ hne] at hc
    exact hu c (.inl hc)
  rw [credEntry, split1_word (by decide) hk.noSpace hk.ne (by simp) hh]
  simp only [before_append _ hc, after_append _ hc, strip_eq_self hu, lower_of_low hk.low]

theorem credEntry_format (h : IsCred p) (hne : p.2.1 ≠ []) : credEntry (formatCred p) = some p := by
  have e : formatCred p = p.1 ++ '\t' :: (p.2.1 ++ ':' :: p.2.2) := by simp [formatCred]
  rw [e, credEntry_append h.sender h.user.1 hne h.noColon, strip_eq_self h.password.1]

/-- What the text of an entry is read as. -/
def credEntries (text : Str) : List (Str × (Str × Str)) := (textLines text).filterMap credEntry

theorem credEntries_format (h : IsCred p) (hne : p.2.1 ≠ []) : credEntries (formatCred p) = [p] := by
  obtain ⟨hl, hh⟩ := isLine_formatCred h
  rw [credEntries, textLines_of_isLine hl hh, List.filterMap_cons_some (credEntry_format h hne),
    List.filterMap_nil]

end

/-- The credentials that are written. -/
def usable (creds : Dict Str (Str × Str)) : Dict Str (Str × Str) :=
  creds.filterVal fun login => login.1 ≠ []

theorem saslLines_eq (creds : Dict Str (Str × Str)) :
    saslLines creds = (usable creds).sortedItems.map formatCred := by
  rw [usable, Dict.sortedItems_filterVal]
  rfl

/-- A written file is read entry by entry. -/
theorem credsOf_written (creds : Dict Str (Str × Str)) :
    credsOf (textLines (managed (saslLines creds))) =
      Dict.ofPairs ((usable creds).sortedItems.flatMap fun p => credEntries (formatCred p)) := by
  rw [credsOf_eq, textLines_managed, saslLines_eq, List.flatMap_map, List.filterMap_flatMap]
  rfl

theorem flatMap_credEntries {ps : List (Str × (Str × Str))} (h : ∀ p ∈ ps, IsCred p ∧ p.2.1 ≠ []) :
    (ps.flatMap fun p => credEntries (formatCred p)) = ps := by
  induction ps with
  | nil => rfl
  | cons p ps ih =>
    obtain ⟨hp, hps⟩ := List.forall_mem_cons.mp h
    rw [List.flatMap_cons, credEntries_format hp.1 hp.2, ih hps, List.singleton_append]

theorem mem_usable {creds : Dict Str (Str × Str)} {p : Str × (Str × Str)} :
    p ∈ (usable creds).items ↔ p ∈ creds.items ∧ p.2.1 ≠ [] := by
  simp [usable, Dict.filterVal]

/-- Credentials are read back, less those without a username. -/
theorem get?_credsOf_written {creds : Dict Str (Str × Str)} (h : ∀ p ∈ creds.items, IsCred p)
    (k : Str) :
    (credsOf (textLines (managed (saslLines creds)))).get? k = (usable creds).get? k := by
  rw [credsOf_written, flatMap_credEntries fun p hp => ?_, Dict.get?_ofPairs_sortedItems]
  obtain ⟨hp, hne⟩ := mem_usable.mp (Dict.mem_sortedItems.mp hp)
  exact ⟨h p hp, hne⟩

/-! ## A password of several lines -/

/-- What stands behind the first boundary. -/
def afterBreak (text : Str) : Str := (text.dropWhile fun c => !isBreak c).tail

/-- The credentials that a password adds: those in the text behind its first
boundary. -/
def injected (password : Str) : Dict Str (Str × Str) := credsOf (textLines (afterBreak password))

theorem afterBreak_append {p : Str} {c : Char} (hp : OneLine p) (hc : isBreak c = true) (q : Str) :
    afterBreak (p ++ c :: q) = q := by
  rw [afterBreak, List.dropWhile_append_of_pos fun d hd => by simp [hp d hd],
    List.dropWhile_cons_of_neg (by simp [hc])]
  rfl

theorem afterBreak_oneLine {p : Str} (hp : OneLine p) : afterBreak p = [] := by
  rw [afterBreak, List.dropWhile_eq_nil_iff.mpr fun d hd => by simp [hp d hd]]
  rfl

section
variable {k u : Str}

theorem credEntries_oneLine (hk : IsAddress k) (hu : Trim u) (hu' : OneLine u) (hne : u ≠ [])
    (hc : ':' ∉ u) {p : Str} (hp : OneLine p) :
    credEntries (k ++ '\t' :: (u ++ ':' :: p)) = [(k, u, strip (rstrip p))] := by
  have ho : OneLine (k ++ '\t' :: (u ++ ':' :: p)) := by
    have e : k ++ '\t' :: (u ++ ':' :: p) = k ++ ['\t'] ++ u ++ [':'] ++ p := by simp
    rw [e]
    exact (((hk.noSpace.oneLine.append (by decide)).append hu').append (by decide)).append hp
  have hs : strip (k ++ '\t' :: (u ++ ':' :: p)) = k ++ '\t' :: (u ++ ':' :: rstrip p) := by
    have e : k ++ '\t' :: (u ++ ':' :: p) = (k ++ '\t' :: u) ++ ':' :: p := by simp
    rw [e, strip_append_cons _ _ (by decide), lstrip_word hk.noSpace hk.ne]
    simp
  rw [credEntries, textLines_line ho (headed_append hk.noSpace hk.ne hk.head _), hs,
    List.filterMap_cons_some (credEntry_append hk hu hne hc _), List.filterMap_nil]

/-- An entry with any password is read as one of its sender and username, and
whatever the password adds. -/
theorem credEntries_password (hk : IsAddress k) (hu : Trim u) (hu' : OneLine u) (hne : u ≠ [])
    (hc : ':' ∉ u) (password : Str) :
    ∃ w, credEntries (formatCred (k, u, password)) =
      (k, u, w) :: credEntries (afterBreak password) := by
  have e (p : Str) : formatCred (k, u, p) = k ++ '\t' :: (u ++ ':' :: p) := by simp [formatCred]
  by_cases hp : OneLine password
  · refine ⟨strip (rstrip password), ?_⟩
    rw [e, credEntries_oneLine hk hu hu' hne hc hp, afterBreak_oneLine hp]
    rfl
  · obtain ⟨p, c, q, rfl, ho, hb⟩ := exists_break hp
    have e' : formatCred (k, u, p ++ c :: q) = formatCred (k, u, p) ++ c :: q := by simp [formatCred]
    have hone := credEntries_oneLine hk hu hu' hne hc ho
    refine ⟨strip (rstrip p), ?_⟩
    rw [credEntries, e', textLines_break hb, List.filterMap_append, afterBreak_append ho hb]
    rw [credEntries, ← e] at hone
    rw [hone]
    rfl

end

/-- What is read of credentials that were written with a new entry: behind the
entries before its own come those that its password adds, and then the entries
of the later senders. -/
theorem get?_credsOf_password {creds : Dict Str (Str × Str)} (h : ∀ p ∈ creds.items, IsCred p)
    {k u : Str} (hk : IsAddress k) (hu : Trim u) (hu' : OneLine u) (hne : u ≠ []) (hc : ':' ∉ u)
    (password : Str) :
    ∃ w, ∀ x, (credsOf (textLines (managed (saslLines (creds.set k (u, password)))))).get? x =
      if k < x then ((usable creds).get? x).or ((injected password).get? x)
      else ((injected password).get? x).or
        (if x = k then some (u, w) else (usable creds).get? x) := by
  have hset (x : Str) : (usable (creds.set k (u, password))).get? x =
      if x = k then some (u, password) else (usable creds).get? x := by
    rw [usable, Dict.get?_filterVal, Dict.get?_set, usable, Dict.get?_filterVal]
    split
    · simp [hne]
    · rfl
  obtain ⟨L₁, L₂, e, h₁, h₂⟩ := Dict.sortedItems_split ((hset k).trans (if_pos rfl))
  obtain ⟨w, hw⟩ := credEntries_password hk hu hu' hne hc password
  have hgood (p : Str × (Str × Str)) (hp : p ∈ L₁ ++ L₂) (hpk : p.1 ≠ k) : IsCred p ∧ p.2.1 ≠ [] := by
    have hm : p ∈ (usable (creds.set k (u, password))).sortedItems := by
      rw [e]
      rcases List.mem_append.mp hp with hp | hp
      · exact List.mem_append_left _ hp
      · exact List.mem_append_right _ (List.mem_cons_of_mem _ hp)
    obtain ⟨hm, hu⟩ := mem_usable.mp (Dict.mem_sortedItems.mp hm)
    have hg := Dict.mem_items.mp hm
    rw [Dict.get?_set, if_neg hpk] at hg
    exact ⟨h p (Dict.mem_items.mpr hg), hu⟩
  have hn := (usable (creds.set k (u, password))).nodup_sortedItems
  rw [e, List.map_append, List.map_cons] at hn
  obtain ⟨-, hn₂, hdis⟩ := List.nodup_append.mp hn
  have hg₁ : ∀ p ∈ L₁, IsCred p ∧ p.2.1 ≠ [] := fun p hp => hgood p (List.mem_append_left _ hp)
    (hdis _ (List.mem_map_of_mem hp) _ List.mem_cons_self)
  have hg₂ : ∀ p ∈ L₂, IsCred p ∧ p.2.1 ≠ [] := fun p hp => hgood p (List.mem_append_right _ hp)
    fun e => (List.nodup_cons.mp hn₂).1 (List.mem_map.mpr ⟨p, hp, e⟩)
  have hinj : injected password = Dict.ofPairs (credEntries (afterBreak password)) := credsOf_eq _
  have hone (x : Str) : (Dict.ofPairs [(k, u, w)]).get? x = if x = k then some (u, w) else none := by
    rw [show Dict.ofPairs [(k, u, w)] = Dict.empty.set k (u, w) from rfl, Dict.get?_set,
      Dict.get?_empty]
  refine ⟨w, fun x => ?_⟩
  rw [credsOf_written, e, List.flatMap_append, List.flatMap_cons, hw, flatMap_credEntries hg₁,
    flatMap_credEntries hg₂, ← List.append_assoc, Dict.get?_ofPairs_append,
    Dict.get?_ofPairs_append, h₁, h₂, ← List.singleton_append, Dict.get?_ofPairs_append,
    hone, ← hinj, hset]
  rcases lt_trichotomy x k with hx | rfl | hx
  · rw [if_neg hx.not_gt, if_neg hx.not_gt, if_neg hx.ne, if_pos hx, if_neg hx.ne, if_neg hx.ne]
    simp
  · simp
  · rw [if_pos hx, if_pos hx, if_neg hx.ne', if_neg hx.ne', if_neg hx.not_gt]
    cases (usable creds).get? x <;> simp

end MailserverUi.L1.Relays

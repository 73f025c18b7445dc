import MailserverUi.Core.LTS
import MailserverUi.L3Service.ConfigBodies

/-!
# The file editors of the UI

Four pages edit one text at a time: `Ldap`, `Sieve` and `Spam` the file of a
scope, `Mailboxes` the Sieve filter of an address. Choosing another selection
sends a request for its content while earlier loads, saves and removals may still
be in flight, and an answer is shown whichever selection is open by then.

A draft carries what it has been made from: the content of a file, as loaded or
as saved, and what the operator has typed in one turn, a turn being what passes
between two choices. `Draft.Of` says that this is the file of one selection and
its turn only.

Results:
* `inOrder_own`: a save that starts while no load of the open selection is pending
  sends a draft of that selection, in every run whose answers are in order.
* `not_faithful_of_disorder`: any other answer can be followed by a save that does
  not.
* `overtaken`: on each page an answer can be out of order.
-/
namespace MailserverUi.L5.Editors

open Py L3.ConfigBodies

/-! ## The text and what it has been made from -/

inductive Source (K : Type) where
  | file (k : K)
  | typed (turn : Nat)
  deriving DecidableEq

/-- The text in the `content` signal, with its sources. -/
structure Draft (K : Type) where
  value : Str
  sources : List (Source K)
  deriving DecidableEq

section
variable {K : Type}

def Draft.empty : Draft K := ⟨[], []⟩

def Draft.ofFile (k : K) (value : Str) : Draft K := ⟨value, [.file k]⟩

/-- The value of the text area after an edit: any text, made from what was there. -/
def Draft.edit (d : Draft K) (turn : Nat) (value : Str) : Draft K :=
  ⟨value, .typed turn :: d.sources⟩

/-- Made from the file of `k` and from what was typed in this turn. -/
def Draft.Of (d : Draft K) (k : K) (turn : Nat) : Prop :=
  ∀ x ∈ d.sources, x = .file k ∨ x = .typed turn

instance [DecidableEq K] (d : Draft K) (k : K) (turn : Nat) : Decidable (d.Of k turn) :=
  inferInstanceAs (Decidable (∀ x ∈ d.sources, _))

theorem Draft.of_ofFile {k j : K} {value : Str} {turn : Nat} :
    (Draft.ofFile k value).Of j turn ↔ k = j := by
  simp [Draft.Of, Draft.ofFile]

theorem Draft.Of.edit {d : Draft K} {k : K} {turn : Nat} (h : d.Of k turn) (value : Str) :
    (d.edit turn value).Of k turn := by
  intro x hx
  rcases List.mem_cons.mp hx with rfl | hx
  · exact .inr rfl
  · exact h x hx

end

/-! ## The pages -/

/-- What the server answers. Only `LdapConfig` and a mailbox's script say whether
the file is there. -/
structure Answer where
  content : Str
  configured : Bool
  deriving DecidableEq

/-- `selected` is `scope()`, or `managingEmail()`, and `turn` counts the choices.
The requests in flight are those of `loads`, `saves` and `removals`. -/
structure Page (K : Type) where
  selected : Option K
  turn : Nat
  content : Draft K
  configured : Bool
  loading : Bool
  saving : Bool
  removing : Bool
  loads : List K
  saves : List (K × Draft K)
  removals : List K

/-- `deleted` is the answer to `onDelete`, whose request is not tracked. -/
inductive Event (K : Type) where
  | choose (k : K)
  | input (value : Str)
  | save
  | remove
  | loaded (k : K) (answer : Answer)
  | loadFailed (k : K)
  | saved (r : K × Draft K) (answer : Answer)
  | saveFailed (r : K × Draft K)
  | removed (k : K)
  | removeFailed (k : K)
  | deleted (k : K)

/-- The page of a scope, or the panel of a mailbox. -/
inductive Kind where
  | byScope
  | byAddress
  deriving DecidableEq

section
variable {K : Type} [DecidableEq K]

namespace Page

/-- `load` up to its `await`. -/
def load (s : Page K) (k : K) : Page K :=
  { s with loading := true, loads := k :: s.loads }

def open_ (s : Page K) (k : K) : Page K := { s with selected := some k, turn := s.turn + 1 }

/-- The text stays until the answer.
mirrors frontend/src/app/features/mailserver/ldap/ldap.ts:85-88,102-109,
sieve/sieve.ts:27-30,39-46 and spam/spam.ts:79-82,94-101 -/
def setScope (s : Page K) (k : K) : Page K :=
  if s.selected = some k then s else (s.open_ k).load k

/-- mirrors frontend/src/app/features/mailboxes/mailboxes.ts:278-283 -/
def loadSieve (s : Page K) (k : K) : Page K :=
  { s with content := .empty, configured := false }.load k

/-- mirrors frontend/src/app/features/mailboxes/mailboxes.ts:147-162 -/
def toggleManage (s : Page K) (k : K) : Page K :=
  if s.selected = some k then { s with selected := none } else (s.open_ k).loadSieve k

/-- mirrors frontend/src/app/features/mailserver/ldap/ldap.ts:111-113 and
mailboxes/mailboxes.ts:293-295 -/
def onContent (s : Page K) (value : Str) : Page K :=
  { s with content := s.content.edit s.turn value }

/-- `onSave` and `onSaveSieve` up to their `await`.
mirrors frontend/src/app/features/mailserver/ldap/ldap.ts:115-120 and
mailboxes/mailboxes.ts:297-306 -/
def onSave (s : Page K) : Page K :=
  match s.selected with
  | none => s
  | some k => { s with saving := true, saves := (k, s.content) :: s.saves }

/-- mirrors frontend/src/app/features/mailboxes/mailboxes.ts:321-330 -/
def onRemoveSieve (s : Page K) : Page K :=
  match s.selected with
  | none => s
  | some k => { s with removing := true, removals := k :: s.removals }

/-- The answer for `k` is shown, whichever selection is open. -/
def receive (s : Page K) (k : K) (answer : Answer) : Page K :=
  { s with content := .ofFile k answer.content, configured := answer.configured }

/-- `onDelete`, once the mailbox is gone.
mirrors frontend/src/app/features/mailboxes/mailboxes.ts:351-354 -/
def onDelete (s : Page K) (k : K) : Page K :=
  if s.selected = some k then { s with selected := none } else s

/-- The `finally` of a load. -/
def endLoad (s : Page K) (k : K) : Page K := { s with loading := false, loads := s.loads.erase k }

def endSave (s : Page K) (r : K × Draft K) : Page K :=
  { s with saving := false, saves := s.saves.erase r }

def endRemove (s : Page K) (k : K) : Page K :=
  { s with removing := false, removals := s.removals.erase k }

/-- The text area and its buttons are on the page.
mirrors frontend/src/app/features/mailserver/ldap/ldap.html:42-68 and
mailboxes/mailboxes.html:144,313-319 -/
def Shown (s : Page K) : Prop := s.selected ≠ none ∧ s.loading = false

/-- The buttons are enabled.
mirrors frontend/src/app/features/mailserver/ldap/ldap.html:78 and
mailboxes/mailboxes.html:334,345 -/
def Idle (s : Page K) : Prop := s.saving = false ∧ s.removing = false

instance (s : Page K) : Decidable s.Shown := inferInstanceAs (Decidable (_ ∧ _))

instance (s : Page K) : Decidable s.Idle := inferInstanceAs (Decidable (_ ∧ _))

def Enabled (kind : Kind) (s : Page K) : Event K → Prop
  | .choose _ => True
  | .input _ => s.Shown
  | .save => s.Shown ∧ s.Idle
  | .remove => kind = .byAddress ∧ s.Shown ∧ s.Idle ∧ s.configured = true
  | .loaded k _ | .loadFailed k => k ∈ s.loads
  | .saved r _ | .saveFailed r => r ∈ s.saves
  | .removed k | .removeFailed k => k ∈ s.removals
  | .deleted _ => kind = .byAddress

instance (kind : Kind) (s : Page K) (e : Event K) : Decidable (s.Enabled kind e) := by
  unfold Enabled
  split <;> infer_instance

/-- mirrors frontend/src/app/features/mailserver/ldap/ldap.ts:88-100,119-133 and
mailboxes/mailboxes.ts:282-290,305-318,329-338 -/
def effect (kind : Kind) (s : Page K) : Event K → Page K
  | .choose k =>
    match kind with
    | .byScope => s.setScope k
    | .byAddress => s.toggleManage k
  | .input value => s.onContent value
  | .save => s.onSave
  | .remove => s.onRemoveSieve
  | .loaded k answer => (s.receive k answer).endLoad k
  | .loadFailed k => s.endLoad k
  | .saved r answer => (s.receive r.1 answer).endSave r
  | .saveFailed r => s.endSave r
  | .removed k => (s.receive k ⟨[], false⟩).endRemove k
  | .removeFailed k => s.endRemove k
  | .deleted k => s.onDelete k

def next (kind : Kind) (s : Page K) (e : Event K) : Option (Page K) :=
  if s.Enabled kind e then some (s.effect kind e) else none

theorem next_eq {kind : Kind} {s s' : Page K} {e : Event K} :
    next kind s e = some s' ↔ s.Enabled kind e ∧ s' = s.effect kind e := by
  rw [next, Option.ite_none_right_eq_some, Option.some.injEq, eq_comm (b := s')]

/-- Nothing is open, and nothing in flight. -/
def closed : Page K := ⟨none, 0, .empty, false, false, false, false, [], [], []⟩

/-- What the constructor of a page of scopes leaves. -/
def opened (k : K) : Page K := (closed.open_ k).load k

end Page

/-- A page of scopes, which opens on one of them. -/
def byScope (k : K) : LTS (Page K) (Event K) := LTS.ofFn (· = Page.opened k) (Page.next .byScope)

def byAddress : LTS (Page K) (Event K) := LTS.ofFn (· = Page.closed) (Page.next .byAddress)

end

/-- mirrors frontend/src/app/features/mailserver/ldap/ldap.ts:62,81-83 -/
def ldap : LTS (Page LdapScope) (Event LdapScope) := byScope .users

/-- mirrors frontend/src/app/features/mailserver/sieve/sieve.ts:16,23-25 -/
def sieve : LTS (Page SieveScope) (Event SieveScope) := byScope .before

/-- mirrors frontend/src/app/features/mailserver/spam/spam.ts:60,75-77 -/
def spam : LTS (Page SpamConfigScope) (Event SpamConfigScope) := byScope .rules

/-- The personal filters, by address.
mirrors frontend/src/app/features/mailboxes/mailboxes.ts:46,74-78 -/
def mailboxes : LTS (Page Str) (Event Str) := byAddress

/-! ## What a run keeps -/

/-- On every save, a draft of the open selection is sent for it, unless a load of
it is pending. -/
def Faithful {K : Type} (M : LTS (Page K) (Event K)) : Prop :=
  ∀ s s', M.Reachable s → M.step s .save s' →
    ∃ k, s.selected = some k ∧ s'.saves = (k, s.content) :: s.saves ∧
      (k ∉ s.loads → s.content.Of k s.turn)

section
variable {K : Type}

/-- What is shown for `k` is the open selection's, or its load will replace it. -/
def Passing (s : Page K) (k : K) : Prop := ∀ j ∈ s.selected, k = j ∨ j ∈ s.loads

/-- The draft is of the open selection, or a load of it is pending. -/
def Kept (s : Page K) : Prop := ∀ k ∈ s.selected, k ∈ s.loads ∨ s.content.Of k s.turn

namespace Page

/-- What a request in flight leaves of the page. -/
theorem onSave_fields (s : Page K) : s.onSave.selected = s.selected ∧ s.onSave.turn = s.turn ∧
    s.onSave.content = s.content ∧ s.onSave.loading = s.loading ∧ s.onSave.loads = s.loads := by
  unfold onSave
  split <;> exact ⟨rfl, rfl, rfl, rfl, rfl⟩

theorem onRemoveSieve_fields (s : Page K) : s.onRemoveSieve.selected = s.selected ∧
    s.onRemoveSieve.turn = s.turn ∧ s.onRemoveSieve.content = s.content ∧
    s.onRemoveSieve.loading = s.loading ∧ s.onRemoveSieve.loads = s.loads := by
  unfold onRemoveSieve
  split <;> exact ⟨rfl, rfl, rfl, rfl, rfl⟩

theorem kept_receive {s : Page K} {k : K} (hp : Passing s k) (answer : Answer) :
    Kept (s.receive k answer) := by
  intro j hj
  rcases hp j hj with rfl | hl
  · exact .inr (Draft.of_ofFile.mpr rfl)
  · exact .inl hl

end Page

end

section
variable {K : Type} [DecidableEq K]

/-- An answer of another selection comes while a load of the open one is pending. A
load of the open selection fails while another is pending, or where the draft on
the page is of this selection already. -/
def InOrder (s : Page K) : Event K → Prop
  | .loaded k _ | .removed k => Passing s k
  | .saved r _ => Passing s r.1
  | .loadFailed k => ∀ j ∈ s.selected, k = j → j ∈ s.loads.erase k ∨ s.content.Of j s.turn
  | _ => True

instance (s : Page K) (e : Event K) : Decidable (InOrder s e) := by
  unfold InOrder Passing
  split <;> infer_instance

namespace Page

theorem setScope_kept {s : Page K} (h : Kept s) (k : K) : Kept (s.setScope k) := by
  unfold setScope
  split
  · exact h
  · intro j hj
    cases hj
    exact .inl List.mem_cons_self

theorem toggleManage_kept (s : Page K) (k : K) : Kept (s.toggleManage k) := by
  unfold toggleManage
  split
  · intro j hj
    cases hj
  · intro j hj
    cases hj
    exact .inl List.mem_cons_self

end Page

/-- One event. -/
theorem kept_next {kind : Kind} {s s' : Page K} {e : Event K} (h : Kept s) (ho : InOrder s e)
    (hs : Page.next kind s e = some s') : Kept s' := by
  obtain ⟨-, rfl⟩ := Page.next_eq.mp hs
  cases e with
  | choose k =>
    cases kind with
    | byScope => exact Page.setScope_kept h k
    | byAddress => exact Page.toggleManage_kept s k
  | input value => exact fun j hj => (h j hj).imp_right fun hd => hd.edit value
  | save =>
    obtain ⟨hk, ht, hc, -, hl⟩ := s.onSave_fields
    unfold Kept
    simp only [Page.effect, hk, ht, hc, hl]
    exact h
  | remove =>
    obtain ⟨hk, ht, hc, -, hl⟩ := s.onRemoveSieve_fields
    unfold Kept
    simp only [Page.effect, hk, ht, hc, hl]
    exact h
  | loaded k answer =>
    intro j hj
    rcases ho j hj with rfl | hl
    · exact .inr (Draft.of_ofFile.mpr rfl)
    · by_cases hkj : k = j
      · exact .inr (Draft.of_ofFile.mpr hkj)
      · exact .inl ((List.mem_erase_of_ne (Ne.symm hkj)).mpr hl)
  | loadFailed k =>
    intro j hj
    by_cases hkj : k = j
    · exact ho j hj hkj
    · exact (h j hj).imp_left (List.mem_erase_of_ne (Ne.symm hkj)).mpr
  | saved r answer => exact Page.kept_receive ho answer
  | removed k => exact Page.kept_receive ho _
  | saveFailed r => exact h
  | removeFailed k => exact h
  | deleted k =>
    change Kept (s.onDelete k)
    unfold Page.onDelete
    split
    · intro j hj
      cases hj
    · exact h

/-- Either kind of page, from where it starts. -/
structure Pages (kind : Kind) (M : LTS (Page K) (Event K)) : Prop where
  init : ∀ s, M.init s → s = Page.closed ∨ ∃ k, s = Page.opened k
  step : ∀ s e s', M.step s e s' ↔ Page.next kind s e = some s'

theorem pages_byScope (k : K) : Pages .byScope (byScope k) :=
  ⟨fun _ h => .inr ⟨k, h⟩, fun _ _ _ => .rfl⟩

theorem pages_byAddress : Pages .byAddress (byAddress (K := K)) :=
  ⟨fun _ h => .inl h, fun _ _ _ => .rfl⟩

variable {kind : Kind} {M : LTS (Page K) (Event K)}

theorem Pages.kept (hM : Pages kind M) : (M.guard InOrder).Inductive Kept where
  init s h := by
    rcases hM.init s h with rfl | ⟨k, rfl⟩
    · intro j hj
      cases hj
    · intro j hj
      cases hj
      exact .inl List.mem_cons_self
  step s e s' hs h := kept_next hs h.1 ((hM.step s e s').mp h.2)

theorem next_save {s s' : Page K} (h : Page.next kind s .save = some s') :
    s.Shown ∧ ∃ k, s.selected = some k ∧
      s' = { s with saving := true, saves := (k, s.content) :: s.saves } := by
  obtain ⟨⟨hshown, -⟩, rfl⟩ := Page.next_eq.mp h
  obtain ⟨k, hk⟩ := Option.ne_none_iff_exists'.mp hshown.1
  refine ⟨hshown, k, hk, ?_⟩
  change s.onSave = _
  rw [Page.onSave, hk]

theorem Pages.faithful (hM : Pages kind M) : Faithful (M.guard InOrder) := by
  intro s s' hr hs
  obtain ⟨-, k, hk, rfl⟩ := next_save ((hM.step s .save s').mp hs.2)
  exact ⟨k, hk, rfl, (hM.kept.reachable s hr k hk).resolve_left⟩

end

inductive PageName where
  | ldap
  | sieve
  | spam
  | mailboxes
  deriving DecidableEq

abbrev PageName.Key : PageName → Type
  | .ldap => LdapScope
  | .sieve => SieveScope
  | .spam => SpamConfigScope
  | .mailboxes => Str

instance : (p : PageName) → DecidableEq p.Key
  | .ldap => inferInstanceAs (DecidableEq LdapScope)
  | .sieve => inferInstanceAs (DecidableEq SieveScope)
  | .spam => inferInstanceAs (DecidableEq SpamConfigScope)
  | .mailboxes => inferInstanceAs (DecidableEq Str)

def PageName.page : (p : PageName) → LTS (Page p.Key) (Event p.Key)
  | .ldap => Editors.ldap
  | .sieve => Editors.sieve
  | .spam => Editors.spam
  | .mailboxes => Editors.mailboxes

/-- **A save sends a draft of the open selection**, on every page and in every run
whose answers are in order, unless a load of the selection is pending. -/
theorem inOrder_own (p : PageName) (s s' : Page p.Key) (hr : (p.page.guard InOrder).Reachable s)
    (hs : (p.page.guard InOrder).step s .save s') :
    ∃ k, s.selected = some k ∧ s'.saves = (k, s.content) :: s.saves ∧
      (k ∉ s.loads → s.content.Of k s.turn) := by
  cases p with
  | ldap => exact (pages_byScope LdapScope.users).faithful s s' hr hs
  | sieve => exact (pages_byScope SieveScope.before).faithful s s' hr hs
  | spam => exact (pages_byScope SpamConfigScope.rules).faithful s s' hr hs
  | mailboxes => exact pages_byAddress.faithful s s' hr hs

/-! ## Any other answer -/

section
variable {K : Type} [DecidableEq K]

/-- A disabled button waits for a request, and a hidden text area for the load of
the open selection. -/
structure Awaited (s : Page K) : Prop where
  loading : s.loading = true → ∀ k ∈ s.selected, k ∈ s.loads
  saving : s.saving = true → s.saves ≠ []
  removing : s.removing = true → s.removals ≠ []

theorem awaited_next {kind : Kind} {s s' : Page K} {e : Event K} (h : Awaited s)
    (hs : Page.next kind s e = some s') : Awaited s' := by
  obtain ⟨-, rfl⟩ := Page.next_eq.mp hs
  obtain ⟨hl, hsv, hrm⟩ := h
  have hfalse {p : Prop} (h : false = true) : p := absurd h Bool.false_ne_true
  cases e with
  | choose k =>
    cases kind with
    | byScope =>
      change Awaited (s.setScope k)
      unfold Page.setScope
      split
      · exact ⟨hl, hsv, hrm⟩
      · refine ⟨fun _ j hj => ?_, hsv, hrm⟩
        cases hj
        exact List.mem_cons_self
    | byAddress =>
      change Awaited (s.toggleManage k)
      unfold Page.toggleManage
      split
      · exact ⟨fun _ j hj => absurd hj (Option.not_mem_none j), hsv, hrm⟩
      · refine ⟨fun _ j hj => ?_, hsv, hrm⟩
        cases hj
        exact List.mem_cons_self
  | input value => exact ⟨hl, hsv, hrm⟩
  | save =>
    change Awaited s.onSave
    unfold Page.onSave
    split
    · exact ⟨hl, hsv, hrm⟩
    · exact ⟨hl, fun _ => List.cons_ne_nil _ _, hrm⟩
  | remove =>
    change Awaited s.onRemoveSieve
    unfold Page.onRemoveSieve
    split
    · exact ⟨hl, hsv, hrm⟩
    · exact ⟨hl, hsv, fun _ => List.cons_ne_nil _ _⟩
  | loaded k answer => exact ⟨hfalse, hsv, hrm⟩
  | loadFailed k => exact ⟨hfalse, hsv, hrm⟩
  | saved r answer => exact ⟨hl, hfalse, hrm⟩
  | saveFailed r => exact ⟨hl, hfalse, hrm⟩
  | removed k => exact ⟨hl, hsv, hfalse⟩
  | removeFailed k => exact ⟨hl, hsv, hfalse⟩
  | deleted k =>
    change Awaited (s.onDelete k)
    unfold Page.onDelete
    split
    · exact ⟨fun _ j hj => absurd hj (Option.not_mem_none j), hsv, hrm⟩
    · exact ⟨hl, hsv, hrm⟩

variable {kind : Kind} {M : LTS (Page K) (Event K)}

theorem Pages.awaited (hM : Pages kind M) : M.Inductive Awaited where
  init s h := by
    rcases hM.init s h with rfl | ⟨k, rfl⟩
    · exact ⟨fun h => absurd h Bool.false_ne_true, fun h => absurd h Bool.false_ne_true,
        fun h => absurd h Bool.false_ne_true⟩
    · refine ⟨fun _ j hj => ?_, fun h => absurd h Bool.false_ne_true,
        fun h => absurd h Bool.false_ne_true⟩
      cases hj
      exact List.mem_cons_self
  step s e s' hs h := awaited_next hs ((hM.step s e s').mp h)

theorem not_kept_next {s s' : Page K} {e : Event K} (ho : ¬ InOrder s e)
    (hs : Page.next kind s e = some s') : ¬ Kept s' := by
  obtain ⟨-, rfl⟩ := Page.next_eq.mp hs
  have hpassing {k : K} {t : Page K} (hp : ¬ Passing s k) (hsel : t.selected = s.selected)
      (hloads : ∀ j, j ∈ t.loads → j ∈ s.loads) (hc : ∃ value, t.content = .ofFile k value) :
      ¬ Kept t := by
    intro hk
    refine hp fun j hj => ?_
    obtain ⟨value, hc⟩ := hc
    rcases hk j (hsel ▸ hj) with hl | hd
    · exact .inr (hloads j hl)
    · rw [hc] at hd
      exact .inl (Draft.of_ofFile.mp hd)
  cases e with
  | loaded k answer => exact hpassing ho rfl (fun _ => List.mem_of_mem_erase) ⟨_, rfl⟩
  | saved r answer => exact hpassing ho rfl (fun _ => id) ⟨_, rfl⟩
  | removed k => exact hpassing ho rfl (fun _ => id) ⟨_, rfl⟩
  | loadFailed k => exact fun hk => ho fun j hj _ => hk j hj
  | _ => exact absurd trivial ho

/-- Whatever is in flight, the buttons can be enabled again. -/
theorem Pages.exists_idle (hM : Pages kind M) {s : Page K} (hr : M.Reachable s) (hk : ¬ Kept s) :
    ∃ s', M.Reachable s' ∧ ¬ Kept s' ∧ s'.Idle := by
  have hsaved : ∃ t, M.Reachable t ∧ ¬ Kept t ∧ t.saving = false := by
    cases hsv : s.saving with
    | false => exact ⟨s, hr, hk, hsv⟩
    | true =>
      obtain ⟨r, hmem⟩ := List.exists_mem_of_ne_nil _ ((hM.awaited.reachable s hr).saving hsv)
      have hstep := (hM.step s (.saveFailed r) _).mpr (Page.next_eq.mpr ⟨hmem, rfl⟩)
      exact ⟨_, hr.next hstep, hk, rfl⟩
  obtain ⟨t, hrt, hkt, hsv⟩ := hsaved
  cases hrm : t.removing with
  | false => exact ⟨t, hrt, hkt, hsv, hrm⟩
  | true =>
    obtain ⟨k, hmem⟩ := List.exists_mem_of_ne_nil _ ((hM.awaited.reachable t hrt).removing hrm)
    have hstep := (hM.step t (.removeFailed k) _).mpr (Page.next_eq.mpr ⟨hmem, rfl⟩)
    exact ⟨_, hrt.next hstep, hkt, hsv, rfl⟩

/-- An answer out of order can be followed by a save that sends, for the open
selection, what is not of it. -/
theorem Pages.not_faithful_of_disorder (hM : Pages kind M) {s s' : Page K} {e : Event K}
    (hr : M.Reachable s) (ho : ¬ InOrder s e) (hs : M.step s e s') : ¬ Faithful M := by
  intro hf
  obtain ⟨t, hrt, hk, hidle⟩ :=
    hM.exists_idle (hr.next hs) (not_kept_next ho ((hM.step s e s').mp hs))
  refine hk fun k hsel => ?_
  by_cases hl : k ∈ t.loads
  · exact .inl hl
  have hloading : t.loading = false := by
    rw [← Bool.not_eq_true]
    exact fun h => hl ((hM.awaited.reachable t hrt).loading h k hsel)
  have hshown : t.Shown := ⟨Option.ne_none_iff_exists'.mpr ⟨k, hsel⟩, hloading⟩
  have hstep := (hM.step t .save _).mpr (Page.next_eq.mpr ⟨⟨hshown, hidle⟩, rfl⟩)
  obtain ⟨j, hj, -, hd⟩ := hf t _ hrt hstep
  cases hj.symm.trans hsel
  exact .inr (hd hl)

/-- The page can save, for `k`, a text that is not of `k`. -/
def Misdirected (kind : Kind) (k : K) (value : Str) (s : Page K) : Bool :=
  s.Enabled kind .save ∧ s.selected = some k ∧ s.loads = [] ∧ s.content.value = value ∧
    ¬ s.content.Of k s.turn

theorem Pages.not_faithful_of_misdirected (hM : Pages kind M) {k : K} {value : Str}
    (h : ∃ s, M.Reachable s ∧ Misdirected kind k value s = true) : ¬ Faithful M := by
  intro hf
  obtain ⟨s, hr, hm⟩ := h
  obtain ⟨henabled, hsel, hl, -, hd⟩ := of_decide_eq_true hm
  have hstep := (hM.step s .save _).mpr (Page.next_eq.mpr ⟨henabled, rfl⟩)
  obtain ⟨j, hj, -, hof⟩ := hf s _ hr hstep
  cases hj.symm.trans hsel
  refine hd (hof ?_)
  rw [hl]
  exact List.not_mem_nil

/-- While the first selection loads the second is chosen, and its answer comes
before the first's. -/
def late (a b : K) : List (Event K) :=
  [.choose b, .loaded b ⟨['y'], true⟩, .loaded a ⟨['x'], true⟩]

theorem misdirected_late {a b : K}
    (h : (LTS.exec (Page.next .byScope) (Page.opened a) (late a b)).any
      (Misdirected .byScope b ['x']) = true) :
    ∃ s, (byScope a).Reachable s ∧ Misdirected .byScope b ['x'] s = true :=
  LTS.reachable_of_exec (I := (· = Page.opened a)) rfl (late a b) _ h

end

/-- On every page, the next save can send the text of one selection for another. -/
theorem overtaken :
    ¬ (Faithful ldap ∧ Faithful sieve ∧ Faithful spam ∧ Faithful mailboxes) ∧
      (∃ s, ldap.Reachable s ∧ Misdirected .byScope .groups ['x'] s = true) ∧
      (∃ s, sieve.Reachable s ∧ Misdirected .byScope .after ['x'] s = true) ∧
      (∃ s, spam.Reachable s ∧ Misdirected .byScope .amavis ['x'] s = true) ∧
      ∃ s, mailboxes.Reachable s ∧ Misdirected .byAddress ['b'] ['x'] s = true := by
  have hldap := misdirected_late (a := LdapScope.users) (b := .groups) (by decide)
  have hsieve := misdirected_late (a := SieveScope.before) (b := .after) (by decide)
  have hspam := misdirected_late (a := SpamConfigScope.rules) (b := .amavis) (by decide)
  have hmailboxes := LTS.reachable_of_exec (I := (· = Page.closed)) (f := Page.next .byAddress)
    rfl (.choose ['a'] :: late ['a'] ['b']) (Misdirected .byAddress ['b'] ['x']) (by decide)
  exact ⟨fun h => (pages_byScope _).not_faithful_of_misdirected hldap h.1, hldap, hsieve, hspam,
    hmailboxes⟩

/-- The first answer comes while the second is awaited, and the draft that is saved
is of the second. -/
theorem inOrder_own_groups : ∃ s s', (ldap.guard InOrder).Reachable s ∧
    (ldap.guard InOrder).step s .save s' ∧ s.selected = some .groups ∧ s.loads = [] ∧
    s.content = ⟨['z'], [.typed 2, .file .groups]⟩ ∧
    ∃ k, s.selected = some k ∧ s'.saves = (k, s.content) :: s.saves ∧
      (k ∉ s.loads → s.content.Of k s.turn) := by
  obtain ⟨s, hr, hp⟩ := LTS.guard_reachable_of_exec (I := (· = Page.opened LdapScope.users))
    (f := Page.next .byScope) (G := InOrder) rfl
    [.choose .groups, .loaded .users ⟨['x'], true⟩, .loaded .groups ⟨['y'], true⟩, .input ['z']]
    (fun s => s.Enabled .byScope .save ∧ s.selected = some .groups ∧ s.loads = [] ∧
      s.content = ⟨['z'], [.typed 2, .file .groups]⟩) (by decide)
  obtain ⟨henabled, hsel, hl, hc⟩ := of_decide_eq_true hp
  have hstep : (ldap.guard InOrder).step s .save _ := ⟨trivial, Page.next_eq.mpr ⟨henabled, rfl⟩⟩
  exact ⟨s, _, hr, hstep, hsel, hl, hc, inOrder_own .ldap s _ hr hstep⟩

end MailserverUi.L5.Editors

import MailserverUi.Core.Dict
import MailserverUi.Core.LTS
import MailserverUi.Core.Text

/-!
# The discovery cache (`oidc.py`)

Every step of an OIDC sign-in needs the provider's discovery document. It is
cached for an hour, by issuer, and the cache is dropped when the issuer in the
settings changes. The fetch is awaited, so that any number of discoveries, cache
resets and answers of providers interleave, and time passes in between:

* `begin`: a discovery reads the clock and looks the issuer up;
* `answer`: the provider answers with what it serves at that moment;
* `resume`: the discovery goes on with the answer, and stores a document.

The clock is that of `begin` also for what `resume` stores, and of two fetches
the one that was begun first may be stored last.

Results:
* `inv_inductive`: a cached document was served by its issuer after the time that
  it is filed under.
* `fresh`: a discovery ends with a document that its issuer served less than an
  hour before the discovery began, or later.
* `older_last`: the cache can go back to an older document.
-/
namespace MailserverUi.L5.Discovery

open Py

variable {ι δ : Type} [DecidableEq ι]

/-- mirrors backend/app/services/oidc.py:30 -/
def discoveryTtl : ℚ := 3600

/-- `config.issuer.rstrip("/")`. -/
def issuerKey (issuer : Str) : Str := issuer.rdropWhile (· = '/')

def wellKnown (key : Str) : Str := key ++ "/.well-known/openid-configuration".toList

/-- What a GET comes back with: a document, another status, or an error on the
way or in the JSON. -/
inductive Answer (δ : Type) where
  | ok (document : δ)
  | status (code : Nat)
  | broken
  deriving DecidableEq, Repr

/-- Where a discovery is. -/
inductive Pc (δ : Type) where
  | idle
  | fetching (key : Str) (begun : ℚ)
  | fetched (key : Str) (begun : ℚ) (answer : Answer δ)
  | done (key : Str) (begun : ℚ) (document : δ)
  | failed
  deriving DecidableEq, Repr

structure St (ι δ : Type) where
  now : ℚ
  cache : Dict Str (ℚ × δ)
  /-- what is served at each URL at present -/
  served : Str → Answer δ
  pc : ι → Pc δ
  /-- ghost: what was answered, where and when -/
  answers : List (Str × ℚ × δ)

inductive Lbl (ι δ : Type) where
  | begin (i : ι) (issuer : Str)
  | answer (i : ι)
  | resume (i : ι)
  | reset
  | publish (url : Str) (answer : Answer δ)
  | wait (seconds : ℚ)

def St.goto (s : St ι δ) (i : ι) (pc : Pc δ) : St ι δ :=
  { s with pc := fun j => if j = i then pc else s.pc j }

/-- The cached document, where there is one that is young enough. -/
def St.cached (s : St ι δ) (key : Str) : Option δ :=
  ((s.cache.get? key).filter fun c => s.now - c.1 < discoveryTtl).map Prod.snd

/-- mirrors backend/app/services/oidc.py:33-53 -/
def step (s : St ι δ) : Lbl ι δ → Option (St ι δ)
  | .begin i issuer =>
    match s.pc i with
    | .idle =>
      match s.cached (issuerKey issuer) with
      | some document => some (s.goto i (.done (issuerKey issuer) s.now document))
      | none => some (s.goto i (.fetching (issuerKey issuer) s.now))
    | _ => none
  | .answer i =>
    match s.pc i with
    | .fetching key begun =>
      let answer := s.served (wellKnown key)
      let answers := match answer with
        | .ok document => (wellKnown key, s.now, document) :: s.answers
        | _ => s.answers
      some ({ s with answers := answers }.goto i (.fetched key begun answer))
    | _ => none
  | .resume i =>
    match s.pc i with
    | .fetched key begun (.ok document) =>
      some ({ s with cache := s.cache.set key (begun, document) }.goto i (.done key begun document))
    | .fetched _ _ _ => some (s.goto i .failed)
    | _ => none
  | .reset => some { s with cache := .empty }
  | .publish url answer =>
    some { s with served := fun u => if u = url then answer else s.served u }
  | .wait seconds => if 0 ≤ seconds then some { s with now := s.now + seconds } else none

/-- The process has just started. -/
structure Start (s : St ι δ) : Prop where
  cache : s.cache = .empty
  pc : ∀ i, s.pc i = .idle
  answers : s.answers = []

def discoveries (ι δ : Type) [DecidableEq ι] : LTS (St ι δ) (Lbl ι δ) := .ofFn Start step

/-- The document was served at the issuer's address at `t` or later. -/
def ServedSince (s : St ι δ) (key : Str) (t : ℚ) (document : δ) : Prop :=
  ∃ m, (wellKnown key, m, document) ∈ s.answers ∧ t ≤ m ∧ m ≤ s.now

/-- The same, after `t`. -/
def ServedAfter (s : St ι δ) (key : Str) (t : ℚ) (document : δ) : Prop :=
  ∃ m, (wellKnown key, m, document) ∈ s.answers ∧ t < m ∧ m ≤ s.now

/-- What is cached or on its way was served since the time it goes by. -/
structure Inv (s : St ι δ) : Prop where
  cached : ∀ key t document, s.cache.get? key = some (t, document) → ServedSince s key t document
  fetching : ∀ i key begun, s.pc i = .fetching key begun → begun ≤ s.now
  fetched : ∀ i key begun document, s.pc i = .fetched key begun (.ok document) →
    ServedSince s key begun document
  done : ∀ i key begun document, s.pc i = .done key begun document →
    ServedAfter s key (begun - discoveryTtl) document

section
variable {s s' : St ι δ} {l : Lbl ι δ} {key : Str} {t : ℚ} {document : δ}

omit [DecidableEq ι] in
theorem ServedSince.mono (h : ServedSince s key t document)
    (ha : ∀ a ∈ s.answers, a ∈ s'.answers) (hn : s.now ≤ s'.now) :
    ServedSince s' key t document := by
  obtain ⟨m, hm, ht, hle⟩ := h
  exact ⟨m, ha _ hm, ht, hle.trans hn⟩

omit [DecidableEq ι] in
theorem ServedAfter.mono (h : ServedAfter s key t document)
    (ha : ∀ a ∈ s.answers, a ∈ s'.answers) (hn : s.now ≤ s'.now) :
    ServedAfter s' key t document := by
  obtain ⟨m, hm, ht, hle⟩ := h
  exact ⟨m, ha _ hm, ht, hle.trans hn⟩

omit [DecidableEq ι] in
/-- Nothing was forgotten, the clock did not go back, and what is new goes by a
time it was served since. -/
theorem Inv.next (h : Inv s) (ha : ∀ a ∈ s.answers, a ∈ s'.answers) (hn : s.now ≤ s'.now)
    (hc : ∀ key t document, s'.cache.get? key = some (t, document) →
      s.cache.get? key = some (t, document) ∨ ServedSince s' key t document)
    (hp : ∀ i, s'.pc i = s.pc i ∨
      (∀ key begun, s'.pc i = .fetching key begun → begun ≤ s'.now) ∧
      (∀ key begun document, s'.pc i = .fetched key begun (.ok document) →
        ServedSince s' key begun document) ∧
      ∀ key begun document, s'.pc i = .done key begun document →
        ServedAfter s' key (begun - discoveryTtl) document) : Inv s' where
  cached key t document hk := by
    rcases hc key t document hk with hk | hk
    · exact (h.cached key t document hk).mono ha hn
    · exact hk
  fetching i key begun hi := by
    rcases hp i with e | hp
    · exact (h.fetching i key begun (e ▸ hi)).trans hn
    · exact hp.1 key begun hi
  fetched i key begun document hi := by
    rcases hp i with e | hp
    · exact (h.fetched i key begun document (e ▸ hi)).mono ha hn
    · exact hp.2.1 key begun document hi
  done i key begun document hi := by
    rcases hp i with e | hp
    · exact (h.done i key begun document (e ▸ hi)).mono ha hn
    · exact hp.2.2 key begun document hi

theorem pc_goto (s : St ι δ) (i j : ι) (pc : Pc δ) :
    (s.goto i pc).pc j = pc ∨ (s.goto i pc).pc j = s.pc j := by
  unfold St.goto
  dsimp only
  split
  · exact .inl rfl
  · exact .inr rfl

theorem inv_step (h : Inv s) (hs : step s l = some s') : Inv s' := by
  cases l with
  | begin i issuer =>
    rw [step] at hs
    split at hs
    · split at hs
      · rename_i document hc
        cases hs
        obtain ⟨⟨t, d⟩, hf, rfl⟩ := Option.map_eq_some_iff.mp hc
        obtain ⟨hget, hyoung⟩ := Option.filter_eq_some_iff.mp hf
        refine h.next (fun _ ha => ha) le_rfl (fun _ _ _ => .inl) fun j => ?_
        refine (pc_goto s i j _).symm.imp id fun e => ⟨fun _ _ e' => ?_, fun _ _ _ e' => ?_,
          fun _ _ _ e' => ?_⟩ <;> cases e.symm.trans e'
        obtain ⟨m, hm, ht, hle⟩ := h.cached _ t d hget
        have := of_decide_eq_true hyoung
        exact ⟨m, hm, by dsimp only at this; linarith, hle⟩
      · cases hs
        refine h.next (fun _ ha => ha) le_rfl (fun _ _ _ => .inl) fun j => ?_
        refine (pc_goto s i j _).symm.imp id fun e => ⟨fun _ _ e' => ?_, fun _ _ _ e' => ?_,
          fun _ _ _ e' => ?_⟩ <;> cases e.symm.trans e'
        exact le_rfl
    · cases hs
  | answer i =>
    rw [step] at hs
    split at hs
    · rename_i key begun hi
      cases hs
      have hb := h.fetching i key begun hi
      refine h.next (fun a ha => ?_) le_rfl (fun _ _ _ => .inl) fun j => ?_
      · show a ∈ (match s.served (wellKnown key) with
          | .ok document => (wellKnown key, s.now, document) :: s.answers
          | _ => s.answers)
        split
        · exact List.mem_cons_of_mem _ ha
        · exact ha
      · refine (pc_goto _ i j _).symm.imp id fun e => ⟨fun _ _ e' => ?_, fun _ _ d e' => ?_,
          fun _ _ _ e' => ?_⟩
        · cases e.symm.trans e'
        · have e'' := e.symm.trans e'
          simp only [Pc.fetched.injEq] at e''
          obtain ⟨rfl, rfl, e''⟩ := e''
          refine ⟨s.now, ?_, hb, le_rfl⟩
          show _ ∈ (match s.served (wellKnown key) with
            | .ok document => (wellKnown key, s.now, document) :: s.answers
            | _ => s.answers)
          rw [e'']
          exact List.mem_cons_self
        · cases e.symm.trans e'
    · cases hs
  | resume i =>
    rw [step] at hs
    split at hs
    · rename_i key begun document hi
      cases hs
      have hsince := h.fetched i key begun document hi
      refine h.next (fun _ ha => ha) le_rfl (fun k t d hk => ?_) fun j => ?_
      · have hk : (s.cache.set key (begun, document)).get? k = some (t, d) := hk
        rw [Dict.get?_set] at hk
        split at hk
        · rename_i e
          cases hk
          exact .inr (e ▸ hsince)
        · exact .inl hk
      · refine (pc_goto _ i j _).symm.imp id fun e => ⟨fun _ _ e' => ?_, fun _ _ _ e' => ?_,
          fun _ _ _ e' => ?_⟩ <;> cases e.symm.trans e'
        obtain ⟨m, hm, ht, hle⟩ := hsince
        exact ⟨m, hm, by unfold discoveryTtl; linarith, hle⟩
    · cases hs
      refine h.next (fun _ ha => ha) le_rfl (fun _ _ _ => .inl) fun j => ?_
      refine (pc_goto s i j _).symm.imp id fun e => ⟨fun _ _ e' => ?_, fun _ _ _ e' => ?_,
        fun _ _ _ e' => ?_⟩ <;> cases e.symm.trans e'
    · cases hs
  | reset =>
    cases hs
    exact h.next (fun _ ha => ha) le_rfl (fun _ _ _ hk => by cases hk) fun _ => .inl rfl
  | publish url answer =>
    cases hs
    exact h.next (fun _ ha => ha) le_rfl (fun _ _ _ => .inl) fun _ => .inl rfl
  | wait seconds =>
    rw [step] at hs
    split at hs
    · rename_i hsec
      cases hs
      exact h.next (fun _ ha => ha) (le_add_of_nonneg_right hsec) (fun _ _ _ => .inl)
        fun _ => .inl rfl
    · cases hs

theorem inv_inductive : (discoveries ι δ).Inductive Inv where
  init s h := by
    refine ⟨fun _ _ _ hk => ?_, fun i _ _ hi => ?_, fun i _ _ _ hi => ?_, fun i _ _ _ hi => ?_⟩
    · rw [h.cache] at hk
      cases hk
    all_goals
      rw [h.pc i] at hi
      cases hi
  step _ _ _ h hs := inv_step h hs

/-- Whatever else runs, is answered or is reset, a discovery ends with a document
that its issuer served less than an hour before the discovery began, or later. -/
theorem fresh (hs : (discoveries ι δ).Reachable s) {i : ι} {begun : ℚ}
    (hi : s.pc i = .done key begun document) :
    ∃ m, (wellKnown key, m, document) ∈ s.answers ∧ begun - 3600 < m ∧ m ≤ s.now :=
  (inv_inductive.reachable s hs).done i key begun document hi

end

/-! ### Two discoveries -/

def issuer : Str := "https://id/".toList

/-- Nothing is cached, and nothing is served yet. -/
def quiet : St Bool Nat := ⟨0, .empty, fun _ => .status 404, fun _ => .idle, []⟩

theorem start_quiet : Start quiet := ⟨rfl, fun _ => rfl, rfl⟩

/-- The second discovery takes what the first one stored, though the provider has
moved on. -/
theorem fresh_cached : ∃ s, (discoveries Bool Nat).Reachable s ∧
    ∃ m, (wellKnown (issuerKey issuer), m, 1) ∈ s.answers ∧ (3599 : ℚ) - 3600 < m ∧ m ≤ s.now := by
  obtain ⟨s, hs, hp⟩ := LTS.reachable_of_exec (f := step) (I := Start) start_quiet
    [.publish (wellKnown (issuerKey issuer)) (.ok 1), .begin false issuer, .answer false,
      .resume false, .publish (wellKnown (issuerKey issuer)) (.ok 2), .wait 3599,
      .begin true issuer]
    (fun s => s.pc true = .done (issuerKey issuer) 3599 1) (by decide +kernel)
  exact ⟨s, hs, fresh hs (of_decide_eq_true hp)⟩

/-- The first discovery is answered first and stores last: the cache is back to
the older document, which the second one has replaced before. -/
theorem older_last : ∃ s, (discoveries Bool Nat).Reachable s ∧
    s.pc true = .done (issuerKey issuer) 1 2 ∧
    s.cache.get? (issuerKey issuer) = some (0, 1) := by
  obtain ⟨s, hs, hp⟩ := LTS.reachable_of_exec (f := step) (I := Start) start_quiet
    [.publish (wellKnown (issuerKey issuer)) (.ok 1), .begin false issuer, .answer false,
      .publish (wellKnown (issuerKey issuer)) (.ok 2), .wait 1, .begin true issuer, .answer true,
      .resume true, .resume false]
    (fun s => s.pc true = .done (issuerKey issuer) 1 2 ∧
      s.cache.get? (issuerKey issuer) = some (0, 1)) (by decide +kernel)
  exact ⟨s, hs, of_decide_eq_true hp⟩

end MailserverUi.L5.Discovery

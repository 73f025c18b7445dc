import MailserverUi.L3Service.Auth

/-!
# The state check of the OIDC callback (`routers/auth.py`)

The cookie that `oidc_login` sets is a token signed like that of a session, and
told apart from it by its claims alone. `compare_digest` is not defined on texts
with other characters than ASCII.

The server relies on `Jose.Sound` and `Jose.Genuine`, and on nobody else having
its key (`Minted`): what it signs are sessions, and states of `token_urlsafe`.

Results:
* `encode_injective`: a token is made of one payload.
* `run_stateCheck`: the verdict, by what the cookie decodes to.
* `correct_iff`: the check decides, and passes for exactly the states it should,
  unless it is reached with a cookie that decodes and a state that is not ASCII.
-/
namespace MailserverUi.L4.OidcState

open Py L3.Auth

/-! ## The flow -/

/-- mirrors backend/app/routers/auth.py:34 -/
def oidcStateTtl : Int := 600

def statePayload (now : Int) (state nonce : Str) : Payload :=
  ⟨none, none, none, none, none, some (now + oidcStateTtl), some state, some nonce⟩

/-- The claims of `{}`. -/
def noClaims : Payload := ⟨none, none, none, none, none, none, none, none⟩

def IsAscii (s : Str) : Prop := ∀ c ∈ s, c.toNat < 128

instance (s : Str) : Decidable (IsAscii s) := List.decidableBAll _ s

/-- `secrets.compare_digest(a, b)`; `none` where it raises. -/
def compareDigest (a b : Str) : Option Bool :=
  if IsAscii a ∧ IsAscii b then some (a = b) else none

/-- The two redirects to the sign-in page, and the exchange of the code. -/
inductive Verdict where
  | oidc
  | state
  | exchange
  deriving DecidableEq, Repr

section
variable {τ : Type} (jose : Jose τ)

/-- mirrors backend/app/routers/auth.py:161-168 -/
def encodeState (now : Int) (state nonce : Str) : τ := jose.encode (statePayload now state nonce)

/-- mirrors backend/app/routers/auth.py:171-178 -/
def decodeState (now : Int) (token : τ) : Option Payload := jose.decode now token

/-- An absent cookie is the empty text, which is no token. `none` stands for an
exception.
mirrors backend/app/routers/auth.py:209-227 -/
def stateCheck (now : Int) (cookie : Option τ) (error code state : Option Str) : Option Verdict :=
  if error.getD [] ≠ [] ∨ code.getD [] = [] ∨ state.getD [] = [] then some .oidc
  else
    match cookie.bind (decodeState jose now) with
    | none => some .state
    | some stored =>
      if stored = noClaims then some .state
      else (compareDigest (stored.state.getD []) (state.getD [])).map fun same =>
        if same then .exchange else .state

/-! ## What is relied on, and what is meant -/

/-- `secrets.token_urlsafe(24)`. -/
def IsUrlsafe (s : Str) : Prop :=
  s.length = 32 ∧ ∀ c ∈ s, c.isAlphanum = true ∨ c = '_' ∨ c = '-'

instance (s : Str) : Decidable (IsUrlsafe s) :=
  haveI := List.decidableBAll (fun c : Char => c.isAlphanum = true ∨ c = '_' ∨ c = '-') s
  inferInstanceAs (Decidable (_ ∧ _))

/-- A cookie that was signed with the server's key was made by
`create_session_token`, or by `oidc_login`. -/
def Minted (cookie : Option τ) : Prop :=
  ∀ p, cookie = some (jose.encode p) →
    (∃ minutes issued user, p = sessionPayload minutes issued user) ∨
      ∃ issued state nonce, IsUrlsafe state ∧ p = statePayload issued state nonce

/-- The cookie is an unexpired token of `_encode_state` for `state`. -/
def Carries (now : Int) (cookie : Option τ) (state : Str) : Prop :=
  ∃ issued nonce, cookie = some (encodeState jose issued state nonce) ∧
    now ≤ issued + oidcStateTtl

/-- The provider reports no error and hands over a code. -/
def Granted (error code : Option Str) : Prop := error.getD [] = [] ∧ code.getD [] ≠ []

/-- The check decides, and right, and neither kind of token is taken for the
other. -/
structure Correct (now : Int) (cookie : Option τ) (error code state : Option Str) : Prop where
  decides : ∃ v, stateCheck jose now cookie error code state = some v ∧
    (v = .exchange ↔ Granted error code ∧ ∃ s, state = some s ∧ Carries jose now cookie s)
  session : ∀ minutes issued user, cookie = some (createSessionToken jose minutes issued user) →
    stateCheck jose now cookie error code state ≠ some .exchange
  noSession : ∀ issued s nonce, decodeSessionToken jose now (encodeState jose issued s nonce) = none

/-- The comparison is reached with a state that it is not defined on. -/
def Trips (now : Int) (cookie : Option τ) (error code state : Option Str) : Prop :=
  Granted error code ∧ (cookie.bind (decodeState jose now)).isSome = true ∧
    ¬ IsAscii (state.getD [])

/-! ## Two kinds of tokens -/

variable {jose}

theorem exists_valid (p q : Payload) : ∃ t, p.Valid t ∧ q.Valid t := by
  refine ⟨min (p.exp.getD 0) (q.exp.getD 0), fun e he => ?_, fun e he => ?_⟩
  · rw [he]
    exact min_le_left e _
  · rw [he]
    exact min_le_right _ e

/-- There is an instant at which both payloads are valid, and decode. -/
theorem encode_injective (hs : jose.Sound) : Function.Injective jose.encode := by
  intro p q h
  obtain ⟨t, hp, hq⟩ := exists_valid p q
  have hdecode := hs p t hp
  rw [h, hs q t hq] at hdecode
  exact (Option.some.inj hdecode).symm

theorem sessionPayload_ne_statePayload (minutes issued : Int) (user : SessionUser)
    (issued' : Int) (state nonce : Str) :
    sessionPayload minutes issued user ≠ statePayload issued' state nonce := fun h => by
  cases congrArg Payload.sub h

theorem decodeSessionToken_encodeState (hs : jose.Sound) (hg : jose.Genuine) (now issued : Int)
    (state nonce : Str) :
    decodeSessionToken jose now (encodeState jose issued state nonce) = none := by
  cases hd : jose.decode now (encodeState jose issued state nonce) with
  | none =>
    rw [decodeSessionToken, hd]
    rfl
  | some p =>
    obtain ⟨he, -⟩ := hg now _ p hd
    obtain rfl := encode_injective hs he
    rw [decodeSessionToken, hd]
    rfl

/-! ## The verdict -/

theorem isAscii_urlsafe {s : Str} (h : IsUrlsafe s) : IsAscii s := by
  intro c hc
  rcases h.2 c hc with ha | rfl | rfl
  · simp only [Char.isAlphanum, Char.isAlpha, Char.isUpper, Char.isLower, Char.isDigit,
      Bool.or_eq_true, Bool.and_eq_true, decide_eq_true_eq, UInt32.le_iff_toNat_le] at ha
    change c.val.toNat < 128
    have hA : 'A'.val.toNat = 65 := rfl
    have hZ : 'Z'.val.toNat = 90 := rfl
    have ha' : 'a'.val.toNat = 97 := rfl
    have hz : 'z'.val.toNat = 122 := rfl
    have h0 : '0'.val.toNat = 48 := rfl
    have h9 : '9'.val.toNat = 57 := rfl
    omega
  · decide
  · decide

/-- What a cookie decodes to, and its state: that of a session is empty. -/
theorem stored_cases (hg : jose.Genuine) {now : Int} {cookie : Option τ}
    (hm : Minted jose cookie) {stored : Payload}
    (hd : cookie.bind (decodeState jose now) = some stored) :
    (∃ minutes issued user, cookie = some (createSessionToken jose minutes issued user) ∧
        stored = sessionPayload minutes issued user) ∨
      ∃ issued state nonce, IsUrlsafe state ∧
        cookie = some (encodeState jose issued state nonce) ∧ now ≤ issued + oidcStateTtl ∧
        stored = statePayload issued state nonce := by
  obtain ⟨token, rfl, hdecode⟩ := Option.bind_eq_some_iff.mp hd
  obtain ⟨rfl, hvalid⟩ := hg now token stored hdecode
  rcases hm stored rfl with ⟨minutes, issued, user, rfl⟩ | ⟨issued, state, nonce, hu, rfl⟩
  · exact .inl ⟨minutes, issued, user, rfl, rfl⟩
  · exact .inr ⟨issued, state, nonce, hu, rfl, hvalid _ rfl, rfl⟩

theorem compareDigest_eq {a b : Str} (ha : IsAscii a) :
    compareDigest a b = if IsAscii b then some (decide (a = b)) else none := by
  rw [compareDigest]
  split
  · rename_i h
    rw [if_pos h.2]
  · rename_i h
    rw [if_neg fun hb => h ⟨ha, hb⟩]

section
variable {now : Int} {cookie : Option τ} {error code state : Option Str}

/-- A cookie that carries the state decodes to it. -/
theorem decode_of_carries (hs : jose.Sound) {s : Str} (h : Carries jose now cookie s) :
    ∃ issued nonce, cookie.bind (decodeState jose now) = some (statePayload issued s nonce) := by
  obtain ⟨issued, nonce, rfl, hexp⟩ := h
  refine ⟨issued, nonce, hs _ _ fun e he => ?_⟩
  cases he
  exact hexp

theorem urlsafe_of_carries (hm : Minted jose cookie) {s : Str}
    (h : Carries jose now cookie s) : IsUrlsafe s := by
  obtain ⟨issued, nonce, hc, -⟩ := h
  rcases hm _ hc with ⟨minutes, issued', user, he⟩ | ⟨issued', s', nonce', hu, he⟩
  · exact absurd he.symm (sessionPayload_ne_statePayload _ _ _ _ _ _)
  · cases congrArg Payload.state he
    exact hu

/-- The verdict where the comparison is not reached, and where it is. -/
theorem run_stateCheck (hg : jose.Genuine) (hm : Minted jose cookie)
    (error code state : Option Str) :
    ((¬ Granted error code ∨ state.getD [] = [] ∨ cookie.bind (decodeState jose now) = none) ∧
      ∃ v, stateCheck jose now cookie error code state = some v ∧ v ≠ .exchange) ∨
    ∃ stored, Granted error code ∧ state.getD [] ≠ [] ∧
      cookie.bind (decodeState jose now) = some stored ∧
      stateCheck jose now cookie error code state =
        if IsAscii (state.getD []) then
          some (if stored.state.getD [] = state.getD [] then .exchange else .state)
        else none := by
  unfold stateCheck
  by_cases hr : error.getD [] ≠ [] ∨ code.getD [] = [] ∨ state.getD [] = []
  · rw [if_pos hr]
    refine .inl ⟨?_, .oidc, rfl, by decide⟩
    rcases hr with he | hc | hst
    · exact .inl fun h => he h.1
    · exact .inl fun h => h.2 hc
    · exact .inr (.inl hst)
  · rw [if_neg hr]
    obtain ⟨he, hc, hst⟩ := not_or.mp hr |>.imp_right not_or.mp
    cases hd : cookie.bind (decodeState jose now) with
    | none => exact .inl ⟨.inr (.inr rfl), .state, rfl, by decide⟩
    | some stored =>
      have hstored : IsAscii (stored.state.getD []) ∧ stored ≠ noClaims := by
        rcases stored_cases hg hm hd with ⟨_, _, _, -, rfl⟩ | ⟨_, s, _, hu, -, -, rfl⟩
        · exact ⟨fun c hc => absurd hc List.not_mem_nil, fun h => by cases congrArg Payload.sub h⟩
        · exact ⟨isAscii_urlsafe hu, fun h => by cases congrArg Payload.state h⟩
      refine .inr ⟨stored, ⟨not_not.mp he, hc⟩, hst, rfl, ?_⟩
      simp only [if_neg hstored.2, compareDigest_eq hstored.1]
      split
      · rw [Option.map_some]
        simp only [decide_eq_true_eq]
      · rfl

/-- A check that passes only what carries its state passes no session. -/
theorem session_of_decides (hs : jose.Sound) {v : Verdict}
    (hv : stateCheck jose now cookie error code state = some v)
    (h : v = .exchange → ∃ s, Carries jose now cookie s) (minutes issued : Int)
    (user : SessionUser) (hc : cookie = some (createSessionToken jose minutes issued user)) :
    stateCheck jose now cookie error code state ≠ some .exchange := by
  intro he
  rw [hv, Option.some.injEq] at he
  obtain ⟨s, issued', nonce, hc', -⟩ := h he
  rw [hc, Option.some.injEq] at hc'
  exact sessionPayload_ne_statePayload _ _ _ _ _ _ (encode_injective hs hc')

/-- Where the comparison is reached, it decides whether the cookie carries the
state. -/
theorem compared_iff (hs : jose.Sound) (hg : jose.Genuine) (hm : Minted jose cookie)
    {stored : Payload} (hst : state.getD [] ≠ [])
    (hd : cookie.bind (decodeState jose now) = some stored) :
    stored.state.getD [] = state.getD [] ↔ ∃ s, state = some s ∧ Carries jose now cookie s := by
  constructor
  · intro he
    rcases stored_cases hg hm hd with ⟨_, _, _, -, rfl⟩ | ⟨issued, s, nonce, -, hc, hexp, rfl⟩
    · exact absurd he.symm hst
    · cases state with
      | none => exact absurd rfl hst
      | some t =>
        obtain rfl : s = t := he
        exact ⟨s, rfl, issued, nonce, hc, hexp⟩
  · rintro ⟨s, rfl, hcar⟩
    obtain ⟨issued, nonce, hd'⟩ := decode_of_carries hs hcar
    obtain rfl := Option.some.inj (hd.symm.trans hd')
    rfl

end

/-- For every cookie and every state: the check is correct exactly when it does
not trip. -/
theorem correct_iff (jose : Jose τ) (hs : jose.Sound) (hg : jose.Genuine) (now : Int)
    (cookie : Option τ) (hm : Minted jose cookie) (error code state : Option Str) :
    Correct jose now cookie error code state ↔ ¬ Trips jose now cookie error code state := by
  have hnoSession := decodeSessionToken_encodeState hs hg now
  rcases run_stateCheck hg hm error code state with
    ⟨hno, v, hv, hne⟩ | ⟨stored, hgr, hst, hd, hv⟩
  · refine iff_of_true ⟨⟨v, hv, iff_of_false hne ?_⟩, ?_, hnoSession⟩ ?_
    · rintro ⟨hgr, s, rfl, hcar⟩
      rcases hno with hno | hst | hd
      · exact hno hgr
      · obtain rfl : s = [] := hst
        exact absurd (urlsafe_of_carries hm hcar).1 (by simp)
      · obtain ⟨_, _, hd'⟩ := decode_of_carries hs hcar
        rw [hd] at hd'
        cases hd'
    · exact session_of_decides hs hv fun he => absurd he hne
    · rintro ⟨hgr, hd, hna⟩
      rcases hno with hno | hst | hnone
      · exact hno hgr
      · rw [hst] at hna
        exact hna (by decide)
      · rw [hnone] at hd
        cases hd
  · by_cases ha : IsAscii (state.getD [])
    · rw [if_pos ha] at hv
      have hiff := compared_iff hs hg hm hst hd
      have hpass : (if stored.state.getD [] = state.getD [] then Verdict.exchange else .state) =
          .exchange ↔ Granted error code ∧ ∃ s, state = some s ∧ Carries jose now cookie s := by
        rw [and_iff_right hgr, ← hiff]
        split
        · rename_i he
          exact iff_of_true rfl he
        · rename_i he
          exact iff_of_false (by decide) he
      refine iff_of_true ⟨⟨_, hv, hpass⟩, ?_, hnoSession⟩ fun ht => ht.2.2 ha
      refine session_of_decides hs hv fun he => ?_
      obtain ⟨-, s, -, hcar⟩ := hpass.mp he
      exact ⟨s, hcar⟩
    · rw [if_neg ha] at hv
      refine iff_of_false (fun h => ?_) (not_not.mpr ⟨hgr, Option.isSome_of_eq_some hd, ha⟩)
      obtain ⟨v, hv', -⟩ := h.decides
      rw [hv] at hv'
      cases hv'

end

/-! ## Two states -/

/-- A token is its payload. -/
def plainJose : Jose Payload := ⟨id, fun now p => if p.Valid now then some p else none⟩

theorem plainJose_sound : plainJose.Sound := fun _ _ hv => if_pos hv

theorem plainJose_genuine : plainJose.Genuine := fun now token p h => by
  obtain ⟨hv, he⟩ := Option.ite_none_right_eq_some.mp h
  obtain rfl := Option.some.inj he
  exact ⟨rfl, hv⟩

def someState : Str := List.replicate 32 'x'

/-- The cookie that the flow was started with. -/
def stateCookie : Option Payload := some (encodeState plainJose 0 someState "n".toList)

theorem minted_stateCookie : Minted plainJose stateCookie := fun p hp =>
  .inr ⟨0, someState, "n".toList, by decide, (Option.some.inj hp).symm⟩

theorem correct_iff_same :
    Correct plainJose 600 stateCookie none (some "c".toList) (some someState) ↔
      ¬ Trips plainJose 600 stateCookie none (some "c".toList) (some someState) :=
  correct_iff plainJose plainJose_sound plainJose_genuine 600 stateCookie minted_stateCookie none
    (some "c".toList) (some someState)

/-- With an `é` for its state, the callback raises. -/
theorem raises_on_accent :
    plainJose.Sound ∧ plainJose.Genuine ∧ Minted plainJose stateCookie ∧
      stateCheck plainJose 600 stateCookie none (some "c".toList) (some "é".toList) = none ∧
      ¬ Correct plainJose 600 stateCookie none (some "c".toList) (some "é".toList) := by
  have hnone : stateCheck plainJose 600 stateCookie none (some "c".toList) (some "é".toList) =
      none := by decide +kernel
  refine ⟨plainJose_sound, plainJose_genuine, minted_stateCookie, hnone, fun h => ?_⟩
  obtain ⟨v, hv, -⟩ := h.decides
  rw [hnone] at hv
  cases hv

end MailserverUi.L4.OidcState

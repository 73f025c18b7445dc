import MailserverUi.Core.LTS
import MailserverUi.Core.Utf8
import MailserverUi.L3Service.AccountSpec
import MailserverUi.L4App.Audited

/-!
# The password of a local account

Sequences of the calls that give an account its password, one after the other.
`_to_bytes` cuts a password after 72 bytes before bcrypt hashes it or checks one
against a hash; `change_own_password` compares the passwords uncut.

`Bcrypt` is the library, and `Bcrypt.Exact` what is relied on: a hash is that of
one sequence of bytes.

Results:
* `settles_prog`: a call changes nothing, or the hash of one local account.
* `recorded_inductive`: an account that was given a password has a hash of it.
* `signsIn_exactly_iff`: in every state of every run, an account is signed in with
  the password it was last given and no other exactly when that has fewer than
  72 bytes.
-/
namespace MailserverUi.L4.PasswordHistory

open Py L2.Errors L2.Database L3 Auth UserService AccountSpec Requests
open Audited (PasswordChangeRequest SelfPasswordChangeRequest)

/-! ## Hashes -/

/-- A hash is made with a salt of its own. `checkpw` is false where it raises. -/
structure Bcrypt where
  hashpw : List UInt8 → Nat → Str
  checkpw : List UInt8 → Str → Bool

structure Bcrypt.Exact (b : Bcrypt) : Prop where
  checkpw_iff : ∀ plain hashed salt, b.checkpw plain (b.hashpw hashed salt) = true ↔ plain = hashed
  hashpw_ne : ∀ plain salt, b.hashpw plain salt ≠ []

/-- mirrors backend/app/auth.py:26-28 -/
def bcryptMaxBytes : Nat := 72

/-- mirrors backend/app/auth.py:78-79 -/
def toBytes (plain : Str) : List UInt8 := (utf8 plain).take bcryptMaxBytes

section
variable (b : Bcrypt)

/-- mirrors backend/app/auth.py:82-87 -/
def verifyPassword (plain hashed : Str) : Bool := b.checkpw (toBytes plain) hashed

/-- mirrors backend/app/auth.py:90-92 -/
def hashPassword (plain : Str) (salt : Nat) : Str := b.hashpw (toBytes plain) salt

/-! ## Calls -/

/-- Up to the entry in the audit trail.
mirrors backend/app/routers/users.py:251-273 -/
def changePassword (userId : Int) (hash : Option Str) : Query UserRow := do
  let user ← getUser userId
  let user ← Prog.ofOption (notFound "User" (idText userId)) user
  Prog.raiseIf (user.provider ≠ "local".toList)
    (conflict [lit "Password is managed by the identity provider for OIDC users"])
  setPassword user hash

inductive Call where
  | createUser (payload : UserCreate)
  | changePassword (userId : Int) (payload : PasswordChangeRequest)
  | changeOwnPassword (username : Str) (payload : SelfPasswordChangeRequest)

/-- The password that the account gets. -/
def Call.password : Call → Str
  | .createUser payload => payload.password
  | .changePassword _ payload => payload.newPassword
  | .changeOwnPassword _ payload => payload.newPassword

def Call.prog (salt : Nat) : Call → Query UserRow
  | .createUser payload =>
    createLocalUser payload.username payload.displayName
      (some (hashPassword b payload.password salt))
  | .changePassword userId payload =>
    PasswordHistory.changePassword userId (some (hashPassword b payload.newPassword salt))
  | .changeOwnPassword username payload =>
    UserService.changeOwnPassword (verifyPassword b) username payload.currentPassword
      payload.newPassword (some (hashPassword b payload.newPassword salt))

/-- The names of the account were there, or are those of a request. -/
def NamesKept (d : Db) (u : UserRow) (c : Call) : Prop :=
  (∃ w ∈ d.users, w.username = u.username ∧ w.displayName = u.displayName) ∨
    ∃ payload, c = .createUser payload ∧ strip payload.username ≠ [] ∧
      u.username = strip payload.username ∧ u.displayName = strip payload.displayName

/-- The call gave `u` a hash of its password, and left the other accounts alone. -/
structure Given (d d' : Db) (u : UserRow) (c : Call) (salt : Nat) : Prop where
  provider : u.provider = "local".toList
  hash : u.passwordHash = some (hashPassword b c.password salt)
  frame : ∀ v ∈ d'.users, v = u ∨ v ∈ d.users ∧ v.username ≠ u.username
  names : NamesKept d u c

/-- The call raises and changes nothing, or gives an account its password. -/
def Settles (d : Db) (q : Query UserRow) (c : Call) (salt : Nat) : Prop :=
  (∃ e w, q.run sqlite ⟨d, none⟩ = (.error e, ⟨d, w⟩)) ∨
    ∃ u d', q.run sqlite ⟨d, none⟩ = (.ok u, ⟨d', none⟩) ∧ Given b d d' u c salt

variable {b} {d : Db} {c : Call} {salt : Nat}

theorem settles_raiseIf {p : Prop} [Decidable p] {e : ApiError} {q : Query UserRow}
    (h : ¬ p → Settles b d q c salt) :
    Settles b d (Prog.raiseIf p e >>= fun _ => q) c salt := by
  unfold Settles
  rw [Prog.run_raiseIf_bind]
  split
  · exact .inl ⟨e, none, rfl⟩
  · exact h ‹_›

/-- A row is looked up, or there is an error. -/
theorem settles_found {q : Query (Option UserRow)} {o : Option UserRow} {e : ApiError}
    {f : UserRow → Query UserRow} (hq : q.run sqlite ⟨d, none⟩ = (.ok o, ⟨d, none⟩))
    (hf : ∀ u, o = some u → Settles b d (f u) c salt) :
    Settles b d (q >>= fun o => Prog.ofOption e o >>= f) c salt := by
  unfold Settles
  rw [Prog.run_bind, hq]
  cases o with
  | none => exact .inl ⟨e, none, rfl⟩
  | some u => exact hf u rfl

theorem settles_setPassword {u : UserRow} (hu : u ∈ d.users) (hl : u.provider = "local".toList) :
    Settles b d (setPassword u (some (hashPassword b c.password salt))) c salt := by
  refine .inr ⟨_, _, run_setPassword d hu _, hl, rfl, fun v hv => ?_, .inl ⟨u, hu, rfl, rfl⟩⟩
  obtain ⟨w, hw, rfl⟩ := mem_updateUser.mp hv
  by_cases hid : w.id = u.id
  · rw [if_pos hid, Table.eq_of_id hw hu hid]
    exact .inl rfl
  · rw [if_neg hid]
    exact .inr ⟨hw, fun hn => hid (congrArg UserRow.id (Table.eq_of_key hw hu hn))⟩

theorem settles_createLocalUser (payload : UserCreate) :
    Settles b d (createLocalUser payload.username payload.displayName
      (some (hashPassword b payload.password salt))) (.createUser payload) salt := by
  rcases run_createLocalUser d payload.username payload.displayName
    (some (hashPassword b payload.password salt)) with ⟨e, w, hr⟩ | ⟨h, u, d', hh, hne, hi, hr⟩
  · exact .inl ⟨e, w, hr⟩
  · cases hh
    have hfree : ∀ v ∈ d.users, v.username ≠ strip payload.username := fun v hv hn => by
      rw [insertUser_eq_none.mpr ⟨v, hv, hn⟩] at hi
      cases hi
    obtain ⟨rfl, hmem, -, -⟩ := insertUser_spec hi
    refine .inr ⟨_, d', hr, rfl, rfl, fun v hv => ?_, .inr ⟨payload, rfl, hne, rfl, rfl⟩⟩
    rcases (hmem v).mp hv with hv | rfl
    · exact .inr ⟨hv, hfree v hv⟩
    · exact .inl rfl

/-- A call raises and changes nothing, or gives an account its password. -/
theorem settles_prog (b : Bcrypt) (c : Call) (salt : Nat) (d : Db) :
    Settles b d (c.prog b salt) c salt := by
  cases c with
  | createUser payload => exact settles_createLocalUser payload
  | changePassword userId payload =>
    refine settles_found (q := getUser userId) rfl fun u hf => ?_
    obtain ⟨hu, -⟩ := Table.find_eq_some.mp hf
    refine settles_raiseIf fun hl => ?_
    exact settles_setPassword (c := .changePassword userId payload) hu (not_not.mp hl)
  | changeOwnPassword username payload =>
    refine settles_found (q := getByUsername username) rfl fun u hf => ?_
    obtain ⟨hu, -⟩ := Table.findKey_eq_some.mp hf
    refine settles_raiseIf fun hl => settles_raiseIf fun _ => settles_raiseIf fun _ => ?_
    exact settles_setPassword (c := .changeOwnPassword username payload) hu
      (not_not.mp (not_or.mp hl).1)

/-! ## Histories -/

/-- The rows, and the password that each account was last given. -/
structure State where
  db : Db
  /-- ghost: by the name of the account -/
  given : Str → Option Str

variable (b)

/-- One call, with the salt of its hash. -/
def next (s : State) (l : Call × Nat) : State :=
  match session (l.1.prog b l.2) s.db with
  | (.ok u, d) => ⟨d, Function.update s.given u.username (some l.1.password)⟩
  | (.error _, d) => ⟨d, s.given⟩

/-- Any accounts at the start, none of them given a password yet. -/
def history : LTS State (Call × Nat) :=
  LTS.ofFn (fun s => ∀ name, s.given name = none) fun s l => some (next b s l)

/-- Who was given a password has a hash of it. -/
def Recorded (s : State) : Prop :=
  ∀ u ∈ s.db.users, ∀ p, s.given u.username = some p →
    u.provider = "local".toList ∧ ∃ salt, u.passwordHash = some (hashPassword b p salt)

theorem recorded_next {s : State} (h : Recorded b s) (l : Call × Nat) :
    Recorded b (next b s l) := by
  rcases settles_prog b l.1 l.2 s.db with ⟨e, w, hr⟩ | ⟨u, d', hr, hg⟩
  · have hs : next b s l = s := by
      rw [next, session_of_run hr]
    rw [hs]
    exact h
  · have hs : next b s l = ⟨d', Function.update s.given u.username (some l.1.password)⟩ := by
      rw [next, session_of_run hr]
    rw [hs]
    intro v hv p hp
    change Function.update s.given u.username (some l.1.password) v.username = some p at hp
    rcases hg.frame v hv with rfl | ⟨hold, hne⟩
    · rw [Function.update_self, Option.some.injEq] at hp
      exact ⟨hg.provider, l.2, hp ▸ hg.hash⟩
    · rw [Function.update_of_ne hne] at hp
      exact h v hold p hp

theorem recorded_inductive : (history b).Inductive (Recorded b) where
  init := fun s hs u _ p hp => by
    rw [hs u.username] at hp
    cases hp
  step := fun s l s' h hst => by
    cases hst
    exact recorded_next b h l

/-! ## Signing in -/

/-- `authenticate_local` answers with an account. -/
def SignsIn (d : Db) (username password : Str) : Prop :=
  ∃ p, (session (authenticateLocal (verifyPassword b) username password) d).1 = .ok (some p)

variable {b}

/-- An active account that has a hash is signed in by what the hash verifies. -/
theorem signsIn_iff {u : UserRow} (hu : u ∈ d.users) (ha : u.isActive = true)
    (hl : u.provider = "local".toList) {h : Str} (hh : u.passwordHash = some h) (hne : h ≠ [])
    (password : Str) :
    SignsIn b d u.username password ↔ verifyPassword b password h = true := by
  have hf : d.users.findKey u.username = some u := Table.findKey_eq_some.mpr ⟨hu, rfl⟩
  have hget : (getByUsername u.username).run sqlite ⟨d, none⟩ = (.ok (some u), ⟨d, none⟩) :=
    congrArg (fun o => ((Except.ok o : Except ApiError (Option UserRow)), (⟨d, none⟩ : Tx Db))) hf
  have hlocal : ¬ (u.provider ≠ "local".toList ∨ h = []) := not_or.mpr ⟨not_not.mpr hl, hne⟩
  have htouch : (touchLogin u).run sqlite ⟨d, none⟩ = (.ok (), ⟨d, none⟩) := by
    rw [touchLogin, run_save_mem d hu, updateUser_nil]
  have hrun : (authenticateLocal (verifyPassword b) u.username password).run sqlite ⟨d, none⟩ =
      (.ok (if verifyPassword b password h = true then some (sessionUser d u) else none),
        ⟨d, none⟩) := by
    rw [authenticateLocal, Prog.run_bind, hget]
    simp only [hh, Option.getD_some, if_neg hlocal, ha, Bool.true_eq_false, if_false]
    cases verifyPassword b password h with
    | false => rfl
    | true =>
      simp only [Bool.true_eq_false, if_false, if_true]
      rw [Prog.run_bind, htouch]
      simp only
      rw [Prog.run_bind, run_toSessionUser _ (id_ne_zero hu)]
      rfl
  unfold SignsIn
  rw [session_of_run hrun]
  split
  · rename_i hv
    exact iff_of_true ⟨_, rfl⟩ hv
  · rename_i hv
    refine iff_of_false ?_ hv
    rintro ⟨p, hp⟩
    cases hp

/-- In every state of every history, the password that an account was last given
signs it in, and no other text does, exactly when it has fewer than 72 bytes. -/
theorem signsIn_exactly_iff (b : Bcrypt) (hb : b.Exact) (s : State)
    (hr : (history b).Reachable s) (u : UserRow) (hu : u ∈ s.db.users) (ha : u.isActive = true)
    (password : Str) (hp : s.given u.username = some password) :
    (∀ t, SignsIn b s.db u.username t ↔ t = password) ↔
      (utf8 password).length < bcryptMaxBytes := by
  obtain ⟨hl, salt, hh⟩ := (recorded_inductive b).reachable s hr u hu password hp
  have hverify (t : Str) : SignsIn b s.db u.username t ↔
      (utf8 t).take bcryptMaxBytes = (utf8 password).take bcryptMaxBytes :=
    (signsIn_iff hu ha hl hh (hb.hashpw_ne _ _) t).trans (hb.checkpw_iff _ _ _)
  simp only [hverify]
  exact take_utf8_eq_iff bcryptMaxBytes password

end

/-! ## A concrete history -/

/-- A hash is its bytes, behind a mark. -/
def plainHash (bytes : List UInt8) : Str := '$' :: bytes.map Char.ofUInt8

def plainBcrypt : Bcrypt where
  hashpw bytes _ := plainHash bytes
  checkpw bytes hash := hash = plainHash bytes

theorem ofUInt8_injective : Function.Injective Char.ofUInt8 := fun _ _ h =>
  UInt8.toNat_inj.mp (congrArg Char.toNat h)

theorem plainBcrypt_exact : plainBcrypt.Exact where
  checkpw_iff plain hashed _ := by
    have hinj : Function.Injective plainHash := fun _ _ h =>
      List.map_injective_iff.mpr ofUInt8_injective (List.cons_injective h)
    exact decide_eq_true_iff.trans (hinj.eq_iff.trans eq_comm)
  hashpw_ne _ _ := List.cons_ne_nil _ _

def start : State := ⟨noRows, fun _ => none⟩

def ann (password : Str) (h : 8 ≤ password.length ∧ password.length ≤ 1024) : UserCreate :=
  ⟨"ann".toList, "Ann".toList, password, by decide, by decide, h⟩

/-- An account with a password of eight bytes. -/
def created : State :=
  next plainBcrypt start (.createUser (ann "opensesame".toList (by decide)), 0)

theorem created_reachable : (history plainBcrypt).Reachable created :=
  ⟨start, _, fun _ => rfl, .cons rfl (.nil _)⟩

def annRow (password : Str) : UserRow :=
  ⟨1, "ann".toList, "Ann".toList, "guest".toList, "local".toList, true,
    some (hashPassword plainBcrypt password 0), 0⟩

theorem signsIn_exactly_iff_created :
    (∀ t, SignsIn plainBcrypt created.db "ann".toList t ↔ t = "opensesame".toList) ↔
      (utf8 "opensesame".toList).length < bcryptMaxBytes :=
  signsIn_exactly_iff plainBcrypt plainBcrypt_exact created created_reachable
    (annRow "opensesame".toList) (by rw [← Table.mem_rows]; decide +kernel) rfl _
    (by decide +kernel)

/-- A passphrase of 72 bytes, and the same with a digit behind it. -/
def leaked : Str := List.replicate 72 'a'

def rotated : Str := leaked ++ ['1']

def rotation : Call :=
  .changeOwnPassword "ann".toList ⟨leaked, rotated, by decide, by decide⟩

def leakedState : State := next plainBcrypt start (.createUser (ann leaked (by decide)), 0)

def rotatedState : State := next plainBcrypt leakedState (rotation, 1)

/-- The account rotates its password, and the old one still signs it in. -/
theorem leaked_signs_in :
    plainBcrypt.Exact ∧ (history plainBcrypt).Reachable rotatedState ∧
      annRow rotated ∈ rotatedState.db.users ∧
      (session (rotation.prog plainBcrypt 1) leakedState.db).1.isOk = true ∧
      rotatedState.given "ann".toList = some rotated ∧ leaked ≠ rotated ∧
      SignsIn plainBcrypt rotatedState.db "ann".toList leaked := by
  refine ⟨plainBcrypt_exact, ⟨start, _, fun _ => rfl, .cons rfl (.cons rfl (.nil _))⟩,
    by rw [← Table.mem_rows]; decide +kernel, by decide +kernel, by decide +kernel,
    by decide +kernel, ?_⟩
  have hok : ((session (authenticateLocal (verifyPassword plainBcrypt) "ann".toList leaked)
      rotatedState.db).1.toOption.bind id).isSome = true := by decide +kernel
  obtain ⟨p, hp⟩ := Option.isSome_iff_exists.mp hok
  obtain ⟨o, ho, rfl⟩ := Option.bind_eq_some_iff.mp hp
  exact ⟨p, eq_ok_of_toOption ho⟩

end MailserverUi.L4.PasswordHistory

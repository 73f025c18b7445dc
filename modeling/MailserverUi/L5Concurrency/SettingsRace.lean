import MailserverUi.Core.Columns
import MailserverUi.Core.Session
import MailserverUi.L3Service.SettingsRows

/-!
# Two administrators and one row of settings

An update reads the row, checks its payload, and commits: `setattr` marks the
columns that differ from what was read, and the `UPDATE` names these alone. The
check looks at the payload and not at the row that comes of it, and another update
may be committed between the reading and the writing.

Results:
* `run_update`: alone, an update does what `updateSettings` says.
* `stems_of_asked`: in every interleaving, each column of the row was asked for.
* `configured_of_asRead`: where each `UPDATE` finds the fields that its session
  read, the row as a whole was asked for, and passes its check.
* `both_encryptions`, `no_issuer`: otherwise two updates that pass their checks make
  a row that does not.
-/
namespace MailserverUi.L5.SettingsRace

open Py L2.Errors L3.SettingsRows

/-! ## Columns -/

inductive MailColumn where
  | enabled | host | port | username | useTls | useSsl | fromAddress | recipients
  | notifyAuthEvents | notifyAuditEvents

def MailColumn.Value : MailColumn → Type
  | .enabled | .useTls | .useSsl | .notifyAuthEvents | .notifyAuditEvents => Bool
  | .port => Int
  | .host | .username | .fromAddress | .recipients => Str

instance : Columnar MailSettingsBase where
  Column := MailColumn
  Value := MailColumn.Value
  decEq
    | .enabled | .useTls | .useSsl | .notifyAuthEvents | .notifyAuditEvents =>
      inferInstanceAs (DecidableEq Bool)
    | .port => inferInstanceAs (DecidableEq Int)
    | .host | .username | .fromAddress | .recipients => inferInstanceAs (DecidableEq Str)
  value
    | .enabled, b => b.enabled
    | .host, b => b.host
    | .port, b => b.port
    | .username, b => b.username
    | .useTls, b => b.useTls
    | .useSsl, b => b.useSsl
    | .fromAddress, b => b.fromAddress
    | .recipients, b => b.recipients
    | .notifyAuthEvents, b => b.notifyAuthEvents
    | .notifyAuditEvents, b => b.notifyAuditEvents
  make f := {
    enabled := f .enabled, host := f .host, port := f .port, username := f .username
    useTls := f .useTls, useSsl := f .useSsl, fromAddress := f .fromAddress
    recipients := f .recipients, notifyAuthEvents := f .notifyAuthEvents
    notifyAuditEvents := f .notifyAuditEvents }
  make_value _ := rfl
  value_make f k := by cases k <;> rfl

inductive OidcColumn where
  | enabled | issuer | clientId | redirectUri | postLogoutRedirectUri | responseType | scope
  | oidcOnly | adminGroupClaim | adminGroup | managerGroupClaim | managerGroup | restrictToGroups

def OidcColumn.Value : OidcColumn → Type
  | .enabled | .oidcOnly | .restrictToGroups => Bool
  | _ => Str

instance : Columnar OidcSettingsBase where
  Column := OidcColumn
  Value := OidcColumn.Value
  decEq
    | .enabled | .oidcOnly | .restrictToGroups => inferInstanceAs (DecidableEq Bool)
    | .issuer | .clientId | .redirectUri | .postLogoutRedirectUri | .responseType | .scope
    | .adminGroupClaim | .adminGroup | .managerGroupClaim | .managerGroup =>
      inferInstanceAs (DecidableEq Str)
  value
    | .enabled, b => b.enabled
    | .issuer, b => b.issuer
    | .clientId, b => b.clientId
    | .redirectUri, b => b.redirectUri
    | .postLogoutRedirectUri, b => b.postLogoutRedirectUri
    | .responseType, b => b.responseType
    | .scope, b => b.scope
    | .oidcOnly, b => b.oidcOnly
    | .adminGroupClaim, b => b.adminGroupClaim
    | .adminGroup, b => b.adminGroup
    | .managerGroupClaim, b => b.managerGroupClaim
    | .managerGroup, b => b.managerGroup
    | .restrictToGroups, b => b.restrictToGroups
  make f := {
    enabled := f .enabled, issuer := f .issuer, clientId := f .clientId
    redirectUri := f .redirectUri, postLogoutRedirectUri := f .postLogoutRedirectUri
    responseType := f .responseType, scope := f .scope, oidcOnly := f .oidcOnly
    adminGroupClaim := f .adminGroupClaim, adminGroup := f .adminGroup
    managerGroupClaim := f .managerGroupClaim, managerGroup := f .managerGroup
    restrictToGroups := f .restrictToGroups }
  make_value _ := rfl
  value_make f k := by cases k <;> rfl

/-- The columns of the table. -/
inductive RowColumn (κ : Type) where
  | field (k : κ)
  | secret
  | updatedAt

section
variable {β : Type} [Columnar β]

instance : Columnar (Row β) where
  Column := RowColumn (Columnar.Column β)
  Value
    | .field k => Columnar.Value k
    | .secret => Str
    | .updatedAt => Int
  decEq
    | .field k => Columnar.decEq k
    | .secret => inferInstanceAs (DecidableEq Str)
    | .updatedAt => inferInstanceAs (DecidableEq Int)
  value
    | .field k, row => Columnar.value k row.fields
    | .secret, row => row.secret
    | .updatedAt, row => row.updatedAt
  make f := ⟨Columnar.make fun k => f (.field k), f .secret, f .updatedAt⟩
  make_value row := congrArg (Row.mk · row.secret row.updatedAt) (Columnar.make_value row.fields)
  value_make f k := by
    cases k with
    | field k => exact Columnar.value_make _ k
    | secret => rfl
    | updatedAt => rfl

theorem fields_write (loaded config row : Row β) :
    (Columnar.write loaded config row).fields =
      Columnar.write loaded.fields config.fields row.fields :=
  Columnar.ext fun k => (Columnar.value_write (β := Row β) (RowColumn.field k)).trans
    (Columnar.value_write k).symm

theorem secret_write (loaded config row : Row β) :
    (Columnar.write loaded config row).secret =
      if config.secret = loaded.secret then row.secret else config.secret := rfl

end

/-! ## The statements of a request -/

/-- What a session asks of the table with the one row. -/
inductive Command (β : Type) where
  | select
  | insert (config : Row β)
  | update (loaded config : Row β)
  | commit

/-- `false` where the row is there already, or is not there. -/
abbrev Reply {β : Type} : Command β → Type
  | .select => Option (Row β)
  | .insert _ | .update .. => Bool
  | .commit => Unit

section
variable {β : Type} [Columnar β]

def Command.kind : Command β → Kind
  | .select => .read
  | .insert _ | .update .. => .write
  | .commit => .commit

def Command.exec : (c : Command β) → Option (Row β) → Reply c × Option (Row β)
  | .select, row => (row, row)
  | .insert config, none => (true, some config)
  | .insert _, some row => (false, some row)
  | .update _ _, none => (false, none)
  | .update loaded config, some row => (true, some (Columnar.write loaded config row))
  | .commit, row => ((), row)

def table : Machine (Command β) Reply (Option (Row β)) := ⟨Command.exec⟩

abbrev Session (β : Type) := Prog (Command β) (Reply (β := β)) ApiError

def execute (c : Command β) : Session β (Reply c) := Prog.request c

/-- mirrors backend/app/services/settings_service.py:23-32, 68-77 -/
def get (env : Seed β) (now : Int) : Session β (Row β) := do
  match ← execute .select with
  | some config => return config
  | none =>
    let inserted ← execute (.insert (seedFromEnv env now))
    Prog.raiseIf (inserted = false) .internal
    execute .commit
    Prog.ofOption .internal (← execute .select)

/-- mirrors backend/app/services/settings_service.py:35-62, 80-104 -/
def update (check : β → Option ApiError) (env : Seed β) (now : Int) (payload : Update β) :
    Session β (Row β) := do
  let loaded ← get env now
  match check payload.fields with
  | some e => Prog.raise e
  | none =>
    let secret := (newSecret payload).getD loaded.secret
    let found ← execute (.update loaded ⟨payload.fields, secret, now⟩)
    Prog.raiseIf (found = false) .internal
    execute .commit
    Prog.ofOption .internal (← execute .select)

/-! ### Alone -/

theorem run_get (env : Seed β) (now : Int) (stored : Option (Row β)) :
    (get env now).run (table.inTx Command.kind) ⟨stored, none⟩ =
      (.ok (getSettings env now stored), ⟨some (getSettings env now stored), none⟩) := by
  cases stored <;> rfl

/-- A session that nobody interrupts does what the service is said to do. -/
theorem run_update (check : β → Option ApiError) (env : Seed β) (now : Int) (payload : Update β)
    (stored : Option (Row β)) :
    (update check env now payload).run (table.inTx Command.kind) ⟨stored, none⟩ =
      ((updateSettings check env now payload stored).1,
        ⟨some (updateSettings check env now payload stored).2, none⟩) := by
  unfold update
  rw [Prog.run_bind, run_get]
  unfold updateSettings
  dsimp only
  cases hc : check payload.fields with
  | some e => rfl
  | none =>
    have hself := Columnar.write_self (getSettings env now stored)
      ⟨payload.fields, (newSecret payload).getD (getSettings env now stored).secret, now⟩
    show (_, (⟨some (Columnar.write _ _ _), none⟩ : Tx (Option (Row β)))) = _
    rw [hself]

end

/-! ## Requests in any order -/

inductive Request (β : Type) where
  | read (now : Int)
  | update (now : Int) (payload : Update β)

section
variable {β : Type} (check : β → Option ApiError) (env : Seed β)

def Request.prog : Request β → Session β (Row β)
  | .read now => get env now
  | .update now payload => SettingsRace.update check env now payload

variable {ι : Type} (requests : ι → Request β) (stored : Option (Row β))

/-- Some request sends `payload`, which passes its check. -/
def Accepted (payload : Update β) : Prop :=
  (∃ i now, requests i = .update now payload) ∧ check payload.fields = none

/-- The fields that were stored, or that the environment or an accepted payload
gives. -/
def Asked : Set β :=
  {b | b ∈ stored.map Row.fields ∨ b = env.fields ∨
    ∃ payload, Accepted check requests payload ∧ payload.fields = b}

def AskedSecret : Set Str :=
  {s | s ∈ stored.map Row.secret ∨ s = env.secret ∨
    ∃ payload, Accepted check requests payload ∧ newSecret payload = some s}

/-- The statements of the requests. -/
def Issued : Command β → Prop
  | .insert config => ∃ now, config = seedFromEnv env now
  | .update loaded config => config.fields ∈ Asked check env requests stored ∧
    (config.secret = loaded.secret ∨ config.secret ∈ AskedSecret check env requests stored)
  | .select | .commit => True

/-- Each column of the row was asked for. -/
def Stems [Columnar β] (row : Option (Row β)) : Prop := ∀ r ∈ row,
  Columnar.Mixed (Asked check env requests stored) r.fields ∧
    r.secret ∈ AskedSecret check env requests stored

/-- So were all fields together. -/
def Configured (row : Option (Row β)) : Prop := ∀ r ∈ row,
  r.fields ∈ Asked check env requests stored ∧ r.secret ∈ AskedSecret check env requests stored

/-- An `UPDATE` finds the fields that its session read. -/
def AsRead : Command β → Option (Row β) → Prop
  | .update loaded _, row => row.map Row.fields = some loaded.fields
  | _, _ => True

instance [DecidableEq β] (c : Command β) (row : Option (Row β)) : Decidable (AsRead c row) :=
  match c with
  | .update loaded _ => inferInstanceAs (Decidable (row.map Row.fields = some loaded.fields))
  | .select | .insert _ | .commit => isTrue trivial

variable {check env requests stored}

/-! ### What is issued -/

theorem issues_get (now : Int) : (get env now).Issues (Issued check env requests stored) := by
  refine Prog.issues_bind (Prog.issues_request trivial) fun row => ?_
  cases row with
  | some config => trivial
  | none =>
    refine Prog.issues_bind (Prog.issues_request ⟨now, rfl⟩) fun _ => ?_
    refine Prog.issues_bind Prog.issues_raiseIf fun _ => ?_
    refine Prog.issues_bind (Prog.issues_request trivial) fun _ => ?_
    exact Prog.issues_bind (Prog.issues_request trivial) fun _ => Prog.issues_ofOption

/-- An accepted payload, with the secret that it brings or the one that was read. -/
theorem issued_update {payload : Update β} (h : Accepted check requests payload) (loaded : Row β)
    (now : Int) : Issued check env requests stored
      (.update loaded ⟨payload.fields, (newSecret payload).getD loaded.secret, now⟩) := by
  refine ⟨.inr (.inr ⟨payload, h, rfl⟩), ?_⟩
  cases hs : newSecret payload with
  | none => exact .inl rfl
  | some s => exact .inr (.inr (.inr ⟨payload, h, hs⟩))

theorem issues_prog (i : ι) :
    ((requests i).prog check env).Issues (Issued check env requests stored) := by
  cases hr : requests i with
  | read now => exact issues_get now
  | update now payload =>
    show (SettingsRace.update check env now payload).Issues _
    unfold SettingsRace.update
    refine Prog.issues_bind (issues_get now) fun loaded => ?_
    cases hc : check payload.fields with
    | some e => trivial
    | none =>
      have hissued : Issued check env requests stored
          (.update loaded ⟨payload.fields, (newSecret payload).getD loaded.secret, now⟩) :=
        issued_update ⟨⟨i, now, hr⟩, hc⟩ loaded now
      refine Prog.issues_bind (Prog.issues_request hissued) fun _ => ?_
      refine Prog.issues_bind Prog.issues_raiseIf fun _ => ?_
      refine Prog.issues_bind (Prog.issues_request trivial) fun _ => ?_
      exact Prog.issues_bind (Prog.issues_request trivial) fun _ => Prog.issues_ofOption

/-! ### One statement -/

theorem seed_asked (now : Int) :
    (seedFromEnv env now).fields ∈ Asked check env requests stored ∧
      (seedFromEnv env now).secret ∈ AskedSecret check env requests stored :=
  ⟨.inr (.inl rfl), .inr (.inl rfl)⟩

variable [Columnar β]

/-- A secret that is not sent stays what it is, and not what it was. -/
theorem secret_update {loaded config row : Row β}
    (hc : config.secret = loaded.secret ∨ config.secret ∈ AskedSecret check env requests stored)
    (hr : row.secret ∈ AskedSecret check env requests stored) :
    (Columnar.write loaded config row).secret ∈ AskedSecret check env requests stored := by
  rw [secret_write]
  split
  · exact hr
  · rename_i hne
    exact hc.resolve_left hne

theorem stems_exec {c : Command β} {row : Option (Row β)}
    (hc : Issued check env requests stored c) (h : Stems check env requests stored row) :
    Stems check env requests stored (c.exec row).2 := by
  cases c with
  | select => exact h
  | commit => exact h
  | insert config =>
    cases row with
    | some r => exact h
    | none =>
      obtain ⟨now, rfl⟩ := hc
      rintro r ⟨⟩
      exact ⟨.of_mem (seed_asked now).1, (seed_asked now).2⟩
  | update loaded config =>
    cases row with
    | none => exact h
    | some r =>
      rintro r' ⟨⟩
      obtain ⟨hfields, hsecret⟩ := h r rfl
      refine ⟨?_, secret_update hc.2 hsecret⟩
      rw [fields_write]
      exact .write hc.1 hfields

theorem configured_exec {c : Command β} {row : Option (Row β)}
    (hc : Issued check env requests stored c) (hread : AsRead c row)
    (h : Configured check env requests stored row) :
    Configured check env requests stored (c.exec row).2 := by
  cases c with
  | select => exact h
  | commit => exact h
  | insert config =>
    cases row with
    | some r => exact h
    | none =>
      obtain ⟨now, rfl⟩ := hc
      rintro r ⟨⟩
      exact seed_asked now
  | update loaded config =>
    cases row with
    | none => exact h
    | some r =>
      rintro r' ⟨⟩
      refine ⟨?_, secret_update hc.2 (h r rfl).2⟩
      have e : r.fields = loaded.fields := Option.some.inj hread
      rw [fields_write, e, Columnar.write_self]
      exact hc.1

/-! ### Interleavings -/

variable [DecidableEq ι]

abbrev Sessions (ι β : Type) :=
  Shared ι (Command β) Reply ApiError (Row β) (Option (Row β))

variable (check env requests stored) in
/-- All requests at their start. -/
def start : Sessions ι β := ⟨stored, none, fun i => (requests i).prog check env⟩

variable (check env requests stored) in
def race : LTS (Sessions ι β) (Turn ι ApiError) :=
  Shared.lts table Command.kind (· = start check env requests stored)

omit [Columnar β] in
theorem meets_true (s : Sessions ι β) (t : Turn ι ApiError) : s.Meets (fun _ _ => True) t := by
  cases t with
  | fail i e => trivial
  | exec i =>
    cases hp : s.prog i with
    | call c k => exact (Shared.meets_of hp).mpr trivial
    | pure a => simp only [Shared.Meets, hp]
    | raise e => simp only [Shared.Meets, hp]

/-- What each statement keeps, where it meets `G`, holds of the committed row. -/
theorem committed_of {G : Command β → Option (Row β) → Prop} {I : Option (Row β) → Prop}
    (hstored : I stored)
    (hexec : ∀ c row, Issued check env requests stored c → G c row → I row → I (c.exec row).2)
    {s : Sessions ι β}
    (h : ((race check env requests stored).guard (Shared.Meets G)).Reachable s) :
    I s.committed := by
  have hind : ((race check env requests stored).guard (Shared.Meets G)).Inductive
      (Shared.Kept table Command.kind I G fun _ _ => True) := by
    refine Shared.kept_inductive ?_
    rintro s rfl
    exact Shared.kept_start hstored fun i =>
      (issues_prog i).keeps fun c row hc hI hG => ⟨trivial, hexec c row hc hG hI⟩
  exact (hind.reachable s h).committed

variable (check env requests stored)

/-- In every interleaving, with requests failing anywhere, each column of the
committed row is that of the environment, of the row that was there, or of a payload
that passed its check; so is the secret. -/
theorem stems_of_asked (s : Sessions ι β) (h : (race check env requests stored).Reachable s) :
    Stems check env requests stored s.committed := by
  obtain ⟨s₀, ls, h₀, hrun⟩ := h
  have hguard := hrun.guard (G := Shared.Meets fun _ _ => True) fun l _ t => meets_true t l
  exact committed_of (G := fun _ _ => True)
    (fun r hr => ⟨.of_mem (.inl (Option.mem_map_of_mem _ hr)), .inl (Option.mem_map_of_mem _ hr)⟩)
    (fun c row hc _ hI => stems_exec hc hI) ⟨s₀, ls, h₀, hguard⟩

/-- In those whose every `UPDATE` finds the fields that its session read, all
fields are of one of these together, and they pass the check if those of the
environment and of the first row do. -/
theorem configured_of_asRead (s : Sessions ι β)
    (h : ((race check env requests stored).guard (Shared.Meets AsRead)).Reachable s) :
    Configured check env requests stored s.committed ∧
      (check env.fields = none → (∀ r ∈ stored, check r.fields = none) →
        ∀ r ∈ s.committed, check r.fields = none) := by
  have hc : Configured check env requests stored s.committed :=
    committed_of (fun r hr => ⟨.inl (Option.mem_map_of_mem _ hr),
      .inl (Option.mem_map_of_mem _ hr)⟩) (fun c row => configured_exec) h
  refine ⟨hc, fun henv hstored r hr => ?_⟩
  rcases (hc r hr).1 with hs | he | ⟨payload, hp, he⟩
  · obtain ⟨r₀, hr₀, he⟩ := Option.mem_map.mp hs
    exact he ▸ hstored r₀ hr₀
  · exact he ▸ henv
  · exact he ▸ hp.2

end

/-! ### Two administrators -/

/-- A connector that is not enabled, and does not encrypt. -/
def idle : MailSettingsBase where
  enabled := false
  host := ['h']
  port := 25
  username := []
  useTls := false
  useSsl := false
  fromAddress := ['f']
  recipients := []
  notifyAuthEvents := false
  notifyAuditEvents := true

/-- One turns implicit TLS on, and the other STARTTLS with a new password. -/
def encrypting : Bool → Request MailSettingsBase
  | false => .update 1 ⟨{ idle with enabled := true, useSsl := true }, none⟩
  | true => .update 2 ⟨{ idle with enabled := true, useTls := true }, some ['p']⟩

def idleSeed : Seed MailSettingsBase := ⟨idle, []⟩

def turns (n : Nat) (w : Bool) : List (Turn Bool ApiError) := List.replicate n (.exec w)

/-- Both find the connector idle. -/
def encryptingRace : LTS (Sessions Bool MailSettingsBase) (Turn Bool ApiError) :=
  race validateMail idleSeed encrypting (some ⟨idle, [], 0⟩)

theorem init_encrypting : encryptingRace.init
    (start validateMail idleSeed encrypting (some ⟨idle, [], 0⟩)) := rfl

/-- One after the other: the second update is what stands. -/
theorem configured_of_asRead_encrypting :
    ∃ s, (encryptingRace.guard (Shared.Meets AsRead)).Reachable s ∧
      s.committed = some ⟨{ idle with enabled := true, useTls := true }, ['p'], 2⟩ ∧
      Configured validateMail idleSeed encrypting (some ⟨idle, [], 0⟩) s.committed ∧
      ∀ r ∈ s.committed, validateMail r.fields = none := by
  obtain ⟨s, hs, hp⟩ := LTS.guard_reachable_of_exec (f := Shared.step table Command.kind)
    (G := Shared.Meets AsRead) init_encrypting (turns 4 false ++ turns 4 true)
    (fun s => s.committed = some ⟨{ idle with enabled := true, useTls := true }, ['p'], 2⟩)
    (by decide)
  obtain ⟨hc, hvalid⟩ := configured_of_asRead validateMail idleSeed encrypting _ s hs
  exact ⟨s, hs, of_decide_eq_true hp, hc, hvalid (by decide) (by decide)⟩

/-- Both read before either writes, and the row asks for either encryption. -/
theorem both_encryptions :
    ∃ s, encryptingRace.Reachable s ∧ (∀ w, (s.prog w).isOver = true) ∧
      s.committed =
        some ⟨{ idle with enabled := true, useSsl := true, useTls := true }, ['p'], 2⟩ ∧
      Stems validateMail idleSeed encrypting (some ⟨idle, [], 0⟩) s.committed ∧
      ¬ ∀ r ∈ s.committed, validateMail r.fields = none := by
  obtain ⟨s, hs, hp⟩ := LTS.reachable_of_exec (f := Shared.step table Command.kind)
    init_encrypting (turns 1 false ++ turns 1 true ++ turns 3 false ++ turns 3 true)
    (fun s => (∀ w, (s.prog w).isOver = true) ∧ s.committed =
      some ⟨{ idle with enabled := true, useSsl := true, useTls := true }, ['p'], 2⟩)
    (by decide)
  obtain ⟨hover, hrow⟩ := of_decide_eq_true hp
  refine ⟨s, hs, hover, hrow, stems_of_asked validateMail idleSeed encrypting _ s hs, fun h => ?_⟩
  exact absurd (h _ hrow) (by decide)

/-- A provider that is set and not used. -/
def unused : OidcSettingsBase where
  enabled := false
  issuer := ['i']
  clientId := ['c']
  redirectUri := []
  postLogoutRedirectUri := []
  responseType := []
  scope := []
  oidcOnly := true
  adminGroupClaim := []
  adminGroup := []
  managerGroupClaim := []
  managerGroup := []
  restrictToGroups := false

/-- One turns it on, and the other clears it. -/
def switching : Bool → Request OidcSettingsBase
  | false => .update 1 ⟨{ unused with enabled := true }, none⟩
  | true => .update 2 ⟨{ unused with issuer := [], clientId := [] }, none⟩

theorem init_switching : (race validate ⟨unused, []⟩ switching (some ⟨unused, [], 0⟩)).init
    (start validate ⟨unused, []⟩ switching (some ⟨unused, [], 0⟩)) := rfl

/-- Single sign-on is enforced, with no provider to sign on at. -/
theorem no_issuer :
    ∃ s, (race validate ⟨unused, []⟩ switching (some ⟨unused, [], 0⟩)).Reachable s ∧
      (∀ w, (s.prog w).isOver = true) ∧
      s.committed =
        some ⟨{ unused with enabled := true, issuer := [], clientId := [] }, [], 2⟩ ∧
      ¬ ∀ r ∈ s.committed, validate r.fields = none := by
  obtain ⟨s, hs, hp⟩ := LTS.reachable_of_exec (f := Shared.step table Command.kind)
    init_switching
    (turns 1 false ++ turns 1 true ++ turns 3 false ++ turns 3 true)
    (fun s => (∀ w, (s.prog w).isOver = true) ∧ s.committed =
      some ⟨{ unused with enabled := true, issuer := [], clientId := [] }, [], 2⟩)
    (by decide)
  obtain ⟨hover, hrow⟩ := of_decide_eq_true hp
  exact ⟨s, hs, hover, hrow, fun h => absurd (h _ hrow) (by decide)⟩

end MailserverUi.L5.SettingsRace

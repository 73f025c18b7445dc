import MailserverUi.L4App.LateStart

/-!
# Two workers at start-up

Both create the tables, bring the schema up to date and seed the administrator, each
in a session of its own. The first and the third expect a faster sibling; the
migration looks at the columns first and alters them later.

`Ready p v` says of a committed file that it has come as far as phase `p`. A session
of a phase takes it to the next one, however far the other worker takes it meanwhile
(`Steady`), if the statements of the migration are timely.

Results:
* `steady_session`: the session of each phase.
* `starts_of_timely`: every interleaving whose statements are timely ends as one
  worker alone does, with one administrator if there was none.
* `column_added_twice`: both workers inspect the columns before either adds one.
-/
namespace MailserverUi.L5.StartupRace

open Py L2.Schema L3.Migration L3.MigrationSpec L3.CreationSpec L3.Seeding L4.SchemaUpgrade
  L4.LateStart

/-! ## The workers -/

inductive Phase where
  | creating
  | migrating
  | seeding
  | done
  | failed (e : SqlError)
  deriving DecidableEq

structure Startup where
  sessions : Shared Bool Stmt Reply SqlError Unit Tables
  phase : Bool → Phase

/-- The next statement of a worker, or the end of its session, where it goes on. -/
inductive Move where
  | statement (worker : Bool)
  | next (worker : Bool)

/-- How a session has ended. -/
def outcome : Work Unit → Option (Except SqlError Unit)
  | .pure () => some (.ok ())
  | .raise e => some (.error e)
  | .call .. => none

/-- mirrors backend/app/database.py:122-135 and backend/app/main.py:44-46 -/
def Phase.after : Phase → Except SqlError Unit → Option Phase
  | .creating, .ok () => some .migrating
  | .creating, .error e => some (if e.alreadyExists then .migrating else .failed e)
  | .migrating, .ok () => some .seeding
  | .seeding, .ok () => some .done
  | .migrating, .error e | .seeding, .error e => some (.failed e)
  | .done, _ | .failed _, _ => none

section
variable (adminUsername : Str) (seed : Bool → Seed)

/-- The session of a worker in a phase. -/
def sessionOf (worker : Bool) : Phase → Work Unit
  | .creating => createAll >>= fun _ => commit
  | .migrating => migrateSchema >>= fun _ => commit
  | .seeding => ensureDefaultAdmin adminUsername (seed worker)
  | .done | .failed _ => .pure ()

def step (s : Startup) : Move → Option Startup
  | .statement w =>
    (Shared.step sqliteFile Stmt.kind s.sessions (.exec w)).map fun t => { s with sessions := t }
  | .next w => do
    let r ← outcome (s.sessions.prog w)
    let p ← (s.phase w).after r
    return {
      sessions := { s.sessions with
        prog := Function.update s.sessions.prog w (sessionOf adminUsername seed w p) }
      phase := Function.update s.phase w p }

def start (d : Tables) : Startup where
  sessions := ⟨d, none, fun w => sessionOf adminUsername seed w .creating⟩
  phase _ := .creating

def race (d : Tables) : LTS Startup Move :=
  LTS.ofFn (· = start adminUsername seed d) (step adminUsername seed)

/-- What one worker alone leaves. -/
def alone (worker : Bool) (d : Tables) : Tables :=
  ((createDbAndTables >>= fun _ => ensureDefaultAdmin adminUsername (seed worker)).run
    sqliteFile d).2

end

/-- The condition on the statement of a move. -/
def Timed (s : Startup) : Move → Prop
  | .statement w => s.sessions.Meets Timely (.exec w)
  | .next _ => True

/-! ## How far the file has come -/

section
variable (adminUsername : Str) (seed : Bool → Seed) (d : Tables)

/-- A worker has seeded the administrator. -/
def Seeded (v : Tables) : Prop :=
  admins d = 0 ∧ ∃ w, (Change.insert userTable (adminRow adminUsername (seed w))).apply
    (upgraded d) = .ok v

def Phase.rank : Phase → Nat
  | .creating => 0
  | .migrating => 1
  | .seeding => 2
  | .done => 3
  | .failed _ => 4

/-- The file as the phase before has left it. -/
def Reached : Phase → Tables → Prop
  | .creating, v => v = d
  | .migrating, v => v = withTables d
  | .seeding, v => v = upgraded d
  | .done, v => v = upgraded d ∧ admins d ≠ 0 ∨ Seeded adminUsername seed d v
  | .failed _, _ => False

/-- The file has come as far as the phase. -/
def Ready (p : Phase) (v : Tables) : Prop := ∃ q, p.rank ≤ q.rank ∧ Reached adminUsername seed d q v

def Le (v v' : Tables) : Prop :=
  ∀ p, Ready adminUsername seed d p v → Ready adminUsername seed d p v'

/-- A session of a phase ends where the next phase starts. -/
def Ends (p : Phase) (r : Except SqlError Unit) (t : Tx Tables) : Prop :=
  ∀ p' ∈ p.after r, Ready adminUsername seed d p' t.committed

def Steady (p : Phase) : Work Unit → Tx Tables → Prop :=
  Prog.Stable sqliteFile Stmt.kind (Le adminUsername seed d) Timely
    (fun a => Ends adminUsername seed d p (.ok a)) fun e => Ends adminUsername seed d p (.error e)

end

/-- A database of the old schema, with the accounts. -/
structure OldFile (d : Tables) : Prop where
  schema : OldSchema d
  users : ∀ t ∈ d.get? userTable, WasUserTable t

section
variable {adminUsername : Str} {seed : Bool → Seed} {d v : Tables}

theorem le_refl (v : Tables) : Le adminUsername seed d v v := fun _ => id

theorem le_trans {x y z : Tables} (h : Le adminUsername seed d x y)
    (h' : Le adminUsername seed d y z) : Le adminUsername seed d x z := fun p hp => h' p (h p hp)

theorem Ready.of_le {p q : Phase} (h : Ready adminUsername seed d q v) (hpq : p.rank ≤ q.rank) :
    Ready adminUsername seed d p v := by
  obtain ⟨r, hr, hv⟩ := h
  exact ⟨r, hpq.trans hr, hv⟩

/-- It has come to the phase, or further. -/
theorem Ready.cases {p : Phase} (h : Ready adminUsername seed d p v) :
    Reached adminUsername seed d p v ∨ ∃ q, p.rank < q.rank ∧ Reached adminUsername seed d q v := by
  obtain ⟨q, hpq, hq⟩ := h
  rcases hpq.eq_or_lt with heq | hlt
  · left
    cases q <;> cases p <;> cases heq <;> exact hq
  · exact .inr ⟨q, hlt, hq⟩

theorem Ready.creating (h : Ready adminUsername seed d .creating v) :
    v = d ∨ Ready adminUsername seed d .migrating v := h.cases

theorem Ready.migrating (h : Ready adminUsername seed d .migrating v) :
    v = withTables d ∨ Ready adminUsername seed d .seeding v := h.cases

theorem Ready.done (h : Ready adminUsername seed d .done v) :
    v = upgraded d ∧ admins d ≠ 0 ∨ Seeded adminUsername seed d v := by
  rcases h.cases with h | ⟨q, hlt, hq⟩
  · exact h
  · cases q with
    | failed => exact hq.elim
    | creating | migrating | seeding | done => simp [Phase.rank] at hlt

theorem Ready.seeding (h : Ready adminUsername seed d .seeding v) :
    v = upgraded d ∨ Seeded adminUsername seed d v := by
  rcases h.cases with h | h
  · exact .inl h
  · have hdone : Ready adminUsername seed d .done v := h
    exact hdone.done.imp_left And.left

theorem not_ready_failed {e : SqlError} : ¬ Ready adminUsername seed d (.failed e) v := by
  rintro ⟨q, hle, hq⟩
  cases q with
  | failed => exact hq
  | creating | migrating | seeding | done => simp [Phase.rank] at hle

/-- The file has come to a phase, and had not come further. -/
theorem le_of_ready {p : Phase} {v' : Tables} (h : Ready adminUsername seed d p v')
    (hn : ∀ q, p.rank < q.rank → ¬ Ready adminUsername seed d q v) :
    Le adminUsername seed d v v' :=
  fun q hq => h.of_le (not_lt.mp fun hlt => hn q hlt hq)

/-- A commit at the end of a session. -/
theorem steady_commit {p : Phase} (p' : Phase) (hp : p.after (.ok ()) = some p') {t : Tx Tables}
    (hle : Le adminUsername seed d t.committed t.view) (hr : Ready adminUsername seed d p' t.view) :
    Steady adminUsername seed d p commit t := by
  rintro ⟨x, w⟩ ⟨hw, hx, hlock⟩ -
  obtain rfl : w = t.working := hw
  suffices h : Le adminUsername seed d x (Tx.view ⟨x, t.working⟩) ∧
      Ready adminUsername seed d p' (Tx.view ⟨x, t.working⟩) from
    ⟨h.1, fun q hq => by cases hp.symm.trans hq; exact h.2⟩
  cases hworking : t.working with
  | none =>
    rw [Tx.view, hworking] at hr
    exact ⟨le_refl x, hx p' hr⟩
  | some y =>
    obtain rfl : x = t.committed := hlock (hworking ▸ Option.some_ne_none y)
    rw [Tx.view, hworking] at hle hr
    exact ⟨hle, hr⟩

theorem steady_commit_copy {p : Phase} (p' : Phase) (hp : p.after (.ok ()) = some p') {x y : Tables}
    (hle : Le adminUsername seed d x y) (hr : Ready adminUsername seed d p' y) :
    Steady adminUsername seed d p commit ⟨x, some y⟩ := steady_commit p' hp hle hr

/-! ### The accounts -/

/-- The accounts in a file that a worker may seed. -/
inductive Accounts (adminUsername : Str) (seed : Bool → Seed) (d v : Tables) (t : SqlTable) :
    Prop where
  | upgraded (hv : v = upgraded d) (count : rowCount t localAdmin = admins d)
      (named : Named t adminUsername ↔ NameTaken d adminUsername)
  | seeded (hv : Seeded adminUsername seed d v) (count : rowCount t localAdmin = 1)
      (named : Named t adminUsername)

theorem seeded_set (hd : OldFile d) (hname : admins d = 0 → ¬ NameTaken d adminUsername)
    (h : Seeded adminUsername seed d v) : ∃ t t' w, (upgraded d).get? userTable = some t ∧
      v = (upgraded d).set userTable t' ∧ IsUserTable t ∧ rowCount t localAdmin = 0 ∧
      Extended t t' (t.valueOf (adminRow adminUsername (seed w))) := by
  obtain ⟨h0, w, happly⟩ := h
  obtain ⟨t, hg, ht, hcount, hnamed⟩ := exists_userTable hd.schema hd.users
  obtain ⟨t', hins, hext⟩ := insert_free ht (mt (hnamed _).mp (hname h0)) (seed w)
  simp only [Change.apply, Tables.alter, hg, hins, Except.map, Except.ok.injEq] at happly
  exact ⟨t, t', w, hg, happly.symm, ht, hcount.trans h0, hext⟩

theorem exists_accounts (hd : OldFile d) (hname : admins d = 0 → ¬ NameTaken d adminUsername)
    (hv : Ready adminUsername seed d .seeding v) : ∃ t, v.get? userTable = some t ∧
      IsUserTable t ∧ Accounts adminUsername seed d v t := by
  rcases hv.seeding with rfl | hs
  · obtain ⟨t, hg, ht, hcount, hnamed⟩ := exists_userTable hd.schema hd.users
    exact ⟨t, hg, ht, .upgraded rfl hcount (hnamed _)⟩
  · obtain ⟨t, t', w, -, hset, ht, hcount, hext⟩ := seeded_set hd hname hs
    have hg : v.get? userTable = some t' := by rw [hset, Dict.get?_set, if_pos rfl]
    refine ⟨t', hg, hext.isUserTable ht, .seeded hs ?_ (hext.named ht)⟩
    rw [rowCount_extended hext (localAdmin_adminRow ht), hcount]

theorem current_of_ready (hd : OldFile d) (hname : admins d = 0 → ¬ NameTaken d adminUsername)
    (hv : Ready adminUsername seed d .seeding v) : Current v := by
  rcases hv.seeding with rfl | hs
  · exact current_upgraded hd.schema
  · obtain ⟨t, t', w, hg, rfl, ht, -, hext⟩ := seeded_set hd hname hs
    refine (current_upgraded hd.schema).set hg fun x => ?_
    rw [(hext.isUserTable ht).keys, ht.keys]

theorem admins_seeded (hd : OldFile d) (hname : admins d = 0 → ¬ NameTaken d adminUsername)
    (h : Seeded adminUsername seed d v) : admins v = 1 := by
  obtain ⟨t, t', w, -, rfl, ht, hcount, hext⟩ := seeded_set hd hname h
  rw [admins, Dict.get?_set, if_pos rfl, Option.map_some, Option.getD_some,
    rowCount_extended hext (localAdmin_adminRow ht), hcount]

theorem hasTables_of_ready (hd : OldFile d)
    (hname : admins d = 0 → ¬ NameTaken d adminUsername)
    (hv : Ready adminUsername seed d .migrating v) : HasTables v := by
  rcases hv.migrating with rfl | hv
  · exact hasTables_withTables d
  · exact (current_of_ready hd hname hv).tables

/-! ### The three sessions -/

theorem steady_creating (hd : OldFile d) (hname : admins d = 0 → ¬ NameTaken d adminUsername)
    (hv : Ready adminUsername seed d .creating v) (w : Bool) :
    Steady adminUsername seed d .creating (sessionOf adminUsername seed w .creating) ⟨v, none⟩ := by
  have hs := settled_creates (Le adminUsername seed d)
    (Ready adminUsername seed d .migrating) (fun _ _ hv hle => hle _ hv)
    (fun _ => hasTables_of_ready hd hname) Timely
  have hcommit (a : Unit) (t : Tx Tables) (ht : t.view = t.committed)
      (hl : Ready adminUsername seed d .migrating t.committed) :
      Steady adminUsername seed d .creating commit t :=
    steady_commit .migrating rfl (ht ▸ le_refl _) (ht ▸ hl)
  have herror (e : SqlError) (t : Tx Tables) (he : e.alreadyExists = true)
      (hl : Ready adminUsername seed d .migrating t.committed) :
      Ends adminUsername seed d .creating (.error e) t := by
    intro p hp
    rw [Phase.after, he, if_pos rfl] at hp
    cases hp
    exact hl
  refine Prog.Stable.bind ?_
  by_cases hm : Ready adminUsername seed d .migrating v
  · exact copes_createAll.stable hs le_refl hcommit herror rfl hm
  · obtain rfl : d = v := (hv.creating.resolve_right hm).symm
    have hready : Ready adminUsername seed d .migrating (withTables d) :=
      ⟨.migrating, le_rfl, rfl⟩
    have hle : Le adminUsername seed d d (withTables d) :=
      le_of_ready hready fun q hq h => hm (h.of_le (Nat.le_of_lt hq))
    refine copes_createAll.solo hs le_refl (fun _ v hk => exec_read hk v) hcommit herror
      (fun c _ hk _ => ?_) (fun u hu => (hu .creating hv).creating) issues_createAll
      (run_createAll hd.schema) (steady_commit_copy .migrating rfl hle hready) fun he => ?_
    · cases c with
      | change => cases hk
      | _ => trivial
    · rw [he] at hready
      exact absurd hready hm

theorem steady_migrating (hd : OldFile d) (hname : admins d = 0 → ¬ NameTaken d adminUsername)
    (hv : Ready adminUsername seed d .migrating v) (w : Bool) :
    Steady adminUsername seed d .migrating (sessionOf adminUsername seed w .migrating)
      ⟨v, none⟩ := by
  have hs := settled_listed (Le adminUsername seed d)
    (Ready adminUsername seed d .seeding) (fun _ _ hv hle => hle _ hv)
    fun _ => current_of_ready hd hname
  have hcommit (a : Unit) (t : Tx Tables) (ht : t.view = t.committed)
      (hl : Ready adminUsername seed d .seeding t.committed) :
      Steady adminUsername seed d .migrating commit t :=
    steady_commit .seeding rfl (ht ▸ le_refl _) (ht ▸ hl)
  refine Prog.Stable.bind ?_
  by_cases hm : Ready adminUsername seed d .seeding v
  · exact copes_migrating.stable hs le_refl hcommit (fun e t he => he.elim) rfl hm
  · obtain rfl : v = withTables d := hv.migrating.resolve_right hm
    have hready : Ready adminUsername seed d .seeding (upgraded d) := ⟨.seeding, le_rfl, rfl⟩
    have hle : Le adminUsername seed d (withTables d) (upgraded d) :=
      le_of_ready hready fun q hq h => hm (h.of_le (Nat.le_of_lt hq))
    refine copes_migrating.solo hs le_refl (fun _ v hk => exec_read hk v) hcommit
      (fun e t he => he.elim) (fun c _ => fine_read) (fun u hu => (hu .migrating hv).migrating)
      (issues_listed.mono fun _ => Listed.kind_ne) (run_migrateSchema hd.schema)
      (steady_commit_copy .seeding rfl hle hready) fun he => ?_
    rw [he] at hready
    exact absurd hready hm

/-- The worker looks for a local administrator. -/
theorem hasRow_ready (hd : OldFile d) (hname : admins d = 0 → ¬ NameTaken d adminUsername)
    (hv : Ready adminUsername seed d .seeding v) :
    v.hasRow userTable userColumns localAdmin = .ok true ∧
        Ready adminUsername seed d .done v ∨
      v.hasRow userTable userColumns localAdmin = .ok false ∧ admins d = 0 := by
  obtain ⟨t, hg, ht, ha⟩ := exists_accounts hd hname hv
  rw [hasRow_users hg ht]
  cases ha with
  | upgraded hu hcount =>
    by_cases h0 : admins d = 0
    · right
      simp [hcount, h0]
    · left
      rw [hcount, decide_eq_true (Nat.pos_of_ne_zero h0)]
      exact ⟨rfl, .done, le_rfl, .inl ⟨hu, h0⟩⟩
  | seeded hs hcount =>
    left
    rw [hcount]
    exact ⟨rfl, .done, le_rfl, .inr hs⟩

/-- The worker inserts one. -/
theorem insert_ready (hd : OldFile d) (hname : admins d = 0 → ¬ NameTaken d adminUsername)
    (hv : Ready adminUsername seed d .seeding v) (h0 : admins d = 0) (w : Bool) :
    (∃ v', (Change.insert userTable (adminRow adminUsername (seed w))).apply v = .ok v' ∧
        Ready adminUsername seed d .done v') ∨
      ∃ e, (Change.insert userTable (adminRow adminUsername (seed w))).apply v = .error e ∧
        e.integrity = true ∧ Ready adminUsername seed d .done v := by
  obtain ⟨t, hg, ht, ha⟩ := exists_accounts hd hname hv
  cases ha with
  | upgraded hu hcount hnamed =>
    obtain ⟨t', hins, -⟩ := insert_free ht (mt hnamed.mp (hname h0)) (seed w)
    have happly : (Change.insert userTable (adminRow adminUsername (seed w))).apply v =
        .ok (v.set userTable t') := by
      simp only [Change.apply, Tables.alter, hg, hins, Except.map]
    exact .inl ⟨_, happly, .done, le_rfl, .inr ⟨h0, w, hu ▸ happly⟩⟩
  | seeded hs hcount hnamed =>
    refine .inr ⟨.uniqueFailed "username".toList, ?_, rfl, .done, le_rfl, .inr hs⟩
    simp only [Change.apply, Tables.alter, hg, insert_taken ht hnamed, Except.map]

theorem steady_seeding (hd : OldFile d) (hname : admins d = 0 → ¬ NameTaken d adminUsername)
    (hv : Ready adminUsername seed d .seeding v) (w : Bool) :
    Steady adminUsername seed d .seeding (sessionOf adminUsername seed w .seeding) ⟨v, none⟩ := by
  rintro ⟨v₁, w₁⟩ ⟨hw₁, hv₁, -⟩ -
  obtain rfl : w₁ = none := hw₁
  have hready := hv₁ .seeding hv
  refine ⟨le_refl _, ?_⟩
  rcases hasRow_ready hd hname hready with ⟨hrow, hdone⟩ | ⟨hrow, h0⟩
  · simp only [Machine.inTx, sqliteFile, Stmt.exec, Stmt.kind, Tx.view, Option.getD_none, hrow]
    intro p hp
    cases hp
    exact hdone
  simp only [Machine.inTx, sqliteFile, Stmt.exec, Stmt.kind, Tx.view, Option.getD_none, hrow]
  rintro ⟨v₂, w₂⟩ ⟨hw₂, hv₂, -⟩ -
  obtain rfl : w₂ = none := hw₂
  refine ⟨le_refl _, ?_⟩
  rcases insert_ready hd hname (hv₂ .seeding hready) h0 w with
    ⟨v', happly, hdone⟩ | ⟨e, happly, he, hdone⟩
  · simp only [Machine.inTx, Stmt.exec, Stmt.kind, Tx.view, Option.getD_none, happly]
    exact steady_commit_copy .done rfl
      (le_of_ready hdone fun q hq h => not_ready_failed (e := .noSuchTable []) (h.of_le hq)) hdone
  · simp only [Machine.inTx, Stmt.exec, Stmt.kind, Tx.view, Option.getD_none, happly, he, if_true]
    intro p hp
    cases hp
    exact hdone

theorem steady_session (hd : OldFile d) (hname : admins d = 0 → ¬ NameTaken d adminUsername)
    {p : Phase} (hv : Ready adminUsername seed d p v) (w : Bool) :
    Steady adminUsername seed d p (sessionOf adminUsername seed w p) ⟨v, none⟩ := by
  cases p with
  | creating => exact steady_creating hd hname hv w
  | migrating => exact steady_migrating hd hname hv w
  | seeding => exact steady_seeding hd hname hv w
  | done => exact fun p hp => by cases hp
  | failed e => exact fun p hp => by cases hp

/-! ## Runs -/

/-- The file has come as far as each worker has, and their sessions go on from there. -/
structure Inv (adminUsername : Str) (seed : Bool → Seed) (d : Tables) (s : Startup) : Prop where
  ready : ∀ w, Ready adminUsername seed d (s.phase w) s.sessions.committed
  steady : ∀ w, Steady adminUsername seed d (s.phase w) (s.sessions.prog w) (s.sessions.tx w)
  held : s.sessions.Held

theorem outcome_cases {p : Work Unit} {r : Except SqlError Unit} (h : outcome p = some r) :
    p = .pure () ∧ r = .ok () ∨ ∃ e, p = .raise e ∧ r = .error e := by
  cases p with
  | pure u =>
    cases h
    exact .inl ⟨rfl, rfl⟩
  | raise e =>
    cases h
    exact .inr ⟨e, rfl, rfl⟩
  | call => cases h

theorem step_next {s s' : Startup} {w : Bool} (h : step adminUsername seed s (.next w) = some s') :
    ∃ r p, outcome (s.sessions.prog w) = some r ∧ (s.phase w).after r = some p ∧
      s'.phase = Function.update s.phase w p ∧
      s'.sessions.prog = Function.update s.sessions.prog w (sessionOf adminUsername seed w p) ∧
      s'.sessions.committed = s.sessions.committed ∧
      s'.sessions.writer = s.sessions.writer := by
  obtain ⟨r, hr, h⟩ := Option.bind_eq_some_iff.mp h
  obtain ⟨p, hp, h⟩ := Option.bind_eq_some_iff.mp h
  cases h
  exact ⟨r, p, hr, hp, rfl, rfl, rfl, rfl⟩

theorem ends_of_outcome {p : Phase} {prog : Work Unit} {t : Tx Tables} {r : Except SqlError Unit}
    (h : Steady adminUsername seed d p prog t) (hr : outcome prog = some r) :
    Ends adminUsername seed d p r t := by
  rcases outcome_cases hr with ⟨rfl, rfl⟩ | ⟨e, rfl, rfl⟩
  · exact h
  · exact h

theorem inv_start (hd : OldFile d) (hname : admins d = 0 → ¬ NameTaken d adminUsername) :
    Inv adminUsername seed d (start adminUsername seed d) := by
  have hready : Ready adminUsername seed d .creating d := ⟨.creating, le_rfl, rfl⟩
  exact ⟨fun _ => hready, fun w => steady_creating hd hname hready w, fun w hw => by cases hw⟩

theorem Inv.statement {s : Startup} {t : Shared Bool Stmt Reply SqlError Unit Tables} {w : Bool}
    (h : Inv adminUsername seed d s) (hg : s.sessions.Meets Timely (.exec w))
    (hs : Shared.step sqliteFile Stmt.kind s.sessions (.exec w) = some t) :
    Inv adminUsername seed d { s with sessions := t } := by
  obtain ⟨hle, hself, hothers⟩ := Shared.step_stable le_refl (fun _ _ hq => hq)
    (fun _ _ he => he) (h.steady w) hg hs
  refine ⟨fun i => hle _ (h.ready i), fun i => ?_, ?_⟩
  · by_cases hi : i = w
    · rw [hi]
      exact hself
    · obtain ⟨hprog, hev⟩ := hothers i hi
      have hsteady := h.steady i
      change Steady adminUsername seed d (s.phase i) (t.prog i) (t.tx i)
      rw [hprog]
      exact hsteady.mono (fun _ _ _ => le_trans) (fun _ _ _ he hq p hp => he.committed p (hq p hp))
        (fun _ _ _ he hq p hp => he.committed p (hq p hp)) hev
  · obtain ⟨c, k, -, -, rfl⟩ := Shared.step_exec hs
    exact h.held.goOn

theorem Inv.next {s s' : Startup} {w : Bool} (hd : OldFile d)
    (hname : admins d = 0 → ¬ NameTaken d adminUsername) (h : Inv adminUsername seed d s)
    (hs : step adminUsername seed s (.next w) = some s') : Inv adminUsername seed d s' := by
  obtain ⟨r, p, hr, hp, hphase, hprog, hcommitted, hwriter⟩ := step_next hs
  have hover : (s.sessions.prog w).isOver = true := by
    rcases outcome_cases hr with ⟨he, -⟩ | ⟨e, he, -⟩ <;> rw [he] <;> rfl
  have hready : Ready adminUsername seed d p s.sessions.committed :=
    ends_of_outcome (h.steady w) hr p hp
  have htx (i : Bool) : s'.sessions.tx i = s.sessions.tx i := by
    rw [Shared.tx, Shared.tx, hcommitted, hwriter]
  refine ⟨fun i => ?_, fun i => ?_, fun x hx => ?_⟩
  · rw [hcommitted, hphase]
    by_cases hi : i = w
    · rw [hi, Function.update_self]
      exact hready
    · rw [Function.update_of_ne hi]
      exact h.ready i
  · rw [htx, hprog, hphase]
    by_cases hi : i = w
    · have hnone : s.sessions.tx w = ⟨s.sessions.committed, none⟩ := by
        rw [← h.held.working hover]
        rfl
      rw [hi, Function.update_self, Function.update_self, hnone]
      exact steady_session hd hname hready w
    · rw [Function.update_of_ne hi, Function.update_of_ne hi]
      exact h.steady i
  · rw [hwriter] at hx
    have hnot : (s.sessions.prog x.1).isOver = false := h.held x hx
    have hne : x.1 ≠ w := fun e => by
      rw [e, hover] at hnot
      cases hnot
    rw [hprog, Function.update_of_ne hne]
    exact hnot

theorem inv_inductive (hd : OldFile d) (hname : admins d = 0 → ¬ NameTaken d adminUsername) :
    ((race adminUsername seed d).guard Timed).Inductive (Inv adminUsername seed d) where
  init s hs := by
    rw [show s = start adminUsername seed d from hs]
    exact inv_start hd hname
  step s m s' h hs := by
    obtain ⟨hg, hs⟩ := hs
    cases m with
    | statement w =>
      obtain ⟨t, ht, rfl⟩ := Option.map_eq_some_iff.mp hs
      exact h.statement hg ht
    | next w => exact h.next hd hname hs

/-! ### Every run ends -/

def Phase.left : Phase → Nat
  | .creating => 3
  | .migrating => 2
  | .seeding => 1
  | .done | .failed _ => 0

/-- What a worker has before it. -/
def toGo (s : Startup) (w : Bool) : Nat × Work Unit := ((s.phase w).left, s.sessions.prog w)

theorem left_after {p p' : Phase} {r : Except SqlError Unit} (h : p.after r = some p') :
    p'.left < p.left := by
  cases p with
  | creating =>
    cases r with
    | ok u =>
      cases h
      decide
    | error e =>
      rw [Phase.after] at h
      split at h
      · cases h
        decide
      · cases h
        exact Nat.succ_pos 2
  | migrating =>
    cases r with
    | ok u =>
      cases h
      decide
    | error e =>
      cases h
      exact Nat.succ_pos 1
  | seeding =>
    cases r with
    | ok u =>
      cases h
      decide
    | error e =>
      cases h
      exact Nat.succ_pos 0
  | done => cases h
  | failed e => cases h

theorem toGo_step {s s' : Startup} {m : Move} (h : step adminUsername seed s m = some s') :
    ∃ w, Prod.Lex (· < ·) Prog.Rest (toGo s' w) (toGo s w) ∧ ∀ i, i ≠ w → toGo s' i = toGo s i := by
  cases m with
  | statement w =>
    obtain ⟨t, ht, rfl⟩ := Option.map_eq_some_iff.mp h
    obtain ⟨c, k, hp, -, rfl⟩ := Shared.step_exec ht
    refine ⟨w, ?_, fun i hi => ?_⟩
    · simp only [toGo, Shared.goOn, Function.update_self, hp]
      exact .right _ (.call c k _)
    · simp only [toGo, Shared.goOn, Function.update_of_ne hi]
  | next w =>
    obtain ⟨r, p, -, hp, hphase, hprog, -, -⟩ := step_next h
    refine ⟨w, ?_, fun i hi => ?_⟩
    · simp only [toGo, hphase, hprog, Function.update_self]
      exact .left _ _ (left_after hp)
    · simp only [toGo, hphase, hprog, Function.update_of_ne hi]

theorem wellFounded_step :
    WellFounded fun s' s => ∃ m, step adminUsername seed s m = some s' := by
  have hlex : WellFounded (Prod.Lex (· < · : Nat → Nat → Prop)
      (Prog.Rest (C := Stmt) (R := Reply) (ε := SqlError) (α := Unit))) :=
    ⟨fun x => Prod.lexAccessible (Nat.lt_wfRel.wf.apply x.1) Prog.wellFounded_rest.apply x.2⟩
  refine Subrelation.wf ?_ (InvImage.wf (fun s => (toGo s false, toGo s true))
    (hlex.prod_gameAdd hlex))
  rintro s' s ⟨m, hs⟩
  obtain ⟨w, hw, hothers⟩ := toGo_step hs
  change Prod.GameAdd _ _ (toGo s' false, toGo s' true) (toGo s false, toGo s true)
  cases w with
  | false =>
    rw [hothers true (by decide)]
    exact .fst hw
  | true =>
    rw [hothers false (by decide)]
    exact .snd hw

/-! ### No worker waits for ever -/

theorem exists_after {p : Phase} (hp : p ≠ .done) (hf : ∀ e, p ≠ .failed e)
    (r : Except SqlError Unit) : ∃ p', p.after r = some p' := by
  cases p with
  | done => exact absurd rfl hp
  | failed e => exact absurd rfl (hf e)
  | creating | migrating | seeding => cases r <;> exact ⟨_, rfl⟩

theorem exists_outcome {p : Work Unit} (h : p.isOver = true) : ∃ r, outcome p = some r := by
  cases p with
  | pure u => exact ⟨_, rfl⟩
  | raise e => exact ⟨_, rfl⟩
  | call => cases h

/-- A session that does not wait goes on. -/
theorem exists_statement {s : Startup} {w : Bool} (h : (s.sessions.prog w).isOver = false)
    (hw : ¬ s.sessions.Waits w) :
    ∃ s', step adminUsername seed s (.statement w) = some s' := by
  cases hp : s.sessions.prog w with
  | pure u =>
    rw [hp] at h
    cases h
  | raise e =>
    rw [hp] at h
    cases h
  | call c k =>
    have hstep : ∃ t, Shared.step sqliteFile Stmt.kind s.sessions (.exec w) = some t := by
      simp only [Shared.step, hp]
      exact ⟨_, if_neg fun hwait => hw hwait.2⟩
    obtain ⟨t, ht⟩ := hstep
    exact ⟨_, Option.map_eq_some_iff.mpr ⟨t, ht, rfl⟩⟩

theorem Inv.moves {s : Startup} (h : Inv adminUsername seed d s) {w : Bool}
    (hw : s.phase w ≠ .done) : ∃ m s', step adminUsername seed s m = some s' := by
  cases hover : (s.sessions.prog w).isOver with
  | true =>
    obtain ⟨r, hr⟩ := exists_outcome hover
    obtain ⟨p, hp⟩ := exists_after hw (fun e he => not_ready_failed (he ▸ h.ready w)) r
    refine ⟨.next w, ?_⟩
    simp only [step, hr, hp, Option.bind_eq_bind, Option.bind_some]
    exact ⟨_, rfl⟩
  | false =>
    by_cases hwait : s.sessions.Waits w
    · -- then it is the other one that has the lock, and it is not over
      obtain ⟨x, hx, -⟩ := hwait
      refine ⟨.statement x.1, exists_statement (h.held x hx) ?_⟩
      rintro ⟨y, hy, hne⟩
      cases hx.symm.trans hy
      exact hne rfl
    · exact ⟨.statement w, exists_statement hover hwait⟩

/-! ## What the workers leave -/

theorem alone_upgraded (hd : OldFile d) (h0 : admins d ≠ 0) (w : Bool) :
    alone adminUsername seed w d = upgraded d := by
  obtain ⟨t, hg, ht, hcount, -⟩ := exists_userTable hd.schema hd.users
  have hrow := hasRow_users hg ht
  rw [hcount, decide_eq_true (Nat.pos_of_ne_zero h0)] at hrow
  rw [alone, Prog.run_bind, run_createDbAndTables hd.schema]
  simp only [ensureDefaultAdmin, Prog.run, sqliteFile, Stmt.exec, hrow]

theorem alone_seeded (hd : OldFile d) (h0 : admins d = 0) {w : Bool}
    (h : (Change.insert userTable (adminRow adminUsername (seed w))).apply (upgraded d) = .ok v) :
    alone adminUsername seed w d = v := by
  obtain ⟨t, hg, ht, hcount, -⟩ := exists_userTable hd.schema hd.users
  have hrow := hasRow_users hg ht
  rw [hcount, h0] at hrow
  rw [alone, Prog.run_bind, run_createDbAndTables hd.schema]
  simp only [ensureDefaultAdmin, Prog.run, sqliteFile, Stmt.exec, hrow, Nat.lt_irrefl,
    decide_false, h, commit]

/-- What is asked of two workers that start on `d`. -/
structure Good (adminUsername : Str) (seed : Bool → Seed) (d : Tables) (s : Startup) : Prop where
  /-- neither raises -/
  unfailed : ∀ w e, s.phase w ≠ .failed e
  /-- they go on until both are done -/
  moves : (∃ w, s.phase w ≠ .done) → ∃ m s', step adminUsername seed s m = some s'
  /-- they leave what one of them leaves alone -/
  same : (∀ w, s.phase w = .done) → ∃ w, s.sessions.committed = alone adminUsername seed w d
  seeded : (∀ w, s.phase w = .done) → admins d = 0 → admins s.sessions.committed = 1

/-- The workers are done after finitely many moves, and what they leave is good, if the
statements of the migration are timely. -/
theorem starts_of_timely (hd : OldFile d) (hname : admins d = 0 → ¬ NameTaken d adminUsername) :
    (WellFounded fun s' s => ∃ m, step adminUsername seed s m = some s') ∧
      ∀ s, ((race adminUsername seed d).guard Timed).Reachable s →
        Good adminUsername seed d s := by
  refine ⟨wellFounded_step, fun s hs => ?_⟩
  have hi := (inv_inductive hd hname).reachable s hs
  have hdone (h : ∀ w, s.phase w = .done) :
      s.sessions.committed = upgraded d ∧ admins d ≠ 0 ∨
        Seeded adminUsername seed d s.sessions.committed := by
    have hready := hi.ready false
    rw [h false] at hready
    exact hready.done
  refine ⟨fun w e he => not_ready_failed (he ▸ hi.ready w), fun ⟨w, hw⟩ => hi.moves hw,
    fun h => ?_, fun h h0 => ?_⟩
  · rcases hdone h with ⟨hv, h0⟩ | ⟨h0, w, happly⟩
    · exact ⟨false, hv.trans (alone_upgraded hd h0 false).symm⟩
    · exact ⟨w, (alone_seeded hd h0 happly).symm⟩
  · exact admins_seeded hd hname ((hdone h).resolve_left fun h => h.2 h0)

end

/-! ### A file whose groups have no role yet -/

instance (s : Startup) (m : Move) : Decidable (Timed s m) := by
  cases m with
  | statement w => exact inferInstanceAs (Decidable (s.sessions.Meets Timely (.exec w)))
  | next => exact isTrue trivial

def oldGroup : TableDecl :=
  declared "group" ["name", "description", "id", "created_at", "updated_at"] [] ["id"]
    [unique "name"]

def groupFile : Tables := withTables (Dict.empty.set oldGroup.name (complete oldGroup))

def seedOf (worker : Bool) : Seed where
  passwordHash := if worker then "$2b$12$b".toList else "$2b$12$a".toList
  now := "2026-01-01 00:00:00".toList

def statements (n : Nat) (worker : Bool) : List Move := List.replicate n (.statement worker)

/-- A worker that finds all tables, and the columns of each. -/
def lookedAt (worker : Bool) : List Move :=
  statements 9 worker ++ .next worker :: statements 9 worker

theorem wasUserTable_complete : WasUserTable (complete userDecl) where
  keys x := by
    refine (isUserTable_complete.keys x).symm.trans (or_iff_left_of_imp fun e => ?_).symm
    rw [e]
    exact (isUserTable_complete.keys _).mpr (by decide)
  lastLogin := lastLogin_complete
  primaryKey := rfl
  indexes := rfl

theorem users_groupFile : groupFile.get? userTable = some (complete userDecl) :=
  get?_withTables_missing (show userDecl ∈ missing _ from
    List.mem_filter.mpr ⟨userDecl_mem, by decide⟩)

theorem oldFile_groupFile : OldFile groupFile where
  schema := oldSchema_withDecls (by decide) fun _ hm => (mem_metadata hm).1
  users t ht := by
    cases users_groupFile.symm.trans ht
    exact wasUserTable_complete

theorem name_groupFile (username : Str) : ¬ NameTaken groupFile username := by
  rintro ⟨t, ht, hn⟩
  cases users_groupFile.symm.trans ht
  exact not_named_complete userDecl username hn

/-- One worker upgrades the file before the other looks at it; both find no administrator. -/
def timelyMoves : List Move :=
  lookedAt false ++ statements 2 false ++ lookedAt true ++ statements 1 true ++
    [.next false, .next true, .statement false, .statement true, .statement false,
      .statement false, .statement true, .next false, .next true]

theorem starts_of_timely_groupFile :
    ∃ s, ((race "admin".toList seedOf groupFile).guard Timed).Reachable s ∧
      (∀ w, s.phase w = .done) ∧ Good "admin".toList seedOf groupFile s := by
  obtain ⟨s, hs, hp⟩ := LTS.guard_reachable_of_exec
    (I := (· = start "admin".toList seedOf groupFile)) (f := step "admin".toList seedOf)
    (G := Timed) rfl timelyMoves (fun s => decide (∀ w, s.phase w = .done)) (by decide +kernel)
  exact ⟨s, hs, of_decide_eq_true hp,
    (starts_of_timely oldFile_groupFile fun _ => name_groupFile _).2 s hs⟩

/-- The other worker looks at the columns before the first one has added `role`. -/
def lateMoves : List Move :=
  lookedAt false ++ lookedAt true ++ statements 2 false ++ statements 1 true ++ [.next true]

theorem column_added_twice :
    OldFile groupFile ∧ (admins groupFile = 0 → ¬ NameTaken groupFile "admin".toList) ∧
      ∃ s, (race "admin".toList seedOf groupFile).Reachable s ∧
        s.phase true = .failed (.duplicateColumn "role".toList) ∧
        ¬ Good "admin".toList seedOf groupFile s := by
  obtain ⟨s, hs, hp⟩ := LTS.reachable_of_exec
    (I := (· = start "admin".toList seedOf groupFile)) (f := step "admin".toList seedOf) rfl
    lateMoves (fun s => decide (s.phase true = .failed (.duplicateColumn "role".toList)))
    (by decide +kernel)
  have hfailed := of_decide_eq_true hp
  exact ⟨oldFile_groupFile, fun _ => name_groupFile _, s, hs, hfailed,
    fun h => h.unfailed true _ hfailed⟩

end MailserverUi.L5.StartupRace

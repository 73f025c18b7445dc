import MailserverUi.L4App.Requests

/-!
# The statements that a request may issue

Before its handler, a request only reads, and at most commits the last use of a
token (`Quiet`). So does the check for the last administrator.
-/
namespace MailserverUi.L4.Statements

open Py L2.Errors L2.Database L3 Auth GroupService UserService Requests

/-- A statement that changes at most the last use of a token. -/
def Quiet : Sql → Prop
  | .touchPat .. | .commit => True
  | c => c.kind = .read

theorem quiet_execute {c : Sql} (h : Quiet c) : (execute c).Issues Quiet := Prog.issues_request h

theorem quiet_getGrantedRoles (userIds : List Int) : (getGrantedRoles userIds).Issues Quiet := by
  unfold getGrantedRoles
  split
  · trivial
  · exact quiet_execute rfl

theorem quiet_resolveRole (u : UserRow) : (resolveRole u).Issues Quiet :=
  Prog.issues_bind (quiet_getGrantedRoles _) fun _ => trivial

theorem quiet_toSessionUser (u : UserRow) : (toSessionUser u).Issues Quiet :=
  Prog.issues_bind (quiet_resolveRole u) fun _ => trivial

theorem quiet_toPublic (u : UserRow) : (toPublic u).Issues Quiet :=
  Prog.issues_bind (quiet_resolveRole u) fun _ => Prog.issues_ofOption

theorem quiet_isLastAdmin (u : UserRow) : (isLastAdmin u).Issues Quiet := by
  unfold isLastAdmin
  split
  · trivial
  · refine Prog.issues_bind (quiet_resolveRole u) fun role => ?_
    split
    · trivial
    · refine Prog.issues_bind (quiet_execute rfl) fun users => ?_
      refine Prog.issues_bind ?_ fun _ => trivial
      exact Prog.issues_bind (quiet_getGrantedRoles _) fun _ => Prog.issues_ofOption

theorem quiet_locksOut (u : UserRow) (isActive : Bool) : (locksOut u isActive).Issues Quiet := by
  unfold locksOut
  split
  · trivial
  · exact quiet_isLastAdmin u

theorem quiet_refresh (id : Int) : (refresh id).Issues Quiet :=
  Prog.issues_bind (quiet_execute rfl) fun _ => Prog.issues_ofOption

theorem quiet_requireAccount (userId : Int) : (requireAccount userId).Issues Quiet :=
  Prog.issues_bind (quiet_execute rfl) fun _ => Prog.issues_ofOption

theorem quiet_requireAccounts (userIds : List Int) : (requireAccounts userIds).Issues Quiet := by
  induction userIds with
  | nil => trivial
  | cons userId userIds ih => exact Prog.issues_bind (quiet_requireAccount userId) fun _ => ih

theorem quiet_requireGroup (groupId : Int) : (requireGroup groupId).Issues Quiet :=
  Prog.issues_bind (quiet_execute rfl) fun _ => Prog.issues_ofOption

/-! ## Who is asking -/

theorem quiet_touchLastUsed (pat : PatRow) (now : Int) :
    (PatService.touchLastUsed pat now).Issues Quiet := by
  unfold PatService.touchLastUsed
  split
  · trivial
  · exact Prog.issues_bind (quiet_execute trivial) fun _ => quiet_execute trivial

theorem quiet_authenticate (digest : Str → Str) (now : Int) (raw : Str) :
    (PatService.authenticate digest now raw).Issues Quiet := by
  unfold PatService.authenticate
  simp only
  split
  · trivial
  refine Prog.issues_bind (quiet_execute rfl) fun o => ?_
  split
  · trivial
  split
  · trivial
  refine Prog.issues_bind (quiet_execute rfl) fun o => ?_
  split
  · trivial
  · exact Prog.issues_bind (quiet_touchLastUsed _ now) fun _ => trivial

section
variable {τ : Type} (env : Env τ) (now : Int) (cred : Credentials τ)

theorem quiet_principal (o : Option UserRow) : (principal o).Issues Quiet := by
  cases o with
  | none => trivial
  | some u =>
    simp only [principal]
    split
    · exact Prog.issues_bind (quiet_toSessionUser u) fun _ => trivial
    · trivial

theorem quiet_currentUserOptional : (currentUserOptional env now cred).Issues Quiet := by
  unfold currentUserOptional
  split
  · exact Prog.issues_bind (quiet_execute rfl) quiet_principal
  · split
    · trivial
    · exact Prog.issues_bind (quiet_authenticate _ _ _) quiet_principal

theorem quiet_requireUser : (requireUser env now cred).Issues Quiet :=
  Prog.issues_bind (quiet_currentUserOptional env now cred) fun _ => Prog.issues_ofOption

theorem quiet_requireSessionLogin (elapsed : Nat) :
    (requireSessionLogin env now cred elapsed).Issues Quiet :=
  Prog.issues_bind (quiet_requireUser env now cred) fun _ => Prog.issues_ofOption

theorem quiet_requireAdmin : (requireAdmin env now cred).Issues Quiet :=
  Prog.issues_bind (quiet_requireUser env now cred) fun _ =>
    Prog.issues_bind Prog.issues_raiseIf fun _ => trivial

end

end MailserverUi.L4.Statements

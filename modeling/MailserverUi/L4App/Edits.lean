import MailserverUi.L3Service.MailserverService

/-!
# Edits of the mailserver's flat files

The create and delete operations of the stores that `mailserver_service` reads,
changes and writes again, as the routers call them.
-/
namespace MailserverUi.L4.Edits

open Py L2.Container L3.MailserverService

/-- A create or delete operation with its arguments; `crypt` is what the hash
of the password comes out as. -/
inductive Edit where
  | createRelay (payload : RelayHostCreate)
  | deleteRelay (sender : Str)
  | createRelayExclusion (sender : Str)
  | deleteRelayExclusion (sender : Str)
  | addRestriction (kind address : Str)
  | deleteRestriction (kind address : Str)
  | createDovecotMaster (crypt : Option Str) (name : Str)
  | deleteDovecotMaster (name : Str)
  | createSystemAlias (name : Str) (targets : List Str)
  | deleteSystemAlias (name : Str)
  | createRegexAlias (pattern : Str) (targets : List Str)
  | deleteRegexAlias (pattern : Str)

/-- The answer does not matter here, only whether the call succeeds. -/
def void {α : Type} (p : Io α) : Io Unit := do
  let _ ← p
  return ()

def Edit.prog (compile : Str → Compiled) : Edit → Io Unit
  | .createRelay payload => void (L3.MailserverService.createRelay payload)
  | .deleteRelay sender => L3.MailserverService.deleteRelay sender
  | .createRelayExclusion sender => void (L3.MailserverService.createRelayExclusion sender)
  | .deleteRelayExclusion sender => L3.MailserverService.deleteRelayExclusion sender
  | .addRestriction kind address => void (L3.MailserverService.addRestriction kind address)
  | .deleteRestriction kind address => L3.MailserverService.deleteRestriction kind address
  | .createDovecotMaster crypt name => void (L3.MailserverService.createDovecotMaster crypt name)
  | .deleteDovecotMaster name => L3.MailserverService.deleteDovecotMaster name
  | .createSystemAlias name targets =>
    void (L3.MailserverService.createSystemAlias name targets)
  | .deleteSystemAlias name => L3.MailserverService.deleteSystemAlias name
  | .createRegexAlias pattern targets =>
    void (L3.MailserverService.createRegexAlias compile pattern targets)
  | .deleteRegexAlias pattern => L3.MailserverService.deleteRegexAlias pattern

end MailserverUi.L4.Edits

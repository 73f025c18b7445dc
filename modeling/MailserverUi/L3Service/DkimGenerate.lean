import MailserverUi.L1Encoding.ServerFiles
import MailserverUi.L3Service.Dkim

/-!
# Generating DKIM keys (`generate_dkim`)

`setup config dkim` runs inside the container and writes files of its own, which
are not among those the service writes. `Shell` has it as one more command, and
`setup` is what the command makes of the config files.

Results:
* `stop_onShell`: programs over files do the same among such commands.
* `stop_generateDkim`: the call has changed what the command changes, or
  nothing.
-/
namespace MailserverUi.L3.DkimGenerate

open Py L1.DkimFiles L1.ServerFiles L2.Errors L2.Container L2.ConfigTree Dkim

/-! ## Commands of the container -/

inductive ShellCmd where
  | tree (c : TreeCmd)
  | run (args : List Str)
  deriving DecidableEq, Repr

/-- What a command prints is not used. -/
abbrev ShellReply : ShellCmd → Type
  | .tree c => TreeReply c
  | .run _ => Unit

abbrev ShellIo := Prog ShellCmd ShellReply ApiError

/-- mirrors backend/app/services/container.py:84-91 -/
def shell (setup : List Str → Tree → Tree) : Machine ShellCmd ShellReply Tree where
  exec
    | .tree c, t => treeBox.exec c t
    | .run args, t => ((), setup args t)

/-- A program over files, among the other commands. -/
def onShell {α : Type} (p : TreeIo α) : ShellIo α :=
  p.hoist fun c => (Prog.request (ShellCmd.tree c) : ShellIo (TreeReply c))

section
variable {α : Type} (setup : List Str → Tree → Tree) (p : TreeIo α) (t : Tree)

theorem run_onShell : (onShell p).run (shell setup) t = p.run treeBox t := by
  induction p generalizing t with
  | pure a => rfl
  | raise e => rfl
  | call c k ih => exact ih _ _

theorem cut_onShell (n : Nat) : (onShell p).cut (shell setup) n t = p.cut treeBox n t := by
  induction p generalizing n t with
  | pure a => cases n <;> rfl
  | raise e => cases n <;> rfl
  | call c k ih =>
    cases n with
    | zero => rfl
    | succ n => exact ih _ _ _

theorem steps_onShell : (onShell p).steps (shell setup) t = p.steps treeBox t := by
  induction p generalizing t with
  | pure a => rfl
  | raise e => rfl
  | call c k ih => exact congrArg (· + 1) (ih _ _)

theorem stop_onShell (fails : Option Nat) :
    (onShell p).stop (shell setup) fails t = p.stop treeBox fails t := by
  cases fails with
  | none => exact congrArg Prod.snd (run_onShell setup p t)
  | some n => exact cut_onShell setup p t n

theorem returns_onShell (fails : Option Nat) :
    (onShell p).returns (shell setup) fails t = p.returns treeBox fails t := by
  rw [Prog.returns, Prog.returns, run_onShell]

theorem always_onShell {I : Tree → Prop} {t : Tree} {p : TreeIo α} (h : p.Always treeBox I t) :
    (onShell p).Always (shell setup) I t := by
  induction p generalizing t with
  | pure a => exact h
  | raise e => exact h
  | call c k ih => exact ⟨h.1, ih _ h.2⟩

end

/-! ## The call -/

/-- mirrors backend/app/models/mailserver_models.py:165-174 -/
structure DkimGenerateRequest where
  domain : Option Str
  selector : Str
  keySize : Nat
  domain_length : ∀ d, domain = some d → d.length ≤ 255
  selector_length : 1 ≤ selector.length ∧ selector.length ≤ 63
  key_size : keySize ∈ [1024, 2048, 4096]

/-- `_DKIM_TOKEN_RE` on a stripped text.
mirrors backend/app/services/mailserver_service.py:222 -/
def isDkimToken (s : Str) : Bool := s ≠ [] && s.all fun c => c.isAlphanum || c ∈ ['.', '-']

/-- `["domain", domain]`, when one is given. -/
def domainArgs : Option Str → Except ApiError (List Str)
  | none | some [] => .ok []
  | some domain =>
    let domain := normalise domain
    if isDkimToken domain = false then
      .error (badRequest [lit "Invalid domain: ", .repr domain])
    else .ok ["domain".toList, domain]

/-- The arguments of the command.
mirrors backend/app/services/mailserver_service.py:765-782 -/
def generateArgs (payload : DkimGenerateRequest) : Except ApiError (List Str) := do
  let selector := strip payload.selector
  if isDkimToken selector = false then
    .error (badRequest [lit "Invalid DKIM selector: ", .repr selector])
  else
    let domain ← domainArgs payload.domain
    return ["setup".toList, "config".toList, "dkim".toList, "keysize".toList, str payload.keySize,
      "selector".toList, selector] ++ domain

/-- mirrors backend/app/services/mailserver_service.py:759-790 -/
def generateDkim (payload : DkimGenerateRequest) : ShellIo (List DkimKey) :=
  match generateArgs payload with
  | .error e => .raise e
  | .ok args => do
    Prog.request (ShellCmd.run args)
    onShell listDkimKeys

/-- What a call has made of the files: the command is its only command that
writes, and the first. -/
theorem stop_generateDkim (setup : List Str → Tree → Tree) (payload : DkimGenerateRequest)
    (fails : Option Nat) (t : Tree) :
    (generateDkim payload).stop (shell setup) fails t =
      match generateArgs payload with
      | .error _ => t
      | .ok args => if fails = some 0 then t else setup args t := by
  unfold generateDkim
  cases generateArgs payload with
  | error e =>
    have h : (Prog.raise e : ShellIo (List DkimKey)).Always (shell setup) (· = t) t := rfl
    exact h.stop fails
  | ok args =>
    obtain ⟨n, keys, hr⟩ := reads_listDkimKeys (setup args t)
    have hl : listDkimKeys.Always treeBox (· = setup args t) (setup args t) := hr.always rfl
    have h := always_onShell setup hl
    match fails with
    | none => exact h.run
    | some 0 => rfl
    | some (n + 1) => exact h.cut n

end MailserverUi.L3.DkimGenerate

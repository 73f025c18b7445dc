import MailserverUi.L3Service.Fail2banDaemon
import MailserverUi.L3Service.QuotaUsage
import MailserverUi.L3Service.RelaySpec

/-!
# The numbers in files and in the output of commands

Three parsers turn a cell into a number. Two of them ask `str.isdigit` first,
which is true of digits that `int` rejects and of any number of digits; the
third catches what `int` raises.

Results:
* `parsersReturn_iff`: no parser raises exactly when every cell that `isdigit`
  accepts is of decimal digits, at most 4300 of them, and no line with a label of
  the status of a jail is without a colon.
* `superscript_port`: a superscript in the port of one relay stops every call
  on relays.
-/
namespace MailserverUi.L4.NumericCells

open Py L1.MailFiles L1.ServerFiles L1.ConfigText L1.Relays L2.Errors L2.Container
open L3.MailserverService L3.RelaySpec L3.Fail2ban L3.QuotaUsage

/-! ## Cells -/

/-- If `isdigit` accepts the text, `int` reads it. -/
def IntSafe (s : Str) : Prop :=
  isdigit s = true → s.length ≤ maxStrDigits ∧ ∀ c ∈ s, (decimalValue c).isSome = true

theorem portOf_isSome (s : Str) : (portOf s).isSome = true ↔ IntSafe s := by
  unfold portOf IntSafe
  split
  · rename_i hd
    exact int_isSome_iff.trans ⟨fun h _ => h, fun h => h hd⟩
  · rename_i hd
    exact iff_of_true rfl fun h => absurd h hd

theorem asInt_isSome (s : Str) : (asInt s).isSome = true ↔ IntSafe (strip s) := by
  unfold asInt IntSafe
  split
  · rename_i hd
    exact int_isSome_iff.trans ⟨fun h _ => h, fun h => h hd⟩
  · rename_i hd
    exact iff_of_true rfl fun h => absurd h hd

/-! ## Relays -/

/-- The text of the port that a relay target has. -/
def portText (token : Str) : Option Str :=
  match strip token with
  | '[' :: rest => some ((after ']' rest).dropWhile (· == ':'))
  | token => if ':' ∈ token then some (afterLast ':' token) else none

theorem portText_bracket {token rest : Str} (h : strip token = '[' :: rest) :
    portText token = some ((after ']' rest).dropWhile (· == ':')) := by
  unfold portText
  rw [h]
  rfl

theorem portText_plain {token : Str} (h : ∀ rest, strip token = '[' :: rest → False) :
    portText token = if ':' ∈ strip token then some (afterLast ':' (strip token)) else none := by
  unfold portText
  split
  · exact absurd ‹_› (h _)
  · rfl

theorem parseRelayTarget_isSome (token : Str) :
    (parseRelayTarget token).isSome = true ↔ ∀ p ∈ portText token, IntSafe p := by
  unfold parseRelayTarget
  split
  · rename_i rest h
    rw [portText_bracket h]
    simp only [Option.isSome_map, portOf_isSome, Option.mem_some_iff, forall_eq']
  · rename_i h
    rw [portText_plain h]
    split
    · simp only [Option.isSome_map, portOf_isSome, Option.mem_some_iff, forall_eq']
    · exact iff_of_true rfl fun p hp => by cases hp

/-- The targets in the relay map. -/
def relayTargets (s : Files) : List Str :=
  (textLines ((s (configPath relaymapFilename)).getD [])).filterMap fun line => (words line)[1]?

theorem relayEntry_isSome {line : Str} (h : IsLine line) :
    (relayEntry line).isSome = true ↔
      ∀ t ∈ (words line)[1]?, (parseRelayTarget t).isSome = true := by
  unfold relayEntry
  rcases hw : words line with _ | ⟨sender, _ | ⟨target, rest⟩⟩
  · obtain ⟨w, hne, hword, -, hline⟩ := exists_word h
    rcases hline with rfl | ⟨sep, r, hsep, rfl⟩
    · rw [words_noSpace hword hne] at hw
      cases hw
    · rw [words_word hword hne hsep] at hw
      cases hw
  · exact iff_of_true rfl fun t ht => by cases ht
  · dsimp only
    rw [Option.isSome_map]
    exact ⟨fun h t ht => Option.some.inj ht ▸ h, fun h => h _ rfl⟩

/-- What `int` reads is read in every relay target. -/
def RelayNumbers (s : Files) : Prop := ∀ t ∈ relayTargets s, ∀ p ∈ portText t, IntSafe p

theorem relays_isSome (s : Files) : (relays s).isSome = true ↔ RelayNumbers s := by
  have hlines : ∀ l ∈ textLines ((s (configPath relaymapFilename)).getD []), IsLine l :=
    fun l hl => (isLine_of_mem_configLines hl).1
  unfold relays RelayNumbers relayTargets
  generalize textLines ((s (configPath relaymapFilename)).getD []) = lines at hlines
  rw [relaysOf_eq, Option.isSome_map]
  rw [mapM_isSome_iff]
  constructor
  · intro h t ht p hp
    obtain ⟨line, hline, hw⟩ := List.mem_filterMap.mp ht
    exact (parseRelayTarget_isSome t).mp
      ((relayEntry_isSome (hlines line hline)).mp (h line hline) t hw) p hp
  · intro h line hline
    refine (relayEntry_isSome (hlines line hline)).mpr fun t ht => ?_
    exact (parseRelayTarget_isSome t).mpr (h t (List.mem_filterMap.mpr ⟨line, hline, ht⟩))

/-! ## Calls on relays -/

/-- The calls that read the relay map. -/
inductive RelayCall where
  | list
  | create (payload : RelayHostCreate)
  | delete (sender : Str)
  | listExclusions
  | createExclusion (sender : Str)
  | deleteExclusion (sender : Str)

def RelayCall.program : RelayCall → Io Unit
  | .list => listRelays.void
  | .create payload => (createRelay payload).void
  | .delete sender => (deleteRelay sender).void
  | .listExclusions => listRelayExclusions.void
  | .createExclusion sender => (createRelayExclusion sender).void
  | .deleteExclusion sender => (deleteRelayExclusion sender).void

section
variable {α : Type} {s : Files} {d : Dict Str Target}

theorem ne_internal_parseRelaymap {k : Dict Str Target → Io α} (hd : relays s = some d)
    (hk : (k d).RaisesIn (· ≠ .internal)) : ((parseRelaymap >>= k).run box s).1 ≠ .error .internal := by
  rw [run_parseRelaymap_bind, hd]
  exact fun he => hk.run box he rfl

theorem ne_internal_requireRelaySender {k : Str → Io α} (sender : Str)
    (hk : ((k (normalise sender)).run box s).1 ≠ .error .internal) :
    ((requireRelaySender sender >>= k).run box s).1 ≠ .error .internal := by
  unfold requireRelaySender
  dsimp only
  rw [Prog.bind_assoc, Prog.run_raiseIf_bind]
  split
  · exact nofun
  · exact hk

theorem raisesIn_addCredentials (sender username password : Str) :
    (addCredentials sender username password).RaisesIn (· ≠ .internal) := by
  unfold addCredentials
  split
  · exact fun _ _ => trivial
  · trivial

theorem raisesIn_dropCredentials (key : Str) :
    (dropCredentials key).RaisesIn (· ≠ .internal) := by
  refine Prog.raisesIn_bind (fun _ => trivial) fun creds => ?_
  split
  · exact fun _ => trivial
  · trivial

/-- Only the reading of the relay map raises anything else than an answer. -/
theorem ne_internal_call (hd : relays s = some d) (c : RelayCall) :
    (c.program.run box s).1 ≠ .error .internal := by
  have hvoid {β : Type} {p : Io β} (h : (p.run box s).1 ≠ .error .internal) :
      (p.void.run box s).1 ≠ .error .internal := by
    rw [Prog.run_void]
    intro he
    cases hr : (p.run box s).1 with
    | ok a =>
      rw [hr] at he
      cases he
    | error e =>
      rw [hr] at he
      exact h (hr.trans (by rw [Except.error.inj he]))
  cases c with
  | list =>
    refine hvoid ?_
    rw [run_listRelays, hd]
    exact nofun
  | create payload =>
    refine hvoid (ne_internal_requireRelaySender _ (ne_internal_parseRelaymap hd ?_))
    refine Prog.raisesIn_bind (Prog.raisesIn_raiseIf nofun) fun _ => ?_
    refine Prog.raisesIn_bind (fun _ => trivial) fun _ => ?_
    exact Prog.raisesIn_bind (raisesIn_addCredentials _ _ _) fun _ => trivial
  | delete sender =>
    refine hvoid (ne_internal_parseRelaymap hd ?_)
    refine Prog.raisesIn_bind (Prog.raisesIn_raiseIf nofun) fun _ => ?_
    exact Prog.raisesIn_bind (fun _ => trivial) fun _ => raisesIn_dropCredentials _
  | listExclusions =>
    refine hvoid ?_
    rw [run_listRelayExclusions, hd]
    exact nofun
  | createExclusion sender =>
    refine hvoid (ne_internal_requireRelaySender _ (ne_internal_parseRelaymap hd ?_))
    refine Prog.raisesIn_bind (Prog.raisesIn_raiseIf nofun) fun _ => ?_
    exact fun _ => trivial
  | deleteExclusion sender =>
    refine hvoid (ne_internal_parseRelaymap hd ?_)
    refine Prog.raisesIn_bind (Prog.raisesIn_raiseIf nofun) fun _ => ?_
    exact fun _ => trivial

end

/-! ## The status of a jail -/

/-- The line that a label is looked up in. -/
def labelled (text : Str) (label : String) : Option Str :=
  (splitlines text).find? (label.toList <:+: ·)

def counterLabels : List String :=
  ["Currently failed", "Total failed", "Currently banned", "Total banned"]

def listLabels : List String := ["Banned IP list", "File list"]

/-- Each label is followed by a colon, and each counter by what `int` reads. -/
structure JailNumbers (text : Str) : Prop where
  colon : ∀ label ∈ counterLabels ++ listLabels, ∀ line ∈ labelled text label, ':' ∈ line
  counter : ∀ label ∈ counterLabels, ∀ line ∈ labelled text label,
    IntSafe (strip (after ':' line))

section
variable {text : Str} {label : String}

theorem fieldAfter_eq (text : Str) (label : String) : fieldAfter text label.toList =
    match labelled text label with
    | none => some []
    | some line => if ':' ∈ line then some (strip (after ':' line)) else none := rfl

theorem tokens_isSome : (tokens text label).isSome = true ↔
    ∀ line ∈ labelled text label, ':' ∈ line := by
  rw [tokens, Option.isSome_map, fieldAfter_eq]
  cases labelled text label with
  | none => exact iff_of_true rfl fun _ h => by cases h
  | some line =>
    simp only [Option.mem_some_iff, forall_eq']
    split <;> simp_all

theorem counter_isSome : (counter text label).isSome = true ↔
    ∀ line ∈ labelled text label, ':' ∈ line ∧ IntSafe (strip (after ':' line)) := by
  rw [counter, fieldAfter_eq]
  cases labelled text label with
  | none =>
    refine iff_of_true ?_ fun _ h => by cases h
    decide
  | some line =>
    simp only [Option.mem_some_iff, forall_eq']
    split
    · rename_i hc
      rw [Option.bind_some, asInt_isSome, strip_strip]
      exact ⟨fun h => ⟨hc, h⟩, fun h => h.2⟩
    · rename_i hc
      exact iff_of_false Bool.false_ne_true fun h => hc h.1

theorem parseJail_isSome (name text : Str) :
    (parseJail name text).isSome = true ↔ JailNumbers text := by
  have hall : (parseJail name text).isSome = true ↔
      (∀ label ∈ counterLabels, (counter text label).isSome = true) ∧
        ∀ label ∈ listLabels, (tokens text label).isSome = true := by
    simp only [parseJail, counterLabels, listLabels, List.forall_mem_cons]
    cases counter text "Currently failed" <;> cases counter text "Total failed" <;>
      cases counter text "Currently banned" <;> cases counter text "Total banned" <;>
      cases tokens text "Banned IP list" <;> cases tokens text "File list" <;> simp
  rw [hall]
  simp only [counter_isSome, tokens_isSome]
  constructor
  · rintro ⟨hc, hl⟩
    refine ⟨fun label hm line hline => ?_, fun label hm line hline => (hc label hm line hline).2⟩
    rcases List.mem_append.mp hm with hm | hm
    · exact (hc label hm line hline).1
    · exact hl label hm line hline
  · intro h
    exact ⟨fun label hm line hline => ⟨h.colon label (List.mem_append_left _ hm) line hline,
      h.counter label hm line hline⟩,
      fun label hm line hline => h.colon label (List.mem_append_right _ hm) line hline⟩

end

/-! ## The amounts of `doveadm` -/

/-- `int(s)` on a stripped text, with what it raises. -/
def intOf (s : Str) : Except ApiError Int := (signedInt s).elim (.error .internal) .ok

/-- `_parse_doveadm_amount`, with what it catches. -/
def amountOf (value : Str) : Except ApiError (Option Int) :=
  if strip value = [] ∨ strip value = "-".toList then .ok none
  else tryCatch (some <$> intOf (strip value)) fun _ => .ok none

theorem amountOf_eq (value : Str) : amountOf value = .ok (parseDoveadmAmount value) := by
  unfold amountOf parseDoveadmAmount
  dsimp only
  split
  · rfl
  · unfold intOf
    cases signedInt (strip value) <;> rfl

/-! ## All parsers -/

/-- No parser raises: not on this token, cell, map, status or amount. -/
structure ParsersReturn (token cell : Str) (s : Files) (name status amount : Str) : Prop where
  target : (parseRelayTarget token).isSome = true
  number : (asInt cell).isSome = true
  relaymap : ∃ d, parseRelaymap.run box s = (.ok d, s)
  calls : ∀ c : RelayCall, (c.program.run box s).1 ≠ .error .internal
  jail : (parseJail name status).isSome = true
  amount : ∃ n, amountOf amount = .ok n

theorem run_parseRelaymap (s : Files) : parseRelaymap.run box s = match relays s with
    | some d => (.ok d, s)
    | none => (.error .internal, s) := by
  have h : parseRelaymap.run box s =
      (Prog.ofOption .internal (relays s) : Io (Dict Str Target)).run box s := rfl
  rw [h]
  cases relays s <;> rfl

theorem parsersReturn_iff (token cell : Str) (s : Files) (name status amount : Str) :
    ParsersReturn token cell s name status amount ↔
      (∀ p ∈ portText token, IntSafe p) ∧ IntSafe (strip cell) ∧ RelayNumbers s ∧
        JailNumbers status := by
  constructor
  · intro h
    refine ⟨(parseRelayTarget_isSome token).mp h.target, (asInt_isSome cell).mp h.number, ?_,
      (parseJail_isSome name status).mp h.jail⟩
    obtain ⟨d, hd⟩ := h.relaymap
    rw [run_parseRelaymap] at hd
    rw [← relays_isSome]
    cases hr : relays s with
    | some d => rfl
    | none =>
      rw [hr] at hd
      cases hd
  · rintro ⟨ht, hc, hr, hj⟩
    obtain ⟨d, hd⟩ := Option.isSome_iff_exists.mp ((relays_isSome s).mpr hr)
    exact {
      target := (parseRelayTarget_isSome token).mpr ht
      number := (asInt_isSome cell).mpr hc
      relaymap := ⟨d, by rw [run_parseRelaymap, hd]⟩
      calls := ne_internal_call hd
      jail := (parseJail_isSome name status).mpr hj
      amount := ⟨_, amountOf_eq amount⟩ }

/-! ## A superscript -/

/-- A relay map of one relay, whose port is a superscript. -/
def superscript : Files := fun path =>
  if path = configPath relaymapFilename then some "@example.com [smtp.example.net]:²".toList
  else none

/-- Neither the list is answered nor can the relay be deleted. -/
theorem superscript_port :
    (listRelays.run box superscript).1 = .error .internal ∧
      ((deleteRelay "@example.com".toList).run box superscript).1 = .error .internal ∧
      ¬ ParsersReturn [] [] superscript [] [] [] := by
  have hlist : (listRelays.run box superscript).1 = .error .internal := by decide +kernel
  refine ⟨hlist, by decide +kernel, fun h => h.calls .list ?_⟩
  rw [RelayCall.program, Prog.run_void, hlist]
  rfl

end MailserverUi.L4.NumericCells

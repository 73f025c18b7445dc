import MailserverUi.Core.Digits

/-!
# DKIM records and `dkim_signing.conf`

A key is read from a BIND record, and a migrated key becomes a block of four
lines in the signing configuration. `blocksOf` reads the blocks of such a file;
the program never does, it is how the file is looked at here.

Results:
* `blocksOf_signingConf`: the blocks that are written are the blocks that are
  there, when no part of them holds a line boundary.
-/
namespace MailserverUi.L1.DkimFiles

open Py

/-! ## Records -/

/-- mirrors backend/app/models/mailserver_models.py:152-162 -/
structure DkimKey where
  domain : Str
  selector : Str
  recordName : Str
  publicKey : Str
  txtValue : Str
  deriving DecidableEq, Repr

/-- The double quote. -/
def quote : Char := Char.ofNat 34

/-- Every second part of a text that is split at its quotes, when a quote
follows it. -/
def quotedParts : List Str → List Str
  | _ :: q :: r :: parts => q :: quotedParts (r :: parts)
  | _ => []

/-- `"".join(re.findall(r'"([^"]*)"', raw))`. -/
def txtValue (raw : Str) : Str := (quotedParts (split quote raw)).flatten

/-- `[A-Za-z0-9+/=]`. -/
def isBase64 (c : Char) : Bool := c.isAlphanum || c ∈ ['+', '/', '=']

/-- `p=` and at least one character of a key. -/
def keyAt : Str → Str
  | 'p' :: '=' :: s => s.takeWhile isBase64
  | _ => []

/-- `re.search(r"p=([A-Za-z0-9+/=]+)", text)`, its group or the empty text. -/
def searchKey : Str → Str
  | [] => []
  | c :: s => if keyAt (c :: s) ≠ [] then keyAt (c :: s) else searchKey s

/-- mirrors backend/app/services/mailserver_service.py:590-594 -/
def parseDkimTxt (raw : Str) : Str × Str := (txtValue raw, searchKey (txtValue raw))

/-- The two `DkimKey(...)`. -/
def dkimKey (domain selector raw : Str) : DkimKey where
  domain := domain
  selector := selector
  recordName := selector ++ "._domainkey.".toList ++ domain ++ ['.']
  publicKey := (parseDkimTxt raw).2
  txtValue := (parseDkimTxt raw).1

/-! ## File names -/

/-- `s[:-n]`. -/
def dropEnd (n : Nat) (s : Str) : Str := s.take (s.length - n)

def txtSuffix : Str := ".txt".toList
def publicSuffix : Str := ".public.txt".toList
def privateSuffix : Str := ".private.txt".toList

/-- The domain and the selector of `<domain>/<selector>.txt`.
mirrors backend/app/services/mailserver_service.py:601-604 -/
def openDkimName (rel : Str) : Option (Str × Str) :=
  if '/' ∈ rel ∧ '/' ∉ after '/' rel then
    some (before '/' rel, dropEnd txtSuffix.length (after '/' rel))
  else none

/-- `s.partition(sep)[2]`; `none` without a separator. -/
def afterText (sep : Str) : Str → Option Str
  | [] => if sep = [] then some [] else none
  | c :: s => if sep.isPrefixOf (c :: s) then some ((c :: s).drop sep.length) else afterText sep s

/-- `re.search(r"^(\S+)\._domainkey", raw)`, its group. `\S+` takes as much as
it can. -/
def recordSelector (raw : Str) : Option Str :=
  let word := raw.takeWhile fun c => !isSpace c
  word.inits.reverse.find? fun u =>
    u ≠ [] && "._domainkey".toList.isPrefixOf (word.drop u.length)

/-- The domain and the selector of a record under `rspamd/dkim`.
mirrors backend/app/services/mailserver_service.py:631-637 -/
def rspamdName (rel raw : Str) : Option (Str × Str) :=
  match recordSelector raw with
  | none => none
  | some selector =>
    match afterText ('-' :: selector ++ ['-']) (dropEnd publicSuffix.length rel) with
    | none | some [] => none
    | some domain => some (domain, selector)

/-- `f"rsa-{size}-{selector}-{domain}"`. -/
def baseName (size : Nat) (selector domain : Str) : Str :=
  "rsa-".toList ++ str size ++ '-' :: selector ++ '-' :: domain

theorem oneLine_baseName (size : Nat) {selector domain : Str} (hs : OneLine selector)
    (hd : OneLine domain) : OneLine (baseName size selector domain) := by
  have e : baseName size selector domain =
      "rsa-".toList ++ str size ++ ['-'] ++ selector ++ ['-'] ++ domain := by
    simp [baseName]
  rw [e]
  have h₁ : OneLine ("rsa-".toList ++ str size ++ ['-']) :=
    (OneLine.append (by decide) (noSpace_str size).oneLine).append (by decide)
  exact ((h₁.append hs).append (by decide)).append hd

/-! ## The signing configuration -/

/-- A domain that is signed for, with what. -/
structure Block where
  domain : Str
  path : Str
  selector : Str
  deriving DecidableEq, Repr

def domainOpen : Str := "    ".toList
def domainClose : Str := " \x7b".toList
def pathOpen : Str := "        path = \x22".toList
def selectorOpen : Str := "        selector = \x22".toList
def valueClose : Str := "\x22;".toList
def blockEnd : Str := "    \x7d".toList

def blockLines (b : Block) : List Str :=
  [domainOpen ++ b.domain ++ domainClose, pathOpen ++ b.path ++ valueClose,
    selectorOpen ++ b.selector ++ valueClose, blockEnd]

/-- One `domain_blocks += ...`.
mirrors backend/app/services/mailserver_service.py:731-736 -/
def blockText (b : Block) : Str := unlines (blockLines b)

def confHeader : List Str :=
  ["# Migrated from OpenDKIM by mailserver-ui.".toList, "enabled = true;".toList,
    "sign_authenticated = true;".toList, "sign_local = false;".toList,
    "try_fallback = false;".toList, "use_domain = \x22header\x22;".toList,
    "use_esld = true;".toList, "check_pubkey = true;".toList, []]

def domainsOpen : Str := "domain \x7b".toList

/-- mirrors backend/app/services/mailserver_service.py:740-749 -/
def signingConf (domainBlocks : Str) : Str :=
  unlines (confHeader ++ [domainsOpen]) ++ domainBlocks ++ unlines [['\x7d']]

/-! ## The blocks of a text -/

/-- What stands between two fixed texts. -/
def between (pre post l : Str) : Option Str :=
  let rest := l.drop pre.length
  if pre.isPrefixOf l && post.isSuffixOf rest then some (dropEnd post.length rest) else none

def readBlocks : List Str → List Block
  | l₁ :: l₂ :: l₃ :: l₄ :: ls =>
    match between domainOpen domainClose l₁, between pathOpen valueClose l₂,
        between selectorOpen valueClose l₃ with
    | some domain, some path, some selector =>
      if l₄ = blockEnd then ⟨domain, path, selector⟩ :: readBlocks ls else []
    | _, _, _ => []
  | _ => []

/-- The blocks under `domain`. -/
def blocksOf (content : Str) : List Block :=
  readBlocks (((splitlines content).dropWhile (· ≠ domainsOpen)).tail)

theorem between_wrap (pre x post : Str) : between pre post (pre ++ x ++ post) = some x := by
  have h : (pre ++ x ++ post).drop pre.length = x ++ post := by simp
  have hp : pre.isPrefixOf (pre ++ x ++ post) = true := by simp
  have hs : post.isSuffixOf (x ++ post) = true := by simp
  simp only [between, h, hp, hs, Bool.and_self, if_true, dropEnd]
  simp

theorem readBlocks_lines (bs : List Block) (ls : List Str) (h : readBlocks ls = []) :
    readBlocks (bs.flatMap blockLines ++ ls) = bs := by
  induction bs with
  | nil => exact h
  | cons b bs ih =>
    rw [List.flatMap_cons, List.append_assoc]
    simp only [blockLines, List.cons_append, List.nil_append, readBlocks, between_wrap, if_true]
    exact congrArg (b :: ·) ih

theorem unlines_append (ls ms : List Str) : unlines (ls ++ ms) = unlines ls ++ unlines ms :=
  List.flatMap_append

theorem flatMap_blockText (bs : List Block) :
    bs.flatMap blockText = unlines (bs.flatMap blockLines) := by
  induction bs with
  | nil => rfl
  | cons b bs ih =>
    rw [List.flatMap_cons, List.flatMap_cons, unlines_append, ih, blockText]

/-- A block of single lines. -/
structure IsBlock (b : Block) : Prop where
  domain : OneLine b.domain
  path : OneLine b.path
  selector : OneLine b.selector

theorem oneLine_blockLines {b : Block} (h : IsBlock b) : ∀ l ∈ blockLines b, OneLine l := by
  intro l hl
  simp only [blockLines, List.mem_cons, List.not_mem_nil, or_false] at hl
  rcases hl with rfl | rfl | rfl | rfl
  · exact (OneLine.append (by decide) h.domain).append (by decide)
  · exact (OneLine.append (by decide) h.path).append (by decide)
  · exact (OneLine.append (by decide) h.selector).append (by decide)
  · decide

theorem oneLine_confHeader : ∀ l ∈ confHeader ++ [domainsOpen], OneLine l := by decide

theorem blocksOf_signingConf {bs : List Block} (h : ∀ b ∈ bs, IsBlock b) :
    blocksOf (signingConf (bs.flatMap blockText)) = bs := by
  have hall : ∀ l ∈ confHeader ++ [domainsOpen] ++ bs.flatMap blockLines ++ [['\x7d']],
      OneLine l := by
    intro l hl
    rcases List.mem_append.mp hl with hl | hl
    · rcases List.mem_append.mp hl with hl | hl
      · exact oneLine_confHeader l hl
      · obtain ⟨b, hb, hl⟩ := List.mem_flatMap.mp hl
        exact oneLine_blockLines (h b hb) l hl
    · rw [List.mem_singleton.mp hl]
      decide
  have htext : signingConf (bs.flatMap blockText) =
      unlines (confHeader ++ [domainsOpen] ++ bs.flatMap blockLines ++ [['\x7d']]) := by
    simp only [signingConf, flatMap_blockText, unlines_append]
  have hdrop (ls : List Str) : ((confHeader ++ [domainsOpen] ++ ls).dropWhile
      (· ≠ domainsOpen)).tail = ls := by
    have hne : ∀ l ∈ confHeader, decide (l ≠ domainsOpen) = true := by decide
    rw [List.append_assoc, List.dropWhile_append_of_pos hne]
    simp
  rw [blocksOf, htext, splitlines_unlines hall, List.append_assoc, hdrop]
  exact readBlocks_lines bs _ rfl

end MailserverUi.L1.DkimFiles

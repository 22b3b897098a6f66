import Mathlib.Algebra.Group.Nat.Defs
import Mathlib.Data.List.Basic
import Mathlib.Logic.Function.Basic

/-!
# Extracting a vrtbin

`Vrtbin::extract` over the bytes of the file and the tree of files it finds. A place in the tree is
the list of names that leads to it; the extracted files contain no links, so a path leads where its
parts say. What the machine does with a request is given by `Host`; `remove_all` succeeds.
-/

namespace Slash.Vrt

open List

abbrev Bytes := List UInt8

def dot : Bytes := [46]

def dotdot : Bytes := [46, 46]

/-! ## Paths -/

/-- A `std::filesystem::path`: absolute or not, its parts, and whether a separator ends it. -/
structure Path where
  root : Bool := false
  parts : List Bytes := []
  slash : Bool := false
  deriving DecidableEq, Repr

/-- What stands between the separators. -/
def components (s : Bytes) : List Bytes := (s.splitOn 47).filter (· ≠ [])

def Path.parse (s : Bytes) : Path :=
  ⟨s.head? == some 47, components s, components s != [] && s.getLast? == some 47⟩

/-- One part of `lexically_normal`: what is kept, last first, and whether a separator ends it. -/
def normalStep (root : Bool) (kept : List Bytes × Bool) (part : Bytes) : List Bytes × Bool :=
  if part = dot then (kept.1, true)
  else if part = dotdot then
    match kept.1 with
    | [] => (if root then [] else [dotdot], false)
    | top :: rest => if top = dotdot then (dotdot :: top :: rest, false) else (rest, true)
  else (part :: kept.1, false)

def Path.lexicallyNormal (p : Path) : Path :=
  if p.root = false ∧ p.parts = [] then p
  else
    let kept := p.parts.foldl (normalStep p.root) ([], false)
    if p.root = false ∧ kept.1 = [] then { parts := [dot] }
    else ⟨p.root, kept.1.reverse, (kept.2 || p.slash) && kept.1.head?.any (· != dotdot)⟩

/-- The parts of `parent_path`. -/
def Path.parent (p : Path) : List Bytes := if p.slash then p.parts else p.parts.dropLast

inductive FileStep where
  | write | flush | close | permissions
  deriving DecidableEq, Repr

/-- What `extract` throws. -/
inductive Error where
  | extractionPath
  | gzip
  | truncatedHeader
  | checksumMismatch
  | truncatedLongName
  | absolutePath (entryName : Bytes)
  | parentTraversal (entryName : Bytes)
  | createDirectories
  | createFile
  | readingEof
  | skippingEof
  | fileStep (step : FileStep)
  deriving DecidableEq, Repr

def sanitizeArchivePath (entryName : Bytes) : Except Error Path :=
  let path := (Path.parse entryName).lexicallyNormal
  if path = {} ∨ path = { parts := [dot] } then .ok {}
  else if path.root then .error (.absolutePath entryName)
  else if dotdot ∈ path.parts then .error (.parentTraversal entryName)
  else .ok path

/-! ## Files -/

inductive Node where
  | dir
  | file (content : Bytes) (perms : Nat)
  deriving DecidableEq, Repr

abbrev Place := List Bytes

abbrev Tree := Place → Option Node

structure Host where
  /-- The file system can have something at this place. -/
  admits : Place → Bool
  /-- Permissions do not bind the process. -/
  privileged : Bool
  /-- The permissions of a file just made. -/
  newPerms : Nat
  /-- What goes wrong with the file at a place once it is open. -/
  fails : Place → Option FileStep
  /-- What zlib reads from a compressed file. -/
  gunzip : Bytes → Option Bytes

/-- Where one more part of a path leads. -/
def walk (place : Place) (part : Bytes) : Place :=
  if part = dot then place else if part = dotdot then place.dropLast else place ++ [part]

/-- `create_directories`, from a directory on. -/
def createDirectories (host : Host) : Tree → Place → List Bytes → Tree × Bool
  | t, _, [] => (t, true)
  | t, place, part :: parts =>
    let next := walk place part
    match t next with
    | some .dir => createDirectories host t next parts
    | some (.file ..) => (t, false)
    | none =>
      if host.admits next then
        createDirectories host (Function.update t next (some .dir)) next parts
      else (t, false)

/-- `std::ofstream` with `trunc`, for a file whose directory is there: the permissions it has. A path
that a separator ends names no file. -/
def openTrunc (host : Host) (t : Tree) (place : Place) (slash : Bool) : Option Nat :=
  if slash then none
  else
    match t place with
    | some .dir => none
    | some (.file _ perms) =>
      if host.privileged || perms &&& 0o200 != 0 then some perms else none
    | none => if host.admits place then some host.newPerms else none

/-- `remove_all`. -/
def removeAll (t : Tree) (place : Place) : Tree := fun p => if place <+: p then none else t p

/-! ## The stream -/

/-- Every chunk is there or the skip fails. -/
def streamSkip (size : Nat) (src : Bytes) : Except Error Bytes :=
  if h : size = 0 then .ok src
  else
    let chunk := min size (2 ^ 20)
    if src.length < chunk then .error .skippingEof
    else streamSkip (size - chunk) (src.drop chunk)
termination_by size
decreasing_by omega

/-- What was written, and the rest of the stream. -/
def streamCopy (writes : Bool) (size : Nat) (src : Bytes) : Bytes × Except Error Bytes :=
  if h : size = 0 then ([], .ok src)
  else
    let chunk := min size (2 ^ 16)
    if src.length < chunk then ([], .error .readingEof)
    else if writes then
      let r := streamCopy writes (size - chunk) (src.drop chunk)
      (src.take chunk ++ r.1, r.2)
    else ([], .error (.fileStep .write))
termination_by size
decreasing_by omega

/-! ## Headers -/

def tarBlockSize : Nat := 512

def parseOctalFrom (value : Nat) (seenDigit : Bool) : Bytes → Nat
  | [] => value
  | c :: cs =>
    if c = 0 ∨ c = 32 then if seenDigit then value else parseOctalFrom value seenDigit cs
    else if c < 48 ∨ 55 < c then value
    else parseOctalFrom (value <<< 3 ||| (c.toNat - 48)) true cs

def parseOctal (field : Bytes) : Nat := parseOctalFrom 0 false field

def readField (field : Bytes) : Bytes := field.takeWhile (· != 0)

/-- The `len` bytes of a header from `offset` on. -/
def field (raw : Bytes) (offset len : Nat) : Bytes := (raw.drop offset).take len

/-- The sum of the bytes, with blanks in the place of the checksum. -/
def checksum (raw : Bytes) : Nat :=
  raw.zipIdx.foldl (fun sum b => sum + if 148 ≤ b.2 ∧ b.2 < 156 then 32 else b.1.toNat) 0

def hasValidTarChecksum (raw : Bytes) : Bool := parseOctal (field raw 148 8) == checksum raw

def isZeroBlock (raw : Bytes) : Bool := raw.all (· == 0)

def payloadSize (raw : Bytes) : Nat := parseOctal (field raw 124 12)

def typeflag (raw : Bytes) : UInt8 := raw.getD 156 0

/-- The name a header spells by itself. -/
def headerName (raw : Bytes) : Bytes :=
  let name := readField (field raw 0 100)
  let front := readField (field raw 345 155)
  if front = [] then name else front ++ 47 :: name

def longNameType : UInt8 := 76

def dirType : UInt8 := 53

def isRegularTarType (flag : UInt8) : Bool := flag == 48 || flag == 0

/-- Every permission bit of the mode, as `std::filesystem::perms` has the same bits. -/
def tarModeToPerms (mode : Nat) : Nat :=
  [0o400, 0o200, 0o100, 0o40, 0o20, 0o10, 4, 2, 1, 0o4000, 0o2000, 0o1000].foldl
    (fun perms bit => if mode &&& bit ≠ 0 then perms ||| bit else perms) 0

def padding (size : Nat) : Nat := (tarBlockSize - size % tarBlockSize) % tarBlockSize

/-! ## The extraction -/

/-- The file once it is open: its payload, then `flush`, `close` and `permissions`. -/
def writeFile (host : Host) (t : Tree) (place : Place) (perms mode size : Nat) (src : Bytes) :
    Tree × Except Error Bytes :=
  let r := streamCopy (host.fails place != some .write) size src
  match r.2, host.fails place with
  | .error e, _ => (Function.update t place (some (.file r.1 perms)), .error e)
  -- where a write would fail, there was none
  | .ok rest, none | .ok rest, some .write =>
    (Function.update t place (some (.file r.1 (tarModeToPerms mode))), .ok rest)
  | .ok _, some step => (Function.update t place (some (.file r.1 perms)), .error (.fileStep step))

/-- An entry other than a long name: what is left of its payload, and the stream behind. -/
def placeEntry (host : Host) (base : Place) (t : Tree) (path : Path) (raw src : Bytes) :
    Tree × Except Error (Nat × Bytes) :=
  if path = {} then (t, .ok (payloadSize raw, src))
  else if typeflag raw = dirType then
    let made := createDirectories host t base path.parts
    (made.1, if made.2 then .ok (payloadSize raw, src) else .error .createDirectories)
  else if isRegularTarType (typeflag raw) then
    let made := createDirectories host t base path.parent
    if made.2 then
      let place := path.parts.foldl walk base
      match openTrunc host made.1 place path.slash with
      | none => (made.1, .error .createFile)
      | some perms =>
        let r := writeFile host made.1 place perms (parseOctal (field raw 100 8)) (payloadSize raw) src
        (r.1, r.2.map (0, ·))
    else (made.1, .error .createDirectories)
  else (t, .ok (payloadSize raw, src))

/-- The loop between two entries. -/
structure Scan where
  rest : Bytes
  pendingLongName : Bytes := []
  tree : Tree

/-- A round that throws, with the tree it leaves. -/
abbrev Round := Except (Error × Tree)

/-- The end of a round: the payload that is left, then the padding. -/
def skipRest (t : Tree) (pending : Bytes) (size left : Nat) (src : Bytes) : Round Scan :=
  match streamSkip left src >>= streamSkip (padding size) with
  | .error e => .error (e, t)
  | .ok rest => .ok ⟨rest, pending, t⟩

/-- An entry whose header is `raw`, with `src` behind it. -/
def readPayload (host : Host) (base : Place) (s : Scan) (raw src : Bytes) : Round Scan :=
  let size := payloadSize raw
  if typeflag raw = longNameType then
    if src.length < size then .error (.truncatedLongName, s.tree)
    else skipRest s.tree (readField (src.take size)) size 0 (src.drop size)
  else
    match sanitizeArchivePath
      (if s.pendingLongName = [] then headerName raw else s.pendingLongName) with
    | .error e => .error (e, s.tree)
    | .ok path =>
      let r := placeEntry host base s.tree path raw src
      match r.2 with
      | .error e => .error (e, r.1)
      | .ok (left, rest) => skipRest r.1 [] size left rest

/-- One round of the loop, which ends with `none`. -/
def readEntry (host : Host) (base : Place) (s : Scan) : Round (Option Scan) :=
  let raw := s.rest.take tarBlockSize
  if raw.length = 0 then .ok none
  else if raw.length ≠ tarBlockSize then .error (.truncatedHeader, s.tree)
  else if isZeroBlock raw then .ok none
  else if hasValidTarChecksum raw then
    (readPayload host base s raw (s.rest.drop tarBlockSize)).map some
  else .error (.checksumMismatch, s.tree)

/-! ## How far a round reads -/

variable (host : Host) (base : Place)

theorem streamSkip_eq (size : Nat) (src : Bytes) :
    streamSkip size src =
      if src.length < size then .error .skippingEof else .ok (src.drop size) := by
  fun_induction streamSkip size src with
  | case1 src => simp
  | case2 size src h chunk hlt => rw [if_pos (by omega)]
  | case3 size src h chunk hlt ih =>
    rw [ih, length_drop, drop_drop, show chunk + (size - chunk) = size by omega]
    exact if_congr (by omega) rfl rfl

theorem of_streamCopy {writes : Bool} {size : Nat} {src rest : Bytes}
    (h : (streamCopy writes size src).2 = .ok rest) :
    size ≤ src.length ∧ rest = src.drop size := by
  fun_induction streamCopy writes size src with
  | case1 src => simpa using h.symm
  | case2 | case4 => cases h
  | case3 size src h0 chunk hlt _ r ih =>
    obtain ⟨hle, rfl⟩ := ih h
    rw [length_drop] at hle
    rw [drop_drop, show chunk + (size - chunk) = size by omega]
    exact ⟨by omega, rfl⟩

variable {host} in
theorem of_writeFile {t : Tree} {place : Place} {perms mode size : Nat}
    {src rest : Bytes} (h : (writeFile host t place perms mode size src).2 = .ok rest) :
    size ≤ src.length ∧ rest = src.drop size := by
  simp only [writeFile] at h
  split at h
  · cases h
  all_goals
    cases h
  · exact of_streamCopy ‹_›
  · exact of_streamCopy ‹_›

theorem skipRest_eq (t : Tree) (pending : Bytes) (size left : Nat) (src : Bytes) :
    skipRest t pending size left src =
      if src.length < left + padding size then .error (.skippingEof, t)
      else .ok ⟨src.drop (left + padding size), pending, t⟩ := by
  rw [skipRest, streamSkip_eq]
  by_cases hleft : src.length < left
  · rw [if_pos hleft, if_pos (by omega)]
    rfl
  · rw [if_neg hleft]
    change (match streamSkip _ _ with | .error e => _ | .ok rest => _) = _
    rw [streamSkip_eq, length_drop, drop_drop]
    by_cases hpad : src.length < left + padding size
    · rw [if_pos hpad, if_pos (by omega)]
    · rw [if_neg hpad, if_neg (by omega)]

/-! ## What a round touches -/

/-- Nothing but what lies beneath `base` is different. -/
def Beneath (base : Place) (t t' : Tree) : Prop := ∀ p, ¬ base <+: p → t' p = t p

def Plain (part : Bytes) : Prop := part ≠ dot ∧ part ≠ dotdot

theorem walk_plain {place : Place} {part : Bytes} (h : Plain part) :
    walk place part = place ++ [part] := by
  rw [walk, if_neg h.1, if_neg h.2]

variable {parts : List Bytes}

theorem foldl_walk (h : ∀ part ∈ parts, Plain part) (place : Place) :
    parts.foldl walk place = place ++ parts := by
  induction parts generalizing place with
  | nil => simp
  | cons part parts ih =>
    obtain ⟨hpart, hparts⟩ := forall_mem_cons.mp h
    rw [foldl_cons, walk_plain hpart, ih hparts, append_assoc, singleton_append]

/-- A place on the way from `place` along `parts`. -/
def Along (place : Place) (parts : List Bytes) (p : Place) : Prop :=
  ∃ front, front ≠ [] ∧ front <+: parts ∧ p = place ++ front

theorem Along.cons {place p : Place} {part : Bytes} (h : Along (place ++ [part]) parts p) :
    Along place (part :: parts) p := by
  obtain ⟨front, -, hfront, rfl⟩ := h
  exact ⟨part :: front, cons_ne_nil _ _, cons_prefix_cons.mpr ⟨rfl, hfront⟩, by simp⟩

/-- Directories are made where nothing was, along the path. -/
theorem createDirectories_apply (h : ∀ part ∈ parts, Plain part) (t : Tree) (place p : Place) :
    (createDirectories host t place parts).1 p = t p ∨ t p = none ∧ Along place parts p := by
  induction parts generalizing t place with
  | nil => exact .inl rfl
  | cons part parts ih =>
    obtain ⟨hpart, hparts⟩ := forall_mem_cons.mp h
    rw [createDirectories, walk_plain hpart]
    split
    · exact (ih hparts t _).imp_right (.imp_right .cons)
    · exact .inl rfl
    · rename_i hnone
      split
      · obtain rfl | hp := eq_or_ne p (place ++ [part])
        · exact .inr ⟨hnone, [part], cons_ne_nil _ _, by simp, rfl⟩
        · have hrest := ih hparts (Function.update t (place ++ [part]) (some .dir)) (place ++ [part])
          rw [Function.update_of_ne hp] at hrest
          exact hrest.imp_right (.imp_right .cons)
      · exact .inl rfl

theorem createDirectories_beneath (h : ∀ part ∈ parts, Plain part) (t : Tree) :
    Beneath base t (createDirectories host t base parts).1 := by
  intro p hp
  obtain heq | ⟨-, front, -, -, rfl⟩ := createDirectories_apply host h t base p
  · exact heq
  · exact absurd (prefix_append _ _) hp

theorem dot_notMem_normal {root : Bool} {kept : List Bytes × Bool} (h : dot ∉ kept.1) :
    dot ∉ (parts.foldl (normalStep root) kept).1 := by
  induction parts generalizing kept with
  | nil => exact h
  | cons part parts ih =>
    obtain ⟨kept, ends⟩ := kept
    refine ih ?_
    rw [normalStep]
    split
    · exact h
    split
    · cases kept with
      | nil => cases root <;> simp [dot, dotdot]
      | cons top rest =>
        have hne : dot ≠ dotdot := by decide
        dsimp only
        split
        · exact not_mem_cons_of_ne_of_not_mem hne h
        · exact not_mem_of_not_mem_cons h
    · exact not_mem_cons_of_ne_of_not_mem (Ne.symm ‹_›) h

theorem normal_eq_dot {p : Path} (h : dot ∈ p.lexicallyNormal.parts) :
    p.lexicallyNormal = { parts := [dot] } := by
  simp only [Path.lexicallyNormal] at h ⊢
  split at h
  · rename_i hempty
    rw [hempty.2] at h
    cases h
  split at h
  · rw [if_neg ‹_›, if_pos ‹_›]
  · exact absurd (mem_reverse.mp h) (dot_notMem_normal not_mem_nil)

theorem plain_of_sanitize {entryName : Bytes} {path : Path}
    (h : sanitizeArchivePath entryName = .ok path) : ∀ part ∈ path.parts, Plain part := by
  simp only [sanitizeArchivePath] at h
  split at h
  · cases h
    exact fun _ hpart => absurd hpart not_mem_nil
  rename_i hproper
  split at h
  · cases h
  split at h
  · cases h
  cases h
  intro part hpart
  refine ⟨?_, ?_⟩
  · rintro rfl
    exact hproper (.inr (normal_eq_dot hpart))
  · rintro rfl
    contradiction

/-- Files are touched beneath `base` only, and what is left of the payload is what was not read. -/
def Places (base : Place) (t : Tree) (src : Bytes) (size : Nat)
    (r : Tree × Except Error (Nat × Bytes)) : Prop :=
  Beneath base t r.1 ∧ ∀ left rest, r.2 = .ok (left, rest) →
    ∃ k ≤ src.length, left + k = size ∧ rest = src.drop k

theorem placeEntry_places (t : Tree) {path : Path} (h : ∀ part ∈ path.parts, Plain part)
    (raw src : Bytes) :
    Places base t src (payloadSize raw) (placeEntry host base t path raw src) := by
  have hkeep : ∀ {t'}, Beneath base t t' →
      Places base t src (payloadSize raw) (t', .ok (payloadSize raw, src)) := by
    rintro t' ht
    refine ⟨ht, ?_⟩
    rintro left rest ⟨⟩
    exact ⟨0, Nat.zero_le _, rfl, rfl⟩
  have hthrow : ∀ {t' e}, Beneath base t t' → Places base t src (payloadSize raw) (t', .error e) :=
    fun ht => ⟨ht, fun _ _ hok => by cases hok⟩
  have hparent : ∀ part ∈ path.parent, Plain part := by
    intro part hpart
    rw [Path.parent] at hpart
    split at hpart
    · exact h part hpart
    · exact h part (dropLast_subset _ hpart)
  have hmade := createDirectories_beneath host base hparent t
  simp only [placeEntry]
  split
  · exact hkeep fun _ _ => rfl
  split
  · have hdir := createDirectories_beneath host base h t
    split
    · exact hkeep hdir
    · exact hthrow hdir
  split
  · split
    · split
      · exact hthrow hmade
      · generalize hr : writeFile host _ _ _ _ _ _ = r
        refine ⟨fun p hp => ?_, fun left rest hok => ?_⟩
        · have hne : p ≠ path.parts.foldl walk base :=
            fun heq => hp (heq ▸ foldl_walk h base ▸ prefix_append _ _)
          rw [← hmade p hp, ← hr]
          simp only [writeFile]
          split <;> exact Function.update_of_ne hne _ _
        · obtain ⟨t', e | rest'⟩ := r <;> cases hok
          obtain ⟨hle, hrest⟩ := of_writeFile (congrArg Prod.snd hr)
          exact ⟨_, hle, Nat.zero_add _, hrest⟩
    · exact hthrow hmade
  · exact hkeep fun _ _ => rfl

/-- An entry read from `src`: files are touched beneath `base` only, and if the loop goes on, the
payload and its padding were there. -/
def Reads (base : Place) (t : Tree) (src : Bytes) (size : Nat) : Round Scan → Prop
  | .ok s => Beneath base t s.tree ∧ size + padding size ≤ src.length ∧
      s.rest = src.drop (size + padding size)
  | .error r => Beneath base t r.2

theorem skipRest_reads {base : Place} {t t' : Tree} {src : Bytes} {size left k : Nat}
    (pending : Bytes) (ht : Beneath base t t') (hk : k ≤ src.length) (hleft : left + k = size) :
    Reads base t src size (skipRest t' pending size left (src.drop k)) := by
  rw [skipRest_eq, length_drop, drop_drop,
    show k + (left + padding size) = size + padding size by omega]
  split
  · exact ht
  · exact ⟨ht, by omega, rfl⟩

theorem readPayload_reads (s : Scan) (raw src : Bytes) :
    Reads base s.tree src (payloadSize raw) (readPayload host base s raw src) := by
  rw [readPayload]
  split
  · split
    · exact fun _ _ => rfl
    · exact skipRest_reads _ (fun _ _ => rfl) (by omega) (Nat.zero_add _)
  · split
    · exact fun _ _ => rfl
    · rename_i path hpath
      obtain ⟨hbeneath, hread⟩ :=
        placeEntry_places host base s.tree (plain_of_sanitize hpath) raw src
      dsimp only
      split
      · exact hbeneath
      · rename_i left rest hok
        obtain ⟨k, hk, hleft, rfl⟩ := hread left rest hok
        exact skipRest_reads _ hbeneath hk hleft

/-- What a round leaves behind it, and that it comes nearer to the end. -/
def Outcome (base : Place) (s : Scan) : Round (Option Scan) → Prop
  | .ok (some s') => Beneath base s.tree s'.tree ∧ s'.rest.length < s.rest.length
  | .ok none => True
  | .error r => Beneath base s.tree r.2

theorem readEntry_outcome (s : Scan) :
    Outcome base s (readEntry host base s) := by
  simp only [readEntry, length_take]
  split
  · trivial
  split
  · exact fun _ _ => rfl
  split
  · trivial
  split
  · have hreads := readPayload_reads host base s (s.rest.take tarBlockSize)
      (s.rest.drop tarBlockSize)
    generalize readPayload host base s (s.rest.take tarBlockSize) (s.rest.drop tarBlockSize) = r
      at hreads
    cases r with
    | error r => exact hreads
    | ok s' =>
      refine ⟨hreads.1, ?_⟩
      rw [hreads.2.2, length_drop, length_drop, tarBlockSize]
      simp only [tarBlockSize] at *
      omega
  · exact fun _ _ => rfl

/-! ## The loop -/

def scanEntries (host : Host) (base : Place) (s : Scan) : Tree × Option Error :=
  match h : readEntry host base s with
  | .ok (some s') => scanEntries host base s'
  | .ok none => (s.tree, none)
  | .error (e, t) => (t, some e)
termination_by s.rest.length
decreasing_by
  have houtcome := readEntry_outcome host base s
  rw [h] at houtcome
  exact houtcome.2

/-- Where a compressed vrtbin is unpacked to. -/
def tarPath (base : Place) : Place :=
  base.dropLast ++ [base.getLastD [] ++ [46, 116, 109, 112, 46, 116, 97, 114]]

def hasGzipMagic (vrtbin : Bytes) : Bool := vrtbin.take 2 == [0x1f, 0x8b]

/-- `Vrtbin::extract` into `tempExtractPath`; what is left, and what was thrown. -/
def extract (host : Host) (tempExtractPath : Place) (vrtbin : Bytes) (t : Tree) :
    Tree × Option Error :=
  let made := createDirectories host (removeAll t tempExtractPath) [] tempExtractPath
  if made.2 then
    if hasGzipMagic vrtbin then
      let r := match host.gunzip vrtbin with
        | none => (made.1, some Error.gzip)
        | some archive => scanEntries host tempExtractPath ⟨archive, [], made.1⟩
      (Function.update r.1 (tarPath tempExtractPath) none, r.2)
    else scanEntries host tempExtractPath ⟨vrtbin, [], made.1⟩
  else (made.1, some .extractionPath)

theorem scanEntries_beneath (s : Scan) :
    Beneath base s.tree (scanEntries host base s).1 := by
  fun_induction scanEntries host base s with
  | case1 s s' h ih =>
    have houtcome := readEntry_outcome host base s
    rw [h] at houtcome
    exact fun p hp => (ih p hp).trans (houtcome.1 p hp)
  | case2 => exact fun _ _ => rfl
  | case3 s e t h =>
    have houtcome := readEntry_outcome host base s
    rwa [h] at houtcome

/-! ## What is touched and what is accepted -/

/-- The directory that the extraction directory lies in is there. -/
structure Ready (base : Place) (t : Tree) : Prop where
  plain : ∀ part ∈ base, Plain part
  parents : ∀ p, p <+: base → p ≠ [] → p ≠ base → t p = some .dir

theorem Ready.beneath {base : Place} {t : Tree} (h : Ready base t) (host : Host) :
    Beneath base t (createDirectories host (removeAll t base) [] base).1 := by
  intro p hp
  have hremoved : removeAll t base p = t p := if_neg hp
  obtain heq | ⟨hnone, _, hne, hfront, rfl⟩ :=
    createDirectories_apply host h.plain (removeAll t base) [] p
  · exact heq.trans hremoved
  · have hproper : p ≠ base := fun heq => hp (heq ▸ prefix_refl _)
    rw [hremoved, h.parents p hfront hne hproper] at hnone
    cases hnone

/-- A whole entry: its header, its payload and the padding, with a name that stays inside. -/
structure Entry (pending raw payload pad : Bytes) : Prop where
  block : raw.length = tarBlockSize
  proper : isZeroBlock raw = false
  sum : hasValidTarChecksum raw = true
  payload : payload.length = payloadSize raw
  pad : pad.length = padding (payloadSize raw)
  name : typeflag raw ≠ longNameType → ∃ path, sanitizeArchivePath
    (if pending = [] then headerName raw else pending) = .ok path ∧ ∀ part ∈ path.parts, Plain part

/-- An archive up to its end, behind a long name that is pending. -/
inductive Archive : Bytes → Bytes → Prop
  | ended {pending rest : Bytes} (zero : isZeroBlock (rest.take tarBlockSize) = true)
      (whole : rest = [] ∨ tarBlockSize ≤ rest.length) : Archive pending rest
  | entry {pending raw payload pad rest : Bytes} (entry : Entry pending raw payload pad)
      (later : Archive (if typeflag raw = longNameType then readField payload else []) rest) :
      Archive pending (raw ++ (payload ++ (pad ++ rest)))

variable {host base}

theorem of_skipRest {t : Tree} {pending : Bytes} {size left : Nat} {src : Bytes} {s : Scan}
    (h : skipRest t pending size left src = .ok s) : s.pendingLongName = pending := by
  rw [skipRest_eq] at h
  split at h <;> cases h
  rfl

theorem of_readPayload {s s' : Scan} {raw src : Bytes}
    (h : readPayload host base s raw src = .ok s') :
    s'.pendingLongName = (if typeflag raw = longNameType then readField (src.take (payloadSize raw))
      else []) ∧
    (typeflag raw ≠ longNameType → ∃ path, sanitizeArchivePath
      (if s.pendingLongName = [] then headerName raw else s.pendingLongName) = .ok path ∧
        ∀ part ∈ path.parts, Plain part) := by
  rw [readPayload] at h
  split at h
  · rename_i hlong
    rw [if_pos hlong]
    split at h
    · cases h
    · exact ⟨of_skipRest h, fun hne => absurd hlong hne⟩
  · rename_i hlong
    rw [if_neg hlong]
    split at h
    · cases h
    · rename_i path hpath
      dsimp only at h
      split at h
      · cases h
      · exact ⟨of_skipRest h, fun _ => ⟨path, hpath, plain_of_sanitize hpath⟩⟩

/-- A round that goes on has read a whole entry. -/
theorem of_readEntry {s s' : Scan} (h : readEntry host base s = .ok (some s'))
    (hlater : Archive s'.pendingLongName s'.rest) : Archive s.pendingLongName s.rest := by
  simp only [readEntry] at h
  split at h
  · cases h
  split at h
  · cases h
  rename_i hblock
  split at h
  · cases h
  rename_i hproper
  split at h
  · rename_i hsum
    have hreads := readPayload_reads host base s (s.rest.take tarBlockSize)
      (s.rest.drop tarBlockSize)
    generalize hr : readPayload host base s (s.rest.take tarBlockSize) (s.rest.drop tarBlockSize) = r
      at h hreads
    obtain _ | s₁ := r <;> cases h
    obtain ⟨-, hlen, hrest⟩ := hreads
    obtain ⟨hpending, hname⟩ := of_readPayload hr
    rw [hpending, hrest, ← drop_drop] at hlater
    rw [← take_append_drop tarBlockSize s.rest]
    generalize s.rest.take tarBlockSize = raw at *
    generalize s.rest.drop tarBlockSize = src at *
    rw [← take_append_drop (payloadSize raw) src,
      ← take_append_drop (padding (payloadSize raw)) (src.drop (payloadSize raw))]
    refine .entry ⟨by_contra hblock, by simpa using hproper, hsum, ?_, ?_, hname⟩ hlater
    · rw [length_take]
      omega
    · rw [length_take, length_drop]
      omega
  · cases h

theorem of_scanEntries {s : Scan} (h : (scanEntries host base s).2 = none) :
    Archive s.pendingLongName s.rest := by
  fun_induction scanEntries host base s with
  | case1 s s' hround ih => exact of_readEntry hround (ih h)
  | case2 s hround =>
    simp only [readEntry, length_take] at hround
    split at hround
    · have hnil : s.rest = [] := length_eq_zero_iff.mp (by rw [tarBlockSize] at *; omega)
      exact hnil ▸ .ended rfl (.inl rfl)
    split at hround
    · cases hround
    split at hround
    · exact .ended ‹_› (.inr (by omega))
    split at hround
    · generalize readPayload _ _ _ _ _ = r at hround
      cases r <;> cases hround
    · cases hround
  | case3 => cases h

/-- What is extracted without an error is an archive: whole entries one after the other, every
header with its checksum and every name inside the extraction directory, up to the end of the file
or a block of zeros. -/
theorem extract_archive (host : Host) (base : Place) (vrtbin : Bytes) (t : Tree)
    (h : (extract host base vrtbin t).2 = none) :
    ∃ archive, (if hasGzipMagic vrtbin then host.gunzip vrtbin else some vrtbin) = some archive ∧
      Archive [] archive := by
  simp only [extract] at h
  split at h
  · split at h
    · rename_i hmagic
      rw [if_pos hmagic]
      cases harchive : host.gunzip vrtbin with
      | none =>
        rw [harchive] at h
        cases h
      | some archive =>
        rw [harchive] at h
        exact ⟨archive, rfl, of_scanEntries (s := ⟨archive, [], _⟩) h⟩
    · rename_i hmagic
      rw [if_neg hmagic]
      exact ⟨vrtbin, rfl, of_scanEntries (s := ⟨vrtbin, [], _⟩) h⟩
  · cases h

/-- The header of an entry for the extraction directory itself. -/
def selfHeader : Bytes :=
  46 :: (replicate 147 0 ++ ([48, 48, 48, 52, 53, 54, 0, 32] ++ replicate 356 0))

theorem extract_archive_self : ∃ archive, some selfHeader = some archive ∧ Archive [] archive :=
  extract_archive ⟨fun _ => true, false, 0o644, fun _ => none, fun _ => none⟩ [[118]] selfHeader
    (fun _ => none) (by decide +kernel)

end Slash.Vrt

import Mathlib.Data.List.Nodup
import Mathlib.Data.List.Perm.Subperm

/-!
# Includes in the configuration

`config_load` follows `include` and `include-glob` lines while it parses. A file that was entered
before is skipped, and a relative glob pattern is put behind the directory of the file that was
entered last. After a nested include that is not the file in which the pattern stands.

A line is an include, a glob or anything else, of which only counts whether its handler accepts it.
What the system answers to `realpath` and `glob` is part of the file system. The state keeps two
records that the program does not have: which files were given to the parser, and what each pattern
was resolved to.
-/

namespace Slash.Vrtd

open List

/-! ## Files -/

abbrev Path := List Char

def isAbsolute (p : Path) : Bool := p.head? == some '/'

/-- Up to the last slash, if there is one. -/
def directory (p : Path) : Option Path :=
  if '/' ∈ p then some (p.reverse.dropWhile (· != '/')).reverse else none

inductive Line where
  | includeFile (path : Path)
  | includeGlob (pattern : Path)
  /-- Any other line, and whether its handler accepts it. -/
  | other (accepted : Bool)
  deriving DecidableEq, Repr

/-- What is written in each file. -/
abbrev Contents := Path → List Line

/-- The answers of the system. Canonical paths are absolute and stay as they are. -/
structure FileSystem where
  files : List Path
  realpath : Path → Option Path
  glob : Path → List Path
  canonical : ∀ p q, realpath p = some q → q ∈ files
  fixed : ∀ q ∈ files, realpath q = some q
  absolute : ∀ q ∈ files, isAbsolute q = true

/-! ## The parser -/

/-- A pattern of a file, and what was handed to `glob` or `realpath` for it. -/
structure Resolution where
  file : Path
  written : Path
  used : Path
  deriving DecidableEq, Repr

structure ParseState where
  visited : List Path := []
  parsed : List Path := []
  resolved : List Resolution := []
  deriving DecidableEq, Repr

def ParseState.note (s : ParseState) (file written used : Path) : ParseState :=
  { s with resolved := s.resolved ++ [⟨file, written, used⟩] }

def ParseState.enter (s : ParseState) (file : Path) : ParseState :=
  { s with visited := s.visited ++ [file], parsed := s.parsed ++ [file] }

/-- `none` is the NULL pattern: the pattern is used as it is. -/
def resolveRelativePattern (s : ParseState) (pattern : Path) : Option Path :=
  if isAbsolute pattern = true ∨ s.visited.length = 0 then none
  else
    match s.visited.getLast? with
    | some current => (directory current).map (· ++ pattern)
    | none => none

/-- The rest of a parse: the state it leaves and whether it went well. -/
abbrev Recurse := ParseState → Path → Option (ParseState × Bool)

/-- The matches of a pattern, up to the first that goes wrong. -/
def parseMatches (recurse : Recurse) : ParseState → List Path → Option (ParseState × Bool)
  | s, [] => some (s, true)
  | s, p :: ps => do
    let r ← recurse s p
    if r.2 then parseMatches recurse r.1 ps else some (r.1, false)

def parseFileGlob (fs : FileSystem) (recurse : Recurse) (file : Path) (s : ParseState)
    (pattern : Path) : Option (ParseState × Bool) :=
  let used := (resolveRelativePattern s pattern).getD pattern
  parseMatches recurse (s.note file pattern used) (fs.glob used)

def parseConfigCallback (fs : FileSystem) (recurse : Recurse) (file : Path) (s : ParseState) :
    Line → Option (ParseState × Bool)
  | .includeFile path => recurse (s.note file path path) path
  | .includeGlob pattern => parseFileGlob fs recurse file s pattern
  | .other accepted => some (s, accepted)

/-- `ini_parse` goes on after a line that is not accepted. -/
def parseFileUnique (fs : FileSystem) (recurse : Recurse) (file : Path) :
    ParseState → List Line → Option (ParseState × Bool)
  | s, [] => some (s, true)
  | s, l :: ls => do
    let r ← parseConfigCallback fs recurse file s l
    let r' ← parseFileUnique fs recurse file r.1 ls
    some (r'.1, r.2 && r'.2)

/-- With includes nested at most `fuel` deep; `none` if they go deeper. -/
def parseFile (contents : Contents) (fs : FileSystem) : Nat → Recurse
  | 0, _, _ => none
  | fuel + 1, s, path =>
    match fs.realpath path with
    | none => some (s, false)
    | some full =>
      if full ∈ s.visited then some (s, true)
      else parseFileUnique fs (parseFile contents fs fuel) full (s.enter full) (contents full)

/-! ## What is meant -/

/-- A pattern of a file, relative to the directory of the file. -/
def against (file pattern : Path) : Path :=
  if isAbsolute pattern then pattern else (directory file).getD [] ++ pattern

/-- The paths that a line of a file names. -/
def named (fs : FileSystem) (file : Path) : Line → List Path
  | .includeFile path => [against file path]
  | .includeGlob pattern => fs.glob (against file pattern)
  | .other _ => []

def Includes (contents : Contents) (fs : FileSystem) (file file' : Path) : Prop :=
  ∃ l ∈ contents file, ∃ p ∈ named fs file l, fs.realpath p = some file'

/-- All that is named is there, and every other line is accepted. -/
structure Intact (contents : Contents) (fs : FileSystem) : Prop where
  found : ∀ file ∈ fs.files, ∀ l ∈ contents file, ∀ p ∈ named fs file l, fs.realpath p ≠ none
  accepted : ∀ file ∈ fs.files, Line.other false ∉ contents file

/-- Parsing ends; no file is parsed twice; every pattern is resolved against the directory of the
file in which it stands; and where nothing is missing the parse goes well and the files parsed
are those that can be reached. -/
def Follows (contents : Contents) (fs : FileSystem) (root : Path) : Prop :=
  ∃ s ok, (∀ fuel > fs.files.length, parseFile contents fs fuel {} root = some (s, ok)) ∧
    s.parsed.Nodup ∧ (∀ u ∈ s.resolved, u.used = against u.file u.written) ∧
    ∀ file, fs.realpath root = some file → Intact contents fs → ok = true ∧
      ∀ file', file' ∈ s.parsed ↔ Relation.ReflTransGen (Includes contents fs) file file'

/-- No line of these names a relative path. -/
def allAbsolute : List Line → Bool
  | [] => true
  | .includeFile path :: ls => isAbsolute path && allAbsolute ls
  | .includeGlob pattern :: ls => isAbsolute pattern && allAbsolute ls
  | .other _ :: ls => allAbsolute ls

/-- No relative path is included, and no relative pattern stands behind another include or glob; an
include of the file itself does no harm. -/
def anchored (file : Path) : List Line → Bool
  | [] => true
  | .includeFile path :: ls =>
    isAbsolute path && (if path = file then anchored file ls else allAbsolute ls)
  | .includeGlob _ :: ls => allAbsolute ls
  | .other _ :: ls => anchored file ls

/-! ## Parsing ends -/

/-- Every file is entered once, and given to the parser then. -/
structure Valid (fs : FileSystem) (s : ParseState) : Prop where
  nodup : s.visited.Nodup
  files : ∀ file ∈ s.visited, file ∈ fs.files
  parsed : s.parsed = s.visited

structure Kept (s s' : ParseState) : Prop where
  visited : s.visited <+: s'.visited
  resolved : s.resolved <+: s'.resolved

/-- A parse that ends in a valid state. -/
def Ends (fs : FileSystem) (s : ParseState) (m : Option (ParseState × Bool)) : Prop :=
  ∃ r, m = some r ∧ Valid fs r.1 ∧ Kept s r.1

section
variable {contents : Contents} {fs : FileSystem} {recurse : Recurse} {s : ParseState} {n : Nat}

theorem Kept.refl (s : ParseState) : Kept s s := ⟨prefix_refl _, prefix_refl _⟩

theorem Kept.trans {s' s'' : ParseState} (h : Kept s s') (h' : Kept s' s'') : Kept s s'' :=
  ⟨h.visited.trans h'.visited, h.resolved.trans h'.resolved⟩

theorem Kept.note (s : ParseState) (file written used : Path) :
    Kept s (s.note file written used) := ⟨prefix_refl _, prefix_append _ _⟩

theorem Kept.enter (s : ParseState) (file : Path) : Kept s (s.enter file) :=
  ⟨prefix_append _ _, prefix_refl _⟩

theorem Ends.of_kept {s' : ParseState} {m : Option (ParseState × Bool)} (h : Ends fs s' m)
    (hkept : Kept s s') : Ends fs s m := by
  obtain ⟨r, hr, hvalid, hkept'⟩ := h
  exact ⟨r, hr, hvalid, hkept.trans hkept'⟩

theorem Valid.note (h : Valid fs s) (file written used : Path) :
    Valid fs (s.note file written used) := ⟨h.nodup, h.files, h.parsed⟩

theorem Valid.length_le (h : Valid fs s) : s.visited.length ≤ fs.files.length :=
  (h.nodup.subperm h.files).length_le

theorem Valid.enter (h : Valid fs s) {file : Path} (hfile : file ∈ fs.files)
    (hnew : file ∉ s.visited) : Valid fs (s.enter file) where
  nodup := nodup_append.mpr ⟨h.nodup, nodup_singleton _, fun a ha b hb => by
    rw [mem_singleton.mp hb]
    exact fun heq => hnew (heq ▸ ha)⟩
  files := fun a ha => by
    rcases mem_append.mp ha with hold | hlast
    · exact h.files a hold
    · rw [mem_singleton.mp hlast]
      exact hfile
  parsed := congrArg (· ++ [file]) h.parsed

/-- The nested parse ends if fewer than `n` files are left, and has then been to its file. -/
def EndsWithin (fs : FileSystem) (recurse : Recurse) (n : Nat) : Prop :=
  ∀ s path, Valid fs s → fs.files.length < n + s.visited.length →
    Ends fs s (recurse s path) ∧
    ∀ r full, recurse s path = some r → fs.realpath path = some full → full ∈ r.1.visited

theorem parseMatches_ends (hrec : EndsWithin fs recurse n) : ∀ (ps : List Path) {s : ParseState},
    Valid fs s → fs.files.length < n + s.visited.length →
    Ends fs s (parseMatches recurse s ps) := by
  intro ps
  induction ps with
  | nil =>
    intro s hs _
    exact ⟨(s, true), rfl, hs, .refl s⟩
  | cons p ps ih =>
    intro s hs hleft
    obtain ⟨⟨r, hr, hvalid, hkept⟩, -⟩ := hrec s p hs hleft
    rw [parseMatches, hr, Option.bind_eq_bind, Option.bind_some]
    split
    · have hle := hkept.visited.length_le
      exact (ih hvalid (by omega)).of_kept hkept
    · exact ⟨(r.1, false), rfl, hvalid, hkept⟩

theorem parseConfigCallback_ends (hrec : EndsWithin fs recurse n) (file : Path) (l : Line)
    (hs : Valid fs s) (hleft : fs.files.length < n + s.visited.length) :
    Ends fs s (parseConfigCallback fs recurse file s l) := by
  cases l with
  | includeFile path => exact (hrec _ path (hs.note _ _ _) hleft).1.of_kept (.note _ _ _ _)
  | includeGlob pattern =>
    exact (parseMatches_ends hrec _ (hs.note _ _ _) hleft).of_kept (.note _ _ _ _)
  | other accepted => exact ⟨(s, accepted), rfl, hs, .refl s⟩

theorem parseFileUnique_ends (hrec : EndsWithin fs recurse n) (file : Path) :
    ∀ (ls : List Line) {s : ParseState}, Valid fs s →
      fs.files.length < n + s.visited.length →
      Ends fs s (parseFileUnique fs recurse file s ls) := by
  intro ls
  induction ls with
  | nil =>
    intro s hs _
    exact ⟨(s, true), rfl, hs, .refl s⟩
  | cons l ls ih =>
    intro s hs hleft
    obtain ⟨r, hr, hvalid, hkept⟩ := parseConfigCallback_ends hrec file l hs hleft
    have hle := hkept.visited.length_le
    obtain ⟨r', hr', hvalid', hkept'⟩ := ih hvalid (by omega)
    refine ⟨(r'.1, r.2 && r'.2), ?_, hvalid', hkept.trans hkept'⟩
    rw [parseFileUnique, hr, Option.bind_eq_bind, Option.bind_some, hr']
    rfl

/-- The nesting is at most as deep as there are files that were not entered yet. -/
theorem parseFile_ends (contents : Contents) (fs : FileSystem) (n : Nat) :
    EndsWithin fs (parseFile contents fs n) n := by
  induction n with
  | zero =>
    intro s path hs hleft
    have hle := hs.length_le
    omega
  | succ n ih =>
    intro s path hs hleft
    rw [parseFile]
    cases hreal : fs.realpath path with
    | none =>
      refine ⟨⟨(s, false), rfl, hs, .refl s⟩, fun r full _ hfull => ?_⟩
      cases hfull
    | some full =>
      dsimp only
      split
      · rename_i hmem
        refine ⟨⟨(s, true), rfl, hs, .refl s⟩, fun r q hr hq => ?_⟩
        cases hr
        cases hq
        exact hmem
      · rename_i hnew
        have hlength : (s.enter full).visited.length = s.visited.length + 1 := by
          simp [ParseState.enter]
        obtain ⟨r, hr, hvalid, hkept⟩ := parseFileUnique_ends ih full (contents full)
          (hs.enter (fs.canonical _ _ hreal) hnew) (by omega)
        refine ⟨⟨r, hr, hvalid, (Kept.enter s full).trans hkept⟩, fun r' q hr' hq => ?_⟩
        rw [hr] at hr'
        cases hr'
        cases hq
        exact hkept.visited.subset (mem_append_right _ (mem_singleton_self _))

theorem parseFile_fuel (contents : Contents) (fs : FileSystem) :
    ∀ (n : Nat) {s : ParseState} {path : Path} {r : ParseState × Bool},
      parseFile contents fs n s path = some r → parseFile contents fs (n + 1) s path = some r := by
  intro n
  induction n with
  | zero =>
    intro s path r h
    cases h
  | succ n ih =>
    have hmatches : ∀ (ps : List Path) {s : ParseState} {r : ParseState × Bool},
        parseMatches (parseFile contents fs n) s ps = some r →
        parseMatches (parseFile contents fs (n + 1)) s ps = some r := by
      intro ps
      induction ps with
      | nil => exact fun h => h
      | cons p ps ihps =>
        intro s r h
        obtain ⟨q, hq, hrest⟩ := Option.bind_eq_some_iff.mp h
        rw [parseMatches, ih hq, Option.bind_eq_bind, Option.bind_some]
        split
        · rename_i hok
          rw [if_pos hok] at hrest
          exact ihps hrest
        · rename_i hok
          rw [if_neg hok] at hrest
          exact hrest
    have hlines : ∀ (file : Path) (ls : List Line) {s : ParseState} {r : ParseState × Bool},
        parseFileUnique fs (parseFile contents fs n) file s ls = some r →
        parseFileUnique fs (parseFile contents fs (n + 1)) file s ls = some r := by
      intro file ls
      induction ls with
      | nil => exact fun h => h
      | cons l ls ihls =>
        intro s r h
        obtain ⟨q, hq, hrest⟩ := Option.bind_eq_some_iff.mp h
        obtain ⟨q', hq', hlast⟩ := Option.bind_eq_some_iff.mp hrest
        have hcall : parseConfigCallback fs (parseFile contents fs (n + 1)) file s l = some q := by
          cases l with
          | includeFile path => exact ih hq
          | includeGlob pattern => exact hmatches _ hq
          | other accepted => exact hq
        rw [parseFileUnique, hcall, Option.bind_eq_bind, Option.bind_some, ihls hq']
        exact hlast
    intro s path r h
    rw [parseFile] at h ⊢
    cases hreal : fs.realpath path with
    | none =>
      rw [hreal] at h
      exact h
    | some full =>
      rw [hreal] at h
      dsimp only at h ⊢
      split
      · rename_i hmem
        rw [if_pos hmem] at h
        exact h
      · rename_i hmem
        rw [if_neg hmem] at h
        exact hlines full _ h

end

end Slash.Vrtd

import Mathlib.Data.List.TakeWhile
import Slash.Vrtd.Includes

/-!
# Configurations that are followed as they should

A file is anchored if it includes no relative path and has no relative pattern behind another
include. In a configuration of anchored files every pattern is resolved against the directory of
its own file and exactly the reachable files are parsed. A file that is not anchored is led astray
by a second file in another directory.
-/

namespace Slash.Vrtd

open List

/-! ## What an anchored configuration does -/

/-- The parse from `s` to `s'` was for the files `wanted`; `fine` says that they are all there. -/
structure Sound (contents : Contents) (fs : FileSystem) (wanted : Path → Prop) (fine : Prop)
    (s s' : ParseState) (ok : Bool) : Prop where
  grows : ∀ file ∈ s.visited, file ∈ s'.visited
  resolved : ∀ u ∈ s'.resolved, u ∈ s.resolved ∨ u.used = against u.file u.written
  reached : ∀ file ∈ s'.visited, file ∈ s.visited ∨
    ∃ q, wanted q ∧ Relation.ReflTransGen (Includes contents fs) q file
  good : Intact contents fs → fine → ok = true
  found : Intact contents fs → fine → ∀ q, wanted q → q ∈ s'.visited
  closed : Intact contents fs → fine → ∀ file ∈ s'.visited, file ∉ s.visited →
    ∀ file', Includes contents fs file file' → file' ∈ s'.visited

section
variable {contents : Contents} {fs : FileSystem} {recurse : Recurse} {s s' s'' : ParseState}
  {ok ok' : Bool} {wanted wanted' : Path → Prop} {fine fine' : Prop}

theorem Sound.same (hwanted : ∀ q, wanted q → q ∈ s.visited) (hok : Intact contents fs → fine → ok = true) :
    Sound contents fs wanted fine s s ok where
  grows := fun _ h => h
  resolved := fun _ h => .inl h
  reached := fun _ h => .inl h
  good := hok
  found := fun _ _ q hq => hwanted q hq
  closed := fun _ _ _ hin hout => absurd hin hout

theorem Sound.trans (h : Sound contents fs wanted fine s s' ok)
    (h' : Sound contents fs wanted' fine' s' s'' ok') :
    Sound contents fs (fun q => wanted q ∨ wanted' q) (fine ∧ fine') s s'' (ok && ok') where
  grows := fun file hfile => h'.grows file (h.grows file hfile)
  resolved := fun u hu => by
    rcases h'.resolved u hu with hold | hright
    · exact h.resolved u hold
    · exact .inr hright
  reached := fun file hfile => by
    rcases h'.reached file hfile with hold | ⟨q, hq, hreach⟩
    · rcases h.reached file hold with hold' | ⟨q, hq, hreach⟩
      · exact .inl hold'
      · exact .inr ⟨q, .inl hq, hreach⟩
    · exact .inr ⟨q, .inr hq, hreach⟩
  good := fun hi hf => by rw [h.good hi hf.1, h'.good hi hf.2]; rfl
  found := fun hi hf q hq => by
    rcases hq with hq | hq
    · exact h'.grows q (h.found hi hf.1 q hq)
    · exact h'.found hi hf.2 q hq
  closed := fun hi hf file hfile hnew file' hinc => by
    by_cases hmid : file ∈ s'.visited
    · exact h'.grows file' (h.closed hi hf.1 file hmid hnew file' hinc)
    · exact h'.closed hi hf.2 file hfile hmid file' hinc

theorem Sound.weaken (h : Sound contents fs wanted fine s s' ok) (hiff : ∀ q, wanted q ↔ wanted' q)
    (hfine : fine' → fine) : Sound contents fs wanted' fine' s s' ok where
  grows := h.grows
  resolved := h.resolved
  reached := fun file hfile => (h.reached file hfile).imp_right fun ⟨q, hq, hreach⟩ =>
    ⟨q, (hiff q).mp hq, hreach⟩
  good := fun hi hf => h.good hi (hfine hf)
  found := fun hi hf q hq => h.found hi (hfine hf) q ((hiff q).mpr hq)
  closed := fun hi hf => h.closed hi (hfine hf)

theorem Sound.failed (h : Sound contents fs wanted fine s s' false) (hwanted : ∀ q, wanted q → wanted' q)
    (hfine : fine' → fine) : Sound contents fs wanted' fine' s s' false where
  grows := h.grows
  resolved := h.resolved
  reached := fun file hfile => (h.reached file hfile).imp_right fun ⟨q, hq, hreach⟩ =>
    ⟨q, hwanted q hq, hreach⟩
  good := fun hi hf => h.good hi (hfine hf)
  found := fun hi hf => absurd (h.good hi (hfine hf)) Bool.false_ne_true
  closed := fun hi hf => absurd (h.good hi (hfine hf)) Bool.false_ne_true

theorem Sound.note {file written used : Path} (hused : used = against file written)
    (h : Sound contents fs wanted fine (s.note file written used) s' ok) :
    Sound contents fs wanted fine s s' ok where
  grows := h.grows
  resolved := fun u hu => by
    rcases h.resolved u hu with hold | hright
    · rcases mem_append.mp hold with hold' | hnew
      · exact .inl hold'
      · rw [mem_singleton.mp hnew]
        exact .inr hused
    · exact .inr hright
  reached := h.reached
  good := h.good
  found := h.found
  closed := h.closed

def SoundFor (contents : Contents) (fs : FileSystem) (recurse : Recurse) : Prop :=
  ∀ s path s' ok, Valid fs s → recurse s path = some (s', ok) → Valid fs s' ∧
    Sound contents fs (fun q => fs.realpath path = some q) (fs.realpath path ≠ none) s s' ok ∧
    ∀ full ∈ s.visited, fs.realpath path = some full → s' = s

theorem parseMatches_sound (hrec : SoundFor contents fs recurse) : ∀ (ps : List Path)
    {s s' : ParseState} {ok : Bool}, Valid fs s → parseMatches recurse s ps = some (s', ok) →
    Valid fs s' ∧ Sound contents fs (fun q => ∃ p ∈ ps, fs.realpath p = some q)
      (∀ p ∈ ps, fs.realpath p ≠ none) s s' ok := by
  intro ps
  induction ps with
  | nil =>
    intro s s' ok hs h
    cases h
    exact ⟨hs, Sound.same (fun q ⟨p, hp, _⟩ => absurd hp not_mem_nil) fun _ _ => rfl⟩
  | cons p ps ih =>
    intro s s' ok hs h
    obtain ⟨⟨s₁, ok₁⟩, hfirst, hrest⟩ := Option.bind_eq_some_iff.mp h
    obtain ⟨hs₁, hsound₁, -⟩ := hrec s p s₁ ok₁ hs hfirst
    cases ok₁ with
    | true =>
      obtain ⟨hs', hsound⟩ := ih hs₁ hrest
      refine ⟨hs', (hsound₁.trans hsound).weaken (fun q => ?_) fun hall => ?_⟩
      · simp only [mem_cons, exists_eq_or_imp]
      · exact ⟨hall p mem_cons_self, fun p' hp' => hall p' (mem_cons_of_mem _ hp')⟩
    | false =>
      cases hrest
      exact ⟨hs₁, hsound₁.failed (fun q hq => ⟨p, mem_cons_self, hq⟩) fun hall =>
        hall p mem_cons_self⟩

/-- The pattern of a line is resolved against the directory of its file. -/
def RightlyResolved (s : ParseState) (file : Path) : Line → Prop
  | .includeFile path => path = against file path
  | .includeGlob pattern => (resolveRelativePattern s pattern).getD pattern = against file pattern
  | .other _ => True

theorem parseConfigCallback_sound (hrec : SoundFor contents fs recurse) (hs : Valid fs s)
    {file : Path} {l : Line} (hright : RightlyResolved s file l)
    (h : parseConfigCallback fs recurse file s l = some (s', ok)) :
    Valid fs s' ∧ Sound contents fs (fun q => ∃ p ∈ named fs file l, fs.realpath p = some q)
      ((∀ p ∈ named fs file l, fs.realpath p ≠ none) ∧ l ≠ .other false) s s' ok := by
  cases l with
  | includeFile path =>
    obtain ⟨hs', hsound, -⟩ := hrec _ path s' ok (hs.note file path path) h
    have hnamed : named fs file (.includeFile path) = [path] :=
      congrArg (fun p => [p]) hright.symm
    refine ⟨hs', (hsound.note hright).weaken (fun q => ?_) fun hfine => ?_⟩
    · rw [hnamed]
      simp only [mem_singleton, exists_eq_left]
    · exact hfine.1 path (hnamed ▸ mem_singleton_self path)
  | includeGlob pattern =>
    obtain ⟨hs', hsound⟩ := parseMatches_sound hrec _ (hs.note file pattern _) h
    have hnamed : fs.glob ((resolveRelativePattern s pattern).getD pattern) =
        named fs file (.includeGlob pattern) := congrArg fs.glob hright
    refine ⟨hs', (hsound.note hright).weaken (fun q => ?_) fun hfine => ?_⟩
    · rw [hnamed]
    · rw [hnamed]
      exact hfine.1
  | other accepted =>
    cases h
    refine ⟨hs, Sound.same (fun q ⟨p, hp, _⟩ => absurd hp not_mem_nil) fun _ hfine => ?_⟩
    cases ok with
    | true => rfl
    | false => exact absurd rfl hfine.2

/-- Either nothing relative is left, or nothing was entered since the file itself. -/
def Ready (s : ParseState) (file : Path) (ls : List Line) : Prop :=
  allAbsolute ls = true ∨ s.visited.getLast? = some file ∧ anchored file ls = true

theorem against_absolute {file pattern : Path} (h : isAbsolute pattern = true) :
    against file pattern = pattern := if_pos h

theorem directory_of_absolute {file : Path} (h : isAbsolute file = true) :
    ∃ dir, directory file = some dir := by
  refine ⟨_, if_pos ?_⟩
  rw [isAbsolute, beq_iff_eq] at h
  exact mem_of_head? h

theorem resolve_absolute {pattern : Path} (h : isAbsolute pattern = true) :
    (resolveRelativePattern s pattern).getD pattern = pattern := by
  rw [resolveRelativePattern, if_pos (.inl h)]
  rfl

/-- Right after a file was entered its patterns are resolved as they should. -/
theorem resolve_against {file pattern : Path} (hlast : s.visited.getLast? = some file)
    (hfile : isAbsolute file = true) :
    (resolveRelativePattern s pattern).getD pattern = against file pattern := by
  by_cases habs : isAbsolute pattern = true
  · rw [resolve_absolute habs, against_absolute habs]
  · have hne : ¬ (isAbsolute pattern = true ∨ s.visited.length = 0) := by
      rintro (hpat | hnil)
      · exact habs hpat
      · rw [length_eq_zero_iff.mp hnil] at hlast
        cases hlast
    obtain ⟨dir, hdir⟩ := directory_of_absolute hfile
    rw [resolveRelativePattern, if_neg hne, hlast, against, if_neg habs]
    dsimp only
    rw [hdir]
    rfl

theorem Ready.right {file : Path} {l : Line} {ls : List Line} (h : Ready s file (l :: ls))
    (hfile : isAbsolute file = true) : RightlyResolved s file l := by
  cases l with
  | includeFile path =>
    rcases h with hall | ⟨-, hanchored⟩
    · rw [allAbsolute, Bool.and_eq_true] at hall
      exact (against_absolute hall.1).symm
    · rw [anchored, Bool.and_eq_true] at hanchored
      exact (against_absolute hanchored.1).symm
  | includeGlob pattern =>
    rcases h with hall | ⟨hlast, -⟩
    · rw [allAbsolute, Bool.and_eq_true] at hall
      exact (resolve_absolute hall.1).trans (against_absolute hall.1).symm
    · exact resolve_against hlast hfile
  | other accepted => trivial

theorem allAbsolute_tail {l : Line} {ls : List Line} (h : allAbsolute (l :: ls) = true) :
    allAbsolute ls = true := by
  cases l with
  | includeFile path => exact (Bool.and_eq_true_iff.mp h).2
  | includeGlob pattern => exact (Bool.and_eq_true_iff.mp h).2
  | other accepted => exact h

theorem Ready.tail (hrec : SoundFor contents fs recurse) (hs : Valid fs s) {file : Path}
    (hfile : file ∈ fs.files) (hin : file ∈ s.visited) {l : Line} {ls : List Line}
    (h : Ready s file (l :: ls)) (hl : parseConfigCallback fs recurse file s l = some (s', ok)) :
    Ready s' file ls := by
  rcases h with hall | ⟨hlast, hanchored⟩
  · exact .inl (allAbsolute_tail hall)
  · cases l with
    | includeFile path =>
      rw [anchored, Bool.and_eq_true] at hanchored
      by_cases hself : path = file
      · -- the file itself: it is skipped
        rw [if_pos hself] at hanchored
        subst hself
        obtain ⟨-, -, hskip⟩ := hrec _ path s' ok (hs.note path path path) hl
        rw [hskip path hin (fs.fixed path hfile)]
        exact .inr ⟨hlast, hanchored.2⟩
      · rw [if_neg hself] at hanchored
        exact .inl hanchored.2
    | includeGlob pattern => exact .inl hanchored
    | other accepted =>
      cases hl
      exact .inr ⟨hlast, hanchored⟩

theorem parseFileUnique_sound (hrec : SoundFor contents fs recurse) {file : Path}
    (hfile : file ∈ fs.files) : ∀ (ls : List Line) {s s' : ParseState} {ok : Bool}, Valid fs s →
    file ∈ s.visited → Ready s file ls →
    parseFileUnique fs recurse file s ls = some (s', ok) →
    Valid fs s' ∧
      Sound contents fs (fun q => ∃ l ∈ ls, ∃ p ∈ named fs file l, fs.realpath p = some q)
        ((∀ l ∈ ls, ∀ p ∈ named fs file l, fs.realpath p ≠ none) ∧ .other false ∉ ls) s s' ok := by
  intro ls
  induction ls with
  | nil =>
    intro s s' ok hs _ _ h
    cases h
    exact ⟨hs, Sound.same (fun q ⟨l, hl, _⟩ => absurd hl not_mem_nil) fun _ _ => rfl⟩
  | cons l ls ih =>
    intro s s' ok hs hin hready h
    obtain ⟨⟨s₁, ok₁⟩, hfirst, hrest⟩ := Option.bind_eq_some_iff.mp h
    obtain ⟨⟨s₂, ok₂⟩, hsecond, hlast⟩ := Option.bind_eq_some_iff.mp hrest
    cases hlast
    obtain ⟨hs₁, hsound₁⟩ := parseConfigCallback_sound hrec hs
      (hready.right (fs.absolute file hfile)) hfirst
    obtain ⟨hs₂, hsound₂⟩ := ih hs₁ (hsound₁.grows file hin)
      (hready.tail hrec hs hfile hin hfirst) hsecond
    refine ⟨hs₂, (hsound₁.trans hsound₂).weaken (fun q => ?_) fun ⟨hall, hno⟩ => ?_⟩
    · simp only [mem_cons, exists_eq_or_imp]
    · refine ⟨⟨hall l mem_cons_self, fun heq => hno (heq ▸ mem_cons_self)⟩,
        fun l' hl' => hall l' (mem_cons_of_mem _ hl'),
        fun hmem => hno (mem_cons_of_mem _ hmem)⟩

/-- Entering a file for which its lines were then parsed. -/
theorem Sound.enter {file : Path} (hfile : file ∈ fs.files)
    (h : Sound contents fs (Includes contents fs file)
      ((∀ l ∈ contents file, ∀ p ∈ named fs file l, fs.realpath p ≠ none) ∧
        .other false ∉ contents file) (s.enter file) s' ok) :
    Sound contents fs (fun q => q = file) True s s' ok := by
  have hfine : Intact contents fs →
      (∀ l ∈ contents file, ∀ p ∈ named fs file l, fs.realpath p ≠ none) ∧
        .other false ∉ contents file := fun hi => ⟨hi.found file hfile, hi.accepted file hfile⟩
  have hlast : file ∈ s'.visited :=
    h.grows file (mem_append_right _ (mem_singleton_self _))
  refine ⟨fun a ha => h.grows a (mem_append_left _ ha), h.resolved, fun a ha => ?_,
    fun hi _ => h.good hi (hfine hi), fun _ _ q hq => hq ▸ hlast, fun hi _ a ha hnew b hab => ?_⟩
  · rcases h.reached a ha with hold | ⟨q, hq, hreach⟩
    · rcases mem_append.mp hold with hold' | hself
      · exact .inl hold'
      · exact .inr ⟨file, rfl, mem_singleton.mp hself ▸ .refl⟩
    · exact .inr ⟨file, rfl, .head hq hreach⟩
  · by_cases hself : a = file
    · exact h.found hi (hfine hi) b (hself ▸ hab)
    · refine h.closed hi (hfine hi) a ha (fun hin => ?_) b hab
      rcases mem_append.mp hin with hold | heq
      · exact hnew hold
      · exact hself (mem_singleton.mp heq)

theorem parseFile_sound (hanchored : ∀ file ∈ fs.files, anchored file (contents file) = true)
    (n : Nat) : SoundFor contents fs (parseFile contents fs n) := by
  induction n with
  | zero =>
    intro s path s' ok _ h
    cases h
  | succ n ih =>
    intro s path s' ok hs h
    rw [parseFile] at h
    cases hreal : fs.realpath path with
    | none =>
      rw [hreal] at h
      cases h
      refine ⟨hs, Sound.same (fun q hq => ?_) fun _ hne => absurd rfl hne, fun full _ hfull => ?_⟩
      · cases hq
      · cases hfull
    | some full =>
      rw [hreal] at h
      dsimp only at h
      by_cases hmem : full ∈ s.visited
      · rw [if_pos hmem] at h
        cases h
        refine ⟨hs, Sound.same (fun q hq => ?_) fun _ _ => rfl, fun _ _ _ => rfl⟩
        cases hq
        exact hmem
      · rw [if_neg hmem] at h
        have hfile := fs.canonical _ _ hreal
        have hready : Ready (s.enter full) full (contents full) :=
          .inr ⟨List.getLast?_concat, hanchored full hfile⟩
        obtain ⟨hs', hsound⟩ := parseFileUnique_sound ih hfile (contents full)
          (hs.enter hfile hmem) (mem_append_right _ (mem_singleton_self _)) hready h
        refine ⟨hs', (Sound.enter hfile hsound).weaken (fun q => ?_) fun _ => trivial,
          fun q hq heq => ?_⟩
        · rw [Option.some.injEq, eq_comm]
        · cases heq
          exact absurd hq hmem

/-- An anchored configuration is followed as it should. -/
theorem follows_of_anchored (hanchored : ∀ file ∈ fs.files, anchored file (contents file) = true)
    (root : Path) : Follows contents fs root := by
  have hempty : Valid fs {} := ⟨nodup_nil, fun _ h => absurd h not_mem_nil, rfl⟩
  obtain ⟨⟨⟨s, ok⟩, hrun, hvalid, -⟩, -⟩ := parseFile_ends contents fs (fs.files.length + 1) {}
    root hempty (by simp)
  obtain ⟨-, hsound, -⟩ := parseFile_sound hanchored _ {} root s ok hempty hrun
  refine ⟨s, ok, fun fuel hfuel => ?_, hvalid.parsed ▸ hvalid.nodup, fun u hu => ?_,
    fun file hfile hintact => ?_⟩
  · obtain ⟨k, rfl⟩ := Nat.exists_eq_add_of_lt hfuel
    induction k with
    | zero => exact hrun
    | succ k ih => exact parseFile_fuel contents fs _ (ih (by omega))
  · rcases hsound.resolved u hu with hold | hright
    · exact absurd hold not_mem_nil
    · exact hright
  · have hne : fs.realpath root ≠ none := by rw [hfile]; exact Option.some_ne_none _
    refine ⟨hsound.good hintact hne, fun file' => ?_⟩
    rw [hvalid.parsed]
    constructor
    · intro hmem
      rcases hsound.reached file' hmem with hold | ⟨q, hq, hreach⟩
      · exact absurd hold not_mem_nil
      · rw [hfile] at hq
        cases hq
        exact hreach
    · intro hreach
      induction hreach with
      | refl => exact hsound.found hintact hne file hfile
      | tail _ hinc ih =>
        exact hsound.closed hintact hne _ ih not_mem_nil _ hinc

end

/-! ## The condition is needed -/

/-- Two files, where every path but the first file's own leads to the second. -/
def twoFiles (file file' : Path) (h : isAbsolute file = true) (h' : isAbsolute file' = true) :
    FileSystem where
  files := [file, file']
  realpath := fun p => if p = file then some file else some file'
  glob := fun _ => [file']
  canonical := fun p q hq => by
    split at hq
    · cases hq
      exact mem_cons_self
    · cases hq
      exact mem_cons_of_mem _ (mem_singleton_self _)
  fixed := fun q hq => by
    split
    · rename_i heq
      rw [heq]
    · rename_i hne
      rcases mem_cons.mp hq with heq | hlast
      · exact absurd heq hne
      · rw [mem_singleton.mp hlast]
  absolute := fun q hq => by
    rcases mem_cons.mp hq with heq | hlast
    · rw [heq]
      exact h
    · rw [mem_singleton.mp hlast]
      exact h'

/-- A pattern was resolved against another directory. -/
def Strayed (s : ParseState) : Prop := ∃ u ∈ s.resolved, u.used ≠ against u.file u.written

def noted (s : ParseState) (file : Path) : Line → Option Resolution
  | .includeFile path => some ⟨file, path, path⟩
  | .includeGlob pattern => some ⟨file, pattern, (resolveRelativePattern s pattern).getD pattern⟩
  | .other _ => none

section
variable {fs : FileSystem} {recurse : Recurse} {s : ParseState} {n : Nat}
  {r : ParseState × Bool}

theorem Strayed.kept {s' : ParseState} (h : Strayed s) (hkept : Kept s s') : Strayed s' := by
  obtain ⟨u, hu, hne⟩ := h
  exact ⟨u, hkept.resolved.subset hu, hne⟩

theorem callback_noted (hrec : EndsWithin fs recurse n) {file : Path} {l : Line} (hs : Valid fs s)
    (hleft : fs.files.length < n + s.visited.length)
    (h : parseConfigCallback fs recurse file s l = some r) {u : Resolution}
    (hu : noted s file l = some u) : u ∈ r.1.resolved := by
  have hlast : ∀ written used, ⟨file, written, used⟩ ∈ (s.note file written used).resolved :=
    fun _ _ => mem_append_right _ (mem_singleton_self _)
  cases l with
  | includeFile path =>
    cases hu
    obtain ⟨⟨r', hr', -, hkept⟩, -⟩ := hrec (s.note file path path) path (hs.note _ _ _) hleft
    rw [parseConfigCallback, hr'] at h
    cases h
    exact hkept.resolved.subset (hlast _ _)
  | includeGlob pattern =>
    cases hu
    obtain ⟨r', hr', -, hkept⟩ := parseMatches_ends hrec
      (fs.glob ((resolveRelativePattern s pattern).getD pattern))
      (hs.note file pattern ((resolveRelativePattern s pattern).getD pattern)) hleft
    rw [parseConfigCallback, parseFileGlob, hr'] at h
    cases h
    exact hkept.resolved.subset (hlast _ _)
  | other accepted => cases hu

/-- A relative include strays from any file. -/
theorem relative_include_strays {file path : Path} (hfile : isAbsolute file = true)
    (hrel : isAbsolute path = false) : path ≠ against file path := by
  intro heq
  obtain ⟨dir, hdir⟩ := directory_of_absolute hfile
  rw [against, hrel, if_neg Bool.false_ne_true, hdir] at heq
  have hnil : dir = [] := by
    have hlen := congrArg List.length heq
    rw [Option.getD_some, length_append] at hlen
    exact length_eq_zero_iff.mp (by omega)
  have hmem : '/' ∈ file := by
    rw [isAbsolute, beq_iff_eq] at hfile
    exact mem_of_head? hfile
  rw [directory, if_pos hmem, Option.some.injEq, hnil, reverse_eq_nil_iff,
    dropWhile_eq_nil_iff] at hdir
  have hslash := hdir '/' (mem_reverse.mpr hmem)
  exact absurd hslash (by decide)

/-- A relative pattern strays if the file entered last is in another directory. -/
theorem relative_glob_strays {file file' pattern : Path} (hfile : isAbsolute file = true)
    (hfile' : isAbsolute file' = true) (hdir : directory file ≠ directory file')
    (hlast : s.visited.getLast? = some file') (hrel : isAbsolute pattern = false) :
    (resolveRelativePattern s pattern).getD pattern ≠ against file pattern := by
  rw [resolve_against hlast hfile']
  obtain ⟨dir, hd⟩ := directory_of_absolute hfile
  obtain ⟨dir', hd'⟩ := directory_of_absolute hfile'
  rw [against, against, hrel, if_neg Bool.false_ne_true, if_neg Bool.false_ne_true, hd, hd']
  intro heq
  rw [Option.getD_some, Option.getD_some, append_cancel_right_eq] at heq
  exact hdir (by rw [hd, hd', heq])

end

section
variable {contents : Contents} {file file' : Path} {h : isAbsolute file = true}
  {h' : isAbsolute file' = true} {s : ParseState} {r : ParseState × Bool}

/-- Once both files were entered nothing else can be. -/
theorem both_entered (hne : file ≠ file') (hs : Valid (twoFiles file file' h h') s)
    (hin : [file] <+: s.visited) (hin' : file' ∈ s.visited) : s.visited = [file, file'] := by
  obtain ⟨rest, hrest⟩ := hin
  have hle := hs.length_le
  have hnodup := hs.nodup
  rw [← hrest] at hin' hle hnodup ⊢
  cases rest with
  | nil => exact absurd (mem_singleton.mp hin').symm hne
  | cons a rest =>
    have hnil : rest = [] := length_eq_zero_iff.mp (by simpa [twoFiles] using hle)
    subst hnil
    rcases mem_cons.mp hin' with heq | heq
    · exact absurd heq.symm hne
    · rw [mem_singleton.mp heq]
      rfl

theorem parseFileUnique_cons {fs : FileSystem} {recurse : Recurse} {n : Nat} {l : Line}
    {ls : List Line} (hrec : EndsWithin fs recurse n) (hs : Valid fs s)
    (hleft : fs.files.length < n + s.visited.length)
    (hrun : parseFileUnique fs recurse file s (l :: ls) = some r) :
    ∃ q q', parseConfigCallback fs recurse file s l = some q ∧ Valid fs q.1 ∧ Kept s q.1 ∧
      parseFileUnique fs recurse file q.1 ls = some q' ∧ Kept q.1 q'.1 ∧ r.1 = q'.1 := by
  obtain ⟨q, hq, hrest⟩ := Option.bind_eq_some_iff.mp hrun
  obtain ⟨q', hq', hlast⟩ := Option.bind_eq_some_iff.mp hrest
  obtain ⟨p, hp, hvalid, hkept⟩ := parseConfigCallback_ends hrec file l hs hleft
  rw [hq] at hp
  cases hp
  have hle := hkept.visited.length_le
  obtain ⟨p', hp', -, hkept'⟩ := parseFileUnique_ends hrec file ls hvalid (by omega)
  rw [hq'] at hp'
  cases hp'
  cases hlast
  exact ⟨q, q', hq, hvalid, hkept, hq', hkept', rfl⟩

/-- A relative line behind the entry of the other file. -/
theorem strays_after (hdir : directory file ≠ directory file') :
    ∀ (ls : List Line) {s : ParseState} {r : ParseState × Bool},
      Valid (twoFiles file file' h h') s → s.visited = [file, file'] → allAbsolute ls = false →
      parseFileUnique (twoFiles file file' h h')
        (parseFile contents (twoFiles file file' h h') 2) file s ls = some r → Strayed r.1 := by
  intro ls
  have hrec := parseFile_ends contents (twoFiles file file' h h') 2
  have hne : file ≠ file' := fun heq => hdir (heq ▸ rfl)
  induction ls with
  | nil =>
    intro s r _ _ hall
    cases hall
  | cons l ls ih =>
    intro s r hs hvisited hall hrun
    have hleft : (twoFiles file file' h h').files.length < 2 + s.visited.length := by
      simp [hvisited, twoFiles]
    obtain ⟨q, q', hq, hvalid, hkept, hq', hkept', hr⟩ :=
      parseFileUnique_cons hrec hs hleft hrun
    have hboth : q.1.visited = [file, file'] := by
      refine both_entered hne hvalid ?_ ?_
      · exact (hvisited ▸ ⟨[file'], rfl⟩ : [file] <+: s.visited).trans hkept.visited
      · exact hkept.visited.subset (hvisited ▸ mem_cons_of_mem _ (mem_singleton_self _))
    have hlast : s.visited.getLast? = some file' := by rw [hvisited]; rfl
    rw [hr]
    cases l with
    | includeFile path =>
      cases hrel : isAbsolute path with
      | true =>
        rw [allAbsolute, hrel, Bool.true_and] at hall
        exact ih hvalid hboth hall hq'
      | false =>
        exact Strayed.kept ⟨_, callback_noted hrec hs hleft hq rfl,
          relative_include_strays h hrel⟩ hkept'
    | includeGlob pattern =>
      cases hrel : isAbsolute pattern with
      | true =>
        rw [allAbsolute, hrel, Bool.true_and] at hall
        exact ih hvalid hboth hall hq'
      | false =>
        exact Strayed.kept ⟨_, callback_noted hrec hs hleft hq rfl,
          relative_glob_strays h h' hdir hlast hrel⟩ hkept'
    | other accepted => exact ih hvalid hboth hall hq'

theorem parseFile_skips (contents : Contents) {fs : FileSystem} (n : Nat) {path full : Path}
    (hreal : fs.realpath path = some full) (hin : full ∈ s.visited) :
    parseFile contents fs (n + 1) s path = some (s, true) := by
  rw [parseFile, hreal]
  exact if_pos hin

/-- The lines of a file that is not anchored. -/
theorem strays (hdir : directory file ≠ directory file') :
    ∀ (ls : List Line) {s : ParseState} {r : ParseState × Bool},
      Valid (twoFiles file file' h h') s → s.visited = [file] → anchored file ls = false →
      parseFileUnique (twoFiles file file' h h')
        (parseFile contents (twoFiles file file' h h') 2) file s ls = some r → Strayed r.1 := by
  intro ls
  have hrec := parseFile_ends contents (twoFiles file file' h h') 2
  have hne : file ≠ file' := fun heq => hdir (heq ▸ rfl)
  induction ls with
  | nil =>
    intro s r _ _ hall
    cases hall
  | cons l ls ih =>
    intro s r hs hvisited hall hrun
    have hleft : (twoFiles file file' h h').files.length < 2 + s.visited.length := by
      simp [hvisited, twoFiles]
    obtain ⟨q, q', hq, hvalid, hkept, hq', hkept', hr⟩ :=
      parseFileUnique_cons hrec hs hleft hrun
    -- a line that leads to the other file
    have hother : file' ∈ q.1.visited → allAbsolute ls = false → Strayed q'.1 := by
      intro hin hrest
      refine strays_after hdir ls hvalid ?_ hrest hq'
      exact both_entered hne hvalid (hvisited ▸ hkept.visited) hin
    rw [hr]
    cases l with
    | includeFile path =>
      cases hrel : isAbsolute path with
      | false =>
        exact Strayed.kept ⟨_, callback_noted hrec hs hleft hq rfl,
          relative_include_strays h hrel⟩ hkept'
      | true =>
        rw [anchored, hrel, Bool.true_and] at hall
        by_cases hself : path = file
        · rw [if_pos hself] at hall
          have hreal : (twoFiles file file' h h').realpath path = some file := if_pos hself
          have hin : file ∈ (s.note file path path).visited :=
            (hvisited ▸ mem_singleton_self _ : file ∈ s.visited)
          have hskip := parseFile_skips contents 1 hreal hin
          rw [parseConfigCallback, hskip] at hq
          cases hq
          exact ih hvalid hvisited hall hq'
        · rw [if_neg hself] at hall
          refine hother ?_ hall
          exact (hrec _ path (hs.note _ _ _) hleft).2 q file' hq (if_neg hself)
    | includeGlob pattern =>
      refine hother ?_ hall
      -- the one match is the other file
      obtain ⟨p, hp, hlast⟩ := Option.bind_eq_some_iff.mp hq
      have hin := (hrec _ file' (hs.note _ _ _) hleft).2 p file' hp (if_neg hne.symm)
      split at hlast
      · cases hlast
        exact hin
      · cases hlast
        exact hin
    | other accepted =>
      cases hq
      exact ih hs hvisited hall hq'

theorem another_directory (file : Path) :
    ∃ file', isAbsolute file' = true ∧ directory file ≠ directory file' := by
  by_cases hroot : directory file = some ['/']
  · exact ⟨"/x/y".toList, by decide, by rw [hroot]; decide⟩
  · exact ⟨"/y".toList, by decide, hroot⟩

theorem anchored_of_follows (hfollows : ∀ fs root, Follows contents fs root)
    (hfile : isAbsolute file = true) : anchored file (contents file) = true := by
  by_contra hnot
  rw [Bool.not_eq_true] at hnot
  obtain ⟨file', hfile', hdir⟩ := another_directory file
  obtain ⟨s, ok, hrun, -, hresolved, -⟩ := hfollows (twoFiles file file' hfile hfile') file
  have hrun := hrun 3 (Nat.lt_succ_self 2)
  have hreal : (twoFiles file file' hfile hfile').realpath file = some file := if_pos rfl
  rw [parseFile, hreal] at hrun
  dsimp only at hrun
  rw [if_neg not_mem_nil] at hrun
  have hvalid : Valid (twoFiles file file' hfile hfile') (ParseState.enter {} file) :=
    Valid.enter ⟨nodup_nil, fun _ hmem => absurd hmem not_mem_nil, rfl⟩
      mem_cons_self not_mem_nil
  obtain ⟨u, hu, hne⟩ := strays hdir (contents file) hvalid rfl hnot hrun
  exact hne (hresolved u hu)

end

/-- `include = /opt/site.conf`, and behind it `include-glob = vrtd.conf.d/*.conf`. -/
def siteContents : Contents := fun file =>
  if file = "/etc/vrt/vrtd.conf".toList then
    [.includeFile "/opt/site.conf".toList, .includeGlob "vrtd.conf.d/*.conf".toList]
  else []

def siteFiles : FileSystem :=
  twoFiles "/etc/vrt/vrtd.conf".toList "/opt/site.conf".toList (by decide) (by decide)

end Slash.Vrtd

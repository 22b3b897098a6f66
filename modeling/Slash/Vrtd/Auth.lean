import Mathlib.Data.List.Nodup

/-!
# Roles and device permissions

`auth.c` and the role part of `config.c` of vrtd. A peer holds the roles of the default user, of
the user entries with its uid and of the group entries with one of its gids. The daemon merges
them into one role, section by section, and looks the device up in the merged role: the section
of that very device if there is one, else the `any` section.

`RoleUnion` is what the merge is for: a peer may do what one of its roles alone allows.
-/

namespace Slash.Vrtd

open List

/-! ## Configuration -/

inductive AuthSubsystem where
  | bar
  | qdma
  | buffer
  | designWrite
  | cfgmemProgram
  | clock
  | pcieHotplug
  | rawMemAccess
  deriving DecidableEq, Repr

/-- A `[role:name:bdf]` section; `bdf` is a board address or `any`. -/
structure DevicePolicy where
  bdf : String
  bar : Bool := false
  qdma : Bool := false
  buffer : Bool := false
  designWrite : Bool := false
  cfgmemProgram : Bool := false
  clock : Bool := false
  pcieHotplug : Bool := false
  rawMemAccess : Bool := false
  deriving DecidableEq, Repr

/-- `device_policy_check`. -/
def DevicePolicy.check (p : DevicePolicy) : AuthSubsystem → Bool
  | .bar => p.bar
  | .qdma => p.qdma
  | .buffer => p.buffer
  | .designWrite => p.designWrite
  | .cfgmemProgram => p.cfgmemProgram
  | .clock => p.clock
  | .pcieHotplug => p.pcieHotplug
  | .rawMemAccess => p.rawMemAccess

structure Role where
  name : String
  query : Bool := false
  devicePolicies : List DevicePolicy := []
  deriving DecidableEq, Repr

/-- `user_config` and `group_config`: a uid or gid and the names of its roles. -/
structure Holder where
  id : Nat
  roleNames : List String
  deriving DecidableEq, Repr

structure Config where
  roles : List Role
  defaultUser : List String := []
  users : List Holder := []
  groups : List Holder := []
  deriving DecidableEq, Repr

/-- `assign_user_roles` and `assign_group_roles`: the first role of each name; a name that no role
has is dropped with a warning. -/
def Config.assignRoles (config : Config) (names : List String) : List Role :=
  names.filterMap fun name => config.roles.find? fun role => role.name = name

/-! ## Merging -/

/-- The flags of `src` or'ed into `dst`. -/
def DevicePolicy.or (dst src : DevicePolicy) : DevicePolicy where
  bdf := dst.bdf
  bar := dst.bar || src.bar
  qdma := dst.qdma || src.qdma
  buffer := dst.buffer || src.buffer
  designWrite := dst.designWrite || src.designWrite
  cfgmemProgram := dst.cfgmemProgram || src.cfgmemProgram
  clock := dst.clock || src.clock
  pcieHotplug := dst.pcieHotplug || src.pcieHotplug
  rawMemAccess := dst.rawMemAccess || src.rawMemAccess

/-- One section merged: `find_or_create_device_policy`, which appends an entry without flags when
no entry has the address, and the or of the flags. -/
def addPolicy (src : DevicePolicy) : List DevicePolicy → List DevicePolicy
  | [] => [DevicePolicy.or { bdf := src.bdf } src]
  | p :: ps => if p.bdf = src.bdf then p.or src :: ps else p :: addPolicy src ps

def roleMergeAddRole (dst src : Role) : Role where
  name := dst.name
  query := dst.query || src.query
  devicePolicies := src.devicePolicies.foldl (fun ps p => addPolicy p ps) dst.devicePolicies

def roleMergeAddArray (dst : Role) (roles : List Role) : Role := roles.foldl roleMergeAddRole dst

def roleMergeNew : Role := { name := "TODO: Change this string" }

structure Peer where
  uid : Nat
  gids : List Nat
  deriving DecidableEq, Repr

/-- The roles of a peer, in the order `ensure_role` merges them: the default user's, those of each
user entry with its uid, those of each group entry once per gid that matches. -/
def Config.applicable (config : Config) (peer : Peer) : List Role :=
  config.assignRoles config.defaultUser ++
  (config.users.flatMap fun user =>
    if user.id = peer.uid then config.assignRoles user.roleNames else []) ++
  (config.groups.flatMap fun group => peer.gids.flatMap fun gid =>
    if group.id = gid then config.assignRoles group.roleNames else [])

def ensureRole (config : Config) (peer : Peer) : Role :=
  let role := roleMergeAddArray roleMergeNew (config.assignRoles config.defaultUser)
  let role := config.users.foldl (fun role user =>
    if user.id = peer.uid then roleMergeAddArray role (config.assignRoles user.roleNames)
    else role) role
  config.groups.foldl (fun role group => peer.gids.foldl (fun role gid =>
    if group.id = gid then roleMergeAddArray role (config.assignRoles group.roleNames)
    else role) role) role

/-! ## The check -/

/-- The search of `auth_check_device_permission`: the entry of the device, else the last `any`
entry passed. -/
def findPolicy (bdf : String) (anyDp : Option DevicePolicy) : List DevicePolicy →
    Option DevicePolicy
  | [] => anyDp
  | candidate :: rest =>
    if candidate.bdf = bdf then some candidate
    else findPolicy bdf (if candidate.bdf = "any" then some candidate else anyDp) rest

/-- `auth_check_device_permission`, on the addresses of the devices the daemon has. -/
def authCheckDevicePermission (role : Role) (devices : List String) (devNumber : Nat)
    (subsystem : AuthSubsystem) : Bool :=
  if !role.query then false
  else
    match devices[devNumber]? with
    | none => false
    | some bdf =>
      match findPolicy bdf none role.devicePolicies with
      | none => false
      | some dp => dp.check subsystem

/-- What the daemon answers a peer. -/
def Config.grants (config : Config) (peer : Peer) (devices : List String) (devNumber : Nat)
    (subsystem : AuthSubsystem) : Bool :=
  authCheckDevicePermission (ensureRole config peer) devices devNumber subsystem

/-- What it answers a peer that holds this role only. -/
def Role.grantsAlone (role : Role) (devices : List String) (devNumber : Nat)
    (subsystem : AuthSubsystem) : Bool :=
  authCheckDevicePermission (roleMergeAddRole roleMergeNew role) devices devNumber subsystem

/-! ## Sections -/

/-- Some section is for `bdf`. -/
def Names (ps : List DevicePolicy) (bdf : String) : Prop := ∃ p ∈ ps, p.bdf = bdf

/-- Some section for `bdf` allows the subsystem. -/
def Allows (ps : List DevicePolicy) (bdf : String) (f : AuthSubsystem) : Prop :=
  ∃ p ∈ ps, p.bdf = bdf ∧ p.check f = true

instance (ps : List DevicePolicy) (bdf : String) : Decidable (Names ps bdf) :=
  List.decidableBEx _ _

variable {ps : List DevicePolicy} {bdf : String} {f : AuthSubsystem}

theorem Allows.names (h : Allows ps bdf f) : Names ps bdf := by
  obtain ⟨p, hp, hbdf, -⟩ := h
  exact ⟨p, hp, hbdf⟩

theorem check_or (dst src : DevicePolicy) (f : AuthSubsystem) :
    (dst.or src).check f = (dst.check f || src.check f) := by
  cases f <;> rfl

theorem names_addPolicy (src : DevicePolicy) (bdf : String) (ps : List DevicePolicy) :
    Names (addPolicy src ps) bdf ↔ Names ps bdf ∨ src.bdf = bdf := by
  unfold Names
  induction ps with
  | nil => simp [addPolicy, DevicePolicy.or]
  | cons p ps ih =>
    unfold addPolicy
    split
    · rename_i heq
      simp only [mem_cons, exists_eq_or_imp, DevicePolicy.or, ← heq]
      rw [or_right_comm, or_self]
    · simp only [mem_cons, exists_eq_or_imp, ih, or_assoc]

theorem allows_addPolicy (src : DevicePolicy) (bdf : String) (f : AuthSubsystem)
    (ps : List DevicePolicy) :
    Allows (addPolicy src ps) bdf f ↔ Allows ps bdf f ∨ (src.bdf = bdf ∧ src.check f = true) := by
  unfold Allows
  induction ps with
  | nil => simp [addPolicy, DevicePolicy.or]
  | cons p ps ih =>
    unfold addPolicy
    split
    · rename_i heq
      have hbdf : (p.or src).bdf = p.bdf := rfl
      simp only [mem_cons, exists_eq_or_imp, check_or, hbdf, ← heq, Bool.or_eq_true,
        and_or_left]
      exact or_right_comm
    · simp only [mem_cons, exists_eq_or_imp, ih, or_assoc]

theorem nodup_addPolicy (src : DevicePolicy) (h : (ps.map DevicePolicy.bdf).Nodup) :
    ((addPolicy src ps).map DevicePolicy.bdf).Nodup := by
  induction ps with
  | nil => simp [addPolicy]
  | cons p ps ih =>
    obtain ⟨hp, hps⟩ := nodup_cons.mp h
    unfold addPolicy
    split
    · exact h
    · rename_i hne
      refine nodup_cons.mpr ⟨fun hmem => ?_, ih hps⟩
      obtain ⟨q, hq, hbdf⟩ := mem_map.mp hmem
      rcases (names_addPolicy src p.bdf ps).mp ⟨q, hq, hbdf⟩ with ⟨r, hr, hrb⟩ | hsrc
      · exact hp (mem_map.mpr ⟨r, hr, hrb⟩)
      · exact hne hsrc.symm

/-! ## The merged role -/

def sections (roles : List Role) : List DevicePolicy := roles.flatMap Role.devicePolicies

/-- What a merged role says: it has a section for an address when one of the roles has, and the
section allows what one of them allows. -/
structure Merged (role : Role) (roles : List Role) : Prop where
  query : role.query = true ↔ ∃ r ∈ roles, r.query = true
  names : ∀ bdf, Names role.devicePolicies bdf ↔ Names (sections roles) bdf
  allows : ∀ bdf f, Allows role.devicePolicies bdf f ↔ Allows (sections roles) bdf f
  nodup : (role.devicePolicies.map DevicePolicy.bdf).Nodup

theorem Merged.new : Merged roleMergeNew [] where
  query := by simp [roleMergeNew]
  names := fun _ => Iff.rfl
  allows := fun _ _ => Iff.rfl
  nodup := nodup_nil

theorem names_append (ps qs : List DevicePolicy) (bdf : String) :
    Names (ps ++ qs) bdf ↔ Names ps bdf ∨ Names qs bdf := by
  simp only [Names, mem_append, or_and_right, exists_or]

theorem allows_append (ps qs : List DevicePolicy) (bdf : String) (f : AuthSubsystem) :
    Allows (ps ++ qs) bdf f ↔ Allows ps bdf f ∨ Allows qs bdf f := by
  simp only [Allows, mem_append, or_and_right, exists_or]

theorem names_foldl (bdf : String) (src dst : List DevicePolicy) :
    Names (src.foldl (fun ps p => addPolicy p ps) dst) bdf ↔ Names dst bdf ∨ Names src bdf := by
  induction src generalizing dst with
  | nil => simp [Names]
  | cons p src ih =>
    rw [foldl_cons, ih, names_addPolicy, or_assoc]
    simp only [Names, mem_cons, exists_eq_or_imp]

theorem allows_foldl (bdf : String) (f : AuthSubsystem) (src dst : List DevicePolicy) :
    Allows (src.foldl (fun ps p => addPolicy p ps) dst) bdf f ↔
      Allows dst bdf f ∨ Allows src bdf f := by
  induction src generalizing dst with
  | nil => simp [Allows]
  | cons p src ih =>
    rw [foldl_cons, ih, allows_addPolicy, or_assoc]
    simp only [Allows, mem_cons, exists_eq_or_imp]

variable {roles : List Role} {role : Role}

theorem Merged.addRole (h : Merged role roles) (src : Role) :
    Merged (roleMergeAddRole role src) (roles ++ [src]) where
  query := by
    simp only [roleMergeAddRole, Bool.or_eq_true, h.query, mem_append, mem_singleton,
      or_and_right, exists_or, exists_eq_left]
  names := by
    intro bdf
    have hs : sections (roles ++ [src]) = sections roles ++ src.devicePolicies := by
      simp [sections]
    rw [hs, names_append, ← h.names]
    exact names_foldl bdf src.devicePolicies role.devicePolicies
  allows := by
    intro bdf f
    have hs : sections (roles ++ [src]) = sections roles ++ src.devicePolicies := by
      simp [sections]
    rw [hs, allows_append, ← h.allows]
    exact allows_foldl bdf f src.devicePolicies role.devicePolicies
  nodup := by
    have hfold (src dst : List DevicePolicy) (hd : (dst.map DevicePolicy.bdf).Nodup) :
        ((src.foldl (fun ps p => addPolicy p ps) dst).map DevicePolicy.bdf).Nodup := by
      induction src generalizing dst with
      | nil => exact hd
      | cons p src ih => exact ih _ (nodup_addPolicy p hd)
    exact hfold _ _ h.nodup

theorem Merged.addArray (h : Merged role roles) (more : List Role) :
    Merged (roleMergeAddArray role more) (roles ++ more) := by
  induction more generalizing role roles with
  | nil => rwa [append_nil]
  | cons src more ih =>
    have hnext := ih (h.addRole src)
    rwa [append_assoc] at hnext

theorem Merged.loop {α : Type} {p : α → Prop} [DecidablePred p] {f : α → List Role}
    (h : Merged role roles) (xs : List α) :
    Merged (xs.foldl (fun role x => if p x then roleMergeAddArray role (f x) else role) role)
      (roles ++ xs.flatMap fun x => if p x then f x else []) := by
  induction xs generalizing role roles with
  | nil => simpa using h
  | cons x xs ih =>
    rw [foldl_cons, flatMap_cons, ← append_assoc]
    split
    · exact ih (h.addArray (f x))
    · rw [append_nil]
      exact ih h

theorem Merged.groups (h : Merged role roles) (config : Config) (peer : Peer)
    (groups : List Holder) :
    Merged (groups.foldl (fun role group => peer.gids.foldl (fun role gid =>
        if group.id = gid then roleMergeAddArray role (config.assignRoles group.roleNames)
        else role) role) role)
      (roles ++ groups.flatMap fun group => peer.gids.flatMap fun gid =>
        if group.id = gid then config.assignRoles group.roleNames else []) := by
  induction groups generalizing role roles with
  | nil => simpa using h
  | cons group groups ih =>
    rw [foldl_cons, flatMap_cons, ← append_assoc]
    exact ih (h.loop peer.gids)

theorem ensureRole_merged (config : Config) (peer : Peer) :
    Merged (ensureRole config peer) (config.applicable peer) := by
  have hdefault : Merged (roleMergeAddArray roleMergeNew (config.assignRoles config.defaultUser))
      (config.assignRoles config.defaultUser) := Merged.new.addArray _
  exact (hdefault.loop config.users).groups config peer config.groups

/-! ## The lookup -/

theorem findPolicy_eq (bdf : String) (anyDp : Option DevicePolicy) (ps : List DevicePolicy)
    (hnodup : (ps.map DevicePolicy.bdf).Nodup) :
    findPolicy bdf anyDp ps =
      ((ps.find? fun p => p.bdf = bdf).or ((ps.find? fun p => p.bdf = "any").or anyDp)) := by
  induction ps generalizing anyDp with
  | nil => rfl
  | cons p ps ih =>
    obtain ⟨hp, hps⟩ := nodup_cons.mp hnodup
    unfold findPolicy
    by_cases hbdf : p.bdf = bdf
    · rw [if_pos hbdf, List.find?_cons_of_pos (by simpa using hbdf), Option.some_or]
    · rw [if_neg hbdf, ih _ hps, List.find?_cons_of_neg (by simpa using hbdf)]
      by_cases hany : p.bdf = "any"
      · have hnone : (ps.find? fun p => p.bdf = "any") = none := by
          refine List.find?_eq_none.mpr fun q hq hqa => hp ?_
          rw [hany, ← of_decide_eq_true hqa]
          exact mem_map_of_mem hq
        rw [if_pos hany, hnone, Option.none_or,
          List.find?_cons_of_pos (by simpa using hany), Option.some_or]
      · rw [if_neg hany, List.find?_cons_of_neg (by simpa using hany)]

/-- One entry per address: what the entry found says is what any entry says. -/
theorem find?_check (hnodup : (ps.map DevicePolicy.bdf).Nodup) {p : DevicePolicy}
    (h : (ps.find? fun p => p.bdf = bdf) = some p) (f : AuthSubsystem) :
    p.check f = true ↔ Allows ps bdf f := by
  have hmem := mem_of_find?_eq_some h
  have hbdf : p.bdf = bdf := by simpa using List.find?_some h
  constructor
  · exact fun hc => ⟨p, hmem, hbdf, hc⟩
  · rintro ⟨q, hq, hqb, hc⟩
    rwa [inj_on_of_nodup_map hnodup hmem hq (hbdf.trans hqb.symm)]

theorem names_iff_find? (ps : List DevicePolicy) (bdf : String) :
    Names ps bdf ↔ (ps.find? fun p => p.bdf = bdf) ≠ none := by
  rw [ne_eq, List.find?_eq_none]
  simp [Names]

/-- What the lookup of a device answers, in terms of sections. -/
def Selected (ps : List DevicePolicy) (bdf : String) (f : AuthSubsystem) : Prop :=
  if Names ps bdf then Allows ps bdf f else Allows ps "any" f

theorem findPolicy_check (hnodup : (ps.map DevicePolicy.bdf).Nodup) (bdf : String)
    (f : AuthSubsystem) :
    (match findPolicy bdf none ps with
      | none => false
      | some dp => dp.check f) = true ↔ Selected ps bdf f := by
  rw [findPolicy_eq bdf none ps hnodup, Option.or_none]
  unfold Selected
  cases hexact : ps.find? fun p => p.bdf = bdf with
  | some p =>
    rw [if_pos ((names_iff_find? ps bdf).mpr (by simp [hexact])), Option.some_or]
    exact find?_check hnodup hexact f
  | none =>
    rw [if_neg fun hn => (names_iff_find? ps bdf).mp hn hexact, Option.none_or]
    cases hany : ps.find? fun p => p.bdf = "any" with
    | some p => exact find?_check hnodup hany f
    | none =>
      refine iff_of_false (by simp) fun ha => ?_
      exact (names_iff_find? ps "any").mp ha.names hany

theorem check_iff (h : Merged role roles) (devices : List String) (dev : Nat) (f : AuthSubsystem) :
    authCheckDevicePermission role devices dev f = true ↔ ∃ bdf, devices[dev]? = some bdf ∧
      (∃ r ∈ roles, r.query = true) ∧ Selected (sections roles) bdf f := by
  have hselected (bdf : String) : Selected role.devicePolicies bdf f ↔
      Selected (sections roles) bdf f := by
    unfold Selected
    rw [h.allows, h.allows]
    exact if_congr (h.names bdf) rfl rfl ▸ Iff.rfl
  unfold authCheckDevicePermission
  cases hq : role.query with
  | false =>
    refine iff_of_false (by simp) ?_
    rintro ⟨bdf, -, hquery, -⟩
    rw [h.query.mpr hquery] at hq
    cases hq
  | true =>
    cases hd : devices[dev]? with
    | none => simp
    | some bdf =>
      have hquery := h.query.mp hq
      simp only [Bool.not_true, Bool.false_eq_true, if_false, Option.some.injEq,
        exists_eq_left']
      rw [findPolicy_check h.nodup, hselected]
      exact ⟨fun hs => ⟨hquery, hs⟩, And.right⟩

/-! ## The union of roles -/

/-- The peer may do what one of its roles alone allows, and no more. -/
def RoleUnion (config : Config) (peer : Peer) (devices : List String) (dev : Nat)
    (f : AuthSubsystem) : Prop :=
  config.grants peer devices dev f = true ↔
    ∃ r ∈ config.applicable peer, r.grantsAlone devices dev f = true

theorem grantsAlone_iff (role : Role) (devices : List String) (dev : Nat) (f : AuthSubsystem) :
    role.grantsAlone devices dev f = true ↔ ∃ bdf, devices[dev]? = some bdf ∧
      role.query = true ∧ Selected role.devicePolicies bdf f := by
  unfold Role.grantsAlone
  rw [check_iff (Merged.new.addRole role)]
  simp [sections]

/-- The sections of a list of roles that leave the union intact, for one device and subsystem.

A section for the device hides every `any` section. So a role that allows the subsystem through
`any` must not meet a section for the device, unless such a section allows it too. And a role
that allows the subsystem but may not query must be joined by one that may do both. -/
structure Consistent (roles : List Role) (bdf : String) (f : AuthSubsystem) : Prop where
  unhidden : ∀ r ∈ roles, r.query = true → ¬ Names r.devicePolicies bdf →
    Allows r.devicePolicies "any" f → Names (sections roles) bdf → Allows (sections roles) bdf f
  queried : ∀ r ∈ roles, (if Names (sections roles) bdf then Allows r.devicePolicies bdf f
      else Allows r.devicePolicies "any" f) → (∃ q ∈ roles, q.query = true) →
    ∃ r' ∈ roles, r'.query = true ∧ Selected r'.devicePolicies bdf f

theorem names_sections :
    Names (sections roles) bdf ↔ ∃ r ∈ roles, Names r.devicePolicies bdf := by
  simp only [Names, sections, mem_flatMap]
  exact ⟨fun ⟨p, ⟨r, hr, hp⟩, h⟩ => ⟨r, hr, p, hp, h⟩, fun ⟨r, hr, p, hp, h⟩ => ⟨p, ⟨r, hr, hp⟩, h⟩⟩

theorem allows_sections :
    Allows (sections roles) bdf f ↔ ∃ r ∈ roles, Allows r.devicePolicies bdf f := by
  simp only [Allows, sections, mem_flatMap]
  exact ⟨fun ⟨p, ⟨r, hr, hp⟩, h⟩ => ⟨r, hr, p, hp, h⟩, fun ⟨r, hr, p, hp, h⟩ => ⟨p, ⟨r, hr, hp⟩, h⟩⟩

/-- What a role alone selects, the merged sections select when no section hides it. -/
theorem Consistent.selected (h : Consistent roles bdf f) {r : Role} (hr : r ∈ roles)
    (hq : r.query = true) (hs : Selected r.devicePolicies bdf f) :
    Selected (sections roles) bdf f := by
  unfold Selected at hs ⊢
  split at hs
  · rename_i hnames
    rw [if_pos (names_sections.mpr ⟨r, hr, hnames⟩)]
    exact allows_sections.mpr ⟨r, hr, hs⟩
  · rename_i hnames
    split
    · rename_i hall
      exact h.unhidden r hr hq hnames hs hall
    · exact allows_sections.mpr ⟨r, hr, hs⟩

theorem selected_sections :
    Selected (sections roles) bdf f ↔ ∃ r ∈ roles, if Names (sections roles) bdf then
      Allows r.devicePolicies bdf f else Allows r.devicePolicies "any" f := by
  unfold Selected
  split <;> exact allows_sections

/-- The union holds for a device and a subsystem exactly when the sections are consistent. -/
theorem consistent_iff (roles : List Role) (bdf : String) (f : AuthSubsystem) :
    Consistent roles bdf f ↔
      (((∃ q ∈ roles, q.query = true) ∧ Selected (sections roles) bdf f) ↔
        ∃ r ∈ roles, r.query = true ∧ Selected r.devicePolicies bdf f) := by
  constructor
  · intro h
    constructor
    · rintro ⟨hquery, hs⟩
      obtain ⟨r, hr, hcarries⟩ := selected_sections.mp hs
      exact h.queried r hr hcarries hquery
    · rintro ⟨r, hr, hq, hs⟩
      exact ⟨⟨r, hr, hq⟩, h.selected hr hq hs⟩
  · intro h
    constructor
    · intro r hr hq hnames hany hall
      have hs : Selected r.devicePolicies bdf f := by
        unfold Selected
        rwa [if_neg hnames]
      have hmerged := (h.mpr ⟨r, hr, hq, hs⟩).2
      unfold Selected at hmerged
      rwa [if_pos hall] at hmerged
    · intro r hr hcarries hquery
      exact h.mp ⟨hquery, selected_sections.mpr ⟨r, hr, hcarries⟩⟩

theorem grants_iff (config : Config) (peer : Peer) (devices : List String) (dev : Nat)
    (f : AuthSubsystem) : config.grants peer devices dev f = true ↔ ∃ bdf,
      devices[dev]? = some bdf ∧ (∃ r ∈ config.applicable peer, r.query = true) ∧
        Selected (sections (config.applicable peer)) bdf f :=
  check_iff (ensureRole_merged config peer) devices dev f

/-- Merging asks which roles there are, not in which order or how often. -/
theorem grants_congr {config config' : Config} {peer peer' : Peer}
    (h : ∀ r, r ∈ config'.applicable peer' ↔ r ∈ config.applicable peer) (devices : List String)
    (dev : Nat) (f : AuthSubsystem) :
    config'.grants peer' devices dev f = config.grants peer devices dev f := by
  rw [Bool.eq_iff_iff, grants_iff, grants_iff]
  simp only [selected_sections, names_sections, h]

def cardConfig : Config where
  roles := [
    { name := "everybody", query := true, devicePolicies := [{ bdf := "any", bar := true }] },
    { name := "streams", devicePolicies := [{ bdf := "0000:03:00", qdma := true }] }]
  defaultUser := ["everybody"]
  groups := [⟨100, ["streams"]⟩]

end Slash.Vrtd

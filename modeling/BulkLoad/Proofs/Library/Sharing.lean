import BulkLoad.Proofs.Library.Loading

/-! # One live table for each path

Tables are asked for by their paths, and their handles are dropped again, in any order. The
registry forgets dead tables only when it loads a new one, so what it remembers may be dead. But it
never remembers a path twice, and it remembers every table that is alive under the path it was
asked for. So whoever asks for a path in whatever spelling gets the one table that is alive.
-/
namespace BulkLoad

/-- A handle that is held, and the path for which it was obtained. -/
structure Tenant where
  path : Path
  handle : Handle

/-- A registry with the tenants of its handles, place by place. -/
structure Tenancy where
  registry : Registry
  tenants : Places Tenant

namespace Tenancy

def empty : Tenancy := ⟨.empty, []⟩

inductive Event
  | request (path : Path) (load : Path → Except Fault Table) (place : Nat)
  | drop (place : Nat)

def keep (tenancy : Tenancy) (place : Nat) (tenant : Tenant) : Tenancy :=
  ⟨tenancy.registry.hold place tenant.handle, tenancy.tenants.put place tenant⟩

def step (tenancy : Tenancy) : Event → Tenancy
  | .request path load place =>
    match tenancy.registry.acquire load path with
    | (.error _, registry) => { tenancy with registry }
    | (.ok handle, registry) => keep { tenancy with registry } place ⟨path, handle⟩
  | .drop place => ⟨tenancy.registry.drop place, tenancy.tenants.clear place⟩

def after (events : List Event) : Tenancy := events.foldl step empty

/-- The table behind the handle is alive and was obtained for the path, in whatever spelling. -/
def Holds (tenancy : Tenancy) (path : Path) (handle : Handle) : Prop :=
  ∃ tenant ∈ tenancy.tenants.items, tenant.path.Same path ∧ tenant.handle = handle

/-- What the registry remembers agrees with the tables that are alive. -/
structure Orderly (tenancy : Tenancy) : Prop where
  handles : tenancy.registry.handles = tenancy.tenants.map (Prod.map id Tenant.handle)
  paths : (tenancy.registry.remembered.map (·.1.components)).Nodup
  serials : (tenancy.registry.remembered.map (·.2)).Nodup
  issued : ∀ entry ∈ tenancy.registry.remembered, entry.2 < tenancy.registry.issued
  issuedTo : ∀ tenant ∈ tenancy.tenants.items, tenant.handle.serial < tenancy.registry.issued
  /-- A serial number stands for one table. -/
  identity : ∀ s ∈ tenancy.tenants.items, ∀ t ∈ tenancy.tenants.items,
    s.handle.serial = t.handle.serial → s.handle = t.handle
  remembered : ∀ tenant ∈ tenancy.tenants.items, ∃ entry ∈ tenancy.registry.remembered,
    entry.1.Same tenant.path ∧ entry.2 = tenant.handle.serial

namespace Orderly

variable {tenancy : Tenancy} {path : Path} {handle : Handle}

theorem empty : Tenancy.empty.Orderly where
  handles := rfl
  paths := List.nodup_nil
  serials := List.nodup_nil
  issued := by simp [Tenancy.empty, Registry.empty]
  issuedTo := by simp [Tenancy.empty, Places.items]
  identity := by simp [Tenancy.empty, Places.items]
  remembered := by simp [Tenancy.empty, Places.items]

theorem items_handles (h : tenancy.Orderly) :
    tenancy.registry.handles.items = tenancy.tenants.items.map Tenant.handle := by
  simp only [Places.items, h.handles, List.map_map]
  rfl

theorem entry_unique (h : tenancy.Orderly) {first second : Path × Nat}
    (hfirst : first ∈ tenancy.registry.remembered) (hsecond : second ∈ tenancy.registry.remembered)
    (hsame : first.1.Same second.1) : first = second :=
  List.inj_on_of_nodup_map h.paths hfirst hsecond hsame

theorem live?_eq_some_iff (h : tenancy.Orderly) {serial : Nat} :
    tenancy.registry.live? serial = some handle ↔
      ∃ tenant ∈ tenancy.tenants.items, tenant.handle = handle ∧ handle.serial = serial := by
  unfold Registry.live?
  rw [h.items_handles]
  constructor
  · intro hfound
    obtain ⟨tenant, htenant, rfl⟩ := List.mem_map.mp (List.mem_of_find?_eq_some hfound)
    exact ⟨tenant, htenant, rfl, by simpa using List.find?_some hfound⟩
  · rintro ⟨tenant, htenant, rfl, rfl⟩
    cases hfound : (tenancy.tenants.items.map Tenant.handle).find?
        (·.serial == tenant.handle.serial) with
    | none =>
      have hnone := List.find?_eq_none.mp hfound _ (List.mem_map_of_mem htenant)
      simp at hnone
    | some other =>
      obtain ⟨tenant', htenant', rfl⟩ := List.mem_map.mp (List.mem_of_find?_eq_some hfound)
      have hserial : tenant'.handle.serial = tenant.handle.serial := by
        simpa using List.find?_some hfound
      rw [h.identity tenant' htenant' tenant htenant hserial]

/-- The registry finds a table for a path exactly if one is alive that was obtained for it. -/
theorem cached?_eq_some_iff (h : tenancy.Orderly) :
    tenancy.registry.cached? path = some handle ↔ tenancy.Holds path handle := by
  constructor
  · intro hcached
    unfold Registry.cached? at hcached
    split at hcached
    · next entry hentry =>
      obtain ⟨tenant, htenant, rfl, hserial⟩ := h.live?_eq_some_iff.mp hcached
      have hpath : entry.1.Same path := by simpa using List.find?_some hentry
      obtain ⟨own, hown, hsame, howned⟩ := h.remembered tenant htenant
      have hunique : own = entry := List.inj_on_of_nodup_map h.serials hown
        (List.mem_of_find?_eq_some hentry) (howned.trans hserial)
      subst hunique
      exact ⟨tenant, htenant, hsame.symm.trans hpath, rfl⟩
    · cases hcached
  · rintro ⟨tenant, htenant, hsame, rfl⟩
    obtain ⟨entry, hentry, hkey, hserial⟩ := h.remembered tenant htenant
    have hpath : entry.1.Same path := hkey.trans hsame
    have hlive := h.live?_eq_some_iff.mpr ⟨tenant, htenant, rfl, rfl⟩
    cases hfound : tenancy.registry.remembered.find? fun entry => decide (entry.1.Same path) with
    | none =>
      have hnone := List.find?_eq_none.mp hfound entry hentry
      simp [hpath] at hnone
    | some other =>
      have hother : other.1.Same path := by simpa using List.find?_some hfound
      obtain rfl := h.entry_unique hentry (List.mem_of_find?_eq_some hfound)
        (hpath.trans hother.symm)
      simp only [Registry.cached?, hfound, hserial, hlive]

theorem keep (h : tenancy.Orderly) (place : Nat) {tenant : Tenant}
    (hissued : tenant.handle.serial < tenancy.registry.issued)
    (hidentity : ∀ t ∈ tenancy.tenants.items,
      t.handle.serial = tenant.handle.serial → t.handle = tenant.handle)
    (hremembered : ∃ entry ∈ tenancy.registry.remembered,
      entry.1.Same tenant.path ∧ entry.2 = tenant.handle.serial) :
    (tenancy.keep place tenant).Orderly where
  handles := by
    rw [Tenancy.keep, Registry.hold, h.handles]
    exact (Places.map_put Tenant.handle tenancy.tenants place tenant).symm
  paths := h.paths
  serials := h.serials
  issued := h.issued
  issuedTo := by
    intro t ht
    rcases Places.of_mem_items_put ht with rfl | ht
    · exact hissued
    · exact h.issuedTo t ht
  identity := by
    intro s hs t ht hserial
    rcases Places.of_mem_items_put hs with hs | hs
    · rcases Places.of_mem_items_put ht with ht | ht
      · rw [hs, ht]
      · rw [hs] at hserial ⊢
        exact (hidentity t ht hserial.symm).symm
    · rcases Places.of_mem_items_put ht with ht | ht
      · rw [ht] at hserial ⊢
        exact hidentity s hs hserial
      · exact h.identity s hs t ht hserial
  remembered := by
    intro t ht
    rcases Places.of_mem_items_put ht with rfl | ht
    · exact hremembered
    · exact h.remembered t ht

theorem keep_shared (h : tenancy.Orderly) (place : Nat) (hholds : tenancy.Holds path handle) :
    (tenancy.keep place ⟨path, handle⟩).Orderly := by
  obtain ⟨tenant, htenant, hsame, rfl⟩ := hholds
  refine h.keep place (h.issuedTo tenant htenant) ?_ ?_
  · intro t ht hserial
    exact h.identity t ht tenant htenant hserial
  · obtain ⟨entry, hentry, hkey, hserial⟩ := h.remembered tenant htenant
    exact ⟨entry, hentry, hkey.trans hsame, hserial⟩

section Enroll

variable {table : Table} {entry : Path × Nat}

theorem mem_remembered_enroll {registry : Registry} :
    entry ∈ (registry.enroll path table).remembered ↔
      entry ∈ registry.remembered ∧ (registry.live? entry.2).isSome = true ∨
        entry = (path, registry.issued) := by
  change entry ∈ registry.remembered.filter (fun entry => (registry.live? entry.2).isSome) ++
    [(path, registry.issued)] ↔ _
  rw [List.mem_append, List.mem_filter, List.mem_singleton]

theorem nodup_map_enroll {β : Type} {registry : Registry} (key : Path × Nat → β)
    (hkeys : (registry.remembered.map key).Nodup)
    (hnew : ∀ entry ∈ registry.remembered, (registry.live? entry.2).isSome = true →
      key entry ≠ key (path, registry.issued)) :
    ((registry.enroll path table).remembered.map key).Nodup := by
  have hkept : ((registry.remembered.filter
      fun entry => (registry.live? entry.2).isSome).map key).Nodup :=
    hkeys.sublist (List.filter_sublist.map key)
  change (List.map key (_ ++ [(path, registry.issued)])).Nodup
  rw [List.map_append, List.nodup_append]
  refine ⟨hkept, List.nodup_singleton _, ?_⟩
  intro first hfirst second hsecond
  obtain ⟨entry, hentry, rfl⟩ := List.mem_map.mp hfirst
  obtain ⟨hentry, hlive⟩ := List.mem_filter.mp hentry
  obtain rfl := List.mem_singleton.mp hsecond
  exact hnew entry hentry hlive

theorem not_same_of_cached?_none (h : tenancy.Orderly)
    (hnone : tenancy.registry.cached? path = none)
    (hentry : entry ∈ tenancy.registry.remembered)
    (hlive : (tenancy.registry.live? entry.2).isSome = true) : ¬entry.1.Same path := by
  intro hsame
  obtain ⟨handle, hhandle⟩ := Option.isSome_iff_exists.mp hlive
  obtain ⟨tenant, htenant, rfl, hserial⟩ := h.live?_eq_some_iff.mp hhandle
  obtain ⟨own, hown, hkey, howned⟩ := h.remembered tenant htenant
  obtain rfl := List.inj_on_of_nodup_map h.serials hown hentry (howned.trans hserial)
  have hholds : tenancy.Holds path tenant.handle :=
    ⟨tenant, htenant, hkey.symm.trans hsame, rfl⟩
  rw [h.cached?_eq_some_iff.mpr hholds] at hnone
  cases hnone

/-- Loading a table for a path that has none forgets the dead tables and no others. -/
theorem enroll (h : tenancy.Orderly) (hnone : tenancy.registry.cached? path = none)
    (table : Table) : Orderly ⟨tenancy.registry.enroll path table, tenancy.tenants⟩ where
  handles := h.handles
  paths := by
    refine nodup_map_enroll _ h.paths ?_
    intro entry hentry hlive hequal
    exact h.not_same_of_cached?_none hnone hentry hlive hequal
  serials := by
    refine nodup_map_enroll _ h.serials ?_
    intro entry hentry _ hequal
    exact (h.issued entry hentry).ne hequal
  issued := by
    intro entry hentry
    rcases mem_remembered_enroll.mp hentry with ⟨hentry, -⟩ | rfl
    · exact (h.issued entry hentry).trans (Nat.lt_succ_self _)
    · exact Nat.lt_succ_self _
  issuedTo := by
    intro tenant htenant
    exact (h.issuedTo tenant htenant).trans (Nat.lt_succ_self _)
  identity := h.identity
  remembered := by
    intro tenant htenant
    obtain ⟨entry, hentry, hkey, hserial⟩ := h.remembered tenant htenant
    have hlive := h.live?_eq_some_iff.mpr ⟨tenant, htenant, rfl, rfl⟩
    refine ⟨entry, mem_remembered_enroll.mpr (.inl ⟨hentry, ?_⟩), hkey, hserial⟩
    rw [hserial, hlive, Option.isSome_some]

end Enroll

theorem drop (h : tenancy.Orderly) (place : Nat) : (tenancy.step (.drop place)).Orderly where
  handles := by
    change tenancy.registry.handles.clear place = _
    rw [h.handles]
    exact (Places.map_clear Tenant.handle tenancy.tenants place).symm
  paths := h.paths
  serials := h.serials
  issued := h.issued
  issuedTo := by
    intro tenant htenant
    exact h.issuedTo tenant (Places.of_mem_items_clear htenant)
  identity := by
    intro s hs t ht
    exact h.identity s (Places.of_mem_items_clear hs) t (Places.of_mem_items_clear ht)
  remembered := by
    intro tenant htenant
    exact h.remembered tenant (Places.of_mem_items_clear htenant)

theorem step (h : tenancy.Orderly) (event : Event) : (tenancy.step event).Orderly := by
  cases event with
  | drop place => exact h.drop place
  | request path load place =>
    cases hcached : tenancy.registry.cached? path with
    | some handle =>
      have hholds := h.cached?_eq_some_iff.mp hcached
      simp only [Tenancy.step, Registry.acquire_of_cached load hcached]
      exact h.keep_shared place hholds
    | none =>
      cases hload : load path with
      | error fault =>
        simp only [Tenancy.step, Registry.acquire_of_error load hcached hload]
        exact h
      | ok table =>
        simp only [Tenancy.step, Registry.acquire_of_ok load hcached hload]
        refine (h.enroll hcached table).keep place (Nat.lt_succ_self _) ?_ ?_
        · intro t ht hserial
          exact absurd hserial (h.issuedTo t ht).ne
        · exact ⟨_, mem_remembered_enroll.mpr (.inr rfl), Path.same_refl path, rfl⟩

end Orderly

theorem orderly_after (events : List Event) : (after events).Orderly := by
  have hfold (tenancy : Tenancy) (h : tenancy.Orderly) : (events.foldl step tenancy).Orderly := by
    induction events generalizing tenancy with
    | nil => exact h
    | cons event rest ih => exact ih (tenancy.step event) (h.step event)
  exact hfold empty .empty

theorem mem_serials_enroll {tenancy : Tenancy} (h : tenancy.Orderly) (path : Path) (table : Table)
    (serial : Nat) :
    serial ∈ (tenancy.registry.enroll path table).remembered.map (·.2) ↔
      serial = tenancy.registry.issued ∨
        ∃ tenant ∈ tenancy.tenants.items, tenant.handle.serial = serial := by
  constructor
  · intro hserial
    obtain ⟨entry, hentry, rfl⟩ := List.mem_map.mp hserial
    rcases Orderly.mem_remembered_enroll.mp hentry with ⟨-, hlive⟩ | rfl
    · obtain ⟨handle, hhandle⟩ := Option.isSome_iff_exists.mp hlive
      obtain ⟨tenant, htenant, rfl, hserial⟩ := h.live?_eq_some_iff.mp hhandle
      exact .inr ⟨tenant, htenant, hserial⟩
    · exact .inl rfl
  · rintro (rfl | ⟨tenant, htenant, rfl⟩)
    · exact List.mem_map_of_mem (Orderly.mem_remembered_enroll.mpr (.inr rfl))
    · obtain ⟨entry, hentry, -, hserial⟩ := h.remembered tenant htenant
      have hlive := h.live?_eq_some_iff.mpr ⟨tenant, htenant, rfl, rfl⟩
      have hkept : (tenancy.registry.live? entry.2).isSome = true := by
        rw [hserial, hlive, Option.isSome_some]
      rw [← hserial]
      exact List.mem_map_of_mem (Orderly.mem_remembered_enroll.mpr (.inl ⟨hentry, hkept⟩))

/-- Whatever was asked for and dropped before: handles obtained for one path are handles on one
table, the registry finds every table that is alive, and it loads a path only if there is none.
A load that fails changes nothing, and one that succeeds leaves exactly the tables that are alive
in the registry. -/
theorem one_table_for_each_path (events : List Event) :
    let tenancy := after events
    tenancy.registry.handles = tenancy.tenants.map (Prod.map id Tenant.handle) ∧
    (∀ s ∈ tenancy.tenants.items, ∀ t ∈ tenancy.tenants.items,
      s.path.Same t.path → s.handle = t.handle) ∧
    (∀ path handle, tenancy.Holds path handle → tenancy.registry.cached? path = some handle) ∧
    ∀ (path : Path) (load : Path → Except Fault Table),
      (∀ handle, tenancy.Holds path handle →
        tenancy.registry.loads load path = [] ∧
        tenancy.registry.acquire load path = (.ok handle, tenancy.registry)) ∧
      ((∀ handle, ¬tenancy.Holds path handle) →
        tenancy.registry.loads load path = [path] ∧
        (∀ fault, load path = .error fault →
          tenancy.registry.acquire load path = (.error fault, tenancy.registry) ∧
          ∀ place, tenancy.step (.request path load place) = tenancy) ∧
        ∀ table, load path = .ok table → ∃ handle registry,
          tenancy.registry.acquire load path = (.ok handle, registry) ∧ handle.table = table ∧
          (∀ t ∈ tenancy.tenants.items, t.handle.serial ≠ handle.serial) ∧
          (registry.remembered.map (·.2)).Nodup ∧
          ∀ serial, serial ∈ registry.remembered.map (·.2) ↔
            serial = handle.serial ∨ ∃ t ∈ tenancy.tenants.items, t.handle.serial = serial) := by
  intro tenancy
  have h : tenancy.Orderly := orderly_after events
  have hcached (path : Path) (handle : Handle) (hholds : tenancy.Holds path handle) :
      tenancy.registry.cached? path = some handle := h.cached?_eq_some_iff.mpr hholds
  refine ⟨h.handles, ?_, hcached, ?_⟩
  · intro s hs t ht hsame
    have hfirst := hcached t.path s.handle ⟨s, hs, hsame, rfl⟩
    have hsecond := hcached t.path t.handle ⟨t, ht, Path.same_refl t.path, rfl⟩
    exact Option.some.inj (hfirst.symm.trans hsecond)
  · intro path load
    constructor
    · intro handle hholds
      have hsome := hcached path handle hholds
      refine ⟨?_, Registry.acquire_of_cached load hsome⟩
      rw [Registry.loads_eq, hsome, Option.isSome_some, if_pos rfl]
    · intro hfree
      have hnone : tenancy.registry.cached? path = none := by
        cases hfound : tenancy.registry.cached? path with
        | none => rfl
        | some handle => exact absurd (h.cached?_eq_some_iff.mp hfound) (hfree handle)
      refine ⟨?_, ?_, ?_⟩
      · rw [Registry.loads_eq, hnone, Option.isSome_none, if_neg Bool.false_ne_true]
      · intro fault hload
        have hacquire := Registry.acquire_of_error load hnone hload
        refine ⟨hacquire, ?_⟩
        intro place
        simp only [step, hacquire]
      · intro table hload
        refine ⟨_, _, Registry.acquire_of_ok load hnone hload, rfl, ?_, ?_, ?_⟩
        · intro t ht
          exact (h.issuedTo t ht).ne
        · exact (h.enroll hnone table).serials
        · exact mem_serials_enroll h path table

/-- A path is loaded again once the last handle on its table is dropped, and not before. -/
example :
    let load : Path → Except Fault Table := fun path => .ok ⟨path, [], none⟩
    let shared := [.request ⟨"lib/a"⟩ load 0, .request ⟨"lib//a/."⟩ load 1, .drop 0]
    let reloaded := shared ++ [.drop 1, .request ⟨"lib/a"⟩ load 0]
    (after shared).tenants.items.map (·.handle.serial) = [0] ∧
      (after reloaded).tenants.items.map (·.handle.serial) = [1] := by
  decide

end Tenancy

end BulkLoad

import FrameGraph.Proofs.Frame.Attempts
import FrameGraph.Proofs.Memory.Asked
import FrameGraph.Proofs.Timeline

/-!
# What is behind the persistent resources of a frame

A persistent resource keeps its object as long as it is declared in the same way; otherwise a new
one is created, if the device allows.  The store of backings knows which, and other resources make no
difference to it.

Principal statements: `Resolution.addPersistent_cases` and `provides_resolveFrame`.
-/

set_option autoImplicit false

namespace FrameGraph

/-- What holds before a fold over a list, and is carried over each of its elements, holds after it. -/
theorem Outcome.foldlM_induction {α β : Type} {I : List α → β → Prop} {f : β → α → Outcome β}
    (hstep : ∀ a rest b b', I (a :: rest) b → (f b a).result = .ok b' → I rest b') :
    ∀ {l : List α} {b b' : β}, I l b → (l.foldlM f b).result = .ok b' → I [] b' := by
  intro l
  induction l with
  | nil =>
      intro b b' hb hok
      cases hok
      exact hb
  | cons a rest ih =>
      intro b b' hb hok
      rw [List.foldlM_cons] at hok
      obtain ⟨mid, hmid, hrest⟩ := Outcome.result_bind_eq_ok_iff.1 hok
      exact ih (hstep a rest b mid hb hmid) hrest

/-! ## The store of backings -/

namespace Backings

/-- No two backings have the same name. -/
def Distinct (b : Backings) : Prop := (b.entries.map (·.1)).Nodup

theorem name_not_mem_erase (b : Backings) (name : String) :
    name ∉ (b.erase name).entries.map (·.1) := by
  intro hmem
  obtain ⟨entry, hentry, hname⟩ := List.mem_map.1 hmem
  exact of_decide_eq_true (List.mem_filter.1 hentry).2 hname

theorem mem_of_get? {b : Backings} {name : String} {backing : Backing}
    (h : b.get? name = some backing) : (name, backing) ∈ b.entries := by
  obtain ⟨entries⟩ := b
  have hlookup : entries.lookup name = some backing := h
  show (name, backing) ∈ entries
  clear h
  induction entries with
  | nil => cases hlookup
  | cons entry rest ih =>
      obtain ⟨key, other⟩ := entry
      rw [List.lookup_cons] at hlookup
      split at hlookup
      · next hkey =>
          cases hlookup
          rw [beq_iff_eq.1 hkey]
          exact List.mem_cons_self
      · exact List.mem_cons_of_mem _ (ih hlookup)

/-- A name that stands once answers with what is stored under it. -/
theorem Distinct.get?_eq {b : Backings} (hb : b.Distinct) {e : String × Backing}
    (he : e ∈ b.entries) : b.get? e.1 = some e.2 := by
  cases hfound : b.get? e.1 with
  | none =>
      have hnone : b.entries.lookup e.1 = none := hfound
      simpa using List.lookup_eq_none_iff.1 hnone e he
  | some backing =>
      have hsame := List.inj_on_of_nodup_map hb (mem_of_get? hfound) he rfl
      rw [← hsame]

/-- What erasing leaves is everything else. -/
theorem Distinct.perm_erase {b : Backings} (hb : b.Distinct) {name : String} {backing : Backing}
    (h : b.get? name = some backing) :
    ((name, backing) :: (b.erase name).entries).Perm b.entries := by
  obtain ⟨before, after, hsplit⟩ := List.append_of_mem (mem_of_get? h)
  have hperm : b.entries.Perm ((name, backing) :: (before ++ after)) := by
    rw [hsplit]
    exact List.perm_middle
  have hkeys := (hperm.map fun entry : String × Backing => entry.1).nodup_iff.1 hb
  have hnew := (List.nodup_cons.1 hkeys).1
  have hrest : (before ++ after).filter (fun entry => entry.1 ≠ name) = before ++ after := by
    refine List.filter_eq_self.2 fun entry hentry => decide_eq_true fun heq => hnew ?_
    exact heq ▸ List.mem_map_of_mem (f := (·.1)) hentry
  have herase : (b.erase name).entries.Perm (before ++ after) := by
    rw [← hrest]
    have hfilter := hperm.filter fun entry => entry.1 ≠ name
    rw [List.filter_cons_of_neg (by simp)] at hfilter
    exact hfilter
  exact (herase.cons _).trans hperm.symm

theorem lookup_filter {entries : List (String × Backing)} (hnd : (entries.map (·.1)).Nodup)
    (p : String × Backing → Bool) (name : String) :
    (entries.filter p).lookup name = (entries.lookup name).filter fun b => p (name, b) := by
  induction entries with
  | nil => rfl
  | cons entry rest ih =>
      obtain ⟨key, backing⟩ := entry
      obtain ⟨hnew, hrest⟩ := List.nodup_cons.1 hnd
      by_cases hkey : name = key
      · subst hkey
        have hnone : rest.lookup name = none := by
          rw [List.lookup_eq_none_iff]
          intro entry hentry
          simp only [bne_iff_ne, ne_eq]
          exact fun heq => hnew (List.mem_map.2 ⟨entry, hentry, heq.symm⟩)
        have hself := ih hrest
        rw [hnone] at hself
        rw [List.lookup_cons_self, List.filter_cons]
        split
        · next hp => rw [List.lookup_cons_self, Option.filter_some, if_pos hp]
        · next hp => rw [hself, Option.filter_some, if_neg hp, Option.filter_none]
      · have hne : (name == key) = false := by simpa using hkey
        rw [List.lookup_cons, hne, List.filter_cons]
        split
        · rw [List.lookup_cons, hne]
          exact ih hrest
        · exact ih hrest

/-- What is kept of a store. -/
theorem Distinct.get?_releaseStale {b : Backings} (hb : b.Distinct) (registry : Registry)
    (device : Device) (name : String) :
    (b.releaseStale registry device).value.1.get? name =
      (b.get? name).filter (isDeclared registry name) := by
  rw [Backings.releaseStale, List.partition_eq_filter_filter]
  exact lookup_filter hb _ name

theorem get?_erase_of_ne (b : Backings) {name other : String} (h : other ≠ name) :
    (b.erase other).get? name = b.get? name := by
  obtain ⟨entries⟩ := b
  show (entries.filter fun entry => entry.1 ≠ other).lookup name = entries.lookup name
  induction entries with
  | nil => rfl
  | cons entry rest ih =>
      obtain ⟨key, backing⟩ := entry
      rw [List.filter_cons]
      split
      · rw [List.lookup_cons, List.lookup_cons, ih]
      · next hkey =>
          have hkey' : key = other := by simpa using hkey
          have hne : (name == key) = false := by
            rw [hkey']
            simpa using h.symm
          rw [List.lookup_cons, hne]
          exact ih

theorem get?_insert_of_ne (b : Backings) {name other : String} (h : other ≠ name)
    (backing : Backing) : (b.insert other backing).get? name = b.get? name := by
  have hne : (name == other) = false := by simpa using h.symm
  have herase : (b.erase other).entries.lookup name = b.get? name := b.get?_erase_of_ne h
  show ((b.erase other).entries ++ [(other, backing)]).lookup name = b.get? name
  rw [List.lookup_append, herase, List.lookup_cons, hne, List.lookup_nil, Option.or_none]

end Backings

/-! ## Adding one resource -/

theorem info_of_makeBacking {d d' : Device} {resource : Resource} {backing : Backing}
    (hok : makeBacking d resource = .ok (.ok backing, d')) : backing.info = resource.info := by
  obtain ⟨-, -, ⟨error, -, hcreated⟩ | ⟨memory, middle, -, ⟨error, -, hcreated, -⟩ |
    ⟨object, -, hcreated, -⟩⟩⟩ := makeBacking_cases hok
  · cases hcreated
  · cases hcreated
  · cases hcreated
    rfl

namespace Resolution

variable {r r' : Resolution} {h k : Handle} {name : String} {resource : Resource}

/-- A new backing is created or not. -/
theorem addNew_cases (hok : (r.addNew h resource).result = .ok r') :
    r'.pool = r.pool ∧
      ((∃ backing : Backing, makeBacking r.device resource = .ok (.ok backing, r'.device) ∧
          r'.backings = r.backings.insert resource.name backing ∧
          r'.frame = { r.frame with
            objects := r.frame.objects.insert h backing.object
            created := r.frame.created ++ [h] }) ∨
        ∃ error, makeBacking r.device resource = .ok (.error error, r'.device) ∧
          r'.backings = r.backings ∧ r'.frame = r.frame) := by
  obtain ⟨⟨created, device⟩, hmake, hok⟩ := Outcome.result_bind_eq_ok_iff.1 hok
  cases created with
  | error error =>
      obtain ⟨-, -, hpure⟩ := Outcome.result_bind_eq_ok_iff.1 hok
      cases hpure
      exact ⟨rfl, .inr ⟨error, hmake, rfl, rfl⟩⟩
  | ok backing =>
      obtain ⟨-, -, hpure⟩ := Outcome.result_bind_eq_ok_iff.1 hok
      cases hpure
      exact ⟨rfl, .inl ⟨backing, hmake, rfl, rfl⟩⟩

/-- A persistent resource gets the backing that is declared in the same way, or else a new one is
created, in place of the one there was. -/
theorem addPersistent_eq (r : Resolution) (h : Handle) (resource : Resource) :
    (∃ backing, r.backings.get? resource.name = some backing ∧ backing.info = resource.info ∧
        r.addPersistent h resource = pure (r.addObject h backing.object)) ∨
      ((∀ backing, r.backings.get? resource.name = some backing → backing.info ≠ resource.info) ∧
        ∃ base : Resolution,
          (base = r ∨
            ∃ old, r.backings.get? resource.name = some old ∧
              base = { r with
                backings := r.backings.erase resource.name
                device := old.release r.device }) ∧
          base.backings.get? resource.name = none ∧
          r.addPersistent h resource = base.addNew h resource) := by
  unfold addPersistent
  split
  · next hnone =>
      refine .inr ⟨fun backing hb => ?_, r, .inl rfl, hnone, rfl⟩
      rw [hnone] at hb
      cases hb
  · next backing hsome =>
      split
      · next hinfo => exact .inl ⟨backing, hsome, hinfo, rfl⟩
      · next hinfo =>
          refine .inr ⟨fun other hother => ?_, _, .inr ⟨backing, hsome, rfl⟩,
            Backings.get?_erase_self .., rfl⟩
          cases hsome.symm.trans hother
          exact hinfo

theorem addPersistent_cases (hok : (r.addPersistent h resource).result = .ok r') :
    (∃ backing, r.backings.get? resource.name = some backing ∧ backing.info = resource.info ∧
        r' = r.addObject h backing.object) ∨
      ((∀ backing, r.backings.get? resource.name = some backing → backing.info ≠ resource.info) ∧
        ∃ base : Resolution,
          (base = r ∨
            ∃ old, r.backings.get? resource.name = some old ∧
              base = { r with
                backings := r.backings.erase resource.name
                device := old.release r.device }) ∧
          (base.addNew h resource).result = .ok r') := by
  obtain ⟨backing, hsome, hinfo, heq⟩ | ⟨hdiffer, base, hbase, -, heq⟩ := addPersistent_eq r h resource
  · rw [heq] at hok
    cases hok
    exact .inl ⟨backing, hsome, hinfo, rfl⟩
  · rw [heq] at hok
    exact .inr ⟨hdiffer, base, hbase, hok⟩

/-! ## Adding other resources -/

/-- What is known about a resource and its name is the same in both resolutions. -/
structure SameFor (h : Handle) (name : String) (r r' : Resolution) : Prop where
  objects : r'.frame.objects.get? h = r.frame.objects.get? h
  created : h ∈ r'.frame.created ↔ h ∈ r.frame.created
  backing : r'.backings.get? name = r.backings.get? name

theorem SameFor.refl (h : Handle) (name : String) (r : Resolution) : SameFor h name r r :=
  ⟨rfl, .rfl, rfl⟩

theorem SameFor.trans {r'' : Resolution} (hr : SameFor h name r r') (hr' : SameFor h name r' r'') :
    SameFor h name r r'' :=
  ⟨hr'.objects.trans hr.objects, hr'.created.trans hr.created, hr'.backing.trans hr.backing⟩

theorem sameFor_addObject (hk : k ≠ h) (object : DeviceObject) :
    SameFor h name r (r.addObject k object) :=
  ⟨HandleMap.get?_insert_of_ne _ _ hk, .rfl, rfl⟩

theorem sameFor_addNew (hk : k ≠ h) (hname : resource.name ≠ name)
    (hok : (r.addNew k resource).result = .ok r') : SameFor h name r r' := by
  obtain ⟨-, ⟨backing, -, hbackings, hframe⟩ | ⟨error, -, hbackings, hframe⟩⟩ := addNew_cases hok
  · refine ⟨?_, ?_, ?_⟩
    · rw [hframe]
      exact HandleMap.get?_insert_of_ne _ _ hk
    · rw [hframe]
      simp [Ne.symm hk]
    · rw [hbackings, Backings.get?_insert_of_ne _ hname]
  · exact ⟨by rw [hframe], by rw [hframe], by rw [hbackings]⟩

theorem sameFor_addPersistent (hk : k ≠ h) (hname : resource.name ≠ name)
    (hok : (r.addPersistent k resource).result = .ok r') : SameFor h name r r' := by
  obtain ⟨backing, -, -, rfl⟩ | ⟨-, base, hbase, hnew⟩ := addPersistent_cases hok
  · exact sameFor_addObject hk backing.object
  · have hsame : SameFor h name r base := by
      obtain rfl | ⟨old, -, rfl⟩ := hbase
      · exact .refl h name base
      · exact ⟨rfl, .rfl, Backings.get?_erase_of_ne _ hname⟩
    exact hsame.trans (sameFor_addNew hk hname hnew)

theorem sameFor_addKept {entry : Handle × Resource} (hk : entry.1 ≠ h) (hname : entry.2.name ≠ name)
    (hok : (r.addKept entry).result = .ok r') : SameFor h name r r' := by
  obtain ⟨k, resource⟩ := entry
  unfold addKept at hok
  dsimp only at hok
  split at hok
  · cases hok
    exact sameFor_addObject hk _
  · split at hok
    · exact sameFor_addPersistent hk hname hok
    · cases hok
      exact .refl h name r
  · cases hok
    exact .refl h name r

theorem sameFor_addTransient {index : Nat} {table : UsageTable}
    {entry : Handle × Resource × Lifetime} (hk : entry.1 ≠ h)
    (hok : (addTransient index table r entry).result = .ok r') : SameFor h name r r' := by
  obtain ⟨k, resource, lifetime⟩ := entry
  obtain ⟨⟨created, pool, device⟩, -, hok⟩ := Outcome.result_bind_eq_ok_iff.1 hok
  cases created with
  | none =>
      cases hok
      exact ⟨rfl, .rfl, rfl⟩
  | some transient =>
      have hobjects := HandleMap.get?_insert_of_ne r.frame.objects transient.object hk
      dsimp only at hok
      split at hok
      · cases hok
        exact ⟨hobjects, .rfl, rfl⟩
      · cases hok
        exact ⟨hobjects, .rfl, rfl⟩

theorem sameFor_keepAll {entries : List (Handle × Resource)}
    (hother : ∀ e ∈ entries, e.1 ≠ h ∧ e.2.name ≠ name)
    (hok : (entries.foldlM addKept r).result = .ok r') : SameFor h name r r' := by
  refine (Outcome.foldlM_induction (I := fun rest (x : Resolution) =>
    (∀ e ∈ rest, e.1 ≠ h ∧ e.2.name ≠ name) ∧ SameFor h name r x) ?_ ⟨hother, .refl ..⟩ hok).2
  intro entry rest x x' ⟨hrest, hsame⟩ hstep
  obtain ⟨hk, hname⟩ := hrest entry List.mem_cons_self
  exact ⟨fun e he => hrest e (List.mem_cons_of_mem _ he), hsame.trans (sameFor_addKept hk hname hstep)⟩

theorem sameFor_transients {index : Nat} {table : UsageTable}
    {entries : List (Handle × Resource × Lifetime)} (hother : ∀ e ∈ entries, e.1 ≠ h)
    (hok : (entries.foldlM (addTransient index table) r).result = .ok r') :
    SameFor h name r r' := by
  refine (Outcome.foldlM_induction (I := fun rest (x : Resolution) =>
    (∀ e ∈ rest, e.1 ≠ h) ∧ SameFor h name r x) ?_ ⟨hother, .refl ..⟩ hok).2
  intro entry rest x x' ⟨hrest, hsame⟩ hstep
  exact ⟨fun e he => hrest e (List.mem_cons_of_mem _ he),
    hsame.trans (sameFor_addTransient (hrest entry List.mem_cons_self) hstep)⟩

/-! ## What others ask -/

theorem quiet_addNew (hname : resource.name ≠ name) (hok : (r.addNew k resource).result = .ok r') :
    r.device.Quiet name r'.device := by
  obtain ⟨-, ⟨backing, hmake, -, -⟩ | ⟨error, hmake, -, -⟩⟩ := addNew_cases hok
  · exact quiet_makeBacking hmake hname
  · exact quiet_makeBacking hmake hname

theorem quiet_addPersistent (hname : resource.name ≠ name)
    (hok : (r.addPersistent k resource).result = .ok r') : r.device.Quiet name r'.device := by
  obtain ⟨backing, -, -, rfl⟩ | ⟨-, base, hbase, hnew⟩ := addPersistent_cases hok
  · exact .refl name r.device
  · have hquiet : r.device.Quiet name base.device := by
      obtain rfl | ⟨old, -, rfl⟩ := hbase
      · exact .refl name base.device
      · exact Device.quiet_release r.device old
    exact hquiet.trans (quiet_addNew hname hnew)

theorem quiet_addKept {entry : Handle × Resource} (hname : entry.2.name ≠ name)
    (hok : (r.addKept entry).result = .ok r') : r.device.Quiet name r'.device := by
  obtain ⟨k, resource⟩ := entry
  unfold addKept at hok
  dsimp only at hok
  split at hok
  · cases hok
    exact .refl name r.device
  · split at hok
    · exact quiet_addPersistent hname hok
    · cases hok
      exact .refl name r.device
  · cases hok
    exact .refl name r.device

theorem quiet_addTransient {index : Nat} {table : UsageTable}
    {entry : Handle × Resource × Lifetime} (hname : entry.2.1.name ≠ name)
    (hok : (addTransient index table r entry).result = .ok r') :
    r.device.Quiet name r'.device := by
  obtain ⟨k, resource, lifetime⟩ := entry
  obtain ⟨⟨created, pool, device⟩, hcreate, hok⟩ := Outcome.result_bind_eq_ok_iff.1 hok
  have hquiet := Pool.quiet_create hcreate hname
  cases created with
  | none =>
      cases hok
      exact hquiet
  | some transient =>
      dsimp only at hok
      split at hok
      · cases hok
        exact hquiet
      · cases hok
        exact hquiet

theorem quiet_keepAll {entries : List (Handle × Resource)} (hother : ∀ e ∈ entries, e.2.name ≠ name)
    (hok : (entries.foldlM addKept r).result = .ok r') : r.device.Quiet name r'.device := by
  refine (Outcome.foldlM_induction (I := fun rest (x : Resolution) =>
    (∀ e ∈ rest, e.2.name ≠ name) ∧ r.device.Quiet name x.device) ?_ ⟨hother, .refl ..⟩ hok).2
  intro entry rest x x' ⟨hrest, hquiet⟩ hstep
  exact ⟨fun e he => hrest e (List.mem_cons_of_mem _ he),
    hquiet.trans (quiet_addKept (hrest entry List.mem_cons_self) hstep)⟩

theorem quiet_addTransients {index : Nat} {table : UsageTable}
    {entries : List (Handle × Resource × Lifetime)} (hother : ∀ e ∈ entries, e.2.1.name ≠ name)
    (hok : (entries.foldlM (addTransient index table) r).result = .ok r') :
    r.device.Quiet name r'.device := by
  refine (Outcome.foldlM_induction (I := fun rest (x : Resolution) =>
    (∀ e ∈ rest, e.2.1.name ≠ name) ∧ r.device.Quiet name x.device) ?_ ⟨hother, .refl ..⟩ hok).2
  intro entry rest x x' ⟨hrest, hquiet⟩ hstep
  exact ⟨fun e he => hrest e (List.mem_cons_of_mem _ he),
    hquiet.trans (quiet_addTransient (hrest entry List.mem_cons_self) hstep)⟩

/-! ## One resource among others -/

/-- Nothing is done for a resource, and nothing is asked under its name. -/
structure LeavesAlone (h : Handle) (name : String) (r r' : Resolution) : Prop
    extends SameFor h name r r' where
  quiet : r.device.Quiet name r'.device

/-- What a frame does for a persistent resource, what it attempts for it, and what it asks the device.

* `unused`: nothing, if no pass uses the resource.
* `kept`: the resource keeps the backing that is declared in the same way.
* `created`: there was none, and one is created.
* `failed`: there was none, and creating one fails. -/
inductive Provides (h : Handle) (resource : Resource) (r r' : Resolution) (attempted : List Event) :
    Prop
  | unused (hunused : resource.lifetime = none) (hattempted : attempted = [])
      (hquiet : r.device.Quiet resource.name r'.device) (hcreated : h ∉ r'.frame.created)
      (hsame : r'.backings.get? resource.name = r.backings.get? resource.name)
      (hobject : r'.frame.objects.get? h = none)
  | kept (backing : Backing) (hused : resource.lifetime.isSome = true) (hattempted : attempted = [])
      (hquiet : r.device.Quiet resource.name r'.device) (hcreated : h ∉ r'.frame.created)
      (hsame : r'.backings.get? resource.name = r.backings.get? resource.name)
      (hget : r.backings.get? resource.name = some backing) (hinfo : backing.info = resource.info)
      (hobject : r'.frame.objects.get? h = some backing.object)
  | created (backing : Backing) (hused : resource.lifetime.isSome = true)
      (hattempted : attempted = [.persistentCreated resource.name])
      (hasks : r.device.Asks r'.device resource (.ok backing)) (hcreated : h ∈ r'.frame.created)
      (hdiffer : ∀ b, r.backings.get? resource.name = some b → b.info ≠ resource.info)
      (hget : r'.backings.get? resource.name = some backing) (hinfo : backing.info = resource.info)
      (hobject : r'.frame.objects.get? h = some backing.object)
  | failed (error : DeviceError) (hused : resource.lifetime.isSome = true)
      (hattempted : attempted = [.persistentFailed resource.name error])
      (hasks : r.device.Asks r'.device resource (.error error)) (hcreated : h ∉ r'.frame.created)
      (hdiffer : ∀ b, r.backings.get? resource.name = some b → b.info ≠ resource.info)
      (hget : r'.backings.get? resource.name = none) (hobject : r'.frame.objects.get? h = none)

/-- Other resources before and after it make no difference. -/
theorem Provides.of_leavesAlone {x y : Resolution} {attempted : List Event}
    (hb : Provides h resource x y attempted) (hr : LeavesAlone h resource.name r x)
    (hr' : LeavesAlone h resource.name y r') : Provides h resource r r' attempted := by
  have hgone : h ∉ y.frame.created → h ∉ r'.frame.created := fun hnot hmem => hnot (hr'.created.1 hmem)
  cases hb with
  | unused hunused hattempted hquiet hcreated hsame hobject =>
      refine .unused hunused hattempted ((hr.quiet.trans hquiet).trans hr'.quiet) (hgone hcreated) ?_
        (hr'.objects.trans hobject)
      rw [hr'.backing, hsame, hr.backing]
  | kept backing hused hattempted hquiet hcreated hsame hget hinfo hobject =>
      refine .kept backing hused hattempted ((hr.quiet.trans hquiet).trans hr'.quiet)
        (hgone hcreated) ?_ (hr.backing.symm.trans hget) hinfo (hr'.objects.trans hobject)
      rw [hr'.backing, hsame, hr.backing]
  | created backing hused hattempted hasks hcreated hdiffer hget hinfo hobject =>
      exact .created backing hused hattempted (hasks.of_quiet hr.quiet hr'.quiet)
        (hr'.created.2 hcreated) (fun b hb => hdiffer b (hr.backing.trans hb)) (hr'.backing.trans hget) hinfo
        (hr'.objects.trans hobject)
  | failed error hused hattempted hasks hcreated hdiffer hget hobject =>
      exact .failed error hused hattempted (hasks.of_quiet hr.quiet hr'.quiet)
        (hgone hcreated) (fun b hb => hdiffer b (hr.backing.trans hb)) (hr'.backing.trans hget)
        (hr'.objects.trans hobject)

/-- What an attempt to create a backing reports. -/
def attemptEvent (name : String) : Except DeviceError Backing → Event
  | .ok _ => .persistentCreated name
  | .error error => .persistentFailed name error

theorem events_addNew {created : Except DeviceError Backing} {d : Device}
    (hmake : makeBacking r.device resource = .ok (created, d)) :
    (r.addNew h resource).events = [attemptEvent resource.name created] := by
  unfold addNew
  show (Outcome.ofExcept (makeBacking r.device resource) >>= _).events = _
  rw [hmake]
  cases created with
  | ok backing => rfl
  | error error => rfl

/-- Creating a backing is one attempt. -/
theorem attempts_addNew {created : Except DeviceError Backing} {d : Device}
    (hmake : makeBacking r.device resource = .ok (created, d)) :
    attempts resource.name (r.addNew h resource).events = [attemptEvent resource.name created] := by
  rw [events_addNew hmake]
  cases created with
  | ok backing => simp [attempts, attemptEvent, Event.attempted?]
  | error error => simp [attempts, attemptEvent, Event.attempted?]

theorem provides_addKept (hpersistent : resource.isPersistent = true)
    (hobject : r.frame.objects.get? h = none) (hcreated : h ∉ r.frame.created)
    (hok : (r.addKept (h, resource)).result = .ok r') :
    Provides h resource r r' (attempts resource.name (r.addKept (h, resource)).events) := by
  have hsource : resource.source = .internal true := of_decide_eq_true hpersistent
  have hkept : r.addKept (h, resource) =
      if resource.lifetime.isSome then r.addPersistent h resource else pure r := by
    unfold addKept
    dsimp only
    rw [hsource]
  rw [hkept] at hok ⊢
  split at hok
  · next hused =>
      rw [if_pos hused]
      obtain ⟨backing, hb, hinfo, heq⟩ | ⟨hdiffer, base, hbase, hvacant, heq⟩ :=
        addPersistent_eq r h resource
      · rw [heq] at hok ⊢
        cases hok
        exact .kept backing hused rfl (.refl ..) hcreated rfl hb hinfo
          (HandleMap.get?_insert_self ..)
      · rw [heq] at hok ⊢
        have hframe : base.frame = r.frame := by
          obtain rfl | ⟨old, -, rfl⟩ := hbase <;> rfl
        have hquiet : r.device.Quiet resource.name base.device := by
          obtain rfl | ⟨old, -, rfl⟩ := hbase
          · exact .refl ..
          · exact Device.quiet_release r.device old
        obtain ⟨-, ⟨backing, hmake, hbackings, hmade⟩ | ⟨error, hmake, hbackings, hmade⟩⟩ :=
          addNew_cases hok
        · refine .created backing hused (attempts_addNew hmake)
            ((asks_makeBacking hmake).of_quiet hquiet (.refl ..)) ?_ hdiffer ?_
            (info_of_makeBacking hmake) ?_
          · rw [hmade]
            exact List.mem_append_right _ List.mem_cons_self
          · rw [hbackings, Backings.get?_insert_self]
          · rw [hmade]
            exact HandleMap.get?_insert_self ..
        · refine .failed error hused (attempts_addNew hmake)
            ((asks_makeBacking hmake).of_quiet hquiet (.refl ..)) ?_ hdiffer ?_ ?_
          · rw [hmade, hframe]
            exact hcreated
          · rw [hbackings, hvacant]
          · rw [hmade, hframe, hobject]
  · next hunused =>
      cases hok
      rw [if_neg hunused]
      exact .unused (Option.not_isSome_iff_eq_none.1 hunused) rfl (.refl ..) hcreated rfl hobject

/-- What a frame does to the backing of a persistent resource: it keeps that of the same description,
or it creates one, or the resource stays without an object. -/
inductive Backs (h : Handle) (resource : Resource) (r r' : Resolution) : Prop
  | kept (backing : Backing) (hcreated : h ∉ r'.frame.created)
      (hsame : r'.backings.get? resource.name = r.backings.get? resource.name)
      (hget : r.backings.get? resource.name = some backing) (hinfo : backing.info = resource.info)
      (hobject : r'.frame.objects.get? h = some backing.object)
  | created (backing : Backing) (hcreated : h ∈ r'.frame.created)
      (hdiffer : ∀ b, r.backings.get? resource.name = some b → b.info ≠ resource.info)
      (hget : r'.backings.get? resource.name = some backing) (hinfo : backing.info = resource.info)
      (hobject : r'.frame.objects.get? h = some backing.object)
      (hused : resource.lifetime.isSome = true)
  | missing (hnone : r'.frame.objects.get? h = none)
      (hdiffer : resource.lifetime.isSome = true →
        ∀ b, r.backings.get? resource.name = some b → b.info ≠ resource.info)
      (hold : ∀ b, r'.backings.get? resource.name = some b → r.backings.get? resource.name = some b)

/-- What is attempted does not matter to the backing. -/
theorem Provides.backs {attempted : List Event} (hb : Provides h resource r r' attempted) :
    Backs h resource r r' := by
  cases hb with
  | unused hunused _ _ _ hsame hobject =>
      refine .missing hobject (fun hused => ?_) fun b hb => hsame.symm.trans hb
      rw [hunused] at hused
      cases hused
  | kept backing _ _ _ hcreated hsame hget hinfo hobject =>
      exact .kept backing hcreated hsame hget hinfo hobject
  | created backing hused _ _ hcreated hdiffer hget hinfo hobject =>
      exact .created backing hcreated hdiffer hget hinfo hobject hused
  | failed error _ _ _ _ hdiffer hget hobject =>
      refine .missing hobject (fun _ => hdiffer) fun b hb => ?_
      rw [hget] at hb
      cases hb

end Resolution

/-! ## Resolving a frame -/

theorem mem_transientsInOrder {registry : Registry} {h : Handle} {resource : Resource}
    {lifetime : Lifetime} :
    (h, resource, lifetime) ∈ transientsInOrder registry ↔
      registry.get? h = some resource ∧ resource.isTransient = true ∧
        resource.lifetime = some lifetime := by
  rw [transientsInOrder, List.mem_mergeSort, List.mem_filterMap]
  constructor
  · rintro ⟨⟨k, found⟩, hmem, hsome⟩
    dsimp only at hsome
    split at hsome
    · next htransient =>
        obtain ⟨l, hl, heq⟩ := Option.map_eq_some_iff.1 hsome
        cases heq
        exact ⟨SlotTable.mem_toList.1 hmem, htransient, hl⟩
    · cases hsome
  · rintro ⟨hget, htransient, hl⟩
    refine ⟨(h, resource), SlotTable.mem_toList.2 hget, ?_⟩
    simp [htransient, hl]

/-- A resource stands in the list of all resources once, and so does its name. -/
theorem Registry.WellFormed.exists_split {registry : Registry} (hr : registry.WellFormed)
    {h : Handle} {resource : Resource} (hget : registry.get? h = some resource) :
    ∃ before after, registry.toList = before ++ (h, resource) :: after ∧
      ∀ e ∈ before ++ after, e.1 ≠ h ∧ e.2.name ≠ resource.name := by
  obtain ⟨before, after, hlist⟩ := List.append_of_mem (SlotTable.mem_toList.2 hget)
  refine ⟨before, after, hlist, fun e he => ?_⟩
  have hkeys : ((before ++ (h, resource) :: after).map (·.1)).Nodup :=
    hlist ▸ SlotTable.nodup_handles registry.table
  have hperm : (before ++ (h, resource) :: after).Perm ((h, resource) :: (before ++ after)) :=
    List.perm_middle
  have hnew := (List.nodup_cons.1 ((hperm.map (·.1)).nodup_iff.1 hkeys)).1
  have hk : e.1 ≠ h := fun heq => hnew (heq ▸ List.mem_map_of_mem (f := (·.1)) he)
  have hmem : e ∈ registry.toList := by
    rw [toList, hlist]
    exact hperm.mem_iff.2 (List.mem_cons_of_mem _ he)
  exact ⟨hk, fun heq => hk (hr.names e.1 h e.2 resource (SlotTable.mem_toList.1 hmem) hget heq)⟩

/-- A resource that does not come from the pool is resolved by itself; the others make no difference to
it, attempt nothing for it and ask nothing under its name. -/
theorem exists_addKept {registry : Registry} (hr : registry.WellFormed) {h : Handle}
    {resource : Resource} (hget : registry.get? h = some resource)
    (hkept : resource.isTransient = false) {index : Nat} {table : UsageTable} {start r : Resolution}
    (hok : (resolveFrame index registry table start).result = .ok r) :
    ∃ (before : List (Handle × Resource)) (x y : Resolution),
      (before.foldlM Resolution.addKept start).result = .ok x ∧
      Resolution.LeavesAlone h resource.name start x ∧
      (x.addKept (h, resource)).result = .ok y ∧ Resolution.LeavesAlone h resource.name y r ∧
      attempts resource.name (resolveFrame index registry table start).events =
        attempts resource.name (x.addKept (h, resource)).events := by
  obtain ⟨kept, hkeeps, htransients⟩ := Outcome.result_bind_eq_ok_iff.1 hok
  have hhandles : ∀ e ∈ transientsInOrder registry, e.1 ≠ h := by
    rintro ⟨k, other, lifetime⟩ he rfl
    obtain ⟨hother, htransient, -⟩ := mem_transientsInOrder.1 he
    cases hget.symm.trans hother
    rw [hkept] at htransient
    cases htransient
  have hnames : ∀ e ∈ transientsInOrder registry, e.2.1.name ≠ resource.name := fun e he hname =>
    hhandles e he (hr.names e.1 h e.2.1 resource (mem_transientsInOrder.1 he).1 hget hname)
  have hafter : Resolution.LeavesAlone h resource.name kept r :=
    ⟨Resolution.sameFor_transients hhandles htransients,
      Resolution.quiet_addTransients hnames htransients⟩
  have hevents : attempts resource.name (resolveFrame index registry table start).events =
      attempts resource.name (registry.toList.foldlM Resolution.addKept start).events := by
    unfold resolveFrame
    rw [Outcome.events_bind_of_ok hkeeps, attempts_append,
      Outcome.attempts_foldlM fun entry _ x => Resolution.attempts_addTransient index table x entry,
      List.append_nil]
  obtain ⟨before, after, hlist, hother⟩ := hr.exists_split hget
  rw [hevents]
  rw [hlist, List.foldlM_append] at hkeeps ⊢
  obtain ⟨x, hx, hkeeps⟩ := Outcome.result_bind_eq_ok_iff.1 hkeeps
  rw [List.foldlM_cons] at hkeeps
  obtain ⟨y, hy, hkeeps⟩ := Outcome.result_bind_eq_ok_iff.1 hkeeps
  have hbefore : ∀ e ∈ before, e.1 ≠ h ∧ e.2.name ≠ resource.name := fun e he =>
    hother e (List.mem_append_left _ he)
  have hbehind : ∀ e ∈ after, e.1 ≠ h ∧ e.2.name ≠ resource.name := fun e he =>
    hother e (List.mem_append_right _ he)
  have hsx : Resolution.LeavesAlone h resource.name start x :=
    ⟨Resolution.sameFor_keepAll hbefore hx,
      Resolution.quiet_keepAll (fun e he => (hbefore e he).2) hx⟩
  have hsy : Resolution.LeavesAlone h resource.name y r :=
    ⟨(Resolution.sameFor_keepAll hbehind hkeeps).trans hafter.toSameFor,
      (Resolution.quiet_keepAll (fun e he => (hbehind e he).2) hkeeps).trans hafter.quiet⟩
  refine ⟨before, x, y, hx, hsx, hy, hsy, ?_⟩
  rw [Outcome.events_bind_of_ok hx, List.foldlM_cons, Outcome.events_bind_of_ok hy, attempts_append,
    attempts_append,
    Outcome.attempts_foldlM fun e he _ => Resolution.attempts_addKept_of_ne (hbefore e he).2,
    Outcome.attempts_foldlM fun e he _ => Resolution.attempts_addKept_of_ne (hbehind e he).2,
    List.nil_append, List.append_nil]

/-- **What a frame does for a persistent resource.** -/
theorem provides_resolveFrame {registry : Registry} (hr : registry.WellFormed) {h : Handle}
    {resource : Resource} (hget : registry.get? h = some resource)
    (hpersistent : resource.isPersistent = true) {index : Nat} {table : UsageTable}
    {start r : Resolution} (hframe : start.frame = {})
    (hok : (resolveFrame index registry table start).result = .ok r) :
    Resolution.Provides h resource start r
      (attempts resource.name (resolveFrame index registry table start).events) := by
  have htransient : resource.isTransient = false := by
    rw [Resource.isTransient, of_decide_eq_true hpersistent]
    rfl
  obtain ⟨_, x, y, -, hsx, hy, hsy, hattempts⟩ := exists_addKept hr hget htransient hok
  have hobject : x.frame.objects.get? h = none := by
    rw [hsx.objects, hframe]
    rfl
  have hcreated : h ∉ x.frame.created := by
    rw [hsx.created, hframe]
    exact List.not_mem_nil
  rw [hattempts]
  exact (Resolution.provides_addKept hpersistent hobject hcreated hy).of_leavesAlone hsx hsy

theorem backs_resolveFrame {registry : Registry} (hr : registry.WellFormed) {h : Handle}
    {resource : Resource} (hget : registry.get? h = some resource)
    (hpersistent : resource.isPersistent = true) {index : Nat} {table : UsageTable}
    {start r : Resolution} (hframe : start.frame = {})
    (hok : (resolveFrame index registry table start).result = .ok r) :
    Resolution.Backs h resource start r :=
  (provides_resolveFrame hr hget hpersistent hframe hok).backs

/-- An imported resource brings its own object. -/
theorem object_resolveFrame_of_imported {registry : Registry} (hr : registry.WellFormed) {h : Handle}
    {resource : Resource} (hget : registry.get? h = some resource) {object : DeviceObject}
    {handover : Handover} (hsource : resource.source = .imported object handover) {index : Nat}
    {table : UsageTable} {start r : Resolution}
    (hok : (resolveFrame index registry table start).result = .ok r) :
    r.frame.objects.get? h = some object := by
  have htransient : resource.isTransient = false := by
    rw [Resource.isTransient, hsource]
    rfl
  obtain ⟨_, x, y, -, -, hy, hsy, -⟩ := exists_addKept hr hget htransient hok
  rw [hsy.objects]
  unfold Resolution.addKept at hy
  simp only [hsource] at hy
  cases hy
  exact HandleMap.get?_insert_self _ h object

end FrameGraph

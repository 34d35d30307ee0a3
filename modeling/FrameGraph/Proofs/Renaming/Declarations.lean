import FrameGraph.Proofs.Frame.Backing
import FrameGraph.Proofs.Renaming.Schedule

/-!
# Declaring twice

Two registries are similar if each resource of one has a partner of the same outline, hence of the same
name, in the other.  Operations look resources up by name, so the same operation does the same to
similar registries: it accepts or rejects in both, and partners stay partners.  In this way the
same declarations lead to corresponding passes, however many slots were used before.

Principal statements: `Registry.Similar.perform` and `PassDraft.Similar.performAll`.
-/

set_option autoImplicit false

namespace FrameGraph

namespace Registry

variable {r r' r₁ r₁' r₂ r₂' : Registry}

/-- Well-formed registries of which each resource has a partner in the other. -/
structure Similar (r r' : Registry) : Prop where
  wellFormed : r.WellFormed
  wellFormed' : r'.WellFormed
  right : ∀ h resource, r.get? h = some resource → ∃ h', r.Paired r' h h'
  left : ∀ h' resource', r'.get? h' = some resource' → ∃ h, r.Paired r' h h'

/-- What the same operation does to similar registries: they are similar afterwards, with the same
partners as before. -/
structure Follows (r r' r₁ r₁' : Registry) : Prop where
  similar : r₁.Similar r₁'
  paired : ∀ h h', r.Paired r' h h' → r₁.Paired r₁' h h'

/-- Partners stay partners as long as both keep their outlines. -/
theorem Paired.of_sameOutline {h h' : Handle} (hh : r.Paired r' h h') (hsame : r.SameOutline r₁)
    (hsame' : r'.SameOutline r₁') : r₁.Paired r₁' h h' := by
  obtain ⟨resource, resource', hget, hget', houtline⟩ := hh
  obtain ⟨new, hnew, heq⟩ := hsame.symm.exists_live hget
  obtain ⟨new', hnew', heq'⟩ := hsame'.symm.exists_live hget'
  exact ⟨new, new', hnew, hnew', heq.trans (houtline.trans heq'.symm)⟩

theorem exists_of_get?_set {h k : Handle} {new found : Resource}
    (hfound : (r.set h new).get? k = some found) : ∃ old, r.get? k = some old := by
  rw [get?_set] at hfound
  split at hfound
  · obtain ⟨old, hold, -⟩ := Option.map_eq_some_iff.1 hfound
    exact ⟨old, hold⟩
  · exact ⟨found, hfound⟩

/-- Partners stay partners when two of them are changed to the same outline. -/
theorem Paired.set (hunique : Relator.BiUnique (r.Paired r')) {h h' k k' : Handle}
    (hh : r.Paired r' h h') {new new' : Resource} (houtline : new.outline = new'.outline)
    (hk : r.Paired r' k k') :
    Paired (r.set h new) (r'.set h' new') k k' := by
  have heq := Relator.rel_eq hunique hh hk
  obtain ⟨b, b', hb, hb', hsame⟩ := hk
  by_cases hhk : h = k
  · refine ⟨new, new', ?_, ?_, houtline⟩
    · rw [get?_set, if_pos hhk, hb]
      rfl
    · rw [get?_set, if_pos (heq.1 hhk), hb']
      rfl
  · refine ⟨b, b', ?_, ?_, hsame⟩
    · rw [get?_set, if_neg hhk, hb]
    · rw [get?_set, if_neg fun hhk' => hhk (heq.2 hhk'), hb']

/-- Registries without resources are similar. -/
theorem WellFormed.similar_of_none (hr : r.WellFormed) (hr' : r'.WellFormed)
    (hnone : ∀ h, r.get? h = none) (hnone' : ∀ h, r'.get? h = none) : r.Similar r' where
  wellFormed := hr
  wellFormed' := hr'
  right := fun h resource hget => by rw [hnone] at hget; cases hget
  left := fun h resource hget => by rw [hnone'] at hget; cases hget

namespace Similar

variable (hs : r.Similar r')

include hs

theorem follows_self : Follows r r' r r' := ⟨hs, fun _ _ h => h⟩

theorem biUnique : Relator.BiUnique (r.Paired r') := biUnique_paired hs.wellFormed hs.wellFormed'

/-- A name is free in both, or names partners. -/
theorem handle?_cases (name : String) :
    r.handle? name = none ∧ r'.handle? name = none ∨
      ∃ h h' resource resource', r.handle? name = some h ∧ r'.handle? name = some h' ∧
        r.get? h = some resource ∧ r'.get? h' = some resource' ∧
        resource.outline = resource'.outline := by
  cases hfound : r.handle? name with
  | none =>
      refine .inl ⟨rfl, Option.eq_none_iff_forall_ne_some.2 fun h' hfound' => ?_⟩
      obtain ⟨resource', hget', hname⟩ := (hs.wellFormed'.indexed name h').1 hfound'
      obtain ⟨h, resource, found, hget, hfound', houtline⟩ := hs.left h' resource' hget'
      obtain rfl : resource' = found := Option.some.inj (hget'.symm.trans hfound')
      exact hs.wellFormed.name_ne_of_free hfound hget ((Resource.name_of_outline houtline).trans hname)
  | some h =>
      obtain ⟨resource, hget, rfl⟩ := (hs.wellFormed.indexed name h).1 hfound
      obtain ⟨h', found, resource', hfound', hget', houtline⟩ := hs.right h resource hget
      obtain rfl : resource = found := Option.some.inj (hget.symm.trans hfound')
      refine .inr ⟨h, h', resource, resource', rfl, ?_, hget, hget', houtline⟩
      rw [Resource.name_of_outline houtline]
      exact hs.wellFormed'.handle?_eq hget'

/-- Registries that keep their partners stay similar, if what is new in one of them has a partner. -/
theorem follows_of_paired (hwf : r₁.WellFormed) (hwf' : r₁'.WellFormed)
    (hpaired : ∀ h h', r.Paired r' h h' → r₁.Paired r₁' h h')
    (hright : ∀ h new, r₁.get? h = some new →
      (∃ old, r.get? h = some old) ∨ ∃ h', r₁.Paired r₁' h h')
    (hleft : ∀ h' new', r₁'.get? h' = some new' →
      (∃ old', r'.get? h' = some old') ∨ ∃ h, r₁.Paired r₁' h h') : Follows r r' r₁ r₁' := by
  refine ⟨⟨hwf, hwf', fun h new hnew => ?_, fun h' new' hnew' => ?_⟩, hpaired⟩
  · obtain ⟨old, hold⟩ | hpartner := hright h new hnew
    · obtain ⟨h', hh⟩ := hs.right h old hold
      exact ⟨h', hpaired h h' hh⟩
    · exact hpartner
  · obtain ⟨old', hold'⟩ | hpartner := hleft h' new' hnew'
    · obtain ⟨h, hh⟩ := hs.left h' old' hold'
      exact ⟨h, hpaired h h' hh⟩
    · exact hpartner

/-- Changes that keep the outlines keep the partners. -/
theorem of_sameOutline (hwf : r₁.WellFormed) (hwf' : r₁'.WellFormed) (hsame : r.SameOutline r₁)
    (hsame' : r'.SameOutline r₁') : Follows r r' r₁ r₁' := by
  refine hs.follows_of_paired hwf hwf' (fun _ _ hh => hh.of_sameOutline hsame hsame') ?_ ?_
  · intro h new hnew
    obtain ⟨old, hold, -⟩ := hsame.exists_live hnew
    exact .inl ⟨old, hold⟩
  · intro h' new' hnew'
    obtain ⟨old', hold', -⟩ := hsame'.exists_live hnew'
    exact .inl ⟨old', hold'⟩

/-- A resource that is registered in both is its own partner. -/
theorem register {resource : Resource} (hcoherent : resource.IsCoherent) :
    Follows r r' (r.register resource).value.2 (r'.register resource).value.2 := by
  have hwf := (hs.wellFormed.evolves_register hcoherent).wellFormed
  have hwf' := (hs.wellFormed'.evolves_register hcoherent).wellFormed
  obtain ⟨hfree, hfree'⟩ | ⟨h, h', old, old', hfound, hfound', -⟩ := hs.handle?_cases resource.name
  · rw [register_of_free hfree] at hwf ⊢
    rw [register_of_free hfree'] at hwf' ⊢
    have hnew : Paired (r.add resource).2 (r'.add resource).2 (r.add resource).1
        (r'.add resource).1 :=
      ⟨resource, resource, by rw [hs.wellFormed.get?_add, if_pos rfl],
        by rw [hs.wellFormed'.get?_add, if_pos rfl], rfl⟩
    refine hs.follows_of_paired hwf hwf' ?_ ?_ ?_
    · rintro h h' ⟨a, a', hget, hget', houtline⟩
      exact ⟨a, a', hs.wellFormed.get?_add_of_live resource hget,
        hs.wellFormed'.get?_add_of_live resource hget', houtline⟩
    · intro h found hget
      rw [hs.wellFormed.get?_add] at hget
      split at hget
      · next heq => exact .inr ⟨_, heq ▸ hnew⟩
      · exact .inl ⟨found, hget⟩
    · intro h' found hget
      rw [hs.wellFormed'.get?_add] at hget
      split at hget
      · next heq => exact .inr ⟨_, heq ▸ hnew⟩
      · exact .inl ⟨found, hget⟩
  · rw [register_of_taken hfound, register_of_taken hfound']
    exact hs.follows_self

theorem importResource {name : String} {info : ResourceInfo} {object : DeviceObject}
    {handover : Handover} (hcoherent : (Resource.imported name info object handover).IsCoherent) :
    Follows r r' (r.importResource name info object handover).value.2
      (r'.importResource name info object handover).value.2 := by
  unfold Registry.importResource
  split
  · exact hs.follows_self
  · exact hs.register hcoherent

theorem createResource (name : String) (info : ResourceInfo) (persistent : Bool) :
    Follows r r' (r.createResource name info persistent).value.2
      (r'.createResource name info persistent).value.2 :=
  hs.register fun _ _ heq => by cases heq

/-- Partners become outputs together. -/
theorem markOutput (name : String) :
    Follows r r' (r.markOutput name).value.2 (r'.markOutput name).value.2 := by
  have hwf := (hs.wellFormed.evolves_markOutput name).wellFormed
  have hwf' := (hs.wellFormed'.evolves_markOutput name).wellFormed
  unfold Registry.markOutput at hwf hwf' ⊢
  obtain ⟨hfree, hfree'⟩ | ⟨h, h', a, a', hfound, hfound', hget, hget', houtline⟩ :=
    hs.handle?_cases name
  · rw [hfree] at hwf ⊢
    rw [hfree'] at hwf' ⊢
    exact hs.follows_self
  · have hnamed : r.named? name = some a := by rw [named?, hfound]; exact hget
    have hnamed' : r'.named? name = some a' := by rw [named?, hfound']; exact hget'
    rw [hfound, hnamed] at hwf ⊢
    rw [hfound', hnamed'] at hwf' ⊢
    refine hs.follows_of_paired hwf hwf' (fun k k' hk => ?_)
      (fun k found hk => .inl (exists_of_get?_set hk)) fun k' found hk' => .inl (exists_of_get?_set hk')
    refine Paired.set hs.biUnique ⟨a, a', hget, hget', houtline⟩ ?_ hk
    show { a.outline with isOutput := true } = { a'.outline with isOutput := true }
    rw [houtline]

theorem update {op : Operation} (hkeeps : Graph.keepsPlan op = true) :
    Follows r r' (r.perform op).value.2 (r'.perform op).value.2 :=
  hs.of_sameOutline (hs.wellFormed.evolves_perform op).wellFormed
    (hs.wellFormed'.evolves_perform op).wellFormed (r.sameOutline_perform hkeeps)
    (r'.sameOutline_perform hkeeps)

/-- **The same operation keeps partners partners.** -/
theorem perform (op : Operation) : Follows r r' (r.perform op).value.2 (r'.perform op).value.2 := by
  cases op with
  | importImage name image view info initial final =>
      refine hs.importResource fun object handover heq => ?_
      cases heq
      exact ⟨rfl, fun h => by cases h⟩
  | importBuffer name buffer info initial final =>
      refine hs.importResource fun object handover heq => ?_
      cases heq
      exact ⟨rfl, fun _ => ⟨rfl, rfl⟩⟩
  | createImage name info persistent => exact hs.createResource name _ persistent
  | createBuffer name info persistent => exact hs.createResource name _ persistent
  | markOutput name => exact hs.markOutput name
  | updateImage name image view => exact hs.update rfl
  | updateBuffer name buffer => exact hs.update rfl

end Similar

end Registry

/-! ## Drafts -/

theorem PassAccess.Matches.mono {R S : Handle → Handle → Prop} (h : ∀ k k', R k k' → S k k')
    {a a' : PassAccess} (ha : a.Matches R a') : a.Matches S a' :=
  ⟨h _ _ ha.resource, ha.usage, ha.isWrite⟩

theorem Pass.Matches.mono {R S : Handle → Handle → Prop} (h : ∀ k k', R k k' → S k k') {p p' : Pass}
    (hp : p.Matches R p') : p.Matches S p' :=
  ⟨hp.kind, hp.accesses.imp fun _ _ ha => ha.mono h⟩

theorem PassAccess.biUnique_matches {R : Handle → Handle → Prop} (hR : Relator.BiUnique R) :
    Relator.BiUnique (PassAccess.Matches R) := by
  constructor
  · rintro ⟨h, usage, isWrite⟩ ⟨k, usage', isWrite'⟩ b ⟨hh, rfl, rfl⟩ ⟨hk, rfl, rfl⟩
    obtain rfl : h = k := hR.1 hh hk
    rfl
  · rintro b ⟨h, usage, isWrite⟩ ⟨k, usage', isWrite'⟩ ⟨hh, rfl, rfl⟩ ⟨hk, rfl, rfl⟩
    obtain rfl : h = k := hR.2 hh hk
    rfl

namespace PassDraft

variable {d d' : PassDraft}

/-- Drafts of one kind with the same accesses to partners in similar registries. -/
structure Similar (d d' : PassDraft) : Prop where
  registry : d.registry.Similar d'.registry
  kind : d.kind = d'.kind
  accesses : List.Forall₂ (PassAccess.Matches (d.registry.Paired d'.registry)) d.accesses d'.accesses

/-- What the same step does to similar drafts. -/
structure Follows (d d' d₁ d₁' : PassDraft) : Prop where
  similar : d₁.Similar d₁'
  paired : ∀ h h', d.registry.Paired d'.registry h h' → d₁.registry.Paired d₁'.registry h h'

theorem Follows.trans {d₁ d₁' d₂ d₂' : PassDraft} (h : Follows d d' d₁ d₁')
    (h' : Follows d₁ d₁' d₂ d₂') : Follows d d' d₂ d₂' :=
  ⟨h'.similar, fun k k' hk => h'.paired k k' (h.paired k k' hk)⟩

namespace Similar

variable (hs : d.Similar d')

include hs

theorem follows_self : Follows d d' d d' := ⟨hs, fun _ _ h => h⟩

theorem record {a a' : PassAccess} (ha : a.Matches (d.registry.Paired d'.registry) a') :
    Follows d d' (d.record a) (d'.record a') := by
  have hmem : a ∈ d.accesses ↔ a' ∈ d'.accesses :=
    List.rel_mem (PassAccess.biUnique_matches hs.registry.biUnique) ha hs.accesses
  unfold PassDraft.record
  by_cases h : a ∈ d.accesses
  · rw [if_pos h, if_pos (hmem.1 h)]
    exact hs.follows_self
  · rw [if_neg h, if_neg fun h' => h (hmem.2 h')]
    exact ⟨⟨hs.registry, hs.kind, List.rel_append hs.accesses (.cons ha .nil)⟩, fun _ _ h => h⟩

/-- The same access is accepted by both or rejected by both. -/
theorem access (name : String) (usage : Usage) (isWrite : Bool) :
    Follows d d' (d.access name usage isWrite).value.2 (d'.access name usage isWrite).value.2 ∧
      ((d.access name usage isWrite).value.1 = .null ↔
        (d'.access name usage isWrite).value.1 = .null) := by
  obtain ⟨hfree, hfree'⟩ | ⟨h, h', a, a', hfound, hfound', hget, hget', houtline⟩ :=
    hs.registry.handle?_cases name
  · rw [access_value_of_unknown hfree, access_value_of_unknown hfree']
    exact ⟨hs.follows_self, Iff.rfl⟩
  · have hkind := Resource.kind_of_outline houtline
    cases hallowed : usage.allows isWrite && usage.supports a.kind with
    | false =>
        rw [access_value_of_rejected hfound hget hallowed,
          access_value_of_rejected hfound' hget' (hkind ▸ hallowed)]
        exact ⟨hs.follows_self, Iff.rfl⟩
    | true =>
        have hne : ∀ {r : Registry} {k : Handle} {b : Resource}, r.get? k = some b → k ≠ .null := by
          rintro r k b hb rfl
          cases hb
        rw [access_value_of_accepted hfound hget hallowed,
          access_value_of_accepted hfound' hget' (hkind ▸ hallowed)]
        exact ⟨hs.record ⟨⟨a, a', hget, hget', houtline⟩, rfl, rfl⟩,
          iff_of_false (hne hget) (hne hget')⟩

theorem readWrite (name : String) (usage : Usage) :
    Follows d d' (d.readWrite name usage).value.2 (d'.readWrite name usage).value.2 := by
  obtain ⟨hread, hnull⟩ := hs.access name usage false
  have hvalue : ∀ d : PassDraft, (d.readWrite name usage).value.2 =
      if (d.access name usage false).value.1 = .null then (d.access name usage false).value.2
      else ((d.access name usage false).value.2.access name usage true).value.2 := by
    intro d
    simp only [PassDraft.readWrite, Logged.value_bind]
    split <;> rfl
  rw [hvalue, hvalue]
  by_cases h : (d.access name usage false).value.1 = .null
  · rw [if_pos h, if_pos (hnull.1 h)]
    exact hread
  · rw [if_neg h, if_neg fun h' => h (hnull.2 h')]
    exact hread.trans (hread.similar.access name usage true).1

theorem createResource (name : String) (info : ResourceInfo) (persistent : Bool) :
    Follows d d' (d.createResource name info persistent).value.2
      (d'.createResource name info persistent).value.2 := by
  have hregistry := hs.registry.createResource name info persistent
  exact ⟨⟨hregistry.similar, hs.kind,
    hs.accesses.imp fun _ _ ha => ha.mono hregistry.paired⟩, hregistry.paired⟩

theorem perform (act : Act) :
    Follows d d' (d.perform act).value.2 (d'.perform act).value.2 := by
  cases act with
  | read name usage => exact (hs.access name usage false).1
  | write name usage => exact (hs.access name usage true).1
  | readWrite name usage => exact hs.readWrite name usage
  | createImage name info persistent => exact hs.createResource name _ persistent
  | createBuffer name info persistent => exact hs.createResource name _ persistent

/-- **The same steps lead to similar drafts.** -/
theorem performAll (acts : List Act) :
    Follows d d' (d.performAll acts).value.2 (d'.performAll acts).value.2 := by
  induction acts generalizing d d' with
  | nil => exact hs.follows_self
  | cons act rest ih =>
      have hfirst := hs.perform act
      exact hfirst.trans (ih hfirst.similar)

end Similar

end PassDraft

end FrameGraph

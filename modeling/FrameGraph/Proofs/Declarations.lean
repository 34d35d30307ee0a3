import FrameGraph.Graph
import Mathlib.Data.List.Nodup

/-!
# Declarations

Resources are registered and passes are declared in any order and with any number of rejected
attempts.  `Declared` collects the registries and lists of passes that arise in this way, through any
number of `clear`s.

Principal statements: `Registry.WellFormed.evolves_perform` — the index of names keeps in step with the
table of slots, and a live handle stays live and keeps naming a resource of the same description — and
`Declared.isValid`: every access of a declared pass names a live resource whose kind has the usage, in a
direction that the usage allows.
-/

set_option autoImplicit false

namespace FrameGraph

/-! ## Slot tables -/

namespace SlotTable

variable {α : Type} {m : SlotTable α}

/-- The stack of vacant slots lists each slot once, and only slots that are there and empty. -/
structure WellFormed (m : SlotTable α) : Prop where
  nodup : m.vacant.Nodup
  unfilled : ∀ i ∈ m.vacant, ∃ generation, m.slots[i]? = some ⟨generation, none⟩

theorem wellFormed_empty : (empty : SlotTable α).WellFormed where
  nodup := List.nodup_nil
  unfilled := fun i hi => by cases hi

/-- A value goes into a new slot or into a vacant one. -/
theorem WellFormed.insert_cases (hm : m.WellFormed) (a : α) :
    m.vacant = [] ∧ m.insert a = m.push a ∨
      ∃ index rest generation, m.vacant = index :: rest ∧
        m.slots[index]? = some ⟨generation, none⟩ ∧
        m.insert a =
          (.slot index generation, ⟨m.slots.set index ⟨generation, some a⟩, rest⟩) := by
  cases hvacant : m.vacant with
  | nil => exact .inl ⟨rfl, by simp only [insert, hvacant]⟩
  | cons index rest =>
      obtain ⟨generation, hslot⟩ := hm.unfilled index (by rw [hvacant]; exact List.mem_cons_self)
      refine .inr ⟨index, rest, generation, rfl, hslot, ?_⟩
      simp only [insert, hvacant, hslot]

theorem WellFormed.insert (hm : m.WellFormed) (a : α) : (m.insert a).2.WellFormed := by
  rcases hm.insert_cases a with ⟨hnil, hinsert⟩ | ⟨index, rest, g, hvacant, hslot, hinsert⟩
  · rw [hinsert]
    refine ⟨by rw [push, hnil]; exact List.nodup_nil, fun i hi => ?_⟩
    rw [push, hnil] at hi
    cases hi
  · obtain ⟨hnew, hrest⟩ := List.nodup_cons.1 (hvacant ▸ hm.nodup)
    rw [hinsert]
    refine ⟨hrest, fun i hi => ?_⟩
    have hne : index ≠ i := fun h => hnew (h ▸ hi)
    rw [List.getElem?_set, if_neg hne]
    exact hm.unfilled i (by rw [hvacant]; exact List.mem_cons_of_mem _ hi)

/-- The handle of an inserted value is a fresh one, and the other handles name what they named. -/
theorem WellFormed.get?_insert (hm : m.WellFormed) (a : α) (h : Handle) :
    m.get? (m.insert a).1 = none ∧
      (m.insert a).2.get? h = if (m.insert a).1 = h then some a else m.get? h := by
  rcases hm.insert_cases a with ⟨-, hinsert⟩ | ⟨index, rest, g, -, hslot, hinsert⟩
  · rw [hinsert]
    refine ⟨by simp [push, get?], ?_⟩
    cases h with
    | null => simp [push, get?]
    | slot i generation =>
        rcases Nat.lt_trichotomy i m.slots.length with hlt | rfl | hgt
        · simp [push, get?, List.getElem?_append_left hlt, Nat.ne_of_gt hlt]
        · simp [push, get?]
        · have hnone : (m.slots ++ [⟨0, some a⟩])[i]? = none :=
            List.getElem?_eq_none (by simp; omega)
          simp [push, get?, hnone, List.getElem?_eq_none (Nat.le_of_lt hgt), Nat.ne_of_lt hgt]
  · have hlt : index < m.slots.length := (List.getElem?_eq_some_iff.1 hslot).1
    rw [hinsert]
    refine ⟨by simp [get?, hslot], ?_⟩
    cases h with
    | null => simp [get?]
    | slot i generation =>
        by_cases hi : index = i
        · subst hi
          simp only [get?, List.getElem?_set_self hlt, hslot, Handle.slot.injEq, true_and]
          split <;> rfl
        · simp [get?, hi]

/-- A handle names the content of its slot, if that is at the generation of the handle. -/
theorem get?_slot_eq_some_iff {index generation : Nat} {a : α} :
    m.get? (.slot index generation) = some a ↔ m.slots[index]? = some ⟨generation, some a⟩ := by
  cases hslot : m.slots[index]? with
  | none => simp [get?, hslot]
  | some slot =>
      obtain ⟨g, content⟩ := slot
      by_cases hg : g = generation <;> simp [get?, hslot, hg]

/-- Replacing a value is seen under its own handle only. -/
theorem get?_set (m : SlotTable α) (h k : Handle) (a : α) :
    (m.set h a).get? k = if h = k then (m.get? k).map fun _ => a else m.get? k := by
  cases h with
  | null =>
      by_cases hk : Handle.null = k
      · subst hk; rfl
      · simp [set, hk]
  | slot index generation =>
      cases hget : m.get? (.slot index generation) with
      | none =>
          simp only [set, hget]
          split
          · next hk => rw [← hk, hget]; rfl
          · rfl
      | some b =>
          have hold := get?_slot_eq_some_iff.1 hget
          have hlt : index < m.slots.length := (List.getElem?_eq_some_iff.1 hold).1
          simp only [set, hget]
          cases k with
          | null => simp [get?]
          | slot i g =>
              by_cases hi : index = i
              · subst hi
                by_cases hg : generation = g
                · simp [get?, List.getElem?_set_self hlt, hold, hg]
                · simp [get?, List.getElem?_set_self hlt, hold, hg]
              · simp [get?, hi]

theorem WellFormed.set (hm : m.WellFormed) (h : Handle) (a : α) : (m.set h a).WellFormed := by
  cases h with
  | null => exact hm
  | slot index generation =>
      cases hget : m.get? (.slot index generation) with
      | none => simpa only [SlotTable.set, hget] using hm
      | some b =>
          simp only [SlotTable.set, hget]
          refine ⟨hm.nodup, fun i hi => ?_⟩
          obtain ⟨g, hslot⟩ := hm.unfilled i hi
          have hne : index ≠ i := by
            rintro rfl
            rw [get?_slot_eq_some_iff.1 hget] at hslot
            cases hslot
          exact ⟨g, by rw [List.getElem?_set, if_neg hne]; exact hslot⟩

/-- A removed value is gone, and the other handles name what they named. -/
theorem get?_remove (m : SlotTable α) (h k : Handle) :
    (m.remove h).get? k = if h = k then none else m.get? k := by
  cases h with
  | null =>
      by_cases hk : Handle.null = k
      · subst hk; rfl
      · simp [remove, hk]
  | slot index generation =>
      cases hget : m.get? (.slot index generation) with
      | none =>
          simp only [remove, hget]
          split
          · next hk => rw [← hk, hget]
          · rfl
      | some b =>
          have hold := get?_slot_eq_some_iff.1 hget
          have hlt : index < m.slots.length := (List.getElem?_eq_some_iff.1 hold).1
          simp only [remove, hget]
          cases k with
          | null => simp [get?]
          | slot i g =>
              by_cases hi : index = i
              · subst hi
                by_cases hg : generation = g
                · simp [get?, List.getElem?_set_self hlt, hg]
                · simp [get?, List.getElem?_set_self hlt, hold, hg]
              · simp [get?, hi]

theorem WellFormed.remove (hm : m.WellFormed) (h : Handle) : (m.remove h).WellFormed := by
  cases h with
  | null => exact hm
  | slot index generation =>
      cases hget : m.get? (.slot index generation) with
      | none => simpa only [SlotTable.remove, hget] using hm
      | some b =>
          have hold := get?_slot_eq_some_iff.1 hget
          have hlt : index < m.slots.length := (List.getElem?_eq_some_iff.1 hold).1
          simp only [SlotTable.remove, hget]
          have hnew : index ∉ m.vacant := by
            intro hmem
            obtain ⟨g, hempty⟩ := hm.unfilled index hmem
            rw [hold] at hempty
            cases hempty
          refine ⟨List.nodup_cons.2 ⟨hnew, hm.nodup⟩, fun i hi => ?_⟩
          rcases List.mem_cons.1 hi with rfl | hi
          · exact ⟨generation + 1, List.getElem?_set_self hlt⟩
          · have hne : index ≠ i := fun heq => hnew (heq ▸ hi)
            obtain ⟨g, hempty⟩ := hm.unfilled i hi
            exact ⟨g, by rw [List.getElem?_set, if_neg hne]; exact hempty⟩

private theorem mem_filledFrom {start i : Nat} {slots : List (Slot α)} :
    i ∈ filledFrom start slots ↔
      ∃ k generation a, i = start + k ∧ slots[k]? = some ⟨generation, some a⟩ := by
  induction slots generalizing start with
  | nil => simp [filledFrom]
  | cons slot rest ih =>
      obtain ⟨g, content⟩ := slot
      have tail : i ∈ filledFrom (start + 1) rest ↔
          ∃ k generation a, i = start + (k + 1) ∧
            (⟨g, content⟩ :: rest)[k + 1]? = some ⟨generation, some a⟩ := by
        rw [ih]
        simp only [List.getElem?_cons_succ, Nat.add_assoc, Nat.add_comm 1]
      cases content with
      | none =>
          simp only [filledFrom]
          rw [tail]
          constructor
          · rintro ⟨k, hk⟩
            exact ⟨k + 1, hk⟩
          · rintro ⟨k, g', a, rfl, hk⟩
            cases k with
            | zero => simp at hk
            | succ k => exact ⟨k, g', a, rfl, hk⟩
      | some b =>
          simp only [filledFrom, List.mem_cons]
          rw [tail]
          constructor
          · rintro (rfl | ⟨k, hk⟩)
            · exact ⟨0, g, b, rfl, rfl⟩
            · exact ⟨k + 1, hk⟩
          · rintro ⟨k, g', a, rfl, hk⟩
            cases k with
            | zero => exact .inl rfl
            | succ k => exact .inr ⟨k, g', a, rfl, hk⟩

private theorem nodup_filledFrom (start : Nat) (slots : List (Slot α)) :
    (filledFrom start slots).Nodup := by
  induction slots generalizing start with
  | nil => exact List.nodup_nil
  | cons slot rest ih =>
      unfold filledFrom
      split
      · exact ih (start + 1)
      · refine List.nodup_cons.2 ⟨fun hmem => ?_, ih (start + 1)⟩
        obtain ⟨k, -, -, hk, -⟩ := mem_filledFrom.1 hmem
        omega

theorem WellFormed.clear (hm : m.WellFormed) : m.clear.WellFormed where
  nodup := by
    refine List.nodup_append.2 ⟨List.nodup_reverse.2 (nodup_filledFrom 0 m.slots), hm.nodup, ?_⟩
    rintro i hi j hj rfl
    obtain ⟨k, g, a, hk, hfilled⟩ := mem_filledFrom.1 (List.mem_reverse.1 hi)
    obtain ⟨g', hempty⟩ := hm.unfilled i hj
    rw [Nat.zero_add] at hk
    rw [hk, hfilled] at hempty
    cases hempty
  unfilled := by
    intro i hi
    have hslot : ∃ slot, m.slots[i]? = some slot := by
      rcases List.mem_append.1 hi with hi | hi
      · obtain ⟨k, g, a, hk, hfilled⟩ := mem_filledFrom.1 (List.mem_reverse.1 hi)
        rw [Nat.zero_add] at hk
        exact ⟨_, by rw [hk]; exact hfilled⟩
      · obtain ⟨g, hempty⟩ := hm.unfilled i hi
        exact ⟨_, hempty⟩
    obtain ⟨⟨g, content⟩, hslot⟩ := hslot
    cases content with
    | none => exact ⟨g, by simp [SlotTable.clear, hslot, Slot.vacated]⟩
    | some a => exact ⟨g + 1, by simp [SlotTable.clear, hslot, Slot.vacated]⟩

theorem WellFormed.mapValues (hm : m.WellFormed) (f : Handle → α → α) :
    (m.mapValues f).WellFormed where
  nodup := hm.nodup
  unfilled := by
    intro i hi
    obtain ⟨g, hempty⟩ := hm.unfilled i hi
    exact ⟨g, by simp [SlotTable.mapValues, hempty]⟩

end SlotTable

/-! ## Registries -/

/-- The object of an imported resource is of the kind of the resource, and a buffer is handed over in
no layout. -/
def Resource.IsCoherent (resource : Resource) : Prop :=
  ∀ object handover, resource.source = .imported object handover →
    object.kind = resource.kind ∧
      (resource.kind = .buffer →
        handover.initial.layout = .undefined ∧ handover.final.layout = .undefined)

namespace Registry

/-- What a handle names in the first registry, it names in the second with the same description. -/
def Keeps (r r' : Registry) : Prop :=
  ∀ h resource, r.get? h = some resource →
    ∃ resource', r'.get? h = some resource' ∧ resource'.info = resource.info

theorem Keeps.refl (r : Registry) : r.Keeps r := fun _ resource hr => ⟨resource, hr, rfl⟩

theorem Keeps.trans {r r' r'' : Registry} (h : r.Keeps r') (h' : r'.Keeps r'') : r.Keeps r'' := by
  intro k resource hr
  obtain ⟨resource', hr', hinfo⟩ := h k resource hr
  obtain ⟨resource'', hr'', hinfo'⟩ := h' k resource' hr'
  exact ⟨resource'', hr'', hinfo'.trans hinfo⟩

/-- The table of slots is in order, and so are the resources in it.  The index agrees with the table: a
name leads to a handle exactly if that names a resource of the name. -/
structure WellFormed (r : Registry) : Prop where
  table : r.table.WellFormed
  coherent : ∀ h resource, r.get? h = some resource → resource.IsCoherent
  indexed : ∀ name h, r.handle? name = some h ↔
    ∃ resource, r.get? h = some resource ∧ resource.name = name

/-- Without names and without resources, there is nothing to agree on. -/
theorem indexed_of_none {r : Registry} (hnames : ∀ name, r.handle? name = none)
    (hget : ∀ h, r.get? h = none) (name : String) (h : Handle) :
    r.handle? name = some h ↔ ∃ resource, r.get? h = some resource ∧ resource.name = name := by
  simp [hnames, hget]

theorem wellFormed_empty : empty.WellFormed where
  table := SlotTable.wellFormed_empty
  coherent := fun h resource hr => by
    rw [get?, empty, SlotTable.get?_empty] at hr
    cases hr
  indexed := indexed_of_none NameIndex.get?_empty SlotTable.get?_empty

theorem WellFormed.clear {r : Registry} (hr : r.WellFormed) : r.clear.WellFormed where
  table := hr.table.clear
  coherent := fun h resource hget => by
    rw [get?, Registry.clear, SlotTable.get?_clear] at hget
    cases hget
  indexed := indexed_of_none NameIndex.get?_empty (SlotTable.get?_clear r.table)

/-- No two handles name resources of one name: the index leads to one of them only. -/
theorem WellFormed.names {r : Registry} (hr : r.WellFormed) (h k : Handle)
    (resource resource' : Resource) (hget : r.get? h = some resource)
    (hget' : r.get? k = some resource') (hname : resource.name = resource'.name) : h = k := by
  have hfound := (hr.indexed resource.name h).2 ⟨resource, hget, rfl⟩
  have hfound' := (hr.indexed resource.name k).2 ⟨resource', hget', hname.symm⟩
  exact Option.some.inj (hfound.symm.trans hfound')

/-- What an operation that does not clear the registry does to it. -/
structure Evolves (r r' : Registry) : Prop where
  wellFormed : r'.WellFormed
  keeps : r.Keeps r'

theorem WellFormed.evolves_self {r : Registry} (hr : r.WellFormed) : r.Evolves r := ⟨hr, .refl r⟩

theorem Evolves.trans {r r' r'' : Registry} (h : r.Evolves r') (h' : r'.Evolves r'') :
    r.Evolves r'' :=
  ⟨h'.wellFormed, h.keeps.trans h'.keeps⟩

theorem WellFormed.handle?_eq {r : Registry} (hr : r.WellFormed) {h : Handle} {resource : Resource}
    (hget : r.get? h = some resource) : r.handle? resource.name = some h :=
  (hr.indexed resource.name h).2 ⟨resource, hget, rfl⟩

/-- A free name is the name of no resource. -/
theorem WellFormed.name_ne_of_free {r : Registry} (hr : r.WellFormed) {name : String}
    (free : r.handle? name = none) {h : Handle} {resource : Resource}
    (hget : r.get? h = some resource) : resource.name ≠ name := by
  rintro rfl
  rw [hr.handle?_eq hget] at free
  cases free

theorem WellFormed.named?_eq {r : Registry} (hr : r.WellFormed) {h : Handle} {resource : Resource}
    (hget : r.get? h = some resource) : r.named? resource.name = some resource := by
  rw [named?, hr.handle?_eq hget]
  exact hget

/-- The handle of an added resource named nothing before. -/
theorem WellFormed.get?_add_fresh {r : Registry} (hr : r.WellFormed) (a : Resource) :
    r.get? (r.add a).1 = none :=
  (hr.table.get?_insert a .null).1

theorem WellFormed.get?_add {r : Registry} (hr : r.WellFormed) (a : Resource) (k : Handle) :
    (r.add a).2.get? k = if (r.add a).1 = k then some a else r.get? k :=
  (hr.table.get?_insert a k).2

theorem WellFormed.get?_add_of_live {r : Registry} (hr : r.WellFormed) (a : Resource) {k : Handle}
    {old : Resource} (hget : r.get? k = some old) : (r.add a).2.get? k = some old := by
  rw [hr.get?_add, if_neg, hget]
  rintro rfl
  rw [hr.get?_add_fresh] at hget
  cases hget

theorem handle?_add (r : Registry) (a : Resource) (name : String) :
    (r.add a).2.handle? name = if a.name = name then some (r.add a).1 else r.handle? name :=
  NameIndex.get?_insert r.names a.name name (r.add a).1

theorem get?_set (r : Registry) (h k : Handle) (new : Resource) :
    (r.set h new).get? k = if h = k then (r.get? k).map fun _ => new else r.get? k :=
  SlotTable.get?_set r.table h k new

/-- **Adding a resource under a free name keeps the index in step with the table.** -/
theorem WellFormed.indexed_add {r : Registry} (hr : r.WellFormed) {a : Resource}
    (free : r.handle? a.name = none) (name : String) (h : Handle) :
    (r.add a).2.handle? name = some h ↔
      ∃ resource, (r.add a).2.get? h = some resource ∧ resource.name = name := by
  rw [handle?_add, hr.get?_add]
  by_cases hname : a.name = name
  · rw [if_pos hname]
    subst hname
    by_cases hh : (r.add a).1 = h
    · simp [hh]
    · -- Nothing else has the name, since it was free.
      rw [if_neg hh]
      refine iff_of_false (fun heq => hh (Option.some.inj heq)) ?_
      rintro ⟨resource, hget, heq⟩
      exact hr.name_ne_of_free free hget heq
  · rw [if_neg hname, hr.indexed]
    by_cases hh : (r.add a).1 = h
    · subst hh
      simp [hr.get?_add_fresh, hname]
    · rw [if_neg hh]

theorem WellFormed.evolves_register {r : Registry} (hr : r.WellFormed) {resource : Resource}
    (hcoherent : resource.IsCoherent) : r.Evolves (r.register resource).value.2 := by
  cases hfree : r.handle? resource.name with
  | some h =>
      rw [register_of_taken hfree]
      exact hr.evolves_self
  | none =>
      rw [register_of_free hfree]
      refine ⟨⟨hr.table.insert resource, fun h found hfound => ?_, hr.indexed_add hfree⟩,
        fun h old hold => ⟨old, hr.get?_add_of_live resource hold, rfl⟩⟩
      rw [hr.get?_add] at hfound
      split at hfound
      · cases hfound
        exact hcoherent
      · exact hr.coherent h found hfound

/-- **Resources that keep their names keep the index in step with the table.** -/
theorem WellFormed.indexed_of_map {r r' : Registry} (hr : r.WellFormed) (hnames : r'.names = r.names)
    {f : Handle → Resource → Resource} (hget : ∀ h, r'.get? h = (r.get? h).map (f h))
    (hf : ∀ h resource, r.get? h = some resource → (f h resource).name = resource.name)
    (name : String) (h : Handle) :
    r'.handle? name = some h ↔ ∃ resource, r'.get? h = some resource ∧ resource.name = name := by
  rw [handle?, hnames, hget]
  refine (hr.indexed name h).trans ?_
  constructor
  · rintro ⟨resource, hold, hname⟩
    exact ⟨f h resource, by rw [hold]; rfl, (hf h resource hold).trans hname⟩
  · rintro ⟨new, hnew, hname⟩
    obtain ⟨resource, hold, rfl⟩ := Option.map_eq_some_iff.1 hnew
    exact ⟨resource, hold, (hf h resource hold).symm.trans hname⟩

/-- Replacing a resource by one of the same name and description. -/
theorem WellFormed.evolves_set {r : Registry} (hr : r.WellFormed) {h : Handle}
    {resource resource' : Resource} (hget : r.get? h = some resource)
    (hname : resource'.name = resource.name) (hinfo : resource'.info = resource.info)
    (hcoherent : resource'.IsCoherent) : r.Evolves (r.set h resource') := by
  have hmap : ∀ k, (r.set h resource').get? k =
      (r.get? k).map fun old => if h = k then resource' else old := by
    intro k
    rw [get?_set]
    split
    · rfl
    · simp
  refine ⟨⟨hr.table.set h resource', fun k found hfound => ?_, hr.indexed_of_map rfl hmap ?_⟩,
    fun k old hold => ?_⟩
  · rw [get?_set] at hfound
    split at hfound
    · obtain ⟨-, -, rfl⟩ := Option.map_eq_some_iff.1 hfound
      exact hcoherent
    · exact hr.coherent k found hfound
  · intro k old hold
    split
    · next hk =>
        subst hk
        rw [hname, Option.some.inj (hget.symm.trans hold)]
    · rfl
  · rw [get?_set, hold]
    by_cases hk : h = k
    · subst hk
      have heq : resource = old := Option.some.inj (hget.symm.trans hold)
      exact ⟨resource', by rw [if_pos rfl]; rfl, by rw [hinfo, heq]⟩
    · exact ⟨old, by rw [if_neg hk], rfl⟩

/-- A name leads to the resource that its handle names. -/
theorem get?_of_named? {r : Registry} {name : String} {h : Handle} {resource : Resource}
    (hh : r.handle? name = some h) (hn : r.named? name = some resource) :
    r.get? h = some resource := by
  rw [named?, hh] at hn
  exact hn

section Operations

variable {r : Registry} (hr : r.WellFormed)

include hr

theorem WellFormed.evolves_markOutput (name : String) :
    r.Evolves (r.markOutput name).value.2 := by
  unfold markOutput
  split
  · next h resource hh hn =>
      have hget := get?_of_named? hh hn
      have hnew : Resource.IsCoherent { resource with isOutput := true } :=
        hr.coherent h resource hget
      exact hr.evolves_set hget rfl rfl hnew
  · exact hr.evolves_self

theorem WellFormed.evolves_updateObject (name : String) (object : DeviceObject) :
    r.Evolves (r.updateObject name object).value.2 := by
  unfold updateObject
  split
  · exact hr.evolves_self
  · split
    · next h resource hh hn =>
        have hget := get?_of_named? hh hn
        split
        · next current handover hsource =>
            split
            · next hkind =>
                have hold := hr.coherent h resource hget current handover hsource
                have hnew : Resource.IsCoherent
                    { resource with source := .imported object handover } := by
                  intro object' handover' heq
                  cases heq
                  exact ⟨hkind ▸ hold.1, hold.2⟩
                exact hr.evolves_set hget rfl rfl hnew
            · exact hr.evolves_self
        · exact hr.evolves_self
    · exact hr.evolves_self

theorem WellFormed.evolves_importResource {name : String} {info : ResourceInfo}
    {object : DeviceObject} {handover : Handover}
    (hcoherent : (Resource.imported name info object handover).IsCoherent) :
    r.Evolves (r.importResource name info object handover).value.2 := by
  unfold importResource
  split
  · exact hr.evolves_self
  · exact hr.evolves_register hcoherent

theorem WellFormed.evolves_createResource (name : String) (info : ResourceInfo)
    (persistent : Bool) : r.Evolves (r.createResource name info persistent).value.2 :=
  hr.evolves_register fun _ _ heq => by cases heq

/-- **Live handles survive**: every operation leaves them the description of their resource. -/
theorem WellFormed.evolves_perform (op : Operation) : r.Evolves (r.perform op).value.2 := by
  cases op with
  | importImage name image view info initial final =>
      refine hr.evolves_importResource fun object handover heq => ?_
      cases heq
      exact ⟨rfl, fun h => by cases h⟩
  | importBuffer name buffer info initial final =>
      refine hr.evolves_importResource fun object handover heq => ?_
      cases heq
      exact ⟨rfl, fun _ => ⟨rfl, rfl⟩⟩
  | createImage name info persistent => exact hr.evolves_createResource name _ persistent
  | createBuffer name info persistent => exact hr.evolves_createResource name _ persistent
  | markOutput name => exact hr.evolves_markOutput name
  | updateImage name image view => exact hr.evolves_updateObject name _
  | updateBuffer name buffer => exact hr.evolves_updateObject name _

theorem WellFormed.evolves_setLifetimes (lifetimeOf : Handle → Option Lifetime) :
    r.Evolves (r.setLifetimes lifetimeOf) := by
  have hmap : ∀ h, (r.setLifetimes lifetimeOf).get? h =
      (r.get? h).map fun resource => { resource with lifetime := lifetimeOf h } :=
    fun h => SlotTable.get?_mapValues _ r.table h
  refine ⟨⟨SlotTable.WellFormed.mapValues hr.table
    fun h resource => { resource with lifetime := lifetimeOf h }, fun h found hfound => ?_,
    hr.indexed_of_map rfl hmap fun _ _ _ => rfl⟩, fun h resource hget => ?_⟩
  · rw [hmap] at hfound
    obtain ⟨resource, hget, rfl⟩ := Option.map_eq_some_iff.1 hfound
    exact hr.coherent h resource hget
  · exact ⟨{ resource with lifetime := lifetimeOf h }, by rw [hmap, hget]; rfl, rfl⟩

end Operations

end Registry

/-! ## Accesses -/

/-- The access names a live resource, whose kind has the usage, in a direction that the usage
allows. -/
def PassAccess.IsValid (registry : Registry) (a : PassAccess) : Prop :=
  ∃ resource, registry.get? a.resource = some resource ∧
    a.usage.allows a.isWrite = true ∧ a.usage.supports resource.kind = true

theorem PassAccess.IsValid.supports {registry : Registry} {a : PassAccess} (ha : a.IsValid registry)
    {resource : Resource} (hget : registry.get? a.resource = some resource) :
    a.usage.supports resource.kind = true := by
  obtain ⟨found, hfound, -, hsupports⟩ := ha
  obtain rfl : resource = found := Option.some.inj (hget.symm.trans hfound)
  exact hsupports

theorem PassAccess.IsValid.of_keeps {r r' : Registry} (h : r.Keeps r') {a : PassAccess}
    (ha : a.IsValid r) : a.IsValid r' := by
  obtain ⟨resource, hr, hallows, hsupports⟩ := ha
  obtain ⟨resource', hr', hinfo⟩ := h a.resource resource hr
  refine ⟨resource', hr', hallows, ?_⟩
  rw [Resource.kind, hinfo]
  exact hsupports

namespace PassDraft

/-- A step of a declaration keeps the registry's resources, and adds only valid accesses. -/
structure Evolves (d d' : PassDraft) : Prop where
  registry : d.registry.Evolves d'.registry
  accesses : ∀ a ∈ d'.accesses, a ∈ d.accesses ∨ a.IsValid d'.registry

theorem Evolves.trans {d d' d'' : PassDraft} (h : d.Evolves d') (h' : d'.Evolves d'') :
    d.Evolves d'' := by
  refine ⟨h.registry.trans h'.registry, fun a ha => ?_⟩
  rcases h'.accesses a ha with ha | ha
  · rcases h.accesses a ha with ha | ha
    · exact .inl ha
    · exact .inr (ha.of_keeps h'.registry.keeps)
  · exact .inr ha

section Steps

variable {d : PassDraft} (hd : d.registry.WellFormed)

include hd

theorem evolves_self : d.Evolves d := ⟨hd.evolves_self, fun _ ha => .inl ha⟩

theorem evolves_record {a : PassAccess} (ha : a.IsValid d.registry) : d.Evolves (d.record a) := by
  unfold record
  split
  · exact evolves_self hd
  · refine ⟨hd.evolves_self, fun b hb => ?_⟩
    rcases List.mem_append.1 hb with hb | hb
    · exact .inl hb
    · rw [List.mem_singleton.1 hb]
      exact .inr ha

theorem evolves_access (name : String) (usage : Usage) (isWrite : Bool) :
    d.Evolves (d.access name usage isWrite).value.2 := by
  unfold access
  split
  · exact evolves_self hd
  · split
    · exact evolves_self hd
    · next resource hget =>
        split
        · next hok =>
            rw [Bool.and_eq_true] at hok
            exact evolves_record hd ⟨resource, hget, hok.1, hok.2⟩
        · exact evolves_self hd

theorem evolves_readWrite (name : String) (usage : Usage) :
    d.Evolves (d.readWrite name usage).value.2 := by
  have hread := evolves_access hd name usage false
  simp only [readWrite, Logged.value_bind]
  split
  · exact hread
  · exact hread.trans (evolves_access hread.registry.wellFormed name usage true)

theorem evolves_createResource (name : String) (info : ResourceInfo) (persistent : Bool) :
    d.Evolves (d.createResource name info persistent).value.2 :=
  ⟨hd.evolves_createResource name info persistent, fun _ ha => .inl ha⟩

theorem evolves_perform (act : Act) : d.Evolves (d.perform act).value.2 := by
  cases act with
  | read name usage => exact evolves_access hd name usage false
  | write name usage => exact evolves_access hd name usage true
  | readWrite name usage => exact evolves_readWrite hd name usage
  | createImage name info persistent => exact evolves_createResource hd name _ persistent
  | createBuffer name info persistent => exact evolves_createResource hd name _ persistent

/-- A whole declaration, by its steps. -/
theorem evolves_performAll (acts : List Act) : d.Evolves (d.performAll acts).value.2 := by
  induction acts generalizing d with
  | nil => exact evolves_self hd
  | cons act rest ih =>
      have hstep := evolves_perform hd act
      simp only [performAll, Logged.value_bind]
      exact hstep.trans (ih hstep.registry.wellFormed)

end Steps

end PassDraft

/-! ## Declared registries and passes -/

/-- The registries and passes that arise from declarations. -/
inductive Declared : Registry → List Pass → Prop
  | start : Declared .empty []
  | register {r : Registry} {passes : List Pass} (op : Registry.Operation) :
      Declared r passes → Declared (r.perform op).value.2 passes
  | addPass {r : Registry} {passes : List Pass} (name : String) (kind : PassKind)
      (acts : List Act) (callback : Option Callback) :
      Declared r passes →
        Declared (PassDraft.performAll ⟨name, kind, r, []⟩ acts).value.2.registry
          (passes ++ [(PassDraft.performAll ⟨name, kind, r, []⟩ acts).value.2.toPass callback])
  | setLifetimes {r : Registry} {passes : List Pass} (lifetimeOf : Handle → Option Lifetime) :
      Declared r passes → Declared (r.setLifetimes lifetimeOf) passes
  | clear {r : Registry} {passes : List Pass} : Declared r passes → Declared r.clear []

namespace Declared

variable {registry : Registry} {passes : List Pass}

theorem wellFormed (hd : Declared registry passes) : registry.WellFormed := by
  induction hd with
  | start => exact Registry.wellFormed_empty
  | register op _ ih => exact (ih.evolves_perform op).wellFormed
  | @addPass r _ name kind acts callback _ ih =>
      have hdraft : (⟨name, kind, r, []⟩ : PassDraft).registry.WellFormed := ih
      exact (PassDraft.evolves_performAll hdraft acts).registry.wellFormed
  | setLifetimes f _ ih => exact (ih.evolves_setLifetimes f).wellFormed
  | clear _ ih => exact ih.clear

/-- **Every access of a declared pass is valid.** -/
theorem isValid (hd : Declared registry passes) :
    ∀ p ∈ passes, ∀ a ∈ p.accesses, a.IsValid registry := by
  induction hd with
  | start => intro p hp; cases hp
  | register op hd ih =>
      intro p hp a ha
      exact (ih p hp a ha).of_keeps (hd.wellFormed.evolves_perform op).keeps
  | @addPass r _ name kind acts callback hd ih =>
      have hdraft : (⟨name, kind, r, []⟩ : PassDraft).registry.WellFormed := hd.wellFormed
      have hev := PassDraft.evolves_performAll hdraft acts
      intro p hp a ha
      rcases List.mem_append.1 hp with hp | hp
      · exact (ih p hp a ha).of_keeps hev.registry.keeps
      · rw [List.mem_singleton.1 hp] at ha
        exact (hev.accesses a ha).resolve_left List.not_mem_nil
  | setLifetimes f hd ih =>
      intro p hp a ha
      exact (ih p hp a ha).of_keeps (hd.wellFormed.evolves_setLifetimes f).keeps
  | clear => intro p hp; cases hp

end Declared

end FrameGraph

import FrameGraph.Proofs.Declarations

/-!
# Drafting passes

While a pass is drafted its list of accesses only grows at the end, and it never lists an access twice.
An act that is granted records all that it asks for.  One that is refused records nothing, with one
exception: the two halves of reading and writing are asked for one after the other, so if the usage
allows only the reading, then this is recorded although the null handle is answered.

Principal statements: `PassDraft.extends_performAll`, `PassDraft.readWrite_cases`, and
`drafted_all_or_nothing`.
-/

set_option autoImplicit false

namespace FrameGraph

/-- The accesses that an act asks for: the name of the resource, the usage and the directions. -/
def Act.request? : Act → Option (String × Usage × List Bool)
  | .read name usage => some (name, usage, [false])
  | .write name usage => some (name, usage, [true])
  | .readWrite name usage => some (name, usage, [false, true])
  | .createImage _ _ _ | .createBuffer _ _ _ => none

namespace PassDraft

variable {d d' d'' : PassDraft} {a : PassAccess} {name : String} {usage : Usage} {isWrite : Bool}

@[simp] theorem registry_record (d : PassDraft) (a : PassAccess) :
    (d.record a).registry = d.registry := by
  unfold record
  split <;> rfl

theorem mem_record : a ∈ (d.record a).accesses := by
  unfold record
  split
  · next hmem => exact hmem
  · exact List.mem_append_right _ List.mem_cons_self

/-! ## The list of accesses -/

/-- The accesses of the first draft come first in the second, which lists none of them again. -/
structure Extends (d d' : PassDraft) : Prop where
  keeps : d.accesses <+: d'.accesses
  nodup : d.accesses.Nodup → d'.accesses.Nodup

theorem Extends.refl (d : PassDraft) : d.Extends d := ⟨List.prefix_refl _, id⟩

theorem Extends.trans (h : d.Extends d') (h' : d'.Extends d'') : d.Extends d'' :=
  ⟨h.keeps.trans h'.keeps, fun hnd => h'.nodup (h.nodup hnd)⟩

theorem extends_record (d : PassDraft) (a : PassAccess) : d.Extends (d.record a) := by
  unfold record
  split
  · exact .refl d
  · next hnew =>
      refine ⟨List.prefix_append _ _, fun hnd => ?_⟩
      rw [List.nodup_append]
      refine ⟨hnd, List.nodup_singleton a, ?_⟩
      rintro b hb c hc rfl
      exact hnew (List.mem_singleton.1 hc ▸ hb)

/-- An access is granted if a resource of the name is there whose kind has the usage, in a direction that
the usage allows; otherwise nothing changes. -/
theorem access_cases (d : PassDraft) (name : String) (usage : Usage) (isWrite : Bool) :
    (∃ h x, d.registry.handle? name = some h ∧ d.registry.get? h = some x ∧
      usage.supports x.kind = true ∧ usage.allows isWrite = true ∧
      (d.access name usage isWrite).value = (h, d.record ⟨h, usage, isWrite⟩)) ∨
    (∀ h x, d.registry.handle? name = some h → d.registry.get? h = some x →
      usage.supports x.kind = true → usage.allows isWrite = false) ∧
      (d.access name usage isWrite).value = (.null, d) := by
  cases hfound : d.registry.handle? name with
  | none => exact .inr ⟨fun h x hh => (by cases hh), access_value_of_unknown hfound usage isWrite⟩
  | some h =>
      cases hget : d.registry.get? h with
      | none =>
          refine .inr ⟨?_, access_value_of_dangling hfound hget usage isWrite⟩
          rintro k y hk hy -
          cases hk
          rw [hget] at hy
          cases hy
      | some x =>
          cases hok : usage.allows isWrite && usage.supports x.kind with
          | true =>
              have hvalue := access_value_of_accepted hfound hget hok
              rw [Bool.and_eq_true] at hok
              exact .inl ⟨h, x, rfl, hget, hok.2, hok.1, hvalue⟩
          | false =>
              refine .inr ⟨?_, access_value_of_rejected hfound hget hok⟩
              rintro k y hk hy hsupports
              cases hk
              obtain rfl : x = y := Option.some.inj (hget.symm.trans hy)
              simpa [hsupports] using hok

theorem value_readWrite (d : PassDraft) (name : String) (usage : Usage) :
    (d.readWrite name usage).value =
      if (d.access name usage false).value.1 = .null then (d.access name usage false).value
      else ((d.access name usage false).value.2.access name usage true).value := by
  simp only [readWrite, Logged.value_bind]
  split <;> rfl

/-- The reading is recorded if it is granted, and only then the writing is asked for. -/
theorem readWrite_cases (d : PassDraft) (name : String) (usage : Usage) :
    (∃ h x, d.registry.handle? name = some h ∧ d.registry.get? h = some x ∧
      usage.supports x.kind = true ∧ usage.allows false = true ∧ usage.allows true = true ∧
      (d.readWrite name usage).value =
        (h, (d.record ⟨h, usage, false⟩).record ⟨h, usage, true⟩)) ∨
    (∃ h x, d.registry.handle? name = some h ∧ d.registry.get? h = some x ∧
      usage.supports x.kind = true ∧ usage.allows false = true ∧ usage.allows true = false ∧
      (d.readWrite name usage).value = (.null, d.record ⟨h, usage, false⟩)) ∨
    (∀ h x, d.registry.handle? name = some h → d.registry.get? h = some x →
      usage.supports x.kind = true → usage.allows false = false) ∧
      (d.readWrite name usage).value = (.null, d) := by
  rcases access_cases d name usage false with
    ⟨h, x, hfound, hget, hsupports, hallows, hvalue⟩ | ⟨hnone, hvalue⟩
  · have hne : h ≠ .null := by
      rintro rfl
      cases hget
    rw [value_readWrite, hvalue, if_neg hne]
    rcases access_cases (d.record ⟨h, usage, false⟩) name usage true with
      ⟨k, y, hfound', -, -, hallows', hvalue'⟩ | ⟨hnone, hvalue'⟩
    · rw [registry_record, hfound] at hfound'
      cases hfound'
      exact .inl ⟨h, x, hfound, hget, hsupports, hallows, hallows', hvalue'⟩
    · rw [registry_record] at hnone
      exact .inr (.inl ⟨h, x, hfound, hget, hsupports, hallows, hnone h x hfound hget hsupports, hvalue'⟩)
  · refine .inr (.inr ⟨hnone, ?_⟩)
    rw [value_readWrite, hvalue, if_pos rfl]

/-! ## Acts -/

theorem extends_access (d : PassDraft) (name : String) (usage : Usage) (isWrite : Bool) :
    d.Extends (d.access name usage isWrite).value.2 := by
  rcases access_cases d name usage isWrite with ⟨h, x, -, -, -, -, hvalue⟩ | ⟨-, hvalue⟩
  · rw [hvalue]
    exact extends_record d _
  · rw [hvalue]
    exact .refl d

/-- An act adds to the list of accesses at its end, and nothing that is listed. -/
theorem extends_perform (d : PassDraft) (act : Act) : d.Extends (d.perform act).value.2 := by
  cases act with
  | read name usage => exact extends_access d name usage false
  | write name usage => exact extends_access d name usage true
  | readWrite name usage =>
      simp only [perform, value_readWrite]
      split
      · exact extends_access d name usage false
      · exact (extends_access d name usage false).trans (extends_access _ name usage true)
  | createImage | createBuffer => exact ⟨List.prefix_refl _, id⟩

theorem extends_performAll (d : PassDraft) (acts : List Act) :
    d.Extends (d.performAll acts).value.2 := by
  induction acts generalizing d with
  | nil => exact .refl d
  | cons act rest ih =>
      simp only [performAll, Logged.value_bind]
      exact (extends_perform d act).trans (ih _)

/-- The act asks to read and to write something that is there and has the usage, but this allows the
reading only; and the reading is not listed yet. -/
def Halves (d : PassDraft) (act : Act) : Prop :=
  ∃ name usage h x, act = .readWrite name usage ∧ d.registry.handle? name = some h ∧
    d.registry.get? h = some x ∧ usage.supports x.kind = true ∧ usage.allows false = true ∧
    usage.allows true = false ∧ ⟨h, usage, false⟩ ∉ d.accesses

/-- What an act answers, and what it does to the list of accesses. -/
structure Answers (d : PassDraft) (act : Act) : Prop where
  /-- Creating a resource does nothing to the list. -/
  created : act.request? = none → (d.perform act).value.2.accesses = d.accesses
  /-- If the null handle is answered, the list is as it was, unless half of the act was granted. -/
  refused : (d.perform act).value.1 = .null →
    ((d.perform act).value.2.accesses = d.accesses ↔ ¬ d.Halves act)
  /-- Any other answer is the handle of the named resource, and all that was asked for is listed. -/
  granted : ∀ name usage directions, act.request? = some (name, usage, directions) →
    (d.perform act).value.1 ≠ .null →
      d.registry.handle? name = some (d.perform act).value.1 ∧
      (∀ isWrite ∈ directions,
        ⟨(d.perform act).value.1, usage, isWrite⟩ ∈ (d.perform act).value.2.accesses) ∧
      d.accesses <+: (d.perform act).value.2.accesses

namespace Answers

variable {act : Act}

theorem of_granted {h : Handle} {directions : List Bool}
    (hrequest : act.request? = some (name, usage, directions))
    (hvalue : (d.perform act).value = (h, d')) (hfound : d.registry.handle? name = some h)
    (hne : h ≠ .null) (hlisted : ∀ isWrite ∈ directions, ⟨h, usage, isWrite⟩ ∈ d'.accesses) :
    d.Answers act where
  created := fun hnone => by rw [hrequest] at hnone; cases hnone
  refused := fun hnull => by rw [hvalue] at hnull; exact absurd hnull hne
  granted := by
    intro name' usage' directions' hrequest' _
    rw [hrequest] at hrequest'
    cases hrequest'
    have hkeeps := (extends_perform d act).keeps
    rw [hvalue] at hkeeps ⊢
    exact ⟨hfound, hlisted, hkeeps⟩

theorem of_refused (hvalue : (d.perform act).value = (.null, d)) (hnot : ¬ d.Halves act) :
    d.Answers act where
  created := fun _ => by rw [hvalue]
  refused := fun _ => by rw [hvalue]; exact iff_of_true rfl hnot
  granted := fun _ _ _ _ hne => by rw [hvalue] at hne; exact absurd rfl hne

/-- The reading was recorded, unless it was listed already. -/
theorem of_halved {h : Handle} {x : Resource}
    (hvalue : (d.readWrite name usage).value = (.null, d.record ⟨h, usage, false⟩))
    (hfound : d.registry.handle? name = some h) (hget : d.registry.get? h = some x)
    (hsupports : usage.supports x.kind = true) (hread : usage.allows false = true)
    (hwrite : usage.allows true = false) : d.Answers (.readWrite name usage) where
  created := fun hnone => by cases hnone
  refused := by
    intro _
    rw [perform, hvalue]
    constructor
    · rintro heq ⟨_, _, k, _, hact, hk, -, -, -, -, hnew⟩
      cases hact
      rw [hfound] at hk
      cases hk
      exact hnew (heq ▸ mem_record)
    · intro hnot
      have hlisted : ⟨h, usage, false⟩ ∈ d.accesses := by
        refine Classical.byContradiction fun hnew => hnot ?_
        exact ⟨name, usage, h, x, rfl, hfound, hget, hsupports, hread, hwrite, hnew⟩
      rw [record, if_pos hlisted]
  granted := fun _ _ _ _ hne => by rw [perform, hvalue] at hne; exact absurd rfl hne

/-- An act that asks for one direction is granted or refused as a whole. -/
theorem of_access (hperform : d.perform act = d.access name usage isWrite)
    (hrequest : act.request? = some (name, usage, [isWrite]))
    (hne : ∀ name usage, act ≠ .readWrite name usage) : d.Answers act := by
  rcases access_cases d name usage isWrite with ⟨h, x, hfound, hget, -, -, hvalue⟩ | ⟨-, hvalue⟩
  · refine of_granted hrequest (hperform ▸ hvalue) hfound (fun hnull => ?_) fun w hw => ?_
    · rw [hnull] at hget
      cases hget
    · rw [List.mem_singleton.1 hw]
      exact mem_record
  · refine of_refused (hperform ▸ hvalue) ?_
    rintro ⟨name, usage, h, x, hact, -⟩
    exact hne name usage hact

end Answers

/-- **An act is granted as a whole or refused**, but for one that asks to read and to write and is
granted the reading only. -/
theorem answers (d : PassDraft) (act : Act) : d.Answers act := by
  cases act with
  | read name usage => exact .of_access rfl rfl fun _ _ => Act.noConfusion
  | write name usage => exact .of_access rfl rfl fun _ _ => Act.noConfusion
  | readWrite name usage =>
      rcases readWrite_cases d name usage with
        ⟨h, x, hfound, hget, -, -, -, hvalue⟩ |
        ⟨h, x, hfound, hget, hsupports, hread, hwrite, hvalue⟩ | ⟨hnone, hvalue⟩
      · refine .of_granted rfl hvalue hfound (fun hnull => ?_) fun w hw => ?_
        · rw [hnull] at hget
          cases hget
        · cases w with
          | false => exact (extends_record _ _).keeps.subset mem_record
          | true => exact mem_record
      · exact .of_halved hvalue hfound hget hsupports hread hwrite
      · refine .of_refused hvalue ?_
        rintro ⟨_, _, h, x, hact, hfound, hget, hsupports, hread, -⟩
        cases hact
        rw [hnone h x hfound hget hsupports] at hread
        cases hread
  | createImage | createBuffer =>
      refine ⟨fun _ => rfl, fun _ => iff_of_true rfl ?_, fun _ _ _ hnone => by cases hnone⟩
      rintro ⟨_, _, _, _, hact, -⟩
      cases hact

end PassDraft

/-! ## Whole drafts -/

/-- **The list of accesses stays valid, and acts are all or nothing but for one case.**  Whatever has
been declared before, and after any acts on the draft of a pass: no access is listed twice, and each
names a live resource whose kind has the usage, in a direction that the usage allows.  If an act answers
the null handle, the list is as it was, unless the act asked to read and to write and only the reading
was granted; if it answers another handle, then this is the one of the named resource, all that was asked
for is listed, and the earlier accesses come first, in their order. -/
theorem drafted_all_or_nothing {registry : Registry} {passes : List Pass}
    (hd : Declared registry passes) (name : String) (kind : PassKind) (acts : List Act) :
    let d := (PassDraft.performAll ⟨name, kind, registry, []⟩ acts).value.2
    d.accesses.Nodup ∧ (∀ a ∈ d.accesses, a.IsValid d.registry) ∧ ∀ act, d.Answers act := by
  intro d
  have hdraft : (⟨name, kind, registry, []⟩ : PassDraft).registry.WellFormed := hd.wellFormed
  refine ⟨(PassDraft.extends_performAll _ acts).nodup List.nodup_nil, fun a ha => ?_, d.answers⟩
  exact ((PassDraft.evolves_performAll hdraft acts).accesses a ha).resolve_left List.not_mem_nil

/-- A registry with a picture and a list of commands. -/
def studio : Registry :=
  (((Registry.empty.perform (.createImage "picture" {} false)).value.2).perform
    (.createBuffer "commands" { size := 64 } false)).value.2

/-- A draft that samples the picture. -/
def tinted : PassDraft :=
  (PassDraft.performAll ⟨"tint", .compute, studio, []⟩ [.read "picture" .shaderRead]).value.2

theorem declared_studio : Declared studio [] :=
  .register (.createBuffer "commands" { size := 64 } false)
    (.register (.createImage "picture" {} false) .start)

/-- The picture is also read and written in place, and the commands cannot be written as such. -/
theorem drafted_all_or_nothing_tinted :
    Declared studio [] ∧ tinted.accesses.Nodup ∧
      (tinted.perform (.readWrite "picture" .shaderWrite)).value.1 = .slot 0 0 ∧
      ⟨.slot 0 0, .shaderWrite, true⟩ ∈
        (tinted.perform (.readWrite "picture" .shaderWrite)).value.2.accesses ∧
      (tinted.perform (.write "commands" .indirectBuffer)).value.2.accesses = tinted.accesses := by
  obtain ⟨hnd, -, hanswers⟩ :=
    drafted_all_or_nothing declared_studio "tint" .compute [.read "picture" .shaderRead]
  have hnonnull : (tinted.perform (.readWrite "picture" .shaderWrite)).value.1 ≠ .null := by decide
  have hnull : (tinted.perform (.write "commands" .indirectBuffer)).value.1 = .null := by decide
  have hgranted := (hanswers (.readWrite "picture" .shaderWrite)).granted _ _ _ rfl hnonnull
  refine ⟨declared_studio, hnd, by decide, hgranted.2.1 true (by decide), ?_⟩
  refine ((hanswers (.write "commands" .indirectBuffer)).refused hnull).2 ?_
  rintro ⟨_, _, _, _, hact, -⟩
  cases hact

/-- Commands that are to be read and written are recorded as read, although the null handle is
answered. -/
theorem not_all_or_nothing :
    ¬ ∀ (registry : Registry) (passes : List Pass) (name : String) (kind : PassKind) (acts : List Act)
        (act : Act), Declared registry passes →
      let d := (PassDraft.performAll ⟨name, kind, registry, []⟩ acts).value.2
      (d.perform act).value.1 = .null → (d.perform act).value.2.accesses = d.accesses := by
  intro hall
  have hnull : (tinted.perform (.readWrite "commands" .indirectBuffer)).value.1 = .null := by decide
  have hsame := hall studio [] "tint" .compute [.read "picture" .shaderRead]
    (.readWrite "commands" .indirectBuffer) declared_studio hnull
  exact absurd hsame (by decide)

end FrameGraph

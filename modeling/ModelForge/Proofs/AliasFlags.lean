/-
The flags of a type that is written by an alias.

Whether a property may be null and whether it is an option are flags of its kind.  They are read
off what the kind shows, and a standard kind shows the name of an alias with the nullability that
one expansion gives:

* `Context.Classifies.isNullable_eq`, `Context.Classifies.isOption_of_standard` — where the head of
  a type is no alias, the kind is as nullable as the type is written, and a standard kind is an
  option if that is the name of the class;
* `DeclarationIndex.Unfolds.nullable` — unfolding adds nullability and takes none away;
* `PropertyKind.isNullable_role`, `PropertyKind.isOption_role` — of a kind that is not standard
  the flags belong to its role, which unfolding keeps.

The main statement is `Context.flags_of_unfolds`.  So the flags are those of the unfolded type
unless the kind is standard: `Context.flags_lost` is an alias of an alias that loses the
nullability, and an alias of an option that is no option.
-/
import ModelForge.Proofs.AliasUnfolding
import ModelForge.Proofs.Decoding

namespace ModelForge

/-! ### Flags of kinds -/

namespace PropertyKind

theorem isNullable_role {kind : PropertyKind} (h : kind.isStandard = false) :
    kind.role.isNullable = kind.isNullable := by
  cases kind with
  | standard => cases h
  | _ => rfl

theorem isOption_role {kind : PropertyKind} (h : kind.isStandard = false) (option : String) :
    kind.role.isOption option = kind.isOption option := by
  cases kind with
  | standard => cases h
  | _ => rfl

/-- A type of a class is as nullable as its name is. -/
theorem isNullable_ofType (m : Markers) (type : TypeName) (kinds : List (Option PropertyKind)) :
    (ofType m type kinds).isNullable = type.nullable := by
  unfold ofType
  split
  · rename_i container inner _
    cases container <;> cases inner <;> rfl
  · rfl

/-- A type of a class shows its name where it is standard. -/
theorem ofType_eq_standard {m : Markers} {type : TypeName} {kinds : List (Option PropertyKind)}
    (h : (ofType m type kinds).isStandard = true) : ofType m type kinds = standard type kinds := by
  unfold ofType at h ⊢
  split
  · rename_i container inner heq
    simp only [heq] at h
    cases container <;> cases inner <;> first | rfl | cases h
  · rfl

end PropertyKind

/-! ### Flags of types -/

namespace DeclarationIndex

variable {idx : DeclarationIndex} {scope : Option Scope}

/-- An alias passes on the nullability of the reference. -/
theorem nullable_expand (a : AliasDecl) {r : TypeRef} (h : r.nullable = true) :
    (a.expand r).nullable = true := by
  simp [AliasDecl.expand, h]

/-- A type that is written nullable stays so when it is unfolded. -/
theorem Unfolds.nullable : ∀ {t t' : TypeRef}, idx.Unfolds scope t t' →
    t.nullable = true → t'.nullable = true
  | _, _, .keep _, h => h
  | _, _, .replace _ ht, h => ht.nullable (nullable_expand _ h)

/-- A reference to an alias is followed to what it stands for. -/
def HeadStep (idx : DeclarationIndex) (scope : Option Scope) (t t' : TypeRef) : Prop :=
  ∃ a, idx.resolve t.name scope = .ofAlias a ∧ a.expand t = t'

/-- The types that are met where references to aliases are followed, the type itself first. -/
def Meets (idx : DeclarationIndex) (scope : Option Scope) : TypeRef → TypeRef → Prop :=
  Relation.ReflTransGen (idx.HeadStep scope)

/-- What an alias is unfolded to, if it is no alias itself, its expansion is unfolded to. -/
theorem Unfolds.of_alias {r e : TypeRef} {a : AliasDecl} (h : idx.Unfolds scope r e)
    (hr : idx.resolve r.name scope = .ofAlias a)
    (hhead : ∀ b, idx.resolve e.name scope ≠ .ofAlias b) : idx.Unfolds scope (a.expand r) e := by
  cases h with
  | keep => exact absurd hr (hhead a)
  | replace hr' ht =>
    cases hr.symm.trans hr'
    exact ht

/-- The end of an unfolding is an unfolding of all that is met on the way. -/
theorem Unfolds.of_meets {r t e : TypeRef} (h : idx.Unfolds scope r e)
    (hhead : ∀ b, idx.resolve e.name scope ≠ .ofAlias b) (hmeets : idx.Meets scope r t) :
    idx.Unfolds scope t e := by
  induction hmeets with
  | refl => exact h
  | tail _ hstep ih =>
    obtain ⟨a, hr, rfl⟩ := hstep
    exact ih.of_alias hr hhead

/-- The last type that is met differs from the end of an unfolding in its arguments only. -/
theorem Unfolds.exists_meets : ∀ {t e : TypeRef}, idx.Unfolds scope t e →
    (∀ b, idx.resolve e.name scope ≠ .ofAlias b) →
      ∃ last, idx.Meets scope t last ∧ last.nullable = e.nullable
  | _, _, .keep _, _ => ⟨_, .refl, rfl⟩
  | _, _, .replace hr ht, hhead => by
    obtain ⟨last, hmeets, hnullable⟩ := ht.exists_meets hhead
    exact ⟨last, .head ⟨_, hr, rfl⟩ hmeets, hnullable⟩

/-- An unfolded type is nullable if one of the types that are met is. -/
theorem Unfolds.nullable_iff {r e : TypeRef} (h : idx.Unfolds scope r e)
    (hhead : ∀ b, idx.resolve e.name scope ≠ .ofAlias b) :
    e.nullable = true ↔ ∃ t, idx.Meets scope r t ∧ t.nullable = true := by
  constructor
  · intro hnullable
    obtain ⟨last, hmeets, hlast⟩ := h.exists_meets hhead
    exact ⟨last, hmeets, hlast.trans hnullable⟩
  · rintro ⟨t, hmeets, hnullable⟩
    exact (h.of_meets hhead hmeets).nullable hnullable

end DeclarationIndex

namespace Context

open DeclarationIndex PropertyKind

variable {ctx : Context} {scope : Option Scope}

/-- Where the head of a type is no alias, the kind is as nullable as the type. -/
theorem Classifies.isNullable_eq {t : TypeRef} {kind : PropertyKind}
    (h : ctx.Classifies scope t kind)
    (hhead : ∀ a, ctx.index.resolve t.name scope ≠ .ofAlias a) : kind.isNullable = t.nullable := by
  cases h with
  | model => rfl
  | value hr _ hvalue =>
    exact congrArg TypeName.nullable (wrapper_of_validatedValue hr hvalue).1
  | plain => exact isNullable_ofType _ _ _
  | aliased hr | aliasedStandard hr => exact absurd hr (hhead _)

/-- Where the head of a type is no alias, a standard kind shows its class. -/
theorem Classifies.isOption_of_standard {t : TypeRef} {kind : PropertyKind}
    (h : ctx.Classifies scope t kind)
    (hhead : ∀ a, ctx.index.resolve t.name scope ≠ .ofAlias a)
    (hstandard : kind.isStandard = true) (option : String) :
    kind.isOption option = ((ctx.baseName scope t.name).canonicalName == option) := by
  cases h with
  | model | value => cases hstandard
  | plain =>
    rw [ofType_eq_standard hstandard]
    rfl
  | aliased hr | aliasedStandard hr => exact absurd hr (hhead _)

/-- A standard kind that is written by an alias shows the alias, as nullable as one expansion
makes it. -/
theorem Classifies.of_alias_standard {r : TypeRef} {kind : PropertyKind} {a : AliasDecl}
    (h : ctx.Classifies scope r kind) (hr : ctx.index.resolve r.name scope = .ofAlias a)
    (hstandard : kind.isStandard = true) :
    ∃ kinds, kind = .standard ((TypeName.ofAlias a).withNullable (a.expand r).nullable) kinds := by
  obtain ⟨name, arguments, nullable⟩ := r
  obtain ⟨target, -, ⟨hspecial, rfl⟩ | ⟨-, kinds, -, rfl⟩⟩ := h.of_alias hr
  · cases target with
    | standard => cases hspecial
    | _ => cases hstandard
  · exact ⟨kinds, rfl⟩

/-- **The flags of a type that is written by an alias.**  A reference to an alias is classified,
and so is what it is unfolded to, with no alias at its head.  The unfolded type is nullable if the
reference or something that is met on the way is written nullable, and the reference is never
nullable where the unfolded type is not.  If one of the kinds is not standard, neither is the
other, and both flags agree.  If they are standard, then the reference is only as nullable as one
expansion makes it, and it is an option only by the name of the alias. -/
theorem flags_of_unfolds {r e : TypeRef} {a : AliasDecl} {cache cache' : ResolutionCache}
    {kind kind' : PropertyKind} (hr : ctx.index.resolve r.name scope = .ofAlias a)
    (he : ctx.index.Unfolds scope r e) (hhead : ∀ b, ctx.index.resolve e.name scope ≠ .ofAlias b)
    (hcache : cache.Sound ctx) (hcache' : cache'.Sound ctx)
    (h : (ctx.classify scope r).result cache = .ok kind)
    (h' : (ctx.classify scope e).result cache' = .ok kind') :
    kind.isStandard = kind'.isStandard ∧
      (kind'.isNullable = true ↔ ∃ t, ctx.index.Meets scope r t ∧ t.nullable = true) ∧
      (kind.isNullable = true → kind'.isNullable = true) ∧
      (kind.isStandard = false → kind.isNullable = kind'.isNullable ∧
        ∀ option, kind.isOption option = kind'.isOption option) ∧
      (kind.isStandard = true → kind.isNullable = (a.expand r).nullable ∧
        ∀ option, kind.isOption option = ((TypeName.ofAlias a).canonicalName == option) ∧
          kind'.isOption option = ((ctx.baseName scope e.name).canonicalName == option)) := by
  have hkind := classifies_of_classify hcache h
  have hkind' := classifies_of_classify hcache' h'
  have hrole := hkind.role_eq he hkind'
  have hstandards := hkind.isStandard_eq he hkind'
  have hnullable' := hkind'.isNullable_eq hhead
  have hspecial : kind.isStandard = false → kind.isNullable = kind'.isNullable ∧
      ∀ option, kind.isOption option = kind'.isOption option := by
    intro hspecial
    have hspecial' : kind'.isStandard = false := hstandards ▸ hspecial
    refine ⟨?_, fun option => ?_⟩
    · rw [← isNullable_role hspecial, hrole, isNullable_role hspecial']
    · rw [← isOption_role hspecial, hrole, isOption_role hspecial']
  have hstandard : kind.isStandard = true → kind.isNullable = (a.expand r).nullable ∧
      ∀ option, kind.isOption option = ((TypeName.ofAlias a).canonicalName == option) ∧
        kind'.isOption option = ((ctx.baseName scope e.name).canonicalName == option) := by
    intro hstandard
    have hoption' := hkind'.isOption_of_standard hhead (hstandards ▸ hstandard)
    obtain ⟨kinds, rfl⟩ := hkind.of_alias_standard hr hstandard
    exact ⟨rfl, fun option => ⟨rfl, hoption' option⟩⟩
  refine ⟨hstandards, ?_, fun hnullable => ?_, hspecial, hstandard⟩
  · rw [hnullable']
    exact he.nullable_iff hhead
  · cases h : kind.isStandard with
    | false => rwa [← (hspecial h).1]
    | true =>
      -- one expansion is a part of the way to the unfolded type
      rw [(hstandard h).1] at hnullable
      rw [hnullable']
      exact (he.of_alias hr hhead).nullable hnullable

end Context

/-! ### Notes

A note stands for a text, and a text for a string that may be null.  `Maybe` is another name of
the option. -/

namespace Sample

def text : AliasDecl :=
  ⟨"t", "Text", [], .mk "kotlin.String" [] true, [], none⟩

def note : AliasDecl :=
  ⟨"t", "Note", [], .named "t.Text", [], none⟩

def maybe : AliasDecl :=
  ⟨"t", "Maybe", ["T"], applied "arrow.core.Option" [.named "T"], [], none⟩

def notes : Context :=
  ⟨⟨[text, note, maybe].map fun a => ⟨.ofAlias a, "t.json"⟩⟩, {}⟩

theorem unfolds_note :
    notes.index.Unfolds none (.named "t.Note") (.mk "kotlin.String" [] true) :=
  .replace (a := note) rfl (.replace (a := text) rfl (.keep .nil))

theorem unfolds_maybe :
    notes.index.Unfolds none (applied "t.Maybe" [.named "kotlin.String"])
      (applied "arrow.core.Option" [.named "kotlin.String"]) :=
  .replace (a := maybe) rfl (.refl _)

end Sample

theorem Context.flags_of_unfolds_note :
    Sample.notes.index.Unfolds none (.named "t.Note") (.mk "kotlin.String" [] true) ∧
    ∃ kind kind', (Sample.notes.classify none (.named "t.Note")).result {} = .ok kind ∧
      (Sample.notes.classify none (.mk "kotlin.String" [] true)).result {} = .ok kind' ∧
      kind.isStandard = kind'.isStandard ∧
      kind.isNullable = (Sample.note.expand (.named "t.Note")).nullable ∧
      (kind'.isNullable = true ↔ ∃ t, Sample.notes.index.Meets none (.named "t.Note") t ∧
        t.nullable = true) := by
  have hempty := ResolutionCache.sound_empty Sample.notes
  have hlabel : ((Sample.notes.classify none (.named "t.Note")).result {}).map (·.isStandard) =
      .ok true := by
    decide +kernel
  have hlabel' : ((Sample.notes.classify none (.mk "kotlin.String" [] true)).result {}).map
      (·.isStandard) = .ok true := by
    decide +kernel
  obtain ⟨kind, h, hstandard⟩ := Json.map_eq_ok_iff.1 hlabel
  obtain ⟨kind', h', -⟩ := Json.map_eq_ok_iff.1 hlabel'
  have hhead : ∀ b, Sample.notes.index.resolve "kotlin.String" none ≠ .ofAlias b := by
    intro b
    have hexternal : Sample.notes.index.resolve "kotlin.String" none = .external := rfl
    simp [hexternal]
  obtain ⟨hstandards, hmeets, -, -, hflags⟩ := Context.flags_of_unfolds (a := Sample.note) rfl
    Sample.unfolds_note hhead hempty hempty h h'
  exact ⟨Sample.unfolds_note, kind, kind', h, h', hstandards, (hflags hstandard).1, hmeets⟩

/-- Two references to aliases whose kinds do not have the flags of what they stand for. -/
theorem Context.flags_lost :
    Sample.notes.index.Unfolds none (.named "t.Note") (.mk "kotlin.String" [] true) ∧
    ((Sample.notes.classify none (.named "t.Note")).result {}).map (·.isNullable) = .ok false ∧
    ((Sample.notes.classify none (.mk "kotlin.String" [] true)).result {}).map (·.isNullable) =
      .ok true ∧
    Sample.notes.index.Unfolds none (Sample.applied "t.Maybe" [.named "kotlin.String"])
      (Sample.applied "arrow.core.Option" [.named "kotlin.String"]) ∧
    ((Sample.notes.classify none (Sample.applied "t.Maybe" [.named "kotlin.String"])).result
      {}).map (·.isOption Sample.notes.markers.option) = .ok false ∧
    ((Sample.notes.classify none (Sample.applied "arrow.core.Option" [.named
      "kotlin.String"])).result {}).map (·.isOption Sample.notes.markers.option) = .ok true := by
  refine ⟨Sample.unfolds_note, ?_, ?_, Sample.unfolds_maybe, ?_, ?_⟩
  · decide +kernel
  · decide +kernel
  · decide +kernel
  · decide +kernel

end ModelForge

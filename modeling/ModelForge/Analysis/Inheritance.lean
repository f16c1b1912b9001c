/-
The properties that a declaration has.

An interface inherits the properties of the interfaces it extends, directly or by way of
others.

* `Context.superInterfaces` lists these interfaces depth first in the order in which they are
  written, each once and after the ones that it extends itself;
* `Context.inheritedProperties` are their properties, of several with one name the first;
* `Context.declaredProperties` adds the declaration's own properties: one that overrides
  another of its name takes its place, and a new one goes to the end.
-/
import ModelForge.Analysis.Context

namespace ModelForge

/-- A property, and the class it is written in. -/
structure OwnedProperty where
  property : PropertyDecl
  owner : ClassDecl
deriving Repr, Inhabited

namespace OwnedProperty

/-- The properties of a class. -/
def ofClass (c : ClassDecl) : List OwnedProperty :=
  c.properties.map (⟨·, c⟩)

/-- The list with a property added, unless there is one of its name. -/
def keepFirst (ps : List OwnedProperty) (p : OwnedProperty) : List OwnedProperty :=
  if ps.any fun q => q.property.name == p.property.name then ps else ps ++ [p]

/-- The list with a property in the place of the first of its name, or at the end. -/
def override : List OwnedProperty → OwnedProperty → List OwnedProperty
  | [], p => [p]
  | q :: qs, p => if q.property.name = p.property.name then p :: qs else q :: override qs p

end OwnedProperty

/-- The interfaces that have been entered, and those that are finished, in order. -/
structure InterfaceWalk where
  entered : List String := []
  finished : List ClassDecl := []

namespace Context

/-- The interface that a supertype of a class refers to. -/
def superInterface? (ctx : Context) (c : ClassDecl) (superType : TypeRef) : Option ClassDecl :=
  match ctx.index.resolve superType.name (some c.scope) with
  | .ofClass parent => if parent.kind = .interface then some parent else none
  | _ => none

/-- The walk goes on over the interfaces that a class extends, so many levels deep. -/
def walkInterfaces (ctx : Context) : Nat → InterfaceWalk → ClassDecl → InterfaceWalk
  | 0, w, _ => w
  | depth + 1, w, c =>
    (c.superTypes.filterMap (ctx.superInterface? c)).foldl (fun w parent =>
      if parent.qualifiedName ∈ w.entered then w
      else
        let w' := walkInterfaces ctx depth
          { w with entered := parent.qualifiedName :: w.entered } parent
        { w' with finished := w'.finished ++ [parent] }) w

/-- The interfaces that a class extends, each after those that it extends itself. Every level
enters another class, so that there are no more levels than classes. -/
def superInterfaces (ctx : Context) (c : ClassDecl) : List ClassDecl :=
  (ctx.walkInterfaces ctx.index.classes.length {} c).finished

/-- The properties that a class inherits. Only interfaces do. -/
def inheritedProperties (ctx : Context) (c : ClassDecl) : List OwnedProperty :=
  if c.kind = .interface then
    ((ctx.superInterfaces c).flatMap OwnedProperty.ofClass).foldl OwnedProperty.keepFirst []
  else []

/-- The inherited properties and the class's own. -/
def declaredProperties (ctx : Context) (c : ClassDecl) : List OwnedProperty :=
  (OwnedProperty.ofClass c).foldl OwnedProperty.override (ctx.inheritedProperties c)

end Context

end ModelForge

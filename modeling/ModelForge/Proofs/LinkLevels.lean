/-
Types on the levels of a chain.

`Context.concrete` is given the links below a type as a stack.  The same can be done on one list of
links and the number of a level: level 0 is the companion, and a level above it is the class at the
end of so many links.  This takes subtractions and look-ups by position, which could go wrong.  Here
they are checked:

* `Checked.Fault` — the ways in which a check fails, and `Checked` — computations that make checks;
* `Link.scopeAt`, `Link.boundAt` — the scope of a level, and what the link below a level passes for
  a type parameter;
* `Context.concreteWithin` — a type is written out on a level, by calls that are nested no deeper
  than a limit;
* `Link.nesting` — how deep they are nested: by the heights of the type and of the links below,
  since a type parameter leads to a part of the link below.

No check fails on a level that there is, and the type is the one that the stack gives:
`Context.concreteWithin_of_le`.
-/
import Mathlib.Algebra.Ring.Nat
import ModelForge.Analysis.Failure

namespace ModelForge

/-! ### Checks -/

/-- What goes wrong where a check fails. -/
inductive Checked.Fault
  /-- calls are nested deeper than the limit -/
  | tooDeep
  /-- there are fewer links than the level says -/
  | levelTooHigh (level : Nat)
  /-- the level below the companion is asked for -/
  | noLevelBelow
  /-- there is no link at the position -/
  | noLink (position : Nat)

/-- A computation that makes checks and may end in a problem. -/
abbrev Checked (α : Type) := ExceptT Problem (Except Checked.Fault) α

namespace Checked

variable {α β : Type}

/-- A check fails. -/
def fault (f : Fault) : Checked α :=
  ExceptT.mk (.error f)

/-- No check fails, and this is the result. -/
def ofResult (result : Except Problem α) : Checked α :=
  ExceptT.mk (.ok result)

theorem ofResult_ok_bind (a : α) (f : α → Checked β) : ofResult (.ok a) >>= f = f a :=
  rfl

theorem ofResult_bind_return (result : Except Problem α) (f : α → β) :
    (do return f (← ofResult result) : Checked β) = ofResult (do return f (← result)) := by
  cases result <;> rfl

end Checked

namespace Link

open Checked

/-- Checks that there are as many links as a level says. -/
def checkLevel (links : List Link) (level : Nat) : Checked Unit :=
  if level ≤ links.length then return () else fault (.levelTooHigh level)

/-- The level below, by subtraction. -/
def levelBelow : Nat → Checked Nat
  | 0 => fault .noLevelBelow
  | level + 1 => return level

/-- The link at a position. -/
def linkAt (links : List Link) (position : Nat) : Checked Link :=
  match links[position]? with
  | some link => return link
  | none => fault (.noLink position)

/-- The scope of a level, which is the companion or the class that the link below refers to. -/
def scopeAt (root : Scope) (links : List Link) (level : Nat) : Checked Scope := do
  checkLevel links level
  if level = 0 then return root
  return (← linkAt links (← levelBelow level)).declaration.scope

/-- What the link below a level passes for a type parameter of the level. -/
def boundAt (value : String) (links : List Link) (level : Nat) (parameter : String) (index : Nat) :
    Checked TypeRef := do
  checkLevel links level
  if level = 0 then throw (.unboundParameter value parameter)
  let link ← linkAt links (← levelBelow level)
  ofResult (link.argumentFor value parameter index)

end Link

namespace Context

open Checked

/-- An argument is written out as its type is, and a star stays a star. -/
def argumentWithin (write : TypeRef → Checked TypeName) : TypeArgument → Checked (Option TypeName)
  | .star => return none
  | .type _ t => return some (← write t)

/-- A reference on a level, written out by calls that are nested no deeper than the limit.  A type
parameter is followed to the level below. -/
def concreteWithin (ctx : Context) (value : String) (root : Scope) (links : List Link) :
    Nat → Nat → TypeRef → Checked TypeName
  | 0, _, _ => fault .tooDeep
  | limit + 1, level, .mk name arguments nullable => do
    Link.checkLevel links level
    let scope ← Link.scopeAt root links level
    match ctx.index.resolve name (some scope) with
    | .typeParameter index => do
      let bound ← Link.boundAt value links level name index
      let type ← concreteWithin ctx value root links limit (← Link.levelBelow level) bound
      return type.withNullable (type.nullable || nullable)
    | _ => do
      let types ← arguments.mapM
        (argumentWithin (concreteWithin ctx value root links limit level))
      return ((ctx.baseName (some scope) name).withNullable nullable).withArguments types

end Context

/-! ### Heights -/

namespace TypeRef

mutual

/-- How deep a reference is nested. -/
def height : TypeRef → Nat
  | mk _ arguments _ => heightOfList arguments + 1

/-- How deep an argument is nested. -/
def heightOfArgument : TypeArgument → Nat
  | .star => 0
  | .type _ ref => height ref

/-- How deep the arguments are nested at most. -/
def heightOfList : List TypeArgument → Nat
  | [] => 0
  | a :: as => max (heightOfArgument a) (heightOfList as)

end

theorem height_le_of_mem {variance : Variance} {t : TypeRef} {arguments : List TypeArgument}
    (h : .type variance t ∈ arguments) : t.height ≤ heightOfList arguments := by
  induction arguments with
  | nil => cases h
  | cons a as ih =>
    rw [heightOfList]
    rcases List.mem_cons.1 h with rfl | hrest
    · exact Nat.le_max_left _ _
    · exact Nat.le_trans (ih hrest) (Nat.le_max_right _ _)

theorem height_lt_of_mem {variance : Variance} {t ref : TypeRef}
    (h : .type variance t ∈ ref.arguments) : t.height < ref.height := by
  obtain ⟨name, arguments, nullable⟩ := ref
  exact Nat.lt_succ_of_le (height_le_of_mem h)

end TypeRef

namespace Link

open Checked

variable {root : Scope} {links : List Link} {link : Link} {level : Nat}

/-- The chain that leads to a level: the links below it, the last one first. -/
def chainTo (links : List Link) (level : Nat) : List Link :=
  (links.take level).reverse

/-- How deep calls are nested that write a reference out on a level. -/
def nesting (links : List Link) (level : Nat) (t : TypeRef) : Nat :=
  t.height + ((links.take level).map fun l => l.reference.height).sum

theorem nesting_pos (links : List Link) (level : Nat) (t : TypeRef) :
    0 < nesting links level t := by
  obtain ⟨name, arguments, nullable⟩ := t
  rw [nesting, TypeRef.height]
  omega

theorem chainTo_succ (h : links[level]? = some link) :
    chainTo links (level + 1) = link :: chainTo links level := by
  rw [chainTo, List.take_add_one, h, Option.toList_some, List.reverse_concat, chainTo]

theorem chainTo_length (links : List Link) : chainTo links links.length = links.reverse := by
  rw [chainTo, List.take_length]

/-- Following a type parameter of a level leads to a type that is nested less. -/
theorem nesting_lt {bound t : TypeRef} {variance : Variance} (h : links[level]? = some link)
    (hmem : .type variance bound ∈ link.reference.arguments) :
    nesting links level bound < nesting links (level + 1) t := by
  have hbound := TypeRef.height_lt_of_mem hmem
  rw [nesting, nesting, List.take_add_one, h, Option.toList_some, List.map_append, List.sum_append,
    List.map_singleton, List.sum_singleton]
  omega

theorem exists_mem_of_argumentFor {value parameter : String} {index : Nat} {bound : TypeRef}
    (h : link.argumentFor value parameter index = .ok bound) :
    ∃ variance, .type variance bound ∈ link.reference.arguments := by
  unfold argumentFor at h
  dsimp only at h
  split at h
  · cases h
  · split at h
    · rename_i variance ref harg
      cases h
      exact ⟨variance, List.mem_of_getElem? harg⟩
    · cases h
    · cases h

/-! ### Levels that there are -/

theorem checkLevel_of_le (h : level ≤ links.length) :
    checkLevel links level = ofResult (.ok ()) := by
  rw [checkLevel, if_pos h]
  rfl

theorem linkAt_of_some (h : links[level]? = some link) :
    linkAt links level = ofResult (.ok link) := by
  rw [linkAt, h]
  rfl

theorem exists_getElem?_of_le (h : level + 1 ≤ links.length) : ∃ link, links[level]? = some link :=
  ⟨_, List.getElem?_eq_getElem h⟩

theorem scopeAt_of_le (h : level ≤ links.length) :
    scopeAt root links level = ofResult (.ok (scopeOf root (chainTo links level))) := by
  rw [scopeAt, checkLevel_of_le h, ofResult_ok_bind]
  cases level with
  | zero => rfl
  | succ level =>
    obtain ⟨link, hlink⟩ := exists_getElem?_of_le h
    rw [chainTo_succ hlink]
    show linkAt links level >>= _ = _
    rw [linkAt_of_some hlink]
    rfl

theorem boundAt_zero (value : String) (links : List Link) (parameter : String) (index : Nat) :
    boundAt value links 0 parameter index =
      ofResult (.error (.unboundParameter value parameter)) := by
  rw [boundAt, checkLevel_of_le (Nat.zero_le _)]
  rfl

theorem boundAt_succ (value parameter : String) (index : Nat) (h : links[level]? = some link) :
    boundAt value links (level + 1) parameter index =
      ofResult (link.argumentFor value parameter index) := by
  have hle : level + 1 ≤ links.length := (List.getElem?_eq_some_iff.1 h).1
  rw [boundAt, checkLevel_of_le hle]
  show linkAt links level >>= _ = _
  rw [linkAt_of_some h]
  rfl

end Link

namespace Context

open Checked Link

variable {ctx : Context} {value : String} {root : Scope} {links : List Link}

theorem mapM_argumentWithin {scope : Scope} {bound : String → Nat → Except Problem TypeName}
    {write : TypeRef → Checked TypeName} {arguments : List TypeArgument}
    (h : ∀ variance t, .type variance t ∈ arguments →
      write t = ofResult (ctx.instantiate scope bound t)) :
    arguments.mapM (argumentWithin write) =
      ofResult (ctx.instantiateList scope bound arguments) := by
  induction arguments with
  | nil =>
    rw [List.mapM_nil, instantiateList]
    rfl
  | cons a as ih =>
    have hrest := ih fun variance t hmem => h variance t (List.mem_cons_of_mem _ hmem)
    have ha : argumentWithin write a = ofResult (ctx.instantiateArgument scope bound a) := by
      cases a with
      | star =>
        rw [instantiateArgument]
        rfl
      | type variance t =>
        rw [argumentWithin, h variance t List.mem_cons_self, instantiateArgument]
        exact ofResult_bind_return _ _
    rw [List.mapM_cons, ha, hrest, instantiateList]
    cases ctx.instantiateArgument scope bound a with
    | error e => rfl
    | ok type => cases ctx.instantiateList scope bound as <;> rfl

/-- What the links of a chain pass for the type parameters of its last class, written out. -/
def boundOf (ctx : Context) (value : String) (root : Scope) (chain : List Link)
    (parameter : String) (index : Nat) : Except Problem TypeName :=
  match chain with
  | [] => .error (.unboundParameter value parameter)
  | link :: chain => do ctx.concrete value root chain (← link.argumentFor value parameter index)

theorem concrete_eq_instantiate (chain : List Link) (t : TypeRef) :
    ctx.concrete value root chain t =
      ctx.instantiate (Link.scopeOf root chain) (ctx.boundOf value root chain) t := by
  cases chain with
  | nil => rw [concrete]; rfl
  | cons link chain => rw [concrete]; rfl

/-- What is bound to a type parameter of a level is written out on the level below. -/
theorem boundAt_bind {level limit : Nat} {name : String} {index : Nat}
    (hlevel : level ≤ links.length)
    (hbelow : ∀ below link bound variance, level = below + 1 → links[below]? = some link →
      .type variance bound ∈ link.reference.arguments →
        ctx.concreteWithin value root links limit below bound =
          ofResult (ctx.concrete value root (chainTo links below) bound)) :
    (do
      let bound ← boundAt value links level name index
      ctx.concreteWithin value root links limit (← levelBelow level) bound) =
      ofResult (ctx.boundOf value root (chainTo links level) name index) := by
  cases level with
  | zero =>
    rw [boundAt_zero]
    rfl
  | succ below =>
    obtain ⟨link, hlink⟩ := exists_getElem?_of_le hlevel
    rw [boundAt_succ value name index hlink, chainTo_succ hlink, boundOf]
    cases hargument : link.argumentFor value name index with
    | error e => rfl
    | ok bound =>
      obtain ⟨variance, hmem⟩ := exists_mem_of_argumentFor hargument
      exact hbelow below link bound variance rfl hlink hmem

/-- **Writing a type out on a level.**  On a level that there is, no check fails if the limit leaves
room for the nesting: the type is written out as it is at the end of the chain that leads to the
level. -/
theorem concreteWithin_of_le {limit : Nat} : ∀ {level : Nat} {t : TypeRef}, level ≤ links.length →
    nesting links level t ≤ limit →
      ctx.concreteWithin value root links limit level t =
        ofResult (ctx.concrete value root (chainTo links level) t) := by
  induction limit with
  | zero =>
    intro level t _ hlimit
    exact absurd (nesting_pos links level t) (Nat.not_lt.2 hlimit)
  | succ limit ih =>
    rintro level ⟨name, arguments, nullable⟩ hlevel hlimit
    -- a type parameter is written out on the level below, where there is room again
    have hbound : ∀ index, (do
        let bound ← boundAt value links level name index
        ctx.concreteWithin value root links limit (← levelBelow level) bound) =
        ofResult (ctx.boundOf value root (chainTo links level) name index) := by
      refine fun index => boundAt_bind hlevel fun below link bound variance heq hlink hmem => ?_
      subst heq
      have hnesting := nesting_lt (t := .mk name arguments nullable) hlink hmem
      exact ih (by omega) (by omega)
    -- and all else with its arguments, which are nested less
    have harguments : (do
        let types ← arguments.mapM
          (argumentWithin (ctx.concreteWithin value root links limit level))
        return ((ctx.baseName (some (scopeOf root (chainTo links level))) name).withNullable
          nullable).withArguments types) = ofResult (do
        let types ← ctx.instantiateList (scopeOf root (chainTo links level))
          (ctx.boundOf value root (chainTo links level)) arguments
        return ((ctx.baseName (some (scopeOf root (chainTo links level))) name).withNullable
          nullable).withArguments types) := by
      rw [mapM_argumentWithin fun variance t hmem => ?_]
      · exact ofResult_bind_return _ _
      · have hheight := TypeRef.height_le_of_mem hmem
        rw [nesting, TypeRef.height] at hlimit
        rw [← concrete_eq_instantiate]
        refine ih hlevel ?_
        rw [nesting]
        omega
    rw [concreteWithin, checkLevel_of_le hlevel, ofResult_ok_bind, scopeAt_of_le hlevel,
      ofResult_ok_bind, concrete_eq_instantiate, instantiate]
    cases ctx.index.resolve name (some (scopeOf root (chainTo links level))) with
    | typeParameter index =>
      have hrest := congrArg (· >>= fun type : TypeName =>
        (return type.withNullable (type.nullable || nullable) : Checked TypeName)) (hbound index)
      simp only [bind_assoc] at hrest
      exact hrest.trans (ofResult_bind_return _ _)
    | ofClass c => exact harguments
    | ofAlias a => exact harguments
    | external => exact harguments

/-- On a level that there is not, a check fails, whatever the limit. -/
theorem concreteWithin_of_lt {limit level : Nat} {t : TypeRef} (h : links.length < level) :
    ctx.concreteWithin value root links (limit + 1) level t = fault (.levelTooHigh level) := by
  obtain ⟨name, arguments, nullable⟩ := t
  rw [concreteWithin, checkLevel, if_neg (Nat.not_le_of_lt h)]
  rfl

end Context

end ModelForge

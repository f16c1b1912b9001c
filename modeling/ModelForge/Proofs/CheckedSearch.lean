/-
The search for a failure type, with one list of links.

`Context.findValidator` is given the links on the way up as a stack.  The same search can be done on
one list of links and one set of classes, both of which grow where the search enters a class and
shrink again where it comes back.  Here it is done so, with the checks of `LinkLevels`:

* `SearchState` — the links and the classes that have been entered; entering a class and leaving it
  changes nothing (`SearchState.leave_enter`);
* `Context.searchWithin` — the search, by calls that are nested no deeper than a limit, and
  `Context.resolveWithin` — the failure type of a value;
* `Context.ComesTo` — what the search comes to where the limits leave room for the declared classes
  that have not been entered: there is a rule for each way in which it goes on;
* `Context.exists_comesTo` — every search has an outcome, and one that finds nothing leaves what it
  was given;
* `Context.comesTo_findValidator` — from a companion on, it is what `findValidator` gives.

The main statement is `Context.failureType_checked`.
-/
import Mathlib.Data.Finset.Basic
import ModelForge.Proofs.LinkLevels
import ModelForge.Proofs.ValidatorSearch

namespace ModelForge

open Checked

/-- What a search changes on its way. -/
structure SearchState where
  /-- the links on the way up, the companion's first -/
  links : List Link
  /-- the names of the classes that have been entered -/
  visited : Finset String

namespace SearchState

/-- Nothing has been entered. -/
def start : SearchState :=
  ⟨[], ∅⟩

/-- The state inside of the class that a link refers to. -/
def enter (s : SearchState) (link : Link) : SearchState :=
  ⟨s.links ++ [link], insert link.declaration.qualifiedName s.visited⟩

/-- The state after a class: the last link and the name of the class are taken away. -/
def leave (s : SearchState) (name : String) : SearchState :=
  ⟨s.links.dropLast, s.visited.erase name⟩

theorem leave_enter {s : SearchState} {link : Link}
    (h : link.declaration.qualifiedName ∉ s.visited) :
    (s.enter link).leave link.declaration.qualifiedName = s := by
  rw [enter, leave, List.dropLast_concat, Finset.erase_insert h]

/-- The state that a search is in at the end of a chain. -/
def ofChain (chain : List Link) : SearchState :=
  ⟨chain.reverse, (Link.names chain).toFinset⟩

theorem ofChain_cons (link : Link) (chain : List Link) :
    ofChain (link :: chain) = (ofChain chain).enter link := by
  rw [ofChain, List.reverse_cons, Link.names, List.map_cons, List.toFinset_cons]
  rfl

theorem mem_visited_ofChain {chain : List Link} {name : String} :
    name ∈ (ofChain chain).visited ↔ name ∈ Link.names chain :=
  List.mem_toFinset

end SearchState

namespace Context

/-! ### The search -/

/-- The failure type that a listed validator interface takes, written out on the last level. -/
def bindWithin (ctx : Context) (value : String) (root : Scope) (room : Nat) (validator : TypeRef)
    (links : List Link) : Checked TypeName := do
  ctx.concreteWithin value root links room links.length (← ofResult (ctx.failureArgument validator))

/-- The search by way of the supertypes of a scope, one after the other. A class that has been
entered is passed over. -/
def searchEach (ctx : Context) (scope : Scope)
    (search : List TypeRef → SearchState → Checked (Option TypeName × SearchState)) :
    List TypeRef → SearchState → Checked (Option TypeName × SearchState)
  | [], s => return (none, s)
  | reference :: rest, s =>
    match ctx.index.resolve reference.name (some scope) with
    | .ofClass declaration =>
      if declaration.qualifiedName ∈ s.visited then searchEach ctx scope search rest s
      else do
        match ← search declaration.superTypes (s.enter ⟨reference, declaration⟩) with
        | (some type, s) => return (some type, s)
        | (none, s) => searchEach ctx scope search rest (s.leave declaration.qualifiedName)
    | _ => searchEach ctx scope search rest s

/-- The search on the last level, by calls that are nested no deeper than the limit. There is room
for a type to be written out. -/
def searchWithin (ctx : Context) (value : String) (root : Scope) (room : Nat) :
    Nat → List TypeRef → SearchState → Checked (Option TypeName × SearchState)
  | 0, _, _ => fault .tooDeep
  | limit + 1, superTypes, s => do
    let scope ← Link.scopeAt root s.links s.links.length
    match superTypes.find? (ctx.isValidator scope) with
    | some validator => return (some (← ctx.bindWithin value root room validator s.links), s)
    | none => ctx.searchEach scope (searchWithin ctx value root room limit) superTypes s

/-- The failure type of a validated value, with limits for the search and for writing a type out. -/
def resolveWithin (ctx : Context) (room limit : Nat) (value : ClassDecl) : Checked TypeName :=
  let name := value.qualifiedName
  match value.companionScope? with
  | none => throw (.unresolvedFailure name .noCompanion)
  | some root => do
    match ← ctx.searchWithin name root room limit root.superTypes .start with
    | (some type, _) => return type
    | (none, _) => throw (.unresolvedFailure name (.noValidator ctx.markers.valueValidator))

/-- The number of declared classes that have not been entered. -/
def unvisited (ctx : Context) (s : SearchState) : Nat :=
  (ctx.index.classNames.filter fun name => decide (name ∉ s.visited)).length

/-- Whatever the limits, the search comes to this if they leave room for the classes that have not
been entered and for the type that is found. -/
def ComesTo (ctx : Context) (value : String) (root : Scope) (superTypes : List TypeRef)
    (s : SearchState) (result : Except Problem (Option TypeName × SearchState)) : Prop :=
  ∃ least, ∀ room, least ≤ room → ∀ limit, ctx.unvisited s < limit →
    ctx.searchWithin value root room limit superTypes s = ofResult result

/-- The search by way of supertypes comes to this. -/
def EachComesTo (ctx : Context) (value : String) (root scope : Scope) (superTypes : List TypeRef)
    (s : SearchState) (result : Except Problem (Option TypeName × SearchState)) : Prop :=
  ∃ least, ∀ room, least ≤ room → ∀ limit, ctx.unvisited s ≤ limit →
    ctx.searchEach scope (ctx.searchWithin value root room limit) superTypes s = ofResult result

variable {ctx : Context} {value : String} {root scope : Scope} {superTypes rest : List TypeRef}
  {s : SearchState} {result : Except Problem (Option TypeName × SearchState)}

theorem unvisited_enter_lt (link : Link) {name : String}
    (hr : ctx.index.resolve name (some scope) = .ofClass link.declaration)
    (hnew : link.declaration.qualifiedName ∉ s.visited) :
    ctx.unvisited (s.enter link) < ctx.unvisited s := by
  have hremaining : ∀ s : SearchState,
      ctx.unvisited s = (ctx.index.remaining s.visited.toList).length := by
    simp [unvisited, DeclarationIndex.remaining]
  rw [hremaining, hremaining]
  refine DeclarationIndex.remaining_length_lt (DeclarationIndex.declares_of_resolve hr) ?_ ?_
  · rwa [Finset.mem_toList]
  · intro n
    rw [Finset.mem_toList, Finset.mem_toList, SearchState.enter, Finset.mem_insert]

/-! ### How the search goes on -/

theorem searchWithin_succ (room limit : Nat) :
    ctx.searchWithin value root room (limit + 1) superTypes s =
      match superTypes.find? (ctx.isValidator (Link.scopeOf root s.links.reverse)) with
      | some validator => do return (some (← ctx.bindWithin value root room validator s.links), s)
      | none => ctx.searchEach (Link.scopeOf root s.links.reverse)
          (ctx.searchWithin value root room limit) superTypes s := by
  rw [searchWithin, Link.scopeAt_of_le (Nat.le_refl _), ofResult_ok_bind, Link.chainTo_length]

/-- What a validator interface binds is written out if there is room for it. -/
theorem exists_bindWithin_eq (ctx : Context) (value : String) (root : Scope)
    (validator : TypeRef) (links : List Link) : ∃ least, ∀ room, least ≤ room →
      ctx.bindWithin value root room validator links =
        ofResult (ctx.failureArgument validator >>= ctx.concrete value root links.reverse) := by
  cases hfailure : ctx.failureArgument validator with
  | error e =>
    refine ⟨0, fun room _ => ?_⟩
    rw [bindWithin, hfailure]
    rfl
  | ok failure =>
    refine ⟨Link.nesting links links.length failure, fun room hroom => ?_⟩
    rw [bindWithin, hfailure, ofResult_ok_bind, concreteWithin_of_le (Nat.le_refl _) hroom,
      Link.chainTo_length]
    rfl

/-- A validator interface that is listed ends the search. -/
theorem comesTo_of_listed {validator : TypeRef}
    (h : superTypes.find? (ctx.isValidator (Link.scopeOf root s.links.reverse)) = some validator) :
    ctx.ComesTo value root superTypes s (do
      let type ← ctx.failureArgument validator >>= ctx.concrete value root s.links.reverse
      return (some type, s)) := by
  obtain ⟨least, hbind⟩ := ctx.exists_bindWithin_eq value root validator s.links
  refine ⟨least, fun room hroom limit hlimit => ?_⟩
  obtain ⟨limit, rfl⟩ := Nat.exists_eq_add_one_of_ne_zero (Nat.ne_zero_of_lt hlimit)
  rw [searchWithin_succ, h]
  dsimp only
  rw [hbind room hroom]
  exact ofResult_bind_return _ _

/-- Where none is listed, the search goes on by way of the supertypes. -/
theorem comesTo_of_not_listed
    (h : superTypes.find? (ctx.isValidator (Link.scopeOf root s.links.reverse)) = none)
    (heach : ctx.EachComesTo value root (Link.scopeOf root s.links.reverse) superTypes s result) :
    ctx.ComesTo value root superTypes s result := by
  obtain ⟨least, heach⟩ := heach
  refine ⟨least, fun room hroom limit hlimit => ?_⟩
  obtain ⟨limit, rfl⟩ := Nat.exists_eq_add_one_of_ne_zero (Nat.ne_zero_of_lt hlimit)
  rw [searchWithin_succ, h]
  exact heach room hroom limit (Nat.le_of_lt_succ hlimit)

theorem eachComesTo_nil : ctx.EachComesTo value root scope [] s (.ok (none, s)) :=
  ⟨0, fun _ _ _ _ => rfl⟩

/-- The search does not go by way of the supertype: it refers to no class, or to one that has been
entered. -/
def PassesOver (ctx : Context) (scope : Scope) (s : SearchState) (reference : TypeRef) : Prop :=
  ∀ declaration, ctx.index.resolve reference.name (some scope) = .ofClass declaration →
    declaration.qualifiedName ∈ s.visited

theorem eachComesTo_of_passesOver {reference : TypeRef} (h : ctx.PassesOver scope s reference)
    (hrest : ctx.EachComesTo value root scope rest s result) :
    ctx.EachComesTo value root scope (reference :: rest) s result := by
  obtain ⟨least, hrest⟩ := hrest
  refine ⟨least, fun room hroom limit hlimit => ?_⟩
  rw [← hrest room hroom limit hlimit, searchEach]
  split
  · rename_i declaration hr
    rw [if_pos (h declaration hr)]
  · rfl

section Entered

variable {reference : TypeRef} {declaration : ClassDecl}

theorem searchEach_of_new
    {search : List TypeRef → SearchState → Checked (Option TypeName × SearchState)}
    (hr : ctx.index.resolve reference.name (some scope) = .ofClass declaration)
    (hnew : declaration.qualifiedName ∉ s.visited) :
    ctx.searchEach scope search (reference :: rest) s = (do
      match ← search declaration.superTypes (s.enter ⟨reference, declaration⟩) with
      | (some type, s) => return (some type, s)
      | (none, s) => ctx.searchEach scope search rest (s.leave declaration.qualifiedName)) := by
  rw [searchEach, hr]
  dsimp only
  rw [if_neg hnew]

/-- What is found by way of a class, or a problem with it, ends the search. -/
theorem eachComesTo_of_found
    (hr : ctx.index.resolve reference.name (some scope) = .ofClass declaration)
    (hnew : declaration.qualifiedName ∉ s.visited) (hfound : ∀ s', result ≠ .ok (none, s'))
    (h : ctx.ComesTo value root declaration.superTypes (s.enter ⟨reference, declaration⟩) result) :
    ctx.EachComesTo value root scope (reference :: rest) s result := by
  obtain ⟨least, h⟩ := h
  refine ⟨least, fun room hroom limit hlimit => ?_⟩
  have hlt := unvisited_enter_lt ⟨reference, declaration⟩ hr hnew
  rw [searchEach_of_new hr hnew, h room hroom limit (by omega)]
  match result, hfound with
  | .error e, _ => rfl
  | .ok (some type, s'), _ => rfl
  | .ok (none, s'), hfound => exact absurd rfl (hfound s')

/-- Where nothing is found by way of a class, the search goes on with the next supertype. -/
theorem eachComesTo_of_back
    (hr : ctx.index.resolve reference.name (some scope) = .ofClass declaration)
    (hnew : declaration.qualifiedName ∉ s.visited)
    (h : ctx.ComesTo value root declaration.superTypes (s.enter ⟨reference, declaration⟩)
      (.ok (none, s.enter ⟨reference, declaration⟩)))
    (hrest : ctx.EachComesTo value root scope rest s result) :
    ctx.EachComesTo value root scope (reference :: rest) s result := by
  obtain ⟨least, h⟩ := h
  obtain ⟨least', hrest⟩ := hrest
  refine ⟨max least least', fun room hroom limit hlimit => ?_⟩
  have hlt := unvisited_enter_lt ⟨reference, declaration⟩ hr hnew
  rw [searchEach_of_new hr hnew, h room (le_of_max_le_left hroom) limit (by omega),
    ofResult_ok_bind]
  dsimp only
  rw [SearchState.leave_enter hnew]
  exact hrest room (le_of_max_le_right hroom) limit hlimit

end Entered

/-! ### Every search ends -/

/-- A search that finds nothing has left the state as it was. -/
def Restores (s : SearchState) (result : Except Problem (Option TypeName × SearchState)) : Prop :=
  ∀ s', result = .ok (none, s') → s' = s

/-- What is bound is a type or a problem, never nothing. -/
theorem bound_ne_nothing (bound : Except Problem TypeName) (s s' : SearchState) :
    (do return (some (← bound), s)) ≠ (.ok (none, s') : Except Problem (Option TypeName × _)) := by
  cases bound with
  | error e => nofun
  | ok type => nofun

theorem exists_new_of_not_passesOver {reference : TypeRef}
    (h : ¬ ctx.PassesOver scope s reference) : ∃ declaration,
      ctx.index.resolve reference.name (some scope) = .ofClass declaration ∧
        declaration.qualifiedName ∉ s.visited := by
  simpa [PassesOver] using h

/-- A class that has been entered leaves fewer of them, so that the search by way of it ends. -/
theorem exists_eachComesTo
    (henter : ∀ s', ctx.unvisited s' < ctx.unvisited s → ∀ superTypes,
      ∃ result, ctx.ComesTo value root superTypes s' result ∧ Restores s' result)
    (superTypes : List TypeRef) :
    ∃ result, ctx.EachComesTo value root scope superTypes s result ∧ Restores s result := by
  induction superTypes with
  | nil =>
    refine ⟨_, eachComesTo_nil, ?_⟩
    rintro s' ⟨⟩
    rfl
  | cons reference rest ih =>
    obtain ⟨result, hrest, hrestores⟩ := ih
    by_cases hpass : ctx.PassesOver scope s reference
    · exact ⟨result, eachComesTo_of_passesOver hpass hrest, hrestores⟩
    · obtain ⟨declaration, hr, hnew⟩ := exists_new_of_not_passesOver hpass
      obtain ⟨found, houtcome, hback⟩ := henter (s.enter ⟨reference, declaration⟩)
        (unvisited_enter_lt _ hr hnew) declaration.superTypes
      by_cases hnone : ∃ s', found = .ok (none, s')
      · obtain ⟨s', rfl⟩ := hnone
        obtain rfl := hback s' rfl
        exact ⟨result, eachComesTo_of_back hr hnew houtcome hrest, hrestores⟩
      · have hfound : ∀ s', found ≠ .ok (none, s') := fun s' h => hnone ⟨s', h⟩
        exact ⟨found, eachComesTo_of_found hr hnew hfound houtcome,
          fun s' h => absurd h (hfound s')⟩

/-- The induction is on the number of classes that have not been entered. -/
theorem exists_comesTo (n : Nat) : ∀ (s : SearchState), ctx.unvisited s = n → ∀ superTypes,
    ∃ result, ctx.ComesTo value root superTypes s result ∧ Restores s result := by
  induction n using Nat.strong_induction_on with
  | _ n ih =>
    rintro s rfl superTypes
    cases hfind : superTypes.find? (ctx.isValidator (Link.scopeOf root s.links.reverse)) with
    | some validator =>
      exact ⟨_, comesTo_of_listed hfind, fun s' h => absurd h (bound_ne_nothing _ _ _)⟩
    | none =>
      obtain ⟨result, heach, hrestores⟩ := exists_eachComesTo
        (fun s' hlt superTypes => ih _ hlt s' rfl superTypes) superTypes
      exact ⟨result, comesTo_of_not_listed hfind heach, hrestores⟩

/-! ### The search finds what the stack finds -/

/-- What a search that was at the end of a chain comes to if this validator interface is found. -/
def answerOf (ctx : Context) (value : String) (root : Scope) (chain : List Link) :
    Option (List Link × TypeRef) → Except Problem (Option TypeName × SearchState)
  | none => .ok (none, .ofChain chain)
  | some (found, validator) => do
    let type ← ctx.failureArgument validator >>= ctx.concrete value root found
    return (some type, .ofChain found)

/-- The search by way of supertypes, if the searches by way of their classes are as they should. -/
theorem eachComesTo_findThrough {chain : List Link}
    (h : ∀ reference declaration, ctx.index.resolve reference.name
      (some (Link.scopeOf root chain)) = .ofClass declaration →
      declaration.qualifiedName ∉ Link.names chain →
        ctx.ComesTo value root declaration.superTypes (.ofChain (⟨reference, declaration⟩ :: chain))
          (ctx.answerOf value root (⟨reference, declaration⟩ :: chain)
            (ctx.findValidator root (⟨reference, declaration⟩ :: chain))))
    (superTypes : List TypeRef) :
    ctx.EachComesTo value root (Link.scopeOf root chain) superTypes (.ofChain chain)
      (ctx.answerOf value root chain (superTypes.findSome? (ctx.findThrough root chain))) := by
  induction superTypes with
  | nil => exact eachComesTo_nil
  | cons reference rest ih =>
    rw [List.findSome?_cons]
    by_cases hpass : ctx.PassesOver (Link.scopeOf root chain) (.ofChain chain) reference
    · have hthrough : ctx.findThrough root chain reference = none := by
        refine findThrough_eq_none_iff.2 fun declaration hr hnew => ?_
        exact absurd (SearchState.mem_visited_ofChain.1 (hpass declaration hr)) hnew
      rw [hthrough]
      exact eachComesTo_of_passesOver hpass ih
    · obtain ⟨declaration, hr, hnew⟩ := exists_new_of_not_passesOver hpass
      have hnames : declaration.qualifiedName ∉ Link.names chain :=
        fun hmem => hnew (SearchState.mem_visited_ofChain.2 hmem)
      have houtcome := h reference declaration hr hnames
      have hthrough : ctx.findThrough root chain reference =
          ctx.findValidator root (⟨reference, declaration⟩ :: chain) := by
        rw [findThrough, hr]
        exact if_neg hnames
      rw [hthrough]
      cases hfind : ctx.findValidator root (⟨reference, declaration⟩ :: chain) with
      | none =>
        rw [hfind, answerOf, SearchState.ofChain_cons] at houtcome
        exact eachComesTo_of_back hr hnew houtcome ih
      | some found =>
        rw [hfind, SearchState.ofChain_cons] at houtcome
        exact eachComesTo_of_found hr hnew (fun _ => bound_ne_nothing _ _ _) houtcome

/-- At the end of a chain, the search comes to what `findValidator` gives. -/
theorem comesTo_findValidator (ctx : Context) (value : String) (root : Scope)
    (chain : List Link) :
    ctx.ComesTo value root (Link.scopeOf root chain).superTypes (.ofChain chain)
      (ctx.answerOf value root chain (ctx.findValidator root chain)) := by
  have hlinks : ∀ chain, (SearchState.ofChain chain).links.reverse = chain :=
    fun chain => List.reverse_reverse chain
  induction chain using findValidator.induct ctx root with
  | case1 chain scope validator hlisted =>
    rw [findValidator_of_listed hlisted]
    have hfind : (Link.scopeOf root chain).superTypes.find? (ctx.isValidator
        (Link.scopeOf root (SearchState.ofChain chain).links.reverse)) = some validator := by
      rw [hlinks]
      exact hlisted
    have houtcome : ctx.ComesTo value root _ _ _ := comesTo_of_listed hfind
    rwa [hlinks] at houtcome
  | case2 chain scope hlisted ih =>
    rw [findValidator_of_not_listed hlisted]
    refine comesTo_of_not_listed ?_ ?_
    · rw [hlinks]
      exact hlisted
    · rw [hlinks]
      exact eachComesTo_findThrough ih _

/-- With room for the classes of the index, the failure type is found as without limits. -/
theorem exists_resolveWithin_eq (decl : ClassDecl) : ∃ least, ∀ room, least ≤ room → ∀ limit,
    ctx.index.classNames.length < limit →
      ctx.resolveWithin room limit decl = ofResult (ctx.failureTypeOf decl) := by
  unfold resolveWithin failureTypeOf
  cases hroot : decl.companionScope? with
  | none => exact ⟨0, fun _ _ _ _ => rfl⟩
  | some root =>
    obtain ⟨least, houtcome⟩ := ctx.comesTo_findValidator decl.qualifiedName root []
    refine ⟨least, fun room hroom limit hlimit => ?_⟩
    have hunvisited : ctx.unvisited .start < limit := by
      refine Nat.lt_of_le_of_lt ?_ hlimit
      exact List.length_filter_le _ _
    dsimp only
    rw [show Link.scopeOf root [] = root from rfl, show SearchState.ofChain [] = .start from rfl]
      at houtcome
    rw [houtcome room hroom limit hunvisited]
    cases ctx.findValidator root [] with
    | none => rfl
    | some found =>
      obtain ⟨chain, validator⟩ := found
      show _ = ofResult
        (ctx.failureArgument validator >>= ctx.concrete decl.qualifiedName root chain)
      dsimp only [answerOf]
      cases ctx.failureArgument validator >>= ctx.concrete decl.qualifiedName root chain <;> rfl

/-- **Looking for a failure type always ends, and no check fails on the way.**  Classes may inherit
in circles and arguments may be missing:

* on a level that there is, a type is written out with all look-ups in range and no subtraction from
  zero, by calls that are nested no deeper than `Link.nesting`; on a level above the links, the
  check of the level fails, so that no level is too high where no check fails;
* from any state on, the search has an outcome, by calls that are nested at most one deeper than
  there are declared classes that have not been entered; if it finds nothing, the links and the
  classes that have been entered are those that it was given;
* a failure type is found, or a problem with it, as `failureTypeOf` gives it. -/
theorem failureType_checked (ctx : Context) (value : String) (root : Scope) :
    (∀ links level t limit, Link.nesting links level t ≤ limit →
      (level ≤ links.length → ctx.concreteWithin value root links limit level t =
        ofResult (ctx.concrete value root (Link.chainTo links level) t)) ∧
      (links.length < level → ctx.concreteWithin value root links limit level t =
        fault (.levelTooHigh level))) ∧
    (∀ superTypes s, ∃ result, ctx.ComesTo value root superTypes s result ∧
      ∀ s', result = .ok (none, s') → s' = s) ∧
    ∀ decl, ∃ least, ∀ room, least ≤ room → ∀ limit, ctx.index.classNames.length < limit →
      ctx.resolveWithin room limit decl = ofResult (ctx.failureTypeOf decl) := by
  refine ⟨fun links level t limit hlimit => ⟨fun h => concreteWithin_of_le h hlimit, fun h => ?_⟩,
    fun superTypes s => exists_comesTo _ s rfl superTypes, exists_resolveWithin_eq⟩
  obtain ⟨limit, rfl⟩ := Nat.exists_eq_add_one_of_ne_zero
    (Nat.ne_zero_of_lt (Nat.lt_of_lt_of_le (Link.nesting_pos links level t) hlimit))
  exact concreteWithin_of_lt h

end Context

namespace Sample

/-- The links from the companion of `Tied` to `Top`, past the circle of `Hither` and `Thither`. -/
def linksToTop : List Link :=
  [⟨.named "t.Hither", hither⟩, ⟨.named "t.Thither", thither⟩,
    ⟨applied "t.Top" [.named "kotlin.Int", .named "kotlin.Boolean", .named "kotlin.Long"], top⟩]

/-- The companion of `Tied`. -/
def tiedCompanion : Scope :=
  ⟨"t.Tied.Companion", [], [.named "t.Hither"]⟩

end Sample

theorem Context.failureType_checked_circles :
    Link.nesting Sample.linksToTop 3 (.named "Y") ≤ 5 ∧
    Sample.circles.concreteWithin "t.Tied" Sample.tiedCompanion Sample.linksToTop 5 3 (.named "Y") =
      ofResult (.ok (.simple "kotlin" "Boolean")) ∧
    Sample.circles.concreteWithin "t.Tied" Sample.tiedCompanion Sample.linksToTop 5 4 (.named "Y") =
      fault (.levelTooHigh 4) ∧
    Sample.circles.ComesTo "t.Tied" Sample.tiedCompanion [.named "t.Lone"] .start
      (.ok (none, .start)) ∧
    Sample.circles.index.classNames.length < 7 ∧
    ∃ least, Sample.circles.resolveWithin least 7 Sample.tied =
      ofResult (Sample.circles.failureTypeOf Sample.tied) := by
  obtain ⟨hlevels, hsearch, hfailure⟩ :=
    Context.failureType_checked Sample.circles "t.Tied" Sample.tiedCompanion
  have hnesting : Link.nesting Sample.linksToTop 3 (.named "Y") ≤ 5 := by decide
  have hhigher : Link.nesting Sample.linksToTop 4 (.named "Y") ≤ 5 := by decide
  have hclasses : Sample.circles.index.classNames.length < 7 := by decide +kernel
  -- `Lone` inherits from itself only, so that the search by way of it comes back
  have hlone : Sample.circles.ComesTo "t.Tied" Sample.tiedCompanion [.named "t.Lone"] .start
      (.ok (none, .start)) := by
    obtain ⟨result, houtcome, -⟩ := hsearch [.named "t.Lone"] .start
    have ⟨least, hresult⟩ := houtcome
    have hcomputed : Sample.circles.searchWithin "t.Tied" Sample.tiedCompanion least 7
        [.named "t.Lone"] .start = ofResult (.ok (none, .start)) := rfl
    rw [hresult least (Nat.le_refl _) 7 hclasses] at hcomputed
    cases hcomputed
    exact houtcome
  obtain ⟨least, hresolve⟩ := hfailure Sample.tied
  exact ⟨hnesting, (hlevels _ _ _ _ hnesting).1 (by decide),
    (hlevels _ _ _ _ hhigher).2 (by decide), hlone, hclasses, least,
    hresolve least (Nat.le_refl _) 7 hclasses⟩

end ModelForge

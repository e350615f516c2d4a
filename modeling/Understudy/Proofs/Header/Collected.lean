import Mathlib.Data.List.Forall2
import Mathlib.Data.List.Induction
import Understudy.Proofs.Header.Tree

/-! # Which functions a header declares

The declarations of a header are the functions of its tree that stand in the input file and outside
of anonymous namespaces, in the order of the tree. What a declaration says follows from the function
and from the nodes around it. A node that is neither a namespace nor a class changes nothing, so any
siblings may be put into one.
-/

namespace Understudy

namespace Enclosure

def isMain : Enclosure → Bool
  | scope _ isMain | record _ isMain _ | other isMain => isMain

/-- The part of a qualified name that a node gives. -/
def name? : Enclosure → Option String
  | scope name _ | record name _ _ => some name
  | other _ => none

def isScope : Enclosure → Bool
  | scope _ _ => true
  | record _ _ _ | other _ => false

def isRecord : Enclosure → Bool
  | record _ _ _ => true
  | scope _ _ | other _ => false

def isOther : Enclosure → Bool
  | other _ => true
  | scope _ _ | record _ _ _ => false

/-- Whether this is a class template. -/
def isTemplate : Enclosure → Bool
  | record _ _ isTemplate => isTemplate
  | scope _ _ | other _ => false

def isAnonymous : Enclosure → Bool
  | scope name _ => name.isEmpty
  | record _ _ _ | other _ => false

/-- Whether one of some nodes around each other has a property, and all nodes further inside have
another. The outermost node comes first. -/
def ShowsThrough (has passes : Enclosure → Bool) (enclosures : List Enclosure) : Prop :=
  ∃ (outer : List Enclosure) (e : Enclosure) (inner : List Enclosure),
    enclosures = outer ++ e :: inner ∧ has e = true ∧ ∀ n ∈ inner, passes n = true

variable {has passes : Enclosure → Bool} {enclosures : List Enclosure} {last : Enclosure}

theorem not_showsThrough_nil : ¬ ShowsThrough has passes [] := by
  rintro ⟨outer, e, inner, h, -⟩
  cases outer <;> cases h

/-- The innermost node has the property, or lets it through. -/
theorem showsThrough_concat_iff :
    ShowsThrough has passes (enclosures ++ [last]) ↔
      has last = true ∨ passes last = true ∧ ShowsThrough has passes enclosures := by
  constructor
  · rintro ⟨outer, e, inner, h, he, hinner⟩
    -- Either the last node is the one with the property, or it is one that lets it through.
    rcases List.eq_nil_or_concat' inner with rfl | ⟨before, n, rfl⟩
    · obtain ⟨-, hlast⟩ := List.append_inj' h rfl
      cases hlast
      exact .inl he
    · rw [← List.cons_append, ← List.append_assoc] at h
      obtain ⟨rfl, hlast⟩ := List.append_inj' h rfl
      cases hlast
      rw [List.forall_mem_append] at hinner
      exact .inr ⟨hinner.2 _ List.mem_cons_self, outer, e, before, rfl, he, hinner.1⟩
  · rintro (hlast | ⟨hlast, outer, e, inner, rfl, he, hinner⟩)
    · exact ⟨enclosures, last, [], rfl, hlast, List.forall_mem_nil _⟩
    · refine ⟨outer, e, inner ++ [last], by simp, he, ?_⟩
      exact List.forall_mem_append.mpr ⟨hinner, List.forall_mem_singleton.mpr hlast⟩

end Enclosure

namespace Place

def enter (place : Place) : Enclosure → Place
  | .scope name _ => place.enterScope name
  | .record name _ isTemplate => place.enterClass name isTemplate
  | .other _ => place

/-- The place inside all of some nodes around each other, the outermost first. -/
def within (enclosures : List Enclosure) : Place := enclosures.foldl enter {}

variable {enclosures : List Enclosure}

theorem within_concat (e : Enclosure) :
    within (enclosures ++ [e]) = (within enclosures).enter e := by
  rw [within, List.foldl_append]
  rfl

theorem scopes_within : (within enclosures).scopes = enclosures.filterMap Enclosure.name? := by
  induction enclosures using List.reverseRecOn with
  | nil => rfl
  | append_singleton enclosures e ih =>
      rw [within_concat, List.filterMap_append, ← ih]
      cases e <;> simp [enter, enterScope, enterClass, Enclosure.name?]

theorem inClass_within_iff :
    (within enclosures).inClass = true ↔
      Enclosure.ShowsThrough Enclosure.isRecord Enclosure.isOther enclosures := by
  induction enclosures using List.reverseRecOn with
  | nil => exact iff_of_false Bool.false_ne_true Enclosure.not_showsThrough_nil
  | append_singleton enclosures e ih =>
      rw [within_concat, Enclosure.showsThrough_concat_iff, ← ih]
      cases e <;> simp [enter, enterScope, enterClass, Enclosure.isRecord, Enclosure.isOther]

theorem inTemplate_within_iff :
    (within enclosures).inTemplate = true ↔
      Enclosure.ShowsThrough Enclosure.isTemplate (fun e => !e.isScope) enclosures := by
  induction enclosures using List.reverseRecOn with
  | nil => exact iff_of_false Bool.false_ne_true Enclosure.not_showsThrough_nil
  | append_singleton enclosures e ih =>
      rw [within_concat, Enclosure.showsThrough_concat_iff, ← ih]
      cases e <;> simp [enter, enterScope, enterClass, Enclosure.isTemplate, Enclosure.isScope]

end Place

namespace Occurrence

/-- Whether a function and all that is around it stand in the input file, and in no anonymous
namespace. -/
def isCollected (o : Occurrence) : Bool :=
  o.function.isMain && o.enclosures.all fun e => e.isMain && !e.isAnonymous

theorem isCollected_iff {o : Occurrence} :
    o.isCollected = true ↔
      o.function.isMain = true ∧
        ∀ e ∈ o.enclosures, e.isMain = true ∧ e.isAnonymous = false := by
  simp [isCollected]

theorem isCollected_inside (e : Enclosure) (o : Occurrence) :
    (o.inside e).isCollected = (e.isMain && !e.isAnonymous && o.isCollected) := by
  simp only [isCollected, inside, List.all_cons, Bool.and_left_comm]

/-- What the declaration of a function says, by what is around the function. -/
structure DeclaredBy (o : Occurrence) (d : Declaration) : Prop where
  qualifiedName : d.qualifiedName =
    String.intercalate "::" (o.enclosures.filterMap Enclosure.name? ++ [o.function.name])
  /-- The nearest namespace or class is a class. -/
  isMember_iff : d.isMember = true ↔
    Enclosure.ShowsThrough Enclosure.isRecord Enclosure.isOther o.enclosures
  /-- A template itself, or inside of a class template without a namespace between. -/
  isTemplate_iff : d.traits.isTemplate = true ↔ o.function.isTemplate = true ∨
    Enclosure.ShowsThrough Enclosure.isTemplate (fun e => !e.isScope) o.enclosures
  isVirtual_iff : d.traits.isVirtual = true ↔
    o.function.isVirtual = true ∨ o.function.isPureVirtual = true
  isOperator_iff : d.traits.isOperator = true ↔ ∃ c rest,
    o.function.name.toList = "operator".toList ++ c :: rest ∧ Text.isWordChar c = false
  access_of_member : d.isMember = true → d.access = o.function.access
  access_of_free : d.isMember = false → d.access = .isPublic
  length_parameters : d.parameters.length = o.function.parameters.length
  parameters : ∀ (i : Nat) (p : Parameter), d.parameters[i]? = some p → ∃ written, p.position = i ∧
    o.function.parameters[i]? = some (written, p.type) ∧
      (Text.trim written.toList ≠ [] → p.name.toList = Text.trim written.toList) ∧
        (Text.trim written.toList = [] → p.name = "_unnamedArg" ++ toString i)
  returnType : d.returnType = o.function.returnType
  isConst : d.traits.isConst = o.function.isConst
  isStatic : d.traits.isStatic = o.function.isStatic
  isPureVirtual : d.traits.isPureVirtual = o.function.isPureVirtual
  isDefined : d.traits.isDefined = o.function.isDefined

theorem exists_written_of_getElem? {written : List (String × CType)} {i : Nat} {p : Parameter}
    (h : (Parameter.ofList written)[i]? = some p) :
    ∃ name, p.position = i ∧ written[i]? = some (name, p.type) ∧
      (Text.trim name.toList ≠ [] → p.name.toList = Text.trim name.toList) ∧
        (Text.trim name.toList = [] → p.name = "_unnamedArg" ++ toString i) := by
  rw [Parameter.ofList, List.getElem?_mapIdx, Option.map_eq_some_iff] at h
  obtain ⟨⟨name, type⟩, hwritten, rfl⟩ := h
  refine ⟨name, rfl, hwritten, fun hname => ?_, fun hname => ?_⟩
  · simp [Parameter.ofWritten, hname]
  · simp [Parameter.ofWritten, hname]

theorem isOperatorName_iff {name : List Char} :
    FunctionEntity.isOperatorName name = true ↔ ∃ c rest,
      name = "operator".toList ++ c :: rest ∧ Text.isWordChar c = false := by
  unfold FunctionEntity.isOperatorName
  constructor
  · intro h
    split at h
    next c rest hrest => exact ⟨c, rest, Text.dropStart?_eq_some_iff.mp hrest, by simpa using h⟩
    next => cases h
  · rintro ⟨c, rest, hname, hc⟩
    rw [Text.dropStart?_eq_some_iff.mpr hname]
    simp [hc]

theorem declaredBy_declaration (o : Occurrence) :
    o.DeclaredBy (o.function.declaration (Place.within o.enclosures)) where
  qualifiedName := by
    rw [← Place.scopes_within]
    rfl
  isMember_iff := Place.inClass_within_iff
  isTemplate_iff := by
    rw [← Place.inTemplate_within_iff]
    exact Bool.or_eq_true_iff
  isVirtual_iff := Bool.or_eq_true_iff
  isOperator_iff := isOperatorName_iff
  access_of_member h := if_pos h
  access_of_free h := if_neg (Bool.eq_false_iff.mp h)
  length_parameters := List.length_mapIdx
  parameters _ _ := exists_written_of_getElem?
  returnType := rfl
  isConst := rfl
  isStatic := rfl
  isPureVirtual := rfl
  isDefined := rfl

end Occurrence

namespace Entity

theorem declarationsOfAll_eq_flatMap (place : Place) (entities : List Entity) :
    declarationsOfAll place entities = entities.flatMap (declarations place) := by
  induction entities with
  | nil => rfl
  | cons entity entities ih => rw [declarationsOfAll, ih, List.flatMap_cons]

/-- An enclosing node is gone through, or left out with all it encloses. -/
theorem declarations_around (place : Place) (enclosure : Enclosure) (children : List Entity) :
    (enclosure.around children).declarations place =
      if enclosure.isMain && !enclosure.isAnonymous then
        declarationsOfAll (place.enter enclosure) children
      else [] := by
  cases enclosure <;>
    simp [Enclosure.around, declarations, Enclosure.isMain, Enclosure.isAnonymous, Place.enter]

/-- The declaration of a function that is seen from a place. -/
def declared (place : Place) (o : Occurrence) : Declaration :=
  o.function.declaration (o.enclosures.foldl Place.enter place)

theorem declarationsOfAll_eq_of_forall {place : Place} {entities : List Entity}
    (h : ∀ entity ∈ entities, entity.declarations place =
      (entity.occurrences.filter Occurrence.isCollected).map (declared place)) (i : Nat) :
    declarationsOfAll place entities =
      ((occurrencesFrom i entities).filter Occurrence.isCollected).map (declared place) := by
  induction entities generalizing i with
  | nil => rfl
  | cons entity entities ih =>
      rw [List.forall_mem_cons] at h
      rw [declarationsOfAll, occurrencesFrom, List.filter_append, List.map_append, ← ih h.2, h.1,
        List.filter_map, List.map_map]
      rfl

theorem declarations_eq (place : Place) (entity : Entity) :
    entity.declarations place =
      (entity.occurrences.filter Occurrence.isCollected).map (declared place) := by
  induction entity using nestedInduction generalizing place with
  | function f =>
      rw [occurrences, declarations]
      cases hmain : f.isMain <;> simp [Occurrence.isCollected, hmain, declared]
  | around enclosure children ih =>
      have hinside : Occurrence.isCollected ∘ Occurrence.inside enclosure = fun o =>
          enclosure.isMain && !enclosure.isAnonymous && o.isCollected :=
        funext (Occurrence.isCollected_inside enclosure)
      rw [declarations_around, occurrences_around, List.filter_map, List.map_map, hinside]
      -- A node that is not entered declares nothing, and no function inside of it is collected.
      by_cases hopen : (enclosure.isMain && !enclosure.isAnonymous) = true
      · simp only [hopen, if_true, Bool.true_and]
        exact declarationsOfAll_eq_of_forall (fun child hchild => ih child hchild _) 0
      · simp [hopen]

/-! ## Nodes that change nothing -/

/-- Whether some siblings, at the top or further inside, are put into a node of the input file that
is neither a namespace nor a class. -/
inductive Wraps : List Entity → List Entity → Prop
  | here (before run after : List Entity) :
      Wraps (before ++ run ++ after) (before ++ .other true run :: after)
  | within (before after : List Entity) (enclosure : Enclosure) {children wrapped : List Entity}
      (inner : Wraps children wrapped) :
      Wraps (before ++ enclosure.around children :: after)
        (before ++ enclosure.around wrapped :: after)

theorem declarationsOfAll_append (place : Place) (before after : List Entity) :
    declarationsOfAll place (before ++ after) =
      declarationsOfAll place before ++ declarationsOfAll place after := by
  simp only [declarationsOfAll_eq_flatMap, List.flatMap_append]

theorem declarationsOfAll_of_wraps {entities wrapped : List Entity} (h : Wraps entities wrapped)
    (place : Place) : declarationsOfAll place wrapped = declarationsOfAll place entities := by
  induction h generalizing place with
  | here before run after =>
      rw [List.append_assoc, declarationsOfAll_append, declarationsOfAll_append,
        declarationsOfAll_append, declarationsOfAll, declarations, if_pos rfl]
  | within before after enclosure _ ih =>
      rw [declarationsOfAll_append, declarationsOfAll_append, declarationsOfAll, declarationsOfAll,
        declarations_around, declarations_around, ih]

end Entity

namespace Header

/-- The declarations of a header are those of its collected functions, each by what is around it, in
the order of the tree. Putting siblings into a node that is neither a namespace nor a class changes
nothing. -/
theorem declares_collected_in_order (header : Header) :
    (∃ listed : List Occurrence,
      (∀ o, o ∈ listed ↔ o.StandsIn header.entities ∧ o.function.isMain = true ∧
        ∀ e ∈ o.enclosures, e.isMain = true ∧ e.isAnonymous = false) ∧
      listed.Pairwise Occurrence.Before ∧
      List.Forall₂ Occurrence.DeclaredBy listed header.declarations) ∧
    ∀ wrapped, Entity.Wraps header.entities wrapped →
      { header with entities := wrapped }.declarations = header.declarations := by
  refine ⟨⟨(Entity.occurrencesFrom 0 header.entities).filter Occurrence.isCollected, ?_, ?_, ?_⟩,
    fun wrapped h => Entity.declarationsOfAll_of_wraps h {}⟩
  · intro o
    rw [List.mem_filter, Entity.mem_occurrencesFrom_zero_iff, Occurrence.isCollected_iff]
  · exact (Entity.pairwise_occurrencesFrom 0 header.entities).filter _
  · have hdeclarations : header.declarations =
        ((Entity.occurrencesFrom 0 header.entities).filter Occurrence.isCollected).map
          (Entity.declared {}) :=
      Entity.declarationsOfAll_eq_of_forall (fun entity _ => entity.declarations_eq {}) 0
    rw [hdeclarations, List.forall₂_map_right_iff, List.forall₂_same]
    exact fun o _ => o.declaredBy_declaration

/-- Two members of a class template, one with an unnamed parameter, beside a function of an unnamed
namespace, once as they stand and once with the members in a node of their own. -/
theorem declares_collected_in_order_of_members :
    let get := Entity.function
      { name := "get", returnType := .arithmetic .int, access := .isPrivate }
    let put := Entity.function
      { name := "put", returnType := .void, parameters := [(" ", .arithmetic .int)] }
    let hidden := Entity.scope "" true [.function { name := "f", returnType := .void }]
    let header : Header :=
      { entities := [.scope "ns" true [.record "Box" true true [get, put]], hidden] }
    let wrapped : List Entity :=
      [.scope "ns" true [.record "Box" true true [.other true [get, put]]], hidden]
    Entity.Wraps header.entities wrapped ∧
      ({ header with entities := wrapped } : Header).declarations.map
          (fun d => (d.qualifiedName, d.access, d.traits.isTemplate, d.parameters.map (·.name))) =
        [("ns::Box::get", .isPrivate, true, []),
          ("ns::Box::put", .isPublic, true, ["_unnamedArg0"])] := by
  intro get put hidden header wrapped
  have hwraps : Entity.Wraps header.entities wrapped :=
    .within [] [hidden] (.scope "ns" true)
      (.within [] [] (.record "Box" true true) (.here [] [get, put] []))
  refine ⟨hwraps, ?_⟩
  rw [(declares_collected_in_order header).2 wrapped hwraps]
  decide

end Header

end Understudy

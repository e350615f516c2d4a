import Mathlib.Data.List.Lex
import Understudy.Header.Declarations

/-! # The tree of a header

A function stands in the tree of a header at an address, which gives the place of each node on the
way down among its siblings. A node stands before another in the tree when its address comes first
in lexicographic order. This is how the functions are listed here: all of them, each once and in
their order, with what encloses them.
-/

namespace Understudy

/-- A node that encloses others, without what it encloses. -/
inductive Enclosure where
  | scope (name : String) (isMain : Bool)
  | record (name : String) (isMain isTemplate : Bool)
  | other (isMain : Bool)
  deriving DecidableEq, Repr

namespace Enclosure

/-- The node with what it encloses. -/
def around : Enclosure → List Entity → Entity
  | scope name isMain, children => .scope name isMain children
  | record name isMain isTemplate, children => .record name isMain isTemplate children
  | other isMain, children => .other isMain children

end Enclosure

namespace Entity

/-- An entity is a function, or encloses entities for which the property is known. -/
theorem nestedInduction {motive : Entity → Prop} (function : ∀ f, motive (.function f))
    (around : ∀ (enclosure : Enclosure) (children : List Entity),
      (∀ child ∈ children, motive child) → motive (enclosure.around children))
    (entity : Entity) : motive entity :=
  @Entity.rec motive (fun entities => ∀ child ∈ entities, motive child)
    (fun name isMain => around (.scope name isMain))
    (fun name isMain isTemplate => around (.record name isMain isTemplate))
    function
    (fun isMain => around (.other isMain))
    (List.forall_mem_nil motive)
    (fun _ _ hentity hentities => List.forall_mem_cons.mpr ⟨hentity, hentities⟩)
    entity

end Entity

/-- A function in a tree. -/
structure Occurrence where
  /-- The place of each node on the way down among its siblings, the function's own place last. -/
  address : List Nat
  /-- The nodes around the function, outermost first. -/
  enclosures : List Enclosure
  function : FunctionEntity
  deriving DecidableEq, Repr

namespace Occurrence

/-- A function of the node at place `i`, seen from the siblings of that node. -/
def atPlace (i : Nat) (o : Occurrence) : Occurrence := { o with address := i :: o.address }

/-- A function inside an enclosing node, seen from that node. -/
def inside (enclosure : Enclosure) (o : Occurrence) : Occurrence :=
  { o with enclosures := enclosure :: o.enclosures }

/-- One function before another in the tree. -/
def Before (a b : Occurrence) : Prop := a.address < b.address

/-- Whether a function stands among some sibling nodes or inside them. -/
inductive StandsIn : List Entity → Occurrence → Prop
  | among {entities : List Entity} {i : Nat} {f : FunctionEntity}
      (h : entities[i]? = some (.function f)) : StandsIn entities ⟨[i], [], f⟩
  | within {entities children : List Entity} {i : Nat} {enclosure : Enclosure} {o : Occurrence}
      (h : entities[i]? = some (enclosure.around children)) (inner : StandsIn children o) :
      StandsIn entities ((o.inside enclosure).atPlace i)

end Occurrence

namespace Entity

mutual

/-- The functions of an entity, seen from the entity itself. -/
def occurrences : Entity → List Occurrence
  | scope name isMain children =>
    (occurrencesFrom 0 children).map (·.inside (.scope name isMain))
  | record name isMain isTemplate children =>
    (occurrencesFrom 0 children).map (·.inside (.record name isMain isTemplate))
  | function f => [⟨[], [], f⟩]
  | other isMain children => (occurrencesFrom 0 children).map (·.inside (.other isMain))

/-- The functions of the siblings from place `i` on. -/
def occurrencesFrom (i : Nat) : List Entity → List Occurrence
  | [] => []
  | entity :: entities => (occurrences entity).map (·.atPlace i) ++ occurrencesFrom (i + 1) entities

end

theorem occurrences_around (enclosure : Enclosure) (children : List Entity) :
    (enclosure.around children).occurrences =
      (occurrencesFrom 0 children).map (·.inside enclosure) := by
  cases enclosure <;> rw [Enclosure.around, occurrences]

theorem mem_occurrencesFrom_iff {i : Nat} {entities : List Entity} {o : Occurrence} :
    o ∈ occurrencesFrom i entities ↔
      ∃ (k : Nat) (entity : Entity), entities[k]? = some entity ∧
        ∃ p ∈ entity.occurrences, p.atPlace (i + k) = o := by
  induction entities generalizing i with
  | nil => simp [occurrencesFrom]
  | cons entity entities ih =>
      rw [occurrencesFrom, List.mem_append, List.mem_map, ih]
      constructor
      · rintro (⟨p, hp, rfl⟩ | ⟨k, found, hfound, p, hp, rfl⟩)
        · exact ⟨0, entity, rfl, p, hp, rfl⟩
        · exact ⟨k + 1, found, hfound, p, hp, by rw [Nat.add_right_comm, Nat.add_assoc]⟩
      · rintro ⟨k, found, hfound, p, hp, rfl⟩
        cases k with
        | zero =>
            cases hfound
            exact .inl ⟨p, hp, rfl⟩
        | succ k => exact .inr ⟨k, found, hfound, p, hp, by rw [Nat.add_right_comm, Nat.add_assoc]⟩

theorem standsIn_of_mem_occurrences (entity : Entity) :
    ∀ p ∈ entity.occurrences, ∀ (entities : List Entity) (i : Nat),
      entities[i]? = some entity → (p.atPlace i).StandsIn entities := by
  induction entity using nestedInduction with
  | function f =>
      intro p hp entities i hentity
      rw [occurrences, List.mem_singleton] at hp
      subst hp
      exact .among hentity
  | around enclosure children ih =>
      -- What is inside is looked up among the children, so the siblings are any in the induction.
      intro p hp entities i hentity
      rw [occurrences_around, List.mem_map] at hp
      obtain ⟨o, ho, rfl⟩ := hp
      obtain ⟨k, child, hchild, inner, hinner, rfl⟩ := mem_occurrencesFrom_iff.mp ho
      rw [Nat.zero_add]
      exact .within hentity (ih child (List.mem_of_getElem? hchild) inner hinner children k hchild)

/-- What stands in a list of siblings is what is listed of them. -/
theorem mem_occurrencesFrom_zero_iff {entities : List Entity} {o : Occurrence} :
    o ∈ occurrencesFrom 0 entities ↔ o.StandsIn entities := by
  constructor
  · intro ho
    obtain ⟨k, entity, hentity, p, hp, rfl⟩ := mem_occurrencesFrom_iff.mp ho
    rw [Nat.zero_add]
    exact standsIn_of_mem_occurrences entity p hp entities k hentity
  · intro ho
    induction ho with
    | @among entities i f h =>
        exact mem_occurrencesFrom_iff.mpr ⟨i, _, h, ⟨[], [], f⟩, by simp [occurrences], by
          rw [Nat.zero_add]
          rfl⟩
    | @within entities children i enclosure o h _ ih =>
        refine mem_occurrencesFrom_iff.mpr ⟨i, _, h, o.inside enclosure, ?_, by rw [Nat.zero_add]⟩
        rw [occurrences_around]
        exact List.mem_map_of_mem ih

/-! ## The order -/

theorem pairwise_occurrencesFrom_of_forall {entities : List Entity}
    (h : ∀ entity ∈ entities, entity.occurrences.Pairwise Occurrence.Before) (i : Nat) :
    (occurrencesFrom i entities).Pairwise Occurrence.Before := by
  induction entities generalizing i with
  | nil => exact .nil
  | cons entity entities ih =>
      rw [List.forall_mem_cons] at h
      rw [occurrencesFrom, List.pairwise_append, List.pairwise_map]
      refine ⟨h.1.imp fun hbefore => List.cons_lt_cons_iff.mpr (.inr ⟨rfl, hbefore⟩),
        ih h.2 (i + 1), ?_⟩
      intro a ha b hb
      obtain ⟨p, -, rfl⟩ := List.mem_map.mp ha
      obtain ⟨k, _, _, q, -, rfl⟩ := mem_occurrencesFrom_iff.mp hb
      exact List.cons_lt_cons_iff.mpr (.inl (by omega))

theorem pairwise_occurrences (entity : Entity) :
    entity.occurrences.Pairwise Occurrence.Before := by
  induction entity using nestedInduction with
  | function f => exact List.pairwise_singleton _ _
  | around enclosure children ih =>
      rw [occurrences_around, List.pairwise_map]
      exact pairwise_occurrencesFrom_of_forall ih 0

/-- The functions are listed in the order of the tree. -/
theorem pairwise_occurrencesFrom (i : Nat) (entities : List Entity) :
    (occurrencesFrom i entities).Pairwise Occurrence.Before :=
  pairwise_occurrencesFrom_of_forall (fun entity _ => entity.pairwise_occurrences) i

end Entity

end Understudy

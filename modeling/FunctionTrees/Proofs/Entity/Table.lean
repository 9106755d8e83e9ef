import FunctionTrees.Entity.Table
import FunctionTrees.Proofs.Outcome
import Mathlib.Data.List.Induction

/-!
# What a table makes of the entities that it is offered

* `get?_eq_some_iff`, `nodup_names` : a name gives the one entity that has it;
* `offer_of_mem`, `exists_offer` : a table takes an entity of each name, and no other changes it;
* `offerAll` : the answers to entities that are offered one after the other, and the table after them;
* `taken offers answers` : the entities that were taken;
* `Follows offers answers table` : the answers and the table are those that the names of the offers ask for;
  `Follows.offer` for one more offer, `follows_offerAll` for all of them;
* `indexing_of_offers` : a table that was empty at first is an index of what it has taken, whatever it is offered.
-/

set_option autoImplicit false

namespace FunctionTrees.EntityTable

variable {table : EntityTable} {entity : Entity} {name : String}

/-! ## One table -/

/-- Two places with one name would both be the place of that name. -/
theorem nodup_names (table : EntityTable) : (table.entities.map Entity.name).Nodup := by
  refine Outcome.nodup_of_getElem?_unique fun first second name hfirst hsecond => ?_
  rw [List.getElem?_map, Option.map_eq_some_iff] at hfirst hsecond
  have hplace := (table.indexes name first).2 hfirst
  rw [(table.indexes name second).2 hsecond] at hplace
  exact (Option.some.inj hplace).symm

/-- A name gives the entity at its place. -/
theorem get?_eq_some_iff : table.get? name = some entity ↔ entity ∈ table.entities ∧ entity.name = name := by
  unfold get?
  split
  next place hplace =>
    obtain ⟨found, hfound, hname⟩ := (table.indexes name place).1 hplace
    have hget : table.entities.get ⟨place, table.indexes.lt_length hplace⟩ = found :=
      (List.getElem?_eq_some_iff.1 hfound).2
    rw [hget, Option.some.injEq]
    constructor
    · rintro rfl
      exact ⟨List.mem_of_getElem? hfound, hname⟩
    · rintro ⟨hmem, hentity⟩
      exact List.inj_on_of_nodup_map table.nodup_names (List.mem_of_getElem? hfound) hmem (hname.trans hentity.symm)
  next hnone =>
    refine ⟨fun h => (by cases h), ?_⟩
    rintro ⟨hmem, rfl⟩
    obtain ⟨place, hentity⟩ := List.mem_iff_getElem?.1 hmem
    rw [(table.indexes _ place).2 ⟨entity, hentity, rfl⟩] at hnone
    cases hnone

theorem isSome_get?_iff : (table.get? name).isSome ↔ name ∈ table.entities.map Entity.name := by
  simp only [Option.isSome_iff_exists, get?_eq_some_iff, List.mem_map]

/-! ## Offers -/

def offerAll (offers : List Entity) : StateM EntityTable (List (Except EntityError Unit)) := offers.mapM offer

/-- A table does not change by what it refuses. -/
theorem offer_of_mem (h : entity.name ∈ table.entities.map Entity.name) :
    (offer entity).run table = (.error (.duplicateName entity.name), table) :=
  dif_pos (table.indexes.mem_iff.2 h)

theorem exists_offer (h : entity.name ∉ table.entities.map Entity.name) :
    ∃ next, (offer entity).run table = (.ok (), next) ∧ next.entities = table.entities ++ [entity] :=
  ⟨_, dif_neg (mt table.indexes.mem_iff.1 h), rfl⟩

def taken (offers : List Entity) (answers : List (Except EntityError Unit)) : List Entity :=
  ((offers.zip answers).filter fun answered => answered.2.isOk).map Prod.fst

theorem taken_concat {offers : List Entity} {answers : List (Except EntityError Unit)}
    (h : answers.length = offers.length) (entity : Entity) (answer : Except EntityError Unit) :
    taken (offers ++ [entity]) (answers ++ [answer]) =
      taken offers answers ++ if answer.isOk then [entity] else [] := by
  rw [taken, List.zip_append h.symm, List.filter_append, List.map_append]
  cases answer <;> rfl

/-- The answer to an entity behind some earlier offers, which all have their names in the table. -/
def answerTo (earlier : List Entity) (entity : Entity) : Except EntityError Unit :=
  if entity.name ∈ earlier.map Entity.name then .error (.duplicateName entity.name) else .ok ()

/-! ## Runs -/

/-- The answers and the table are those that the names of the offers ask for. -/
structure Follows (offers : List Entity) (answers : List (Except EntityError Unit)) (table : EntityTable) : Prop where
  answered : answers = offers.zipIdx.map fun (entity, index) => answerTo (offers.take index) entity
  /-- The entities are those that were taken, in the order of their arrival. -/
  entities : table.entities = taken offers answers
  names : ∀ name, name ∈ table.entities.map Entity.name ↔ name ∈ offers.map Entity.name

variable {offers : List Entity} {answers : List (Except EntityError Unit)}

theorem Follows.offer (h : Follows offers answers table) (entity : Entity) :
    let (answer, next) := (offer entity).run table
    Follows (offers ++ [entity]) (answers ++ [answer]) next := by
  have hlength : answers.length = offers.length := by
    rw [h.answered, List.length_map, List.length_zipIdx]
  have hanswers : answers ++ [answerTo offers entity] = (offers ++ [entity]).zipIdx.map fun (entity', index) =>
      answerTo ((offers ++ [entity]).take index) entity' := by
    rw [Outcome.map_zipIdx_concat answerTo, ← h.answered]
  by_cases hmem : entity.name ∈ table.entities.map Entity.name
  · have hanswer : answerTo offers entity = .error (.duplicateName entity.name) := if_pos ((h.names _).1 hmem)
    rw [offer_of_mem hmem, ← hanswer]
    refine ⟨hanswers, ?_, fun name => ?_⟩
    · rw [taken_concat hlength, h.entities, hanswer]
      exact (List.append_nil _).symm
    · rw [h.names, List.map_append, List.mem_append, List.map_singleton, List.mem_singleton]
      refine ⟨.inl, fun hname => hname.elim id ?_⟩
      rintro rfl
      exact (h.names _).1 hmem
  · have hanswer : answerTo offers entity = .ok () := if_neg (mt (h.names _).2 hmem)
    obtain ⟨next, hoffer, hentities⟩ := exists_offer hmem
    rw [hoffer, ← hanswer]
    refine ⟨hanswers, ?_, fun name => ?_⟩
    · rw [hentities, taken_concat hlength, h.entities, hanswer]
      rfl
    · rw [hentities, List.map_append, List.map_append, List.mem_append, List.mem_append, h.names]

theorem follows_offerAll (offers : List Entity) :
    Follows offers ((offerAll offers).run {}).1 ((offerAll offers).run {}).2 := by
  induction offers using List.reverseRecOn with
  | nil => exact ⟨rfl, rfl, fun name => Iff.rfl⟩
  | append_singleton offers entity ih =>
    rw [offerAll, Outcome.run_mapM_append]
    exact ih.offer entity

/-- What was taken of some offers is found under its name, and the names that are held decide what comes next. -/
structure Indexing (offers : List Entity) (answers : List (Except EntityError Unit)) (table : EntityTable) : Prop
    extends Follows offers answers table where
  nodup_names : (table.entities.map Entity.name).Nodup
  get?_iff : ∀ name entity, table.get? name = some entity ↔ entity ∈ taken offers answers ∧ entity.name = name
  places_iff : ∀ name place, table.places[name]? = some place ↔
    ∃ entity : Entity, (taken offers answers)[place]? = some entity ∧ entity.name = name
  held_iff : ∀ name, (table.get? name).isSome ↔ name ∈ offers.map Entity.name
  /-- What has a name that is held is refused, and leaves no trace. -/
  refuses : ∀ entity : Entity, (table.get? entity.name).isSome →
    (offer entity).run table = (.error (.duplicateName entity.name), table)
  takes : ∀ entity : Entity, table.get? entity.name = none →
    ∃ next, (offer entity).run table = (.ok (), next) ∧ next.entities = table.entities ++ [entity]

/-- A table that was empty at first is an index of what it has taken, whatever it is offered. -/
theorem indexing_of_offers (offers : List Entity) :
    Indexing offers ((offerAll offers).run {}).1 ((offerAll offers).run {}).2 := by
  have hfollows := follows_offerAll offers
  generalize ((offerAll offers).run {}).1 = answers at hfollows ⊢
  generalize ((offerAll offers).run {}).2 = table at hfollows ⊢
  refine ⟨hfollows, table.nodup_names, fun name entity => ?_, fun name place => ?_, fun name => ?_,
    fun entity hheld => offer_of_mem (isSome_get?_iff.1 hheld), fun entity hnone => exists_offer ?_⟩
  · rw [← hfollows.entities, get?_eq_some_iff]
  · rw [← hfollows.entities]
    exact table.indexes name place
  · rw [isSome_get?_iff, hfollows.names]
  · rw [← isSome_get?_iff, hnone]
    exact Bool.false_ne_true

/-- Three offers, the last one under the name of the first. -/
theorem indexing_of_offers_repeated :
    let first : Entity := .assemble { name := "f" } rfl
    let second : Entity := .assemble { name := "g" } rfl
    let third : Entity := .assemble { name := "f", returnType := "Int" } rfl
    let run := (offerAll [first, second, third]).run {}
    run.1 = [.ok (), .ok (), .error (.duplicateName "f")] ∧ run.2.entities = [first, second] ∧
      run.2.get? "f" = some first ∧ (offer third).run run.2 = (.error (.duplicateName "f"), run.2) := by
  intro first second third run
  have hindexing : Indexing [first, second, third] run.1 run.2 := indexing_of_offers [first, second, third]
  have hanswers : run.1 = [.ok (), .ok (), .error (.duplicateName "f")] := hindexing.answered
  have hentities : run.2.entities = [first, second] := by
    rw [hindexing.entities, hanswers]
    rfl
  have hget : run.2.get? "f" = some first :=
    get?_eq_some_iff.2 ⟨hentities ▸ List.mem_cons_self, rfl⟩
  exact ⟨hanswers, hentities, hget, hindexing.refuses third (Option.isSome_of_eq_some hget)⟩

end FunctionTrees.EntityTable

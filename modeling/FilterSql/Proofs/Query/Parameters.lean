import FilterSql.Query.Compile
import FilterSql.Proofs.Criteria.Erasure
import FilterSql.Proofs.Query.Clauses
/-!
# Statements and bound values

A statement is written without the values that are bound to its placeholders. So two runs that
differ in such values alone compile to the same statements, with as many bound values, or fail with
the same error.
-/
namespace FilterSql

open Node

theorem eq_compositional : Compositional fun _ s t => s = t :=
  ⟨rfl, fun h h' => by rw [h, h'], rfl, rfl, fun _ => rfl, fun _ => rfl, rfl, rfl⟩

namespace Node

theorem whereClause_map_erase (ns : List Node) : whereClause (ns.map erase) = whereClause ns := by
  refine (eq_compositional.whereClause keepsShape_eraseLeaf rfl fun m _ _ => ?_).symm
  cases m <;> rfl

theorem length_binds_erase (n : Node) : n.erase.binds.length = n.binds.length := by
  induction n using inductionOn with
  | group l ns ih =>
    rw [erase, mapLeaves, mapLeavesList_eq, binds, binds, bindsList_eq, bindsList_eq,
      List.length_flatMap, List.length_flatMap, List.map_map]
    exact congrArg List.sum (List.map_congr_left ih)
  | scalar | range | list | marker => rfl

theorem length_bindsList_erase (ns : List Node) :
    (bindsList (ns.map erase)).length = (bindsList ns).length := by
  induction ns with
  | nil => rfl
  | cons n ns ih =>
    rw [List.map_cons, bindsList, bindsList, List.length_append, List.length_append, ih,
      length_binds_erase]

theorem groupingKey?_map_erase (ns : List Node) : groupingKey? (ns.map erase) = groupingKey? ns := by
  have hgroup : isGroupBy ∘ erase = isGroupBy :=
    funext keepsShape_eraseLeaf.mapLeaves.isGroupBy
  have hkey : key ∘ erase = key := funext erase_key
  rw [groupingKey?, groupingKey?, List.filter_map, hgroup, List.getLast?_map, Option.map_map, hkey]

end Node

/-- Queries with the same statements and names and as many bound values. -/
structure Query.Alike (q q' : Query) : Prop where
  count : q.count = q'.count
  data : q.data = q'.data
  template : q.template = q'.template
  names : q.names = q'.names
  binds : q.binds.length = q'.binds.length

/-- Compilations that fail with one error, or give queries that are alike. -/
def CompiledAlike : Except Error Query → Except Error Query → Prop
  | .ok q, .ok q' => q.Alike q'
  | .error x, .error y => x = y
  | _, _ => False

namespace Criteria

variable {c c' : Criteria}

theorem tail_erase (c : Criteria) : c.erase.tail = c.tail := by
  rw [tail, tail, erase, whereClause_map_erase]
  rfl

theorem template_erase (c : Criteria) : c.erase.template = c.template := by
  rw [template, tail_erase, template]

theorem compile_erase (h : c.erase = c'.erase) (provider : Provider) :
    CompiledAlike (c.compile provider) (c'.compile provider) := by
  have htemplate : c.template = c'.template := by
    rw [← template_erase, h, template_erase]
  have hselect : c.selectList = c'.selectList := (congrArg selectList h :)
  have hresolver (data : String) : c.resolver provider data = c'.resolver provider data :=
    (congrArg (fun d => resolver d provider data) h :)
  have hnodes : c.nodes.map Node.erase = c'.nodes.map Node.erase := (congrArg nodes h :)
  have hkey : groupingKey? c.nodes = groupingKey? c'.nodes := by
    rw [← groupingKey?_map_erase, hnodes, groupingKey?_map_erase]
  have hbinds : (bindsList (conditions c.nodes)).length =
      (bindsList (conditions c'.nodes)).length := by
    rw [← length_bindsList_erase, ← conditions_map_erase, hnodes, conditions_map_erase,
      length_bindsList_erase]
  rw [compile, compile, htemplate, hselect, hresolver]
  cases c'.resolver provider (fillTemplate c'.template c'.selectList) with
  | error x => rfl
  | ok x => exact ⟨by rw [hkey], rfl, rfl, rfl, hbinds⟩

/-- Two runs from one criteria whose operations differ in the values of comparisons alone, and in
which the same filters are dropped, answer alike and compile alike. -/
theorem runAll_compile_alike (c : Criteria) (provider : Provider) {os os' : List Operation}
    (h : List.Forall₂ (Operation.Alike c.target) os os') :
    (c.runAll os).2.map Answer.erase = (c.runAll os').2.map Answer.erase ∧
      CompiledAlike ((c.runAll os).1.compile provider) ((c.runAll os').1.compile provider) := by
  obtain ⟨hrun, hanswers⟩ := runAll_erase h rfl rfl
  exact ⟨hanswers, compile_erase hrun provider⟩

end Criteria

def userRunWith (bound : Int64) (pattern : String) : List Operation :=
  [.step (.filter .and ⟨"id", .compare .gt (.int bound)⟩),
    .step (.group .or [.filter .and ⟨"name", .like (.text pattern)⟩,
      .filter .or ⟨"age", .compare .eq (.int bound)⟩]),
    .step (.filter .and ⟨"name", .among false [.text "O'Brien", .text "?"]⟩),
    .groupBy "name"]

theorem userRunWith_alike : List.Forall₂ (Operation.Alike (Criteria.plain userEntity).target)
    (userRunWith 7 "x'") (userRunWith 9 "y?") := by
  have hid : Filter.Alike (Criteria.plain userEntity).target ⟨"id", .compare .gt (.int 7)⟩
      ⟨"id", .compare .gt (.int 9)⟩ := ⟨rfl, .compare .., fun c => iff_of_false nofun nofun⟩
  have hname : Filter.Alike (Criteria.plain userEntity).target ⟨"name", .like (.text "x'")⟩
      ⟨"name", .like (.text "y?")⟩ := ⟨rfl, .like .., fun c => iff_of_false nofun nofun⟩
  have hage : Filter.Alike (Criteria.plain userEntity).target ⟨"age", .compare .eq (.int 7)⟩
      ⟨"age", .compare .eq (.int 9)⟩ := ⟨rfl, .compare .., fun c => iff_of_false nofun nofun⟩
  have hnames : Filter.Alike (Criteria.plain userEntity).target
      ⟨"name", .among false [.text "O'Brien", .text "?"]⟩
      ⟨"name", .among false [.text "O'Brien", .text "?"]⟩ := ⟨rfl, .among .., fun c => Iff.rfl⟩
  exact .cons ⟨rfl, hid⟩ (.cons ⟨rfl, ⟨rfl, hname⟩, ⟨rfl, hage⟩, trivial⟩
    (.cons ⟨rfl, hnames⟩ (.cons rfl .nil)))

theorem compile_userRunWith_alike :
    ∃ q q', ((Criteria.plain userEntity).runAll (userRunWith 7 "x'")).1.compile
        (Registry.ofList [userEntity]).resolve = .ok q ∧
      ((Criteria.plain userEntity).runAll (userRunWith 9 "y?")).1.compile
        (Registry.ofList [userEntity]).resolve = .ok q' ∧ q.Alike q' :=
  ⟨_, _, rfl, rfl, (Criteria.runAll_compile_alike (Criteria.plain userEntity)
    (Registry.ofList [userEntity]).resolve userRunWith_alike).2⟩

end FilterSql

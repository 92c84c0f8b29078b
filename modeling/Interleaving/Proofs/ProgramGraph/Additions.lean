import Interleaving.Proofs.Computation
import Interleaving.Proofs.ProgramGraph.References

/-!
# Assembly Step by Step

A graph is assembled by a sequence of additions, to nothing or to a graph that was put
together freely and may refer to locations it does not have. What is added brings its own
locations along, so an addition breaks no reference. It may mend some, by bringing a location
that an older part of the graph refers to. When the assembly is over, the references that are
still broken are those of the graph it started from to locations that nobody has brought.

All additions together have one effect on each part of the graph, whatever their order among
the others: the names of locations and of initial locations are added to theirs, the edges and
the initializations stand after those that were there, and the last name counts. So an edge
that was there before keeps its index, and a broken reference is reported under the index it
always had.

## Main definitions

* `Addition`: One step of an assembly.
* `Addition.apply`, `ProgramGraph.assembleWith`: A step, and a whole assembly.
* `ProgramGraph.extended`: A graph with everything that additions bring.
* `Violation.Precedes`: The order in which violations are reported.
* `ProgramGraph.ListsBroken`: A list of the broken references of a graph, each once and in
  order.

## Theorems

* `ProgramGraph.apply_of_complete`, `ProgramGraph.foldlM_apply_of_complete`: What one step and
  what all steps do.
* `ProgramGraph.listsBroken_violations`: The violations of a graph are its broken references.
* `ProgramGraph.ListsBroken.of_extended`: Additions break no reference.
* `assembly_reports_what_stays_broken`: What comes out of every assembly.
-/

namespace Interleaving

variable {L : Type}

/-- One step of an assembly. -/
inductive Addition (L : Type) where
  | name (new : String)
  | location (location : L)
  | initial (location : L)
  | initialization (actions : List String)
  /-- An edge from parts, which may turn out to be incomplete. -/
  | parts (given : Edge.Parts L)
  | edge (e : Edge L)
  | edges (es : List (Edge L))

/-- The locations at the ends of an edge. -/
def Edge.ends (e : Edge L) : List L :=
  [e.source, e.target]

namespace Addition

/-- An edge that is added from parts has all of them. -/
@[simp] def Complete : Addition L → Prop
  | .parts given => given.source.isSome ∧ given.target.isSome ∧ given.action.isSome
  | _ => True

/-- The name of the graph afterwards. -/
@[simp] def rename (old : String) : Addition L → String
  | .name new => new
  | _ => old

/-- The edges that are added. -/
@[simp] def brings : Addition L → List (Edge L)
  | .parts ⟨some source, some target, condition, some action⟩ =>
    [.make source condition action target]
  | .edge e => [e]
  | .edges es => es
  | _ => []

/-- The initial locations that are added. -/
@[simp] def starts : Addition L → List L
  | .initial l => [l]
  | _ => []

/-- The locations that are added: those named by themselves and the ends of new edges. -/
@[simp] def registers : Addition L → List L
  | .location l => [l]
  | .initial l => [l]
  | addition => addition.brings.flatMap Edge.ends

/-- The initialization sequences that are added. -/
@[simp] def initializes : Addition L → List (List String)
  | .initialization actions => [actions]
  | _ => []

/-- The graph after a step. -/
@[simp] def apply [DecidableEq L] (g : ProgramGraph L) :
    Addition L → Except (AssemblyError L) (ProgramGraph L)
  | .name new => .ok { g with name := new }
  | .location l => .ok (g.withLocation l)
  | .initial l => .ok (g.includeInitial l)
  | .initialization actions => .ok (g.withInitialization actions)
  | .parts given => given.assemble.map g.includeEdge
  | .edge e => .ok (g.includeEdge e)
  | .edges es => .ok (es.foldl ProgramGraph.includeEdge g)

theorem mem_registers_of_mem_starts {addition : Addition L} {l : L}
    (h : l ∈ addition.starts) : l ∈ addition.registers := by
  cases addition <;> simp_all

theorem mem_registers_of_mem_brings {addition : Addition L} {e : Edge L} {l : L}
    (h : e ∈ addition.brings) (hl : l ∈ e.ends) : l ∈ addition.registers := by
  have hall : l ∈ addition.brings.flatMap Edge.ends := List.mem_flatMap.mpr ⟨e, h, hl⟩
  cases addition with
  | location l => cases h
  | initial l => cases h
  | _ => exact hall

end Addition

/-- The place of a violation in a report: those about initial locations come first, then
    those about edges by index, the source before the target. -/
def Violation.rank : Violation L → Nat
  | initial _ => 0
  | source index _ => 2 * index + 1
  | target index _ => 2 * index + 2

/-- A violation is reported before another one. Initial locations have no order among them. -/
def Violation.Precedes (v w : Violation L) : Prop :=
  v.rank < w.rank ∨ (v.rank = 0 ∧ w.rank = 0 ∧ v ≠ w)

theorem Violation.Precedes.ne {v w : Violation L} (h : v.Precedes w) : v ≠ w := by
  rintro rfl
  rcases h with hlt | ⟨-, -, hne⟩
  · exact Nat.lt_irrefl _ hlt
  · exact hne rfl

namespace ProgramGraph

/-- A report has each reference of the graph to a location that is not known, once and in
    order. -/
structure ListsBroken (g : ProgramGraph L) (known : L → Prop) (report : List (Violation L)) :
    Prop where
  nodup : report.Nodup
  ordered : report.Pairwise Violation.Precedes
  initial_iff : ∀ l, .initial l ∈ report ↔ l ∈ g.initial ∧ ¬ known l
  source_iff : ∀ index l, .source index l ∈ report ↔
    (∃ e, g.edges[index]? = some e ∧ e.source = l) ∧ ¬ known l
  target_iff : ∀ index l, .target index l ∈ report ↔
    (∃ e, g.edges[index]? = some e ∧ e.target = l) ∧ ¬ known l

theorem ListsBroken.eq_nil_of_empty {known : L → Prop} {report : List (Violation L)}
    (h : (empty : ProgramGraph L).ListsBroken known report) : report = [] := by
  rw [List.eq_nil_iff_forall_not_mem]
  intro v hv
  cases v with
  | initial l => cases ((h.initial_iff l).mp hv).1
  | source index l =>
      rcases ((h.source_iff index l).mp hv).1 with ⟨e, he, -⟩
      cases he
  | target index l =>
      rcases ((h.target_iff index l).mp hv).1 with ⟨e, he, -⟩
      cases he

variable [DecidableEq L] {g : ProgramGraph L}

/-- The graph with everything that additions bring. -/
def extended (g : ProgramGraph L) (additions : List (Addition L)) : ProgramGraph L where
  name := additions.foldl Addition.rename g.name
  locations := (additions.flatMap Addition.registers).foldl OrderedSet.insert g.locations
  initial := (additions.flatMap Addition.starts).foldl OrderedSet.insert g.initial
  edges := g.edges ++ additions.flatMap Addition.brings
  initializations := g.initializations ++ additions.flatMap Addition.initializes

/-- The graph that comes out of an assembly. -/
def assembleWith (g : ProgramGraph L) (additions : List (Addition L)) :
    Except (AssemblyError L) (ProgramGraph L) := do
  (← additions.foldlM Addition.apply g).assembled

theorem includeEdge_eq (g : ProgramGraph L) (e : Edge L) :
    g.includeEdge e =
      { g with
        locations := e.ends.foldl OrderedSet.insert g.locations
        edges := g.edges ++ [e] } := rfl

theorem foldl_includeEdge (g : ProgramGraph L) (es : List (Edge L)) :
    es.foldl includeEdge g =
      { g with
        locations := (es.flatMap Edge.ends).foldl OrderedSet.insert g.locations
        edges := g.edges ++ es } := by
  induction es generalizing g with
  | nil => simp
  | cons e rest ih =>
      rw [List.foldl_cons, ih, includeEdge_eq]
      simp

theorem extended_append (g : ProgramGraph L) (first second : List (Addition L)) :
    (g.extended first).extended second = g.extended (first ++ second) := by
  simp [extended]

theorem extended_singleton (g : ProgramGraph L) (addition : Addition L) :
    g.extended [addition] =
      ⟨addition.rename g.name, addition.registers.foldl OrderedSet.insert g.locations,
        addition.starts.foldl OrderedSet.insert g.initial, g.edges ++ addition.brings,
        g.initializations ++ addition.initializes⟩ := by
  simp [extended]

/-- A step adds to each part of the graph what it brings for it. -/
theorem apply_of_complete (g : ProgramGraph L) {addition : Addition L}
    (h : addition.Complete) : addition.apply g = .ok (g.extended [addition]) := by
  rw [extended_singleton]
  cases addition with
  | name new => simp
  | location l => simp [withLocation, addLocation]
  | initial l => simp [includeInitial, withLocation, addLocation, markInitial]
  | initialization actions => simp [withInitialization]
  | parts given =>
      rcases given with ⟨_ | source, _ | target, condition, _ | action⟩ <;> simp at h
      simp [Edge.Parts.assemble, Except.map, includeEdge_eq]
  | edge e => simp [includeEdge_eq]
  | edges es => simp [foldl_includeEdge]

/-- So do all the steps of an assembly, one after the other. -/
theorem foldlM_apply_of_complete (g : ProgramGraph L) {additions : List (Addition L)}
    (h : ∀ addition ∈ additions, addition.Complete) :
    additions.foldlM Addition.apply g = .ok (g.extended additions) := by
  induction additions generalizing g with
  | nil => simp [extended, pure, Except.pure]
  | cons addition rest ih =>
      -- The rest is added to the graph that the first step has made.
      rcases List.forall_mem_cons.mp h with ⟨hfirst, hrest⟩
      rw [List.foldlM_cons, apply_of_complete g hfirst]
      exact (ih (g.extended [addition]) hrest).trans (congrArg _ (g.extended_append _ _))

theorem mem_check_iff {location : L} {v w : Violation L} :
    v ∈ g.check location w ↔ v = w ∧ location ∉ g.locations := by
  by_cases h : location ∈ g.locations <;> simp [check, h]

theorem mem_violations_iff {v : Violation L} : v ∈ g.violations ↔
    (∃ l ∈ g.initial, v = .initial l ∧ l ∉ g.locations) ∨
      ∃ e index, g.edges[index]? = some e ∧
        ((v = .source index e.source ∧ e.source ∉ g.locations) ∨
          (v = .target index e.target ∧ e.target ∉ g.locations)) := by
  simp only [violations, List.mem_append, List.mem_flatMap, mem_check_iff, Prod.exists,
    List.mk_mem_zipIdx_iff_getElem?]
  rfl

theorem pairwise_check {location : L} {v : Violation L} :
    (g.check location v).Pairwise Violation.Precedes := by
  by_cases h : location ∈ g.locations <;> simp [check, h]

theorem rank_bounds {e : Edge L} {index : Nat} {v : Violation L}
    (h : v ∈ g.check e.source (.source index e.source) ++
      g.check e.target (.target index e.target)) :
    2 * index + 1 ≤ v.rank ∧ v.rank ≤ 2 * index + 2 := by
  rcases List.mem_append.mp h with hsource | htarget
  · rw [(mem_check_iff.mp hsource).1, Violation.rank]
    omega
  · rw [(mem_check_iff.mp htarget).1, Violation.rank]
    omega

theorem pairwise_violations (g : ProgramGraph L) : g.violations.Pairwise Violation.Precedes := by
  rw [violations, List.pairwise_append, List.pairwise_flatMap, List.pairwise_flatMap]
  refine ⟨⟨fun _ _ => pairwise_check, ?_⟩, ⟨?_, ?_⟩, ?_⟩
  · -- Two initial locations are different.
    refine g.initial.nodup.imp ?_
    intro l l' hne v hv w hw
    rw [(mem_check_iff.mp hv).1, (mem_check_iff.mp hw).1]
    exact Or.inr ⟨rfl, rfl, fun heq => hne (Violation.initial.inj heq)⟩
  · -- The source of an edge comes before its target.
    intro pair _
    refine List.pairwise_append.mpr ⟨pairwise_check, pairwise_check, ?_⟩
    intro v hv w hw
    rw [(mem_check_iff.mp hv).1, (mem_check_iff.mp hw).1]
    exact Or.inl (Nat.lt_succ_self _)
  · -- Both come before those of an edge with a greater index.
    refine g.pairwise_lt_zipIdx_edges.imp ?_
    intro pair other hlt v hv w hw
    have hv := rank_bounds hv
    have hw := rank_bounds hw
    exact Or.inl (by omega)
  · -- Edges come after initial locations.
    intro v hv w hw
    rcases List.mem_flatMap.mp hv with ⟨l, -, hv⟩
    rcases List.mem_flatMap.mp hw with ⟨pair, -, hw⟩
    have hpos := (rank_bounds hw).1
    rw [(mem_check_iff.mp hv).1]
    exact Or.inl (Nat.lt_of_lt_of_le (Nat.succ_pos _) hpos)

/-- The violations of a graph are its broken references. -/
theorem listsBroken_violations (g : ProgramGraph L) :
    g.ListsBroken (· ∈ g.locations) g.violations where
  nodup := g.pairwise_violations.imp Violation.Precedes.ne
  ordered := g.pairwise_violations
  initial_iff := by
    intro l
    rw [mem_violations_iff]
    grind
  source_iff := by
    intro index l
    rw [mem_violations_iff]
    grind
  target_iff := by
    intro index l
    rw [mem_violations_iff]
    grind

section Broken

variable {additions : List (Addition L)} {l : L}

theorem mem_locations_extended_iff : l ∈ (g.extended additions).locations ↔
    l ∈ g.locations ∨ l ∈ additions.flatMap Addition.registers :=
  OrderedSet.mem_foldl_insert

theorem mem_initial_extended_iff : l ∈ (g.extended additions).initial ↔
    l ∈ g.initial ∨ l ∈ additions.flatMap Addition.starts :=
  OrderedSet.mem_foldl_insert

theorem isEmpty_initial_extended_iff : (g.extended additions).initial.isEmpty = true ↔
    g.initial.isEmpty = true ∧ additions.flatMap Addition.starts = [] := by
  have hempty : ∀ s : OrderedSet L, s.isEmpty = true ↔ ∀ l, l ∉ s := by
    intro s
    rw [OrderedSet.isEmpty, List.isEmpty_iff, List.eq_nil_iff_forall_not_mem]
    rfl
  rw [hempty, hempty, List.eq_nil_iff_forall_not_mem, ← forall_and]
  simp only [mem_initial_extended_iff, not_or]

/-- An edge that refers to an unknown location was there before the additions, under the
    same index. -/
theorem exists_edge_extended_iff {side : Edge L → L} (hside : ∀ e, side e ∈ e.ends)
    {index : Nat} (hl : l ∉ additions.flatMap Addition.registers) :
    (∃ e, (g.extended additions).edges[index]? = some e ∧ side e = l) ↔
      ∃ e, g.edges[index]? = some e ∧ side e = l := by
  by_cases hindex : index < g.edges.length
  · rw [extended, List.getElem?_append_left hindex]
  · have hnone : g.edges[index]? = none := List.getElem?_eq_none (Nat.le_of_not_lt hindex)
    rw [extended, List.getElem?_append_right (Nat.le_of_not_lt hindex), hnone]
    constructor
    · -- Past the old edges there are only new ones, and those have registered their ends.
      rintro ⟨e, he, rfl⟩
      rcases List.mem_flatMap.mp (List.mem_of_getElem? he) with ⟨addition, hmem, hbrings⟩
      exact absurd (List.mem_flatMap.mpr
        ⟨addition, hmem, Addition.mem_registers_of_mem_brings hbrings (hside e)⟩) hl
    · rintro ⟨e, he, -⟩
      cases he

/-- Additions break no reference: what is broken after them was broken before. -/
theorem ListsBroken.of_extended {report : List (Violation L)}
    (h : (g.extended additions).ListsBroken (· ∈ (g.extended additions).locations) report) :
    g.ListsBroken (fun l => l ∈ g.locations ∨ l ∈ additions.flatMap Addition.registers)
      report where
  nodup := h.nodup
  ordered := h.ordered
  initial_iff := by
    intro l
    rw [h.initial_iff, mem_locations_extended_iff, mem_initial_extended_iff]
    refine and_congr_left fun hl => or_iff_left ?_
    intro hstart
    rcases List.mem_flatMap.mp hstart with ⟨addition, hmem, hstart⟩
    exact hl (Or.inr (List.mem_flatMap.mpr
      ⟨addition, hmem, Addition.mem_registers_of_mem_starts hstart⟩))
  source_iff := by
    intro index l
    rw [h.source_iff, mem_locations_extended_iff]
    refine and_congr_left fun hl => exists_edge_extended_iff ?_ (fun hnew => hl (Or.inr hnew))
    exact fun e => List.mem_cons_self
  target_iff := by
    intro index l
    rw [h.target_iff, mem_locations_extended_iff]
    refine and_congr_left fun hl => exists_edge_extended_iff ?_ (fun hnew => hl (Or.inr hnew))
    exact fun e => List.mem_cons_of_mem _ List.mem_cons_self

theorem assembled_eq (g : ProgramGraph L) :
    g.assembled =
      if g.initial.isEmpty then .error .missingInitial
      else if g.violations.isEmpty then .ok g else .error (.invalid g.violations) := by
  rw [assembled]
  cases g.violations with
  | nil => rfl
  | cons v rest => rfl

theorem assembleWith_of_complete (g : ProgramGraph L)
    (h : ∀ addition ∈ additions, addition.Complete) :
    g.assembleWith additions =
      if g.initial.isEmpty ∧ additions.flatMap Addition.starts = [] then .error .missingInitial
      else if (g.extended additions).violations.isEmpty then .ok (g.extended additions)
      else .error (.invalid (g.extended additions).violations) := by
  rw [assembleWith, foldlM_apply_of_complete g h]
  refine (assembled_eq (g.extended additions)).trans ?_
  simp only [isEmpty_initial_extended_iff]

end Broken

end ProgramGraph

open ProgramGraph

/-- Every assembly without incomplete edges comes to one of three ends. It reports that no
    location is initial if neither the graph it started from nor an addition has one. Else it
    reports, if there are any, the references of that graph to locations that neither the
    graph nor an addition has: each one once, the initial locations first, then by the index
    of the edge its source and its target. Else it gives the graph with everything that was
    added, the edges in the order of the additions. An assembly from nothing has no broken
    references to report. -/
theorem assembly_reports_what_stays_broken [DecidableEq L] (g : ProgramGraph L)
    (additions : List (Addition L)) (hcomplete : ∀ addition ∈ additions, addition.Complete) :
    (∃ report,
      g.ListsBroken (fun l => l ∈ g.locations ∨ l ∈ additions.flatMap Addition.registers)
        report ∧
      g.assembleWith additions =
        if g.initial.isEmpty ∧ additions.flatMap Addition.starts = [] then
          .error .missingInitial
        else if report.isEmpty then .ok (g.extended additions)
        else .error (.invalid report)) ∧
    ∀ report, (empty : ProgramGraph L).assembleWith additions ≠ .error (.invalid report) := by
  refine ⟨⟨_, (listsBroken_violations _).of_extended, assembleWith_of_complete g hcomplete⟩, ?_⟩
  intro report
  -- The empty graph refers to nothing, so there is nothing left to report.
  rw [assembleWith_of_complete empty hcomplete,
    (listsBroken_violations _).of_extended.eq_nil_of_empty]
  split <;> simp

/-- The reference to `b` is mended by its name alone and the one to `d` by an edge. Those to
    `start` and to `c` stay broken. -/
theorem patch_reports_what_stays_broken :
    let g : ProgramGraph String :=
      ⟨"", .ofList ["a"], .ofList ["start"],
        [.make "a" "" "skip" "b", .make "c" "" "skip" "a", .make "d" "" "skip" "c"], []⟩
    let additions : List (Addition String) :=
      [.location "b", .parts ⟨some "a", some "d", "x > 0", some "skip"⟩, .initial "a"]
    let report : List (Violation String) := [.initial "start", .source 1 "c", .target 2 "c"]
    (∀ addition ∈ additions, addition.Complete) ∧
    g.assembleWith additions = .error (.invalid report) ∧
    g.ListsBroken (fun l => l ∈ g.locations ∨ l ∈ additions.flatMap Addition.registers)
      report := by
  intro g additions report
  have hcomplete : ∀ addition ∈ additions, addition.Complete := by simp [additions]
  have hrun : g.assembleWith additions = .error (.invalid report) := by decide +kernel
  refine ⟨hcomplete, hrun, ?_⟩
  rcases (assembly_reports_what_stays_broken g additions hcomplete).1 with
    ⟨found, hfound, hresult⟩
  rw [hrun] at hresult
  split at hresult
  · cases hresult
  · split at hresult
    · cases hresult
    · cases hresult
      exact hfound

end Interleaving

import AttrChain.Proofs.Cuts
import AttrChain.Proofs.Results
import AttrChain.Descriptor.Printer
import AttrChain.Stage.Build
import Mathlib.Data.List.Induction

/-!
What a group is compiled into. If its three texts can be read and every name is in the table of its
phase, the chain has a cell for each call, query and update that the texts say, in the order of the
phases and linked one behind the other. Otherwise the group fails with the first error: of the
texts in their order, then of the names in the order of the cells.
-/

namespace AttrChain

variable {ι : Type}

/-- A cell with its links, to the cell behind it and back to the one in front of it. -/
structure Link (ι : Type) where
  cell : Cell ι
  next : Option Nat
  back : Option Nat

/-- A cell is linked behind the last one, and only a prune is linked back to it. -/
def Link.behind (links : List (Link ι)) (cell : Cell ι) : List (Link ι) :=
  links.modify (links.length - 1) (fun last => { last with next := some links.length }) ++
    [⟨cell, none, if cell.isPrune then some (links.length - 1) else none⟩]

namespace Chain

def links (c : Chain ι) : List (Link ι) :=
  c.cells.mapIdx fun i cell => ⟨cell, c.next? i, c.prev? i⟩

section Linking

variable (triggers : List Trigger) (cells : List (Cell ι)) (cell : Cell ι) (i : Nat)

theorem next?_ofCells : (ofCells triggers cells).next? i =
    if i < cells.length then some (i + 1) else none := by
  simp [next?, ofCells]

theorem prev?_eq (c : Chain ι) :
    c.prev? i = if c.prunes i = true ∧ 0 < i then some (i - 1) else none := by
  unfold prev? prunes
  cases c.cells[i]? <;> simp

theorem prev?_eq_some_iff {c : Chain ι} {i j : Nat} :
    c.prev? i = some j ↔ c.prunes i = true ∧ i = j + 1 := by
  rw [prev?_eq, Option.ite_none_right_eq_some]
  constructor
  · rintro ⟨⟨hp, hi⟩, hj⟩
    cases hj
    exact ⟨hp, by omega⟩
  · rintro ⟨hp, rfl⟩
    exact ⟨⟨hp, by omega⟩, rfl⟩

theorem getElem?_links :
    (ofCells triggers cells).links[i]? = (.head triggers :: cells)[i]?.map fun cell =>
      ⟨cell, if i < cells.length then some (i + 1) else none,
        if cell.isPrune = true ∧ 0 < i then some (i - 1) else none⟩ := by
  rw [links, List.getElem?_mapIdx, next?_ofCells]
  unfold prev? ofCells
  cases (.head triggers :: cells)[i]? <;> rfl

theorem links_ofCells_concat :
    (ofCells triggers (cells ++ [cell])).links =
      Link.behind (ofCells triggers cells).links cell := by
  have hlength : (ofCells triggers cells).links.length = cells.length + 1 := by
    simp [links, ofCells]
  apply List.ext_getElem?
  intro i
  rw [Link.behind, hlength, Nat.add_sub_cancel, getElem?_links, ← List.cons_append,
    List.getElem?_append, List.getElem?_append, List.length_modify, hlength, List.length_cons,
    List.length_append, List.length_singleton]
  -- A place of the shorter chain, where only the last link is new, the new place, or none.
  by_cases hi : i < cells.length + 1
  · rw [if_pos hi, if_pos hi, if_pos hi, List.getElem?_modify, getElem?_links]
    cases (.head triggers :: cells)[i]? with
    | none => rfl
    | some c =>
      by_cases hlast : cells.length = i
      · simp [hlast]
      · simp [hlast, (by omega : i < cells.length)]
  · rw [if_neg hi, if_neg hi, if_neg hi]
    by_cases hlast : i = cells.length + 1
    · simp [hlast]
    · have hpast : i - (cells.length + 1) ≠ 0 := by omega
      rw [List.getElem?_singleton, if_neg hpast, List.getElem?_singleton, if_neg hpast]
      rfl

/-- A chain is what comes of appending its cells one by one behind the head. -/
theorem links_ofCells :
    (ofCells triggers cells).links = cells.foldl Link.behind [⟨.head triggers, none, none⟩] := by
  induction cells using List.reverseRecOn with
  | nil => rfl
  | append_singleton cells cell ih =>
    rw [links_ofCells_concat, ih, List.foldl_append]
    rfl

end Linking

end Chain

def Query.label (q : Query) : String := if q.single then q.selector else "(" ++ q.selector ++ ")"

/-- What a cell behind the head is made for: a call in a phase, a query or an update. -/
inductive Directive where
  | call (phase : Phase) (c : Call)
  | query (q : Query)
  | update (u : Update)

namespace Directive

def label : Directive → String
  | call _ c => c.name
  | query q => q.label
  | update u => u.name

/-- The phase in whose table an instruction is looked up, and its name. A query needs none. -/
def lookup? : Directive → Option (Phase × String)
  | call phase c => some (phase, c.name)
  | query _ => none
  | update u => some (.update, u.name)

def Resolves (tables : Tables ι) (d : Directive) : Prop :=
  ∀ p ∈ d.lookup?, ((tables.table p.1).get? p.2).isSome = true

instance (tables : Tables ι) (d : Directive) : Decidable (d.Resolves tables) :=
  inferInstanceAs (Decidable (∀ p ∈ d.lookup?, ((tables.table p.1).get? p.2).isSome = true))

/-- The cell of a directive. A call takes what the arity of its instruction says, an update one
value whatever its instruction asks for, and a query at most one value that is set aside. -/
inductive Fits (tables : Tables ι) : Directive → Cell ι → Prop
  | call {phase c i} : (tables.table phase).get? c.name = some i →
      Fits tables (.call phase c)
        { op := .call i, label := c.name, args := c.args, want := i.arity.map Arity.count,
          rest := c.rest, isUpdate := false }
  | query (q) : Fits tables (.query q)
      { op := .query q, label := q.label, args := [], want := some (-1), rest := none,
        isUpdate := false }
  | update {u i} : (tables.table .update).get? u.name = some i →
      Fits tables (.update u)
        { op := .call i, label := u.name, args := u.args, want := some 1, rest := none,
          isUpdate := true }

theorem Fits.label_eq {tables : Tables ι} {d : Directive} {cell : Cell ι} (h : d.Fits tables cell) :
    cell.label = d.label := by
  cases h <;> rfl

theorem map_label_of_fits {tables : Tables ι} {directives : List Directive} {cells : List (Cell ι)}
    (h : List.Forall₂ (Fits tables) directives cells) :
    cells.map Cell.label = directives.map label := by
  induction h with
  | nil => rfl
  | cons hd _ ih => rw [List.map_cons, List.map_cons, hd.label_eq, ih]

end Directive

/-- What the texts of the three slots of a group say. -/
structure Contents extends Plan where
  target : Option Target

def Target.directives (t : Target) : List Directive :=
  .query t.query :: t.updates.map .update ++ t.calls.map (.call .next)

def Target.labels (t : Target) : List String :=
  t.query.label :: t.updates.map Update.name ++ t.calls.map Call.name

namespace Contents

/-- All that is said, in the order of the phases. -/
def directives (said : Contents) : List Directive :=
  said.onCalls.map (.call .on) ++ said.byCalls.map (.call .by) ++
    (said.target.map Target.directives).getD []

def labels (said : Contents) : List String :=
  said.onCalls.map Call.name ++ said.byCalls.map Call.name ++
    (said.target.map Target.labels).getD []

theorem map_label_directives (said : Contents) :
    said.directives.map Directive.label = said.labels := by
  have hcalls (phase : Phase) (calls : List Call) :
      (calls.map (.call phase)).map Directive.label = calls.map Call.name := List.map_map
  have hupdates (updates : List Update) :
      (updates.map .update).map Directive.label = updates.map Update.name := List.map_map
  rw [directives, labels, List.map_append, List.map_append, hcalls, hcalls]
  cases said.target with
  | none => rfl
  | some t =>
    simp only [Option.map_some, Option.getD_some, Target.directives, Target.labels, List.map_append,
      List.map_cons, hcalls, hupdates]
    rfl

end Contents

namespace Group

/-- The texts of the group can be read, as this. -/
structure Reads (g : Group) (said : Contents) : Prop where
  onText : Trigger.readSlot g.onText.toList = .ok (said.triggers, said.onCalls)
  byText : Call.readAll g.byText.toList = .ok said.byCalls
  toText : Target.read g.toText.toList = .ok said.target

/-- The error of the first text that cannot be read. -/
inductive Misread (g : Group) : Error → Prop
  | onText {e} : Trigger.readSlot g.onText.toList = .error e → Misread g e
  | byText {on e} : Trigger.readSlot g.onText.toList = .ok on →
      Call.readAll g.byText.toList = .error e → Misread g e
  | toText {on calls e} : Trigger.readSlot g.onText.toList = .ok on →
      Call.readAll g.byText.toList = .ok calls → Target.read g.toText.toList = .error e →
      Misread g e

/-- The first error of a group: of a text, else the first name that is not in its table. -/
inductive Fails (tables : Tables ι) (g : Group) : Error → Prop
  | text {e} : g.Misread e → Fails tables g e
  | name {said front d behind phase name} : g.Reads said →
      said.directives = front ++ d :: behind → (∀ earlier ∈ front, earlier.Resolves tables) →
      d.lookup? = some (phase, name) → (tables.table phase).get? name = none →
      Fails tables g (.unknownInstruction phase name)

theorem reads_or_misread (g : Group) : (∃ said, g.Reads said) ∨ ∃ e, g.Misread e := by
  cases hon : Trigger.readSlot g.onText.toList with
  | error e => exact .inr ⟨e, .onText hon⟩
  | ok on =>
    cases hby : Call.readAll g.byText.toList with
    | error e => exact .inr ⟨e, .byText hon hby⟩
    | ok calls =>
      cases hto : Target.read g.toText.toList with
      | error e => exact .inr ⟨e, .toText hon hby hto⟩
      | ok target => exact .inl ⟨⟨⟨on.1, on.2, calls⟩, target⟩, hon, hby, hto⟩

end Group

namespace Tables

variable {tables : Tables ι} {phase : Phase} {name : String}

theorem resolve_eq_ok_iff {i : Instruction ι} :
    tables.resolve phase name = .ok i ↔ (tables.table phase).get? name = some i := by
  unfold resolve
  cases (tables.table phase).get? name <;> simp

theorem resolve_eq_error_iff {e : Error} :
    tables.resolve phase name = .error e ↔
      (tables.table phase).get? name = none ∧ e = .unknownInstruction phase name := by
  unfold resolve
  cases (tables.table phase).get? name <;> simp [eq_comm]

end Tables

namespace Builder

variable {b : Builder ι} {d : Directive} {g : Group} {said : Contents}

def cellOf (b : Builder ι) : Directive → Except Error (Cell ι)
  | .call phase c => b.callCell phase c
  | .query q => .ok (.query q)
  | .update u => b.updateCell u

theorem cellOf_eq_ok_iff {cell : Cell ι} : b.cellOf d = .ok cell ↔ d.Fits b.tables cell := by
  cases d with
  | call phase c =>
    rw [cellOf, callCell, map_eq_ok_iff]
    constructor
    · rintro ⟨i, hi, rfl⟩
      exact .call (Tables.resolve_eq_ok_iff.mp hi)
    · intro h
      cases h with
      | call hi => exact ⟨_, Tables.resolve_eq_ok_iff.mpr hi, rfl⟩
  | query q =>
    constructor
    · rintro ⟨⟩
      exact .query q
    · rintro ⟨⟩
      rfl
  | update u =>
    rw [cellOf, updateCell, map_eq_ok_iff]
    constructor
    · rintro ⟨i, hi, rfl⟩
      exact .update (Tables.resolve_eq_ok_iff.mp hi)
    · intro h
      cases h with
      | update hi => exact ⟨_, Tables.resolve_eq_ok_iff.mpr hi, rfl⟩

theorem cellOf_eq_error_iff {e : Error} : b.cellOf d = .error e ↔
    ∃ phase name, d.lookup? = some (phase, name) ∧ (b.tables.table phase).get? name = none ∧
      e = .unknownInstruction phase name := by
  cases d with
  | call phase c =>
    rw [cellOf, callCell, map_eq_error_iff, Tables.resolve_eq_error_iff]
    simp [Directive.lookup?]
  | query q => simp [cellOf, Directive.lookup?]
  | update u =>
    rw [cellOf, updateCell, map_eq_error_iff, Tables.resolve_eq_error_iff]
    simp [Directive.lookup?]

theorem exists_cellOf_iff : (∃ cell, b.cellOf d = .ok cell) ↔ d.Resolves b.tables := by
  cases hcell : b.cellOf d with
  | ok cell =>
    refine iff_of_true ⟨cell, rfl⟩ fun p hlookup => ?_
    rw [Option.isSome_iff_ne_none]
    intro hnone
    have herror := cellOf_eq_error_iff.mpr ⟨p.1, p.2, hlookup, hnone, rfl⟩
    rw [hcell] at herror
    cases herror
  | error e =>
    obtain ⟨phase, name, hlookup, hnone, -⟩ := cellOf_eq_error_iff.mp hcell
    refine iff_of_false (fun ⟨_, h⟩ => nomatch h) fun hresolves => ?_
    have hsome := hresolves (phase, name) hlookup
    rw [hnone] at hsome
    cases hsome

theorem mapM_cellOf_call (b : Builder ι) (phase : Phase) (calls : List Call) :
    (calls.map (.call phase)).mapM b.cellOf = calls.mapM (b.callCell phase) := List.mapM_map

theorem mapM_cellOf_update (b : Builder ι) (updates : List Update) :
    (updates.map .update).mapM b.cellOf = updates.mapM b.updateCell := List.mapM_map

theorem targetCells_eq (b : Builder ι) (target : Option Target) :
    b.targetCells target = ((target.map Target.directives).getD []).mapM b.cellOf := by
  cases target with
  | none => rfl
  | some t =>
    rw [Option.map_some, Option.getD_some, Target.directives, List.cons_append, List.mapM_cons,
      List.mapM_append, mapM_cellOf_call, mapM_cellOf_update, targetCells]
    cases t.updates.mapM b.updateCell with
    | error e => rfl
    | ok updates => cases t.calls.mapM (b.callCell .next) <;> rfl

theorem link_eq (b : Builder ι) (said : Contents) :
    b.link said.triggers said.onCalls said.byCalls said.target =
      (said.directives.mapM b.cellOf).map (.ofCells said.triggers) := by
  rw [link, targetCells_eq, Contents.directives, List.mapM_append, List.mapM_append,
    mapM_cellOf_call, mapM_cellOf_call]
  cases said.onCalls.mapM (b.callCell .on) with
  | error e => rfl
  | ok on =>
    cases said.byCalls.mapM (b.callCell .by) with
    | error e => rfl
    | ok calls => cases ((said.target.map Target.directives).getD []).mapM b.cellOf <;> rfl

theorem compile_of_reads (h : g.Reads said) :
    b.compile g = (said.directives.mapM b.cellOf).map (.ofCells said.triggers) := by
  rw [compile, h.onText, h.byText, h.toText, ← link_eq]
  rfl

theorem compile_of_misread {e : Error} (h : g.Misread e) : b.compile g = .error e := by
  unfold compile
  rcases h with hon | ⟨hon, hby⟩ | ⟨hon, hby, hto⟩
  · rw [hon]
    rfl
  · rw [hon, hby]
    rfl
  · rw [hon, hby, hto]
    rfl

end Builder

/-- The chain that is laid for what a group says: a head, and behind it a cell for each directive,
all of them linked. -/
structure Chain.Lays (tables : Tables ι) (said : Contents) (c : Chain ι) : Prop where
  triggers : c.triggers = said.triggers
  cells : ∃ head behind, c.cells = head :: behind ∧ head.op = .start ∧ head.want = none ∧
    List.Forall₂ (Directive.Fits tables) said.directives behind
  labels : c.labels = said.labels
  size : c.size = c.labels.length + 1
  next : ∀ i, c.next? i = if i + 1 < c.size then some (i + 1) else none
  back : ∀ i j, c.prev? i = some j ↔ c.prunes i = true ∧ i = j + 1
  head : c.prunes 0 = false
  linked : c.links = c.cells.tail.foldl Link.behind [⟨.head said.triggers, none, none⟩]

theorem Chain.lays_ofCells {tables : Tables ι} {said : Contents} {cells : List (Cell ι)}
    (h : List.Forall₂ (Directive.Fits tables) said.directives cells) :
    (ofCells said.triggers cells).Lays tables said := by
  have hlabels : (ofCells said.triggers cells).labels = cells.map Cell.label := by
    unfold labels ofCells
    rw [reachedFrom_nil, List.tail_cons]
  have hsize : (ofCells said.triggers cells).size = cells.length + 1 := rfl
  refine ⟨rfl, ⟨_, cells, rfl, rfl, rfl, h⟩, ?_, ?_, fun i => ?_, fun i j => prev?_eq_some_iff,
    rfl, links_ofCells _ _⟩
  · rw [hlabels, ← said.map_label_directives, Directive.map_label_of_fits h]
  · rw [hsize, hlabels, List.length_map]
  · simp [next?_ofCells, hsize]

namespace Builder

variable {b : Builder ι} {g : Group} {said : Contents}

theorem compile_eq_ok_iff (h : g.Reads said) {c : Chain ι} : b.compile g = .ok c ↔
    ∃ cells, List.Forall₂ (Directive.Fits b.tables) said.directives cells ∧
      .ofCells said.triggers cells = c := by
  rw [compile_of_reads h, map_eq_ok_iff]
  simp only [mapM_eq_ok_iff, cellOf_eq_ok_iff]

theorem exists_compile_iff (h : g.Reads said) :
    (∃ c, b.compile g = .ok c) ↔ ∀ d ∈ said.directives, d.Resolves b.tables := by
  have hresolves := exists_mapM_eq_ok_iff (f := b.cellOf) (l := said.directives)
  simp only [exists_cellOf_iff] at hresolves
  rw [← hresolves, compile_of_reads h]
  simp only [map_eq_ok_iff]
  constructor
  · rintro ⟨c, cells, hcells, -⟩
    exact ⟨cells, hcells⟩
  · rintro ⟨cells, hcells⟩
    exact ⟨_, cells, hcells, rfl⟩

theorem compile_eq_error_iff {e : Error} : b.compile g = .error e ↔ g.Fails b.tables e := by
  constructor
  · intro h
    obtain ⟨said, hsaid⟩ | ⟨why, hmisread⟩ := g.reads_or_misread
    · rw [compile_of_reads hsaid, map_eq_error_iff, mapM_eq_error_iff] at h
      obtain ⟨front, d, behind, hsplit, hfront, herror⟩ := h
      obtain ⟨phase, name, hlookup, hnone, rfl⟩ := cellOf_eq_error_iff.mp herror
      exact .name hsaid hsplit (fun earlier hmem => exists_cellOf_iff.mp (hfront earlier hmem))
        hlookup hnone
    · rw [compile_of_misread hmisread] at h
      cases h
      exact .text hmisread
  · intro h
    cases h with
    | text hmisread => exact compile_of_misread hmisread
    | name hsaid hsplit hfront hlookup hnone =>
      rw [compile_of_reads hsaid, map_eq_error_iff, mapM_eq_error_iff]
      exact ⟨_, _, _, hsplit, fun earlier hmem => exists_cellOf_iff.mpr (hfront earlier hmem),
        cellOf_eq_error_iff.mpr ⟨_, _, hlookup, hnone, rfl⟩⟩

/-- A chain is compiled if and only if all texts can be read and all names are found. It is then
laid in the order of the phases, and otherwise the error is the first one. -/
theorem compile_in_phase_order (b : Builder ι) (g : Group) :
    ((∃ c, b.compile g = .ok c) ↔
      ∃ said, g.Reads said ∧ ∀ d ∈ said.directives, d.Resolves b.tables) ∧
    (∀ said c, g.Reads said → b.compile g = .ok c → c.Lays b.tables said) ∧
    ∀ e, b.compile g = .error e ↔ g.Fails b.tables e := by
  refine ⟨⟨?_, ?_⟩, ?_, fun e => compile_eq_error_iff⟩
  · rintro ⟨c, hc⟩
    obtain ⟨said, hsaid⟩ | ⟨why, hmisread⟩ := g.reads_or_misread
    · exact ⟨said, hsaid, (exists_compile_iff hsaid).mp ⟨c, hc⟩⟩
    · rw [compile_of_misread hmisread] at hc
      cases hc
  · rintro ⟨said, hsaid, hresolves⟩
    exact (exists_compile_iff hsaid).mpr hresolves
  · intro said c hsaid hc
    obtain ⟨cells, hcells, rfl⟩ := (compile_eq_ok_iff hsaid).mp hc
    exact Chain.lays_ofCells hcells

def cutting : Builder Unit where
  tables :=
    { on := .ofList [("push", .plain () (some (.take 2)))]
      calls := .ofList [("cut", .prune)]
      update := .ofList [("text", .plain () (some (.take 3)))]
      next := .ofList [("end", .plain () none)] }
  settings := .standard

def cuttingGroup : Group := ⟨"click|push('a')", "cut", "(li)|text|end"⟩

def cuttingContents : Contents where
  triggers := [⟨"click", none, false, false⟩]
  onCalls := [⟨"push", [.text "a"], none⟩]
  byCalls := [⟨"cut", [], none⟩]
  target := some ⟨⟨"li", false, none⟩, [⟨"text", []⟩], [⟨"end", [], none⟩]⟩

theorem cutting_compiled :
    cuttingGroup.Reads cuttingContents ∧
      (∀ d ∈ cuttingContents.directives, d.Resolves cutting.tables) ∧
      ∃ c, cutting.compile cuttingGroup = .ok c ∧ c.Lays cutting.tables cuttingContents ∧
        c.labels = ["push", "cut", "(li)", "text", "end"] ∧ c.prev? 2 = some 1 := by
  have hreads : cuttingGroup.Reads cuttingContents := ⟨by cbv, by cbv, by cbv⟩
  have hresolves : ∀ d ∈ cuttingContents.directives, d.Resolves cutting.tables := by
    decide +kernel
  have hprune : (cutting.compile cuttingGroup).toOption.map (·.prunes 2) = some true := by
    decide +kernel
  obtain ⟨hcompiles, hlays, -⟩ := compile_in_phase_order cutting cuttingGroup
  obtain ⟨c, hc⟩ := hcompiles.mpr ⟨_, hreads, hresolves⟩
  have hlaid := hlays _ c hreads hc
  rw [hc] at hprune
  exact ⟨hreads, hresolves, c, hc, hlaid, hlaid.labels,
    (hlaid.back 2 1).mpr ⟨Option.some.inj hprune, rfl⟩⟩

end Builder

end AttrChain
